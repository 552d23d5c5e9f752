import LinProg.Proofs.Format.Gaps

/-!
# The line of a record

The lines of a text are counted by line feeds alone, while a carriage return ends a line too. So a
record is counted to the piece between two line feeds that it stands in. Neither a gap nor the end of
a line moves a record to another line.
-/

namespace LinProg.Format

open LinProg.Format.Parser LinProg.Format.Grammar

/-- What a text says, each record with the number of its line. The line where the text starts has the
given number. -/
def recordsFrom (first : Nat) (text : List Char) : List (Nat × List Char) :=
  ((text.splitOn '\n').zipIdx first).flatMap fun (piece, n) => (contents piece).map (n, ·)

theorem recordsFrom_nil (first : Nat) : recordsFrom first [] = [] := by
  unfold recordsFrom
  rw [List.splitOn_nil]
  rfl

theorem recordsFrom_feed (first : Nat) {piece : List Char} (hpiece : '\n' ∉ piece)
    (text : List Char) :
    recordsFrom first (piece ++ '\n' :: text)
      = (contents piece).map (first, ·) ++ recordsFrom (first + 1) text := by
  have hsplit : (piece ++ '\n' :: text).splitOn '\n' = piece :: text.splitOn '\n' := by
    rw [List.splitOn_append_cons_self, List.splitOn_eq_singleton hpiece]
    rfl
  unfold recordsFrom
  rw [hsplit, List.zipIdx_cons, List.flatMap_cons]

/-- Up to the first line feed the records of a text are on the line where it starts. -/
theorem recordsFrom_append (first : Nat) {piece tail : List Char} (hpiece : '\n' ∉ piece)
    (htail : ∀ c ∈ tail.head?, c = '\n') :
    recordsFrom first (piece ++ tail)
      = (contents piece).map (first, ·) ++ recordsFrom first tail := by
  cases tail with
  | nil =>
      rw [List.append_nil, recordsFrom_nil, List.append_nil]
      unfold recordsFrom
      rw [List.splitOn_eq_singleton hpiece]
      exact List.append_nil _
  | cons c tail =>
      obtain rfl := htail c rfl
      have hfeed := recordsFrom_feed first List.not_mem_nil tail
      rw [recordsFrom_feed first hpiece]
      exact congrArg (_ ++ ·) hfeed.symm

theorem exists_piece (text : List Char) :
    ∃ piece tail, text = piece ++ tail ∧ '\n' ∉ piece ∧ ∀ c ∈ tail.head?, c = '\n' := by
  refine ⟨text.takeWhile (· ≠ '\n'), text.dropWhile (· ≠ '\n'),
    List.takeWhile_append_dropWhile.symm, ?_, ?_⟩
  · intro hmem
    simpa using List.mem_takeWhile_imp hmem
  · intro c hc
    have hhead := List.head?_dropWhile_not (· ≠ '\n') text
    rw [Option.mem_def.mp hc] at hhead
    simpa using hhead

theorem OnLine.feed_not_mem {cs : List Char} (h : OnLine cs) : '\n' ∉ cs :=
  fun hmem => absurd (h _ hmem) (by decide)

theorem AtEnd.append {cs ds : List Char} (hc : AtEnd cs) (hd : AtEnd ds) : AtEnd (cs ++ ds) := by
  cases cs with
  | nil => exact hd
  | cons c cs => exact hc

theorem atEnd_of_feed {tail : List Char} (h : ∀ c ∈ tail.head?, c = '\n') : AtEnd tail := by
  intro c hc
  rw [h c hc]
  rfl

/-! ### Gaps and records -/

/-- A gap does not go past a line feed. -/
theorem ungapped_append {tail : List Char} (piece : List Char)
    (htail : ∀ c ∈ tail.head?, c = '\n') : ungapped (piece ++ tail) = ungapped piece ++ tail := by
  have hend : AtEnd tail := atEnd_of_feed htail
  obtain ⟨spaces, rest, hspaces, rfl, hfree | ⟨comment, behind, rfl, hcomment, hbehind⟩⟩ :=
    gap_cases piece
  · have hfree' : GapFree (rest ++ tail) := by
      cases rest with
      | nil => exact hend.gapFree
      | cons c rest => exact hfree
    rw [List.append_assoc, ungapped_spaces hspaces, ungapped_spaces hspaces,
      ungapped_of_gapFree hfree, ungapped_of_gapFree hfree']
  · rw [List.append_assoc, List.cons_append, List.append_assoc, ungapped_spaces hspaces,
      ungapped_spaces hspaces, ungapped_comment hcomment hbehind,
      ungapped_comment hcomment (hbehind.append hend)]

theorem feed_not_mem_ungapped {piece : List Char} (h : '\n' ∉ piece) : '\n' ∉ ungapped piece :=
  fun hmem => h (List.mem_of_mem_drop hmem)

theorem recordsFrom_ungapped (first : Nat) (text : List Char) :
    recordsFrom first (ungapped text) = recordsFrom first text := by
  obtain ⟨piece, tail, rfl, hpiece, htail⟩ := exists_piece text
  rw [ungapped_append piece htail, recordsFrom_append first hpiece htail,
    recordsFrom_append first (feed_not_mem_ungapped hpiece) htail, contents_ungapped]

theorem recordsFrom_congr (first : Nat) {text text' : List Char}
    (heq : ungapped text' = ungapped text) : recordsFrom first text' = recordsFrom first text := by
  rw [← recordsFrom_ungapped, heq, recordsFrom_ungapped]

/-- A record that is alone on its line stands on the line where the text starts. -/
theorem recordsFrom_record (first : Nat) {spaces record text : List Char} (hspaces : Spaces spaces)
    (hrecord : Solid record) (hblank : BlankAhead text) :
    recordsFrom first (spaces ++ (record ++ text)) = (first, record) :: recordsFrom first text := by
  obtain ⟨piece, tail, rfl, hpiece, htail⟩ := exists_piece text
  have hblank' : BlankAhead piece := by
    unfold BlankAhead at hblank ⊢
    rw [ungapped_append piece htail] at hblank
    cases hungapped : ungapped piece with
    | nil => exact nofun
    | cons c cs =>
        rw [hungapped] at hblank
        exact hblank
  have hfront : '\n' ∉ spaces ++ (record ++ piece) := by
    simp only [List.mem_append, not_or]
    exact ⟨hspaces.onLine.feed_not_mem, hrecord.onLine.feed_not_mem, hpiece⟩
  have hsplit : spaces ++ (record ++ (piece ++ tail)) = spaces ++ (record ++ piece) ++ tail := by
    simp
  rw [hsplit, recordsFrom_append first hfront htail, contents_record hspaces hrecord hblank',
    recordsFrom_append first hpiece htail]
  rfl

/-! ### Line ends -/

/-- A line feed behind a carriage return makes no difference to what the lines say. -/
theorem contents_cons_of_endsLine {c : Char} (hc : endsLine c = true) (text : List Char) :
    contents (c :: text) = contents text := by
  simp only [endsLine, Bool.or_eq_true, decide_eq_true_eq] at hc
  have hfeed (rest : List Char) : contents ('\n' :: rest) = contents rest :=
    (contents_lineEnd (n := 1) rfl).symm
  rcases hc with rfl | rfl
  · exact hfeed text
  · cases hend : lineEndLength? ('\r' :: text) with
    | none => exact absurd (lineEndLength?_eq_none_iff.mp hend '\r' rfl) (by decide)
    | some n =>
        have hdrop := contents_lineEnd hend
        unfold lineEndLength? at hend
        split at hend
        · next heq => simp at heq
        · next rest heq =>
            obtain rfl := (List.cons.inj heq).2
            obtain rfl := Option.some.inj hend
            rw [hfeed, ← hdrop]
            rfl
        · obtain rfl := Option.some.inj hend
          exact hdrop.symm
        · cases hend

theorem contents_append_of_feed {tail : List Char} (htail : ∀ c ∈ tail.head?, c = '\n')
    (piece : List Char) : contents (piece ++ tail) = contents piece ++ contents tail := by
  have hend : AtEnd tail := atEnd_of_feed htail
  obtain ⟨line, behind, rfl, hline, hbehind⟩ := exists_line piece
  -- the lines of the piece, one after the other
  have hothers : contents (behind ++ tail) = contents behind ++ contents tail := by
    cases behind with
    | nil => rfl
    | cons c cs =>
        have hc : endsLine c = true := hbehind c rfl
        rw [List.cons_append, contents_cons_of_endsLine hc, contents_cons_of_endsLine hc]
        exact contents_append_of_feed htail cs
  rw [List.append_assoc, contents_append hline (hbehind.append hend),
    contents_append hline hbehind, hothers]
  split <;> rfl
termination_by piece.length

theorem recordsFrom_cons_feed (first : Nat) (text : List Char) :
    recordsFrom first ('\n' :: text) = recordsFrom (first + 1) text :=
  recordsFrom_feed first List.not_mem_nil text

theorem recordsFrom_cons_return (first : Nat) (text : List Char) :
    recordsFrom first ('\r' :: text) = recordsFrom first text := by
  obtain ⟨piece, tail, rfl, hpiece, htail⟩ := exists_piece text
  have hfront : '\n' ∉ '\r' :: piece := by simp [hpiece]
  rw [← List.cons_append, recordsFrom_append first hfront htail,
    recordsFrom_append first hpiece htail, contents_cons_of_endsLine (by decide)]

theorem recordsFrom_lineEnd (first : Nat) {text : List Char} {n : Nat}
    (hn : lineEndLength? text = some n) :
    recordsFrom (first + Cursor.lineFeeds (text.take n)) (text.drop n) = recordsFrom first text := by
  unfold lineEndLength? at hn
  split at hn
  · obtain rfl := Option.some.inj hn
    exact (recordsFrom_cons_feed first _).symm
  · obtain rfl := Option.some.inj hn
    rw [recordsFrom_cons_return, recordsFrom_cons_feed]
    rfl
  · obtain rfl := Option.some.inj hn
    exact (recordsFrom_cons_return first _).symm
  · cases hn

/-- Without the numbers the records are what the lines say. -/
theorem map_snd_recordsFrom (first : Nat) (text : List Char) :
    (recordsFrom first text).map Prod.snd = contents text := by
  obtain ⟨piece, tail, rfl, hpiece, htail⟩ := exists_piece text
  rw [recordsFrom_append first hpiece htail, contents_append_of_feed htail, List.map_append,
    List.map_map]
  have hpieces : (contents piece).map (Prod.snd ∘ (first, ·)) = contents piece := List.map_id _
  rw [hpieces]
  congr 1
  cases tail with
  | nil =>
      rw [recordsFrom_nil]
      rfl
  | cons c tail =>
      obtain rfl := htail c rfl
      rw [recordsFrom_cons_feed, contents_cons_of_endsLine (by decide)]
      exact map_snd_recordsFrom (first + 1) tail
termination_by text.length

end LinProg.Format
