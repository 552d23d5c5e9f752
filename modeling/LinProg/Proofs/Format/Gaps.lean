import LinProg.Proofs.Format.Lines
import LinProg.Proofs.Format.Tokens

/-!
# Gaps and lines

A parser does not work through lines: it skips the gap in front of each token. No gap goes past the
end of a line, and behind it the text says what it said in front of it. A record that a gap or the
end of its line follows is therefore what one line says.
-/

namespace LinProg.Format

open Grammar

/-! ### Gaps -/

/-- What is left of a text behind a gap. -/
def ungapped (text : List Char) : List Char := text.drop (gapLength text)

theorem gapLength_spaces {spaces : List Char} (h : Spaces spaces) (text : List Char) :
    gapLength (spaces ++ text) = spaces.length + gapLength text := by
  have htake : (spaces ++ text).takeWhile isSpace = spaces ++ text.takeWhile isSpace :=
    List.takeWhile_append_of_pos h
  unfold gapLength
  rw [htake, List.length_append]
  dsimp only
  rw [List.drop_length_add_append]
  split <;> simp [Nat.add_assoc]

theorem ungapped_spaces {spaces : List Char} (h : Spaces spaces) (text : List Char) :
    ungapped (spaces ++ text) = ungapped text := by
  unfold ungapped
  rw [gapLength_spaces h, List.drop_length_add_append]

theorem ungapped_of_gapFree {text : List Char} (h : GapFree text) : ungapped text = text := by
  unfold ungapped
  rw [gapLength_of_gapFree h, List.drop_zero]

theorem ungapped_comment {comment text : List Char} (hcomment : OnLine comment)
    (hend : AtEnd text) : ungapped ('#' :: (comment ++ text)) = text := by
  have hstop : text.takeWhile (!endsLine ·) = [] := by
    cases text with
    | nil => rfl
    | cons c text => exact List.takeWhile_cons_of_neg (by simp [hend c rfl])
  have htake : (comment ++ text).takeWhile (!endsLine ·) = comment := by
    rw [List.takeWhile_append_of_pos fun c hc => by simp [hcomment c hc], hstop, List.append_nil]
  have hlength : gapLength ('#' :: (comment ++ text)) = 1 + comment.length := by
    simp [gapLength, htake, isSpace]
  unfold ungapped
  rw [hlength, Nat.add_comm, List.drop_succ_cons, List.drop_left]

theorem AtEnd.gapFree {text : List Char} (h : AtEnd text) : GapFree text := by
  intro c hc
  have hend := h c hc
  simp only [endsLine, Bool.or_eq_true, decide_eq_true_eq] at hend
  rcases hend with rfl | rfl <;> decide

/-- A gap is made of spaces and tabs, and it may have a comment up to the end of the line. -/
theorem gap_cases (text : List Char) :
    ∃ spaces rest, Spaces spaces ∧ text = spaces ++ rest ∧
      (GapFree rest ∨ ∃ comment behind, rest = '#' :: (comment ++ behind) ∧ OnLine comment ∧
        AtEnd behind) := by
  obtain ⟨spaces, hspaces, htext⟩ := exists_spaces text
  refine ⟨spaces, _, hspaces, htext, ?_⟩
  have hhead := List.head?_dropWhile_not isSpace text
  cases hrest : text.dropWhile isSpace with
  | nil => exact .inl nofun
  | cons c rest =>
      rw [hrest] at hhead
      by_cases hhash : c = '#'
      · obtain ⟨comment, behind, rfl, hcomment, hend⟩ := exists_line rest
        exact .inr ⟨comment, behind, by rw [hhash], hcomment, hend⟩
      · exact .inl (gapFree_cons ⟨by simpa using hhead, hhash⟩)

theorem gapFree_ungapped (text : List Char) : GapFree (ungapped text) := by
  obtain ⟨spaces, rest, hspaces, rfl, hfree | ⟨comment, behind, rfl, hcomment, hend⟩⟩ :=
    gap_cases text
  · rwa [ungapped_spaces hspaces, ungapped_of_gapFree hfree]
  · rw [ungapped_spaces hspaces, ungapped_comment hcomment hend]
    exact hend.gapFree

theorem ungapped_ungapped (text : List Char) : ungapped (ungapped text) = ungapped text :=
  ungapped_of_gapFree (gapFree_ungapped text)

/-- No word of the line is lost with a gap. -/
theorem contents_ungapped (text : List Char) : contents (ungapped text) = contents text := by
  obtain ⟨spaces, rest, hspaces, rfl, hfree | ⟨comment, behind, rfl, hcomment, hend⟩⟩ :=
    gap_cases text
  · obtain ⟨line, behind, rfl, hline, hend⟩ := exists_line rest
    have hfront : OnLine (spaces ++ line) := hspaces.onLine.append hline
    rw [ungapped_spaces hspaces, ungapped_of_gapFree hfree, ← List.append_assoc,
      contents_append hline hend, contents_append hfront hend, content_append_spaces hspaces]
  · have hfront : OnLine (spaces ++ '#' :: comment) :=
      hspaces.onLine.append (List.forall_mem_cons.mpr ⟨by decide, hcomment⟩)
    have hcontent : content (spaces ++ '#' :: comment) = [] := by
      rw [content_append_spaces hspaces]
      rfl
    rw [ungapped_spaces hspaces, ungapped_comment hcomment hend, ← List.cons_append,
      ← List.append_assoc, contents_append hfront hend, if_pos hcontent]

/-! ### Records -/

/-- Up to a gap, there is nothing more on the line. -/
def BlankAhead (text : List Char) : Prop := AtEnd (ungapped text)

/-- A piece of a line that starts and ends with a token, and in which each label is closed. -/
structure Solid (piece : List Char) : Prop where
  begins : BeginsRecord piece
  ends : ∀ c ∈ piece.getLast?, isSpace c = false
  onLine : OnLine piece
  closed : ∀ text, uncommented false (piece ++ text) = piece ++ uncommented false text

theorem Solid.head_eq_false {piece : List Char} (h : Solid piece) :
    ∀ c ∈ piece.head?, isSpace c = false := by
  obtain ⟨c, cs, rfl, hc, -⟩ := h.begins
  intro d hd
  obtain rfl := Option.some.inj hd
  exact hc.1

theorem Solid.ne_nil {piece : List Char} (h : Solid piece) : piece ≠ [] := by
  obtain ⟨c, cs, rfl, -⟩ := h.begins
  exact List.cons_ne_nil c cs

theorem exists_blank {text : List Char} (h : BlankAhead text) :
    ∃ blank, text = blank ++ ungapped text ∧ OnLine blank ∧ Spaces (uncommented false blank) := by
  obtain ⟨spaces, rest, hspaces, rfl, hfree | ⟨comment, behind, rfl, hcomment, hend⟩⟩ :=
    gap_cases text
  · refine ⟨spaces, ?_, hspaces.onLine, ?_⟩
    · rw [ungapped_spaces hspaces, ungapped_of_gapFree hfree]
    · rw [← List.append_nil spaces, uncommented_spaces hspaces]
      exact List.forall_mem_append.mpr ⟨hspaces, nofun⟩
  · refine ⟨spaces ++ '#' :: comment, ?_, ?_, ?_⟩
    · rw [ungapped_spaces hspaces, ungapped_comment hcomment hend, List.append_assoc,
        List.cons_append]
    · exact hspaces.onLine.append (List.forall_mem_cons.mpr ⟨by decide, hcomment⟩)
    · rw [uncommented_spaces hspaces]
      exact List.forall_mem_append.mpr ⟨hspaces, nofun⟩

/-- A record that is alone on its line is what the line says. -/
theorem contents_record {spaces record text : List Char} (hspaces : Spaces spaces)
    (hrecord : Solid record) (hblank : BlankAhead text) :
    contents (spaces ++ (record ++ text)) = record :: contents text := by
  obtain ⟨blank, htext, hline, hback⟩ := exists_blank hblank
  have hfront : OnLine (spaces ++ (record ++ blank)) :=
    hspaces.onLine.append (hrecord.onLine.append hline)
  have hcontent : content (spaces ++ (record ++ blank)) = record := by
    unfold content
    rw [uncommented_spaces hspaces, hrecord.closed]
    exact trimmed_append hspaces hback hrecord.head_eq_false hrecord.ends
  have hsplit : spaces ++ (record ++ text)
      = spaces ++ (record ++ blank) ++ ungapped text := by
    conv_lhs => rw [htext]
    simp
  rw [hsplit, contents_append hfront hblank, hcontent, if_neg hrecord.ne_nil, contents_ungapped]

/-- No line end in front of the next record, and no gap that hides one. -/
def AtRecord (text : List Char) : Prop := lineEndLength? (ungapped text) = none

theorem eq_nil_of_atEnd {text : List Char} (hend : AtEnd text)
    (hnone : lineEndLength? text = none) : text = [] := by
  cases text with
  | nil => rfl
  | cons c text =>
      have hfalse := lineEndLength?_eq_none_iff.mp hnone c rfl
      rw [hend c rfl] at hfalse
      cases hfalse

theorem ungapped_blank {spaces comment text : List Char} (hspaces : Spaces spaces)
    (hcomment : OnLine comment) (hhash : ∀ c ∈ comment.head?, c = '#') (hend : AtEnd text) :
    ungapped (spaces ++ (comment ++ text)) = text := by
  rw [ungapped_spaces hspaces]
  cases comment with
  | nil => exact ungapped_of_gapFree hend.gapFree
  | cons c comment =>
      obtain rfl := hhash c rfl
      exact ungapped_comment (List.forall_mem_cons.mp hcomment).2 hend

/-- What a line says stands in front of what a gap takes. -/
theorem exists_content {line behind : List Char} (hline : OnLine line) (hend : AtEnd behind) :
    ∃ spaces blank, Spaces spaces ∧ line = spaces ++ (content line ++ blank) ∧
      ungapped (blank ++ behind) = behind := by
  obtain ⟨comment, hcomment, hhash⟩ := exists_comment false line
  obtain ⟨front, back, hfront, hback, hkept⟩ := exists_trimmed (uncommented false line)
  have honLine : OnLine comment := by
    rw [hcomment] at hline
    exact (List.forall_mem_append.mp hline).2
  refine ⟨front, back ++ comment, hfront, ?_, ?_⟩
  · conv_lhs => rw [hcomment, hkept]
    simp [content]
  · rw [List.append_assoc]
    exact ungapped_blank hback honLine hhash hend

theorem ungapped_of_content_eq_nil {line behind : List Char} (hline : OnLine line)
    (hend : AtEnd behind) (hempty : content line = []) : ungapped (line ++ behind) = behind := by
  obtain ⟨spaces, blank, hspaces, hsplit, hblank⟩ := exists_content hline hend
  rw [hempty, List.nil_append] at hsplit
  rw [hsplit, List.append_assoc, ungapped_spaces hspaces, hblank]

/-- Where no line end is ahead, an empty line is the last one. -/
theorem ungapped_eq_nil {line behind : List Char} (hat : AtRecord (line ++ behind))
    (hline : OnLine line) (hend : AtEnd behind) (hempty : content line = []) :
    ungapped (line ++ behind) = [] := by
  have hbehind := ungapped_of_content_eq_nil hline hend hempty
  unfold AtRecord at hat
  rw [hbehind] at hat ⊢
  exact eq_nil_of_atEnd hend hat

theorem contents_of_ungapped_eq_nil {text : List Char} (h : ungapped text = []) :
    contents text = [] := by
  rw [← contents_ungapped, h]
  rfl

theorem ungapped_eq_nil_of_contents {text : List Char} (hat : AtRecord text)
    (hnothing : contents text = []) : ungapped text = [] := by
  obtain ⟨line, behind, rfl, hline, hend⟩ := exists_line text
  refine ungapped_eq_nil hat hline hend ?_
  by_contra hne
  rw [contents_append hline hend, if_neg hne] at hnothing
  cases hnothing

theorem exists_record {text record : List Char} {others : List (List Char)} (hat : AtRecord text)
    (hcontents : contents text = record :: others) :
    ∃ spaces rest, Spaces spaces ∧ text = spaces ++ (record ++ rest) ∧ BlankAhead rest ∧
      contents rest = others := by
  obtain ⟨line, behind, rfl, hline, hend⟩ := exists_line text
  have hne : content line ≠ [] := by
    intro hempty
    rw [contents_of_ungapped_eq_nil (ungapped_eq_nil hat hline hend hempty)] at hcontents
    cases hcontents
  rw [contents_append hline hend, if_neg hne] at hcontents
  obtain ⟨rfl, rfl⟩ := List.cons.inj hcontents
  obtain ⟨spaces, blank, hspaces, hsplit, hblank⟩ := exists_content hline hend
  refine ⟨spaces, blank ++ behind, hspaces, ?_, ?_, ?_⟩
  · conv_lhs => rw [hsplit]
    simp
  · unfold BlankAhead
    rwa [hblank]
  · rw [← contents_ungapped, hblank]

end LinProg.Format
