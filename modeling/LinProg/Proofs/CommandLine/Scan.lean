import LinProg.CommandLine.Report
import LinProg.Proofs.CommandLine.Marks
import LinProg.Proofs.Format.Counts

/-!
# What a command line asks for, word by word

The words are gone through from left to right as they stand on the command line. What they tell is
what the options hold, but for one thing: an old spelling of a direction is replaced by the present
one even where it is the name of a file.
-/

namespace LinProg.CommandLine

/-- What the words so far ask for. -/
structure Scan where
  pending : Option Direction
  files : List String
  deriving DecidableEq

/-- The direction that a word of an option stands for. -/
def directionFlag? (word : String) : Option Direction :=
  if word = "--minimize" ∨ word = "--min" then some .minimize
  else if word = "--maximize" ∨ word = "--max" then some .maximize
  else oldDirection? word

/-- A word that looks like an option. A lone dash is the name of a file. -/
def Dashed (word : String) : Prop := word.toList.head? = some '-' ∧ word ≠ "-"

instance (word : String) : Decidable (Dashed word) := instDecidableAnd

namespace Scan

def start : Scan := ⟨none, []⟩

def file (s : Scan) (name : String) : Scan := ⟨none, s.files ++ [name]⟩

/-- Goes through words from left to right. -/
def words (s : Scan) : List String → Scan
  | [] => s
  | word :: rest =>
    if word = "--" then rest.foldl file s
    else
      match directionFlag? word with
      | some d => words { s with pending := some d } rest
      | none =>
        if word = "--max-iterations" ∨ word = "--tolerance" then
          match rest with
          | [] => s
          | _ :: rest => words s rest
        else if Dashed word then words s rest
        else words (s.file word) rest

theorem words_cons (s : Scan) (word : String) (rest : List String) :
    s.words (word :: rest) =
      if word = "--" then rest.foldl file s
      else
        match directionFlag? word with
        | some d => words { s with pending := some d } rest
        | none =>
          if word = "--max-iterations" ∨ word = "--tolerance" then s.words rest.tail
          else if Dashed word then s.words rest
          else (s.file word).words rest := by
  cases rest with
  | nil => simp only [words, List.tail_nil]
  | cons value rest => rw [words, List.tail_cons]

end Scan

/-! ### One word -/

section Words

variable {o o' : Options} {word name value : String} {rest : List String} {d : Direction}

theorem modernise_of_none (h : oldDirection? word = none) : modernise word = word := by
  unfold modernise
  rw [oldSpelling?_eq, h]

theorem modernise_of_some (h : oldDirection? word = some d) : modernise word = "--" ++ d.text := by
  unfold modernise
  rw [oldSpelling?_eq, h]

/-- The present spelling is not an old one. -/
theorem oldDirection?_modernise (word : String) : oldDirection? (modernise word) = none := by
  cases h : oldDirection? word with
  | none => rwa [modernise_of_none h]
  | some d =>
      rw [modernise_of_some h]
      cases d <;> decide

theorem marks_addFlag (h : o.addFlag name = .ok o')
    (hname : name ∉ ["minimize", "min", "maximize", "max"]) : o'.marks = o.marks := by
  unfold Options.addFlag at h
  split at h
  · exact absurd List.mem_cons_self hname
  · simp at hname
  · simp at hname
  · simp at hname
  · rw [← Except.ok.inj h]
  · rw [← Except.ok.inj h]
  · exact absurd h nofun
  · exact absurd h nofun
  · exact absurd h nofun

theorem marks_addLetter {c : Char} (h : o.addLetter c = .ok o') : o'.marks = o.marks := by
  unfold Options.addLetter at h
  split at h
  · exact marks_addFlag h (by decide)
  · exact absurd h nofun
  · exact absurd h nofun
  · exact absurd h nofun

theorem marks_addLetters {letters : List Char} (h : letters.foldlM Options.addLetter o = .ok o') :
    o'.marks = o.marks := by
  induction letters generalizing o with
  | nil => rw [← Except.ok.inj h]
  | cons c letters ih =>
      rw [List.foldlM_cons] at h
      obtain ⟨next, hnext, hrest⟩ := bind_eq_ok_iff.mp h
      rw [ih hrest, marks_addLetter hnext]

theorem marks_addValue (h : o.addValue name value = .ok o') : o'.marks = o.marks := by
  unfold Options.addValue at h
  split at h
  · cases hcount : Options.count? value with
    | none => exact absurd (hcount ▸ h) nofun
    | some limit =>
        rw [hcount] at h
        rw [← Except.ok.inj h]
        rfl
  · cases hnumber : Binary64.ofText? value with
    | none => exact absurd (hnumber ▸ h) nofun
    | some tolerance =>
        rw [hnumber] at h
        rw [← Except.ok.inj h]
        rfl
  · exact absurd h nofun

/-- The look of a word, by its first characters. -/
inductive Looks (word : String) : Token → Prop where
  | ending (h : word = "--") : Looks word .ending
  | long (name : String) (value : Option String) (hdash : Dashed word)
      (h : value = none → word = "--" ++ name) : Looks word (.long name value)
  | short (letters : List Char) (h : Dashed word) : Looks word (.short letters)
  | plain (h : ¬ Dashed word) : Looks word (.plain word)

theorem looks_ofText (word : String) : Looks word (Token.ofText word) := by
  unfold Token.ofText
  split
  · next h => exact .ending (String.toList_inj.mp h)
  · next body _ h =>
      have hdash : word ≠ "-" := by
        rintro rfl
        exact absurd (List.cons.inj h).2 nofun
      refine .long _ _ ⟨by rw [h]; rfl, hdash⟩ fun hnone => ?_
      apply String.toList_inj.mp
      rw [h]
      cases hbody : body.dropWhile (· ≠ '=') with
      | cons c value =>
          rw [hbody] at hnone
          exact absurd hnone nofun
      | nil =>
          show _ = ("--" ++ String.ofList body).toList
          rw [String.toList_append, String.toList_ofList, String.toList_ofList]
          rfl
  · next h =>
      have hword : word = "-" := String.toList_inj.mp h
      exact .plain fun hdash => hdash.2 hword
  · next letters _ _ hne h =>
      refine .short letters ⟨by rw [h]; rfl, ?_⟩
      rintro rfl
      exact hne (List.cons.inj h).2.symm
  · next h =>
      refine .plain fun hdash => ?_
      obtain ⟨letters, hletters⟩ := List.head?_eq_some_iff.mp hdash.1
      exact h letters hletters

theorem word_of_ending (h : Token.ofText word = .ending) : word = "--" := by
  have hlooks := looks_ofText word
  rw [h] at hlooks
  cases hlooks with
  | ending hword => exact hword

theorem word_of_long (h : Token.ofText word = .long name none) : word = "--" ++ name := by
  have hlooks := looks_ofText word
  rw [h] at hlooks
  cases hlooks with
  | long _ _ _ hword => exact hword rfl

theorem not_dashed_of_plain (h : Token.ofText word = .plain name) : ¬ Dashed word := by
  have hlooks := looks_ofText word
  rw [h] at hlooks
  cases hlooks with
  | plain hplain => exact hplain

theorem plain_of_not_dashed (hplain : ¬ Dashed word) : Token.ofText word = .plain word := by
  have hlooks := looks_ofText word
  generalize Token.ofText word = token at hlooks
  cases hlooks with
  | ending hword => exact absurd (hword ▸ ⟨rfl, by decide⟩) hplain
  | long _ _ hdash _ => exact absurd hdash hplain
  | short _ hdash => exact absurd hdash hplain
  | plain _ => rfl

/-! ### The words of an option -/

theorem read_path (htoken : Token.ofText word = .plain name) :
    o.read (word :: rest) = o.addFile name >>= (·.read rest) := by
  rw [Options.read, htoken]

theorem read_letters {letters : List Char} (htoken : Token.ofText word = .short letters) :
    o.read (word :: rest) = letters.foldlM Options.addLetter o >>= (·.read rest) := by
  rw [Options.read, htoken]

theorem read_joined (htoken : Token.ofText word = .long name (some value))
    (h : o.read (word :: rest) = .ok o') : o.addValue name value >>= (·.read rest) = .ok o' := by
  rw [Options.read, htoken] at h
  by_cases hneeds : Options.needsValue name = true
  · simpa only [hneeds, if_true] using h
  · simp only [hneeds] at h
    exact absurd h nofun

theorem read_flag {word : String} (name : String) (htoken : Token.ofText word = .long name none)
    (hneeds : ¬ Options.needsValue name = true) :
    o.read (word :: rest) = o.addFlag name >>= (·.read rest) := by
  rw [Options.read, htoken]
  simp only [hneeds]
  rfl

/-- A word for a direction, in any of its spellings, adds the direction. -/
theorem read_direction (h : directionFlag? word = some d) :
    o.read (modernise word :: rest) = (o.mark (.direction d)).read rest := by
  have hpresent : (modernise word = "--minimize" ∨ modernise word = "--min") ∧ d = .minimize ∨
      (modernise word = "--maximize" ∨ modernise word = "--max") ∧ d = .maximize := by
    unfold directionFlag? at h
    split at h
    · next hword =>
        have hsame : modernise word = word := by
          apply modernise_of_none
          rcases hword with rfl | rfl <;> decide
        rw [hsame]
        exact .inl ⟨hword, (Option.some.inj h).symm⟩
    · split at h
      · next hword =>
          have hsame : modernise word = word := by
            apply modernise_of_none
            rcases hword with rfl | rfl <;> decide
          rw [hsame]
          exact .inr ⟨hword, (Option.some.inj h).symm⟩
      · rw [modernise_of_some h]
        cases d
        · exact .inl ⟨.inl rfl, rfl⟩
        · exact .inr ⟨.inl rfl, rfl⟩
  rcases hpresent with ⟨hword | hword, rfl⟩ | ⟨hword | hword, rfl⟩
  · rw [hword, read_flag "minimize" (by decide) (by decide)]
    rfl
  · rw [hword, read_flag "min" (by decide) (by decide)]
    rfl
  · rw [hword, read_flag "maximize" (by decide) (by decide)]
    rfl
  · rw [hword, read_flag "max" (by decide) (by decide)]
    rfl

/-- An option whose value stands in the next word. -/
theorem read_valued (hword : word = "--max-iterations" ∨ word = "--tolerance") {words : List String}
    (h : o.read (modernise word :: words) = .ok o') :
    ∃ (value : String) (rest : List String) (next : Options),
      words = value :: rest ∧ next.marks = o.marks ∧ next.read rest = .ok o' := by
  have hname : ∃ name, Token.ofText (modernise word) = .long name none ∧
      Options.needsValue name = true := by
    rcases hword with rfl | rfl
    · rw [modernise_of_none (by decide)]
      exact ⟨"max-iterations", by decide, by decide⟩
    · rw [modernise_of_none (by decide)]
      exact ⟨"tolerance", by decide, by decide⟩
  obtain ⟨name, htoken, hneeds⟩ := hname
  rw [Options.read, htoken] at h
  simp only [hneeds, if_true] at h
  split at h
  · exact absurd h nofun
  · next value rest =>
      split at h
      · obtain ⟨next, hnext, hrest⟩ := bind_eq_ok_iff.mp h
        exact ⟨value, rest, next, rfl, marks_addValue hnext, hrest⟩
      · exact absurd h nofun

theorem modernise_of_directionFlag? (h : directionFlag? word = none) : modernise word = word := by
  unfold directionFlag? at h
  split at h
  · exact absurd h nofun
  · split at h
    · exact absurd h nofun
    · exact modernise_of_none h

/-- A word that looks like an option and is none of the above leaves the marks as they are. -/
theorem read_other (hdash : Dashed word) (hend : word ≠ "--")
    (hdirection : directionFlag? word = none)
    (hvalued : ¬ (word = "--max-iterations" ∨ word = "--tolerance"))
    (h : o.read (modernise word :: rest) = .ok o') :
    ∃ next : Options, next.marks = o.marks ∧ next.read rest = .ok o' := by
  rw [modernise_of_directionFlag? hdirection] at h
  cases htoken : Token.ofText word with
  | ending => exact absurd (word_of_ending htoken) hend
  | plain name => exact absurd hdash (not_dashed_of_plain htoken)
  | short letters =>
      rw [read_letters htoken] at h
      obtain ⟨next, hnext, hrest⟩ := bind_eq_ok_iff.mp h
      exact ⟨next, marks_addLetters hnext, hrest⟩
  | long name value =>
      cases value with
      | some value =>
          obtain ⟨next, hnext, hrest⟩ := bind_eq_ok_iff.mp (read_joined htoken h)
          exact ⟨next, marks_addValue hnext, hrest⟩
      | none =>
          have hword := word_of_long htoken
          have hneeds : ¬ Options.needsValue name = true := by
            intro hneeds
            rcases Bool.or_eq_true_iff.mp hneeds with hname | hname
            · exact hvalued (.inl (of_decide_eq_true hname ▸ hword :))
            · exact hvalued (.inr (of_decide_eq_true hname ▸ hword :))
          rw [read_flag name htoken hneeds] at h
          obtain ⟨next, hnext, hrest⟩ := bind_eq_ok_iff.mp h
          refine ⟨next, marks_addFlag hnext ?_, hrest⟩
          intro hname
          have hsome : (directionFlag? word).isSome := by
            simp only [List.mem_cons, List.not_mem_nil, or_false] at hname
            rcases hname with rfl | rfl | rfl | rfl <;> rw [hword] <;> decide
          rw [hdirection] at hsome
          exact absurd hsome nofun

theorem files_mark_file (o : Options) (path : String) :
    (o.mark (.file path)).files = o.files ++ [path] := by
  show (o.marks ++ [_]).filterMap _ = _
  rw [List.filterMap_append]
  rfl

theorem mark_of_addFile {path : String} (h : o.addFile path = .ok o') :
    o' = o.mark (.file path) := by
  unfold Options.addFile at h
  split at h
  · exact absurd h nofun
  · exact (Except.ok.inj h).symm

theorem read_plain (hdash : ¬ Dashed word)
    (h : o.read (word :: rest) = .ok o') :
    (o.mark (.file word)).read rest = .ok o' := by
  rw [read_path (plain_of_not_dashed hdash)] at h
  obtain ⟨next, hnext, hrest⟩ := bind_eq_ok_iff.mp h
  exact mark_of_addFile hnext ▸ hrest

end Words

/-! ### All words -/

/-- The options hold what the words tell, but for the old spellings among the files. -/
structure Agrees (o : Options) (s : Scan) : Prop where
  pending : pendingOf o.marks = s.pending
  files : o.files = s.files.map modernise

namespace Agrees

variable {o o' : Options} {s : Scan} {words : List String}

theorem start : Agrees .standard .start := ⟨rfl, rfl⟩

theorem of_marks {next : Options} (h : Agrees o s) (hmarks : next.marks = o.marks) :
    Agrees next s where
  pending := by rw [hmarks, h.pending]
  files := by
    unfold Options.files
    rw [hmarks]
    exact h.files

theorem direction (h : Agrees o s) (d : Direction) :
    Agrees (o.mark (.direction d)) { s with pending := some d } where
  pending := pendingOf_concat o.marks _
  files := by
    show (o.marks ++ [_]).filterMap _ = _
    rw [List.filterMap_append]
    exact (List.append_nil _).trans h.files

theorem file (h : Agrees o s) (name : String) :
    Agrees (o.mark (.file (modernise name))) (s.file name) where
  pending := pendingOf_concat o.marks _
  files := by
    show _ = (s.files ++ [name]).map modernise
    rw [files_mark_file, List.map_append, ← h.files]
    rfl

theorem addFiles (h : Agrees o s) (hread : o.addFiles (words.map modernise) = .ok o') :
    Agrees o' (words.foldl Scan.file s) := by
  unfold Options.addFiles at hread
  induction words generalizing o s with
  | nil => exact Except.ok.inj hread ▸ h
  | cons name words ih =>
      rw [List.map_cons, List.foldlM_cons] at hread
      obtain ⟨next, hnext, hrest⟩ := bind_eq_ok_iff.mp hread
      exact ih (mark_of_addFile hnext ▸ h.file name) hrest

/-- Word by word, the parser does what the words tell. -/
theorem read (h : Agrees o s) (hread : o.read (words.map modernise) = .ok o') :
    Agrees o' (s.words words) := by
  induction s, words using Scan.words.induct generalizing o with
  | case1 s => exact Except.ok.inj hread ▸ h
  | case2 s rest =>
      have hending : modernise "--" = "--" := modernise_of_none (by decide)
      rw [List.map_cons, hending] at hread
      rw [Scan.words_cons, if_pos rfl]
      exact h.addFiles hread
  | case3 s word rest hend d hdirection ih =>
      rw [List.map_cons, read_direction hdirection] at hread
      rw [Scan.words_cons, if_neg hend, hdirection]
      exact ih (h.direction d) hread
  | case4 s word hend hdirection hvalued =>
      obtain ⟨value, rest, next, hwords, -⟩ := read_valued hvalued hread
      exact absurd hwords nofun
  | case5 s word hend hdirection hvalued value rest ih =>
      obtain ⟨value', rest', next, hwords, hmarks, hrest⟩ := read_valued hvalued hread
      obtain rfl := (List.cons.inj hwords).2
      rw [Scan.words_cons, if_neg hend, hdirection]
      simp only [if_pos hvalued]
      exact ih (h.of_marks hmarks) hrest
  | case6 s word rest hend hdirection hvalued hdash ih =>
      obtain ⟨next, hmarks, hrest⟩ := read_other hdash hend hdirection hvalued hread
      rw [Scan.words_cons, if_neg hend, hdirection]
      simp only [if_neg hvalued, if_pos hdash]
      exact ih (h.of_marks hmarks) hrest
  | case7 s word rest hend hdirection hvalued hdash ih =>
      have hfile := h.file word
      have hsame := modernise_of_directionFlag? hdirection
      rw [List.map_cons, hsame] at hread
      rw [hsame] at hfile
      rw [Scan.words_cons, if_neg hend, hdirection]
      simp only [if_neg hvalued, if_neg hdash]
      exact ih hfile (read_plain hdash hread)

end Agrees

end LinProg.CommandLine
