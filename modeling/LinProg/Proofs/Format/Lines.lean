import LinProg.Format.Grammar
import Mathlib.Data.List.TakeWhile

/-!
# The lines of a text

What a text says is in its lines, once the comments, the spaces and tabs at both ends and the lines
that are empty then are left out.
-/

namespace LinProg.Format

open Grammar

/-- The lines of a text. A line feed right behind a carriage return is part of the same end. -/
def lines : List Char → List (List Char)
  | [] => [[]]
  | '\r' :: '\n' :: cs => [] :: lines cs
  | c :: cs => if endsLine c then [] :: lines cs else (lines cs).modifyHead (c :: ·)

/-- A line up to the first `#` outside a label. Each quote opens or closes a label. -/
def uncommented (inLabel : Bool) : List Char → List Char
  | [] => []
  | c :: cs =>
    if c = '#' ∧ inLabel = false then [] else c :: uncommented (inLabel ^^ (c = '"')) cs

def trimmed (line : List Char) : List Char :=
  ((line.dropWhile isSpace).reverse.dropWhile isSpace).reverse

/-- What a line says. -/
def content (line : List Char) : List Char := trimmed (uncommented false line)

/-- What the lines of a text say, without the empty ones. -/
def contents (text : List Char) : List (List Char) := ((lines text).map content).filter (· ≠ [])

def Spaces (cs : List Char) : Prop := ∀ c ∈ cs, isSpace c = true

def OnLine (cs : List Char) : Prop := ∀ c ∈ cs, endsLine c = false

/-- Nothing more on the line. -/
def AtEnd (text : List Char) : Prop := ∀ c ∈ text.head?, endsLine c = true

theorem Spaces.onLine {cs : List Char} (h : Spaces cs) : OnLine cs := by
  intro c hc
  have hspace := h c hc
  simp only [isSpace, Bool.or_eq_true, decide_eq_true_eq] at hspace
  rcases hspace with rfl | rfl <;> decide

theorem OnLine.append {cs ds : List Char} (hc : OnLine cs) (hd : OnLine ds) : OnLine (cs ++ ds) :=
  List.forall_mem_append.mpr ⟨hc, hd⟩

/-! ### Where lines end -/

theorem lines_cons {c : Char} (hc : endsLine c = false) (cs : List Char) :
    lines (c :: cs) = (lines cs).modifyHead (c :: ·) := by
  have hreturn : c ≠ '\r' := by
    rintro rfl
    exact absurd hc (by decide)
  rw [lines]
  · rw [if_neg (by simp [hc])]
  · rintro _ rfl
    exact absurd rfl hreturn

theorem lines_append {line : List Char} (hline : OnLine line) (text : List Char) :
    lines (line ++ text) = (lines text).modifyHead (line ++ ·) := by
  induction line with
  | nil =>
      show lines text = (lines text).modifyHead id
      rw [List.modifyHead_id]
      rfl
  | cons c line ih =>
      unfold OnLine at hline
      rw [List.forall_mem_cons] at hline
      rw [List.cons_append, lines_cons hline.1, ih hline.2, List.modifyHead_modifyHead]
      rfl

theorem lines_lineEnd {text : List Char} {n : Nat} (hn : lineEndLength? text = some n) :
    lines text = [] :: lines (text.drop n) := by
  unfold lineEndLength? at hn
  split at hn
  · obtain rfl := Option.some.inj hn
    rfl
  · obtain rfl := Option.some.inj hn
    rfl
  · next cs hcs =>
      obtain rfl := Option.some.inj hn
      rw [lines]
      · rfl
      · rintro tail -
        exact hcs tail
  · cases hn

theorem lineEndLength?_eq_none_iff {text : List Char} :
    lineEndLength? text = none ↔ ∀ c ∈ text.head?, endsLine c = false := by
  cases text with
  | nil => simp [lineEndLength?]
  | cons c text =>
      unfold lineEndLength?
      split <;> simp_all [endsLine]

theorem lineEndLength?_bounds {text : List Char} {n : Nat} (hn : lineEndLength? text = some n) :
    AtEnd text ∧ 0 < n ∧ n ≤ text.length := by
  have hhead {c : Char} {rest : List Char} (hc : endsLine c = true) : AtEnd (c :: rest) := by
    intro d hd
    obtain rfl := Option.some.inj hd
    exact hc
  unfold lineEndLength? at hn
  split at hn
  · obtain rfl := Option.some.inj hn
    exact ⟨hhead (by decide), by simp⟩
  · obtain rfl := Option.some.inj hn
    exact ⟨hhead (by decide), by simp⟩
  · obtain rfl := Option.some.inj hn
    exact ⟨hhead (by decide), by simp⟩
  · cases hn

theorem lines_of_atEnd {text : List Char} (h : AtEnd text) :
    ∃ others, lines text = [] :: others := by
  cases hend : lineEndLength? text with
  | some n => exact ⟨_, lines_lineEnd hend⟩
  | none =>
      cases text with
      | nil => exact ⟨[], rfl⟩
      | cons c text =>
          have hfalse := lineEndLength?_eq_none_iff.mp hend c rfl
          rw [h c rfl] at hfalse
          cases hfalse

theorem contents_lineEnd {text : List Char} {n : Nat} (hn : lineEndLength? text = some n) :
    contents (text.drop n) = contents text := by
  unfold contents
  rw [lines_lineEnd hn]
  rfl

theorem contents_append {line text : List Char} (hline : OnLine line) (hend : AtEnd text) :
    contents (line ++ text)
      = if content line = [] then contents text else content line :: contents text := by
  obtain ⟨others, hothers⟩ := lines_of_atEnd hend
  have htext : contents text = (others.map content).filter (· ≠ []) := by
    unfold contents
    rw [hothers]
    rfl
  rw [htext]
  unfold contents
  rw [lines_append hline, hothers, List.modifyHead_cons, List.append_nil, List.map_cons,
    List.filter_cons]
  by_cases hcontent : content line = [] <;> simp [hcontent]

example : contents "# a\r\n \"x # y\" , 1 # b\r\r\t\n2".toList
    = ["\"x # y\" , 1".toList, "2".toList] := by decide

theorem exists_line (text : List Char) :
    ∃ line rest, text = line ++ rest ∧ OnLine line ∧ AtEnd rest := by
  refine ⟨_, _, (List.takeWhile_append_dropWhile (p := (!endsLine ·))).symm, ?_, ?_⟩
  · intro c hc
    simpa using List.mem_takeWhile_imp hc
  · intro c hc
    have hhead := List.head?_dropWhile_not (!endsLine ·) text
    rw [Option.mem_def.mp hc] at hhead
    simpa using hhead

/-! ### What a line says -/

theorem uncommented_append {front : List Char} (h : ∀ c ∈ front, c ≠ '#' ∧ c ≠ '"')
    (inLabel : Bool) (line : List Char) :
    uncommented inLabel (front ++ line) = front ++ uncommented inLabel line := by
  induction front with
  | nil => rfl
  | cons c front ih =>
      obtain ⟨⟨hhash, hquote⟩, hfront⟩ := List.forall_mem_cons.mp h
      rw [List.cons_append, uncommented, if_neg (by simp [hhash])]
      simp [hquote, ih hfront]

theorem uncommented_spaces {spaces : List Char} (h : Spaces spaces) (inLabel : Bool)
    (line : List Char) :
    uncommented inLabel (spaces ++ line) = spaces ++ uncommented inLabel line := by
  apply uncommented_append
  intro c hc
  have hspace := h c hc
  constructor <;> rintro rfl <;> exact absurd hspace (by decide)

/-- Only a comment is left out. -/
theorem exists_comment (inLabel : Bool) (line : List Char) :
    ∃ comment, line = uncommented inLabel line ++ comment ∧ ∀ c ∈ comment.head?, c = '#' := by
  induction line generalizing inLabel with
  | nil => exact ⟨[], rfl, nofun⟩
  | cons c line ih =>
      rw [uncommented]
      split
      · next h => exact ⟨c :: line, rfl, fun d hd => (Option.some.inj hd).symm.trans h.1⟩
      · obtain ⟨comment, hline, hhash⟩ := ih (inLabel ^^ (c = '"'))
        exact ⟨comment, by rw [List.cons_append, ← hline], hhash⟩

theorem dropWhile_spaces {spaces : List Char} (h : Spaces spaces) (line : List Char) :
    (spaces ++ line).dropWhile isSpace = line.dropWhile isSpace :=
  List.dropWhile_append_of_pos h

theorem dropWhile_eq_self {cs : List Char} (h : ∀ c ∈ cs.head?, isSpace c = false) :
    cs.dropWhile isSpace = cs := by
  cases cs with
  | nil => rfl
  | cons c cs => exact List.dropWhile_cons_of_neg (by simp [h c rfl])

theorem exists_spaces (cs : List Char) :
    ∃ spaces, Spaces spaces ∧ cs = spaces ++ cs.dropWhile isSpace :=
  ⟨_, fun _ hc => List.mem_takeWhile_imp hc, List.takeWhile_append_dropWhile.symm⟩

theorem exists_trimmed (line : List Char) :
    ∃ front back, Spaces front ∧ Spaces back ∧ line = front ++ (trimmed line ++ back) := by
  obtain ⟨front, hfront, hline⟩ := exists_spaces line
  obtain ⟨back, hback, hrest⟩ := exists_spaces (line.dropWhile isSpace).reverse
  refine ⟨front, back.reverse, hfront, fun c hc => hback c (List.mem_reverse.mp hc), ?_⟩
  have hreverse := congrArg List.reverse hrest
  rw [List.reverse_reverse, List.reverse_append] at hreverse
  rw [trimmed, ← hreverse]
  exact hline

theorem trimmed_append {front line back : List Char} (hfront : Spaces front) (hback : Spaces back)
    (hhead : ∀ c ∈ line.head?, isSpace c = false) (hlast : ∀ c ∈ line.getLast?, isSpace c = false) :
    trimmed (front ++ (line ++ back)) = line := by
  have hreverse : Spaces back.reverse := fun c hc => hback c (List.mem_reverse.mp hc)
  unfold trimmed
  rw [dropWhile_spaces hfront]
  cases line with
  | nil =>
      rw [List.nil_append, ← List.append_nil back, dropWhile_spaces hback]
      rfl
  | cons c line =>
      have hkept : (c :: line ++ back).dropWhile isSpace = c :: line ++ back :=
        dropWhile_eq_self hhead
      rw [hkept, List.reverse_append, dropWhile_spaces hreverse,
        dropWhile_eq_self (by rwa [List.head?_reverse]), List.reverse_reverse]

theorem content_append_spaces {spaces : List Char} (h : Spaces spaces) (line : List Char) :
    content (spaces ++ line) = content line := by
  unfold content trimmed
  rw [uncommented_spaces h, dropWhile_spaces h]

end LinProg.Format
