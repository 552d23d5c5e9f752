/-!
Decimal numerals with a sign and a power of ten, and the scanner of their text.
-/

namespace LinProg

/-- The number `digits · 10 ^ exponent`, negated if `negative` is set. A zero keeps its sign. -/
structure Decimal where
  negative : Bool
  digits : Nat
  exponent : Int
  deriving DecidableEq, Repr, Inhabited

namespace Decimal

/-- The number that a run of digits stands for in base ten. -/
def valueOf (run : List Char) : Nat := Nat.ofDigitChars 10 run 0

/-- The sign in front of a text, if there is one, and the count of its characters. The flag is set by
a minus. -/
def scanSign : List Char → Bool × Nat
  | '-' :: _ => (true, 1)
  | '+' :: _ => (false, 1)
  | _ => (false, 0)

/-- The longest run of digits in front of a text. -/
def digitRun (cs : List Char) : List Char := cs.takeWhile Char.isDigit

theorem isDigit_of_mem_digitRun {cs : List Char} {c : Char} (h : c ∈ digitRun cs) : c.isDigit := by
  induction cs with
  | nil => exact absurd h List.not_mem_nil
  | cons d cs ih =>
    unfold digitRun at h ih
    by_cases hd : d.isDigit
    · rw [List.takeWhile_cons_of_pos hd] at h
      rcases List.mem_cons.mp h with rfl | h
      · exact hd
      · exact ih h
    · rw [List.takeWhile_cons_of_neg hd] at h
      exact absurd h List.not_mem_nil

/-- Digits with an optional point, split at the point. -/
structure Mantissa where
  whole : List Char
  fraction : List Char
  /-- The count of characters, the point among them. -/
  length : Nat

/-- The mantissa in front of a text. At least one digit is needed on either side of the point. -/
def scanMantissa? (cs : List Char) : Option Mantissa :=
  let whole := digitRun cs
  match cs.drop whole.length with
  | '.' :: rest =>
    let fraction := digitRun rest
    if whole.isEmpty && fraction.isEmpty then none
    else some ⟨whole, fraction, whole.length + 1 + fraction.length⟩
  | _ => if whole.isEmpty then none else some ⟨whole, [], whole.length⟩

/-- The exponent in front of a text and the count of its characters. An `e` that no digits follow is
no exponent. -/
def scanExponent : List Char → Int × Nat
  | [] => (0, 0)
  | e :: cs =>
    if e = 'e' ∨ e = 'E' then
      let (negative, n) := scanSign cs
      let run := digitRun (cs.drop n)
      if run.isEmpty then (0, 0)
      else (if negative then -(valueOf run : Int) else valueOf run, 1 + n + run.length)
    else (0, 0)

/-- The longest decimal numeral in front of a text and the count of its characters: a sign, digits
with an optional point, an exponent. -/
def scan (cs : List Char) : Option (Decimal × Nat) :=
  let (negative, n) := scanSign cs
  (scanMantissa? (cs.drop n)).map fun m =>
    let (power, k) := scanExponent (cs.drop (n + m.length))
    (⟨negative, valueOf (m.whole ++ m.fraction), power - m.fraction.length⟩, n + m.length + k)

/-- Reads a text that is one decimal numeral and nothing else. -/
def ofText? (text : String) : Option Decimal :=
  match scan text.toList with
  | some (d, n) => if n = text.length then some d else none
  | none => none

end Decimal

end LinProg
