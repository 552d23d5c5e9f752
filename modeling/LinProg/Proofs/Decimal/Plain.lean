import LinProg.NumberText
import LinProg.Proofs.Decimal.Spelling
import LinProg.Scalar
import Mathlib.Algebra.Group.Nat.Defs

/-!
# Plain decimals

A number that is finite is written as a plain decimal: a minus if it is negative, digits, and a point
with digits behind it if it is not whole. There is no exponent. The scanner takes all of it off a
text, as long as what follows cannot belong to a number.
-/

namespace LinProg

namespace Decimal

/-- The parts of a plain decimal. -/
structure Plain where
  negative : Bool
  whole : List Char
  fraction : List Char
  whole_ne_nil : whole ≠ []
  isDigit_whole : ∀ c ∈ whole, c.isDigit
  isDigit_fraction : ∀ c ∈ fraction, c.isDigit

namespace Plain

/-- The digits, and the point where there is a fraction. -/
def body (p : Plain) : List Char :=
  p.whole ++ if p.fraction.isEmpty then [] else '.' :: p.fraction

def text (p : Plain) : List Char := if p.negative then '-' :: p.body else p.body

def decimal (p : Plain) : Decimal :=
  ⟨p.negative, valueOf (p.whole ++ p.fraction), -p.fraction.length⟩

end Plain

theorem Plain.exists_cons (p : Plain) : ∃ c cs, p.body = c :: cs ∧ c.isDigit := by
  have hdigits := p.isDigit_whole
  unfold body
  cases hwhole : p.whole with
  | nil => exact absurd hwhole p.whole_ne_nil
  | cons c cs =>
      rw [hwhole] at hdigits
      exact ⟨c, _, rfl, hdigits c List.mem_cons_self⟩

/-- A plain decimal starts with a minus or a digit. -/
theorem Plain.head_text {p : Plain} {c : Char} (hc : c ∈ p.text.head?) : c = '-' ∨ c.isDigit := by
  obtain ⟨d, ds, hbody, hd⟩ := p.exists_cons
  unfold text at hc
  split at hc
  · exact .inl (Option.some.inj hc).symm
  · rw [hbody] at hc
    obtain rfl : d = c := Option.some.inj hc
    exact .inr hd

theorem Plain.text_ne_nil (p : Plain) : p.text ≠ [] := by
  obtain ⟨d, ds, hbody, -⟩ := p.exists_cons
  unfold text
  split
  · exact List.cons_ne_nil _ _
  · rw [hbody]
    exact List.cons_ne_nil _ _

theorem Plain.figures_body (p : Plain) : Figures p.body p.whole p.fraction := by
  unfold body
  by_cases hfraction : p.fraction = []
  · rw [hfraction, List.isEmpty_nil, if_pos rfl, List.append_nil]
    exact .whole p.whole_ne_nil p.isDigit_whole
  · rw [if_neg (by simpa using hfraction)]
    exact .pointed (.inl p.whole_ne_nil) p.isDigit_whole p.isDigit_fraction

theorem Plain.spelled_text (p : Plain) : Spelled p.text p.decimal := by
  have hspelled {sign : List Char} {negative : Bool} (hsign : Sign sign negative) :
      Spelled (sign ++ p.body) ⟨negative, valueOf (p.whole ++ p.fraction), -p.fraction.length⟩ := by
    have hintro := Spelled.intro hsign p.figures_body .none
    rwa [List.append_nil, Int.zero_sub] at hintro
  unfold text decimal
  cases p.negative with
  | true => exact hspelled .minus
  | false => exact hspelled .none

theorem scan_plain (p : Plain) {rest : List Char} (hrest : EndsNumber rest) :
    scan (p.text ++ rest) = some (p.decimal, p.text.length) := scan_spelled p.spelled_text hrest

/-! ### Digits with a point -/

theorem valueOf_append_zeros (run : List Char) (n : Nat) :
    valueOf (run ++ List.replicate n '0') = valueOf run * 10 ^ n := by
  rw [valueOf, Nat.ofDigitChars_append, Nat.ofDigitChars_replicate_zero, Nat.mul_comm, valueOf]

theorem valueOf_zeros_append (n : Nat) (run : List Char) :
    valueOf (List.replicate n '0' ++ run) = valueOf run := by
  rw [valueOf, Nat.ofDigitChars_append, Nat.ofDigitChars_replicate_zero, Nat.mul_zero, valueOf]

theorem exists_plain (negative : Bool) (whole fraction : List Char) (hwhole : whole ≠ [])
    (hdigits : ∀ c ∈ whole ++ fraction, c.isDigit) :
    ∃ p : Plain, p.body = whole ++ (if fraction.isEmpty then [] else '.' :: fraction) ∧
      p.decimal = ⟨negative, valueOf (whole ++ fraction), -fraction.length⟩ := by
  obtain ⟨hisDigit, hfraction⟩ := List.forall_mem_append.mp hdigits
  exact ⟨⟨negative, whole, fraction, hwhole, hisDigit, hfraction⟩, rfl, rfl⟩

theorem isDigit_of_mem_zeros {n : Nat} {c : Char} (hc : c ∈ List.replicate n '0') : c.isDigit := by
  rw [List.eq_of_mem_replicate hc]
  rfl

/-- A point within the digits. -/
theorem exists_plain_within (negative : Bool) {run : List Char} (hrun : ∀ c ∈ run, c.isDigit)
    {places : Nat} (hplaces : places ≠ 0) (hlt : places < run.length) :
    ∃ p : Plain,
      p.body = run.take (run.length - places) ++ '.' :: run.drop (run.length - places) ∧
        p.decimal = ⟨negative, valueOf run, -places⟩ := by
  have hsplit := List.take_append_drop (run.length - places) run
  have hfraction : (run.drop (run.length - places)).length = places := by
    rw [List.length_drop, Nat.sub_sub_self (Nat.le_of_lt hlt)]
  have htake : run.take (run.length - places) ≠ [] := by
    rw [← List.length_pos_iff, List.length_take]
    omega
  have hdrop : run.drop (run.length - places) ≠ [] := by
    rw [← List.length_pos_iff, hfraction]
    omega
  obtain ⟨p, hbody, hdecimal⟩ := exists_plain negative (run.take (run.length - places))
    (run.drop (run.length - places)) htake (by rwa [hsplit])
  refine ⟨p, ?_, ?_⟩
  · rw [hbody, if_neg (by simpa using hdrop)]
  · rw [hdecimal, hsplit, hfraction]

/-- A point in front of the digits, with zeros up to it. -/
theorem exists_plain_before (negative : Bool) {run : List Char} (hne : run ≠ [])
    (hrun : ∀ c ∈ run, c.isDigit) {places : Nat} (hle : run.length ≤ places) :
    ∃ p : Plain, p.body = '0' :: '.' :: List.replicate (places - run.length) '0' ++ run ∧
      p.decimal = ⟨negative, valueOf run, -places⟩ := by
  have hdigits : ∀ c ∈ List.replicate (places - run.length + 1) '0' ++ run, c.isDigit :=
    List.forall_mem_append.mpr ⟨fun _ hc => isDigit_of_mem_zeros hc, hrun⟩
  have hzero : ['0'] ++ (List.replicate (places - run.length) '0' ++ run)
      = List.replicate (places - run.length + 1) '0' ++ run := rfl
  obtain ⟨p, hbody, hdecimal⟩ := exists_plain negative ['0']
    (List.replicate (places - run.length) '0' ++ run) (List.cons_ne_nil _ _) hdigits
  refine ⟨p, ?_, ?_⟩
  · rw [hbody, if_neg (by simp [hne])]
    rfl
  · rw [hdecimal, hzero, valueOf_zeros_append, List.length_append, List.length_replicate,
      Nat.sub_add_cancel hle]

/-- Digits with a power of ten are written as a plain decimal. A positive power becomes zeros. -/
theorem exists_plain_positional (negative : Bool) (digits : Nat) (exponent : Int) :
    ∃ p : Plain, p.body = positional digits exponent ∧
      p.decimal = ⟨negative, digits * 10 ^ exponent.toNat, -((-exponent).toNat : Int)⟩ := by
  have hne : Nat.toDigits 10 digits ≠ [] := Nat.toDigits_ne_nil
  have hrun : ∀ c ∈ Nat.toDigits 10 digits, c.isDigit := fun c hc =>
    Nat.isDigit_of_mem_toDigits (by decide) (by decide) hc
  have hvalue : valueOf (Nat.toDigits 10 digits) = digits := Nat.ofDigitChars_ten_toDigits
  unfold positional
  generalize Nat.toDigits 10 digits = run at hne hrun hvalue
  generalize hplaces : (-exponent).toNat = places
  subst hvalue
  dsimp only
  split
  · next hzero =>
      have hdigits : ∀ c ∈ run ++ List.replicate exponent.toNat '0' ++ [], c.isDigit := by
        rw [List.append_nil]
        exact List.forall_mem_append.mpr ⟨hrun, fun _ hc => isDigit_of_mem_zeros hc⟩
      obtain ⟨p, hbody, hdecimal⟩ := exists_plain negative
        (run ++ List.replicate exponent.toNat '0') [] (by simp [hne]) hdigits
      refine ⟨p, by simpa using hbody, ?_⟩
      rw [hdecimal, List.append_nil, valueOf_append_zeros, hzero]
      rfl
  · next hpositive =>
      have hexponent : exponent.toNat = 0 := by omega
      rw [hexponent, Nat.pow_zero, Nat.mul_one]
      split
      · next hlt => exact exists_plain_within negative hrun hpositive hlt
      · next hle => exact exists_plain_before negative hne hrun (Nat.not_lt.mp hle)

end Decimal

/-- What a printer of numbers owes to a reader: a finite number is written as a plain decimal that
stands for it. -/
def NumberText.ReadsBack (α : Type) [Scalar α] [NumberText α] : Prop :=
  ∀ x : α, isFinite x →
    ∃ p : Decimal.Plain, (text x).toList = p.text ∧ Scalar.ofDecimal p.decimal = x

end LinProg
