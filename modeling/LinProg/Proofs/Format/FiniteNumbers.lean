import LinProg.Proofs.Decimal.Range
import LinProg.Proofs.Format.RoundTrip

/-!
# Numbers that can be written again

The reader takes a decimal of any size, and the writer refuses an infinity. They agree on the
programs whose numbers, read exactly, are all in the range of the doubles.
-/

namespace LinProg

/-- The numbers of a program, of which no text is asked for. -/
def Program.values {α : Type} (p : Program α) : List α := p.coefficients.flatten ++ p.rhs ++ p.costs

theorem Program.numbers_eq_values {α : Type} [NumberText α] (p : Program α) :
    p.numbers = p.values := rfl

namespace Format

/-- The decimals of the coefficients by row, the right sides and the costs. -/
def Document.decimals (d : Document) : List Decimal :=
  (d.constraints.map (·.coefficients)).flatten ++ d.constraints.map (·.rhs) ++ d.objective.costs

theorem Document.Agrees.values_toProgram {α : Type} [Scalar α] {d : Document}
    {rows columns : Nat} (h : d.Agrees rows columns) :
    (d.toProgram : Program α).values = d.decimals.map Scalar.ofDecimal := by
  have hcoefficients : (d.toProgram : Program α).coefficients
      = (d.constraints.map (·.coefficients)).map (·.map Scalar.ofDecimal) := by
    unfold Program.coefficients
    show (d.constraints.map ConstraintRecord.toConstraint).map _ = _
    rw [List.map_map, List.map_map]
    rfl
  have hrhs : (d.toProgram : Program α).rhs = (d.constraints.map (·.rhs)).map Scalar.ofDecimal := by
    unfold Program.rhs
    show (d.constraints.map ConstraintRecord.toConstraint).map _ = _
    rw [List.map_map, List.map_map]
    rfl
  unfold Program.values Document.decimals
  rw [hcoefficients, hrhs, h.costs_toProgram, List.map_append, List.map_append, List.map_flatten]

end Format

namespace Program

open LinProg.Format

variable {text : String} {p : Program Float}

/-- A text that is read in doubles is read exactly too. Its numbers are finite where the exact ones
are in range, and the program can be written exactly if they all are. -/
theorem toText_of_ofText_iff (hread : Program.ofText text = .ok p) :
    ∃ q : Program ℚ, Program.ofText text = .ok q ∧
      List.Forall₂ (fun x v => NumberText.isFinite x = true ↔ |v| < Binary64.overflow)
        p.numbers q.values ∧
      ((∃ written, p.toText = .ok written) ↔ ∀ v ∈ q.values, |v| < Binary64.overflow) := by
  obtain ⟨d, after, hdocument, ⟨rows, columns, hagrees⟩, rfl⟩ := Program.ofText_eq_ok_iff.mp hread
  have hexact : Program.ofText text = .ok (d.toProgram : Program ℚ) :=
    Program.ofText_eq_ok_iff.mpr ⟨d, after, hdocument, ⟨rows, columns, hagrees⟩, rfl⟩
  have hdoubles : (d.toProgram : Program Float).numbers = d.decimals.map Decimal.toFloat :=
    (numbers_eq_values _).trans hagrees.values_toProgram
  have hvalues : (d.toProgram : Program ℚ).values = d.decimals.map Decimal.toRat :=
    hagrees.values_toProgram
  have hfinite : (∀ x ∈ (d.toProgram : Program Float).numbers, NumberText.isFinite x) ↔
      ∀ v ∈ (d.toProgram : Program ℚ).values, |v| < Binary64.overflow := by
    rw [hdoubles, hvalues, List.forall_mem_map, List.forall_mem_map]
    exact forall₂_congr fun x _ => x.isFinite_toFloat_iff
  refine ⟨d.toProgram, hexact, ?_, ?_⟩
  · rw [hdoubles, hvalues, List.forall₂_map_left_iff, List.forall₂_map_right_iff,
      List.forall₂_same]
    exact fun x _ => x.isFinite_toFloat_iff
  · rw [← hfinite]
    constructor
    · rintro ⟨written, hwrite⟩
      exact (toText_eq_ok_iff.mp hwrite).1
    · intro hall
      exact ⟨_, toText_eq_ok_iff.mpr ⟨hall, rfl⟩⟩

theorem numbers_plantNotes :
    Program.ofText plantNotes = .ok plant ∧ plant.toText = .ok plantText ∧
      ∃ q : Program ℚ, Program.ofText plantNotes = .ok q ∧
        ∀ v ∈ q.values, |v| < Binary64.overflow := by
  have hread : Program.ofText plantNotes = .ok plant := by decide +kernel
  have hwrite : plant.toText = .ok plantText := by decide +kernel
  obtain ⟨q, hexact, -, hiff⟩ := toText_of_ofText_iff hread
  exact ⟨hread, hwrite, q, hexact, hiff.mp ⟨_, hwrite⟩⟩

/-- One product that takes more of its resource than there are numbers for. -/
def endlessText : String := "maximize\n1,1\n\"x\"\n\"r\",1e400,<=,1\n\"z\",1\n"

def endless : Program Float :=
  { direction := .maximize
    rows := [⟨[1 / 0], .lessEq, 1, some "r"⟩]
    decisions := [⟨1, some "x"⟩]
    objectiveLabel := some "z"
    solution := [0]
    objectiveValue := 0 }

/-- The coefficient is read as an infinity, and the program that holds it has no text. -/
theorem toText_endless :
    Program.ofText endlessText = .ok endless ∧
      endless.numbers.map NumberText.isFinite = [false, true, true] ∧
      endless.toText = .error (.fault (.notFinite "inf")) := by
  refine ⟨?_, ?_, ?_⟩ <;> decide +kernel

end Program

end LinProg
