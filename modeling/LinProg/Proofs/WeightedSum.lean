import Mathlib.Algebra.BigOperators.Group.List.Basic
import Mathlib.Algebra.Order.BigOperators.Group.List
import Mathlib.Algebra.Order.Field.Rat
import Mathlib.Data.List.GetD
import Mathlib.Logic.Relation
import Mathlib.Tactic.FieldSimp
import Mathlib.Tactic.Linarith
import Mathlib.Tactic.Ring
import LinProg.Tableau.Pivot

/-!
# Weighted sums of values

Over the rationals a row of a tableau is a linear form in the values of the variables. The values
are a function of the column, so that they can be added, scaled and shifted, and a row that ends
earlier has weight zero in the columns that it does not reach.
-/

namespace LinProg

/-- A value for the variable of each column. -/
abbrev Assignment := Nat → ℚ

/-- The sum of the values, each multiplied by its weight. -/
def weigh : List ℚ → Assignment → ℚ
  | [], _ => 0
  | w :: weights, z => w * z 0 + weigh weights fun j => z (j + 1)

@[simp]
theorem weigh_nil (z : Assignment) : weigh [] z = 0 := rfl

@[simp]
theorem weigh_cons (w : ℚ) (weights : List ℚ) (z : Assignment) :
    weigh (w :: weights) z = w * z 0 + weigh weights fun j => z (j + 1) := rfl

theorem weigh_append (left right : List ℚ) (z : Assignment) :
    weigh (left ++ right) z = weigh left z + weigh right fun j => z (left.length + j) := by
  induction left generalizing z with
  | nil => simp
  | cons w left ih =>
      rw [List.cons_append, weigh_cons, weigh_cons, ih, List.length_cons, add_assoc]
      congr 3
      funext j
      congr 1
      omega

theorem weigh_replicate_zero (n : Nat) (z : Assignment) : weigh (List.replicate n 0) z = 0 := by
  induction n generalizing z with
  | zero => rfl
  | succ n ih => rw [List.replicate_succ, weigh_cons, ih, zero_mul, add_zero]

theorem getD_replicate_zero (n j : Nat) : (List.replicate n (0 : ℚ)).getD j 0 = 0 := by
  by_cases hj : j < n
  · simp [hj]
  · simp [hj]

theorem weigh_map_div (weights : List ℚ) (d : ℚ) (z : Assignment) :
    weigh (weights.map (· / d)) z = weigh weights z / d := by
  induction weights generalizing z with
  | nil => simp
  | cons w weights ih =>
      rw [List.map_cons, weigh_cons, weigh_cons, ih]
      ring

theorem weigh_map_neg (weights : List ℚ) (z : Assignment) :
    weigh (weights.map (-·)) z = -weigh weights z := by
  induction weights generalizing z with
  | nil => simp
  | cons w weights ih =>
      rw [List.map_cons, weigh_cons, weigh_cons, ih]
      ring

theorem weigh_subtractMultiple (factor : ℚ) {pivotRow row : List ℚ}
    (hlength : pivotRow.length = row.length) (z : Assignment) :
    weigh (subtractMultiple factor pivotRow row) z = weigh row z - factor * weigh pivotRow z := by
  unfold subtractMultiple
  induction row generalizing pivotRow z with
  | nil =>
      rw [List.length_eq_zero_iff.mp hlength]
      simp
  | cons v row ih =>
      cases pivotRow with
      | nil => simp at hlength
      | cons p pivotRow =>
          rw [List.zipWith_cons_cons, weigh_cons, weigh_cons, weigh_cons,
            ih (Nat.succ.inj hlength)]
          ring

/-! ### Linearity in the values -/

theorem weigh_add (weights : List ℚ) (y z : Assignment) :
    weigh weights (fun j => y j + z j) = weigh weights y + weigh weights z := by
  induction weights generalizing y z with
  | nil => simp
  | cons w weights ih =>
      rw [weigh_cons, weigh_cons, weigh_cons, ih (fun j => y (j + 1)) fun j => z (j + 1)]
      ring

theorem weigh_mul (weights : List ℚ) (c : ℚ) (z : Assignment) :
    weigh weights (fun j => c * z j) = c * weigh weights z := by
  induction weights generalizing z with
  | nil => simp
  | cons w weights ih =>
      rw [weigh_cons, weigh_cons, ih fun j => z (j + 1)]
      ring

theorem weigh_zero (weights : List ℚ) : weigh weights (fun _ => 0) = 0 := by
  induction weights with
  | nil => rfl
  | cons w weights ih => rw [weigh_cons, ih, mul_zero, add_zero]

/-- The variable of one column at a value, and all others at zero. -/
def single (column : Nat) (v : ℚ) : Assignment := fun j => if j = column then v else 0

theorem single_self (column : Nat) (v : ℚ) : single column v column = v := if_pos rfl

theorem single_of_ne {column j : Nat} (hj : j ≠ column) (v : ℚ) : single column v j = 0 := if_neg hj

theorem single_nonneg {v : ℚ} (hv : 0 ≤ v) (column j : Nat) : 0 ≤ single column v j := by
  unfold single
  split
  · exact hv
  · exact le_refl 0

theorem single_nonpos {v : ℚ} (hv : v ≤ 0) (column j : Nat) : single column v j ≤ 0 := by
  unfold single
  split
  · exact hv
  · exact le_refl 0

theorem weigh_single (weights : List ℚ) (column : Nat) (v : ℚ) :
    weigh weights (single column v) = weights.getD column 0 * v := by
  induction weights generalizing column with
  | nil => simp
  | cons w weights ih =>
      cases column with
      | zero =>
          have htail : (fun j => single 0 v (j + 1)) = fun _ => 0 := by
            funext j
            simp [single]
          rw [weigh_cons, htail, weigh_zero]
          simp [single]
      | succ column =>
          have htail : (fun j => single (column + 1) v (j + 1)) = single column v := by
            funext j
            simp [single]
          rw [weigh_cons, htail, ih]
          simp [single]

theorem weigh_nonneg {weights : List ℚ} {z : Assignment} (hweights : ∀ w ∈ weights, 0 ≤ w)
    (hz : ∀ j, 0 ≤ z j) : 0 ≤ weigh weights z := by
  induction weights generalizing z with
  | nil => exact le_refl 0
  | cons w weights ih =>
      have hhead : 0 ≤ w * z 0 := mul_nonneg (hweights w List.mem_cons_self) (hz 0)
      have htail : 0 ≤ weigh weights fun j => z (j + 1) :=
        ih (fun v hv => hweights v (List.mem_cons_of_mem w hv)) fun j => hz (j + 1)
      exact add_nonneg hhead htail

/-! ### Lists of values -/

/-- The values in a list, and zero beyond its end. -/
def listed (xs : List ℚ) : Assignment := fun j => xs.getD j 0

/-- The values of the first columns. -/
def firstValues (n : Nat) (z : Assignment) : List ℚ := (List.range n).map z

@[simp]
theorem length_firstValues (n : Nat) (z : Assignment) : (firstValues n z).length = n := by
  simp [firstValues]

theorem firstValues_listed_append (xs ys : List ℚ) :
    firstValues xs.length (listed (xs ++ ys)) = xs := by
  refine List.ext_getElem (length_firstValues _ _) fun j _ hj => ?_
  simp [firstValues, listed, List.getElem?_append_left hj, List.getElem?_eq_getElem hj]

theorem listed_append_add (xs ys : List ℚ) (j : Nat) :
    listed (xs ++ ys) (xs.length + j) = listed ys j := by
  simp [listed, List.getElem?_append_right]

theorem listed_nonneg {xs : List ℚ} (hxs : ∀ v ∈ xs, 0 ≤ v) (j : Nat) : 0 ≤ listed xs j := by
  unfold listed
  rw [List.getD_eq_getElem?_getD]
  cases h : xs[j]? with
  | none => exact le_refl 0
  | some v => exact hxs v (List.mem_of_getElem? h)

theorem firstValues_nonneg {z : Assignment} (hz : ∀ j, 0 ≤ z j) (n : Nat) :
    ∀ v ∈ firstValues n z, 0 ≤ v := by
  intro v hv
  obtain ⟨j, -, rfl⟩ := List.mem_map.mp hv
  exact hz j

theorem sum_eq_listSum (xs : List ℚ) : Scalar.sum xs = xs.sum := by
  unfold Scalar.sum
  rw [List.sum_eq_foldl]
  simp

theorem dot_eq_weigh_listed (weights xs : List ℚ) :
    Scalar.dot weights xs = weigh weights (listed xs) := by
  unfold Scalar.dot
  rw [sum_eq_listSum]
  induction weights generalizing xs with
  | nil => simp
  | cons w weights ih =>
      cases xs with
      | nil =>
          have hnil : listed [] = fun _ => 0 := rfl
          rw [hnil, weigh_zero]
          simp
      | cons x xs =>
          rw [List.zipWith_cons_cons, List.sum_cons, ih]
          rfl

theorem dot_firstValues {weights : List ℚ} {n : Nat} (hlength : weights.length = n)
    (z : Assignment) : Scalar.dot weights (firstValues n z) = weigh weights z := by
  subst hlength
  rw [dot_eq_weigh_listed]
  induction weights generalizing z with
  | nil => rfl
  | cons w weights ih =>
      have htail : (fun j => listed (firstValues (weights.length + 1) z) (j + 1))
          = listed (firstValues weights.length fun j => z (j + 1)) := by
        funext j
        simp [listed, firstValues, List.range_succ_eq_map, Function.comp_def]
      rw [List.length_cons, weigh_cons, weigh_cons, htail, ih]
      simp [listed, firstValues]

end LinProg
