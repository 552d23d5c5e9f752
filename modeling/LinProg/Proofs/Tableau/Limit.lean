import Mathlib.Data.ENat.Lattice
import Mathlib.Order.CompletePartialOrder
import LinProg.Proofs.Tableau.Run

/-!
# Runs with a limit

A run that may make some pivots and then some more is the one run followed by the other, also where
the first one has ended by itself, since a tableau that asks for no pivot is left as it is. So a
limit cuts a run short and does nothing else: all that it decides is how many of the pivots are made
that the loop makes where nothing limits it.
-/

namespace LinProg.Tableau

variable {α : Type} [Scalar α] {tolerance : α} {t u : Tableau α}

/-! ### One run after the other -/

/-- A run that goes on where another one has stopped. -/
def Run.andThen (r s : Run α) : Run α := { s with exchanges := r.exchanges ++ s.exchanges }

theorem run_of_optimal (h : t.choose tolerance = .optimal) (limit : Nat) :
    run tolerance limit t = ⟨[], t, .optimal⟩ := by
  unfold run
  rw [h]

theorem run_of_unbounded {column : Nat} (h : t.choose tolerance = .unbounded column)
    (limit : Nat) : run tolerance limit t = ⟨[], t, .unbounded column⟩ := by
  unfold run
  rw [h]

theorem run_zero_of_pivot {row column : Nat} (h : t.choose tolerance = .pivot row column) :
    run tolerance 0 t = ⟨[], t, .truncated⟩ := by
  unfold run
  rw [h]

theorem run_succ_of_pivot {row column : Nat} (h : t.choose tolerance = .pivot row column)
    (limit : Nat) :
    run tolerance (limit + 1) t =
      (⟨[t.exchange row column], t.pivot row column, .truncated⟩ : Run α).andThen
        (run tolerance limit (t.pivot row column)) := by
  rw [run, h]
  rfl

theorem run_zero (tolerance : α) (t : Tableau α) :
    (run tolerance 0 t).exchanges = [] ∧ (run tolerance 0 t).final = t := by
  cases h : t.choose tolerance with
  | optimal => rw [run_of_optimal h]; exact ⟨rfl, rfl⟩
  | unbounded column => rw [run_of_unbounded h]; exact ⟨rfl, rfl⟩
  | pivot row column => rw [run_zero_of_pivot h]; exact ⟨rfl, rfl⟩

theorem run_add (tolerance : α) (j k : Nat) (t : Tableau α) :
    run tolerance (j + k) t
      = (run tolerance j t).andThen (run tolerance k (run tolerance j t).final) := by
  induction j generalizing t with
  | zero =>
      obtain ⟨hnone, hfinal⟩ := run_zero tolerance t
      rw [Nat.zero_add, hfinal, Run.andThen, hnone]
      rfl
  | succ j ih =>
      cases h : t.choose tolerance with
      | optimal =>
          rw [run_of_optimal h, run_of_optimal h, run_of_optimal h]
          rfl
      | unbounded column =>
          rw [run_of_unbounded h, run_of_unbounded h, run_of_unbounded h]
          rfl
      | pivot row column =>
          rw [Nat.add_right_comm, run_succ_of_pivot h, run_succ_of_pivot h, ih]
          rfl

/-- A run is cut short exactly if its last tableau asks for a further pivot. -/
theorem stop_eq_truncated_iff_choose (tolerance : α) (limit : Nat) (t : Tableau α) :
    (run tolerance limit t).stop = .truncated ↔
      ∃ row column, (run tolerance limit t).final.choose tolerance = .pivot row column := by
  induction limit generalizing t with
  | zero =>
      cases h : t.choose tolerance with
      | optimal => simp [run_of_optimal h, h]
      | unbounded column => simp [run_of_unbounded h, h]
      | pivot row column => simp [run_zero_of_pivot h, h]
  | succ limit ih =>
      cases h : t.choose tolerance with
      | optimal => simp [run_of_optimal h, h]
      | unbounded column => simp [run_of_unbounded h, h]
      | pivot row column =>
          rw [run_succ_of_pivot h]
          exact ih (t.pivot row column)

theorem length_exchanges_of_truncated {limit : Nat}
    (h : (run tolerance limit t).stop = .truncated) :
    (run tolerance limit t).exchanges.length = limit := by
  induction limit generalizing t with
  | zero => rw [(run_zero tolerance t).1, List.length_nil]
  | succ limit ih =>
      cases hchoose : t.choose tolerance with
      | optimal => simp [run_of_optimal hchoose] at h
      | unbounded column => simp [run_of_unbounded hchoose] at h
      | pivot row column =>
          rw [run_succ_of_pivot hchoose] at h ⊢
          exact congrArg Nat.succ (ih h)

/-- From where a run has ended by itself, no further pivot is made. -/
theorem run_final_of_not_truncated {limit : Nat} (h : (run tolerance limit t).stop ≠ .truncated)
    (more : Nat) : run tolerance more (run tolerance limit t).final
      = ⟨[], (run tolerance limit t).final, (run tolerance limit t).stop⟩ := by
  obtain ⟨hoptimal, hunbounded⟩ := choose_final tolerance limit t
  cases hstop : (run tolerance limit t).stop with
  | optimal => exact run_of_optimal (hoptimal hstop) more
  | unbounded column => exact run_of_unbounded (hunbounded column hstop) more
  | truncated => exact absurd hstop h

/-- A run that has ended by itself is the same with any higher limit. -/
theorem run_add_of_not_truncated {limit : Nat} (h : (run tolerance limit t).stop ≠ .truncated)
    (more : Nat) : run tolerance (limit + more) t = run tolerance limit t := by
  rw [run_add, run_final_of_not_truncated h, Run.andThen, List.append_nil]

/-! ### How many pivots there are -/

/-- The count of pivots that the loop makes where nothing limits it. It is infinite if the loop never
ends. -/
noncomputable def pivotCount (tolerance : α) (t : Tableau α) : ℕ∞ :=
  ⨆ limit, ((run tolerance limit t).exchanges.length : ℕ∞)

/-- The loop gets to the other tableau by exactly so many pivots. -/
def After (tolerance : α) (pivots : Nat) (t u : Tableau α) : Prop :=
  (run tolerance pivots t).exchanges.length = pivots ∧ (run tolerance pivots t).final = u

theorem length_exchanges_le_add (tolerance : α) (j k : Nat) (t : Tableau α) :
    (run tolerance j t).exchanges.length ≤ (run tolerance (j + k) t).exchanges.length := by
  rw [run_add, Run.andThen, List.length_append]
  exact Nat.le_add_right _ _

theorem stop_eq_truncated_iff {limit : Nat} :
    (run tolerance limit t).stop = .truncated ↔ (limit : ℕ∞) < pivotCount tolerance t := by
  constructor
  · intro h
    -- one more pivot is made if the limit is higher by one
    obtain ⟨row, column, hchoose⟩ := (stop_eq_truncated_iff_choose tolerance limit t).mp h
    have hlength : (run tolerance (limit + 1) t).exchanges.length = limit + 1 := by
      rw [run_add, run_succ_of_pivot hchoose, Run.andThen, List.length_append,
        length_exchanges_of_truncated h, Run.andThen, List.length_append,
        (run_zero tolerance _).1]
      rfl
    calc (limit : ℕ∞) < ((limit + 1 : Nat) : ℕ∞) := by exact_mod_cast Nat.lt_succ_self limit
      _ = ((run tolerance (limit + 1) t).exchanges.length : ℕ∞) := by rw [hlength]
      _ ≤ pivotCount tolerance t :=
        le_iSup (fun limit => ((run tolerance limit t).exchanges.length : ℕ∞)) (limit + 1)
  · intro h
    by_contra hstop
    refine absurd h (not_lt.mpr (iSup_le fun other => ?_))
    have hle : (run tolerance other t).exchanges.length ≤ limit :=
      calc (run tolerance other t).exchanges.length
          ≤ (run tolerance (other + limit) t).exchanges.length :=
            length_exchanges_le_add tolerance other limit t
        _ = (run tolerance limit t).exchanges.length := by
            rw [Nat.add_comm, run_add_of_not_truncated hstop]
        _ ≤ limit := length_exchanges_run_le tolerance limit t
    exact_mod_cast hle

theorem not_truncated_iff {limit : Nat} :
    (run tolerance limit t).stop ≠ .truncated ↔ pivotCount tolerance t ≤ limit := by
  rw [ne_eq, stop_eq_truncated_iff, not_lt]

theorem length_exchanges_of_le {limit : Nat} (h : pivotCount tolerance t ≤ limit) :
    ((run tolerance limit t).exchanges.length : ℕ∞) = pivotCount tolerance t := by
  have hstop := not_truncated_iff.mpr h
  refine le_antisymm
    (le_iSup (fun limit => ((run tolerance limit t).exchanges.length : ℕ∞)) limit)
    (iSup_le fun other => ?_)
  have hle := length_exchanges_le_add tolerance other limit t
  rw [Nat.add_comm, run_add_of_not_truncated hstop] at hle
  exact_mod_cast hle

/-- Limits that are high enough all give the whole run. -/
theorem run_eq_of_le {j k : Nat} (hj : pivotCount tolerance t ≤ j)
    (hk : pivotCount tolerance t ≤ k) : run tolerance j t = run tolerance k t := by
  rw [← run_add_of_not_truncated (not_truncated_iff.mpr hj) k, Nat.add_comm,
    run_add_of_not_truncated (not_truncated_iff.mpr hk)]

theorem after_final_iff {pivots : Nat} :
    After tolerance pivots t (run tolerance pivots t).final ↔
      (pivots : ℕ∞) ≤ pivotCount tolerance t := by
  unfold After
  constructor
  · rintro ⟨hlength, -⟩
    calc (pivots : ℕ∞) = ((run tolerance pivots t).exchanges.length : ℕ∞) := by rw [hlength]
      _ ≤ pivotCount tolerance t :=
        le_iSup (fun limit => ((run tolerance limit t).exchanges.length : ℕ∞)) pivots
  · intro h
    refine ⟨?_, rfl⟩
    rcases h.lt_or_eq with hlt | heq
    · exact length_exchanges_of_truncated (stop_eq_truncated_iff.mpr hlt)
    · have hlength := length_exchanges_of_le heq.ge
      rw [← heq] at hlength
      exact_mod_cast hlength

theorem after_zero (tolerance : α) (t : Tableau α) : After tolerance 0 t t :=
  ⟨by rw [(run_zero tolerance t).1, List.length_nil], (run_zero tolerance t).2⟩

theorem after_length_exchanges (tolerance : α) (limit : Nat) (t : Tableau α) :
    After tolerance (run tolerance limit t).exchanges.length t (run tolerance limit t).final := by
  by_cases hstop : (run tolerance limit t).stop = .truncated
  · have hlength := length_exchanges_of_truncated hstop
    rw [hlength]
    exact ⟨hlength, rfl⟩
  · -- the count of all pivots is as good a limit as any above it
    have hcount := not_truncated_iff.mp hstop
    have hlength := length_exchanges_of_le hcount
    have hsame := run_eq_of_le hlength.ge hcount
    exact ⟨congrArg (·.exchanges.length) hsame, congrArg Run.final hsame⟩

section Steps

variable {s : Tableau α}

theorem After.exists_of_le {i k : Nat} (hik : i ≤ k) (h : After tolerance k s u) :
    ∃ t, After tolerance i s t := by
  obtain ⟨hlength, rfl⟩ := h
  have hcount : (i : ℕ∞) ≤ (k : ℕ∞) := by exact_mod_cast hik
  exact ⟨_, after_final_iff.mpr (hcount.trans (after_final_iff.mp ⟨hlength, rfl⟩))⟩

/-- Between two counts of pivots the loop makes steps. -/
theorem After.steps {i k : Nat} (hik : i ≤ k) (ht : After tolerance i s t)
    (hu : After tolerance k s u) : Relation.ReflTransGen (Step tolerance) t u := by
  obtain ⟨more, rfl⟩ := Nat.exists_eq_add_of_le hik
  obtain ⟨-, rfl⟩ := ht
  obtain ⟨-, rfl⟩ := hu
  rw [run_add]
  exact steps_run tolerance more _

theorem After.step {pivots : Nat} (ht : After tolerance pivots s t)
    (hu : After tolerance (pivots + 1) s u) : Step tolerance t u := by
  obtain ⟨hlength, rfl⟩ := ht
  obtain ⟨hnext, rfl⟩ := hu
  have hlt : (pivots : ℕ∞) < pivotCount tolerance s := by
    have hle := after_final_iff.mp ⟨hnext, rfl⟩
    exact lt_of_lt_of_le (by exact_mod_cast Nat.lt_succ_self pivots) hle
  obtain ⟨row, column, hchoose⟩ :=
    (stop_eq_truncated_iff_choose tolerance pivots s).mp (stop_eq_truncated_iff.mpr hlt)
  refine ⟨row, column, hchoose, ?_⟩
  rw [run_add, run_succ_of_pivot hchoose]
  exact (run_zero tolerance _).2

end Steps

end LinProg.Tableau
