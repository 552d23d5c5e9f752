import LinProg.Proofs.Engine.Soundness
import LinProg.Proofs.Program.Operations
import LinProg.Proofs.Tableau.Limit

/-!
# A limit only cuts a solve short

How many pivots a solve makes is decided by the tableau that the engine holds and by the limit. Up to
the limit it makes the pivots that a solve without one makes, and if these are all, then the answer
and the last tableau are the same too. Otherwise the engine is left at the tableau that it has got
to, and the next solve goes on from there.
-/

namespace LinProg

theorem Tableau.Stop.status?_eq_none_iff {stop : Stop} :
    stop.status? = none ↔ stop = .truncated := by
  cases stop <;> simp [status?]

namespace Engine

variable {α : Type} [Scalar α]

def limited (e : Engine α) (limit : Option Nat) : Engine α :=
  { e with settings := { e.settings with maxIterations := limit } }

/-- The engine after some calls of `solve`, whatever their answers. -/
def resumed (fuel : Nat) (e : Engine α) : Nat → Engine α
  | 0 => e
  | calls + 1 => ((resumed fuel e calls).solve fuel).2

/-- The pivots of some calls of `solve`, added up. -/
def pivotsMade (fuel : Nat) (e : Engine α) (calls : Nat) : Nat :=
  ((List.range calls).map fun i => (e.resumed fuel (i + 1)).iterations).sum

theorem Fits.limited {e : Engine α} (h : e.Fits) (limit : Option Nat) : (e.limited limit).Fits :=
  ⟨h.wellFormed, h.shaped, h.decisionCount_eq⟩

/-! ### One call -/

section Call

variable {e : Engine α} (h : e.Fits) {fuel : Nat}

include h in
theorem Fits.solve_iterations :
    (e.solve fuel).2.iterations = (e.loop fuel).exchanges.length := by
  rw [solve_eq h.shaped.height_lt_width]
  rfl

include h in
theorem Fits.currentTableau_solve : (e.solve fuel).2.currentTableau = (e.loop fuel).final := by
  unfold currentTableau
  rw [solve_tableau h.shaped.height_lt_width]
  rfl

include h in
theorem Fits.exists_status (hended : (e.loop fuel).stop ≠ .truncated) :
    ∃ status, (e.solve fuel).1 = .ok status := by
  have hstatus := mt Tableau.Stop.status?_eq_none_iff.mp hended
  obtain ⟨status, hstatus⟩ := Option.ne_none_iff_exists'.mp hstatus
  exact ⟨status, (solve_eq_ok_iff h.shaped.height_lt_width fuel).mpr hstatus⟩

include h in
theorem Fits.not_truncated {status : Status} (hok : (e.solve fuel).1 = .ok status) :
    (e.loop fuel).stop ≠ .truncated := by
  intro htruncated
  have hstatus := (solve_eq_ok_iff h.shaped.height_lt_width fuel).mp hok
  rw [htruncated] at hstatus
  cases hstatus

include h in
/-- A solve that its limit has cut short. -/
theorem Fits.solve_of_truncated (hcut : (e.loop fuel).stop = .truncated) :
    (e.solve fuel).1 = .error (e.cutShort fuel) ∧
      (e.solve fuel).2.iterations = e.settings.maxIterations.getD fuel := by
  constructor
  · rw [solve_eq h.shaped.height_lt_width, hcut]
    rfl
  · rw [h.solve_iterations]
    exact Tableau.length_exchanges_of_truncated hcut

/-- Two engines with one program and the same run. -/
theorem sameOutcome_solve {e' : Engine α} {fuel' : Nat} (h : e.Fits) (h' : e'.Fits)
    (hprogram : e'.program = e.program) (hloop : e'.loop fuel' = e.loop fuel)
    (hended : (e.loop fuel).stop ≠ .truncated) :
    SameOutcome (e.solve fuel) (e'.solve fuel') where
  answer_eq := by
    obtain ⟨status, hok⟩ := h.exists_status hended
    have hstatus := (solve_eq_ok_iff h.shaped.height_lt_width fuel).mp hok
    rw [hok, solve_eq_ok_iff h'.shaped.height_lt_width, hloop, hstatus]
  iterations_eq := by rw [h'.solve_iterations, h.solve_iterations, hloop]
  tableau_eq := by
    rw [solve_tableau h'.shaped.height_lt_width, solve_tableau h.shaped.height_lt_width, hloop]
  solution_eq := by rw [solve_program, solve_program, hprogram]

end Call

/-! ### Calls one after the other -/

section Resumed

variable {e : Engine α} (h : e.Fits) (fuel : Nat)

include h in
theorem Fits.resumed (calls : Nat) :
    (e.resumed fuel calls).Fits ∧ (e.resumed fuel calls).settings = e.settings := by
  induction calls with
  | zero => exact ⟨h, rfl⟩
  | succ calls ih =>
      obtain ⟨hfits, hsettings⟩ := ih
      refine ⟨hfits.solve fuel, ?_⟩
      rw [← hsettings]
      exact solve_settings hfits.shaped.height_lt_width fuel

theorem pivotsMade_succ (e : Engine α) (calls : Nat) :
    e.pivotsMade fuel (calls + 1)
      = e.pivotsMade fuel calls + (e.resumed fuel (calls + 1)).iterations := by
  unfold pivotsMade
  rw [List.range_succ, List.map_append, List.sum_append, List.map_singleton, List.sum_singleton]

include h in
/-- The calls together do what one run with the sum of their limits does. -/
theorem Fits.resumed_eq {limit : Nat} (hlimit : e.settings.maxIterations = some limit)
    (calls : Nat) :
    (e.resumed fuel calls).currentTableau
        = (e.currentTableau.run e.settings.tolerance (calls * limit)).final ∧
      e.pivotsMade fuel calls
        = (e.currentTableau.run e.settings.tolerance (calls * limit)).exchanges.length := by
  induction calls with
  | zero =>
      obtain ⟨hnone, hfinal⟩ := Tableau.run_zero e.settings.tolerance e.currentTableau
      rw [Nat.zero_mul, hfinal, hnone]
      exact ⟨rfl, rfl⟩
  | succ calls ih =>
      obtain ⟨htableau, hpivots⟩ := ih
      obtain ⟨hfits, hsettings⟩ := h.resumed fuel calls
      have hloop : (e.resumed fuel calls).loop fuel
          = ((e.currentTableau.run e.settings.tolerance (calls * limit)).final).run
              e.settings.tolerance limit := by
        rw [loop, htableau, hsettings, hlimit]
        rfl
      rw [pivotsMade_succ, hpivots, Nat.succ_mul, Tableau.run_add, Tableau.Run.andThen,
        List.length_append, ← hloop]
      exact ⟨hfits.currentTableau_solve, congrArg _ hfits.solve_iterations⟩

include h in
theorem Fits.loop_resumed {limit : Nat} (hlimit : e.settings.maxIterations = some limit)
    (calls : Nat) :
    e.currentTableau.run e.settings.tolerance ((calls + 1) * limit)
      = (e.currentTableau.run e.settings.tolerance (calls * limit)).andThen
          ((e.resumed fuel calls).loop fuel) := by
  rw [Nat.succ_mul, Tableau.run_add, loop, (h.resumed_eq fuel hlimit calls).1,
    (h.resumed fuel calls).2, hlimit]
  rfl

end Resumed

/-! ### What a limit decides -/

section Limits

/-- The count of pivots that the engine's loop makes where nothing limits it. -/
noncomputable def pivotCount (e : Engine α) : ℕ∞ :=
  e.currentTableau.pivotCount e.settings.tolerance

/-- The second engine holds the tableau that the loop of the first one gets to by exactly so many
pivots. -/
def LeftAfter (pivots : Nat) (e e' : Engine α) : Prop :=
  ∃ t, e.currentTableau.After e.settings.tolerance pivots t ∧ e'.tableau = some t

variable {e : Engine α} (h : e.Fits)

theorem ended_iff {limit : Option Nat} {fuel : Nat} :
    ((e.limited limit).loop fuel).stop ≠ .truncated ↔ e.pivotCount ≤ limit.getD fuel :=
  Tableau.not_truncated_iff

theorem cut_iff {limit : Option Nat} {fuel : Nat} :
    ((e.limited limit).loop fuel).stop = .truncated ↔ (limit.getD fuel : ℕ∞) < e.pivotCount :=
  Tableau.stop_eq_truncated_iff

include h in
theorem Fits.solve_unlimited {fuel : Nat} (hle : e.pivotCount ≤ fuel) :
    (∃ status, ((e.limited none).solve fuel).1 = .ok status) ∧
      (((e.limited none).solve fuel).2.iterations : ℕ∞) = e.pivotCount := by
  have hfits := h.limited none
  refine ⟨hfits.exists_status (ended_iff.mpr hle), ?_⟩
  rw [hfits.solve_iterations]
  exact Tableau.length_exchanges_of_le hle

include h in
/-- Where a limit is met by all the pivots there are, it does not matter. -/
theorem Fits.sameOutcome_limited {limit limit' : Option Nat} {fuel fuel' : Nat}
    (hle : e.pivotCount ≤ limit.getD fuel) (hle' : e.pivotCount ≤ limit'.getD fuel') :
    SameOutcome ((e.limited limit).solve fuel) ((e.limited limit').solve fuel') :=
  sameOutcome_solve (h.limited limit) (h.limited limit') rfl (Tableau.run_eq_of_le hle' hle)
    (ended_iff.mpr hle)

include h in
theorem Fits.solve_limited {limit fuel : Nat} (hlt : (limit : ℕ∞) < e.pivotCount) :
    ((e.limited (some limit)).solve fuel).1 = .error (.pivotLimit limit) ∧
      ((e.limited (some limit)).solve fuel).2.iterations = limit ∧
      LeftAfter limit e ((e.limited (some limit)).solve fuel).2 := by
  have hfits := h.limited (some limit)
  have hcut : ((e.limited (some limit)).loop fuel).stop = .truncated := cut_iff.mpr hlt
  obtain ⟨hanswer, hpivots⟩ := hfits.solve_of_truncated hcut
  exact ⟨hanswer, hpivots, _, Tableau.after_final_iff.mpr hlt.le,
    solve_tableau hfits.shaped.height_lt_width fuel⟩

include h in
/-- After an answer there is nothing left to do. -/
theorem Fits.solve_again {fuel : Nat} {status : Status} (hok : (e.solve fuel).1 = .ok status)
    (fuel' : Nat) :
    ((e.solve fuel).2.solve fuel').1 = .ok status ∧
      ((e.solve fuel).2.solve fuel').2.iterations = 0 ∧
      ((e.solve fuel).2.solve fuel').2.tableau = (e.solve fuel).2.tableau := by
  have hfree := h.shaped.height_lt_width
  have hfits := h.solve fuel
  have hloop : (e.solve fuel).2.loop fuel' = ⟨[], (e.loop fuel).final, (e.loop fuel).stop⟩ := by
    rw [loop, h.currentTableau_solve, solve_settings hfree fuel]
    exact Tableau.run_final_of_not_truncated (h.not_truncated hok) _
  refine ⟨?_, ?_, ?_⟩
  · rw [solve_eq_ok_iff hfits.shaped.height_lt_width, hloop]
    exact (solve_eq_ok_iff hfree fuel).mp hok
  · rw [hfits.solve_iterations, hloop]
    rfl
  · rw [solve_tableau hfits.shaped.height_lt_width, hloop, solve_tableau hfree]

end Limits

/-! ### Calls up to the end -/

section Resuming

variable {e : Engine α} (h : e.Fits) {limit fuel calls : Nat}

include h in
theorem Fits.resumed_of_le (hle : e.pivotCount ≤ ((calls + 1) * limit : Nat)) {fuel' : Nat}
    (hfuel : e.pivotCount ≤ fuel') :
    (((e.limited (some limit)).resumed fuel calls).solve fuel).1
        = ((e.limited none).solve fuel').1 ∧
      ((e.limited (some limit)).resumed fuel (calls + 1)).tableau
        = ((e.limited none).solve fuel').2.tableau ∧
      ((e.limited (some limit)).pivotsMade fuel (calls + 1) : ℕ∞) = e.pivotCount := by
  have hlimited := h.limited (some limit)
  have hnone := h.limited none
  have hfits := (hlimited.resumed fuel calls).1
  have hrun := hlimited.loop_resumed fuel rfl calls
  have hwhole : e.currentTableau.run e.settings.tolerance ((calls + 1) * limit)
      = (e.limited none).loop fuel' := Tableau.run_eq_of_le hle hfuel
  have hloop := hrun.symm.trans hwhole
  obtain ⟨status, hok⟩ := hnone.exists_status (ended_iff.mpr hfuel)
  have hstatus := (solve_eq_ok_iff hnone.shaped.height_lt_width fuel').mp hok
  refine ⟨?_, ?_, ?_⟩
  · rw [hok, solve_eq_ok_iff hfits.shaped.height_lt_width, ← hstatus, ← hloop]
    rfl
  · rw [solve_tableau hnone.shaped.height_lt_width, ← hloop]
    exact solve_tableau hfits.shaped.height_lt_width fuel
  · rw [(hlimited.resumed_eq fuel rfl (calls + 1)).2]
    exact Tableau.length_exchanges_of_le hle

include h in
theorem Fits.resumed_of_lt (hlt : ((calls + 1) * limit : Nat) < e.pivotCount) :
    (((e.limited (some limit)).resumed fuel calls).solve fuel).1 = .error (.pivotLimit limit) ∧
      (e.limited (some limit)).pivotsMade fuel (calls + 1) = (calls + 1) * limit ∧
      LeftAfter ((calls + 1) * limit) e ((e.limited (some limit)).resumed fuel (calls + 1)) := by
  have hlimited := h.limited (some limit)
  obtain ⟨hfits, hsettings⟩ := hlimited.resumed fuel calls
  have hrun := hlimited.loop_resumed fuel rfl calls
  have hstop := Tableau.stop_eq_truncated_iff.mpr hlt
  have hcut : (((e.limited (some limit)).resumed fuel calls).loop fuel).stop = .truncated :=
    (congrArg Tableau.Run.stop hrun).symm.trans hstop
  refine ⟨?_, ?_, _, Tableau.after_final_iff.mpr hlt.le, ?_⟩
  · rw [(hfits.solve_of_truncated hcut).1, cutShort, hsettings]
    rfl
  · rw [(hlimited.resumed_eq fuel rfl (calls + 1)).2]
    exact Tableau.length_exchanges_of_truncated hstop
  · refine (solve_tableau hfits.shaped.height_lt_width fuel).trans (congrArg some ?_)
    exact (congrArg Tableau.Run.final hrun).symm

include h in
/-- With any limit but zero a loop that ends is brought to its end. -/
theorem Fits.exists_resumed (hfinite : e.pivotCount ≠ ⊤) (hlimit : 0 < limit) (fuel : Nat) :
    ∃ calls status,
      (((e.limited (some limit)).resumed fuel calls).solve fuel).1 = .ok status := by
  obtain ⟨pivots, hpivots⟩ := ENat.ne_top_iff_exists.mp hfinite
  have hle : e.pivotCount ≤ ((pivots + 1) * limit : Nat) := by
    rw [← hpivots]
    have hnat : pivots ≤ (pivots + 1) * limit := by nlinarith
    exact_mod_cast hnat
  obtain ⟨⟨status, hok⟩, -⟩ := h.solve_unlimited hpivots.ge
  exact ⟨pivots, status, (h.resumed_of_le hle hpivots.ge).1.trans hok⟩

end Resuming

/-- What a limit does to the calls of `solve`, against a call without one. -/
structure Truncates (e : Engine α) : Prop where
  /-- Without a limit the loop goes through all its pivots, if it is waited for. -/
  unlimited : ∀ fuel : Nat, e.pivotCount ≤ fuel →
    (∃ status, ((e.limited none).solve fuel).1 = .ok status) ∧
      (((e.limited none).solve fuel).2.iterations : ℕ∞) = e.pivotCount
  unfinished : ∀ fuel : Nat, fuel < e.pivotCount →
    ((e.limited none).solve fuel).1 = .error (.unfinished fuel)
  whole : ∀ limit fuel fuel' : Nat, e.pivotCount ≤ limit → e.pivotCount ≤ fuel' →
    SameOutcome ((e.limited none).solve fuel') ((e.limited (some limit)).solve fuel)
  cut : ∀ limit fuel : Nat, limit < e.pivotCount →
    ((e.limited (some limit)).solve fuel).1 = .error (.pivotLimit limit) ∧
      ((e.limited (some limit)).solve fuel).2.iterations = limit ∧
      LeftAfter limit e ((e.limited (some limit)).solve fuel).2
  raised : ∀ limit limit' fuel status, limit ≤ limit' →
    ((e.limited (some limit)).solve fuel).1 = .ok status →
      SameOutcome ((e.limited (some limit)).solve fuel) ((e.limited (some limit')).solve fuel)
  /-- Calls one after the other come to the end if their limits together are high enough. -/
  resumed_whole : ∀ limit fuel fuel' calls : Nat,
    e.pivotCount ≤ ((calls + 1) * limit : Nat) → e.pivotCount ≤ fuel' →
      (((e.limited (some limit)).resumed fuel calls).solve fuel).1
          = ((e.limited none).solve fuel').1 ∧
        ((e.limited (some limit)).resumed fuel (calls + 1)).tableau
          = ((e.limited none).solve fuel').2.tableau ∧
        ((e.limited (some limit)).pivotsMade fuel (calls + 1) : ℕ∞) = e.pivotCount
  resumed_cut : ∀ limit fuel calls : Nat, ((calls + 1) * limit : Nat) < e.pivotCount →
    (((e.limited (some limit)).resumed fuel calls).solve fuel).1 = .error (.pivotLimit limit) ∧
      (e.limited (some limit)).pivotsMade fuel (calls + 1) = (calls + 1) * limit ∧
      LeftAfter ((calls + 1) * limit) e ((e.limited (some limit)).resumed fuel (calls + 1))
  exists_resumed : ∀ limit fuel : Nat, e.pivotCount ≠ ⊤ → 0 < limit → ∃ calls status,
    (((e.limited (some limit)).resumed fuel calls).solve fuel).1 = .ok status
  again : ∀ limit fuel fuel' status, ((e.limited limit).solve fuel).1 = .ok status →
    (((e.limited limit).solve fuel).2.solve fuel').1 = .ok status ∧
      (((e.limited limit).solve fuel).2.solve fuel').2.iterations = 0 ∧
      (((e.limited limit).solve fuel).2.solve fuel').2.tableau
        = ((e.limited limit).solve fuel).2.tableau

/-- Whatever an engine has been called for before, a limit decides no more than how many of the
pivots that are left the next calls make. -/
theorem truncates_after {p : Program α} (hwf : p.WellFormed) (settings : Settings α)
    (calls : List Call) : (after p settings calls).Truncates := by
  have h := fits_after hwf settings calls
  generalize after p settings calls = e at h
  exact
    { unlimited := fun _ => h.solve_unlimited
      unfinished := fun _ hlt => ((h.limited none).solve_of_truncated (cut_iff.mpr hlt)).1
      whole := fun _ _ _ hle hfuel => h.sameOutcome_limited hfuel hle
      cut := fun _ _ => h.solve_limited
      raised := by
        intro limit limit' fuel status hle hok
        have hcount : e.pivotCount ≤ (limit : ℕ∞) :=
          ended_iff.mp ((h.limited (some limit)).not_truncated hok)
        exact h.sameOutcome_limited hcount (hcount.trans (by exact_mod_cast hle))
      resumed_whole := fun _ _ _ _ hle hfuel => h.resumed_of_le hle hfuel
      resumed_cut := fun _ _ _ => h.resumed_of_lt
      exists_resumed := fun _ fuel hfinite hlimit => h.exists_resumed hfinite hlimit fuel
      again := fun limit _ fuel' _ hok => (h.limited limit).solve_again hok fuel' }

/-- `mixedRows` after the first of its three pivots. -/
def begun : Engine ℚ := after mixedRows.program ⟨some 1, 0⟩ [.setup .minimize, .solve 0]

theorem truncates_begun :
    begun.pivotCount = 2 ∧ (begun.solve 0).1 = .error (.pivotLimit 1) ∧
      ((begun.resumed 0 1).solve 0).1 = .ok .solution := by
  have htruncates := truncates_after wellFormed_mixedRows ⟨some 1, 0⟩ [.setup .minimize, .solve 0]
  have hended : ((begun.limited none).loop 2).stop ≠ .truncated := by decide +kernel
  have hle : begun.pivotCount ≤ (2 : Nat) := ended_iff.mp hended
  have hpivots : ((begun.limited none).solve 2).2.iterations = 2 := by decide +kernel
  have hanswer : ((begun.limited none).solve 2).1 = .ok .solution := by decide +kernel
  refine ⟨?_, by decide +kernel, ?_⟩
  · calc begun.pivotCount
        = (((begun.limited none).solve 2).2.iterations : ℕ∞) := (htruncates.unlimited 2 hle).2.symm
      _ = 2 := by rw [hpivots]; rfl
  · rw [← hanswer]
    exact (htruncates.resumed_whole 1 0 2 1 hle hle).1

end Engine

end LinProg
