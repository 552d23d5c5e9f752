import LinProg.Proofs.Tableau.Vertex

/-!
# Directions between solutions

Two solutions differ by a direction along which no left side changes. Equivalent tableaux have the
same directions, as one solution and a direction give another solution, and their cost rows agree
along each of them: the constant by which they differ on solutions drops out.
-/

namespace LinProg.Tableau

/-- No left side changes along the direction. -/
def Homogeneous (t : Tableau ℚ) (d : Assignment) : Prop := ∀ e ∈ t.equations, weigh e.entries d = 0

theorem Solves.add_iff {t : Tableau ℚ} {z : Assignment} (hz : t.Solves z) (d : Assignment) :
    (t.Solves fun j => z j + d j) ↔ t.Homogeneous d := by
  unfold Solves Homogeneous Equation.Holds at *
  refine forall₂_congr fun e he => ?_
  rw [weigh_add, hz e he]
  exact add_eq_left

namespace Equivalent

variable {s t : Tableau ℚ} {z d : Assignment}

theorem homogeneous_iff (h : s.Equivalent t) (hz : s.Solves z) :
    t.Homogeneous d ↔ s.Homogeneous d := by
  rw [← hz.add_iff d, ← ((h.solves_iff z).mpr hz).add_iff d]
  exact h.solves_iff _

theorem weigh_cost_eq (h : s.Equivalent t) (hz : s.Solves z) (hd : s.Homogeneous d) :
    weigh t.cost d = weigh s.cost d := by
  obtain ⟨c, hc⟩ := h.exists_offset
  have hfoot := hc z hz
  have hmoved := hc _ ((hz.add_iff d).mpr hd)
  rw [weigh_add, weigh_add, hfoot] at hmoved
  linarith

end Equivalent

theorem Canonical.homogeneous_ray {t : Tableau ℚ} (h : t.Canonical) (column : Nat) :
    t.Homogeneous (t.ray column) := fun _ he => h.weigh_entries_ray column he

end LinProg.Tableau
