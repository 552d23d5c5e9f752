import LinProg.Tableau.Augment
import LinProg.Tableau.Pivot

/-!
# The shape of a tableau

What holds of a tableau whatever its numbers are: the lengths fit, every column carries its own
index, every basic variable is one of the columns, and the count of artificial basic variables is
the number of them. The start of a well-formed program has this shape, and no pivot loses it, not
even one that divides by zero or meets a not-a-number.
-/

namespace LinProg.Tableau

variable {α : Type}

structure Shaped (t : Tableau α) : Prop where
  entries_length : ∀ e ∈ t.equations, e.entries.length = t.width
  cost_length : t.cost.length = t.width
  column_eq : ∀ (j : Nat) v, t.columns[j]? = some v → v.column = j
  decision_iff : ∀ (j : Nat) v, t.columns[j]? = some v → (v.role = .decision ↔ j < t.decisionCount)
  column_basic : ∀ v ∈ t.basis, t.columns[v.column]? = some v
  count_eq : t.artificialCount = t.basis.countP Variable.isArtificial
  height_lt_width : t.height < t.width

theorem basic_mem_basis {t : Tableau α} {e : Equation α} (he : e ∈ t.equations) :
    e.basic ∈ t.basis := List.mem_map_of_mem he

theorem Shaped.basic_decision_iff {t : Tableau α} (h : t.Shaped) {e : Equation α}
    (he : e ∈ t.equations) : e.basic.role = .decision ↔ e.basic.column < t.decisionCount :=
  h.decision_iff _ _ (h.column_basic _ (basic_mem_basis he))

theorem Shaped.count_pos_iff {t : Tableau α} (h : t.Shaped) :
    0 < t.artificialCount ↔ ∃ e ∈ t.equations, e.basic.isArtificial := by
  rw [h.count_eq, List.countP_pos_iff]
  constructor
  · rintro ⟨v, hv, hartificial⟩
    obtain ⟨e, he, rfl⟩ := List.mem_map.mp hv
    exact ⟨e, he, hartificial⟩
  · rintro ⟨e, he, hartificial⟩
    exact ⟨e.basic, basic_mem_basis he, hartificial⟩

variable [Scalar α]

/-! ### Pivots -/

theorem pivot_eq {t : Tableau α} {row column : Nat} {e : Equation α} {entering : Variable}
    (hrow : t.equations[row]? = some e) (hcolumn : t.columns[column]? = some entering) :
    t.pivot row column =
      { t with
        equations := t.equations.mapIdx fun i other =>
          if i = row then { e.divide (e.entry column) with basic := entering }
          else other.eliminate column (e.divide (e.entry column))
        cost := subtractMultiple (t.cost.getD column 0) (e.divide (e.entry column)).entries t.cost
        artificialCount := recount t.artificialCount e.basic entering } := by
  unfold pivot
  rw [hrow, hcolumn]

theorem pivot_eq_self {t : Tableau α} {row column : Nat}
    (hout : t.equations[row]? = none ∨ t.columns[column]? = none) : t.pivot row column = t := by
  unfold pivot
  rcases hout with hrow | hcolumn
  · rw [hrow]
  · rw [hcolumn]
    split
    · next heq => simp at heq
    · rfl

@[simp]
theorem basic_eliminate (e : Equation α) (column : Nat) (pivotRow : Equation α) :
    (e.eliminate column pivotRow).basic = e.basic := by
  unfold Equation.eliminate
  dsimp only
  split <;> rfl

theorem length_entries_eliminate {e pivotRow : Equation α} (column : Nat)
    (hlength : pivotRow.entries.length = e.entries.length) :
    (e.eliminate column pivotRow).entries.length = e.entries.length := by
  unfold Equation.eliminate
  dsimp only
  split
  · rfl
  · simp [subtractMultiple, hlength]

@[simp]
theorem length_entries_divide (e : Equation α) (d : α) :
    (e.divide d).entries.length = e.entries.length := List.length_map _

/-- The entering variable takes the place of the leaving one, and the rest of the basis stays. -/
theorem basis_pivot {t : Tableau α} {row column : Nat} {e : Equation α} {entering : Variable}
    (hrow : t.equations[row]? = some e) (hcolumn : t.columns[column]? = some entering) :
    (t.pivot row column).basis = t.basis.set row entering := by
  rw [pivot_eq hrow hcolumn]
  apply List.ext_getElem?
  intro i
  simp only [basis, List.getElem?_map, List.getElem?_mapIdx, List.getElem?_set, List.length_map]
  by_cases hi : row = i
  · subst hi
    have hlt := (List.getElem?_eq_some_iff.mp hrow).1
    simp [hlt]
  · cases t.equations[i]? with
    | none => simp [hi]
    | some other => simp [hi, Ne.symm hi]

theorem recount_eq_countP {basis : List Variable} {row : Nat} {leaving : Variable}
    (hrow : basis[row]? = some leaving) (entering : Variable) :
    recount (basis.countP Variable.isArtificial) leaving entering
      = (basis.set row entering).countP Variable.isArtificial := by
  obtain ⟨hlt, hget⟩ := List.getElem?_eq_some_iff.mp hrow
  have hpos : leaving.isArtificial = true → 0 < basis.countP Variable.isArtificial := fun hleaving =>
    List.countP_pos_iff.mpr ⟨leaving, List.mem_of_getElem? hrow, hleaving⟩
  rw [List.countP_set hlt, hget]
  unfold recount
  cases hleaving : leaving.isArtificial with
  | false => cases entering.isArtificial <;> simp
  | true =>
      have := hpos hleaving
      cases entering.isArtificial <;> simp
      omega

theorem Shaped.pivot {t : Tableau α} (h : t.Shaped) (row column : Nat) :
    (t.pivot row column).Shaped := by
  cases hrow : t.equations[row]? with
  | none =>
      rw [pivot_eq_self (.inl hrow)]
      exact h
  | some e =>
      cases hcolumn : t.columns[column]? with
      | none =>
          rw [pivot_eq_self (.inr hcolumn)]
          exact h
      | some entering =>
          have he : e ∈ t.equations := List.mem_of_getElem? hrow
          have hlength : (e.divide (e.entry column)).entries.length = t.width := by
            rw [length_entries_divide, h.entries_length e he]
          have hwidth : (t.pivot row column).width = t.width := by simp [width]
          have hentering : t.columns[entering.column]? = some entering := by
            rw [h.column_eq column entering hcolumn, hcolumn]
          refine
            { entries_length := ?_
              cost_length := ?_
              column_eq := by simpa using h.column_eq
              decision_iff := by simpa using h.decision_iff
              column_basic := ?_
              count_eq := ?_
              height_lt_width := by simpa [hwidth] using h.height_lt_width }
          · rw [hwidth, pivot_eq hrow hcolumn]
            intro f hf
            obtain ⟨i, hi, rfl⟩ := List.mem_mapIdx.mp hf
            have hother := h.entries_length _ (List.getElem_mem hi)
            split
            · exact hlength
            · rw [length_entries_eliminate column (by rw [hlength, hother]), hother]
          · rw [hwidth, pivot_eq hrow hcolumn]
            simp [subtractMultiple, hlength, h.cost_length]
          · rw [columns_pivot, basis_pivot hrow hcolumn]
            intro v hv
            rcases List.mem_or_eq_of_mem_set hv with hold | rfl
            · exact h.column_basic v hold
            · exact hentering
          · have hbasic : t.basis[row]? = some e.basic := by simp [basis, hrow]
            rw [basis_pivot hrow hcolumn, ← recount_eq_countP hbasic, ← h.count_eq,
              pivot_eq hrow hcolumn]

/-! ### The start -/

omit [Scalar α] in
theorem extraCount_append (above below : List (Constraint α)) :
    extraCount (above ++ below) = extraCount above + extraCount below := by
  induction above with
  | nil => simp [extraCount]
  | cons r above ih => rw [List.cons_append, extraCount, extraCount, ih, Nat.add_assoc]

theorem extraColumns_pos (r : Relation) : 0 < r.extraColumns := by
  cases r <;> decide

omit [Scalar α] in
theorem length_le_extraCount (rows : List (Constraint α)) : rows.length ≤ extraCount rows := by
  induction rows with
  | nil => exact Nat.zero_le _
  | cons r rows ih =>
      have hpos := extraColumns_pos r.relation
      rw [List.length_cons, extraCount]
      omega

omit [Scalar α] in
/-- What each row contributes for its own columns takes up as many places as the rows have extra
columns. -/
theorem length_flatten_extra {β : Type} {f : Relation → List β}
    (hf : ∀ r, (f r).length = r.extraColumns) (rows : List (Constraint α)) :
    (rows.map (f ·.relation)).flatten.length = extraCount rows := by
  induction rows with
  | nil => rfl
  | cons r rows ih =>
      rw [List.map_cons, List.flatten_cons, List.length_append, ih, hf, extraCount]

/-- A starting equation knows the rows above it and below it by their extra columns only. -/
theorem exists_row_of_mem_startEquations {before : Nat} {rows : List (Constraint α)}
    {e : Equation α} (he : e ∈ startEquations before rows) :
    ∃ above r below, rows = above ++ r :: below ∧
      e = startEquation (before + extraCount above) (extraCount below) r := by
  induction rows generalizing before with
  | nil => simp [startEquations] at he
  | cons r rows ih =>
      rw [startEquations, List.mem_cons] at he
      rcases he with rfl | htail
      · exact ⟨[], r, rows, rfl, rfl⟩
      · obtain ⟨above, s, below, rfl, rfl⟩ := ih htail
        refine ⟨r :: above, s, below, rfl, ?_⟩
        rw [extraCount, Nat.add_assoc]

theorem getElem?_numbered (roles : List Role) (j : Nat) :
    (numbered 0 roles)[j]? = roles[j]?.map fun role => ⟨role, j⟩ := by
  simp [numbered]

/-- The roles of all columns of the start. -/
def startRoles (decisions : Nat) (rows : List (Constraint α)) : List Role :=
  List.replicate decisions .decision ++ (rows.map (·.relation.extraRoles)).flatten

omit [Scalar α] in
theorem length_startRoles (decisions : Nat) (rows : List (Constraint α)) :
    (startRoles decisions rows).length = decisions + extraCount rows := by
  rw [startRoles, List.length_append, List.length_replicate,
    length_flatten_extra Relation.length_extraRoles]

theorem extraRoles_last (r : Relation) : r.extraRoles[r.extraColumns - 1]? = some r.basicRole := by
  cases r <;> rfl

theorem not_decision_of_mem_extraRoles {r : Relation} {role : Role} (hrole : role ∈ r.extraRoles) :
    role ≠ .decision := by
  rintro rfl
  cases r <;> simp [Relation.extraRoles] at hrole

omit [Scalar α] in
theorem getElem?_startRoles_decision_iff {decisions j : Nat} {rows : List (Constraint α)}
    {role : Role} (hj : (startRoles decisions rows)[j]? = some role) :
    role = .decision ↔ j < decisions := by
  unfold startRoles at hj
  by_cases hlt : j < decisions
  · rw [List.getElem?_append_left (by simpa using hlt), List.getElem?_replicate, if_pos hlt] at hj
    exact iff_of_true (Option.some.inj hj).symm hlt
  · rw [List.getElem?_append_right (by simpa using hlt)] at hj
    obtain ⟨roles, hroles, hmem⟩ := List.mem_flatten.mp (List.mem_of_getElem? hj)
    obtain ⟨r, -, rfl⟩ := List.mem_map.mp hroles
    exact iff_of_false (not_decision_of_mem_extraRoles hmem) hlt

omit [Scalar α] in
/-- What a row contributes for its own columns stands behind the contributions of the rows above. -/
theorem getElem?_flatten_extra {β : Type} {f : Relation → List β}
    (hf : ∀ r, (f r).length = r.extraColumns) (above below : List (Constraint α))
    (r : Constraint α) {j : Nat} (hj : j < r.relation.extraColumns) :
    ((above ++ r :: below).map (f ·.relation)).flatten[extraCount above + j]?
      = (f r.relation)[j]? := by
  have hsplit : ((above ++ r :: below).map (f ·.relation)).flatten
      = (above.map (f ·.relation)).flatten
        ++ (f r.relation ++ (below.map (f ·.relation)).flatten) := by simp
  have habove := length_flatten_extra hf above
  rw [hsplit, List.getElem?_append_right (by omega), habove, Nat.add_sub_cancel_left,
    List.getElem?_append_left (by rw [hf]; exact hj)]

omit [Scalar α] in
/-- The basic variable of a row is the last of the row's own columns. -/
theorem getElem?_startRoles_basic (decisions : Nat) (above below : List (Constraint α))
    (r : Constraint α) :
    (startRoles decisions (above ++ r :: below))[decisions + extraCount above
      + r.relation.extraColumns - 1]? = some r.relation.basicRole := by
  have hpos := extraColumns_pos r.relation
  have hcolumn : decisions + extraCount above + r.relation.extraColumns - 1
      = decisions + (extraCount above + (r.relation.extraColumns - 1)) := by omega
  rw [startRoles, hcolumn, List.getElem?_append_right (by simp), List.length_replicate,
    Nat.add_sub_cancel_left,
    getElem?_flatten_extra Relation.length_extraRoles above below r (by omega), extraRoles_last]

theorem Program.row_length_normalised {p : Program α} (hwf : p.WellFormed) :
    ∀ r ∈ p.rows.map Constraint.normalised, r.coefficients.length = p.width := by
  intro r hr
  obtain ⟨s, hs, rfl⟩ := List.mem_map.mp hr
  rw [Constraint.length_normalised, hwf.row_length s hs]

theorem length_reduceCost (bigM : α) {costs : List α} {r : Constraint α}
    (hr : r.coefficients.length = costs.length) :
    (reduceCost bigM costs r).length = costs.length := by
  unfold reduceCost
  split
  · simp [hr]
  · rfl

theorem length_foldl_reduceCost (bigM : α) {rows : List (Constraint α)} {costs : List α}
    (hrows : ∀ r ∈ rows, r.coefficients.length = costs.length) :
    (rows.foldl (reduceCost bigM) costs).length = costs.length := by
  induction rows generalizing costs with
  | nil => rfl
  | cons r rows ih =>
      have hlength := length_reduceCost bigM (hrows r List.mem_cons_self)
      rw [List.foldl_cons, ih, hlength]
      intro s hs
      rw [hlength, hrows s (List.mem_cons_of_mem r hs)]

theorem length_signedCosts (direction : Direction) (costs : List α) :
    (signedCosts direction costs).length = costs.length := by
  cases direction
  · rfl
  · exact List.length_map _

theorem length_signedCosts_costs (p : Program α) (direction : Direction) :
    (signedCosts direction p.costs).length = p.width := by
  rw [length_signedCosts]
  exact List.length_map _

/-- The cost row has one entry for each decision variable before those of the extra columns. -/
theorem length_decisionCosts {p : Program α} (hwf : p.WellFormed) (bigM : α)
    (direction : Direction) :
    ((p.rows.map Constraint.normalised).foldl (reduceCost bigM)
      (signedCosts direction p.costs)).length = p.width := by
  have hcosts := length_signedCosts_costs p direction
  rw [length_foldl_reduceCost bigM, hcosts]
  intro r hr
  rw [hcosts]
  exact Program.row_length_normalised hwf r hr

theorem width_augment (p : Program α) (direction : Direction) :
    (augment p direction).width = p.width + extraCount (p.rows.map Constraint.normalised) := by
  rw [← length_startRoles]
  exact List.length_mapIdx

theorem isArtificial_basic_startEquation (before after : Nat) (r : Constraint α) :
    (startEquation before after r).basic.isArtificial = r.relation.needsArtificial := by
  unfold startEquation Variable.isArtificial
  cases r.relation <;> rfl

theorem countP_basis_startEquations (before : Nat) (rows : List (Constraint α)) :
    ((startEquations before rows).map (·.basic)).countP Variable.isArtificial
      = rows.countP (·.relation.needsArtificial) := by
  induction rows generalizing before with
  | nil => rfl
  | cons r rows ih =>
      rw [startEquations, List.map_cons, List.countP_cons, List.countP_cons, ih,
        isArtificial_basic_startEquation]

theorem shaped_augment {p : Program α} (hwf : p.WellFormed) (direction : Direction) :
    (augment p direction).Shaped := by
  have hrows := Program.row_length_normalised hwf
  have hequation : ∀ e ∈ (augment p direction).equations, ∃ above r below,
      p.rows.map Constraint.normalised = above ++ r :: below ∧
        r.coefficients.length = p.width ∧
        e = startEquation (extraCount above) (extraCount below) r := by
    intro e he
    obtain ⟨above, r, below, hsplit, rfl⟩ := exists_row_of_mem_startEquations he
    exact ⟨above, r, below, hsplit, hrows r (by simp [hsplit]), by rw [Nat.zero_add]⟩
  have hbasic : ∀ e ∈ (augment p direction).equations,
      (startRoles p.width (p.rows.map Constraint.normalised))[e.basic.column]?
        = some e.basic.role := by
    intro e he
    obtain ⟨above, r, below, hsplit, hlength, rfl⟩ := hequation e he
    have hlast := getElem?_startRoles_basic p.width above below r
    rw [← hlength] at hlast
    rw [hsplit, ← hlength]
    exact hlast
  have hcolumns : ∀ j : Nat, (augment p direction).columns[j]?
      = (startRoles p.width (p.rows.map Constraint.normalised))[j]?.map fun role => ⟨role, j⟩ :=
    getElem?_numbered _
  refine
    { entries_length := ?_
      cost_length := ?_
      column_eq := ?_
      decision_iff := ?_
      column_basic := ?_
      count_eq := ?_
      height_lt_width := ?_ }
  · intro e he
    obtain ⟨above, r, below, hsplit, hlength, rfl⟩ := hequation e he
    rw [width_augment, hsplit, extraCount_append]
    simp [startEquation, extraCount, hlength, Nat.add_assoc]
  · rw [width_augment]
    show (_ ++ _ : List α).length = _
    rw [List.length_append, length_decisionCosts hwf,
      length_flatten_extra (Relation.length_extraCosts _)]
  · intro j v hj
    rw [hcolumns] at hj
    obtain ⟨role, -, rfl⟩ := Option.map_eq_some_iff.mp hj
    rfl
  · intro j v hj
    rw [hcolumns] at hj
    obtain ⟨role, hrole, rfl⟩ := Option.map_eq_some_iff.mp hj
    exact getElem?_startRoles_decision_iff hrole
  · intro v hv
    obtain ⟨e, he, rfl⟩ := List.mem_map.mp hv
    rw [hcolumns, hbasic e he]
    rfl
  · exact (countP_basis_startEquations 0 _).symm
  · have hcount := length_le_extraCount (p.rows.map Constraint.normalised)
    have hpos := hwf.width_pos
    rw [width_augment, height_augment]
    rw [List.length_map] at hcount
    unfold Program.height
    omega

end LinProg.Tableau
