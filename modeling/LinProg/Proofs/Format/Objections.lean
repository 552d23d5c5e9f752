import LinProg.Proofs.Format.TreePass

/-!
# What speaks against a text

A text that breaks the grammar has the one error that says where. All that can speak against any
other text is told by its document, and the first objection in a fixed order is the error of the
text.
-/

namespace LinProg

open LinProg.Format

namespace Format

/-- The error of a text that breaks the grammar, at the furthest place that was reached. -/
def syntaxError (text : String) : Error :=
  let frontier := Grammar.document.note (.ofText text) .start
  .malformed frontier.line (.unexpected (Rule.inOrder frontier.rules))

/-- The number is in the range of a signed word of 64 bits. -/
def Numeral.Fits (n : Numeral) : Prop := -2 ^ 63 ≤ n.value ∧ n.value < 2 ^ 63

instance (n : Numeral) : Decidable n.Fits := instDecidableAnd

/-- An error that is raised unless a condition holds. -/
def objection (condition : Prop) [Decidable condition] (error : Error) : List Error :=
  if condition then [] else [error]

/-- What speaks against the counts of a header. -/
def Header.objections (h : Header) : List Error :=
  objection h.rows.Fits (.malformed h.line (.notADimension h.rows.text))
    ++ (objection h.columns.Fits (.malformed h.line (.notADimension h.columns.text))
      ++ objection (0 < h.rows.value ∧ 0 < h.columns.value)
          (.invalidDimensions h.rows.value h.columns.value))

/-- A count of records that is not the one of the header. -/
def miscount (line : Nat) (n : Numeral) (found : Nat) (complaint : Nat → Nat → Complaint) :
    List Error :=
  objection (n.value = found) (.malformed line (complaint n.value.toNat found))

/-- What speaks against a document, in the order in which it is looked for. -/
def Document.objections (d : Document) : List Error :=
  d.header.objections
    ++ (miscount (d.header.line + 1) d.header.columns d.columnLabels.length .columnLabels
      ++ (miscount d.objective.line d.header.rows d.constraints.length .constraintRows
        ++ (d.constraints.flatMap (fun r =>
              miscount r.line d.header.columns r.coefficients.length .coefficients)
          ++ miscount d.objective.line d.header.columns d.objective.costs.length
              .objectiveCoefficients)))

/-- Fails with the first of the errors. -/
def refuse : List Error → Except Error Unit
  | [] => .ok ()
  | error :: _ => .error error

theorem refuse_append (errors more : List Error) :
    refuse (errors ++ more) = refuse errors >>= fun _ => refuse more := by
  cases errors <;> rfl

theorem refuse_flatMap {β : Type} (objections : β → List Error) (xs : List β) :
    refuse (xs.flatMap objections) = xs.forM fun x => refuse (objections x) := by
  induction xs with
  | nil => rfl
  | cons x xs ih =>
      rw [List.flatMap_cons, refuse_append, ih]
      rfl

theorem refuse_objection (condition : Prop) [Decidable condition] (error : Error) :
    refuse (objection condition error) = if condition then .ok () else .error error := by
  unfold objection
  by_cases h : condition
  · rw [if_pos h, if_pos h]
    rfl
  · rw [if_neg h, if_neg h]
    rfl

theorem word_eq (n : Numeral) (line : Nat) :
    n.word line = (refuse (objection n.Fits (.malformed line (.notADimension n.text)))).map
      fun _ => n.value := by
  have hbound : ((Nat.pow 2 63 : Nat) : Int) = 2 ^ 63 := rfl
  unfold Numeral.word
  rw [hbound, refuse_objection]
  show (if n.Fits then _ else _) = _
  by_cases h : n.Fits
  · rw [if_pos h, if_pos h]
    rfl
  · rw [if_neg h, if_neg h]
    rfl

theorem counts_eq (h : Header) :
    h.counts = (refuse h.objections).map fun _ => (h.rows.value.toNat, h.columns.value.toNat) := by
  unfold Header.counts Header.objections
  rw [word_eq, word_eq, refuse_append, refuse_append, refuse_objection (0 < _ ∧ 0 < _)]
  cases refuse (objection h.rows.Fits _) with
  | error e => rfl
  | ok _ =>
      cases refuse (objection h.columns.Fits _) with
      | error e => rfl
      | ok _ =>
          show (if 0 < h.rows.value ∧ 0 < h.columns.value then _ else _)
            = Except.map _ (if 0 < h.rows.value ∧ 0 < h.columns.value then _ else _)
          by_cases hpositive : 0 < h.rows.value ∧ 0 < h.columns.value
          · rw [if_pos hpositive, if_pos hpositive]
            rfl
          · rw [if_neg hpositive, if_neg hpositive]
            rfl

theorem checkCount_eq {n : Numeral} (hn : 0 < n.value) (line found : Nat)
    (complaint : Nat → Nat → Complaint) :
    checkCount line n.value.toNat found complaint = refuse (miscount line n found complaint) := by
  unfold checkCount miscount
  rw [refuse_objection]
  exact if_congr (by omega) rfl rfl

theorem check_eq (d : Document) : d.check = refuse d.objections := by
  unfold Document.check Document.objections
  rw [counts_eq, refuse_append]
  cases hheader : refuse d.header.objections with
  | error e => rfl
  | ok u =>
      have hcounts : d.header.counts
          = .ok (d.header.rows.value.toNat, d.header.columns.value.toNat) := by
        rw [counts_eq, hheader]
        rfl
      obtain ⟨⟨hrows, hcolumns⟩, hpositive, -⟩ := Header.counts_eq_ok_iff.mp hcounts
      have hrows : 0 < d.header.rows.value := by omega
      have hcolumns : 0 < d.header.columns.value := by omega
      rw [refuse_append, refuse_append, refuse_append, refuse_flatMap]
      simp only [← checkCount_eq hrows, ← checkCount_eq hcolumns]
      rfl

/-! ### The kinds of errors -/

/-- The two kinds of errors that a text can have. -/
def OfText (error : Error) : Prop :=
  (∃ line complaint, error = .malformed line complaint) ∨
    ∃ rows columns, error = .invalidDimensions rows columns

theorem forall_mem_objection {condition : Prop} [Decidable condition] {error : Error}
    (h : OfText error) : ∀ e ∈ objection condition error, OfText e := by
  unfold objection
  split
  · exact nofun
  · exact List.forall_mem_singleton.mpr h

theorem forall_mem_miscount (line : Nat) (n : Numeral) (found : Nat)
    (complaint : Nat → Nat → Complaint) : ∀ e ∈ miscount line n found complaint, OfText e :=
  forall_mem_objection (.inl ⟨_, _, rfl⟩)

theorem Document.forall_mem_objections (d : Document) : ∀ e ∈ d.objections, OfText e := by
  unfold objections Header.objections
  simp only [List.forall_mem_append, List.forall_mem_flatMap]
  refine ⟨⟨?_, ?_, ?_⟩, forall_mem_miscount _ _ _ _, forall_mem_miscount _ _ _ _,
    fun r _ => forall_mem_miscount _ _ _ _, forall_mem_miscount _ _ _ _⟩
  · exact forall_mem_objection (.inl ⟨_, _, rfl⟩)
  · exact forall_mem_objection (.inl ⟨_, _, rfl⟩)
  · exact forall_mem_objection (.inr ⟨_, _, rfl⟩)

end Format

namespace Program

variable {α : Type} [Scalar α] {text : String}

theorem ofText_of_refused (h : Grammar.document.read (.ofText text) = none) :
    (ofText text : Except Error (Program α)) = .error (syntaxError text) := by
  unfold ofText Document.ofText
  dsimp only
  rw [h]
  rfl

theorem ofText_of_document {d : Document} {after : Cursor}
    (h : Grammar.document.read (.ofText text) = some (d, after)) :
    (ofText text : Except Error (Program α)) = (refuse d.objections).map fun _ => d.toProgram := by
  unfold ofText Document.ofText
  dsimp only
  rw [h, ← check_eq]
  show d.check >>= _ = _
  cases d.check <;> rfl

theorem ofText_kind (text : String) {e : Error}
    (h : (ofText text : Except Error (Program α)) = .error e) : OfText e := by
  cases hread : Grammar.document.read (.ofText text) with
  | none =>
      rw [ofText_of_refused hread] at h
      exact .inl ⟨_, _, (Except.error.inj h).symm⟩
  | some r =>
      rw [ofText_of_document hread] at h
      cases herrors : r.1.objections with
      | nil =>
          rw [herrors] at h
          cases h
      | cons first others =>
          rw [herrors] at h
          obtain rfl := Except.error.inj h
          exact r.1.forall_mem_objections first (herrors ▸ List.mem_cons_self)

/-- Reading a text ends with a program or with one of two kinds of errors, and going through the
trees of the text comes to the same. A text that breaks the grammar has the error that says where,
and any other text the first objection to its document. -/
theorem ofText_classified (text : String) :
    Forest.vectorsOfText text
        = some (((ofText text : Except Error (Program Float)).map vectors).mapError .known) ∧
      (∀ e, (ofText text : Except Error (Program Float)) = .error e → OfText e) ∧
      (Grammar.document.read (.ofText text) = none →
        (ofText text : Except Error (Program Float)) = .error (syntaxError text)) ∧
      ∀ d after, Grammar.document.read (.ofText text) = some (d, after) →
        (ofText text : Except Error (Program Float))
          = (refuse d.objections).map fun _ => d.toProgram :=
  ⟨vectorsOfText_eq text, fun _ => ofText_kind text, ofText_of_refused,
    fun _ _ => ofText_of_document⟩

/-- Nothing about the counts of this text is right, and no row comes before the objective. -/
def oversizedText : String := "maximize\n9223372036854775808,0\n\"x\"\n\"Z\",1\n"

theorem ofText_oversizedText :
    (ofText "maximize" : Except Error (Program Float)) = .error (syntaxError "maximize") ∧
      ∃ d after, Grammar.document.read (.ofText oversizedText) = some (d, after) ∧
        d.objections.length = 5 ∧
        OfText (.malformed 2 (.notADimension "9223372036854775808")) ∧
        Forest.vectorsOfText oversizedText
          = some (.error (.known (.malformed 2 (.notADimension "9223372036854775808")))) := by
  have hobjections : (Grammar.document.read (.ofText oversizedText)).map (·.1.objections)
      = some [.malformed 2 (.notADimension "9223372036854775808"),
          .invalidDimensions 9223372036854775808 0, .malformed 3 (.columnLabels 0 1),
          .malformed 4 (.constraintRows 9223372036854775808 0),
          .malformed 4 (.objectiveCoefficients 0 1)] := by decide +kernel
  obtain ⟨⟨d, after⟩, hread, hd⟩ := Option.map_eq_some_iff.mp hobjections
  obtain ⟨hpass, hkind, -, hfirst⟩ := ofText_classified oversizedText
  have herror : (ofText oversizedText : Except Error (Program Float))
      = .error (.malformed 2 (.notADimension "9223372036854775808")) := by
    rw [hfirst d after hread, hd]
    rfl
  refine ⟨(ofText_classified "maximize").2.2.1 (by decide +kernel), d, after, hread, ?_,
    hkind _ herror, ?_⟩
  · rw [hd]
    rfl
  · rw [hpass, herror]
    rfl

end Program

end LinProg
