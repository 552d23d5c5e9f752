import LinProg.Proofs.Format.Counts
import LinProg.Proofs.Format.Writing
import Mathlib.Data.List.TakeWhile

/-!
# Programs from texts

What is known of a program because it was read: it is well formed, its counts are words, it is not
solved yet, and each label is there and can stand in a text again. Writing leaves such labels alone.
-/

namespace LinProg

open LinProg.Format LinProg.Format.Parser LinProg.Format.Grammar

/-! ### The labels of a text -/

namespace Format

section Several

variable {β : Type} {p : Parser β} {P : β → Prop}

theorem Parser.Gives.next (h : p.Gives P) : (Grammar.next p).Gives P :=
  (gives_true gap).bind fun _ _ => h

theorem Parser.Gives.several (h : p.Gives P) :
    (Grammar.several p).Gives fun values => ∀ v ∈ values, P v := by
  refine Gives.orElse (h.bind fun first hfirst => ?_) (gives_pure nofun)
  exact h.next.many.bind fun others hothers =>
    gives_pure (List.forall_mem_cons.mpr ⟨hfirst, hothers⟩)

theorem Parser.Gives.listed (h : p.Gives P) :
    (Grammar.listed p).Gives fun values => ∀ v ∈ values, P v :=
  Gives.several ((gives_true comma).bind fun _ _ => h.next)

end Several

theorem gives_label : label.Gives Clean := by
  refine Gives.rule _ ((gives_true _).bind fun _ _ => ?_)
  refine Gives.bind (P := Clean) (Gives.rule _ (gives_piece ?_)) fun text htext =>
    (gives_true _).bind fun _ _ => gives_pure htext
  intro cs text n hscan c hc
  obtain ⟨rfl, -⟩ := Prod.mk.inj (Option.some.inj hscan)
  rw [String.toList_ofList] at hc
  simpa using List.mem_takeWhile_imp hc

theorem gives_columnLabels : columnLabels.Gives fun labels => ∀ l ∈ labels, Clean l := by
  refine Gives.rule _ (gives_label.bind fun first hfirst => ?_)
  exact gives_label.listed.next.bind fun others hothers =>
    gives_pure (List.forall_mem_cons.mpr ⟨hfirst, hothers⟩)

theorem gives_constraint : constraint.Gives fun r => Clean r.label := by
  refine Gives.rule _ ((gives_true _).bind fun _ _ => gives_label.bind fun label hlabel => ?_)
  refine (gives_true _).bind fun _ _ => (gives_true _).bind fun _ _ => ?_
  refine (gives_true _).bind fun _ _ => (gives_true _).bind fun _ _ => ?_
  exact (gives_true _).bind fun _ _ => gives_pure hlabel

theorem gives_objective : objective.Gives fun o => Clean o.label := by
  refine Gives.rule _ ((gives_true _).bind fun _ _ => gives_label.bind fun label hlabel => ?_)
  exact (gives_true _).bind fun _ _ => gives_pure hlabel

/-- Each label of the document can stand in a text. -/
structure Document.Clean (d : Document) : Prop where
  columnLabels : ∀ l ∈ d.columnLabels, Format.Clean l
  constraints : ∀ r ∈ d.constraints, Format.Clean r.label
  objective : Format.Clean d.objective.label

theorem gives_document : document.Gives Document.Clean := by
  refine Gives.rule _ ((gives_true _).bind fun _ _ => (gives_true _).bind fun _ _ => ?_)
  refine (gives_true _).bind fun _ _ => (gives_true _).bind fun _ _ => ?_
  refine (gives_true _).bind fun _ _ => gives_columnLabels.next.bind fun labels hlabels => ?_
  refine Gives.bind (Gives.next (Gives.several ((gives_true _).bind fun _ _ =>
    gives_constraint.next))) fun constraints hconstraints => ?_
  refine (gives_true _).bind fun _ _ => gives_objective.next.bind fun objective hobjective => ?_
  refine (gives_true _).bind fun _ _ => (gives_true _).bind fun _ _ => ?_
  exact gives_pure ⟨hlabels, hconstraints, hobjective⟩

end Format

end LinProg
