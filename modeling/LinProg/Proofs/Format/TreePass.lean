import LinProg.Decimal.Word
import LinProg.Proofs.Format.SyntaxTree
import LinProg.Proofs.Program.Representation

/-!
# A pass over the trees of a text

A program can also be made of the trees of a text alone, each of which is looked at by its rule and
its text. Such a pass has an error of its own for every tree that is not as it should be, and none
of them is ever found: the trees of a text are those that the grammar leaves, and each part that
the grammar accepts has a value.
-/

namespace LinProg.Format

/-- What the pass finds wrong with a tree. -/
inductive Defect where
  | emptyFile
  | incompleteFile
  | notPart (text whole : String)
  | noDirection
  | noDimensions
  | incompleteConstraint
  | unlabelledObjective
  | notANumber (text : String)
  | notARelation (word : String)
  deriving DecidableEq, Repr

def Defect.message : Defect → String
  | emptyFile => "empty file"
  | incompleteFile => "incomplete LP file"
  | notPart text whole => text ++ " is not part of " ++ whole
  | noDirection => "expected minimize or maximize"
  | noDimensions => "expected <rows>,<cols>"
  | incompleteConstraint => "incomplete constraint"
  | unlabelledObjective => "objective has no label"
  | notANumber text => text ++ " is not a number"
  | notARelation word => Relation.unknown word

/-- An error of the pass: a defect, or an error that the reader of texts has as well. -/
inductive Failure where
  | defect (line : Nat) (defect : Defect)
  | known (error : Error)
  deriving DecidableEq, Repr

def Failure.message : Failure → String
  | defect line d => s!"malformed input on line {line}: {d.message}"
  | known error => error.message

/-! ### The pass -/

/-- The numeral that a text is as a whole. -/
def numeral? (text : String) : Option Numeral :=
  (Grammar.scanNumeral text.toList).bind fun (n, length) =>
    if length = text.length then some n else none

/-- A row as the pass collects it. -/
structure TreeRow where
  line : Nat
  label : String
  coefficients : List Float
  relation : Relation
  rhs : Float

structure TreeObjective where
  line : Nat
  label : String
  costs : List Float

/-- The parts of a row or of the objective so far. -/
structure Parts where
  label : Option String
  numbers : List Float
  relation : Option Relation

/-- The records so far. The counts come with the line of the header. -/
structure TreeRecords where
  direction : Option Direction
  dimensions : Option (Nat × Nat × Nat)
  columnLabels : List String
  rows : List TreeRow
  objective : Option TreeObjective

/-- Records of which none is missing. -/
structure TreeProgram where
  direction : Direction
  rowCount : Nat
  columnCount : Nat
  headerLine : Nat
  columnLabels : List String
  rows : List TreeRow
  objective : TreeObjective

namespace Tree

def toDirection (t : Tree) : Except Failure Direction :=
  match t.inner.head?.map rule with
  | some .minimize => .ok .minimize
  | some .maximize => .ok .maximize
  | _ => .error (.defect t.line .noDirection)

def toWord (line : Nat) (t : Tree) : Except Failure Int :=
  match numeral? t.text with
  | some n => (n.word line).mapError .known
  | none => .error (.known (.malformed line (.notADimension t.text)))

def toDimensions (t : Tree) : Except Failure (Nat × Nat × Nat) := do
  let values ← t.inner.mapM (toWord t.line)
  match values with
  | [rows, columns] =>
    if 0 < rows ∧ 0 < columns then .ok (rows.toNat, columns.toNat, t.line)
    else .error (.known (.invalidDimensions rows columns))
  | _ => .error (.defect t.line .noDimensions)

def toLabel (t : Tree) : String := (t.inner.head?.map text).getD ""

def toNumber (t : Tree) : Except Failure Float :=
  match Binary64.ofText? t.text with
  | some x => .ok x
  | none => .error (.defect t.line (.notANumber t.text))

def toRelation (line : Nat) (t : Tree) : Except Failure Relation :=
  (Relation.ofText t.text).mapError fun word => .defect line (.notARelation word)

end Tree

namespace Parts

def none : Parts := ⟨.none, [], .none⟩

/-- Adds a label or a number. -/
def add (whole : String) (line : Nat) (parts : Parts) (t : Tree) : Except Failure Parts :=
  match t.rule with
  | .label => .ok { parts with label := some t.toLabel }
  | .number => do
    let x ← t.toNumber
    return { parts with numbers := parts.numbers ++ [x] }
  | _ => .error (.defect line (.notPart t.text whole))

/-- A constraint has a relation, too. -/
def addToConstraint (line : Nat) (parts : Parts) (t : Tree) : Except Failure Parts :=
  match t.rule with
  | .relation => do
    let relation ← t.toRelation line
    return { parts with relation := some relation }
  | _ => parts.add "a constraint" line t

end Parts

namespace Tree

def toRow (t : Tree) : Except Failure TreeRow := do
  -- The right side stands behind the relation, so it is the last number.
  let parts ← t.inner.foldlM (Parts.addToConstraint t.line) .none
  match parts.label, parts.relation, parts.numbers.getLast? with
  | some label, some relation, some rhs =>
    .ok { line := t.line, label, coefficients := parts.numbers.dropLast, relation, rhs }
  | _, _, _ => .error (.defect t.line .incompleteConstraint)

def toObjective (t : Tree) : Except Failure TreeObjective := do
  let parts ← t.inner.foldlM (Parts.add "an objective" t.line) .none
  match parts.label with
  | some label => .ok { line := t.line, label, costs := parts.numbers }
  | none => .error (.defect t.line .unlabelledObjective)

end Tree

namespace TreeRecords

def none : TreeRecords := ⟨.none, .none, [], [], .none⟩

def add (records : TreeRecords) (t : Tree) : Except Failure TreeRecords :=
  match t.rule with
  | .direction => do
    let direction ← t.toDirection
    return { records with direction := some direction }
  | .dimensions => do
    let dimensions ← t.toDimensions
    return { records with dimensions := some dimensions }
  | .columnLabels => .ok { records with columnLabels := t.inner.map Tree.toLabel }
  | .constraint => do
    let row ← t.toRow
    return { records with rows := records.rows ++ [row] }
  | .objective => do
    let objective ← t.toObjective
    return { records with objective := some objective }
  | .endOfInput => .ok records
  | _ => .error (.defect t.line (.notPart t.text "an LP file"))

def complete (records : TreeRecords) : Except Failure TreeProgram :=
  match records.direction, records.dimensions, records.objective with
  | some direction, some (rowCount, columnCount, headerLine), some objective =>
    .ok { direction, rowCount, columnCount, headerLine, columnLabels := records.columnLabels,
          rows := records.rows, objective }
  | _, _, _ => .error (.defect 1 .incompleteFile)

end TreeRecords

namespace TreeProgram

/-- Looks for a row that does not have the given count of coefficients. -/
def checkRows (columns : Nat) (rows : List TreeRow) : Except Error Unit :=
  match rows.find? fun row => columns ≠ row.coefficients.length with
  | some row => .error (.malformed row.line (.coefficients columns row.coefficients.length))
  | none => .ok ()

/-- The counts of the header are compared with the records before they are used. -/
def check (p : TreeProgram) : Except Error Unit := do
  checkCount (p.headerLine + 1) p.columnCount p.columnLabels.length .columnLabels
  checkCount p.objective.line p.rowCount p.rows.length .constraintRows
  checkRows p.columnCount p.rows
  checkCount p.objective.line p.columnCount p.objective.costs.length .objectiveCoefficients

def edits (p : TreeProgram) : List (Edit Float) :=
  .setDirection p.direction ::
    ((p.columnLabels.zipIdx.map fun (label, j) => .setColumnLabel j label) ++
      ((p.rows.zipIdx.flatMap fun (row, i) =>
          [.setRow i row.coefficients row.relation row.rhs, .setRowLabel i row.label]) ++
        [.setObjective p.objective.costs, .setObjectiveLabel p.objective.label]))

/-- Fills the vectors of a blank program. There is none for an edit that does not find its place. -/
def build (p : TreeProgram) : Option (Except Error (Vectors Float)) :=
  match p.check >>= fun _ => Program.checkDimensions p.rowCount p.columnCount with
  | .error error => some (.error error)
  | .ok _ =>
    (Vectors.execute (p.edits.flatMap Edit.steps) (.blank p.rowCount p.columnCount)).map
      fun (result, v) => result.map fun _ => v

end TreeProgram

namespace Forest

def vectorsOf (t : Tree) : Option (Except Failure (Vectors Float)) :=
  match t.inner.foldlM TreeRecords.add .none >>= TreeRecords.complete with
  | .error failure => some (.error failure)
  | .ok p => p.build.map (Except.mapError .known)

/-- The vectors of the program that a text is. There is no result where the pass breaks off. -/
def vectorsOfText (text : String) : Option (Except Failure (Vectors Float)) :=
  let start := Cursor.ofText text
  match document.read start with
  | some (t :: _, _) => vectorsOf t
  | some ([], _) => some (.error (.defect 1 .emptyFile))
  | none =>
    let frontier := document.note start .start
    some (.error (.known (.malformed frontier.line (.unexpected (Rule.inOrder frontier.rules)))))

end Forest

/-! ### What the pass makes of each part -/

section Parts

variable {β γ : Type}

/-- A tree of the given rule, of which the pass makes what it has to. -/
def Tree.Tells (name : Rule) (read : Tree → β) (value : β) (t : Tree) : Prop :=
  t.rule = name ∧ read t = value

def Tree.TellsNumeral (n : Numeral) (t : Tree) : Prop :=
  ∀ line, t.toWord line = (n.word line).mapError .known

def Tree.TellsNumber (d : Decimal) : Tree → Prop := Tells .number toNumber (.ok d.toFloat)

def Tree.TellsRelation (r : Relation) (t : Tree) : Prop :=
  t.rule = .relation ∧ ∀ line, t.toRelation line = .ok r

theorem follows_return (p : Parser β) (v : γ) :
    Follows (do let _ ← p; return v) (Forest.silent p) fun _ trees => trees = [] :=
  (follows_refl p).bind fun _ _ _ => follows_pure rfl

theorem map_eq_of_tells {name : Rule} {read : Tree → β} {values : List β} {trees : List Tree}
    (h : List.Forall₂ (Tree.Tells name read) values trees) : trees.map read = values := by
  induction h with
  | nil => rfl
  | cons hfirst _ ih => rw [List.map_cons, hfirst.2, ih]

end Parts

/-- The rule for the word of a direction. -/
def directionRule : Direction → Rule
  | .minimize => .minimize
  | .maximize => .maximize

theorem follows_direction : Follows Grammar.direction Forest.direction
    (Single fun d => Tree.Tells .direction Tree.toDirection (.ok d)) := by
  have hword (text : String) (name : Rule) (d : Direction) :
      Follows (Parser.rule name do Grammar.keyword text; return d)
        (Forest.node name (Forest.silent (Grammar.keyword text)))
        (Single fun v t => v = d ∧ t.rule = name) := by
    have hreads : (do Grammar.keyword text; return d : Parser Direction).Reads fun _ v => v = d :=
      ((reads_keyword text).bind fun _ => Parser.reads_pure d).mono fun _ _ h => by
        obtain ⟨-, -, -, -, -, -, rfl⟩ := h
        rfl
    intro c
    refine ((follows_return _ d).leaf name hreads c).mono ?_
    rintro v _ ⟨t, rfl, hrule, -, rfl⟩
    exact ⟨t, rfl, rfl, hrule⟩
  intro c
  refine FollowsAt.branch .direction
    (R := fun d inner => inner.head?.map Tree.rule = some (directionRule d)) ?_ ?_
  · refine Follows.orElse (fun c => ?_) (fun c => ?_) c
    · refine (hword "minimize" .minimize .minimize c).mono ?_
      rintro _ _ ⟨t, rfl, rfl, hrule⟩
      exact congrArg some hrule
    · refine (hword "maximize" .maximize .maximize c).mono ?_
      rintro _ _ ⟨t, rfl, rfl, hrule⟩
      exact congrArg some hrule
  · intro d t hrule _ hinner
    refine ⟨hrule, ?_⟩
    unfold Tree.toDirection
    rw [hinner]
    cases d <;> rfl

theorem numeral?_eq {text : String} {n : Numeral} (h : NumeralSpelled text.toList n) :
    numeral? text = some n := by
  generalize htoken : text.toList = token at h
  cases h with
  | intro h =>
      have hscan := @scanNumeral_append _ _ h [] nofun
      unfold numeral?
      rw [htoken, ← List.append_nil token, hscan, List.append_nil]
      show (if token.length = text.length then _ else _) = _
      rw [if_pos (htoken ▸ String.length_toList)]

theorem follows_integer : Follows Grammar.integer Forest.integer (Single Tree.TellsNumeral) := by
  intro c
  refine ((follows_silent (.piece Grammar.scanNumeral)).leaf .integer reads_integer c).mono ?_
  rintro n _ ⟨t, rfl, -, -, htext⟩
  refine ⟨t, rfl, fun line => ?_⟩
  unfold Tree.toWord
  rw [numeral?_eq htext]

/-- The counts of a header, with its line. -/
def Header.treeCounts (h : Header) : Except Failure (Nat × Nat × Nat) :=
  (h.counts.map fun (rows, columns) => (rows, columns, h.line)).mapError .known

theorem follows_dimensions : Follows Grammar.dimensions Forest.dimensions
    (Single fun h => Tree.Tells .dimensions Tree.toDimensions h.treeCounts) := by
  intro c
  refine FollowsAt.branch .dimensions (R := fun h inner => h.line = c.line ∧
    ∃ rows columns, inner = [rows, columns] ∧ rows.TellsNumeral h.rows ∧
      columns.TellsNumeral h.columns) ?_ ?_
  · refine followsAt_line ((follows_integer c).bind ?_)
    rintro rows _ ⟨t, rfl, hrows⟩
    refine (follows_refl Grammar.comma).next.bind fun _ _ _ => follows_integer.next.bind ?_
    rintro columns _ ⟨u, rfl, hcolumns⟩
    exact follows_pure ⟨rfl, t, u, rfl, hrows, hcolumns⟩
  · rintro h t hrule htline ⟨hline, rows, columns, hinner, hrows, hcolumns⟩
    refine ⟨hrule, ?_⟩
    unfold Tree.toDimensions Header.treeCounts Header.counts
    rw [hinner, htline, ← hline, List.mapM_cons, List.mapM_cons, List.mapM_nil, hrows, hcolumns]
    cases h.rows.word h.line with
    | error e => rfl
    | ok rows =>
        cases h.columns.word h.line with
        | error e => rfl
        | ok columns =>
            show (if 0 < rows ∧ 0 < columns then _ else _)
              = Except.mapError _ (Except.map _ (if 0 < rows ∧ 0 < columns then _ else _))
            by_cases hpositive : 0 < rows ∧ 0 < columns
            · rw [if_pos hpositive, if_pos hpositive]
              rfl
            · rw [if_neg hpositive, if_neg hpositive]
              rfl

theorem ofText?_eq {text : String} {d : Decimal} (h : Decimal.Spelled text.toList d) :
    Binary64.ofText? text = some d.toFloat := by
  have hscan := @Decimal.scan_spelled _ _ h [] nofun
  rw [List.append_nil] at hscan
  unfold Binary64.ofText? Decimal.ofText?
  rw [hscan]
  dsimp only
  rw [if_pos String.length_toList]

theorem follows_number : Follows Grammar.number Forest.number (Single Tree.TellsNumber) := by
  intro c
  refine ((follows_silent (.piece Decimal.scan)).leaf .number reads_number c).mono ?_
  rintro d _ ⟨t, rfl, hrule, -, htext⟩
  refine ⟨t, rfl, hrule, ?_⟩
  unfold Tree.toNumber
  rw [ofText?_eq htext]

theorem Relation.ofText_eq {text : String} {r : Relation} (h : RelationSpelled text.toList r) :
    Relation.ofText text = .ok r := by
  generalize htoken : text.toList = token at h
  cases h with
  | text =>
      obtain rfl := String.toList_inj.mp htoken
      cases r <;> decide +kernel
  | single =>
      obtain rfl : text = "=" := String.toList_inj.mp htoken
      decide +kernel

theorem follows_relation : Follows Grammar.relation Forest.relation
    (Single Tree.TellsRelation) := by
  intro c
  have hwords := (follows_return (Grammar.word "<=") Relation.lessEq).orElse
    ((follows_return (Grammar.word "==") .equal).orElse
      ((follows_return (Grammar.word ">=") .greaterEq).orElse
        (follows_return (Grammar.word "=") .equal)))
  refine (hwords.leaf .relation reads_relation c).mono ?_
  rintro r _ ⟨t, rfl, hrule, -, htext⟩
  refine ⟨t, rfl, hrule, fun line => ?_⟩
  unfold Tree.toRelation
  rw [Relation.ofText_eq htext]
  rfl

theorem follows_label : Follows Grammar.label Forest.label
    (Single (Tree.Tells .label Tree.toLabel)) := by
  intro c
  refine FollowsAt.branch .label (R := fun text inner => inner.head?.map Tree.text = some text)
    ?_ ?_
  · refine Follows.bind (follows_refl _) (fun _ _ _ => ?_) c
    refine ((follows_silent _).leaf .labelText reads_labelText).bind ?_
    rintro text _ ⟨t, rfl, -, -, htext, -⟩
    refine (follows_refl _).bind fun _ _ _ => follows_pure ?_
    exact congrArg some (String.toList_inj.mp htext)
  · intro text t hrule _ hinner
    refine ⟨hrule, ?_⟩
    unfold Tree.toLabel
    rw [hinner]
    rfl

theorem follows_columnLabels : Follows Grammar.columnLabels Forest.columnLabels
    (Single (Tree.Tells .columnLabels fun t => t.inner.map Tree.toLabel)) := by
  intro c
  refine FollowsAt.branch .columnLabels (R := fun labels inner => inner.map Tree.toLabel = labels)
    ?_ ?_
  · refine Follows.bind follows_label ?_ c
    rintro first _ ⟨t, rfl, -, hfirst⟩
    refine follows_label.listed.next.bind fun labels forest hlabels => follows_pure ?_
    show Tree.toLabel t :: forest.flatten.map Tree.toLabel = first :: labels
    rw [hfirst, map_eq_of_tells (exists_flatten hlabels)]
  · exact fun labels t hrule _ hinner => ⟨hrule, hinner⟩

section Folds

variable {ε β σ : Type} {f : σ → β → Except ε σ} {xs : List β}

/-- Values that are collected one by one. -/
theorem foldlM_collected {γ : Type} {R : γ → β → Prop} (put : σ → List γ → σ) {values : List γ}
    (hnil : ∀ s, put s [] = s)
    (hstep : ∀ s v values x, R v x → ∃ s', f s x = .ok s' ∧ put s' values = put s (v :: values))
    (h : List.Forall₂ R values xs) (s : σ) : xs.foldlM f s = .ok (put s values) := by
  induction h generalizing s with
  | nil => exact congrArg Except.ok (hnil s).symm
  | cons hfirst _ ih =>
      obtain ⟨s', hs', hput⟩ := hstep s _ _ _ hfirst
      rw [foldlM_step hs', ih, hput]

end Folds

theorem foldlM_numbers {add : Parts → Tree → Except Failure Parts} {decimals : List Decimal}
    {trees : List Tree}
    (hadd : ∀ parts d t, Tree.TellsNumber d t →
      add parts t = .ok { parts with numbers := parts.numbers ++ [d.toFloat] })
    (h : List.Forall₂ Tree.TellsNumber decimals trees) (parts : Parts) :
    trees.foldlM add parts
      = .ok { parts with numbers := parts.numbers ++ decimals.map Decimal.toFloat } := by
  refine foldlM_collected (fun parts decimals =>
    { parts with numbers := parts.numbers ++ decimals.map Decimal.toFloat }) ?_ ?_ h parts
  · simp
  · exact fun parts d decimals t ht => ⟨_, hadd parts d t ht, by simp⟩

section Records

variable {whole : String} {line : Nat} {parts : Parts} {t : Tree}

theorem add_label {text : String} (h : t.Tells .label Tree.toLabel text) :
    parts.add whole line t = .ok { parts with label := some text } := by
  unfold Parts.add
  rw [h.1, ← h.2]

theorem add_number {d : Decimal} (h : t.TellsNumber d) :
    parts.add whole line t = .ok { parts with numbers := parts.numbers ++ [d.toFloat] } := by
  unfold Parts.add
  rw [h.1]
  dsimp only
  rw [h.2]
  rfl

theorem addToConstraint_of_ne (h : t.rule ≠ .relation) :
    parts.addToConstraint line t = parts.add "a constraint" line t := by
  unfold Parts.addToConstraint
  split
  · next hrelation => exact absurd hrelation h
  · rfl

def ConstraintRecord.treeRow (r : ConstraintRecord) : TreeRow where
  line := r.line
  label := r.label
  coefficients := r.coefficients.map Decimal.toFloat
  relation := r.relation
  rhs := r.rhs.toFloat

def ObjectiveRecord.treeObjective (o : ObjectiveRecord) : TreeObjective where
  line := o.line
  label := o.label
  costs := o.costs.map Decimal.toFloat

/-- The trees of a row in their order. -/
def ConstraintRecord.TreesAre (r : ConstraintRecord) (trees : List Tree) : Prop :=
  ∃ label coefficients relation rhs, trees = label :: (coefficients ++ [relation, rhs]) ∧
    label.Tells .label Tree.toLabel r.label ∧
    List.Forall₂ Tree.TellsNumber r.coefficients coefficients ∧
    relation.TellsRelation r.relation ∧ rhs.TellsNumber r.rhs

theorem ConstraintRecord.TreesAre.toRow_eq {r : ConstraintRecord} (h : r.TreesAre t.inner)
    (hline : r.line = t.line) : t.toRow = .ok r.treeRow := by
  obtain ⟨label, coefficients, relation, rhs, hinner, hlabel, hcoefficients, hrelation, hrhs⟩ := h
  have hnumber {parts : Parts} {d : Decimal} {t : Tree} (h : t.TellsNumber d) :
      parts.addToConstraint r.line t
        = .ok { parts with numbers := parts.numbers ++ [d.toFloat] } := by
    rw [addToConstraint_of_ne (by rw [h.1]; decide), add_number h]
  have hlabelled (parts : Parts) :
      parts.addToConstraint r.line label = .ok { parts with label := some r.label } := by
    rw [addToConstraint_of_ne (by rw [hlabel.1]; decide), add_label hlabel]
  have hrelated (parts : Parts) :
      parts.addToConstraint r.line relation = .ok { parts with relation := some r.relation } := by
    unfold Parts.addToConstraint
    rw [hrelation.1]
    dsimp only
    rw [hrelation.2]
    rfl
  have hparts : t.inner.foldlM (Parts.addToConstraint r.line) .none
      = .ok ⟨some r.label, r.coefficients.map Decimal.toFloat ++ [r.rhs.toFloat],
        some r.relation⟩ := by
    rw [hinner, foldlM_step (hlabelled _),
      foldlM_span (foldlM_numbers (fun _ _ _ h => hnumber h) hcoefficients _),
      foldlM_step (hrelated _), foldlM_step (hnumber hrhs)]
    rfl
  unfold Tree.toRow
  rw [← hline, hparts]
  simp [treeRow, bind, Except.bind]

theorem follows_constraint : Follows Grammar.constraint Forest.constraint
    (Single fun r => Tree.Tells .constraint Tree.toRow (.ok r.treeRow)) := by
  intro c
  refine FollowsAt.branch .constraint
    (R := fun r inner => r.line = c.line ∧ r.TreesAre inner) ?_ ?_
  · refine followsAt_line ((follows_label c).bind ?_)
    rintro label _ ⟨t, rfl, hlabel⟩
    refine follows_number.listed.next.bind fun coefficients forest hcoefficients => ?_
    refine (follows_refl Grammar.comma).next.bind fun _ _ _ => follows_relation.next.bind ?_
    rintro relation _ ⟨u, rfl, hrelation⟩
    refine (follows_refl Grammar.comma).next.bind fun _ _ _ => follows_number.next.bind ?_
    rintro rhs _ ⟨w, rfl, hrhs⟩
    refine follows_pure ⟨rfl, t, forest.flatten, u, w, ?_, hlabel, exists_flatten hcoefficients,
      hrelation, hrhs⟩
    rw [List.append_assoc]
    rfl
  · rintro r t hrule htline ⟨hline, htrees⟩
    exact ⟨hrule, htrees.toRow_eq (hline.trans htline.symm)⟩

theorem follows_objective : Follows Grammar.objective Forest.objective
    (Single fun o => Tree.Tells .objective Tree.toObjective (.ok o.treeObjective)) := by
  intro c
  refine FollowsAt.branch .objective (R := fun o inner => o.line = c.line ∧
    ∃ label costs, inner = label :: costs ∧ label.Tells .label Tree.toLabel o.label ∧
      List.Forall₂ Tree.TellsNumber o.costs costs) ?_ ?_
  · refine followsAt_line ((follows_label c).bind ?_)
    rintro label _ ⟨t, rfl, hlabel⟩
    refine follows_number.listed.next.bind fun costs forest hcosts => follows_pure ?_
    exact ⟨rfl, t, forest.flatten, rfl, hlabel, exists_flatten hcosts⟩
  · rintro o t hrule htline ⟨hline, label, costs, hinner, hlabel, hcosts⟩
    refine ⟨hrule, ?_⟩
    unfold Tree.toObjective
    rw [hinner, htline, ← hline, foldlM_step (add_label hlabel),
      foldlM_numbers (fun _ _ _ h => add_number h) hcosts]
    rfl

end Records

/-! ### The trees of a document -/

section Documents

variable {d : Document} {t : Tree}

theorem follows_endOfInput :
    Follows Grammar.endOfInput Forest.endOfInput (Single fun _ t => t.rule = .endOfInput) :=
  fun c => FollowsAt.branch .endOfInput (follows_silent _ c) fun _ _ hrule _ _ => hrule

/-- The trees of the records in their order. -/
def Document.TreesAre (d : Document) (trees : List Tree) : Prop :=
  ∃ direction dimensions columnLabels constraints objective last,
    trees = direction :: dimensions :: columnLabels :: (constraints ++ [objective, last]) ∧
      direction.Tells .direction Tree.toDirection (.ok d.direction) ∧
      dimensions.Tells .dimensions Tree.toDimensions d.header.treeCounts ∧
      columnLabels.Tells .columnLabels (fun t => t.inner.map Tree.toLabel) d.columnLabels ∧
      List.Forall₂ (fun r => Tree.Tells .constraint Tree.toRow (.ok r.treeRow)) d.constraints
        constraints ∧
      objective.Tells .objective Tree.toObjective (.ok d.objective.treeObjective) ∧
      last.rule = .endOfInput

theorem follows_document : Follows Grammar.document Forest.document
    (Single fun d t => d.TreesAre t.inner) := by
  intro c
  refine FollowsAt.branch .lpFile (R := Document.TreesAre) ?_ fun _ _ _ _ hinner => hinner
  refine Follows.bind (follows_refl _) (fun _ _ _ => follows_direction.next.bind ?_) c
  rintro direction _ ⟨t₁, rfl, hdirection⟩
  refine (follows_refl _).bind fun _ _ _ => follows_dimensions.next.bind ?_
  rintro header _ ⟨t₂, rfl, hheader⟩
  refine (follows_refl _).bind fun _ _ _ => follows_columnLabels.next.bind ?_
  rintro labels _ ⟨t₃, rfl, hlabels⟩
  refine Follows.bind (((follows_refl _).bind fun _ _ _ => follows_constraint.next).several.next) ?_
  intro constraints forest hconstraints
  refine (follows_refl _).bind fun _ _ _ => follows_objective.next.bind ?_
  rintro objective _ ⟨t₄, rfl, hobjective⟩
  refine (follows_refl _).bind fun _ _ _ => follows_endOfInput.next.bind ?_
  rintro - _ ⟨t₅, rfl, hlast⟩
  refine follows_pure ⟨t₁, t₂, t₃, forest.flatten, t₄, t₅, ?_, hdirection, hheader, hlabels,
    exists_flatten hconstraints, hobjective, hlast⟩
  simp

def Document.treeProgram (d : Document) (rows columns : Nat) : TreeProgram where
  direction := d.direction
  rowCount := rows
  columnCount := columns
  headerLine := d.header.line
  columnLabels := d.columnLabels
  rows := d.constraints.map ConstraintRecord.treeRow
  objective := d.objective.treeObjective

theorem Document.TreesAre.complete {trees : List Tree} (h : d.TreesAre trees) :
    trees.foldlM TreeRecords.add .none >>= TreeRecords.complete
      = (d.header.counts.map fun (rows, columns) => d.treeProgram rows columns).mapError .known := by
  obtain ⟨direction, dimensions, columnLabels, constraints, objective, last, rfl, hdirection,
    hdimensions, hlabels, hconstraints, hobjective, hlast⟩ := h
  have hfirst : TreeRecords.none.add direction
      = .ok { TreeRecords.none with direction := some d.direction } := by
    simp [TreeRecords.add, hdirection.1, hdirection.2, bind, Except.bind, pure, Except.pure]
  have hcounts (records : TreeRecords) : records.add dimensions
      = d.header.treeCounts.map fun counts => { records with dimensions := some counts } := by
    simp only [TreeRecords.add, hdimensions.1, hdimensions.2]
    rfl
  have hcolumns (records : TreeRecords) : records.add columnLabels
      = .ok { records with columnLabels := d.columnLabels } := by
    simp [TreeRecords.add, hlabels.1, ← hlabels.2]
  have hrows (records : TreeRecords) : constraints.foldlM TreeRecords.add records
      = .ok { records with
          rows := records.rows ++ d.constraints.map ConstraintRecord.treeRow } := by
    refine foldlM_collected (fun (records : TreeRecords) (rs : List ConstraintRecord) =>
      { records with rows := records.rows ++ rs.map ConstraintRecord.treeRow }) ?_ ?_
      hconstraints records
    · simp
    · intro records r rs t ht
      refine ⟨{ records with rows := records.rows ++ [r.treeRow] }, ?_, by simp⟩
      simp only [TreeRecords.add, ht.1, ht.2]
      rfl
  have hcosts (records : TreeRecords) : records.add objective
      = .ok { records with objective := some d.objective.treeObjective } := by
    simp only [TreeRecords.add, hobjective.1, hobjective.2]
    rfl
  have hend (records : TreeRecords) : records.add last = .ok records := by
    simp only [TreeRecords.add, hlast]
  -- Only the counts of the header can be at fault, and they are looked at before the rest.
  rw [foldlM_step hfirst, List.foldlM_cons, hcounts]
  unfold Header.treeCounts
  cases d.header.counts with
  | error e => rfl
  | ok counts =>
      show (columnLabels :: _).foldlM TreeRecords.add _ >>= TreeRecords.complete = _
      rw [foldlM_step (hcolumns _), foldlM_span (hrows _), foldlM_step (hcosts _),
        foldlM_step (hend _)]
      rfl

variable {rows columns : Nat}

theorem checkRows_treeRow (columns : Nat) (rs : List ConstraintRecord) :
    TreeProgram.checkRows columns (rs.map ConstraintRecord.treeRow)
      = rs.forM fun r => checkCount r.line columns r.coefficients.length .coefficients := by
  induction rs with
  | nil => rfl
  | cons r rs ih =>
      have hlength : r.treeRow.coefficients.length = r.coefficients.length := List.length_map _
      show _ = (checkCount r.line columns r.coefficients.length .coefficients >>= fun _ => _)
      unfold TreeProgram.checkRows at ih ⊢
      rw [List.map_cons]
      by_cases h : columns = r.coefficients.length
      · rw [List.find?_cons_of_neg (by simpa [hlength] using h), ih, checkCount, if_pos h]
        rfl
      · rw [List.find?_cons_of_pos (by simpa [hlength] using h), checkCount, if_neg h, ← hlength]
        rfl

theorem check_treeProgram (hcounts : d.header.counts = .ok (rows, columns)) :
    (d.treeProgram rows columns).check = d.check := by
  have hrows : (d.treeProgram rows columns).rows.length = d.constraints.length := List.length_map _
  have hcosts : (d.treeProgram rows columns).objective.costs.length = d.objective.costs.length :=
    List.length_map _
  unfold TreeProgram.check Document.check
  rw [hcounts, hrows, hcosts]
  show (_ >>= fun _ => _ >>= fun _ => TreeProgram.checkRows columns
    (d.constraints.map ConstraintRecord.treeRow) >>= fun _ => _) = _
  rw [checkRows_treeRow]
  rfl

theorem labelEdits_eq (labels : List String) (j : Nat) :
    (labels.zipIdx j).map (fun (label, j) => (Edit.setColumnLabel j label : Edit Float))
      = labelEdits j labels := by
  induction labels generalizing j with
  | nil => rfl
  | cons label labels ih => exact congrArg _ (ih (j + 1))

theorem rowEdits_eq (rs : List ConstraintRecord) (i : Nat) :
    ((rs.map ConstraintRecord.treeRow).zipIdx i).flatMap (fun (row, i) =>
        [.setRow i row.coefficients row.relation row.rhs, .setRowLabel i row.label])
      = (rowEdits i rs : List (Edit Float)) := by
  induction rs generalizing i with
  | nil => rfl
  | cons r rs ih => exact congrArg (fun edits => _ :: _ :: edits) (ih (i + 1))

theorem edits_treeProgram (d : Document) (rows columns : Nat) :
    (d.treeProgram rows columns).edits = d.edits := by
  unfold TreeProgram.edits Document.edits
  rw [← labelEdits_eq, ← rowEdits_eq]
  rfl

/-- The header counts what is there before anything is made of its size, so that no edit misses its
place. -/
theorem build_treeProgram (hcounts : d.header.counts = .ok (rows, columns)) :
    (d.treeProgram rows columns).build
      = some (d.check.map fun _ => (d.toProgram : Program Float).vectors) := by
  unfold TreeProgram.build
  rw [check_treeProgram hcounts]
  cases hcheck : d.check with
  | error e => rfl
  | ok u =>
      obtain ⟨rows', columns', hagrees⟩ := Document.check_eq_ok_iff.mp hcheck
      obtain ⟨rfl, rfl⟩ := Prod.mk.inj (Except.ok.inj (hcounts.symm.trans hagrees.header))
      obtain ⟨start, hstart, hedited⟩ := hagrees.edited (α := Float)
      have hexecute := Vectors.execute_edits (Program.Made.blank hstart).wellFormed hedited
      obtain ⟨_, hdimensions, -⟩ := bind_eq_ok_iff.mp hstart
      rw [Vectors.vectors_blank hstart] at hexecute
      show (match Program.checkDimensions rows columns with
        | .error error => _
        | .ok _ => _) = _
      rw [hdimensions, edits_treeProgram]
      show Option.map _ (Vectors.execute _ (.blank rows columns)) = _
      rw [hexecute]
      rfl

end Documents

/-- The pass makes of each text what the reader of texts makes of it. It does not break off, and it
finds no defect. -/
theorem vectorsOfText_eq (text : String) :
    Forest.vectorsOfText text = some (((Program.ofText text : Except Error (Program Float)).map
      Program.vectors).mapError .known) := by
  have hfollows := follows_document (.ofText text)
  unfold Forest.vectorsOfText Program.ofText Document.ofText
  dsimp only
  rcases hfollows.read with ⟨hp, hq⟩ | ⟨d, _, after, hp, hq, t, rfl, htrees⟩
  · rw [hp, hq, ← hfollows.note]
    rfl
  · rw [hp, hq]
    show Forest.vectorsOf t = some (Except.mapError _ (Except.map _ (d.check >>= fun _ => _)))
    unfold Forest.vectorsOf
    rw [htrees.complete]
    cases hcounts : d.header.counts with
    | error e =>
        have hcheck : d.check = .error e := by
          unfold Document.check
          rw [hcounts]
          rfl
        rw [hcheck]
        rfl
    | ok counts =>
        show (d.treeProgram counts.1 counts.2).build.map _ = _
        rw [build_treeProgram hcounts]
        cases d.check <;> rfl

end LinProg.Format
