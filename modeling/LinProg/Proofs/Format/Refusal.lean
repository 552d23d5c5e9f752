import LinProg.Storage
import Mathlib.Control.Monad.Basic

/-!
# Programs that have no text

A program with a number that is not finite is refused before a piece of its text goes out, so a
writer stays as it was. A file is emptied when it is opened, and it is opened before the numbers
are looked at.
-/

namespace LinProg

variable {α : Type} [NumberText α]

namespace Program

variable {p : Program α}

/-! ### Writing piece by piece -/

def rowPieces (r : Constraint α) : List String :=
  [quoted r.label] ++ r.coefficients.map (fun x => "," ++ NumberText.text x)
    ++ ["," ++ r.relation.text ++ "," ++ NumberText.text r.rhs ++ "\n"]

/-- The pieces of text that are handed to the writer one after the other. -/
def pieces (p : Program α) : List String :=
  [p.direction.text ++ "\n", toString p.height ++ "," ++ toString p.width ++ "\n",
      ",".intercalate (p.columnLabels.map quoted) ++ "\n"]
    ++ p.rows.flatMap rowPieces
    ++ [quoted p.objectiveLabel] ++ p.costs.map (fun x => "," ++ NumberText.text x) ++ ["\n"]

section Writers

variable {σ : Type}

/-- Hands pieces to a writer, up to the first that it does not take. -/
def send (write : String → σ → Except Fault Unit × σ) : List String → σ → Except Error Unit × σ
  | [], out => (.ok (), out)
  | piece :: rest, out =>
    match write piece out with
    | (.ok (), out) => send write rest out
    | (.error fault, out) => (.error (.fault fault), out)

/-- Writes a program with any writer. -/
def writeWith (write : String → σ → Except Fault Unit × σ) (p : Program α) (out : σ) :
    Except Error Unit × σ :=
  match p.numbers.find? (!NumberText.isFinite ·) with
  | some x => (.error (.fault (.notFinite (NumberText.text x))), out)
  | none => send write p.pieces out

/-- The writer that keeps all of the text. -/
def collect (piece out : String) : Except Fault Unit × String := (.ok (), out ++ piece)

theorem send_collect (pieces : List String) (out : String) :
    send collect pieces out = (.ok (), out ++ String.join pieces) := by
  induction pieces generalizing out with
  | nil => simp [send]
  | cons piece rest ih =>
      rw [send, collect]
      show send collect rest (out ++ piece) = _
      rw [ih, String.join_cons, String.append_assoc]

end Writers

theorem join_rowPieces (r : Constraint α) : String.join (rowPieces r) = constraintLine r := by
  unfold rowPieces constraintLine commaNumbers
  simp [String.append_assoc]

theorem join_flatMap_rowPieces (rows : List (Constraint α)) :
    String.join (rows.flatMap rowPieces) = String.join (rows.map constraintLine) := by
  induction rows with
  | nil => rfl
  | cons r rows ih =>
      rw [List.flatMap_cons, String.join_append, join_rowPieces, ih, List.map_cons, String.join_cons]

theorem join_pieces (p : Program α) : String.join p.pieces = p.finiteText := by
  unfold pieces finiteText commaNumbers
  simp [join_flatMap_rowPieces, String.append_assoc]

/-- The pieces make up the text of the program. -/
theorem writeWith_collect (p : Program α) (out : String) :
    p.writeWith collect out =
      match p.toText with
      | .error error => (.error error, out)
      | .ok text => (.ok (), out ++ text) := by
  unfold writeWith toText
  cases p.numbers.find? (!NumberText.isFinite ·) with
  | some x => rfl
  | none =>
      show send collect p.pieces out = _
      rw [send_collect, join_pieces]

end Program

namespace Storage

variable {s : Storage} {path : String} {l other : Location} {fault : Fault} {p : Program α}

/-! ### Files -/

/-- The same files, each with the same content. -/
structure SameFiles (s s' : Storage) : Prop where
  home : s'.home = s.home
  content : ∀ l, s'.content? l = s.content? l

omit [NumberText α] in
theorem content?_put_of_ne {bytes : ByteArray} (hne : other ≠ l) :
    (s.put l bytes).content? other = s.content? other := by
  have hbeq : (other == l) = false := beq_false_of_ne hne
  unfold put content?
  rw [List.lookup_cons, hbeq]
  show (s.files.filter _).lookup other = _
  induction s.files with
  | nil => rfl
  | cons file files ih =>
      obtain ⟨place, content⟩ := file
      by_cases hplace : place = l
      · have hskip : (other == place) = false := hplace ▸ hbeq
        rw [List.filter_cons_of_neg (by simpa using hplace), List.lookup_cons, hskip]
        exact ih
      · rw [List.filter_cons_of_pos (by simpa using hplace), List.lookup_cons, List.lookup_cons, ih]

theorem sameFiles_put_iff {bytes : ByteArray} :
    s.SameFiles (s.put l bytes) ↔ s.content? l = some bytes := by
  constructor
  · intro hsame
    rw [← hsame.content l, content?_put]
  · intro hbytes
    refine ⟨rfl, ?_⟩
    intro other
    by_cases hother : other = l
    · rw [hother, content?_put, hbytes]
    · exact content?_put_of_ne hother

/-- No complaint about a number. -/
def NamesNoNumber {β : Type} (result : Except Fault β) : Prop :=
  ∀ number, result ≠ .error (.notFinite number)

section Locate

variable {β γ : Type} {result other : Except Fault β} {c : Prop} [Decidable c]

theorem NamesNoNumber.bind (h : NamesNoNumber result) {next : β → Except Fault γ}
    (hnext : ∀ x, NamesNoNumber (next x)) : NamesNoNumber (result >>= next) := by
  intro number hnumber
  cases result with
  | error fault =>
      obtain rfl : fault = .notFinite number := Except.error.inj hnumber
      exact h number rfl
  | ok x => exact hnext x number hnumber

theorem NamesNoNumber.ite (h : NamesNoNumber result) (hother : NamesNoNumber other) :
    NamesNoNumber (if c then result else other) := by
  by_cases hc : c
  · rwa [if_pos hc]
  · rwa [if_neg hc]

theorem namesNoNumber_descend (s : Storage) (here : Location) (step : String) :
    NamesNoNumber (s.descend here step) := by
  unfold descend
  refine .ite nofun (.ite nofun (.ite nofun (.ite nofun ?_)))
  cases (s.content? (here ++ [step])).isSome <;> exact nofun

theorem namesNoNumber_place (s : Storage) (here : Location) (step : String) :
    NamesNoNumber (s.place here step) := by
  unfold place
  exact .ite nofun (.ite nofun (.ite nofun nofun))

theorem namesNoNumber_foldlM (s : Storage) (steps : List String) (here : Location) :
    NamesNoNumber (steps.foldlM s.descend here) := by
  induction steps generalizing here with
  | nil => exact nofun
  | cons step steps ih =>
      rw [List.foldlM_cons]
      exact (namesNoNumber_descend s here step).bind ih

/-- What is wrong with a path has nothing to do with the numbers of a program. -/
theorem namesNoNumber_locate (s : Storage) (path : String) :
    NamesNoNumber (s.locate .writing path) := by
  unfold locate
  refine .ite nofun (.ite nofun (.ite nofun ?_))
  dsimp only
  cases ((path.splitOn "/").filter (· ≠ "")).getLast? with
  | none => exact nofun
  | some last =>
      exact (namesNoNumber_foldlM s _ _).bind fun here =>
        .ite nofun (namesNoNumber_place s here last)

end Locate

/-! ### Refused programs -/

/-- A file that is opened is emptied, whatever becomes of the program. -/
theorem writeProgram_of_toText_error {refusal : Error} (hrefused : p.toText = .error refusal)
    (s : Storage) (path : String) :
    (∀ fault, s.locate .writing path = .error fault →
      s.writeProgram path p = (.error (.fault fault), s)) ∧
    ∀ l, s.locate .writing path = .ok l →
      s.writeProgram path p = (.error refusal, s.put l .empty) := by
  unfold writeProgram
  constructor
  · intro fault hl
    rw [hl]
  · intro l hl
    rw [hl, hrefused]

/-- The first number that is not finite is what every writer is refused with, and nothing goes out.
A file that the path leads to is left empty, so that the files stay as they were only if it was
empty before. -/
theorem writeProgram_of_not_finite {p : Program α}
    (hrefused : ∃ x ∈ p.numbers, NumberText.isFinite x = false) :
    ∃ before x after, p.coefficients.flatten ++ p.rhs ++ p.costs = before ++ x :: after ∧
      (∀ y ∈ before, NumberText.isFinite y = true) ∧ NumberText.isFinite x = false ∧
      ∃ refusal : Error, refusal.message = NumberText.text x ++ " cannot be written in an LP file" ∧
        (∀ (σ : Type) (write : String → σ → Except Fault Unit × σ) (out : σ),
          p.writeWith write out = (.error refusal, out)) ∧
        ∀ s path,
          (∀ fault, locate s .writing path = .error fault →
            s.writeProgram path p = (.error (.fault fault), s)) ∧
          (∀ l, s.locate .writing path = .ok l →
            (s.writeProgram path p).1 = .error refusal ∧
            (s.writeProgram path p).2.content? l = some .empty ∧
            ∀ other, other ≠ l → (s.writeProgram path p).2.content? other = s.content? other) ∧
          ((s.writeProgram path p).1 = .error refusal ∧ s.SameFiles (s.writeProgram path p).2 ↔
            ∃ l, s.locate .writing path = .ok l ∧ s.content? l = some .empty) := by
  obtain ⟨x, hx⟩ : ∃ x, p.numbers.find? (!NumberText.isFinite ·) = some x := by
    rw [← Option.isSome_iff_exists, List.find?_isSome]
    simpa using hrefused
  obtain ⟨hnot, before, after, hnumbers, hbefore⟩ := List.find?_eq_some_iff_append.mp hx
  have htext : p.toText = .error (.fault (.notFinite (NumberText.text x))) := by
    rw [Program.toText, hx]
  refine ⟨before, x, after, hnumbers, by simpa using hbefore, by simpa using hnot,
    .fault (.notFinite (NumberText.text x)), rfl, ?_, ?_⟩
  · intro σ write out
    rw [Program.writeWith, hx]
  · intro s path
    obtain ⟨hfault, hopened⟩ := writeProgram_of_toText_error htext s path
    refine ⟨hfault, ?_, ?_⟩
    · intro l hl
      rw [hopened l hl]
      exact ⟨rfl, content?_put s l .empty, fun other hother => content?_put_of_ne hother⟩
    · cases hl : s.locate .writing path with
      | error fault =>
          rw [hfault fault hl]
          constructor
          · rintro ⟨hsame, -⟩
            have hnotFinite : fault = .notFinite (NumberText.text x) :=
              Error.fault.inj (Except.error.inj hsame)
            exact absurd (hnotFinite ▸ hl) (namesNoNumber_locate s path _)
          · rintro ⟨l, hok, -⟩
            exact absurd hok nofun
      | ok l =>
          rw [hopened l hl, sameFiles_put_iff]
          constructor
          · rintro ⟨-, hempty⟩
            exact ⟨l, rfl, hempty⟩
          · rintro ⟨other, hok, hempty⟩
            obtain rfl : l = other := Except.ok.inj hok
            exact ⟨rfl, hempty⟩

/-- A name without a slash is the name of a file in the working directory. -/
theorem locate_name {purpose : Purpose} {name : String} (hnul : '\x00' ∉ name.toList)
    (hsteps : name.splitOn "/" = [name]) (hnamed : name ∉ ["", ".", ".."])
    (hends : name.startsWith "/" = false ∧ name.endsWith "/" = false)
    (hshort : name.utf8ByteSize ≤ nameLimit)
    (hplace : s.isDirectory (s.home ++ [name]) = false) :
    s.locate purpose name = .ok (s.home ++ [name]) := by
  obtain ⟨hempty, hdot, hdots⟩ : name ≠ "" ∧ name ≠ "." ∧ name ≠ ".." := by simpa using hnamed
  have hpath : name.utf8ByteSize ≤ pathLimit := Nat.le_trans hshort (by decide)
  unfold locate place
  simp [hnul, hsteps, hempty, hdot, hdots, hends, hplace, Nat.not_lt.mpr hshort,
    Nat.not_lt.mpr hpath]

/-- A row with a coefficient that was never worked out. -/
def unknownYield : Program Float := .ofRows [⟨[0 / 0], .lessEq, 1, none⟩] [⟨1, none⟩]

/-- A directory with an older program in it. -/
def archive : Storage := ⟨["work"], [(["work", "p"], "maximize".toUTF8)]⟩

theorem splitOn_p : "p".splitOn "/" = ["p"] := by
  unfold String.splitOn
  rw [if_neg (by decide), String.splitOnAux, if_neg (by decide), if_neg (by decide),
    String.splitOnAux, if_pos (by decide)]
  decide

theorem locate_archive {purpose : Purpose} : archive.locate purpose "p" = .ok ["work", "p"] :=
  locate_name (by decide) splitOn_p (by decide) (by decide +kernel) (by decide) (by decide +kernel)

theorem writeProgram_unknownYield :
    (∃ refusal : Error, refusal.message = "NaN cannot be written in an LP file" ∧
      unknownYield.writeWith Program.collect "before" = (.error refusal, "before") ∧
      (archive.writeProgram "p" unknownYield).1 = .error refusal) ∧
    (archive.writeProgram "p" unknownYield).2.content? ["work", "p"] = some .empty := by
  have hnot : NumberText.isFinite (0 / 0 : Float) = false := by decide +kernel
  have hname : NumberText.text (0 / 0 : Float) = "NaN" := by decide +kernel
  obtain ⟨before, x, after, hnumbers, hbefore, hx, refusal, hmessage, hwriter, hfiles⟩ :=
    writeProgram_of_not_finite (p := unknownYield) ⟨0 / 0, List.mem_cons_self, hnot⟩
  have hfirst : x = 0 / 0 := by
    cases before with
    | nil => exact (List.cons.inj hnumbers).1.symm
    | cons y before =>
        obtain rfl : 0 / 0 = y := (List.cons.inj hnumbers).1
        exact absurd (hbefore (0 / 0) List.mem_cons_self) (by rw [hnot]; decide)
  rw [hfirst, hname] at hmessage
  obtain ⟨-, hopened, -⟩ := hfiles archive "p"
  obtain ⟨herror, hcontent, -⟩ := hopened _ locate_archive
  exact ⟨⟨refusal, hmessage, hwriter String Program.collect "before", herror⟩, hcontent⟩

/-- The program is refused, and the older one that was in the file is lost. -/
theorem writeProgram_archive :
    unknownYield.toText = .error (.fault (.notFinite "NaN")) ∧
      archive.content? ["work", "p"] = some "maximize".toUTF8 ∧
      archive.writeProgram "p" unknownYield
        = (.error (.fault (.notFinite "NaN")), archive.put ["work", "p"] .empty) ∧
      ¬ archive.SameFiles (archive.writeProgram "p" unknownYield).2 := by
  have htext : unknownYield.toText = .error (.fault (.notFinite "NaN")) := by decide +kernel
  have hcontent : archive.content? ["work", "p"] = some "maximize".toUTF8 := by decide +kernel
  have hwritten := (writeProgram_of_toText_error htext archive "p").2 _ locate_archive
  refine ⟨htext, hcontent, hwritten, ?_⟩
  rw [hwritten, sameFiles_put_iff, hcontent]
  decide +kernel

end Storage

end LinProg
