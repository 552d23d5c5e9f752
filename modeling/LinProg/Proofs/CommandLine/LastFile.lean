import LinProg.Proofs.CommandLine.Scan
import LinProg.Proofs.Format.RoundTrip

/-!
# The program of the last file

All files are read, and the last one gives the program. Its direction gives way to the one that is
pending at the end of the command line.
-/

namespace LinProg.CommandLine

variable {read : String → Except Fault ByteArray} {input : ByteArray} {path : String}
  {files : List String} {p q : Program Float} {last : Option (Program Float)} {error : Error}

/-- The file can be read, and its text is that of a program. -/
def Holds (read : String → Except Fault ByteArray) (path : String) (p : Program Float) : Prop :=
  ∃ bytes, read path = .ok bytes ∧ Program.ofBytes bytes = .ok p

/-- All files hold programs, and the last one is meant. Without a file it is the one of the standard
input. -/
def IsLast (read : String → Except Fault ByteArray) (input : ByteArray) (files : List String)
    (p : Program Float) : Prop :=
  ∃ programs, List.Forall₂ (Holds read) files programs ∧
    (programs.getLast? = some p ∨ files = [] ∧ Program.ofBytes input = .ok p)

/-- The program of a file, or why there is none. -/
def programOf (read : String → Except Fault ByteArray) (path : String) :
    Except Error (Program Float) := ((read path).mapError Error.fault).bind Program.ofBytes

theorem holds_iff : programOf read path = .ok p ↔ Holds read path p := by
  unfold programOf Holds
  cases read path with
  | error fault => simp [Except.mapError, Except.bind]
  | ok bytes => simp [Except.mapError, Except.bind]

theorem readFiles_cons_ok (h : programOf read path = .ok p) :
    readFiles read (path :: files) last =
      (.reading path :: (readFiles read files (some p)).1, (readFiles read files (some p)).2) := by
  unfold programOf at h
  rw [readFiles, h]

theorem readFiles_cons_error (h : programOf read path = .error error) :
    readFiles read (path :: files) last = ([.reading path], .error error) := by
  unfold programOf at h
  rw [readFiles, h]

/-- Each file takes the place of the one before it. -/
theorem readFiles_eq_ok_iff {result : Option (Program Float)} :
    (readFiles read files last).2 = .ok result ↔
      ∃ programs, List.Forall₂ (Holds read) files programs ∧
        result = programs.getLast?.or last := by
  induction files generalizing last with
  | nil =>
      rw [readFiles]
      constructor
      · intro h
        exact ⟨[], .nil, (Except.ok.inj h).symm⟩
      · rintro ⟨programs, hprograms, rfl⟩
        rw [List.forall₂_nil_left_iff.mp hprograms]
        rfl
  | cons path files ih =>
      cases hprogram : programOf read path with
      | error error =>
          rw [readFiles_cons_error hprogram]
          refine ⟨nofun, ?_⟩
          rintro ⟨programs, hprograms, -⟩
          obtain ⟨p, rest, hp, -, -⟩ := List.forall₂_cons_left_iff.mp hprograms
          exact absurd (hprogram.symm.trans (holds_iff.mpr hp)) nofun
      | ok p =>
          rw [readFiles_cons_ok hprogram, ih]
          have hlast : ∀ programs : List (Program Float),
              (p :: programs).getLast?.or last = programs.getLast?.or (some p) := by
            intro programs
            rw [List.getLast?_cons]
            cases programs.getLast? <;> rfl
          constructor
          · rintro ⟨programs, hprograms, rfl⟩
            exact ⟨p :: programs, .cons (holds_iff.mp hprogram) hprograms, (hlast programs).symm⟩
          · rintro ⟨_, hprograms, rfl⟩
            obtain ⟨q, programs, hq, hrest, rfl⟩ := List.forall₂_cons_left_iff.mp hprograms
            obtain rfl : p = q := Except.ok.inj (hprogram.symm.trans (holds_iff.mpr hq))
            exact ⟨programs, hrest, hlast programs⟩

theorem load_snd : (load read input files).2 =
    match (readFiles read files none).2 with
    | .error error => .error error
    | .ok (some p) => .ok p
    | .ok none => Program.ofBytes input := by
  unfold load
  split <;> simp [*]

theorem load_eq_ok_iff : (load read input files).2 = .ok p ↔ IsLast read input files p := by
  rw [load_snd]
  constructor
  · intro h
    cases hread : (readFiles read files none).2 with
    | error error =>
        rw [hread] at h
        exact absurd h nofun
    | ok result =>
        rw [hread] at h
        obtain ⟨programs, hprograms, hresult⟩ := readFiles_eq_ok_iff.mp hread
        rw [Option.or_none] at hresult
        cases result with
        | some q => exact ⟨programs, hprograms, .inl (Except.ok.inj h ▸ hresult.symm)⟩
        | none =>
            have hnone : programs = [] := List.getLast?_eq_none_iff.mp hresult.symm
            have hfiles : files = [] := List.forall₂_nil_right_iff.mp (hnone ▸ hprograms)
            exact ⟨programs, hprograms, .inr ⟨hfiles, h⟩⟩
  · rintro ⟨programs, hprograms, hlast⟩
    have hread : (readFiles read files none).2 = .ok (programs.getLast?.or none) :=
      readFiles_eq_ok_iff.mpr ⟨programs, hprograms, rfl⟩
    rw [hread, Option.or_none]
    rcases hlast with hlast | ⟨rfl, hinput⟩
    · rw [hlast]
    · rw [List.forall₂_nil_left_iff.mp hprograms]
      exact hinput

/-! ### The whole command line -/

section Arguments

variable {arguments : List String} {o : Options}

theorem agrees_ofArguments (h : Options.ofArguments arguments = .ok o) :
    Agrees o (Scan.start.words arguments) := Agrees.start.read h

/-- What can be read where no file has an old spelling for its name. -/
def withoutOldNames (path : String) : Except Fault ByteArray :=
  if oldDirection? path = none then .ok Program.plantText.toUTF8 else .error .notFound

theorem ofBytes_plantText : Program.ofBytes Program.plantText.toUTF8 = .ok Program.plant := by
  decide +kernel

theorem holds_modernise (path : String) :
    Holds withoutOldNames (modernise path) Program.plant :=
  ⟨Program.plantText.toUTF8, if_pos (oldDirection?_modernise path), ofBytes_plantText⟩

theorem oldDirection?_of_isLast (h : IsLast withoutOldNames input files p) :
    ∀ path ∈ files, oldDirection? path = none := by
  obtain ⟨programs, hprograms, -⟩ := h
  induction hprograms with
  | nil => exact nofun
  | @cons name q files programs hq _ ih =>
      refine List.forall_mem_cons.mpr ⟨?_, ih⟩
      obtain ⟨bytes, hbytes, -⟩ := hq
      unfold withoutOldNames at hbytes
      split at hbytes
      · assumption
      · exact absurd hbytes nofun

/-- The files are opened under other names than the given ones where these are old spellings. -/
theorem load_iff_isLast_iff :
    (∀ read input p, (load read input (files.map modernise)).2 = .ok p ↔ IsLast read input files p) ↔
      ∀ path ∈ files, oldDirection? path = none := by
  constructor
  · intro hsame
    rcases List.eq_nil_or_concat files with rfl | ⟨before, path, rfl⟩
    · exact nofun
    · rw [List.concat_eq_append] at hsame ⊢
      have hlast : IsLast withoutOldNames .empty (before ++ [path]) Program.plant := by
        rw [← hsame, load_eq_ok_iff]
        refine ⟨(before ++ [path]).map fun _ => Program.plant, ?_, .inl ?_⟩
        · rw [List.forall₂_map_left_iff, List.forall₂_map_right_iff, List.forall₂_same]
          exact fun path _ => holds_modernise path
        · rw [List.map_append]
          exact List.getLast?_concat
      exact oldDirection?_of_isLast hlast
  · intro hnew read input p
    have hfiles : files.map modernise = files := by
      rw [List.map_congr_left fun path hpath => modernise_of_none (hnew path hpath)]
      exact List.map_id files
    rw [hfiles, load_eq_ok_iff]

/-- What is done with the program that was loaded. -/
def Options.act (o : Options) (fuel : Nat) (journal : List (Event Float)) (p : Program Float) :
    Report :=
  (if o.write then reportText journal p else reportAnswer fuel o.settings journal p).shown
    o.verbosity

theorem report_of_load (h : Options.ofArguments arguments = .ok o) {fuel : Nat}
    {journal : List (Event Float)} (hload : load read input o.files = (journal, .ok p)) :
    report read input fuel arguments
      = o.act fuel journal { p with direction := o.requestedDirection.getD p.direction } := by
  unfold report Options.carryOut Options.act
  rw [h]
  simp only [hload]

/-- The direction that is asked for is the pending one, by any count of places, and it takes the
place of the direction of the program that is loaded. This is the program of the last file, unless
one of the files has an old spelling of a direction for its name. -/
theorem report_of_scan (h : Options.ofArguments arguments = .ok o) :
    o.requestedDirection = (Scan.start.words arguments).pending ∧
    (∀ placed defaults, placed.map (·.1) = o.marks → (placed.map (·.2)).Pairwise (· < ·) →
      Matches.requested (Matches.ofMarks placed).files ((Matches.ofMarks placed).given defaults)
        = (Scan.start.words arguments).pending) ∧
    (∀ read input fuel journal p, load read input o.files = (journal, .ok p) →
      report read input fuel arguments = o.act fuel journal
        { p with direction := (Scan.start.words arguments).pending.getD p.direction }) ∧
    ((∀ read input p, (load read input o.files).2 = .ok p ↔
        IsLast read input (Scan.start.words arguments).files p) ↔
      ∀ path ∈ (Scan.start.words arguments).files, oldDirection? path = none) := by
  have hagrees := agrees_ofArguments h
  have hrequested : o.requestedDirection = (Scan.start.words arguments).pending := by
    rw [Options.requestedDirection_eq, hagrees.pending]
  refine ⟨hrequested, ?_, ?_, ?_⟩
  · intro placed defaults hmarks hplaces
    rw [Matches.requested_ofMarks hplaces, hmarks, hagrees.pending]
  · intro read input fuel journal p hload
    rw [report_of_load h hload, hrequested]
  · rw [hagrees.files]
    exact load_iff_isLast_iff

theorem report_minimizedPlant :
    ∃ o, Options.ofArguments ["--max", "a", "-Min"] = .ok o ∧
      o.requestedDirection = some .minimize ∧
      (∀ input p, (load withoutOldNames input o.files).2 = .ok p ↔
        IsLast withoutOldNames input ["a"] p) ∧
      ∃ journal, report withoutOldNames .empty 9 ["--max", "a", "-Min"]
        = o.act 9 journal { Program.plant with direction := .minimize } := by
  cases h : Options.ofArguments ["--max", "a", "-Min"] with
  | error refusal =>
      have haccepted : (Options.ofArguments ["--max", "a", "-Min"]).isOk := by decide +kernel
      rw [h] at haccepted
      exact absurd haccepted nofun
  | ok o =>
      have hscan : Scan.start.words ["--max", "a", "-Min"] = ⟨some .minimize, ["a"]⟩ := by decide
      obtain ⟨hrequested, -, hreport, hfiles⟩ := report_of_scan h
      rw [hscan] at hrequested hreport hfiles
      have hlast := hfiles.mpr (by decide) withoutOldNames
      have hplant : IsLast withoutOldNames .empty ["a"] Program.plant :=
        ⟨[Program.plant], .cons (holds_modernise "a") .nil, .inl rfl⟩
      refine ⟨o, rfl, hrequested, hlast, _, hreport _ _ 9 _ _ (Prod.ext rfl ?_)⟩
      exact (hlast .empty Program.plant).mpr hplant

/-- Two files, one of them with an old spelling for its name. -/
def twoNames (path : String) : Except Fault ByteArray :=
  if path = "-MIN" then .ok Program.plantText.toUTF8
  else if path = "--minimize" then .ok Program.soldOutText.toUTF8
  else .error .notFound

/-- The program of the other file is printed. -/
theorem report_dashedName :
    Scan.start.words ["--write", "--", "-MIN"] = ⟨none, ["-MIN"]⟩ ∧
      Holds twoNames "-MIN" Program.plant ∧ Program.plant.toText = .ok Program.plantText ∧
      (report twoNames .empty 0 ["--write", "--", "-MIN"]).output = Program.soldOutText ∧
      Program.plantText ≠ Program.soldOutText := by
  refine ⟨by decide, ⟨Program.plantText.toUTF8, rfl, ?_⟩, ?_, ?_, ?_⟩ <;> decide +kernel

end Arguments

end LinProg.CommandLine
