import LinProg.Proofs.CommandLine.LastFile

/-!
# The end of the options

The first `--` ends the options: what stands before it is read on its own, and each word behind it
is a file. The files are opened one after the other, and a word that is an old spelling is opened
under the present one.
-/

namespace LinProg.CommandLine

/-! ### The files that are opened -/

section Opened

variable {read read' : String → Except Fault ByteArray} {input : ByteArray} {path : String}
  {files names : List String} {last : Option (Program Float)} {p : Program Float} {error : Error}

/-- One file after the other, up to the first that holds no program. -/
def opened (read : String → Except Fault ByteArray) (files : List String) : List String :=
  files.take ((files.takeWhile fun path => (programOf read path).isOk).length + 1)

/-- The same files, but for one that is gone. -/
def without (read : String → Except Fault ByteArray) (path : String) :
    String → Except Fault ByteArray := Function.update read path (.error .notFound)

/-- The names under which files are opened, in their order. The journal tells of each of them, none
of the files may be gone, and no other file matters. -/
structure Opens (read : String → Except Fault ByteArray) (input : ByteArray)
    (files names : List String) : Prop where
  journal : (load read input files).1 = names.map .reading
  needed : ∀ path ∈ names, (load (without read path) input files).2 = .error (.fault .notFound)
  enough : ∀ read', (∀ path ∈ names, read' path = read path) →
    load read' input files = load read input files

theorem programOf_congr (h : read' path = read path) :
    programOf read' path = programOf read path := by
  unfold programOf
  rw [h]

theorem programOf_without_self (read : String → Except Fault ByteArray) (path : String) :
    programOf (without read path) path = .error (.fault .notFound) := by
  unfold programOf without
  rw [Function.update_self]
  rfl

theorem opened_cons_ok (h : programOf read path = .ok p) :
    opened read (path :: files) = path :: opened read files := by
  have hok : (programOf read path).isOk := by rw [h]; rfl
  unfold opened
  rw [List.takeWhile_cons, if_pos hok, List.length_cons, List.take_succ_cons]

theorem opened_cons_error (h : programOf read path = .error error) :
    opened read (path :: files) = [path] := by
  have hbad : ¬ (programOf read path).isOk := by rw [h]; exact nofun
  unfold opened
  rw [List.takeWhile_cons, if_neg hbad, List.length_nil, List.take_succ_cons, List.take_zero]

theorem opened_of_holds (h : ∀ path ∈ files, ∃ p, Holds read path p) :
    opened read files = files := by
  induction files with
  | nil => rfl
  | cons path files ih =>
      obtain ⟨⟨p, hp⟩, hfiles⟩ := List.forall_mem_cons.mp h
      rw [opened_cons_ok (holds_iff.mpr hp), ih hfiles]

theorem readFiles_fst : (readFiles read files last).1 = (opened read files).map .reading := by
  induction files generalizing last with
  | nil => rfl
  | cons path files ih =>
      cases hprogram : programOf read path with
      | error error =>
          rw [readFiles_cons_error hprogram, opened_cons_error hprogram]
          rfl
      | ok p =>
          rw [readFiles_cons_ok hprogram, opened_cons_ok hprogram, List.map_cons, ih]

theorem readFiles_congr (h : ∀ path ∈ opened read files, read' path = read path) :
    readFiles read' files last = readFiles read files last := by
  induction files generalizing last with
  | nil => rfl
  | cons path files ih =>
      cases hprogram : programOf read path with
      | error error =>
          rw [opened_cons_error hprogram] at h
          have hsame := programOf_congr (h path List.mem_cons_self)
          rw [readFiles_cons_error hprogram, readFiles_cons_error (hsame.trans hprogram)]
      | ok p =>
          rw [opened_cons_ok hprogram] at h
          obtain ⟨hpath, hfiles⟩ := List.forall_mem_cons.mp h
          have hsame := programOf_congr hpath
          rw [readFiles_cons_ok hprogram, readFiles_cons_ok (hsame.trans hprogram), ih hfiles]

theorem readFiles_without (h : path ∈ opened read files) :
    (readFiles (without read path) files last).2 = .error (.fault .notFound) := by
  induction files generalizing last with
  | nil => exact absurd h List.not_mem_nil
  | cons name files ih =>
      by_cases hname : name = path
      · rw [hname, readFiles_cons_error (programOf_without_self read path)]
      · have hsame : programOf (without read path) name = programOf read name :=
          programOf_congr (Function.update_of_ne hname _ _)
        cases hprogram : programOf read name with
        | error error =>
            rw [opened_cons_error hprogram] at h
            exact absurd (List.mem_singleton.mp h).symm hname
        | ok p =>
            rw [opened_cons_ok hprogram] at h
            have hrest : path ∈ opened read files :=
              (List.mem_cons.mp h).resolve_left fun heq => hname heq.symm
            rw [readFiles_cons_ok (hsame.trans hprogram)]
            exact ih hrest

theorem load_fst : (load read input files).1 = (readFiles read files none).1 := by
  unfold load
  split <;> simp [*]

theorem load_eq_of_readFiles_eq (h : readFiles read' files none = readFiles read files none) :
    load read' input files = load read input files := by
  unfold load
  rw [h]

theorem reading_injective : Function.Injective (Event.reading : String → Event Float) := by
  intro path name h
  exact Event.reading.inj h

/-- There is one list of names under which files are opened. -/
theorem opens_iff : Opens read input files names ↔ names = opened read files := by
  constructor
  · intro h
    have hjournal := h.journal
    rw [load_fst, readFiles_fst] at hjournal
    exact (reading_injective.list_map hjournal).symm
  · rintro rfl
    refine ⟨?_, ?_, ?_⟩
    · rw [load_fst, readFiles_fst]
    · intro path hpath
      rw [load_snd, readFiles_without hpath]
    · intro read' hsame
      exact load_eq_of_readFiles_eq (readFiles_congr hsame)

end Opened

/-! ### The words before and behind the end -/

section Ending

variable {o o' : Options} {before behind arguments : List String} {word path : String}

theorem files_addFiles (h : o.addFiles behind = .ok o') : o'.files = o.files ++ behind := by
  unfold Options.addFiles at h
  induction behind generalizing o with
  | nil => rw [← Except.ok.inj h, List.append_nil]
  | cons path behind ih =>
      rw [List.foldlM_cons] at h
      obtain ⟨next, hnext, hrest⟩ := bind_eq_ok_iff.mp h
      rw [ih hrest, mark_of_addFile hnext, files_mark_file, List.append_assoc]
      rfl

theorem modernise_eq_ending_iff : modernise word = "--" ↔ word = "--" := by
  constructor
  · intro h
    cases hold : oldDirection? word with
    | none => rwa [modernise_of_none hold] at h
    | some d =>
        rw [modernise_of_some hold] at h
        cases d <;> exact absurd h (by decide)
  · rintro rfl
    exact modernise_of_none (by decide)

theorem modernise_eq_self_iff : modernise word = word ↔ oldDirection? word = none := by
  constructor
  · intro h
    rw [← h]
    exact oldDirection?_modernise word
  · exact modernise_of_none

theorem map_modernise_eq_self_iff :
    behind.map modernise = behind ↔ ∀ name ∈ behind, oldDirection? name = none := by
  calc behind.map modernise = behind ↔ behind.map modernise = behind.map id := by rw [List.map_id]
    _ ↔ ∀ name ∈ behind, modernise name = name := List.map_inj_left
    _ ↔ ∀ name ∈ behind, oldDirection? name = none := by simp only [modernise_eq_self_iff]

/-- What stands before the first `--` is read on its own. An option that still waits for its value
does not take the `--`, so that the words are refused with it and without it. -/
theorem read_ending (o : Options) (behind : List String) (hfirst : "--" ∉ before) :
    o.read (before ++ "--" :: behind) = o.read before >>= (·.addFiles behind) := by
  have hending : Token.ofText "--" = .ending := by decide
  -- Both sides take the same step at each word, so only what the words are followed by matters: it
  -- is looked at in `case1` and by an option at the very end that waits for its value, in `case7`.
  induction o, before using Options.read.induct with
  | case1 o =>
      have hread : o.read ("--" :: behind) = o.addFiles behind := by rw [Options.read, hending]
      rw [List.nil_append, hread]
      rfl
  | case2 o word rest htoken =>
      exact absurd (word_of_ending htoken ▸ List.mem_cons_self) hfirst
  | case3 o word rest path htoken ih =>
      have hrest := List.not_mem_of_not_mem_cons hfirst
      rw [List.cons_append, read_path htoken, read_path htoken, bind_assoc]
      simp only [ih _ hrest]
  | case4 o word rest letters htoken ih =>
      have hrest := List.not_mem_of_not_mem_cons hfirst
      rw [List.cons_append, read_letters htoken, read_letters htoken, bind_assoc]
      simp only [ih _ hrest]
  | case5 o word rest name value htoken hneeds ih =>
      have hrest := List.not_mem_of_not_mem_cons hfirst
      rw [List.cons_append, Options.read, Options.read, htoken]
      simp only [hneeds, if_true, bind_assoc, ih _ hrest]
  | case6 o word rest name value htoken hneeds =>
      rw [List.cons_append, Options.read, Options.read, htoken]
      simp only [hneeds]
      rfl
  | case7 o word name htoken hneeds =>
      rw [List.singleton_append, Options.read, Options.read, htoken]
      simp only [hneeds, if_true, hending]
      rfl
  | case8 o word name htoken hneeds value rest text hvalue ih =>
      have hrest := List.not_mem_of_not_mem_cons (List.not_mem_of_not_mem_cons hfirst)
      rw [List.cons_append, List.cons_append, Options.read, Options.read, htoken]
      simp only [hneeds, if_true, hvalue, bind_assoc, ih _ hrest]
  | case9 o word name htoken hneeds value rest hvalue =>
      rw [List.cons_append, List.cons_append, Options.read, Options.read, htoken]
      simp only [hneeds, if_true]
      rfl
  | case10 o word rest name htoken hneeds ih =>
      have hrest := List.not_mem_of_not_mem_cons hfirst
      rw [List.cons_append, read_flag name htoken hneeds, read_flag name htoken hneeds, bind_assoc]
      simp only [ih _ hrest]

theorem ofArguments_ending (behind : List String) (hfirst : "--" ∉ before) :
    Options.ofArguments (before ++ "--" :: behind)
      = Options.ofArguments before >>= (·.addFiles (behind.map modernise)) := by
  have hpresent : "--" ∉ before.map modernise := by
    intro hmem
    obtain ⟨word, hword, hmodern⟩ := List.mem_map.mp hmem
    exact hfirst (modernise_eq_ending_iff.mp hmodern ▸ hword)
  have hending : modernise "--" = "--" := modernise_eq_ending_iff.mpr rfl
  unfold Options.ofArguments
  rw [List.map_append, List.map_cons, hending, read_ending _ _ hpresent]

theorem exists_options {names : List String}
    (h : (Options.ofArguments arguments).map Options.files = .ok names) :
    ∃ o, Options.ofArguments arguments = .ok o ∧ o.files = names := by
  cases harguments : Options.ofArguments arguments with
  | error refusal =>
      rw [harguments] at h
      exact absurd h nofun
  | ok o =>
      rw [harguments] at h
      exact ⟨o, rfl, Except.ok.inj h⟩

/-- Each word behind the first `--` is a file, and the files are opened in their order, behind those
named before it. They are opened under the very words of the command line exactly if none of these
words is an old spelling. -/
theorem opens_verbatim_iff (h : Options.ofArguments (before ++ "--" :: behind) = .ok o)
    (hfirst : "--" ∉ before) :
    ∃ front, Options.ofArguments before = .ok front ∧
      (∀ read input, Opens read input o.files (opened read (front.files ++ behind.map modernise))) ∧
      ((∀ read input, Opens read input o.files (opened read (front.files ++ behind))) ↔
        ∀ name ∈ behind, oldDirection? name = none) ∧
      ∀ read, (∀ path ∈ front.files ++ behind, ∃ p, Holds read path p) →
        opened read (front.files ++ behind) = front.files ++ behind := by
  rw [ofArguments_ending behind hfirst] at h
  obtain ⟨front, hfront, hadd⟩ := bind_eq_ok_iff.mp h
  have hfiles := files_addFiles hadd
  refine ⟨front, hfront, ?_, ?_, fun read hholds => opened_of_holds hholds⟩
  · intro read input
    rw [hfiles]
    exact opens_iff.mpr rfl
  · rw [← map_modernise_eq_self_iff]
    constructor
    · intro hopens
      -- Where every name is that of a file, all of them are opened and the two lists are the same.
      have hall : ∀ files, opened (fun _ => .ok Program.plantText.toUTF8) files = files := by
        intro files
        apply opened_of_holds
        intro path _
        exact ⟨Program.plant, _, rfl, ofBytes_plantText⟩
      have hsame := opens_iff.mp (hopens (fun _ => .ok Program.plantText.toUTF8) .empty)
      rw [hall, hall, hfiles] at hsame
      exact (List.append_cancel_left hsame).symm
    · intro hsame read input
      rw [hfiles, hsame]
      exact opens_iff.mpr rfl

theorem opens_dashedNames :
    ∃ o, Options.ofArguments (["a", "--max"] ++ "--" :: ["--", "--min", "-mini"]) = .ok o ∧
      "--" ∉ ["a", "--max"] ∧
      Opens withoutOldNames .empty o.files ["a", "--", "--min", "-mini"] := by
  obtain ⟨o, ho, -⟩ : ∃ o,
      Options.ofArguments (["a", "--max"] ++ "--" :: ["--", "--min", "-mini"]) = .ok o ∧
        o.files = ["a", "--", "--min", "-mini"] := exists_options (by decide +kernel)
  have hfirst : "--" ∉ ["a", "--max"] := by decide
  obtain ⟨front, hfront, -, hiff, hall⟩ := opens_verbatim_iff ho hfirst
  obtain ⟨o', ho', hfiles⟩ : ∃ o', Options.ofArguments ["a", "--max"] = .ok o' ∧ o'.files = ["a"] :=
    exists_options (by decide +kernel)
  obtain rfl : front = o' := Except.ok.inj (hfront.symm.trans ho')
  rw [hfiles] at hiff hall
  have hopens := hiff.mpr (by decide) withoutOldNames .empty
  rw [hall withoutOldNames] at hopens
  · exact ⟨o, ho, hfirst, hopens⟩
  · intro path hpath
    have hnew : oldDirection? path = none := by
      revert path
      decide
    exact ⟨Program.plant, _, if_pos hnew, ofBytes_plantText⟩

/-- There is a file whose name is an old spelling, and none with the present one. -/
def dashedFiles (path : String) : Except Fault ByteArray :=
  if path = "--" ∨ path = "-Maximize" then .ok Program.plantText.toUTF8 else .error .notFound

/-- Both files are there, but another one is looked for. -/
theorem opens_presentSpelling :
    (∀ path ∈ ["--", "-Maximize"], Holds dashedFiles path Program.plant) ∧
      ∃ o, Options.ofArguments (["-v", "--write"] ++ "--" :: ["--", "-Maximize"]) = .ok o ∧
        Opens dashedFiles .empty o.files ["--", "--maximize"] ∧
        ¬ Opens dashedFiles .empty o.files ["--", "-Maximize"] := by
  have hholds : ∀ path ∈ ["--", "-Maximize"], Holds dashedFiles path Program.plant := by
    intro path hpath
    have hname : path = "--" ∨ path = "-Maximize" := by simpa using hpath
    exact ⟨_, if_pos hname, ofBytes_plantText⟩
  obtain ⟨o, ho, hfiles⟩ : ∃ o,
      Options.ofArguments (["-v", "--write"] ++ "--" :: ["--", "-Maximize"]) = .ok o ∧
        o.files = ["--", "--maximize"] := exists_options (by decide +kernel)
  have hopened : opened dashedFiles o.files = ["--", "--maximize"] := by
    have hgone : programOf dashedFiles "--maximize" = .error (.fault .notFound) := rfl
    rw [hfiles, opened_cons_ok (holds_iff.mpr (hholds "--" List.mem_cons_self)),
      opened_cons_error hgone]
  refine ⟨hholds, o, ho, opens_iff.mpr hopened.symm, ?_⟩
  rw [opens_iff, hopened]
  decide

end Ending

end LinProg.CommandLine
