import LinProg.CommandLine.Options
import LinProg.Proofs.CommandLine.Spellings
import Mathlib.Data.List.Induction

/-!
# Files and directions in their order

A direction is pending until the next file. To find out what is pending in the end, it is enough to
compare the places of the last file and of the direction that is left.
-/

namespace LinProg.CommandLine

/-! ### Places -/

/-- What is pending behind a mark. -/
def Mark.pending : Mark → Option Direction
  | .file _ => none
  | .direction d => some d

/-- What is pending behind all the marks. -/
def pendingOf (marks : List Mark) : Option Direction := marks.getLast?.bind Mark.pending

theorem pendingOf_concat (marks : List Mark) (m : Mark) : pendingOf (marks ++ [m]) = m.pending := by
  unfold pendingOf
  rw [List.getLast?_concat]
  rfl

namespace Options

variable {o : Options} {marks : List Mark} {m : Mark} {test : Mark → Bool}

theorem lastIndex?_concat (h : o.marks = marks ++ [m]) :
    o.lastIndex? test
      = if test m then some marks.length else { o with marks }.lastIndex? test := by
  unfold lastIndex?
  rw [h, List.zipIdx_append, List.filter_append]
  by_cases hm : test m <;> simp [hm]

theorem lt_of_lastIndex? {i : Nat} (h : o.lastIndex? test = some i) : i < o.marks.length := by
  unfold lastIndex? at h
  obtain ⟨⟨m, place⟩, hlast, rfl⟩ := Option.map_eq_some_iff.mp h
  have hmem := (List.mem_filter.mp (List.mem_of_getLast? hlast)).1
  exact (List.mem_zipIdx' hmem).1

/-- The last mark decides: no place of the other kind lies behind it. -/
theorem requestedDirection_eq (o : Options) : o.requestedDirection = pendingOf o.marks := by
  unfold requestedDirection
  rcases List.eq_nil_or_concat o.marks with hnil | ⟨marks, m, hmarks⟩
  · unfold lastIndex?
    rw [hnil]
    rfl
  · rw [List.concat_eq_append] at hmarks
    rw [hmarks, pendingOf_concat, lastIndex?_concat hmarks, lastIndex?_concat hmarks]
    cases m with
    | direction d =>
        have hlast : o.directions.getLast? = some d := by
          unfold directions
          rw [hmarks, List.filterMap_append]
          exact List.getLast?_concat
        cases hfile : { o with marks }.lastIndex? isFile with
        | none => exact hlast
        | some file => exact (if_pos (lt_of_lastIndex? hfile)).trans hlast
    | file path =>
        cases hflag : { o with marks }.lastIndex? (!isFile ·) with
        | none => rfl
        | some flag => exact if_neg (Nat.lt_asymm (lt_of_lastIndex? hflag))

end Options

/-! ### What the parser keeps -/

/-- Where the value of a flag is from. -/
inductive Source where
  | default
  | commandLine
  deriving DecidableEq

/-- A flag with a value, and the place of the value. -/
structure Given where
  source : Source
  index : Nat

/-- The places that are kept of the files, and of each direction that nothing later overrides. -/
structure Matches where
  files : List Nat
  directions : Direction → Option Nat

namespace Matches

def empty : Matches := ⟨[], fun _ => none⟩

/-- A direction overrides what was there of both directions. -/
def keep (kept : Matches) : Mark × Nat → Matches
  | (.file _, index) => { kept with files := kept.files ++ [index] }
  | (.direction d, index) =>
    { kept with directions := fun other => if other = d then some index else none }

/-- What the marks at their places leave. -/
def ofMarks (placed : List (Mark × Nat)) : Matches := placed.foldl keep empty

/-- A direction that is not on the command line has a value of its own, at any place. -/
def given (kept : Matches) (defaults : Direction → Nat) (d : Direction) : Given :=
  match kept.directions d with
  | some index => ⟨.commandLine, index⟩
  | none => ⟨.default, defaults d⟩

/-- The one that is further on. -/
def later (given : Direction → Given) (best : Option Direction) (d : Direction) :
    Option Direction :=
  match best with
  | some other => if (given d).index < (given other).index then some other else some d
  | none => some d

/-- The direction on the command line that is furthest on. -/
def latest (given : Direction → Given) : Option Direction :=
  ([Direction.minimize, .maximize].filter fun d => (given d).source = .commandLine).foldl
    (later given) none

/-- That direction, if it lies behind the last file. -/
def requested (files : List Nat) (given : Direction → Given) : Option Direction :=
  match latest given, files.getLast? with
  | some d, some file => if file < (given d).index then some d else none
  | some d, none => some d
  | none, _ => none

variable {placed : List (Mark × Nat)} {defaults : Direction → Nat} {m : Mark} {index : Nat}
  {files : List Nat} {given : Direction → Given} {d : Direction}

theorem ofMarks_concat : ofMarks (placed ++ [(m, index)]) = (ofMarks placed).keep (m, index) := by
  unfold ofMarks
  rw [List.foldl_append]
  rfl

/-- All that is kept is places of marks. -/
theorem mem_places (placed : List (Mark × Nat)) :
    (∀ place ∈ (ofMarks placed).files, place ∈ placed.map (·.2)) ∧
      ∀ d place, (ofMarks placed).directions d = some place → place ∈ placed.map (·.2) := by
  induction placed using List.reverseRecOn with
  | nil => exact ⟨nofun, nofun⟩
  | append_singleton placed last ih =>
      obtain ⟨m, index⟩ := last
      obtain ⟨hfiles, hdirections⟩ := ih
      have hold : ∀ place ∈ placed.map (·.2), place ∈ (placed ++ [(m, index)]).map (·.2) := by
        intro place hplace
        rw [List.map_append]
        exact List.mem_append_left _ hplace
      have hnew : index ∈ (placed ++ [(m, index)]).map (·.2) := by simp
      rw [ofMarks_concat]
      cases m with
      | file path =>
          refine ⟨?_, fun d place hplace => hold place (hdirections d place hplace)⟩
          intro place hplace
          rcases List.mem_append.mp hplace with hplace | hplace
          · exact hold place (hfiles place hplace)
          · exact List.mem_singleton.mp hplace ▸ hnew
      | direction other =>
          refine ⟨fun place hplace => hold place (hfiles place hplace), ?_⟩
          intro d place hplace
          simp only [keep] at hplace
          split at hplace
          · exact Option.some.inj hplace ▸ hnew
          · exact absurd hplace nofun

theorem mem_of_foldl_later {flags : List Direction} {best : Option Direction}
    (h : flags.foldl (later given) best = some d) : d ∈ flags ∨ best = some d := by
  induction flags generalizing best with
  | nil => exact .inr h
  | cons other flags ih =>
      rcases ih h with hmem | hbest
      · exact .inl (List.mem_cons_of_mem other hmem)
      · unfold later at hbest
        split at hbest
        · split at hbest
          · exact .inr hbest
          · exact .inl (Option.some.inj hbest ▸ List.mem_cons_self)
        · exact .inl (Option.some.inj hbest ▸ List.mem_cons_self)

theorem source_of_latest (h : latest given = some d) : (given d).source = .commandLine := by
  rcases mem_of_foldl_later h with hmem | hnone
  · exact of_decide_eq_true (List.mem_filter.mp hmem).2
  · exact absurd hnone nofun

/-- A file behind all directions leaves none. -/
theorem requested_of_file (hlast : files.getLast? = some index)
    (hbefore : ∀ d, (given d).source = .commandLine → (given d).index < index) :
    requested files given = none := by
  unfold requested
  rw [hlast]
  cases hlatest : latest given with
  | none => rfl
  | some d => exact if_neg (Nat.lt_asymm (hbefore d (source_of_latest hlatest)))

/-- A direction behind all files and without the other one. -/
theorem requested_of_direction (hgiven : given d = ⟨.commandLine, index⟩)
    (hother : ∀ other, other ≠ d → (given other).source = .default)
    (hbefore : ∀ file ∈ files, file < index) : requested files given = some d := by
  have hlatest : latest given = some d := by
    unfold latest
    cases d with
    | minimize => simp [hgiven, hother .maximize nofun, later]
    | maximize => simp [hgiven, hother .minimize nofun, later]
  unfold requested
  rw [hlatest]
  cases hlast : files.getLast? with
  | none => rfl
  | some file =>
      have hlt : file < (given d).index := by
        rw [hgiven]
        exact hbefore file (List.mem_of_getLast? hlast)
      exact if_pos hlt

/-- Whatever places the parser counts with, if they only rise from left to right. -/
theorem requested_ofMarks (hplaces : (placed.map (·.2)).Pairwise (· < ·)) :
    requested (ofMarks placed).files ((ofMarks placed).given defaults)
      = pendingOf (placed.map (·.1)) := by
  rcases List.eq_nil_or_concat placed with rfl | ⟨before, ⟨m, index⟩, rfl⟩
  · rfl
  · rw [List.concat_eq_append] at hplaces ⊢
    obtain ⟨hfiles, hdirections⟩ := mem_places before
    have hbefore : ∀ place ∈ before.map (·.2), place < index := by
      rw [List.map_append, List.pairwise_append] at hplaces
      intro place hplace
      exact hplaces.2.2 place hplace index List.mem_cons_self
    rw [ofMarks_concat, List.map_append]
    show _ = pendingOf (before.map (·.1) ++ [m])
    rw [pendingOf_concat]
    cases m with
    | direction d =>
        have hgiven : ((ofMarks before).keep (.direction d, index)).given defaults d
            = ⟨.commandLine, index⟩ := by simp [keep, given]
        apply requested_of_direction hgiven
        · intro other hother
          simp [keep, given, hother]
        · exact fun file hfile => hbefore file (hfiles file hfile)
    | file path =>
        apply requested_of_file (List.getLast?_concat : _ = some index)
        · intro d hd
          cases hkept : (ofMarks before).directions d with
          | none => simp [keep, given, hkept] at hd
          | some place =>
              simp only [keep, given, hkept]
              exact hbefore place (hdirections d place hkept)

end Matches

end LinProg.CommandLine
