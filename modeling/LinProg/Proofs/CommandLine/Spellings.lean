import LinProg.CommandLine.Token
import Mathlib.Data.Bool.AllAny

/-!
# Old spellings

Words are compared in the lowercase of Unicode. For the old spellings of the directions this is the
same as to pass over the case of the ASCII letters: no other character has one of their letters as
its lowercase.
-/

namespace LinProg

namespace Text

variable {c : Char}

/-- The characters of the old spellings. -/
def spellingChars : List Char := ['-', 'a', 'e', 'i', 'm', 'n', 'x', 'z']

theorem spellingChar_pos : ∀ d ∈ spellingChars, 0 < d.toNat :=
  List.all_iff_forall_prop.mp (by decide)

theorem lowercaseChar_spellingChar : ∀ d ∈ spellingChars, lowercaseChar d = [d] :=
  List.all_iff_forall_prop.mp (by decide)

/-- Of all runs only the one of the capital ASCII letters leads to these characters. -/
theorem run_of_spellingChar : ∀ run ∈ lowercaseRuns, ∀ d ∈ spellingChars,
    run.first + run.shift ≤ d.toNat → (d.toNat : Int) ≤ run.last + run.shift →
      run.first = 0x41 ∧ run.last = 0x5A ∧ run.shift = 32 := by
  have hruns : lowercaseRuns.all fun run => spellingChars.all fun d =>
      decide (run.first + run.shift ≤ d.toNat → (d.toNat : Int) ≤ run.last + run.shift →
        run.first = 0x41 ∧ run.last = 0x5A ∧ run.shift = 32) := by decide +kernel
  intro run hrun
  exact List.all_iff_forall_prop.mp (List.all_eq_true.mp hruns run hrun)

theorem sigma_not_spellingChar (before after : List Char) :
    lowercaseSigma before after ∉ spellingChars := by
  unfold lowercaseSigma
  split <;> decide

theorem isUpper_iff_val : c.isUpper ↔ c.val ≥ 'A'.val ∧ c.val ≤ 'Z'.val := by
  unfold Char.isUpper
  exact decide_eq_true_iff

theorem isUpper_iff : c.isUpper ↔ 0x41 ≤ c.toNat ∧ c.toNat ≤ 0x5A := by
  rw [isUpper_iff_val, ge_iff_le, UInt32.le_iff_toNat_le, UInt32.le_iff_toNat_le]
  rfl

theorem toNat_ofNat {n : Nat} (hpos : 0 < (Char.ofNat n).toNat) : (Char.ofNat n).toNat = n := by
  unfold Char.ofNat at hpos ⊢
  by_cases hvalid : n.isValidChar
  · rw [dif_pos hvalid]
    rfl
  · rw [dif_neg hvalid] at hpos
    exact absurd hpos (Nat.lt_irrefl 0)

theorem toNat_ofNat_of_lt {n : Nat} (h : n < 0xD800) : (Char.ofNat n).toNat = n := by
  unfold Char.ofNat
  rw [dif_pos (Or.inl h)]
  rfl

theorem toLower_of_isUpper (h : c.isUpper) : c.toLower = Char.ofNat (c.toNat + 32) := by
  obtain ⟨hfirst, hlast⟩ := isUpper_iff.mp h
  have hcode : c.val.toNat + 32 < UInt32.size := by
    show c.toNat + 32 < 4294967296
    omega
  apply Char.ext
  apply UInt32.toNat_inj.mp
  show c.toLower.val.toNat = (Char.ofNat (c.toNat + 32)).toNat
  unfold Char.toLower
  rw [toNat_ofNat_of_lt (by omega), dif_pos (isUpper_iff_val.mp h)]
  exact Nat.mod_eq_of_lt hcode

theorem toLower_of_not_isUpper (h : ¬ c.isUpper) : c.toLower = c := by
  unfold Char.toLower
  rw [dif_neg (mt isUpper_iff_val.mpr h)]

theorem lowercaseChar_of_isUpper (h : c.isUpper) : lowercaseChar c = [c.toLower] := by
  obtain ⟨hfirst, hlast⟩ := isUpper_iff.mp h
  have hdotted : c ≠ 'İ' := by
    rintro rfl
    exact absurd hlast (by decide)
  have hholds : LowercaseRun.holds ⟨0x41, 0x5A, 1, 32⟩ c.toNat := by
    simp [LowercaseRun.holds, hfirst, hlast, Nat.mod_one]
  have hrun : lowercaseRuns.find? (·.holds c.toNat) = some ⟨0x41, 0x5A, 1, 32⟩ :=
    List.find?_cons_of_pos hholds
  unfold lowercaseChar
  rw [if_neg hdotted, hrun, toLower_of_isUpper h]
  rfl

theorem lowercaseChar_of_toLower (h : c.toLower ∈ spellingChars) :
    lowercaseChar c = [c.toLower] := by
  by_cases hupper : c.isUpper
  · exact lowercaseChar_of_isUpper hupper
  · rw [toLower_of_not_isUpper hupper] at h ⊢
    exact lowercaseChar_spellingChar c h

theorem toNat_of_run {run : LowercaseRun}
    (h : Char.ofNat (c.toNat + run.shift).toNat ∈ spellingChars) :
    ((Char.ofNat (c.toNat + run.shift).toNat).toNat : Int) = c.toNat + run.shift := by
  have hpos := spellingChar_pos _ h
  have hcode := toNat_ofNat hpos
  omega

/-- Where the lowercase has only such characters, it is the one of ASCII. -/
theorem lowercaseChar_eq (h : ∀ d ∈ lowercaseChar c, d ∈ spellingChars) :
    lowercaseChar c = [c.toLower] := by
  by_cases hupper : c.isUpper
  · exact lowercaseChar_of_isUpper hupper
  · have hsame : lowercaseChar c = [c] := by
      unfold lowercaseChar at h ⊢
      by_cases hdotted : c = 'İ'
      · rw [if_pos hdotted] at h
        exact absurd (h '\u0307' (by decide)) (by decide)
      · rw [if_neg hdotted] at h ⊢
        cases hrun : lowercaseRuns.find? (·.holds c.toNat) with
        | none => rfl
        | some run =>
            simp only [hrun, List.forall_mem_singleton] at h
            obtain ⟨hfirst, hlast, -⟩ : run.first ≤ c.toNat ∧ c.toNat ≤ run.last ∧ _ := by
              simpa [LowercaseRun.holds, and_assoc] using List.find?_some hrun
            have hcode := toNat_of_run h
            obtain ⟨hcapital, hlastCapital, -⟩ :=
              run_of_spellingChar run (List.mem_of_find?_eq_some hrun) _ h (by omega) (by omega)
            exact absurd (isUpper_iff.mpr ⟨hcapital ▸ hfirst, hlastCapital ▸ hlast⟩) hupper
    rw [hsame, toLower_of_not_isUpper hupper]

theorem lowercaseFrom_eq_iff {target : List Char} (htarget : ∀ d ∈ target, d ∈ spellingChars)
    (before cs : List Char) :
    lowercaseFrom before cs = target ↔ cs.map Char.toLower = target := by
  induction cs generalizing before target with
  | nil => exact Iff.rfl
  | cons c rest ih =>
      rw [lowercaseFrom, List.map_cons]
      by_cases hsigma : c = 'Σ'
      · rw [if_pos hsigma]
        constructor
        · intro h
          exact absurd (htarget _ (h ▸ List.mem_cons_self)) (sigma_not_spellingChar before rest)
        · intro h
          have hmem : c.toLower ∈ spellingChars := htarget _ (h ▸ List.mem_cons_self)
          rw [hsigma] at hmem
          exact absurd hmem (by decide)
      · rw [if_neg hsigma]
        constructor
        · intro h
          have hc : lowercaseChar c = [c.toLower] := by
            apply lowercaseChar_eq
            intro d hd
            exact htarget d (h ▸ List.mem_append_left _ hd)
          rw [hc, List.singleton_append] at h
          rw [← h] at htarget ⊢
          rw [(ih (fun d hd => htarget d (List.mem_cons_of_mem _ hd)) (c :: before)).mp rfl]
        · intro h
          have hc : lowercaseChar c = [c.toLower] :=
            lowercaseChar_of_toLower (htarget _ (h ▸ List.mem_cons_self))
          rw [← h] at htarget
          rw [hc, List.singleton_append, ← h]
          rw [(ih (fun d hd => htarget d (List.mem_cons_of_mem _ hd)) (c :: before)).mpr rfl]

theorem lowercase_eq_iff (text target : String)
    (htarget : ∀ d ∈ target.toList, d ∈ spellingChars) :
    lowercase text = target ↔ text.toList.map Char.toLower = target.toList := by
  rw [← String.toList_inj, lowercase, String.toList_ofList]
  exact lowercaseFrom_eq_iff htarget [] text.toList

end Text

namespace CommandLine

/-- The characters are those of a word, with small or with capital letters. -/
def spells (word : String) (cs : List Char) : Bool := cs.map Char.toLower = word.toList

/-- The direction that an old spelling with one dash stands for. -/
def oldDirection? (word : String) : Option Direction :=
  if spells "-min" word.toList || spells "-minimize" word.toList then some .minimize
  else if spells "-max" word.toList || spells "-maximize" word.toList then some .maximize
  else none

theorem oldSpelling?_eq (word : String) : oldSpelling? word = oldDirection? word := by
  have hmin := Text.lowercase_eq_iff word "-min" (List.all_iff_forall_prop.mp (by decide))
  have hminimize := Text.lowercase_eq_iff word "-minimize" (List.all_iff_forall_prop.mp (by decide))
  have hmax := Text.lowercase_eq_iff word "-max" (List.all_iff_forall_prop.mp (by decide))
  have hmaximize := Text.lowercase_eq_iff word "-maximize" (List.all_iff_forall_prop.mp (by decide))
  simp only [oldDirection?, spells, ← hmin, ← hminimize, ← hmax, ← hmaximize]
  unfold oldSpelling?
  split <;> simp_all

end CommandLine

end LinProg
