import LinProg.Decimal.Basic

/-!
# How decimals are spelled

A decimal is spelled by a sign that may be missing, digits with an optional point and an optional
exponent. The scanner takes a spelling off the front of a text, and every spelling is taken as a
whole unless what follows could belong to it.
-/

namespace LinProg.Decimal

/-- The sign of a number, and whether it negates. -/
inductive Sign : List Char → Bool → Prop
  | none : Sign [] false
  | plus : Sign ['+'] false
  | minus : Sign ['-'] true

def Digits (run : List Char) : Prop := ∀ c ∈ run, c.isDigit

/-- A whole number with an optional sign. -/
inductive Integer : List Char → Int → Prop
  | intro {sign run : List Char} {negative : Bool} :
      Sign sign negative → run ≠ [] → Digits run →
        Integer (sign ++ run) (if negative then -(valueOf run : Int) else valueOf run)

/-- Digits with an optional point, and the digits on either side of it. -/
inductive Figures : List Char → List Char → List Char → Prop
  | whole {run : List Char} : run ≠ [] → Digits run → Figures run run []
  | pointed {whole fraction : List Char} :
      whole ≠ [] ∨ fraction ≠ [] → Digits whole → Digits fraction →
        Figures (whole ++ '.' :: fraction) whole fraction

/-- An exponent, zero if it is missing. -/
inductive Exponent : List Char → Int → Prop
  | none : Exponent [] 0
  | some {e : Char} {token : List Char} {power : Int} :
      e = 'e' ∨ e = 'E' → Integer token power → Exponent (e :: token) power

inductive Spelled : List Char → Decimal → Prop
  | intro {sign figures whole fraction exponent : List Char} {negative : Bool} {power : Int} :
      Sign sign negative → Figures figures whole fraction → Exponent exponent power →
        Spelled (sign ++ (figures ++ exponent))
          ⟨negative, valueOf (whole ++ fraction), power - fraction.length⟩

/-! ### What is scanned is a spelling -/

theorem digits_digitRun (cs : List Char) : Digits (digitRun cs) :=
  fun _ hc => isDigit_of_mem_digitRun hc

theorem digitRun_append_drop (cs : List Char) :
    digitRun cs ++ cs.drop (digitRun cs).length = cs :=
  List.prefix_iff_eq_append.mp (List.takeWhile_prefix _)

theorem drop_of_eq_append {cs front rest : List Char} {n : Nat} (h : cs = front ++ rest)
    (hn : n = front.length) : cs.drop n = rest := by
  rw [h, hn, List.drop_left]

theorem exists_sign (cs : List Char) :
    ∃ sign rest, cs = sign ++ rest ∧ Sign sign (scanSign cs).1 ∧ (scanSign cs).2 = sign.length := by
  unfold scanSign
  split
  · next rest => exact ⟨['-'], rest, rfl, .minus, rfl⟩
  · next rest => exact ⟨['+'], rest, rfl, .plus, rfl⟩
  · exact ⟨[], cs, rfl, .none, rfl⟩

theorem exists_figures {cs : List Char} {m : Mantissa} (h : scanMantissa? cs = some m) :
    ∃ figures rest, cs = figures ++ rest ∧ Figures figures m.whole m.fraction ∧
      m.length = figures.length := by
  have hwhole := digitRun_append_drop cs
  unfold scanMantissa? at h
  dsimp only at h
  split at h
  · next rest hrest =>
      have hfraction := digitRun_append_drop rest
      split at h
      · cases h
      · next hne =>
          obtain rfl := Option.some.inj h
          refine ⟨digitRun cs ++ '.' :: digitRun rest, rest.drop (digitRun rest).length, ?_,
            .pointed ?_ (digits_digitRun cs) (digits_digitRun rest), ?_⟩
          · rw [List.append_assoc, List.cons_append, hfraction, ← hrest, hwhole]
          · rw [Bool.and_eq_true, Classical.not_and_iff_not_or_not] at hne
            simpa using hne
          · simp only [List.length_append, List.length_cons]
            omega
  · split at h
    · cases h
    · next hne =>
        obtain rfl := Option.some.inj h
        exact ⟨_, _, hwhole.symm, .whole (by simpa using hne) (digits_digitRun cs), rfl⟩

theorem exists_exponent (cs : List Char) :
    ∃ exponent rest, cs = exponent ++ rest ∧ Exponent exponent (scanExponent cs).1 ∧
      (scanExponent cs).2 = exponent.length := by
  have hmissing : ∃ exponent rest, cs = exponent ++ rest ∧ Exponent exponent (0, 0).1 ∧
      ((0 : Int), 0).2 = exponent.length := ⟨[], cs, rfl, .none, rfl⟩
  cases cs with
  | nil => exact hmissing
  | cons e cs =>
      rw [scanExponent]
      split
      · next he =>
          obtain ⟨sign, rest, hcs, hsign, hlength⟩ := exists_sign cs
          have hrun := digitRun_append_drop rest
          dsimp only
          rw [drop_of_eq_append hcs hlength]
          split
          · exact hmissing
          · next hne =>
              refine ⟨e :: (sign ++ digitRun rest), rest.drop (digitRun rest).length, ?_,
                .some he (.intro hsign (by simpa using hne) (digits_digitRun rest)), ?_⟩
              · rw [List.cons_append, List.append_assoc, hrun, ← hcs]
              · simp only [List.length_append, List.length_cons, hlength]
                omega
      · exact hmissing

theorem exists_spelled {cs : List Char} {d : Decimal} {n : Nat} (h : scan cs = some (d, n)) :
    ∃ token rest, cs = token ++ rest ∧ Spelled token d ∧ n = token.length := by
  obtain ⟨sign, behind, hcs, hsign, hlength⟩ := exists_sign cs
  unfold scan at h
  dsimp only at h
  rw [drop_of_eq_append hcs hlength] at h
  obtain ⟨m, hm, heq⟩ := Option.map_eq_some_iff.mp h
  obtain ⟨figures, rest, hbehind, hfigures, hsize⟩ := exists_figures hm
  have hmantissa : cs = (sign ++ figures) ++ rest := by rw [hcs, hbehind, List.append_assoc]
  have hdrop : cs.drop ((scanSign cs).2 + m.length) = rest :=
    drop_of_eq_append hmantissa (by rw [hlength, hsize, List.length_append])
  rw [hdrop] at heq
  obtain ⟨exponent, last, hrest, hexponent, hpower⟩ := exists_exponent rest
  obtain ⟨rfl, rfl⟩ := Prod.mk.inj heq
  refine ⟨_, last, ?_, .intro hsign hfigures hexponent, ?_⟩
  · rw [hmantissa, hrest]
    simp only [List.append_assoc]
  · simp only [List.length_append, hlength, hsize, hpower, Nat.add_assoc]

/-! ### Spellings are scanned as a whole -/

/-- The text does not go on with a character that a number in front of it could take in. -/
def EndsNumber (rest : List Char) : Prop :=
  ∀ c ∈ rest.head?, c.isDigit = false ∧ c ≠ '.' ∧ c ≠ 'e' ∧ c ≠ 'E'

def EndsDigits (rest : List Char) : Prop := ∀ c ∈ rest.head?, c.isDigit = false

/-- No sign comes next. -/
def Unsigned (text : List Char) : Prop := ∀ c ∈ text.head?, c ≠ '-' ∧ c ≠ '+'

theorem EndsNumber.endsDigits {rest : List Char} (h : EndsNumber rest) : EndsDigits rest :=
  fun c hc => (h c hc).1

theorem digitRun_append {run rest : List Char} (hrun : Digits run) (hrest : EndsDigits rest) :
    digitRun (run ++ rest) = run := by
  unfold digitRun
  rw [List.takeWhile_append_of_pos hrun]
  cases rest with
  | nil => simp
  | cons c rest =>
      have hc : c.isDigit = false := hrest c rfl
      simp [hc]

theorem Digits.unsigned {run : List Char} (hrun : Digits run) (hne : run ≠ []) (rest : List Char) :
    Unsigned (run ++ rest) := by
  cases run with
  | nil => exact absurd rfl hne
  | cons d run =>
      intro c hc
      obtain rfl : d = c := Option.some.inj hc
      have hdigit := hrun d List.mem_cons_self
      constructor <;> rintro rfl <;> exact absurd hdigit (by decide)

theorem scanSign_append {sign : List Char} {negative : Bool} (hsign : Sign sign negative)
    {rest : List Char} (hrest : Unsigned rest) :
    scanSign (sign ++ rest) = (negative, sign.length) := by
  cases hsign with
  | plus => rfl
  | minus => rfl
  | none =>
      rw [List.nil_append, scanSign]
      · rfl
      · rintro tail rfl
        exact (hrest '-' rfl).1 rfl
      · rintro tail rfl
        exact (hrest '+' rfl).2 rfl

theorem scanMantissa?_append {figures whole fraction : List Char}
    (hfigures : Figures figures whole fraction) {rest : List Char} (hdigits : EndsDigits rest)
    (hpoint : ∀ c ∈ rest.head?, c ≠ '.') :
    scanMantissa? (figures ++ rest) = some ⟨whole, fraction, figures.length⟩ := by
  unfold scanMantissa?
  cases hfigures with
  | whole hne hrun =>
      rw [digitRun_append hrun hdigits]
      dsimp only
      rw [List.drop_left]
      split
      · exact absurd rfl (hpoint '.' rfl)
      · simp [hne]
  | pointed hne hwhole hfraction =>
      have hstop : EndsDigits ('.' :: fraction ++ rest) := by
        intro c hc
        obtain rfl : '.' = c := Option.some.inj hc
        decide
      rw [List.append_assoc, digitRun_append hwhole hstop]
      dsimp only
      rw [List.drop_left, List.cons_append]
      simp only [digitRun_append hfraction hdigits]
      have hempty : (whole.isEmpty && fraction.isEmpty) = false := by
        rw [Bool.and_eq_false_iff]
        simpa using hne
      have hlength : (whole ++ '.' :: fraction).length = whole.length + 1 + fraction.length := by
        simp only [List.length_append, List.length_cons]
        omega
      rw [hempty, hlength]
      rfl

theorem scanExponent_append {exponent : List Char} {power : Int} (h : Exponent exponent power)
    {rest : List Char} (hrest : EndsNumber rest) :
    scanExponent (exponent ++ rest) = (power, exponent.length) := by
  cases h with
  | none =>
      cases rest with
      | nil => rfl
      | cons c rest =>
          obtain ⟨-, -, he, hE⟩ := hrest c rfl
          simp [scanExponent, he, hE]
  | @some e _ _ he hinteger =>
      obtain @⟨sign, run, negative, hsign, hne, hrun⟩ := hinteger
      have hscan := scanSign_append hsign (hrun.unsigned hne rest)
      have hempty : run.isEmpty = false := by simpa using hne
      rw [List.cons_append, List.append_assoc, scanExponent, if_pos he, hscan]
      dsimp only
      rw [List.drop_left, digitRun_append hrun hrest.endsDigits, hempty]
      have hlength : (e :: (sign ++ run)).length = 1 + sign.length + run.length := by
        simp only [List.length_cons, List.length_append]
        omega
      rw [hlength]
      rfl

theorem Exponent.endsFigures {exponent : List Char} {power : Int} (h : Exponent exponent power)
    {rest : List Char} (hrest : EndsNumber rest) :
    ∀ c ∈ (exponent ++ rest).head?, c.isDigit = false ∧ c ≠ '.' := by
  cases h with
  | none => exact fun c hc => ⟨(hrest c hc).1, (hrest c hc).2.1⟩
  | some he =>
      intro c hc
      obtain rfl := Option.some.inj hc
      rcases he with rfl | rfl <;> decide

/-- A mantissa starts with a digit or with the point. -/
theorem Figures.unsigned {figures whole fraction : List Char} (h : Figures figures whole fraction)
    (rest : List Char) : Unsigned (figures ++ rest) := by
  cases h with
  | whole hne hrun => exact hrun.unsigned hne rest
  | pointed _ hwhole =>
      by_cases hempty : whole = []
      · subst hempty
        intro c hc
        obtain rfl : '.' = c := Option.some.inj hc
        decide
      · rw [List.append_assoc]
        exact hwhole.unsigned hempty _

theorem scan_spelled {token : List Char} {d : Decimal} (h : Spelled token d) {rest : List Char}
    (hrest : EndsNumber rest) : scan (token ++ rest) = some (d, token.length) := by
  cases h with
  | @intro sign figures whole fraction exponent negative power hsign hfigures hexponent =>
      have hends := hexponent.endsFigures hrest
      have hscan := scanSign_append hsign (hfigures.unsigned (exponent ++ rest))
      have hmantissa := scanMantissa?_append hfigures (fun c hc => (hends c hc).1)
        fun c hc => (hends c hc).2
      have hsplit :
          sign ++ (figures ++ exponent) ++ rest = sign ++ (figures ++ (exponent ++ rest)) := by
        simp only [List.append_assoc]
      have hdrop : (sign ++ (figures ++ (exponent ++ rest))).drop (sign.length + figures.length)
          = exponent ++ rest := by
        rw [List.drop_length_add_append, List.drop_left]
      unfold scan
      rw [hsplit, hscan]
      dsimp only
      rw [List.drop_left, hmantissa, Option.map_some, hdrop, scanExponent_append hexponent hrest]
      simp only [List.length_append, Nat.add_assoc]

end LinProg.Decimal
