import LinProg.Decimal.Binary64
import Mathlib

/-!
# The bits of a double

All bits are those of a double, but for the not-a-numbers, of which only one is. A double is known by
what its bits stand for, and negation acts on the sign alone.
-/

namespace LinProg.Binary64

open Float.Model Float.Model.UnpackedFloat

abbrev Bits : Type := BitVec Format.binary64.numBits

theorem toNat_unpackExponent (b : Bits) :
    (@unpackExponent Format.binary64 b).toNat = b.toNat / 2 ^ 52 % 2 ^ 11 := by
  rw [unpackExponent_def, BitVec.extractLsb'_toNat, Nat.shiftRight_eq_div_pow]

theorem toNat_unpackMantissa (b : Bits) :
    (@unpackMantissa Format.binary64 b).toNat = b.toNat % 2 ^ 52 := by
  rw [unpackMantissa_def, BitVec.extractLsb'_toNat, Nat.shiftRight_zero]

def flipSign (b : Bits) : Bits :=
  packComponents Format.binary64 (-Sign.ofBitVec (unpackSign b)) (unpackExponent b)
    (unpackMantissa b)

theorem unpack_flipSign (b : Bits) :
    unpack Format.binary64 (flipSign b) = (unpack Format.binary64 b).neg := by
  unfold flipSign UnpackedFloat.unpack
  simp only [unpackSign_packComponents, unpackExponent_packComponents,
    unpackMantissa_packComponents, Sign.ofBitVec_toBitVec]
  split_ifs <;> rfl

theorem unpack_of_isNaNBits {b : Bits} (h : @isNaNBits Format.binary64 b = true) :
    unpack Format.binary64 b = .notANumber := by
  obtain ⟨hexponent, hmantissa⟩ := of_decide_eq_true h
  unfold UnpackedFloat.unpack
  dsimp only
  rw [if_pos hexponent, if_neg hmantissa]

theorem unpack_pack_unpack (b : Bits) :
    unpack Format.binary64 (UnpackedFloat.pack Format.binary64 (unpack Format.binary64 b))
      = unpack Format.binary64 b := by
  rw [pack_unpack]
  split
  · rename_i h
    rw [unpack_packedNaN, unpack_of_isNaNBits h]
  · rfl

theorem toBits_ofBits {bits : UInt64}
    (h : @isNaNBits Format.binary64 bits.toBitVec = false) :
    (Float.ofBits bits).toBits = bits := by
  show UInt64.ofBitVec
    (UnpackedFloat.pack Format.binary64 (unpack Format.binary64 bits.toBitVec)) = bits
  rw [pack_unpack, h]
  rfl

theorem eq_of_unpack_eq {x y : Float} (h : x.toModel.unpack = y.toModel.unpack) : x = y := by
  have hback (z : Float) : z = ⟨Float.Model.pack z.toModel.unpack⟩ := (Float.ofBits_toBits z).symm
  rw [hback x, hback y, h]

theorem unpack_neg (x : Float) : (-x).toModel.unpack = x.toModel.unpack.neg := by
  show unpack Format.binary64 (UnpackedFloat.pack Format.binary64 x.toModel.unpack.neg) = _
  unfold Float.Model.unpack
  rw [← unpack_flipSign, unpack_pack_unpack]

theorem neg_neg (x : Float) : - -x = x := by
  apply eq_of_unpack_eq
  rw [unpack_neg, unpack_neg]
  cases x.toModel.unpack with
  | notANumber => rfl
  | infinity s => cases s <;> rfl
  | zero s => cases s <;> rfl
  | finite s m e hm => cases s <;> rfl

theorem abs_neg (x : Float) : (-x).abs = x.abs := by
  have hsame : (-x).toModel.unpack.abs = x.toModel.unpack.abs := by
    rw [unpack_neg]
    cases x.toModel.unpack <;> rfl
  exact congrArg (fun u => (⟨Float.Model.pack u⟩ : Float)) hsame

theorem lt_zero_iff (x : Float) : x < 0 ↔ x.toModel.unpack.lt (.zero .positive) = true := by
  show decide _ = true ↔ _
  rw [decide_eq_true_iff]
  rfl

theorem not_neg_lt_zero {x : Float} (h : x < 0) : ¬ -x < 0 := by
  rw [lt_zero_iff] at h ⊢
  rw [unpack_neg]
  cases hx : x.toModel.unpack with
  | notANumber => exact Bool.false_ne_true
  | zero s => cases s <;> exact Bool.false_ne_true
  | infinity s =>
      cases s with
      | negative => exact Bool.false_ne_true
      | positive =>
          rw [hx] at h
          exact absurd h Bool.false_ne_true
  | finite s m e hm =>
      cases s with
      | negative => exact Bool.false_ne_true
      | positive =>
          rw [hx] at h
          exact absurd h Bool.false_ne_true

/-- Only the not-a-number differs from itself. -/
theorem neg_lt_zero {x : Float} (hnumber : (x == x) = true) (hzero : ¬ (x == 0) = true)
    (h : ¬ x < 0) : -x < 0 := by
  have hbeq (y : Float) : (x == y) = x.toModel.unpack.beq y.toModel.unpack := rfl
  have hunpack : (0 : Float).toModel.unpack = .zero .positive := rfl
  rw [hbeq] at hnumber hzero
  rw [hunpack] at hzero
  rw [lt_zero_iff] at h ⊢
  rw [unpack_neg]
  cases hx : x.toModel.unpack with
  | notANumber =>
      rw [hx] at hnumber
      exact absurd hnumber Bool.false_ne_true
  | zero s =>
      rw [hx] at hzero
      cases s <;> exact absurd rfl hzero
  | infinity s =>
      cases s with
      | positive => rfl
      | negative =>
          rw [hx] at h
          exact absurd rfl h
  | finite s m e hm =>
      cases s with
      | positive => rfl
      | negative =>
          rw [hx] at h
          exact absurd rfl h

end LinProg.Binary64
