import Mathlib
import FlightFit.Binary

/-!
Module: FlightFit.Proofs.DoubleBits
Purpose: Doubles and their bits. The exponent in the bits of a double tells whether it is finite, and a finite
  double is its sign and its code.
Main exports: Binary.isFinite_iff, Binary.ofFloat_of_isFinite, Binary.ofFloat_of_not_isFinite
-/

namespace FlightFit.Binary

open Float.Model Float.Model.UnpackedFloat

/-! ### The exponent of a word -/

section Exponent

variable {b : BitVec Format.binary64.numBits}

theorem toNat_unpackExponent : (unpackExponent b).toNat = b.toNat / 2 ^ 52 % 2 ^ 11 := by
  simp [unpackExponent, BitVec.extractLsb_toNat, Nat.shiftRight_eq_div_pow]

theorem exponent_all_ones_iff : unpackExponent b = -1#_ ↔ b.toNat / 2 ^ 52 % 2 ^ 11 = 2047 := by
  rw [← BitVec.toNat_inj, toNat_unpackExponent]
  rfl

theorem isFinite_unpack : (unpack .binary64 b).isFinite = true ↔ b.toNat / 2 ^ 52 % 2 ^ 11 ≠ 2047 := by
  rw [Ne, ← exponent_all_ones_iff, UnpackedFloat.unpack]
  by_cases hones : unpackExponent b = -1#_
  · rw [if_pos hones]
    apply iff_of_false
    · split
      · exact Bool.false_ne_true
      · exact Bool.false_ne_true
    · exact fun hnot => hnot hones
  · rw [if_neg hones]
    apply iff_of_true
    · split
      · split
        · rfl
        · rfl
      · rfl
    · exact hones

end Exponent

/-! ### Doubles -/

theorem infinity_eq : BinaryFormat.double.infinity = 2047 * 2 ^ 52 := by
  decide

theorem isFinite_iff (x : Float) : x.isFinite = true ↔ x.toBits.toNat % signBit < BinaryFormat.double.infinity := by
  have hlt : x.toBits.toNat < 2 ^ 64 := x.toBits.toBitVec.isLt
  have hsign : signBit = 2 ^ 63 := rfl
  refine Iff.trans (isFinite_unpack (b := x.toBits.toBitVec)) ?_
  rw [UInt64.toNat_toBitVec, infinity_eq, hsign]
  omega

theorem signed_ofFloat (x : Float) : signed (signBit ≤ x.toBits.toNat) (x.toBits.toNat % signBit) = x := by
  have hlt : x.toBits.toNat < 2 ^ 64 := x.toBits.toBitVec.isLt
  have hsign : signBit = 2 ^ 63 := rfl
  have hbits : x.toBits.toNat % signBit + (if decide (signBit ≤ x.toBits.toNat) then signBit else 0) =
      x.toBits.toNat := by
    by_cases h : signBit ≤ x.toBits.toNat
    · simp only [h, decide_true, if_true]
      rw [hsign] at h ⊢
      omega
    · simp only [h, decide_false, Bool.false_eq_true, if_false]
      rw [hsign] at h ⊢
      omega
  rw [signed, hbits, UInt64.ofNat_toNat, Float.ofBits_toBits]

/-- A finite double is its sign and a code below infinity. -/
theorem ofFloat_of_isFinite {x : Float} (h : x.isFinite = true) :
    ∃ negative code, ofFloat x = .finite negative code ∧ code < BinaryFormat.double.infinity ∧
      signed negative code = x := by
  have hcode := (isFinite_iff x).1 h
  refine ⟨_, _, ?_, hcode, signed_ofFloat x⟩
  unfold ofFloat
  extract_lets bits negative code
  rw [if_neg (Nat.lt_asymm hcode), if_neg (Nat.ne_of_lt hcode)]

theorem ofFloat_of_not_isFinite {x : Float} (h : x.isFinite = false) (negative : Bool) (code : Nat) :
    ofFloat x ≠ .finite negative code := by
  have hcode : ¬x.toBits.toNat % signBit < BinaryFormat.double.infinity := by
    rw [← isFinite_iff, h]
    exact Bool.false_ne_true
  unfold ofFloat
  extract_lets bits negative code
  split
  · simp
  · next hle =>
      have heq : code = BinaryFormat.double.infinity := Nat.le_antisymm (Nat.not_lt.1 hle) (Nat.not_lt.1 hcode)
      rw [if_pos heq]
      simp

end FlightFit.Binary
