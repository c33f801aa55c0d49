import Mathlib.Algebra.Ring.Nat
import FlightFit.Decimal.Basic

/-!
Module: FlightFit.Proofs.NearestDouble
Purpose: Rounding a fraction to a code depends on its value alone. `BinaryFormat.Reaches` compares a
  fraction with a power of two, which settles the exponent that is chosen; the code of a double's own value
  is the code itself; and the code of a decimal does not change when zeros are put at its end.
Main exports: roundDiv_mul, BinaryFormat.Reaches, BinaryFormat.nearest_mul, BinaryFormat.nearest_fraction,
  BinaryFormat.nearest_eq_infinity, BinaryFormat.nearest_eq_zero, Decimal.code_eq_nearest,
  Decimal.code_mul_pow
-/

namespace FlightFit

theorem Tie.raises_mul (tie : Tie) (low twiceRest den : Nat) {k : Nat} (hk : 0 < k) :
    tie.raises low (k * twiceRest) (k * den) = tie.raises low twiceRest den := by
  unfold raises
  simp only [Nat.mul_lt_mul_left hk]

theorem roundDiv_mul (tie : Tie) (num den : Nat) {k : Nat} (hk : 0 < k) :
    roundDiv tie (k * num) (k * den) = roundDiv tie num den := by
  have htwice : 2 * (k * (num % den)) = k * (2 * (num % den)) := Nat.mul_left_comm 2 k _
  simp only [roundDiv, Nat.mul_div_mul_left num den hk, Nat.mul_mod_mul_left, htwice, tie.raises_mul _ _ _ hk]

theorem roundDiv_of_dvd (tie : Tie) (n : Nat) {den : Nat} (hden : 0 < den) : roundDiv tie (n * den) den = n := by
  simp [roundDiv, Tie.raises, Nat.mul_div_cancel n hden, hden]

theorem le_roundDiv (tie : Tie) (num den : Nat) : num / den ≤ roundDiv tie num den := by
  simp only [roundDiv]
  split
  · exact Nat.le_succ _
  · exact Nat.le_refl _

/-- What rounds to something else than zero is at least one half. -/
theorem le_of_roundDiv_ne_zero {tie : Tie} {num den : Nat} (h : roundDiv tie num den ≠ 0) : den ≤ 2 * num := by
  apply Classical.byContradiction
  intro hlt
  have hdiv : num / den = 0 := Nat.div_eq_of_lt (by omega)
  have hmod : num % den = num := Nat.mod_eq_of_lt (by omega)
  simp [roundDiv, Tie.raises, hdiv, hmod, Nat.not_le.1 hlt] at h

namespace BinaryFormat

variable (f : BinaryFormat)

/-! ### The exponent of a fraction -/

/-- A fraction is at least the least one whose significand is filled at an exponent. -/
def Reaches (num den : Nat) (e : Int) : Prop :=
  den * 2 ^ (e.toNat + f.fractionBits) ≤ num * 2 ^ (-e).toNat

theorem reaches_iff {num den a b : Nat} {e : Int} (h : e = (a : Int) - b) :
    f.Reaches num den e ↔ den * 2 ^ (a + f.fractionBits) ≤ num * 2 ^ b := by
  obtain ⟨c, rfl, rfl⟩ : ∃ c, a = e.toNat + c ∧ b = (-e).toNat + c := ⟨a - e.toNat, by omega, by omega⟩
  rw [Nat.add_right_comm, Nat.pow_add _ _ c, Nat.pow_add _ _ c, ← Nat.mul_assoc, ← Nat.mul_assoc,
    Nat.mul_le_mul_right_iff (Nat.two_pow_pos c)]
  exact Iff.rfl

theorem reaches_mul {num den k : Nat} (hk : 0 < k) (e : Int) :
    f.Reaches (k * num) (k * den) e ↔ f.Reaches num den e := by
  unfold Reaches
  rw [Nat.mul_assoc, Nat.mul_assoc, Nat.mul_le_mul_left_iff hk]

variable {f}

theorem Reaches.mono {num den : Nat} {e e' : Int} (h : f.Reaches num den e) (hle : e' ≤ e) :
    f.Reaches num den e' := by
  have hsplit : e' = (e.toNat : Int) - ((-e).toNat + (e - e').toNat : Nat) := by omega
  rw [f.reaches_iff hsplit, Nat.pow_add _ (-e).toNat, ← Nat.mul_assoc]
  exact Nat.le_trans h (Nat.le_mul_of_pos_right _ (Nat.two_pow_pos _))

/-- The logarithms of both parts tell the exponent of a fraction up to one. -/
theorem reaches_log2 {num den : Nat} (hnum : num ≠ 0) (hden : den ≠ 0) :
    f.Reaches num den ((num.log2 : Int) - den.log2 - f.fractionBits - 1) ∧
      ¬ f.Reaches num den ((num.log2 : Int) - den.log2 - f.fractionBits + 1) := by
  have hlow : 2 ^ num.log2 ≤ num := Nat.log2_self_le hnum
  have hhigh : num < 2 ^ (num.log2 + 1) := Nat.lt_log2_self
  have hlow' : 2 ^ den.log2 ≤ den := Nat.log2_self_le hden
  have hhigh' : den < 2 ^ (den.log2 + 1) := Nat.lt_log2_self
  constructor
  · have hsplit : (num.log2 : Int) - den.log2 - f.fractionBits - 1 =
        (num.log2 : Int) - (den.log2 + 1 + f.fractionBits : Nat) := by omega
    rw [f.reaches_iff hsplit]
    calc den * 2 ^ (num.log2 + f.fractionBits)
        ≤ 2 ^ (den.log2 + 1) * 2 ^ (num.log2 + f.fractionBits) := Nat.mul_le_mul_right _ (Nat.le_of_lt hhigh')
      _ = 2 ^ num.log2 * 2 ^ (den.log2 + 1 + f.fractionBits) := by
          rw [← Nat.pow_add, ← Nat.pow_add]
          congr 1
          omega
      _ ≤ num * 2 ^ (den.log2 + 1 + f.fractionBits) := Nat.mul_le_mul_right _ hlow
  · have hsplit : (num.log2 : Int) - den.log2 - f.fractionBits + 1 =
        (num.log2 + 1 : Nat) - (den.log2 + f.fractionBits : Nat) := by omega
    rw [f.reaches_iff hsplit, Nat.not_le]
    calc num * 2 ^ (den.log2 + f.fractionBits)
        < 2 ^ (num.log2 + 1) * 2 ^ (den.log2 + f.fractionBits) :=
          Nat.mul_lt_mul_of_pos_right hhigh (Nat.two_pow_pos _)
      _ = 2 ^ den.log2 * 2 ^ (num.log2 + 1 + f.fractionBits) := by
          rw [← Nat.pow_add, ← Nat.pow_add]
          congr 1
          omega
      _ ≤ den * 2 ^ (num.log2 + 1 + f.fractionBits) := Nat.mul_le_mul_right _ hlow'

/-- The greatest exponent that a fraction reaches is the one that is taken, unless it is too low. -/
theorem exists_greatest_exponent {num den : Nat} (hnum : num ≠ 0) (hden : den ≠ 0) :
    ∃ e, f.Reaches num den e ∧ ¬ f.Reaches num den (e + 1) ∧
      f.exponentOf num den = if e < f.least then f.least else e := by
  obtain ⟨hbelow, habove⟩ := reaches_log2 (f := f) hnum hden
  unfold exponentOf
  generalize (num.log2 : Int) - den.log2 - f.fractionBits = guess at hbelow habove ⊢
  have hshift : (Nat.shiftLeft den (guess.toNat + f.fractionBits) ≤ Nat.shiftLeft num (-guess).toNat) ↔
      f.Reaches num den guess := by
    change den <<< _ ≤ num <<< _ ↔ _
    rw [Nat.shiftLeft_eq, Nat.shiftLeft_eq]
    exact Iff.rfl
  by_cases hfilled : Nat.shiftLeft den (guess.toNat + f.fractionBits) ≤ Nat.shiftLeft num (-guess).toNat
  · exact ⟨guess, hshift.1 hfilled, habove, by simp only [if_pos hfilled]⟩
  · have hnot : ¬ f.Reaches num den (guess - 1 + 1) := by
      rw [Int.sub_add_cancel]
      exact fun h => hfilled (hshift.2 h)
    exact ⟨guess - 1, hbelow, hnot, by simp only [if_neg hfilled]⟩

theorem exponentOf_spec {num den : Nat} (hnum : num ≠ 0) (hden : den ≠ 0) :
    f.least ≤ f.exponentOf num den ∧ ¬ f.Reaches num den (f.exponentOf num den + 1) ∧
      (f.least < f.exponentOf num den → f.Reaches num den (f.exponentOf num den)) := by
  obtain ⟨e, hreach, hnot, heq⟩ := exists_greatest_exponent (f := f) hnum hden
  rw [heq]
  split
  · next hless =>
      exact ⟨Int.le_refl _, fun h => hnot (h.mono (by omega)), fun h => absurd h (Int.lt_irrefl _)⟩
  · next hless => exact ⟨Int.not_lt.1 hless, hnot, fun _ => hreach⟩

/-- The exponent of a fraction is the greatest that it reaches, or the least one that there is. -/
theorem exponentOf_eq {num den : Nat} {e : Int} (hnum : num ≠ 0) (hden : den ≠ 0) (hleast : f.least ≤ e)
    (hnot : ¬ f.Reaches num den (e + 1)) (hreach : f.least < e → f.Reaches num den e) :
    f.exponentOf num den = e := by
  obtain ⟨hleast', hnot', hreach'⟩ := exponentOf_spec (f := f) hnum hden
  rcases Int.lt_trichotomy (f.exponentOf num den) e with hlt | heq | hgt
  · exact absurd ((hreach (by omega)).mono (by omega)) hnot'
  · exact heq
  · exact absurd ((hreach' (by omega)).mono (by omega)) hnot

theorem exponentOf_mul {num den k : Nat} (hnum : num ≠ 0) (hden : den ≠ 0) (hk : 0 < k) :
    f.exponentOf (k * num) (k * den) = f.exponentOf num den := by
  obtain ⟨hleast, hnot, hreach⟩ := exponentOf_spec (f := f) hnum hden
  have hk' : k ≠ 0 := Nat.pos_iff_ne_zero.1 hk
  refine exponentOf_eq (Nat.mul_ne_zero hk' hnum) (Nat.mul_ne_zero hk' hden) hleast ?_ ?_
  · rw [reaches_mul f hk]
    exact hnot
  · rw [reaches_mul f hk]
    exact hreach

/-! ### The code of a fraction -/

/-- The significand of a fraction at its exponent. -/
theorem nearest_of_ne_zero {num den : Nat} (hnum : num ≠ 0) :
    f.nearest num den =
      let e := f.exponentOf num den
      let code := (e - f.least).toNat * 2 ^ f.fractionBits +
        roundDiv .toEven (num * 2 ^ (-e).toNat) (den * 2 ^ e.toNat)
      if f.infinity < code then f.infinity else code := by
  unfold nearest
  rw [if_neg hnum]
  have hshift : ∀ a b, Nat.shiftLeft a b = a * 2 ^ b := fun a b => Nat.shiftLeft_eq a b
  simp only [hshift]

theorem nearest_mul (num : Nat) {den k : Nat} (hden : den ≠ 0) (hk : 0 < k) :
    f.nearest (k * num) (k * den) = f.nearest num den := by
  by_cases hnum : num = 0
  · simp [hnum, nearest]
  · have hk' : k ≠ 0 := Nat.pos_iff_ne_zero.1 hk
    rw [nearest_of_ne_zero hnum, nearest_of_ne_zero (Nat.mul_ne_zero hk' hnum), exponentOf_mul hnum hden hk]
    simp only [Nat.mul_assoc, roundDiv_mul _ _ _ hk]

/-- Equal fractions have one code. -/
theorem nearest_congr {num den num' den' : Nat} (hden : den ≠ 0) (hden' : den' ≠ 0)
    (h : num * den' = num' * den) : f.nearest num den = f.nearest num' den' := by
  calc f.nearest num den = f.nearest (den' * num) (den' * den) :=
        (nearest_mul num hden (Nat.pos_iff_ne_zero.2 hden')).symm
    _ = f.nearest (den * num') (den * den') := by
        rw [Nat.mul_comm den' num, h, Nat.mul_comm num' den, Nat.mul_comm den' den]
    _ = f.nearest num' den' := nearest_mul num' hden' (Nat.pos_iff_ne_zero.2 hden)

theorem nearest_le_infinity (num den : Nat) : f.nearest num den ≤ f.infinity := by
  by_cases hnum : num = 0
  · simp [hnum, nearest]
  · rw [nearest_of_ne_zero hnum]
    simp only
    split
    · exact Nat.le_refl _
    · next h => exact Nat.not_lt.1 h

/-! ### The value of a code -/

theorem exponent_of_lt {code : Nat} (h : code < 2 ^ f.fractionBits) : f.exponent code = f.least := by
  have hdiv : code / 2 ^ f.fractionBits = 0 := Nat.div_eq_of_lt h
  simp [exponent, hdiv]

theorem exponent_of_le {code : Nat} (h : 2 ^ f.fractionBits ≤ code) :
    f.exponent code = f.least + (code / 2 ^ f.fractionBits : Nat) - 1 := by
  have hdiv : 1 ≤ code / 2 ^ f.fractionBits := (Nat.one_le_div_iff (Nat.two_pow_pos _)).2 h
  change f.least + (code / 2 ^ f.fractionBits - 1 : Nat) = _
  omega

theorem significand_of_lt {code : Nat} (h : code < 2 ^ f.fractionBits) : f.significand code = code := if_pos h

theorem significand_of_le {code : Nat} (h : 2 ^ f.fractionBits ≤ code) :
    f.significand code = code % 2 ^ f.fractionBits + 2 ^ f.fractionBits :=
  if_neg (Nat.not_lt.2 h)

theorem significand_lt (code : Nat) : f.significand code < 2 ^ (f.fractionBits + 1) := by
  have hpos := Nat.two_pow_pos f.fractionBits
  rw [Nat.pow_succ]
  rcases Nat.lt_or_ge code (2 ^ f.fractionBits) with h | h
  · rw [significand_of_lt h]
    omega
  · rw [significand_of_le h]
    have hmod := Nat.mod_lt code hpos
    omega

theorem least_le_exponent (code : Nat) : f.least ≤ f.exponent code := by
  unfold exponent
  omega

/-- A code is put together from its exponent and its significand. -/
theorem exponent_significand (code : Nat) :
    (f.exponent code - f.least).toNat * 2 ^ f.fractionBits + f.significand code = code := by
  rcases Nat.lt_or_ge code (2 ^ f.fractionBits) with h | h
  · rw [exponent_of_lt h, significand_of_lt h, Int.sub_self]
    simp
  · have hdiv : 1 ≤ code / 2 ^ f.fractionBits := (Nat.one_le_div_iff (Nat.two_pow_pos _)).2 h
    have hexponent : (f.exponent code - f.least).toNat = code / 2 ^ f.fractionBits - 1 := by
      rw [exponent_of_le h]
      omega
    rw [hexponent, significand_of_le h, Nat.sub_mul, Nat.one_mul]
    have hle : 2 ^ f.fractionBits ≤ code / 2 ^ f.fractionBits * 2 ^ f.fractionBits :=
      Nat.le_mul_of_pos_left _ hdiv
    have hsum := Nat.div_add_mod' code (2 ^ f.fractionBits)
    omega

theorem fraction_eq (code : Nat) :
    f.fraction code =
      (f.significand code * 2 ^ (f.exponent code).toNat, 2 ^ (-(f.exponent code)).toNat) := by
  have hshift : ∀ a b, Nat.shiftLeft a b = a * 2 ^ b := fun a b => Nat.shiftLeft_eq a b
  simp only [fraction, hshift, Nat.one_mul]

theorem significand_ne_zero {code : Nat} (h : code ≠ 0) : f.significand code ≠ 0 := by
  rcases Nat.lt_or_ge code (2 ^ f.fractionBits) with hlt | hge
  · rwa [significand_of_lt hlt]
  · have hpos := Nat.two_pow_pos f.fractionBits
    rw [significand_of_le hge]
    omega

theorem reaches_fraction_iff {code a b : Nat} {e : Int} (h : e = f.exponent code + a - b) :
    f.Reaches (f.fraction code).1 (f.fraction code).2 e ↔
      2 ^ (a + f.fractionBits) ≤ f.significand code * 2 ^ b := by
  have hsplit : e = ((f.exponent code).toNat + a : Nat) - ((-(f.exponent code)).toNat + b : Nat) := by omega
  rw [fraction_eq, f.reaches_iff hsplit]
  have hleft : 2 ^ (-(f.exponent code)).toNat * 2 ^ ((f.exponent code).toNat + a + f.fractionBits) =
      2 ^ ((f.exponent code).toNat + (-(f.exponent code)).toNat) * 2 ^ (a + f.fractionBits) := by
    rw [← Nat.pow_add, ← Nat.pow_add]
    congr 1
    omega
  have hright : f.significand code * 2 ^ (f.exponent code).toNat * 2 ^ ((-(f.exponent code)).toNat + b) =
      2 ^ ((f.exponent code).toNat + (-(f.exponent code)).toNat) * (f.significand code * 2 ^ b) := by
    rw [pow_add, pow_add]
    ac_rfl
  rw [hleft, hright, Nat.mul_le_mul_left_iff (Nat.two_pow_pos _)]

/-- A double is the one nearest to its own value. -/
theorem nearest_fraction {code : Nat} (hcode : code ≤ f.infinity) :
    f.nearest (f.fraction code).1 (f.fraction code).2 = code := by
  by_cases hzero : code = 0
  · rw [hzero]
    simp [nearest, fraction_eq, significand_of_lt (Nat.two_pow_pos f.fractionBits)]
  · have hnum : (f.fraction code).1 ≠ 0 := by
      rw [fraction_eq]
      exact Nat.mul_ne_zero (significand_ne_zero hzero) (Nat.pos_iff_ne_zero.1 (Nat.two_pow_pos _))
    have hden : (f.fraction code).2 ≠ 0 := by
      rw [fraction_eq]
      exact Nat.pos_iff_ne_zero.1 (Nat.two_pow_pos _)
    have hexponent : f.exponentOf (f.fraction code).1 (f.fraction code).2 = f.exponent code := by
      refine exponentOf_eq hnum hden (least_le_exponent code) ?_ fun hless => ?_
      · have hsplit : f.exponent code + 1 = f.exponent code + (1 : Nat) - (0 : Nat) := by omega
        rw [reaches_fraction_iff hsplit, Nat.not_le, Nat.pow_zero, Nat.mul_one, Nat.add_comm]
        exact significand_lt code
      · have hsplit : f.exponent code = f.exponent code + (0 : Nat) - (0 : Nat) := by omega
        have hnormal : 2 ^ f.fractionBits ≤ code := by
          apply Classical.byContradiction
          intro hnot
          rw [exponent_of_lt (Nat.not_le.1 hnot)] at hless
          exact Int.lt_irrefl _ hless
        rw [reaches_fraction_iff hsplit, significand_of_le hnormal]
        simp
    have hround : roundDiv .toEven ((f.fraction code).1 * 2 ^ (-(f.exponent code)).toNat)
        ((f.fraction code).2 * 2 ^ (f.exponent code).toNat) = f.significand code := by
      rw [fraction_eq, Nat.mul_assoc, Nat.mul_comm (2 ^ (-(f.exponent code)).toNat)]
      exact roundDiv_of_dvd _ _ (Nat.mul_pos (Nat.two_pow_pos _) (Nat.two_pow_pos _))
    rw [nearest_of_ne_zero hnum, hexponent]
    simp only [hround, exponent_significand, Nat.not_lt.2 hcode, if_false]

/-! ### Values out of reach -/

/-- What reaches the exponent after the greatest one is rounded to infinity. -/
theorem nearest_eq_infinity {num den : Nat} (hnum : num ≠ 0) (hden : den ≠ 0)
    (h : f.Reaches num den (f.least + (2 ^ f.exponentBits - 2 : Nat))) : f.nearest num den = f.infinity := by
  obtain ⟨hleast, hnot, hreach⟩ := exponentOf_spec (f := f) hnum hden
  have htop : f.least + (2 ^ f.exponentBits - 2 : Nat) ≤ f.exponentOf num den := by
    apply Classical.byContradiction
    intro hless
    exact hnot (h.mono (by omega))
  have hfilled : f.Reaches num den (f.exponentOf num den) := by
    rcases Int.lt_or_eq_of_le hleast with hless | heq
    · exact hreach hless
    · exact h.mono (by omega)
  have hsignificand : 2 ^ f.fractionBits ≤ roundDiv .toEven (num * 2 ^ (-(f.exponentOf num den)).toNat)
      (den * 2 ^ (f.exponentOf num den).toNat) := by
    refine Nat.le_trans ?_ (le_roundDiv _ _ _)
    have hpos : 0 < den * 2 ^ (f.exponentOf num den).toNat :=
      Nat.mul_pos (Nat.pos_iff_ne_zero.2 hden) (Nat.two_pow_pos _)
    rw [Nat.le_div_iff_mul_le hpos, Nat.mul_left_comm, ← Nat.pow_add, Nat.add_comm]
    exact hfilled
  refine Nat.le_antisymm (nearest_le_infinity num den) ?_
  rw [nearest_of_ne_zero hnum]
  simp only
  split
  · exact Nat.le_refl _
  · calc f.infinity = (2 ^ f.exponentBits - 1) * 2 ^ f.fractionBits := rfl
      _ ≤ ((f.exponentOf num den - f.least).toNat + 1) * 2 ^ f.fractionBits :=
          Nat.mul_le_mul_right _ (by omega)
      _ ≤ _ := by
          rw [Nat.succ_mul]
          exact Nat.add_le_add_left hsignificand _

/-- What is less than half the least positive value is rounded to zero. -/
theorem nearest_eq_zero {num den : Nat} (hden : den ≠ 0)
    (h : 2 * (num * 2 ^ (-f.least).toNat) < den * 2 ^ f.least.toNat) : f.nearest num den = 0 := by
  by_cases hnum : num = 0
  · simp [hnum, nearest]
  · have hexponent : f.exponentOf num den = f.least := by
      refine exponentOf_eq hnum hden (Int.le_refl _) (fun hreach => ?_) fun hless => absurd hless (Int.lt_irrefl _)
      have hleast : den * 2 ^ (f.least.toNat + f.fractionBits) ≤ num * 2 ^ (-f.least).toNat :=
        hreach.mono (by omega)
      have hle : den * 2 ^ f.least.toNat ≤ den * 2 ^ (f.least.toNat + f.fractionBits) :=
        Nat.mul_le_mul_left _ (Nat.pow_le_pow_right (by decide) (Nat.le_add_right _ _))
      omega
    have hround : roundDiv .toEven (num * 2 ^ (-f.least).toNat) (den * 2 ^ f.least.toNat) = 0 := by
      apply Classical.byContradiction
      intro hne
      exact Nat.not_lt.2 (le_of_roundDiv_ne_zero hne) h
    rw [nearest_of_ne_zero hnum, hexponent]
    simp [hround]

end BinaryFormat

/-! ### Decimals -/

namespace Decimal

open BinaryFormat

/-- A decimal past the reach is larger than every double. -/
theorem two_pow_top_le : 2 ^ (972 + double.fractionBits) ≤ 10 ^ reach.toNat := by decide +kernel

/-- A decimal below the reach is smaller than every double. -/
theorem two_pow_bottom_le : 2 * 2 ^ (-double.least).toNat ≤ 10 ^ reach.toNat := by decide +kernel

theorem ten_pow_ne_zero (n : Nat) : 10 ^ n ≠ 0 := Nat.pos_iff_ne_zero.1 (Nat.pow_pos (by decide))

/-- The bounds on the exponent do not matter: beyond them a decimal is rounded to infinity or to zero. -/
theorem code_eq_nearest {digits : Nat} (hdigits : digits ≠ 0) (exponent : Int) :
    code digits exponent = double.nearest (digits * 10 ^ exponent.toNat) (10 ^ (-exponent).toNat) := by
  unfold code
  rw [if_neg hdigits]
  split
  · next hlarge =>
      have hreach : reach = 400 := rfl
      have hden : (-exponent).toNat = 0 := by omega
      have htop : double.least + (2 ^ double.exponentBits - 2 : Nat) = (972 : Nat) - (0 : Nat) := by decide
      refine (nearest_eq_infinity (Nat.mul_ne_zero hdigits (ten_pow_ne_zero _)) (ten_pow_ne_zero _) ?_).symm
      rw [double.reaches_iff htop, hden, pow_zero, pow_zero, one_mul, mul_one]
      calc 2 ^ (972 + double.fractionBits) ≤ 10 ^ reach.toNat := two_pow_top_le
        _ ≤ 10 ^ exponent.toNat := Nat.pow_le_pow_right (by decide) (by omega)
        _ ≤ digits * 10 ^ exponent.toNat := Nat.le_mul_of_pos_left _ (Nat.pos_iff_ne_zero.2 hdigits)
  · split
    · next hsmall =>
        have hreach : reach = 400 := rfl
        have hnum : exponent.toNat = 0 := by omega
        have hleast : double.least.toNat = 0 := by decide
        refine (nearest_eq_zero (ten_pow_ne_zero _) ?_).symm
        rw [hnum, hleast, pow_zero, pow_zero, mul_one, mul_one]
        calc 2 * (digits * 2 ^ (-double.least).toNat) = digits * (2 * 2 ^ (-double.least).toNat) :=
              Nat.mul_left_comm _ _ _
          _ ≤ digits * 10 ^ reach.toNat := Nat.mul_le_mul_left _ two_pow_bottom_le
          _ < 2 ^ (digits.log2 + 1) * 10 ^ reach.toNat :=
              Nat.mul_lt_mul_of_pos_right Nat.lt_log2_self (Nat.pow_pos (by decide))
          _ ≤ 10 ^ (digits.log2 + 1) * 10 ^ reach.toNat := Nat.mul_le_mul_right _ (Nat.pow_le_pow_left (by decide) _)
          _ = 10 ^ (digits.log2 + 1 + reach.toNat) := (Nat.pow_add _ _ _).symm
          _ ≤ 10 ^ (-exponent).toNat := Nat.pow_le_pow_right (by decide) (by omega)
    · rfl

/-- Zeros can be moved from the exponent to the digits. -/
theorem code_mul_pow (digits zeros : Nat) (exponent : Int) :
    code (digits * 10 ^ zeros) exponent = code digits (exponent + zeros) := by
  by_cases hdigits : digits = 0
  · simp [hdigits, code]
  · rw [code_eq_nearest hdigits, code_eq_nearest (Nat.mul_ne_zero hdigits (ten_pow_ne_zero zeros))]
    apply nearest_congr (ten_pow_ne_zero _) (ten_pow_ne_zero _)
    rw [Nat.mul_assoc, Nat.mul_assoc, Nat.mul_assoc, ← Nat.pow_add, ← Nat.pow_add, ← Nat.pow_add]
    congr 2
    omega

end Decimal

end FlightFit
