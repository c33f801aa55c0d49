import Mathlib
import FlightFit.Scalar

/-!
Module: FlightFit.Proofs.DoubleOrder
Purpose: The order of doubles. Doubles are compared by their places in one order (`Rank`), in which both zeros have one
  place and what is undefined has none. So comparisons of doubles can be chained, and of two that are defined one is at
  most the other.
Main exports: Rank, rank?, compare_eq_order, lt_iff_before, le_iff_not_before, same_self_eq_false_iff, atMost_iff,
  float_lt_of_lt_of_le, float_lt_of_le_of_lt, float_le_trans, float_le_of_not_lt
-/

namespace FlightFit

/-! ### Places -/

/-- A place in the order of the doubles: first the kind, then the exponent and the mantissa. -/
structure Rank where
  kind : Int
  exponent : Int
  mantissa : Int

/-- One place comes before another. -/
def Rank.Before (r s : Rank) : Prop :=
  r.kind < s.kind ∨
    r.kind = s.kind ∧ (r.exponent < s.exponent ∨ r.exponent = s.exponent ∧ r.mantissa < s.mantissa)

/-- How two places compare. -/
def Rank.order (r s : Rank) : Ordering :=
  (compare r.kind s.kind).then ((compare r.exponent s.exponent).then (compare r.mantissa s.mantissa))

theorem Rank.order_eq_lt_iff {r s : Rank} : r.order s = .lt ↔ r.Before s := by
  simp only [order, Before, Ordering.then_eq_lt, Int.compare_eq_lt, Int.compare_eq_eq]

theorem Rank.order_eq_gt_iff {r s : Rank} : r.order s = .gt ↔ s.Before r := by
  simp only [order, Before, Ordering.then_eq_gt, Int.compare_eq_gt, Int.compare_eq_eq]
  omega

theorem Rank.order_eq_eq_iff {r s : Rank} : r.order s = .eq ↔ ¬r.Before s ∧ ¬s.Before r := by
  rw [← order_eq_lt_iff, ← order_eq_gt_iff]
  cases r.order s <;> simp

section Order

open Float.Model

/-- The place of a number. Exponent and mantissa count downwards below zero, both zeros have one place, and what is
    not a number has none. -/
def rank? : UnpackedFloat → Option Rank
  | .notANumber => none
  | .infinity .negative => some ⟨-2, 0, 0⟩
  | .finite .negative mantissa exponent _ => some ⟨-1, -exponent, -mantissa⟩
  | .zero _ => some ⟨0, 0, 0⟩
  | .finite .positive mantissa exponent _ => some ⟨1, exponent, mantissa⟩
  | .infinity .positive => some ⟨2, 0, 0⟩

theorem compare_natCast (m n : Nat) : compare (m : Int) n = compare m n := by
  simp only [compare, compareOfLessAndEq, Int.ofNat_lt, Int.natCast_inj]

theorem compare_neg (a b : Int) : compare (-a) (-b) = (compare a b).swap := by
  rw [Int.compare_swap]
  simp only [compare, compareOfLessAndEq, Int.neg_lt_neg_iff, Int.neg_inj, eq_comm]

/-- Numbers compare as their places do. -/
theorem compare_eq_order (x y : UnpackedFloat) :
    x.compare y = (rank? x).bind fun r => (rank? y).map r.order := by
  -- Only finite numbers of one sign are not told apart by their kinds.
  rcases x with (_ | _) | _ | _ | ⟨_ | _, m, e, _⟩ <;> rcases y with (_ | _) | _ | _ | ⟨_ | _, n, k, _⟩ <;> try rfl
  · change some ((compare e k).then (compare m n)).swap = some (Rank.order ⟨-1, -e, -m⟩ ⟨-1, -k, -n⟩)
    simp [Rank.order, compare_neg, compare_natCast, Ordering.swap_then]
  · change some ((compare e k).then (compare m n)) = some (Rank.order ⟨1, e, m⟩ ⟨1, k, n⟩)
    simp [Rank.order, compare_natCast]

/-- One number is less than another when it has the earlier place. -/
theorem unpacked_lt_iff (x y : UnpackedFloat) :
    x.lt y = true ↔ ∃ r s, rank? x = some r ∧ rank? y = some s ∧ r.Before s := by
  rw [UnpackedFloat.lt, compare_eq_order]
  cases rank? x with
  | none => simp
  | some r =>
      cases rank? y with
      | none => simp
      | some s => simp [Rank.order_eq_lt_iff]

theorem unpacked_le_iff (x y : UnpackedFloat) :
    x.le y = true ↔ ∃ r s, rank? x = some r ∧ rank? y = some s ∧ ¬s.Before r := by
  rw [UnpackedFloat.le, compare_eq_order]
  cases rank? x with
  | none => simp
  | some r =>
      cases rank? y with
      | none => simp
      | some s => simp [← Ordering.ne_gt_iff_isLE, Rank.order_eq_gt_iff]

/-- Numbers are the same when they have the same place. -/
theorem unpacked_beq_iff (x y : UnpackedFloat) :
    x.beq y = true ↔ ∃ r s, rank? x = some r ∧ rank? y = some s ∧ ¬r.Before s ∧ ¬s.Before r := by
  rw [UnpackedFloat.beq, compare_eq_order]
  cases rank? x with
  | none => simp
  | some r =>
      cases rank? y with
      | none => simp
      | some s => simp [Rank.order_eq_eq_iff]

theorem unpacked_isNaN_iff (x : UnpackedFloat) : x.isNaN = true ↔ rank? x = none := by
  rcases x with (_ | _) | _ | _ | ⟨_ | _, m, e, _⟩ <;> simp [rank?, UnpackedFloat.isNaN]

end Order

/-! ### Comparisons -/

section Comparisons

variable {a b c : Float}

theorem lt_iff_before :
    a < b ↔ ∃ r s, rank? a.toModel.unpack = some r ∧ rank? b.toModel.unpack = some s ∧ r.Before s := by
  rw [← unpacked_lt_iff]
  exact decide_eq_true_iff

theorem le_iff_not_before :
    a ≤ b ↔ ∃ r s, rank? a.toModel.unpack = some r ∧ rank? b.toModel.unpack = some s ∧ ¬s.Before r := by
  rw [← unpacked_le_iff]
  exact decide_eq_true_iff

theorem float_lt_of_lt_of_le (hab : a < b) (hbc : b ≤ c) : a < c := by
  rcases lt_iff_before.1 hab with ⟨r, s, hr, hs, hbefore⟩
  rcases le_iff_not_before.1 hbc with ⟨s', u, hs', hu, hnot⟩
  cases hs.symm.trans hs'
  refine lt_iff_before.2 ⟨r, u, hr, hu, ?_⟩
  simp only [Rank.Before] at hbefore hnot ⊢
  omega

theorem float_lt_of_le_of_lt (hab : a ≤ b) (hbc : b < c) : a < c := by
  rcases le_iff_not_before.1 hab with ⟨r, s, hr, hs, hnot⟩
  rcases lt_iff_before.1 hbc with ⟨s', u, hs', hu, hbefore⟩
  cases hs.symm.trans hs'
  refine lt_iff_before.2 ⟨r, u, hr, hu, ?_⟩
  simp only [Rank.Before] at hbefore hnot ⊢
  omega

theorem isNaN_iff_rank? : a.isNaN = true ↔ rank? a.toModel.unpack = none := unpacked_isNaN_iff _

theorem same_iff : Scalar.same a b = true ↔
    ∃ r s, rank? a.toModel.unpack = some r ∧ rank? b.toModel.unpack = some s ∧ ¬r.Before s ∧ ¬s.Before r :=
  unpacked_beq_iff _ _

/-- Only what is undefined is not the same as itself. -/
theorem same_self_eq_false_iff : Scalar.same a a = false ↔ a.isNaN = true := by
  rw [isNaN_iff_rank?, ← Bool.not_eq_true, same_iff]
  cases rank? a.toModel.unpack with
  | none => simp
  | some r => simp [Rank.Before]

theorem less_iff : Scalar.less a b = true ↔ a < b := decide_eq_true_iff

theorem atMost_iff : Scalar.atMost a b = true ↔ a ≤ b := by
  rw [Scalar.atMost, Bool.or_eq_true, less_iff, same_iff, lt_iff_before, le_iff_not_before]
  constructor
  · rintro (⟨r, s, hr, hs, hbefore⟩ | ⟨r, s, hr, hs, -, hnot⟩)
    · refine ⟨r, s, hr, hs, ?_⟩
      simp only [Rank.Before] at hbefore ⊢
      omega
    · exact ⟨r, s, hr, hs, hnot⟩
  · rintro ⟨r, s, hr, hs, hnot⟩
    by_cases hbefore : r.Before s
    · exact .inl ⟨r, s, hr, hs, hbefore⟩
    · exact .inr ⟨r, s, hr, hs, hbefore, hnot⟩

theorem float_le_of_lt (h : a < b) : a ≤ b := atMost_iff.1 (Bool.or_eq_true_iff.2 (.inl (less_iff.2 h)))

theorem float_le_trans (hab : a ≤ b) (hbc : b ≤ c) : a ≤ c := by
  rcases le_iff_not_before.1 hab with ⟨r, s, hr, hs, hnot⟩
  rcases le_iff_not_before.1 hbc with ⟨s', u, hs', hu, hnot'⟩
  cases hs.symm.trans hs'
  refine le_iff_not_before.2 ⟨r, u, hr, hu, ?_⟩
  simp only [Rank.Before] at hnot hnot' ⊢
  omega

/-- What is defined is at most itself. -/
theorem isNaN_or_le_self (a : Float) : a.isNaN = true ∨ a ≤ a := by
  rw [isNaN_iff_rank?, le_iff_not_before]
  cases rank? a.toModel.unpack with
  | none => exact .inl rfl
  | some r => exact .inr ⟨r, r, rfl, rfl, by simp [Rank.Before]⟩

/-- What is compared is defined. -/
theorem isNaN_eq_false_of_le (h : a ≤ b) : a.isNaN = false ∧ b.isNaN = false := by
  rcases le_iff_not_before.1 h with ⟨r, s, hr, hs, -⟩
  simp only [← Bool.not_eq_true, isNaN_iff_rank?, hr, hs, reduceCtorEq, not_false_eq_true, and_self]

/-- Of two numbers that are defined, one is at most the other. -/
theorem float_le_of_not_lt (ha : a.isNaN = false) (hb : b.isNaN = false) (h : ¬b < a) : a ≤ b := by
  rw [← Bool.not_eq_true, isNaN_iff_rank?, ← ne_eq, Option.ne_none_iff_exists'] at ha hb
  obtain ⟨r, hr⟩ := ha
  obtain ⟨s, hs⟩ := hb
  exact le_iff_not_before.2 ⟨r, s, hr, hs, fun hbefore => h (lt_iff_before.2 ⟨s, r, hs, hr, hbefore⟩)⟩

end Comparisons

end FlightFit
