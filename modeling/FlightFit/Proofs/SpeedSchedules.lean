import Mathlib
import FlightFit.Generator.Profile

/-!
Module: FlightFit.Proofs.SpeedSchedules
Purpose: Speed schedules without rounding, over the rational numbers. A step of a ramp brings the speed nearer to its
  target by the greatest step there is, or all the way; so a ramp ends after a number of steps that can be told in
  advance (`rampSteps`), and its samples can be written down (`rampSamples`). The speed may miss a target by what still
  counts as reached, while the target itself is held; the next ramp goes on from the speed, so that such gaps do not
  add up over the legs.
Main exports: clamp_add, rampSteps, rampSamples, ramp_eq, Climbs, FollowsLegs, exists_profileFrom, FollowsLegs.isChain,
  speed_schedules_end
-/

namespace FlightFit

/-! ### Rational scalars -/

/-- The rational numbers as scalars: nothing is rounded, and nothing is infinite or undefined. -/
instance : CountingScalar ℚ where
  ofNat := fun n => (n : ℚ)
  less := fun a b => decide (a < b)
  same := fun a b => decide (a = b)
  finite := fun _ => true
  count := fun q => roundDiv .up q.num.toNat q.den

theorem less_rat_iff {a b : ℚ} : Scalar.less a b = true ↔ a < b := decide_eq_true_iff

theorem abs_rat (a : ℚ) : Scalar.abs a = |a| := by
  unfold Scalar.abs
  split
  · next h => exact (abs_of_neg (less_rat_iff.1 h)).symm
  · next h => exact (abs_of_nonneg (not_lt.1 (mt less_rat_iff.2 h))).symm

theorem timeStep_rat : (timeStep : ℚ) = 1 / 10 := rfl

theorem speedSlack_rat : (speedSlack : ℚ) = 1 / 10 ^ 9 := by
  have h : (speedSlack : ℚ) = 1 / ((1000000000 : ℕ) : ℚ) := rfl
  rw [h]
  norm_num

theorem startSpeed_rat : (startSpeed : ℚ) = 5 := rfl

/-- Rounding a fraction with halves upward is dividing after one half was added. -/
theorem roundDiv_up (num : ℕ) {den : ℕ} (hden : 0 < den) : roundDiv .up num den = (2 * num + den) / (2 * den) := by
  have hdivision := Nat.div_add_mod num den
  have hrest : num % den < den := Nat.mod_lt num hden
  have hsplit : 2 * num + den = 2 * (num % den) + den + 2 * den * (num / den) := by
    rw [Nat.mul_assoc]
    omega
  rw [hsplit, Nat.add_mul_div_left _ _ (Nat.mul_pos Nat.two_pos hden)]
  simp only [roundDiv, Tie.raises]
  by_cases hless : 2 * (num % den) < den
  · have hzero : (2 * (num % den) + den) / (2 * den) = 0 := Nat.div_eq_of_lt (by omega)
    simp [hless, hzero]
  · have hone : (2 * (num % den) + den) / (2 * den) = 1 := Nat.div_eq_of_lt_le (by omega) (by omega)
    rw [if_neg hless, hone]
    simp [Nat.add_comm]

/-- A count is the nearest integer, halves upward, and zero for negative values. -/
theorem count_rat (q : ℚ) : CountingScalar.count q = (round q).toNat := by
  have hcount : CountingScalar.count q = roundDiv .up q.num.toNat q.den := rfl
  have hfloor : (round q).toNat = ⌊q + 1 / 2⌋₊ := by rw [round_eq, Int.floor_toNat]
  rw [hcount, hfloor, roundDiv_up _ q.den_pos]
  rcases lt_or_ge q 0 with hneg | hnonneg
  · have hnum : q.num.toNat = 0 := Int.toNat_of_nonpos (Rat.num_nonpos.2 hneg.le)
    have hzero : ⌊q + 1 / 2⌋₊ = 0 := Nat.floor_eq_zero.2 (by linarith)
    rw [hzero, hnum]
    exact Nat.div_eq_of_lt (by have := q.den_pos; omega)
  · have hnum : (q.num.toNat : ℚ) = q.num := by
      exact_mod_cast Int.toNat_of_nonneg (Rat.num_nonneg.2 hnonneg)
    have hden : (q.den : ℚ) ≠ 0 := Nat.cast_ne_zero.2 q.den_ne_zero
    have hsum : q + 1 / 2 = ((2 * q.num.toNat + q.den : ℕ) : ℚ) / ((2 * q.den : ℕ) : ℚ) := by
      push_cast
      rw [hnum]
      nth_rewrite 1 [← Rat.num_div_den q]
      field_simp
    rw [hsum, Nat.floor_div_eq_div]

/-! ### Steps -/

section Clamp

variable {bound : ℚ}

theorem clamp_of_nonneg (hbound : 0 ≤ bound) {x : ℚ} (hx : 0 ≤ x) : clamp bound x = min bound x := by
  have hlow : ¬ Scalar.less x (-bound) = true := mt less_rat_iff.1 (by linarith)
  rw [clamp, if_neg hlow]
  split
  · next h => exact (min_eq_left (less_rat_iff.1 h).le).symm
  · next h => exact (min_eq_right (not_lt.1 (mt less_rat_iff.2 h))).symm

theorem clamp_of_nonpos (hbound : 0 ≤ bound) {x : ℚ} (hx : x ≤ 0) : clamp bound x = max (-bound) x := by
  have hhigh : ¬ Scalar.less bound x = true := mt less_rat_iff.1 (by linarith)
  rw [clamp, if_neg hhigh]
  split
  · next h => exact (max_eq_left (less_rat_iff.1 h).le).symm
  · next h => exact (max_eq_right (not_lt.1 (mt less_rat_iff.2 h))).symm

theorem abs_clamp_le (hbound : 0 ≤ bound) (x : ℚ) : |clamp bound x| ≤ bound := by
  rcases le_total 0 x with hx | hx
  · rw [clamp_of_nonneg hbound hx, abs_of_nonneg (le_min hbound hx)]
    exact min_le_left _ _
  · rw [clamp_of_nonpos hbound hx, abs_of_nonpos (max_le (by linarith) hx), neg_le]
    exact le_max_left _ _

/-- What a step leaves of the way. -/
theorem abs_sub_clamp (hbound : 0 ≤ bound) (x : ℚ) : |x - clamp bound x| = max (|x| - bound) 0 := by
  rcases le_total 0 x with hx | hx
  · rw [clamp_of_nonneg hbound hx, abs_of_nonneg hx, abs_of_nonneg (sub_nonneg.2 (min_le_right _ _)),
      ← max_sub_sub_left, sub_self]
  · rw [clamp_of_nonpos hbound hx, abs_of_nonpos hx, abs_of_nonpos (sub_nonpos.2 (le_max_right _ _)), neg_sub,
      ← max_sub_sub_right, sub_self]
    congr 1
    ring

/-- A step and a further one are one greater step. -/
theorem clamp_add (hbound : 0 ≤ bound) {further : ℚ} (hfurther : 0 ≤ further) (x : ℚ) :
    clamp bound x + clamp further (x - clamp bound x) = clamp (bound + further) x := by
  rcases le_total 0 x with hx | hx
  · have hrest : 0 ≤ x - min bound x := sub_nonneg.2 (min_le_right _ _)
    rw [clamp_of_nonneg hbound hx, clamp_of_nonneg hfurther hrest, clamp_of_nonneg (add_nonneg hbound hfurther) hx,
      ← min_add_add_left, add_sub_cancel, ← min_add_add_right, min_assoc, min_eq_right (a := x + further) (by linarith)]
  · have hrest : x - max (-bound) x ≤ 0 := sub_nonpos.2 (le_max_right _ _)
    rw [clamp_of_nonpos hbound hx, clamp_of_nonpos hfurther hrest, clamp_of_nonpos (add_nonneg hbound hfurther) hx,
      ← max_add_add_left, add_sub_cancel, ← max_add_add_right, max_assoc, max_eq_right (a := x + -further) (by linarith),
      neg_add]

/-- A step does not go past the target. -/
theorem add_clamp_mem (hbound : 0 ≤ bound) (start target : ℚ) :
    start + clamp bound (target - start) ∈ Set.uIcc start target := by
  rw [Set.mem_uIcc]
  rcases le_total start target with h | h
  · rw [clamp_of_nonneg hbound (sub_nonneg.2 h)]
    have hlow : 0 ≤ min bound (target - start) := le_min hbound (sub_nonneg.2 h)
    have hhigh : min bound (target - start) ≤ target - start := min_le_right _ _
    exact .inl ⟨by linarith, by linarith⟩
  · rw [clamp_of_nonpos hbound (sub_nonpos.2 h)]
    have hlow : target - start ≤ max (-bound) (target - start) := le_max_right _ _
    have hhigh : max (-bound) (target - start) ≤ 0 := max_le (by linarith) (sub_nonpos.2 h)
    exact .inr ⟨by linarith, by linarith⟩

end Clamp

/-! ### Ramps -/

/-- How many steps a ramp takes. -/
def rampSteps (bound target speed : ℚ) : ℕ := ⌈(|target - speed| - speedSlack) / bound⌉₊

/-- The samples of a ramp: after one step, two steps and so on. -/
def rampSamples (bound target speed : ℚ) : List ℚ :=
  (List.range (rampSteps bound target speed)).map fun k => speed + clamp ((k + 1 : ℕ) * bound) (target - speed)

section Ramp

variable {bound target speed : ℚ}

theorem length_rampSamples : (rampSamples bound target speed).length = rampSteps bound target speed := by
  rw [rampSamples, List.length_map, List.length_range]

/-- No step is taken where the target counts as reached. -/
theorem rampSteps_eq_zero_iff (hbound : 0 < bound) :
    rampSteps bound target speed = 0 ↔ |target - speed| ≤ speedSlack := by
  rw [rampSteps, Nat.ceil_eq_zero, div_le_iff₀ hbound, zero_mul, sub_nonpos]

/-- After a step there is one step less to take. -/
theorem rampSteps_step (hbound : 0 < bound) (hfar : speedSlack < |target - speed|) :
    rampSteps bound target speed = rampSteps bound target (speed + clamp bound (target - speed)) + 1 := by
  have hslack : (0 : ℚ) < speedSlack := by
    rw [speedSlack_rat]
    norm_num
  have hway : 0 < (|target - speed| - speedSlack) / bound := div_pos (sub_pos.2 hfar) hbound
  have hleft : rampSteps bound target (speed + clamp bound (target - speed)) =
      ⌈(|target - speed| - speedSlack) / bound - 1⌉₊ := by
    rw [rampSteps, ← sub_sub, abs_sub_clamp hbound.le]
    rcases le_total bound |target - speed| with hlong | hshort
    · rw [max_eq_left (sub_nonneg.2 hlong)]
      congr 1
      field_simp
      ring
    · -- The rest of the way is one step, whatever its length.
      rw [max_eq_right (sub_nonpos.2 hshort), Nat.ceil_eq_zero.2, Nat.ceil_eq_zero.2]
      · rw [sub_nonpos, div_le_one hbound]
        linarith
      · exact div_nonpos_of_nonpos_of_nonneg (by linarith) hbound.le
  rw [hleft, Nat.ceil_sub_one, Nat.sub_add_cancel (Nat.ceil_pos.2 hway), rampSteps]

theorem rampSamples_of_near (hbound : 0 < bound) (hnear : |target - speed| ≤ speedSlack) :
    rampSamples bound target speed = [] := by
  rw [rampSamples, (rampSteps_eq_zero_iff hbound).2 hnear]
  rfl

theorem rampSamples_of_far (hbound : 0 < bound) (hfar : speedSlack < |target - speed|) :
    rampSamples bound target speed =
      (speed + clamp bound (target - speed)) :: rampSamples bound target (speed + clamp bound (target - speed)) := by
  have hfirst : ((0 + 1 : ℕ) : ℚ) * bound = bound := by norm_num
  rw [rampSamples, rampSteps_step hbound hfar, List.range_succ_eq_map, List.map_cons, List.map_map, hfirst, rampSamples]
  congr 1
  apply List.map_congr_left
  intro k _
  have hfurther : (0 : ℚ) ≤ (k + 1 : ℕ) * bound := mul_nonneg (Nat.cast_nonneg _) hbound.le
  have hsum : bound + (k + 1 : ℕ) * bound = (k.succ + 1 : ℕ) * bound := by
    push_cast
    ring
  rw [Function.comp_apply, ← sub_sub, add_assoc, clamp_add hbound.le hfurther, hsum]

/-- Ramps by induction on the steps that are left. -/
theorem rampSamples_induction {motive : ℚ → List ℚ → Prop} (hbound : 0 < bound)
    (near : ∀ speed, |target - speed| ≤ speedSlack → motive speed [])
    (far : ∀ speed climb, speedSlack < |target - speed| → motive (speed + clamp bound (target - speed)) climb →
      motive speed ((speed + clamp bound (target - speed)) :: climb))
    (speed : ℚ) : motive speed (rampSamples bound target speed) := by
  induction hsteps : rampSteps bound target speed generalizing speed with
  | zero =>
      have hnear := (rampSteps_eq_zero_iff hbound).1 hsteps
      rw [rampSamples_of_near hbound hnear]
      exact near speed hnear
  | succ steps ih =>
      have hfar : speedSlack < |target - speed| := by
        rw [← not_le, ← rampSteps_eq_zero_iff hbound, hsteps]
        exact Nat.succ_ne_zero steps
      rw [rampSamples_of_far hbound hfar]
      apply far speed _ hfar
      apply ih
      rw [rampSteps_step hbound hfar] at hsteps
      exact Nat.succ.inj hsteps

/-- A ramp ends if it may take as many steps as it has samples. -/
theorem ramp_eq (hbound : 0 < bound) (target speed : ℚ) (fuel : ℕ) :
    ramp bound target fuel speed =
      if (rampSamples bound target speed).length ≤ fuel then some (rampSamples bound target speed) else none := by
  revert fuel
  apply rampSamples_induction hbound
    (motive := fun speed samples => ∀ fuel, ramp bound target fuel speed =
      if samples.length ≤ fuel then some samples else none)
  · intro speed hnear fuel
    have hstop : ¬ Scalar.less speedSlack (Scalar.abs (target - speed)) = true := by
      rw [less_rat_iff, abs_rat]
      exact not_lt.2 hnear
    unfold ramp
    rw [if_neg hstop]
    exact (if_pos (Nat.zero_le fuel)).symm
  · intro speed climb hfar ih fuel
    have hgo : Scalar.less speedSlack (Scalar.abs (target - speed)) = true := by
      rw [less_rat_iff, abs_rat]
      exact hfar
    unfold ramp
    rw [if_pos hgo]
    cases fuel with
    | zero => rfl
    | succ fuel =>
        rw [List.length_cons]
        by_cases henough : climb.length ≤ fuel
        · rw [if_pos (Nat.succ_le_succ henough)]
          simp only [ih, if_pos henough, Option.map_some]
        · rw [if_neg (mt Nat.le_of_succ_le_succ henough)]
          simp only [ih, if_neg henough, Option.map_none]

theorem mem_uIcc_of_mem_rampSamples (hbound : 0 < bound) {v : ℚ} (hv : v ∈ rampSamples bound target speed) :
    v ∈ Set.uIcc speed target := by
  obtain ⟨k, -, rfl⟩ := List.mem_map.1 hv
  exact add_clamp_mem (mul_nonneg (Nat.cast_nonneg _) hbound.le) speed target

theorem isChain_rampSamples (hbound : 0 < bound) (target speed : ℚ) :
    (speed :: rampSamples bound target speed).IsChain fun v w => |w - v| ≤ bound := by
  apply rampSamples_induction hbound
    (motive := fun speed samples => (speed :: samples).IsChain fun v w => |w - v| ≤ bound)
  · intro speed _
    exact List.isChain_singleton speed
  · intro speed climb _ ih
    refine List.isChain_cons_cons.2 ⟨?_, ih⟩
    rw [add_sub_cancel_left]
    exact abs_clamp_le hbound.le _

theorem abs_sub_getLastD_rampSamples (hbound : 0 < bound) (target speed : ℚ) :
    |target - (rampSamples bound target speed).getLastD speed| ≤ speedSlack := by
  apply rampSamples_induction hbound
    (motive := fun speed samples => |target - samples.getLastD speed| ≤ speedSlack)
  · intro speed hnear
    exact hnear
  · intro speed climb _ ih
    rw [List.getLastD_cons]
    exact ih

end Ramp

/-! ### Legs -/

/-- Samples lead from a speed to a target: they stand between the two, each is within reach of the one before it, and
    the last one counts as the target. There are as many as it takes to come that near at the full rate. -/
structure Climbs (accel start target : ℚ) (samples : List ℚ) : Prop where
  length : samples.length = ⌈(|target - start| - 1 / 10 ^ 9) / (accel * (1 / 10))⌉₊
  between : ∀ v ∈ samples, v ∈ Set.uIcc start target
  steps : (start :: samples).IsChain fun v w => |w - v| ≤ accel * (1 / 10)
  arrived : |target - samples.getLastD start| ≤ 1 / 10 ^ 9

/-- Samples follow legs from a speed on: each leg is a climb to its target, from where the last one has led, and
    then the target itself for as long as it is held, which is not at all for a negative time. -/
inductive FollowsLegs (accel : ℚ) : ℚ → List (Leg ℚ) → List ℚ → Prop where
  | done (speed : ℚ) : FollowsLegs accel speed [] []
  | leg {speed : ℚ} {leg : Leg ℚ} {climb rest : List ℚ} {legs : List (Leg ℚ)}
      (climbs : Climbs accel speed leg.target climb) (follows : FollowsLegs accel (climb.getLastD speed) legs rest) :
      FollowsLegs accel speed (leg :: legs)
        (climb ++ List.replicate (round (leg.hold / (1 / 10))).toNat leg.target ++ rest)

/-- Every ramp ends, and its samples lead to the target. -/
theorem exists_ramp {accel : ℚ} (haccel : 0 < accel) (speed target : ℚ) :
    ∃ samples, Climbs accel speed target samples ∧
      ∀ fuel, ramp (accel * timeStep) target fuel speed = if samples.length ≤ fuel then some samples else none := by
  have hbound : (0 : ℚ) < accel * timeStep := by
    rw [timeStep_rat]
    linarith
  refine ⟨rampSamples (accel * timeStep) target speed, ?_, ramp_eq hbound target speed⟩
  constructor
  · rw [length_rampSamples, rampSteps, speedSlack_rat, timeStep_rat]
  · exact fun v hv => mem_uIcc_of_mem_rampSamples hbound hv
  · exact isChain_rampSamples hbound target speed
  · rw [← speedSlack_rat]
    exact abs_sub_getLastD_rampSamples hbound target speed

/-- Legs end after as many steps as the longest of their ramps takes. -/
theorem exists_profileFrom {accel : ℚ} (haccel : 0 < accel) (speed : ℚ) (legs : List (Leg ℚ)) :
    ∃ steps samples, FollowsLegs accel speed legs samples ∧
      ∀ fuel, profileFrom fuel (accel * timeStep) speed legs = if steps ≤ fuel then some samples else none := by
  induction legs generalizing speed with
  | nil => exact ⟨0, [], .done speed, fun fuel => by rw [profileFrom, if_pos (Nat.zero_le fuel)]⟩
  | cons leg legs ih =>
      obtain ⟨climb, hclimbs, hramp⟩ := exists_ramp haccel speed leg.target
      obtain ⟨steps, rest, hfollows, hrest⟩ := ih (climb.getLastD speed)
      refine ⟨max climb.length steps, _, .leg hclimbs hfollows, fun fuel => ?_⟩
      have hcount : CountingScalar.count (leg.hold / timeStep) = (round (leg.hold / (1 / 10))).toNat := by
        rw [count_rat, timeStep_rat]
      rw [profileFrom, hramp fuel, hcount]
      by_cases hclimb : climb.length ≤ fuel
      · rw [if_pos hclimb, Option.bind_eq_bind, Option.bind_some, hrest fuel]
        by_cases hsteps : steps ≤ fuel
        · rw [if_pos hsteps, if_pos (max_le hclimb hsteps)]
          rfl
        · rw [if_neg hsteps, if_neg fun h => hsteps (le_of_max_le_right h)]
          rfl
      · rw [if_neg hclimb, if_neg fun h => hclimb (le_of_max_le_left h)]
        rfl

/-! ### Neighbouring samples -/

/-- Chains are joined where one ends and the other begins. -/
theorem isChain_append_of_getLastD {α : Type} {R : α → α → Prop} {a : α} {front back : List α}
    (hfront : (a :: front).IsChain R) (hback : (front.getLastD a :: back).IsChain R) :
    (a :: (front ++ back)).IsChain R := by
  induction front generalizing a with
  | nil => exact hback
  | cons b front ih =>
      obtain ⟨hfirst, hrest⟩ := List.isChain_cons_cons.1 hfront
      rw [List.getLastD_cons] at hback
      exact List.isChain_cons_cons.2 ⟨hfirst, ih hrest hback⟩

/-- The last sample depends on where one starts only if there is none. -/
theorem abs_getLastD_sub_getLastD_le (samples : List ℚ) (v w : ℚ) :
    |samples.getLastD v - samples.getLastD w| ≤ |v - w| := by
  cases samples with
  | nil => exact le_refl |v - w|
  | cons first rest =>
      rw [List.getLastD_cons, List.getLastD_cons, sub_self, abs_zero]
      exact abs_nonneg (v - w)

section Neighbours

variable {accel start target last : ℚ} {samples : List ℚ}

/-- Climbing from where the sample before is near adds at most this nearness to the first step. -/
theorem Climbs.isChain_of_near (h : Climbs accel start target samples) (hlast : |last - start| ≤ 1 / 10 ^ 9) :
    (last :: samples).IsChain fun v w => |w - v| ≤ accel * (1 / 10) + 2 * (1 / 10 ^ 9) := by
  have hsteps := h.steps
  cases samples with
  | nil => exact List.isChain_singleton last
  | cons first rest =>
      obtain ⟨hfirst, hrest⟩ := List.isChain_cons_cons.1 hsteps
      have hslack : (0 : ℚ) ≤ 1 / 10 ^ 9 := by norm_num
      refine List.isChain_cons_cons.2 ⟨?_, hrest.imp fun v w hvw => by linarith⟩
      calc
        |first - last| ≤ |first - start| + |start - last| := abs_sub_le first start last
        _ ≤ accel * (1 / 10) + 1 / 10 ^ 9 := add_le_add hfirst (abs_sub_comm last start ▸ hlast)
        _ ≤ accel * (1 / 10) + 2 * (1 / 10 ^ 9) := by linarith

/-- The target is near the sample before it, also where there was no climb. -/
theorem Climbs.abs_target_sub_le (h : Climbs accel start target samples) (hlast : |last - start| ≤ 1 / 10 ^ 9) :
    |target - samples.getLastD last| ≤ 2 * (1 / 10 ^ 9) := by
  have hsame : |samples.getLastD start - samples.getLastD last| ≤ |start - last| :=
    abs_getLastD_sub_getLastD_le samples start last
  calc
    |target - samples.getLastD last|
      ≤ |target - samples.getLastD start| + |samples.getLastD start - samples.getLastD last| := abs_sub_le _ _ _
    _ ≤ 1 / 10 ^ 9 + |last - start| := add_le_add h.arrived (abs_sub_comm last start ▸ hsame)
    _ ≤ 2 * (1 / 10 ^ 9) := by linarith

theorem isChain_cons_replicate {limit : ℚ} (hlimit : 0 ≤ limit) (h : |target - last| ≤ limit) (count : ℕ) :
    (last :: List.replicate count target).IsChain fun v w => |w - v| ≤ limit := by
  cases count with
  | zero => exact List.isChain_singleton last
  | succ count =>
      have hhold : |target - target| ≤ limit := by rwa [sub_self, abs_zero]
      exact List.isChain_cons_cons.2 ⟨h, List.isChain_replicate_of_rel (count + 1) hhold⟩

/-- After a leg the last sample is near the speed from which the next leg climbs. -/
theorem Climbs.near_after_hold (h : Climbs accel start target samples) (hlast : |last - start| ≤ 1 / 10 ^ 9)
    (count : ℕ) :
    |(samples ++ List.replicate count target).getLastD last - samples.getLastD start| ≤ 1 / 10 ^ 9 := by
  cases count with
  | zero =>
      rw [List.replicate_zero, List.append_nil]
      exact (abs_getLastD_sub_getLastD_le samples last start).trans hlast
  | succ count =>
      rw [List.replicate_succ', ← List.append_assoc, List.getLastD_concat]
      exact h.arrived

/-- Neighbouring samples of legs differ by a step, and by no more than twice what counts as reached beyond that. -/
theorem FollowsLegs.isChain {legs : List (Leg ℚ)} (haccel : 0 < accel) (h : FollowsLegs accel start legs samples)
    (hlast : |last - start| ≤ 1 / 10 ^ 9) :
    (last :: samples).IsChain fun v w => |w - v| ≤ accel * (1 / 10) + 2 * (1 / 10 ^ 9) := by
  induction h generalizing last with
  | done speed => exact List.isChain_singleton last
  | @leg speed leg climb rest legs climbs follows ih =>
      have hstep : 0 ≤ accel * (1 / 10) := by positivity
      have hlimit : 0 ≤ accel * (1 / 10) + 2 * (1 / 10 ^ 9) := by positivity
      have harrival := (climbs.abs_target_sub_le hlast).trans (le_add_of_nonneg_left hstep)
      have hheld := isChain_cons_replicate hlimit harrival (round (leg.hold / (1 / 10))).toNat
      have hleg := isChain_append_of_getLastD (climbs.isChain_of_near hlast) hheld
      exact isChain_append_of_getLastD hleg (ih (climbs.near_after_hold hlast _))

end Neighbours

/-- Speed schedules end, whatever the legs. Every ramp ends after as many steps as it has samples, and a schedule
    after as many as the longest of its ramps. It begins with the speed 5 and follows its legs; neighbouring samples
    differ by at most a step and twice what counts as reached. -/
theorem speed_schedules_end (legs : List (Leg ℚ)) (accel : ℚ) (haccel : 0 < accel) :
    (∀ speed target, ∃ samples, Climbs accel speed target samples ∧
      ∀ fuel, ramp (accel * timeStep) target fuel speed = if samples.length ≤ fuel then some samples else none) ∧
    ∃ steps samples, (∀ fuel, speedProfile fuel accel legs = if steps ≤ fuel then some (5 :: samples) else none) ∧
      FollowsLegs accel 5 legs samples ∧
      (5 :: samples).IsChain fun v w => |w - v| ≤ accel * (1 / 10) + 2 * (1 / 10 ^ 9) := by
  obtain ⟨steps, samples, hfollows, hprofile⟩ := exists_profileFrom haccel 5 legs
  refine ⟨exists_ramp haccel, steps, samples, fun fuel => ?_, hfollows, hfollows.isChain haccel (by norm_num)⟩
  rw [speedProfile, startSpeed_rat, hprofile fuel]
  split
  · rfl
  · rfl

/-- Two steps up, the last of them short, and no hold; then a target that already counts as reached, held for three
    samples. -/
def shortLegs : List (Leg ℚ) := [⟨5 + 1 / 10, -1⟩, ⟨5 + 1 / 10 + 1 / 10 ^ 9, 1 / 4⟩]

theorem speed_schedules_end_short :
    (0 : ℚ) < 4 / 5 ∧
    ∃ steps samples, (∀ fuel, speedProfile fuel (4 / 5) shortLegs = if steps ≤ fuel then some (5 :: samples) else none) ∧
      samples = [127 / 25, 51 / 10, 51 / 10 + 1 / 10 ^ 9, 51 / 10 + 1 / 10 ^ 9, 51 / 10 + 1 / 10 ^ 9] ∧
      FollowsLegs (4 / 5) 5 shortLegs samples ∧
      (5 :: samples).IsChain fun v w => |w - v| ≤ 4 / 5 * (1 / 10) + 2 * (1 / 10 ^ 9) := by
  have haccel : (0 : ℚ) < 4 / 5 := by norm_num
  obtain ⟨-, steps, samples, hprofile, hfollows, hchain⟩ := speed_schedules_end shortLegs (4 / 5) haccel
  have hrun : speedProfile 2 (4 / 5) shortLegs =
      some [5, 127 / 25, 51 / 10, 51 / 10 + 1 / 10 ^ 9, 51 / 10 + 1 / 10 ^ 9, 51 / 10 + 1 / 10 ^ 9] := by decide +kernel
  rw [hprofile 2] at hrun
  split at hrun
  · exact ⟨haccel, steps, samples, hprofile, (List.cons.inj (Option.some.inj hrun)).2, hfollows, hchain⟩
  · simp at hrun

end FlightFit
