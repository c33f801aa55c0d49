import Mathlib.Logic.Function.Iterate
import FlightFit.Generator.Flight

/-!
Module: FlightFit.Proofs.RandomStates
Purpose: The states that the random source runs through. A draw mixes four words by exclusive ors, one shift that loses
  bits and one rotation, and all of that can be undone (`Random.retreat`); so a draw loses nothing, and four zero words
  come only from four zero words. The seeding sequence cannot stay at zero and multiplies by a number that has an
  inverse modulo `2 ^ 64`, so seeds start apart and stay apart.
Main exports: Random.allZero, Random.drawn, Random.retreat, Random.retreat_advance, Random.next_injective,
  Random.seedStep_injective, Random.state_simulate, Random.states_never_degenerate
-/

namespace FlightFit.Random

/-- The state of four zero words. -/
def allZero : Random := ⟨0, 0, 0, 0⟩

/-- The state after some draws of words. -/
def drawn (draws : Nat) (r : Random) : Random := (fun r => r.next.2)^[draws] r

/-! ### Mixing of words -/

/-- Rotates a word to the right by fewer than 64 places. -/
def rotateRight (x : UInt64) (places : UInt64) : UInt64 := (x >>> places) ||| (x <<< (64 - places))

theorem rotateRight_rotateLeft (x : UInt64) {places : UInt64} (hpos : 0 < places) (hless : places < 64) :
    rotateRight (rotateLeft x places) places = x := by
  have hsome : 0 < places.toNat := hpos
  have hfew : places.toNat < 64 := hless
  have hback : (64 - places).toNat % 64 = 64 - places.toNat := by
    rw [UInt64.toNat_sub_of_le _ _ (UInt64.le_of_lt hless)]
    exact Nat.mod_eq_of_lt (Nat.sub_lt (by decide) hsome)
  apply UInt64.toBitVec_inj.1
  apply BitVec.eq_of_getLsbD_eq
  intro bit hbit
  simp only [rotateRight, rotateLeft, UInt64.toBitVec_or, UInt64.toBitVec_shiftRight, UInt64.toBitVec_shiftLeft,
    BitVec.getLsbD_or, BitVec.ushiftRight_eq', BitVec.shiftLeft_eq', BitVec.getLsbD_ushiftRight,
    BitVec.getLsbD_shiftLeft, BitVec.toNat_umod, UInt64.toNat_toBitVec]
  -- The lower bits of the word come back from the first shift, the upper ones from the second.
  grind

/-- The word whose exclusive or with its own shift by 17 places is given. -/
def unshift (y : UInt64) : UInt64 := y ^^^ (y <<< 17) ^^^ (y <<< 34) ^^^ (y <<< 51)

theorem xor_xor_xor_cancel (x y z : UInt64) : (x ^^^ y) ^^^ (y ^^^ z) = x ^^^ z := by
  rw [UInt64.xor_assoc, ← UInt64.xor_assoc y, UInt64.xor_self, UInt64.zero_xor]

/-- The shifts of a word telescope until nothing of it is left. -/
theorem unshift_xor_shiftLeft (x : UInt64) : unshift (x ^^^ (x <<< 17)) = x := by
  have htwice : x <<< 17 <<< 17 = x <<< 34 := (UInt64.shiftLeft_add (by decide) (by decide) (by decide)).symm
  have hthrice : x <<< 17 <<< 34 = x <<< 51 := (UInt64.shiftLeft_add (by decide) (by decide) (by decide)).symm
  have hgone : x <<< 17 <<< 51 = 0 := by
    apply UInt64.toBitVec_inj.1
    simp
  calc
    unshift (x ^^^ (x <<< 17))
      = (x ^^^ x <<< 17) ^^^ (x <<< 17 ^^^ x <<< 34) ^^^ (x <<< 34 ^^^ x <<< 51) ^^^ (x <<< 51 ^^^ 0) := by
        rw [unshift, UInt64.shiftLeft_xor, UInt64.shiftLeft_xor, UInt64.shiftLeft_xor, htwice, hthrice, hgone]
    _ = x ^^^ 0 := by rw [xor_xor_xor_cancel, xor_xor_xor_cancel, xor_xor_xor_cancel]
    _ = x := UInt64.xor_zero

theorem xor_xor_cancel (x y : UInt64) : (x ^^^ y) ^^^ y = x := by
  rw [UInt64.xor_assoc, UInt64.xor_self, UInt64.xor_zero]

/-! ### One draw -/

/-- The state before a draw. -/
def retreat (r : Random) : Random :=
  let d := rotateRight r.d 45
  let a := r.a ^^^ d
  -- The second and third word share a part that cancels out.
  let b := unshift (r.b ^^^ r.c)
  let c := r.c ^^^ (b <<< 17)
  ⟨a, b, c ^^^ a, d ^^^ b⟩

/-- A draw can be undone. -/
theorem retreat_advance (r : Random) : r.advance.retreat = r := by
  have hd : rotateRight (rotateLeft (r.d ^^^ r.b) 45) 45 = r.d ^^^ r.b :=
    rotateRight_rotateLeft _ (by decide) (by decide)
  have hb : unshift ((r.b ^^^ (r.c ^^^ r.a)) ^^^ ((r.c ^^^ r.a) ^^^ (r.b <<< 17))) = r.b := by
    rw [xor_xor_xor_cancel, unshift_xor_shiftLeft]
  simp only [retreat, advance, hd, hb, xor_xor_cancel]

theorem next_injective : Function.Injective fun r : Random => r.next.2 :=
  Function.LeftInverse.injective retreat_advance

theorem next_allZero : allZero.next.2 = allZero := rfl

/-- Only four zero words lead to four zero words. -/
theorem next_eq_allZero_iff {r : Random} : r.next.2 = allZero ↔ r = allZero := by
  constructor
  · intro h
    apply next_injective
    exact h.trans next_allZero.symm
  · rintro rfl
    exact next_allZero

/-! ### Many draws -/

theorem drawn_injective (draws : Nat) : Function.Injective (drawn draws) := next_injective.iterate draws

theorem drawn_eq_allZero_iff {draws : Nat} {r : Random} : r.drawn draws = allZero ↔ r = allZero := by
  have hstays : allZero.drawn draws = allZero := Function.iterate_fixed next_allZero draws
  constructor
  · intro h
    apply drawn_injective draws
    exact h.trans hstays.symm
  · rintro rfl
    exact hstays

/-! ### Seeds -/

/-- The multiplier of the seeding sequence has an inverse, so no step of the sequence loses anything. -/
theorem seedStep_injective : Function.Injective seedStep := by
  have hinverse : (6364136223846793005 : UInt64) * 13877824140714322085 = 1 := by decide
  intro x y h
  have hproduct : x * 6364136223846793005 = y * 6364136223846793005 := (UInt64.add_left_inj 1).1 h
  calc
    x = x * 6364136223846793005 * 13877824140714322085 := by rw [UInt64.mul_assoc, hinverse, UInt64.mul_one]
    _ = y * 6364136223846793005 * 13877824140714322085 := by rw [hproduct]
    _ = y := by rw [UInt64.mul_assoc, hinverse, UInt64.mul_one]

theorem seeded_injective : Function.Injective seeded := by
  intro seed other h
  apply seedStep_injective
  exact congrArg Random.a h

/-- After a zero the seeding sequence goes on with a one. -/
theorem seeded_ne_allZero (seed : UInt64) : seeded seed ≠ allZero := by
  intro h
  have ha : seedStep seed = 0 := congrArg Random.a h
  have hb : seedStep (seedStep seed) = 0 := congrArg Random.b h
  rw [ha] at hb
  exact absurd hb (by decide)

/-! ### Simulated flights -/

theorem state_simulateRows (conditions : Conditions) (index : Nat) (speeds : List Float) (r : Random) :
    (simulateRows conditions index speeds r).2 = r.drawn (4 * speeds.length) := by
  induction speeds generalizing index r with
  | nil => rfl
  | cons v speeds ih =>
      have hrow : (simulateRow conditions index v r).2 = r.drawn 4 := rfl
      rw [simulateRows, ih, hrow, List.length_cons, Nat.mul_succ]
      exact (Function.iterate_add_apply _ _ _ _).symm

/-- Simulating a flight draws four words for each sample of the schedule. -/
theorem state_simulate (legs : List (Leg Float)) (conditions : Conditions) (r : Random) :
    (simulate legs conditions r).2 = r.drawn (4 * ((speedProfile rampLimit 0.8 legs).getD []).length) :=
  state_simulateRows conditions 0 _ r

/-- The source of random numbers never degenerates. No seed gives four zero words, a draw loses nothing of a state, and
    only four zero words lead to four zero words; so however many words are drawn, the state is never all zero and
    different seeds have different states. Simulating a flight is nothing but a number of such draws. -/
theorem states_never_degenerate :
    (∀ seed, seeded seed ≠ allZero) ∧
    Function.Injective (fun r : Random => r.next.2) ∧
    (∀ r : Random, r.next.2 = allZero ↔ r = allZero) ∧
    (∀ seed draws, (seeded seed).drawn draws ≠ allZero) ∧
    (∀ seed other draws, (seeded seed).drawn draws = (seeded other).drawn draws ↔ seed = other) ∧
    ∀ legs conditions r, ∃ draws, (simulate legs conditions r).2 = r.drawn draws := by
  refine ⟨seeded_ne_allZero, next_injective, fun r => next_eq_allZero_iff, ?_, ?_, ?_⟩
  · intro seed draws h
    exact seeded_ne_allZero seed (drawn_eq_allZero_iff.1 h)
  · intro seed other draws
    exact ⟨fun h => seeded_injective (drawn_injective draws h), fun h => h ▸ rfl⟩
  · intro legs conditions r
    exact ⟨_, state_simulate legs conditions r⟩

end FlightFit.Random
