import FlightFit.Binary

/-!
Module: FlightFit.Generator.Random
Purpose: A deterministic source of random words, uniform doubles and normal deviates. The state is four
  words of 64 bits, seeded by a linear congruence and updated by shifts, rotations and exclusive ors.
Main exports: Random, Random.seeded, Random.next, Random.uniform, Random.normal
-/

namespace FlightFit

/-- The state of the source. -/
structure Random where
  a : UInt64
  b : UInt64
  c : UInt64
  d : UInt64
deriving DecidableEq, Repr

namespace Random

/-- The step of the seeding sequence. -/
def seedStep (x : UInt64) : UInt64 := x * 6364136223846793005 + 1

/-- The source of a seed: four steps of the seeding sequence. -/
def seeded (seed : UInt64) : Random :=
  let a := seedStep seed
  let b := seedStep a
  let c := seedStep b
  ⟨a, b, c, seedStep c⟩

/-- Rotates a word to the left by fewer than 64 places. -/
def rotateLeft (x : UInt64) (places : UInt64) : UInt64 := (x <<< places) ||| (x >>> (64 - places))

/-- The word that a state gives. -/
def word (r : Random) : UInt64 := rotateLeft (r.b * 5) 7 * 9

/-- The state after a draw. -/
def advance (r : Random) : Random :=
  let c := r.c ^^^ r.a
  let d := r.d ^^^ r.b
  ⟨r.a ^^^ d, r.b ^^^ c, c ^^^ (r.b <<< 17), rotateLeft d 45⟩

/-- Draws a word. -/
def next (r : Random) : UInt64 × Random := (r.word, r.advance)

/-- Draws a double from zero up to one. -/
def uniform (r : Random) : Float × Random :=
  ((r.word >>> 11).toFloat / 9007199254740992.0, r.advance)

/-- The larger of two doubles; an undefined first one does not count. -/
def atLeast (low x : Float) : Float := if low < x then x else low

/-- The circle number. -/
def circleNumber : Float := 3.141592653589793

/-- Draws a normal deviate by the polar form of two uniform ones. -/
def normal (mean deviation : Float) (r : Random) : Float × Random :=
  let (u, r) := r.uniform
  let (v, r) := r.uniform
  let z := Float.sqrt (-2.0 * Float.log (atLeast 1e-15 u)) * Float.cos (2.0 * circleNumber * v)
  (mean + deviation * z, r)

end Random

end FlightFit
