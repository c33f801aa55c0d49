import FlightFit.Scalar

/-!
Module: FlightFit.Generator.Profile
Purpose: Speed schedules. A schedule is a list of legs, each a target speed and a time to hold it; the
  speed moves to each target in steps of at most `accel · timeStep`.
Main exports: Leg, timeStep, ramp, speedProfile
-/

namespace FlightFit

/-- A target speed and the time to hold it. -/
structure Leg (α : Type) where
  target : α
  hold : α
deriving Repr

variable {α : Type} [CountingScalar α]

/-- The time between two samples. -/
def timeStep : α := 1 / Scalar.ofNat 10

/-- Speeds this close count as reached. -/
def speedSlack : α := 1 / Scalar.ofNat 1000000000

/-- The speed at the start of every schedule. -/
def startSpeed : α := Scalar.ofNat 5

/-- A value kept between `-bound` and `bound`. -/
def clamp (bound x : α) : α :=
  if Scalar.less x (-bound) then -bound
  else if Scalar.less bound x then bound
  else x

/-- The speeds on the way to a target, one for each step; none if `fuel` steps do not get there. -/
def ramp (bound target : α) : Nat → α → Option (List α)
  | fuel, speed =>
    if Scalar.less speedSlack (Scalar.abs (target - speed)) then
      match fuel with
      | 0 => none
      | fuel + 1 =>
        let next := speed + clamp bound (target - speed)
        (ramp bound target fuel next).map (next :: ·)
    else some []

/-- The samples of legs, from a speed on. -/
def profileFrom (fuel : Nat) (bound : α) : α → List (Leg α) → Option (List α)
  | _, [] => some []
  | speed, leg :: legs => do
    let climb ← ramp bound leg.target fuel speed
    let rest ← profileFrom fuel bound (climb.getLastD speed) legs
    some (climb ++ List.replicate (CountingScalar.count (leg.hold / timeStep)) leg.target ++ rest)

/-- The samples of a schedule, unless a ramp takes more than `fuel` steps. -/
def speedProfile (fuel : Nat) (accel : α) (legs : List (Leg α)) : Option (List α) :=
  (profileFrom fuel (accel * timeStep) startSpeed legs).map (startSpeed :: ·)

end FlightFit
