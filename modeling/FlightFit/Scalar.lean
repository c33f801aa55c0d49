import FlightFit.Binary

/-!
Module: FlightFit.Scalar
Purpose: The arithmetic that the numeric routines are written against. The program runs them on
  doubles; stating them for any scalar keeps the algebra apart from rounding, so that the same
  definitions can be read over exact numbers.
Main exports: Scalar, RootedScalar, CountingScalar
-/

namespace FlightFit

/-- Ordered arithmetic with division. -/
class Scalar (α : Type) extends Zero α, One α, Add α, Sub α, Mul α, Div α, Neg α where
  /-- A natural number as a scalar. -/
  ofNat : Nat → α
  /-- Strictly less. -/
  less : α → α → Bool
  /-- Equal as numbers. -/
  same : α → α → Bool
  /-- Neither infinite nor undefined. -/
  finite : α → Bool

/-- Arithmetic with square roots. -/
class RootedScalar (α : Type) extends Scalar α where
  /-- The square root. -/
  root : α → α

/-- Arithmetic whose values can be rounded to a count. -/
class CountingScalar (α : Type) extends Scalar α where
  /-- The nearest natural number, halves upward; zero for negative values. -/
  count : α → Nat

namespace Scalar

variable {α : Type} [Scalar α]

/-- Whether a scalar is zero. -/
@[specialize]
def isZero (a : α) : Bool := same a 0

/-- Less or equal. -/
@[specialize]
def atMost (a b : α) : Bool := less a b || same a b

/-- The absolute value. -/
@[specialize]
def abs (a : α) : α := if less a 0 then -a else a

/-- The sum of a list, from the left. -/
@[specialize]
def sum (as : List α) : α := as.foldl (· + ·) 0

/-- The inner product of two lists added to `total`, from the left. -/
@[specialize]
def dotFrom (total : α) : List α → List α → α
  | a :: as, b :: bs => dotFrom (total + a * b) as bs
  | _, _ => total

/-- The inner product of two lists, from the left. -/
@[specialize]
def dot (as bs : List α) : α := dotFrom 0 as bs

end Scalar

instance : CountingScalar Float where
  zero := 0.0
  one := 1.0
  ofNat := fun n => Binary.signed false (BinaryFormat.double.nearest n 1)
  less := fun a b => a < b
  same := fun a b => a == b
  finite := Float.isFinite
  count := nearestCount

instance : RootedScalar Float where
  root := Float.sqrt

end FlightFit
