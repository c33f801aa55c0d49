import FlightFit.Matrix.Singular

/-!
Module: FlightFit.LeastSquares
Purpose: Ordinary least squares. A system is fitted when it has enough finite rows and its condition
  number is within a limit; the weights then come from the triangular form of the system. There is one
  column of weights for each target column. The singular values, the factors and the solution of a
  triangular system are asked of routines, which the fit takes as they are given; those of this library
  are one choice of them.
Main exports: Condition, FitFault, Routines, Routines.fit, Routines.own, conditionNumber, assess,
  solveSystem, fit
-/

namespace FlightFit

/-- A condition number. -/
inductive Condition (α : Type) where
  /-- There is an entry that is not finite. -/
  | undefined
  /-- The columns are dependent. -/
  | unbounded
  | value (ratio : α)
deriving Repr

/-- Why a system is not fitted. -/
inductive FitFault (α : Type) where
  | rowCounts (features targets : Nat)
  | noColumns
  | tooFewRows (rows : Nat)
  | unstable (condition : Condition α)
deriving Repr

variable {α : Type} [RootedScalar α]

/-- The larger of two values; one that is undefined does not count. -/
@[specialize]
def larger (a b : α) : α := if Scalar.less a b || !Scalar.same a a then b else a

/-- The smaller of two values; one that is undefined does not count. -/
@[specialize]
def smaller (a b : α) : α := if Scalar.less b a || !Scalar.same a a then b else a

/-- The ratio of the largest to the smallest of some singular values. -/
@[specialize]
def conditionOf : List α → Condition α
  | [] => .unbounded
  | s :: rest =>
    let low := rest.foldl smaller s
    if Scalar.atMost low 0 then .unbounded else .value (rest.foldl larger s / low)

/-- Whether a condition number is finite and within a limit. -/
@[specialize]
def Condition.within (limit : α) : Condition α → Bool
  | .value ratio => Scalar.finite ratio && !Scalar.less limit ratio
  | _ => false

/-- The solution of a system is accepted if there is one and it is finite. -/
@[specialize]
def accepted (condition : Condition α) : Option (Matrix α) → Except (FitFault α) (Matrix α)
  | some weights => if weights.all Scalar.finite then .ok weights else .error (.unstable condition)
  | none => .error (.unstable condition)

/-- The routines that a fit calls. What a call does besides answering is left to `M`. -/
structure Routines (M : Type → Type) (α : Type) where
  /-- The singular values of a matrix. -/
  singular : Matrix α → M (List α)
  /-- The factors of a matrix: one with orthonormal columns and an upper triangular one. -/
  factor : Matrix α → M (Matrix α × Matrix α)
  /-- The solution of a system whose matrix is upper triangular, if there is one. -/
  solve : Matrix α → Matrix α → M (Option (Matrix α))

namespace Routines

variable {M : Type → Type} [Monad M]

/-- The condition number of a matrix. The singular values are asked for only if all entries are finite. -/
@[specialize]
def conditionNumber (routines : Routines M α) (x : Matrix α) : M (Condition α) :=
  if x.height = 0 || x.cols = 0 then pure .unbounded
  else if !x.all Scalar.finite then pure .undefined
  else conditionOf <$> routines.singular x

/-- The condition number of a system that has the right shape, enough rows and finite targets. -/
@[specialize]
def assess (routines : Routines M α) (x y : Matrix α) : M (Except (FitFault α) (Condition α)) :=
  if y.height ≠ x.height then pure (.error (.rowCounts x.height y.height))
  else if x.cols = 0 then pure (.error .noColumns)
  else if x.height < x.cols then pure (.error (.tooFewRows x.height))
  else if !y.all Scalar.finite then pure (.error (.unstable .undefined))
  else .ok <$> routines.conditionNumber x

/-- The weights of a system: the coordinates of its targets in the orthonormal factor are the sides of a
    triangular system. -/
@[specialize]
def solveSystem (routines : Routines M α) (x y : Matrix α) : M (Option (Matrix α)) := do
  let (q, r) ← routines.factor x
  routines.solve (r.corner x.cols) ((q.transpose.mul y).top x.cols)

/-- The least-squares weights of a system. -/
@[specialize]
def fit (routines : Routines M α) (limit : α) (x y : Matrix α) : M (Except (FitFault α) (Matrix α)) := do
  match ← routines.assess x y with
  | .error fault => pure (.error fault)
  | .ok condition =>
    if condition.within limit then accepted condition <$> routines.solveSystem x y
    else pure (.error (.unstable condition))

/-- The routines of this library. They answer, and do nothing else. -/
@[specialize]
def own : Routines M α where
  singular x := pure (singularValues x)
  factor x := pure (factorize x)
  solve r sides := pure (solveTriangular r sides)

end Routines

/-- The ratio of the largest to the smallest singular value. -/
@[specialize]
def conditionNumber (x : Matrix α) : Condition α := Id.run (Routines.own.conditionNumber x)

/-- The condition number of a system that has the right shape, enough rows and finite targets. -/
@[specialize]
def assess (x y : Matrix α) : Except (FitFault α) (Condition α) := Id.run (Routines.own.assess x y)

/-- The weights of a system. -/
@[specialize]
def solveSystem (x y : Matrix α) : Option (Matrix α) := Id.run (Routines.own.solveSystem x y)

/-- The least-squares weights of a system. -/
@[specialize]
def fit (limit : α) (x y : Matrix α) : Except (FitFault α) (Matrix α) := Id.run (Routines.own.fit limit x y)

end FlightFit
