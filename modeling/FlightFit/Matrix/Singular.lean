import FlightFit.Matrix.Triangular

/-!
Module: FlightFit.Matrix.Singular
Purpose: Singular values. Rotations in the plane of two vectors make them orthogonal and keep the
  singular values of the matrix they form; repeated over all pairs until none is left to turn, they
  leave vectors whose lengths are the singular values. The matrix is first scaled by its largest entry
  and reduced to a triangle.
Main exports: singularValues
-/

namespace FlightFit

variable {α : Type} [RootedScalar α]

/-- Vectors whose cosine is below one in this number count as orthogonal. -/
def orthogonality : Nat := Nat.pow 10 13

/-- Two vectors rotated in their plane until they are orthogonal; nothing if they are already. -/
@[specialize]
def rotatePair? (u v : List α) : Option (List α × List α) :=
  let a := Scalar.dot u u
  let b := Scalar.dot v v
  let c := Scalar.dot u v
  let scale := RootedScalar.root a * RootedScalar.root b
  if Scalar.less scale (Scalar.abs c * Scalar.ofNat orthogonality) then
    let zeta := (b - a) / (Scalar.ofNat 2 * c)
    let t := 1 / (Scalar.abs zeta + RootedScalar.root (1 + zeta * zeta))
    let t := if Scalar.less zeta 0 then -t else t
    let cosine := 1 / RootedScalar.root (1 + t * t)
    let sine := cosine * t
    some (List.zipWith (fun x y => cosine * x - sine * y) u v,
      List.zipWith (fun x y => sine * x + cosine * y) u v)
  else none

/-- Vectors after some turning, and whether any of them was turned. -/
structure Turning (α : Type) where
  vectors : List (List α)
  turned : Bool

/-- Rotates one vector against each vector of a list in turn. -/
@[specialize]
def rotateAgainst (u : List α) : List (List α) → List α × Turning α
  | [] => (u, ⟨[], false⟩)
  | v :: rest => match rotatePair? u v with
    | some (u, v) =>
      let (u, others) := rotateAgainst u rest
      (u, ⟨v :: others.vectors, true⟩)
    | none =>
      let (u, others) := rotateAgainst u rest
      (u, ⟨v :: others.vectors, others.turned⟩)

/-- Rotates every pair of a list once. `fuel` is the number of vectors. -/
@[specialize]
def sweep : Nat → List (List α) → Turning α
  | fuel + 1, u :: rest =>
    let (u, others) := rotateAgainst u rest
    let swept := sweep fuel others.vectors
    ⟨u :: swept.vectors, others.turned || swept.turned⟩
  | _, vectors => ⟨vectors, false⟩

/-- Sweeps until nothing turns, a number of times at most. -/
@[specialize]
def sweeps : Nat → List (List α) → List (List α)
  | 0, vectors => vectors
  | count + 1, vectors =>
    let swept := sweep vectors.length vectors
    if swept.turned then sweeps count swept.vectors else swept.vectors

/-- The largest absolute value in a list of vectors. -/
@[specialize]
def largest (vectors : List (List α)) : α :=
  vectors.flatten.foldl (fun m x => if Scalar.less m (Scalar.abs x) then Scalar.abs x else m) 0

/-- Puts a value before the first smaller one. -/
@[specialize]
def rank (value : α) : List α → List α
  | [] => [value]
  | other :: rest => if Scalar.less other value then value :: other :: rest else other :: rank value rest

/-- The singular values of a matrix, as many as the smaller of its sizes, the largest first. -/
@[specialize]
def singularValues (m : Matrix α) : List α :=
  let tall := if m.cols ≤ m.height then m.columns else m.rows
  let top := largest tall
  let scaled := if Scalar.isZero top then tall else tall.map (scaleDown top)
  let (triangle, _) := triangularize scaled
  let vectors := sweeps 30 (triangle.fullRows 0)
  let values := vectors.map fun v => RootedScalar.root (Scalar.dot v v) * (if Scalar.isZero top then 1 else top)
  values.foldr rank []

end FlightFit
