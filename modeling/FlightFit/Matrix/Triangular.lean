import FlightFit.Matrix.Basic

/-!
Module: FlightFit.Matrix.Triangular
Purpose: Systems with more equations than unknowns in triangular form. Every unknown's column is mapped
  onto its first coordinate by a reflection, which is applied to the columns after it as well; what is
  left below the first row is a smaller system of the same kind. The reflections, applied to the unit
  vectors, give an orthonormal basis of the columns, in which the columns form a triangle; turned around
  where its diagonal is negative, the two are the factors of the matrix.
Main exports: Reflection, reflectionOf, Triangle, triangularize, basis, factorize, backSubstitute,
  solveTriangular
-/

namespace FlightFit

variable {α : Type} [RootedScalar α]

/-- A reflection that maps a column onto its first coordinate. -/
structure Reflection (α : Type) where
  /-- The unit normal of the reflecting plane; there is none when the column is zero already. -/
  axis : Option (List α)
  /-- The first coordinate of the mapped column. -/
  image : α

/-- Divides every coordinate. -/
@[specialize]
def scaleDown (d : α) (v : List α) : List α := v.map (· / d)

/-- The reflection for a column. The sign of its image is opposite to the first coordinate's, so that
    nothing cancels in the axis; the axis is brought to unit length twice, since the first division
    can be inexact for tiny columns. -/
@[specialize]
def reflectionOf (column : List α) : Reflection α :=
  match column with
  | [] => ⟨none, 0⟩
  | head :: tail =>
    let square := Scalar.dot column column
    let norm := RootedScalar.root square
    let signed := if Scalar.less head 0 then -norm else norm
    let factor := (square + Scalar.abs head * norm) * Scalar.ofNat 2
    if Scalar.isZero factor then ⟨none, signed⟩
    else
      let axis := scaleDown (RootedScalar.root factor) ((head + signed) :: tail)
      ⟨some (scaleDown (RootedScalar.root (Scalar.dot axis axis)) axis), -signed⟩

/-- Applies a reflection to a column. -/
@[specialize]
def Reflection.apply (r : Reflection α) (v : List α) : List α :=
  match r.axis with
  | none => v
  | some axis =>
    let twice := Scalar.ofNat 2 * Scalar.dot axis v
    List.zipWith (fun c a => c - twice * a) v axis

/-- A triangular matrix: each row is its diagonal entry and the entries to the right of it. -/
abbrev Triangle (α : Type) := List (α × List α)

/-- Reduces columns to triangular form by reflections. `fuel` is the number of columns. -/
@[specialize]
def reduce : Nat → List (List α) → Triangle α × List (Reflection α)
  | fuel + 1, column :: columns =>
    let reflection := reflectionOf column
    let columns := columns.map reflection.apply
    let (triangle, reflections) := reduce fuel (columns.map List.tail)
    ((reflection.image, columns.map fun c => c.headD 0) :: triangle, reflection :: reflections)
  | _, _ => ([], [])

/-- The triangular form of columns, and the reflections that lead to it. -/
@[specialize]
def triangularize (columns : List (List α)) : Triangle α × List (Reflection α) :=
  reduce columns.length columns

/-- The orthonormal vectors of a given length onto which reflections map the first unit vectors; each
    reflection leaves the coordinates before its own alone. -/
@[specialize]
def basis : Nat → List (Reflection α) → List (List α)
  | _, [] => []
  | length, reflection :: reflections =>
    let first := 1 :: List.replicate (length - 1) 0
    let others := (basis (length - 1) reflections).map fun v => 0 :: v
    (first :: others).map reflection.apply

/-- The rows of a triangle, written out with the zeros below its diagonal. -/
@[specialize]
def Triangle.fullRows : Nat → Triangle α → List (List α)
  | _, [] => []
  | offset, (diagonal, right) :: rows =>
    (List.replicate offset 0 ++ diagonal :: right) :: Triangle.fullRows (offset + 1) rows

/-- The triangle in rows that are written out, whatever they have below the diagonal. -/
@[specialize]
def Triangle.ofRows : Nat → List (List α) → Triangle α
  | _, [] => []
  | offset, row :: rows =>
    ((row.drop offset).headD 0, (row.drop offset).tail) :: Triangle.ofRows (offset + 1) rows

/-- A row of a triangle with its vector, both turned around if the diagonal entry is negative. -/
@[specialize]
def upright (row : α × List α) (vector : List α) : (α × List α) × List α :=
  if Scalar.less row.1 0 then ((-row.1, row.2.map fun c => -c), vector.map fun c => -c) else (row, vector)

/-- A matrix as the product of one with orthonormal columns and an upper triangular one, whose diagonal
    is not negative. -/
@[specialize]
def factorize (x : Matrix α) : Matrix α × Matrix α :=
  let (triangle, reflections) := triangularize x.columns
  let pairs := List.zipWith upright triangle (basis x.height reflections)
  (.ofColumns x.height (pairs.map Prod.snd),
    (Matrix.ofColumns x.cols (Triangle.fullRows 0 (pairs.map Prod.fst))).transpose)

/-- Solves a triangular system from the last row up; a zero on the diagonal leaves it unsolved. The known
    terms of a row are taken away from the last to the first. -/
@[specialize]
def backSubstitute : Triangle α → List α → Option (List α)
  | [], _ => some []
  | (diagonal, right) :: rows, side => do
    let solution ← backSubstitute rows side.tail
    if Scalar.isZero diagonal then none
    else
      let terms := List.zipWith (fun coefficient x => coefficient * x) right solution
      some (terms.foldr (fun term left => left - term) (side.headD 0) / diagonal :: solution)

/-- Solves a triangular system for one side after another. -/
@[specialize]
def backSubstituteAll (triangle : Triangle α) : List (List α) → Option (List (List α))
  | [] => some []
  | side :: sides => do
    let weights ← backSubstitute triangle side
    let more ← backSubstituteAll triangle sides
    some (weights :: more)

/-- The solution of a system whose matrix is upper triangular; what stands below its diagonal is not looked
    at. -/
@[specialize]
def solveTriangular (r sides : Matrix α) : Option (Matrix α) := do
  let weights ← backSubstituteAll (Triangle.ofRows 0 r.rows) sides.columns
  some (Matrix.ofColumns r.cols weights)

end FlightFit
