import FlightFit.Fault
import FlightFit.Matrix.Basic

/-!
Module: FlightFit.TrainingSet
Purpose: Accumulated feature and target rows. A set without rows has no column counts of its own and
  takes those of the first rows it gets; batches can be built apart and merged. The entries are kept
  with the last one first, so that a batch is added without going through what is there already;
  `TrainingSet.x` and `TrainingSet.y` are the matrices they stand for.
Main exports: TrainingSet, TrainingSet.x, TrainingSet.y, TrainingSet.append, TrainingSet.ofMatrices,
  TrainingSet.merge
-/

namespace FlightFit

/-- Feature rows and, for each of them, a target row. -/
structure TrainingSet where
  rows : Nat
  features : Nat
  targets : Nat
  /-- The entries of the feature rows, the last one first. -/
  featureEntries : List Float
  /-- The entries of the target rows, the last one first. -/
  targetEntries : List Float
  featuresFilled : featureEntries.length = rows * features
  targetsFilled : targetEntries.length = rows * targets

namespace TrainingSet

/-- The set without rows. -/
def empty : TrainingSet := ⟨0, 0, 0, [], [], rfl, rfl⟩

/-- The feature rows. -/
def x (s : TrainingSet) : Matrix Float where
  height := s.rows
  cols := s.features
  entries := s.featureEntries.reverse
  filled := by rw [List.length_reverse, s.featuresFilled]

/-- The target rows. -/
def y (s : TrainingSet) : Matrix Float where
  height := s.rows
  cols := s.targets
  entries := s.targetEntries.reverse
  filled := by rw [List.length_reverse, s.targetsFilled]

/-- Whether there are no rows. -/
def isEmpty (s : TrainingSet) : Bool := s.rows == 0

/-- The set of aligned rows. -/
def ofAligned (x y : Matrix Float) (h : x.height = y.height) : TrainingSet where
  rows := x.height
  features := x.cols
  targets := y.cols
  featureEntries := x.entries.reverse
  targetEntries := y.entries.reverse
  featuresFilled := by rw [List.length_reverse, x.filled]
  targetsFilled := by rw [List.length_reverse, y.filled, h]

theorem x_ofAligned (x y : Matrix Float) (h : x.height = y.height) : (ofAligned x y h).x = x := by
  simp [ofAligned, TrainingSet.x]

theorem y_ofAligned (x y : Matrix Float) (h : x.height = y.height) : (ofAligned x y h).y = y := by
  cases y
  simp [ofAligned, TrainingSet.y, h]

/-- Puts the rows of one set below those of another with the same columns. -/
def stack (s other : TrainingSet) (hx : other.features = s.features) (hy : other.targets = s.targets) :
    TrainingSet where
  rows := s.rows + other.rows
  features := s.features
  targets := s.targets
  featureEntries := other.featureEntries ++ s.featureEntries
  targetEntries := other.targetEntries ++ s.targetEntries
  featuresFilled := by
    rw [List.length_append, s.featuresFilled, other.featuresFilled, hx, Nat.add_mul, Nat.add_comm]
  targetsFilled := by
    rw [List.length_append, s.targetsFilled, other.targetsFilled, hy, Nat.add_mul, Nat.add_comm]

theorem x_stack (s other : TrainingSet) (hx : other.features = s.features)
    (hy : other.targets = s.targets) : (s.stack other hx hy).x = s.x.stack other.x hx := by
  simp [stack, TrainingSet.x, Matrix.stack]

theorem y_stack (s other : TrainingSet) (hx : other.features = s.features)
    (hy : other.targets = s.targets) : (s.stack other hx hy).y = s.y.stack other.y hy := by
  simp [stack, TrainingSet.y, Matrix.stack]

/-- Merges another set below this one. An empty set on either side changes nothing. -/
def merge (s other : TrainingSet) : Except Fault TrainingSet :=
  if other.isEmpty then .ok s
  else if s.isEmpty then .ok other
  else if h : other.features = s.features ∧ other.targets = s.targets then .ok (s.stack other h.1 h.2)
  else .error (.shapeMismatch (.batchColumns other.features other.targets s.features s.targets))

/-- Appends aligned rows. -/
def append (s : TrainingSet) (x y : Matrix Float) : Except Fault TrainingSet :=
  if h : x.height = y.height then
    if x.height = 0 then .ok s
    else if s.isEmpty then .ok (ofAligned x y h)
    else if hc : x.cols = s.features ∧ y.cols = s.targets then .ok (s.stack (ofAligned x y h) hc.1 hc.2)
    else .error (.shapeMismatch (.batchColumns x.cols y.cols s.features s.targets))
  else .error (.shapeMismatch (.rowCounts x.height y.height))

/-- The set of given rows. -/
def ofMatrices (x y : Matrix Float) : Except Fault TrainingSet := empty.append x y

end TrainingSet

end FlightFit
