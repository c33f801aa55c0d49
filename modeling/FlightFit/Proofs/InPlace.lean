import FlightFit.Proofs.Buffers
import FlightFit.Proofs.ModelLife

/-!
Module: FlightFit.Proofs.InPlace
Purpose: Models as they are changed in memory. Reading, absorbing and training make their checks before they
  change anything, so that what fails leaves no trace, and in memory they do what `Model.perform` says.
Main exports: Holding, Holding.atomic_onTraining, Model.Change, Model.Change.atomic_edit, Model.runOn_edit,
  Model.failed_changes_leave_no_trace
-/

namespace FlightFit

/-- A model in memory. -/
structure Holding where
  transform : Transform
  regressor : Regressor
  training : Buffers
  parameters : Option (Matrix Float)

namespace Holding

variable {α : Type}

/-- The stage a model is in. -/
def state (held : Holding) : Model.State :=
  if held.parameters.isSome then .trained
  else if held.training.isEmpty then .empty
  else .accumulating

/-- Edits the training set of a model. -/
def onTraining (edit : Edit Buffers α) : Edit Holding α := do
  let held ← get
  set { held with training := (edit.runOn held.training).2 }
  Edit.ofResult (edit.runOn held.training).1

/-- The rows of a window, without touching the model. -/
def readBatch (held : Holding) (table : Table) (w : Window) : Except Fault Buffers :=
  if w.isEmpty then .error (.emptyRange w.start w.stop)
  else do
    let (x, y) ← held.transform.build table w
    Buffers.ofMatrices x y

/-- Takes a batch into the training set, and then drops the fitted weights. -/
def absorb (batch : Buffers) : Edit Holding Unit :=
  if batch.isEmpty then pure ()
  else do
    onTraining (Buffers.merge batch)
    modify fun held => { held with parameters := none }

/-- Reads a window into the training set, and answers how many rows it has. -/
def read (table : Table) (w : Window) : Edit Holding Nat := do
  let held ← get
  let batch ← Edit.ofResult (held.readBatch table w)
  absorb batch
  pure batch.rows

/-- The weights for everything accumulated. -/
def fitted (held : Holding) : Except Fault (Matrix Float) :=
  if held.training.isEmpty then .error (.insufficientData 0)
  else do
    let x ← Buffers.matrix held.training.rows held.training.features held.training.x
    let y ← Buffers.matrix held.training.rows held.training.targets held.training.y
    held.regressor.train x y

/-- Fits the model to everything accumulated. -/
def train : Edit Holding (Matrix Float) := do
  let held ← get
  let weights ← Edit.ofResult held.fitted
  modify fun held => { held with parameters := some weights }
  pure weights

open Edit

theorem runOn_onTraining (edit : Edit Buffers α) (held : Holding) :
    (onTraining edit).runOn held =
      ((edit.runOn held.training).1, { held with training := (edit.runOn held.training).2 }) := by
  unfold onTraining
  rw [runOn_bind_of_ok (runOn_get held), runOn_bind_of_ok (runOn_set _ held), runOn_ofResult]

/-- What is atomic on the training set is atomic on the model. -/
theorem atomic_onTraining {edit : Edit Buffers α} (h : Atomic edit) : Atomic (onTraining edit) := by
  intro held after fault hrun
  rw [runOn_onTraining, Prod.mk.injEq] at hrun
  rcases hrun with ⟨hfault, rfl⟩
  have hsame : (edit.runOn held.training).2 = held.training := h held.training _ fault (Prod.ext hfault rfl)
  rw [hsame]

/-- The weights are dropped when the rows are in. -/
theorem atomic_absorb (batch : Buffers) : Atomic (absorb batch) := by
  unfold absorb
  split
  · exact (sure_pure ()).atomic
  · apply (atomic_onTraining (Buffers.atomic_merge batch)).bind
    intro _
    exact sure_modify _

theorem atomic_read (table : Table) (w : Window) : Atomic (read table w) := by
  apply looks_get.bind
  intro held
  apply (looks_ofResult _).bind
  intro batch
  apply (atomic_absorb batch).bind
  intro _
  exact sure_pure _

/-- The weights are replaced when there are new ones. -/
theorem atomic_train : Atomic train := by
  apply looks_get.bind
  intro held
  apply (looks_ofResult _).bind
  intro weights
  apply Sure.atomic
  apply (sure_modify _).bind
  intro _
  exact sure_pure weights

end Holding

namespace Model

/-- A model as it lies in memory. -/
def holding (m : Model) : Holding := ⟨m.transform, m.regressor, m.training.buffers, m.parameters⟩

/-- What is left in memory of a model after an operation on it. -/
def settled (m : Model) : Except Fault Model → Except Fault Unit × Holding
  | .ok next => (.ok (), next.holding)
  | .error fault => (.error fault, m.holding)

theorem holding_state (m : Model) : m.holding.state = m.state := rfl

theorem holding_readBatch (m : Model) (table : Table) (w : Window) :
    m.holding.readBatch table w = (m.readBatch table w).map TrainingSet.buffers := by
  unfold Holding.readBatch readBatch
  split
  · rfl
  · rw [map_bind]
    simp only [TrainingSet.buffers_ofMatrices]
    rfl

theorem holding_fitted (m : Model) : m.holding.fitted = m.fitted := by
  have hx : Buffers.matrix m.holding.training.rows m.holding.training.features m.holding.training.x =
      .ok m.training.x := m.training.matrix_x
  have hy : Buffers.matrix m.holding.training.rows m.holding.training.targets m.holding.training.y =
      .ok m.training.y := m.training.matrix_y
  unfold Holding.fitted fitted
  rw [hx, hy]
  rfl

theorem runOn_absorb (m : Model) (batch : TrainingSet) :
    (Holding.absorb batch.buffers).runOn m.holding = m.settled (m.absorb batch) := by
  unfold absorb Holding.absorb
  by_cases hbatch : batch.isEmpty = true
  · have hbuffers : batch.buffers.isEmpty = true := hbatch
    rw [if_pos hbatch, if_pos hbuffers]
    rfl
  · have hbuffers : ¬batch.buffers.isEmpty = true := hbatch
    have hmerge : (Holding.onTraining (Buffers.merge batch.buffers)).runOn m.holding =
        ((m.training.settled (m.training.merge batch)).1,
          { m.holding with training := (m.training.settled (m.training.merge batch)).2 }) := by
      rw [Holding.runOn_onTraining, ← m.training.runOn_merge batch]
      rfl
    rw [if_neg hbatch, if_neg hbuffers]
    cases h : m.training.merge batch with
    | ok training =>
        rw [h] at hmerge
        rw [Edit.runOn_bind_of_ok hmerge]
        rfl
    | error fault =>
        rw [h] at hmerge
        rw [Edit.runOn_bind_of_error hmerge]
        rfl

theorem runOn_read (m : Model) (table : Table) (w : Window) :
    (Holding.read table w).runOn m.holding =
      match m.read table w with
      | .ok (next, reading) => (.ok reading.added, next.holding)
      | .error fault => (.error fault, m.holding) := by
  unfold Holding.read read
  rw [Edit.runOn_bind_of_ok (Edit.runOn_get _), holding_readBatch]
  cases m.readBatch table w with
  | error fault => rfl
  | ok batch =>
      have habsorb := m.runOn_absorb batch
      rw [ok_bind]
      cases h : m.absorb batch with
      | ok next =>
          rw [h] at habsorb
          exact Edit.runOn_bind_of_ok habsorb _
      | error fault =>
          rw [h] at habsorb
          exact Edit.runOn_bind_of_error habsorb _

theorem runOn_train (m : Model) :
    Holding.train.runOn m.holding =
      match m.fitted with
      | .ok weights => (.ok weights, { m.holding with parameters := some weights })
      | .error fault => (.error fault, m.holding) := by
  unfold Holding.train
  rw [Edit.runOn_bind_of_ok (Edit.runOn_get _), holding_fitted]
  cases m.fitted with
  | ok weights => rfl
  | error fault => rfl

/-- Something that is done with a model and may change it. -/
inductive Change where
  | read (table : Table) (window : Window)
  | absorb (batch : TrainingSet)
  | train

namespace Change

/-- The operation that makes a change. -/
def operation : Change → Operation
  | .read table w => .read table w
  | .absorb batch => .absorb batch
  | .train => .train

/-- The change in memory. -/
def edit : Change → Edit Holding Answer
  | .read table w => do
    let rows ← Holding.read table w
    pure (.added rows)
  | .absorb batch => do
    Holding.absorb batch.buffers
    pure .done
  | .train => do
    let weights ← Holding.train
    pure (.weights weights)

/-- Every change makes its checks before it changes anything. -/
theorem atomic_edit (change : Change) : change.edit.Atomic := by
  cases change with
  | read table w => exact (Holding.atomic_read table w).bind fun _ => Edit.sure_pure _
  | absorb batch => exact (Holding.atomic_absorb batch.buffers).bind fun _ => Edit.sure_pure _
  | train => exact Holding.atomic_train.bind fun _ => Edit.sure_pure _

end Change

/-- A change in memory does what the operation says. -/
theorem runOn_edit (m : Model) (change : Change) :
    change.edit.runOn m.holding =
      ((m.perform change.operation).2, (m.perform change.operation).1.holding) := by
  cases change with
  | read table w =>
      have hread := m.runOn_read table w
      simp only [Change.edit, Change.operation, perform]
      cases h : m.read table w with
      | ok both =>
          rw [h] at hread
          rw [Edit.runOn_bind_of_ok hread]
          rfl
      | error fault =>
          rw [h] at hread
          rw [Edit.runOn_bind_of_error hread]
  | absorb batch =>
      have habsorb := m.runOn_absorb batch
      simp only [Change.edit, Change.operation, perform]
      cases h : m.absorb batch with
      | ok next =>
          rw [h] at habsorb
          rw [Edit.runOn_bind_of_ok habsorb]
          rfl
      | error fault =>
          rw [h] at habsorb
          rw [Edit.runOn_bind_of_error habsorb]
  | train =>
      have htrain := m.runOn_train
      simp only [Change.edit, Change.operation, perform]
      cases h : m.fitted with
      | ok weights =>
          rw [h] at htrain
          rw [Edit.runOn_bind_of_ok htrain]
          rfl
      | error fault =>
          rw [h] at htrain
          rw [Edit.runOn_bind_of_error htrain]

end Model

/-- What is left in memory after changes one after the other, whether they succeed or fail. -/
def Holding.after (held : Holding) : List Model.Change → Holding
  | [] => held
  | change :: changes => Holding.after (change.edit.runOn held).2 changes

namespace Model

/-- Along every life, what is in memory is the model. -/
theorem holding_after (m : Model) (changes : List Change) :
    m.holding.after changes = (m.performAll (changes.map Change.operation)).1.holding := by
  induction changes generalizing m with
  | nil => rfl
  | cons change changes ih =>
      rw [Holding.after, runOn_edit]
      exact ih _

/-- A change that fails leaves no trace, after whatever changes a model has been through, failed ones among
    them: its training set, its weights and so its stage are in memory as they were. The same goes for rows
    and batches that a training set refuses. All along, what is in memory is the model or the set. -/
theorem failed_changes_leave_no_trace (start : Model) (changes : List Change) :
    start.holding.after changes = (start.performAll (changes.map Change.operation)).1.holding ∧
    (start.holding.after changes).state = (start.performAll (changes.map Change.operation)).1.state ∧
    (∀ change : Change,
      change.edit.runOn (start.holding.after changes) =
        (((start.performAll (changes.map Change.operation)).1.perform change.operation).2,
          ((start.performAll (changes.map Change.operation)).1.perform change.operation).1.holding) ∧
      ∀ (fault : Fault) (after : Holding),
        change.edit.runOn (start.holding.after changes) = (.error fault, after) →
          after = start.holding.after changes ∧
          (start.performAll (changes.map Change.operation)).1.perform change.operation =
            ((start.performAll (changes.map Change.operation)).1, .error fault)) ∧
    ∀ b : Buffers, b.Reached →
      ∃ s : TrainingSet, s.Reached ∧ b = s.buffers ∧
        (∀ x y : Matrix Float,
          (Buffers.append x y).runOn b = s.settled (s.append x y) ∧
          ∀ (fault : Fault) (after : Buffers),
            (Buffers.append x y).runOn b = (.error fault, after) → after = b) ∧
        ∀ other : TrainingSet,
          (Buffers.merge other.buffers).runOn b = s.settled (s.merge other) ∧
          ∀ (fault : Fault) (after : Buffers),
            (Buffers.merge other.buffers).runOn b = (.error fault, after) → after = b := by
  have hlife := start.holding_after changes
  refine ⟨hlife, ?_, ?_, ?_⟩
  · rw [hlife, holding_state]
  · intro change
    have hchange := runOn_edit (start.performAll (changes.map Change.operation)).1 change
    rw [← hlife] at hchange
    refine ⟨hchange, ?_⟩
    intro fault after hrun
    -- In memory this holds of any state; that the model agrees holds of states that are models.
    refine ⟨change.atomic_edit _ _ fault hrun, ?_⟩
    rw [hchange] at hrun
    exact perform_of_error (congrArg Prod.fst hrun)
  · intro b hb
    rcases hb.exists_set with ⟨s, hs, rfl⟩
    refine ⟨s, hs, rfl, ?_, ?_⟩
    · intro x y
      exact ⟨s.runOn_append x y, fun fault after => Buffers.atomic_append x y _ after fault⟩
    · intro other
      exact ⟨s.runOn_merge other, fun fault after => Buffers.atomic_merge other.buffers _ after fault⟩

/-- A life in which training fails once, and then a row comes in. -/
def firstRowLife : List Change :=
  [.train, .absorb (.ofColumns 1 [[1.0]] [[3.0]])]

/-- A row that has a feature too many. -/
def wideRow : TrainingSet := .ofColumns 1 [[1.0], [2.0]] [[3.0]]

theorem failed_changes_leave_no_trace_wide_row :
    ∃ after : Holding,
      (Change.absorb wideRow).edit.runOn (oneWeightModel.holding.after firstRowLife) =
        (.error (.shapeMismatch (.batchColumns 2 1 1 1)), after) ∧
      after = oneWeightModel.holding.after firstRowLife ∧ after.state = .accumulating := by
  have hrun : (Change.absorb wideRow).edit.runOn (oneWeightModel.holding.after firstRowLife) =
      (.error (.shapeMismatch (.batchColumns 2 1 1 1)), oneWeightModel.holding.after firstRowLife) := rfl
  rcases failed_changes_leave_no_trace oneWeightModel firstRowLife with ⟨-, -, hchange, -⟩
  exact ⟨_, hrun, ((hchange _).2 _ _ hrun).1, rfl⟩

end Model

end FlightFit
