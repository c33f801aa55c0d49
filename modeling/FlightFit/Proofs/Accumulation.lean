import FlightFit.Proofs.Reading
import FlightFit.Run.Pipeline

/-!
Module: FlightFit.Proofs.Accumulation
Purpose: What reading a list of windows does. For a model that has only read for itself, whether a window
  is taken does not depend on the windows before it: the refused ones are those that the model could not
  read to begin with, and the rows of the others are stacked in order.
Main exports: Model.refusal?, Model.batch?, Model.canRead, accumulate_append, accumulate_map,
  accumulate_cons_cases, skippedWindows_accumulate, accumulate_stacked, parameters_accumulate,
  accumulateWindows_takes_readable_windows
-/

namespace FlightFit

namespace Model

/-- A window that the model cannot read, with the reason. -/
def refusal? (m : Model) (table : Table) (w : Window) : Option SkippedWindow :=
  match m.readBatch table w with
  | .ok _ => none
  | .error fault => some ⟨w, fault⟩

/-- The batch of a window that the model can read. -/
def batch? (m : Model) (table : Table) (w : Window) : Option TrainingSet := (m.readBatch table w).toOption

/-- Whether the model can read a window. -/
def canRead (m : Model) (table : Table) (w : Window) : Bool := (m.readBatch table w).isOk

section Readable

variable {m : Model} {table : Table} {w : Window} {batch : TrainingSet} {fault : Fault}

theorem refusal?_of_ok (h : m.readBatch table w = .ok batch) : m.refusal? table w = none := by
  simp [refusal?, h]

theorem refusal?_of_error (h : m.readBatch table w = .error fault) :
    m.refusal? table w = some ⟨w, fault⟩ := by
  simp [refusal?, h]

theorem batch?_of_ok (h : m.readBatch table w = .ok batch) : m.batch? table w = some batch := by
  simp [batch?, h, Except.toOption]

theorem batch?_of_error (h : m.readBatch table w = .error fault) : m.batch? table w = none := by
  simp [batch?, h, Except.toOption]

theorem canRead_of_ok (h : m.readBatch table w = .ok batch) : m.canRead table w = true := by
  simp [canRead, h, Except.isOk, Except.toBool]

theorem canRead_of_error (h : m.readBatch table w = .error fault) : m.canRead table w = false := by
  simp [canRead, h, Except.isOk, Except.toBool]

end Readable

section Congruence

variable {m m' : Model} (h : m.transform = m'.transform) (table : Table)
include h

theorem refusal?_congr : m.refusal? table = m'.refusal? table := by
  funext w
  unfold refusal?
  rw [readBatch_congr h]

theorem batch?_congr : m.batch? table = m'.batch? table := by
  funext w
  unfold batch?
  rw [readBatch_congr h]

end Congruence

/-- The batches of the windows that a model can read have as many rows as these windows. -/
theorem length_rows_batches (m : Model) (table : Table) (windows : List Window) :
    ((windows.filterMap (m.batch? table)).flatMap fun batch => batch.x.rows).length =
      Window.totalLen (windows.filter (m.canRead table)) := by
  induction windows with
  | nil => rfl
  | cons w rest ih =>
      cases hbatch : m.readBatch table w with
      | ok batch =>
          obtain ⟨hrows, -⟩ := readBatch_shape hbatch
          simp only [List.filterMap_cons, batch?_of_ok hbatch, List.flatMap_cons, List.length_append,
            TrainingSet.length_x_rows, hrows, ih, List.filter_cons, canRead_of_ok hbatch, if_true,
            Window.totalLen]
      | error fault =>
          simp only [List.filterMap_cons, batch?_of_error hbatch, ih, List.filter_cons,
            canRead_of_error hbatch, Bool.false_eq_true, if_false]

end Model

/-! ### Window after window -/

theorem accumulate_cons_of_ok {m next : Model} {table : Table} {w : Window} {reading : Model.Reading}
    (h : m.read table w = .ok (next, reading)) (rest : List Window) :
    accumulate m table (w :: rest) =
      ((accumulate next table rest).1, (w, .ok reading) :: (accumulate next table rest).2) := by
  simp [accumulate, h]

theorem accumulate_cons_of_error {m : Model} {table : Table} {w : Window} {fault : Fault}
    (h : m.read table w = .error fault) (rest : List Window) :
    accumulate m table (w :: rest) =
      ((accumulate m table rest).1, (w, .error fault) :: (accumulate m table rest).2) := by
  simp [accumulate, h]

/-- Windows can be accumulated in two parts. -/
theorem accumulate_append (m : Model) (table : Table) (windows more : List Window) :
    accumulate m table (windows ++ more) =
      ((accumulate (accumulate m table windows).1 table more).1,
        (accumulate m table windows).2 ++ (accumulate (accumulate m table windows).1 table more).2) := by
  induction windows generalizing m with
  | nil => rfl
  | cons w rest ih =>
      cases hread : m.read table w with
      | ok result =>
          obtain ⟨next, reading⟩ := result
          rw [List.cons_append, accumulate_cons_of_ok hread, accumulate_cons_of_ok hread, ih next]
          rfl
      | error fault =>
          rw [List.cons_append, accumulate_cons_of_error hread, accumulate_cons_of_error hread, ih m]
          rfl

/-- Where windows of two tables hold the same, accumulating them does the same. -/
theorem accumulate_map {table table' : Table} {f : Window → Window} {windows : List Window}
    (h : ∀ w ∈ windows, ∀ m : Model, m.readBatch table' (f w) = m.readBatch table w) (m : Model) :
    accumulate m table' (windows.map f) =
      ((accumulate m table windows).1,
        (accumulate m table windows).2.map fun outcome => (f outcome.1, outcome.2)) := by
  induction windows generalizing m with
  | nil => rfl
  | cons w rest ih =>
      have hrest := ih fun other hother => h other (List.mem_cons_of_mem _ hother)
      have hread' : m.read table' (f w) = m.read table w := by
        unfold Model.read
        rw [h w List.mem_cons_self m]
      cases hread : m.read table w with
      | ok result =>
          obtain ⟨next, reading⟩ := result
          rw [List.map_cons, accumulate_cons_of_ok (hread'.trans hread), accumulate_cons_of_ok hread,
            hrest next]
          rfl
      | error fault =>
          rw [List.map_cons, accumulate_cons_of_error (hread'.trans hread), accumulate_cons_of_error hread,
            hrest m]
          rfl

/-- The model after a window that was taken: it has the batch below its rows and no weights. -/
structure Taken (m : Model) (batch : TrainingSet) (next : Model) : Prop where
  shaped : next.Shaped
  transform : next.transform = m.transform
  stacked : TrainingSet.Stacked m.training [batch] next.training
  parameters : next.parameters = none

/-- A window is either refused, for the reason that reading its batch gives, and leaves no trace, or
    it is taken. -/
theorem accumulate_cons_cases {m : Model} (hm : m.Shaped) (table : Table) (w : Window) (rest : List Window) :
    (∃ fault, m.readBatch table w = .error fault ∧
      accumulate m table (w :: rest) =
        ((accumulate m table rest).1, (w, .error fault) :: (accumulate m table rest).2)) ∨
    (∃ batch next reading, m.readBatch table w = .ok batch ∧ Taken m batch next ∧
      accumulate m table (w :: rest) =
        ((accumulate next table rest).1, (w, .ok reading) :: (accumulate next table rest).2)) := by
  cases hbatch : m.readBatch table w with
  | error fault =>
      have hread := Model.read_of_readBatch_error hbatch
      exact .inl ⟨fault, rfl, accumulate_cons_of_error hread rest⟩
  | ok batch =>
      obtain ⟨next, reading, hread, habsorb⟩ := Model.read_of_readBatch_ok hm hbatch
      obtain ⟨hstacked, hnext⟩ := Model.absorb_of_readBatch hbatch habsorb
      have hshaped := Model.shaped_of_readBatch hbatch habsorb
      have htaken : Taken m batch next := ⟨hshaped, by rw [hnext], hstacked, by rw [hnext]⟩
      exact .inr ⟨batch, next, reading, rfl, htaken, accumulate_cons_of_ok hread rest⟩

/-- The skipped windows are those that the model could not read to begin with. -/
theorem skippedWindows_accumulate {m : Model} (hm : m.Shaped) (table : Table) (windows : List Window) :
    skippedWindows (accumulate m table windows).2 = windows.filterMap (m.refusal? table) := by
  induction windows generalizing m with
  | nil => rfl
  | cons w rest ih =>
      rcases accumulate_cons_cases hm table w rest with
        ⟨fault, hbatch, hcons⟩ | ⟨batch, next, reading, hbatch, htaken, hcons⟩
      · rw [hcons, List.filterMap_cons, Model.refusal?_of_error hbatch, ← ih hm]
        rfl
      · -- The next model has other rows, but refuses the same windows.
        have hnext := ih htaken.shaped
        rw [Model.refusal?_congr htaken.transform] at hnext
        rw [hcons, List.filterMap_cons, Model.refusal?_of_ok hbatch, ← hnext]
        rfl

/-- The rows of the windows that can be read are stacked in order. -/
theorem accumulate_stacked {m : Model} (hm : m.Shaped) (table : Table) (windows : List Window) :
    TrainingSet.Stacked m.training (windows.filterMap (m.batch? table))
      (accumulate m table windows).1.training := by
  induction windows generalizing m with
  | nil => exact .refl m.training
  | cons w rest ih =>
      rcases accumulate_cons_cases hm table w rest with
        ⟨fault, hbatch, hcons⟩ | ⟨batch, next, reading, hbatch, htaken, hcons⟩
      · rw [hcons, List.filterMap_cons, Model.batch?_of_error hbatch]
        exact ih hm
      · have hnext := ih htaken.shaped
        rw [Model.batch?_congr htaken.transform] at hnext
        rw [hcons, List.filterMap_cons, Model.batch?_of_ok hbatch]
        exact htaken.stacked.append hnext

/-- Weights are dropped when a window is taken, and only then. -/
theorem parameters_accumulate {m : Model} (hm : m.Shaped) (table : Table) (windows : List Window) :
    (accumulate m table windows).1.parameters =
      if windows.any (m.canRead table) then none else m.parameters := by
  induction windows generalizing m with
  | nil => rfl
  | cons w rest ih =>
      rcases accumulate_cons_cases hm table w rest with
        ⟨fault, hbatch, hcons⟩ | ⟨batch, next, reading, hbatch, htaken, hcons⟩
      · rw [hcons, ih hm, List.any_cons, Model.canRead_of_error hbatch, Bool.false_or]
      · -- Whether a later window is taken does not matter any more.
        rw [hcons, ih htaken.shaped, htaken.parameters, ite_self, List.any_cons, Model.canRead_of_ok hbatch]
        rfl

/-- Reading windows always succeeds, with what accumulating them gives. -/
theorem Action.outcome_accumulateWindows (m : Model) (table : Table) (windows : List Window)
    (session : Session) :
    (accumulateWindows m table windows).outcome session =
      .ok ((accumulate m table windows).1, skippedWindows (accumulate m table windows).2) := by
  unfold accumulateWindows outcome
  rw [runOn_bind, runOn_reportAll]
  rfl

/-- Reading a list of windows into a model whose rows it has read itself skips exactly the windows that
    the model could not read to begin with, each with the reason it gives then. The rows of the others go
    below the rows at hand, in order; there are as many as those windows have, and the weights are dropped
    if there is such a window and kept otherwise. -/
theorem accumulateWindows_takes_readable_windows (m : Model) (hm : m.SelfFed) (table : Table)
    (windows : List Window) (session : Session) :
    ∃ last,
      (accumulateWindows m table windows).outcome session =
        .ok (last, windows.filterMap (m.refusal? table)) ∧
      TrainingSet.Stacked m.training (windows.filterMap (m.batch? table)) last.training ∧
      last.rows = m.rows + Window.totalLen (windows.filter (m.canRead table)) ∧
      last.parameters = if windows.any (m.canRead table) then none else m.parameters := by
  have hstacked := accumulate_stacked hm.shaped table windows
  refine ⟨(accumulate m table windows).1, ?_, hstacked, ?_, parameters_accumulate hm.shaped table windows⟩
  · rw [Action.outcome_accumulateWindows, skippedWindows_accumulate hm.shaped]
  · rw [Model.rows, hstacked.rows_eq, m.length_rows_batches, Model.rows]

/-- A table of four rows. -/
def fourRows : Table := ⟨4, [⟨"a", [0.0, 1.0, 2.0, 3.0]⟩, ⟨"y", [0.0, 2.0, 4.0, 6.0]⟩]⟩

/-- Windows of which the second is empty, the third leaves the table, the fourth is inverted, the fifth
    overlaps the first and the last repeats it. -/
def mixedWindows : List Window := [⟨0, 2⟩, ⟨3, 3⟩, ⟨1, 9⟩, ⟨2, 1⟩, ⟨1, 3⟩, ⟨0, 2⟩]

theorem accumulateWindows_takes_readable_windows_mixed :
    Model.oneWeightModel.SelfFed ∧
    ∃ last,
      (accumulateWindows Model.oneWeightModel fourRows mixedWindows).outcome ⟨.empty, []⟩ =
        .ok (last, mixedWindows.filterMap (Model.oneWeightModel.refusal? fourRows)) ∧
      TrainingSet.Stacked Model.oneWeightModel.training
        (mixedWindows.filterMap (Model.oneWeightModel.batch? fourRows)) last.training ∧
      last.rows = Model.oneWeightModel.rows +
        Window.totalLen (mixedWindows.filter (Model.oneWeightModel.canRead fourRows)) ∧
      last.parameters = if mixedWindows.any (Model.oneWeightModel.canRead fourRows) then none
        else Model.oneWeightModel.parameters := by
  have hfed : Model.oneWeightModel.SelfFed := ⟨Model.oneWeightModel, [], rfl, by simp, rfl⟩
  exact ⟨hfed,
    accumulateWindows_takes_readable_windows Model.oneWeightModel hfed fourRows mixedWindows ⟨.empty, []⟩⟩

example : mixedWindows.map (Model.oneWeightModel.canRead fourRows) =
    [true, false, false, false, true, true] := by
  decide

end FlightFit
