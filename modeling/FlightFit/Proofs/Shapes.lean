import FlightFit.Proofs.CutRanges
import FlightFit.Proofs.FitOutcomes
import FlightFit.Proofs.Restoring

/-!
Module: FlightFit.Proofs.Shapes
Purpose: Sizes agree. Every size is checked where two matrices meet: when a system is made, when rows are
  taken in, when weights are fitted and when they are used. A model that was built and only takes in rows
  which it can read passes all these checks but one, which refuses to fit a system without columns:
  `Model.WellShaped` ties the columns of the rows and of the weights to the transform, and every operation
  keeps it. What is left to go wrong with a window is the window itself and the data in it (`Fault.FromData`).
Main exports: Fault.FromData, Fault.IsShape, Model.fromData_of_readBatch, Model.WellShaped, Model.Operation.Own,
  Model.wellShaped_perform, Model.Follows, Model.built_model_meets_no_shape_fault
-/

namespace FlightFit

namespace Fault

/-- A fault that tells of sizes which do not agree. -/
def IsShape (fault : Fault) : Prop := ∃ reason, fault = .shapeMismatch reason

/-- A fault that comes from a window or from what a table holds there. -/
inductive FromData : Fault → Prop where
  | emptyRange (start stop : Nat) : FromData (.emptyRange start stop)
  | outOfBounds (start stop rows : Nat) : FromData (.outOfBounds start stop rows)
  | unknownChannel (name : String) : FromData (.unknownChannel name)
  | invalidFeature (row : Nat) (reason : FeatureFault) : FromData (.invalidFeature row reason)

theorem FromData.not_isShape {fault : Fault} (h : fault.FromData) : ¬ fault.IsShape := by
  rintro ⟨reason, rfl⟩
  cases h

end Fault

/-! ### Reading a window -/

namespace Transform

variable {t : Transform}

/-- The fuel-flow transform can be used with four feature channels. -/
theorem length_features_of_checked {features targets : List String} {bias : Float}
    (h : (fuelFlow features targets bias).checked = .ok (fuelFlow features targets bias)) :
    features.length = 4 := by
  simp only [checked] at h
  split at h
  · cases h
  · next hlength => exact Decidable.not_not.1 hlength

theorem fromData_of_featureRow (hchecked : t.checked = .ok t) {index : Nat} {raw : List Float} {fault : Fault}
    (hraw : raw.length = t.features.length) (h : t.featureRow index raw = .error fault) : fault.FromData := by
  cases t with
  | linear features targets intercept => cases h
  | fuelFlow features targets bias =>
      have hlength : raw.length = 4 := hraw.trans (length_features_of_checked hchecked)
      obtain ⟨v, p, temperature, alpha, hrow⟩ := exists_flowRow_of_length hlength
      simp only [featureRow, hrow, flowTerms] at h
      split at h
      · cases h
        exact .invalidFeature index .zeroTemperature
      · split at h
        · cases h
        · cases h
          exact .invalidFeature index _

theorem fromData_of_featureRows (hchecked : t.checked = .ok t) {index : Nat} {raw : List (List Float)}
    {fault : Fault} (hraw : ∀ row ∈ raw, row.length = t.features.length)
    (h : t.featureRows index raw = .error fault) : fault.FromData := by
  induction raw generalizing index with
  | nil => cases h
  | cons row rest ih =>
      obtain ⟨hrow, hrest⟩ := List.forall_mem_cons.1 hraw
      rw [featureRows] at h
      cases hfirst : t.featureRow index row with
      | error other =>
          rw [hfirst] at h
          cases h
          exact fromData_of_featureRow hchecked hrow hfirst
      | ok first =>
          rw [hfirst, ok_bind] at h
          cases hmore : t.featureRows (index + 1) rest with
          | error other =>
              rw [hmore] at h
              cases h
              exact ih hrest hmore
          | ok more =>
              rw [hmore] at h
              cases h

/-- A window is refused for the window or for the data in it, and for nothing else. -/
theorem fromData_of_windowRows (hchecked : t.checked = .ok t) {table : Table} {w : Window} {fault : Fault}
    (h : t.windowRows table w = .error fault) : fault.FromData := by
  unfold windowRows at h
  split at h
  · cases h
    exact .emptyRange w.start w.stop
  · split at h
    · cases h
      exact .outOfBounds w.start w.stop table.rows
    · unfold insideRows at h
      cases hfeatures : table.channelsNamed t.features with
      | error other =>
          rw [hfeatures] at h
          cases h
          obtain ⟨name, rfl⟩ := Table.exists_name_of_channelsNamed hfeatures
          exact .unknownChannel name
      | ok columns =>
          cases htargets : table.channelsNamed t.targets with
          | error other =>
              rw [hfeatures, htargets] at h
              cases h
              obtain ⟨name, rfl⟩ := Table.exists_name_of_channelsNamed htargets
              exact .unknownChannel name
          | ok targetColumns =>
              rw [hfeatures, htargets, ok_bind, ok_bind] at h
              cases hrows : t.featureRows 0 ((List.range' w.start w.len).map (Table.rowAt columns)) with
              | ok rows =>
                  rw [hrows] at h
                  cases h
              | error other =>
                  rw [hrows] at h
                  cases h
                  refine fromData_of_featureRows hchecked ?_ hrows
                  intro row hrow
                  obtain ⟨index, -, rfl⟩ := List.mem_map.1 hrow
                  exact (List.length_map _).trans (Table.length_of_channelsNamed hfeatures)

end Transform

theorem Model.fromData_of_readBatch {m : Model} (hchecked : m.transform.checked = .ok m.transform) {table : Table}
    {w : Window} {fault : Fault} (h : m.readBatch table w = .error fault) : fault.FromData :=
  Transform.fromData_of_windowRows hchecked (readBatch_eq_error_iff.1 h)

/-! ### Fitting weights and using them -/

/-- A system whose rows agree in number is refused for its shape when it has no columns, and only then. -/
theorem Regressor.train_isShape_iff {r : Regressor} {x y : Matrix Float} (hrows : y.height = x.height)
    {fault : Fault} (h : r.train x y = .error fault) : fault.IsShape ↔ x.cols = 0 := by
  have hshape : fault.IsShape ↔ ∃ reason, r.train x y = .error (.shapeMismatch reason) := by
    rw [h]
    simp only [Fault.IsShape, Except.error.injEq]
  rw [hshape, r.train_shapeMismatch_iff]
  exact or_iff_right (not_not_intro hrows)

theorem Regressor.exists_report {residuals : Matrix Float} (h : residuals.height ≠ 0) :
    ∃ report, Regressor.report residuals = .ok report := by
  unfold Regressor.report ErrorReport.ofResiduals
  rw [if_neg h]
  exact ⟨_, rfl⟩

/-- Rows and weights of matching sizes have an error. -/
theorem Regressor.exists_error (r : Regressor) {x y weights : Matrix Float} (hrows : x.height = y.height)
    (hsome : y.height ≠ 0) (hheight : weights.height = x.cols) (hcols : weights.cols = y.cols) :
    ∃ report, r.error x y weights = .ok report := by
  have hpredict : r.predict x weights = .ok (x.mul weights) := if_neg (Decidable.not_not.2 hheight.symm)
  have hshape : (x.mul weights).height = y.height ∧ (x.mul weights).cols = y.cols := ⟨hrows, hcols⟩
  unfold Regressor.error Regressor.residuals
  rw [hpredict, ok_bind, dif_pos hshape]
  exact Regressor.exists_report hsome

namespace Model

/-! ### What every operation keeps -/

/-- An operation that brings no rows but those of a batch which the model can read. -/
def Operation.Own (m : Model) : Operation → Prop
  | .absorb batch => ∃ table w, m.readBatch table w = .ok batch
  | _ => True

theorem Operation.own_congr {m m' : Model} (h : m.transform = m'.transform) {op : Operation} (hop : op.Own m) :
    op.Own m' := by
  cases op with
  | absorb batch =>
      obtain ⟨table, w, hbatch⟩ := hop
      exact ⟨table, w, (readBatch_congr h.symm table w).trans hbatch⟩
  | _ => trivial

/-- The transform can be used, rows have its columns, and weights fit them; where there are weights there
    are rows. -/
structure WellShaped (m : Model) : Prop where
  checked : m.transform.checked = .ok m.transform
  rows : m.Shaped
  weights : ∀ weights, m.parameters = some weights → m.training.isEmpty = false ∧
    weights.height = m.transform.featureColumns ∧ weights.cols = m.transform.targetColumns

theorem shaped_perform_own {m : Model} (hm : m.Shaped) {op : Operation} (hop : op.Own m) :
    (m.perform op).1.Shaped := by
  cases op with
  | absorb batch =>
      obtain ⟨table, w, hbatch⟩ := hop
      simp only [perform]
      split
      · next next habsorb => exact shaped_of_readBatch hbatch habsorb
      · exact hm
  | _ => exact shaped_perform hm rfl

theorem shape_of_fitted {m : Model} (hm : m.Shaped) {weights : Matrix Float} (h : m.fitted = .ok weights) :
    m.training.isEmpty = false ∧ weights.height = m.transform.featureColumns ∧
      weights.cols = m.transform.targetColumns := by
  unfold fitted at h
  split at h
  · cases h
  · next hrows =>
      have hsome : m.training.isEmpty = false := Bool.eq_false_iff.2 hrows
      obtain ⟨hheight, hcols⟩ := fit_shape (mapError_eq_ok_iff.1 h)
      obtain ⟨hfeatures, htargets⟩ := hm hsome
      exact ⟨hsome, hheight.trans hfeatures, hcols.trans htargets⟩

/-- An operation keeps the sizes in agreement. -/
theorem wellShaped_perform {m : Model} (hm : m.WellShaped) {op : Operation} (hop : op.Own m) :
    (m.perform op).1.WellShaped := by
  have hstep := step_perform m op
  refine ⟨?_, shaped_perform_own hm.rows hop, ?_⟩
  · rw [hstep.transform_eq]
    exact hm.checked
  · intro weights hweights
    generalize (m.perform op).1 = next at hstep hweights
    cases hstep with
    | unchanged => exact hm.weights weights hweights
    | grown batch training hbatch hmerge => cases hweights
    | fitted fit hfit =>
        cases hweights
        exact shape_of_fitted hm.rows hfit

/-- A model that was built keeps its sizes in agreement along its life. -/
theorem wellShaped_performAll {id : String} {transform : Transform} {options : RegressorOptions} {start : Model}
    (hbuild : Model.build id transform options = .ok start) {ops : List Operation}
    (hops : ∀ op ∈ ops, op.Own start) :
    (start.performAll ops).1.WellShaped ∧ (start.performAll ops).1.transform = transform := by
  obtain ⟨regressor, -, hchecked, rfl⟩ := build_eq_ok_iff.1 hbuild
  have hkeep : ∀ m : Model, ∀ op ∈ ops, m.WellShaped ∧ m.transform = transform →
      (m.perform op).1.WellShaped ∧ (m.perform op).1.transform = transform := by
    rintro m op hop ⟨hm, htransform⟩
    have hown : op.Own m := Operation.own_congr htransform.symm (hops op hop)
    exact ⟨wellShaped_perform hm hown, (step_perform m op).transform_eq.trans htransform⟩
  refine performAll_keeps hkeep ⟨⟨hchecked, shaped_of_isEmpty rfl, ?_⟩, rfl⟩
  intro weights hweights
  cases hweights

/-! ### What is answered -/

/-- An answer about a window is there when the window can be read, and otherwise fails with the fault of
    reading it. -/
structure Follows {α : Type} (answer : Except Fault α) (batch : Except Fault TrainingSet) : Prop where
  ok_iff : (∃ a, answer = .ok a) ↔ ∃ rows, batch = .ok rows
  error : ∀ fault, batch = .error fault → answer = .error fault

theorem follows_of_bind {α : Type} {batch : Except Fault TrainingSet} {next : TrainingSet → Except Fault α}
    (h : ∀ rows, batch = .ok rows → ∃ a, next rows = .ok a) : Follows (batch >>= next) batch := by
  cases batch with
  | ok rows => exact ⟨⟨fun _ => ⟨rows, rfl⟩, fun _ => h rows rfl⟩, fun fault hfault => by cases hfault⟩
  | error fault =>
      refine ⟨⟨fun hanswer => ?_, fun hbatch => ?_⟩, fun other hother => ?_⟩
      · obtain ⟨a, ha⟩ := hanswer
        cases ha
      · obtain ⟨rows, hrows⟩ := hbatch
        cases hrows
      · cases hother
        rfl

section Trained

variable {m : Model} {weights : Matrix Float} (hm : m.WellShaped) (hweights : m.parameters = some weights)
include hm hweights

theorem follows_predict (table : Table) (w : Window) : Follows (m.predict table w) (m.readBatch table w) := by
  have hstored : m.weights = .ok weights := by rw [Model.weights, hweights]
  unfold predict
  rw [hstored, ok_bind]
  refine follows_of_bind fun batch hbatch => ⟨batch.x.mul weights, if_neg (Decidable.not_not.2 ?_)⟩
  exact (readBatch_shape hbatch).2.2.1.trans (hm.weights weights hweights).2.1.symm

theorem follows_outSampleError (table : Table) (w : Window) :
    Follows (m.outSampleError table w) (m.readBatch table w) := by
  have hstored : m.weights = .ok weights := by rw [Model.weights, hweights]
  have hsteps : m.outSampleError table w =
      m.readBatch table w >>= fun batch => m.regressor.error batch.x batch.y weights := by
    unfold outSampleError outSampleResiduals
    rw [hstored, ok_bind, bind_assoc]
    rfl
  obtain ⟨-, hheight, hcols⟩ := hm.weights weights hweights
  rw [hsteps]
  apply follows_of_bind
  intro batch hbatch
  obtain ⟨-, hrows, hfeatures, htargets⟩ := readBatch_shape hbatch
  apply Regressor.exists_error
  · exact rfl
  · exact Nat.ne_of_gt (TrainingSet.isEmpty_eq_false_iff.1 hrows)
  · exact hheight.trans hfeatures.symm
  · exact hcols.trans htargets.symm

theorem exists_inSampleError : ∃ report, m.inSampleError = .ok report := by
  have hstored : m.weights = .ok weights := by rw [Model.weights, hweights]
  obtain ⟨hrows, hheight, hcols⟩ := hm.weights weights hweights
  obtain ⟨hfeatures, htargets⟩ := hm.rows hrows
  unfold inSampleError inSampleResiduals
  rw [hstored, ok_bind, if_neg (Bool.eq_false_iff.1 hrows)]
  apply Regressor.exists_error m.regressor
  · exact rfl
  · exact Nat.ne_of_gt (TrainingSet.isEmpty_eq_false_iff.1 hrows)
  · exact hheight.trans hfeatures.symm
  · exact hcols.trans htargets.symm

end Trained

theorem weights_of_none {m : Model} (h : m.parameters = none) : m.weights = .error (.insufficientData m.rows) := by
  rw [Model.weights, h]

theorem not_isShape_insufficientData (rows : Nat) : ¬ (Fault.insufficientData rows).IsShape := by
  rintro ⟨reason, hreason⟩
  cases hreason

theorem Follows.not_isShape {α : Type} {m : Model} (hm : m.WellShaped) {table : Table} {w : Window}
    {answer : Except Fault α} (hfollows : Follows answer (m.readBatch table w)) {fault : Fault}
    (h : answer = .error fault) : ¬ fault.IsShape := by
  cases hbatch : m.readBatch table w with
  | ok rows =>
      obtain ⟨a, ha⟩ := hfollows.ok_iff.2 ⟨rows, hbatch⟩
      rw [ha] at h
      cases h
  | error other =>
      rw [hfollows.error other hbatch] at h
      cases h
      exact (fromData_of_readBatch hm.checked hbatch).not_isShape

theorem not_isShape_of_fitted {m : Model} (hm : m.WellShaped) (hcolumns : m.transform.featureColumns ≠ 0)
    {fault : Fault} (h : m.fitted = .error fault) : ¬ fault.IsShape := by
  unfold fitted at h
  split at h
  · cases h
    exact not_isShape_insufficientData 0
  · next hrows =>
      have hfeatures := (hm.rows (Bool.eq_false_iff.2 hrows)).1
      have haligned : m.training.y.height = m.training.x.height := rfl
      rw [Regressor.train_isShape_iff haligned h]
      intro hnone
      exact hcolumns (hfeatures.symm.trans hnone)

/-- No operation is refused for sizes that do not agree, but for fitting a system without columns. -/
theorem not_isShape_of_perform {m : Model} (hm : m.WellShaped) {op : Operation} (hop : op.Own m)
    (htrain : op = .train → m.transform.featureColumns ≠ 0) {fault : Fault}
    (h : (m.perform op).2 = .error fault) : ¬ fault.IsShape := by
  cases op with
  | read table w =>
      cases hbatch : m.readBatch table w with
      | ok batch =>
          obtain ⟨next, reading, hread, -⟩ := read_of_readBatch_ok hm.rows hbatch
          rw [perform, hread] at h
          cases h
      | error other =>
          rw [perform, read_of_readBatch_error hbatch] at h
          cases h
          exact (fromData_of_readBatch hm.checked hbatch).not_isShape
  | readBatch table w => exact (fromData_of_readBatch hm.checked (eq_error_of_map h)).not_isShape
  | absorb batch =>
      obtain ⟨table, w, hbatch⟩ := hop
      obtain ⟨next, reading, -, habsorb⟩ := read_of_readBatch_ok hm.rows hbatch
      rw [perform, habsorb] at h
      cases h
  | train =>
      cases hfit : m.fitted with
      | ok weights =>
          rw [perform, hfit] at h
          cases h
      | error other =>
          rw [perform, hfit] at h
          cases h
          exact not_isShape_of_fitted hm (htrain rfl) hfit
  | inSampleError verbose =>
      have h := eq_error_of_map h
      cases hparameters : m.parameters with
      | some weights =>
          obtain ⟨report, hreport⟩ := exists_inSampleError hm hparameters
          rw [hreport] at h
          cases h
      | none =>
          rw [inSampleError, inSampleResiduals, weights_of_none hparameters] at h
          cases h
          exact not_isShape_insufficientData m.rows
  | outSampleError table w verbose =>
      have h := eq_error_of_map h
      cases hparameters : m.parameters with
      | some weights => exact (follows_outSampleError hm hparameters table w).not_isShape hm h
      | none =>
          rw [outSampleError, outSampleResiduals, weights_of_none hparameters] at h
          cases h
          exact not_isShape_insufficientData m.rows
  | predict table w =>
      have h := eq_error_of_map h
      cases hparameters : m.parameters with
      | some weights => exact (follows_predict hm hparameters table w).not_isShape hm h
      | none =>
          rw [predict, weights_of_none hparameters] at h
          cases h
          exact not_isShape_insufficientData m.rows
  | snapshot inSample =>
      have h := eq_error_of_map h
      cases hparameters : m.parameters with
      | some weights =>
          obtain ⟨s, hs, -⟩ := exists_restored hparameters hm.checked inSample
          rw [hs] at h
          cases h
      | none =>
          rw [snapshot, weights_of_none hparameters] at h
          cases h
          exact not_isShape_insufficientData m.rows

/-- A model that was built meets no fault of shape, whatever it reads, takes in of its own batches, and is
    trained on, with success or without. Its rows have the columns of the transform. No operation is refused
    for sizes that do not agree, unless a system without columns is to be fitted. When it is trained, its
    weights have a row for each feature and a column for each target, it has an in-sample error and can be
    stored, and it predicts and evaluates exactly the windows it can read, with the fault of reading for the
    others. -/
theorem built_model_meets_no_shape_fault (id : String) (transform : Transform) (options : RegressorOptions)
    (start : Model) (hbuild : Model.build id transform options = .ok start) (ops : List Operation)
    (hops : ∀ op ∈ ops, op.Own start) (m : Model) (hlife : (start.performAll ops).1 = m) :
    (m.training.isEmpty = false →
      m.training.features = transform.featureColumns ∧ m.training.targets = transform.targetColumns) ∧
    (∀ op fault, op.Own start → (op = .train → transform.featureColumns ≠ 0) →
      (m.perform op).2 = .error fault → ¬ fault.IsShape) ∧
    (m.state = .trained → ∃ weights, m.parameters = some weights ∧
      weights.height = transform.featureColumns ∧ weights.cols = transform.targetColumns ∧
      (∃ report, m.inSampleError = .ok report) ∧ (∀ inSample, ∃ s, m.snapshot inSample = .ok s) ∧
      ∀ table w, Follows (m.predict table w) (m.readBatch table w) ∧
        Follows (m.outSampleError table w) (m.readBatch table w)) := by
  have hstart : start.transform = transform := by
    obtain ⟨regressor, -, -, rfl⟩ := build_eq_ok_iff.1 hbuild
    rfl
  obtain ⟨hm, htransform⟩ := wellShaped_performAll hbuild hops
  rw [hlife] at hm htransform
  subst htransform
  refine ⟨hm.rows, ?_, ?_⟩
  · intro op fault hop htrain
    exact not_isShape_of_perform hm (Operation.own_congr hstart hop) htrain
  · intro htrained
    obtain ⟨weights, hweights⟩ := state_eq_trained_iff.1 htrained
    obtain ⟨-, hheight, hcols⟩ := hm.weights weights hweights
    refine ⟨weights, hweights, hheight, hcols, exists_inSampleError hm hweights, ?_, ?_⟩
    · intro inSample
      obtain ⟨s, hs, -⟩ := exists_restored hweights hm.checked inSample
      exact ⟨s, hs⟩
    · intro table w
      exact ⟨follows_predict hm hweights table w, follows_outSampleError hm hweights table w⟩

/-- A flight of three rows, the last of which has a gap. -/
def gappyFlight : Table := ⟨3, [⟨"v", [1.0, 2.0, 0.0 / 0.0]⟩]⟩

/-- The batch of its first row for a model of one feature and no targets. -/
def firstRow : TrainingSet := .ofColumns 1 [[1.0]] []

/-- A model without targets is trained in vain, takes in a row it has read, refuses a window that leaves the
    table, reads another one, and is trained. -/
def targetlessLife : List Operation :=
  [.train, .absorb firstRow, .read gappyFlight ⟨1, 9⟩, .read gappyFlight ⟨1, 2⟩, .train]

/-- The model of one feature and no targets. -/
def targetlessModel : Model := .fresh (.linear ["v"] [] false) (.leastSquares {})

theorem built_model_meets_no_shape_fault_targetless :
    Model.build "least_squares" (.linear ["v"] [] false) {} = .ok targetlessModel ∧
    (∀ op ∈ targetlessLife, op.Own targetlessModel) ∧
    (targetlessModel.performAll targetlessLife).1.state = .trained ∧
    ∃ weights, (targetlessModel.performAll targetlessLife).1.parameters = some weights ∧
      weights.height = 1 ∧ weights.cols = 0 ∧
      ∃ report, (targetlessModel.performAll targetlessLife).1.inSampleError = .ok report := by
  have hbuild : Model.build "least_squares" (.linear ["v"] [] false) {} = .ok targetlessModel := rfl
  have hown : ∀ op ∈ targetlessLife, op.Own targetlessModel := by
    have hbatch : targetlessModel.readBatch gappyFlight ⟨0, 1⟩ = .ok firstRow := rfl
    simp only [targetlessLife, List.forall_mem_cons, List.not_mem_nil, false_implies, implies_true, Operation.Own,
      and_true, true_and]
    exact ⟨gappyFlight, ⟨0, 1⟩, hbatch⟩
  have htrained : (targetlessModel.performAll targetlessLife).1.state = .trained := by decide +kernel
  obtain ⟨-, -, hshape⟩ := built_model_meets_no_shape_fault _ _ _ targetlessModel hbuild targetlessLife hown _ rfl
  obtain ⟨weights, hweights, hheight, hcols, hreport, -⟩ := hshape htrained
  exact ⟨hbuild, hown, htrained, weights, hweights, hheight, hcols, hreport⟩

end Model

end FlightFit
