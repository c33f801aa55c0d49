import FlightFit.Proofs.Reading

/-!
Module: FlightFit.Proofs.Restoring
Purpose: Models that come back from their stored form. Storing keeps the transform, the method with its
  tuning and the weights, and restoring finds all of them again; what a model answers about other tables
  depends on nothing else, so a restored model answers as the stored one did. What it has lost are the
  rows, and it says so until it is given new ones.
Main exports: ParameterBlock.toMatrix_ofMatrix, Regressor.named_id, Model.withoutRows, Model.exists_restored,
  Model.takesIn, Model.inSampleError_eq_insufficientData_zero_iff, Model.rows_performAll_eq_zero_iff,
  Model.restored_answers_alike
-/

namespace FlightFit

theorem ParameterBlock.toMatrix_ofMatrix (m : Matrix Float) : (ofMatrix m).toMatrix = .ok m := by
  unfold toMatrix ofMatrix
  rw [dif_pos m.filled]

theorem Regressor.named_id (r : Regressor) : Regressor.named r.id r.options = .ok r := by
  cases r with
  | leastSquares options =>
      have htrim : trim "least_squares" = "least_squares" := by decide
      simp [named, available, id, Regressor.options, htrim]

theorem Transform.eq_of_checked {t t' : Transform} (h : t.checked = .ok t') : t' = t := by
  cases t with
  | linear features targets intercept => exact (Except.ok.inj h).symm
  | fuelFlow features targets bias =>
      simp only [checked] at h
      split at h
      · simp at h
      · split at h
        · simp at h
        · exact (Except.ok.inj h).symm

namespace Regressor

variable {r : Regressor} {x y weights residuals : Matrix Float} {fault : Fault}

theorem exists_shape_of_residuals (h : r.residuals x y weights = .error fault) :
    ∃ reason, fault = .shapeMismatch reason := by
  unfold Regressor.residuals Regressor.predict at h
  split at h
  · exact ⟨_, (Except.error.inj h).symm⟩
  · rw [ok_bind] at h
    split at h
    · simp at h
    · exact ⟨_, (Except.error.inj h).symm⟩

theorem height_residuals (h : r.residuals x y weights = .ok residuals) : residuals.height = y.height := by
  unfold Regressor.residuals at h
  obtain ⟨predicted, -, h⟩ := bind_eq_ok_iff.1 h
  split at h
  · obtain rfl := Except.ok.inj h
    rfl
  · simp at h

end Regressor

namespace Model

/-! ### From a model to its snapshot and back -/

theorem state_eq_trained_iff {m : Model} : m.state = .trained ↔ ∃ weights, m.parameters = some weights := by
  cases hparameters : m.parameters with
  | some weights => simp [state, hparameters]
  | none => cases htraining : m.training.isEmpty <;> simp [state, hparameters, htraining]

/-- A model is built of a method that is known and a transform that can be used. -/
theorem build_eq_ok_iff {id : String} {transform : Transform} {options : RegressorOptions} {start : Model} :
    Model.build id transform options = .ok start ↔
      ∃ regressor, Regressor.named id options = .ok regressor ∧ transform.checked = .ok transform ∧
        start = .fresh transform regressor := by
  simp only [Model.build, bind_eq_ok_iff, Except.ok.injEq]
  constructor
  · rintro ⟨regressor, hregressor, checked, hchecked, rfl⟩
    obtain rfl := Transform.eq_of_checked hchecked
    exact ⟨regressor, hregressor, hchecked, rfl⟩
  · rintro ⟨regressor, hregressor, hchecked, rfl⟩
    exact ⟨regressor, hregressor, transform, hchecked, rfl⟩

/-- A model keeps a transform that can be used. -/
theorem checked_of_performAll {id : String} {transform : Transform} {options : RegressorOptions}
    {start : Model} (h : Model.build id transform options = .ok start) (ops : List Operation) :
    (start.performAll ops).1.transform.checked = .ok (start.performAll ops).1.transform := by
  have hstart : start.transform.checked = .ok start.transform := by
    obtain ⟨regressor, -, hchecked, rfl⟩ := build_eq_ok_iff.1 h
    exact hchecked
  have hkeep : ∀ {m next : Model}, Step m next → m.transform.checked = .ok m.transform →
      next.transform.checked = .ok next.transform := by
    intro m next hstep hm
    rw [hstep.transform_eq]
    exact hm
  exact performAll_keeps_of_step hkeep ops hstart

/-- What restoring makes of a trained model: the same model without its rows. -/
def withoutRows (m : Model) : Model := { m with training := .empty }

theorem exists_restored {m : Model} {weights : Matrix Float} (hweights : m.parameters = some weights)
    (htransform : m.transform.checked = .ok m.transform) (report : Option (ErrorReport Float)) :
    ∃ s, m.snapshot report = .ok s ∧ Model.ofSnapshot s = .ok m.withoutRows := by
  have hstored : m.weights = .ok weights := by simp [Model.weights, hweights]
  unfold snapshot
  rw [hstored, ok_bind]
  refine ⟨_, rfl, ?_⟩
  unfold ofSnapshot Snapshot.checked
  rw [if_pos rfl, ok_bind, Regressor.named_id, ok_bind, htransform, ok_bind,
    ParameterBlock.toMatrix_ofMatrix, ok_bind, withoutRows, hweights]
  rfl

/-! ### What a restored model answers -/

/-- Predictions do not depend on the rows of a trained model. -/
theorem predict_withoutRows {m : Model} (h : m.state = .trained) (table : Table) (w : Window) :
    m.withoutRows.predict table w = m.predict table w := by
  obtain ⟨weights, hweights⟩ := state_eq_trained_iff.1 h
  simp only [predict, Model.weights, withoutRows, hweights]
  rfl

theorem outSampleError_withoutRows {m : Model} (h : m.state = .trained) (table : Table) (w : Window) :
    m.withoutRows.outSampleError table w = m.outSampleError table w := by
  obtain ⟨weights, hweights⟩ := state_eq_trained_iff.1 h
  simp only [outSampleError, outSampleResiduals, Model.weights, withoutRows, hweights]
  rfl

/-- The in-sample error is refused for want of any row exactly when there is none. -/
theorem inSampleError_eq_insufficientData_zero_iff {m : Model} :
    m.inSampleError = .error (.insufficientData 0) ↔ m.rows = 0 := by
  have hrows : m.training.isEmpty = true ↔ m.rows = 0 := TrainingSet.isEmpty_iff
  unfold inSampleError inSampleResiduals Model.weights
  cases hparameters : m.parameters with
  | none => simp
  | some weights =>
      cases hempty : m.training.isEmpty with
      | true => simp [hrows.1 hempty]
      | false =>
          have hsome : m.rows ≠ 0 := by simpa [hempty] using hrows
          simp only [ok_bind, Bool.false_eq_true, if_false, hsome, iff_false]
          -- With rows there are residuals, and then a report, unless a shape does not fit.
          cases hresiduals : m.regressor.residuals m.training.x m.training.y weights with
          | error fault =>
              obtain ⟨reason, rfl⟩ := Regressor.exists_shape_of_residuals hresiduals
              simp
          | ok residuals =>
              have hheight : residuals.height ≠ 0 := by
                rw [Regressor.height_residuals hresiduals]
                exact hsome
              simp [Regressor.report, ErrorReport.ofResiduals, hheight]

/-! ### Rows for a restored model -/

/-- Whether an operation brings rows into a model that has none. -/
def takesIn (m : Model) : Operation → Bool
  | .read table w => (m.readBatch table w).isOk
  | .absorb batch => !batch.isEmpty
  | _ => false

theorem takesIn_congr {m m' : Model} (h : m.transform = m'.transform) (op : Operation) :
    m.takesIn op = m'.takesIn op := by
  cases op with
  | read table w => simp only [takesIn, readBatch_congr h]
  | _ => rfl

theorem rows_absorb {m next : Model} (hm : m.rows = 0) {batch : TrainingSet}
    (h : m.absorb batch = .ok next) : next.rows = batch.rows := by
  have hempty : m.training.isEmpty = true := TrainingSet.isEmpty_iff.2 hm
  unfold absorb at h
  cases hbatch : batch.isEmpty with
  | true =>
      rw [if_pos hbatch] at h
      obtain rfl := Except.ok.inj h
      rw [hm, TrainingSet.isEmpty_iff.1 hbatch]
  | false =>
      simp only [hbatch, Bool.false_eq_true, if_false, TrainingSet.merge, hempty, if_true, ok_bind] at h
      obtain rfl := Except.ok.inj h
      rfl

theorem absorb_of_rows_eq_zero {m : Model} (hm : m.rows = 0) (batch : TrainingSet) :
    ∃ next, m.absorb batch = .ok next := by
  have hempty : m.training.isEmpty = true := TrainingSet.isEmpty_iff.2 hm
  unfold absorb
  cases hbatch : batch.isEmpty with
  | true => exact ⟨m, if_pos rfl⟩
  | false => exact ⟨{ m with training := batch, parameters := none }, by simp [TrainingSet.merge, hbatch, hempty]⟩

/-- A model without rows stays so, unless the operation takes some in. -/
theorem rows_perform_eq_zero_iff {m : Model} (hm : m.rows = 0) (op : Operation) :
    (m.perform op).1.rows = 0 ↔ m.takesIn op = false := by
  cases op with
  | read table w =>
      simp only [perform, takesIn]
      cases hbatch : m.readBatch table w with
      | error fault => simp [read_of_readBatch_error hbatch, hm, Except.isOk, Except.toBool]
      | ok batch =>
          obtain ⟨next, habsorb⟩ := absorb_of_rows_eq_zero hm batch
          have hread := read_eq_ok_iff.2 ⟨batch, hbatch, habsorb, rfl⟩
          have hsome := TrainingSet.isEmpty_eq_false_iff.1 (readBatch_shape hbatch).2.1
          simp [hread, rows_absorb hm habsorb, Nat.pos_iff_ne_zero.1 hsome, Except.isOk, Except.toBool]
  | absorb batch =>
      obtain ⟨next, habsorb⟩ := absorb_of_rows_eq_zero hm batch
      simp [perform, takesIn, habsorb, rows_absorb hm habsorb, TrainingSet.isEmpty]
  | train =>
      have hfitted : m.fitted = .error (.insufficientData 0) := if_pos (TrainingSet.isEmpty_iff.2 hm)
      simp [perform, takesIn, hfitted, hm]
  | readBatch table w => simp [perform, takesIn, hm]
  | inSampleError verbose => simp [perform, takesIn, hm]
  | outSampleError table w verbose => simp [perform, takesIn, hm]
  | predict table w => simp [perform, takesIn, hm]
  | snapshot inSample => simp [perform, takesIn, hm]

/-- Along a life that begins without rows, there are none until an operation takes some in. -/
theorem rows_performAll_eq_zero_iff {m : Model} (hm : m.rows = 0) (ops : List Operation) :
    (m.performAll ops).1.rows = 0 ↔ ∀ op ∈ ops, m.takesIn op = false := by
  induction ops generalizing m with
  | nil => exact ⟨fun _ op hop => absurd hop List.not_mem_nil, fun _ => hm⟩
  | cons op ops ih =>
      have hnext : (m.performAll (op :: ops)).1 = ((m.perform op).1.performAll ops).1 := rfl
      have hfirst := rows_perform_eq_zero_iff hm op
      rw [hnext, List.forall_mem_cons]
      cases htakes : m.takesIn op with
      | false =>
          rw [ih (hfirst.2 htakes)]
          have htransform := (step_perform m op).transform_eq
          simp only [takesIn_congr htransform, true_and]
      | true =>
          -- Rows that were taken in are there for good.
          have hle : (m.perform op).1.rows ≤ ((m.perform op).1.performAll ops).1.rows :=
            performAll_keeps_of_step (fun hstep hle => Nat.le_trans hle hstep.rows_le) ops (Nat.le_refl _)
          have hsome : (m.perform op).1.rows ≠ 0 := by simp [hfirst, htakes]
          simp only [Bool.true_eq_false, false_and, iff_false]
          omega

/-- A model that was built and is trained can be stored, with any report, and restored. The restored model
    is trained and has no rows; its weights, transform and method are those of the stored one, and so are
    its predictions and its error on every window of every table, faults included. It has no in-sample error
    until it takes rows in. -/
theorem restored_answers_alike (id : String) (transform : Transform) (options : RegressorOptions)
    (start : Model) (hbuild : Model.build id transform options = .ok start)
    (ops : List Operation) (m : Model) (hlife : (start.performAll ops).1 = m)
    (htrained : m.state = .trained) (report : Option (ErrorReport Float)) :
    ∃ s r, m.snapshot report = .ok s ∧ Model.ofSnapshot s = .ok r ∧
      r.state = .trained ∧ r.rows = 0 ∧ r.parameters = m.parameters ∧ r.transform = m.transform ∧
      r.regressor.id = m.regressor.id ∧ r.regressor.options = m.regressor.options ∧
      (∀ table w, r.predict table w = m.predict table w ∧ r.outSampleError table w = m.outSampleError table w) ∧
      ∀ later : List Operation,
        (r.performAll later).1.inSampleError = .error (.insufficientData 0) ↔
          ∀ op ∈ later, r.takesIn op = false := by
  have hchecked : m.transform.checked = .ok m.transform := hlife ▸ checked_of_performAll hbuild ops
  obtain ⟨weights, hweights⟩ := state_eq_trained_iff.1 htrained
  obtain ⟨s, hstore, hrestore⟩ := exists_restored hweights hchecked report
  have hrows : m.withoutRows.rows = 0 := rfl
  have hstate : m.withoutRows.state = .trained := state_eq_trained_iff.2 ⟨weights, hweights⟩
  refine ⟨s, m.withoutRows, hstore, hrestore, hstate, hrows, rfl, rfl, rfl, rfl, fun table w => ?_, fun later => ?_⟩
  · exact ⟨predict_withoutRows htrained table w, outSampleError_withoutRows htrained table w⟩
  · rw [inSampleError_eq_insufficientData_zero_iff]
    exact rows_performAll_eq_zero_iff hrows later

/-- A model of one feature, before it has rows. -/
def oneFeatureModel : Model := .fresh (.linear ["a"] ["y"] false) (.leastSquares {})

/-- It takes in a row and is fitted to it. -/
def fittingLife : List Operation := refittingLife.tail

/-- What it is then. -/
def fittedModel : Model := (oneFeatureModel.performAll fittingLife).1

theorem restored_answers_alike_one_feature :
    Model.build "least_squares" (.linear ["a"] ["y"] false) {} = .ok oneFeatureModel ∧
    fittedModel.state = .trained ∧
    ∃ s r, fittedModel.snapshot none = .ok s ∧ Model.ofSnapshot s = .ok r ∧
      r.state = .trained ∧ r.rows = 0 ∧ r.parameters = fittedModel.parameters ∧
      r.transform = fittedModel.transform ∧ r.regressor.id = fittedModel.regressor.id ∧
      r.regressor.options = fittedModel.regressor.options ∧
      (∀ table w, r.predict table w = fittedModel.predict table w ∧
        r.outSampleError table w = fittedModel.outSampleError table w) ∧
      ∀ later : List Operation,
        (r.performAll later).1.inSampleError = .error (.insufficientData 0) ↔
          ∀ op ∈ later, r.takesIn op = false := by
  have hbuild : Model.build "least_squares" (.linear ["a"] ["y"] false) {} = .ok oneFeatureModel := rfl
  have htrained : fittedModel.state = .trained := by decide +kernel
  exact ⟨hbuild, htrained,
    restored_answers_alike _ _ _ oneFeatureModel hbuild fittingLife fittedModel rfl htrained none⟩

end Model
end FlightFit
