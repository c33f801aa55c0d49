import FlightFit.Proofs.Shapes

/-!
Module: FlightFit.Proofs.SampleErrors
Purpose: The two ways to evaluate a fit agree. The in-sample error looks at the accumulated rows, the
  out-of-sample error reads a window anew; both hand rows and weights to the same evaluation, which sums up
  what the predictions leave of the targets. A model that has read a range in pieces holds the very rows
  that reading the range gives, so that it is evaluated on the range as on its own rows.
Main exports: Model.answers_append, Model.training_of_reads, Model.inSampleError_eq_error,
  Model.outSampleError_eq_error, Model.predict_eq, Regressor.error_of_predict,
  Model.sample_errors_agree
-/

namespace FlightFit

namespace Regressor

/-- The error is the report on what the predictions leave of the targets. -/
theorem error_of_predict {α : Type} [RootedScalar α] {r : Regressor} {x y weights predicted : Matrix α}
    (h : r.predict x weights = .ok predicted) (hheight : predicted.height = y.height)
    (hcols : predicted.cols = y.cols) :
    r.error x y weights = report (y.sub predicted hheight hcols) := by
  unfold error residuals
  rw [h, ok_bind, dif_pos ⟨hheight, hcols⟩, ok_bind]

theorem report_eq_ok_iff {α : Type} [RootedScalar α] {residuals : Matrix α} {quality : ErrorReport α} :
    report residuals = .ok quality ↔ ErrorReport.ofResiduals residuals = some quality := by
  unfold report
  cases ErrorReport.ofResiduals residuals with
  | none => simp
  | some other => simp

end Regressor

namespace Model

/-! ### One evaluation -/

section Evaluation

variable {m : Model} {weights : Matrix Float} {table : Table} {w : Window} {batch : TrainingSet}
  (hweights : m.parameters = some weights)
include hweights

theorem weights_eq_ok : m.weights = .ok weights := by
  rw [Model.weights, hweights]

theorem inSampleError_eq_error (hrows : m.training.isEmpty = false) :
    m.inSampleError = m.regressor.error m.training.x m.training.y weights := by
  unfold inSampleError inSampleResiduals
  rw [weights_eq_ok hweights, ok_bind, if_neg (Bool.eq_false_iff.1 hrows)]
  rfl

theorem outSampleError_eq_error (hbatch : m.readBatch table w = .ok batch) :
    m.outSampleError table w = m.regressor.error batch.x batch.y weights := by
  unfold outSampleError outSampleResiduals
  rw [weights_eq_ok hweights, ok_bind, hbatch, ok_bind]
  rfl

theorem predict_eq (hbatch : m.readBatch table w = .ok batch) :
    m.predict table w = m.regressor.predict batch.x weights := by
  unfold predict
  rw [weights_eq_ok hweights, ok_bind, hbatch, ok_bind]

end Evaluation

/-! ### The rows of a range -/

/-- The targets of a batch are made of what the table holds in the target channels. -/
theorem exists_response_of_readBatch {m : Model} {table : Table} {w : Window} {batch : TrainingSet}
    (h : m.readBatch table w = .ok batch) :
    ∃ raw, table.select m.transform.targets w = .ok raw ∧ batch.y = m.transform.response raw := by
  obtain ⟨-, x, y, hheight, hbuild, rfl⟩ := readBatch_eq_ok_iff.1 h
  rw [Transform.build_eq] at hbuild
  simp only [bind_eq_ok_iff, Except.ok.injEq, Prod.mk.injEq] at hbuild
  obtain ⟨-, -, raw, hraw, -, -, -, hy⟩ := hbuild
  refine ⟨raw, hraw, ?_⟩
  rw [TrainingSet.y_ofAligned, hy]

/-- A model without rows that reads a window has the rows of that window. -/
theorem training_of_reads {m next : Model} {table : Table} {w : Window} (hm : m.training.isEmpty = true)
    (h : Reads m table w next) :
    ∃ batch, m.readBatch table w = .ok batch ∧ next = { m with training := batch, parameters := none } := by
  obtain ⟨batch, hbatch, habsorb⟩ := reads_iff.1 h
  obtain ⟨-, hrows, -⟩ := readBatch_shape hbatch
  refine ⟨batch, hbatch, ?_⟩
  rw [absorb_of_isEmpty_eq_false hrows, TrainingSet.merge, if_neg (Bool.eq_false_iff.1 hrows), if_pos hm] at habsorb
  exact (Except.ok.inj habsorb).symm

/-- The answers of a life that is cut in two. -/
theorem answers_append (m : Model) (ops later : List Operation) :
    (m.performAll (ops ++ later)).2 =
      (m.performAll ops).2 ++ ((m.performAll ops).1.performAll later).2 := by
  induction ops generalizing m with
  | nil => rfl
  | cons op ops ih => exact congrArg ((m.perform op).2 :: ·) (ih (m.perform op).1)

/-- Training succeeds with the weights that the rows at hand are fitted with. -/
theorem exists_fitted_of_answers {m : Model} (h : ∀ answer ∈ (m.performAll [.train]).2, answer.isOk = true) :
    ∃ weights, m.fitted = .ok weights ∧ (m.performAll [.train]).1 = { m with parameters := some weights } := by
  cases hfitted : m.fitted with
  | ok weights =>
      refine ⟨weights, rfl, ?_⟩
      simp only [performAll, perform, hfitted]
  | error fault =>
      have hanswer := h (.error fault) (by simp [performAll, perform, hfitted])
      cases hanswer

/-- A model that holds the rows of a window and is fitted to them has one error, on these rows and on the
    window: the report on the targets of the window less the predictions for it. -/
theorem exists_error_on_own_rows {m : Model} {table : Table} {w : Window} {weights : Matrix Float}
    (hbatch : m.readBatch table w = .ok m.training) (hfitted : m.fitted = .ok weights)
    (hweights : m.parameters = some weights) :
    ∃ (raw predicted : Matrix Float) (hheight : predicted.height = (m.transform.response raw).height)
      (hcols : predicted.cols = (m.transform.response raw).cols) (report : ErrorReport Float),
      table.select m.transform.targets w = .ok raw ∧ m.predict table w = .ok predicted ∧
      ErrorReport.ofResiduals ((m.transform.response raw).sub predicted hheight hcols) = some report ∧
      m.inSampleError = .ok report ∧ m.outSampleError table w = .ok report := by
  obtain ⟨-, hrows, -⟩ := readBatch_shape hbatch
  obtain ⟨raw, hraw, hresponse⟩ := exists_response_of_readBatch hbatch
  have hfit : m.regressor.train m.training.x m.training.y = .ok weights := by
    rwa [fitted, if_neg (Bool.eq_false_iff.1 hrows)] at hfitted
  obtain ⟨hfeatures, htargets⟩ := fit_shape (mapError_eq_ok_iff.1 hfit)
  have hpredict : m.regressor.predict m.training.x weights = .ok (m.training.x.mul weights) :=
    if_neg (Decidable.not_not.2 hfeatures.symm)
  have hheight : (m.training.x.mul weights).height = (m.transform.response raw).height := by
    rw [← hresponse]
    rfl
  have hcols : (m.training.x.mul weights).cols = (m.transform.response raw).cols := by
    rw [← hresponse]
    exact htargets
  have hsome : ((m.transform.response raw).sub _ hheight hcols).height ≠ 0 := by
    apply Nat.ne_of_gt
    change 0 < (m.transform.response raw).height
    rw [← hresponse]
    exact TrainingSet.isEmpty_eq_false_iff.1 hrows
  obtain ⟨report, hreport⟩ := Regressor.exists_report hsome
  have herror : m.regressor.error m.training.x m.training.y weights = .ok report := by
    rw [hresponse, Regressor.error_of_predict hpredict hheight hcols, hreport]
  refine ⟨raw, _, hheight, hcols, report, hraw, ?_, ?_, ?_, ?_⟩
  · rw [predict_eq hweights hbatch, hpredict]
  · exact Regressor.report_eq_ok_iff.1 hreport
  · rw [inSampleError_eq_error hweights hrows, herror]
  · rw [outSampleError_eq_error hweights hbatch, herror]

/-- However the rows of a range were read, a model that was built, has read them and is fitted to them has
    the same error in-sample as on that range of the table, whether details are reported or not: the report on
    the targets of the range less the predictions for it. -/
theorem sample_errors_agree (id : String) (transform : Transform) (options : RegressorOptions) (start : Model)
    (hbuild : Model.build id transform options = .ok start) (table : Table) (first last : Nat)
    (inner : List Nat) (hcuts : (first :: (inner ++ [last])).Pairwise (· < ·)) (m : Model)
    (hlife : (start.performAll (readings table (Window.cut first (inner ++ [last])) ++ [.train])).1 = m)
    (hall : ∀ answer ∈ (start.performAll (readings table (Window.cut first (inner ++ [last])) ++ [.train])).2,
      answer.isOk = true) :
    ∃ (raw predicted : Matrix Float) (hheight : predicted.height = (transform.response raw).height)
      (hcols : predicted.cols = (transform.response raw).cols) (report : ErrorReport Float),
      table.select transform.targets ⟨first, last⟩ = .ok raw ∧
      m.predict table ⟨first, last⟩ = .ok predicted ∧
      ErrorReport.ofResiduals ((transform.response raw).sub predicted hheight hcols) = some report ∧
      ∀ verbose, (m.perform (.inSampleError verbose)).2 = .ok (.report report) ∧
        (m.perform (.outSampleError table ⟨first, last⟩ verbose)).2 = .ok (.report report) := by
  obtain ⟨regressor, -, -, rfl⟩ := build_eq_ok_iff.1 hbuild
  rw [answers_append] at hall
  obtain ⟨hpieces, htrain⟩ := List.forall_mem_append.1 hall
  -- The pieces leave the rows of the whole range, and nothing else.
  have hreads := (readsAll_cut_iff (shaped_of_isEmpty rfl) hcuts).1 ⟨hpieces, rfl⟩
  obtain ⟨batch, hbatch, hread⟩ := training_of_reads rfl hreads
  obtain ⟨weights, hfitted, hfit⟩ := exists_fitted_of_answers htrain
  rw [hread] at hfitted hfit
  rw [performAll_append, hread, hfit] at hlife
  subst hlife
  obtain ⟨raw, predicted, hheight, hcols, report, hraw, hpredict, hreport, hin, hout⟩ :=
    exists_error_on_own_rows (m := ⟨transform, regressor, batch, some weights⟩) hbatch hfitted rfl
  refine ⟨raw, predicted, hheight, hcols, report, hraw, hpredict, hreport, ?_⟩
  intro verbose
  exact ⟨congrArg (Except.map Answer.report) hin, congrArg (Except.map Answer.report) hout⟩

/-- A flight of four rows. -/
def shortFlight : Table :=
  ⟨4, [⟨"a", [2.0, 1.0, 0.0, 1.0]⟩, ⟨"y", [9.0, 3.0, 4.0, 5.0]⟩]⟩

/-- The last three rows are read in two pieces, and a model of one feature is fitted to them. -/
def piecewiseLife : List Operation := readings shortFlight (Window.cut 1 ([2] ++ [4])) ++ [.train]

theorem sample_errors_agree_piecewise :
    Model.build "least_squares" (.linear ["a"] ["y"] false) {} = .ok oneFeatureModel ∧
    [1, 2, 4].Pairwise (· < ·) ∧
    (∀ answer ∈ (oneFeatureModel.performAll piecewiseLife).2, answer.isOk = true) ∧
    ∃ (raw predicted : Matrix Float) (hheight : predicted.height = raw.height) (hcols : predicted.cols = raw.cols)
      (report : ErrorReport Float),
      shortFlight.select ["y"] ⟨1, 4⟩ = .ok raw ∧
      (oneFeatureModel.performAll piecewiseLife).1.predict shortFlight ⟨1, 4⟩ = .ok predicted ∧
      ErrorReport.ofResiduals (raw.sub predicted hheight hcols) = some report ∧
      ∀ verbose,
        ((oneFeatureModel.performAll piecewiseLife).1.perform (.inSampleError verbose)).2 = .ok (.report report) ∧
        ((oneFeatureModel.performAll piecewiseLife).1.perform (.outSampleError shortFlight ⟨1, 4⟩ verbose)).2 =
          .ok (.report report) := by
  have hbuild : Model.build "least_squares" (.linear ["a"] ["y"] false) {} = .ok oneFeatureModel := rfl
  have hcuts : [1, 2, 4].Pairwise (· < ·) := by decide
  have hall : ∀ answer ∈ (oneFeatureModel.performAll piecewiseLife).2, answer.isOk = true := by decide +kernel
  exact ⟨hbuild, hcuts, hall,
    sample_errors_agree _ _ _ oneFeatureModel hbuild shortFlight 1 4 [2] hcuts _ rfl hall⟩

end Model

end FlightFit
