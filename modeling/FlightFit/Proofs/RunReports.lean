import FlightFit.Proofs.FlightSeam
import FlightFit.Proofs.SavedModels

/-!
Module: FlightFit.Proofs.RunReports
Purpose: What the report of a run says about its files. The windows are the cruise windows of the training
  table; the skipped ones are among them, and the weights are those of the system that the others make. A
  run without the test files, or with others, reports the same fit.
Main exports: RunReport.kept, Transform.StackedSystem, RunReport.TellsOf, Fitting.Fits.tellsOf,
  run_report_tells_of_files
-/

namespace FlightFit

open FlightFit.Action

/-- The windows that are not listed as skipped. -/
def RunReport.kept (report : RunReport) : List Window :=
  report.windows.filter fun w => w ∉ report.skipped.map SkippedWindow.window

/-- The systems of some windows of a table, one below the other. -/
structure Transform.StackedSystem (t : Transform) (table : Table) (windows : List Window)
    (x y : Matrix Float) : Prop where
  features : x.cols = t.featureColumns
  targets : y.cols = t.targetColumns
  rows : ∃ systems : List (Matrix Float × Matrix Float), windows.map (t.build table) = systems.map .ok ∧
    x.rows = systems.flatMap (·.1.rows) ∧ y.rows = systems.flatMap (·.2.rows)

/-- What a report says about the training table. -/
structure RunReport.TellsOf (report : RunReport) (config : RunConfig) (train : Table) : Prop where
  windows : ∃ speed time, train.channel config.speedChannel = .ok speed ∧
    train.channel config.timeChannel = .ok time ∧
    steadyWindows config.segmentation speed time = .ok report.windows
  skipped : (report.skipped.map SkippedWindow.window).Sublist report.windows
  refused : ∀ s ∈ report.skipped, config.transform.build train s.window = .error s.fault
  rows : report.trainingRows = Window.totalLen report.kept
  inSample : report.inSample.rows = report.trainingRows
  enough : config.transform.featureColumns ≤ report.trainingRows
  parameters : ∃ regressor x y weights, Regressor.named config.model config.regressor = .ok regressor ∧
    config.transform.StackedSystem train report.kept x y ∧ regressor.train x y = .ok weights ∧
    report.parameters = weights.columns

/-! ### Windows that were skipped and windows that were not -/

namespace Model

variable (m : Model) (table : Table) (windows : List Window)

theorem refused_sublist : ((windows.filterMap (m.refusal? table)).map SkippedWindow.window).Sublist windows := by
  induction windows with
  | nil => exact .slnil
  | cons w rest ih =>
      cases hbatch : m.readBatch table w with
      | ok batch =>
          rw [List.filterMap_cons, refusal?_of_ok hbatch]
          exact ih.cons w
      | error fault =>
          rw [List.filterMap_cons, refusal?_of_error hbatch]
          exact ih.cons_cons w

/-- The windows that are not refused are those that can be read. -/
theorem filter_not_refused :
    windows.filter (fun w => w ∉ (windows.filterMap (m.refusal? table)).map SkippedWindow.window) =
      windows.filter (m.canRead table) := by
  apply List.filter_congr
  intro w hw
  rw [Bool.eq_iff_iff, decide_eq_true_iff, mem_refused_iff]
  cases hbatch : m.readBatch table w with
  | ok batch => simp [canRead_of_ok hbatch]
  | error fault => simp [canRead_of_error hbatch, hw]

/-- The batches of the windows that can be read are their systems. -/
theorem map_build_readable :
    (windows.filter (m.canRead table)).map (m.transform.build table) =
      ((windows.filterMap (m.batch? table)).map fun batch => (batch.x, batch.y)).map .ok := by
  induction windows with
  | nil => rfl
  | cons w rest ih =>
      cases hbatch : m.readBatch table w with
      | ok batch =>
          obtain ⟨-, x, y, hheight, hbuild, rfl⟩ := readBatch_eq_ok_iff.1 hbatch
          rw [List.filter_cons, canRead_of_ok hbatch, if_pos rfl, List.filterMap_cons, batch?_of_ok hbatch,
            List.map_cons, List.map_cons, List.map_cons, ih, hbuild, TrainingSet.x_ofAligned,
            TrainingSet.y_ofAligned]
      | error fault =>
          rw [List.filter_cons, canRead_of_error hbatch, if_neg Bool.false_ne_true, List.filterMap_cons,
            batch?_of_error hbatch, ih]

variable {m table windows}

theorem readBatch_of_refusal {w : Window} {s : SkippedWindow} (h : m.refusal? table w = some s) :
    s.window = w ∧ m.readBatch table w = .error s.fault := by
  cases hbatch : m.readBatch table w with
  | ok batch => simp [refusal?_of_ok hbatch] at h
  | error fault =>
      rw [refusal?_of_error hbatch] at h
      obtain rfl := Option.some.inj h
      exact ⟨rfl, rfl⟩

/-- A window with rows is refused for want of its system. -/
theorem build_of_readBatch_error {w : Window} {fault : Fault} (hw : w.start < w.stop)
    (h : m.readBatch table w = .error fault) : m.transform.build table w = .error fault := by
  cases hbuild : m.transform.build table w with
  | error other =>
      rw [readBatch_of_lt hw, hbuild, error_bind] at h
      rw [Except.error.inj h]
  | ok system =>
      obtain ⟨⟨hx, -⟩, hy, -⟩ := Transform.build_shape hbuild
      have hread := readBatch_eq_ok_iff.2 ⟨hw, system.1, system.2, hx.trans hy.symm, hbuild, rfl⟩
      rw [h] at hread
      simp at hread

theorem shaped_accumulate (hm : m.Shaped) : (accumulate m table windows).1.Shaped := by
  induction windows generalizing m with
  | nil => exact hm
  | cons w rest ih =>
      rcases accumulate_cons_cases hm table w rest with
        ⟨fault, -, hcons⟩ | ⟨batch, next, reading, -, htaken, hcons⟩
      · rw [hcons]
        exact ih hm
      · rw [hcons]
        exact ih htaken.shaped

theorem train_of_fitted {weights : Matrix Float} (h : m.fitted = .ok weights) :
    m.regressor.train m.training.x m.training.y = .ok weights := by
  unfold fitted at h
  split at h
  · simp at h
  · exact h

/-- What is accumulated in an empty model is the system of the windows that can be read. -/
theorem stackedSystem_of_accumulate (hempty : m.training.isEmpty = true)
    (hrows : (accumulate m table windows).1.training.isEmpty = false) :
    m.transform.StackedSystem table (windows.filter (m.canRead table))
      (accumulate m table windows).1.training.x (accumulate m table windows).1.training.y := by
  have hshaped := shaped_of_isEmpty hempty
  have hstacked := accumulate_stacked hshaped table windows
  have hlast : (accumulate m table windows).1.Shaped := shaped_accumulate hshaped
  obtain ⟨hfeatures, htargets⟩ := hlast hrows
  rw [(accumulate_keeps m table windows).1] at hfeatures htargets
  refine ⟨hfeatures, htargets, _, map_build_readable m table windows, ?_, ?_⟩
  · rw [hstacked.xRows, TrainingSet.x_rows_of_isEmpty hempty, List.flatMap_map]
    rfl
  · rw [hstacked.yRows, TrainingSet.y_rows_of_isEmpty hempty, List.flatMap_map]
    rfl

end Model

theorem cols_le_of_train {r : Regressor} {x y weights : Matrix Float} (h : r.train x y = .ok weights) :
    x.cols ≤ x.height :=
  (fit_eq_ok_iff.1 (mapError_eq_ok_iff.1 h)).posed.tall

/-! ### Reports -/

/-- The report on a fit tells of its training table. -/
theorem Fitting.Fits.tellsOf {f : Fitting} {config : RunConfig} {session : Session} {start : Model}
    (h : f.Fits config session start) (outSample : Option (ErrorReport Float)) :
    (f.report outSample).TellsOf config f.train := by
  obtain ⟨regressor, hregressor, -, rfl⟩ := Model.build_eq_ok_iff.1 h.built
  have hempty : (Model.fresh config.transform regressor).training.isEmpty = true := rfl
  have hshaped := Model.shaped_of_isEmpty hempty
  -- Whether a window is refused does not depend on the windows before it, so the others are those that can
  -- be read.
  have hskipped := h.skipped.trans (skippedWindows_accumulate hshaped f.train f.windows)
  have hkept : (f.report outSample).kept = f.windows.filter
      ((Model.fresh config.transform regressor).canRead f.train) := by
    simp only [RunReport.kept, report, hskipped]
    exact Model.filter_not_refused _ f.train f.windows
  have hsystem := Model.stackedSystem_of_accumulate hempty (Model.of_fitted h.fitted).1
  rw [← hkept] at hsystem
  have htrain := Model.train_of_fitted h.fitted
  rw [(accumulate_keeps _ f.train f.windows).2] at htrain
  have hmodel : f.model.rows =
      (accumulate (.fresh config.transform regressor) f.train f.windows).1.training.x.height := by
    rw [h.model]
    rfl
  obtain ⟨speed, time, hspeed, htime, hwindows⟩ := outcome_cruiseWindows_eq_ok_iff.1 h.windows
  refine ⟨⟨speed, time, hspeed, htime, hwindows⟩, ?_, ?_, ?_, Model.rows_of_inSampleError h.inSample, ?_,
    regressor, _, _, f.weights, hregressor, hsystem, htrain, rfl⟩
  · simp only [report, hskipped]
    exact Model.refused_sublist _ f.train f.windows
  · intro s hs
    simp only [report, hskipped, List.mem_filterMap] at hs
    obtain ⟨w, hw, hrefusal⟩ := hs
    obtain ⟨rfl, hbatch⟩ := Model.readBatch_of_refusal hrefusal
    exact Model.build_of_readBatch_error (bounds_of_mem_steadyWindows hwindows hw).1 hbatch
  · have hstacked := (accumulate_stacked hshaped f.train f.windows).rows_eq
    rw [Model.length_rows_batches, ← hkept] at hstacked
    exact hmodel.trans (hstacked.trans (Nat.zero_add _))
  · have hfeatures := hsystem.features
    have hcols := cols_le_of_train htrain
    rw [hfeatures, ← hmodel] at hcols
    exact hcols

/-- How many rows of a test table a run is evaluated on: those of its range, or all of them. -/
def RunConfig.EvaluatesOn (config : RunConfig) (test : Table) (rows : Nat) : Prop :=
  match config.testRange with
  | some (start, stop) => start + rows = stop
  | none => rows = test.rows

theorem evaluatesOn_of_testWindow {config : RunConfig} {test : Table} {w : Window}
    (h : config.testWindow test = .ok w) : config.EvaluatesOn test w.len := by
  unfold RunConfig.testWindow Window.checked at h
  split at h
  · simp at h
  · next hordered =>
      obtain rfl := Except.ok.inj h
      unfold RunConfig.EvaluatesOn
      cases hrange : config.testRange with
      | none => rfl
      | some range =>
          simp only [hrange, Option.elim, Option.map_some, Option.getD_some] at hordered ⊢
          exact Nat.add_sub_cancel' (Nat.not_lt.1 hordered)

/-- What a run reports about the test files: nothing if there are none, and otherwise as many rows as it is
    evaluated on. -/
theorem outSample_of_evaluateTests {config : RunConfig} {f : Fitting} {session : Session}
    {outSample : Option (ErrorReport Float)} (h : (evaluateTests config f).outcome session = .ok outSample) :
    (outSample.isSome = true ↔ config.testFiles ≠ []) ∧
    ∀ r, outSample = some r → ∃ test : Table,
      test.MadeOf config.testFiles config.delimiter.toUInt8 f.converter session ∧ config.EvaluatesOn test r.rows := by
  rcases of_evaluateTests h with ⟨hnone, rfl⟩ | ⟨hfiles, test, w, result, rfl, htest, hwindow, herror⟩
  · exact ⟨by simp [hnone], by simp⟩
  · refine ⟨by simp [hfiles], fun r hr => ⟨test, madeOf_of_loadAll htest, ?_⟩⟩
    obtain rfl := Option.some.inj hr
    rw [Model.rows_of_outSampleError herror]
    exact evaluatesOn_of_testWindow hwindow

/-- The report of a run tells of its files. It is about the table that the training files are put together and
    converted to, and it has an evaluation exactly if there are test files, on the rows that are asked for. And
    it depends on nothing else: a run that agrees in all but the test files and their range, where the unit file
    and the training files hold the same, reports the same, its evaluation apart. -/
theorem run_report_tells_of_files (config : RunConfig) (session after : Session) (report : RunReport)
    (hrun : (run config).runOn session = (.ok report, after)) :
    (∃ (converter : Option UnitConverter) (train : Table),
      (loadOptionalUnits config.units).outcome session = .ok converter ∧
      train.MadeOf config.trainFiles config.delimiter.toUInt8 converter session ∧ report.TellsOf config train ∧
      (report.outSample.isSome = true ↔ config.testFiles ≠ []) ∧
      ∀ r, report.outSample = some r → ∃ test : Table,
        test.MadeOf config.testFiles config.delimiter.toUInt8 converter session ∧ config.EvaluatesOn test r.rows) ∧
    ∀ (testFiles : List String) (testRange : Option (Nat × Nat)) (other last : Session) (again : RunReport),
      (run { config with testFiles := testFiles, testRange := testRange }).runOn other = (.ok again, last) →
      (∀ path ∈ config.units.toList ++ config.trainFiles, other.store.read path = session.store.read path) →
      again = { report with outSample := again.outSample } := by
  obtain ⟨f, outSample, -, hfit, hevaluate, -, -, rfl⟩ := exists_stages_of_run hrun
  obtain ⟨start, hfits⟩ := exists_fits_of_fitTraining hfit
  refine ⟨⟨f.converter, f.train, hfits.units, madeOf_of_loadAll hfits.loaded, hfits.tellsOf outSample,
    outSample_of_evaluateTests hevaluate⟩, ?_⟩
  intro testFiles testRange other last again hagain hsame
  obtain ⟨g, outSample', -, hfit', -, -, -, rfl⟩ := exists_stages_of_run hagain
  -- The first stage does not look at the test files, and finds the same files in both sessions.
  have houtcome : (fitTraining config).outcome other = .ok f := by
    apply (readsOnly_fitTraining config).outcome_of_retains hfit
    intro path hpath content hread
    rw [hsame path hpath, hread]
  obtain rfl : f = g := Except.ok.inj (houtcome.symm.trans hfit')
  rfl

/-- A store with one file of two flights. In the second row of the second flight the temperature is zero. -/
def patchyFlight : Session where
  store := ⟨[(["flight.parquet"], .file (.columns [
    ⟨"time", .float64, [some 0.0, some 1.0, some 2.0, some 3.0, some 0.0, some 1.0, some 2.0]⟩,
    ⟨"v", .float64, [some 2.0, some 4.0, some 8.0, some 8.0, some 2.0, some 4.0, some 8.0]⟩,
    ⟨"p", .float64, [some 1.0, some 1.0, some 1.0, some 1.0, some 1.0, some 1.0, some 1.0]⟩,
    ⟨"t", .float64, [some 2.0, some 2.0, some 2.0, some 2.0, some 2.0, some 0.0, some 2.0]⟩,
    ⟨"a", .float64, [some 0.5, some 0.25, some 0.5, some 0.5, some 0.5, some 0.25, some 0.5]⟩,
    ⟨"f", .float64, [some 7.0, some 8.0, some 9.0, some 9.0, some 7.0, some 8.0, some 9.0]⟩]))]⟩
  log := []

/-- Fits the fuel flow, and evaluates the fit on two rows of the same file. -/
def patchyRun : RunConfig where
  trainFiles := ["flight.parquet"]
  testFiles := ["flight.parquet"]
  timeChannel := "time"
  speedChannel := "v"
  segmentation := ⟨10.0, 1.0, 1⟩
  transform := .fuelFlow ["v", "p", "t", "a"] ["f"] 0.0
  testRange := some (1, 3)

theorem run_report_tells_of_files_patchy :
    ∃ report after again last, (run patchyRun).runOn patchyFlight = (.ok report, after) ∧
      report.trainingRows = 3 ∧ report.skipped.length = 1 ∧
      (∃ (converter : Option UnitConverter) (train : Table),
        (loadOptionalUnits none).outcome patchyFlight = .ok converter ∧
        train.MadeOf ["flight.parquet"] (Char.toUInt8 '|') converter patchyFlight ∧ report.TellsOf patchyRun train ∧
        (report.outSample.isSome = true ↔ ["flight.parquet"] ≠ []) ∧
        ∀ r, report.outSample = some r → ∃ test : Table,
          test.MadeOf ["flight.parquet"] (Char.toUInt8 '|') converter patchyFlight ∧
          patchyRun.EvaluatesOn test r.rows) ∧
      (run { patchyRun with testFiles := [], testRange := none }).runOn patchyFlight = (.ok again, last) ∧
      again = { report with outSample := again.outSample } := by
  have hrun : ((run patchyRun).outcome patchyFlight).toOption.map
      (fun report => (report.trainingRows, report.skipped.length)) = some (3, 1) := by decide +kernel
  obtain ⟨report, hreport, hnumbers⟩ := Option.map_eq_some_iff.1 hrun
  obtain ⟨after, hafter⟩ := outcome_eq_ok_iff.1 (toOption_eq_some_iff.1 hreport)
  -- Without test files the run is over after its first stage.
  obtain ⟨f, -, -, hfit, -⟩ := exists_stages_of_run hafter
  obtain ⟨last, hfitted⟩ := outcome_eq_ok_iff.1 hfit
  have hagain : (run { patchyRun with testFiles := [], testRange := none }).runOn patchyFlight =
      (.ok (f.report none), last) := by
    rw [run_eq]
    exact runOn_bind_eq_ok_iff.2 ⟨f, last, hfitted, rfl⟩
  obtain ⟨hrows, hskipped⟩ := Prod.mk.inj hnumbers
  obtain ⟨htells, hsame⟩ := run_report_tells_of_files patchyRun patchyFlight after report hafter
  exact ⟨report, after, f.report none, last, hafter, hrows, hskipped, htells, hagain,
    hsame [] none patchyFlight last (f.report none) hagain fun _ _ => rfl⟩

end FlightFit
