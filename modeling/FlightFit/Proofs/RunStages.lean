import FlightFit.Proofs.Accumulation
import FlightFit.Proofs.Loading

/-!
Module: FlightFit.Proofs.RunStages
Purpose: A run in three stages: it fits a model to the training files, evaluates it on the test files and
  saves it. The first two stages read only. So the fit depends on the unit file and the training files and
  on nothing else, and what a run changes in the store is what saving changes.
Main exports: Fitting, fitTraining, evaluateTests, saveFitting, run_eq, exists_stages_of_run,
  readsOnly_fitTraining, Fitting.Fits, exists_fits_of_fitTraining, RunConfig.testWindow, of_evaluateTests
-/

namespace FlightFit

open FlightFit.Action

/-- What a run has made of its training files. -/
structure Fitting where
  converter : Option UnitConverter
  train : Table
  windows : List Window
  skipped : List SkippedWindow
  /-- The trained model. -/
  model : Model
  weights : Matrix Float
  inSample : ErrorReport Float

/-- The report on a fit and its evaluation. -/
def Fitting.report (f : Fitting) (outSample : Option (ErrorReport Float)) : RunReport where
  trainingRows := f.model.rows
  windows := f.windows
  skipped := f.skipped
  parameters := f.weights.columns
  inSample := f.inSample
  outSample := outSample

/-- Fits a model to the training files. -/
def fitTraining (config : RunConfig) : Action Fitting := do
  let converter ← loadOptionalUnits config.units
  let train ← during "loading training data" (loadAll config.delimiter.toUInt8 converter config.trainFiles)
  let windows ← cruiseWindows config train
  let model ← attempt (Model.build config.model config.transform config.regressor)
  let (model, skipped) ← accumulateWindows model train windows
  let (model, weights) ← during "training model" (trainModel model)
  let inSample ← inSampleReport model config.verbose
  report (.quality "in-sample" inSample)
  pure ⟨converter, train, windows, skipped, model, weights, inSample⟩

/-- Evaluates a fit on the test files, if there are any. -/
def evaluateTests (config : RunConfig) (f : Fitting) : Action (Option (ErrorReport Float)) :=
  if config.testFiles.isEmpty then pure none
  else do pure (some (← evaluateOn config config.delimiter.toUInt8 f.converter f.model))

/-- Saves the fitted model, if that is asked for. -/
def saveFitting (config : RunConfig) (f : Fitting) : Action Unit :=
  match config.saveModel with
  | some path => do
    let snapshot ← attempt (f.model.snapshot (some f.inSample))
    snapshot.save path
  | none => pure ()

/-- A run is its three stages. -/
theorem run_eq (config : RunConfig) :
    run config = (do
      let f ← fitTraining config
      let outSample ← evaluateTests config f
      saveFitting config f
      pure (f.report outSample)) := by
  unfold run fitTraining evaluateTests saveFitting
  cases config.testFiles.isEmpty <;> cases config.saveModel <;> simp [bind_assoc, Fitting.report]

/-! ### The stages that read only -/

theorem readsOnly_loadOptionalUnits (units : Option String) :
    ReadsOnly units.toList (loadOptionalUnits units) := by
  cases units with
  | none => exact readsOnly_pure none
  | some path => exact (readsOnly_loadUnits List.mem_cons_self).bind fun _ => readsOnly_pure _

section Stages

variable {paths : List String}

theorem readsOnly_cruiseWindows (config : RunConfig) (table : Table) :
    ReadsOnly paths (cruiseWindows config table) := by
  refine (readsOnly_attempt _).bind fun speed => (readsOnly_attempt _).bind fun time => ?_
  have hfind : ReadsOnly paths (findWindows config.segmentation speed time) :=
    (readsOnly_attempt _).bind fun _ => (readsOnly_attempt _).bind fun _ =>
      (readsOnly_report _).bind fun _ => readsOnly_pure _
  exact (hfind.during _).bind fun _ => (readsOnly_report _).bind fun _ => readsOnly_pure _

theorem readsOnly_accumulateWindows (m : Model) (table : Table) (windows : List Window) :
    ReadsOnly paths (accumulateWindows m table windows) :=
  (readsOnly_reportAll _).bind fun _ => readsOnly_pure _

theorem readsOnly_trainModel (m : Model) : ReadsOnly paths (trainModel m) :=
  (readsOnly_reportAll _).bind fun _ => (readsOnly_attempt _).bind fun _ => readsOnly_pure _

theorem readsOnly_inSampleReport (m : Model) (verbose : Bool) : ReadsOnly paths (inSampleReport m verbose) :=
  (readsOnly_reportAll _).bind fun _ => readsOnly_attempt _

theorem readsOnly_outSampleReport (m : Model) (table : Table) (w : Window) (verbose : Bool) :
    ReadsOnly paths (outSampleReport m table w verbose) :=
  (readsOnly_reportAll _).bind fun _ => readsOnly_attempt _

end Stages

/-- A fit depends on the unit file and the training files. -/
theorem readsOnly_fitTraining (config : RunConfig) :
    ReadsOnly (config.units.toList ++ config.trainFiles) (fitTraining config) := by
  have hunits := (readsOnly_loadOptionalUnits config.units).mono
    (List.subset_append_left config.units.toList config.trainFiles)
  refine hunits.bind fun converter => ?_
  have htrain := (readsOnly_loadAll config.delimiter.toUInt8 converter config.trainFiles).mono
    (List.subset_append_right config.units.toList config.trainFiles)
  refine (htrain.during _).bind fun train => ?_
  refine (readsOnly_cruiseWindows config train).bind fun windows => ?_
  refine (readsOnly_attempt _).bind fun start => ?_
  refine (readsOnly_accumulateWindows start train windows).bind fun (last, skipped) => ?_
  refine ((readsOnly_trainModel last).during _).bind fun (model, weights) => ?_
  refine (readsOnly_inSampleReport model config.verbose).bind fun inSample => ?_
  exact (readsOnly_report _).bind fun _ => readsOnly_pure _

/-- An evaluation depends on the test files. -/
theorem readsOnly_evaluateTests (config : RunConfig) (f : Fitting) :
    ReadsOnly config.testFiles (evaluateTests config f) := by
  unfold evaluateTests
  split
  · exact readsOnly_pure none
  · refine ReadsOnly.bind ?_ fun _ => readsOnly_pure _
    refine ((readsOnly_loadAll _ f.converter config.testFiles).during _).bind fun test => ?_
    refine (readsOnly_attempt _).bind fun window => ?_
    refine ((readsOnly_outSampleReport f.model test window config.verbose).during _).bind fun result => ?_
    exact (readsOnly_report _).bind fun _ => readsOnly_pure _

/-- A run that succeeds has fitted and evaluated what it found in the store to begin with, and has saved to
    that store. -/
theorem exists_stages_of_run {config : RunConfig} {session after : Session} {report : RunReport}
    (h : (run config).runOn session = (.ok report, after)) :
    ∃ f outSample before, (fitTraining config).outcome session = .ok f ∧
      (evaluateTests config f).outcome session = .ok outSample ∧ before.store = session.store ∧
      (saveFitting config f).runOn before = (.ok (), after) ∧ report = f.report outSample := by
  rw [run_eq] at h
  obtain ⟨f, fitted, hfit, h⟩ := runOn_bind_eq_ok_iff.1 h
  obtain ⟨outSample, before, hevaluate, h⟩ := runOn_bind_eq_ok_iff.1 h
  obtain ⟨_, saved, hsave, h⟩ := runOn_bind_eq_ok_iff.1 h
  obtain ⟨rfl, rfl⟩ : f.report outSample = report ∧ saved = after := by simpa using h
  have hfitted := (readsOnly_fitTraining config).store_eq hfit
  have hevaluated := (readsOnly_evaluateTests config f).store_eq hevaluate
  have houtcome := (readsOnly_evaluateTests config f).outcome_eq (outcome_eq_ok_iff.2 ⟨before, hevaluate⟩)
    hfitted.symm
  exact ⟨f, outSample, before, outcome_eq_ok_iff.2 ⟨fitted, hfit⟩, houtcome, hevaluated.trans hfitted, hsave, rfl⟩

/-! ### What the stages have done -/

theorem of_accumulateWindows {m last : Model} {table : Table} {windows : List Window}
    {skipped : List SkippedWindow} {session after : Session}
    (h : (accumulateWindows m table windows).runOn session = (.ok (last, skipped), after)) :
    last = (accumulate m table windows).1 ∧ skipped = skippedWindows (accumulate m table windows).2 := by
  have houtcome := outcome_accumulateWindows m table windows session
  rw [outcome, h] at houtcome
  exact Prod.mk.inj (Except.ok.inj houtcome)

theorem of_trainModel {m trained : Model} {weights : Matrix Float} {session after : Session}
    (h : (trainModel m).runOn session = (.ok (trained, weights), after)) :
    m.fitted = .ok weights ∧ trained = { m with parameters := some weights } := by
  obtain ⟨_, _, -, h⟩ := runOn_bind_eq_ok_iff.1 h
  obtain ⟨fitted, _, hfitted, h⟩ := runOn_bind_eq_ok_iff.1 h
  obtain ⟨rfl, rfl⟩ := Prod.mk.inj (Except.ok.inj (Prod.mk.inj h).1)
  exact ⟨(runOn_attempt_eq_ok_iff.1 hfitted).1, rfl⟩

theorem of_inSampleReport {m : Model} {verbose : Bool} {report : ErrorReport Float} {session after : Session}
    (h : (inSampleReport m verbose).runOn session = (.ok report, after)) : m.inSampleError = .ok report := by
  obtain ⟨_, _, -, h⟩ := runOn_bind_eq_ok_iff.1 h
  exact (runOn_attempt_eq_ok_iff.1 h).1

theorem outcome_outSampleReport {m : Model} {table : Table} {w : Window} {report : ErrorReport Float}
    (h : m.outSampleError table w = .ok report) (verbose : Bool) (session : Session) :
    (outSampleReport m table w verbose).outcome session = .ok report := by
  unfold outSampleReport outcome
  rw [runOn_bind, runOn_reportAll, h]
  rfl

theorem of_outSampleReport {m : Model} {table : Table} {w : Window} {verbose : Bool} {report : ErrorReport Float}
    {session after : Session} (h : (outSampleReport m table w verbose).runOn session = (.ok report, after)) :
    m.outSampleError table w = .ok report := by
  obtain ⟨_, _, -, h⟩ := runOn_bind_eq_ok_iff.1 h
  exact (runOn_attempt_eq_ok_iff.1 h).1

/-- How a fit has come about: the cruise windows of the training files were read into a model, which was
    trained on them. -/
structure Fitting.Fits (f : Fitting) (config : RunConfig) (session : Session) (start : Model) : Prop where
  units : (loadOptionalUnits config.units).outcome session = .ok f.converter
  loaded : (loadAll config.delimiter.toUInt8 f.converter config.trainFiles).outcome session = .ok f.train
  windows : (cruiseWindows config f.train).outcome session = .ok f.windows
  built : Model.build config.model config.transform config.regressor = .ok start
  skipped : f.skipped = skippedWindows (accumulate start f.train f.windows).2
  fitted : (accumulate start f.train f.windows).1.fitted = .ok f.weights
  model : f.model = { (accumulate start f.train f.windows).1 with parameters := some f.weights }
  inSample : f.model.inSampleError = .ok f.inSample

theorem exists_fits_of_fitTraining {config : RunConfig} {session : Session} {f : Fitting}
    (h : (fitTraining config).outcome session = .ok f) : ∃ start, f.Fits config session start := by
  obtain ⟨after, h⟩ := outcome_eq_ok_iff.1 h
  obtain ⟨converter, withUnits, hunits, h⟩ := runOn_bind_eq_ok_iff.1 h
  obtain ⟨train, loaded, htrain, h⟩ := runOn_bind_eq_ok_iff.1 h
  obtain ⟨windows, _, hwindows, h⟩ := runOn_bind_eq_ok_iff.1 h
  obtain ⟨start, _, hbuild, h⟩ := runOn_bind_eq_ok_iff.1 h
  obtain ⟨⟨last, skipped⟩, _, haccumulate, h⟩ := runOn_bind_eq_ok_iff.1 h
  obtain ⟨⟨model, weights⟩, _, htrained, h⟩ := runOn_bind_eq_ok_iff.1 h
  obtain ⟨inSample, _, hinSample, h⟩ := runOn_bind_eq_ok_iff.1 h
  obtain ⟨_, _, -, h⟩ := runOn_bind_eq_ok_iff.1 h
  obtain rfl := Except.ok.inj (Prod.mk.inj h).1
  -- Each file is read from the store that the run began with.
  have htrain' := runOn_during_eq_ok_iff.1 htrain
  have hall := readsOnly_loadAll config.delimiter.toUInt8 converter config.trainFiles
  have hloadedUnits := (readsOnly_loadOptionalUnits config.units).store_eq hunits
  have hloaded := (hall.store_eq htrain').trans hloadedUnits
  obtain ⟨rfl, rfl⟩ := of_accumulateWindows haccumulate
  obtain ⟨hfitted, rfl⟩ := of_trainModel (runOn_during_eq_ok_iff.1 htrained)
  have hcruise : ReadsOnly [] (cruiseWindows config train) := readsOnly_cruiseWindows config train
  exact ⟨start, outcome_eq_ok_iff.2 ⟨withUnits, hunits⟩,
    hall.outcome_eq (outcome_eq_ok_iff.2 ⟨loaded, htrain'⟩) hloadedUnits.symm,
    hcruise.outcome_eq (outcome_eq_ok_iff.2 ⟨_, hwindows⟩) hloaded.symm, (runOn_attempt_eq_ok_iff.1 hbuild).1, rfl,
    hfitted, rfl, of_inSampleReport hinSample⟩

/-- The rows of a test table that a run is evaluated on. -/
def RunConfig.testWindow (config : RunConfig) (test : Table) : Except Fault Window :=
  Window.checked (config.testRange.elim 0 Prod.fst) ((config.testRange.map Prod.snd).getD test.rows)

/-- With test files a fit is evaluated on their window; without them there is no evaluation. -/
theorem of_evaluateTests {config : RunConfig} {f : Fitting} {session : Session}
    {outSample : Option (ErrorReport Float)} (h : (evaluateTests config f).outcome session = .ok outSample) :
    (config.testFiles = [] ∧ outSample = none) ∨
    (config.testFiles ≠ [] ∧ ∃ test w result, outSample = some result ∧
      (loadAll config.delimiter.toUInt8 f.converter config.testFiles).outcome session = .ok test ∧
      config.testWindow test = .ok w ∧ f.model.outSampleError test w = .ok result) := by
  obtain ⟨after, h⟩ := outcome_eq_ok_iff.1 h
  unfold evaluateTests at h
  split at h
  · next hempty => exact .inl ⟨List.isEmpty_iff.1 hempty, (Except.ok.inj (Prod.mk.inj h).1).symm⟩
  · next hfiles =>
      obtain ⟨result, _, hresult, h⟩ := runOn_bind_eq_ok_iff.1 h
      obtain ⟨test, _, htest, hresult⟩ := runOn_bind_eq_ok_iff.1 hresult
      obtain ⟨w, _, hwindow, hresult⟩ := runOn_bind_eq_ok_iff.1 hresult
      obtain ⟨result', _, herror, hresult⟩ := runOn_bind_eq_ok_iff.1 hresult
      obtain ⟨_, _, -, hresult⟩ := runOn_bind_eq_ok_iff.1 hresult
      obtain rfl := Except.ok.inj (Prod.mk.inj hresult).1
      have hwindow := (runOn_attempt_eq_ok_iff.1 hwindow).1
      refine .inr ⟨fun hnil => hfiles (List.isEmpty_iff.2 hnil), test, w, result',
        (Except.ok.inj (Prod.mk.inj h).1).symm, outcome_eq_ok_iff.2 ⟨_, runOn_during_eq_ok_iff.1 htest⟩, ?_,
        of_outSampleReport (runOn_during_eq_ok_iff.1 herror)⟩
      unfold RunConfig.testWindow
      split at hwindow
      · next start stop hrange =>
          rw [hrange]
          exact hwindow
      · next hrange =>
          rw [hrange]
          exact hwindow

end FlightFit
