import FlightFit.Proofs.FiniteSamples
import FlightFit.Proofs.FittedWeights
import FlightFit.Proofs.Restoring
import FlightFit.Proofs.RunStages
import FlightFit.Proofs.SnapshotText

/-!
Module: FlightFit.Proofs.SavedModels
Purpose: Models that a run has saved. A file is read as it was written, so what is loaded from where a
  snapshot was saved is that snapshot, if its text can be read. A fit vouches for the weights and for the
  constant of the transform; the limit on the condition number and the in-sample errors are saved as they
  are, and where one of them is not finite the saved model cannot be loaded.
Main exports: Snapshot.exists_write_of_save, Snapshot.outcome_load_of_save, Model.of_fitted,
  Fitting.Fits.runOn_save, exists_stored_of_run, saved_model_loads_iff_finite
-/

namespace FlightFit

/-! ### Snapshots in files -/

namespace Action

variable {session : Session}

theorem write_of_writeText {path text : String} {after : Session}
    (h : (writeText path text).runOn session = (.ok (), after)) :
    session.store.write path (.bytes text.toUTF8) = .ok after.store := by
  obtain ⟨store, middle, hwrite, hmodify⟩ := runOn_bind_eq_ok_iff.1 h
  obtain ⟨hstore, rfl⟩ := runOn_consult_eq_ok_iff.1 hwrite
  obtain rfl := (Prod.mk.inj hmodify).2
  exact hstore

theorem store_of_makeFolders {folder : String} {after : Session}
    (h : (makeFolders folder).runOn session = (.ok (), after)) :
    after.store = (session.store.makeFolders folder).1 := by
  obtain ⟨found, middle, hget, h⟩ := runOn_bind_eq_ok_iff.1 h
  obtain ⟨rfl, rfl⟩ : session = found ∧ session = middle := by simpa using hget
  obtain ⟨_, made, hmodify, h⟩ := runOn_bind_eq_ok_iff.1 h
  obtain rfl := (Prod.mk.inj hmodify).2
  split at h
  · obtain rfl := (Prod.mk.inj h).2
    rfl
  · simp at h

end Action

namespace Snapshot

open FlightFit.Action

variable {s : Snapshot} {path : String} {before after : Session}

/-- Whatever folders are made first, which keeps all files, the text is written last. -/
theorem exists_write_of_save (h : (s.save path).runOn before = (.ok (), after)) :
    ∃ store : Store, (∀ other, before.store.Retains store other) ∧
      store.write path (.bytes s.text.toUTF8) = .ok after.store := by
  have hrest : ∀ {middle : Session}, (do
      during s!"creating {path}" (writeText path s.text)
      report (.saved s.model path) : Action Unit).runOn middle = (.ok (), after) →
        middle.store.write path (.bytes s.text.toUTF8) = .ok after.store := by
    intro middle hsave
    obtain ⟨_, written, hwrite, hreport⟩ := runOn_bind_eq_ok_iff.1 hsave
    have hstore := write_of_writeText (runOn_during_eq_ok_iff.1 hwrite)
    obtain rfl := (Prod.mk.inj hreport).2
    exact hstore
  unfold save at h
  split at h
  · next folder _ =>
      split at h
      · obtain ⟨_, middle, hfolders, hsave⟩ := runOn_bind_eq_ok_iff.1 h
        refine ⟨middle.store, fun other => ?_, hrest hsave⟩
        rw [store_of_makeFolders (runOn_during_eq_ok_iff.1 hfolders)]
        exact Store.retains_makeFolders before.store folder
      · exact ⟨before.store, fun other => .refl before.store other, hrest h⟩
  · exact ⟨before.store, fun other => .refl before.store other, hrest h⟩

theorem readText_of_save (h : (s.save path).runOn before = (.ok (), after)) :
    after.store.readText path = .ok s.text := by
  obtain ⟨store, -, hwrite⟩ := exists_write_of_save h
  exact Store.readText_of_write hwrite

/-- Saving a snapshot keeps every file under another key. -/
theorem retains_of_save (h : (s.save path).runOn before = (.ok (), after)) {other : String}
    (hne : Path.key other ≠ Path.key path) : before.store.Retains after.store other := by
  obtain ⟨store, hretains, hwrite⟩ := exists_write_of_save h
  exact (hretains other).trans (Store.retains_of_write hwrite hne)

/-- What is loaded from a file is what its text says, if that is a snapshot of the right version. -/
theorem outcome_load_of_readText {session : Session} {text : String}
    (h : session.store.readText path = .ok text) :
    (load path).outcome session =
      match ofText text with
      | .ok s => Failure.ofResult s.checked
      | .error defect => .error ⟨["parsing model snapshot"], .json defect⟩ := by
  have hread : (during s!"reading {path}" (Action.readText path)).runOn session = (.ok text, session) := by
    rw [runOn_during, Action.readText, runOn_consult, h]
    rfl
  unfold outcome load
  rw [runOn_bind, hread]
  simp only [runOn_bind, runOn_during]
  cases ofText text with
  | ok s => simp only [Action.decode, runOn_pure, mapError_ok, runOn_attempt]
  | error defect => rfl

/-- What is loaded from where a snapshot was saved is that snapshot, unless it holds a double that is not
    finite. -/
theorem outcome_load_of_save (h : (s.save path).runOn before = (.ok (), after)) (hsized : s.Sized)
    (hversion : s.formatVersion = snapshotVersion) :
    (load path).outcome after =
      if s.isFinite then .ok s else .error ⟨["parsing model snapshot"], .json .mistyped⟩ := by
  have hchecked : s.checked = .ok s := if_pos hversion
  rw [outcome_load_of_readText (readText_of_save h), ofText_text hsized]
  cases s.isFinite with
  | true => simp only [Json.onlyIf, if_true, hchecked, Failure.ofResult, mapError_ok]
  | false => rfl

end Snapshot

/-! ### What a fit promises -/

/-- Weights are fitted to finite targets, on at least as many rows as there are weights for each of them, and
    are finite themselves. -/
theorem of_fit {limit : Float} {x y weights : Matrix Float} (h : fit limit x y = .ok weights) :
    weights.all Float.isFinite = true ∧ y.all Float.isFinite = true ∧ weights.height ≤ x.height := by
  have hfits := fit_eq_ok_iff.1 h
  refine ⟨hfits.finite, hfits.targets, ?_⟩
  rw [(fit_shape h).1]
  exact hfits.posed.tall

section Sums

open Float.Model

theorem isFinite_add_unpacked (u : UnpackedFloat) {v : UnpackedFloat} (h : v.isFinite = false) :
    (UnpackedFloat.add .binary64 u v).isFinite = false := by
  cases v with
  | notANumber => cases u <;> rfl
  | infinity sign =>
      cases u with
      | infinity other => cases sign <;> cases other <;> rfl
      | notANumber | zero _ | finite _ _ _ _ => rfl
  | zero sign | finite sign mantissa exponent hpos => simp [UnpackedFloat.isFinite] at h

theorem isFinite_pack {u : UnpackedFloat} (h : u.isFinite = false) :
    (Float.ofModel (.pack u)).isFinite = false := by
  cases u with
  | notANumber => rfl
  | infinity sign => cases sign <;> rfl
  | zero sign | finite sign mantissa exponent hpos => simp [UnpackedFloat.isFinite] at h

/-- A sum is finite only if its second term is. -/
theorem isFinite_of_add {a b : Float} (h : (a + b).isFinite = true) : b.isFinite = true := by
  cases hb : b.isFinite with
  | true => rfl
  | false =>
      have hsum : (a + b).isFinite = false := isFinite_pack (isFinite_add_unpacked a.toModel.unpack hb)
      rw [h] at hsum
      exact Bool.noConfusion hsum

end Sums

theorem Model.of_fitted {m : Model} {weights : Matrix Float} (h : m.fitted = .ok weights) :
    m.training.isEmpty = false ∧ weights.all Float.isFinite = true ∧ m.training.y.all Float.isFinite = true ∧
      weights.height ≤ m.rows := by
  unfold fitted at h
  split at h
  · simp at h
  · next hrows => exact ⟨Bool.eq_false_iff.2 hrows, of_fit (mapError_eq_ok_iff.1 h)⟩

namespace Model

theorem Step.regressor_eq {m next : Model} (h : Step m next) : next.regressor = m.regressor := by
  cases h <;> rfl

end Model

theorem accumulate_keeps (m : Model) (table : Table) (windows : List Window) :
    (accumulate m table windows).1.transform = m.transform ∧
      (accumulate m table windows).1.regressor = m.regressor := by
  induction windows generalizing m with
  | nil => exact ⟨rfl, rfl⟩
  | cons w rest ih =>
      cases hread : m.read table w with
      | error fault =>
          rw [accumulate_cons_of_error hread]
          exact ih m
      | ok read =>
          obtain ⟨next, reading⟩ := read
          obtain ⟨batch, -, habsorb, -⟩ := Model.read_eq_ok_iff.1 hread
          have hstep := Model.step_absorb habsorb
          rw [accumulate_cons_of_ok hread, ← hstep.transform_eq, ← hstep.regressor_eq]
          exact ih next

/-- A fit shows that the constant of the transform is finite: it is in every target. -/
theorem isFinite_transform_of_fitted {start : Model} (hempty : start.training.isEmpty = true) {table : Table}
    {windows : List Window} {weights : Matrix Float}
    (h : (accumulate start table windows).1.fitted = .ok weights) : start.transform.isFinite = true := by
  obtain ⟨hrows, -, hfinite, -⟩ := Model.of_fitted h
  have hstacked := accumulate_stacked (Model.shaped_of_isEmpty hempty) table windows
  cases htransform : start.transform with
  | linear features targets intercept => rfl
  | fuelFlow features targets bias =>
      cases hbatches : windows.filterMap (start.batch? table) with
      | nil =>
          rw [hstacked.bare hbatches, hempty] at hrows
          simp at hrows
      | cons batch rest =>
          have hmem : batch ∈ windows.filterMap (start.batch? table) := by
            rw [hbatches]
            exact List.mem_cons_self
          obtain ⟨w, hw, hbatch⟩ := mem_batches_iff.1 hmem
          have hlt := (Model.readBatch_eq_ok_iff.1 hbatch).1
          exact isFinite_of_add ((finite_targets_iff_of_stacked htransform hempty hstacked).1 hfinite w hw
            ⟨batch, hbatch⟩ w.start (Nat.le_refl _) hlt)

/-! ### Runs -/

open FlightFit.Action

namespace Model

theorem options_of_named {name : String} {options : RegressorOptions} {regressor : Regressor}
    (h : Regressor.named name options = .ok regressor) : regressor.options = options := by
  unfold Regressor.named at h
  split at h
  · next entry hfind =>
      obtain rfl := Except.ok.inj h
      obtain rfl := List.mem_singleton.1 (List.mem_of_find?_eq_some hfind)
      rfl
  · simp at h

theorem of_build {id : String} {transform : Transform} {options : RegressorOptions} {start : Model}
    (h : Model.build id transform options = .ok start) :
    start.training.isEmpty = true ∧ start.transform.checked = .ok start.transform ∧
      start.regressor.options = options := by
  obtain ⟨regressor, hregressor, hchecked, rfl⟩ := build_eq_ok_iff.1 h
  exact ⟨rfl, hchecked, options_of_named hregressor⟩

end Model

theorem Regressor.rows_of_report {residuals : Matrix Float} {report : ErrorReport Float}
    (h : Regressor.report residuals = .ok report) : report.rows = residuals.height := by
  unfold Regressor.report ErrorReport.ofResiduals at h
  split at h
  · next found hfound =>
      split at hfound
      · simp at hfound
      · obtain rfl := Except.ok.inj h
        obtain rfl := Option.some.inj hfound
        rfl
  · simp at h

namespace Model

theorem rows_of_inSampleError {m : Model} {report : ErrorReport Float} (h : m.inSampleError = .ok report) :
    report.rows = m.rows := by
  obtain ⟨residuals, hresiduals, hreport⟩ := bind_eq_ok_iff.1 h
  obtain ⟨weights, -, hresiduals⟩ := bind_eq_ok_iff.1 hresiduals
  have hheight : residuals.height = m.rows := by
    split at hresiduals
    · simp at hresiduals
    · exact Regressor.height_residuals hresiduals
  exact (Regressor.rows_of_report hreport).trans hheight

theorem rows_of_outSampleError {m : Model} {table : Table} {w : Window} {report : ErrorReport Float}
    (h : m.outSampleError table w = .ok report) : report.rows = w.len := by
  obtain ⟨residuals, hresiduals, hreport⟩ := bind_eq_ok_iff.1 h
  obtain ⟨weights, -, hresiduals⟩ := bind_eq_ok_iff.1 hresiduals
  obtain ⟨batch, hbatch, hresiduals⟩ := bind_eq_ok_iff.1 hresiduals
  have hheight : residuals.height = batch.rows := Regressor.height_residuals hresiduals
  rw [Regressor.rows_of_report hreport, hheight, (readBatch_shape hbatch).1]

/-- The stored form of a model with given weights. -/
def stored (m : Model) (weights : Matrix Float) (report : ErrorReport Float) : Snapshot :=
  ⟨snapshotVersion, m.regressor.id, m.regressor.options, m.transform, .ofMatrix weights,
    ⟨m.rows, some report, programVersion⟩⟩

section Stored

variable {m : Model} {weights : Matrix Float} {report : ErrorReport Float}

theorem snapshot_eq_stored (h : m.parameters = some weights) :
    m.snapshot (some report) = .ok (m.stored weights report) := by
  unfold snapshot Model.weights
  rw [h]
  rfl

theorem sized_stored (hrows : m.rows < Json.wordLimit) (hcols : weights.cols < Json.wordLimit)
    (hheight : weights.height ≤ m.rows) (hreport : report.rows = m.rows) : (m.stored weights report).Sized := by
  refine ⟨(by decide : snapshotVersion < Snapshot.versionLimit), Nat.lt_of_le_of_lt hheight hrows, hcols, hrows, ?_⟩
  intro r hr
  obtain rfl := Option.some.inj hr
  rw [hreport]
  exact hrows

/-- With finite weights and a finite constant, it depends on what the fit does not check. -/
theorem isFinite_stored (hweights : weights.all Float.isFinite = true) (htransform : m.transform.isFinite = true) :
    (m.stored weights report).isFinite = (m.regressor.options.maxCondition.isFinite && report.isFinite) := by
  have hvalues : weights.entries.all (·.isFinite) = true := hweights
  simp [Snapshot.isFinite, stored, ParameterBlock.ofMatrix, hvalues, htransform]

end Stored

end Model

namespace Fitting

variable {f : Fitting} {config : RunConfig} {session : Session} {start : Model}

theorem Fits.parameters (h : f.Fits config session start) : f.model.parameters = some f.weights := by rw [h.model]

theorem Fits.transform (h : f.Fits config session start) : f.model.transform = start.transform := by
  rw [h.model]
  exact (accumulate_keeps start f.train f.windows).1

theorem Fits.options (h : f.Fits config session start) : f.model.regressor.options = config.regressor := by
  rw [h.model, ← (Model.of_build h.built).2.2]
  exact congrArg Regressor.options (accumulate_keeps start f.train f.windows).2

theorem Fits.checked (h : f.Fits config session start) :
    f.model.transform.checked = .ok f.model.transform := by
  rw [h.transform]
  exact (Model.of_build h.built).2.1

theorem Fits.height_le (h : f.Fits config session start) : f.weights.height ≤ f.model.rows := by
  rw [h.model]
  exact (Model.of_fitted h.fitted).2.2.2

/-- The file that a fit is saved in depends on what the fit does not check. -/
theorem Fits.isFinite_stored (h : f.Fits config session start) :
    (f.model.stored f.weights f.inSample).isFinite =
      (config.regressor.maxCondition.isFinite && f.inSample.isFinite) := by
  have htransform : f.model.transform.isFinite = true := by
    rw [h.transform]
    exact isFinite_transform_of_fitted (Model.of_build h.built).1 h.fitted
  rw [Model.isFinite_stored (Model.of_fitted h.fitted).2.1 htransform, h.options]

/-- What is saved of a fit is the stored form of its model. -/
theorem Fits.runOn_save (h : f.Fits config session start) {path : String} (hsave : config.saveModel = some path)
    {before after : Session} (hrun : (saveFitting config f).runOn before = (.ok (), after)) :
    ((f.model.stored f.weights f.inSample).save path).runOn before = (.ok (), after) := by
  unfold saveFitting at hrun
  rw [hsave] at hrun
  obtain ⟨s, middle, hattempt, hrun⟩ := runOn_bind_eq_ok_iff.1 hrun
  obtain ⟨hsnapshot, rfl⟩ := runOn_attempt_eq_ok_iff.1 hattempt
  rw [Model.snapshot_eq_stored h.parameters] at hsnapshot
  obtain rfl := Except.ok.inj hsnapshot
  exact hrun

end Fitting

/-- What is loaded from where a run has saved its model. -/
theorem exists_stored_of_run {config : RunConfig} {path : String} (hsave : config.saveModel = some path)
    {session after : Session} {report : RunReport} (hrun : (run config).runOn session = (.ok report, after))
    (hrows : report.trainingRows < Json.wordLimit) (htargets : report.parameters.length < Json.wordLimit) :
    ∃ (m : Model) (weights : Matrix Float), m.parameters = some weights ∧ m.transform.checked = .ok m.transform ∧
      m.rows = report.trainingRows ∧ weights.columns = report.parameters ∧
      (Snapshot.load path).outcome after =
        if config.regressor.maxCondition.isFinite && report.inSample.isFinite then
          .ok (m.stored weights report.inSample)
        else .error ⟨["parsing model snapshot"], .json .mistyped⟩ := by
  obtain ⟨f, outSample, before, hfit, -, -, hsaved, rfl⟩ := exists_stages_of_run hrun
  obtain ⟨start, hfits⟩ := exists_fits_of_fitTraining hfit
  have hcols : f.weights.cols < Json.wordLimit := by
    rw [← Matrix.length_columns]
    exact htargets
  have hsized := Model.sized_stored hrows hcols hfits.height_le (Model.rows_of_inSampleError hfits.inSample)
  have hload := Snapshot.outcome_load_of_save (hfits.runOn_save hsave hsaved) hsized rfl
  rw [hfits.isFinite_stored] at hload
  exact ⟨f.model, f.weights, hfits.parameters, hfits.checked, rfl, rfl, hload⟩

/-- A model that a run has saved can be loaded again if the limit on the condition number and the in-sample
    errors are finite, and only then: the file holds them, and the fit checks neither. What is loaded says
    what the run reported, and restoring it gives the fitted weights. -/
theorem saved_model_loads_iff_finite (config : RunConfig) (path : String) (hsave : config.saveModel = some path)
    (session after : Session) (report : RunReport) (hrun : (run config).runOn session = (.ok report, after))
    (hrows : report.trainingRows < Json.wordLimit) (htargets : report.parameters.length < Json.wordLimit) :
    (config.regressor.maxCondition.isFinite = true ∧ report.inSample.isFinite = true →
      ∃ s m weights, (Snapshot.load path).outcome after = .ok s ∧ s.metadata.trainedRows = report.trainingRows ∧
        s.metadata.inSample = some report.inSample ∧ Model.ofSnapshot s = .ok m ∧ m.state = .trained ∧
        m.weights = .ok weights ∧ weights.columns = report.parameters) ∧
    (¬(config.regressor.maxCondition.isFinite = true ∧ report.inSample.isFinite = true) →
      (Snapshot.load path).outcome after = .error ⟨["parsing model snapshot"], .json .mistyped⟩) := by
  obtain ⟨m, weights, hweights, hchecked, htrained, hparameters, hload⟩ :=
    exists_stored_of_run hsave hrun hrows htargets
  rw [← Bool.and_eq_true]
  constructor
  · intro hfinite
    rw [if_pos hfinite] at hload
    obtain ⟨s, hsnapshot, hrestored⟩ := Model.exists_restored hweights hchecked (some report.inSample)
    rw [Model.snapshot_eq_stored hweights] at hsnapshot
    obtain rfl := Except.ok.inj hsnapshot
    refine ⟨_, m.withoutRows, weights, hload, htrained, rfl, hrestored, ?_, ?_, hparameters⟩
    · exact Model.state_eq_trained_iff.2 ⟨weights, hweights⟩
    · simp [Model.weights, Model.withoutRows, hweights]
  · intro hnot
    rw [if_neg hnot] at hload
    exact hload

/-- Three rows, with a speed to fit a fuel flow to; the flow in the second row is given. -/
def shortFlight (flow : Float) : Session where
  store := ⟨[(["flight.parquet"], .file (.columns [⟨"t", .float64, [some 0.0, some 1.0, some 2.0]⟩,
    ⟨"v", .float64, [some 1.0, some 0.0, some 0.0]⟩, ⟨"f", .float64, [some 3.0, some flow, some 0.0]⟩]))]⟩
  log := []

/-- Fits the flow of a short flight to its speed, and saves the model. -/
def shortRun : RunConfig where
  trainFiles := ["flight.parquet"]
  timeChannel := "t"
  speedChannel := "v"
  segmentation := ⟨10.0, -1.0, 0⟩
  transform := .linear ["v"] ["f"] false
  saveModel := some "model.json"

/-- Whether a short flight is fitted, with errors that are finite or not. -/
def fitsShortFlight (flow : Float) (finite : Bool) : Bool :=
  match (run shortRun).outcome (shortFlight flow) with
  | .ok report => report.inSample.isFinite == finite && report.trainingRows == 2 && report.parameters.length == 1
  | .error _ => false

theorem exists_run_of_fitsShortFlight {flow : Float} {finite : Bool} (h : fitsShortFlight flow finite = true) :
    ∃ report after, (run shortRun).runOn (shortFlight flow) = (.ok report, after) ∧
      report.inSample.isFinite = finite ∧ report.trainingRows < Json.wordLimit ∧
      report.parameters.length < Json.wordLimit := by
  unfold fitsShortFlight at h
  split at h
  · next report hreport =>
      obtain ⟨after, hrun⟩ := outcome_eq_ok_iff.1 hreport
      simp only [Bool.and_eq_true, beq_iff_eq] at h
      obtain ⟨⟨hfinite, hrows⟩, hcolumns⟩ := h
      exact ⟨report, after, hrun, hfinite, by rw [hrows]; decide, by rw [hcolumns]; decide⟩
  · simp at h

theorem saved_model_loads_iff_finite_calm :
    ∃ report after, (run shortRun).runOn (shortFlight 1.0) = (.ok report, after) ∧
      ∃ s m weights, (Snapshot.load "model.json").outcome after = .ok s ∧
        s.metadata.trainedRows = report.trainingRows ∧ s.metadata.inSample = some report.inSample ∧
        Model.ofSnapshot s = .ok m ∧ m.state = .trained ∧ m.weights = .ok weights ∧
        weights.columns = report.parameters := by
  obtain ⟨report, after, hrun, hfinite, hrows, hcolumns⟩ :=
    exists_run_of_fitsShortFlight (by decide +kernel : fitsShortFlight 1.0 true = true)
  have hloads := saved_model_loads_iff_finite shortRun "model.json" rfl _ after report hrun hrows hcolumns
  exact ⟨report, after, hrun, hloads.1 ⟨by decide +kernel, hfinite⟩⟩

/-- A flow beyond any weight is squared to infinity in the report, and the model that was saved with the
    report is lost. -/
theorem spiked_flight_saves_unreadable_model :
    ∃ report after, (run shortRun).runOn (shortFlight 1e200) = (.ok report, after) ∧
      (Snapshot.load "model.json").outcome after = .error ⟨["parsing model snapshot"], .json .mistyped⟩ := by
  obtain ⟨report, after, hrun, hfinite, hrows, hcolumns⟩ :=
    exists_run_of_fitsShortFlight (by decide +kernel : fitsShortFlight 1e200 false = true)
  obtain ⟨m, weights, -, -, -, -, hload⟩ := exists_stored_of_run rfl hrun hrows hcolumns
  rw [hfinite, Bool.and_false] at hload
  exact ⟨report, after, hrun, hload⟩

end FlightFit
