import FlightFit.Command.Execute
import FlightFit.Proofs.SnapshotRoundTrip

/-!
Module: FlightFit.Proofs.Evaluation
Purpose: Evaluating a saved model. Where the model that a run has saved can be loaded, evaluating it on the
  test files of that run gives what the run reported: what is loaded is what was saved, the restored model
  answers as the trained one did, and saving has left the other files as they were.
Main exports: Snapshot.eq_of_load_of_save, outcome_evaluateFiles, RunConfig.delimiterByte_of_validate,
  Fitting.Fits.ofSnapshot_stored, saved_model_evaluates_as_reported
-/

namespace FlightFit

open FlightFit.Action

namespace Snapshot

variable {s t : Snapshot} {path : String} {before after : Session}

theorem eq_of_checked (h : s.checked = .ok t) : t = s := by
  unfold checked at h
  split at h
  · exact (Except.ok.inj h).symm
  · simp at h

/-- What can be loaded from where a snapshot was saved is that snapshot. -/
theorem eq_of_load_of_save (hsave : (s.save path).runOn before = (.ok (), after))
    (hload : (load path).outcome after = .ok t) : t = s := by
  rw [outcome_load_of_readText (readText_of_save hsave)] at hload
  split at hload
  · next found hfound =>
      obtain ⟨-, -, rfl⟩ := ofText_text_eq_ok_iff.1 hfound
      exact eq_of_checked (mapError_eq_ok_iff.1 hload)
  · simp at hload

theorem readsOnly_load (path : String) : ReadsOnly [path] (load path) := by
  refine ((readsOnly_readText List.mem_cons_self).during _).bind fun text => ?_
  exact ((readsOnly_decode _).during _).bind fun snapshot => readsOnly_attempt _

end Snapshot

theorem RunConfig.delimiterByte_of_validate {config : RunConfig} (h : config.validate = .ok ()) :
    RunConfig.delimiterByte config.delimiter = .ok config.delimiter.toUInt8 := by
  unfold validate at h
  cases hempty : config.trainFiles.isEmpty with
  | true =>
      rw [hempty] at h
      obtain ⟨_, hthrow, -⟩ := bind_eq_ok_iff.1 h
      cases hthrow
  | false =>
      rw [hempty] at h
      obtain ⟨byte, hbyte, -⟩ := bind_eq_ok_iff.1 h
      unfold delimiterByte at hbyte ⊢
      split at hbyte
      · next hsmall => exact if_pos hsmall
      · simp at hbyte

/-- Files are evaluated in steps that all find the same store. -/
theorem outcome_evaluateFiles {model : String} {inputs : List String} {delimiter : Char} {units : Option String}
    {start : Nat} {stop : Option Nat} {session : Session} {s : Snapshot} {m : Model}
    {converter : Option UnitConverter} {byte : UInt8} {test : Table} {w : Window} {r : ErrorReport Float}
    (hload : (Snapshot.load model).outcome session = .ok s) (hrestored : Model.ofSnapshot s = .ok m)
    (hunits : (loadOptionalUnits units).outcome session = .ok converter)
    (hbyte : RunConfig.delimiterByte delimiter = .ok byte)
    (htest : (loadAll byte converter inputs).outcome session = .ok test)
    (hwindow : Window.checked start (stop.getD test.rows) = .ok w) (herror : m.outSampleError test w = .ok r)
    (verbose : Bool) :
    (evaluateFiles model inputs delimiter units start stop verbose).outcome session = .ok r := by
  refine (Snapshot.readsOnly_load model).outcome_bind hload fun loaded hloaded => ?_
  have hrestore : ReadsOnly [] (during s!"restoring {model}" (attempt (Model.ofSnapshot s))) :=
    (readsOnly_attempt _).during _
  refine hrestore.outcome_bind (by rw [hrestored]; rfl) fun restored hstore => ?_
  rw [hloaded] at hstore
  have hconverter := (readsOnly_loadOptionalUnits units).outcome_eq hunits hstore
  refine (readsOnly_loadOptionalUnits units).outcome_bind hconverter fun converted hconverted => ?_
  have hconclude : ReadsOnly [] (conclude (RunConfig.delimiterByte delimiter)) := readsOnly_conclude _
  refine hconclude.outcome_bind (by rw [hbyte]; rfl) fun ready hready => ?_
  rw [hconverted, hstore] at hready
  have htable := (readsOnly_loadAll byte converter inputs).outcome_eq htest hready
  refine (readsOnly_loadAll byte converter inputs).outcome_bind htable fun read _ => ?_
  have hchecked : ReadsOnly [] (attempt (Window.checked start (stop.getD test.rows))) := readsOnly_attempt _
  refine hchecked.outcome_bind (by rw [hwindow]; rfl) fun last _ => ?_
  exact outcome_outSampleReport herror verbose last

/-- A fitted model is restored from its stored form, without its rows. -/
theorem Fitting.Fits.ofSnapshot_stored {f : Fitting} {config : RunConfig} {session : Session} {start : Model}
    (h : f.Fits config session start) :
    Model.ofSnapshot (f.model.stored f.weights f.inSample) = .ok f.model.withoutRows := by
  obtain ⟨s, hsnapshot, hrestored⟩ := Model.exists_restored h.parameters h.checked (some f.inSample)
  rw [Model.snapshot_eq_stored h.parameters] at hsnapshot
  obtain rfl := Except.ok.inj hsnapshot
  exact hrestored

/-- A saved model is evaluated as the run that saved it has reported. A valid run with test files saves its
    model in a file that is neither the unit file nor a test file. If the model can be loaded from there, then
    in every session with that store it can be restored and evaluated on the same test files, with the same
    delimiter and unit file and from the start to the end of the test range, and the answer is the evaluation
    in the report. -/
theorem saved_model_evaluates_as_reported (config : RunConfig) (hvalid : config.validate = .ok ())
    (htests : config.testFiles ≠ []) (path : String) (hsave : config.saveModel = some path)
    (hapart : ∀ source ∈ config.units.toList ++ config.testFiles, Path.key source ≠ Path.key path)
    (session after : Session) (report : RunReport) (hrun : (run config).runOn session = (.ok report, after))
    (s : Snapshot) (hload : (Snapshot.load path).outcome after = .ok s) (later : Session)
    (hlater : later.store = after.store) (verbose : Bool) :
    ∃ r, report.outSample = some r ∧
      (evaluateFiles path config.testFiles config.delimiter config.units (config.testRange.elim 0 Prod.fst)
        (config.testRange.map Prod.snd) verbose).outcome later = .ok r ∧
      (Invocation.execute ⟨verbose, .evaluate path config.testFiles config.delimiter config.units
        (config.testRange.elim 0 Prod.fst) (config.testRange.map Prod.snd)⟩).outcome later =
          .ok (printed r.toValue) := by
  obtain ⟨f, outSample, before, hfit, hevaluate, hbefore, hsaved, rfl⟩ := exists_stages_of_run hrun
  obtain ⟨start, hfits⟩ := exists_fits_of_fitTraining hfit
  obtain ⟨hnone, -⟩ | ⟨-, test, w, r, rfl, htest, hwindow, herror⟩ := of_evaluateTests hevaluate
  · exact absurd hnone htests
  have hstored := hfits.runOn_save hsave hsaved
  obtain rfl := Snapshot.eq_of_load_of_save hstored hload
  -- What the run has read is still there.
  have hretains : ∀ source ∈ config.units.toList ++ config.testFiles,
      session.store.Retains later.store source := by
    intro source hsource
    rw [hlater, ← hbefore]
    exact Snapshot.retains_of_save hstored (hapart source hsource)
  have hunits := (readsOnly_loadOptionalUnits config.units).outcome_of_retains hfits.units
    fun source hsource => hretains source (List.mem_append_left _ hsource)
  have htest' := (readsOnly_loadAll _ f.converter config.testFiles).outcome_of_retains htest
    fun source hsource => hretains source (List.mem_append_right _ hsource)
  have herror' : f.model.withoutRows.outSampleError test w = .ok r := by
    rw [Model.outSampleError_withoutRows (Model.state_eq_trained_iff.2 ⟨_, hfits.parameters⟩)]
    exact herror
  have hevaluated := outcome_evaluateFiles ((Snapshot.readsOnly_load path).outcome_eq hload hlater)
    hfits.ofSnapshot_stored hunits (RunConfig.delimiterByte_of_validate hvalid) htest' hwindow herror' verbose
  refine ⟨r, rfl, hevaluated, ?_⟩
  obtain ⟨last, hlast⟩ := outcome_eq_ok_iff.1 hevaluated
  exact outcome_eq_ok_iff.2 ⟨last, runOn_bind_eq_ok_iff.2 ⟨r, last, hlast, rfl⟩⟩

/-- Fits a short flight, saves the model in a folder that has to be made, and evaluates two rows. -/
def reviewedRun : RunConfig :=
  { shortRun with
    testFiles := ["./flight.parquet"]
    testRange := some (1, 3)
    saveModel := some "models/flight.json" }

theorem saved_model_evaluates_as_reported_reviewed :
    reviewedRun.validate = .ok () ∧
    ∃ report after s r, (run reviewedRun).runOn (shortFlight 1.0) = (.ok report, after) ∧
      (Snapshot.load "models/flight.json").outcome after = .ok s ∧ report.outSample = some r ∧
      (evaluateFiles "models/flight.json" ["./flight.parquet"] '|' none 1 (some 3) true).outcome
        ⟨after.store, []⟩ = .ok r ∧
      (Invocation.execute ⟨true, .evaluate "models/flight.json" ["./flight.parquet"] '|' none 1 (some 3)⟩).outcome
        ⟨after.store, []⟩ = .ok (printed r.toValue) := by
  have hvalid : reviewedRun.validate = .ok () := rfl
  have hapart : ∀ source ∈ reviewedRun.units.toList ++ reviewedRun.testFiles,
      Path.key source ≠ Path.key "models/flight.json" := by decide
  have hfits : ((run reviewedRun).outcome (shortFlight 1.0)).toOption.map (fun report =>
      (report.trainingRows, report.parameters.length, report.inSample.isFinite)) = some (2, 1, true) := by
    decide +kernel
  obtain ⟨report, hreport, hnumbers⟩ := Option.map_eq_some_iff.1 hfits
  obtain ⟨after, hrun⟩ := outcome_eq_ok_iff.1 (toOption_eq_some_iff.1 hreport)
  simp only [Prod.mk.injEq] at hnumbers
  obtain ⟨hrows, hcolumns, hfinite⟩ := hnumbers
  obtain ⟨m, weights, -, -, -, -, hload⟩ :=
    exists_stored_of_run rfl hrun (by rw [hrows]; decide) (by rw [hcolumns]; decide)
  rw [if_pos (by rw [hfinite]; decide +kernel)] at hload
  obtain ⟨r, hreported, hevaluated⟩ := saved_model_evaluates_as_reported reviewedRun hvalid (by decide)
    "models/flight.json" rfl hapart (shortFlight 1.0) after report hrun _ hload ⟨after.store, []⟩ rfl true
  exact ⟨hvalid, report, after, _, r, hrun, hload, hreported, hevaluated⟩

end FlightFit
