import FlightFit.Proofs.Accumulation
import FlightFit.Proofs.SampleErrors
import FlightFit.Proofs.TableLife

/-!
Module: FlightFit.Proofs.RelevantSamples
Purpose: What a model looks at in a table: the channels that its transform names, in the rows of its windows.
  Two tables that agree there (`Table.AgreeOn`) are selected from alike, so they give the same batches and the
  same faults, and whatever is made of batches is the same for both. Predictions look at less: the target
  channels have to be there, but what they hold does not matter.
Main exports: Window.Holds, Table.sample?, Table.AgreeOn, Table.AgreeOn.select_eq, Transform.channels,
  Model.readBatch_of_agreeOn, accumulate_congr, Transform.map_fst_build, Model.map_x_readBatch_of_agreeOn,
  Model.only_relevant_samples_matter
-/

namespace FlightFit

/-- A row belongs to a window. -/
def Window.Holds (w : Window) (index : Nat) : Prop := w.start ≤ index ∧ index < w.stop

/-- A slice is made of the samples in the rows of its window. -/
theorem Window.slice_congr {w : Window} {samples samples' : List Float}
    (h : ∀ index, w.Holds index → samples[index]? = samples'[index]?) : w.slice samples = w.slice samples' := by
  apply List.ext_getElem?
  intro offset
  simp only [slice, List.getElem?_take, List.getElem?_drop]
  split
  · next hoffset =>
      rw [len] at hoffset
      exact h (w.start + offset) ⟨Nat.le_add_right _ _, by omega⟩
  · rfl

namespace Table

/-- The sample of a channel in a row, if there is one. -/
def sample? (t : Table) (name : String) (index : Nat) : Option Float := (find? name t.channels).bind (·[index]?)

/-- Two tables agree on some channels in some rows: they have the same ones of these channels, with the same
    samples in these rows. They have equally many rows; if not, the rows in question are rows of both. -/
structure AgreeOn (names : List String) (inside : Nat → Prop) (t t' : Table) : Prop where
  reach : t.rows = t'.rows ∨ ∀ index, inside index → index < t.rows ∧ index < t'.rows
  known : ∀ name ∈ names, (name ∈ t.names ↔ name ∈ t'.names)
  samples : ∀ name ∈ names, ∀ index, inside index → index < t.rows → t.sample? name index = t'.sample? name index

namespace AgreeOn

variable {names : List String} {t t' : Table} {w : Window}

/-- Tables that agree on much agree on any part of it. -/
theorem mono {names' : List String} {inside inside' : Nat → Prop} (h : AgreeOn names inside t t')
    (hnames : ∀ name ∈ names', name ∈ names) (hinside : ∀ index, inside' index → inside index) :
    AgreeOn names' inside' t t' := by
  refine ⟨?_, ?_, ?_⟩
  · apply h.reach.imp_right
    intro hreach index hindex
    exact hreach index (hinside index hindex)
  · intro name hname
    exact h.known name (hnames name hname)
  · intro name hname index hindex
    exact h.samples name (hnames name hname) index (hinside index hindex)

/-- A window with rows lies inside both tables or leaves both, which then have equally many rows. -/
theorem inside_or_outside (h : AgreeOn names w.Holds t t') (hw : w.start < w.stop) :
    (w.stop ≤ t.rows ∧ w.stop ≤ t'.rows) ∨ (t.rows < w.stop ∧ t.rows = t'.rows) := by
  rcases h.reach with hrows | hreach
  · rcases Nat.lt_or_ge t.rows w.stop with hout | hin
    · exact .inr ⟨hout, hrows⟩
    · exact .inl ⟨hin, hrows ▸ hin⟩
  · have hlast := hreach (w.stop - 1) ⟨by omega, by omega⟩
    exact .inl ⟨by omega, by omega⟩

/-- The channels that the tables agree on look alike in the window, and are missing alike. -/
theorem map_slice_eq (h : AgreeOn names w.Holds t t') (hstop : w.stop ≤ t.rows) {name : String}
    (hname : name ∈ names) : (t.channel name).map w.slice = (t'.channel name).map w.slice := by
  rcases channel_cases t name with ⟨hknown, samples, hfind, hsamples⟩ | ⟨hunknown, hsamples⟩ <;>
    rcases channel_cases t' name with ⟨hknown', samples', hfind', hsamples'⟩ | ⟨hunknown', hsamples'⟩
  · rw [hsamples, hsamples']
    apply congrArg Except.ok
    apply Window.slice_congr
    intro index hindex
    have hsample := h.samples name hname index hindex (Nat.lt_of_lt_of_le hindex.2 hstop)
    rwa [sample?, sample?, hfind, hfind'] at hsample
  · exact absurd ((h.known name hname).1 hknown) hunknown'
  · exact absurd ((h.known name hname).2 hknown') hunknown
  · rw [hsamples, hsamples']

/-- What the tables agree on is selected from them alike. -/
theorem select_eq (h : AgreeOn names w.Holds t t') (hw : w.start < w.stop) :
    t.select names w = t'.select names w := by
  rcases h.inside_or_outside hw with ⟨hstop, hstop'⟩ | ⟨hout, hrows⟩
  · have hstart := Nat.le_of_lt hw
    apply select_congr hstop hstart hstop' hstart rfl
    intro name hname
    exact h.map_slice_eq hstop hname
  · have hout' : t'.rows < w.stop := hrows ▸ hout
    unfold select
    rw [decide_eq_true hout, decide_eq_true hout', Bool.true_or, if_pos rfl, if_pos rfl, hrows]

end AgreeOn

end Table

/-- All channels that a transform looks at. -/
def Transform.channels (t : Transform) : List String := t.features ++ t.targets

/-! ### Batches -/

namespace Model

variable {m : Model} {table table' : Table} {w : Window}

/-- Tables that agree on the channels of the transform give the same batch, or the same fault. -/
theorem readBatch_of_agreeOn (h : Table.AgreeOn m.transform.channels w.Holds table table') :
    m.readBatch table w = m.readBatch table' w := by
  rcases Nat.lt_or_ge w.start w.stop with hw | hw
  · have hfeatures : table.select m.transform.features w = table'.select m.transform.features w :=
      (h.mono (fun name hname => List.mem_append_left _ hname) fun index hindex => hindex).select_eq hw
    have htargets : table.select m.transform.targets w = table'.select m.transform.targets w :=
      (h.mono (fun name hname => List.mem_append_right _ hname) fun index hindex => hindex).select_eq hw
    rw [readBatch_of_lt hw, readBatch_of_lt hw, Transform.build, Transform.build, hfeatures, htargets]
  · rw [readBatch_of_le hw, readBatch_of_le hw]

theorem read_of_readBatch_eq (h : m.readBatch table w = m.readBatch table' w) :
    m.read table w = m.read table' w := by
  unfold Model.read
  rw [h]

end Model

/-- Accumulating looks at nothing but the batches of the windows. -/
theorem accumulate_congr {m : Model} {table table' : Table} {windows : List Window}
    (h : ∀ w ∈ windows, m.readBatch table w = m.readBatch table' w) :
    accumulate m table windows = accumulate m table' windows := by
  induction windows generalizing m with
  | nil => rfl
  | cons w rest ih =>
      obtain ⟨hfirst, hrest⟩ := List.forall_mem_cons.1 h
      have hsame := Model.read_of_readBatch_eq hfirst
      cases hread : m.read table w with
      | error fault =>
          rw [accumulate_cons_of_error hread, accumulate_cons_of_error (hsame.symm.trans hread), ih hrest]
      | ok result =>
          obtain ⟨next, reading⟩ := result
          -- The next model has other rows, but the same transform, and reads the same batches.
          have htransform : m.transform = next.transform :=
            (Model.Reads.transform_eq ⟨reading, hread⟩).symm
          have hnext : ∀ w ∈ rest, next.readBatch table w = next.readBatch table' w := by
            intro other hother
            rw [← Model.readBatch_congr htransform, ← Model.readBatch_congr htransform]
            exact hrest other hother
          rw [accumulate_cons_of_ok hread, accumulate_cons_of_ok (hsame.symm.trans hread), ih hnext]

/-! ### Features -/

/-- The features of a window are made of the feature channels, if the target channels are there. -/
theorem Transform.map_fst_build {t : Transform} {table : Table} {w : Window}
    (h : ∀ name ∈ t.targets, name ∈ table.names) :
    (t.build table w).map Prod.fst = table.select t.features w >>= t.design := by
  rw [build_eq]
  by_cases hinside : w.start ≤ w.stop ∧ w.stop ≤ table.rows
  · obtain ⟨hstart, hstop⟩ := hinside
    obtain ⟨columns, hcolumns⟩ := Table.exists_channelsNamed h
    rw [Table.select_of_inside hstart hstop t.targets, hcolumns]
    cases table.select t.features w with
    | error fault => rfl
    | ok raw =>
        rw [ok_bind, ok_bind]
        change (t.design raw >>= _).map Prod.fst = t.design raw
        cases t.design raw with
        | error fault => rfl
        | ok x => rfl
  · have hout : (decide (table.rows < w.stop) || decide (w.stop < w.start)) = true := by
      rw [Bool.or_eq_true, decide_eq_true_iff, decide_eq_true_iff]
      omega
    have hselect : table.select t.features w = .error (.outOfBounds w.start w.stop table.rows) := if_pos hout
    rw [hselect]
    rfl

namespace Model

variable {m : Model} {table table' : Table} {w : Window}

/-- A batch that is read has the features of its window. -/
theorem map_x_readBatch (hw : w.start < w.stop) :
    (m.readBatch table w).map TrainingSet.x = (m.transform.build table w).map Prod.fst := by
  rw [readBatch_of_lt hw, map_bind]
  cases hbuild : m.transform.build table w with
  | error fault => rfl
  | ok system =>
      obtain ⟨x, y⟩ := system
      obtain ⟨⟨hx, -⟩, hy, -⟩ := Transform.build_shape hbuild
      have hheight : x.height ≠ 0 := by
        rw [hx, Window.len]
        omega
      rw [ok_bind, TrainingSet.ofMatrices_of_aligned (hx.trans hy.symm) hheight]
      exact congrArg Except.ok (TrainingSet.x_ofAligned x y (hx.trans hy.symm))

/-- Tables with all channels that agree on those of the features give the same features, or the same
    fault. -/
theorem map_x_readBatch_of_agreeOn (h : Table.AgreeOn m.transform.features w.Holds table table')
    (hknown : ∀ name ∈ m.transform.targets, name ∈ table.names ∧ name ∈ table'.names) :
    (m.readBatch table w).map TrainingSet.x = (m.readBatch table' w).map TrainingSet.x := by
  rcases Nat.lt_or_ge w.start w.stop with hw | hw
  · rw [map_x_readBatch hw, map_x_readBatch hw,
      Transform.map_fst_build fun name hname => (hknown name hname).1,
      Transform.map_fst_build fun name hname => (hknown name hname).2, h.select_eq hw]
  · rw [readBatch_of_le hw, readBatch_of_le hw]

theorem predict_congr (h : (m.readBatch table w).map TrainingSet.x = (m.readBatch table' w).map TrainingSet.x) :
    m.predict table w = m.predict table' w := by
  unfold predict
  apply congrArg (m.weights >>= ·)
  funext weights
  apply bind_eq_bind_of_map h
  intro batch batch' _ _ hx
  rw [hx]

/-- Only the samples matter that a transform names, in the rows that are looked at. Where two tables agree on
    the channels of the transform in all rows of some windows, reading these windows ends with the same model,
    skips the same windows for the same reasons, and reports the same; and where they do so in the rows of one
    window, the error on it is the same. If they have all channels of the transform and agree on those of the
    features, the predictions for the window are the same, whatever the targets are. -/
theorem only_relevant_samples_matter (m : Model) (table table' : Table) :
    (∀ windows : List Window,
      Table.AgreeOn m.transform.channels (fun index => ∃ w ∈ windows, w.Holds index) table table' →
      ∀ session, (accumulateWindows m table windows).runOn session =
        (accumulateWindows m table' windows).runOn session) ∧
    (∀ w : Window, Table.AgreeOn m.transform.channels w.Holds table table' →
      m.outSampleError table w = m.outSampleError table' w) ∧
    ∀ w : Window, Table.AgreeOn m.transform.features w.Holds table table' →
      (∀ name ∈ m.transform.channels, name ∈ table.names ∧ name ∈ table'.names) →
      m.predict table w = m.predict table' w := by
  refine ⟨?_, ?_, ?_⟩
  · intro windows h session
    have hbatches : ∀ w ∈ windows, m.readBatch table w = m.readBatch table' w := by
      intro w hw
      apply readBatch_of_agreeOn
      exact h.mono (fun name hname => hname) fun index hindex => ⟨w, hw, hindex⟩
    rw [accumulateWindows, accumulateWindows, accumulate_congr hbatches]
  · intro w h
    rw [outSampleError, outSampleError, outSampleResiduals, outSampleResiduals, readBatch_of_agreeOn h]
  · intro w h hknown
    apply predict_congr
    apply map_x_readBatch_of_agreeOn h
    intro name hname
    exact hknown name (List.mem_append_right _ hname)

/-- Four rows with another channel and other samples in the third row, which also has a gap. -/
def otherRows : Table :=
  ⟨4, [⟨"noise", [5.0, 5.0, 5.0, 5.0]⟩, ⟨"y", [0.0, 2.0, 7.0, 6.0]⟩, ⟨"a", [0.0, 1.0, 0.0 / 0.0, 3.0]⟩]⟩

/-- Four rows whose targets are missing. -/
def untoldRows : Table :=
  ⟨4, [⟨"a", [0.0, 1.0, 2.0, 3.0]⟩, ⟨"y", [0.0 / 0.0, 0.0 / 0.0, 0.0 / 0.0, 0.0 / 0.0]⟩]⟩

/-- Windows around the third row, one of which leaves the tables. -/
def sideWindows : List Window := [⟨0, 2⟩, ⟨3, 9⟩, ⟨3, 4⟩]

theorem only_relevant_samples_matter_elsewhere :
    (Table.AgreeOn ["a", "y"] (fun index => ∃ w ∈ sideWindows, w.Holds index) fourRows otherRows ∧
      ∀ session, (accumulateWindows oneWeightModel fourRows sideWindows).runOn session =
        (accumulateWindows oneWeightModel otherRows sideWindows).runOn session) ∧
    (Table.AgreeOn ["a", "y"] (Window.Holds ⟨0, 2⟩) fourRows otherRows ∧
      oneWeightModel.outSampleError fourRows ⟨0, 2⟩ = oneWeightModel.outSampleError otherRows ⟨0, 2⟩) ∧
    (Table.AgreeOn ["a"] (Window.Holds ⟨0, 4⟩) fourRows untoldRows ∧
      (∀ name ∈ ["a", "y"], name ∈ fourRows.names ∧ name ∈ untoldRows.names) ∧
      oneWeightModel.predict fourRows ⟨0, 4⟩ = oneWeightModel.predict untoldRows ⟨0, 4⟩) := by
  have hsides : Table.AgreeOn ["a", "y"] (fun index => ∃ w ∈ sideWindows, w.Holds index) fourRows otherRows := by
    refine ⟨.inl rfl, by decide, ?_⟩
    intro name hname index hindex hrow
    have hside : index = 0 ∨ index = 1 ∨ index = 3 := by
      simp only [sideWindows, List.mem_cons, List.not_mem_nil, or_false, exists_eq_or_imp, exists_eq_left,
        Window.Holds] at hindex
      change index < 4 at hrow
      omega
    simp only [List.mem_cons, List.not_mem_nil, or_false] at hname
    rcases hname with rfl | rfl <;> rcases hside with rfl | rfl | rfl <;>
      simp [Table.sample?, Table.find?, fourRows, otherRows]
  have hfirst : Table.AgreeOn ["a", "y"] (Window.Holds ⟨0, 2⟩) fourRows otherRows :=
    hsides.mono (fun name hname => hname) fun index hindex => ⟨⟨0, 2⟩, by decide, hindex⟩
  have hfeatures : Table.AgreeOn ["a"] (Window.Holds ⟨0, 4⟩) fourRows untoldRows := by
    refine ⟨.inl rfl, by decide, ?_⟩
    intro name hname index hindex hrow
    rcases List.mem_singleton.1 hname with rfl
    simp [Table.sample?, Table.find?, fourRows, untoldRows]
  have hknown : ∀ name ∈ ["a", "y"], name ∈ fourRows.names ∧ name ∈ untoldRows.names := by decide
  obtain ⟨haccumulate, herror, -⟩ := only_relevant_samples_matter oneWeightModel fourRows otherRows
  obtain ⟨-, -, hpredict⟩ := only_relevant_samples_matter oneWeightModel fourRows untoldRows
  exact ⟨⟨hsides, haccumulate sideWindows hsides⟩, ⟨hfirst, herror ⟨0, 2⟩ hfirst⟩,
    hfeatures, hknown, hpredict ⟨0, 4⟩ hfeatures hknown⟩

end Model

end FlightFit
