import Mathlib
import FlightFit.Proofs.Accumulation
import FlightFit.Proofs.FitOutcomes
import FlightFit.Proofs.WindowRows

/-!
Module: FlightFit.Proofs.FiniteSamples
Purpose: What becomes of samples that are missing or not finite when windows are read for the fuel-flow
  transform. The features of a row are checked, so that a bad sample among them costs the window it lies in
  and nothing else. The targets are summed up as they are: a window whose targets hold a bad sample is
  taken, and the fit of everything accumulated then fails.
Main exports: isNaN_mul, isNaN_div, isNaN_add, Table.samplesAt, Table.Missing, Transform.finite_of_featureRows,
  Transform.windowRows_of_missing, fit_eq_undefined_iff, accumulateWindows_checks_features_only
-/

namespace FlightFit

/-! ### Undefined numbers -/

open Float.Model in
theorem unpack_of_isNaN {a : Float} (h : a.isNaN = true) : a.toModel.unpack = .notANumber := by
  change a.toModel.unpack.isNaN = true at h
  exact UnpackedFloat.isNaN_iff.1 h

theorem isFinite_of_isNaN {a : Float} (h : a.isNaN = true) : a.isFinite = false := by
  change a.toModel.unpack.isFinite = false
  rw [unpack_of_isNaN h]
  rfl

section Arithmetic

open Float.Model

/-- An operation that passes undefined operands on gives an undefined result. -/
theorem isNaN_of_strict (op : UnpackedFloat → UnpackedFloat → UnpackedFloat)
    (hop : ∀ other, op .notANumber other = .notANumber ∧ op other .notANumber = .notANumber) {a b : Float}
    (h : a.isNaN = true ∨ b.isNaN = true) :
    (Float.ofModel (.pack (op a.toModel.unpack b.toModel.unpack))).isNaN = true := by
  have hresult : op a.toModel.unpack b.toModel.unpack = .notANumber := by
    rcases h with h | h
    · rw [unpack_of_isNaN h]
      exact (hop _).1
    · rw [unpack_of_isNaN h]
      exact (hop _).2
  rw [hresult]
  rfl

variable {a b : Float}

theorem isNaN_mul (h : a.isNaN = true ∨ b.isNaN = true) : (a * b).isNaN = true :=
  isNaN_of_strict (.mul .binary64) (fun other => ⟨rfl, by cases other <;> rfl⟩) h

theorem isNaN_div (h : a.isNaN = true ∨ b.isNaN = true) : (a / b).isNaN = true :=
  isNaN_of_strict (.div .binary64) (fun other => ⟨rfl, by cases other <;> rfl⟩) h

theorem isNaN_add (h : a.isNaN = true ∨ b.isNaN = true) : (a + b).isNaN = true :=
  isNaN_of_strict (.add .binary64) (fun other => ⟨rfl, by cases other <;> rfl⟩) h

end Arithmetic

theorem isNaN_foldl_add {total : Float} {row : List Float}
    (h : total.isNaN = true ∨ ∃ sample ∈ row, sample.isNaN = true) :
    (row.foldl (· + ·) total).isNaN = true := by
  induction row generalizing total with
  | nil => simpa using h
  | cons sample rest ih =>
      apply ih
      rcases h with h | ⟨other, hother, h⟩
      · exact .inl (isNaN_add (.inl h))
      · rcases List.mem_cons.1 hother with rfl | hother
        · exact .inl (isNaN_add (.inr h))
        · exact .inr ⟨other, hother, h⟩

/-- A sum with an undefined summand is undefined. -/
theorem isNaN_sum {row : List Float} (h : ∃ sample ∈ row, sample.isNaN = true) :
    (Scalar.sum row).isNaN = true :=
  isNaN_foldl_add (.inr h)

/-! ### Samples of a window -/

namespace Table

/-- The samples that some channels have in a row; a channel that is not known has none. -/
def samplesAt (table : Table) (names : List String) (index : Nat) : List Float :=
  names.map fun name => ((table.channel name).toOption.getD []).getD index 0

/-- Some channel has a missing sample in a window. -/
def Missing (table : Table) (names : List String) (w : Window) : Prop :=
  ∃ index, w.start ≤ index ∧ index < w.stop ∧ ∃ sample ∈ table.samplesAt names index, sample.isNaN = true

theorem rowAt_of_channelsNamed {table : Table} {names : List String} {columns : List (List Float)}
    (h : table.channelsNamed names = .ok columns) (index : Nat) :
    rowAt columns index = table.samplesAt names index := by
  induction names generalizing columns with
  | nil =>
      obtain rfl := Except.ok.inj h
      rfl
  | cons name rest ih =>
      simp only [channelsNamed, bind_eq_ok_iff, Except.ok.injEq] at h
      obtain ⟨samples, hsamples, more, hmore, rfl⟩ := h
      have hrest := ih hmore
      simp only [rowAt, samplesAt, List.map_cons, hsamples] at hrest ⊢
      rw [hrest]
      rfl

end Table

theorem Window.mem_range' {w : Window} {index : Nat} :
    index ∈ List.range' w.start w.len ↔ w.start ≤ index ∧ index < w.stop := by
  rw [List.mem_range'_1, Window.len]
  omega

/-! ### Checked features -/

namespace Transform

variable {features targets : List String} {bias : Float}

theorem of_flowTerms {index : Nat} {v p t alpha : Float} {terms : Float × Float}
    (h : flowTerms index v p t alpha = .ok terms) :
    terms.1.isFinite = true ∧ terms.2.isFinite = true ∧ terms.2 = v * v * p / t * alpha := by
  simp only [flowTerms] at h
  split at h
  · simp at h
  · split at h
    · next hfinite =>
        obtain rfl := Except.ok.inj h
        simp only [Bool.and_eq_true] at hfinite
        exact ⟨hfinite.1, hfinite.2, rfl⟩
    · simp at h

theorem of_flowRow {index : Nat} {raw : List Float} {terms : Float × Float}
    (h : flowRow index raw = .ok terms) :
    ∃ v p t alpha, raw = [v, p, t, alpha] ∧ flowTerms index v p t alpha = .ok terms := by
  by_cases hlength : raw.length = 4
  · match raw, hlength with
    | [v, p, t, alpha], _ => exact ⟨v, p, t, alpha, rfl, h⟩
  · simp [flowRow_of_length_ne index hlength] at h

/-- A row that has features misses no sample, and its features are finite. -/
theorem sound_of_featureRow {index : Nat} {raw row : List Float}
    (h : featureRow (.fuelFlow features targets bias) index raw = .ok row) :
    (∀ sample ∈ raw, sample.isNaN = false) ∧ ∀ entry ∈ row, entry.isFinite = true := by
  obtain ⟨terms, hterms, rfl⟩ : ∃ terms, flowRow index raw = .ok terms ∧ [1.0, terms.1, terms.2] = row := by
    cases hflow : flowRow index raw with
    | error fault => simp [featureRow, hflow, Except.map] at h
    | ok terms => exact ⟨terms, rfl, by simpa [featureRow, hflow, Except.map] using h⟩
  obtain ⟨v, p, t, alpha, rfl, hflow⟩ := of_flowRow hterms
  obtain ⟨hfirst, hsecond, hproduct⟩ := of_flowTerms hflow
  constructor
  · -- An undefined sample would make the product with the angle of attack undefined.
    intro sample hsample
    refine Bool.eq_false_iff.2 fun hnan => ?_
    have hundefined : terms.2.isNaN = true := by
      rw [hproduct]
      simp only [List.mem_cons, List.not_mem_nil, or_false] at hsample
      rcases hsample with rfl | rfl | rfl | rfl
      · exact isNaN_mul (.inl (isNaN_div (.inl (isNaN_mul (.inl (isNaN_mul (.inl hnan)))))))
      · exact isNaN_mul (.inl (isNaN_div (.inl (isNaN_mul (.inr hnan)))))
      · exact isNaN_mul (.inl (isNaN_div (.inr hnan)))
      · exact isNaN_mul (.inr hnan)
    rw [isFinite_of_isNaN hundefined] at hsecond
    exact Bool.false_ne_true hsecond
  · have hone : (1.0 : Float).isFinite = true := by decide
    simp [hone, hfirst, hsecond]

theorem sound_of_featureRows {index : Nat} {raw rows : List (List Float)}
    (h : featureRows (.fuelFlow features targets bias) index raw = .ok rows) :
    (∀ row ∈ raw, ∀ sample ∈ row, sample.isNaN = false) ∧
      ∀ row ∈ rows, ∀ entry ∈ row, entry.isFinite = true := by
  induction raw generalizing index rows with
  | nil =>
      obtain rfl := Except.ok.inj h
      simp
  | cons first rest ih =>
      simp only [featureRows, bind_eq_ok_iff, Except.ok.injEq] at h
      obtain ⟨row, hrow, more, hmore, rfl⟩ := h
      obtain ⟨hsamples, hentries⟩ := sound_of_featureRow hrow
      obtain ⟨hrest, hmore⟩ := ih hmore
      exact ⟨List.forall_mem_cons.2 ⟨hsamples, hrest⟩, List.forall_mem_cons.2 ⟨hentries, hmore⟩⟩

/-- A window that can be read misses no feature sample and has finite features; its targets are the sums
    of the target samples, whatever these are. -/
theorem sound_of_windowRows {table : Table} {w : Window} {x y : List (List Float)}
    (h : windowRows (.fuelFlow features targets bias) table w = .ok (x, y)) :
    ¬ table.Missing features w ∧ (∀ row ∈ x, ∀ entry ∈ row, entry.isFinite = true) ∧
      y = (List.range' w.start w.len).map fun index => [Scalar.sum (table.samplesAt targets index) + bias] := by
  unfold windowRows at h
  split at h
  · simp at h
  · split at h
    · simp at h
    · simp only [insideRows, Transform.features, Transform.targets, bind_eq_ok_iff, Except.ok.injEq,
        Prod.mk.injEq] at h
      obtain ⟨featureColumns, hfeatures, targetColumns, htargets, rows, hrows, rfl, rfl⟩ := h
      obtain ⟨hsamples, hentries⟩ := sound_of_featureRows hrows
      refine ⟨?_, hentries, ?_⟩
      · rintro ⟨index, hstart, hstop, sample, hsample, hnan⟩
        rw [← Table.rowAt_of_channelsNamed hfeatures] at hsample
        have hrow : Table.rowAt featureColumns index ∈
            (List.range' w.start w.len).map (Table.rowAt featureColumns) :=
          List.mem_map_of_mem (Window.mem_range'.2 ⟨hstart, hstop⟩)
        rw [hsamples _ hrow sample hsample] at hnan
        exact Bool.false_ne_true hnan
      · refine List.map_congr_left fun index _ => ?_
        rw [← Table.rowAt_of_channelsNamed htargets]
        rfl

end Transform

/-! ### Unchecked targets -/

theorem Matrix.all_eq_true_iff {α : Type} {test : α → Bool} {m : Matrix α} :
    m.all test = true ↔ ∀ row ∈ m.rows, ∀ entry ∈ row, test entry = true := by
  rw [Matrix.all, List.all_eq_true, ← m.flatten_rows]
  simp only [List.mem_flatten]
  exact ⟨fun h row hrow entry hentry => h entry ⟨row, hrow, hentry⟩,
    fun h entry ⟨row, hrow, hentry⟩ => h row hrow entry hentry⟩

theorem conditionOf_ne_undefined {α : Type} [RootedScalar α] (values : List α) : conditionOf values ≠ .undefined := by
  cases values with
  | nil => simp [conditionOf]
  | cons first rest =>
      rw [conditionOf]
      split <;> simp

/-- With finite features, the condition of a system is undefined only on account of its targets. -/
theorem fit_eq_undefined_iff {α : Type} [RootedScalar α] {limit : α} {x y : Matrix α}
    (hheight : y.height = x.height) (hx : x.all Scalar.finite = true) :
    fit limit x y = .error (.unstable .undefined) ↔
      x.cols ≠ 0 ∧ x.cols ≤ x.height ∧ y.all Scalar.finite = false := by
  have houtcome := fit_outcome limit x y
  generalize fit limit x y = result at houtcome ⊢
  cases houtcome with
  | rowCounts hrows => exact absurd hheight hrows
  | noColumns _ hcolumns => simp [hcolumns]
  | tooFewRows _ _ hfew => simp [Nat.not_le.2 hfew]
  | undefined hposed hentry =>
      have hy : y.all Scalar.finite = false := by simpa [hx] using hentry
      exact iff_of_true rfl ⟨hposed.columns, hposed.tall, hy⟩
  | unstable _ _ _ hy | unsolved _ _ _ hy => simp [conditionOf_ne_undefined, hy]
  | solved _ weights _ _ hy => simp [hy]

section Accumulated

variable {m : Model} {table : Table} {windows : List Window} {w : Window}

theorem mem_refused_iff :
    w ∈ (windows.filterMap (m.refusal? table)).map SkippedWindow.window ↔
      w ∈ windows ∧ ∃ fault, m.readBatch table w = .error fault := by
  simp only [List.mem_map, List.mem_filterMap]
  constructor
  · rintro ⟨skipped, ⟨other, hother, hskipped⟩, rfl⟩
    cases hbatch : m.readBatch table other with
    | ok batch => simp [Model.refusal?_of_ok hbatch] at hskipped
    | error fault =>
        rw [Model.refusal?_of_error hbatch] at hskipped
        obtain rfl := Option.some.inj hskipped
        exact ⟨hother, fault, hbatch⟩
  · rintro ⟨hw, fault, hbatch⟩
    exact ⟨⟨w, fault⟩, ⟨w, hw, Model.refusal?_of_error hbatch⟩, rfl⟩

theorem mem_batches_iff {batch : TrainingSet} :
    batch ∈ windows.filterMap (m.batch? table) ↔ ∃ w ∈ windows, m.readBatch table w = .ok batch := by
  simp only [List.mem_filterMap]
  refine exists_congr fun w => and_congr_right fun _ => ?_
  cases hbatch : m.readBatch table w with
  | ok other => simp [Model.batch?_of_ok hbatch]
  | error fault => simp [Model.batch?_of_error hbatch]

theorem mem_flatMap_batches_iff {α : Type} {f : TrainingSet → List α} {a : α} :
    a ∈ (windows.filterMap (m.batch? table)).flatMap f ↔
      ∃ w ∈ windows, ∃ batch, m.readBatch table w = .ok batch ∧ a ∈ f batch := by
  simp only [List.mem_flatMap, mem_batches_iff]
  exact ⟨fun ⟨batch, ⟨w, hw, hbatch⟩, ha⟩ => ⟨w, hw, batch, hbatch, ha⟩,
    fun ⟨w, hw, batch, hbatch, ha⟩ => ⟨batch, ⟨w, hw, hbatch⟩, ha⟩⟩

variable {features targets : List String} {bias : Float} {last : TrainingSet}
  (hflow : m.transform = .fuelFlow features targets bias) (hempty : m.training.isEmpty = true)
  (hstacked : TrainingSet.Stacked m.training (windows.filterMap (m.batch? table)) last)
include hflow hempty hstacked

theorem finite_features_of_stacked : last.x.all Float.isFinite = true := by
  rw [Matrix.all_eq_true_iff, hstacked.xRows, TrainingSet.x_rows_of_isEmpty hempty, List.nil_append]
  intro row hrow
  obtain ⟨w, -, batch, hbatch, hrow⟩ := mem_flatMap_batches_iff.1 hrow
  have hrows := Model.windowRows_of_readBatch hbatch
  rw [hflow] at hrows
  exact (Transform.sound_of_windowRows hrows).2.1 row hrow

/-- The accumulated targets are finite if the sums in the windows that could be read are. -/
theorem finite_targets_iff_of_stacked :
    last.y.all Float.isFinite = true ↔
      ∀ w ∈ windows, (∃ batch, m.readBatch table w = .ok batch) → ∀ index, w.start ≤ index → index < w.stop →
        (Scalar.sum (table.samplesAt targets index) + bias).isFinite = true := by
  have htargets : ∀ {w batch}, m.readBatch table w = .ok batch → batch.y.rows =
      (List.range' w.start w.len).map fun index => [Scalar.sum (table.samplesAt targets index) + bias] := by
    intro w batch hbatch
    have hrows := Model.windowRows_of_readBatch hbatch
    rw [hflow] at hrows
    exact (Transform.sound_of_windowRows hrows).2.2
  rw [Matrix.all_eq_true_iff, hstacked.yRows, TrainingSet.y_rows_of_isEmpty hempty, List.nil_append]
  constructor
  · rintro hfinite w hw ⟨batch, hbatch⟩ index hstart hstop
    refine hfinite [_] (mem_flatMap_batches_iff.2 ⟨w, hw, batch, hbatch, ?_⟩) _ List.mem_cons_self
    rw [htargets hbatch]
    exact List.mem_map_of_mem (Window.mem_range'.2 ⟨hstart, hstop⟩)
  · intro hfinite row hrow entry hentry
    obtain ⟨w, hw, batch, hbatch, hrow⟩ := mem_flatMap_batches_iff.1 hrow
    rw [htargets hbatch] at hrow
    obtain ⟨index, hindex, rfl⟩ := List.mem_map.1 hrow
    obtain rfl := List.mem_singleton.1 hentry
    obtain ⟨hstart, hstop⟩ := Window.mem_range'.1 hindex
    exact hfinite w hw ⟨batch, hbatch⟩ index hstart hstop

/-- Where anything has been read, there are three features. -/
theorem features_of_stacked (hy : last.y.all Float.isFinite = false) : last.features = 3 := by
  cases hbatches : windows.filterMap (m.batch? table) with
  | nil =>
      have hall : last.y.all Float.isFinite = true := by
        rw [Matrix.all_eq_true_iff, hstacked.bare hbatches, TrainingSet.y_rows_of_isEmpty hempty]
        simp
      simp [hall] at hy
  | cons batch rest =>
      have hmem : batch ∈ windows.filterMap (m.batch? table) := by
        rw [hbatches]
        exact List.mem_cons_self
      obtain ⟨w, -, hbatch⟩ := mem_batches_iff.1 hmem
      obtain ⟨-, hrows, hfeatures, -⟩ := Model.readBatch_shape hbatch
      rw [← (hstacked.columns batch (List.mem_cons_of_mem _ hmem) hrows).1, hfeatures, hflow]
      rfl

end Accumulated

/-- Reading windows into an empty fuel-flow model checks the features and nothing else. The accumulated
    features are finite, and every window that misses a feature sample is skipped. The accumulated targets
    are finite exactly if the windows that were not skipped have finite sums, which they do not have where a
    target sample is missing; and if there are enough rows, the fit fails with an undefined condition number
    exactly if they are not. -/
theorem accumulateWindows_checks_features_only (m : Model) (hstate : m.state = .empty)
    (features targets : List String) (bias : Float) (hflow : m.transform = .fuelFlow features targets bias)
    (table : Table) (windows : List Window) (session : Session) :
    ∃ last skipped,
      (accumulateWindows m table windows).outcome session = .ok (last, skipped) ∧
      last.training.x.all Float.isFinite = true ∧
      (∀ w ∈ windows, table.Missing features w → w ∈ skipped.map SkippedWindow.window) ∧
      (last.training.y.all Float.isFinite = true ↔
        ∀ w ∈ windows, w ∉ skipped.map SkippedWindow.window → ∀ index, w.start ≤ index → index < w.stop →
          (Scalar.sum (table.samplesAt targets index) + bias).isFinite = true) ∧
      (∀ w ∈ windows, w ∉ skipped.map SkippedWindow.window → table.Missing targets w →
        last.training.y.all Float.isFinite = false) ∧
      (fit last.regressor.options.maxCondition last.training.x last.training.y = .error (.unstable .undefined) ↔
        3 ≤ last.rows ∧ last.training.y.all Float.isFinite = false) := by
  obtain ⟨-, hempty⟩ := Model.state_eq_empty_iff.1 hstate
  have hshaped : m.Shaped := fun hrows => by simp [hempty] at hrows
  have hstacked := accumulate_stacked hshaped table windows
  have hx := finite_features_of_stacked hflow hempty hstacked
  have hy := finite_targets_iff_of_stacked hflow hempty hstacked
  -- A window is either among the skipped ones or can be read.
  have hread : ∀ w ∈ windows, (∃ batch, m.readBatch table w = .ok batch) ↔
      w ∉ (windows.filterMap (m.refusal? table)).map SkippedWindow.window := by
    intro w hw
    rw [mem_refused_iff]
    cases m.readBatch table w with
    | ok batch => simp
    | error fault => simp [hw]
  refine ⟨(accumulate m table windows).1, windows.filterMap (m.refusal? table), ?_, hx, ?_, ?_, ?_, ?_⟩
  · rw [Action.outcome_accumulateWindows, skippedWindows_accumulate hshaped]
  · intro w hw hmissing
    apply Classical.byContradiction
    intro hnot
    obtain ⟨batch, hbatch⟩ := (hread w hw).2 hnot
    have hrows := Model.windowRows_of_readBatch hbatch
    rw [hflow] at hrows
    exact (Transform.sound_of_windowRows hrows).1 hmissing
  · rw [hy]
    exact forall_congr' fun w => forall_congr' fun hw => by rw [hread w hw]
  · rintro w hw hnot ⟨index, hstart, hstop, hnan⟩
    refine Bool.eq_false_iff.2 fun hall => ?_
    have hfinite := hy.1 hall w hw ((hread w hw).2 hnot) index hstart hstop
    rw [isFinite_of_isNaN (isNaN_add (.inl (isNaN_sum hnan)))] at hfinite
    exact Bool.false_ne_true hfinite
  · have hheight : (accumulate m table windows).1.training.y.height =
        (accumulate m table windows).1.training.x.height := rfl
    rw [fit_eq_undefined_iff hheight hx]
    constructor
    · rintro ⟨-, hrows, hundefined⟩
      have hcols := features_of_stacked hflow hempty hstacked hundefined
      exact ⟨hcols ▸ hrows, hundefined⟩
    · rintro ⟨hrows, hundefined⟩
      have hcols := features_of_stacked hflow hempty hstacked hundefined
      exact ⟨fun hzero => absurd (hzero.symm.trans hcols) (by decide),
        Nat.le_trans (Nat.le_of_eq hcols) hrows, hundefined⟩

/-- An empty model of the fuel flow of one tank. -/
def gaugeModel : Model := .fresh (.fuelFlow ["v", "p", "t", "a"] ["f"] 0.0) (.leastSquares {})

/-- A flight of six rows; a sample of the fuel channel is missing in its second half. -/
def gappyFlight : Table :=
  ⟨6, [⟨"v", [2.0, 4.0, 8.0, 2.0, 4.0, 8.0]⟩, ⟨"p", [1.0, 1.0, 1.0, 1.0, 1.0, 1.0]⟩,
    ⟨"t", [2.0, 2.0, 2.0, 2.0, 2.0, 2.0]⟩, ⟨"a", [0.5, 0.25, 0.5, 0.5, 0.25, 0.5]⟩,
    ⟨"f", [7.0, 8.0, 9.0, 7.0, 0.0 / 0.0, 9.0]⟩]⟩

/-- Its two halves. -/
def halves : List Window := [⟨0, 3⟩, ⟨3, 6⟩]

theorem accumulateWindows_checks_features_only_gappy :
    gaugeModel.state = .empty ∧
    ∃ last skipped,
      (accumulateWindows gaugeModel gappyFlight halves).outcome ⟨.empty, []⟩ = .ok (last, skipped) ∧
      last.training.x.all Float.isFinite = true ∧
      (∀ w ∈ halves, gappyFlight.Missing ["v", "p", "t", "a"] w → w ∈ skipped.map SkippedWindow.window) ∧
      (last.training.y.all Float.isFinite = true ↔
        ∀ w ∈ halves, w ∉ skipped.map SkippedWindow.window → ∀ index, w.start ≤ index → index < w.stop →
          (Scalar.sum (gappyFlight.samplesAt ["f"] index) + 0.0).isFinite = true) ∧
      (∀ w ∈ halves, w ∉ skipped.map SkippedWindow.window → gappyFlight.Missing ["f"] w →
        last.training.y.all Float.isFinite = false) ∧
      (fit last.regressor.options.maxCondition last.training.x last.training.y = .error (.unstable .undefined) ↔
        3 ≤ last.rows ∧ last.training.y.all Float.isFinite = false) :=
  ⟨rfl, accumulateWindows_checks_features_only gaugeModel rfl _ _ _ rfl gappyFlight halves ⟨.empty, []⟩⟩

/-- The half with the gap is not skipped, its gap gets into the targets, and the fit fails. -/
theorem gap_in_targets_spoils_fit :
    gappyFlight.Missing ["f"] ⟨3, 6⟩ ∧
    skippedWindows (accumulate gaugeModel gappyFlight halves).2 = [] ∧
    (accumulate gaugeModel gappyFlight [⟨0, 3⟩]).1.training.y.all Float.isFinite = true ∧
    (accumulate gaugeModel gappyFlight halves).1.training.y.all Float.isFinite = false ∧
    (accumulate gaugeModel gappyFlight halves).1.fitted = .error (.instability (Binary.toFloat .undefined)) := by
  have hgap : gappyFlight.Missing ["f"] ⟨3, 6⟩ :=
    ⟨4, by decide, by decide, 0.0 / 0.0, List.mem_cons_self, by decide⟩
  exact ⟨hgap, rfl, by decide +kernel, by decide +kernel, rfl⟩

end FlightFit
