import Mathlib.Data.List.Forall2
import FlightFit.Proofs.InTurn
import FlightFit.Proofs.TableLife

/-!
Module: FlightFit.Proofs.FlowFeatures
Purpose: The features of the fuel-flow transform, row by row. A row has features unless its temperature is zero or one
  of its terms is not finite (`FlowSample.Usable`), and the first row that has none is reported (`FirstRefused`). Where
  the rows are those of a window of a table, the reported number counts from the start of the window.
Main exports: FlowSample, FlowSample.Usable, FlowSample.Refused, FirstRefused, Transform.exists_design_iff,
  Transform.design_eq_error_iff, Table.HasRow, Table.getElem?_rows_select_iff, FirstRefusedIn,
  Transform.build_eq_invalidFeature_iff, Transform.flow_features_row_by_row
-/

namespace FlightFit

/-! ### One row -/

/-- What the fuel-flow transform reads in a row. -/
structure FlowSample where
  speed : Float
  pressure : Float
  temperature : Float
  angle : Float

namespace FlowSample

/-- The raw row, in the order of the feature channels. -/
def row (s : FlowSample) : List Float := [s.speed, s.pressure, s.temperature, s.angle]

/-- The term that is proportional to dynamic pressure. -/
def term (s : FlowSample) : Float := s.speed * s.speed * s.pressure / s.temperature

/-- The feature row. -/
def features (s : FlowSample) : List Float := [1.0, s.term, s.term * s.angle]

/-- A row that has features. -/
structure Usable (s : FlowSample) : Prop where
  warm : (s.temperature == 0.0) = false
  term : s.term.isFinite = true
  product : (s.term * s.angle).isFinite = true

/-- Why a row has no features. It is the temperature if that is zero, whatever the terms are. -/
structure Refused (s : FlowSample) (reason : FeatureFault) : Prop where
  unusable : ¬s.Usable
  cold : reason = .zeroTemperature ↔ (s.temperature == 0.0) = true
  warm : (s.temperature == 0.0) = false → reason = .pressureTerm s.term s.angle

variable {s : FlowSample}

theorem Refused.unique {reason other : FeatureFault} (h : s.Refused reason) (hother : s.Refused other) :
    reason = other := by
  cases hcold : s.temperature == 0.0 with
  | true => rw [h.cold.2 hcold, hother.cold.2 hcold]
  | false => rw [h.warm hcold, hother.warm hcold]

theorem refused_zeroTemperature (h : (s.temperature == 0.0) = true) : s.Refused .zeroTemperature := by
  refine ⟨?_, by simp [h], by simp [h]⟩
  intro husable
  cases h.symm.trans husable.warm

theorem refused_pressureTerm (hwarm : (s.temperature == 0.0) = false)
    (h : ¬(s.term.isFinite && (s.term * s.angle).isFinite) = true) : s.Refused (.pressureTerm s.term s.angle) := by
  refine ⟨?_, by simp [hwarm], fun _ => rfl⟩
  intro husable
  apply h
  rw [husable.term, husable.product]
  rfl

theorem row_injective : Function.Injective row := by
  rintro ⟨v, p, t, alpha⟩ ⟨v', p', t', alpha'⟩ h
  simpa [row] using h

end FlowSample

/-- The first of some rows that has no features, and why. -/
def FirstRefused (samples : List FlowSample) (index : Nat) (reason : FeatureFault) : Prop :=
  (∃ s, samples[index]? = some s ∧ s.Refused reason) ∧
    ∀ earlier < index, ∀ s, samples[earlier]? = some s → s.Usable

namespace Transform

open FlowSample

section Row

variable (s : FlowSample) (index : Nat)

theorem flowRow_row :
    flowRow index s.row =
      if (s.temperature == 0.0) = true then .error (.invalidFeature index .zeroTemperature)
      else if (s.term.isFinite && (s.term * s.angle).isFinite) = true then .ok (s.term, s.term * s.angle)
      else .error (.invalidFeature index (.pressureTerm s.term s.angle)) := rfl

/-- A row has features, or it is refused under its own number. -/
theorem flowRow_cases :
    (s.Usable ∧ flowRow index s.row = .ok (s.term, s.term * s.angle)) ∨
    ∃ reason, s.Refused reason ∧ flowRow index s.row = .error (.invalidFeature index reason) := by
  rw [flowRow_row]
  split
  · next hcold => exact .inr ⟨_, refused_zeroTemperature hcold, rfl⟩
  · next hwarm =>
      have hwarm := Bool.eq_false_iff.2 hwarm
      split
      · next hfinite =>
          rcases Bool.and_eq_true_iff.1 hfinite with ⟨hterm, hproduct⟩
          exact .inl ⟨⟨hwarm, hterm, hproduct⟩, rfl⟩
      · next hterms => exact .inr ⟨_, refused_pressureTerm hwarm hterms, rfl⟩

variable {s}

theorem flowRow_eq_error_iff {fault : Fault} :
    flowRow index s.row = .error fault ↔ ∃ reason, s.Refused reason ∧ fault = .invalidFeature index reason := by
  rcases flowRow_cases s index with ⟨husable, h⟩ | ⟨reason, hrefused, h⟩
  · rw [h]
    constructor
    · rintro ⟨⟩
    · rintro ⟨reason, hrefused, -⟩
      exact absurd husable hrefused.unusable
  · rw [h]
    constructor
    · rintro ⟨⟩
      exact ⟨reason, hrefused, rfl⟩
    · rintro ⟨other, hother, rfl⟩
      rw [hother.unique hrefused]

theorem exists_flowRow_iff : (∃ terms, flowRow index s.row = .ok terms) ↔ s.Usable := by
  rcases flowRow_cases s index with ⟨husable, h⟩ | ⟨reason, hrefused, h⟩
  · exact iff_of_true ⟨_, h⟩ husable
  · rw [h]
    exact iff_of_false (by simp) hrefused.unusable

theorem flowRow_of_usable (h : s.Usable) : flowRow index s.row = .ok (s.term, s.term * s.angle) := by
  rcases flowRow_cases s index with ⟨-, hrow⟩ | ⟨reason, hrefused, -⟩
  · exact hrow
  · exact absurd h hrefused.unusable

end Row

/-! ### All rows -/

theorem flowRows_eq_inTurn (index : Nat) (rows : List (List Float)) :
    flowRows index rows = inTurn flowRow index rows := by
  induction rows generalizing index with
  | nil => rfl
  | cons row rest ih => rw [flowRows_cons, inTurn, ih]

/-- The rows of a matrix with four columns. -/
theorem exists_flowSamples {raw : Matrix Float} (hcols : raw.cols = 4) :
    ∃ samples : List FlowSample, raw.rows = samples.map row := by
  have hlengths : ∀ row ∈ raw.rows, row.length = 4 := by
    intro row hrow
    rw [raw.length_of_mem_rows row hrow, hcols]
  generalize raw.rows = rows at hlengths
  induction rows with
  | nil => exact ⟨[], rfl⟩
  | cons first rest ih =>
      rcases List.forall_mem_cons.1 hlengths with ⟨hfirst, hrest⟩
      rcases ih hrest with ⟨samples, rfl⟩
      match first, hfirst with
      | [v, p, t, alpha], _ => exact ⟨⟨v, p, t, alpha⟩ :: samples, rfl⟩

section Design

variable {features targets : List String} {bias : Float} {raw : Matrix Float} {samples : List FlowSample}
  (hcols : raw.cols = 4) (hrows : raw.rows = samples.map row)
include hcols hrows

theorem design_eq_inTurn :
    (fuelFlow features targets bias).design raw = (inTurn flowRow 0 (samples.map row)).map flowMatrix := by
  simp only [design, hcols, hrows, flowRows_eq_inTurn, ne_eq, not_true_eq_false, if_false]

theorem exists_design_iff :
    (∃ x, (fuelFlow features targets bias).design raw = .ok x) ↔ ∀ s ∈ samples, s.Usable := by
  rw [design_eq_inTurn hcols hrows, exists_map_eq_ok_iff, exists_inTurn_iff]
  simp only [List.getElem?_map, Option.map_eq_some_iff, forall_exists_index, and_imp]
  constructor
  · intro h s hs
    rcases List.mem_iff_getElem?.1 hs with ⟨i, hi⟩
    exact (exists_flowRow_iff _).1 (h i _ s hi rfl)
  · rintro h i _ s hi rfl
    exact (exists_flowRow_iff _).2 (h s (List.mem_of_getElem? hi))

/-- Where every row has features, they are the rows of the result. -/
theorem shape_of_design {x : Matrix Float} (h : (fuelFlow features targets bias).design raw = .ok x) :
    x.height = raw.height ∧ x.cols = 3 ∧ x.rows = samples.map FlowSample.features := by
  have husable := (exists_design_iff hcols hrows).1 ⟨x, h⟩
  have hterms : inTurn flowRow 0 (samples.map row) = .ok (samples.map fun s => (s.term, s.term * s.angle)) :=
    inTurn_map_eq_ok fun i s hs => flowRow_of_usable i (husable s hs)
  rw [design_eq_inTurn hcols hrows, hterms] at h
  cases h
  have hheight : samples.length = raw.height := by rw [← raw.length_rows, hrows, List.length_map]
  refine ⟨?_, rfl, ?_⟩
  · rw [flowMatrix, Matrix.height_ofRows, List.length_map, List.length_map, hheight]
  · rw [flowMatrix, Matrix.rows_ofRows, List.map_map]
    rfl

/-- The first row without features is the one that is reported. -/
theorem design_eq_error_iff {fault : Fault} :
    (fuelFlow features targets bias).design raw = .error fault ↔
      ∃ index reason, FirstRefused samples index reason ∧ fault = .invalidFeature index reason := by
  rw [design_eq_inTurn hcols hrows, map_eq_error_iff, inTurn_eq_error_iff]
  simp only [List.getElem?_map, Option.map_eq_some_iff, Nat.zero_add]
  constructor
  · rintro ⟨index, _, ⟨s, hs, rfl⟩, hrow, hbefore⟩
    rcases (flowRow_eq_error_iff index).1 hrow with ⟨reason, hrefused, rfl⟩
    refine ⟨index, reason, ⟨⟨s, hs, hrefused⟩, ?_⟩, rfl⟩
    intro earlier hearlier other hother
    exact (exists_flowRow_iff earlier).1 (hbefore earlier hearlier _ ⟨other, hother, rfl⟩)
  · rintro ⟨index, reason, ⟨⟨s, hs, hrefused⟩, hbefore⟩, rfl⟩
    refine ⟨index, _, ⟨s, hs, rfl⟩, (flowRow_eq_error_iff index).2 ⟨reason, hrefused, rfl⟩, ?_⟩
    rintro earlier hearlier _ ⟨other, hother, rfl⟩
    exact (exists_flowRow_iff earlier).2 (hbefore earlier hearlier other hother)

end Design

/-- Rows are looked at only if there are four columns. -/
theorem cols_of_design {features targets : List String} {bias : Float} {raw : Matrix Float} {index : Nat}
    {reason : FeatureFault} (h : (fuelFlow features targets bias).design raw = .error (.invalidFeature index reason)) :
    raw.cols = 4 := by
  apply Classical.byContradiction
  intro hcols
  rw [design, if_pos hcols] at h
  cases h

end Transform

/-! ### Rows of a window -/

namespace Table

/-- A row that a table has under some names: the sample of each channel. -/
def HasRow (t : Table) (names : List String) (index : Nat) (row : List Float) : Prop :=
  List.Forall₂ (fun name sample => ∃ samples, t.channel name = .ok samples ∧ samples[index]? = some sample) names row

section Selected

variable {t : Table} {names : List String} {index : Nat}

theorem HasRow.unique {row other : List Float} (h : t.HasRow names index row) (hother : t.HasRow names index other) :
    row = other := by
  apply List.right_unique_forall₂' _ h hother
  rintro name sample sample' ⟨samples, hchannel, hsample⟩ ⟨samples', hchannel', hsample'⟩
  cases hchannel.symm.trans hchannel'
  exact Option.some.inj (hsample.symm.trans hsample')

theorem hasRow_rowAt (ht : t.WellFormed) {columns : List (List Float)} (hcolumns : t.channelsNamed names = .ok columns)
    (hindex : index < t.rows) : t.HasRow names index (rowAt columns index) := by
  induction names generalizing columns with
  | nil =>
      cases hcolumns
      exact .nil
  | cons name rest ih =>
      simp only [channelsNamed, bind_eq_ok_iff, Except.ok.injEq] at hcolumns
      rcases hcolumns with ⟨samples, hchannel, more, hmore, rfl⟩
      have hbound : index < samples.length := by
        rw [ht.length_of_channel hchannel]
        exact hindex
      refine .cons ⟨samples, hchannel, ?_⟩ (ih hmore)
      simp [hbound]

variable {w : Window} (hstart : w.start ≤ w.stop) (hstop : w.stop ≤ t.rows)
include hstart hstop

/-- The rows of a selection are the rows of the table, counted from the start of the window. -/
theorem getElem?_rows_select_iff (ht : t.WellFormed) {m : Matrix Float} (h : t.select names w = .ok m) {i : Nat}
    (hi : i < w.len) {row : List Float} : m.rows[i]? = some row ↔ t.HasRow names (w.start + i) row := by
  have hrows := select_eq_rows hstart hstop names
  rw [h] at hrows
  cases hcolumns : t.channelsNamed names with
  | error fault =>
      rw [hcolumns] at hrows
      cases hrows
  | ok columns =>
      rw [hcolumns] at hrows
      have hindex : w.start + i < t.rows := by
        unfold Window.len at hi
        omega
      have hrow := hasRow_rowAt ht hcolumns hindex
      rw [Except.ok.inj hrows, List.getElem?_map, List.getElem?_range' hi, Option.map_some, Nat.one_mul]
      constructor
      · rintro ⟨⟩
        exact hrow
      · intro hother
        rw [hrow.unique hother]

theorem exists_select_iff : (∃ m, t.select names w = .ok m) ↔ ∀ name ∈ names, name ∈ t.names := by
  rw [select_of_inside hstart hstop, exists_map_eq_ok_iff]
  constructor
  · rintro ⟨columns, hcolumns⟩ name hname
    have hmem : t.channel name ∈ columns.map Except.ok := by
      rw [← channelsNamed_eq_ok_iff.1 hcolumns]
      exact List.mem_map_of_mem hname
    rcases List.mem_map.1 hmem with ⟨samples, -, hsamples⟩
    rcases channel_cases t name with ⟨hknown, -⟩ | ⟨-, hunknown⟩
    · exact hknown
    · cases hsamples.trans hunknown
  · exact exists_channelsNamed

/-- Selecting does not look at what samples are. -/
theorem select_ne_invalidFeature (row : Nat) (reason : FeatureFault) :
    t.select names w ≠ .error (.invalidFeature row reason) := by
  intro h
  rw [select_of_inside hstart hstop, map_eq_error_iff] at h
  rcases exists_name_of_channelsNamed h with ⟨name, hname⟩
  cases hname

end Selected

end Table

/-- The first row of a window that has no features, under its number from the start of the window, and why. -/
structure FirstRefusedIn (table : Table) (features : List String) (w : Window) (index : Nat) (reason : FeatureFault) :
    Prop where
  inside : index < w.len
  refused : ∃ s : FlowSample, table.HasRow features (w.start + index) s.row ∧ s.Refused reason
  before : ∀ earlier, w.start ≤ earlier → earlier < w.start + index →
    ∃ s : FlowSample, table.HasRow features earlier s.row ∧ s.Usable

namespace Transform

open FlowSample

section Window

variable {features targets : List String} {bias : Float} {table : Table} {w : Window} (ht : table.WellFormed)
  (hstart : w.start ≤ w.stop) (hstop : w.stop ≤ table.rows)
include ht hstart hstop

/-- The first row of a selection that has no features, as a row of the table. -/
theorem firstRefused_of_select_iff {raw : Matrix Float} (h : table.select features w = .ok raw)
    {samples : List FlowSample} (hrows : raw.rows = samples.map row) {index : Nat} {reason : FeatureFault} :
    FirstRefused samples index reason ↔ FirstRefusedIn table features w index reason := by
  have hlength : samples.length = w.len := by
    rw [← (Table.select_shape h).1, ← raw.length_rows, hrows, List.length_map]
  have hrow : ∀ {i s}, i < w.len → (samples[i]? = some s ↔ table.HasRow features (w.start + i) s.row) := by
    intro i s hi
    rw [← Table.getElem?_rows_select_iff hstart hstop ht h hi, hrows, List.getElem?_map]
    exact (Option.map_injective row_injective).eq_iff.symm
  constructor
  · rintro ⟨⟨s, hs, hrefused⟩, hbefore⟩
    have hindex : index < w.len := hlength ▸ (List.getElem?_eq_some_iff.1 hs).1
    refine ⟨hindex, ⟨s, (hrow hindex).1 hs, hrefused⟩, ?_⟩
    intro earlier hfirst hlast
    have hearlier : earlier - w.start < samples.length := by omega
    have hat := List.getElem?_eq_getElem hearlier
    have hhas := (hrow (hlength ▸ hearlier)).1 hat
    rw [Nat.add_sub_cancel' hfirst] at hhas
    exact ⟨_, hhas, hbefore _ (by omega) _ hat⟩
  · rintro ⟨hindex, ⟨s, hs, hrefused⟩, hbefore⟩
    refine ⟨⟨s, (hrow hindex).2 hs, hrefused⟩, ?_⟩
    intro earlier hearlier s hs
    have hhas := (hrow (Nat.lt_trans hearlier hindex)).1 hs
    rcases hbefore (w.start + earlier) (Nat.le_add_right _ _) (Nat.add_lt_add_left hearlier _) with ⟨other, hother, hok⟩
    rw [row_injective (hhas.unique hother)]
    exact hok

omit ht in
/-- A row without features is reported once all channels have been found. -/
theorem build_eq_invalidFeature_iff_design {index : Nat} {reason : FeatureFault} :
    (fuelFlow features targets bias).build table w = .error (.invalidFeature index reason) ↔
      (∀ name ∈ targets, name ∈ table.names) ∧
        ∃ raw, table.select features w = .ok raw ∧
          (fuelFlow features targets bias).design raw = .error (.invalidFeature index reason) := by
  have hselect : ∀ names, table.select names w ≠ .error (.invalidFeature index reason) :=
    fun names => Table.select_ne_invalidFeature hstart hstop index reason
  rw [build_eq, bind_eq_error_iff, or_iff_right (hselect _), ← Table.exists_select_iff hstart hstop]
  constructor
  · rintro ⟨raw, hraw, h⟩
    rw [bind_eq_error_iff, or_iff_right (hselect _)] at h
    rcases h with ⟨rawTargets, htargets, h⟩
    rw [bind_eq_error_iff] at h
    rcases h with hdesign | ⟨x, -, hok⟩
    · exact ⟨⟨rawTargets, htargets⟩, raw, hraw, hdesign⟩
    · cases hok
  · rintro ⟨⟨rawTargets, htargets⟩, raw, hraw, hdesign⟩
    have htargets : table.select (fuelFlow features targets bias).targets w = .ok rawTargets := htargets
    refine ⟨raw, hraw, ?_⟩
    rw [htargets, ok_bind, hdesign, error_bind]

/-- The row that is reported for a window is the first row of the table in it that has no features, counted from the
    start of the window. -/
theorem build_eq_invalidFeature_iff {index : Nat} {reason : FeatureFault} :
    (fuelFlow features targets bias).build table w = .error (.invalidFeature index reason) ↔
      (∀ name ∈ features ++ targets, name ∈ table.names) ∧ FirstRefusedIn table features w index reason := by
  rw [build_eq_invalidFeature_iff_design hstart hstop]
  simp only [List.forall_mem_append]
  constructor
  · rintro ⟨htargets, raw, hraw, hdesign⟩
    have hcols := cols_of_design hdesign
    rcases exists_flowSamples hcols with ⟨samples, hrows⟩
    rcases (design_eq_error_iff hcols hrows).1 hdesign with ⟨_, _, hfirst, ⟨⟩⟩
    have hfeatures := (Table.exists_select_iff hstart hstop).1 ⟨raw, hraw⟩
    exact ⟨⟨hfeatures, htargets⟩, (firstRefused_of_select_iff ht hstart hstop hraw hrows).1 hfirst⟩
  · rintro ⟨⟨hfeatures, htargets⟩, hfirst⟩
    rcases (Table.exists_select_iff hstart hstop).2 hfeatures with ⟨raw, hraw⟩
    -- A row of the table under the feature channels is one of four samples, so there are four of them.
    have hcols : raw.cols = 4 := by
      rcases hfirst.refused with ⟨s, hs, -⟩
      rw [(Table.select_shape hraw).2]
      exact hs.length_eq
    rcases exists_flowSamples hcols with ⟨samples, hrows⟩
    have hfirst := (firstRefused_of_select_iff ht hstart hstop hraw hrows).2 hfirst
    exact ⟨htargets, raw, hraw, (design_eq_error_iff hcols hrows).2 ⟨index, reason, hfirst, rfl⟩⟩

end Window

/-- The fuel-flow transform takes a matrix with four columns exactly if every row has a temperature that is not zero and
    finite terms, and then the rows of the result are these terms behind a one. Otherwise it reports the first row that
    has no features; the temperature is the reason exactly if it is zero. For a window of a table the reported number
    counts from the start of the window. -/
theorem flow_features_row_by_row (features targets : List String) (bias : Float) :
    (∀ raw : Matrix Float, raw.cols = 4 →
      ∃ samples : List FlowSample, raw.rows = samples.map FlowSample.row ∧
        ((∃ x, (fuelFlow features targets bias).design raw = .ok x) ↔ ∀ s ∈ samples, s.Usable) ∧
        (∀ x, (fuelFlow features targets bias).design raw = .ok x →
          x.height = raw.height ∧ x.cols = 3 ∧ x.rows = samples.map FlowSample.features) ∧
        ∀ fault, (fuelFlow features targets bias).design raw = .error fault ↔
          ∃ index reason, FirstRefused samples index reason ∧ fault = .invalidFeature index reason) ∧
    ∀ (table : Table) (w : Window), table.WellFormed → w.start ≤ w.stop → w.stop ≤ table.rows →
      ∀ index reason, (fuelFlow features targets bias).build table w = .error (.invalidFeature index reason) ↔
        (∀ name ∈ features ++ targets, name ∈ table.names) ∧ FirstRefusedIn table features w index reason := by
  constructor
  · intro raw hcols
    rcases exists_flowSamples hcols with ⟨samples, hrows⟩
    refine ⟨samples, hrows, exists_design_iff hcols hrows, ?_, ?_⟩
    · intro x hx
      exact shape_of_design hcols hrows hx
    · intro fault
      exact design_eq_error_iff hcols hrows
  · intro table w ht hstart hstop index reason
    exact build_eq_invalidFeature_iff ht hstart hstop

/-- A row that has features. -/
def calmSample : FlowSample := ⟨2.0, 1.0, 2.0, 0.5⟩

/-- A row that misses the angle of attack. -/
def gapSample : FlowSample := ⟨2.0, 1.0, 2.0, 0.0 / 0.0⟩

/-- A row without temperature. -/
def coldSample : FlowSample := ⟨2.0, 1.0, 0.0, 0.5⟩

/-- A row with features and one without. -/
def gapMatrix : Matrix Float := ⟨2, 4, calmSample.row ++ gapSample.row, rfl⟩

/-- A flight that is cold in all its rows but the second. -/
def coldSpells : Table :=
  ⟨4, [⟨"v", [2.0, 2.0, 2.0, 2.0]⟩, ⟨"p", [1.0, 1.0, 1.0, 1.0]⟩, ⟨"t", [0.0, 2.0, 0.0, 0.0]⟩,
    ⟨"a", [0.5, 0.5, 0.5, 0.5]⟩, ⟨"f", [7.0, 8.0, 9.0, 9.0]⟩]⟩

theorem flow_features_row_by_row_cold_spells :
    gapMatrix.cols = 4 ∧
    (fuelFlow ["v", "p", "t", "a"] ["f"] 0.0).design gapMatrix =
      .error (.invalidFeature 1 (.pressureTerm gapSample.term gapSample.angle)) ∧
    coldSpells.WellFormed ∧
    (fuelFlow ["v", "p", "t", "a"] ["f"] 0.0).build coldSpells ⟨1, 4⟩ =
      .error (.invalidFeature 1 .zeroTemperature) := by
  have hcalm : calmSample.Usable := ⟨by decide, by decide, by decide⟩
  have hgap : gapSample.Refused (.pressureTerm gapSample.term gapSample.angle) :=
    refused_pressureTerm (by decide) (by decide)
  have hcold : coldSample.Refused .zeroTemperature := refused_zeroTemperature (by decide)
  have hwell : coldSpells.WellFormed := ⟨by decide, by simp [coldSpells], by simp [coldSpells]⟩
  have hsecond : coldSpells.HasRow ["v", "p", "t", "a"] 1 calmSample.row :=
    .cons ⟨_, rfl, rfl⟩ (.cons ⟨_, rfl, rfl⟩ (.cons ⟨_, rfl, rfl⟩ (.cons ⟨_, rfl, rfl⟩ .nil)))
  have hthird : coldSpells.HasRow ["v", "p", "t", "a"] 2 coldSample.row :=
    .cons ⟨_, rfl, rfl⟩ (.cons ⟨_, rfl, rfl⟩ (.cons ⟨_, rfl, rfl⟩ (.cons ⟨_, rfl, rfl⟩ .nil)))
  rcases flow_features_row_by_row ["v", "p", "t", "a"] ["f"] 0.0 with ⟨hmatrix, hwindow⟩
  rcases hmatrix gapMatrix rfl with ⟨samples, hrows, -, -, hrefused⟩
  have hsamples : [calmSample, gapSample] = samples := List.map_injective_iff.2 row_injective hrows
  refine ⟨rfl, (hrefused _).2 ⟨1, _, ⟨⟨gapSample, by rw [← hsamples]; rfl, hgap⟩, ?_⟩, rfl⟩, hwell, ?_⟩
  · intro earlier hearlier s hs
    cases Nat.lt_one_iff.1 hearlier
    rw [← hsamples] at hs
    cases hs
    exact hcalm
  · apply (hwindow coldSpells ⟨1, 4⟩ hwell (by decide) (by decide) 1 .zeroTemperature).2
    refine ⟨by decide, by decide, ⟨coldSample, hthird, hcold⟩, ?_⟩
    intro earlier hfirst hlast
    cases Nat.le_antisymm (Nat.lt_succ_iff.1 hlast) hfirst
    exact ⟨calmSample, hsecond, hcalm⟩

end Transform

end FlightFit
