import FlightFit.Proofs.WindowRows

/-!
Module: FlightFit.Proofs.CutRanges
Purpose: How a range of rows is cut up for reading does not matter. The rows of two windows that meet are
  the rows of the window over both, and a bad row is the same bad row with another number; so a batch is
  its pieces merged, and by induction over the cut points reading the pieces one after the other leaves
  the model that reading the range leaves, or stops in the piece that holds the bad row.
Main exports: Fault.inLaterRow, Transform.insideRows_cut, Window.cut, Model.readBatch_cut_iff,
  Model.Reads, Model.reads_cut_iff, Model.read_range_in_pieces
-/

namespace FlightFit

/-! ### Two windows that meet -/

/-- The same fault, seen from `offset` rows before. -/
def Fault.inLaterRow (offset : Nat) : Fault → Fault
  | .invalidFeature row reason => .invalidFeature (offset + row) reason
  | other => other

namespace Transform

variable (t : Transform)

/-- A row of the fuel-flow transform that has four samples. -/
theorem exists_flowRow_of_length {raw : List Float} (h : raw.length = 4) :
    ∃ v p temperature alpha, ∀ index, flowRow index raw = flowTerms index v p temperature alpha := by
  match raw, h with
  | [v, p, temperature, alpha], _ => exact ⟨v, p, temperature, alpha, fun _ => rfl⟩

theorem featureRow_later (offset index : Nat) (raw : List Float) :
    t.featureRow (offset + index) raw = (t.featureRow index raw).mapError (Fault.inLaterRow offset) := by
  cases t with
  | linear features targets intercept => rfl
  | fuelFlow features targets bias =>
      by_cases hlength : raw.length = 4
      · obtain ⟨v, p, temperature, alpha, hrow⟩ := exists_flowRow_of_length hlength
        simp only [featureRow, hrow, flowTerms]
        split
        · rfl
        · split
          · rfl
          · rfl
      · simp only [featureRow, flowRow_of_length_ne _ hlength]
        rfl

/-- A bad row is named by its own number. -/
theorem row_of_featureRow {index row : Nat} {raw : List Float} {reason : FeatureFault}
    (h : t.featureRow index raw = .error (.invalidFeature row reason)) : row = index := by
  cases t with
  | linear features targets intercept => simp [featureRow] at h
  | fuelFlow features targets bias =>
      by_cases hlength : raw.length = 4
      · obtain ⟨v, p, temperature, alpha, hrow⟩ := exists_flowRow_of_length hlength
        simp only [featureRow, hrow, flowTerms] at h
        split at h
        · injection h with h
          injection h with h
          exact h.symm
        · split at h
          · simp [Except.map] at h
          · injection h with h
            injection h with h
            exact h.symm
      · simp [featureRow, flowRow_of_length_ne _ hlength, Except.map] at h

theorem featureRows_later (offset index : Nat) (raw : List (List Float)) :
    t.featureRows (offset + index) raw =
      (t.featureRows index raw).mapError (Fault.inLaterRow offset) := by
  induction raw generalizing index with
  | nil => rfl
  | cons row rest ih =>
      rw [featureRows, featureRows, t.featureRow_later offset index row, Nat.add_assoc, ih (index + 1)]
      cases t.featureRow index row with
      | error fault => rfl
      | ok first =>
          cases t.featureRows (index + 1) rest with
          | error fault => rfl
          | ok more => rfl

theorem featureRows_append (index : Nat) (raw more : List (List Float)) :
    t.featureRows index (raw ++ more) = (do
      let top ← t.featureRows index raw
      let bottom ← t.featureRows (index + raw.length) more
      .ok (top ++ bottom)) := by
  induction raw generalizing index with
  | nil =>
      rw [List.nil_append, featureRows, ok_bind, List.length_nil, Nat.add_zero]
      cases t.featureRows index more with
      | error fault => rfl
      | ok rows => rfl
  | cons row rest ih =>
      have hcount : index + (row :: rest).length = index + 1 + rest.length := by
        rw [List.length_cons]
        omega
      rw [List.cons_append, featureRows, featureRows, ih (index + 1), hcount]
      cases t.featureRow index row with
      | error fault => rfl
      | ok first =>
          cases t.featureRows (index + 1) rest with
          | error fault => rfl
          | ok top =>
              cases t.featureRows (index + 1 + rest.length) more with
              | error fault => rfl
              | ok bottom => rfl

/-- The row that a fault names is one of the rows. -/
theorem row_bounds_of_featureRows {index : Nat} {raw : List (List Float)} {row : Nat}
    {reason : FeatureFault} (h : t.featureRows index raw = .error (.invalidFeature row reason)) :
    index ≤ row ∧ row < index + raw.length := by
  induction raw generalizing index with
  | nil => simp [featureRows] at h
  | cons first rest ih =>
      rw [featureRows] at h
      rw [List.length_cons]
      cases hfirst : t.featureRow index first with
      | error fault =>
          rw [hfirst, error_bind] at h
          rw [Except.error.inj h] at hfirst
          have hrow := t.row_of_featureRow hfirst
          omega
      | ok terms =>
          rw [hfirst, ok_bind] at h
          cases hrest : t.featureRows (index + 1) rest with
          | ok more => simp [hrest] at h
          | error fault =>
              rw [hrest, error_bind] at h
              have hbounds := ih (hrest.trans h)
              omega

section Cut

variable {t} {table : Table} {a b c : Nat}

/-- The rows of a window over two others are those of the first one and, below them, those of the
    second one. -/
theorem insideRows_cut (hab : a ≤ b) (hbc : b ≤ c) :
    t.insideRows table ⟨a, c⟩ = (do
      let top ← t.insideRows table ⟨a, b⟩
      let bottom ← (t.insideRows table ⟨b, c⟩).mapError (Fault.inLaterRow (b - a))
      .ok (top.1 ++ bottom.1, top.2 ++ bottom.2)) := by
  have hrange : List.range' a (c - a) = List.range' a (b - a) ++ List.range' b (c - b) := by
    have hjoin := List.range'_append_1 (s := a) (m := b - a) (n := c - b)
    rw [Nat.add_sub_cancel' hab] at hjoin
    rw [hjoin]
    congr 1
    omega
  unfold insideRows
  simp only [Window.len]
  rw [hrange]
  cases table.channelsNamed t.features with
  | error fault => rfl
  | ok featureColumns =>
      cases table.channelsNamed t.targets with
      | error fault => rfl
      | ok targetColumns =>
          have hlater := t.featureRows_later (b - a) 0
            ((List.range' b (c - b)).map (Table.rowAt featureColumns))
          simp only [ok_bind, List.map_append, featureRows_append, List.length_map, List.length_range',
            Nat.zero_add] at hlater ⊢
          rw [Nat.add_zero] at hlater
          rw [hlater]
          cases t.featureRows 0 ((List.range' a (b - a)).map (Table.rowAt featureColumns)) with
          | error fault => rfl
          | ok top =>
              cases t.featureRows 0 ((List.range' b (c - b)).map (Table.rowAt featureColumns)) with
              | error fault => rfl
              | ok bottom => rfl

variable (hab : a < b) (hbc : b < c)
include hab hbc

/-- The rows of a window can be made exactly when those of both its parts can. -/
theorem windowRows_cut_iff {rows : List (List Float) × List (List Float)} :
    t.windowRows table ⟨a, c⟩ = .ok rows ↔
      ∃ top bottom, t.windowRows table ⟨a, b⟩ = .ok top ∧ t.windowRows table ⟨b, c⟩ = .ok bottom ∧
        rows = (top.1 ++ bottom.1, top.2 ++ bottom.2) := by
  have hac : a < c := Nat.lt_trans hab hbc
  rcases Nat.lt_or_ge table.rows c with hout | hinside
  · have hwhole := windowRows_of_outside t (w := ⟨a, c⟩) hac hout
    have hbottom := windowRows_of_outside t (w := ⟨b, c⟩) hbc hout
    simp [hwhole, hbottom]
  · have hinside' : b ≤ table.rows := by omega
    rw [windowRows_of_inside t hac hinside, windowRows_of_inside t hab hinside',
      windowRows_of_inside t hbc hinside, insideRows_cut (Nat.le_of_lt hab) (Nat.le_of_lt hbc)]
    simp only [bind_eq_ok_iff, mapError_eq_ok_iff, Except.ok.injEq]
    constructor
    · rintro ⟨top, htop, bottom, hbottom, rfl⟩
      exact ⟨top, bottom, htop, hbottom, rfl⟩
    · rintro ⟨top, bottom, htop, hbottom, rfl⟩
      exact ⟨top, htop, bottom, hbottom, rfl⟩

/-- A bad row of a window is in its first part, or the first part is sound and the row is in the second
    one, where it has another number. -/
theorem windowRows_cut_of_invalidFeature {row : Nat} {reason : FeatureFault}
    (h : t.windowRows table ⟨a, c⟩ = .error (.invalidFeature row reason)) :
    t.windowRows table ⟨a, b⟩ = .error (.invalidFeature row reason) ∨
    (∃ top, t.windowRows table ⟨a, b⟩ = .ok top) ∧
      ∃ later, row = (b - a) + later ∧
        t.windowRows table ⟨b, c⟩ = .error (.invalidFeature later reason) := by
  have hac : a < c := Nat.lt_trans hab hbc
  rcases Nat.lt_or_ge table.rows c with hout | hinside
  · rw [windowRows_of_outside t hac hout] at h
    simp at h
  · have hinside' : b ≤ table.rows := by omega
    rw [windowRows_of_inside t hac hinside, insideRows_cut (Nat.le_of_lt hab) (Nat.le_of_lt hbc)] at h
    rw [windowRows_of_inside t hab hinside', windowRows_of_inside t hbc hinside]
    cases htop : t.insideRows table ⟨a, b⟩ with
    | error fault =>
        rw [htop, error_bind] at h
        exact .inl h
    | ok top =>
        rw [htop, ok_bind] at h
        refine .inr ⟨⟨top, rfl⟩, ?_⟩
        cases hbottom : t.insideRows table ⟨b, c⟩ with
        | ok bottom => simp [hbottom] at h
        | error fault =>
            rw [hbottom] at h
            have hfault : fault.inLaterRow (b - a) = .invalidFeature row reason := Except.error.inj h
            cases fault with
            | invalidFeature later why =>
                injection hfault with hrow hreason
                exact ⟨later, hrow.symm, by rw [hreason]⟩
            | _ => simp [Fault.inLaterRow] at hfault

end Cut

end Transform

/-- The row that a fault names is one of the window's rows. -/
theorem Transform.row_lt_of_windowRows {t : Transform} {table : Table} {w : Window} {row : Nat}
    {reason : FeatureFault} (h : t.windowRows table w = .error (.invalidFeature row reason)) :
    row < w.len := by
  unfold windowRows at h
  split at h
  · simp at h
  · split at h
    · simp at h
    · unfold insideRows at h
      cases hfeatures : table.channelsNamed t.features with
      | error fault =>
          obtain ⟨name, rfl⟩ := Table.exists_name_of_channelsNamed hfeatures
          simp [hfeatures] at h
      | ok featureColumns =>
          cases htargets : table.channelsNamed t.targets with
          | error fault =>
              obtain ⟨name, rfl⟩ := Table.exists_name_of_channelsNamed htargets
              simp [hfeatures, htargets] at h
          | ok targetColumns =>
              rw [hfeatures, htargets, ok_bind, ok_bind] at h
              cases hrows : t.featureRows 0 ((List.range' w.start w.len).map (Table.rowAt featureColumns)) with
              | ok rows => simp [hrows] at h
              | error fault =>
                  rw [hrows, error_bind] at h
                  rw [Except.error.inj h] at hrows
                  have hbounds := t.row_bounds_of_featureRows hrows
                  simpa using hbounds.2

/-! ### Batches and their pieces -/

namespace TrainingSet

variable {top bottom both : TrainingSet}

/-- Rows that belong together are merged into the set that has them all. -/
theorem merge_eq_ok_of_rows (htop : top.isEmpty = false) (hbottom : bottom.isEmpty = false)
    (hfeatures : top.features = both.features ∧ bottom.features = both.features)
    (htargets : top.targets = both.targets ∧ bottom.targets = both.targets)
    (hx : both.x.rows = top.x.rows ++ bottom.x.rows) (hy : both.y.rows = top.y.rows ++ bottom.y.rows) :
    top.merge bottom = .ok both := by
  obtain ⟨merged, hmerge⟩ := merge_of_columns hbottom fun _ =>
    ⟨hfeatures.2.trans hfeatures.1.symm, htargets.2.trans htargets.1.symm⟩
  have hstacked := stacked_of_merge hbottom hmerge
  obtain ⟨hfeatures', htargets'⟩ := hstacked.columns top List.mem_cons_self htop
  have hsame : merged = both := by
    apply eq_of_rows (hfeatures'.symm.trans hfeatures.1) (htargets'.symm.trans htargets.1)
    · rw [hstacked.xRows, List.flatMap_singleton, hx]
    · rw [hstacked.yRows, List.flatMap_singleton, hy]
  rw [hmerge, hsame]

end TrainingSet

namespace Model

/-- A model reads a window and becomes another one. -/
def Reads (m : Model) (table : Table) (w : Window) (next : Model) : Prop :=
  ∃ reading, m.read table w = .ok (next, reading)

section Cut

variable {m middle next : Model} {table : Table} {w : Window} {a b c : Nat}

/-- The batch of a window is the batch of its first part, merged with that of its second part. -/
theorem exists_merge_of_readBatch (hab : a < b) (hbc : b < c) {batch : TrainingSet}
    (h : m.readBatch table ⟨a, c⟩ = .ok batch) :
    ∃ top bottom, m.readBatch table ⟨a, b⟩ = .ok top ∧ m.readBatch table ⟨b, c⟩ = .ok bottom ∧
      top.merge bottom = .ok batch := by
  obtain ⟨rowsTop, rowsBottom, htop, hbottom, hrows⟩ :=
    (Transform.windowRows_cut_iff hab hbc).1 (windowRows_of_readBatch h)
  obtain ⟨top, hreadTop, hxTop, hyTop⟩ := exists_readBatch_of_windowRows htop
  obtain ⟨bottom, hreadBottom, hxBottom, hyBottom⟩ := exists_readBatch_of_windowRows hbottom
  obtain ⟨hx, hy⟩ := Prod.mk.inj hrows
  obtain ⟨-, -, hfeatures, htargets⟩ := readBatch_shape h
  obtain ⟨-, hsomeTop, hfeaturesTop, htargetsTop⟩ := readBatch_shape hreadTop
  obtain ⟨-, hsomeBottom, hfeaturesBottom, htargetsBottom⟩ := readBatch_shape hreadBottom
  refine ⟨top, bottom, hreadTop, hreadBottom, TrainingSet.merge_eq_ok_of_rows hsomeTop hsomeBottom ?_ ?_ ?_ ?_⟩
  · exact ⟨hfeaturesTop.trans hfeatures.symm, hfeaturesBottom.trans hfeatures.symm⟩
  · exact ⟨htargetsTop.trans htargets.symm, htargetsBottom.trans htargets.symm⟩
  · rw [hxTop, hxBottom, hx]
  · rw [hyTop, hyBottom, hy]

theorem exists_readBatch_of_parts (hab : a < b) (hbc : b < c) {top bottom : TrainingSet}
    (htop : m.readBatch table ⟨a, b⟩ = .ok top) (hbottom : m.readBatch table ⟨b, c⟩ = .ok bottom) :
    ∃ batch, m.readBatch table ⟨a, c⟩ = .ok batch ∧ top.merge bottom = .ok batch := by
  have hrows := (Transform.windowRows_cut_iff hab hbc).2
    ⟨_, _, windowRows_of_readBatch htop, windowRows_of_readBatch hbottom, rfl⟩
  obtain ⟨batch, hbatch, -, -⟩ := exists_readBatch_of_windowRows hrows
  obtain ⟨top', bottom', htop', hbottom', hmerge⟩ := exists_merge_of_readBatch hab hbc hbatch
  obtain rfl := Except.ok.inj (htop.symm.trans htop')
  obtain rfl := Except.ok.inj (hbottom.symm.trans hbottom')
  exact ⟨batch, hbatch, hmerge⟩

theorem reads_iff :
    Reads m table w next ↔ ∃ batch, m.readBatch table w = .ok batch ∧ m.absorb batch = .ok next := by
  constructor
  · rintro ⟨reading, h⟩
    obtain ⟨batch, hbatch, habsorb, -⟩ := read_eq_ok_iff.1 h
    exact ⟨batch, hbatch, habsorb⟩
  · rintro ⟨batch, hbatch, habsorb⟩
    exact ⟨_, read_eq_ok_iff.2 ⟨batch, hbatch, habsorb, rfl⟩⟩

theorem absorb_of_isEmpty_eq_false {batch : TrainingSet} (hbatch : batch.isEmpty = false) :
    m.absorb batch =
      (m.training.merge batch).map fun training => { m with training := training, parameters := none } := by
  unfold absorb
  rw [if_neg (by simp [hbatch])]
  cases m.training.merge batch with
  | error fault => rfl
  | ok training => rfl

/-- Absorbing two batches one after the other is absorbing what they merge to. -/
theorem absorb_merge {top bottom both : TrainingSet} (htop : top.isEmpty = false)
    (hbottom : bottom.isEmpty = false) (hmiddle : m.absorb top = .ok middle)
    (hboth : top.merge bottom = .ok both) : middle.absorb bottom = m.absorb both := by
  have hrows : both.isEmpty = false :=
    TrainingSet.isEmpty_eq_false_of_merge hbottom hboth
  rw [absorb_of_isEmpty_eq_false htop] at hmiddle
  cases hmerge : m.training.merge top with
  | error fault => simp [hmerge, Except.map] at hmiddle
  | ok training =>
      rw [hmerge] at hmiddle
      obtain rfl := Except.ok.inj hmiddle
      rw [absorb_of_isEmpty_eq_false hbottom, absorb_of_isEmpty_eq_false hrows,
        TrainingSet.merge_assoc htop hbottom hmerge hboth]

theorem Reads.transform_eq (h : Reads m table w next) : next.transform = m.transform := by
  obtain ⟨batch, -, habsorb⟩ := reads_iff.1 h
  exact (step_absorb habsorb).transform_eq

theorem Reads.shaped (h : Reads m table w next) : Shaped next := by
  obtain ⟨batch, hbatch, habsorb⟩ := reads_iff.1 h
  exact shaped_of_readBatch hbatch habsorb

/-- Reading a window is reading its first part and then its second part. -/
theorem reads_cut_iff (hm : Shaped m) (hab : a < b) (hbc : b < c) :
    Reads m table ⟨a, c⟩ next ↔ ∃ middle, Reads m table ⟨a, b⟩ middle ∧ Reads middle table ⟨b, c⟩ next := by
  constructor
  · intro h
    obtain ⟨both, hboth, habsorb⟩ := reads_iff.1 h
    obtain ⟨top, bottom, htop, hbottom, hmerge⟩ := exists_merge_of_readBatch hab hbc hboth
    obtain ⟨middle, reading, hread, hmiddle⟩ := read_of_readBatch_ok hm htop
    have hreads : Reads m table ⟨a, b⟩ middle := ⟨reading, hread⟩
    refine ⟨middle, hreads, reads_iff.2 ⟨bottom, ?_, ?_⟩⟩
    · rw [readBatch_congr hreads.transform_eq, hbottom]
    · rw [absorb_merge (readBatch_shape htop).2.1 (readBatch_shape hbottom).2.1 hmiddle hmerge, habsorb]
  · rintro ⟨middle, hfirst, hsecond⟩
    obtain ⟨top, htop, hmiddle⟩ := reads_iff.1 hfirst
    obtain ⟨bottom, hbottom, habsorb⟩ := reads_iff.1 hsecond
    rw [readBatch_congr hfirst.transform_eq] at hbottom
    obtain ⟨both, hboth, hmerge⟩ := exists_readBatch_of_parts hab hbc htop hbottom
    refine reads_iff.2 ⟨both, hboth, ?_⟩
    rw [← absorb_merge (readBatch_shape htop).2.1 (readBatch_shape hbottom).2.1 hmiddle hmerge, habsorb]

/-- A model with the columns of its transform fails to read exactly what it has no batch of. -/
theorem read_eq_error_iff (hm : Shaped m) {fault : Fault} :
    m.read table w = .error fault ↔ m.transform.windowRows table w = .error fault := by
  rw [← readBatch_eq_error_iff]
  constructor
  · intro h
    cases hbatch : m.readBatch table w with
    | error other =>
        rw [read_of_readBatch_error hbatch] at h
        exact congrArg Except.error (Except.error.inj h)
    | ok batch =>
        obtain ⟨next, reading, hread, -⟩ := read_of_readBatch_ok hm hbatch
        simp [hread] at h
  · exact read_of_readBatch_error

end Cut

end Model

/-! ### Pieces -/

/-- The windows between a first row and the cut points that follow it. -/
def Window.cut (first : Nat) : List Nat → List Window
  | [] => []
  | next :: cuts => ⟨first, next⟩ :: Window.cut next cuts

namespace Model

/-- The operations that read windows one after the other. -/
def readings (table : Table) (windows : List Window) : List Operation := windows.map (.read table)

/-- The pieces of a range are all read, and leave `next` behind. -/
def ReadsAll (m : Model) (table : Table) (windows : List Window) (next : Model) : Prop :=
  (∀ answer ∈ (m.performAll (readings table windows)).2, answer.isOk = true) ∧
    (m.performAll (readings table windows)).1 = next

section Pieces

variable {m next : Model} {table : Table}

theorem isOk_perform_read_iff {w : Window} :
    (m.perform (.read table w)).2.isOk = true ↔ Reads m table w (m.perform (.read table w)).1 := by
  simp only [perform]
  cases hread : m.read table w with
  | error fault => simp [Reads, hread, Except.isOk, Except.toBool]
  | ok result =>
      obtain ⟨next, reading⟩ := result
      simp [Reads, hread, Except.isOk, Except.toBool]

theorem perform_of_reads {w : Window} (h : Reads m table w next) : (m.perform (.read table w)).1 = next := by
  obtain ⟨reading, hread⟩ := h
  simp only [perform, hread]

theorem readsAll_cons_iff {w : Window} {windows : List Window} :
    ReadsAll m table (w :: windows) next ↔ ∃ middle, Reads m table w middle ∧ ReadsAll middle table windows next := by
  have hanswers : (m.performAll (readings table (w :: windows))).2 =
      (m.perform (.read table w)).2 :: ((m.perform (.read table w)).1.performAll (readings table windows)).2 := rfl
  have hmodel : (m.performAll (readings table (w :: windows))).1 =
      ((m.perform (.read table w)).1.performAll (readings table windows)).1 := rfl
  unfold ReadsAll
  rw [hanswers, hmodel, List.forall_mem_cons, isOk_perform_read_iff]
  constructor
  · rintro ⟨⟨hfirst, hrest⟩, hnext⟩
    exact ⟨_, hfirst, hrest, hnext⟩
  · rintro ⟨middle, hfirst, hrest, hnext⟩
    obtain rfl := perform_of_reads hfirst
    exact ⟨⟨hfirst, hrest⟩, hnext⟩

theorem readsAll_nil_iff : ReadsAll m table [] next ↔ m = next := by
  simp [ReadsAll, readings, performAll]

theorem cut_first {first cut last : Nat} {inner : List Nat}
    (hcuts : (first :: (cut :: inner ++ [last])).Pairwise (· < ·)) :
    first < cut ∧ cut < last ∧ (cut :: (inner ++ [last])).Pairwise (· < ·) := by
  obtain ⟨hfirst, hrest⟩ := List.pairwise_cons.1 hcuts
  obtain ⟨hcut, -⟩ := List.pairwise_cons.1 hrest
  exact ⟨hfirst cut List.mem_cons_self, hcut last (List.mem_append_right _ List.mem_cons_self), hrest⟩

theorem read_of_perform_error {w : Window} {fault : Fault}
    (h : (m.perform (.read table w)).2 = .error fault) : m.read table w = .error fault := by
  simp only [perform] at h
  split at h
  · simp at h
  · next hread =>
      rw [hread]
      exact congrArg Except.error (Except.error.inj h)

/-- Reading the pieces of a range is reading the range. -/
theorem readsAll_cut_iff (hm : Shaped m) {first last : Nat} {inner : List Nat}
    (hcuts : (first :: (inner ++ [last])).Pairwise (· < ·)) :
    ReadsAll m table (Window.cut first (inner ++ [last])) next ↔ Reads m table ⟨first, last⟩ next := by
  induction inner generalizing m first with
  | nil =>
      rw [List.nil_append, Window.cut, Window.cut, readsAll_cons_iff]
      constructor
      · rintro ⟨middle, hreads, hrest⟩
        obtain rfl := readsAll_nil_iff.1 hrest
        exact hreads
      · intro hreads
        exact ⟨next, hreads, readsAll_nil_iff.2 rfl⟩
  | cons cut inner ih =>
      obtain ⟨hfirst, hlast, hrest⟩ := cut_first hcuts
      rw [List.cons_append, Window.cut, readsAll_cons_iff, reads_cut_iff hm hfirst hlast]
      constructor
      · rintro ⟨middle, hreads, hall⟩
        exact ⟨middle, hreads, (ih hreads.shaped hrest).1 hall⟩
      · rintro ⟨middle, hreads, hrange⟩
        exact ⟨middle, hreads, (ih hreads.shaped hrest).2 hrange⟩

/-- A bad row of a range stops the reading of the piece that it is in, and of none before. -/
theorem exists_bad_piece (hm : Shaped m) {first last : Nat} {inner : List Nat}
    (hcuts : (first :: (inner ++ [last])).Pairwise (· < ·)) {row : Nat} {reason : FeatureFault}
    (h : m.read table ⟨first, last⟩ = .error (.invalidFeature row reason)) :
    ∃ before piece after middle,
      Window.cut first (inner ++ [last]) = before ++ piece :: after ∧
      piece.start ≤ first + row ∧ first + row < piece.stop ∧
      ReadsAll m table before middle ∧
      middle.read table piece = .error (.invalidFeature (first + row - piece.start) reason) := by
  have hrows := (read_eq_error_iff hm).1 h
  induction inner generalizing m first row with
  | nil =>
      have hlt := Transform.row_lt_of_windowRows hrows
      simp only [Window.len] at hlt
      refine ⟨[], ⟨first, last⟩, [], m, rfl, Nat.le_add_right _ _, ?_, readsAll_nil_iff.2 rfl, ?_⟩
      · change first + row < last
        omega
      · rw [h, Nat.add_sub_cancel_left]
  | cons cut inner ih =>
      obtain ⟨hfirst, hlast, hrest⟩ := cut_first hcuts
      rcases Transform.windowRows_cut_of_invalidFeature hfirst hlast hrows with
        htop | ⟨⟨top, htop⟩, later, rfl, hbottom⟩
      · -- The bad row is in the first piece.
        have hlt := Transform.row_lt_of_windowRows htop
        simp only [Window.len] at hlt
        refine ⟨[], ⟨first, cut⟩, Window.cut cut (inner ++ [last]), m, rfl, Nat.le_add_right _ _, ?_,
          readsAll_nil_iff.2 rfl, ?_⟩
        · change first + row < cut
          omega
        · rw [(read_eq_error_iff hm).2 htop, Nat.add_sub_cancel_left]
      · -- The first piece is read, and the bad row lies behind it.
        obtain ⟨batch, hbatch, -, -⟩ := exists_readBatch_of_windowRows htop
        obtain ⟨middle, reading, hread, -⟩ := read_of_readBatch_ok hm hbatch
        have hreads : Reads m table ⟨first, cut⟩ middle := ⟨reading, hread⟩
        rw [← hreads.transform_eq] at hbottom
        obtain ⟨before, piece, after, last', hpieces, hstart, hstop, hbefore, hpiece⟩ :=
          ih hreads.shaped hrest ((read_eq_error_iff hreads.shaped).2 hbottom) hbottom
        have hsum : first + (cut - first + later) = cut + later := by omega
        rw [hsum]
        refine ⟨⟨first, cut⟩ :: before, piece, after, last', ?_, hstart, hstop, ?_, hpiece⟩
        · rw [List.cons_append, Window.cut, hpieces, List.cons_append]
        · exact readsAll_cons_iff.2 ⟨middle, hreads, hbefore⟩

end Pieces

/-- However a range is cut up, the pieces can all be read exactly when the range can, and then they leave
    the same model. A bad row of the range is found in the piece that it is in, the pieces before that one
    being sound, and is named by its place in the piece. -/
theorem read_range_in_pieces (m : Model) (hm : m.Shaped) (table : Table) (first last : Nat)
    (inner : List Nat) (hcuts : (first :: (inner ++ [last])).Pairwise (· < ·)) :
    ((m.perform (.read table ⟨first, last⟩)).2.isOk = true ↔
      ∀ answer ∈ (m.performAll (readings table (Window.cut first (inner ++ [last])))).2,
        answer.isOk = true) ∧
    ((m.perform (.read table ⟨first, last⟩)).2.isOk = true →
      (m.performAll (readings table (Window.cut first (inner ++ [last])))).1 =
        (m.perform (.read table ⟨first, last⟩)).1) ∧
    ∀ row reason, (m.perform (.read table ⟨first, last⟩)).2 = .error (.invalidFeature row reason) →
      ∃ before piece after, Window.cut first (inner ++ [last]) = before ++ piece :: after ∧
        piece.start ≤ first + row ∧ first + row < piece.stop ∧
        (∀ answer ∈ (m.performAll (readings table before)).2, answer.isOk = true) ∧
        ((m.performAll (readings table before)).1.perform (.read table piece)).2 =
          .error (.invalidFeature (first + row - piece.start) reason) := by
  rw [isOk_perform_read_iff]
  refine ⟨⟨?_, ?_⟩, ?_, ?_⟩
  · intro hrange
    exact ((readsAll_cut_iff hm hcuts).2 hrange).1
  · intro hpieces
    have hrange := (readsAll_cut_iff hm hcuts).1 ⟨hpieces, rfl⟩
    rw [perform_of_reads hrange]
    exact hrange
  · intro hrange
    exact ((readsAll_cut_iff hm hcuts).2 hrange).2
  · intro row reason hfault
    obtain ⟨before, piece, after, middle, hpieces, hstart, hstop, ⟨hbefore, rfl⟩, hpiece⟩ :=
      exists_bad_piece hm hcuts (read_of_perform_error hfault)
    refine ⟨before, piece, after, hpieces, hstart, hstop, hbefore, ?_⟩
    simp only [perform, hpiece]

/-- An empty model of the fuel flow of one tank. -/
def tankModel : Model := fresh (.fuelFlow ["v", "p", "t", "a"] ["f"] 0.0) (.leastSquares {})

/-- A flight of six rows; the temperature of the fifth one is missing. -/
def coldFlight : Table :=
  ⟨6, [⟨"v", [60.0, 61.0, 62.0, 63.0, 64.0, 65.0]⟩, ⟨"p", [1.0, 1.0, 1.0, 1.0, 1.0, 1.0]⟩,
    ⟨"t", [2.0, 2.0, 2.0, 2.0, 0.0, 2.0]⟩, ⟨"a", [0.5, 0.25, 0.5, 0.25, 0.5, 0.25]⟩,
    ⟨"f", [7.0, 8.0, 9.0, 8.0, 7.0, 8.0]⟩]⟩

theorem read_range_in_pieces_cold_flight :
    (tankModel.Shaped ∧ [1, 3, 6].Pairwise (· < ·)) ∧
    ((tankModel.perform (.read coldFlight ⟨1, 6⟩)).2.isOk = true ↔
      ∀ answer ∈ (tankModel.performAll (readings coldFlight (Window.cut 1 [3, 6]))).2,
        answer.isOk = true) ∧
    ((tankModel.perform (.read coldFlight ⟨1, 6⟩)).2.isOk = true →
      (tankModel.performAll (readings coldFlight (Window.cut 1 [3, 6]))).1 =
        (tankModel.perform (.read coldFlight ⟨1, 6⟩)).1) ∧
    ∀ row reason, (tankModel.perform (.read coldFlight ⟨1, 6⟩)).2 = .error (.invalidFeature row reason) →
      ∃ before piece after, Window.cut 1 [3, 6] = before ++ piece :: after ∧
        piece.start ≤ 1 + row ∧ 1 + row < piece.stop ∧
        (∀ answer ∈ (tankModel.performAll (readings coldFlight before)).2, answer.isOk = true) ∧
        ((tankModel.performAll (readings coldFlight before)).1.perform (.read coldFlight piece)).2 =
          .error (.invalidFeature (1 + row - piece.start) reason) := by
  have hshaped : tankModel.Shaped := fun hrows => by simp [tankModel, fresh, TrainingSet.empty, TrainingSet.isEmpty] at hrows
  have hcuts : [1, 3, 6].Pairwise (· < ·) := by decide
  exact ⟨⟨hshaped, hcuts⟩, read_range_in_pieces tankModel hshaped coldFlight 1 6 [3] hcuts⟩

example : tankModel.read coldFlight ⟨1, 6⟩ = .error (.invalidFeature 3 .zeroTemperature) := by rfl

example : (tankModel.perform (.read coldFlight ⟨1, 3⟩)).1.read coldFlight ⟨3, 6⟩ =
    .error (.invalidFeature 1 .zeroTemperature) := by rfl

end Model

end FlightFit
