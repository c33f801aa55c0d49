import FlightFit.Proofs.ModelLife

/-!
Module: FlightFit.Proofs.Reading
Purpose: What reading a window gives. A batch that is read has a row for each row of the window and the
  columns of the transform, whatever the table holds; so a model that has only read for itself has these
  columns too (`Model.Shaped`), and takes every further batch it can read.
Main exports: Transform.featureColumns, Transform.targetColumns, Model.readBatch_shape, Model.Shaped,
  Model.SelfFed, Model.SelfFed.shaped, Model.read_of_readBatch_ok, Model.read_of_readBatch_error
-/

namespace FlightFit

/-! ### Shapes along the way from a table to a batch -/

namespace Matrix

variable {α : Type}

@[simp] theorem cols_ofColumns [Zero α] (height : Nat) (columns : List (List α)) :
    (ofColumns height columns).cols = columns.length := rfl

@[simp] theorem height_ofRows (width : Nat) (rows : List (List α)) (h : ∀ row ∈ rows, row.length = width) :
    (ofRows width rows h).height = rows.length := rfl

@[simp] theorem height_prepend (entry : α) (m : Matrix α) : (m.prepend entry).height = m.height := by
  rw [prepend, height_ofRows, List.length_map, m.length_rows]

end Matrix

theorem Table.length_of_channelsNamed {t : Table} {names : List String} :
    ∀ {columns}, t.channelsNamed names = .ok columns → columns.length = names.length := by
  induction names with
  | nil =>
      intro columns h
      obtain rfl := Except.ok.inj h
      rfl
  | cons name rest ih =>
      intro columns h
      simp only [channelsNamed, bind_eq_ok_iff, Except.ok.injEq] at h
      obtain ⟨samples, -, more, hmore, rfl⟩ := h
      rw [List.length_cons, List.length_cons, ih hmore]

/-- A selection has a row for each row of the window and a column for each name. -/
theorem Table.select_shape {t : Table} {names : List String} {w : Window} {raw : Matrix Float}
    (h : t.select names w = .ok raw) : raw.height = w.len ∧ raw.cols = names.length := by
  unfold select at h
  split at h
  · simp at h
  · obtain ⟨columns, hcolumns, hraw⟩ := bind_eq_ok_iff.1 h
    obtain rfl := Except.ok.inj hraw
    refine ⟨rfl, ?_⟩
    rw [Matrix.cols_ofColumns, List.length_map, length_of_channelsNamed hcolumns]

namespace Transform

/-- The number of features that a transform makes. -/
def featureColumns : Transform → Nat
  | .fuelFlow .. => 3
  | .linear features _ intercept => if intercept then features.length + 1 else features.length

/-- The number of targets that a transform makes. -/
def targetColumns : Transform → Nat
  | .fuelFlow .. => 1
  | .linear _ targets _ => targets.length

/-- The terms of one raw row. -/
def flowRow (index : Nat) : List Float → Except Fault (Float × Float)
  | [v, p, t, alpha] => flowTerms index v p t alpha
  | row => .error (.shapeMismatch (.flowColumns row.length))

theorem flowRows_cons (index : Nat) (row : List Float) (rest : List (List Float)) :
    flowRows index (row :: rest) =
      (do
        let terms ← flowRow index row
        let more ← flowRows (index + 1) rest
        .ok (terms :: more)) := by
  match row with
  | [_, _, _, _] => rfl
  | [] | [_] | [_, _] | [_, _, _] | _ :: _ :: _ :: _ :: _ :: _ => rfl

theorem length_of_flowRows {rows : List (List Float)} (index : Nat) :
    ∀ {terms}, flowRows index rows = .ok terms → terms.length = rows.length := by
  induction rows generalizing index with
  | nil =>
      intro terms h
      obtain rfl := Except.ok.inj h
      rfl
  | cons row rest ih =>
      intro terms h
      simp only [flowRows_cons, bind_eq_ok_iff, Except.ok.injEq] at h
      obtain ⟨term, -, more, hmore, rfl⟩ := h
      rw [List.length_cons, List.length_cons, ih (index + 1) hmore]

/-- The features have a row for each raw row. -/
theorem design_shape {t : Transform} {raw x : Matrix Float} (hraw : raw.cols = t.features.length)
    (h : t.design raw = .ok x) : x.height = raw.height ∧ x.cols = t.featureColumns := by
  cases t with
  | fuelFlow features targets bias =>
      simp only [design] at h
      split at h
      · simp at h
      · cases hrows : flowRows 0 raw.rows with
        | error fault => simp [hrows, Except.map] at h
        | ok terms =>
            rw [hrows] at h
            obtain rfl := Except.ok.inj h
            refine ⟨?_, rfl⟩
            rw [flowMatrix, Matrix.height_ofRows, List.length_map, length_of_flowRows 0 hrows,
              raw.length_rows]
  | linear features targets intercept =>
      obtain rfl := Except.ok.inj h
      cases intercept with
      | false => exact ⟨rfl, hraw⟩
      | true => exact ⟨raw.height_prepend 1.0, congrArg (· + 1) hraw⟩

/-- The targets have a row for each raw row. -/
theorem response_shape (t : Transform) {raw : Matrix Float} (hraw : raw.cols = t.targets.length) :
    (t.response raw).height = raw.height ∧ (t.response raw).cols = t.targetColumns := by
  cases t with
  | fuelFlow features targets bias => exact ⟨rfl, rfl⟩
  | linear features targets intercept => exact ⟨rfl, hraw⟩

/-- Features and targets always have the rows of their window. -/
theorem build_eq (t : Transform) (table : Table) (w : Window) :
    t.build table w =
      (do
        let rawX ← table.select t.features w
        let rawY ← table.select t.targets w
        let x ← t.design rawX
        .ok (x, t.response rawY)) := by
  unfold build
  cases hrawX : table.select t.features w with
  | error fault => rfl
  | ok rawX =>
      cases hrawY : table.select t.targets w with
      | error fault => rfl
      | ok rawY =>
          cases hdesign : t.design rawX with
          | error fault => simp [hdesign]
          | ok x =>
              obtain ⟨hheightX, hcolsX⟩ := Table.select_shape hrawX
              obtain ⟨hheightY, hcolsY⟩ := Table.select_shape hrawY
              have hx : x.height = w.len := (design_shape hcolsX hdesign).1.trans hheightX
              have hy : (t.response rawY).height = w.len := (response_shape t hcolsY).1.trans hheightY
              simp [hdesign, alignedSystem, hx, hy]

/-- The system of a window has a row for each of its rows and the columns of the transform. -/
theorem build_shape {t : Transform} {table : Table} {w : Window} {x y : Matrix Float}
    (h : t.build table w = .ok (x, y)) :
    (x.height = w.len ∧ x.cols = t.featureColumns) ∧ (y.height = w.len ∧ y.cols = t.targetColumns) := by
  rw [build_eq] at h
  simp only [bind_eq_ok_iff, Except.ok.injEq, Prod.mk.injEq] at h
  obtain ⟨rawX, hrawX, rawY, hrawY, design, hdesign, rfl, rfl⟩ := h
  obtain ⟨hheightX, hcolsX⟩ := Table.select_shape hrawX
  obtain ⟨hheightY, hcolsY⟩ := Table.select_shape hrawY
  obtain ⟨hx, hx'⟩ := design_shape hcolsX hdesign
  obtain ⟨hy, hy'⟩ := response_shape t hcolsY
  exact ⟨⟨hx.trans hheightX, hx'⟩, ⟨hy.trans hheightY, hy'⟩⟩

end Transform

/-- Aligned rows make a set. -/
theorem TrainingSet.ofMatrices_of_aligned {x y : Matrix Float} (h : x.height = y.height)
    (hrows : x.height ≠ 0) : ofMatrices x y = .ok (ofAligned x y h) := by
  unfold ofMatrices append
  rw [dif_pos h, if_neg hrows]
  rfl

namespace Model

section Window

variable {m : Model} {table : Table} {w : Window} {batch : TrainingSet}

/-- A window with rows is read through its system. -/
theorem readBatch_of_lt (hw : w.start < w.stop) :
    m.readBatch table w =
      m.transform.build table w >>= fun system => TrainingSet.ofMatrices system.1 system.2 := by
  have hempty : w.isEmpty = false := by simpa [Window.isEmpty] using hw
  unfold readBatch
  rw [hempty]
  rfl

theorem readBatch_of_le (hw : w.stop ≤ w.start) :
    m.readBatch table w = .error (.emptyRange w.start w.stop) := by
  have hempty : w.isEmpty = true := by simpa [Window.isEmpty] using hw
  unfold readBatch
  rw [hempty]
  rfl

/-- A window is read when it has rows and its system can be made; the batch is that system. -/
theorem readBatch_eq_ok_iff :
    m.readBatch table w = .ok batch ↔
      w.start < w.stop ∧
        ∃ x y, ∃ h : x.height = y.height,
          m.transform.build table w = .ok (x, y) ∧ batch = .ofAligned x y h := by
  rcases Nat.lt_or_ge w.start w.stop with hw | hw
  · have hlen : w.len ≠ 0 := by rw [Window.len]; omega
    rw [readBatch_of_lt hw, bind_eq_ok_iff]
    constructor
    · rintro ⟨⟨x, y⟩, hbuild, hbatch⟩
      obtain ⟨⟨hx, -⟩, hy, -⟩ := Transform.build_shape hbuild
      rw [TrainingSet.ofMatrices_of_aligned (hx.trans hy.symm) (by rwa [hx])] at hbatch
      exact ⟨hw, x, y, hx.trans hy.symm, hbuild, (Except.ok.inj hbatch).symm⟩
    · rintro ⟨-, x, y, h, hbuild, rfl⟩
      obtain ⟨⟨hx, -⟩, -⟩ := Transform.build_shape hbuild
      exact ⟨(x, y), hbuild, TrainingSet.ofMatrices_of_aligned h (by rwa [hx])⟩
  · rw [readBatch_of_le hw]
    exact ⟨fun h => by simp at h, fun h => absurd h.1 (Nat.not_lt.2 hw)⟩

/-- A batch has a row for each row of its window and the columns of the transform. -/
theorem readBatch_shape (h : m.readBatch table w = .ok batch) :
    batch.rows = w.len ∧ batch.isEmpty = false ∧
      batch.features = m.transform.featureColumns ∧ batch.targets = m.transform.targetColumns := by
  obtain ⟨hlt, x, y, hheight, hbuild, rfl⟩ := readBatch_eq_ok_iff.1 h
  obtain ⟨⟨hx, hx'⟩, -, hy'⟩ := Transform.build_shape hbuild
  refine ⟨hx, ?_, hx', hy'⟩
  rw [TrainingSet.isEmpty_eq_false_iff]
  change 0 < x.height
  rw [hx, Window.len]
  omega

end Window

/-- Only the transform decides what a model reads. -/
theorem readBatch_congr {m m' : Model} (h : m.transform = m'.transform) (table : Table) (w : Window) :
    m.readBatch table w = m'.readBatch table w := by
  unfold readBatch
  rw [h]

/-! ### Models that have read for themselves -/

/-- Accumulated rows have the columns of the transform. -/
def Shaped (m : Model) : Prop :=
  m.training.isEmpty = false →
    m.training.features = m.transform.featureColumns ∧ m.training.targets = m.transform.targetColumns

theorem shaped_of_isEmpty {m : Model} (h : m.training.isEmpty = true) : m.Shaped := by
  intro hrows
  rw [h] at hrows
  cases hrows

/-- An operation that brings rows from elsewhere. -/
def Operation.bringsRows : Operation → Bool
  | .absorb _ => true
  | _ => false

/-- The training set is empty, or nothing but the model's own reading has filled it. -/
def SelfFed (m : Model) : Prop :=
  ∃ (first : Model) (ops : List Operation), first.training.isEmpty = true ∧
    (∀ op ∈ ops, op.bringsRows = false) ∧ (first.performAll ops).1 = m

/-- A refused window is not read, for the same reason. -/
theorem read_of_readBatch_error {m : Model} {table : Table} {w : Window} {fault : Fault}
    (h : m.readBatch table w = .error fault) : m.read table w = .error fault := by
  unfold read
  rw [h, error_bind]

/-- Taking in a batch that was read puts it below the rows and drops the weights. -/
theorem absorb_of_readBatch {m next : Model} {table : Table} {w : Window} {batch : TrainingSet}
    (hbatch : m.readBatch table w = .ok batch) (h : m.absorb batch = .ok next) :
    TrainingSet.Stacked m.training [batch] next.training ∧
      next = { m with training := next.training, parameters := none } := by
  obtain ⟨-, hrows, -⟩ := readBatch_shape hbatch
  unfold absorb at h
  rw [if_neg (by simp [hrows])] at h
  obtain ⟨training, hmerge, hnext⟩ := bind_eq_ok_iff.1 h
  obtain rfl := Except.ok.inj hnext
  exact ⟨TrainingSet.stacked_of_merge hrows hmerge, rfl⟩

/-- Reading keeps the columns of the transform. -/
theorem shaped_of_readBatch {m next : Model} {table : Table} {w : Window} {batch : TrainingSet}
    (hbatch : m.readBatch table w = .ok batch) (h : m.absorb batch = .ok next) : Shaped next := by
  obtain ⟨-, hrows, hfeatures, htargets⟩ := readBatch_shape hbatch
  obtain ⟨hstacked, hnext⟩ := absorb_of_readBatch hbatch h
  have htransform : next.transform = m.transform := (step_absorb h).transform_eq
  obtain ⟨hx, hy⟩ := hstacked.columns batch (by simp) hrows
  intro _
  rw [htransform, ← hx, ← hy]
  exact ⟨hfeatures, htargets⟩

/-- A model with the columns of its transform takes every window that can be read. -/
theorem read_of_readBatch_ok {m : Model} (hm : Shaped m) {table : Table} {w : Window} {batch : TrainingSet}
    (h : m.readBatch table w = .ok batch) :
    ∃ next reading, m.read table w = .ok (next, reading) ∧ m.absorb batch = .ok next := by
  obtain ⟨-, hrows, hfeatures, htargets⟩ := readBatch_shape h
  obtain ⟨training, hmerge⟩ := TrainingSet.merge_of_columns (s := m.training) hrows fun hm' => by
    obtain ⟨hx, hy⟩ := hm hm'
    exact ⟨hfeatures.trans hx.symm, htargets.trans hy.symm⟩
  have habsorb : m.absorb batch = .ok { m with training := training, parameters := none } := by
    unfold absorb
    rw [if_neg (by simp [hrows]), hmerge]
    rfl
  exact ⟨_, _, read_eq_ok_iff.2 ⟨batch, h, habsorb, rfl⟩, habsorb⟩

/-- Operations that bring no rows keep the columns of the transform. -/
theorem shaped_perform {m : Model} (hm : Shaped m) {op : Operation} (hop : op.bringsRows = false) :
    Shaped (m.perform op).1 := by
  cases op with
  | read table w =>
      simp only [perform]
      split
      · next next reading hread =>
          obtain ⟨batch, hbatch, habsorb, -⟩ := read_eq_ok_iff.1 hread
          exact shaped_of_readBatch hbatch habsorb
      · exact hm
  | absorb batch => simp [Operation.bringsRows] at hop
  | train =>
      simp only [perform]
      split
      · exact hm
      · exact hm
  | readBatch table w => exact hm
  | inSampleError verbose => exact hm
  | outSampleError table w verbose => exact hm
  | predict table w => exact hm
  | snapshot inSample => exact hm

/-- A model that has only read for itself has the columns of its transform. -/
theorem SelfFed.shaped {m : Model} (h : SelfFed m) : Shaped m := by
  obtain ⟨first, ops, hempty, hops, rfl⟩ := h
  exact @performAll_keeps Shaped ops (fun m op hop hm => shaped_perform hm (hops op hop)) first
    (shaped_of_isEmpty hempty)

end Model

end FlightFit
