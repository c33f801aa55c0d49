import FlightFit.Proofs.Reading
import FlightFit.Proofs.TableRows

/-!
Module: FlightFit.Proofs.WindowRows
Purpose: What a model reads, row by row. `Transform.windowRows` makes the feature and target rows of a
  window one table row after the other, and says for which row and why that fails; a batch that is read
  consists of exactly these rows (`Model.readBatch_rows`), and nothing else is in it
  (`TrainingSet.eq_of_rows`).
Main exports: Matrix.eq_of_rows, Matrix.at?, Matrix.rows_ofColumns, Table.rowAt, Transform.featureRow,
  Transform.targetRow, Transform.featureRows, Transform.windowRows, Model.readBatch_rows
-/

namespace FlightFit

/-! ### Matrices as lists of rows -/

namespace Matrix

variable {α β : Type}

theorem pieces_flatten {width : Nat} (rows : List (List α)) (h : ∀ row ∈ rows, row.length = width) :
    pieces width rows.length rows.flatten = rows := by
  induction rows with
  | nil => rfl
  | cons row rest ih =>
      have hrow : row.length = width := h row List.mem_cons_self
      have hrest := ih fun other hother => h other (List.mem_cons_of_mem _ hother)
      rw [List.length_cons, List.flatten_cons, pieces, ← hrow, List.take_left, List.drop_left, hrow, hrest]

theorem flatten_pieces {width count : Nat} {values : List α} (h : values.length = count * width) :
    (pieces width count values).flatten = values := by
  induction count generalizing values with
  | zero =>
      rw [pieces, List.flatten_nil]
      exact (List.length_eq_zero_iff.1 (by simpa using h)).symm
  | succ n ih =>
      have hdrop : (values.drop width).length = n * width := by
        rw [List.length_drop, h, Nat.succ_mul, Nat.add_sub_cancel]
      rw [pieces, List.flatten_cons, ih hdrop, List.take_append_drop]

theorem flatten_rows (m : Matrix α) : m.rows.flatten = m.entries := flatten_pieces m.filled

/-- A matrix is its rows, together with their width. -/
theorem eq_of_rows {a b : Matrix α} (hcols : a.cols = b.cols) (hrows : a.rows = b.rows) : a = b := by
  have hheight : a.height = b.height := by rw [← a.length_rows, hrows, b.length_rows]
  have hentries : a.entries = b.entries := by rw [← a.flatten_rows, hrows, b.flatten_rows]
  exact eq_of_parts hheight hcols hentries

theorem rows_ofRows (width : Nat) (rows : List (List α)) (h : ∀ row ∈ rows, row.length = width) :
    (ofRows width rows h).rows = rows :=
  pieces_flatten rows h

/-- The entry of a matrix in a row and a column. -/
def at? (m : Matrix α) (row column : Nat) : Option α := (m.rows[row]?).bind (·[column]?)

theorem rows_prepend (entry : α) (m : Matrix α) : (m.prepend entry).rows = m.rows.map (entry :: ·) :=
  rows_ofRows _ _ _

theorem rows_ofColumns [Zero α] (height : Nat) (columns : List (List α)) :
    (ofColumns height columns).rows = across 0 height columns := by
  have hrows := pieces_flatten (across 0 height columns) (length_of_mem_across 0 height columns)
  rw [length_across] at hrows
  exact hrows

theorem rows_mapRows (width : Nat) (f : List α → List β) (h : ∀ row, (f row).length = width)
    (m : Matrix α) : (m.mapRows width f h).rows = m.rows.map f := by
  have hwidth : ∀ row ∈ m.rows.map f, row.length = width := by
    intro row hrow
    obtain ⟨r, -, rfl⟩ := List.mem_map.1 hrow
    exact h r
  have hentries : (m.mapRows width f h).entries = (m.rows.map f).flatten := by
    unfold mapRows
    split
    · next hzero =>
        -- Rows without entries are not written out, and neither is anything else.
        have hnone := length_flatten_of_forall (m.rows.map f) hwidth
        rw [hzero, Nat.mul_zero] at hnone
        exact (List.length_eq_zero_iff.1 hnone).symm
    · rfl
  have hlength : (m.rows.map f).length = m.height := by rw [List.length_map, m.length_rows]
  have hrows := pieces_flatten (m.rows.map f) hwidth
  rw [hlength, ← hentries] at hrows
  exact hrows

end Matrix

/-! ### Rows of a table -/

namespace Table

/-- The samples of some channels in one row. -/
def rowAt (columns : List (List Float)) (index : Nat) : List Float :=
  columns.map fun samples => samples.getD index 0

theorem across_drop (columns : List (List Float)) (start count : Nat) :
    Matrix.across 0 count (columns.map (List.drop start)) =
      (List.range' start count).map (rowAt columns) := by
  induction count generalizing start with
  | zero => rfl
  | succ n ih =>
      have hhead : ∀ samples : List Float, (samples.drop start).headD 0 = samples.getD start 0 := by
        intro samples
        simp [List.headD_eq_head?_getD]
      rw [Matrix.across, List.range'_succ, List.map_cons, ← ih (start + 1)]
      simp only [List.map_map, Function.comp_def, List.tail_drop, hhead, rowAt]

/-- A selection inside a table holds the rows of the window, if all channels are known. -/
theorem select_eq_rows {t : Table} {w : Window} (hstart : w.start ≤ w.stop) (hstop : w.stop ≤ t.rows)
    (names : List String) :
    (t.select names w).map Matrix.rows =
      (t.channelsNamed names).map fun columns => (List.range' w.start w.len).map (rowAt columns) := by
  have hbounds : (t.rows < w.stop || w.stop < w.start) = false := by
    simp only [Bool.or_eq_false_iff, decide_eq_false_iff_not]
    omega
  unfold select
  rw [hbounds, if_neg Bool.false_ne_true]
  cases t.channelsNamed names with
  | error fault => rfl
  | ok columns => exact congrArg Except.ok ((Matrix.rows_ofColumns _ _).trans (across_drop _ _ _))

end Table

/-! ### Rows of a system -/

namespace Transform

/-- The feature row of a raw row, which stands at `index` in its window. -/
def featureRow (t : Transform) (index : Nat) (raw : List Float) : Except Fault (List Float) :=
  match t with
  | .fuelFlow .. => (flowRow index raw).map fun terms => [1.0, terms.1, terms.2]
  | .linear _ _ intercept => .ok (if intercept then 1.0 :: raw else raw)

/-- The target row of a raw row. -/
def targetRow (t : Transform) (raw : List Float) : List Float :=
  match t with
  | .fuelFlow _ _ bias => [Scalar.sum raw + bias]
  | .linear .. => raw

/-- The feature rows of raw rows from `index` on, up to the first one that has none. -/
def featureRows (t : Transform) (index : Nat) : List (List Float) → Except Fault (List (List Float))
  | [] => .ok []
  | raw :: rest => do
    let row ← t.featureRow index raw
    let more ← t.featureRows (index + 1) rest
    .ok (row :: more)

theorem featureRows_fuelFlow (features targets : List String) (bias : Float) (index : Nat)
    (raw : List (List Float)) :
    featureRows (.fuelFlow features targets bias) index raw =
      (flowRows index raw).map fun terms => terms.map fun term => [1.0, term.1, term.2] := by
  induction raw generalizing index with
  | nil => rfl
  | cons row rest ih =>
      rw [featureRows, flowRows_cons, ih (index + 1), featureRow]
      cases flowRow index row with
      | error fault => rfl
      | ok terms =>
          cases flowRows (index + 1) rest with
          | error fault => rfl
          | ok more => rfl

theorem featureRows_linear (features targets : List String) (intercept : Bool) (index : Nat)
    (raw : List (List Float)) :
    featureRows (.linear features targets intercept) index raw =
      .ok (raw.map fun row => if intercept then 1.0 :: row else row) := by
  induction raw generalizing index with
  | nil => rfl
  | cons row rest ih =>
      rw [featureRows, ih (index + 1), featureRow]
      rfl

theorem flowRow_of_length_ne (index : Nat) {row : List Float} (h : row.length ≠ 4) :
    flowRow index row = .error (.shapeMismatch (.flowColumns row.length)) := by
  match row with
  | [_, _, _, _] => simp at h
  | [] | [_] | [_, _] | [_, _, _] | _ :: _ :: _ :: _ :: _ :: _ => rfl

/-- The features of raw channels are made row by row. -/
theorem design_rows (t : Transform) {raw : Matrix Float} (hrows : raw.height ≠ 0) :
    (t.design raw).map Matrix.rows = t.featureRows 0 raw.rows := by
  cases t with
  | fuelFlow features targets bias =>
      rw [featureRows_fuelFlow, design]
      split
      · next hcols =>
          -- Too many or too few columns are noticed in the first row.
          obtain ⟨row, rest, hcons⟩ : ∃ row rest, raw.rows = row :: rest := by
            refine List.exists_cons_of_ne_nil fun hnil => hrows ?_
            rw [← raw.length_rows, hnil, List.length_nil]
          have hlength : row.length = raw.cols :=
            raw.length_of_mem_rows row (by rw [hcons]; exact List.mem_cons_self)
          rw [hcons, flowRows_cons, flowRow_of_length_ne 0 (by rwa [hlength]), hlength]
          rfl
      · cases flowRows 0 raw.rows with
        | error fault => rfl
        | ok terms => exact congrArg Except.ok (Matrix.rows_ofRows _ _ _)
  | linear features targets intercept =>
      rw [featureRows_linear, design]
      cases intercept with
      | false => simp [Except.map]
      | true => exact congrArg Except.ok (raw.rows_prepend 1.0)

theorem response_rows (t : Transform) (raw : Matrix Float) :
    (t.response raw).rows = raw.rows.map t.targetRow := by
  cases t with
  | fuelFlow features targets bias => exact Matrix.rows_mapRows 1 _ (fun _ => rfl) raw
  | linear features targets intercept => exact (List.map_id _).symm

/-- The feature and target rows of a window that lies inside a table. -/
def insideRows (t : Transform) (table : Table) (w : Window) :
    Except Fault (List (List Float) × List (List Float)) := do
  let featureColumns ← table.channelsNamed t.features
  let targetColumns ← table.channelsNamed t.targets
  let x ← t.featureRows 0 ((List.range' w.start w.len).map (Table.rowAt featureColumns))
  .ok (x, (List.range' w.start w.len).map fun index => t.targetRow (Table.rowAt targetColumns index))

/-- The feature and target rows of a window of a table. -/
def windowRows (t : Transform) (table : Table) (w : Window) :
    Except Fault (List (List Float) × List (List Float)) :=
  if w.stop ≤ w.start then .error (.emptyRange w.start w.stop)
  else if table.rows < w.stop then .error (.outOfBounds w.start w.stop table.rows)
  else t.insideRows table w

section Window

variable (t : Transform) {table : Table} {w : Window}

theorem windowRows_of_le (h : w.stop ≤ w.start) :
    t.windowRows table w = .error (.emptyRange w.start w.stop) :=
  if_pos h

theorem windowRows_of_outside (hstart : w.start < w.stop) (hstop : table.rows < w.stop) :
    t.windowRows table w = .error (.outOfBounds w.start w.stop table.rows) := by
  unfold windowRows
  rw [if_neg (Nat.not_le.2 hstart), if_pos hstop]

theorem windowRows_of_inside (hstart : w.start < w.stop) (hstop : w.stop ≤ table.rows) :
    t.windowRows table w = t.insideRows table w := by
  unfold windowRows
  rw [if_neg (Nat.not_le.2 hstart), if_neg (Nat.not_lt.2 hstop)]

/-- The system of a window consists of its rows. -/
theorem build_rows (hstart : w.start < w.stop) :
    (t.build table w).map (fun system => (system.1.rows, system.2.rows)) = t.windowRows table w := by
  rw [build_eq]
  rcases Nat.lt_or_ge table.rows w.stop with hout | hstop
  · have hselect : ∀ names, table.select names w = .error (.outOfBounds w.start w.stop table.rows) := by
      intro names
      unfold Table.select
      rw [decide_eq_true hout, Bool.true_or, if_pos rfl]
    rw [hselect, windowRows_of_outside t hstart hout]
    rfl
  · have hselect := Table.select_eq_rows (Nat.le_of_lt hstart) hstop
    rw [windowRows_of_inside t hstart hstop, map_bind]
    apply bind_eq_bind_of_map (hselect t.features)
    intro rawX featureColumns hrawX _ hrowsX
    rw [map_bind]
    apply bind_eq_bind_of_map (hselect t.targets)
    intro rawY targetColumns _ _ hrowsY
    have hheight : rawX.height ≠ 0 := by
      rw [(Table.select_shape hrawX).1, Window.len]
      omega
    rw [← hrowsX, ← t.design_rows hheight]
    cases t.design rawX with
    | error fault => rfl
    | ok x =>
        refine congrArg (fun rows => Except.ok (x.rows, rows)) ?_
        rw [t.response_rows, hrowsY, List.map_map]
        rfl

end Window

end Transform

/-! ### Rows of a batch -/

namespace TrainingSet

/-- A training set is its rows, together with the numbers of columns. -/
theorem eq_of_rows {s t : TrainingSet} (hfeatures : s.features = t.features)
    (htargets : s.targets = t.targets) (hx : s.x.rows = t.x.rows) (hy : s.y.rows = t.y.rows) : s = t := by
  have hrows : s.rows = t.rows := by rw [← s.length_x_rows, hx, t.length_x_rows]
  have hx : s.featureEntries = t.featureEntries :=
    List.reverse_inj.1 (congrArg Matrix.entries (Matrix.eq_of_rows hfeatures hx))
  have hy : s.targetEntries = t.targetEntries :=
    List.reverse_inj.1 (congrArg Matrix.entries (Matrix.eq_of_rows htargets hy))
  cases s
  cases t
  simp_all

end TrainingSet

namespace Model

/-- A batch that is read consists of the rows of its window; it fails as they do. -/
theorem readBatch_rows (m : Model) (table : Table) (w : Window) :
    (m.readBatch table w).map (fun batch => (batch.x.rows, batch.y.rows)) =
      m.transform.windowRows table w := by
  rcases Nat.lt_or_ge w.start w.stop with hw | hw
  · rw [← m.transform.build_rows hw, readBatch_of_lt hw, map_bind]
    cases hbuild : m.transform.build table w with
    | error fault => rfl
    | ok system =>
        obtain ⟨x, y⟩ := system
        obtain ⟨⟨hx, -⟩, hy, -⟩ := Transform.build_shape hbuild
        have hheight : x.height ≠ 0 := by
          rw [hx, Window.len]
          omega
        rw [ok_bind, TrainingSet.ofMatrices_of_aligned (hx.trans hy.symm) hheight]
        simp only [Except.map, TrainingSet.x_ofAligned, TrainingSet.y_ofAligned]
  · rw [readBatch_of_le hw, Transform.windowRows_of_le _ hw]
    rfl

section Window

variable {m : Model} {table : Table} {w : Window}

/-- A window is read when its rows can be made. -/
theorem windowRows_of_readBatch {batch : TrainingSet} (h : m.readBatch table w = .ok batch) :
    m.transform.windowRows table w = .ok (batch.x.rows, batch.y.rows) := by
  rw [← readBatch_rows, h]
  rfl

theorem exists_readBatch_of_windowRows {x y : List (List Float)}
    (h : m.transform.windowRows table w = .ok (x, y)) :
    ∃ batch, m.readBatch table w = .ok batch ∧ batch.x.rows = x ∧ batch.y.rows = y := by
  rw [← readBatch_rows] at h
  cases hbatch : m.readBatch table w with
  | error fault => simp [hbatch, Except.map] at h
  | ok batch =>
      rw [hbatch] at h
      obtain ⟨hx, hy⟩ := Prod.mk.inj (Except.ok.inj h)
      exact ⟨batch, rfl, hx, hy⟩

theorem readBatch_eq_error_iff {fault : Fault} :
    m.readBatch table w = .error fault ↔ m.transform.windowRows table w = .error fault := by
  rw [← readBatch_rows]
  cases m.readBatch table w with
  | error other => simp [Except.map]
  | ok batch => simp [Except.map]

end Window

end Model

end FlightFit
