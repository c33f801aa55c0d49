import FlightFit.Proofs.BlockSizes
import FlightFit.Proofs.Evaluation
import FlightFit.Proofs.MatrixColumns

/-!
Module: FlightFit.Proofs.StoredWeights
Purpose: The order of stored weights. In memory a matrix stands column by column (`ColumnStore`), in a stored
  block row by row. Storing copies the memory with rows and columns exchanged, and takes the cells of the copy;
  restoring fills the memory row by row with the stored values. Both are loops over all positions that write
  what belongs there, so that what they leave does not depend on what was in the memory before
  (`ColumnStore.writeAll_eq`).
Main exports: ColumnStore, ColumnStore.writeAll_eq, ColumnStore.transposeInto, ColumnStore.fillRows,
  Matrix.byColumns, Matrix.byRows, Matrix.transposeInto_byColumns, Matrix.fillRows_entries,
  weights_stored_row_by_row
-/

namespace FlightFit

/-! ### Entries of lists of lists -/

namespace Matrix

variable {α : Type}

/-- In a shape every index is that of a position. -/
theorem exists_position {height width index : Nat} (h : index < height * width) :
    ∃ i j, i < height ∧ j < width ∧ i * width + j = index := by
  have hpos : 0 < width := Nat.pos_of_lt_mul_left h
  have hi : index / width < height := Nat.div_lt_of_lt_mul (Nat.mul_comm _ _ ▸ h)
  exact ⟨index / width, index % width, hi, Nat.mod_lt index hpos, Nat.div_add_mod' index width⟩

theorem getElem?_flatten_of_forall {width : Nat} {lists : List (List α)} (h : ∀ l ∈ lists, l.length = width)
    (i : Nat) {j : Nat} (hj : j < width) : lists.flatten[i * width + j]? = lists[i]?.bind (·[j]?) := by
  induction lists generalizing i with
  | nil => rfl
  | cons l lists ih =>
      obtain ⟨hl, hlists⟩ := List.forall_mem_cons.1 h
      rw [List.flatten_cons]
      cases i with
      | zero =>
          rw [Nat.zero_mul, Nat.zero_add, List.getElem?_append_left (hl ▸ hj)]
          rfl
      | succ i =>
          have hindex : (i + 1) * width + j - l.length = i * width + j := by
            rw [hl, Nat.succ_mul]
            omega
          have hle : l.length ≤ (i + 1) * width + j := by
            rw [hl, Nat.succ_mul]
            omega
          rw [List.getElem?_append_right hle, hindex, ih hlists]
          rfl

/-- An entry of a cross-section is an entry of the list that is cut there. -/
theorem getElem?_across_bind (fill : α) {width : Nat} {rows : List (List α)} (h : ∀ row ∈ rows, row.length = width)
    (i j : Nat) : (across fill width rows)[j]?.bind (·[i]?) = rows[i]?.bind (·[j]?) := by
  induction width generalizing rows j with
  | zero =>
      cases hrow : rows[i]? with
      | none => rfl
      | some row =>
          have hnil : row = [] := List.length_eq_zero_iff.1 (h row (List.mem_of_getElem? hrow))
          rw [hnil]
          rfl
  | succ n ih =>
      have htails : ∀ row ∈ rows.map List.tail, row.length = n := by
        intro tail htail
        obtain ⟨row, hrow, rfl⟩ := List.mem_map.1 htail
        rw [List.length_tail, h row hrow, Nat.add_sub_cancel]
      cases j with
      | zero =>
          rw [across, List.getElem?_cons_zero, Option.bind_some, List.getElem?_map]
          cases hrow : rows[i]? with
          | none => rfl
          | some row =>
              have hsome : row ≠ [] := List.ne_nil_of_length_eq_add_one (h row (List.mem_of_getElem? hrow))
              obtain ⟨a, rest, rfl⟩ := List.exists_cons_of_ne_nil hsome
              rfl
      | succ j =>
          rw [across, List.getElem?_cons_succ, ih htails, List.getElem?_map]
          cases rows[i]? with
          | none => rfl
          | some row => exact List.getElem?_tail

end Matrix

/-! ### Memory -/

/-- A matrix as it stands in memory, column after column. -/
structure ColumnStore (α : Type) where
  height : Nat
  cols : Nat
  cells : List α
  filled : cells.length = cols * height

namespace ColumnStore

variable {α : Type}

/-- The cell of an entry. -/
def position (s : ColumnStore α) (i j : Nat) : Nat := j * s.height + i

/-- The entry in row `i` and column `j`. -/
def at? (s : ColumnStore α) (i j : Nat) : Option α := if i < s.height then s.cells[s.position i j]? else none

/-- Overwrites an entry. -/
def write (s : ColumnStore α) (i j : Nat) (a : α) : ColumnStore α where
  height := s.height
  cols := s.cols
  cells := s.cells.set (s.position i j) a
  filled := by rw [List.length_set, s.filled]

section Entries

variable {s t : ColumnStore α} {i j : Nat} {a : α}

theorem position_lt (hi : i < s.height) (hj : j < s.cols) : s.position i j < s.cells.length := by
  rw [s.filled]
  calc
    s.position i j < j * s.height + s.height := Nat.add_lt_add_left hi _
    _ = (j + 1) * s.height := (Nat.succ_mul _ _).symm
    _ ≤ s.cols * s.height := Nat.mul_le_mul_right _ hj

theorem position_mod (j : Nat) (hi : i < s.height) : s.position i j % s.height = i := by
  rw [position, Nat.mul_add_mod_self_right, Nat.mod_eq_of_lt hi]

theorem position_div (j : Nat) (hi : i < s.height) : s.position i j / s.height = j := by
  have hpos : 0 < s.height := Nat.zero_lt_of_lt hi
  rw [position, Nat.mul_comm, Nat.mul_add_div hpos, Nat.div_eq_of_lt hi, Nat.add_zero]

/-- Different entries stand in different cells. -/
theorem eq_of_position_eq {i' j' : Nat} (hi : i < s.height) (hi' : i' < s.height)
    (h : s.position i j = s.position i' j') : (i, j) = (i', j') := by
  have hrow : i = i' := by rw [← position_mod j hi, h, position_mod j' hi']
  have hcol : j = j' := by rw [← position_div j hi, h, position_div j' hi']
  rw [hrow, hcol]

theorem bounds_of_at? (h : s.at? i j = some a) : i < s.height ∧ j < s.cols := by
  unfold at? at h
  split at h
  · next hi =>
      have hcell : j * s.height + i < s.cols * s.height := s.filled ▸ (List.getElem?_eq_some_iff.1 h).1
      have hj : j * s.height < s.cols * s.height := Nat.lt_of_le_of_lt (Nat.le_add_right _ _) hcell
      exact ⟨hi, Nat.lt_of_mul_lt_mul_right hj⟩
  · simp at h

theorem exists_at? (hi : i < s.height) (hj : j < s.cols) : ∃ a, s.at? i j = some a := by
  rw [at?, if_pos hi]
  exact ⟨_, List.getElem?_eq_getElem (position_lt hi hj)⟩

/-- The entries of memory that is made of columns. -/
theorem at?_of_columns {columns : List (List α)} (hcells : s.cells = columns.flatten)
    (hcolumns : ∀ column ∈ columns, column.length = s.height) (i j : Nat) :
    s.at? i j = columns[j]?.bind (·[i]?) := by
  unfold at?
  split
  · next hi => rw [hcells, position, Matrix.getElem?_flatten_of_forall hcolumns j hi]
  · next hi =>
      cases hcolumn : columns[j]? with
      | none => rfl
      | some column =>
          have hlength := hcolumns column (List.mem_of_getElem? hcolumn)
          exact (List.getElem?_eq_none (hlength ▸ Nat.not_lt.1 hi)).symm

/-- Memory of one shape is determined by its entries. -/
theorem eq_of_at? (hheight : s.height = t.height) (hcols : s.cols = t.cols)
    (h : ∀ i j, i < s.height → j < s.cols → s.at? i j = t.at? i j) : s = t := by
  have hcells : s.cells = t.cells := by
    apply List.ext_getElem?
    intro k
    by_cases hk : k < s.cols * s.height
    · obtain ⟨j, i, hj, hi, rfl⟩ := Matrix.exists_position hk
      simpa [at?, position, hi, ← hheight] using h i j hi hj
    · have hs : s.cells.length ≤ k := s.filled ▸ Nat.not_lt.1 hk
      have ht : t.cells.length ≤ k := by
        rw [t.filled, ← hheight, ← hcols]
        exact Nat.not_lt.1 hk
      rw [List.getElem?_eq_none hs, List.getElem?_eq_none ht]
  cases s
  cases t
  simp_all

/-- What stands where after an entry was overwritten. -/
theorem at?_write (hi : i < s.height) (hj : j < s.cols) (a : α) (i' j' : Nat) :
    (s.write i j a).at? i' j' = if (i', j') = (i, j) then some a else s.at? i' j' := by
  by_cases hi' : i' < s.height
  · have hwritten : (s.write i j a).at? i' j' = (s.cells.set (s.position i j) a)[s.position i' j']? := if_pos hi'
    have hbefore : s.at? i' j' = s.cells[s.position i' j']? := if_pos hi'
    rw [hwritten, hbefore]
    by_cases hsame : (i', j') = (i, j)
    · obtain ⟨rfl, rfl⟩ := Prod.mk.inj hsame
      rw [if_pos hsame, List.getElem?_set_self (position_lt hi hj)]
    · have hne : s.position i j ≠ s.position i' j' := fun h => hsame (eq_of_position_eq hi' hi h.symm)
      rw [if_neg hsame, List.getElem?_set_ne hne]
  · have hne : (i', j') ≠ (i, j) := fun h => hi' ((Prod.mk.inj h).1 ▸ hi)
    rw [if_neg hne, at?, at?, if_neg hi']
    exact if_neg hi'

end Entries

/-! ### Loops over the positions -/

/-- Overwrites entries one after the other. -/
def writeAll (s : ColumnStore α) (writes : List ((Nat × Nat) × α)) : ColumnStore α :=
  writes.foldl (fun s w => s.write w.1.1 w.1.2 w.2) s

section Loops

variable {s target : ColumnStore α} {writes : List ((Nat × Nat) × α)}

/-- Where writes agree with a target, the written entries are those of the target, and the others are left. -/
theorem at?_writeAll (hheight : s.height = target.height) (hcols : s.cols = target.cols)
    (hagree : ∀ w ∈ writes, target.at? w.1.1 w.1.2 = some w.2) (i j : Nat) :
    (s.writeAll writes).at? i j =
      if (i, j) ∈ writes.map Prod.fst then target.at? i j else s.at? i j := by
  induction writes generalizing s with
  | nil => rfl
  | cons w writes ih =>
      obtain ⟨⟨i', j'⟩, a⟩ := w
      obtain ⟨hfirst, hrest⟩ := List.forall_mem_cons.1 hagree
      obtain ⟨hi, hj⟩ := bounds_of_at? hfirst
      have hstep : (s.writeAll (((i', j'), a) :: writes)).at? i j =
          ((s.write i' j' a).writeAll writes).at? i j := rfl
      have hmem : (i, j) ∈ (((i', j'), a) :: writes).map Prod.fst ↔
          (i, j) = (i', j') ∨ (i, j) ∈ writes.map Prod.fst := List.mem_cons
      rw [hstep, ih (s := s.write i' j' a) hheight hcols hrest, at?_write (hheight ▸ hi) (hcols ▸ hj)]
      by_cases hlater : (i, j) ∈ writes.map Prod.fst
      · rw [if_pos hlater, if_pos (hmem.2 (.inr hlater))]
      · rw [if_neg hlater]
        by_cases hnow : (i, j) = (i', j')
        · obtain ⟨rfl, rfl⟩ := Prod.mk.inj hnow
          rw [if_pos rfl, if_pos (hmem.2 (.inl rfl)), ← hfirst]
        · rw [if_neg hnow, if_neg (mt hmem.1 (not_or.2 ⟨hnow, hlater⟩))]

theorem shape_writeAll (s : ColumnStore α) (writes : List ((Nat × Nat) × α)) :
    (s.writeAll writes).height = s.height ∧ (s.writeAll writes).cols = s.cols := by
  induction writes generalizing s with
  | nil => exact ⟨rfl, rfl⟩
  | cons w writes ih => exact ih (s.write w.1.1 w.1.2 w.2)

/-- Writes that agree with a target and come to every position make memory of its shape the target. -/
theorem writeAll_eq (hheight : s.height = target.height) (hcols : s.cols = target.cols)
    (hagree : ∀ w ∈ writes, target.at? w.1.1 w.1.2 = some w.2)
    (hall : ∀ i j, i < target.height → j < target.cols → (i, j) ∈ writes.map Prod.fst) :
    s.writeAll writes = target := by
  obtain ⟨hheight', hcols'⟩ := shape_writeAll s writes
  refine eq_of_at? (hheight'.trans hheight) (hcols'.trans hcols) fun i j hi hj => ?_
  rw [hheight', hheight] at hi
  rw [hcols', hcols] at hj
  rw [at?_writeAll hheight hcols hagree, if_pos (hall i j hi hj)]

end Loops

/-- The positions of a shape, row by row. -/
def rowByRow (height cols : Nat) : List (Nat × Nat) :=
  (List.range height).flatMap fun i => (List.range cols).map fun j => (i, j)

theorem mem_rowByRow {height cols i j : Nat} : (i, j) ∈ rowByRow height cols ↔ i < height ∧ j < cols := by
  simp [rowByRow]

theorem length_rowByRow (height cols : Nat) : (rowByRow height cols).length = height * cols := by
  simp [rowByRow, List.length_flatMap]

/-- The position that comes in its turn. -/
theorem getElem?_rowByRow {height cols i j : Nat} (hi : i < height) (hj : j < cols) :
    (rowByRow height cols)[i * cols + j]? = some (i, j) := by
  have hwidth : ∀ l ∈ (List.range height).map fun i => (List.range cols).map fun j => (i, j), l.length = cols := by
    intro l hl
    obtain ⟨i, -, rfl⟩ := List.mem_map.1 hl
    rw [List.length_map, List.length_range]
  rw [rowByRow, List.flatMap_def, Matrix.getElem?_flatten_of_forall hwidth i hj]
  simp [hi, hj]

/-- Copies memory with rows and columns exchanged. -/
def transposeInto (s out : ColumnStore α) : ColumnStore α :=
  out.writeAll ((rowByRow s.height s.cols).filterMap fun (i, j) => (s.at? i j).map fun a => ((j, i), a))

/-- Fills memory row by row with values. -/
def fillRows (out : ColumnStore α) (values : List α) : ColumnStore α :=
  out.writeAll ((rowByRow out.height out.cols).zip values)

end ColumnStore

/-! ### The two orders of a matrix -/

namespace Matrix

variable {α : Type} [Zero α] (m : Matrix α)

theorem columnMajor_eq : m.columnMajor = m.columns.flatten := by
  unfold columnMajor
  split
  · next hempty =>
      have hnone : m.height * m.cols = 0 := by rw [← m.filled, List.isEmpty_iff.1 hempty, List.length_nil]
      have hlength : m.columns.flatten.length = 0 := by
        rw [length_flatten_of_forall _ m.length_of_mem_columns, m.length_columns, Nat.mul_comm, hnone]
      exact (List.length_eq_zero_iff.1 hlength).symm
  · rfl

/-- A matrix in memory. -/
def byColumns : ColumnStore α where
  height := m.height
  cols := m.cols
  cells := m.columnMajor
  filled := by rw [columnMajor_eq, length_flatten_of_forall _ m.length_of_mem_columns, m.length_columns]

/-- A matrix in memory, with rows and columns exchanged. -/
def byRows : ColumnStore α where
  height := m.cols
  cols := m.height
  cells := m.entries
  filled := m.filled

theorem at?_byColumns (i j : Nat) : m.byColumns.at? i j = m.columns[j]?.bind (·[i]?) :=
  ColumnStore.at?_of_columns m.columnMajor_eq m.length_of_mem_columns i j

/-- An entry of a matrix stands in both orders. -/
theorem at?_byRows (i j : Nat) : m.byRows.at? j i = m.byColumns.at? i j := by
  have hrows : m.byRows.at? j i = m.rows[i]?.bind (·[j]?) :=
    ColumnStore.at?_of_columns m.flatten_rows.symm m.length_of_mem_rows j i
  rw [hrows, at?_byColumns, columns_eq_across, getElem?_across_bind 0 m.length_of_mem_rows]

/-- Row by row, the entry in row `i` and column `j` comes after `i` rows and `j` more entries. -/
theorem getElem?_entries (i : Nat) {j : Nat} (hj : j < m.cols) :
    m.entries[i * m.cols + j]? = m.byColumns.at? i j := by
  rw [← at?_byRows]
  exact (if_pos hj).symm

theorem transposeInto_byColumns (out : ColumnStore α) (hheight : out.height = m.cols)
    (hcols : out.cols = m.height) : m.byColumns.transposeInto out = m.byRows := by
  apply ColumnStore.writeAll_eq hheight hcols
  · intro w hw
    obtain ⟨⟨i, j⟩, -, hcopied⟩ := List.mem_filterMap.1 hw
    obtain ⟨a, hentry, rfl⟩ := Option.map_eq_some_iff.1 hcopied
    exact (m.at?_byRows i j).trans hentry
  · intro i j hi hj
    obtain ⟨a, hentry⟩ := ColumnStore.exists_at? (s := m.byColumns) hj hi
    have hcopied : ((i, j), a) ∈ (ColumnStore.rowByRow m.height m.cols).filterMap fun (i, j) =>
        (m.byColumns.at? i j).map fun a => ((j, i), a) :=
      List.mem_filterMap.2 ⟨(j, i), ColumnStore.mem_rowByRow.2 ⟨hj, hi⟩, Option.map_eq_some_iff.2 ⟨a, hentry, rfl⟩⟩
    exact List.mem_map_of_mem hcopied

theorem fillRows_entries (out : ColumnStore α) (hheight : out.height = m.height) (hcols : out.cols = m.cols) :
    out.fillRows m.entries = m.byColumns := by
  apply ColumnStore.writeAll_eq hheight hcols
  · intro w hw
    rw [hheight, hcols] at hw
    obtain ⟨k, hk⟩ := List.mem_iff_getElem?.1 hw
    obtain ⟨hposition, hvalue⟩ := List.getElem?_zip_eq_some.1 hk
    -- The value that comes in its turn is the entry of the position that comes in its turn.
    have hbound : k < m.height * m.cols := m.filled ▸ (List.getElem?_eq_some_iff.1 hvalue).1
    obtain ⟨i, j, hi, hj, rfl⟩ := exists_position hbound
    have hplace : (i, j) = w.1 := Option.some.inj ((ColumnStore.getElem?_rowByRow hi hj).symm.trans hposition)
    rw [← hplace, ← hvalue, m.getElem?_entries i hj]
  · intro i j hi hj
    have hlength : (ColumnStore.rowByRow m.height m.cols).length ≤ m.entries.length := by
      rw [ColumnStore.length_rowByRow, m.filled]
    rw [hheight, hcols, List.map_fst_zip hlength]
    exact ColumnStore.mem_rowByRow.2 ⟨hi, hj⟩

/-- The only column of a matrix has its entries in their order. -/
theorem columns_of_cols_eq_one (h : m.cols = 1) : m.columns = [m.entries] := by
  have hlength : m.columns.length = 1 := by rw [m.length_columns, h]
  obtain ⟨column, hcolumn⟩ := List.length_eq_one_iff.1 hlength
  have hentries : column = m.entries := by
    apply List.ext_getElem?
    intro i
    have hentry := m.getElem?_entries i (h ▸ Nat.zero_lt_one)
    rw [at?_byColumns, hcolumn, h, Nat.mul_one, Nat.add_zero] at hentry
    exact hentry.symm
  rw [hcolumn, hentries]

end Matrix

/-! ### Blocks and reports -/

namespace ParameterBlock

/-- A block has the shape of a matrix and its entries row by row. -/
structure LaysOut (b : ParameterBlock) (m : Matrix Float) : Prop where
  rows : b.rows = m.height
  cols : b.cols = m.cols
  length : b.values.length = b.rows * b.cols
  entries : ∀ i j, i < b.rows → j < b.cols →
    ∃ weight, m.byColumns.at? i j = some weight ∧ b.values[i * b.cols + j]? = some weight

theorem laysOut_ofMatrix (m : Matrix Float) : (ofMatrix m).LaysOut m where
  rows := rfl
  cols := rfl
  length := m.filled
  entries := by
    intro i j hi hj
    obtain ⟨weight, hweight⟩ := ColumnStore.exists_at? (s := m.byColumns) hi hj
    exact ⟨weight, hweight, (m.getElem?_entries i hj).trans hweight⟩

/-- Only one block lays out a matrix. -/
theorem LaysOut.eq_ofMatrix {b : ParameterBlock} {m : Matrix Float} (h : b.LaysOut m) : b = ofMatrix m := by
  obtain ⟨rows, cols, values⟩ := b
  obtain ⟨rfl, rfl, hlength, hentries⟩ := h
  have hvalues : values = m.entries := by
    apply List.ext_getElem?
    intro k
    by_cases hk : k < m.height * m.cols
    · obtain ⟨i, j, hi, hj, rfl⟩ := Matrix.exists_position hk
      obtain ⟨weight, hentry, hvalue⟩ := hentries i j hi hj
      rw [hvalue, m.getElem?_entries i hj, hentry]
    · rw [List.getElem?_eq_none (hlength ▸ Nat.not_lt.1 hk), List.getElem?_eq_none (m.filled ▸ Nat.not_lt.1 hk)]
  rw [hvalues]
  rfl

end ParameterBlock

/-- What a run that succeeds has reported of its weights, and what it has saved of them. -/
theorem exists_weights_of_run {config : RunConfig} {session after : Session} {report : RunReport}
    (h : (run config).runOn session = (.ok report, after)) :
    ∃ f, (fitTraining config).outcome session = .ok f ∧ f.model.weights = .ok f.weights ∧
      report.parameters = f.weights.columns ∧
      ∀ path s, config.saveModel = some path → (Snapshot.load path).outcome after = .ok s →
        s.parameters = .ofMatrix f.weights := by
  obtain ⟨f, outSample, before, hfit, -, -, hsaved, rfl⟩ := exists_stages_of_run h
  obtain ⟨start, hfits⟩ := exists_fits_of_fitTraining hfit
  refine ⟨f, hfit, by rw [Model.weights, hfits.parameters], rfl, ?_⟩
  intro path s hsave hload
  obtain rfl := Snapshot.eq_of_load_of_save (hfits.runOn_save hsave hsaved) hload
  rfl

/-- The weights of a stored block stand row by row. Whatever the shape of a matrix, its block is the only one with
    this shape and its entries in this order, and the only one that the matrix is read from. The block holds what
    copying the memory of the matrix with rows and columns exchanged leaves, and filling memory row by row from the
    block leaves the memory of the matrix. A run reports the columns of the weights that it has fitted and stores
    their block; if there is one column, it is what the block holds. -/
theorem weights_stored_row_by_row :
    (∀ (m : Matrix Float) (b : ParameterBlock), b = .ofMatrix m ↔ b.LaysOut m) ∧
    (∀ (m : Matrix Float) (b : ParameterBlock), b = .ofMatrix m ↔ b.toMatrix = .ok m) ∧
    (∀ (m : Matrix Float) (out : ColumnStore Float), out.height = m.cols → out.cols = m.height →
      (m.byColumns.transposeInto out).cells = (ParameterBlock.ofMatrix m).values) ∧
    (∀ (m : Matrix Float) (out : ColumnStore Float), out.height = m.height → out.cols = m.cols →
      out.fillRows (ParameterBlock.ofMatrix m).values = m.byColumns) ∧
    ∀ (config : RunConfig) (session after : Session) (report : RunReport),
      (run config).runOn session = (.ok report, after) →
      ∃ f, (fitTraining config).outcome session = .ok f ∧ f.model.weights = .ok f.weights ∧
        report.parameters = f.weights.columns ∧
        (f.weights.cols = 1 → report.parameters = [(ParameterBlock.ofMatrix f.weights).values]) ∧
        ∀ path s, config.saveModel = some path → (Snapshot.load path).outcome after = .ok s →
          s.parameters = .ofMatrix f.weights := by
  refine ⟨fun m b => ?_, fun m b => ParameterBlock.toMatrix_eq_ok_iff.symm, ?_, ?_, ?_⟩
  · constructor
    · rintro rfl
      exact ParameterBlock.laysOut_ofMatrix m
    · exact ParameterBlock.LaysOut.eq_ofMatrix
  · intro m out hheight hcols
    exact congrArg ColumnStore.cells (m.transposeInto_byColumns out hheight hcols)
  · intro m out hheight hcols
    exact m.fillRows_entries out hheight hcols
  · intro config session after report hrun
    obtain ⟨f, hfit, hweights, hparameters, hsaved⟩ := exists_weights_of_run hrun
    refine ⟨f, hfit, hweights, hparameters, fun hcols => ?_, hsaved⟩
    rw [hparameters, f.weights.columns_of_cols_eq_one hcols]
    rfl

/-- Weights of three features for two targets. -/
def tallWeights : Matrix Float := ⟨3, 2, [1.0, 4.0, 2.0, 5.0, 3.0, 6.0], rfl⟩

theorem weights_stored_row_by_row_tall :
    tallWeights.byColumns.cells = [1.0, 2.0, 3.0, 4.0, 5.0, 6.0] ∧
    (tallWeights.byColumns.transposeInto ⟨2, 3, List.replicate 6 0.0, rfl⟩).cells = [1.0, 4.0, 2.0, 5.0, 3.0, 6.0] ∧
    ColumnStore.fillRows ⟨3, 2, List.replicate 6 0.0, rfl⟩ [1.0, 4.0, 2.0, 5.0, 3.0, 6.0] = tallWeights.byColumns ∧
    ParameterBlock.LaysOut ⟨3, 2, [1.0, 4.0, 2.0, 5.0, 3.0, 6.0]⟩ tallWeights ∧
    ParameterBlock.toMatrix ⟨3, 2, [1.0, 4.0, 2.0, 5.0, 3.0, 6.0]⟩ = .ok tallWeights ∧
    ∃ report after f, (run shortRun).runOn (shortFlight 1.0) = (.ok report, after) ∧
      (fitTraining shortRun).outcome (shortFlight 1.0) = .ok f ∧ f.weights.cols = 1 ∧
      report.parameters = [(ParameterBlock.ofMatrix f.weights).values] := by
  obtain ⟨hlaysOut, hread, hcopied, hfilled, hruns⟩ := weights_stored_row_by_row
  have hone : ((run shortRun).outcome (shortFlight 1.0)).toOption.map (fun report => report.parameters.length) =
      some 1 := by decide +kernel
  obtain ⟨report, hreport, hlength⟩ := Option.map_eq_some_iff.1 hone
  obtain ⟨after, hrun⟩ := Action.outcome_eq_ok_iff.1 (toOption_eq_some_iff.1 hreport)
  obtain ⟨f, hfit, -, hparameters, hcolumn, -⟩ := hruns shortRun (shortFlight 1.0) after report hrun
  have hcols : f.weights.cols = 1 := by rw [← f.weights.length_columns, ← hparameters, hlength]
  exact ⟨rfl, hcopied tallWeights _ rfl rfl, hfilled tallWeights _ rfl rfl, (hlaysOut tallWeights _).1 rfl,
    (hread tallWeights _).1 rfl, report, after, f, hrun, hfit, hcols, hcolumn hcols⟩

end FlightFit
