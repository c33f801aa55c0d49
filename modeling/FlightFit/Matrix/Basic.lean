import FlightFit.Scalar

/-!
Module: FlightFit.Matrix.Basic
Purpose: Matrices as a height, a number of columns and the entries row by row; that the entries fill the
  shape is part of the type. A matrix without rows keeps its number of columns and the other way round.
Main exports: Matrix, Matrix.rows, Matrix.columns, Matrix.ofRows, Matrix.ofColumns, Matrix.transpose,
  Matrix.columnMajor, Matrix.stack, Matrix.top, Matrix.corner, Matrix.prepend, Matrix.mul, Matrix.sub
-/

namespace FlightFit

/-- A matrix, with its entries listed row by row. -/
structure Matrix (α : Type) where
  height : Nat
  cols : Nat
  entries : List α
  filled : entries.length = height * cols

namespace Matrix

variable {α : Type}

/-- The matrix without rows and columns. -/
def empty : Matrix α := ⟨0, 0, [], rfl⟩

/-- Cuts a list into `count` pieces of `width` items. -/
def pieces (width : Nat) : Nat → List α → List (List α)
  | 0, _ => []
  | count + 1, values => values.take width :: pieces width count (values.drop width)

/-- The rows of a matrix. -/
def rows (m : Matrix α) : List (List α) := pieces m.cols m.height m.entries

theorem length_pieces (width count : Nat) (values : List α) : (pieces width count values).length = count := by
  induction count generalizing values with
  | zero => rfl
  | succ n ih => simp [pieces, ih]

theorem length_rows (m : Matrix α) : m.rows.length = m.height := length_pieces m.cols m.height m.entries

theorem length_flatten_of_forall {width : Nat} (rows : List (List α))
    (h : ∀ row ∈ rows, row.length = width) : rows.flatten.length = rows.length * width := by
  induction rows with
  | nil => simp
  | cons row rest ih =>
    have hrest := ih fun r hr => h r (List.mem_cons_of_mem _ hr)
    have hrow := h row List.mem_cons_self
    rw [List.flatten_cons, List.length_append, hrest, hrow, List.length_cons, Nat.succ_mul, Nat.add_comm]

/-- The matrix with given rows, all of one width. -/
def ofRows (width : Nat) (rows : List (List α)) (h : ∀ row ∈ rows, row.length = width) : Matrix α where
  height := rows.length
  cols := width
  entries := rows.flatten
  filled := length_flatten_of_forall rows h

/-- Cuts `count` cross-sections through lists that lie side by side; where a list has ended it gives
    `fill`. -/
def across (fill : α) : Nat → List (List α) → List (List α)
  | 0, _ => []
  | count + 1, lists => lists.map (fun l => l.headD fill) :: across fill count (lists.map List.tail)

theorem length_across (fill : α) (count : Nat) (lists : List (List α)) :
    (across fill count lists).length = count := by
  induction count generalizing lists with
  | zero => rfl
  | succ n ih => simp [across, ih]

theorem length_of_mem_across (fill : α) (count : Nat) (lists : List (List α)) :
    ∀ row ∈ across fill count lists, row.length = lists.length := by
  induction count generalizing lists with
  | zero => simp [across]
  | succ n ih =>
    intro row h
    rw [across, List.mem_cons] at h
    rcases h with rfl | h
    · simp
    · simpa using ih (lists.map List.tail) row h

/-- The matrix with given columns. -/
def ofColumns [Zero α] (height : Nat) (columns : List (List α)) : Matrix α where
  height := height
  cols := columns.length
  entries := (across 0 height columns).flatten
  filled := by
    rw [length_flatten_of_forall _ (length_of_mem_across 0 height columns), length_across]

/-- The columns of a matrix. The rows are cut only if there are columns, since without columns there can
    be any number of them. -/
def columns [Zero α] (m : Matrix α) : List (List α) := if m.cols = 0 then [] else across 0 m.cols m.rows

theorem columns_eq_across [Zero α] (m : Matrix α) : m.columns = across 0 m.cols m.rows := by
  unfold columns
  split
  · next h => rw [h, across]
  · rfl

theorem length_columns [Zero α] (m : Matrix α) : m.columns.length = m.cols := by
  rw [columns_eq_across, length_across]

theorem length_of_mem_columns [Zero α] (m : Matrix α) : ∀ column ∈ m.columns, column.length = m.height := by
  intro column hcolumn
  rw [columns_eq_across] at hcolumn
  rw [length_of_mem_across 0 m.cols m.rows column hcolumn, m.length_rows]

/-- The matrix with rows and columns exchanged. -/
def transpose [Zero α] (m : Matrix α) : Matrix α := ofRows m.height m.columns m.length_of_mem_columns

/-- The entries column by column. A matrix without entries has none, however large the other size. -/
def columnMajor [Zero α] (m : Matrix α) : List α := if m.entries.isEmpty then [] else m.columns.flatten

/-- One matrix on top of another. -/
def stack (a b : Matrix α) (h : b.cols = a.cols) : Matrix α where
  height := a.height + b.height
  cols := a.cols
  entries := a.entries ++ b.entries
  filled := by rw [List.length_append, a.filled, b.filled, h, Nat.add_mul]

/-- The matrix whose rows are the rows of another one under a function to rows of a given width. Rows
    without entries are not made one by one, since there can be any number of them. -/
def mapRows {β : Type} (width : Nat) (f : List α → List β) (h : ∀ row, (f row).length = width)
    (m : Matrix α) : Matrix β where
  height := m.height
  cols := width
  entries := if width = 0 then [] else (m.rows.map f).flatten
  filled := by
    split
    · next hw => rw [hw]; rfl
    · rw [length_flatten_of_forall (m.rows.map f) (fun row hrow => by
        obtain ⟨r, _, rfl⟩ := List.mem_map.1 hrow
        exact h r), List.length_map, length_rows]

theorem length_of_mem_pieces (width count : Nat) (values : List α) (h : values.length = count * width) :
    ∀ row ∈ pieces width count values, row.length = width := by
  induction count generalizing values with
  | zero => simp [pieces]
  | succ n ih =>
    have hw : width ≤ values.length := by rw [h, Nat.succ_mul]; omega
    intro row hrow
    rw [pieces, List.mem_cons] at hrow
    rcases hrow with rfl | hrow
    · simp [hw]
    · refine ih (values.drop width) ?_ row hrow
      rw [List.length_drop, h, Nat.succ_mul, Nat.add_sub_cancel]

theorem length_of_mem_rows (m : Matrix α) : ∀ row ∈ m.rows, row.length = m.cols :=
  length_of_mem_pieces m.cols m.height m.entries m.filled

/-- The first rows. -/
def top (count : Nat) (m : Matrix α) : Matrix α :=
  ofRows m.cols (m.rows.take count) fun row hrow => m.length_of_mem_rows row (List.mem_of_mem_take hrow)

/-- The square of the first rows and columns. -/
def corner (size : Nat) (m : Matrix α) : Matrix α :=
  ofRows (min size m.cols) ((m.rows.take size).map (·.take size)) fun row hrow => by
    obtain ⟨r, hr, rfl⟩ := List.mem_map.1 hrow
    rw [List.length_take, m.length_of_mem_rows r (List.mem_of_mem_take hr)]

theorem height_top (count : Nat) (m : Matrix α) : (m.top count).height = min count m.height :=
  List.length_take.trans (by rw [m.length_rows])

theorem height_corner (size : Nat) (m : Matrix α) : (m.corner size).height = min size m.height :=
  (List.length_map _).trans (List.length_take.trans (by rw [m.length_rows]))

theorem cols_corner (size : Nat) (m : Matrix α) : (m.corner size).cols = min size m.cols := rfl

/-- A column with the same entry everywhere, in front of the others. -/
def prepend (entry : α) (m : Matrix α) : Matrix α :=
  ofRows (m.cols + 1) (m.rows.map (fun row => entry :: row)) fun row hrow => by
    obtain ⟨r, hr, rfl⟩ := List.mem_map.1 hrow
    simp [m.length_of_mem_rows r hr]

/-- Whether every entry satisfies a test. -/
def all (test : α → Bool) (m : Matrix α) : Bool := m.entries.all test

/-- The product, for matrices whose inner sizes agree. -/
@[specialize]
def mul [Scalar α] (a b : Matrix α) : Matrix α :=
  a.mapRows b.cols (fun row => b.columns.map fun column => Scalar.dot row column) fun row => by
    rw [List.length_map, length_columns]

/-- The difference of two matrices of one shape. -/
def sub [Sub α] (a b : Matrix α) (hr : b.height = a.height) (hc : b.cols = a.cols) : Matrix α where
  height := a.height
  cols := a.cols
  entries := List.zipWith (· - ·) a.entries b.entries
  filled := by rw [List.length_zipWith, a.filled, b.filled, hr, hc, Nat.min_self]

end Matrix

end FlightFit
