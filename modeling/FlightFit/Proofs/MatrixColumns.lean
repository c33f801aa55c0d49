import FlightFit.Proofs.WindowRows

/-!
Module: FlightFit.Proofs.MatrixColumns
Purpose: Matrices as lists of columns. Cutting cross-sections through the rows gives the columns, and cutting
  them through the columns gives the rows back, so that a matrix is its columns as well as its rows. Products
  and differences are made column by column.
Main exports: Matrix.across_across, Matrix.columns_ofColumns, Matrix.eq_of_columns, Matrix.columns_top,
  Matrix.rows_transpose,
  Matrix.rows_mul, Matrix.columns_mul, Matrix.columns_sub
-/

namespace FlightFit.Matrix

variable {α β γ : Type}

/-! ### Cross-sections of cross-sections -/

/-- The first entries of the cross-sections are the first list. -/
theorem map_headD_across (fill : α) (first : List α) (rest : List (List α)) :
    (across fill first.length (first :: rest)).map (fun slice => slice.headD fill) = first := by
  induction first generalizing rest with
  | nil => rfl
  | cons a first ih =>
      have hrest := ih (rest.map List.tail)
      simp only [List.length_cons, across, List.map_cons, List.headD_cons, List.tail_cons, hrest]

/-- Without their first entries the cross-sections are those of the other lists. -/
theorem map_tail_across (fill : α) (count : Nat) (first : List α) (rest : List (List α)) :
    (across fill count (first :: rest)).map List.tail = across fill count rest := by
  induction count generalizing first rest with
  | zero => rfl
  | succ n ih => simp only [across, List.map_cons, List.tail_cons, ih]

/-- Cross-sections of the cross-sections of lists are the lists. -/
theorem across_across (fill : α) {width : Nat} (rows : List (List α)) (h : ∀ row ∈ rows, row.length = width) :
    across fill rows.length (across fill width rows) = rows := by
  induction rows with
  | nil => rfl
  | cons row rest ih =>
      obtain ⟨hrow, hrest⟩ := List.forall_mem_cons.1 h
      rw [List.length_cons, across, map_tail_across, ih hrest, ← hrow, map_headD_across]

section Zero

variable [Zero α]

theorem columns_ofColumns {height : Nat} {columns : List (List α)}
    (h : ∀ column ∈ columns, column.length = height) : (ofColumns height columns).columns = columns := by
  rw [columns_eq_across, rows_ofColumns]
  exact across_across 0 columns h

theorem ofColumns_columns (m : Matrix α) : ofColumns m.height m.columns = m := by
  apply eq_of_rows
  · exact m.length_columns
  · have hrows := across_across 0 m.rows m.length_of_mem_rows
    rw [m.length_rows] at hrows
    rw [rows_ofColumns, columns_eq_across, hrows]

/-- A matrix is its columns, together with their height. -/
theorem eq_of_columns {a b : Matrix α} (hheight : a.height = b.height) (hcolumns : a.columns = b.columns) :
    a = b := by
  rw [← ofColumns_columns a, hheight, hcolumns, ofColumns_columns]

/-- The first rows have the first entries of the columns. -/
theorem columns_top (count : Nat) (m : Matrix α) : (m.top count).columns = m.columns.map (List.take count) := by
  have hacross : ∀ (width : Nat) (rows : List (List α)),
      across 0 width (rows.take count) = (across 0 width rows).map (List.take count) := by
    intro width
    induction width with
    | zero => exact fun _ => rfl
    | succ n ih => exact fun rows => by simp only [across, List.map_cons, List.map_take, ih]
  have hrows : (m.top count).rows = m.rows.take count := rows_ofRows _ _ _
  rw [columns_eq_across, hrows, hacross, columns_eq_across]
  rfl

@[simp] theorem rows_transpose (m : Matrix α) : m.transpose.rows = m.columns := rows_ofRows _ _ _

end Zero

/-! ### Products and differences -/

/-- Cross-sections of a table of values are the table read the other way. -/
theorem across_map_map (fill : α) (f : β → γ → α) (rows : List β) (items : List γ) :
    across fill items.length (rows.map fun row => items.map (f row)) =
      items.map fun item => rows.map fun row => f row item := by
  induction items with
  | nil => rfl
  | cons item items ih =>
      simp only [List.length_cons, across, List.map_map, Function.comp_def, List.map_cons, List.headD_cons,
        List.tail_cons, ih]

section Product

variable [Scalar α] (a b : Matrix α)

theorem rows_mul : (a.mul b).rows = a.rows.map fun row => b.columns.map (Scalar.dot row) :=
  rows_mapRows _ _ _ _

theorem columns_mul : (a.mul b).columns = b.columns.map fun column => a.rows.map (Scalar.dot · column) := by
  have hcols : (a.mul b).cols = b.columns.length := b.length_columns.symm
  rw [columns_eq_across, rows_mul, hcols]
  exact across_map_map 0 Scalar.dot a.rows b.columns

end Product

theorem pieces_zipWith (f : α → β → γ) (width count : Nat) (as : List α) (bs : List β) :
    pieces width count (List.zipWith f as bs) =
      List.zipWith (List.zipWith f) (pieces width count as) (pieces width count bs) := by
  induction count generalizing as bs with
  | zero => rfl
  | succ n ih => simp only [pieces, List.take_zipWith, List.drop_zipWith, ih, List.zipWith_cons_cons]

theorem map_headD_zipWith (fill : α) (f : α → α → α) {as bs : List (List α)} (ha : ∀ a ∈ as, a ≠ [])
    (hb : ∀ b ∈ bs, b ≠ []) :
    (List.zipWith (List.zipWith f) as bs).map (fun l => l.headD fill) =
      List.zipWith f (as.map fun l => l.headD fill) (bs.map fun l => l.headD fill) := by
  induction as generalizing bs with
  | nil => rfl
  | cons a as ih =>
      cases bs with
      | nil => rfl
      | cons b bs =>
          obtain ⟨ha', has⟩ := List.forall_mem_cons.1 ha
          obtain ⟨hb', hbs⟩ := List.forall_mem_cons.1 hb
          obtain ⟨x, a, rfl⟩ := List.exists_cons_of_ne_nil ha'
          obtain ⟨y, b, rfl⟩ := List.exists_cons_of_ne_nil hb'
          simp only [List.zipWith_cons_cons, List.map_cons, List.headD_cons, ih has hbs]

theorem across_zipWith (fill : α) (f : α → α → α) {count : Nat} {as bs : List (List α)}
    (ha : ∀ a ∈ as, a.length = count) (hb : ∀ b ∈ bs, b.length = count) :
    across fill count (List.zipWith (List.zipWith f) as bs) =
      List.zipWith (List.zipWith f) (across fill count as) (across fill count bs) := by
  induction count generalizing as bs with
  | zero => rfl
  | succ n ih =>
      have hsome : ∀ {lists : List (List α)}, (∀ l ∈ lists, l.length = n + 1) → ∀ l ∈ lists, l ≠ [] := by
        intro lists hlists l hl hnil
        rw [hnil] at hl
        exact absurd (hlists [] hl) (by simp)
      have htails : ∀ {lists : List (List α)}, (∀ l ∈ lists, l.length = n + 1) →
          ∀ l ∈ lists.map List.tail, l.length = n := by
        intro lists hlists l hl
        obtain ⟨l, hmem, rfl⟩ := List.mem_map.1 hl
        rw [List.length_tail, hlists l hmem, Nat.add_sub_cancel]
      have hrest := ih (htails ha) (htails hb)
      rw [across, across, across, List.zipWith_cons_cons, map_headD_zipWith fill f (hsome ha) (hsome hb), ← hrest]
      simp only [List.map_zipWith, List.zipWith_map, List.tail_zipWith]

/-- The columns of a difference are the differences of the columns. -/
theorem columns_sub [Zero α] [Sub α] (a b : Matrix α) (hr : b.height = a.height) (hc : b.cols = a.cols) :
    (a.sub b hr hc).columns = List.zipWith (List.zipWith (· - ·)) a.columns b.columns := by
  have hrows : (a.sub b hr hc).rows = List.zipWith (List.zipWith (· - ·)) a.rows b.rows := by
    unfold rows
    rw [hr, hc]
    exact pieces_zipWith _ _ _ _ _
  have hb : ∀ row ∈ b.rows, row.length = a.cols := by
    intro row hrow
    rw [b.length_of_mem_rows row hrow, hc]
  rw [columns_eq_across, columns_eq_across, columns_eq_across, hrows, hc]
  exact across_zipWith 0 _ a.length_of_mem_rows hb

end FlightFit.Matrix
