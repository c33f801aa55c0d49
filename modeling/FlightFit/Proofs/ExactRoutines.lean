import Mathlib
import FlightFit.Proofs.TriangularForm

/-!
Module: FlightFit.Proofs.ExactRoutines
Purpose: What is asked of the routines of a fit when nothing is rounded. The factors of a matrix are one with
  orthonormal columns and an upper triangular one, whose product it is; a triangular system is answered only if there
  is no zero on its diagonal, and then with a solution (`Routines.Exact`). Nothing else is assumed of them: neither
  how they work, nor the signs in the factors, nor how many rows the triangular factor has below its square. The
  routines of the library are of this kind (`Routines.own_exact`).
Main exports: Matrix.identity, Matrix.Upper, Matrix.Factored, Routines.Exact, Matrix.combination_mul,
  Matrix.Upper.injective, Routines.own_exact
-/

namespace FlightFit

/-! ### Factors -/

namespace Matrix

/-- The square matrix with ones on its diagonal and zeros elsewhere. -/
def identity (n : ℕ) : Matrix ℝ :=
  ofRows n ((List.range n).map fun i => (List.range n).map fun j => if i = j then 1 else 0) (by simp)

/-- Below the diagonal there are only zeros. -/
def Upper (m : Matrix ℝ) : Prop := ∀ i j, j < i → ∀ a, m.at? i j = some a → a = 0

/-- A matrix is the product of one with orthonormal columns and an upper triangular one. -/
structure Factored (x q r : Matrix ℝ) : Prop where
  inner : q.cols = r.height
  wide : x.cols ≤ q.cols
  product : q.mul r = x
  orthonormal : q.transpose.mul q = identity q.cols
  upper : r.Upper

end Matrix

/-- What the routines of a fit are for. A system without sides has no diagonal entry to divide by, so that it can be
    answered whatever is on the diagonal. -/
structure Routines.Exact (routines : Routines Option ℝ) : Prop where
  factor : ∀ x q r, x.cols ≤ x.height → routines.factor x = some (q, r) → x.Factored q r
  solve : ∀ r sides solution, r.height = r.cols → r.Upper → sides.height = r.height →
    routines.solve r sides = some (some solution) →
      (sides.cols ≠ 0 → ∀ i, r.at? i i ≠ some 0) ∧ solution.height = r.cols ∧ r.mul solution = sides

/-! ### Products and combinations -/

section Combination

variable {E : Type} [AddCommGroup E] [Module ℝ E]

theorem combination_replicate_zero (n : ℕ) (vs : List E) : combination (List.replicate n 0) vs = 0 := by
  induction n generalizing vs with
  | zero => rfl
  | succ n ih =>
      cases vs with
      | nil => rfl
      | cons v vs => rw [List.replicate_succ, combination_cons_cons, ih, zero_smul, add_zero]

/-- Zeros at the end add nothing to a combination. -/
theorem combination_append_zeros (ws : List ℝ) (n : ℕ) (vs : List E) :
    combination (ws ++ List.replicate n 0) vs = combination ws vs := by
  induction ws generalizing vs with
  | nil => exact combination_replicate_zero n vs
  | cons w ws ih =>
      cases vs with
      | nil => rfl
      | cons v vs => rw [List.cons_append, combination_cons_cons, combination_cons_cons, ih]

/-- Vectors beyond the weights have no part in a combination. -/
theorem combination_take {ws : List ℝ} {k : ℕ} (h : ws.length ≤ k) (vs : List E) :
    combination ws (vs.take k) = combination ws vs := by
  induction ws generalizing k vs with
  | nil => rfl
  | cons w ws ih =>
      obtain ⟨k, rfl⟩ := Nat.exists_eq_add_one.2 (Nat.lt_of_lt_of_le (Nat.succ_pos _) h)
      cases vs with
      | nil => rfl
      | cons v vs => rw [List.take_succ_cons, combination_cons_cons, combination_cons_cons, ih (by simpa using h)]

/-- The first of some vectors is combined from them with one of it and none of the others. -/
theorem combination_unit (n : ℕ) (v : E) (vs : List E) :
    combination (1 :: List.replicate n 0) (v :: vs) = v := by
  rw [combination_cons_cons, combination_replicate_zero, one_smul, add_zero]

theorem combination_zero_cons (ws : List ℝ) (v : E) (vs : List E) :
    combination (0 :: ws) (v :: vs) = combination ws vs := by
  rw [combination_cons_cons, zero_smul, zero_add]

/-- What holds of all combinations of vectors holds of the vectors. -/
theorem forall_mem_of_forall_combination {p : E → Prop} {vs : List E}
    (h : ∀ ws, ws.length = vs.length → p (combination ws vs)) : ∀ v ∈ vs, p v := by
  induction vs with
  | nil => exact fun v hv => (List.not_mem_nil hv).elim
  | cons v vs ih =>
      refine List.forall_mem_cons.2 ⟨?_, ih fun ws hws => ?_⟩
      · have hunit := h (1 :: List.replicate vs.length 0) (by simp)
        rwa [combination_unit] at hunit
      · have hrest := h (0 :: ws) (by simp [hws])
        rwa [combination_zero_cons] at hrest

/-- Vectors with the same combinations are the same. -/
theorem eq_of_forall_combination {us vs : List E} (hlength : us.length = vs.length)
    (h : ∀ ws, ws.length = us.length → combination ws us = combination ws vs) : us = vs := by
  induction us generalizing vs with
  | nil => exact (List.length_eq_zero_iff.1 hlength.symm).symm
  | cons u us ih =>
      obtain ⟨v, vs, rfl⟩ := List.exists_cons_of_length_eq_add_one hlength.symm
      have hfirst := h (1 :: List.replicate us.length 0) (by simp)
      rw [combination_unit, combination_unit] at hfirst
      have hrest : us = vs := by
        refine ih (by simpa using hlength) fun ws hws => ?_
        have hws := h (0 :: ws) (by simp [hws])
        rwa [combination_zero_cons, combination_zero_cons] at hws
      rw [hfirst, hrest]

end Combination

namespace Matrix

/-- What a matrix makes of weights. -/
noncomputable def applied (m : Matrix ℝ) (ws : List ℝ) : List ℝ := m.rows.map (Scalar.dot · ws)

theorem length_applied (m : Matrix ℝ) (ws : List ℝ) : (m.applied ws).length = m.height := by
  rw [applied, List.length_map, m.length_rows]

/-- The columns of a matrix as vectors. -/
def vectors (x : Matrix ℝ) : List (Fin x.height → ℝ) := x.columns.map (vec x.height)

theorem length_vectors (x : Matrix ℝ) : x.vectors.length = x.cols := by
  rw [vectors, List.length_map, x.length_columns]

/-- Applying a matrix to weights combines its columns. -/
theorem vec_applied {x : Matrix ℝ} {ws : List ℝ} (h : ws.length = x.cols) :
    vec x.height (x.applied ws) = combination ws x.vectors := by
  rw [applied, vec_map_dot_rows, h, ← x.columns_eq_across, vectors]

theorem columns_mul_applied (a b : Matrix ℝ) : (a.mul b).columns = b.columns.map a.applied := columns_mul a b

/-- A product is applied factor by factor. -/
theorem applied_mul {a b : Matrix ℝ} (hinner : a.cols = b.height) {ws : List ℝ} (h : ws.length = b.cols) :
    (a.mul b).applied ws = a.applied (b.applied ws) := by
  rw [applied, rows_mul, List.map_map]
  refine List.map_congr_left fun row hrow => ?_
  have hlength : row.length = b.height := (a.length_of_mem_rows row hrow).trans hinner
  have hcombination := dot_map_dot hlength b.columns ws
  rw [Function.comp_apply, hcombination, dot_eq_dotProduct hlength, vec_applied h, vectors]

/-- Combining the columns of a product is combining those of its first factor. -/
theorem combination_mul {q r : Matrix ℝ} (hinner : q.cols = r.height) {ws : List ℝ} (h : ws.length = r.cols) :
    combination ws (q.mul r).vectors = combination (r.applied ws) q.vectors := by
  have hproduct := vec_applied (x := q.mul r) h
  rw [← hproduct, applied_mul hinner h]
  exact vec_applied ((r.length_applied ws).trans hinner.symm)

theorem rows_gram (q : Matrix ℝ) :
    (q.transpose.mul q).rows = q.columns.map fun column => q.columns.map (Scalar.dot column) := by
  rw [rows_mul, rows_transpose]

/-- The product of the transposed matrix with a matrix is the identity when the inner products of the columns are. -/
theorem gram_eq_identity_iff (q : Matrix ℝ) :
    q.transpose.mul q = identity q.cols ↔
      ∀ i j (hi : i < q.columns.length) (hj : j < q.columns.length),
        Scalar.dot q.columns[i] q.columns[j] = if i = j then 1 else 0 := by
  have hidentity : (identity q.cols).rows =
      (List.range q.columns.length).map fun i => (List.range q.columns.length).map fun j => if i = j then 1 else 0 := by
    rw [q.length_columns]
    exact rows_ofRows _ _ _
  constructor
  · intro h i j hi hj
    have hrows := congrArg (fun m => (m.rows[i]?).bind (·[j]?)) h
    simpa [rows_gram, hidentity, hi, hj] using hrows
  · intro h
    have hcols : (q.transpose.mul q).cols = (identity q.cols).cols := rfl
    apply eq_of_rows hcols
    rw [rows_gram, hidentity]
    refine List.ext_getElem (by simp) fun i hi _ => List.ext_getElem (by simp) fun j hj _ => ?_
    simpa using h i j (by simpa using hi) (by simpa using hj)

/-- Columns are orthonormal when the product with the transposed matrix is the identity. -/
theorem orthonormalList_iff (q : Matrix ℝ) : OrthonormalList q.vectors ↔ q.transpose.mul q = identity q.cols := by
  have hdot : ∀ i j (hi : i < q.columns.length) (hj : j < q.columns.length),
      vec q.height q.columns[i] ⬝ᵥ vec q.height q.columns[j] = Scalar.dot q.columns[i] q.columns[j] :=
    fun i j hi hj => (dot_eq_dotProduct (q.length_of_mem_columns _ (List.getElem_mem hi)) _).symm
  rw [gram_eq_identity_iff]
  constructor
  · rintro ⟨hunit, horthogonal⟩ i j hi hj
    rw [vectors, List.pairwise_map, List.pairwise_iff_getElem] at horthogonal
    rw [← hdot i j hi hj]
    rcases Nat.lt_trichotomy i j with hlt | rfl | hlt
    · rw [if_neg (Nat.ne_of_lt hlt)]
      exact horthogonal i j hi hj hlt
    · rw [if_pos rfl]
      exact hunit _ (List.mem_map_of_mem (List.getElem_mem hi))
    · rw [if_neg (Nat.ne_of_gt hlt), dotProduct_comm]
      exact horthogonal j i hj hi hlt
  · intro h
    constructor
    · intro v hv
      obtain ⟨column, hcolumn, rfl⟩ := List.mem_map.1 hv
      obtain ⟨i, hi, rfl⟩ := List.mem_iff_getElem.1 hcolumn
      rw [hdot i i hi hi, h i i hi hi, if_pos rfl]
    · rw [vectors, List.pairwise_map, List.pairwise_iff_getElem]
      intro i j hi hj hlt
      rw [hdot i j hi hj, h i j hi hj, if_neg (Nat.ne_of_lt hlt)]

/-! ### Upper triangular systems -/

theorem rows_corner (size : ℕ) (m : Matrix ℝ) : (m.corner size).rows = (m.rows.take size).map (·.take size) :=
  rows_ofRows _ _ _

theorem at?_of_corner {size i j : ℕ} {m : Matrix ℝ} {a : ℝ} (h : (m.corner size).at? i j = some a) :
    m.at? i j = some a := by
  rw [at?, rows_corner, List.getElem?_map, List.getElem?_take] at h
  split at h
  · rw [at?]
    obtain ⟨row, hrow, hentry⟩ := Option.bind_eq_some_iff.1 h
    obtain ⟨full, hfull, rfl⟩ := Option.map_eq_some_iff.1 hrow
    rw [List.getElem?_take] at hentry
    split at hentry
    · exact Option.bind_eq_some_iff.2 ⟨full, hfull, hentry⟩
    · cases hentry
  · cases h

theorem dot_eq_zero_of_forall {as : List ℝ} (h : ∀ a ∈ as, a = 0) (bs : List ℝ) : Scalar.dot as bs = 0 := by
  induction as generalizing bs with
  | nil => rfl
  | cons a as ih =>
      obtain ⟨ha, has⟩ := List.forall_mem_cons.1 h
      cases bs with
      | nil => exact dot_nil_right _
      | cons b bs => rw [dot_cons_cons, ha, ih has, zero_mul, zero_add]

namespace Upper

variable {r : Matrix ℝ} (h : r.Upper)
include h

theorem corner (size : ℕ) : (r.corner size).Upper := fun i j hij a ha => h i j hij a (at?_of_corner ha)

theorem getD_eq_zero {i j : ℕ} {row : List ℝ} (hrow : r.rows[i]? = some row) (hij : j < i) : row.getD j 0 = 0 := by
  rw [List.getD_eq_getElem?_getD]
  cases hentry : row[j]? with
  | none => rfl
  | some a => exact h i j hij a (Option.bind_eq_some_iff.2 ⟨row, hrow, hentry⟩)

/-- Below its square, an upper triangular matrix makes only zeros of weights. -/
theorem applied_eq (ws : List ℝ) :
    r.applied ws = (r.corner r.cols).applied ws ++ List.replicate (r.height - r.cols) 0 := by
  have hcut : (r.corner r.cols).rows = r.rows.take r.cols := by
    rw [rows_corner]
    refine (List.map_congr_left fun row hrow => ?_).trans (List.map_id' _)
    exact List.take_of_length_le (Nat.le_of_eq (r.length_of_mem_rows row (List.mem_of_mem_take hrow)))
  have hbelow : (r.rows.drop r.cols).map (Scalar.dot · ws) = List.replicate (r.height - r.cols) 0 := by
    rw [List.eq_replicate_iff]
    refine ⟨by rw [List.length_map, List.length_drop, r.length_rows], List.forall_mem_map.2 fun row hrow => ?_⟩
    apply dot_eq_zero_of_forall
    obtain ⟨i, hi⟩ := List.mem_iff_getElem?.1 hrow
    rw [List.getElem?_drop] at hi
    intro a ha
    obtain ⟨j, hj⟩ := List.mem_iff_getElem?.1 ha
    have hwidth := r.length_of_mem_rows row (List.mem_of_mem_drop hrow)
    have hcolumn : j < row.length := (List.getElem?_eq_some_iff.1 hj).1
    exact h (r.cols + i) j (by omega) a (Option.bind_eq_some_iff.2 ⟨row, hi, hj⟩)
  rw [applied, applied, hcut, ← hbelow, ← List.map_append, List.take_append_drop]

end Upper

/-- The triangle in rows makes the same of weights as the rows, if these are zero before the diagonal. -/
theorem times_ofRows {offset : ℕ} {rows : List (List ℝ)} {ws : List ℝ} (hws : ws.length = rows.length)
    (h : ∀ i row, rows[i]? = some row → ∀ j, offset ≤ j → j < offset + i → row.getD j 0 = 0) :
    (Triangle.ofRows offset rows).times ws = rows.map fun row => Scalar.dot (row.drop offset) ws := by
  induction rows generalizing offset ws with
  | nil => rfl
  | cons row rest ih =>
      obtain ⟨w, ws, rfl⟩ := List.exists_cons_of_length_eq_add_one hws
      have hbelow : ∀ i row, rest[i]? = some row → ∀ j, offset + 1 ≤ j → j < offset + 1 + i → row.getD j 0 = 0 :=
        fun i row hrow j hj hji => h (i + 1) row hrow j (by omega) (by omega)
      have hlength : ws.length = rest.length := by simpa using hws
      have hrest := ih hlength hbelow
      rw [Triangle.ofRows, Triangle.times, hrest, List.map_cons, ← dot_cons_right]
      refine congrArg _ (List.map_congr_left fun below hbelow => ?_)
      obtain ⟨i, hi⟩ := List.mem_iff_getElem?.1 hbelow
      have hzero : (below.drop offset).headD 0 = 0 := by
        have hentry := h (i + 1) below hi offset (Nat.le_refl _) (by omega)
        simpa [List.getD_eq_getElem?_getD, List.headD_eq_head?_getD, List.head?_drop] using hentry
      rw [dot_cons_right, hzero, zero_mul, zero_add, List.tail_drop]

theorem length_ofRows (offset : ℕ) (rows : List (List ℝ)) : (Triangle.ofRows offset rows).length = rows.length := by
  induction rows generalizing offset with
  | nil => rfl
  | cons row rest ih => rw [Triangle.ofRows, List.length_cons, ih, List.length_cons]

/-- The diagonal of the triangle in rows. -/
theorem forall_mem_ofRows_iff {offset : ℕ} {rows : List (List ℝ)} {p : ℝ → Prop} :
    (∀ row ∈ Triangle.ofRows offset rows, p row.1) ↔
      ∀ (i : ℕ) (row : List ℝ), rows[i]? = some row → p (row.getD (offset + i) 0) := by
  induction rows generalizing offset with
  | nil => simp [Triangle.ofRows]
  | cons row rest ih =>
      have hhead : (row.drop offset).headD 0 = row.getD offset 0 := by
        simp [List.getD_eq_getElem?_getD, List.headD_eq_head?_getD, List.head?_drop]
      rw [Triangle.ofRows, List.forall_mem_cons, ih, hhead]
      constructor
      · rintro ⟨hfirst, hrest⟩ i other hother
        cases i with
        | zero =>
            obtain rfl := Option.some.inj hother
            exact hfirst
        | succ i =>
            have hentry := hrest i other hother
            rwa [Nat.add_right_comm] at hentry
      · intro hall
        refine ⟨hall 0 row rfl, fun i other hother => ?_⟩
        rw [Nat.add_right_comm]
        exact hall (i + 1) other hother

theorem forall_diagonal_iff {r : Matrix ℝ} (hsquare : r.height = r.cols) :
    (∀ row ∈ Triangle.ofRows 0 r.rows, row.1 ≠ 0) ↔ ∀ i, r.at? i i ≠ some 0 := by
  rw [forall_mem_ofRows_iff (p := (· ≠ 0))]
  simp only [Nat.zero_add]
  constructor
  · intro hall i hzero
    obtain ⟨row, hrow, hentry⟩ := Option.bind_eq_some_iff.1 hzero
    exact hall i row hrow (by rw [List.getD_eq_getElem?_getD, hentry, Option.getD_some])
  · intro hall i row hrow hzero
    have hi : i < row.length := by
      rw [r.length_of_mem_rows row (List.mem_of_getElem? hrow), ← hsquare, ← r.length_rows]
      exact (List.getElem?_eq_some_iff.1 hrow).1
    refine hall i (Option.bind_eq_some_iff.2 ⟨row, hrow, ?_⟩)
    rw [List.getElem?_eq_getElem hi, ← List.getD_eq_getElem row 0 hi, hzero]

namespace Upper

variable {r : Matrix ℝ} (h : r.Upper) (hsquare : r.height = r.cols)
include h hsquare

theorem times_eq_applied {ws : List ℝ} (hws : ws.length = r.cols) :
    (Triangle.ofRows 0 r.rows).times ws = r.applied ws := by
  refine times_ofRows (hws.trans (hsquare.symm.trans r.length_rows.symm)) fun i row hrow j _ hij => ?_
  exact h.getD_eq_zero hrow (by omega)

/-- Substitution in the triangle of a square matrix solves its system, and nothing else. -/
theorem backSubstitute_iff {side ws : List ℝ} (hside : side.length = r.height) :
    backSubstitute (Triangle.ofRows 0 r.rows) side = some ws ↔
      (∀ i, r.at? i i ≠ some 0) ∧ ws.length = r.cols ∧ r.applied ws = side := by
  have hrows : (Triangle.ofRows 0 r.rows).length = r.cols := by rw [length_ofRows, r.length_rows, hsquare]
  rw [backSubstitute_eq_some_iff (hside.trans (hsquare.trans hrows.symm)), forall_diagonal_iff hsquare, hrows]
  refine and_congr_right fun _ => and_congr_right fun hws => ?_
  rw [h.times_eq_applied hsquare hws]

/-- Without zeros on its diagonal, a square matrix makes different sides of different weights. -/
theorem injective (hdiagonal : ∀ i, r.at? i i ≠ some 0) {us ws : List ℝ} (hus : us.length = r.cols)
    (hws : ws.length = r.cols) (heq : r.applied us = r.applied ws) : us = ws := by
  have hfirst := (h.backSubstitute_iff hsquare (r.length_applied us)).2 ⟨hdiagonal, hus, rfl⟩
  have hsecond := (h.backSubstitute_iff hsquare (r.length_applied us)).2 ⟨hdiagonal, hws, heq.symm⟩
  exact Option.some.inj (hfirst.symm.trans hsecond)

end Upper

end Matrix

/-! ### The routines of the library -/

namespace Triangle

theorem dot_zeros_append (before : List ℝ) (as bs : List ℝ) :
    Scalar.dot (List.replicate before.length 0 ++ as) (before ++ bs) = Scalar.dot as bs := by
  induction before with
  | nil => rfl
  | cons b before ih =>
      rw [List.length_cons, List.replicate_succ, List.cons_append, List.cons_append, dot_cons_cons, ih, zero_mul,
        zero_add]

/-- The written-out rows make of weights what the triangle makes of those that are left at its first row. -/
theorem map_dot_fullRows (triangle : Triangle ℝ) (before : List ℝ) {ws : List ℝ} (h : ws.length = triangle.length) :
    (triangle.fullRows before.length).map (Scalar.dot · (before ++ ws)) = triangle.times ws := by
  induction triangle generalizing before ws with
  | nil => rfl
  | cons row rows ih =>
      obtain ⟨w, ws, rfl⟩ := List.exists_cons_of_length_eq_add_one h
      have hlength : ws.length = rows.length := by simpa using h
      have hrest := ih (before ++ [w]) hlength
      rw [List.length_append, List.length_singleton, List.append_assoc, List.singleton_append] at hrest
      rw [fullRows, List.map_cons, hrest, times, dot_zeros_append, dot_cons_cons]

theorem length_of_mem_fullRows {triangle : Triangle ℝ} (h : triangle.Shaped) (offset : ℕ) :
    ∀ row ∈ triangle.fullRows offset, row.length = offset + triangle.length := by
  induction triangle generalizing offset with
  | nil => exact fun row hrow => (List.not_mem_nil hrow).elim
  | cons first rest ih =>
      refine List.forall_mem_cons.2 ⟨?_, fun row hrow => ?_⟩
      · rw [List.length_append, List.length_replicate, List.length_cons, h.1, List.length_cons]
      · rw [ih h.2 (offset + 1) row hrow, List.length_cons]
        omega

/-- Before the diagonal, written-out rows have only zeros. -/
theorem eq_zero_of_fullRows {triangle : Triangle ℝ} {offset i j : ℕ} {row : List ℝ} {a : ℝ}
    (hrow : (triangle.fullRows offset)[i]? = some row) (hj : j < offset + i) (ha : row[j]? = some a) : a = 0 := by
  induction triangle generalizing offset i with
  | nil => cases hrow
  | cons first rest ih =>
      cases i with
      | zero =>
          obtain rfl := Option.some.inj hrow
          rw [List.getElem?_append_left (by simpa using hj)] at ha
          exact List.eq_of_mem_replicate (List.mem_of_getElem? ha)
      | succ i =>
          have hbefore : j < offset + 1 + i := by omega
          exact ih hrow hbefore

end Triangle

/-! ### Rows and vectors turned around -/

theorem vec_map_neg (n : ℕ) (v : List ℝ) : vec n (v.map fun c => -c) = -vec n v := by
  have h := vec_map_mul_right n v (fun c => c) (-1)
  simpa using h

/-- A row and its vector are both turned around or both left. -/
theorem upright_cases (row : ℝ × List ℝ) (v : List ℝ) :
    upright row v = (row, v) ∨ upright row v = ((-row.1, row.2.map fun c => -c), v.map fun c => -c) := by
  unfold upright
  split
  · exact .inr rfl
  · exact .inl rfl

section Upright

variable {n : ℕ} {triangle : Triangle ℝ} {vectors : List (List ℝ)}

theorem Triangle.Shaped.upright (h : triangle.Shaped) (hlength : vectors.length = triangle.length) :
    Triangle.Shaped ((List.zipWith upright triangle vectors).map Prod.fst) := by
  induction triangle generalizing vectors with
  | nil => trivial
  | cons row rows ih =>
      obtain ⟨v, vectors, rfl⟩ := List.exists_cons_of_length_eq_add_one hlength
      have hlength : vectors.length = rows.length := by simpa using hlength
      refine ⟨?_, ih h.2 hlength⟩
      rw [List.length_map, List.length_zipWith, hlength, Nat.min_self, ← h.1]
      rcases upright_cases row v with heq | heq
      · rw [heq]
      · rw [heq, List.length_map]

/-- The columns stay the same. -/
theorem columnsOver_upright (hlength : vectors.length = triangle.length) :
    Triangle.columnsOver ((List.zipWith upright triangle vectors).map Prod.fst)
        (((List.zipWith upright triangle vectors).map Prod.snd).map (vec n)) =
      triangle.columnsOver (vectors.map (vec n)) := by
  induction triangle generalizing vectors with
  | nil => rfl
  | cons row rows ih =>
      obtain ⟨v, vectors, rfl⟩ := List.exists_cons_of_length_eq_add_one hlength
      have hlength : vectors.length = rows.length := by simpa using hlength
      have hrest := ih hlength
      simp only [List.zipWith_cons_cons, List.map_cons, Triangle.columnsOver, hrest]
      rcases upright_cases row v with heq | heq
      · rw [heq]
      · simp only [heq, vec_map_neg, neg_smul_neg, List.zipWith_map_left]

theorem vec_upright (row : ℝ × List ℝ) (v : List ℝ) :
    vec n (upright row v).2 = vec n v ∨ vec n (upright row v).2 = -vec n v := by
  rcases upright_cases row v with heq | heq
  · rw [heq]
    exact .inl rfl
  · rw [heq, vec_map_neg]
    exact .inr rfl

theorem length_of_mem_upright (h : ∀ v ∈ vectors, v.length = n) (triangle : Triangle ℝ) :
    ∀ v ∈ (List.zipWith upright triangle vectors).map Prod.snd, v.length = n := by
  simp only [List.forall_mem_map]
  intro pair hpair
  obtain ⟨i, hi, rfl⟩ := List.mem_iff_getElem.1 hpair
  obtain ⟨hrow, hvector⟩ : i < triangle.length ∧ i < vectors.length := by
    rw [List.length_zipWith] at hi
    omega
  rw [List.getElem_zipWith]
  have hlength := h _ (List.getElem_mem hvector)
  rcases upright_cases triangle[i] vectors[i] with heq | heq
  · rw [heq, hlength]
  · rw [heq, List.length_map, hlength]

/-- What is orthogonal to the vectors stays so. -/
theorem dotProduct_upright {u : Fin n → ℝ} (h : ∀ q ∈ vectors.map (vec n), u ⬝ᵥ q = 0) (triangle : Triangle ℝ) :
    ∀ q ∈ ((List.zipWith upright triangle vectors).map Prod.snd).map (vec n), u ⬝ᵥ q = 0 := by
  simp only [List.forall_mem_map] at h ⊢
  intro pair hpair
  obtain ⟨i, hi, rfl⟩ := List.mem_iff_getElem.1 hpair
  obtain ⟨hrow, hvector⟩ : i < triangle.length ∧ i < vectors.length := by
    rw [List.length_zipWith] at hi
    omega
  rw [List.getElem_zipWith]
  have hzero := h _ (List.getElem_mem hvector)
  rcases vec_upright (n := n) triangle[i] vectors[i] with heq | heq
  · rw [heq, hzero]
  · rw [heq, dotProduct_neg, hzero, neg_zero]

/-- The vectors stay orthonormal. -/
theorem OrthonormalList.upright (h : OrthonormalList (vectors.map (vec n))) (triangle : Triangle ℝ) :
    OrthonormalList (((List.zipWith FlightFit.upright triangle vectors).map Prod.snd).map (vec n)) := by
  induction triangle generalizing vectors with
  | nil => exact ⟨fun v hv => (List.not_mem_nil hv).elim, .nil⟩
  | cons row rows ih =>
      cases vectors with
      | nil => exact ⟨fun v hv => (List.not_mem_nil hv).elim, .nil⟩
      | cons v vectors =>
          obtain ⟨hunit, hunits⟩ := List.forall_mem_cons.1 h.unit
          obtain ⟨hfirst, horthogonal⟩ := List.pairwise_cons.1 h.orthogonal
          obtain ⟨hrest, hpairs⟩ := ih ⟨hunits, horthogonal⟩
          have hothers := dotProduct_upright hfirst rows
          rw [List.zipWith_cons_cons, List.map_cons, List.map_cons]
          rcases vec_upright (n := n) row v with heq | heq
          · rw [heq]
            exact ⟨List.forall_mem_cons.2 ⟨hunit, hrest⟩, List.pairwise_cons.2 ⟨hothers, hpairs⟩⟩
          · rw [heq]
            refine ⟨List.forall_mem_cons.2 ⟨?_, hrest⟩, List.pairwise_cons.2 ⟨fun q hq => ?_, hpairs⟩⟩
            · rw [neg_dotProduct_neg, hunit]
            · rw [neg_dotProduct, hothers q hq, neg_zero]

/-- Columns have the same factors when these are turned around. -/
theorem Factors.upright {columns : List (Fin n → ℝ)} (h : Factors columns triangle (vectors.map (vec n))) :
    Factors columns ((List.zipWith FlightFit.upright triangle vectors).map Prod.fst)
      (((List.zipWith FlightFit.upright triangle vectors).map Prod.snd).map (vec n)) := by
  have hlength : vectors.length = triangle.length := by simpa using h.length
  refine ⟨h.shaped.upright hlength, ?_, by simp, h.orthonormal.upright triangle, ?_⟩
  · rw [List.length_map, List.length_zipWith, hlength, Nat.min_self, h.rows]
  · rw [columnsOver_upright hlength, h.product]

end Upright

namespace Matrix

/-- A matrix is its columns as vectors, together with their height. -/
theorem eq_of_vectors {a b : Matrix ℝ} (hheight : a.height = b.height)
    (h : a.columns.map (vec b.height) = b.columns.map (vec b.height)) : a = b := by
  have hcols : a.columns.length = b.columns.length := by simpa using congrArg List.length h
  refine eq_of_columns hheight (List.ext_getElem hcols fun i hi hi' => ?_)
  have hvector := congrArg (·[i]?) h
  simp only [List.getElem?_map, List.getElem?_eq_getElem hi, List.getElem?_eq_getElem hi', Option.map_some,
    Option.some.injEq] at hvector
  exact eq_of_vec ((a.length_of_mem_columns _ (List.getElem_mem hi)).trans hheight)
    (b.length_of_mem_columns _ (List.getElem_mem hi')) hvector

/-- A matrix whose columns are those of a triangle over the columns of another is the product of that with the
    triangle. -/
theorem mul_eq_of_factors {x q r : Matrix ℝ} {triangle : Triangle ℝ} (hheight : q.height = x.height)
    (hinner : q.cols = r.height) (hcols : r.cols = x.cols) (hr : r.rows = triangle.fullRows 0)
    (h : Factors x.vectors triangle (q.columns.map (vec x.height))) : q.mul r = x := by
  obtain ⟨height, cols, entries, filled⟩ := x
  obtain rfl : q.height = height := hheight
  have hrows : triangle.length = r.cols := h.rows.trans ((length_vectors _).trans hcols.symm)
  refine eq_of_vectors rfl (eq_of_forall_combination ?_ fun ws hws => ?_)
  · rw [List.length_map, List.length_map, length_columns, length_columns]
    exact hcols
  · have hws : ws.length = r.cols := by
      rw [hws, List.length_map, length_columns]
      rfl
    have happlied : r.applied ws = triangle.times ws := by
      have hfull := triangle.map_dot_fullRows [] (hws.trans hrows.symm)
      rw [applied, hr]
      exact hfull
    have hproduct := h.product
    rw [vectors] at hproduct
    rw [← hproduct, Triangle.combination_columnsOver h.shaped h.length, ← happlied]
    exact combination_mul hinner hws

end Matrix

/-- The factors of the library multiply to the matrix; the first has orthonormal columns, the second is upper
    triangular. -/
theorem factored_factorize {x : Matrix ℝ} (hx : x.cols ≤ x.height) : x.Factored (factorize x).1 (factorize x).2 := by
  obtain ⟨hqheight, hqcols, hrheight, hrcols⟩ := shape_of_factorize x
  have htall : x.columns.length ≤ x.height := by
    rw [x.length_columns]
    exact hx
  obtain ⟨hlengths, hfactors⟩ := reduce_factors x.length_of_mem_columns rfl htall
  have hupright := hfactors.upright
  have hmembers := length_of_mem_upright hlengths (reduce x.columns.length x.columns).1
  generalize hpairs : List.zipWith upright (reduce x.columns.length x.columns).1
    (basis x.height (reduce x.columns.length x.columns).2) = pairs at hupright hmembers
  have hfactorize : factorize x = (.ofColumns x.height (pairs.map Prod.snd),
      (Matrix.ofColumns x.cols (Triangle.fullRows 0 (pairs.map Prod.fst))).transpose) := by
    rw [← hpairs]
    rfl
  have hq : (factorize x).1.columns = pairs.map Prod.snd := by
    rw [hfactorize]
    exact Matrix.columns_ofColumns hmembers
  have hr : (factorize x).2.rows = Triangle.fullRows 0 (pairs.map Prod.fst) := by
    rw [hfactorize, Matrix.rows_transpose]
    apply Matrix.columns_ofColumns
    intro row hrow
    rw [Triangle.length_of_mem_fullRows hupright.shaped 0 row hrow, Nat.zero_add, hupright.rows, List.length_map,
      x.length_columns]
  have hvectors : (factorize x).1.columns.map (vec x.height) = (pairs.map Prod.snd).map (vec x.height) := by rw [hq]
  rw [← hvectors] at hupright
  refine ⟨hqcols.trans hrheight.symm, Nat.le_of_eq hqcols.symm, ?_, ?_, ?_⟩
  · exact Matrix.mul_eq_of_factors hqheight (hqcols.trans hrheight.symm) hrcols hr hupright
  · rw [← Matrix.orthonormalList_iff]
    exact hupright.orthonormal
  · intro i j hij a ha
    obtain ⟨row, hrow, hentry⟩ := Option.bind_eq_some_iff.1 ha
    rw [hr] at hrow
    exact Triangle.eq_zero_of_fullRows hrow (by omega) hentry

/-- Solving a square upper triangular system for sides gives a solution for each of them. -/
theorem solutions_of_backSubstituteAll {r : Matrix ℝ} (hupper : r.Upper) (hsquare : r.height = r.cols)
    {sides solutions : List (List ℝ)} (hsides : ∀ side ∈ sides, side.length = r.height)
    (h : backSubstituteAll (Triangle.ofRows 0 r.rows) sides = some solutions) :
    (sides ≠ [] → ∀ i, r.at? i i ≠ some 0) ∧ (∀ ws ∈ solutions, ws.length = r.cols) ∧
      solutions.map r.applied = sides := by
  induction sides generalizing solutions with
  | nil =>
      cases h
      exact ⟨fun hsome => absurd rfl hsome, fun ws hws => (List.not_mem_nil hws).elim, rfl⟩
  | cons side sides ih =>
      obtain ⟨first, hfirst, h⟩ := Option.bind_eq_some_iff.1 h
      obtain ⟨more, hmore, h⟩ := Option.bind_eq_some_iff.1 h
      cases h
      obtain ⟨hside, hsides⟩ := List.forall_mem_cons.1 hsides
      obtain ⟨hdiagonal, hlength, happlied⟩ := (hupper.backSubstitute_iff hsquare hside).1 hfirst
      obtain ⟨-, hlengths, hmaps⟩ := ih hsides hmore
      exact ⟨fun _ => hdiagonal, List.forall_mem_cons.2 ⟨hlength, hlengths⟩, by rw [List.map_cons, happlied, hmaps]⟩

/-- The routines of the library do what routines are for. -/
theorem Routines.own_exact : (own : Routines Option ℝ).Exact where
  factor x q r hx hfactor := by
    have hfactored := factored_factorize hx
    rwa [Option.some.inj hfactor] at hfactored
  solve r sides solution hsquare hupper hheight hsolved := by
    obtain ⟨columns, hcolumns, hsolution⟩ := Option.bind_eq_some_iff.1 (Option.some.inj hsolved)
    cases hsolution
    have hsides : ∀ side ∈ sides.columns, side.length = r.height :=
      fun side hside => (sides.length_of_mem_columns side hside).trans hheight
    obtain ⟨hdiagonal, hlengths, hmaps⟩ := solutions_of_backSubstituteAll hupper hsquare hsides hcolumns
    refine ⟨fun hcols => hdiagonal ?_, rfl, Matrix.eq_of_columns hheight.symm ?_⟩
    · rw [← List.length_pos_iff, sides.length_columns]
      exact Nat.pos_of_ne_zero hcols
    · rw [Matrix.columns_mul_applied, Matrix.columns_ofColumns hlengths, hmaps]

end FlightFit
