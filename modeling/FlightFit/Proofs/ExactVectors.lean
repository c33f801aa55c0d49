import Mathlib
import FlightFit.Proofs.MatrixColumns

/-!
Module: FlightFit.Proofs.ExactVectors
Purpose: The numeric routines without rounding. They are written for any scalars; here the scalars are the real
  numbers, so that what the routines do to lists can be compared with what linear algebra says of vectors. A list
  stands for the vector `vec n` of its first `n` entries, inner products of lists for those of vectors, and a
  matrix applied to weights for the combination of its columns with these weights.
Main exports: vec, dot_eq_dotProduct, combination, dotProduct_combination_of_forall, dot_map_dot,
  vec_map_dot_rows, vec_zipWith
-/

namespace FlightFit

/-- The real numbers as scalars: nothing is rounded, and nothing is infinite or undefined. -/
noncomputable instance : RootedScalar ℝ where
  ofNat := fun n => (n : ℝ)
  less := fun a b => decide (a < b)
  same := fun a b => decide (a = b)
  finite := fun _ => true
  root := Real.sqrt

theorem less_real_iff {a b : ℝ} : Scalar.less a b = true ↔ a < b := decide_eq_true_iff

theorem isZero_real_iff {a : ℝ} : Scalar.isZero a = true ↔ a = 0 := decide_eq_true_iff

/-! ### Inner products of lists -/

theorem dotFrom_eq_sum (total : ℝ) (as bs : List ℝ) :
    Scalar.dotFrom total as bs = total + (List.zipWith (· * ·) as bs).sum := by
  induction as generalizing total bs with
  | nil => simp [Scalar.dotFrom]
  | cons a as ih =>
      cases bs with
      | nil => simp [Scalar.dotFrom]
      | cons b bs =>
          rw [Scalar.dotFrom, ih, List.zipWith_cons_cons, List.sum_cons]
          exact add_assoc total (a * b) _

theorem dot_eq_sum (as bs : List ℝ) : Scalar.dot as bs = (List.zipWith (· * ·) as bs).sum := by
  have h := dotFrom_eq_sum 0 as bs
  rw [zero_add] at h
  exact h

@[simp] theorem dot_nil_left (bs : List ℝ) : Scalar.dot [] bs = 0 := rfl

@[simp] theorem dot_nil_right (as : List ℝ) : Scalar.dot as [] = 0 := by
  rw [dot_eq_sum, List.zipWith_nil_right, List.sum_nil]

@[simp] theorem dot_cons_cons (a b : ℝ) (as bs : List ℝ) :
    Scalar.dot (a :: as) (b :: bs) = a * b + Scalar.dot as bs := by
  simp only [dot_eq_sum, List.zipWith_cons_cons, List.sum_cons]

/-- A first factor on the right meets the first entry on the left, if there is one. -/
theorem dot_cons_right (as : List ℝ) (b : ℝ) (bs : List ℝ) :
    Scalar.dot as (b :: bs) = as.headD 0 * b + Scalar.dot as.tail bs := by
  cases as with
  | nil => simp
  | cons a as => simp

/-! ### Lists as vectors -/

/-- The vector of the first entries of a list, with zeros where the list has ended. -/
def vec (n : ℕ) (l : List ℝ) : Fin n → ℝ := fun i => l.getD i 0

@[simp] theorem vec_nil (n : ℕ) : vec n [] = 0 := rfl

theorem vec_succ (n : ℕ) (l : List ℝ) : vec (n + 1) l = Matrix.vecCons (l.headD 0) (vec n l.tail) := by
  funext i
  cases l with
  | nil => cases i using Fin.cases <;> simp [vec]
  | cons a l => cases i using Fin.cases <;> simp [vec]

@[simp] theorem vec_cons (n : ℕ) (a : ℝ) (l : List ℝ) : vec (n + 1) (a :: l) = Matrix.vecCons a (vec n l) :=
  vec_succ n (a :: l)

theorem vec_zero (n : ℕ) (l : List ℝ) : vec (n + 1) l 0 = l.headD 0 := by
  rw [vec_succ, Matrix.cons_val_zero]

theorem vecTail_vec (n : ℕ) (l : List ℝ) : Matrix.vecTail (vec (n + 1) l) = vec n l.tail := by
  rw [vec_succ, Matrix.tail_cons]

@[simp] theorem vec_replicate_zero (n k : ℕ) : vec n (List.replicate k 0) = 0 := by
  induction k generalizing n with
  | zero => simp
  | succ k ih =>
      cases n with
      | zero => exact Subsingleton.elim _ _
      | succ n => simp [List.replicate_succ, ih]

theorem vec_map_add {β : Type} (n : ℕ) (l : List β) (f g : β → ℝ) :
    vec n (l.map fun b => f b + g b) = vec n (l.map f) + vec n (l.map g) := by
  induction l generalizing n with
  | nil => simp
  | cons b l ih =>
      cases n with
      | zero => exact Subsingleton.elim _ _
      | succ n => simp [ih]

theorem vec_map_mul_right {β : Type} (n : ℕ) (l : List β) (f : β → ℝ) (c : ℝ) :
    vec n (l.map fun b => f b * c) = c • vec n (l.map f) := by
  induction l generalizing n with
  | nil => simp
  | cons b l ih =>
      cases n with
      | zero => exact Subsingleton.elim _ _
      | succ n =>
          rw [List.map_cons, List.map_cons, vec_cons, vec_cons, ih, Matrix.smul_cons, smul_eq_mul, mul_comm]

theorem vec_zipWith {n : ℕ} (f : ℝ → ℝ → ℝ) {as bs : List ℝ} (ha : as.length = n) (hb : bs.length = n) :
    vec n (List.zipWith f as bs) = fun i => f (vec n as i) (vec n bs i) := by
  funext i
  have has : (i : ℕ) < as.length := ha ▸ i.isLt
  have hbs : (i : ℕ) < bs.length := hb ▸ i.isLt
  simp [vec, has, hbs]

/-- A list of the right length is determined by its vector. -/
theorem eq_of_vec {n : ℕ} {as bs : List ℝ} (ha : as.length = n) (hb : bs.length = n)
    (h : vec n as = vec n bs) : as = bs := by
  apply List.ext_getElem (ha.trans hb.symm)
  intro i hi hi'
  have hentry := congrFun h ⟨i, ha ▸ hi⟩
  simpa [vec, hi, hi'] using hentry

theorem dot_eq_dotProduct {n : ℕ} {as : List ℝ} (ha : as.length = n) (bs : List ℝ) :
    Scalar.dot as bs = vec n as ⬝ᵥ vec n bs := by
  induction as generalizing n bs with
  | nil => simp
  | cons a as ih =>
      subst ha
      cases bs with
      | nil => simp
      | cons b bs => simp [ih rfl]

theorem dotProduct_self_nonneg {n : ℕ} (v : Fin n → ℝ) : 0 ≤ v ⬝ᵥ v :=
  Finset.sum_nonneg fun _ _ => mul_self_nonneg _

theorem dot_self_nonneg (v : List ℝ) : 0 ≤ Scalar.dot v v := by
  rw [dot_eq_dotProduct rfl]
  exact dotProduct_self_nonneg _

/-! ### Combinations -/

section Combination

variable {E : Type} [AddCommGroup E] [Module ℝ E]

/-- The linear combination of vectors with given weights, as far as there are both. -/
def combination : List ℝ → List E → E
  | w :: ws, v :: vs => w • v + combination ws vs
  | _, _ => 0

@[simp] theorem combination_nil_left (vs : List E) : combination [] vs = 0 := rfl

@[simp] theorem combination_nil_right (ws : List ℝ) : combination ws ([] : List E) = 0 := by
  cases ws <;> rfl

@[simp] theorem combination_cons_cons (w : ℝ) (ws : List ℝ) (v : E) (vs : List E) :
    combination (w :: ws) (v :: vs) = w • v + combination ws vs := rfl

end Combination

section Product

variable {n : ℕ} {r : Fin n → ℝ} {vs : List (Fin n → ℝ)}

/-- What is orthogonal to all vectors is orthogonal to their combinations. -/
theorem dotProduct_combination_of_forall (ws : List ℝ) (h : ∀ v ∈ vs, r ⬝ᵥ v = 0) :
    r ⬝ᵥ combination ws vs = 0 := by
  induction vs generalizing ws with
  | nil => simp
  | cons v vs ih =>
      obtain ⟨hv, hvs⟩ := List.forall_mem_cons.1 h
      cases ws with
      | nil => simp
      | cons w ws => rw [combination_cons_cons, dotProduct_add, dotProduct_smul, hv, ih ws hvs, smul_zero, add_zero]

/-- The inner products of a list with others, combined, are the inner product with the combination. -/
theorem dot_map_dot {as : List ℝ} (ha : as.length = n) (columns : List (List ℝ)) (ws : List ℝ) :
    Scalar.dot (columns.map (Scalar.dot as)) ws = vec n as ⬝ᵥ combination ws (columns.map (vec n)) := by
  induction columns generalizing ws with
  | nil => simp
  | cons column columns ih =>
      cases ws with
      | nil => simp
      | cons w ws =>
          simp only [List.map_cons, dot_cons_cons, combination_cons_cons, dotProduct_add, dotProduct_smul, ih,
            dot_eq_dotProduct ha, smul_eq_mul]
          rw [mul_comm]

/-- Rows applied to weights give the combination of the columns. -/
theorem vec_map_dot_rows (n : ℕ) (rows : List (List ℝ)) (ws : List ℝ) :
    vec n (rows.map (Scalar.dot · ws)) = combination ws ((Matrix.across 0 ws.length rows).map (vec n)) := by
  induction ws generalizing rows with
  | nil =>
      simp only [dot_nil_right, List.map_const', combination_nil_left, vec_replicate_zero]
  | cons w ws ih =>
      have hrow : ∀ row : List ℝ, Scalar.dot row (w :: ws) = row.headD 0 * w + Scalar.dot row.tail ws :=
        fun row => dot_cons_right row w ws
      have htails := ih (rows.map List.tail)
      simp only [hrow, vec_map_add, vec_map_mul_right, List.length_cons, Matrix.across, List.map_cons,
        combination_cons_cons, ← htails, List.map_map, Function.comp_def]

end Product

end FlightFit
