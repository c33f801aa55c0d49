import Mathlib
import FlightFit.Proofs.ExactVectors
import FlightFit.Proofs.FittedWeights

/-!
Module: FlightFit.Proofs.TriangularForm
Purpose: What the triangular form of a system is worth without rounding. The reflections map each column onto its
  first coordinate, change no inner product and are undone by themselves; so the vectors onto which they map the
  first unit vectors are orthonormal, and the columns are combinations of them with the coefficients in the
  triangle (`reduce_factors`). Substituting from the last row up solves exactly the triangular systems without a
  zero on the diagonal, and gives their one solution (`backSubstitute_eq_some_iff`).
Main exports: Triangle.times, backSubstitute_eq_some_iff, Triangle.columnsOver, Triangle.Shaped,
  combination_columnsOver, Reflection.mapping, Reflection.Sound, reflectionOf_sound, OrthonormalList, Factors,
  reduce_factors
-/

namespace FlightFit

/-! ### Triangular systems -/

namespace Triangle

/-- What a triangle makes of weights, one for each of its rows. -/
noncomputable def times : Triangle ℝ → List ℝ → List ℝ
  | (diagonal, right) :: rows, w :: ws => (diagonal * w + Scalar.dot right ws) :: times rows ws
  | _, _ => []

end Triangle

theorem foldr_sub_eq (terms : List ℝ) (start : ℝ) :
    terms.foldr (fun term left => left - term) start = start - terms.sum := by
  induction terms with
  | nil => simp
  | cons term terms ih =>
      rw [List.foldr_cons, ih, List.sum_cons]
      ring

theorem backSubstitute_cons (diagonal : ℝ) (right : List ℝ) (rows : Triangle ℝ) (known : ℝ) (side : List ℝ) :
    backSubstitute ((diagonal, right) :: rows) (known :: side) =
      (backSubstitute rows side).bind fun solution =>
        if diagonal = 0 then none else some ((known - Scalar.dot right solution) / diagonal :: solution) := by
  rw [backSubstitute]
  apply congrArg (Option.bind _)
  funext solution
  rw [dot_eq_sum, ← foldr_sub_eq]
  simp only [isZero_real_iff]
  rfl

/-- Substitution gives the solution of a triangular system without zeros on its diagonal, and nothing else. -/
theorem backSubstitute_eq_some_iff {triangle : Triangle ℝ} {side weights : List ℝ}
    (hside : side.length = triangle.length) :
    backSubstitute triangle side = some weights ↔
      (∀ row ∈ triangle, row.1 ≠ 0) ∧ weights.length = triangle.length ∧ triangle.times weights = side := by
  induction triangle generalizing side weights with
  | nil =>
      obtain rfl := List.length_eq_zero_iff.1 hside
      simp [backSubstitute, Triangle.times, eq_comm]
  | cons row rows ih =>
      obtain ⟨diagonal, right⟩ := row
      obtain ⟨known, side, rfl⟩ := List.exists_cons_of_length_eq_add_one hside
      have hside : side.length = rows.length := by simpa using hside
      rw [backSubstitute_cons, Option.bind_eq_some_iff]
      constructor
      · rintro ⟨solution, hsolution, hfirst⟩
        obtain ⟨hdiagonal, hlength, htimes⟩ := (ih hside).1 hsolution
        by_cases hzero : diagonal = 0
        · rw [if_pos hzero] at hfirst
          cases hfirst
        · rw [if_neg hzero] at hfirst
          cases hfirst
          refine ⟨List.forall_mem_cons.2 ⟨hzero, hdiagonal⟩, by simp [hlength], ?_⟩
          rw [Triangle.times, htimes, mul_div_cancel₀ _ hzero, sub_add_cancel]
      · rintro ⟨hdiagonal, hlength, htimes⟩
        obtain ⟨hzero, hdiagonal⟩ := List.forall_mem_cons.1 hdiagonal
        obtain ⟨w, ws, rfl⟩ := List.exists_cons_of_length_eq_add_one hlength
        obtain ⟨hfirst, hrest⟩ := List.cons.inj htimes
        refine ⟨ws, (ih hside).2 ⟨hdiagonal, by simpa using hlength, hrest⟩, ?_⟩
        rw [if_neg hzero, ← hfirst, add_sub_cancel_right, mul_div_cancel_left₀ _ hzero]

/-! ### Columns in triangular form -/

namespace Triangle

/-- Every row of a triangle has an entry to the right for each row below it. -/
def Shaped : Triangle ℝ → Prop
  | [] => True
  | (_, right) :: rows => right.length = rows.length ∧ Shaped rows

section Columns

variable {E F : Type} [AddCommGroup E] [Module ℝ E] [AddCommGroup F] [Module ℝ F]

/-- The columns of a triangle, with one vector for each of its rows. -/
def columnsOver : Triangle ℝ → List E → List E
  | (diagonal, right) :: rows, q :: qs =>
      diagonal • q :: List.zipWith (fun c v => c • q + v) right (columnsOver rows qs)
  | _, _ => []

theorem length_columnsOver {triangle : Triangle ℝ} {vectors : List E} (hshaped : triangle.Shaped)
    (hlength : vectors.length = triangle.length) : (triangle.columnsOver vectors).length = triangle.length := by
  induction triangle generalizing vectors with
  | nil => rfl
  | cons row rows ih =>
      obtain ⟨q, qs, rfl⟩ := List.exists_cons_of_length_eq_add_one hlength
      have hrest := ih hshaped.2 (by simpa using hlength)
      rw [columnsOver, List.length_cons, List.length_zipWith, hrest, hshaped.1, Nat.min_self, List.length_cons]

/-- A vector that is added to others a number of times comes as often in their combinations. -/
theorem combination_zipWith_smul_add (q : E) {cs : List ℝ} {vs : List E} (h : cs.length = vs.length) (ws : List ℝ) :
    combination ws (List.zipWith (fun c v => c • q + v) cs vs) = Scalar.dot cs ws • q + combination ws vs := by
  induction cs generalizing vs ws with
  | nil =>
      obtain rfl := List.length_eq_zero_iff.1 h.symm
      simp
  | cons c cs ih =>
      obtain ⟨v, vs, rfl⟩ := List.exists_cons_of_length_eq_add_one h.symm
      cases ws with
      | nil => simp
      | cons w ws =>
          have hrest := ih (by simpa using h) ws
          rw [List.zipWith_cons_cons, combination_cons_cons, hrest, dot_cons_cons, combination_cons_cons]
          module

/-- Combining the columns of a triangle is applying the triangle to the weights. -/
theorem combination_columnsOver {triangle : Triangle ℝ} {vectors : List E} (hshaped : triangle.Shaped)
    (hlength : vectors.length = triangle.length) (ws : List ℝ) :
    combination ws (triangle.columnsOver vectors) = combination (triangle.times ws) vectors := by
  induction triangle generalizing vectors ws with
  | nil => simp [columnsOver, times]
  | cons row rows ih =>
      obtain ⟨diagonal, right⟩ := row
      obtain ⟨q, qs, rfl⟩ := List.exists_cons_of_length_eq_add_one hlength
      have hlength : qs.length = rows.length := by simpa using hlength
      cases ws with
      | nil => simp [times]
      | cons w ws =>
          have hright : right.length = (columnsOver rows qs).length := by
            rw [length_columnsOver hshaped.2 hlength, hshaped.1]
          rw [columnsOver, combination_cons_cons, combination_zipWith_smul_add q hright, ih hshaped.2 hlength,
            times, combination_cons_cons]
          module

theorem map_columnsOver (L : E →ₗ[ℝ] F) (triangle : Triangle ℝ) (vectors : List E) :
    (triangle.columnsOver vectors).map L = triangle.columnsOver (vectors.map L) := by
  induction triangle generalizing vectors with
  | nil => rfl
  | cons row rows ih =>
      cases vectors with
      | nil => rfl
      | cons q qs =>
          have hrest := ih qs
          simp only [List.map_cons, columnsOver, ← hrest, List.map_zipWith, List.zipWith_map_right, map_add, map_smul]

end Columns

end Triangle

/-! ### Orthonormal vectors -/

section Orthonormal

variable {n m : ℕ}

/-- Vectors of unit length, each orthogonal to the others. -/
structure OrthonormalList (vectors : List (Fin n → ℝ)) : Prop where
  unit : ∀ v ∈ vectors, v ⬝ᵥ v = 1
  orthogonal : vectors.Pairwise fun v w => v ⬝ᵥ w = 0

/-- The coordinates of a combination of orthonormal vectors are its weights. -/
theorem OrthonormalList.coordinates_combination {vectors : List (Fin n → ℝ)} (h : OrthonormalList vectors)
    {ws : List ℝ} (hlength : ws.length = vectors.length) :
    vectors.map (fun q => q ⬝ᵥ combination ws vectors) = ws := by
  induction vectors generalizing ws with
  | nil => exact (List.length_eq_zero_iff.1 hlength).symm
  | cons q qs ih =>
      obtain ⟨w, ws, rfl⟩ := List.exists_cons_of_length_eq_add_one hlength
      obtain ⟨hunit, hunits⟩ := List.forall_mem_cons.1 h.unit
      obtain ⟨hfirst, horthogonal⟩ := List.pairwise_cons.1 h.orthogonal
      have hrest := ih ⟨hunits, horthogonal⟩ (by simpa using hlength)
      have hhead : q ⬝ᵥ combination (w :: ws) (q :: qs) = w := by
        rw [combination_cons_cons, dotProduct_add, dotProduct_smul, hunit,
          dotProduct_combination_of_forall ws hfirst, smul_eq_mul, mul_one, add_zero]
      have htail : ∀ v ∈ qs, v ⬝ᵥ combination (w :: ws) (q :: qs) = v ⬝ᵥ combination ws qs := by
        intro v hv
        rw [combination_cons_cons, dotProduct_add, dotProduct_smul, dotProduct_comm, hfirst v hv, smul_zero, zero_add]
      rw [List.map_cons, hhead, List.map_congr_left htail, hrest]

/-- What is left of a vector without its part along orthonormal vectors is orthogonal to them. -/
theorem OrthonormalList.dotProduct_remainder {vectors : List (Fin n → ℝ)} (h : OrthonormalList vectors)
    (y : Fin n → ℝ) :
    ∀ q ∈ vectors, (y - combination (vectors.map (· ⬝ᵥ y)) vectors) ⬝ᵥ q = 0 := by
  intro q hq
  have hcoordinates : vectors.map (fun q => q ⬝ᵥ combination (vectors.map (· ⬝ᵥ y)) vectors) =
      vectors.map (· ⬝ᵥ y) := h.coordinates_combination (by simp)
  rw [dotProduct_comm, dotProduct_sub, List.map_inj_left.1 hcoordinates q hq, sub_self]

/-- Linear maps that keep inner products keep vectors orthonormal. -/
theorem OrthonormalList.map {vectors : List (Fin n → ℝ)} (h : OrthonormalList vectors)
    (L : (Fin n → ℝ) →ₗ[ℝ] (Fin m → ℝ)) (hL : ∀ v w, L v ⬝ᵥ L w = v ⬝ᵥ w) : OrthonormalList (vectors.map L) where
  unit := by
    intro v hv
    obtain ⟨q, hq, rfl⟩ := List.mem_map.1 hv
    rw [hL, h.unit q hq]
  orthogonal := by
    apply List.pairwise_map.2
    simpa only [hL] using h.orthogonal

end Orthonormal

/-! ### Reflections -/

section Mirror

variable {n : ℕ} {u : Fin n → ℝ}

/-- The reflection in the plane through zero with a given unit normal. -/
noncomputable def mirror (u : Fin n → ℝ) : (Fin n → ℝ) →ₗ[ℝ] (Fin n → ℝ) :=
  Module.preReflection u (2 • dotProductBilin ℝ ℝ u)

theorem mirror_apply (u v : Fin n → ℝ) : mirror u v = v - (2 * (u ⬝ᵥ v)) • u := by
  simp [mirror, Module.preReflection_apply]

theorem mirror_mirror (hu : u ⬝ᵥ u = 1) (v : Fin n → ℝ) : mirror u (mirror u v) = v :=
  Module.involutive_preReflection (by simp [hu]) v

theorem mirror_dotProduct_mirror (hu : u ⬝ᵥ u = 1) (v w : Fin n → ℝ) : mirror u v ⬝ᵥ mirror u w = v ⬝ᵥ w := by
  simp only [mirror_apply, sub_dotProduct, dotProduct_sub, smul_dotProduct, dotProduct_smul, smul_eq_mul, hu,
    dotProduct_comm v u]
  ring

/-- The reflection along `w` takes `w` away from a vector whose part along `w` is half of it. -/
theorem mirror_unit {factor : ℝ} {w c : Fin n → ℝ} (hpos : 0 < factor) (hw : w ⬝ᵥ w = factor)
    (hc : w ⬝ᵥ c * 2 = factor) :
    ((√factor)⁻¹ • w) ⬝ᵥ ((√factor)⁻¹ • w) = 1 ∧ mirror ((√factor)⁻¹ • w) c = c - w := by
  have hroot : (√factor)⁻¹ * (√factor)⁻¹ * factor = 1 := by
    rw [← mul_inv, Real.mul_self_sqrt hpos.le, inv_mul_cancel₀ hpos.ne']
  constructor
  · rw [smul_dotProduct, dotProduct_smul, hw, smul_eq_mul, smul_eq_mul, ← mul_assoc, hroot]
  · have hscale : 2 * ((√factor)⁻¹ * (w ⬝ᵥ c)) * (√factor)⁻¹ = 1 := by
      rw [← hroot, ← hc]
      ring
    rw [mirror_apply, smul_dotProduct, smul_eq_mul, smul_smul, hscale, one_smul]

end Mirror

namespace Reflection

variable {n : ℕ} {r : Reflection ℝ}

/-- The linear map of a reflection. -/
noncomputable def mapping (n : ℕ) (r : Reflection ℝ) : (Fin n → ℝ) →ₗ[ℝ] (Fin n → ℝ) :=
  match r.axis with
  | none => LinearMap.id
  | some axis => mirror (vec n axis)

/-- The axis, if there is one, is a unit vector with `n` coordinates. -/
def Sound (n : ℕ) (r : Reflection ℝ) : Prop :=
  ∀ axis, r.axis = some axis → axis.length = n ∧ vec n axis ⬝ᵥ vec n axis = 1

theorem mapping_mapping (hr : r.Sound n) (v : Fin n → ℝ) : r.mapping n (r.mapping n v) = v := by
  unfold mapping
  cases haxis : r.axis with
  | none => rfl
  | some axis => exact mirror_mirror (hr axis haxis).2 v

theorem mapping_dotProduct_mapping (hr : r.Sound n) (v w : Fin n → ℝ) :
    r.mapping n v ⬝ᵥ r.mapping n w = v ⬝ᵥ w := by
  unfold mapping
  cases haxis : r.axis with
  | none => rfl
  | some axis => exact mirror_dotProduct_mirror (hr axis haxis).2 v w

theorem length_apply (hr : r.Sound n) {v : List ℝ} (hv : v.length = n) : (r.apply v).length = n := by
  unfold apply
  cases haxis : r.axis with
  | none => exact hv
  | some axis =>
      dsimp only
      rw [List.length_zipWith, hv, (hr axis haxis).1, Nat.min_self]

theorem vec_apply (hr : r.Sound n) {v : List ℝ} (hv : v.length = n) : vec n (r.apply v) = r.mapping n (vec n v) := by
  unfold apply mapping
  cases haxis : r.axis with
  | none => rfl
  | some axis =>
      have hlength := (hr axis haxis).1
      dsimp only
      rw [mirror_apply, ← dot_eq_dotProduct hlength, vec_zipWith _ hv hlength]
      funext i
      change vec n v i - ((2 : ℕ) : ℝ) * Scalar.dot axis v * vec n axis i = _
      simp

section Columns

variable {m : ℕ} {columns : List (List ℝ)}

/-- The first coordinates of reflected columns. -/
theorem map_headD_apply (hr : r.Sound (m + 1)) (hcolumns : ∀ column ∈ columns, column.length = m + 1) :
    (columns.map r.apply).map (fun column => column.headD 0) =
      (columns.map (vec (m + 1))).map fun v => r.mapping (m + 1) v 0 := by
  rw [List.map_map, List.map_map]
  apply List.map_congr_left
  intro column hcolumn
  rw [Function.comp_apply, Function.comp_apply, ← vec_apply hr (hcolumns column hcolumn), vec_zero]

/-- What reflected columns are below their first coordinates. -/
theorem map_tail_apply (hr : r.Sound (m + 1)) (hcolumns : ∀ column ∈ columns, column.length = m + 1) :
    ((columns.map r.apply).map List.tail).map (vec m) =
      (columns.map (vec (m + 1))).map fun v => Matrix.vecTail (r.mapping (m + 1) v) := by
  rw [List.map_map, List.map_map, List.map_map]
  apply List.map_congr_left
  intro column hcolumn
  rw [Function.comp_apply, Function.comp_apply, Function.comp_apply, ← vec_apply hr (hcolumns column hcolumn),
    vecTail_vec]

theorem length_of_mem_tail_apply (hr : r.Sound (m + 1)) (hcolumns : ∀ column ∈ columns, column.length = m + 1) :
    ∀ column ∈ (columns.map r.apply).map List.tail, column.length = m := by
  simp only [List.map_map, List.forall_mem_map, Function.comp_apply, List.length_tail]
  intro column hcolumn
  rw [length_apply hr (hcolumns column hcolumn), Nat.add_sub_cancel]

end Columns

end Reflection

/-! ### The reflection for a column -/

section ReflectionOf

variable {m : ℕ}

theorem vec_scaleDown (n : ℕ) (d : ℝ) (v : List ℝ) : vec n (scaleDown d v) = d⁻¹ • vec n v := by
  have hmap : scaleDown d v = v.map fun b => b * d⁻¹ := List.map_congr_left fun b _ => div_eq_mul_inv b d
  rw [hmap, vec_map_mul_right, List.map_id']

/-- Bringing a vector of unit length to unit length again does nothing. -/
theorem scaleDown_of_unit {n : ℕ} {axis : List ℝ} (hlength : axis.length = n)
    (hunit : vec n axis ⬝ᵥ vec n axis = 1) : scaleDown √(Scalar.dot axis axis) axis = axis := by
  apply eq_of_vec (n := n) (by rw [scaleDown, List.length_map, hlength]) hlength
  rw [vec_scaleDown, dot_eq_dotProduct hlength, hunit, Real.sqrt_one, inv_one, one_smul]

/-- The length of a column, with the sign of its first coordinate. -/
noncomputable def signedNorm (head : ℝ) (tail : List ℝ) : ℝ :=
  if Scalar.less head 0 then -√(Scalar.dot (head :: tail) (head :: tail))
  else √(Scalar.dot (head :: tail) (head :: tail))

theorem signedNorm_mul_self (head : ℝ) (tail : List ℝ) :
    signedNorm head tail * signedNorm head tail = Scalar.dot (head :: tail) (head :: tail) := by
  have hroot := Real.mul_self_sqrt (dot_self_nonneg (head :: tail))
  unfold signedNorm
  split
  · rw [neg_mul_neg, hroot]
  · exact hroot

/-- The signed length does not point away from the first coordinate. -/
theorem mul_signedNorm (head : ℝ) (tail : List ℝ) :
    head * signedNorm head tail = Scalar.abs head * √(Scalar.dot (head :: tail) (head :: tail)) := by
  unfold signedNorm Scalar.abs
  split
  · exact (neg_mul_comm _ _).symm
  · rfl

theorem abs_nonneg_real (a : ℝ) : 0 ≤ Scalar.abs a := by
  unfold Scalar.abs
  split
  · next h => exact neg_nonneg.2 (less_real_iff.1 h).le
  · next h => exact not_lt.1 (less_real_iff.not.1 h)

theorem mul_signedNorm_nonneg (head : ℝ) (tail : List ℝ) : 0 ≤ head * signedNorm head tail := by
  rw [mul_signedNorm]
  exact mul_nonneg (abs_nonneg_real head) (Real.sqrt_nonneg _)

/-- The reflection for a column, in terms of its signed length. -/
theorem reflectionOf_cons (head : ℝ) (tail : List ℝ) {s factor : ℝ} (hs : s = signedNorm head tail)
    (hfactor : factor = (s * s + head * s) * 2) {axis : List ℝ}
    (haxis : axis = scaleDown √factor ((head + s) :: tail)) :
    reflectionOf (head :: tail) =
      if factor = 0 then ⟨none, s⟩ else ⟨some (scaleDown √(Scalar.dot axis axis) axis), -s⟩ := by
  have htwice : factor = (Scalar.dot (head :: tail) (head :: tail) +
      Scalar.abs head * √(Scalar.dot (head :: tail) (head :: tail))) * ((2 : ℕ) : ℝ) := by
    rw [hfactor, hs, mul_signedNorm, signedNorm_mul_self, Nat.cast_ofNat]
  have hform : reflectionOf (head :: tail) = if Scalar.isZero factor then ⟨none, s⟩
      else ⟨some (scaleDown √(Scalar.dot axis axis) axis), -s⟩ := by
    rw [haxis, htwice, hs]
    rfl
  simp only [hform, isZero_real_iff]

/-- The reflection for a column maps it onto its first coordinate. -/
theorem reflectionOf_sound {column : List ℝ} (h : column.length = m + 1) :
    (reflectionOf column).Sound (m + 1) ∧
      (reflectionOf column).mapping (m + 1) (vec (m + 1) column) =
        Matrix.vecCons (reflectionOf column).image 0 := by
  obtain ⟨head, tail, rfl⟩ := List.exists_cons_of_length_eq_add_one h
  have htail : tail.length = m := by simpa using h
  set s := signedNorm head tail with hs
  set factor := (s * s + head * s) * 2 with hfactor
  set axis := scaleDown √factor ((head + s) :: tail) with haxis
  have hsquare : s * s = head * head + vec m tail ⬝ᵥ vec m tail := by
    rw [hs, signedNorm_mul_self, dot_cons_cons, dot_eq_dotProduct htail]
  have hsign : 0 ≤ head * s := mul_signedNorm_nonneg head tail
  rw [reflectionOf_cons head tail hs hfactor haxis]
  by_cases hzero : factor = 0
  · -- neither term of the factor is negative, so the length is zero
    have hlength : s = 0 := by nlinarith
    have hcolumn : vec (m + 1) (head :: tail) = 0 := by
      rw [← dotProduct_self_eq_zero, ← dot_eq_dotProduct h, ← signedNorm_mul_self, ← hs, hlength, mul_zero]
    rw [if_pos hzero, hcolumn, hlength]
    refine ⟨by rintro axis ⟨⟩, ?_⟩
    rw [map_zero, Matrix.cons_zero_zero]
  · have hpos : 0 < factor := lt_of_le_of_ne (by nlinarith) (Ne.symm hzero)
    obtain ⟨hunit, hmirror⟩ := mirror_unit (w := Matrix.vecCons (head + s) (vec m tail))
      (c := Matrix.vecCons head (vec m tail)) hpos (by simp; linarith) (by simp; linarith)
    have hvec : vec (m + 1) axis = (√factor)⁻¹ • Matrix.vecCons (head + s) (vec m tail) := by
      rw [haxis, vec_scaleDown, vec_cons]
    have hlength : axis.length = m + 1 := by rw [haxis, scaleDown, List.length_map, List.length_cons, htail]
    rw [← hvec] at hunit hmirror
    rw [if_neg hzero, scaleDown_of_unit hlength hunit]
    constructor
    · rintro _ ⟨⟩
      exact ⟨hlength, hunit⟩
    · have hmapping : Reflection.mapping (m + 1) ⟨some axis, -s⟩ = mirror (vec (m + 1) axis) := rfl
      rw [hmapping, vec_cons, hmirror]
      simp

end ReflectionOf

/-! ### The triangular form of columns -/

/-- Columns are those of a triangle over orthonormal vectors, one for each column. -/
structure Factors {n : ℕ} (columns : List (Fin n → ℝ)) (triangle : Triangle ℝ) (vectors : List (Fin n → ℝ)) :
    Prop where
  shaped : triangle.Shaped
  rows : triangle.length = columns.length
  length : vectors.length = triangle.length
  orthonormal : OrthonormalList vectors
  product : triangle.columnsOver vectors = columns

section Step

variable {m : ℕ}

/-- A vector with a zero in front. -/
def padded (m : ℕ) : (Fin m → ℝ) →ₗ[ℝ] (Fin (m + 1) → ℝ) where
  toFun := Matrix.vecCons 0
  map_add' := by simp
  map_smul' := by simp

theorem padded_apply (v : Fin m → ℝ) : padded m v = Matrix.vecCons 0 v := rfl

theorem smul_add_padded (w : Fin (m + 1) → ℝ) :
    w 0 • Matrix.vecCons 1 0 + padded m (Matrix.vecTail w) = w := by
  rw [padded_apply]
  funext i
  cases i using Fin.cases <;> simp [Matrix.vecTail]

/-- Orthonormal vectors stay so with the first unit vector in front. -/
theorem OrthonormalList.cons_padded {vectors : List (Fin m → ℝ)} (h : OrthonormalList vectors) :
    OrthonormalList (Matrix.vecCons 1 0 :: vectors.map (padded m)) := by
  have hpadded := h.map (padded m) (by simp [padded_apply])
  constructor
  · exact List.forall_mem_cons.2 ⟨by simp, hpadded.unit⟩
  · refine List.pairwise_cons.2 ⟨?_, hpadded.orthogonal⟩
    intro v hv
    obtain ⟨q, -, rfl⟩ := List.mem_map.1 hv
    simp [padded_apply]

/-- One step of the reduction. A map that undoes itself, keeps inner products and takes the first column to its
    first coordinate carries the triangular form of what the other columns leave below the first row over to all
    of them. -/
theorem Factors.cons {first : Fin (m + 1) → ℝ} {others : List (Fin (m + 1) → ℝ)} {triangle : Triangle ℝ}
    {vectors : List (Fin m → ℝ)} {image : ℝ} (L : (Fin (m + 1) → ℝ) →ₗ[ℝ] (Fin (m + 1) → ℝ))
    (hinvolution : ∀ v, L (L v) = v) (hproduct : ∀ v w, L v ⬝ᵥ L w = v ⬝ᵥ w)
    (hfirst : L first = Matrix.vecCons image 0)
    (h : Factors (others.map fun v => Matrix.vecTail (L v)) triangle vectors) :
    Factors (first :: others) ((image, others.map fun v => L v 0) :: triangle)
      ((Matrix.vecCons 1 0 :: vectors.map (padded m)).map L) where
  shaped := ⟨by rw [h.rows, List.length_map, List.length_map], h.shaped⟩
  rows := by rw [List.length_cons, h.rows, List.length_map, List.length_cons]
  length := by simp [h.length]
  orthonormal := h.orthonormal.cons_padded.map L hproduct
  product := by
    have hhead : image • L (Matrix.vecCons 1 0) = first := by
      rw [← map_smul, ← hinvolution first, hfirst]
      simp
    have hothers : ∀ v ∈ others, L v 0 • L (Matrix.vecCons 1 0) + L (padded m (Matrix.vecTail (L v))) = v := by
      intro v _
      rw [← map_smul, ← map_add, smul_add_padded, hinvolution]
    rw [List.map_cons, Triangle.columnsOver, hhead, ← Triangle.map_columnsOver, ← Triangle.map_columnsOver, h.product,
      List.map_map, List.map_map, List.zipWith_map, List.zipWith_self]
    exact congrArg (first :: ·) ((List.map_congr_left hothers).trans (List.map_id' others))

end Step

/-- A reflection in front maps the first unit vector and the vectors made so far, with a zero in front. -/
theorem basis_cons {m : ℕ} {r : Reflection ℝ} (hr : r.Sound (m + 1)) {reflections : List (Reflection ℝ)}
    (h : ∀ v ∈ basis m reflections, v.length = m) :
    (∀ v ∈ basis (m + 1) (r :: reflections), v.length = m + 1) ∧
      (basis (m + 1) (r :: reflections)).map (vec (m + 1)) =
        (Matrix.vecCons 1 0 :: ((basis m reflections).map (vec m)).map (padded m)).map (r.mapping (m + 1)) := by
  have hbasis : basis (m + 1) (r :: reflections) =
      ((1 :: List.replicate m 0) :: (basis m reflections).map fun v => 0 :: v).map r.apply := rfl
  have hlengths : ∀ v ∈ (1 :: List.replicate m 0) :: (basis m reflections).map fun v => 0 :: v,
      v.length = m + 1 := by
    refine List.forall_mem_cons.2 ⟨by simp, List.forall_mem_map.2 ?_⟩
    intro v hv
    rw [List.length_cons, h v hv]
  have hvectors : ((1 :: List.replicate m 0) :: (basis m reflections).map fun v => 0 :: v).map (vec (m + 1)) =
      Matrix.vecCons 1 0 :: ((basis m reflections).map (vec m)).map (padded m) := by
    simp only [List.map_cons, List.map_map, Function.comp_def, vec_cons, vec_replicate_zero, padded_apply]
  rw [hbasis]
  constructor
  · intro v hv
    obtain ⟨u, hu, rfl⟩ := List.mem_map.1 hv
    exact Reflection.length_apply hr (hlengths u hu)
  · rw [← hvectors, List.map_map, List.map_map]
    exact List.map_congr_left fun v hv => Reflection.vec_apply hr (hlengths v hv)

/-- The reduction brings columns into triangular form, over the vectors that its reflections make. -/
theorem reduce_factors {n k : ℕ} {columns : List (List ℝ)} (hcolumns : ∀ column ∈ columns, column.length = n)
    (hk : columns.length = k) (hn : k ≤ n) :
    (∀ v ∈ basis n (reduce k columns).2, v.length = n) ∧
      Factors (columns.map (vec n)) (reduce k columns).1 ((basis n (reduce k columns).2).map (vec n)) := by
  induction k generalizing n columns with
  | zero =>
      obtain rfl := List.length_eq_zero_iff.1 hk
      refine ⟨fun v hv => (List.not_mem_nil hv).elim, ⟨trivial, rfl, rfl, ⟨?_, .nil⟩, rfl⟩⟩
      exact fun v hv => (List.not_mem_nil hv).elim
  | succ k ih =>
      obtain ⟨column, columns, rfl⟩ := List.exists_cons_of_length_eq_add_one hk
      obtain ⟨m, rfl⟩ : ∃ m, n = m + 1 := Nat.exists_eq_add_one.2 (by omega)
      obtain ⟨hcolumn, hcolumns⟩ := List.forall_mem_cons.1 hcolumns
      obtain ⟨hsound, himage⟩ := reflectionOf_sound hcolumn
      rw [reduce_cons]
      generalize reflectionOf column = r at hsound himage
      -- what the reflection leaves below the first row is a smaller system
      have hbelow := Reflection.length_of_mem_tail_apply hsound hcolumns
      obtain ⟨hlengths, hfactors⟩ := ih hbelow (by simpa using hk) (by omega)
      obtain ⟨hlengths, hvectors⟩ := basis_cons hsound hlengths
      refine ⟨hlengths, ?_⟩
      rw [Reflection.map_tail_apply hsound hcolumns] at hfactors
      dsimp only
      rw [hvectors, Reflection.map_headD_apply hsound hcolumns, List.map_cons]
      exact hfactors.cons (r.mapping (m + 1)) (Reflection.mapping_mapping hsound)
        (Reflection.mapping_dotProduct_mapping hsound) himage

end FlightFit
