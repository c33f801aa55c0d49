import Mathlib
import FlightFit.Proofs.ExactRoutines
import FlightFit.Proofs.SampleErrors

/-!
Module: FlightFit.Proofs.LeastSquaresOptimum
Purpose: The fitted weights are the least-squares weights, whatever routines they come from. Read without rounding, what
  they leave of a target is orthogonal to every column of the system (`FitsTarget`), and no two lists of weights combine
  the columns to the same vector. From this follow the normal equations, that no other weights have a smaller squared
  error for any target, and that targets which are combinations of the columns are met by the weights they were made
  with.
Main exports: FitsTarget, Matrix.Factored.fitsTarget, FitsTarget.squaredError_le, FitsTarget.eq_of_eq_combination,
  fitsTargets_of_fit, FitsTargets.normal_equations, squaredResiduals, Regressor.error_eq_squaredResiduals,
  fit_is_least_squares
-/

namespace FlightFit

/-! ### One target -/

section Target

variable {n : ℕ} {columns : List (Fin n → ℝ)} {target : Fin n → ℝ} {weights : List ℝ}

/-- The squared length of what the combination of columns leaves of a target. -/
noncomputable def squaredError (columns : List (Fin n → ℝ)) (target : Fin n → ℝ) (weights : List ℝ) : ℝ :=
  (target - combination weights columns) ⬝ᵥ (target - combination weights columns)

/-- Weights leave of a target what is orthogonal to the columns, and no others combine the columns alike. -/
structure FitsTarget (columns : List (Fin n → ℝ)) (target : Fin n → ℝ) (weights : List ℝ) : Prop where
  length : weights.length = columns.length
  normal : ∀ column ∈ columns, (target - combination weights columns) ⬝ᵥ column = 0
  unique : ∀ others, others.length = columns.length →
    combination others columns = combination weights columns → others = weights

namespace FitsTarget

variable (h : FitsTarget columns target weights)
include h

theorem dotProduct_combination (ws : List ℝ) :
    (target - combination weights columns) ⬝ᵥ combination ws columns = 0 :=
  dotProduct_combination_of_forall ws h.normal

/-- No other weights have a smaller squared error. -/
theorem squaredError_le (others : List ℝ) :
    squaredError columns target weights ≤ squaredError columns target others := by
  set gap := combination weights columns - combination others columns with hgap
  have hsplit : target - combination others columns = target - combination weights columns + gap := by
    rw [hgap]
    abel
  have horthogonal : (target - combination weights columns) ⬝ᵥ gap = 0 := by
    rw [hgap, dotProduct_sub, h.dotProduct_combination, h.dotProduct_combination, sub_zero]
  have hsum : squaredError columns target others = squaredError columns target weights + gap ⬝ᵥ gap := by
    unfold squaredError
    rw [hsplit, add_dotProduct, dotProduct_add, dotProduct_add, dotProduct_comm gap, horthogonal, add_zero, zero_add]
  rw [hsum]
  exact le_add_of_nonneg_right (dotProduct_self_nonneg gap)

/-- A combination of the columns is fitted by its own weights, without error. -/
theorem eq_of_eq_combination {others : List ℝ} (hothers : others.length = columns.length)
    (htarget : target = combination others columns) :
    weights = others ∧ squaredError columns target weights = 0 := by
  have hself : (target - combination weights columns) ⬝ᵥ (target - combination weights columns) = 0 := by
    rw [dotProduct_sub, h.dotProduct_combination weights, sub_zero]
    nth_rewrite 2 [htarget]
    exact h.dotProduct_combination others
  have hrest : target - combination weights columns = 0 := dotProduct_self_eq_zero.1 hself
  refine ⟨(h.unique others hothers ?_).symm, hself⟩
  rw [← htarget, sub_eq_zero.1 hrest]

end FitsTarget

end Target

/-! ### All targets -/

/-- The first vectors of orthonormal ones are orthonormal. -/
theorem OrthonormalList.take {n : ℕ} {vectors : List (Fin n → ℝ)} (h : OrthonormalList vectors) (count : ℕ) :
    OrthonormalList (vectors.take count) where
  unit v hv := h.unit v (List.mem_of_mem_take hv)
  orthogonal := h.orthogonal.take

namespace Matrix

variable {x q r : Matrix ℝ}

/-- The columns of a matrix are combinations of as many columns of its first factor, with the coefficients in the square
    of the second one. -/
theorem Factored.combination_eq (h : x.Factored q r) (hheight : q.height = x.height) {ws : List ℝ}
    (hws : ws.length = x.cols) :
    combination ws x.vectors =
      combination ((r.corner x.cols).applied ws) ((q.columns.map (vec x.height)).take x.cols) := by
  obtain ⟨hinner, hwide, rfl, -, hupper⟩ := h
  have hcorner : ((r.corner r.cols).applied ws).length ≤ r.cols := by
    rw [length_applied, height_corner]
    exact Nat.min_le_left _ _
  have hall := combination_mul hinner hws
  rw [hupper.applied_eq, combination_append_zeros, ← combination_take hcorner] at hall
  exact hall

/-- The triangular system has as many unknowns as the matrix has columns, and as many rows. -/
theorem Factored.size_corner (h : x.Factored q r) :
    (r.corner x.cols).height = x.cols ∧ (r.corner x.cols).cols = x.cols := by
  have hcols : (q.mul r).cols = x.cols := congrArg _ h.product
  have hrcols : r.cols = x.cols := hcols
  rw [height_corner, cols_corner, ← h.inner, hrcols, Nat.min_eq_left h.wide, Nat.min_self]
  exact ⟨rfl, rfl⟩

/-- Solving the triangular system for the coordinates of a target fits the target. -/
theorem Factored.fitsTarget (h : x.Factored q r) (hdiagonal : ∀ i, (r.corner x.cols).at? i i ≠ some 0)
    {target weights : List ℝ} (hweights : weights.length = x.cols)
    (hsolved : (r.corner x.cols).applied weights = (q.transpose.applied target).take x.cols) :
    FitsTarget x.vectors (vec x.height target) weights := by
  have hheight : (q.mul r).height = x.height := congrArg _ h.product
  have horthonormal : OrthonormalList (q.columns.map (vec x.height)) := by
    have hlist := (orthonormalList_iff q).2 h.orthonormal
    rwa [vectors, show q.height = x.height from hheight] at hlist
  obtain ⟨hrows, hsquare⟩ := h.size_corner
  have hfirst := horthonormal.take x.cols
  have hlength : ((q.columns.map (vec x.height)).take x.cols).length = x.cols := by
    rw [List.length_take, List.length_map, length_columns, Nat.min_eq_left h.wide]
  have hcombination : ∀ {ws : List ℝ}, ws.length = x.cols → combination ws x.vectors = _ :=
    fun hws => h.combination_eq hheight hws
  have hcoordinates : (r.corner x.cols).applied weights =
      ((q.columns.map (vec x.height)).take x.cols).map (· ⬝ᵥ vec x.height target) := by
    rw [hsolved, applied, rows_transpose, ← List.map_take, ← List.map_take, List.map_map]
    refine List.map_congr_left fun column hcolumn => ?_
    exact dot_eq_dotProduct ((q.length_of_mem_columns column (List.mem_of_mem_take hcolumn)).trans hheight) target
  refine ⟨hweights.trans x.length_vectors.symm, forall_mem_of_forall_combination fun ws hws => ?_, ?_⟩
  · rw [hcombination hweights, hcombination (hws.trans x.length_vectors), hcoordinates]
    exact dotProduct_combination_of_forall _ (hfirst.dotProduct_remainder _)
  · intro others hothers hsame
    have hothers : others.length = x.cols := hothers.trans x.length_vectors
    rw [hcombination hothers, hcombination hweights] at hsame
    -- the weights over orthonormal vectors can be read off as coordinates
    have happlied : ∀ ws, ((r.corner x.cols).applied ws).length =
        ((q.columns.map (vec x.height)).take x.cols).length := fun ws =>
      ((r.corner x.cols).length_applied ws).trans (hrows.trans hlength.symm)
    have hother := hfirst.coordinates_combination (happlied others)
    rw [hsame, hfirst.coordinates_combination (happlied weights)] at hother
    exact (h.upper.corner x.cols).injective (hrows.trans hsquare.symm) hdiagonal (hothers.trans hsquare.symm)
      (hweights.trans hsquare.symm) hother.symm

end Matrix

theorem forall₂_of_map_eq_map {α β γ : Type} {as : List α} {bs : List β} {f : α → γ} {g : β → γ}
    (h : as.map f = bs.map g) : List.Forall₂ (fun a b => f a = g b) as bs := by
  rwa [← List.forall₂_eq_eq_eq, List.forall₂_map_left_iff, List.forall₂_map_right_iff] at h

theorem map_eq_map_of_forall₂ {α β γ : Type} {R : α → β → Prop} {as : List α} {bs : List β} {f : α → γ} {g : β → γ}
    (h : List.Forall₂ R as bs) (hfg : ∀ a b, R a b → f a = g b) : as.map f = bs.map g := by
  have heq : List.Forall₂ (· = ·) (as.map f) (bs.map g) := by
    rw [List.forall₂_map_left_iff, List.forall₂_map_right_iff]
    exact h.imp hfg
  rwa [List.forall₂_eq_eq_eq] at heq

/-- Each list of weights fits the target in its place. -/
abbrev FitsTargets (x : Matrix ℝ) : List (List ℝ) → List (List ℝ) → Prop :=
  List.Forall₂ fun target weights => FitsTarget x.vectors (vec x.height target) weights

/-- The fitted weights have a row for each feature and a column for each target, and fit every target. -/
theorem fitsTargets_of_fit {routines : Routines Option ℝ} (hexact : routines.Exact) {limit : ℝ} {x y weights : Matrix ℝ}
    (h : routines.fit limit x y = some (.ok weights)) :
    weights.height = x.cols ∧ weights.cols = y.cols ∧ FitsTargets x y.columns weights.columns := by
  have hfits := Routines.fit_eq_some_ok_iff.1 h
  obtain ⟨⟨q, r⟩, hfactor, hsolved⟩ := Option.bind_eq_some_iff.1 hfits.solved
  have hfactored := hexact.factor x q r hfits.posed.tall hfactor
  obtain ⟨hheight, hcols⟩ := hfactored.size_corner
  have hsides : ((q.transpose.mul y).top x.cols).height = (r.corner x.cols).height := by
    have hproduct : (q.transpose.mul y).height = q.cols := q.length_columns
    rw [Matrix.height_top, hproduct, Nat.min_eq_left hfactored.wide, hheight]
  obtain ⟨hdiagonal, hlength, hproduct⟩ :=
    hexact.solve _ _ _ (hheight.trans hcols.symm) (hfactored.upper.corner x.cols) hsides hsolved
  have hlength : weights.height = x.cols := hlength.trans hcols
  have hwidth : ((r.corner x.cols).mul weights).cols = ((q.transpose.mul y).top x.cols).cols := congrArg _ hproduct
  have hwidth : weights.cols = y.cols := hwidth
  have happlied : weights.columns.map (r.corner x.cols).applied =
      y.columns.map fun target => (q.transpose.applied target).take x.cols := by
    rw [← Matrix.columns_mul_applied, hproduct, Matrix.columns_top, Matrix.columns_mul_applied, List.map_map]
    rfl
  have hsolutions := forall₂_of_map_eq_map happlied.symm
  refine ⟨hlength, hwidth, List.forall₂_iff_zip.2 ⟨hsolutions.length_eq, fun {target solution} hpair => ?_⟩⟩
  obtain ⟨htarget, hsolution⟩ := List.of_mem_zip hpair
  have hsome : y.cols ≠ 0 := by
    rw [← y.length_columns]
    exact Nat.ne_of_gt (List.length_pos_of_mem htarget)
  exact hfactored.fitsTarget (hdiagonal hsome) ((weights.length_of_mem_columns solution hsolution).trans hlength)
    ((List.forall₂_iff_zip.1 hsolutions).2 hpair).symm

/-- Weights that fit the targets satisfy the normal equations. -/
theorem FitsTargets.normal_equations {x y weights : Matrix ℝ} (h : FitsTargets x y.columns weights.columns) :
    (x.transpose.mul x).mul weights = x.transpose.mul y := by
  have hheight : ((x.transpose.mul x).mul weights).height = (x.transpose.mul y).height := rfl
  apply Matrix.eq_of_columns hheight
  rw [Matrix.columns_mul, Matrix.columns_mul, Matrix.rows_mul, Matrix.rows_transpose]
  refine (map_eq_map_of_forall₂ h ?_).symm
  intro target solution hfit
  rw [List.map_map]
  apply List.map_congr_left
  intro column hcolumn
  have hlength := x.length_of_mem_columns column hcolumn
  have hnormal := hfit.normal (vec x.height column) (List.mem_map_of_mem hcolumn)
  rw [dotProduct_comm, dotProduct_sub, sub_eq_zero] at hnormal
  rw [Function.comp_apply, dot_map_dot hlength, dot_eq_dotProduct hlength, hnormal, Matrix.vectors]

/-! ### Squared errors -/

/-- The squared errors of lists of weights, each for the target in its place. -/
noncomputable def squaredErrors (x : Matrix ℝ) (targets weights : List (List ℝ)) : List ℝ :=
  List.zipWith (fun target solution => squaredError x.vectors (vec x.height target) solution) targets weights

/-- The sums of the squares of what weights leave of the targets, one for each column. -/
noncomputable def squaredResiduals (x y weights : Matrix ℝ) : List ℝ :=
  List.zipWith (fun target predicted => (List.zipWith (fun a b => (a - b) ^ 2) target predicted).sum) y.columns
    (x.mul weights).columns

theorem squareSum_zipWith_sub (as bs : List ℝ) :
    ErrorReport.squareSum (List.zipWith (· - ·) as bs) = (List.zipWith (fun a b => (a - b) ^ 2) as bs).sum := by
  rw [ErrorReport.squareSum, dot_eq_sum, List.zipWith_self, List.map_zipWith]
  simp only [sq]

theorem squareSum_residual {x : Matrix ℝ} {target weights : List ℝ} (htarget : target.length = x.height)
    (hweights : weights.length = x.cols) :
    ErrorReport.squareSum (List.zipWith (· - ·) target (x.applied weights)) =
      squaredError x.vectors (vec x.height target) weights := by
  have hlength : (List.zipWith (· - ·) target (x.applied weights)).length = x.height := by
    rw [List.length_zipWith, htarget, x.length_applied, Nat.min_self]
  have hresidual : vec x.height (List.zipWith (· - ·) target (x.applied weights)) =
      vec x.height target - combination weights x.vectors := by
    rw [← Matrix.vec_applied hweights]
    exact vec_zipWith _ htarget (x.length_applied weights)
  rw [squaredError, ← hresidual]
  exact dot_eq_dotProduct hlength _

section Report

variable {x y weights : Matrix ℝ} (hrows : y.height = x.height) (hheight : weights.height = x.cols)
include hrows hheight

theorem squaredResiduals_eq (hcols : weights.cols = y.cols) :
    squaredResiduals x y weights = squaredErrors x y.columns weights.columns := by
  rw [squaredResiduals, squaredErrors, Matrix.columns_mul_applied, List.zipWith_map_right]
  apply List.zipWith_congr
  refine List.forall₂_iff_zip.2 ⟨by rw [y.length_columns, weights.length_columns, hcols], ?_⟩
  intro target solution hpair
  obtain ⟨htarget, hsolution⟩ := List.of_mem_zip hpair
  rw [← squareSum_zipWith_sub]
  exact squareSum_residual ((y.length_of_mem_columns target htarget).trans hrows)
    ((weights.length_of_mem_columns solution hsolution).trans hheight)

/-- The error of weights reports the sums of the squared residuals, and the roots of their means. -/
theorem Regressor.error_eq_squaredResiduals (r : Regressor) (hcols : weights.cols = y.cols) (hsome : y.height ≠ 0) :
    r.error x y weights =
      .ok ⟨(squaredResiduals x y weights).map fun s => √(s / y.height), squaredResiduals x y weights, y.height⟩ := by
  have hpredict : r.predict x weights = .ok (x.mul weights) := if_neg (Decidable.not_not.2 hheight.symm)
  have hshape : (x.mul weights).height = y.height := hrows.symm
  have hwidth : (x.mul weights).cols = y.cols := hcols
  have hse :
      (y.sub (x.mul weights) hshape hwidth).columns.map ErrorReport.squareSum = squaredResiduals x y weights := by
    rw [Matrix.columns_sub, List.map_zipWith, squaredResiduals]
    simp only [squareSum_zipWith_sub]
  rw [Regressor.error_of_predict hpredict hshape hwidth, Regressor.report_eq_ok_iff, ← hse]
  exact if_neg hsome

end Report

/-- No other weights have smaller squared errors. -/
theorem FitsTargets.squaredErrors_le {x : Matrix ℝ} {targets weights others : List (List ℝ)}
    (h : FitsTargets x targets weights) (hothers : others.length = weights.length) :
    List.Forall₂ (· ≤ ·) (squaredErrors x targets weights) (squaredErrors x targets others) := by
  induction h generalizing others with
  | nil => exact .nil
  | cons hfit _ ih =>
      obtain ⟨other, others, rfl⟩ := List.exists_cons_of_length_eq_add_one hothers
      exact .cons (hfit.squaredError_le other) (ih (by simpa using hothers))

/-- Targets made with weights are fitted by these, without error. -/
theorem FitsTargets.eq_of_made {x : Matrix ℝ} {weights others : List (List ℝ)}
    (hothers : ∀ other ∈ others, other.length = x.cols)
    (h : FitsTargets x (others.map x.applied) weights) :
    weights = others ∧ squaredErrors x (others.map x.applied) weights = List.replicate weights.length 0 := by
  induction others generalizing weights with
  | nil =>
      cases h
      exact ⟨rfl, rfl⟩
  | cons other others ih =>
      obtain ⟨hother, hrest⟩ := List.forall_mem_cons.1 hothers
      cases h with
      | cons hfit hfits =>
          obtain ⟨rfl, herror⟩ := hfit.eq_of_eq_combination (hother.trans x.length_vectors.symm)
            (Matrix.vec_applied hother)
          obtain ⟨rfl, herrors⟩ := ih hrest hfits
          refine ⟨rfl, ?_⟩
          rw [List.length_cons, List.replicate_succ, ← herrors, ← herror]
          rfl

/-! ### The fitted weights -/

/-- Weights that a system is fitted with satisfy the normal equations, have for every target the least sum of squared
    residuals of all weights, and are the weights that the targets were made with, if there are such; then nothing is
    left of the targets. This holds whatever routines gave the weights, if their factors are factors, their solutions
    solve, and diagonals with a zero are refused; it does not matter which systems were refused for their condition. -/
theorem fit_is_least_squares (r : Regressor) (routines : Routines Option ℝ) (hexact : routines.Exact) (limit : ℝ)
    (x y weights : Matrix ℝ) (h : routines.fit limit x y = some (.ok weights)) :
    weights.height = x.cols ∧ weights.cols = y.cols ∧
    (x.transpose.mul x).mul weights = x.transpose.mul y ∧
    ∃ best, r.error x y weights = .ok best ∧ best.se.length = y.cols ∧ best.rmse.length = y.cols ∧
      best.se = squaredResiduals x y weights ∧ (best.rmse = best.se.map fun s => √(s / y.height)) ∧
      (∀ others : Matrix ℝ, others.height = x.cols → others.cols = y.cols →
        ∃ other, r.error x y others = .ok other ∧ other.se = squaredResiduals x y others ∧
          List.Forall₂ (· ≤ ·) best.se other.se) ∧
      (∀ others : Matrix ℝ, others.height = x.cols → y = x.mul others →
        weights = others ∧ (∀ error ∈ best.se, error = 0) ∧ ∀ error ∈ best.rmse, error = 0) := by
  have hposed := (Routines.fit_eq_some_ok_iff.1 h).posed
  obtain ⟨hheight, hwidth, hfits⟩ := fitsTargets_of_fit hexact h
  have hrows := hposed.rows
  have hsome : y.height ≠ 0 := hrows ▸ hposed.height_ne_zero
  have hbest := squaredResiduals_eq hrows hheight hwidth
  have hlength : (squaredResiduals x y weights).length = y.cols := by
    rw [hbest, squaredErrors, List.length_zipWith, y.length_columns, weights.length_columns, hwidth, Nat.min_self]
  refine ⟨hheight, hwidth, hfits.normal_equations, _, r.error_eq_squaredResiduals hrows hheight hwidth hsome, hlength,
    by rw [List.length_map, hlength], rfl, rfl, ?_, ?_⟩
  · intro others hothers hsame
    refine ⟨_, r.error_eq_squaredResiduals hrows hothers hsame hsome, rfl, ?_⟩
    rw [hbest, squaredResiduals_eq hrows hothers hsame]
    apply hfits.squaredErrors_le
    rw [others.length_columns, weights.length_columns, hsame, hwidth]
  · intro others hothers hmade
    have hcolumns : y.columns = others.columns.map x.applied := by rw [hmade, Matrix.columns_mul_applied]
    have hlengths : ∀ other ∈ others.columns, other.length = x.cols :=
      fun other hother => (others.length_of_mem_columns other hother).trans hothers
    rw [hcolumns] at hfits
    obtain ⟨hsame, hzero⟩ := hfits.eq_of_made hlengths
    rw [← hcolumns, ← hbest] at hzero
    refine ⟨Matrix.eq_of_columns (hheight.trans hothers.symm) hsame, ?_, ?_⟩
    · rw [hzero]
      exact fun error herror => List.eq_of_mem_replicate herror
    · rw [hzero]
      simp

/-- Two features over three rows. -/
noncomputable def twoFeatures : Matrix ℝ := ⟨3, 2, [7 / 24, 49 / 750, 1, 849 / 1000, 0, 3 / 5], rfl⟩

/-- Two targets for the rows, of which the features can meet the first. -/
noncomputable def twoTargets : Matrix ℝ :=
  ⟨3, 2, [1267 / 3000, 3599 / 2500, 1349 / 500, 4411 / 5000, 6 / 5, -(8 / 25)], rfl⟩

/-- The weights of the two features for the two targets. -/
noncomputable def twoWeights : Matrix ℝ := ⟨2, 2, [1, 2, 2, -1], rfl⟩

theorem reflectionOf_first : reflectionOf [(7 / 24 : ℝ), 1, 0] = ⟨some [4 / 5, 3 / 5, 0], -(25 / 24)⟩ := by
  have hnorm : signedNorm (7 / 24) [1, 0] = 25 / 24 := by
    have hless : ¬ Scalar.less (7 / 24 : ℝ) 0 = true := less_real_iff.not.2 (by norm_num)
    rw [signedNorm, if_neg hless]
    norm_num
  rw [reflectionOf_cons (7 / 24) [1, 0] hnorm.symm rfl rfl]
  norm_num [scaleDown]

theorem reflectionOf_second : reflectionOf [(7 / 40 : ℝ), 3 / 5] = ⟨some [4 / 5, 3 / 5], -(5 / 8)⟩ := by
  have hnorm : signedNorm (7 / 40) [3 / 5] = 5 / 8 := by
    have hless : ¬ Scalar.less (7 / 40 : ℝ) 0 = true := less_real_iff.not.2 (by norm_num)
    rw [signedNorm, if_neg hless]
    norm_num
  rw [reflectionOf_cons (7 / 40) [3 / 5] hnorm.symm rfl rfl]
  norm_num [scaleDown]

theorem triangularize_twoFeatures :
    triangularize twoFeatures.columns =
      ([(-(25 / 24), [-(5 / 6)]), (-(5 / 8), [])],
        [⟨some [4 / 5, 3 / 5, 0], -(25 / 24)⟩, ⟨some [4 / 5, 3 / 5], -(5 / 8)⟩]) := by
  have hcolumns : twoFeatures.columns = [[7 / 24, 1, 0], [49 / 750, 849 / 1000, 3 / 5]] := rfl
  have hreflected : Reflection.apply ⟨some [4 / 5, 3 / 5, 0], -(25 / 24)⟩ [(49 / 750 : ℝ), 849 / 1000, 3 / 5] =
      [-(5 / 6), 7 / 40, 3 / 5] := by
    change List.zipWith (fun c a => c - ((2 : ℕ) : ℝ) * Scalar.dot [4 / 5, 3 / 5, 0] [49 / 750, 849 / 1000, 3 / 5] * a)
      [49 / 750, 849 / 1000, 3 / 5] [4 / 5, 3 / 5, 0] = _
    norm_num
  have hsecond : reduce 1 [[(7 / 40 : ℝ), 3 / 5]] = ([(-(5 / 8), [])], [⟨some [4 / 5, 3 / 5], -(5 / 8)⟩]) := by
    rw [reduce_cons, reflectionOf_second]
    rfl
  rw [triangularize, hcolumns, List.length_cons, List.length_singleton, reduce_cons, reflectionOf_first]
  simp only [List.map_cons, List.map_nil, hreflected, List.tail_cons, hsecond, List.headD_cons]

theorem less_orthogonality {scale a : ℝ} (hscale : scale < 2) (ha : 1 / 10 ≤ a) :
    Scalar.less scale (a * Scalar.ofNat orthogonality) = true := by
  have hbig : (Scalar.ofNat orthogonality : ℝ) = 10 ^ 13 := by
    change ((Nat.pow 10 13 : ℕ) : ℝ) = _
    norm_num
  rw [less_real_iff, hbig]
  nlinarith

/-- The rows of the triangle are turned by the angle whose tangent is minus one third. -/
theorem rotatePair?_twoRows {c : ℝ} (hc : c = 1 / √(10 / 9)) :
    rotatePair? [-(25 / 24), -(5 / 6)] [0, -(5 / 8)] =
      some ([c * -(25 / 24), c * -(25 / 24)], [c * (25 / 72), c * -(25 / 72)]) := by
  have hu : Scalar.dot [-(25 / 24 : ℝ), -(5 / 6)] [-(25 / 24), -(5 / 6)] = 1025 / 576 := by norm_num
  have hv : Scalar.dot [(0 : ℝ), -(5 / 8)] [0, -(5 / 8)] = 25 / 64 := by norm_num
  have huv : Scalar.dot [-(25 / 24 : ℝ), -(5 / 6)] [0, -(5 / 8)] = 25 / 48 := by norm_num
  have habs : Scalar.abs (25 / 48 : ℝ) = 25 / 48 := if_neg (less_real_iff.not.2 (by norm_num))
  have hscale : √(1025 / 576 : ℝ) * √(25 / 64) < 2 := by
    have hfirst : √(1025 / 576 : ℝ) < 2 := (Real.sqrt_lt' (by norm_num)).2 (by norm_num)
    have hsecond : √(25 / 64 : ℝ) = 5 / 8 := by norm_num
    rw [hsecond]
    linarith
  have hturned := less_orthogonality hscale (show (1 / 10 : ℝ) ≤ 25 / 48 by norm_num)
  have hzeta : (25 / 64 - 1025 / 576 : ℝ) / (Scalar.ofNat 2 * (25 / 48)) = -(4 / 3) := by
    change (25 / 64 - 1025 / 576 : ℝ) / (((2 : ℕ) : ℝ) * (25 / 48)) = _
    norm_num
  have hless : Scalar.less (-(4 / 3) : ℝ) 0 = true := less_real_iff.2 (by norm_num)
  have hminus : Scalar.abs (-(4 / 3) : ℝ) = 4 / 3 := (if_pos hless).trans (neg_neg _)
  have hroot : √(1 + -(4 / 3) * -(4 / 3) : ℝ) = 5 / 3 := by norm_num
  have hcosine : 1 / √(1 + -(1 / (4 / 3 + 5 / 3)) * -(1 / (4 / 3 + 5 / 3))) = c := by
    rw [hc]
    norm_num
  unfold rotatePair?
  simp only [RootedScalar.root, hu, hv, huv, habs, hturned, if_true, hzeta, hminus, hroot, hless, hcosine,
    List.zipWith_cons_cons, List.zipWith_nil_left, Option.some.injEq, Prod.mk.injEq, List.cons.injEq, and_true]
  refine ⟨⟨?_, ?_⟩, ?_, ?_⟩
  all_goals ring

/-- Two vectors that are orthogonal after one turn are left so. -/
theorem sweeps_pair {u v u' v' : List ℝ} (hturn : rotatePair? u v = some (u', v')) (hrest : rotatePair? u' v' = none)
    (count : ℕ) : sweeps (count + 2) [u, v] = [u', v'] := by
  simp [sweeps, sweep, rotateAgainst, hturn, hrest]

theorem singularValues_twoFeatures :
    ∃ s > 0, singularValues twoFeatures = [25 / 24 * s, 25 / 72 * s] := by
  have hcolumns : twoFeatures.columns = [[7 / 24, 1, 0], [49 / 750, 849 / 1000, 3 / 5]] := rfl
  have htop : largest twoFeatures.columns = 1 := by
    rw [hcolumns]
    norm_num [largest, Scalar.abs, less_real_iff]
  have hscaled : twoFeatures.columns.map (scaleDown 1) = twoFeatures.columns := by simp [hcolumns, scaleDown]
  have htall : twoFeatures.cols ≤ twoFeatures.height := by decide
  set c := 1 / √(10 / 9 : ℝ) with hc
  have hpos : 0 < c := by positivity
  have horthogonal : rotatePair? [c * -(25 / 24), c * -(25 / 24)] [c * (25 / 72), c * -(25 / 72)] = none := by
    have hdot : Scalar.dot [c * -(25 / 24), c * -(25 / 24)] [c * (25 / 72), c * -(25 / 72)] = 0 := by
      simp only [dot_cons_cons, dot_nil_left]
      ring
    have hless : ∀ a b : ℝ, Scalar.less (√a * √b) (Scalar.abs 0 * Scalar.ofNat orthogonality) = false := by
      intro a b
      rw [← Bool.not_eq_true, less_real_iff, show Scalar.abs (0 : ℝ) = 0 from ite_eq_right_iff.2 fun _ => neg_zero,
        zero_mul, not_lt]
      positivity
    simp only [rotatePair?, RootedScalar.root, hdot, hless, Bool.false_eq_true, if_false]
  have hsweeps := sweeps_pair (rotatePair?_twoRows hc) horthogonal 28
  have hrows : Triangle.fullRows 0 [(-(25 / 24 : ℝ), [-(5 / 6)]), (-(5 / 8), [])] =
      [[-(25 / 24), -(5 / 6)], [0, -(5 / 8)]] := rfl
  refine ⟨c * √2, by positivity, ?_⟩
  simp only [singularValues, if_pos htall, htop, isZero_real_iff, one_ne_zero, if_false, hscaled,
    triangularize_twoFeatures, hrows, hsweeps]
  have hlength : ∀ {k : ℝ} {v : List ℝ}, 0 < k → Scalar.dot v v = k ^ 2 * (c ^ 2 * 2) →
      √(Scalar.dot v v) = k * (c * √2) := by
    intro k v hk hv
    have hsquare : Scalar.dot v v = (k * (c * √2)) ^ 2 := by
      rw [hv, mul_pow, mul_pow, Real.sq_sqrt zero_le_two]
    rw [hsquare, Real.sqrt_sq (by positivity)]
  have hfirst : √(Scalar.dot [c * -(25 / 24), c * -(25 / 24)] [c * -(25 / 24), c * -(25 / 24)]) =
      25 / 24 * (c * √2) := by
    refine hlength (by norm_num) ?_
    simp only [dot_cons_cons, dot_nil_left]
    ring
  have hsecond : √(Scalar.dot [c * (25 / 72), c * -(25 / 72)] [c * (25 / 72), c * -(25 / 72)]) =
      25 / 72 * (c * √2) := by
    refine hlength (by norm_num) ?_
    simp only [dot_cons_cons, dot_nil_left]
    ring
  have hless : Scalar.less (25 / 72 * (c * √2)) (25 / 24 * (c * √2)) = true :=
    less_real_iff.2 (mul_lt_mul_of_pos_right (by norm_num) (by positivity))
  simp only [List.map_cons, List.map_nil, RootedScalar.root, hfirst, hsecond, mul_one, List.foldr_cons, List.foldr_nil,
    rank, hless, if_true]

/-- The condition number of the two features is three. -/
theorem conditionOf_twoFeatures : conditionOf (singularValues twoFeatures) = .value 3 := by
  obtain ⟨s, hs, hvalues⟩ := singularValues_twoFeatures
  have hbelow : Scalar.less (25 / 72 * s) (25 / 24 * s) = true := less_real_iff.2 (by linarith)
  have habove : Scalar.less (25 / 24 * s) (25 / 72 * s) = false := by
    rw [← Bool.not_eq_true, less_real_iff]
    linarith
  have hsame : Scalar.same (25 / 24 * s) (25 / 24 * s) = true := decide_eq_true rfl
  have hpositive : Scalar.atMost (25 / 72 * s) 0 = false := by
    rw [Scalar.atMost, Bool.or_eq_false_iff]
    exact ⟨decide_eq_false (by linarith), decide_eq_false (by positivity)⟩
  have hratio : 25 / 24 * s / (25 / 72 * s) = 3 := by
    field_simp
    norm_num
  rw [hvalues]
  simp only [conditionOf, List.foldl_cons, List.foldl_nil, smaller, larger, hbelow, habove, hsame, hpositive, hratio,
    Bool.not_true, Bool.or_false, Bool.false_eq_true, if_true, if_false]

theorem factorize_twoFeatures :
    factorize twoFeatures =
      (.ofColumns 3 [[7 / 25, 24 / 25, 0], [-(168 / 625), 49 / 625, 24 / 25]],
        (Matrix.ofColumns 2 [[25 / 24, 5 / 6], [0, 5 / 8]]).transpose) := by
  have hbasis : basis twoFeatures.height [⟨some [4 / 5, 3 / 5, 0], -(25 / 24 : ℝ)⟩, ⟨some [4 / 5, 3 / 5], -(5 / 8)⟩] =
      [[-(7 / 25), -(24 / 25), 0], [168 / 625, -(49 / 625), -(24 / 25)]] := by
    change List.map (fun v => List.zipWith (fun c a => c - ((2 : ℕ) : ℝ) * Scalar.dot [4 / 5, 3 / 5, 0] v * a) v
      [4 / 5, 3 / 5, 0]) ([1, 0, 0] :: List.map (fun v => 0 :: List.zipWith
        (fun c a => c - ((2 : ℕ) : ℝ) * Scalar.dot [4 / 5, 3 / 5] v * a) v [4 / 5, 3 / 5]) [[1, 0]]) = _
    norm_num
  have hfirst : upright (-(25 / 24 : ℝ), [-(5 / 6)]) [-(7 / 25), -(24 / 25), 0] =
      ((25 / 24, [5 / 6]), [7 / 25, 24 / 25, 0]) := by
    rw [upright, if_pos (less_real_iff.2 (by norm_num))]
    norm_num
  have hsecond : upright (-(5 / 8 : ℝ), []) [168 / 625, -(49 / 625), -(24 / 25)] =
      ((5 / 8, []), [-(168 / 625), 49 / 625, 24 / 25]) := by
    rw [upright, if_pos (less_real_iff.2 (by norm_num))]
    norm_num
  simp only [factorize, triangularize_twoFeatures, hbasis, List.zipWith_cons_cons, List.zipWith_nil_left, hfirst,
    hsecond]
  rfl

theorem solveSystem_twoFeatures :
    (Routines.own : Routines Option ℝ).solveSystem twoFeatures twoTargets = some (some twoWeights) := by
  have hsystem : (Routines.own : Routines Option ℝ).solveSystem twoFeatures twoTargets =
      some (solveTriangular ((factorize twoFeatures).2.corner 2)
        (((factorize twoFeatures).1.transpose.mul twoTargets).top 2)) := rfl
  have hupper : Triangle.ofRows 0 ((factorize twoFeatures).2.corner 2).rows = [(25 / 24, [5 / 6]), (5 / 8, [])] := by
    rw [factorize_twoFeatures]
    rfl
  have hsides : (((factorize twoFeatures).1.transpose.mul twoTargets).top 2).columns =
      [[65 / 24, 5 / 4], [5 / 4, -(5 / 8)]] := by
    have hcolumns : twoTargets.columns =
        [[1267 / 3000, 1349 / 500, 6 / 5], [3599 / 2500, 4411 / 5000, -(8 / 25)]] := rfl
    have hvectors : (factorize twoFeatures).1.columns =
        [[7 / 25, 24 / 25, 0], [-(168 / 625), 49 / 625, 24 / 25]] := by
      rw [factorize_twoFeatures]
      rfl
    rw [Matrix.columns_top, Matrix.columns_mul, hcolumns, Matrix.rows_transpose, hvectors]
    norm_num
  have hfirst : backSubstitute [((25 / 24 : ℝ), [5 / 6]), (5 / 8, [])] [65 / 24, 5 / 4] = some [1, 2] := by
    apply (backSubstitute_eq_some_iff rfl).2
    norm_num [Triangle.times]
  have hsecond : backSubstitute [((25 / 24 : ℝ), [5 / 6]), (5 / 8, [])] [5 / 4, -(5 / 8)] = some [2, -1] := by
    apply (backSubstitute_eq_some_iff rfl).2
    norm_num [Triangle.times]
  have hcols : ((factorize twoFeatures).2.corner 2).cols = 2 := by
    rw [factorize_twoFeatures]
    rfl
  have hsolved : backSubstituteAll [((25 / 24 : ℝ), [5 / 6]), (5 / 8, [])] [[65 / 24, 5 / 4], [5 / 4, -(5 / 8)]] =
      some [[1, 2], [2, -1]] := by
    rw [backSubstituteAll, hfirst, backSubstituteAll, hsecond]
    rfl
  rw [hsystem, solveTriangular, hupper, hsides, hsolved, hcols]
  rfl

theorem fit_twoFeatures : fit 10 twoFeatures twoTargets = .ok twoWeights := by
  have hposed : Posed twoFeatures twoTargets := ⟨rfl, by decide, by decide⟩
  have hcondition : (Routines.own : Routines Option ℝ).conditionNumber twoFeatures = some (.value 3) := by
    have hfinite : twoFeatures.all Scalar.finite = true := rfl
    rw [hposed.conditionNumber_eq, if_pos hfinite, ← conditionOf_twoFeatures]
    rfl
  have hwithin : (Condition.value 3).within (10 : ℝ) = true := by
    have hless : Scalar.less (10 : ℝ) 3 = false := decide_eq_false (by norm_num)
    rw [Condition.within, hless]
    rfl
  exact fit_eq_ok_iff.2 ⟨hposed, rfl, ⟨_, hcondition, hwithin⟩, solveSystem_twoFeatures, rfl⟩

theorem squaredResiduals_twoFeatures : squaredResiduals twoFeatures twoTargets twoWeights = [0, 1] := by
  have htargets : twoTargets.columns = [[1267 / 3000, 1349 / 500, 6 / 5], [3599 / 2500, 4411 / 5000, -(8 / 25)]] := rfl
  have hweights : twoWeights.columns = [[1, 2], [2, -1]] := rfl
  have hrows : twoFeatures.rows = [[7 / 24, 49 / 750], [1, 849 / 1000], [0, 3 / 5]] := rfl
  rw [squaredResiduals, Matrix.columns_mul, htargets, hweights, hrows]
  norm_num

theorem fit_is_least_squares_two_targets :
    (Routines.own : Routines Option ℝ).Exact ∧
    (Routines.own : Routines Option ℝ).fit 10 twoFeatures twoTargets = some (fit 10 twoFeatures twoTargets) ∧
    fit 10 twoFeatures twoTargets = .ok twoWeights ∧
    (twoFeatures.transpose.mul twoFeatures).mul twoWeights = twoFeatures.transpose.mul twoTargets ∧
    ∃ best, (Regressor.leastSquares {}).error twoFeatures twoTargets twoWeights = .ok best ∧ best.se = [0, 1] ∧
      ∀ others : Matrix ℝ, others.height = 2 → others.cols = 2 →
        ∃ other, (Regressor.leastSquares {}).error twoFeatures twoTargets others = .ok other ∧
          List.Forall₂ (· ≤ ·) best.se other.se := by
  have hown := Routines.own_fit Option 10 twoFeatures twoTargets
  obtain ⟨-, -, hnormal, best, hbest, -, -, hse, -, hleast, -⟩ :=
    fit_is_least_squares (.leastSquares {}) Routines.own Routines.own_exact 10 twoFeatures twoTargets twoWeights
      (hown.trans (congrArg some fit_twoFeatures))
  refine ⟨Routines.own_exact, hown, fit_twoFeatures, hnormal, best, hbest, hse.trans squaredResiduals_twoFeatures, ?_⟩
  intro others hheight hcols
  obtain ⟨other, hother, -, hle⟩ := hleast others hheight hcols
  exact ⟨other, hother, hle⟩

end FlightFit
