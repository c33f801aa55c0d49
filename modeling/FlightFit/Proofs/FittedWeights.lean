import FlightFit.LeastSquares
import FlightFit.Proofs.Outcome

/-!
Module: FlightFit.Proofs.FittedWeights
Purpose: When a system is fitted, and what its weights look like. The routines that a fit calls need not come to an
  end, so a fit with given routines may have no result; the program's own fit is that with the library's routines, which
  always answer (`Routines.own_fit`). Fitting takes the checks of a system one after the other and then solves it;
  `Routines.fit_eq_some_ok_iff` says all of it at once, so that nothing else has to look at the order of the checks.
  This holds for any scalars, rounded or not.
Main exports: Posed, Routines.own_fit, Posed.fit_eq, Routines.Fits, Routines.fit_eq_some_ok_iff, fit_eq_ok_iff,
  fit_shape
-/

namespace FlightFit

variable {α : Type} {x y weights : Matrix α}

/-- A system that has as many targets as rows, and some columns but no more of them than rows. -/
structure Posed (x y : Matrix α) : Prop where
  rows : y.height = x.height
  columns : x.cols ≠ 0
  tall : x.cols ≤ x.height

theorem Posed.height_ne_zero (h : Posed x y) : x.height ≠ 0 := by
  have hcolumns := h.columns
  have htall := h.tall
  omega

variable [RootedScalar α] {limit : α}

namespace Routines

/-! ### The routines of the library -/

section Own

variable (M : Type → Type) [Monad M] [LawfulMonad M]

theorem own_conditionNumber (x : Matrix α) :
    (own : Routines M α).conditionNumber x = pure (FlightFit.conditionNumber x) := by
  rw [FlightFit.conditionNumber, conditionNumber, conditionNumber]
  split
  · rfl
  · split
    · rfl
    · exact map_pure _ _

theorem own_assess (x y : Matrix α) : (own : Routines M α).assess x y = pure (FlightFit.assess x y) := by
  rw [FlightFit.assess, assess, assess, own_conditionNumber]
  repeat' split
  any_goals rfl
  exact map_pure _ _

theorem own_solveSystem (x y : Matrix α) : (own : Routines M α).solveSystem x y = pure (FlightFit.solveSystem x y) :=
  pure_bind _ _

/-- With the routines of the library a fit does nothing but answer what the program's fit answers. -/
theorem own_fit (limit : α) (x y : Matrix α) :
    (own : Routines M α).fit limit x y = pure (FlightFit.fit limit x y) := by
  rw [FlightFit.fit, fit, fit, own_assess, own_assess, pure_bind, pure_bind]
  cases FlightFit.assess x y with
  | error fault => rfl
  | ok condition =>
      dsimp only
      split
      · rw [own_solveSystem, map_pure]
        rfl
      · rfl

end Own

end Routines

/-! ### Posed systems -/

section Posed

variable {M : Type → Type} [Monad M] (routines : Routines M α)

/-- The singular values of a posed system are asked for if its features are finite, and only then. -/
theorem Posed.conditionNumber_eq (h : Posed x y) :
    routines.conditionNumber x =
      if x.all Scalar.finite then conditionOf <$> routines.singular x else pure .undefined := by
  rw [Routines.conditionNumber, if_neg (by simp [h.height_ne_zero, h.columns])]
  cases x.all Scalar.finite <;> rfl

/-- What is left to do for a posed system. -/
theorem Posed.fit_eq [LawfulMonad M] (h : Posed x y) :
    routines.fit limit x y =
      if y.all Scalar.finite then do
        let condition ← routines.conditionNumber x
        if condition.within limit then accepted condition <$> routines.solveSystem x y
        else pure (.error (.unstable condition))
      else pure (.error (.unstable .undefined)) := by
  rw [Routines.fit, Routines.assess, if_neg (not_not_intro h.rows), if_neg h.columns, if_neg (Nat.not_lt.2 h.tall)]
  cases y.all Scalar.finite with
  | false => rw [Bool.not_false, if_pos rfl, pure_bind, if_neg Bool.false_ne_true]
  | true => rw [Bool.not_true, if_neg Bool.false_ne_true, bind_map_left, if_pos rfl]

end Posed

/-! ### Weights -/

namespace Routines

/-- What has been found when a fit ends with weights: the system passes every check and has a solution, which is
    finite. -/
structure Fits (routines : Routines Option α) (limit : α) (x y weights : Matrix α) : Prop where
  posed : Posed x y
  targets : y.all Scalar.finite = true
  stable : ∃ condition, routines.conditionNumber x = some condition ∧ condition.within limit = true
  solved : routines.solveSystem x y = some (some weights)
  finite : weights.all Scalar.finite = true

variable {routines : Routines Option α}

/-- Without enough rows, or columns, there are no weights. -/
theorem posed_of_fit (h : routines.fit limit x y = some (.ok weights)) : Posed x y := by
  obtain ⟨assessed, hassessed, h⟩ := Option.bind_eq_some_iff.1 h
  unfold assess at hassessed
  split at hassessed
  · cases hassessed
    cases h
  · next hrows =>
      split at hassessed
      · cases hassessed
        cases h
      · next hcolumns =>
          split at hassessed
          · cases hassessed
            cases h
          · next htall => exact ⟨Decidable.not_not.1 hrows, hcolumns, Nat.not_lt.1 htall⟩

theorem accepted_eq_ok_iff {condition : Condition α} {solution : Option (Matrix α)} :
    accepted condition solution = .ok weights ↔ solution = some weights ∧ weights.all Scalar.finite = true := by
  cases solution with
  | none => simp [accepted]
  | some solved =>
      rw [accepted, Option.some.injEq]
      split
      · next hfinite =>
          rw [Except.ok.injEq]
          exact ⟨fun h => ⟨h, h ▸ hfinite⟩, And.left⟩
      · next hfinite =>
          refine iff_of_false (by simp) fun h => hfinite ?_
          rw [h.1]
          exact h.2

theorem fit_eq_some_ok_iff : routines.fit limit x y = some (.ok weights) ↔ routines.Fits limit x y weights := by
  constructor
  · intro h
    have hposed := posed_of_fit h
    rw [hposed.fit_eq] at h
    split at h
    · next htargets =>
        obtain ⟨condition, hcondition, h⟩ := Option.bind_eq_some_iff.1 h
        split at h
        · next hstable =>
            obtain ⟨solution, hsolution, haccepted⟩ := Option.map_eq_some_iff.1 h
            obtain ⟨rfl, hfinite⟩ := accepted_eq_ok_iff.1 haccepted
            exact ⟨hposed, htargets, ⟨condition, hcondition, hstable⟩, hsolution, hfinite⟩
        · cases h
    · cases h
  · intro h
    obtain ⟨condition, hcondition, hstable⟩ := h.stable
    rw [h.posed.fit_eq, if_pos h.targets, hcondition, Option.bind_eq_bind, Option.bind_some, if_pos hstable, h.solved]
    exact congrArg some (accepted_eq_ok_iff.2 ⟨rfl, h.finite⟩)

end Routines

/-- The program fits a system if it passes every check and has a solution, which is finite. -/
theorem fit_eq_ok_iff : fit limit x y = .ok weights ↔ (Routines.own : Routines Option α).Fits limit x y weights := by
  rw [← Routines.fit_eq_some_ok_iff, Routines.own_fit]
  exact Option.some_inj.symm

/-! ### Shapes -/

namespace Routines

/-- What a caller may rely on: on a finite matrix that is not too wide the routines come to an end, and what they
    answer has the usual shape. -/
structure Usual (routines : Routines Option α) : Prop where
  singular_ends : ∀ x, x.cols ≤ x.height → x.all Scalar.finite = true → ∃ values, routines.singular x = some values
  singular_length : ∀ x values, x.cols ≤ x.height → routines.singular x = some values → values.length = x.cols
  factor_ends : ∀ x, x.cols ≤ x.height → x.all Scalar.finite = true → ∃ q r, routines.factor x = some (q, r)
  factor_shape : ∀ x q r, x.cols ≤ x.height → routines.factor x = some (q, r) →
    q.height = x.height ∧ q.cols = x.cols ∧ r.height = x.cols ∧ r.cols = x.cols
  solve_ends : ∀ r sides, r.height = r.cols → sides.height = r.cols → r.all Scalar.finite = true →
    sides.all Scalar.finite = true → ∃ solution, routines.solve r sides = some solution
  solve_shape : ∀ r sides solution, r.height = r.cols → sides.height = r.cols →
    routines.solve r sides = some (some solution) → solution.height = r.cols ∧ solution.cols = sides.cols

variable {routines : Routines Option α}

/-- The triangular system of a posed system is square, with a side for each target. -/
theorem Usual.shape_of_factor (h : routines.Usual) (hposed : Posed x y) {q r : Matrix α}
    (hfactor : routines.factor x = some (q, r)) :
    (r.corner x.cols).height = x.cols ∧ (r.corner x.cols).cols = x.cols ∧
      ((q.transpose.mul y).top x.cols).height = x.cols ∧ ((q.transpose.mul y).top x.cols).cols = y.cols := by
  obtain ⟨-, hqcols, hheight, hcols⟩ := h.factor_shape x q r hposed.tall hfactor
  have hproduct : (q.transpose.mul y).height = x.cols := q.length_columns.trans hqcols
  exact ⟨by rw [Matrix.height_corner, hheight, Nat.min_self], by rw [Matrix.cols_corner, hcols, Nat.min_self],
    by rw [Matrix.height_top, hproduct, Nat.min_self], rfl⟩

/-- The weights have a row for each feature and a column for each target. -/
theorem Usual.shape_of_fit (h : routines.Usual) (hfit : routines.fit limit x y = some (.ok weights)) :
    weights.height = x.cols ∧ weights.cols = y.cols := by
  have hfits := fit_eq_some_ok_iff.1 hfit
  obtain ⟨⟨q, r⟩, hfactor, hsolved⟩ := Option.bind_eq_some_iff.1 hfits.solved
  obtain ⟨hheight, hcols, hsides, htargets⟩ := h.shape_of_factor hfits.posed hfactor
  have hshape := h.solve_shape _ _ weights (hheight.trans hcols.symm) (hsides.trans hcols.symm) hsolved
  rwa [hcols, htargets] at hshape

end Routines

/-! ### The shapes of the library's routines -/

theorem reduce_cons (k : Nat) (column : List α) (columns : List (List α)) :
    reduce (k + 1) (column :: columns) =
      let r := reflectionOf column
      let reduced := reduce k ((columns.map r.apply).map List.tail)
      ((r.image, (columns.map r.apply).map fun c => c.headD 0) :: reduced.1, r :: reduced.2) := rfl

theorem length_reduce {k : Nat} {columns : List (List α)} (h : columns.length = k) :
    (reduce k columns).1.length = k ∧ (reduce k columns).2.length = k := by
  induction k generalizing columns with
  | zero => exact ⟨rfl, rfl⟩
  | succ k ih =>
      obtain ⟨column, columns, rfl⟩ := List.exists_cons_of_length_eq_add_one h
      have hrest : ((columns.map (reflectionOf column).apply).map List.tail).length = k := by simpa using h
      rw [reduce_cons]
      exact ⟨congrArg (· + 1) (ih hrest).1, congrArg (· + 1) (ih hrest).2⟩

theorem length_basis (length : Nat) (reflections : List (Reflection α)) :
    (basis length reflections).length = reflections.length := by
  induction reflections generalizing length with
  | nil => rfl
  | cons reflection rest ih => rw [basis, List.length_map, List.length_cons, List.length_map, ih, List.length_cons]

theorem length_fullRows (offset : Nat) (triangle : Triangle α) :
    (triangle.fullRows offset).length = triangle.length := by
  induction triangle generalizing offset with
  | nil => rfl
  | cons row rest ih => rw [Triangle.fullRows, List.length_cons, ih, List.length_cons]

theorem length_rotateAgainst (u : List α) (vectors : List (List α)) :
    (rotateAgainst u vectors).2.vectors.length = vectors.length := by
  induction vectors generalizing u with
  | nil => rfl
  | cons v rest ih =>
      rw [rotateAgainst]
      split
      · exact congrArg (· + 1) (ih _)
      · exact congrArg (· + 1) (ih _)

theorem length_sweep (fuel : Nat) (vectors : List (List α)) : (sweep fuel vectors).vectors.length = vectors.length := by
  induction fuel generalizing vectors with
  | zero => rfl
  | succ fuel ih =>
      cases vectors with
      | nil => rfl
      | cons u rest => exact congrArg (· + 1) ((ih _).trans (length_rotateAgainst u rest))

theorem length_sweeps (count : Nat) (vectors : List (List α)) : (sweeps count vectors).length = vectors.length := by
  induction count generalizing vectors with
  | zero => rfl
  | succ count ih =>
      rw [sweeps]
      split
      · rw [ih, length_sweep]
      · exact length_sweep _ _

theorem length_rank (value : α) (values : List α) : (rank value values).length = values.length + 1 := by
  induction values with
  | nil => rfl
  | cons other rest ih =>
      rw [rank]
      split
      · rfl
      · rw [List.length_cons, ih, List.length_cons]

theorem length_foldr_rank (values : List α) : (values.foldr rank []).length = values.length := by
  induction values with
  | nil => rfl
  | cons value rest ih => rw [List.foldr_cons, length_rank, ih, List.length_cons]

theorem length_singularValues (h : x.cols ≤ x.height) : (singularValues x).length = x.cols := by
  unfold singularValues
  rw [if_pos h]
  simp only [length_foldr_rank, List.length_map, length_sweeps, length_fullRows]
  split
  · exact (length_reduce rfl).1.trans x.length_columns
  · exact (length_reduce rfl).1.trans ((List.length_map _).trans x.length_columns)

theorem shape_of_factorize (x : Matrix α) :
    (factorize x).1.height = x.height ∧ (factorize x).1.cols = x.cols ∧ (factorize x).2.height = x.cols ∧
      (factorize x).2.cols = x.cols := by
  obtain ⟨hrows, hreflections⟩ := length_reduce (rfl : x.columns.length = x.columns.length)
  rw [x.length_columns] at hrows hreflections
  unfold factorize
  rw [triangularize, x.length_columns]
  dsimp only
  generalize hpairs :
    List.zipWith upright (reduce x.cols x.columns).1 (basis x.height (reduce x.cols x.columns).2) = pairs
  have hlength : pairs.length = x.cols := by
    rw [← hpairs, List.length_zipWith, length_basis, hrows, hreflections, Nat.min_self]
  refine ⟨rfl, (List.length_map _).trans hlength, ?_, rfl⟩
  refine (Matrix.length_columns _).trans ((length_fullRows 0 _).trans ?_)
  rw [List.length_map, hlength]

theorem length_of_backSubstituteAll {triangle : Triangle α} {sides weights : List (List α)}
    (h : backSubstituteAll triangle sides = some weights) : weights.length = sides.length := by
  induction sides generalizing weights with
  | nil =>
      cases h
      rfl
  | cons side sides ih =>
      obtain ⟨first, -, h⟩ := Option.bind_eq_some_iff.1 h
      obtain ⟨more, hmore, h⟩ := Option.bind_eq_some_iff.1 h
      cases h
      rw [List.length_cons, List.length_cons, ih hmore]

/-- The routines of the library always come to an end, and what they answer has the usual shape. -/
theorem Routines.own_usual : (own : Routines Option α).Usual where
  singular_ends x _ _ := ⟨singularValues x, rfl⟩
  singular_length x values hx hvalues := by
    obtain rfl := Option.some.inj hvalues
    exact length_singularValues hx
  factor_ends x _ _ := ⟨_, _, rfl⟩
  factor_shape x q r _ hfactor := by
    have hshape := shape_of_factorize x
    rwa [Option.some.inj hfactor] at hshape
  solve_ends r sides _ _ _ _ := ⟨solveTriangular r sides, rfl⟩
  solve_shape r sides solution _ _ hsolved := by
    obtain ⟨columns, hcolumns, hsolution⟩ := Option.bind_eq_some_iff.1 (Option.some.inj hsolved)
    cases hsolution
    exact ⟨rfl, (length_of_backSubstituteAll hcolumns).trans sides.length_columns⟩

/-- The weights that the program fits have a row for each feature and a column for each target. -/
theorem fit_shape (h : fit limit x y = .ok weights) : weights.height = x.cols ∧ weights.cols = y.cols :=
  Routines.own_usual.shape_of_fit (Routines.fit_eq_some_ok_iff.2 (fit_eq_ok_iff.1 h))

end FlightFit
