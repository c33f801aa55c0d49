import FlightFit.Proofs.DoubleOrder
import FlightFit.Proofs.FittedWeights
import FlightFit.Regressor

/-!
Module: FlightFit.Proofs.FitOutcomes
Purpose: How a fit ends. A system is looked at in a fixed order: its shape, its number of rows, whether its
  targets and then its features are finite, its condition, and at last its solution; `Routines.outcome_of_fit` says for
  each of these ends what the checks before it have found. The routines that a fit calls need not come to an end on a
  matrix with an entry that is not finite; a fit never depends on what they do there
  (`Routines.fit_eq_of_agree_on_finite`).
Main exports: Routines.FitOutcome, Routines.outcome_of_fit, fit_outcome, Routines.fit_of_not_finite,
  Routines.fit_eq_of_agree_on_finite, Condition.within_iff, Extreme, exists_ratio_of_conditionOf,
  training_classifies_systems
-/

namespace FlightFit

section Outcome

variable {α : Type} [RootedScalar α] {limit : α} {x y : Matrix α}

/-- What is found about a system before any routine is called. -/
inductive Screened (x y : Matrix α) : Prop where
  | rowCounts (hrows : y.height ≠ x.height)
  | noColumns (hrows : y.height = x.height) (hcolumns : x.cols = 0)
  | tooFewRows (hrows : y.height = x.height) (hcolumns : x.cols ≠ 0) (hfew : x.height < x.cols)
  | notFinite (hposed : Posed x y) (hentry : (x.all Scalar.finite && y.all Scalar.finite) = false)
  | finite (hposed : Posed x y) (hx : x.all Scalar.finite = true) (hy : y.all Scalar.finite = true)

theorem screened (x y : Matrix α) : Screened x y := by
  by_cases hrows : y.height = x.height
  · by_cases hcolumns : x.cols = 0
    · exact .noColumns hrows hcolumns
    · by_cases hfew : x.height < x.cols
      · exact .tooFewRows hrows hcolumns hfew
      · have hposed : Posed x y := ⟨hrows, hcolumns, Nat.not_lt.1 hfew⟩
        cases hentry : x.all Scalar.finite && y.all Scalar.finite with
        | false => exact .notFinite hposed hentry
        | true =>
            obtain ⟨hx, hy⟩ := Bool.and_eq_true_iff.1 hentry
            exact .finite hposed hx hy
  · exact .rowCounts hrows

namespace Routines

/-- The ends of a fit. Each comes with what the checks before it have found, in the order of the checks. -/
inductive FitOutcome (routines : Routines Option α) (limit : α) (x y : Matrix α) :
    Except (FitFault α) (Matrix α) → Prop where
  | rowCounts (hrows : y.height ≠ x.height) :
      FitOutcome routines limit x y (.error (.rowCounts x.height y.height))
  | noColumns (hrows : y.height = x.height) (hcolumns : x.cols = 0) : FitOutcome routines limit x y (.error .noColumns)
  | tooFewRows (hrows : y.height = x.height) (hcolumns : x.cols ≠ 0) (hfew : x.height < x.cols) :
      FitOutcome routines limit x y (.error (.tooFewRows x.height))
  | undefined (hposed : Posed x y) (hentry : (x.all Scalar.finite && y.all Scalar.finite) = false) :
      FitOutcome routines limit x y (.error (.unstable .undefined))
  | unstable (values : List α) (hposed : Posed x y) (hx : x.all Scalar.finite = true)
      (hy : y.all Scalar.finite = true) (hvalues : routines.singular x = some values)
      (hcondition : (conditionOf values).within limit = false) :
      FitOutcome routines limit x y (.error (.unstable (conditionOf values)))
  | unsolved (values : List α) (hposed : Posed x y) (hx : x.all Scalar.finite = true)
      (hy : y.all Scalar.finite = true) (hvalues : routines.singular x = some values)
      (hcondition : (conditionOf values).within limit = true)
      (hsolution : ∀ weights, routines.solveSystem x y = some (some weights) → weights.all Scalar.finite = false) :
      FitOutcome routines limit x y (.error (.unstable (conditionOf values)))
  | solved (values : List α) (weights : Matrix α) (hposed : Posed x y) (hx : x.all Scalar.finite = true)
      (hy : y.all Scalar.finite = true) (hvalues : routines.singular x = some values)
      (hcondition : (conditionOf values).within limit = true)
      (hsolution : routines.solveSystem x y = some (some weights)) (hweights : weights.all Scalar.finite = true) :
      FitOutcome routines limit x y (.ok weights)

variable (routines : Routines Option α)

/-! ### The ends without a call -/

theorem fit_of_rows_ne (limit : α) (h : y.height ≠ x.height) :
    routines.fit limit x y = some (.error (.rowCounts x.height y.height)) := by
  simp [fit, assess, h]

theorem fit_of_no_columns (limit : α) (hrows : y.height = x.height) (h : x.cols = 0) :
    routines.fit limit x y = some (.error .noColumns) := by
  simp [fit, assess, hrows, h]

theorem fit_of_few_rows (limit : α) (hrows : y.height = x.height) (hcolumns : x.cols ≠ 0) (h : x.height < x.cols) :
    routines.fit limit x y = some (.error (.tooFewRows x.height)) := by
  simp [fit, assess, hrows, hcolumns, h]

/-- A system with an entry that is not finite is refused before any routine is called. -/
theorem fit_of_not_finite (limit : α) (h : Posed x y) (hentry : (x.all Scalar.finite && y.all Scalar.finite) = false) :
    routines.fit limit x y = some (.error (.unstable .undefined)) := by
  rw [h.fit_eq]
  split
  · next hy =>
      have hx : x.all Scalar.finite = false := by simpa [hy] using hentry
      -- Only here are the features looked at: an undefined condition is within no limit.
      rw [h.conditionNumber_eq, hx]
      rfl
  · rfl

/-! ### The ends after a call -/

/-- What is left to do for a posed system with finite entries. -/
theorem fit_of_finite (limit : α) (h : Posed x y) (hx : x.all Scalar.finite = true) (hy : y.all Scalar.finite = true) :
    routines.fit limit x y = (do
      let values ← routines.singular x
      if (conditionOf values).within limit then accepted (conditionOf values) <$> routines.solveSystem x y
      else some (.error (.unstable (conditionOf values)))) := by
  rw [h.fit_eq, if_pos hy, h.conditionNumber_eq, if_pos hx, bind_map_left]
  rfl

variable {routines}

theorem accepted_eq_error {condition : Condition α} {solution : Option (Matrix α)}
    (h : ∀ weights, solution = some weights → weights.all Scalar.finite = false) :
    accepted condition solution = .error (.unstable condition) := by
  cases solution with
  | none => rfl
  | some weights => rw [accepted, h weights rfl, if_neg Bool.false_ne_true]

/-- A fit that comes to an end ends in one of these ways. -/
theorem outcome_of_fit {result : Except (FitFault α) (Matrix α)} (h : routines.fit limit x y = some result) :
    routines.FitOutcome limit x y result := by
  cases screened x y with
  | rowCounts hrows =>
      cases (routines.fit_of_rows_ne limit hrows).symm.trans h
      exact .rowCounts hrows
  | noColumns hrows hcolumns =>
      cases (routines.fit_of_no_columns limit hrows hcolumns).symm.trans h
      exact .noColumns hrows hcolumns
  | tooFewRows hrows hcolumns hfew =>
      cases (routines.fit_of_few_rows limit hrows hcolumns hfew).symm.trans h
      exact .tooFewRows hrows hcolumns hfew
  | notFinite hposed hentry =>
      cases (routines.fit_of_not_finite limit hposed hentry).symm.trans h
      exact .undefined hposed hentry
  | finite hposed hx hy =>
      rw [routines.fit_of_finite limit hposed hx hy] at h
      obtain ⟨values, hvalues, h⟩ := Option.bind_eq_some_iff.1 h
      split at h
      · next hcondition =>
          obtain ⟨solution, hsolution, rfl⟩ := Option.map_eq_some_iff.1 h
          by_cases haccepted : ∃ weights, accepted (conditionOf values) solution = .ok weights
          · obtain ⟨weights, haccepted⟩ := haccepted
            obtain ⟨rfl, hweights⟩ := accepted_eq_ok_iff.1 haccepted
            rw [haccepted]
            exact .solved values weights hposed hx hy hvalues hcondition hsolution hweights
          · have hrefused : ∀ weights, solution = some weights → weights.all Scalar.finite = false := by
              intro weights hweights
              rw [← Bool.not_eq_true]
              exact fun hfinite => haccepted ⟨weights, accepted_eq_ok_iff.2 ⟨hweights, hfinite⟩⟩
            rw [accepted_eq_error hrefused]
            refine .unsolved values hposed hx hy hvalues hcondition fun weights hweights => hrefused weights ?_
            exact Option.some.inj (hsolution.symm.trans hweights)
      · next hcondition =>
          cases h
          exact .unstable values hposed hx hy hvalues (Bool.eq_false_iff.2 hcondition)

/-- Routines that answer alike on finite matrices fit alike: nothing is asked about other ones but the solution of a
    triangular system. -/
theorem fit_eq_of_agree_on_finite {others : Routines Option α} (limit : α) (x y : Matrix α)
    (hagree : ∀ m : Matrix α, m.all Scalar.finite = true →
      others.singular m = routines.singular m ∧ others.factor m = routines.factor m)
    (hsolve : others.solve = routines.solve) : others.fit limit x y = routines.fit limit x y := by
  cases screened x y with
  | rowCounts hrows => rw [others.fit_of_rows_ne limit hrows, routines.fit_of_rows_ne limit hrows]
  | noColumns hrows hcolumns =>
      rw [others.fit_of_no_columns limit hrows hcolumns, routines.fit_of_no_columns limit hrows hcolumns]
  | tooFewRows hrows hcolumns hfew =>
      rw [others.fit_of_few_rows limit hrows hcolumns hfew, routines.fit_of_few_rows limit hrows hcolumns hfew]
  | notFinite hposed hentry =>
      rw [others.fit_of_not_finite limit hposed hentry, routines.fit_of_not_finite limit hposed hentry]
  | finite hposed hx hy =>
      obtain ⟨hsingular, hfactor⟩ := hagree x hx
      have hsystem : others.solveSystem x y = routines.solveSystem x y := by
        rw [solveSystem, solveSystem, hfactor, hsolve]
      rw [others.fit_of_finite limit hposed hx hy, routines.fit_of_finite limit hposed hx hy, hsingular, hsystem]

end Routines

/-- The program's fit ends in one of these ways. -/
theorem fit_outcome (limit : α) (x y : Matrix α) :
    (Routines.own : Routines Option α).FitOutcome limit x y (fit limit x y) :=
  Routines.outcome_of_fit (Routines.own_fit Option limit x y)

end Outcome

/-! ### Condition numbers -/

/-- A condition is within a limit when its number is finite and does not exceed the limit. -/
theorem Condition.within_iff {limit : Float} {condition : Condition Float} :
    condition.within limit = true ↔ condition.toFloat.isFinite = true ∧ ¬ limit < condition.toFloat := by
  cases condition with
  | undefined => simp [within, toFloat, show (Binary.toFloat .undefined).isFinite = false by decide]
  | unbounded => simp [within, toFloat, show (Binary.toFloat (.infinite false)).isFinite = false by decide]
  | value ratio =>
      simp only [within, toFloat, Bool.and_eq_true, Bool.not_eq_true', Scalar.less, decide_eq_false_iff_not]
      rfl

/-- A value is one of some values and stands in a relation to all of them that are defined. -/
def Extreme (R : Float → Float → Prop) (values : List Float) (e : Float) : Prop :=
  e ∈ values ∧ ∀ s ∈ values, s.isNaN = true ∨ R e s

/-- The largest of some values; those that are undefined do not count. -/
abbrev Largest : List Float → Float → Prop := Extreme fun high s => s ≤ high

/-- The smallest of some values; those that are undefined do not count. -/
abbrev Smallest : List Float → Float → Prop := Extreme fun low s => low ≤ s

/-- Choosing between two values again and again chooses one among all. -/
theorem extreme_foldl {R : Float → Float → Prop} {choose : Float → Float → Float}
    (hchoose : ∀ a b, Extreme R [a, b] (choose a b)) (htrans : ∀ {a b c}, R a b → R b c → R a c)
    (hdefined : ∀ {a b}, R a b → a.isNaN = false) (first : Float) (rest : List Float) :
    Extreme R (first :: rest) (rest.foldl choose first) := by
  induction rest generalizing first with
  | nil =>
      obtain ⟨hmem, hall⟩ := hchoose first first
      have hsame : choose first first = first := by simpa using hmem
      rw [hsame] at hall
      refine ⟨List.mem_singleton_self first, fun s hs => ?_⟩
      obtain rfl := List.mem_singleton.1 hs
      exact hall s List.mem_cons_self
  | cons next rest ih =>
      obtain ⟨hmem, hall⟩ := ih (choose first next)
      obtain ⟨hpair, hboth⟩ := hchoose first next
      have hlist : first :: next :: rest = [first, next] ++ rest := rfl
      rw [List.foldl_cons, hlist]
      constructor
      · rcases List.mem_cons.1 hmem with heq | hmem
        · rw [heq]
          exact List.mem_append_left _ hpair
        · exact List.mem_append_right _ hmem
      · intro s hs
        rcases List.mem_append.1 hs with hs | hs
        · rcases hboth s hs with hnan | hchosen
          · exact .inl hnan
          · have hdef := hdefined hchosen
            rcases hall _ List.mem_cons_self with hnan | hbest
            · exact absurd (hdef.symm.trans hnan) Bool.false_ne_true
            · exact .inr (htrans hbest hchosen)
        · exact hall s (List.mem_cons_of_mem _ hs)

/-- The second of two values is chosen if it is better or the first one is undefined. -/
theorem extreme_choose {R : Float → Float → Prop} {better : Bool} {a b : Float}
    (hself : ∀ s : Float, s.isNaN = true ∨ R s s) (hbetter : better = true → R b a)
    (hworse : better = false → a.isNaN = false → b.isNaN = false → R a b) :
    Extreme R [a, b] (if better || !Scalar.same a a then b else a) := by
  split
  · next hsecond =>
      refine ⟨by simp, fun s hs => ?_⟩
      rcases (List.mem_cons.trans (or_congr_right List.mem_singleton)).1 hs with rfl | rfl
      · rcases Bool.or_eq_true_iff.1 hsecond with h | h
        · exact .inr (hbetter h)
        · exact .inl (same_self_eq_false_iff.1 (by simpa using h))
      · exact hself s
  · next hfirst =>
      obtain ⟨hnot, hsame⟩ := Bool.or_eq_false_iff.1 (Bool.eq_false_iff.2 hfirst)
      have ha : a.isNaN = false := by
        rw [← Bool.not_eq_true, ← same_self_eq_false_iff]
        simpa using hsame
      refine ⟨by simp, fun s hs => ?_⟩
      rcases (List.mem_cons.trans (or_congr_right List.mem_singleton)).1 hs with rfl | rfl
      · exact hself s
      · cases hb : s.isNaN with
        | true => exact .inl rfl
        | false => exact .inr (hworse hnot ha hb)

theorem largest_larger (a b : Float) : Largest [a, b] (larger a b) :=
  extreme_choose isNaN_or_le_self (fun h => float_le_of_lt (less_iff.1 h)) fun h ha hb =>
    float_le_of_not_lt hb ha fun hless => Bool.false_ne_true (h.symm.trans (less_iff.2 hless))

theorem smallest_smaller (a b : Float) : Smallest [a, b] (smaller a b) :=
  extreme_choose isNaN_or_le_self (fun h => float_le_of_lt (less_iff.1 h)) fun h ha hb =>
    float_le_of_not_lt ha hb fun hless => Bool.false_ne_true (h.symm.trans (less_iff.2 hless))

/-- The ratio of the largest singular value to the smallest, which is infinite if that is not positive. -/
def conditionRatio (high low : Float) : Float :=
  if low ≤ 0.0 then Binary.toFloat (.infinite false) else high / low

/-- The condition number is the ratio of the largest to the smallest of the singular values. -/
theorem exists_ratio_of_conditionOf {values : List Float} (h : values ≠ []) :
    ∃ high low, Largest values high ∧ Smallest values low ∧ (conditionOf values).toFloat = conditionRatio high low := by
  obtain ⟨first, rest, rfl⟩ := List.exists_cons_of_ne_nil h
  refine ⟨rest.foldl larger first, rest.foldl smaller first,
    extreme_foldl largest_larger (fun hab hbc => float_le_trans hbc hab) (fun hab => (isNaN_eq_false_of_le hab).2) _ _,
    extreme_foldl smallest_smaller float_le_trans (fun hab => (isNaN_eq_false_of_le hab).1) _ _, ?_⟩
  rw [conditionOf, conditionRatio]
  split
  · next hlow => exact (if_pos (atMost_iff.1 hlow)).symm
  · next hlow => exact (if_neg fun h => hlow (atMost_iff.2 h)).symm

/-! ### Training -/

namespace Regressor

variable (r : Regressor) {routines : Routines Option Float} {x y : Matrix Float}

theorem trainWith_of_fit {outcome : Except (FitFault Float) (Matrix Float)}
    (h : routines.fit r.options.maxCondition x y = some outcome) :
    r.trainWith routines x y = some (outcome.mapError FitFault.toFault) :=
  Option.map_eq_some_iff.2 ⟨outcome, h, rfl⟩

/-- Training ends as the fit does. -/
theorem outcome_of_trainWith {trained : Except Fault (Matrix Float)} (h : r.trainWith routines x y = some trained) :
    ∃ outcome, routines.FitOutcome r.options.maxCondition x y outcome ∧
      trained = outcome.mapError FitFault.toFault := by
  obtain ⟨outcome, hfit, rfl⟩ := Option.map_eq_some_iff.1 h
  exact ⟨outcome, Routines.outcome_of_fit hfit, rfl⟩

/-- The program trains with the routines of the library. -/
theorem trainWith_own (x y : Matrix Float) :
    r.trainWith (Routines.own : Routines Option Float) x y = some (r.train x y) :=
  r.trainWith_of_fit (Routines.own_fit Option r.options.maxCondition x y)

theorem trainWith_shapeMismatch_iff :
    (∃ reason, r.trainWith routines x y = some (.error (.shapeMismatch reason))) ↔
      y.height ≠ x.height ∨ x.cols = 0 := by
  constructor
  · rintro ⟨reason, h⟩
    obtain ⟨outcome, houtcome, hfault⟩ := r.outcome_of_trainWith h
    cases houtcome with
    | rowCounts hrows => exact .inl hrows
    | noColumns _ hcolumns => exact .inr hcolumns
    | tooFewRows | undefined | unstable | unsolved | solved => cases hfault
  · by_cases hrows : y.height = x.height
    · intro h
      exact ⟨_, r.trainWith_of_fit (routines.fit_of_no_columns _ hrows (h.resolve_left (not_not_intro hrows)))⟩
    · intro _
      exact ⟨_, r.trainWith_of_fit (routines.fit_of_rows_ne _ hrows)⟩

theorem train_shapeMismatch_iff :
    (∃ reason, r.train x y = .error (.shapeMismatch reason)) ↔ y.height ≠ x.height ∨ x.cols = 0 := by
  have hown : (∃ reason, r.trainWith (Routines.own : Routines Option Float) x y = some (.error (.shapeMismatch reason))) ↔
      y.height ≠ x.height ∨ x.cols = 0 := r.trainWith_shapeMismatch_iff
  simpa only [trainWith_own, Option.some.injEq] using hown

theorem trainWith_insufficientData_iff (hrows : y.height = x.height) (hcolumns : x.cols ≠ 0) {rows : Nat} :
    r.trainWith routines x y = some (.error (.insufficientData rows)) ↔ x.height < x.cols ∧ rows = x.height := by
  constructor
  · intro h
    obtain ⟨outcome, houtcome, hfault⟩ := r.outcome_of_trainWith h
    cases houtcome with
    | tooFewRows _ _ hfew =>
        cases hfault
        exact ⟨hfew, rfl⟩
    | rowCounts | noColumns | undefined | unstable | unsolved | solved => cases hfault
  · rintro ⟨hfew, rfl⟩
    exact r.trainWith_of_fit (routines.fit_of_few_rows _ hrows hcolumns hfew)

/-- A system with finite entries has weights or an unstable condition, and no weights if that is beyond the limit. -/
theorem trainWith_of_finite (hposed : Posed x y) (hx : x.all Float.isFinite = true) (hy : y.all Float.isFinite = true)
    {values : List Float} (hvalues : routines.singular x = some values) :
    ((conditionOf values).within r.options.maxCondition = false →
      r.trainWith routines x y = some (.error (.instability (conditionOf values).toFloat))) ∧
    ∀ trained, r.trainWith routines x y = some trained →
      trained = .error (.instability (conditionOf values).toFloat) ∨ ∃ weights, trained = .ok weights := by
  constructor
  · intro hcondition
    have hfit : routines.fit r.options.maxCondition x y = some (.error (.unstable (conditionOf values))) := by
      rw [routines.fit_of_finite _ hposed hx hy, hvalues]
      exact if_neg (Bool.eq_false_iff.1 hcondition)
    exact r.trainWith_of_fit hfit
  · intro trained h
    obtain ⟨outcome, houtcome, rfl⟩ := r.outcome_of_trainWith h
    cases houtcome with
    | rowCounts hrows => exact absurd hposed.rows hrows
    | noColumns _ hcolumns => exact absurd hcolumns hposed.columns
    | tooFewRows _ _ hfew => exact absurd hfew (Nat.not_lt.2 hposed.tall)
    | undefined _ hentry =>
        have hfinite : (x.all Float.isFinite && y.all Float.isFinite) = true := Bool.and_eq_true_iff.2 ⟨hx, hy⟩
        exact absurd (hentry.symm.trans hfinite) Bool.false_ne_true
    | unstable others _ _ _ hothers | unsolved others _ _ _ hothers =>
        obtain rfl := Option.some.inj (hvalues.symm.trans hothers)
        exact .inl rfl
    | solved _ weights => exact .inr ⟨weights, rfl⟩

/-- Weights are fitted to finite entries only, and are finite themselves. -/
theorem of_trainWith (husual : routines.Usual) {weights : Matrix Float}
    (h : r.trainWith routines x y = some (.ok weights)) :
    weights.height = x.cols ∧ weights.cols = y.cols ∧ weights.all Float.isFinite = true ∧
      x.all Float.isFinite = true ∧ y.all Float.isFinite = true ∧ Posed x y := by
  obtain ⟨outcome, hfit, htrained⟩ := Option.map_eq_some_iff.1 h
  obtain rfl := mapError_eq_ok_iff.1 htrained
  obtain ⟨hheight, hcols⟩ := husual.shape_of_fit hfit
  cases Routines.outcome_of_fit hfit with
  | solved _ _ hposed hx hy _ _ _ hweights => exact ⟨hheight, hcols, hweights, hx, hy, hposed⟩

/-- Training on a system with finite entries comes to an end, unless the factors of the features, or the coordinates of
    the targets, are not finite. -/
theorem exists_trainWith (husual : routines.Usual) (hposed : Posed x y) (hx : x.all Float.isFinite = true)
    (hy : y.all Float.isFinite = true) :
    (∃ trained, r.trainWith routines x y = some trained) ∨
      ∃ q upper, routines.factor x = some (q, upper) ∧
        ¬((upper.corner x.cols).all Float.isFinite = true ∧
          ((q.transpose.mul y).top x.cols).all Float.isFinite = true) := by
  obtain ⟨values, hvalues⟩ := husual.singular_ends x hposed.tall hx
  obtain ⟨q, upper, hfactor⟩ := husual.factor_ends x hposed.tall hx
  obtain ⟨hheight, hcols, hsides, -⟩ := husual.shape_of_factor hposed hfactor
  by_cases hfinite : (upper.corner x.cols).all Float.isFinite = true ∧
      ((q.transpose.mul y).top x.cols).all Float.isFinite = true
  · left
    obtain ⟨solution, hsolution⟩ :=
      husual.solve_ends _ _ (hheight.trans hcols.symm) (hsides.trans hcols.symm) hfinite.1 hfinite.2
    have hsolved : routines.solveSystem x y = some solution := by
      rw [Routines.solveSystem, hfactor]
      exact hsolution
    have hfit := routines.fit_of_finite r.options.maxCondition hposed hx hy
    rw [hvalues, hsolved] at hfit
    rcases Bool.eq_false_or_eq_true ((conditionOf values).within r.options.maxCondition) with hcondition | hcondition
    · exact ⟨_, r.trainWith_of_fit (hfit.trans (if_pos hcondition))⟩
    · exact ⟨_, r.trainWith_of_fit (hfit.trans (if_neg (Bool.eq_false_iff.1 hcondition)))⟩
  · exact .inr ⟨q, upper, hfactor, hfinite⟩

end Regressor

/-- Training refuses a system for its shape when the numbers of rows differ or there are no columns, and otherwise for
    too few rows when there are fewer rows than columns. A system that is left and has an entry that is not finite is
    unstable, with an undefined condition number. One with finite entries is unstable if its condition number, the ratio
    of the largest to the smallest of the singular values that the routine gives, is not finite or exceeds the limit;
    otherwise it has finite weights or is unstable all the same. So weights are fitted to finite entries only. What the
    routines do on matrices that are not finite has no part in any of this, since they are never called for one. It
    holds for all routines that come to an end on finite matrices with answers of the usual shape, and the program
    trains with such routines. -/
theorem training_classifies_systems (r : Regressor) (routines : Routines Option Float) (husual : routines.Usual)
    (x y : Matrix Float) :
    ((∃ reason, r.trainWith routines x y = some (.error (.shapeMismatch reason))) ↔
      y.height ≠ x.height ∨ x.cols = 0) ∧
    (y.height = x.height → x.cols ≠ 0 → ∀ rows,
      (r.trainWith routines x y = some (.error (.insufficientData rows)) ↔ x.height < x.cols ∧ rows = x.height)) ∧
    (Posed x y → ¬ (x.all Float.isFinite = true ∧ y.all Float.isFinite = true) →
      ∃ condition, condition.isNaN = true ∧ r.trainWith routines x y = some (.error (.instability condition))) ∧
    (Posed x y → x.all Float.isFinite = true → y.all Float.isFinite = true →
      (∃ values high low, routines.singular x = some values ∧ Largest values high ∧ Smallest values low ∧
        ((conditionRatio high low).isFinite = false ∨ r.options.maxCondition < conditionRatio high low →
          r.trainWith routines x y = some (.error (.instability (conditionRatio high low)))) ∧
        ∀ trained, r.trainWith routines x y = some trained →
          trained = .error (.instability (conditionRatio high low)) ∨ ∃ weights, trained = .ok weights) ∧
      ((∃ trained, r.trainWith routines x y = some trained) ∨
        ∃ q upper, routines.factor x = some (q, upper) ∧
          ¬ ((upper.corner x.cols).all Float.isFinite = true ∧
            ((q.transpose.mul y).top x.cols).all Float.isFinite = true))) ∧
    (∀ weights, r.trainWith routines x y = some (.ok weights) →
      weights.height = x.cols ∧ weights.cols = y.cols ∧ weights.all Float.isFinite = true ∧
      x.all Float.isFinite = true ∧ y.all Float.isFinite = true ∧ 1 ≤ x.cols ∧ x.cols ≤ x.height) ∧
    (∀ others : Routines Option Float,
      (∀ m : Matrix Float, m.all Float.isFinite = true →
        others.singular m = routines.singular m ∧ others.factor m = routines.factor m) →
      others.solve = routines.solve → r.trainWith others x y = r.trainWith routines x y) ∧
    (Routines.own : Routines Option Float).Usual ∧ r.trainWith Routines.own x y = some (r.train x y) := by
  refine ⟨r.trainWith_shapeMismatch_iff, fun hrows hcolumns rows => r.trainWith_insufficientData_iff hrows hcolumns, ?_,
    ?_, ?_, ?_, Routines.own_usual, r.trainWith_own x y⟩
  · intro hposed hentry
    have hentry : (x.all Float.isFinite && y.all Float.isFinite) = false := by
      rw [← Bool.and_eq_true_iff] at hentry
      exact Bool.eq_false_iff.2 hentry
    exact ⟨_, by decide, r.trainWith_of_fit (routines.fit_of_not_finite _ hposed hentry)⟩
  · intro hposed hx hy
    refine ⟨?_, r.exists_trainWith husual hposed hx hy⟩
    obtain ⟨values, hvalues⟩ := husual.singular_ends x hposed.tall hx
    have hsome : values ≠ [] := by
      rw [← List.length_pos_iff, husual.singular_length x values hposed.tall hvalues]
      exact Nat.pos_of_ne_zero hposed.columns
    obtain ⟨high, low, hhigh, hlow, hratio⟩ := exists_ratio_of_conditionOf hsome
    obtain ⟨hbeyond, hends⟩ := r.trainWith_of_finite hposed hx hy hvalues
    rw [hratio] at hbeyond hends
    refine ⟨values, high, low, hvalues, hhigh, hlow, fun h => hbeyond ?_, hends⟩
    rw [Bool.eq_false_iff, ne_eq, Condition.within_iff, hratio]
    rintro ⟨hfinite, hlimit⟩
    rcases h with hinfinite | hexceeds
    · exact Bool.false_ne_true (hinfinite.symm.trans hfinite)
    · exact hlimit hexceeds
  · intro weights hweights
    obtain ⟨hheight, hcols, hfinite, hx, hy, hposed⟩ := r.of_trainWith husual hweights
    exact ⟨hheight, hcols, hfinite, hx, hy, Nat.one_le_iff_ne_zero.2 hposed.columns, hposed.tall⟩
  · intro others hagree hsolve
    rw [Regressor.trainWith, Regressor.trainWith, Routines.fit_eq_of_agree_on_finite _ x y hagree hsolve]

/-- Three rows of two features, with a sample missing in the last one. -/
def gappyFeatures : Matrix Float := ⟨3, 2, [1.0, 2.0, 1.0, 4.0, 1.0, 0.0 / 0.0], rfl⟩

/-- The same rows with nothing missing. -/
def wholeFeatures : Matrix Float := ⟨3, 2, [1.0, 2.0, 1.0, 4.0, 1.0, 8.0], rfl⟩

/-- Targets for the three rows. -/
def threeTargets : Matrix Float := ⟨3, 1, [5.0, 7.0, 9.0], rfl⟩

/-- Decompositions that do not come to an end on a matrix with an entry that is not finite. -/
def hangingRoutines : Routines Option Float where
  singular m := if m.all Scalar.finite then Routines.own.singular m else none
  factor m := if m.all Scalar.finite then Routines.own.factor m else none
  solve := Routines.own.solve

theorem usual_hangingRoutines : hangingRoutines.Usual where
  singular_ends x hx hfinite := by
    obtain ⟨values, hvalues⟩ := Routines.own_usual.singular_ends x hx hfinite
    exact ⟨values, (if_pos hfinite).trans hvalues⟩
  singular_length x values hx hvalues :=
    Routines.own_usual.singular_length x values hx (Option.ite_none_right_eq_some.1 hvalues).2
  factor_ends x hx hfinite := by
    obtain ⟨q, r, hfactor⟩ := Routines.own_usual.factor_ends x hx hfinite
    exact ⟨q, r, (if_pos hfinite).trans hfactor⟩
  factor_shape x q r hx hfactor := Routines.own_usual.factor_shape x q r hx (Option.ite_none_right_eq_some.1 hfactor).2
  solve_ends := Routines.own_usual.solve_ends
  solve_shape := Routines.own_usual.solve_shape

theorem training_classifies_systems_three_rows :
    hangingRoutines.Usual ∧ Posed gappyFeatures threeTargets ∧
    ¬ (gappyFeatures.all Float.isFinite = true ∧ threeTargets.all Float.isFinite = true) ∧
    (∃ condition, condition.isNaN = true ∧
      (Regressor.leastSquares {}).trainWith hangingRoutines gappyFeatures threeTargets =
        some (.error (.instability condition))) ∧
    ∃ weights, (Regressor.leastSquares {}).trainWith hangingRoutines wholeFeatures threeTargets = some (.ok weights) ∧
      (Regressor.leastSquares {}).train wholeFeatures threeTargets = .ok weights ∧
      weights.height = 2 ∧ weights.cols = 1 ∧ weights.all Float.isFinite = true := by
  have husual := usual_hangingRoutines
  have hposed : Posed gappyFeatures threeTargets := ⟨rfl, by decide, by decide⟩
  have hentry : ¬ (gappyFeatures.all Float.isFinite = true ∧ threeTargets.all Float.isFinite = true) := by
    decide +kernel
  have hfitted : ((Regressor.leastSquares {}).train wholeFeatures threeTargets).toOption.isSome = true := by
    decide +kernel
  obtain ⟨-, -, hundefined, -⟩ :=
    training_classifies_systems (.leastSquares {}) hangingRoutines husual gappyFeatures threeTargets
  obtain ⟨-, -, -, -, hweights, hothers, -, hown⟩ :=
    training_classifies_systems (.leastSquares {}) hangingRoutines husual wholeFeatures threeTargets
  obtain ⟨weights, htrain⟩ := Option.isSome_iff_exists.1 hfitted
  rw [toOption_eq_some_iff] at htrain
  -- On finite matrices the hanging routines are those of the library, so that training gives the same weights.
  have hsame := hothers Routines.own (fun m hm => ⟨(if_pos hm).symm, (if_pos hm).symm⟩) rfl
  have htrained := hsame.symm.trans (hown.trans (congrArg some htrain))
  obtain ⟨hheight, hcols, hfinite, -⟩ := hweights weights htrained
  exact ⟨husual, hposed, hentry, hundefined hposed hentry, weights, htrained, htrain, hheight, hcols, hfinite⟩

end FlightFit
