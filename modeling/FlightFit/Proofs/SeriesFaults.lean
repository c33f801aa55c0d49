import FlightFit.Proofs.SteadyWindows

/-!
Module: FlightFit.Proofs.SeriesFaults
Purpose: How segmenting ends. The segmenter differences the series before it looks for windows, so it fails exactly as
  differencing does: over series of different lengths, and otherwise at the first step at which the clock stands
  still, whether or not the samples there are steady. `SeriesFault` says so without either function. Where there is
  no such fault, there is an acceleration for every step, and a scan that looks every sample up by its position never
  asks for one that is not there.
Main exports: StandsStill, SeriesFault, markAt?, accelerations_eq_error_iff, steadyWindows_eq_error_iff,
  markAt?_eq_getElem?, segmenting_fails_as_differencing
-/

namespace FlightFit

/-- No time passes between sample `i` and the one after it. -/
def StandsStill (time : List Float) (i : Nat) : Prop :=
  ∃ t t', time[i]? = some t ∧ time[i + 1]? = some t' ∧ (t' - t == 0.0) = true

/-- What is wrong with two series: their lengths differ, or the clock stands still, for the first time at `i`. -/
inductive SeriesFault (speed time : List Float) : Fault → Prop where
  | lengths (h : speed.length ≠ time.length) :
      SeriesFault speed time (.lengthMismatch "time" speed.length time.length)
  | standstill {i : Nat} {t : Float} (hlen : speed.length = time.length) (hstill : StandsStill time i)
      (hfirst : ∀ j < i, ¬StandsStill time j) (htime : time[i]? = some t) : SeriesFault speed time (.division i t)

/-! ### Where the clock stands still -/

theorem standsStill_zero {t t' : Float} {time : List Float} :
    StandsStill (t :: t' :: time) 0 ↔ (t' - t == 0.0) = true := by
  simp [StandsStill]

theorem standsStill_succ {t : Float} {time : List Float} {i : Nat} :
    StandsStill (t :: time) (i + 1) ↔ StandsStill time i := by
  simp [StandsStill]

theorem not_standsStill_of_length {time : List Float} (h : time.length ≤ 1) (i : Nat) : ¬StandsStill time i := by
  rintro ⟨t, t', -, hnext, -⟩
  rcases List.getElem?_eq_some_iff.1 hnext with ⟨hbound, -⟩
  omega

/-- Differencing stops at the first step at which the clock stands still. -/
theorem quotients_eq_error_iff {speed time : List Float} (hlen : speed.length = time.length) (index : Nat)
    (fault : Fault) :
    quotients index speed time = .error fault ↔
      ∃ i t, StandsStill time i ∧ (∀ j < i, ¬StandsStill time j) ∧ time[i]? = some t ∧
        fault = .division (index + i) t := by
  fun_induction quotients index speed time with
  | case1 index v v' speed t t' time dt hzero =>
      have hstill : StandsStill (t :: t' :: time) 0 := standsStill_zero.2 hzero
      constructor
      · intro h
        exact ⟨0, t, hstill, by simp, rfl, (Except.error.inj h).symm⟩
      · rintro ⟨i, s, -, hfirst, htime, rfl⟩
        cases i with
        | zero => simp_all
        | succ i => exact absurd hstill (hfirst 0 (Nat.succ_pos i))
  | case2 index v v' speed t t' time dt hzero ih =>
      have hmoves : ¬StandsStill (t :: t' :: time) 0 := fun h => hzero (standsStill_zero.1 h)
      rw [bind_eq_error_iff]
      simp only [reduceCtorEq, and_false, exists_false, or_false, ih (by simpa using hlen)]
      constructor
      · rintro ⟨i, s, hstill, hfirst, htime, rfl⟩
        refine ⟨i + 1, s, standsStill_succ.2 hstill, ?_, by simpa using htime, by simp; omega⟩
        intro j hj
        cases j with
        | zero => exact hmoves
        | succ j => exact fun h => hfirst j (by omega) (standsStill_succ.1 h)
      · rintro ⟨i, s, hstill, hfirst, htime, rfl⟩
        cases i with
        | zero => exact absurd hstill hmoves
        | succ i =>
            refine ⟨i, s, standsStill_succ.1 hstill, ?_, by simpa using htime, by simp; omega⟩
            intro j hj h
            exact hfirst (j + 1) (by omega) (standsStill_succ.2 h)
  | case3 speed index time hshort =>
      have htime : time.length ≤ 1 := by
        rcases length_le_one_of_no_pair hshort with h | h
        · omega
        · exact h
      constructor
      · intro h
        cases h
      · rintro ⟨i, s, hstill, -⟩
        exact absurd hstill (not_standsStill_of_length htime i)

theorem accelerations_eq_error_iff {speed time : List Float} (fault : Fault) :
    accelerations speed time = .error fault ↔ SeriesFault speed time fault := by
  unfold accelerations
  split
  · next hlen =>
      rw [quotients_eq_error_iff hlen]
      constructor
      · rintro ⟨i, t, hstill, hfirst, htime, rfl⟩
        rw [Nat.zero_add]
        exact .standstill hlen hstill hfirst htime
      · rintro (hne | ⟨-, hstill, hfirst, htime⟩)
        · exact absurd hlen hne
        · exact ⟨_, _, hstill, hfirst, htime, by rw [Nat.zero_add]⟩
  · next hlen =>
      constructor
      · intro h
        cases h
        exact .lengths hlen
      · rintro (- | ⟨heq, -⟩)
        · rfl
        · exact absurd heq hlen

/-- Only differencing can fail in segmenting. -/
theorem steadyWindows_eq_error_iff {limits : CruiseLimits} {speed time : List Float} (fault : Fault) :
    steadyWindows limits speed time = .error fault ↔ accelerations speed time = .error fault := by
  unfold steadyWindows steadyRuns
  simp [bind_eq_error_iff]

/-! ### Looking samples up by position -/

/-- The acceleration from sample `i` to the next one, with every sample looked up by its position. -/
def accelAt? (speed time : List Float) (i : Nat) : Option Float := do
  let v ← speed[i]?
  let v' ← speed[i + 1]?
  let t ← time[i]?
  let t' ← time[i + 1]?
  some ((v' - v) / (t' - t))

/-- Whether sample `i` is steady, with every sample looked up by its position; there is no answer when a position is
    outside its series. -/
def markAt? (limits : CruiseLimits) (speed accel time : List Float) (i : Nat) : Option Bool := do
  let v ← speed[i]?
  let a ← accel[i]?
  let t ← time[i]?
  let t' ← time[i + 1]?
  some (isSteady limits v a t t')

/-- Every step of the series has its quotient, and there are no others. -/
theorem of_quotients {index : Nat} {speed time : List Float} (hlen : speed.length = time.length) :
    ∀ {accel}, quotients index speed time = .ok accel →
      accel.length = speed.length - 1 ∧ ∀ i, accel[i]? = accelAt? speed time i := by
  fun_induction quotients index speed time with
  | case1 index v v' speed t t' time dt hzero =>
      intro accel h
      cases h
  | case2 index v v' speed t t' time dt hzero ih =>
      intro accel h
      rcases bind_eq_ok_iff.1 h with ⟨rest, hrest, hok⟩
      rcases ih (by simpa using hlen) hrest with ⟨hlength, hlookup⟩
      cases hok
      refine ⟨by simpa using hlength, ?_⟩
      intro i
      cases i with
      | zero => rfl
      | succ i => simpa [accelAt?] using hlookup i
  | case3 speed index time hshort =>
      intro accel h
      cases h
      have hspeed : speed.length ≤ 1 := by
        rcases length_le_one_of_no_pair hshort with hlength | hlength
        · exact hlength
        · omega
      refine ⟨by rw [List.length_nil]; omega, ?_⟩
      intro i
      have hnone : speed[i + 1]? = none := List.getElem?_eq_none (by omega)
      simp [accelAt?, hnone]

/-- The marks of a flight are those that are looked up. -/
theorem markAt?_eq_getElem? (limits : CruiseLimits) (speed accel time : List Float) (i : Nat) :
    markAt? limits speed accel time i = (steadyMarks limits speed accel time)[i]? := by
  fun_induction steadyMarks limits speed accel time generalizing i with
  | case1 v speed a accel t t' time ih =>
      cases i with
      | zero => rfl
      | succ i => simpa [markAt?] using ih i
  | case2 speed accel time hshort =>
      match speed, accel, time with
      | [], _, _ | _ :: _, [], _ | _ :: _, _ :: _, [] | _ :: _, _ :: _, [_] => simp [markAt?]
      | v :: speed, a :: accel, t :: t' :: time => exact (hshort v speed a accel t t' time rfl rfl rfl).elim

theorem length_steadyMarks (limits : CruiseLimits) {speed accel time : List Float}
    (hlen : speed.length = time.length) (haccel : accel.length = speed.length - 1) :
    (steadyMarks limits speed accel time).length = accel.length := by
  fun_induction steadyMarks limits speed accel time with
  | case1 v speed a accel t t' time ih =>
      simp only [List.length_cons] at hlen haccel ⊢
      rw [ih (by simpa using hlen) (by omega)]
  | case2 speed accel time hshort =>
      match speed, accel, time with
      | [], [], _ | _ :: _, [], _ => rfl
      | v :: speed, a :: accel, t :: t' :: time => exact (hshort v speed a accel t t' time rfl rfl rfl).elim
      | [], _ :: _, _ | _ :: _, _ :: _, [] | _ :: _, _ :: _, [_] =>
          simp only [List.length_cons, List.length_nil] at hlen haccel
          omega

/-- Looking up all positions of a list gives the list. -/
theorem mapM_getElem?_range {α : Type} (list : List α) :
    (List.range list.length).mapM (fun i => list[i]?) = some list := by
  induction list with
  | nil => rfl
  | cons a rest ih =>
      have hrest : (List.range rest.length).mapM ((fun i => (a :: rest)[i]?) ∘ Nat.succ) = some rest := ih
      rw [List.length_cons, List.range_succ_eq_map, List.mapM_cons, List.mapM_map, hrest]
      rfl

theorem steadyWindows_of_accelerations (limits : CruiseLimits) {speed time accel : List Float}
    (h : accelerations speed time = .ok accel) :
    steadyWindows limits speed time =
      .ok ((runs 0 none (steadyMarks limits speed accel time)).filter fun w => limits.minLength < w.len) := by
  unfold steadyWindows steadyRuns
  rw [h]
  rfl

/-- Segmenting and differencing fail alike, whatever the limits: over series of different lengths, and otherwise at
    the first step at which the clock stands still. Where neither is the case, there is one acceleration for each two
    consecutive samples, and the windows are those of the marks that are found by looking every sample up by its
    position, all of which are there. -/
theorem segmenting_fails_as_differencing (speed time : List Float) :
    (∀ fault, accelerations speed time = .error fault ↔ SeriesFault speed time fault) ∧
    (∀ limits fault, steadyWindows limits speed time = .error fault ↔ SeriesFault speed time fault) ∧
    (speed.length = time.length → (∀ i, ¬StandsStill time i) →
      ∃ accel, accelerations speed time = .ok accel ∧ accel.length = max speed.length 1 - 1 ∧
        (∀ i, accel[i]? = accelAt? speed time i) ∧
        ∀ limits, ∃ marks windows, (List.range accel.length).mapM (markAt? limits speed accel time) = some marks ∧
          windows = (runs 0 none marks).filter (fun w => limits.minLength < w.len) ∧
          steadyWindows limits speed time = .ok windows) := by
  refine ⟨accelerations_eq_error_iff, ?_, ?_⟩
  · intro limits fault
    rw [steadyWindows_eq_error_iff, accelerations_eq_error_iff]
  · intro hlen hmoves
    cases haccel : accelerations speed time with
    | error fault =>
        rcases (accelerations_eq_error_iff fault).1 haccel with hne | ⟨-, hstill, -⟩
        · exact absurd hlen hne
        · exact absurd hstill (hmoves _)
    | ok accel =>
        have hquotients : quotients 0 speed time = .ok accel := by
          rw [← haccel, accelerations, if_pos hlen]
        rcases of_quotients hlen hquotients with ⟨hlength, hlookup⟩
        refine ⟨accel, rfl, by omega, hlookup, ?_⟩
        intro limits
        refine ⟨steadyMarks limits speed accel time, _, ?_, rfl, steadyWindows_of_accelerations limits haccel⟩
        have hall := mapM_getElem?_range (steadyMarks limits speed accel time)
        rw [length_steadyMarks limits hlen hlength] at hall
        rw [← hall]
        congr 1
        funext i
        exact markAt?_eq_getElem? limits speed accel time i

/-- A flight that stands on the ground, where its clock stops twice. -/
def parkedTime : List Float := [0.0, 1.0, 1.0, 2.0, 2.0]

theorem segmenting_fails_as_differencing_parked :
    steadyWindows ⟨0.01, 10.0, 200⟩ [0.0, 0.0, 0.0, 0.0, 0.0] parkedTime = .error (.division 1 1.0) ∧
    steadyWindows ⟨0.01, 10.0, 200⟩ [0.0] parkedTime = .error (.lengthMismatch "time" 1 5) ∧
    ∃ accel, accelerations [60.0, 61.0] [0.0, 2.0] = .ok accel ∧ accel.length = 1 := by
  rcases segmenting_fails_as_differencing [0.0, 0.0, 0.0, 0.0, 0.0] parkedTime with ⟨-, hparked, -⟩
  rcases segmenting_fails_as_differencing [0.0] parkedTime with ⟨-, hshort, -⟩
  rcases segmenting_fails_as_differencing [60.0, 61.0] [0.0, 2.0] with ⟨-, -, hmoving⟩
  refine ⟨(hparked _ _).2 (.standstill rfl ⟨1.0, 1.0, rfl, rfl, by decide⟩ ?_ rfl), (hshort _ _).2 (.lengths (by decide)), ?_⟩
  · intro j hj
    obtain rfl : j = 0 := Nat.lt_one_iff.1 hj
    rw [parkedTime, standsStill_zero]
    decide
  · have hmoves : ∀ i, ¬StandsStill [0.0, 2.0] i := by
      intro i
      cases i with
      | zero =>
          rw [standsStill_zero]
          decide
      | succ i =>
          rw [standsStill_succ]
          exact not_standsStill_of_length (by simp) i
    rcases hmoving (by simp) hmoves with ⟨accel, haccel, hlength, -⟩
    exact ⟨accel, haccel, by simpa using hlength⟩

end FlightFit
