import FlightFit.Proofs.Outcome
import FlightFit.Segment
import Mathlib.Data.List.Chain

/-!
Module: FlightFit.Proofs.SteadyWindows
Purpose: What the segmenter finds. `SteadyAt` says when a sample of a flight is steady and `MaximalRun`
  when a window is a run of such samples that cannot be made longer on either side, both without the
  scan that looks for them. The scan is then shown to list exactly the maximal runs, in order and apart
  from each other: `OpenAt` is what it knows about the run that is open before a sample, and carries the
  induction over the marks.
Main exports: ClockMoves, SteadyAt, MaximalRun, flightMarks, steadyRuns_eq_ok_iff,
  steadyWindows_eq_ok_iff, mem_runs_iff, runs_apart, mem_steadyWindows_iff_maximalRun
-/

namespace FlightFit

/-- No two consecutive times are equal, so that every acceleration has a divisor. -/
def ClockMoves (time : List Float) : Prop := time.IsChain fun t t' => (t' - t == 0.0) = false

instance (time : List Float) : Decidable (ClockMoves time) :=
  inferInstanceAs (Decidable (List.IsChain _ time))

/-- Sample `i` has a successor that comes later, is reached with a small acceleration, and the sample
    itself is fast. -/
def SteadyAt (limits : CruiseLimits) (speed time : List Float) (i : Nat) : Prop :=
  ∃ v v' t t', speed[i]? = some v ∧ speed[i + 1]? = some v' ∧ time[i]? = some t ∧ time[i + 1]? = some t' ∧
    t < t' ∧ Scalar.abs ((v' - v) / (t' - t)) < limits.accelTolerance ∧ limits.minSpeed < v

/-- A window on the first `count` positions, all of which satisfy `P` inside it and not next to it. -/
structure MaximalRun (P : Nat → Prop) (count : Nat) (w : Window) : Prop where
  nonempty : w.start < w.stop
  bounded : w.stop ≤ count
  holds : ∀ i, w.start ≤ i → i < w.stop → P i
  leftEnd : w.start = 0 ∨ ¬ P (w.start - 1)
  rightEnd : w.stop = count ∨ ¬ P w.stop

/-! ### Marks of a flight -/

/-- The marks of the samples of a flight, each judged from the sample and the one after it. -/
def flightMarks (limits : CruiseLimits) : List Float → List Float → List Bool
  | v :: v' :: speed, t :: t' :: time =>
    isSteady limits v ((v' - v) / (t' - t)) t t' :: flightMarks limits (v' :: speed) (t' :: time)
  | _, _ => []

theorem length_le_one_of_no_pair {speed time : List Float}
    (h : ∀ v v' speed' t t' time', speed = v :: v' :: speed' → time = t :: t' :: time' → False) :
    speed.length ≤ 1 ∨ time.length ≤ 1 := by
  match speed, time with
  | [], _ | [_], _ => simp
  | _ :: _ :: _, [] | _ :: _ :: _, [_] => simp
  | v :: v' :: speed', t :: t' :: time' => exact (h v v' speed' t t' time' rfl rfl).elim

/-- Where the clock moves, all accelerations exist, and marking with them marks the flight. -/
theorem quotients_of_clockMoves {speed time : List Float} (hlen : speed.length = time.length)
    (hclock : ClockMoves time) (index : Nat) :
    ∃ accel, quotients index speed time = .ok accel ∧
      ∀ limits, steadyMarks limits speed accel time = flightMarks limits speed time := by
  fun_induction quotients index speed time with
  | case1 index v v' speed t t' time dt hzero =>
      have hstep := (List.isChain_cons_cons.1 hclock).1
      simp [dt, hstep] at hzero
  | case2 index v v' speed t t' time dt hzero ih =>
      obtain ⟨accel, hok, hmarks⟩ := ih (by simpa using hlen) (List.isChain_cons_cons.1 hclock).2
      refine ⟨(v' - v) / dt :: accel, by rw [hok]; rfl, fun limits => ?_⟩
      rw [steadyMarks, flightMarks, hmarks limits]
  | case3 speed index time hshort =>
      refine ⟨[], rfl, fun limits => ?_⟩
      simp [steadyMarks, flightMarks.eq_2 limits speed time hshort]

/-- All accelerations exist only where the clock moves. -/
theorem clockMoves_of_quotients {speed time : List Float} (hlen : speed.length = time.length)
    (index : Nat) : ∀ {accel}, quotients index speed time = .ok accel → ClockMoves time := by
  fun_induction quotients index speed time with
  | case1 index v v' speed t t' time dt hzero =>
      intro accel hok
      simp at hok
  | case2 index v v' speed t t' time dt hzero ih =>
      intro accel hok
      obtain ⟨rest, hrest, _⟩ := bind_eq_ok_iff.1 hok
      have hstep : (t' - t == 0.0) = false := by simpa [dt] using hzero
      exact List.isChain_cons_cons.2 ⟨hstep, ih (by simpa using hlen) hrest⟩
  | case3 speed index time hshort =>
      intro accel _
      have htime : time.length ≤ 1 := by
        rcases length_le_one_of_no_pair hshort with h | h
        · rwa [hlen] at h
        · exact h
      match time, htime with
      | [], _ => exact .nil
      | [t], _ => exact .singleton t

/-- The runs of steady samples are found exactly when the series are equally long and the clock moves. -/
theorem steadyRuns_eq_ok_iff {limits : CruiseLimits} {speed time : List Float} {found : List Window} :
    steadyRuns limits speed time = .ok found ↔
      speed.length = time.length ∧ ClockMoves time ∧ found = runs 0 none (flightMarks limits speed time) := by
  unfold steadyRuns accelerations
  constructor
  · intro hok
    obtain ⟨accel, haccel, hfound⟩ := bind_eq_ok_iff.1 hok
    split at haccel
    · next hlen =>
        have hclock := clockMoves_of_quotients hlen 0 haccel
        obtain ⟨accel', haccel', hmarks⟩ := quotients_of_clockMoves hlen hclock 0
        rw [haccel, Except.ok.injEq] at haccel'
        subst haccel'
        rw [hmarks limits, Except.ok.injEq] at hfound
        exact ⟨hlen, hclock, hfound.symm⟩
    · simp at haccel
  · rintro ⟨hlen, hclock, rfl⟩
    obtain ⟨accel, haccel, hmarks⟩ := quotients_of_clockMoves hlen hclock 0
    rw [if_pos hlen, haccel, ok_bind, hmarks limits]

/-- The cruise windows are the runs of steady samples that are long enough. -/
theorem steadyWindows_eq_ok_iff {limits : CruiseLimits} {speed time : List Float} {windows : List Window} :
    steadyWindows limits speed time = .ok windows ↔
      speed.length = time.length ∧ ClockMoves time ∧
        windows = (runs 0 none (flightMarks limits speed time)).filter fun w => limits.minLength < w.len := by
  unfold steadyWindows
  rw [bind_eq_ok_iff]
  constructor
  · rintro ⟨found, hfound, hok⟩
    obtain ⟨hlen, hclock, rfl⟩ := steadyRuns_eq_ok_iff.1 hfound
    rw [Except.ok.injEq] at hok
    exact ⟨hlen, hclock, hok.symm⟩
  · rintro ⟨hlen, hclock, rfl⟩
    exact ⟨_, steadyRuns_eq_ok_iff.2 ⟨hlen, hclock, rfl⟩, rfl⟩

theorem isSteady_iff {limits : CruiseLimits} {v a t t' : Float} :
    isSteady limits v a t t' = true ↔
      t < t' ∧ Scalar.abs a < limits.accelTolerance ∧ limits.minSpeed < v := by
  simp [isSteady, and_assoc]

/-- Every sample but the last one has a mark. -/
theorem length_flightMarks (limits : CruiseLimits) {speed time : List Float}
    (hlen : speed.length = time.length) : (flightMarks limits speed time).length = speed.length - 1 := by
  fun_induction flightMarks limits speed time with
  | case1 v v' speed t t' time ih => simpa using ih (by simpa using hlen)
  | case2 speed time hshort =>
      rw [List.length_nil]
      rcases length_le_one_of_no_pair hshort with h | h <;> omega

/-- A sample is marked when it is steady. -/
theorem flightMarks_get_iff (limits : CruiseLimits) (speed time : List Float) (i : Nat) :
    (flightMarks limits speed time)[i]? = some true ↔ SteadyAt limits speed time i := by
  fun_induction flightMarks limits speed time generalizing i with
  | case1 v v' speed t t' time ih =>
      cases i with
      | zero => simp [SteadyAt, isSteady_iff]
      | succ i => simpa [SteadyAt] using ih i
  | case2 speed time hshort =>
      constructor
      · intro h
        simp at h
      · rintro ⟨v, v', t, t', -, hspeed, -, htime, -⟩
        obtain ⟨hspeed, -⟩ := List.getElem?_eq_some_iff.1 hspeed
        obtain ⟨htime, -⟩ := List.getElem?_eq_some_iff.1 htime
        rcases length_le_one_of_no_pair hshort with h | h <;> omega

/-! ### The scan for runs

Before position `index` the scan either has a run open, which began at a left end and holds so far, or it
stands behind a position that does not count. -/

/-- What the scan knows before position `index`. -/
def OpenAt (P : Nat → Prop) (index : Nat) : Option Nat → Prop
  | none => index = 0 ∨ ¬ P (index - 1)
  | some start => start < index ∧ (∀ i, start ≤ i → i < index → P i) ∧ (start = 0 ∨ ¬ P (start - 1))

/-- The marks tell which positions from `index` on count. -/
def MarksFrom (P : Nat → Prop) (index : Nat) (marks : List Bool) : Prop :=
  ∀ k, k < marks.length → (marks[k]? = some true ↔ P (index + k))

section Scan

variable {P : Nat → Prop} {index start count : Nat} {w : Window}

theorem MarksFrom.head {mark : Bool} {marks : List Bool} (h : MarksFrom P index (mark :: marks)) :
    mark = true ↔ P index := by
  simpa using h 0 (by simp)

theorem MarksFrom.tail {mark : Bool} {marks : List Bool} (h : MarksFrom P index (mark :: marks)) :
    MarksFrom P (index + 1) marks := by
  intro k hk
  have := h (k + 1) (by simpa using hk)
  rwa [List.getElem?_cons_succ, ← Nat.add_assoc, Nat.add_right_comm] at this

theorem OpenAt.initial : OpenAt P 0 none := Or.inl rfl

theorem OpenAt.begin (h : OpenAt P index none) (hP : P index) : OpenAt P (index + 1) (some index) := by
  refine ⟨by omega, fun i hle hlt => ?_, h⟩
  have hi : i = index := by omega
  exact hi ▸ hP

theorem OpenAt.extend (h : OpenAt P index (some start)) (hP : P index) :
    OpenAt P (index + 1) (some start) := by
  obtain ⟨hlt, hholds, hleft⟩ := h
  refine ⟨by omega, fun i hle hi => ?_, hleft⟩
  by_cases hlast : i = index
  · exact hlast ▸ hP
  · exact hholds i hle (by omega)

/-- Where a position does not count, the scan goes on without a run. -/
theorem OpenAt.gap (hP : ¬ P index) : OpenAt P (index + 1) none := Or.inr (by simpa using hP)

/-- An open run that ends at `index` is maximal. -/
theorem OpenAt.maximalRun (h : OpenAt P index (some start)) (hcount : index ≤ count)
    (hend : index = count ∨ ¬ P index) : MaximalRun P count ⟨start, index⟩ :=
  ⟨h.1, hcount, h.2.1, h.2.2, hend⟩

/-- A maximal run that begins inside an open run, which ends at `index`, is that run. -/
theorem MaximalRun.eq_of_openAt (hw : MaximalRun P count w) (h : OpenAt P index (some start))
    (hend : index = count ∨ ¬ P index) (hcount : index ≤ count) (hle : start ≤ w.start)
    (hlt : w.start < index) : w = ⟨start, index⟩ := by
  obtain ⟨-, hholds, -⟩ := h
  have hstart : w.start = start := by
    by_contra hne
    rcases hw.leftEnd with hzero | hleft
    · omega
    · exact hleft (hholds (w.start - 1) (by omega) (by omega))
  have hstop : w.stop = index := by
    rcases Nat.lt_trichotomy w.stop index with hshort | heq | hlong
    · have := hw.nonempty
      rcases hw.rightEnd with hall | hright
      · omega
      · exact absurd (hholds w.stop (by omega) hshort) hright
    · exact heq
    · have := hw.bounded
      rcases hend with hall | hgap
      · omega
      · exact absurd (hw.holds index (by omega) hlong) hgap
  cases w
  simp_all

/-- A maximal run does not begin where a position does not count. -/
theorem MaximalRun.start_ne (hw : MaximalRun P count w) (hP : ¬ P index) : w.start ≠ index := by
  intro heq
  exact hP (heq ▸ hw.holds w.start (Nat.le_refl _) hw.nonempty)

end Scan

/-- The scan lists the maximal runs that begin with the open one or later. -/
theorem mem_runs_iff {P : Nat → Prop} {marks : List Bool} {index : Nat} {opened : Option Nat}
    (hmarks : MarksFrom P index marks) (hopen : OpenAt P index opened) (w : Window) :
    w ∈ runs index opened marks ↔
      MaximalRun P (index + marks.length) w ∧ opened.getD index ≤ w.start := by
  fun_induction runs index opened marks with
  | case1 index start =>
      constructor
      · intro hw
        obtain rfl := List.mem_singleton.1 hw
        exact ⟨hopen.maximalRun (by simp) (by simp), by simp⟩
      · rintro ⟨hw, hle⟩
        have hlt : w.start < index := Nat.lt_of_lt_of_le hw.nonempty hw.bounded
        exact List.mem_singleton.2 (hw.eq_of_openAt hopen (by simp) (by simp) hle hlt)
  | case2 index =>
      constructor
      · simp
      · rintro ⟨hw, hle⟩
        have := hw.nonempty
        have := hw.bounded
        simp at *
        omega
  | case3 index marks ih =>
      have hP := hmarks.head.1 rfl
      rw [ih hmarks.tail (hopen.begin hP), List.length_cons, Nat.add_right_comm]
      rfl
  | case4 index marks start ih =>
      have hP : ¬ P index := fun h => Bool.false_ne_true (hmarks.head.2 h)
      have hstart := hopen.1
      rw [List.mem_cons, ih hmarks.tail (.gap hP), List.length_cons, Nat.add_right_comm]
      simp only [Option.getD_none, Option.getD_some]
      constructor
      · rintro (rfl | ⟨hw, hle⟩)
        · exact ⟨hopen.maximalRun (by omega) (.inr hP), Nat.le_refl _⟩
        · exact ⟨hw, by omega⟩
      · rintro ⟨hw, hle⟩
        have hne := hw.start_ne hP
        rcases Nat.lt_or_ge w.start index with hlt | hge
        · exact .inl (hw.eq_of_openAt hopen (.inr hP) (by omega) hle hlt)
        · exact .inr ⟨hw, by omega⟩
  | case5 index opened mark marks h1 h2 ih =>
      match mark, opened with
      | true, none => exact (h1 rfl rfl).elim
      | false, some start => exact (h2 start rfl rfl).elim
      | true, some start =>
          have hP := hmarks.head.1 rfl
          rw [ih hmarks.tail (hopen.extend hP), List.length_cons, Nat.add_right_comm]
          rfl
      | false, none =>
          have hP : ¬ P index := fun h => Bool.false_ne_true (hmarks.head.2 h)
          rw [ih hmarks.tail (.gap hP), List.length_cons, Nat.add_right_comm]
          refine and_congr_right fun hw => ?_
          have hne := hw.start_ne hP
          simp only [Option.getD_none]
          omega

/-- The runs that the scan lists come in order, with a gap between any two of them. -/
theorem runs_apart {P : Nat → Prop} {marks : List Bool} {index : Nat} {opened : Option Nat}
    (hmarks : MarksFrom P index marks) (hopen : OpenAt P index opened) :
    (runs index opened marks).Pairwise fun a b => a.stop < b.start := by
  fun_induction runs index opened marks with
  | case1 index start => exact List.pairwise_singleton _ _
  | case2 index => exact .nil
  | case3 index marks ih => exact ih hmarks.tail (hopen.begin (hmarks.head.1 rfl))
  | case4 index marks start ih =>
      have hP : ¬ P index := fun h => Bool.false_ne_true (hmarks.head.2 h)
      refine .cons (fun w hw => ?_) (ih hmarks.tail (.gap hP))
      have hle := ((mem_runs_iff hmarks.tail (.gap hP) w).1 hw).2
      exact hle
  | case5 index opened mark marks h1 h2 ih =>
      match mark, opened with
      | true, none => exact (h1 rfl rfl).elim
      | false, some start => exact (h2 start rfl rfl).elim
      | true, some start => exact ih hmarks.tail (hopen.extend (hmarks.head.1 rfl))
      | false, none => exact ih hmarks.tail (.gap fun h => Bool.false_ne_true (hmarks.head.2 h))

/-! ### The cruise windows -/

theorem marksFrom_flightMarks (limits : CruiseLimits) (speed time : List Float) :
    MarksFrom (SteadyAt limits speed time) 0 (flightMarks limits speed time) := by
  intro k _
  rw [Nat.zero_add]
  exact flightMarks_get_iff limits speed time k

/-- The scan of a flight lists exactly the maximal runs of its steady samples. -/
theorem mem_runs_flightMarks_iff (limits : CruiseLimits) {speed time : List Float}
    (hlen : speed.length = time.length) (w : Window) :
    w ∈ runs 0 none (flightMarks limits speed time) ↔
      MaximalRun (SteadyAt limits speed time) (speed.length - 1) w := by
  rw [mem_runs_iff (marksFrom_flightMarks limits speed time) .initial, Nat.zero_add,
    length_flightMarks limits hlen]
  simp

/-- On series of one length whose clock moves, the cruise windows are exactly the maximal runs of steady
    samples that are longer than the limit. They are found in order, once each, with at least one sample
    between any two of them. -/
theorem mem_steadyWindows_iff_maximalRun (limits : CruiseLimits) (speed time : List Float)
    (hlen : speed.length = time.length) (hclock : ClockMoves time) :
    ∃ windows, steadyWindows limits speed time = .ok windows ∧
      (∀ w, w ∈ windows ↔
        MaximalRun (SteadyAt limits speed time) (speed.length - 1) w ∧ limits.minLength < w.len) ∧
      windows.Nodup ∧ windows.Pairwise fun a b => a.stop < b.start := by
  have hapart := runs_apart (marksFrom_flightMarks limits speed time) .initial
  refine ⟨_, steadyWindows_eq_ok_iff.2 ⟨hlen, hclock, rfl⟩, fun w => ?_, ?_, hapart.filter _⟩
  · rw [List.mem_filter, mem_runs_flightMarks_iff limits hlen, decide_eq_true_iff]
  · refine (hapart.imp_of_mem fun ha _ hlt heq => ?_).filter _
    have hnonempty := ((mem_runs_flightMarks_iff limits hlen _).1 ha).nonempty
    rw [heq] at hlt hnonempty
    omega

/-- Speeds of two flights, one after the other; the last one is missing. -/
def twoFlightsSpeed : List Float := [60.0, 60.0, 60.0, 60.0, 60.0, 60.0, 0.0 / 0.0]

/-- Times of two flights, the second one with an earlier clock. -/
def twoFlightsTime : List Float := [7.0, 8.0, 9.0, 0.0, 1.0, 2.0, 3.0]

theorem mem_steadyWindows_iff_maximalRun_two_flights :
    twoFlightsSpeed.length = twoFlightsTime.length ∧ ClockMoves twoFlightsTime ∧
    ∃ windows, steadyWindows ⟨0.01, 10.0, 1⟩ twoFlightsSpeed twoFlightsTime = .ok windows ∧
      (∀ w, w ∈ windows ↔
        MaximalRun (SteadyAt ⟨0.01, 10.0, 1⟩ twoFlightsSpeed twoFlightsTime) (twoFlightsSpeed.length - 1) w ∧
          1 < w.len) ∧
      windows.Nodup ∧ windows.Pairwise fun a b => a.stop < b.start :=
  ⟨by decide, by decide,
    mem_steadyWindows_iff_maximalRun ⟨0.01, 10.0, 1⟩ twoFlightsSpeed twoFlightsTime (by decide) (by decide)⟩

example : (steadyWindows ⟨0.01, 10.0, 1⟩ twoFlightsSpeed twoFlightsTime).toOption =
    some [⟨0, 2⟩, ⟨3, 5⟩] := by
  decide

end FlightFit
