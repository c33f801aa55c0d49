import FlightFit.Proofs.DoubleOrder
import FlightFit.Proofs.SteadyWindows

/-!
Module: FlightFit.Proofs.StricterLimits
Purpose: What becomes of the cruise windows when the limits change. A smaller tolerance and a higher least speed leave
  fewer samples steady. Where fewer samples are steady, runs shrink, fall apart or go away: every window of the stricter
  limits lies in one window of the looser ones. The least length has no part in the scan and only decides which of the
  runs are kept.
Main exports: CruiseLimits.Stricter, Window.Covers, exists_maximalRun_covering, MaximalRun.eq_of_covers,
  stricter_limits_give_smaller_windows
-/

namespace FlightFit

/-! ### Limits -/

/-- Limits that ask for more: less acceleration and more speed. -/
structure CruiseLimits.Stricter (strict loose : CruiseLimits) : Prop where
  tolerance : strict.accelTolerance ≤ loose.accelTolerance
  speed : loose.minSpeed ≤ strict.minSpeed

/-- What is steady under stricter limits is steady under looser ones. -/
theorem CruiseLimits.Stricter.steadyAt {strict loose : CruiseLimits} (h : strict.Stricter loose)
    {speed time : List Float} {i : Nat} (hsteady : SteadyAt strict speed time i) : SteadyAt loose speed time i := by
  rcases hsteady with ⟨v, v', t, t', hv, hv', ht, ht', hforward, haccel, hspeed⟩
  exact ⟨v, v', t, t', hv, hv', ht, ht', hforward, float_lt_of_lt_of_le haccel h.tolerance,
    float_lt_of_le_of_lt h.speed hspeed⟩

/-- The least length has no part in the marks. -/
theorem flightMarks_minLength (limits : CruiseLimits) (count : Nat) (speed time : List Float) :
    flightMarks { limits with minLength := count } speed time = flightMarks limits speed time := by
  fun_induction flightMarks limits speed time with
  | case1 v v' speed t t' time ih => rw [flightMarks, ih]; rfl
  | case2 speed time hshort => exact flightMarks.eq_2 _ speed time hshort

/-! ### Runs inside runs -/

/-- One window lies in another. -/
structure Window.Covers (outer inner : Window) : Prop where
  start_le : outer.start ≤ inner.start
  le_stop : inner.stop ≤ outer.stop

theorem Window.Covers.len_le {outer inner : Window} (h : outer.Covers inner) : inner.len ≤ outer.len := by
  rcases h with ⟨hstart, hstop⟩
  simp only [len]
  omega

section Runs

variable {P : Nat → Prop} {count : Nat}

/-- A stretch of positions that count lies in a maximal run: it is made longer by one position at a time, on either
    side, as long as that position counts. -/
theorem exists_maximalRun_covering (w : Window) (hnonempty : w.start < w.stop) (hbounded : w.stop ≤ count)
    (hholds : ∀ i, w.start ≤ i → i < w.stop → P i) : ∃ outer, MaximalRun P count outer ∧ outer.Covers w := by
  classical
  induction hroom : w.start + (count - w.stop) using Nat.strongRecOn generalizing w with
  | ind room ih =>
      by_cases hleft : w.start = 0 ∨ ¬P (w.start - 1)
      · by_cases hright : w.stop = count ∨ ¬P w.stop
        · exact ⟨w, ⟨hnonempty, hbounded, hholds, hleft, hright⟩, ⟨Nat.le_refl _, Nat.le_refl _⟩⟩
        · rcases not_or.1 hright with ⟨hstop, hnext⟩
          have hlonger : ∀ i, w.start ≤ i → i < w.stop + 1 → P i := by
            intro i hle hlt
            by_cases hi : i = w.stop
            · rw [hi]
              exact not_not.1 hnext
            · exact hholds i hle (by omega)
          rcases ih _ (by simp only; omega) ⟨w.start, w.stop + 1⟩ (by simp only; omega) (by simp only; omega) hlonger rfl
            with ⟨outer, houter, hstart, hstop⟩
          exact ⟨outer, houter, hstart, Nat.le_of_succ_le hstop⟩
      · rcases not_or.1 hleft with ⟨hstart, hbefore⟩
        have hlonger : ∀ i, w.start - 1 ≤ i → i < w.stop → P i := by
          intro i hle hlt
          by_cases hi : i = w.start - 1
          · rw [hi]
            exact not_not.1 hbefore
          · exact hholds i (by omega) hlt
        rcases ih _ (by simp only; omega) ⟨w.start - 1, w.stop⟩ (by simp only; omega) hbounded hlonger rfl
          with ⟨outer, houter, hle, hstop⟩
        exact ⟨outer, houter, Nat.le_trans hle (Nat.sub_le _ _), hstop⟩

/-- A stretch lies in one maximal run only. -/
theorem MaximalRun.eq_of_covers {v w inner : Window} (hv : MaximalRun P count v) (hw : MaximalRun P count w)
    (hinner : inner.start < inner.stop) (hcv : v.Covers inner) (hcw : w.Covers inner) : v = w := by
  -- Of two runs that overlap, the later one begins inside the earlier one.
  have hinside : ∀ {v w : Window}, MaximalRun P count v → MaximalRun P count w → v.Covers inner → w.Covers inner →
      v.start ≤ w.start → w = v := by
    intro v w hv hw hcv hcw hle
    have hopen : OpenAt P v.stop (some v.start) := ⟨hv.nonempty, hv.holds, hv.leftEnd⟩
    have hlt : w.start < v.stop := by
      have := hcw.start_le
      have := hcv.le_stop
      omega
    exact hw.eq_of_openAt hopen hv.rightEnd hv.bounded hle hlt
  rcases Nat.le_total v.start w.start with hle | hle
  · exact (hinside hv hw hcv hcw hle).symm
  · exact hinside hw hv hcw hcv hle

end Runs

/-- Where fewer samples are steady and windows have to be longer, every cruise window lies in exactly one cruise window
    of the looser limits. Less tolerance and more speed make it so. Limits that differ in the least length alone give the
    same windows in the same order, without those that are too short. -/
theorem stricter_limits_give_smaller_windows (strict loose : CruiseLimits) (speed time : List Float)
    (hlen : speed.length = time.length) (hclock : ClockMoves time) (hlength : loose.minLength ≤ strict.minLength) :
    ∃ narrow wide, steadyWindows strict speed time = .ok narrow ∧ steadyWindows loose speed time = .ok wide ∧
      (strict.Stricter loose → ∀ i, SteadyAt strict speed time i → SteadyAt loose speed time i) ∧
      ((∀ i, SteadyAt strict speed time i → SteadyAt loose speed time i) →
        ∀ w ∈ narrow, ∃! outer, outer ∈ wide ∧ outer.Covers w) ∧
      (strict = { loose with minLength := strict.minLength } →
        narrow = wide.filter fun w => strict.minLength < w.len) := by
  refine ⟨_, _, steadyWindows_eq_ok_iff.2 ⟨hlen, hclock, rfl⟩, steadyWindows_eq_ok_iff.2 ⟨hlen, hclock, rfl⟩,
    fun hstrict i => hstrict.steadyAt, ?_, ?_⟩
  · intro hsteady w hw
    simp only [List.mem_filter, mem_runs_flightMarks_iff _ hlen, decide_eq_true_iff] at hw ⊢
    rcases hw with ⟨hrun, hlong⟩
    rcases exists_maximalRun_covering w hrun.nonempty hrun.bounded
      (fun i hle hlt => hsteady i (hrun.holds i hle hlt)) with ⟨outer, houter, hcovers⟩
    have hlonger := hcovers.len_le
    refine ⟨outer, ⟨⟨houter, by omega⟩, hcovers⟩, ?_⟩
    rintro other ⟨⟨hother, -⟩, hcovers'⟩
    exact hother.eq_of_covers houter hrun.nonempty hcovers' hcovers
  · intro hsame
    have hmarks : flightMarks strict speed time = flightMarks loose speed time := by
      rw [hsame]
      exact flightMarks_minLength loose _ speed time
    rw [hmarks, List.filter_filter]
    apply List.filter_congr
    intro w _
    rw [← Bool.decide_and]
    exact decide_eq_decide.2 ⟨fun h => ⟨h, Nat.lt_of_le_of_lt hlength h⟩, And.left⟩

/-- Two steady stretches with a gust between them. -/
def gustySpeed : List Float := [60.0, 60.0, 60.0, 60.005, 60.005, 60.005]

/-- A sample each second. -/
def gustyTime : List Float := [0.0, 1.0, 2.0, 3.0, 4.0, 5.0]

theorem stricter_limits_give_smaller_windows_gusty :
    gustySpeed.length = gustyTime.length ∧ ClockMoves gustyTime ∧
    ∃ narrow wide, steadyWindows ⟨0.004, 20.0, 1⟩ gustySpeed gustyTime = .ok narrow ∧
      steadyWindows ⟨0.01, 10.0, 0⟩ gustySpeed gustyTime = .ok wide ∧
      ∀ w ∈ narrow, ∃! outer, outer ∈ wide ∧ outer.Covers w := by
  have hstrict : CruiseLimits.Stricter ⟨0.004, 20.0, 1⟩ ⟨0.01, 10.0, 0⟩ := ⟨by decide, by decide⟩
  rcases stricter_limits_give_smaller_windows ⟨0.004, 20.0, 1⟩ ⟨0.01, 10.0, 0⟩ gustySpeed gustyTime (by decide)
    (by decide) (by decide) with ⟨narrow, wide, hnarrow, hwide, hsteady, hcovered, -⟩
  exact ⟨by decide, by decide, narrow, wide, hnarrow, hwide, hcovered (hsteady hstrict)⟩

example : (steadyWindows ⟨0.004, 20.0, 1⟩ gustySpeed gustyTime).toOption = some [⟨0, 2⟩, ⟨3, 5⟩] ∧
    (steadyWindows ⟨0.01, 10.0, 0⟩ gustySpeed gustyTime).toOption = some [⟨0, 5⟩] := by
  decide

end FlightFit
