import FlightFit.Proofs.Accumulation
import FlightFit.Proofs.SteadyWindows
import FlightFit.Proofs.TableRows

/-!
Module: FlightFit.Proofs.FlightSeam
Purpose: Flights that are joined where the clock runs backwards do not mix. The mark of the last sample
  before the seam is not set, whatever the samples are, so the scan of the joined marks is that of the
  first flight followed by that of the second one, moved; and since windows read from joined tables hold
  what they hold in their own table, a model accumulates the flights as if they came one by one.
Main exports: flightMarks_seam, runs_append_gap, runs_shift, steadyWindows_seam,
  Action.outcome_cruiseWindows_eq_ok_iff, accumulate_joined, BackwardSeam, KeptApart,
  joined_flights_kept_apart
-/

namespace FlightFit

/-! ### The scan across a seam -/

/-- The marks of joined flights are those of both, with the mark of the seam between them. -/
theorem flightMarks_seam (limits : CruiseLimits) {speed time : List Float}
    (hlen : speed.length = time.length) (v v' t t' : Float) (speed' time' : List Float) :
    flightMarks limits (speed ++ v :: v' :: speed') (time ++ t :: t' :: time') =
      flightMarks limits (speed ++ [v]) (time ++ [t]) ++
        isSteady limits v ((v' - v) / (t' - t)) t t' :: flightMarks limits (v' :: speed') (t' :: time') := by
  induction speed generalizing time with
  | nil =>
      obtain rfl : time = [] := List.length_eq_zero_iff.1 hlen.symm
      simp [flightMarks]
  | cons u speed ih =>
      obtain ⟨s, time, rfl⟩ := List.exists_cons_of_length_eq_add_one hlen.symm
      have htail := ih (Nat.succ.inj hlen)
      -- The first mark looks at two samples, so the second one is needed to see it.
      cases speed with
      | nil =>
          obtain rfl : time = [] := List.length_eq_zero_iff.1 (Nat.succ.inj hlen).symm
          simp [flightMarks]
      | cons u' speed =>
          obtain ⟨s', time, rfl⟩ := List.exists_cons_of_length_eq_add_one (Nat.succ.inj hlen).symm
          simpa [flightMarks] using htail

/-- A mark that is not set ends the run before it, and the scan begins anew behind it. -/
theorem runs_append_gap (index : Nat) (opened : Option Nat) (marks more : List Bool) :
    runs index opened (marks ++ false :: more) =
      runs index opened marks ++ runs (index + marks.length + 1) none more := by
  induction marks generalizing index opened with
  | nil => cases opened <;> simp [runs]
  | cons mark marks ih =>
      have hindex : index + (marks.length + 1) + 1 = index + 1 + marks.length + 1 := by omega
      cases mark <;> cases opened <;> simp [runs, ih, hindex]

/-- Behind other samples the scan finds the same runs, moved. -/
theorem runs_shift (offset index : Nat) (opened : Option Nat) (marks : List Bool) :
    runs (index + offset) (opened.map (· + offset)) marks =
      (runs index opened marks).map (Window.shift offset) := by
  induction marks generalizing index opened with
  | nil => cases opened <;> simp [runs, Window.shift]
  | cons mark marks ih =>
      have hindex : index + offset + 1 = index + 1 + offset := by omega
      cases mark with
      | true =>
          cases opened with
          | none => simpa [runs, hindex] using ih (index + 1) (some index)
          | some start => simpa [runs, hindex] using ih (index + 1) (some start)
      | false =>
          cases opened with
          | none => simpa [runs, hindex] using ih (index + 1) none
          | some start => simpa [runs, hindex, Window.shift] using ih (index + 1) none

/-- Keeping the long windows does not depend on where they are. -/
theorem filter_len_map_shift (limit offset : Nat) (windows : List Window) :
    (windows.map (Window.shift offset)).filter (fun w => limit < w.len) =
      (windows.filter fun w => limit < w.len).map (Window.shift offset) := by
  rw [List.filter_map]
  simp only [Function.comp_def, Window.len_shift]

section Seam

variable (limits : CruiseLimits) {speedA timeA speedB timeB : List Float} {t t' : Float}
  (hA : speedA.length = timeA.length) (hB : speedB.length = timeB.length)
  (hlast : timeA.getLast? = some t) (hhead : timeB.head? = some t')
include hA hB hlast hhead

/-- Where the clock does not run forward from one flight to the next, the runs of the joined flights are
    those of the first one followed by those of the second one. -/
theorem runs_flightMarks_seam (hback : ¬ t < t') :
    runs 0 none (flightMarks limits (speedA ++ speedB) (timeA ++ timeB)) =
      runs 0 none (flightMarks limits speedA timeA) ++
        (runs 0 none (flightMarks limits speedB timeB)).map (Window.shift timeA.length) := by
  obtain ⟨time, rfl⟩ := List.getLast?_eq_some_iff.1 hlast
  obtain ⟨time', rfl⟩ := List.head?_eq_some_iff.1 hhead
  have hlength : speedA.length = time.length + 1 := by simpa using hA
  obtain ⟨speed, v, rfl⟩ : ∃ speed v, speedA = speed ++ [v] :=
    ⟨_, _, (List.dropLast_append_getLast (List.ne_nil_of_length_eq_add_one hlength)).symm⟩
  obtain ⟨v', speed', rfl⟩ := List.exists_cons_of_length_eq_add_one hB
  have hseam : isSteady limits v ((v' - v) / (t' - t)) t t' = false := by
    simp [isSteady, hback]
  have hspeed : speed.length = time.length := by simpa using hlength
  have hmarks : (flightMarks limits (speed ++ [v]) (time ++ [t])).length = time.length := by
    rw [length_flightMarks limits hA, hlength, Nat.add_sub_cancel]
  have hshift := runs_shift (time.length + 1) 0 none (flightMarks limits (v' :: speed') (t' :: time'))
  rw [List.append_assoc, List.append_assoc, List.singleton_append, List.singleton_append,
    flightMarks_seam limits hspeed, hseam, runs_append_gap, hmarks, List.length_append, List.length_singleton,
    ← hshift]
  simp

/-- Flights joined where the clock runs backwards have cruise windows exactly when both have, and then
    they are those of the first one followed by those of the second one. -/
theorem steadyWindows_seam (hzero : (t' - t == 0.0) = false) (hback : ¬ t < t') {windows : List Window} :
    steadyWindows limits (speedA ++ speedB) (timeA ++ timeB) = .ok windows ↔
      ∃ windowsA windowsB, steadyWindows limits speedA timeA = .ok windowsA ∧
        steadyWindows limits speedB timeB = .ok windowsB ∧
        windows = windowsA ++ windowsB.map (Window.shift timeA.length) := by
  have hclock : ClockMoves (timeA ++ timeB) ↔ ClockMoves timeA ∧ ClockMoves timeB := by
    unfold ClockMoves
    rw [List.isChain_append, hlast, hhead]
    simp [hzero]
  have hlen : (speedA ++ speedB).length = (timeA ++ timeB).length := by simp [hA, hB]
  simp only [steadyWindows_eq_ok_iff, hclock, hlen, hA, hB, true_and,
    runs_flightMarks_seam limits hA hB hlast hhead hback, List.filter_append, filter_len_map_shift]
  constructor
  · rintro ⟨⟨hclockA, hclockB⟩, rfl⟩
    exact ⟨_, _, ⟨hclockA, rfl⟩, ⟨hclockB, rfl⟩, rfl⟩
  · rintro ⟨_, _, ⟨hclockA, rfl⟩, ⟨hclockB, rfl⟩, rfl⟩
    exact ⟨⟨hclockA, hclockB⟩, rfl⟩

end Seam

/-! ### Cruise windows of tables -/

/-- Finding windows succeeds with the cruise windows, and reports them. -/
theorem Action.runOn_findWindows_eq_ok_iff {limits : CruiseLimits} {speed time : List Float}
    {session after : Session} {windows : List Window} :
    (findWindows limits speed time).runOn session = (.ok windows, after) ↔
      ∃ found, steadyRuns limits speed time = .ok found ∧ steadyWindows limits speed time = .ok windows ∧
        after = { session with log := session.log ++
          [.segmented speed.length found.length windows.length limits.minLength] } := by
  simp only [findWindows, runOn_bind_eq_ok_iff, runOn_attempt_eq_ok_iff, runOn_report, runOn_pure,
    Prod.mk.injEq, Except.ok.injEq]
  constructor
  · rintro ⟨found, _, ⟨hfound, rfl⟩, _, _, ⟨hwindows, rfl⟩, _, _, ⟨-, rfl⟩, rfl, rfl⟩
    exact ⟨found, hfound, hwindows, rfl⟩
  · rintro ⟨found, hfound, hwindows, rfl⟩
    exact ⟨found, _, ⟨hfound, rfl⟩, windows, _, ⟨hwindows, rfl⟩, (), _, ⟨trivial, rfl⟩, rfl, rfl⟩

/-- A table has cruise windows when it has both channels and their samples have. -/
theorem Action.outcome_cruiseWindows_eq_ok_iff {config : RunConfig} {table : Table} {session : Session}
    {windows : List Window} :
    (cruiseWindows config table).outcome session = .ok windows ↔
      ∃ speed time, table.channel config.speedChannel = .ok speed ∧
        table.channel config.timeChannel = .ok time ∧
        steadyWindows config.segmentation speed time = .ok windows := by
  simp only [outcome_eq_ok_iff, cruiseWindows, runOn_bind_eq_ok_iff, runOn_attempt_eq_ok_iff,
    runOn_during_eq_ok_iff, runOn_findWindows_eq_ok_iff, runOn_report, runOn_pure, Prod.mk.injEq,
    Except.ok.injEq]
  constructor
  · rintro ⟨_, speed, _, ⟨hspeed, rfl⟩, time, _, ⟨htime, rfl⟩, _, _, ⟨_, -, hwindows, -⟩, _, _, -, rfl, -⟩
    exact ⟨speed, time, hspeed, htime, hwindows⟩
  · rintro ⟨speed, time, hspeed, htime, hwindows⟩
    obtain ⟨hlen, hclock, -⟩ := steadyWindows_eq_ok_iff.1 hwindows
    obtain ⟨found, hfound⟩ : ∃ found, steadyRuns config.segmentation speed time = .ok found :=
      ⟨_, steadyRuns_eq_ok_iff.2 ⟨hlen, hclock, rfl⟩⟩
    exact ⟨_, speed, _, ⟨hspeed, rfl⟩, time, _, ⟨htime, rfl⟩, windows, _, ⟨found, hfound, hwindows, rfl⟩,
      (), _, ⟨trivial, rfl⟩, rfl, rfl⟩

/-- Cruise windows lie inside their table. -/
theorem bounds_of_mem_steadyWindows {limits : CruiseLimits} {speed time : List Float}
    {windows : List Window} (h : steadyWindows limits speed time = .ok windows) {w : Window}
    (hw : w ∈ windows) : w.start < w.stop ∧ w.stop ≤ speed.length := by
  obtain ⟨hlen, -, rfl⟩ := steadyWindows_eq_ok_iff.1 h
  have hrun := (mem_runs_flightMarks_iff limits hlen w).1 (List.mem_filter.1 hw).1
  exact ⟨hrun.nonempty, Nat.le_trans hrun.bounded (Nat.sub_le _ _)⟩

/-! ### Reading from joined tables -/

/-- The same skipped window behind `offset` more rows. -/
def SkippedWindow.shift (offset : Nat) (s : SkippedWindow) : SkippedWindow :=
  { s with window := s.window.shift offset }

section Joined

variable {a b : Table} (ha : a.WellFormed) (hsame : a.SameChannels b)
include ha hsame

theorem readBatch_joined_top (m : Model) {w : Window} (hw : w.start < w.stop) (hstop : w.stop ≤ a.rows) :
    m.readBatch (a.joined b) w = m.readBatch a w := by
  have hselect := Table.select_joined_top ha hsame (Nat.le_of_lt hw) hstop
  rw [Model.readBatch_of_lt hw, Model.readBatch_of_lt hw, Transform.build_eq, Transform.build_eq, hselect, hselect]

theorem readBatch_joined_bottom (m : Model) {w : Window} (hw : w.start < w.stop) (hstop : w.stop ≤ b.rows) :
    m.readBatch (a.joined b) (w.shift a.rows) = m.readBatch b w := by
  have hselect := Table.select_joined_bottom ha hsame (Nat.le_of_lt hw) hstop
  have hshift : (w.shift a.rows).start < (w.shift a.rows).stop := Nat.add_lt_add_right hw a.rows
  rw [Model.readBatch_of_lt hshift, Model.readBatch_of_lt hw, Transform.build_eq, Transform.build_eq, hselect,
    hselect]

/-- Accumulating windows of joined tables is accumulating those of the one and then those of the other. -/
theorem accumulate_joined (m : Model) {windowsA windowsB : List Window}
    (hA : ∀ w ∈ windowsA, w.start < w.stop ∧ w.stop ≤ a.rows)
    (hB : ∀ w ∈ windowsB, w.start < w.stop ∧ w.stop ≤ b.rows) :
    accumulate m (a.joined b) (windowsA ++ windowsB.map (Window.shift a.rows)) =
      ((accumulate (accumulate m a windowsA).1 b windowsB).1,
        (accumulate m a windowsA).2 ++
          (accumulate (accumulate m a windowsA).1 b windowsB).2.map fun outcome =>
            (outcome.1.shift a.rows, outcome.2)) := by
  have htop : accumulate m (a.joined b) windowsA = accumulate m a windowsA := by
    have hmap := accumulate_map (f := id)
      (fun w hw m => readBatch_joined_top ha hsame m (hA w hw).1 (hA w hw).2) m
    simpa using hmap
  have hbottom := accumulate_map (fun w hw m => readBatch_joined_bottom ha hsame m (hB w hw).1 (hB w hw).2)
    (accumulate m a windowsA).1
  rw [accumulate_append, htop, hbottom]

end Joined

/-- Moving windows moves the skipped ones. -/
theorem skippedWindows_shift (offset : Nat) (outcomes : List (Window × Except Fault Model.Reading)) :
    skippedWindows (outcomes.map fun outcome => (outcome.1.shift offset, outcome.2)) =
      (skippedWindows outcomes).map (SkippedWindow.shift offset) := by
  induction outcomes with
  | nil => rfl
  | cons outcome rest ih =>
      obtain ⟨w, result⟩ := outcome
      cases result with
      | ok reading => exact ih
      | error fault => exact congrArg (SkippedWindow.shift offset ⟨w, fault⟩ :: ·) ih

/-! ### Joined flights -/

/-- From the last time of the one table to the first time of the other the clock moves, but not forward. -/
def BackwardSeam (channel : String) (a b : Table) : Prop :=
  ∃ timeA timeB t t', a.channel channel = .ok timeA ∧ b.channel channel = .ok timeB ∧
    timeA.getLast? = some t ∧ timeB.head? = some t' ∧ (t' - t == 0.0) = false ∧ ¬ t < t'

/-- The cruise windows of tables that are joined at a backward seam. -/
theorem outcome_cruiseWindows_joined_iff {config : RunConfig} {a b : Table} (ha : a.WellFormed)
    (hb : b.WellFormed) (hsame : a.SameChannels b) (hspeed : config.speedChannel ∈ a.names)
    (hseam : BackwardSeam config.timeChannel a b) (session : Session) (windows : List Window) :
    (cruiseWindows config (a.joined b)).outcome session = .ok windows ↔
      ∃ windowsA windowsB, (cruiseWindows config a).outcome session = .ok windowsA ∧
        (cruiseWindows config b).outcome session = .ok windowsB ∧
        windows = windowsA ++ windowsB.map (Window.shift a.rows) := by
  obtain ⟨timeA, timeB, t, t', htimeA, htimeB, hlast, hhead, hzero, hback⟩ := hseam
  obtain ⟨speedA, hspeedA⟩ := Table.exists_channel_of_mem hspeed
  obtain ⟨speedB, hspeedB⟩ := Table.exists_channel_of_mem ((hsame _).1 hspeed)
  have hspeedAB := Table.channel_joined_of_ok hsame hspeedA hspeedB
  have htimeAB := Table.channel_joined_of_ok hsame htimeA htimeB
  have hA : speedA.length = timeA.length :=
    (ha.length_of_channel hspeedA).trans (ha.length_of_channel htimeA).symm
  have hB : speedB.length = timeB.length :=
    (hb.length_of_channel hspeedB).trans (hb.length_of_channel htimeB).symm
  have hjoined : steadyWindows config.segmentation (speedA ++ speedB) (timeA ++ timeB) = .ok windows ↔ _ :=
    steadyWindows_seam config.segmentation hA hB hlast hhead hzero hback
  simp only [Action.outcome_cruiseWindows_eq_ok_iff, hspeedA, hspeedB, hspeedAB, htimeA, htimeB, htimeAB,
    Except.ok.injEq, ← ha.length_of_channel htimeA]
  simpa using hjoined

/-- Windows that a table has lie inside it. -/
theorem bounds_of_outcome_cruiseWindows {config : RunConfig} {table : Table} (h : table.WellFormed)
    {session : Session} {windows : List Window}
    (hok : (cruiseWindows config table).outcome session = .ok windows) :
    ∀ w ∈ windows, w.start < w.stop ∧ w.stop ≤ table.rows := by
  obtain ⟨speed, time, hspeed, -, hwindows⟩ := Action.outcome_cruiseWindows_eq_ok_iff.1 hok
  intro w hw
  rw [← h.length_of_channel hspeed]
  exact bounds_of_mem_steadyWindows hwindows hw

/-- Two tables are kept apart in the table that they are joined to, by the segmenter and by every model
    that reads the windows. -/
structure KeptApart (config : RunConfig) (a b both : Table) (session : Session) : Prop where
  /-- The joined table has cruise windows exactly when both tables have. -/
  found : (∃ windows, (cruiseWindows config both).outcome session = .ok windows) ↔
    (∃ windowsA, (cruiseWindows config a).outcome session = .ok windowsA) ∧
    ∃ windowsB, (cruiseWindows config b).outcome session = .ok windowsB
  /-- They are those of the first table, followed by those of the second one behind its rows. -/
  windows : ∀ windowsA windowsB, (cruiseWindows config a).outcome session = .ok windowsA →
    (cruiseWindows config b).outcome session = .ok windowsB →
    (cruiseWindows config both).outcome session = .ok (windowsA ++ windowsB.map (Window.shift a.rows))
  /-- A model accumulates them as it does those of the first table and then those of the second one, in
      whatever sessions, and skips the same windows for the same reasons. -/
  accumulated : ∀ windowsA windowsB, (cruiseWindows config a).outcome session = .ok windowsA →
    (cruiseWindows config b).outcome session = .ok windowsB →
    ∀ m : Model, ∃ first last skippedA skippedB, ∀ during : Session,
      (accumulateWindows m a windowsA).outcome during = .ok (first, skippedA) ∧
      (accumulateWindows first b windowsB).outcome during = .ok (last, skippedB) ∧
      (accumulateWindows m both (windowsA ++ windowsB.map (Window.shift a.rows))).outcome during =
        .ok (last, skippedA ++ skippedB.map (SkippedWindow.shift a.rows))

/-- Tables with the same channels that meet where the clock runs backwards can be joined, and are kept
    apart. -/
theorem joined_flights_kept_apart (config : RunConfig) (a b : Table) (ha : a.WellFormed)
    (hb : b.WellFormed) (hsame : a.SameChannels b) (hspeed : config.speedChannel ∈ a.names)
    (hseam : BackwardSeam config.timeChannel a b) (session : Session) :
    ∃ both, a.extend b = .ok both ∧ KeptApart config a b both session := by
  have hchannels : a.channels ≠ [] := fun hnil => by simp [Table.names, hnil] at hspeed
  have hcruise := outcome_cruiseWindows_joined_iff ha hb hsame hspeed hseam session
  refine ⟨a.joined b, Table.extend_of_sameChannels hchannels hsame, ⟨?_, ?_, ?_⟩⟩
  · constructor
    · rintro ⟨windows, hok⟩
      obtain ⟨windowsA, windowsB, hA, hB, -⟩ := (hcruise windows).1 hok
      exact ⟨⟨windowsA, hA⟩, windowsB, hB⟩
    · rintro ⟨⟨windowsA, hA⟩, windowsB, hB⟩
      exact ⟨_, (hcruise _).2 ⟨windowsA, windowsB, hA, hB, rfl⟩⟩
  · intro windowsA windowsB hA hB
    exact (hcruise _).2 ⟨windowsA, windowsB, hA, hB, rfl⟩
  · intro windowsA windowsB hA hB m
    have hjoined := accumulate_joined ha hsame m (bounds_of_outcome_cruiseWindows ha hA)
      (bounds_of_outcome_cruiseWindows hb hB)
    refine ⟨_, _, _, _, fun during => ⟨Action.outcome_accumulateWindows m a windowsA during,
      Action.outcome_accumulateWindows _ b windowsB during, ?_⟩⟩
    rw [Action.outcome_accumulateWindows, hjoined, ← skippedWindows_shift]
    simp only [skippedWindows, List.filterMap_append]

/-- A run description for tables with the channels `t` and `v`. -/
def plainConfig : RunConfig := { timeChannel := "t", speedChannel := "v", segmentation := ⟨0.01, 10.0, 1⟩ }

/-- A flight of four samples. -/
def outboundFlight : Table := ⟨4, [⟨"t", [7.0, 8.0, 9.0, 10.0]⟩, ⟨"v", [60.0, 60.0, 60.0, 60.0]⟩]⟩

/-- A flight of three samples at the same speed, with an earlier clock and its channels in another order. -/
def returnFlight : Table := ⟨3, [⟨"v", [60.0, 60.0, 60.0]⟩, ⟨"t", [0.0, 1.0, 2.0]⟩]⟩

theorem joined_flights_kept_apart_there_and_back :
    (outboundFlight.WellFormed ∧ returnFlight.WellFormed ∧ outboundFlight.SameChannels returnFlight ∧
      "v" ∈ outboundFlight.names ∧ BackwardSeam "t" outboundFlight returnFlight) ∧
    ∃ both, outboundFlight.extend returnFlight = .ok both ∧
      KeptApart plainConfig outboundFlight returnFlight both ⟨.empty, []⟩ := by
  have ha : outboundFlight.WellFormed := ⟨by decide, by decide, by simp [outboundFlight]⟩
  have hb : returnFlight.WellFormed := ⟨by decide, by decide, by simp [returnFlight]⟩
  have hsame : outboundFlight.SameChannels returnFlight := by
    intro name
    simp [Table.names, outboundFlight, returnFlight, or_comm]
  have hspeed : "v" ∈ outboundFlight.names := by decide
  have hseam : BackwardSeam "t" outboundFlight returnFlight :=
    ⟨_, _, 10.0, 0.0, rfl, rfl, rfl, rfl, by decide, by decide⟩
  exact ⟨⟨ha, hb, hsame, hspeed, hseam⟩,
    joined_flights_kept_apart plainConfig outboundFlight returnFlight ha hb hsame hspeed hseam ⟨.empty, []⟩⟩

end FlightFit
