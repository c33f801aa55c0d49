import FlightFit.Proofs.Outcome
import FlightFit.Table

/-!
Module: FlightFit.Proofs.TableRows
Purpose: Tables row by row. A selection depends only on the slices of the named channels that lie in its
  window (`Table.select_congr`), and the channels of an extended table are those of its two parts, one
  below the other; so a selection from a part is a selection from the whole.
Main exports: Window.slice, Table.select_congr, Table.SameChannels, Table.extend_of_sameChannels,
  Table.channel_joined, Table.select_joined_top, Table.select_joined_bottom
-/

namespace FlightFit

namespace Matrix

variable {α : Type}

theorem eq_of_parts {a b : Matrix α} (hheight : a.height = b.height) (hcols : a.cols = b.cols)
    (hentries : a.entries = b.entries) : a = b := by
  cases a
  cases b
  simp_all

/-- Cross-sections look no further than they are many. -/
theorem across_map_take (fill : α) {count bound : Nat} (h : count ≤ bound) (lists : List (List α)) :
    across fill count (lists.map (List.take bound)) = across fill count lists := by
  induction count generalizing bound lists with
  | zero => rfl
  | succ n ih =>
      obtain ⟨k, rfl⟩ : ∃ k, bound = k + 1 := ⟨bound - 1, by omega⟩
      have hhead : ∀ l : List α, (l.take (k + 1)).headD fill = l.headD fill := by
        intro l
        cases l <;> rfl
      have htail : ∀ l : List α, (l.take (k + 1)).tail = l.tail.take k := by
        intro l
        cases l with
        | nil => simp
        | cons a l => rfl
      have hrest := ih (Nat.le_of_succ_le_succ h) (lists.map List.tail)
      rw [across, across, ← hrest]
      simp only [List.map_map, Function.comp_def, hhead, htail]

/-- Only as many entries of each column count as there are rows. -/
theorem ofColumns_map_take [Zero α] (height : Nat) (columns : List (List α)) :
    ofColumns height (columns.map (List.take height)) = ofColumns height columns := by
  refine eq_of_parts rfl (List.length_map _) ?_
  exact congrArg List.flatten (across_map_take 0 (Nat.le_refl height) columns)

end Matrix

theorem Window.len_shift (offset : Nat) (w : Window) : (w.shift offset).len = w.len := by
  simp only [shift, len]
  omega

/-- The samples of a window. -/
def Window.slice (w : Window) (samples : List Float) : List Float := (samples.drop w.start).take w.len

namespace Table

/-! ### What a selection depends on -/

/-- A selection inside a table is made of slices. -/
theorem select_eq_slices {t : Table} {w : Window} (hstop : w.stop ≤ t.rows) (hstart : w.start ≤ w.stop)
    (names : List String) :
    t.select names w = ((t.channelsNamed names).map (List.map w.slice)).map (Matrix.ofColumns w.len) := by
  have hbounds : (t.rows < w.stop || w.stop < w.start) = false := by
    simp only [Bool.or_eq_false_iff, decide_eq_false_iff_not]
    omega
  unfold select
  rw [hbounds, if_neg Bool.false_ne_true]
  cases t.channelsNamed names with
  | error fault => rfl
  | ok columns =>
      rw [ok_bind, ← Matrix.ofColumns_map_take, List.map_map]
      rfl

theorem map_channelsNamed_cons (t : Table) (f : List Float → List Float) (name : String)
    (rest : List String) :
    (t.channelsNamed (name :: rest)).map (List.map f) =
      (do
        let samples ← (t.channel name).map f
        let more ← (t.channelsNamed rest).map (List.map f)
        .ok (samples :: more)) := by
  rw [channelsNamed]
  cases t.channel name with
  | error fault => rfl
  | ok samples =>
      cases t.channelsNamed rest with
      | error fault => rfl
      | ok more => rfl

/-- Channels that look alike one by one look alike together, and fail alike. -/
theorem channelsNamed_congr {t t' : Table} {f g : List Float → List Float} {names : List String}
    (h : ∀ name ∈ names, (t.channel name).map f = (t'.channel name).map g) :
    (t.channelsNamed names).map (List.map f) = (t'.channelsNamed names).map (List.map g) := by
  induction names with
  | nil => rfl
  | cons name rest ih =>
      have hname := h name List.mem_cons_self
      have hrest := ih fun other hother => h other (List.mem_cons_of_mem _ hother)
      rw [map_channelsNamed_cons, map_channelsNamed_cons, hname, hrest]

/-- A selection depends only on the slices of the named channels in its window. -/
theorem select_congr {t t' : Table} {w w' : Window} {names : List String} (hstop : w.stop ≤ t.rows)
    (hstart : w.start ≤ w.stop) (hstop' : w'.stop ≤ t'.rows) (hstart' : w'.start ≤ w'.stop)
    (hlen : w.len = w'.len)
    (h : ∀ name ∈ names, (t.channel name).map w.slice = (t'.channel name).map w'.slice) :
    t.select names w = t'.select names w' := by
  rw [select_eq_slices hstop hstart, select_eq_slices hstop' hstart', channelsNamed_congr h, hlen]

/-! ### Tables with the same channels -/

theorem find?_eq_none_iff {name : String} {channels : List Channel} :
    find? name channels = none ↔ name ∉ channels.map Channel.name := by
  induction channels with
  | nil => simp [find?]
  | cons c rest ih =>
      by_cases hname : c.name = name
      · simp [find?, hname]
      · simp [find?, hname, ih, Ne.symm hname]

theorem has_iff {t : Table} {name : String} : t.has name = true ↔ name ∈ t.names := by
  unfold has names
  rw [Option.isSome_iff_ne_none, ne_eq, find?_eq_none_iff, Decidable.not_not]

/-- A table has the channels of its names and no others. -/
theorem channel_cases (t : Table) (name : String) :
    (name ∈ t.names ∧ ∃ samples, find? name t.channels = some samples ∧ t.channel name = .ok samples) ∨
    (name ∉ t.names ∧ t.channel name = .error (.unknownChannel name)) := by
  unfold channel
  cases h : find? name t.channels with
  | none => exact .inr ⟨find?_eq_none_iff.1 h, rfl⟩
  | some samples =>
      have hhas : t.has name = true := by rw [has, h]; rfl
      exact .inl ⟨has_iff.1 hhas, samples, rfl, rfl⟩

theorem exists_channel_of_mem {t : Table} {name : String} (h : name ∈ t.names) :
    ∃ samples, t.channel name = .ok samples := by
  rcases channel_cases t name with ⟨-, samples, -, hok⟩ | ⟨hname, -⟩
  · exact ⟨samples, hok⟩
  · exact absurd h hname

/-- Channels are only refused for a name that is not known. -/
theorem exists_name_of_channelsNamed {t : Table} {names : List String} {fault : Fault}
    (h : t.channelsNamed names = .error fault) : ∃ name, fault = .unknownChannel name := by
  induction names with
  | nil => simp [channelsNamed] at h
  | cons name rest ih =>
      rw [channelsNamed] at h
      rcases channel_cases t name with ⟨-, samples, -, hok⟩ | ⟨-, hunknown⟩
      · rw [hok, ok_bind] at h
        cases hrest : t.channelsNamed rest with
        | ok more => simp [hrest] at h
        | error other =>
            rw [hrest, error_bind] at h
            exact ih (hrest.trans (congrArg Except.error (Except.error.inj h)))
      · rw [hunknown, error_bind] at h
        exact ⟨name, (Except.error.inj h).symm⟩

theorem exists_of_find? {name : String} {channels : List Channel} {samples : List Float}
    (h : find? name channels = some samples) : ∃ c ∈ channels, c.samples = samples := by
  induction channels with
  | nil => simp [find?] at h
  | cons c rest ih =>
      unfold find? at h
      split at h
      · exact ⟨c, List.mem_cons_self, Option.some.inj h⟩
      · obtain ⟨c', hc', hsamples⟩ := ih h
        exact ⟨c', List.mem_cons_of_mem _ hc', hsamples⟩

/-- In a well-formed table every channel has a sample for every row. -/
theorem WellFormed.length_of_channel {t : Table} (h : t.WellFormed) {name : String} {samples : List Float}
    (hchannel : t.channel name = .ok samples) : samples.length = t.rows := by
  rcases channel_cases t name with ⟨-, found, hfound, hok⟩ | ⟨-, herror⟩
  · obtain rfl := Except.ok.inj (hok.symm.trans hchannel)
    obtain ⟨c, hc, rfl⟩ := exists_of_find? hfound
    exact h.aligned c hc
  · rw [herror] at hchannel
    simp at hchannel

/-- Two tables name the same channels, in any order. -/
def SameChannels (a b : Table) : Prop := ∀ name, name ∈ a.names ↔ name ∈ b.names

/-- The rows of `b` below those of `a`, channel by channel. -/
def joined (a b : Table) : Table where
  rows := a.rows + b.rows
  channels := a.channels.map fun c => ⟨c.name, c.samples ++ (find? c.name b.channels).getD []⟩

/-- Tables with the same channels can be put one below the other. -/
theorem extend_of_sameChannels {a b : Table} (ha : a.channels ≠ []) (h : SameChannels a b) :
    a.extend b = .ok (a.joined b) := by
  have hforth : b.names.find? (fun name => !a.has name) = none := by
    rw [List.find?_eq_none]
    intro name hname
    simp [has_iff.2 ((h name).2 hname)]
  have hback : a.names.find? (fun name => !b.has name) = none := by
    rw [List.find?_eq_none]
    intro name hname
    simp [has_iff.2 ((h name).1 hname)]
  unfold extend
  rw [if_neg (by simpa using ha), hforth, hback]
  rfl

/-- Samples that are made anew channel by channel are found under the same names. -/
theorem find?_map (name : String) (channels : List Channel) (f : String → List Float → List Float) :
    find? name (channels.map fun c => ⟨c.name, f c.name c.samples⟩) = (find? name channels).map (f name) := by
  induction channels with
  | nil => rfl
  | cons c rest ih =>
      by_cases hname : c.name = name
      · simp [find?, hname]
      · simp [find?, hname, ih]

/-- A channel of joined tables is that of the one followed by that of the other. -/
theorem channel_joined {a b : Table} (h : SameChannels a b) (name : String) :
    (∃ top bottom, a.channel name = .ok top ∧ b.channel name = .ok bottom ∧
      (a.joined b).channel name = .ok (top ++ bottom)) ∨
    (a.channel name = .error (.unknownChannel name) ∧ b.channel name = .error (.unknownChannel name) ∧
      (a.joined b).channel name = .error (.unknownChannel name)) := by
  have hjoined : find? name (a.joined b).channels =
      (find? name a.channels).map (· ++ (find? name b.channels).getD []) :=
    find?_map name a.channels fun other samples => samples ++ (find? other b.channels).getD []
  rcases channel_cases a name with ⟨ha, top, hfind, htop⟩ | ⟨ha, htop⟩ <;>
    rcases channel_cases b name with ⟨hb, bottom, hfind', hbottom⟩ | ⟨hb, hbottom⟩
  · refine .inl ⟨top, bottom, htop, hbottom, ?_⟩
    unfold channel
    rw [hjoined, hfind, hfind']
    rfl
  · exact absurd ((h name).1 ha) hb
  · exact absurd ((h name).2 hb) ha
  · refine .inr ⟨htop, hbottom, ?_⟩
    unfold channel
    rw [hjoined, find?_eq_none_iff.2 ha]
    rfl

theorem channel_joined_of_ok {a b : Table} (h : SameChannels a b) {name : String} {top bottom : List Float}
    (htop : a.channel name = .ok top) (hbottom : b.channel name = .ok bottom) :
    (a.joined b).channel name = .ok (top ++ bottom) := by
  rcases channel_joined h name with ⟨top', bottom', htop', hbottom', hjoined⟩ | ⟨htop', -, -⟩
  · obtain rfl := Except.ok.inj (htop.symm.trans htop')
    obtain rfl := Except.ok.inj (hbottom.symm.trans hbottom')
    exact hjoined
  · rw [htop] at htop'
    simp at htop'

section Joined

variable {a b : Table} (ha : a.WellFormed) (h : SameChannels a b)
include ha h

/-- A window of the upper table is selected from the joined tables as from that table. -/
theorem select_joined_top {w : Window} (hstart : w.start ≤ w.stop) (hstop : w.stop ≤ a.rows)
    (names : List String) : (a.joined b).select names w = a.select names w := by
  refine select_congr (Nat.le_trans hstop (Nat.le_add_right _ _)) hstart hstop hstart rfl fun name _ => ?_
  rcases channel_joined h name with ⟨top, bottom, htop, -, hjoined⟩ | ⟨htop, -, hjoined⟩
  · have hlength := ha.length_of_channel htop
    rw [hjoined, htop]
    simp only [Except.map, Window.slice, Window.len]
    rw [List.drop_append_of_le_length (by omega),
      List.take_append_of_le_length (by rw [List.length_drop]; omega)]
  · rw [hjoined, htop]

/-- A window of the lower table is selected from the joined tables behind the rows of the upper one. -/
theorem select_joined_bottom {w : Window} (hstart : w.start ≤ w.stop) (hstop : w.stop ≤ b.rows)
    (names : List String) : (a.joined b).select names (w.shift a.rows) = b.select names w := by
  refine select_congr ?_ ?_ hstop hstart (w.len_shift a.rows) fun name _ => ?_
  · simp only [Window.shift, joined]
    omega
  · simp only [Window.shift]
    omega
  · rcases channel_joined h name with ⟨top, bottom, htop, hbottom, hjoined⟩ | ⟨-, hbottom, hjoined⟩
    · have hlength := ha.length_of_channel htop
      rw [hjoined, hbottom]
      simp only [Except.map, Window.slice, Window.len_shift]
      rw [Window.shift, Nat.add_comm, ← hlength, List.drop_length_add_append]
    · rw [hjoined, hbottom]
      rfl

end Joined

end Table

end FlightFit
