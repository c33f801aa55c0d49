import FlightFit.Proofs.Buffers
import FlightFit.Proofs.JoinedFiles

/-!
Module: FlightFit.Proofs.Sheets
Purpose: Tables as they lie in memory, and what extending one does there. A sheet keeps the order of the names, the
  samples by name and the number of rows apart from each other, and nothing makes them agree. Extending looks for
  names that only one of two sheets has before it changes anything, so a failure leaves no trace; afterwards samples
  are appended name by name and the rows are counted. What is then in memory is what `Table.extend` says.
Main exports: Sheet, Sheet.appendEntries, Sheet.extend, Sheet.atomic_extend, Table.sheet, Table.runOn_extend,
  Table.FirstMissing, Table.extend_eq_error_iff, Table.joined_joined, Table.extending_joins_tables
-/

namespace FlightFit

/-- A table in memory: the names in order, the samples of each name, and the number of rows. -/
structure Sheet where
  order : List String
  /-- In increasing order of the names. -/
  entries : List (String × List Float)
  rows : Nat

namespace Sheet

/-- Whether there are samples under a name. -/
def holds (sheet : Sheet) (name : String) : Bool := (Keyed.find? name sheet.entries).isSome

/-- The samples of each name with others appended, which are taken out of where they are. A name for which there are
    no others is passed over. -/
def appendEntries : List (String × List Float) → List (String × List Float) → List (String × List Float)
  | [], _ => []
  | (name, samples) :: rest, others =>
    match Keyed.find? name others with
    | some extra => (name, samples ++ extra) :: appendEntries rest (Keyed.erase name others)
    | none => (name, samples) :: appendEntries rest others

/-- Refuses the first name that is not known. -/
def demand (known : String → Bool) (names : List String) : Edit Sheet Unit :=
  match names.find? fun name => !known name with
  | some name => throw (.unknownChannel name)
  | none => pure ()

/-- Appends the rows of another sheet. -/
def extend (other : Sheet) : Edit Sheet Unit := do
  let held ← get
  if held.entries.isEmpty then set other
  else do
    demand held.holds other.order
    demand other.holds held.order
    modify fun sheet => { sheet with entries := appendEntries sheet.entries other.entries }
    modify fun sheet => { sheet with rows := sheet.rows + other.rows }

open Edit

theorem looks_demand (known : String → Bool) (names : List String) : Looks (demand known names) := by
  unfold demand
  split
  · exact looks_throw _
  · exact fun _ => rfl

/-- Extending changes nothing when it fails: once all names are known, nothing can go wrong. -/
theorem atomic_extend (other : Sheet) : Atomic (extend other) := by
  apply looks_get.bind
  intro held
  split
  · exact (sure_set other).atomic
  · apply (looks_demand _ _).bind
    intro _
    apply (looks_demand _ _).bind
    intro _
    apply Sure.atomic
    apply (sure_modify _).bind
    intro _
    exact sure_modify _

/-! ### Samples by name -/

theorem keys_appendEntries (entries others : List (String × List Float)) :
    (appendEntries entries others).map Prod.fst = entries.map Prod.fst := by
  induction entries generalizing others with
  | nil => rfl
  | cons entry rest ih =>
      unfold appendEntries
      split
      · simp [ih]
      · simp [ih]

/-- Under each name are its own samples, followed by the others for it. -/
theorem find?_appendEntries {entries : List (String × List Float)} (h : (entries.map Prod.fst).Nodup)
    (others : List (String × List Float)) (name : String) :
    Keyed.find? name (appendEntries entries others) =
      (Keyed.find? name entries).map (· ++ (Keyed.find? name others).getD []) := by
  induction entries generalizing others with
  | nil => rfl
  | cons entry rest ih =>
      rcases entry with ⟨first, samples⟩
      rcases List.nodup_cons.1 h with ⟨hfresh, hrest⟩
      by_cases hname : name = first
      · subst hname
        unfold appendEntries
        split
        · next extra hextra => simp [Keyed.find?, hextra]
        · next hnone => simp [Keyed.find?, hnone]
      · unfold appendEntries
        split
        · simp [Keyed.find?, hname, ih hrest, Keyed.find?_erase_of_ne hname]
        · simp [Keyed.find?, hname, ih hrest]

/-! ### What extending leaves -/

section Outcomes

variable {held other : Sheet} {name : String}

theorem runOn_demand_missing {known : String → Bool} {names : List String}
    (h : names.find? (fun name => !known name) = some name) :
    (demand known names).runOn held = (.error (.unknownChannel name), held) := by
  unfold demand
  rw [h]
  rfl

theorem runOn_demand_known {known : String → Bool} {names : List String}
    (h : names.find? (fun name => !known name) = none) : (demand known names).runOn held = (.ok (), held) := by
  unfold demand
  rw [h]
  rfl

theorem runOn_extend_bare (h : held.entries.isEmpty = true) : (extend other).runOn held = (.ok (), other) := by
  unfold extend
  rw [runOn_bind_of_ok (runOn_get held), if_pos h]
  rfl

variable (hheld : ¬held.entries.isEmpty = true)
include hheld

theorem runOn_extend_foreign (h : other.order.find? (fun name => !held.holds name) = some name) :
    (extend other).runOn held = (.error (.unknownChannel name), held) := by
  unfold extend
  rw [runOn_bind_of_ok (runOn_get held), if_neg hheld, runOn_bind_of_error (runOn_demand_missing h)]

variable (hforth : other.order.find? (fun name => !held.holds name) = none)
include hforth

theorem runOn_extend_lacking (h : held.order.find? (fun name => !other.holds name) = some name) :
    (extend other).runOn held = (.error (.unknownChannel name), held) := by
  unfold extend
  rw [runOn_bind_of_ok (runOn_get held), if_neg hheld, runOn_bind_of_ok (runOn_demand_known hforth),
    runOn_bind_of_error (runOn_demand_missing h)]

theorem runOn_extend_alike (hback : held.order.find? (fun name => !other.holds name) = none) :
    (extend other).runOn held =
      (.ok (), ⟨held.order, appendEntries held.entries other.entries, held.rows + other.rows⟩) := by
  unfold extend
  rw [runOn_bind_of_ok (runOn_get held), if_neg hheld, runOn_bind_of_ok (runOn_demand_known hforth),
    runOn_bind_of_ok (runOn_demand_known hback), runOn_bind_of_ok (runOn_modify _ held), runOn_modify]

end Outcomes

end Sheet

namespace Table

/-! ### How extending ends -/

section Extending

variable {t other : Table}

theorem find?_not_has_eq_none_iff {names : List String} :
    names.find? (fun name => !t.has name) = none ↔ ∀ name ∈ names, name ∈ t.names := by
  simp only [List.find?_eq_none, Bool.not_eq_true', Bool.not_eq_false, has_iff]

theorem sameChannels_of_find? (hforth : other.names.find? (fun name => !t.has name) = none)
    (hback : t.names.find? (fun name => !other.has name) = none) : t.SameChannels other := by
  intro name
  exact ⟨find?_not_has_eq_none_iff.1 hback name, find?_not_has_eq_none_iff.1 hforth name⟩

/-- A table without channels takes the other one over. Otherwise a name that is foreign to it is refused, then one
    that the other one lacks, and if there is neither, the rows are joined. -/
theorem extend_cases (t other : Table) :
    (t.channels = [] ∧ t.extend other = .ok other) ∨
    (t.channels ≠ [] ∧
      ((∃ name, other.names.find? (fun name => !t.has name) = some name ∧
          t.extend other = .error (.unknownChannel name)) ∨
        (other.names.find? (fun name => !t.has name) = none ∧
          ((∃ name, t.names.find? (fun name => !other.has name) = some name ∧
              t.extend other = .error (.unknownChannel name)) ∨
            (t.names.find? (fun name => !other.has name) = none ∧ t.extend other = .ok (t.joined other)))))) := by
  by_cases hbare : t.channels = []
  · exact .inl ⟨hbare, by simp [extend, hbare]⟩
  refine .inr ⟨hbare, ?_⟩
  have hsome : ¬t.channels.isEmpty = true := by simpa using hbare
  unfold extend
  rw [if_neg hsome]
  cases hforth : other.names.find? (fun name => !t.has name) with
  | some name => exact .inl ⟨name, rfl, rfl⟩
  | none =>
      refine .inr ⟨rfl, ?_⟩
      cases hback : t.names.find? (fun name => !other.has name) with
      | some name => exact .inl ⟨name, rfl, rfl⟩
      | none => exact .inr ⟨rfl, rfl⟩

/-- The first of some names that a table does not have. -/
def FirstMissing (t : Table) (names : List String) (name : String) : Prop :=
  name ∉ t.names ∧ ∃ before after, names = before ++ name :: after ∧ ∀ other ∈ before, other ∈ t.names

theorem find?_not_has_eq_some_iff {names : List String} {name : String} :
    names.find? (fun name => !t.has name) = some name ↔ t.FirstMissing names name := by
  rw [List.find?_eq_some_iff_append, FirstMissing, ← has_iff, Bool.not_eq_true]
  simp only [Bool.not_eq_true', Bool.not_not, has_iff]

/-- A table with channels refuses the first name that is foreign to it, and if there is none, the first of its own
    names that the other one lacks. -/
theorem extend_eq_error_iff (hsome : t.channels ≠ []) (fault : Fault) :
    t.extend other = .error fault ↔
      ∃ name, fault = .unknownChannel name ∧
        (t.FirstMissing other.names name ∨
          (∀ known ∈ other.names, known ∈ t.names) ∧ other.FirstMissing t.names name) := by
  have hone : ∀ {names : List String} {t : Table} {name name' : String}, t.FirstMissing names name →
      names.find? (fun name => !t.has name) = some name' → name' = name := by
    intro names t name name' hfirst hfind
    exact Option.some.inj (hfind.symm.trans (find?_not_has_eq_some_iff.2 hfirst))
  have hnone : ∀ {names : List String} {t : Table} {name : String}, t.FirstMissing names name →
      names.find? (fun name => !t.has name) ≠ none := by
    intro names t name hfirst hfind
    cases hfind.symm.trans (find?_not_has_eq_some_iff.2 hfirst)
  rcases extend_cases t other with ⟨hbare, -⟩ | ⟨-, h⟩
  · exact absurd hbare hsome
  rcases h with ⟨name, hname, h⟩ | ⟨hforth, ⟨name, hname, h⟩ | ⟨hback, h⟩⟩
  · have hmissing := find?_not_has_eq_some_iff.1 hname
    rw [h]
    constructor
    · rintro ⟨⟩
      exact ⟨name, rfl, .inl hmissing⟩
    · rintro ⟨name', rfl, hfirst | ⟨hknown, -⟩⟩
      · rw [hone hfirst hname]
      · cases hname.symm.trans (find?_not_has_eq_none_iff.2 hknown)
  · rw [h]
    constructor
    · rintro ⟨⟩
      exact ⟨name, rfl, .inr ⟨find?_not_has_eq_none_iff.1 hforth, find?_not_has_eq_some_iff.1 hname⟩⟩
    · rintro ⟨name', rfl, hfirst | ⟨-, hfirst⟩⟩
      · exact absurd hforth (hnone hfirst)
      · rw [hone hfirst hname]
  · rw [h]
    constructor
    · rintro ⟨⟩
    · rintro ⟨name', -, hfirst | ⟨-, hfirst⟩⟩
      · exact absurd hforth (hnone hfirst)
      · exact absurd hback (hnone hfirst)

end Extending

/-! ### Three tables -/

/-- It does not matter which two of three tables are joined first. -/
theorem joined_joined {a b : Table} (h : a.SameChannels b) (c : Table) :
    (a.joined b).joined c = a.joined (b.joined c) := by
  have hchannel : ∀ top ∈ a.channels, find? top.name (b.joined c).channels =
      some ((find? top.name b.channels).getD [] ++ (find? top.name c.channels).getD []) := by
    intro top htop
    have hname : top.name ∈ b.names := (h top.name).1 (List.mem_map_of_mem htop)
    rcases channel_cases b top.name with ⟨-, bottom, hbottom, -⟩ | ⟨hnot, -⟩
    · rw [joined, find?_map top.name b.channels fun name samples => samples ++ (find? name c.channels).getD [], hbottom]
      rfl
    · exact absurd hname hnot
  have hrows : a.rows + b.rows + c.rows = a.rows + (b.rows + c.rows) := Nat.add_assoc _ _ _
  simp only [joined, List.map_map, Function.comp_def, hrows, Table.mk.injEq, true_and]
  apply List.map_congr_left
  intro top htop
  have hsamples := hchannel top htop
  simp only [joined] at hsamples
  simp only [hsamples, Option.getD_some, List.append_assoc]

/-- Three tables can be joined from above exactly when they can be joined from below. -/
theorem extend_extend_eq_ok_iff {a b : Table} (ha : a.channels ≠ []) (hb : b.channels ≠ []) (c t : Table) :
    (a.extend b >>= fun ab => ab.extend c) = .ok t ↔ (b.extend c >>= fun bc => a.extend bc) = .ok t := by
  have hab : (a.joined b).channels ≠ [] := fun hnil => ha (List.map_eq_nil_iff.1 hnil)
  simp only [bind_eq_ok_iff, extend_eq_ok_iff, ha, hb, false_and, false_or, not_false_eq_true, true_and, ne_eq]
  constructor
  · rintro ⟨_, ⟨hsame, rfl⟩, ⟨hnil, -⟩ | ⟨-, hthird, rfl⟩⟩
    · exact absurd hnil hab
    · have hac : a.SameChannels c := (sameChannels_joined a b).symm.trans hthird
      exact ⟨_, ⟨hsame.symm.trans hac, rfl⟩, hsame.trans (sameChannels_joined b c).symm, joined_joined hsame c⟩
  · rintro ⟨_, ⟨hbc, rfl⟩, hsame, rfl⟩
    have hab' : a.SameChannels b := hsame.trans (sameChannels_joined b c)
    exact ⟨_, ⟨hab', rfl⟩, .inr ⟨hab, (sameChannels_joined a b).trans (hab'.trans hbc), (joined_joined hab' c).symm⟩⟩

/-! ### Tables in memory -/

/-- A table as it lies in memory. -/
def sheet (t : Table) : Sheet := ⟨t.names, Keyed.ofList (t.channels.map fun c => (c.name, c.samples)), t.rows⟩

/-- What is left in memory of a table after an operation on it. -/
def settled (t : Table) : Except Fault Table → Except Fault Unit × Sheet
  | .ok next => (.ok (), next.sheet)
  | .error fault => (.error fault, t.sheet)

theorem mem_of_find? {name : String} {channels : List Channel} {samples : List Float}
    (h : find? name channels = some samples) : ⟨name, samples⟩ ∈ channels := by
  induction channels with
  | nil => cases h
  | cons c rest ih =>
      unfold find? at h
      split at h
      · next hname =>
          cases h
          cases hname
          exact List.mem_cons_self
      · exact List.mem_cons_of_mem _ (ih h)

theorem keys_of_channels (channels : List Channel) :
    (channels.map fun c => (c.name, c.samples)).map Prod.fst = channels.map Channel.name := by
  rw [List.map_map]
  rfl

theorem sorted_entries (t : Table) : (t.sheet.entries.map Prod.fst).Pairwise (· < ·) := Keyed.sorted_ofList _

theorem nodup_entries (t : Table) : (t.sheet.entries.map Prod.fst).Nodup := Keyed.nodup_keys_ofList _

section Names

variable {t : Table} (ht : t.names.Nodup)
include ht

theorem entries_perm : t.sheet.entries.Perm (t.channels.map fun c => (c.name, c.samples)) := by
  apply Keyed.ofList_perm
  rw [keys_of_channels]
  exact ht

/-- In memory the same samples are found under a name as in the table. -/
theorem find?_sheet (name : String) : Keyed.find? name t.sheet.entries = find? name t.channels := by
  cases hfind : find? name t.channels with
  | none =>
      rw [sheet, Keyed.find?_eq_none_iff, Keyed.mem_keys_ofList, keys_of_channels]
      exact find?_eq_none_iff.1 hfind
  | some samples =>
      apply Keyed.find?_of_mem t.nodup_entries
      apply (entries_perm ht).mem_iff.2
      exact List.mem_map.2 ⟨_, mem_of_find? hfind, rfl⟩

theorem holds_sheet (name : String) : t.sheet.holds name = t.has name := by
  rw [Sheet.holds, find?_sheet ht, has]

end Names

section Memory

variable {t other : Table} (ht : t.WellFormed)
include ht

theorem isEmpty_entries_sheet : t.sheet.entries.isEmpty = t.channels.isEmpty := by
  rw [(entries_perm ht.distinct).isEmpty_eq, List.isEmpty_map]

/-- Joined in memory, the samples of two tables are those of the joined table. -/
theorem appendEntries_sheet (hother : other.WellFormed) (hjoined : (t.joined other).WellFormed) :
    Sheet.appendEntries t.sheet.entries other.sheet.entries = (t.joined other).sheet.entries := by
  have hsorted : ((Sheet.appendEntries t.sheet.entries other.sheet.entries).map Prod.fst).Pairwise (· < ·) := by
    rw [Sheet.keys_appendEntries]
    exact t.sorted_entries
  apply Keyed.eq_of_find? hsorted (t.joined other).sorted_entries
  intro name
  rw [Sheet.find?_appendEntries t.nodup_entries, find?_sheet ht.distinct, find?_sheet hother.distinct,
    find?_sheet hjoined.distinct]
  exact (find?_map name t.channels fun name samples => samples ++ (find? name other.channels).getD []).symm

/-- Samples and rows that have been appended in memory are those of the joined table. -/
theorem sheet_joined (hother : other.WellFormed) (hjoined : (t.joined other).WellFormed) :
    (t.joined other).sheet =
      ⟨t.sheet.order, Sheet.appendEntries t.sheet.entries other.sheet.entries, t.sheet.rows + other.sheet.rows⟩ := by
  rw [appendEntries_sheet ht hother hjoined]
  exact congrArg (fun order => Sheet.mk order (t.joined other).sheet.entries (t.rows + other.rows)) (names_joined t other)

/-- Extending in memory does what `extend` says. -/
theorem runOn_extend (hother : other.WellFormed) :
    (Sheet.extend other.sheet).runOn t.sheet = t.settled (t.extend other) := by
  have hknown : t.sheet.holds = t.has := funext (holds_sheet ht.distinct)
  have hknown' : other.sheet.holds = other.has := funext (holds_sheet hother.distinct)
  have hempty : t.sheet.entries.isEmpty = true ↔ t.channels = [] := by
    rw [isEmpty_entries_sheet ht, List.isEmpty_iff]
  rcases extend_cases t other with ⟨hbare, h⟩ | ⟨hsome, h⟩
  · rw [h]
    exact Sheet.runOn_extend_bare (hempty.2 hbare)
  have hheld : ¬t.sheet.entries.isEmpty = true := fun h => hsome (hempty.1 h)
  rcases h with ⟨name, hname, h⟩ | ⟨hforth, h⟩
  · rw [h]
    exact Sheet.runOn_extend_foreign hheld (by rw [hknown]; exact hname)
  have hforth' : other.sheet.order.find? (fun name => !t.sheet.holds name) = none := by
    rw [hknown]
    exact hforth
  rcases h with ⟨name, hname, h⟩ | ⟨hback, h⟩
  · rw [h]
    exact Sheet.runOn_extend_lacking hheld hforth' (by rw [hknown']; exact hname)
  · have hsame := sameChannels_of_find? hforth hback
    rw [h, settled, sheet_joined ht hother (wellFormed_joined ht hother hsome hsame)]
    exact Sheet.runOn_extend_alike hheld hforth' (by rw [hknown']; exact hback)

end Memory

/-- Extending puts the rows of one table below those of another. Without channels, a table becomes the other one.
    Otherwise both need the same channels: each of them is then continued by the samples of the other table, rows add
    up, and the order of the names stays. A failure names the first channel that is foreign to the table, or else the
    first that the other one lacks, and it leaves what is in memory as it was. Of three tables it does not matter which
    two are joined first. -/
theorem extending_joins_tables (a b : Table) (ha : a.Reached) (hb : b.Reached) :
    (Sheet.extend b.sheet).runOn a.sheet = a.settled (a.extend b) ∧
    (∀ fault after, (Sheet.extend b.sheet).runOn a.sheet = (.error fault, after) → after = a.sheet) ∧
    (a.channels = [] → a.extend b = .ok b) ∧
    (a.channels ≠ [] →
      ((∃ t, a.extend b = .ok t) ↔ a.SameChannels b) ∧
      (∀ t, a.extend b = .ok t →
        t.names = a.names ∧ t.rows = a.rows + b.rows ∧
        ∀ name ∈ a.names, ∃ top bottom, a.channel name = .ok top ∧ b.channel name = .ok bottom ∧
          t.channel name = .ok (top ++ bottom)) ∧
      (∀ fault, a.extend b = .error fault ↔
        ∃ name, fault = .unknownChannel name ∧
          (a.FirstMissing b.names name ∨
            (∀ known ∈ b.names, known ∈ a.names) ∧ b.FirstMissing a.names name)) ∧
      (b.channels ≠ [] → ∀ c t : Table,
        (a.extend b >>= fun ab => ab.extend c) = .ok t ↔ (b.extend c >>= fun bc => a.extend bc) = .ok t)) := by
  refine ⟨runOn_extend ha.wellFormed hb.wellFormed, fun fault after => Sheet.atomic_extend b.sheet _ after fault, ?_, ?_⟩
  · intro hbare
    exact extend_eq_ok_iff.2 (.inl ⟨hbare, rfl⟩)
  · intro hsome
    refine ⟨?_, ?_, extend_eq_error_iff hsome, fun hb => extend_extend_eq_ok_iff hsome hb⟩
    · constructor
      · rintro ⟨t, ht⟩
        rcases extend_eq_ok_iff.1 ht with ⟨hbare, -⟩ | ⟨-, hsame, -⟩
        · exact absurd hbare hsome
        · exact hsame
      · intro hsame
        exact ⟨_, extend_of_sameChannels hsome hsame⟩
    · intro t ht
      rcases extend_eq_ok_iff.1 ht with ⟨hbare, -⟩ | ⟨-, hsame, rfl⟩
      · exact absurd hbare hsome
      · refine ⟨names_joined a b, rfl, ?_⟩
        intro name hname
        rcases exists_channel_of_mem hname with ⟨top, htop⟩
        rcases exists_channel_of_mem ((hsame name).1 hname) with ⟨bottom, hbottom⟩
        exact ⟨top, bottom, htop, hbottom, channel_joined_of_ok hsame htop hbottom⟩

/-- The first rows of a climb. -/
def climbTable : Table := Table.empty.perform (.build [("t", [0.0, 1.0]), ("v", [60.0, 61.0])])

/-- More rows of it, with the channels in another order. -/
def laterTable : Table := Table.empty.perform (.build [("v", [62.0]), ("t", [2.0])])

/-- Rows that have a foreign channel and lack one. -/
def foreignTable : Table := Table.empty.perform (.build [("v", [63.0]), ("x", [0.5])])

theorem extending_joins_tables_climb :
    climbTable.Reached ∧ laterTable.Reached ∧ foreignTable.Reached ∧
    (∃ t, climbTable.extend laterTable = .ok t ∧ t.names = ["t", "v"] ∧ t.rows = 3 ∧
      (Sheet.extend laterTable.sheet).runOn climbTable.sheet = (.ok (), t.sheet)) ∧
    (Sheet.extend foreignTable.sheet).runOn climbTable.sheet = (.error (.unknownChannel "x"), climbTable.sheet) := by
  have hbuilt : ∀ columns, (Table.empty.perform (.build columns)).Reached := fun columns =>
    .step .empty (.build columns) (by simp)
  have hsome : climbTable.channels ≠ [] := by simp [climbTable, perform, Table.ofColumns, Except.toOption, put]
  rcases extending_joins_tables climbTable laterTable (hbuilt _) (hbuilt _) with ⟨hmemory, -, -, halike⟩
  rcases extending_joins_tables climbTable foreignTable (hbuilt _) (hbuilt _) with ⟨hmemory', -, -, hforeign⟩
  rcases halike hsome with ⟨hsuccess, hjoined, -⟩
  rcases hforeign hsome with ⟨-, -, hfailure, -⟩
  have hsame : climbTable.SameChannels laterTable := by
    have hclimb : climbTable.names = ["t", "v"] := rfl
    have hlater : laterTable.names = ["v", "t"] := rfl
    intro name
    rw [hclimb, hlater]
    simp [or_comm]
  have hfirst : climbTable.FirstMissing foreignTable.names "x" := ⟨by decide, ["v"], [], rfl, by decide⟩
  rcases hsuccess.2 hsame with ⟨t, ht⟩
  rcases hjoined t ht with ⟨hnames, hrows, -⟩
  rw [ht] at hmemory
  rw [(hfailure _).2 ⟨"x", rfl, .inl hfirst⟩] at hmemory'
  exact ⟨hbuilt _, hbuilt _, hbuilt _, ⟨t, ht, hnames, hrows, hmemory⟩, hmemory'⟩

end Table

end FlightFit
