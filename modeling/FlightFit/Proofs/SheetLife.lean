import FlightFit.Proofs.ColumnTables
import FlightFit.Proofs.Sheets

/-!
Module: FlightFit.Proofs.SheetLife
Purpose: Tables in memory along their life. The order of the names, the samples by name and the number of rows lie
  apart in a sheet, and each operation has to keep them in step by itself: building enters one column after the other
  into the order and among the samples, writing and converting reach into samples where they are, and loading extends
  a sheet file by file. Each of them leaves in memory what the operation on tables says, also when it stops midway
  (`Table.sheet_ofColumns`, `Table.runOn_change`, `Table.runOn_convert`, `Sheet.mirrors_loadAll`). So every sheet that
  they lead to is that of a table that they lead to, and a selection from it never reaches past the end of a column.
Main exports: Sheet.ofColumns, Sheet.change, Sheet.write, Sheet.convert, Sheet.loadAll, Sheet.select,
  Table.sheet_ofColumns, Table.runOn_change, Table.runOn_convert, Sheet.Mirrors, Sheet.mirrors_loadAll,
  Table.select_sheet, Sheet.Operation, Sheet.Reached, Sheet.Reached.exists_table, Sheet.Consistent, Sheet.Selects,
  Sheet.reached_sheets_are_consistent
-/

namespace FlightFit

/-! ### Operations in memory -/

namespace Sheet

/-- The sheet without names. -/
def empty : Sheet := ⟨[], [], 0⟩

/-- Puts columns into a sheet one after the other, up to the first that has not as many samples as there are rows. A
    name is added to the order when there are no samples under it yet; samples that are there are replaced. -/
def putColumns : Columns → Sheet → Except Fault Sheet
  | [], sheet => .ok sheet
  | (name, samples) :: rest, sheet =>
    if samples.length != sheet.rows then .error (.lengthMismatch name sheet.rows samples.length)
    else
      let order := if sheet.holds name then sheet.order else sheet.order ++ [name]
      putColumns rest { sheet with order, entries := Keyed.insert name samples sheet.entries }

/-- A sheet of columns, all as long as the first one. -/
def ofColumns (columns : Columns) : Except Fault Sheet :=
  let rows := match columns with
    | [] => 0
    | (_, samples) :: _ => samples.length
  putColumns columns ⟨[], [], rows⟩

/-- Entries with the samples under a name changed where they are, if there are some. -/
def revise (name : String) (f : List Float → List Float) :
    List (String × List Float) → Option (List (String × List Float))
  | [] => none
  | (key, samples) :: rest =>
    if name = key then some ((key, f samples) :: rest)
    else (revise name f rest).map fun entries => (key, samples) :: entries

/-- Changes the samples under a name. -/
def change (name : String) (f : List Float → List Float) : Edit Sheet Unit := do
  match revise name f (← get).entries with
  | some entries => modify fun sheet => { sheet with entries }
  | none => throw (.unknownChannel name)

/-- Writes one sample. -/
def write (name : String) (index : Nat) (value : Float) : Edit Sheet Unit :=
  change name fun samples => samples.set index value

/-- Converts channels one after the other. -/
def convertEach : List (String × Conversion) → Edit Sheet Unit
  | [] => pure ()
  | (name, conversion) :: rest => do
    change name fun samples => samples.map conversion.convert
    convertEach rest

/-- Converts every listed channel. -/
def convert (converter : UnitConverter) : Edit Sheet Unit := convertEach converter.conversions

section Loading

open FlightFit.Action

/-- What an edit makes of a sheet. When it fails, the sheet is given up together with what has been changed. -/
def edited (edit : Edit Sheet Unit) (sheet : Sheet) : Except Fault Sheet :=
  match edit.runOn sheet with
  | (.ok (), after) => .ok after
  | (.error fault, _) => .error fault

/-- Makes a sheet of the columns that are read. -/
def sheetOf (columns : Action Columns) : Action Sheet := do
  attempt (ofColumns (← columns))

/-- Loads a file, in the format of its extension. -/
def loadFile (delimiter : UInt8) (path : String) : Action Sheet := do
  let ext := Path.extension path
  match FileFormat.ofExtension? ext with
  | none => fail (.other s!"Unsupported file extension: .{ext}")
  | some format =>
    let sheet ← during s!"loading {path}" (match format with
      | .columnar => sheetOf (columnarColumns path)
      | .json => sheetOf (jsonColumns path)
      | .delimited => sheetOf (delimitedColumns delimiter path))
    report (.loaded sheet.rows sheet.order.length path)
    pure sheet

/-- Loads files one after the other, each of them extending a sheet. -/
def loadBelow (delimiter : UInt8) (sheet : Sheet) : List String → Action Sheet
  | [] => pure sheet
  | path :: rest => do
    let next ← loadFile delimiter path
    let sheet ← during s!"appending {path}" (attempt (edited (extend next) sheet))
    loadBelow delimiter sheet rest

/-- Converts the units of a sheet. -/
def convertUnits (converter : UnitConverter) (sheet : Sheet) : Action Sheet := do
  match edited (convert converter) sheet with
  | .ok sheet =>
    report (.converted converter.conversions.length)
    pure sheet
  | .error fault =>
    match fault with
    | .unknownChannel name =>
      during s!"applying unit conversion to '{name}'" (fail (.fault fault))
    | fault => fail (.fault fault)

/-- Loads files one after the other into one sheet and converts units. -/
def loadAll (delimiter : UInt8) (converter : Option UnitConverter) (paths : List String) : Action Sheet := do
  let sheet ← loadBelow delimiter .empty paths
  match converter with
  | some converter => convertUnits converter sheet
  | none => pure sheet

end Loading

/-- The samples under a name. -/
def channel (sheet : Sheet) (name : String) : Except Fault (List Float) :=
  match Keyed.find? name sheet.entries with
  | some samples => .ok samples
  | none => .error (.unknownChannel name)

/-- What is left of one number without another one, which must not be larger. -/
def minus? (a b : Nat) : Option Nat := if b ≤ a then some (a - b) else none

/-- Copies samples over a window into a matrix, one column for each name. There is no answer where a difference is
    below zero, or where a sample is asked for that a column does not have. -/
def select (sheet : Sheet) (names : List String) (w : Window) : Option (Except Fault (Matrix Float)) :=
  if sheet.rows < w.stop || w.stop < w.start then some (.error (.outOfBounds w.start w.stop sheet.rows))
  else match names.mapM sheet.channel with
    | .error fault => some (.error fault)
    | .ok columns => do
      let height ← minus? w.stop w.start
      if (List.range height).all fun row => columns.all fun samples => w.start + row < samples.length then
        some (.ok (Matrix.ofColumns height (columns.map fun samples => samples.drop w.start)))
      else none

end Sheet

/-! ### Building in memory -/

namespace Table

variable {t : Table}

/-- A column that is put into a sheet is put into the table. -/
theorem sheet_put (h : t.names.Nodup) (name : String) (samples : List Float) :
    (Table.mk t.rows (put name samples t.channels)).sheet =
      ⟨if t.sheet.holds name then t.sheet.order else t.sheet.order ++ [name],
        Keyed.insert name samples t.sheet.entries, t.rows⟩ := by
  have hput : (Table.mk t.rows (put name samples t.channels)).names.Nodup := nodup_put h name samples
  have horder : (put name samples t.channels).map Channel.name =
      if t.sheet.holds name then t.sheet.order else t.sheet.order ++ [name] := by
    rw [names_put, holds_sheet h]
    exact if_congr has_iff.symm rfl rfl
  have hentries : (Table.mk t.rows (put name samples t.channels)).sheet.entries =
      Keyed.insert name samples t.sheet.entries := by
    apply Keyed.eq_of_find? (sorted_entries _) (Keyed.sorted_insert name samples t.sorted_entries)
    intro other
    rw [find?_sheet hput, find?_put, Keyed.find?_insert, find?_sheet h]
  rw [← horder, ← hentries]
  rfl

/-- Columns that are put into a sheet are put into the table, if none of them is uneven. -/
theorem putColumns_sheet (columns : Columns) (h : t.names.Nodup) :
    Sheet.putColumns columns t.sheet =
      match columns.find? (fun column => column.2.length != t.rows) with
      | some (name, samples) => .error (.lengthMismatch name t.rows samples.length)
      | none => .ok (Table.mk t.rows
          (columns.foldl (fun channels column => put column.1 column.2 channels) t.channels)).sheet := by
  induction columns generalizing t with
  | nil => rfl
  | cons column rest ih =>
      obtain ⟨name, samples⟩ := column
      have hrows : t.sheet.rows = t.rows := rfl
      rw [Sheet.putColumns, hrows, List.find?_cons]
      by_cases heven : (samples.length != t.rows) = true
      · rw [if_pos heven]
        simp only [heven]
      · have hput : (Table.mk t.rows (put name samples t.channels)).names.Nodup := nodup_put h name samples
        rw [if_neg heven]
        simp only [heven, List.foldl_cons]
        exact (congrArg _ (sheet_put h name samples).symm).trans (ih hput)

/-- A sheet is built from columns as a table is. -/
theorem sheet_ofColumns (columns : Columns) : Sheet.ofColumns columns = (ofColumns columns).map sheet := by
  have hbuilt := putColumns_sheet (t := ⟨firstLength columns, []⟩) columns List.nodup_nil
  rw [ofColumns_eq]
  cases hfind : columns.find? (fun column => column.2.length != firstLength columns) with
  | some uneven =>
      simp only [hfind] at hbuilt
      cases columns with
      | nil => cases hfind
      | cons first rest => exact hbuilt
  | none =>
      simp only [hfind] at hbuilt
      cases columns with
      | nil => rfl
      | cons first rest => exact hbuilt

end Table

/-! ### Changing samples in memory -/

namespace Sheet

section Revise

variable {name : String} {f : List Float → List Float} {entries after : List (String × List Float)}

theorem revise_eq_none_iff : revise name f entries = none ↔ Keyed.find? name entries = none := by
  induction entries with
  | nil => simp [revise, Keyed.find?]
  | cons entry rest ih =>
      by_cases hname : name = entry.1
      · simp [revise, Keyed.find?, hname]
      · simp [revise, Keyed.find?, hname, ih]

theorem keys_revise (h : revise name f entries = some after) : after.map Prod.fst = entries.map Prod.fst := by
  induction entries generalizing after with
  | nil => cases h
  | cons entry rest ih =>
      rw [revise] at h
      split at h
      · cases h
        rfl
      · obtain ⟨more, hmore, rfl⟩ := Option.map_eq_some_iff.1 h
        rw [List.map_cons, ih hmore, List.map_cons]

/-- Under the name are the new samples, and under every other name those of before. -/
theorem find?_revise (h : revise name f entries = some after) (other : String) :
    Keyed.find? other after =
      (Keyed.find? other entries).map fun samples => if other = name then f samples else samples := by
  induction entries generalizing after with
  | nil => cases h
  | cons entry rest ih =>
      rw [revise] at h
      split at h
      · next hname =>
          cases h
          by_cases hother : other = entry.1
          · simp [Keyed.find?, hother, hname]
          · have hne : other ≠ name := fun heq => hother (heq.trans hname)
            simp [Keyed.find?, hother, hne]
      · next hname =>
          obtain ⟨more, hmore, rfl⟩ := Option.map_eq_some_iff.1 h
          by_cases hother : other = entry.1
          · simp [Keyed.find?, hother, Ne.symm hname]
          · simp [Keyed.find?, hother, ih hmore]

end Revise

end Sheet

namespace Table

/-- Entries with the samples under a name changed are those of the table with these samples changed. -/
theorem sheet_of_revise {t : Table} (h : t.names.Nodup) {name : String} {f : List Float → List Float}
    {entries : List (String × List Float)} (hrevise : Sheet.revise name f t.sheet.entries = some entries) :
    (t.mapSamples fun other samples => if other = name then f samples else samples).sheet =
      ⟨t.names, entries, t.rows⟩ := by
  set next := t.mapSamples fun other samples => if other = name then f samples else samples
  have hnames : next.names = t.names := names_mapSamples _ t
  have hdistinct : next.names.Nodup := by
    rw [hnames]
    exact h
  have hsorted : (entries.map Prod.fst).Pairwise (· < ·) := by
    rw [Sheet.keys_revise hrevise]
    exact t.sorted_entries
  have hentries : entries = next.sheet.entries := by
    apply Keyed.eq_of_find? hsorted next.sorted_entries
    intro other
    rw [Sheet.find?_revise hrevise, find?_sheet h, find?_sheet hdistinct]
    exact (find?_map other t.channels fun other samples => if other = name then f samples else samples).symm
  rw [hentries, ← hnames]
  rfl

section Changing

variable {t : Table} (ht : t.WellFormed)
include ht

/-- Samples in memory are changed as `update` says. -/
theorem runOn_change (name : String) (f : List Float → List Float) :
    (Sheet.change name f).runOn t.sheet = t.settled (t.update name f) := by
  have hnone : Sheet.revise name f t.sheet.entries = none ↔ name ∉ t.names := by
    rw [Sheet.revise_eq_none_iff, find?_sheet ht.distinct, find?_eq_none_iff, names]
  unfold Sheet.change
  rw [Edit.runOn_bind_of_ok (Edit.runOn_get _)]
  cases hrevise : Sheet.revise name f t.sheet.entries with
  | none =>
      rw [UnitConverter.update_of_not_mem (hnone.1 hrevise)]
      rfl
  | some entries =>
      have hmem : name ∈ t.names := by
        rw [← Decidable.not_not (p := name ∈ t.names), ← hnone, hrevise]
        simp
      rw [UnitConverter.update_of_mem hmem, settled, sheet_of_revise ht.distinct hrevise]
      rfl

theorem runOn_write (name : String) (index : Nat) (value : Float) :
    (Sheet.write name index value).runOn t.sheet = t.settled (t.write name index value) :=
  runOn_change ht name _

end Changing

/-- Conversions in memory are done as on the table, up to the first channel that is not there. -/
theorem runOn_convertEach (conversions : List (String × Conversion)) {t : Table} (ht : t.WellFormed) :
    (Sheet.convertEach conversions).runOn t.sheet =
      ((UnitConverter.applyAll conversions t).2, (UnitConverter.applyAll conversions t).1.sheet) := by
  induction conversions generalizing t with
  | nil => rfl
  | cons conversion rest ih =>
      have hchange := runOn_change ht conversion.1 fun samples => samples.map conversion.2.convert
      unfold Sheet.convertEach UnitConverter.applyAll
      cases hupdate : t.update conversion.1 fun samples => samples.map conversion.2.convert with
      | error fault =>
          rw [hupdate] at hchange
          exact Edit.runOn_bind_of_error hchange _
      | ok next =>
          rw [hupdate] at hchange
          rw [Edit.runOn_bind_of_ok hchange]
          exact ih (wellFormed_update ht (fun _ => List.length_map _) hupdate)

/-- Units are converted in memory as on the table. -/
theorem runOn_convert (converter : UnitConverter) {t : Table} (ht : t.WellFormed) :
    (Sheet.convert converter).runOn t.sheet = ((converter.apply t).2, (converter.apply t).1.sheet) :=
  runOn_convertEach converter.conversions ht

end Table

/-! ### Loading in memory -/

namespace Sheet

section Mirrors

open FlightFit.Action

variable {memory : Action Sheet} {action : Action Table} {α : Type}

/-- Work in memory ends as work on tables does: with the same failures and reports, and with the sheet of the table
    that comes out of it. -/
def Mirrors (memory : Action Sheet) (action : Action Table) : Prop :=
  ∀ session, memory.runOn session = ((action.runOn session).1.map Table.sheet, (action.runOn session).2)

theorem mirrors_pure (t : Table) : Mirrors (pure t.sheet) (pure t) := fun _ => rfl

theorem mirrors_fail (cause : Cause) : Mirrors (fail cause) (fail cause) := fun _ => rfl

theorem mirrors_attempt (result : Except Fault Table) :
    Mirrors (attempt (result.map Table.sheet)) (attempt result) := by
  intro session
  cases result with
  | ok t => rfl
  | error fault => rfl

theorem Mirrors.during (h : Mirrors memory action) (activity : String) :
    Mirrors (during activity memory) (during activity action) := by
  intro session
  rw [runOn_during, runOn_during, h session]
  cases (action.runOn session).1 with
  | ok t => rfl
  | error failure => rfl

/-- Work goes on in memory as on the tables that can come out so far. -/
theorem Mirrors.bind {next : Sheet → Action Sheet} {next' : Table → Action Table} (h : Mirrors memory action)
    (hnext : ∀ session after t, action.runOn session = (.ok t, after) → Mirrors (next t.sheet) (next' t)) :
    Mirrors (memory >>= next) (action >>= next') := by
  intro session
  rw [runOn_bind, runOn_bind, h session]
  cases hrun : action.runOn session with
  | mk result after =>
      cases result with
      | error failure => rfl
      | ok t => exact hnext session after t hrun after

/-- Both may begin with the same step. -/
theorem mirrors_bind (first : Action α) {next : α → Action Sheet} {next' : α → Action Table}
    (h : ∀ a, Mirrors (next a) (next' a)) : Mirrors (first >>= next) (first >>= next') := by
  intro session
  rw [runOn_bind, runOn_bind]
  cases first.runOn session with
  | mk result after =>
      cases result with
      | error failure => rfl
      | ok a => exact h a after

theorem mirrors_sheetOf (columns : Action Columns) : Mirrors (sheetOf columns) (tableOf columns) := by
  apply mirrors_bind
  intro read
  rw [Table.sheet_ofColumns]
  exact mirrors_attempt _

theorem mirrors_loadFile (delimiter : UInt8) (path : String) :
    Mirrors (loadFile delimiter path) (FlightFit.loadFile delimiter path) := by
  unfold loadFile FlightFit.loadFile
  dsimp only
  cases FileFormat.ofExtension? (Path.extension path) with
  | none => exact mirrors_fail _
  | some format =>
      apply Mirrors.bind
      · apply Mirrors.during
        cases format with
        | columnar => exact mirrors_sheetOf _
        | json => exact mirrors_sheetOf _
        | delimited => exact mirrors_sheetOf _
      · intro _ _ t _
        have horder : t.sheet.order.length = t.channels.length := List.length_map _
        rw [horder]
        exact mirrors_bind _ fun _ => mirrors_pure t

theorem edited_of_settled {edit : Edit Sheet Unit} {t : Table} {result : Except Fault Table}
    (h : edit.runOn t.sheet = t.settled result) : edited edit t.sheet = result.map Table.sheet := by
  unfold edited
  rw [h]
  cases result with
  | ok next => rfl
  | error fault => rfl

theorem mirrors_loadBelow (delimiter : UInt8) (paths : List String) {t : Table} (ht : t.WellFormed) :
    Mirrors (loadBelow delimiter t.sheet paths) (FlightFit.loadBelow delimiter t paths) := by
  induction paths generalizing t with
  | nil => exact mirrors_pure t
  | cons path rest ih =>
      apply (mirrors_loadFile delimiter path).bind
      intro _ _ other hload
      have hother := wellFormed_loadFile hload
      apply Mirrors.bind
      · rw [edited_of_settled (Table.runOn_extend ht hother)]
        exact (mirrors_attempt _).during _
      · intro session after next hnext
        have hextend := (runOn_attempt_eq_ok_iff.1 (runOn_during_eq_ok_iff.1 hnext)).1
        exact ih (Table.wellFormed_extend ht hother hextend)

theorem mirrors_convertUnits (converter : UnitConverter) {t : Table} (ht : t.WellFormed) :
    Mirrors (convertUnits converter t.sheet) (FlightFit.convertUnits converter t) := by
  unfold convertUnits FlightFit.convertUnits edited
  rw [Table.runOn_convert converter ht]
  cases hconvert : converter.apply t with
  | mk last result =>
      cases result with
      | ok _ => exact mirrors_bind _ fun _ => mirrors_pure last
      | error fault =>
          cases fault with
          | unknownChannel name => exact (mirrors_fail _).during _
          | _ => exact mirrors_fail _

/-- Files are loaded in memory as into tables. -/
theorem mirrors_loadAll (delimiter : UInt8) (converter : Option UnitConverter) (paths : List String) :
    Mirrors (loadAll delimiter converter paths) (FlightFit.loadAll delimiter converter paths) := by
  apply Mirrors.bind (mirrors_loadBelow delimiter paths Table.wellFormed_empty)
  intro _ _ t hload
  cases converter with
  | none => exact mirrors_pure t
  | some converter => exact mirrors_convertUnits converter (wellFormed_loadBelow Table.wellFormed_empty hload)

end Mirrors

end Sheet

/-! ### Selecting in memory -/

namespace Table

variable {t : Table} (ht : t.WellFormed)
include ht

theorem channel_sheet (name : String) : t.sheet.channel name = t.channel name := by
  rw [Sheet.channel, find?_sheet ht.distinct]
  rfl

theorem mapM_channel_sheet (names : List String) : names.mapM t.sheet.channel = t.channelsNamed names := by
  induction names with
  | nil => rfl
  | cons name rest ih =>
      rw [List.mapM_cons, channel_sheet ht, ih]
      rfl

theorem length_of_mem_channelsNamed {names : List String} {columns : List (List Float)}
    (h : t.channelsNamed names = .ok columns) : ∀ samples ∈ columns, samples.length = t.rows := by
  intro samples hsamples
  have hmem : Except.ok samples ∈ names.map t.channel := by
    rw [channelsNamed_eq_ok_iff.1 h]
    exact List.mem_map_of_mem hsamples
  obtain ⟨name, -, hname⟩ := List.mem_map.1 hmem
  exact ht.length_of_channel hname

/-- A selection in memory always has an answer, and it is that of the table. -/
theorem select_sheet (names : List String) (w : Window) : t.sheet.select names w = some (t.select names w) := by
  have hrows : t.sheet.rows = t.rows := rfl
  unfold Sheet.select select
  rw [hrows, mapM_channel_sheet ht]
  split
  · rfl
  next hinside =>
    cases hcolumns : t.channelsNamed names with
    | error fault => rfl
    | ok columns =>
        have hbounds : w.start ≤ w.stop ∧ w.stop ≤ t.rows := by
          simp only [Bool.or_eq_true, decide_eq_true_eq] at hinside
          omega
        have hthere : ((List.range (w.stop - w.start)).all fun row =>
            columns.all fun samples => w.start + row < samples.length) = true := by
          simp only [List.all_eq_true, List.mem_range, decide_eq_true_eq]
          intro row hrow samples hsamples
          rw [length_of_mem_channelsNamed ht hcolumns samples hsamples]
          omega
        simp only [Sheet.minus?, hbounds.1, if_true, Option.bind_eq_bind, Option.bind_some, hthere]
        rfl

end Table

/-! ### Sheets along their life -/

namespace Sheet

/-- Something that changes a sheet. -/
inductive Operation where
  | extend (other : Sheet)
  | write (name : String) (index : Nat) (value : Float)
  | convert (converter : UnitConverter)

/-- What an operation does in memory. -/
def Operation.edit : Operation → Edit Sheet Unit
  | .extend other => Sheet.extend other
  | .write name index value => Sheet.write name index value
  | .convert converter => Sheet.convert converter

/-- The sheets that operations lead to. A sheet that is changed is what is left of it in memory, whether that succeeds
    or fails; it can be extended by another one that operations lead to. -/
inductive Reached : Sheet → Prop where
  | empty : Reached .empty
  | built {columns : Columns} {sheet : Sheet} (h : ofColumns columns = .ok sheet) : Reached sheet
  | loaded {delimiter : UInt8} {converter : Option UnitConverter} {paths : List String} {session : Session}
      {sheet : Sheet} (h : (loadAll delimiter converter paths).outcome session = .ok sheet) : Reached sheet
  | changed {sheet : Sheet} (hsheet : Reached sheet) (op : Operation)
      (hother : ∀ other, op = .extend other → Reached other) : Reached (op.edit.runOn sheet).2

/-- What is left in memory after an operation is the sheet of the table that is left. -/
theorem snd_settled (t : Table) (result : Except Fault Table) :
    (t.settled result).2 = (result.toOption.getD t).sheet := by
  cases result with
  | ok next => rfl
  | error fault => rfl

/-- A sheet that is made as a table is made is that of the table. -/
theorem sheet_of_map_eq_ok {ε : Type} {result : Except ε Table} {sheet : Sheet}
    (h : result.map Table.sheet = .ok sheet) (t : Table) : (result.toOption.getD t).sheet = sheet := by
  cases result with
  | ok next => exact Except.ok.inj h
  | error failure => cases h

/-- What an operation leaves of the sheet of a table is the sheet of what it leaves of the table. -/
theorem exists_table_of_edit {t : Table} (ht : t.Reached) (op : Operation)
    (hother : ∀ other, op = .extend other → ∃ table : Table, table.Reached ∧ table.sheet = other) :
    ∃ next : Table, next.Reached ∧ next.sheet = (op.edit.runOn t.sheet).2 := by
  cases op with
  | extend other =>
      obtain ⟨table, htable, rfl⟩ := hother other rfl
      refine ⟨t.perform (.extend table), .step ht _ ?_, ?_⟩
      · rintro _ ⟨⟩
        exact htable
      · rw [Operation.edit, Table.runOn_extend ht.wellFormed htable.wellFormed, snd_settled]
        rfl
  | write name index value =>
      refine ⟨t.perform (.write name index value), .step ht _ (by simp), ?_⟩
      rw [Operation.edit, Table.runOn_write ht.wellFormed, snd_settled]
      rfl
  | convert converter =>
      refine ⟨t.perform (.convert converter), .step ht _ (by simp), ?_⟩
      rw [Operation.edit, Table.runOn_convert converter ht.wellFormed]
      rfl

/-- The sheets that operations lead to are those of the tables that operations lead to. -/
theorem Reached.exists_table {sheet : Sheet} (h : sheet.Reached) : ∃ t : Table, t.Reached ∧ t.sheet = sheet := by
  induction h with
  | empty => exact ⟨.empty, .empty, rfl⟩
  | @built columns sheet hbuilt =>
      rw [Table.sheet_ofColumns] at hbuilt
      exact ⟨Table.empty.perform (.build columns), .step .empty _ (by simp), sheet_of_map_eq_ok hbuilt _⟩
  | @loaded delimiter converter paths session sheet hloaded =>
      rw [Action.outcome, mirrors_loadAll delimiter converter paths session] at hloaded
      exact ⟨Table.empty.perform (.load delimiter converter paths session), .step .empty _ (by simp),
        sheet_of_map_eq_ok hloaded _⟩
  | changed hsheet op hother ih ihother =>
      obtain ⟨t, ht, rfl⟩ := ih
      exact exists_table_of_edit ht op ihother

/-- The names in order are different from each other and are the keys of the entries, which are in the order of a map;
    there is a sample for every row under each name, and without entries there are no rows. -/
structure Consistent (sheet : Sheet) : Prop where
  distinct : sheet.order.Nodup
  sorted : (sheet.entries.map Prod.fst).Pairwise (· < ·)
  named : ∀ name, name ∈ sheet.order ↔ name ∈ sheet.entries.map Prod.fst
  aligned : ∀ entry ∈ sheet.entries, entry.2.length = sheet.rows
  bare : sheet.entries = [] → sheet.rows = 0

/-- How a selection ends, which it always does: a window that is not inside the sheet is refused, then the first name
    that is not known, and otherwise every entry is a sample of its channel. -/
structure Selects (sheet : Sheet) (names : List String) (w : Window) : Prop where
  ends : ∃ result, sheet.select names w = some result
  outside : sheet.select names w = some (.error (.outOfBounds w.start w.stop sheet.rows)) ↔
    sheet.rows < w.stop ∨ w.stop < w.start
  unknown : w.start ≤ w.stop → w.stop ≤ sheet.rows → ∀ known name rest, names = known ++ name :: rest →
    (∀ other ∈ known, other ∈ sheet.order) → name ∉ sheet.order →
    sheet.select names w = some (.error (.unknownChannel name))
  inside : w.start ≤ w.stop → w.stop ≤ sheet.rows → (∀ name ∈ names, name ∈ sheet.order) →
    ∃ m, sheet.select names w = some (.ok m) ∧ m.height = w.stop - w.start ∧ m.cols = names.length ∧
      ∀ row < w.stop - w.start, ∀ column name, names[column]? = some name →
        ∃ samples, sheet.channel name = .ok samples ∧ w.start + row < samples.length ∧
          m.at? row column = samples[w.start + row]?

theorem consistent_of_wellFormed {t : Table} (ht : t.WellFormed) : t.sheet.Consistent := by
  have hperm := Table.entries_perm ht.distinct
  refine ⟨ht.distinct, t.sorted_entries, ?_, ?_, ?_⟩
  · intro name
    rw [(hperm.map Prod.fst).mem_iff, Table.keys_of_channels]
    exact Iff.rfl
  · intro entry hentry
    obtain ⟨c, hc, rfl⟩ := List.mem_map.1 (hperm.mem_iff.1 hentry)
    exact ht.aligned c hc
  · intro hbare
    rw [hbare] at hperm
    exact ht.bare (List.map_eq_nil_iff.1 hperm.nil_eq.symm)

theorem selects_of_wellFormed {t : Table} (ht : t.WellFormed) (names : List String) (w : Window) :
    t.sheet.Selects names w := by
  have hselect := Table.select_sheet ht names w
  have hselects := ht.selects names w
  constructor
  · exact ⟨_, hselect⟩
  · rw [hselect, Option.some.injEq]
    exact hselects.outside
  · intro hstart hstop known name rest hnames hknown hname
    rw [hselect, hselects.unknown hstart hstop known name rest hnames hknown hname]
  · intro hstart hstop hnames
    obtain ⟨m, hm, hheight, hcols, hentries⟩ := hselects.inside hstart hstop hnames
    refine ⟨m, hselect.trans (congrArg some hm), hheight, hcols, ?_⟩
    intro row hrow column name hname
    rw [Table.channel_sheet ht]
    exact hentries row hrow column name hname

/-- Building, extending, writing, converting and loading, in any order and whether they succeed or fail, keep what
    lies in memory consistent: each name is in the order once and has samples, nothing else has, every channel has a
    sample for every row, and without channels there are no rows. So whatever is selected, every sample that is asked
    for is there. What lies in memory is always a table that the same operations lead to, and selecting from it is
    selecting from the table. -/
theorem reached_sheets_are_consistent (sheet : Sheet) (h : sheet.Reached) :
    sheet.Consistent ∧ (∀ names w, sheet.Selects names w) ∧
      ∃ t : Table, t.Reached ∧ t.sheet = sheet ∧ ∀ names w, sheet.select names w = some (t.select names w) := by
  obtain ⟨t, ht, rfl⟩ := h.exists_table
  have hwell := ht.wellFormed
  exact ⟨consistent_of_wellFormed hwell, selects_of_wellFormed hwell, t, ht, rfl, Table.select_sheet hwell⟩

/-- Columns of which two have one name. -/
def climbColumns : Columns := [("v", [60.0, 61.0]), ("t", [0.0, 1.0]), ("v", [62.0, 63.0])]

/-- Their sheet. -/
def climbSheet : Sheet := ⟨["v", "t"], [("t", [0.0, 1.0]), ("v", [62.0, 63.0])], 2⟩

/-- The sheet of a row more, with the names in another order. -/
def laterSheet : Sheet := ⟨["t", "v"], [("t", [2.0]), ("v", [64.0])], 1⟩

/-- Conversions of a channel that is there and of one that is not. -/
def climbUnits : UnitConverter := ⟨[("t", ⟨2.0, 0.0⟩), ("x", ⟨1.0, 0.0⟩)]⟩

/-- What is left of the sheet when it has been extended, written to, and converted up to a channel that it lacks. -/
def workedSheet : Sheet :=
  let extended := ((Operation.extend laterSheet).edit.runOn climbSheet).2
  let written := ((Operation.write "v" 2 0.5).edit.runOn extended).2
  ((Operation.convert climbUnits).edit.runOn written).2

theorem reached_sheets_are_consistent_worked :
    workedSheet.Reached ∧ workedSheet.Consistent ∧ (∀ names w, workedSheet.Selects names w) ∧
      workedSheet.order = ["v", "t"] ∧ workedSheet.rows = 3 := by
  have hclimb : ofColumns climbColumns = .ok climbSheet := rfl
  have hlater : ofColumns [("t", [2.0]), ("v", [64.0])] = .ok laterSheet := rfl
  have hworked : workedSheet.Reached := by
    refine .changed (.changed (.changed (.built hclimb) (.extend laterSheet) ?_) (.write "v" 2 0.5) (by simp))
      (.convert climbUnits) (by simp)
    rintro _ ⟨⟩
    exact .built hlater
  obtain ⟨hconsistent, hselects, -⟩ := reached_sheets_are_consistent workedSheet hworked
  exact ⟨hworked, hconsistent, hselects, rfl, rfl⟩

example : (workedSheet.select ["t", "v"] ⟨1, 3⟩).map (Except.map Matrix.entries) =
    some (.ok [2.0, 63.0, 4.0, 0.5]) := by rfl

end Sheet

end FlightFit
