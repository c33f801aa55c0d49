import Mathlib.Data.List.ReduceOption
import FlightFit.Proofs.ColumnTables
import FlightFit.Proofs.InTurn
import FlightFit.Proofs.Loading
import FlightFit.Proofs.PushedColumns

/-!
Module: FlightFit.Proofs.DelimitedTables
Purpose: Tables in delimited text. Columns are counted in the header and among those that are kept, rows among all
  records and among those that are not bare, and records may be shorter or longer than the header. All the same, a
  channel has in each row the number that stands in its own column of the record, or loading fails at the first
  record, and there at the first kept column, without a number.
Main exports: Delimited.Kept, Delimited.Filled, Delimited.cellNumber?, Delimited.Sound, Delimited.BadCell,
  Delimited.mem_keptColumns, Delimited.readRow_eq_error_iff, Delimited.readRows_of_sound,
  Delimited.tableOfRecords_eq_error_iff, Delimited.channel_of_tableOfRecords, delimited_text_loads_cell_by_cell
-/

namespace FlightFit

open FlightFit.Action

namespace Delimited

/-! ### Columns -/

/-- A column of the header that has a name. -/
def Kept (headers : List String) (column : Nat) (name : String) : Prop := headers[column]? = some name ∧ name ≠ ""

theorem mem_keptFrom {index column : Nat} {name : String} {headers : List String} :
    (column, name) ∈ keptFrom index headers ↔ ∃ i, column = index + i ∧ Kept headers i name := by
  induction headers generalizing index with
  | nil => simp [keptFrom, Kept]
  | cons header rest ih =>
      have hshift : (∃ i, column = index + i ∧ Kept (header :: rest) i name) ↔
          (column = index ∧ header = name ∧ name ≠ "") ∨ ∃ i, column = index + 1 + i ∧ Kept rest i name := by
        constructor
        · rintro ⟨i, rfl, hkept⟩
          cases i with
          | zero => exact .inl ⟨rfl, Option.some.inj hkept.1, hkept.2⟩
          | succ i => exact .inr ⟨i, by omega, hkept⟩
        · rintro (⟨rfl, rfl, hname⟩ | ⟨i, rfl, hkept⟩)
          · exact ⟨0, rfl, rfl, hname⟩
          · exact ⟨i + 1, by omega, hkept⟩
      rw [hshift, keptFrom]
      by_cases hempty : header = ""
      · simp only [hempty, beq_self_eq_true, if_true, ih]
        refine ⟨.inr, ?_⟩
        rintro (⟨-, rfl, hname⟩ | hrest)
        · exact absurd rfl hname
        · exact hrest
      · simp only [beq_iff_eq, hempty, if_false, List.mem_cons, Prod.mk.injEq, ih]
        refine or_congr_left ⟨?_, ?_⟩
        · rintro ⟨rfl, rfl⟩
          exact ⟨rfl, rfl, hempty⟩
        · rintro ⟨rfl, rfl, -⟩
          exact ⟨rfl, rfl⟩

theorem mem_keptColumns {headers : List String} {column : Nat} {name : String} :
    (column, name) ∈ keptColumns headers ↔ Kept headers column name := by
  rw [keptColumns, mem_keptFrom]
  simp

theorem pairwise_keptFrom (index : Nat) (headers : List String) :
    (keptFrom index headers).Pairwise (fun a b => a.1 < b.1) := by
  induction headers generalizing index with
  | nil => exact List.Pairwise.nil
  | cons header rest ih =>
      rw [keptFrom]
      split
      · exact ih (index + 1)
      · refine List.pairwise_cons.2 ⟨fun column hcolumn => ?_, ih (index + 1)⟩
        obtain ⟨i, hi, -⟩ := mem_keptFrom.1 hcolumn
        dsimp only
        omega

/-- Kept columns are in the order of the header. -/
theorem pairwise_keptColumns (headers : List String) : (keptColumns headers).Pairwise (fun a b => a.1 < b.1) :=
  pairwise_keptFrom 0 headers

theorem map_snd_keptColumns (headers : List String) :
    (keptColumns headers).map Prod.snd = headers.filter (· ≠ "") := by
  suffices h : ∀ index, (keptFrom index headers).map Prod.snd = headers.filter (· ≠ "") from h 0
  intro index
  induction headers generalizing index with
  | nil => rfl
  | cons header rest ih =>
      rw [keptFrom]
      by_cases hempty : header = ""
      · simp [hempty, ih]
      · simp [hempty, ih]

/-! ### Cells -/

/-- A record with a cell that is not empty. -/
def Filled (record : List String) : Prop := ∃ cell ∈ record, cell ≠ ""

instance : DecidablePred Filled := fun record => inferInstanceAs (Decidable (∃ cell ∈ record, cell ≠ ""))

/-- The number in a column of a record, if there is a cell and it is a number. -/
def cellNumber? (record : List String) (column : Nat) : Option Float :=
  record[column]?.bind fun cell => (readFloat cell).toOption

/-- A record that has a number in each kept column, or no filled cell at all. -/
def Sound (headers record : List String) : Prop :=
  Filled record → ∀ column name, Kept headers column name → (cellNumber? record column).isSome

theorem sound_iff {headers record : List String} :
    Sound headers record ↔
      (Filled record → ∀ column ∈ keptColumns headers, (cellNumber? record column.1).isSome) := by
  simp only [Sound, Prod.forall, mem_keptColumns]

instance (headers record : List String) : Decidable (Sound headers record) := decidable_of_iff _ sound_iff.symm

/-- How a record is refused: in the first kept column without a number. A cell that is missing counts as empty. -/
inductive BadCell (headers : List String) (row : Nat) (record : List String) : Failure → Prop where
  | intro {column : Nat} {name cell : String} {fault : LiteralFault} (hfilled : Filled record)
      (hkept : Kept headers column name) (hcell : record.getD column "" = cell) (hfault : readFloat cell = .error fault)
      (hbefore : ∀ earlier < column, ∀ other, Kept headers earlier other → (cellNumber? record earlier).isSome) :
      BadCell headers row record
        ⟨[s!"row {digitText row}, '{name}': '{cell}' is not a number"], .literal fault⟩

theorem isBare_eq_true_iff {record : List String} : isBare record = true ↔ ¬Filled record := by
  simp [isBare, Filled]

/-- No number is read where there is no cell. -/
theorem toOption_readFloat_getD (record : List String) (column : Nat) :
    (readFloat (record.getD column "")).toOption = cellNumber? record column := by
  rw [cellNumber?, List.getD_eq_getElem?_getD]
  cases record[column]? with
  | none => rfl
  | some cell => rfl

theorem readFloat_getD_eq_ok_iff {record : List String} {column : Nat} {x : Float} :
    readFloat (record.getD column "") = .ok x ↔ cellNumber? record column = some x := by
  rw [← toOption_readFloat_getD, toOption_eq_some_iff]

/-! ### Records -/

/-- The number in a kept column of a record. -/
def readCell (row : Nat) (record : List String) (column : Nat × String) : Except Failure Float :=
  (readFloat (record.getD column.1 "")).mapError (cellFailure row column.2 (record.getD column.1 ""))

/-- The numbers of a record, if it is not bare. -/
def readRow (kept : List (Nat × String)) (row : Nat) (record : List String) : Except Failure (Option (List Float)) :=
  if isBare record then .ok none else (readCells row record kept).map some

/-- The numbers that a sound record has in columns. -/
def numbersIn (kept : List (Nat × String)) (record : List String) : List Float :=
  kept.map fun column => (cellNumber? record column.1).getD 0

theorem readCells_eq_inTurn (row index : Nat) (record : List String) (kept : List (Nat × String)) :
    readCells row record kept = inTurn (fun _ => readCell row record) index kept := by
  induction kept generalizing index with
  | nil => rfl
  | cons column rest ih =>
      rw [readCells, inTurn, readCell]
      cases readFloat (record.getD column.1 "") with
      | error fault => rfl
      | ok x =>
          dsimp only [mapError_ok, ok_bind]
          rw [ih (index + 1)]

/-- Reading records is taking them in turn and leaving out the bare ones. -/
theorem readRows_eq_inTurn (kept : List (Nat × String)) (row : Nat) (records : List (List String)) :
    readRows kept row (records.map some) = (inTurn (readRow kept) row records).map List.reduceOption := by
  induction records generalizing row with
  | nil => rfl
  | cons record rest ih =>
      rw [List.map_cons, readRows, inTurn, readRow]
      split
      · rw [ih, ok_bind]
        cases inTurn (readRow kept) (row + 1) rest with
        | error failure => rfl
        | ok results => rfl
      · rw [ih]
        cases readCells row record kept with
        | error failure => rfl
        | ok numbers =>
            cases inTurn (readRow kept) (row + 1) rest with
            | error failure => rfl
            | ok results => rfl

section Rows

variable {headers record : List String} {row : Nat}

theorem readCell_eq_ok_iff {column : Nat × String} {x : Float} :
    readCell row record column = .ok x ↔ cellNumber? record column.1 = some x := by
  rw [readCell, mapError_eq_ok_iff, readFloat_getD_eq_ok_iff]

/-- A sound record is read as the numbers in its kept columns. -/
theorem readRow_of_sound (h : Sound headers record) :
    readRow (keptColumns headers) row record =
      .ok (if Filled record then some (numbersIn (keptColumns headers) record) else none) := by
  rw [readRow]
  by_cases hfilled : Filled record
  · have hcell : ∀ column ∈ keptColumns headers,
        readCell row record column = .ok ((cellNumber? record column.1).getD 0) := by
      intro column hcolumn
      obtain ⟨x, hx⟩ := Option.isSome_iff_exists.1 (h hfilled _ _ (mem_keptColumns.1 hcolumn))
      rw [readCell_eq_ok_iff, hx]
      rfl
    have hcells : inTurn (fun _ => readCell row record) 0 ((keptColumns headers).map id) =
        .ok (numbersIn (keptColumns headers) record) := inTurn_map_eq_ok fun _ => hcell
    rw [List.map_id, ← readCells_eq_inTurn] at hcells
    rw [if_neg (isBare_eq_true_iff.not.2 (not_not_intro hfilled)), if_pos hfilled, hcells]
    rfl
  · rw [if_pos (isBare_eq_true_iff.2 hfilled), if_neg hfilled]

/-- A record is refused in the first kept column without a number. -/
theorem readRow_eq_error_iff {failure : Failure} :
    readRow (keptColumns headers) row record = .error failure ↔ BadCell headers row record failure := by
  have hbefore : ∀ {i : Nat} {column : Nat} {name : String}, (keptColumns headers)[i]? = some (column, name) →
      ((∀ j < i, ∀ other, (keptColumns headers)[j]? = some other → (cellNumber? record other.1).isSome) ↔
        ∀ earlier < column, ∀ other, Kept headers earlier other → (cellNumber? record earlier).isSome) := by
    intro i column name hat
    rw [forall_before_iff (fun _ _ => Nat.lt_asymm) (pairwise_keptColumns headers) hat]
    simp only [Prod.forall, mem_keptColumns]
    exact ⟨fun h earlier hless other hkept => h earlier other hkept hless,
      fun h earlier other hkept hless => h earlier hless other hkept⟩
  rw [readRow]
  by_cases hfilled : Filled record
  · rw [if_neg (isBare_eq_true_iff.not.2 (not_not_intro hfilled)), map_eq_error_iff, readCells_eq_inTurn row 0,
      inTurn_eq_error_iff]
    simp only [readCell_eq_ok_iff, ← Option.isSome_iff_exists]
    constructor
    · rintro ⟨i, ⟨column, name⟩, hat, herror, hearlier⟩
      obtain ⟨fault, hfault, rfl⟩ := mapError_eq_error_iff.1 herror
      exact .intro hfilled (mem_keptColumns.1 (List.mem_of_getElem? hat)) rfl hfault ((hbefore hat).1 hearlier)
    · rintro ⟨-, hkept, rfl, hfault, hearlier⟩
      obtain ⟨i, hat⟩ := List.mem_iff_getElem?.1 (mem_keptColumns.2 hkept)
      exact ⟨i, _, hat, mapError_eq_error_iff.2 ⟨_, hfault, rfl⟩, (hbefore hat).2 hearlier⟩
  · rw [if_pos (isBare_eq_true_iff.2 hfilled)]
    refine iff_of_false (by simp) ?_
    rintro ⟨hsome, -⟩
    exact hfilled hsome

theorem exists_readRow_iff :
    (∃ result, readRow (keptColumns headers) row record = .ok result) ↔ Sound headers record := by
  rw [readRow, sound_iff]
  by_cases hfilled : Filled record
  · rw [if_neg (isBare_eq_true_iff.not.2 (not_not_intro hfilled)), exists_map_eq_ok_iff, readCells_eq_inTurn row 0,
      forall_prop_of_true hfilled]
    refine exists_inTurn_iff_forall_mem fun _ column => ?_
    simp only [readCell_eq_ok_iff, Option.isSome_iff_exists]
  · rw [if_pos (isBare_eq_true_iff.2 hfilled)]
    exact iff_of_true ⟨none, rfl⟩ fun hsome => absurd hsome hfilled

end Rows

/-! ### Tables -/

section Tables

variable {headers : List String} {records : List (List String)} {failure : Failure} {t : Table}

/-- The table of a header and records. -/
def tableOfRecords (headers : List String) (records : List (Option (List String))) : Except Failure Table :=
  Table.ofRead (columnsOfRecords headers records)

theorem tableOfRecords_eq (headers : List String) (records : List (Option (List String))) :
    tableOfRecords headers records =
      readRows (keptColumns headers) 0 records >>= Table.ofRows (headers.filter (· ≠ "")) := by
  have hread := Table.ofRead_map_zip (headers.filter (· ≠ "")) (readRows (keptColumns headers) 0 records)
  rw [← map_snd_keptColumns, List.length_map] at hread
  rw [tableOfRecords, columnsOfRecords_eq, hread, map_snd_keptColumns]

/-- Records fail to be a table in the first cell that should be a number and is none. -/
theorem tableOfRecords_eq_error_iff :
    tableOfRecords headers (records.map some) = .error failure ↔
      ∃ i record, records[i]? = some record ∧ BadCell headers i record failure ∧
        ∀ j < i, ∀ earlier, records[j]? = some earlier → Sound headers earlier := by
  rw [tableOfRecords_eq, Table.bind_ofRows_eq_error_iff, readRows_eq_inTurn, map_eq_error_iff, inTurn_eq_error_iff]
  simp only [Nat.zero_add, readRow_eq_error_iff, exists_readRow_iff]

/-- The filled records, in order, are the rows of the table. -/
theorem reduceOption_results (headers : List String) (records : List (List String)) :
    (records.map fun record => if Filled record then some (numbersIn (keptColumns headers) record) else none).reduceOption =
      (records.filter Filled).map (numbersIn (keptColumns headers)) := by
  induction records with
  | nil => rfl
  | cons record rest ih =>
      by_cases hfilled : Filled record
      · simp [hfilled, ih]
      · simp [hfilled, ih]

/-- Sound records are read as the numbers of those that are filled. -/
theorem readRows_of_sound (h : ∀ record ∈ records, Sound headers record) :
    readRows (keptColumns headers) 0 (records.map some) =
      .ok ((records.filter Filled).map (numbersIn (keptColumns headers))) := by
  have hread : inTurn (readRow (keptColumns headers)) 0 (records.map id) = .ok (records.map fun record =>
      if Filled record then some (numbersIn (keptColumns headers) record) else none) :=
    inTurn_map_eq_ok fun row record hrecord => readRow_of_sound (h record hrecord)
  rw [List.map_id] at hread
  rw [readRows_eq_inTurn, hread, ← reduceOption_results]
  rfl

theorem exists_tableOfRecords_iff :
    (∃ t, tableOfRecords headers (records.map some) = .ok t) ↔ ∀ record ∈ records, Sound headers record := by
  rw [tableOfRecords_eq, Table.exists_bind_ofRows_iff, readRows_eq_inTurn, exists_map_eq_ok_iff]
  exact exists_inTurn_iff_forall_mem fun _ _ => exists_readRow_iff

/-- Sound records make a table with a row for each of them that is filled. -/
theorem holdsRows_of_tableOfRecords (h : tableOfRecords headers (records.map some) = .ok t) :
    t.HoldsRows (headers.filter (· ≠ "")) ((records.filter Filled).map (numbersIn (keptColumns headers))) := by
  have hsound := exists_tableOfRecords_iff.1 ⟨t, h⟩
  rw [tableOfRecords_eq, readRows_of_sound hsound] at h
  exact Table.holdsRows_of_ofRows h

/-- Each channel has the numbers that the filled records have in the last column with its name. -/
theorem channel_of_tableOfRecords (h : tableOfRecords headers (records.map some) = .ok t) {column : Nat}
    {name : String} (hkept : Kept headers column name)
    (hlast : ∀ later, column < later → headers[later]? ≠ some name) :
    ∃ samples, t.channel name = .ok samples ∧ samples.length = (records.filter Filled).length ∧
      ∀ (r : Nat) (record : List String), (records.filter Filled)[r]? = some record →
        samples[r]? = cellNumber? record column := by
  obtain ⟨k, hk⟩ := List.mem_iff_getElem?.1 (mem_keptColumns.2 hkept)
  have hname : ∀ l, (headers.filter (· ≠ ""))[l]? = (keptColumns headers)[l]?.map Prod.snd := fun l => by
    rw [← map_snd_keptColumns, List.getElem?_map]
  -- A later kept column stands at a later position of the header, so it has another name.
  have hlater : ∀ l, k < l → (headers.filter (· ≠ ""))[l]? ≠ some name := by
    intro l hl heq
    rw [hname, Option.map_eq_some_iff] at heq
    obtain ⟨⟨later, _⟩, hat, rfl⟩ := heq
    obtain ⟨hkbound, hkat⟩ := List.getElem?_eq_some_iff.1 hk
    obtain ⟨hlbound, hlat⟩ := List.getElem?_eq_some_iff.1 hat
    have hless := List.pairwise_iff_getElem.1 (pairwise_keptColumns headers) k l hkbound hlbound hl
    rw [hkat, hlat] at hless
    exact hlast later hless (mem_keptColumns.1 (List.mem_of_getElem? hat)).1
  have hheld := (holdsRows_of_tableOfRecords h).channel k name (by rw [hname, hk]; rfl) hlater
  refine ⟨_, hheld, by rw [List.length_map, List.length_map], ?_⟩
  intro r record hrecord
  have hsound := exists_tableOfRecords_iff.1 ⟨t, h⟩
  obtain ⟨hmem, hfilled⟩ := List.mem_filter.1 (List.mem_of_getElem? hrecord)
  obtain ⟨x, hx⟩ := Option.isSome_iff_exists.1 (hsound record hmem (of_decide_eq_true hfilled) column name hkept)
  simp [hrecord, numbersIn, hk, hx]

end Tables

/-- The columns of delimited text, when all of it is UTF-8. -/
theorem columnsOfBytes_eq {delimiter : UInt8} {bytes : List UInt8} {headers : List String}
    {rows : List (List String)} (hheaders : decodeRecord ((records delimiter bytes).headD []) = some headers)
    (hrows : (records delimiter bytes).tail.map decodeRecord = rows.map some) :
    columnsOfBytes delimiter bytes = columnsOfRecords headers (rows.map some) := by
  rw [columnsOfBytes, ← hrows]
  cases hrecords : records delimiter bytes with
  | nil =>
      rw [hrecords] at hheaders
      obtain rfl : [] = headers := Option.some.inj hheaders
      rfl
  | cons header rest =>
      rw [hrecords] at hheaders
      have hheader : decodeRecord header = some headers := hheaders
      simp only [hheader, List.tail_cons]

end Delimited

/-- Loading delimited text is making a table of the bytes in the file. -/
theorem outcome_loadDelimited {session : Session} {path : String} {data : ByteArray} (delimiter : UInt8)
    (hfile : session.store.read path = .ok (.bytes data)) :
    (loadDelimited delimiter path).outcome session =
      Table.ofRead (Delimited.columnsOfBytes delimiter data.data.toList) := by
  rw [loadDelimited, outcome_tableOf, outcome, delimitedColumns, runOn_bind, runOn_get]
  simp only [hfile]
  rw [runOn_conclude]

/-- Delimited text loads as a table exactly when every filled record has a number in each column with a name. Each
    name then has the numbers of the filled records, in order, from the last column that has the name; columns
    without a name and cells beyond the header have no part in it. Otherwise loading fails at the first record
    without such a number, bare records counted, and there in the first column with a name that has none; it never
    fails over columns of different lengths. -/
theorem delimited_text_loads_cell_by_cell (delimiter : UInt8) (session : Session) (path : String) (data : ByteArray)
    (headers : List String) (records : List (List String))
    (hfile : session.store.read path = .ok (.bytes data))
    (hheaders : Delimited.decodeRecord ((Delimited.records delimiter data.data.toList).headD []) = some headers)
    (hrecords : (Delimited.records delimiter data.data.toList).tail.map Delimited.decodeRecord = records.map some) :
    ((∃ t, (loadDelimited delimiter path).outcome session = .ok t) ↔
      ∀ record ∈ records, Delimited.Filled record →
        ∀ column name, Delimited.Kept headers column name → (Delimited.cellNumber? record column).isSome) ∧
    (∀ t, (loadDelimited delimiter path).outcome session = .ok t →
      t.names = (headers.filter (· ≠ "")).eraseDups ∧
      t.rows = (if t.names = [] then 0 else (records.filter Delimited.Filled).length) ∧
      ∀ column name, Delimited.Kept headers column name →
        (∀ later, column < later → headers[later]? ≠ some name) →
        ∃ samples, t.channel name = .ok samples ∧ samples.length = (records.filter Delimited.Filled).length ∧
          ∀ (r : Nat) (record : List String), (records.filter Delimited.Filled)[r]? = some record →
            samples[r]? = Delimited.cellNumber? record column) ∧
    (∀ failure, (loadDelimited delimiter path).outcome session = .error failure ↔
      ∃ i record, records[i]? = some record ∧ Delimited.BadCell headers i record failure ∧
        ∀ j < i, ∀ earlier, records[j]? = some earlier → Delimited.Sound headers earlier) := by
  rw [outcome_loadDelimited delimiter hfile, Delimited.columnsOfBytes_eq hheaders hrecords]
  refine ⟨Delimited.exists_tableOfRecords_iff, fun t ht => ?_, fun failure => Delimited.tableOfRecords_eq_error_iff⟩
  have hholds := Delimited.holdsRows_of_tableOfRecords ht
  have hnone : t.names = [] ↔ headers.filter (· ≠ "") = [] := by
    rw [hholds.names, List.eq_nil_iff_forall_not_mem, List.eq_nil_iff_forall_not_mem]
    simp only [List.mem_eraseDups]
  refine ⟨hholds.names, ?_, fun column name => Delimited.channel_of_tableOfRecords ht⟩
  rw [hholds.rows, List.length_map]
  simp only [hnone]

/-- A header with an empty name inside, a name that comes twice and a delimiter at the end. The first record is
    shorter, the second one is bare and the third one is longer. -/
def gappyText : String := " t | alt ||alt|\n0|1|x|2\n||\n 1|3||4||y\n"

/-- A bare record, and after it one that lacks a cell. -/
def cutText : String := "t|alt\n0|1\n|\n2"

/-- The two texts in files. -/
def delimitedFiles : Session where
  store := ⟨[(["gappy.txt"], .file (.bytes gappyText.toUTF8)), (["cut.txt"], .file (.bytes cutText.toUTF8))]⟩
  log := []

theorem delimited_text_loads_cell_by_cell_two_files :
    (∃ t samples, (loadDelimited 124 "gappy.txt").outcome delimitedFiles = .ok t ∧ t.names = ["t", "alt"] ∧
      t.rows = 2 ∧ t.channel "alt" = .ok samples ∧
      samples[1]? = Delimited.cellNumber? ["1", "3", "", "4", "", "y"] 3) ∧
    (loadDelimited 124 "cut.txt").outcome delimitedFiles =
      .error ⟨["row 2, 'alt': '' is not a number"], .literal .empty⟩ := by
  have hgappy := delimited_text_loads_cell_by_cell 124 delimitedFiles "gappy.txt" gappyText.toUTF8
    ["t", "alt", "", "alt", ""] [["0", "1", "x", "2"], ["", "", ""], ["1", "3", "", "4", "", "y"]] rfl rfl rfl
  have hcut := delimited_text_loads_cell_by_cell 124 delimitedFiles "cut.txt" cutText.toUTF8
    ["t", "alt"] [["0", "1"], ["", ""], ["2"]] rfl rfl rfl
  have hsound : ∀ record ∈ [["0", "1", "x", "2"], ["", "", ""], ["1", "3", "", "4", "", "y"]],
      Delimited.Sound ["t", "alt", "", "alt", ""] record := by decide
  have hlast : ∀ later, 3 < later → ["t", "alt", "", "alt", ""][later]? ≠ some "alt" := by
    intro later hlater heq
    obtain ⟨hbound, -⟩ := List.getElem?_eq_some_iff.1 heq
    obtain rfl : later = 4 := Nat.le_antisymm (Nat.le_of_lt_succ hbound) hlater
    simp at heq
  obtain ⟨t, ht⟩ := hgappy.1.2 hsound
  obtain ⟨hnames, hrows, hchannels⟩ := hgappy.2.1 t ht
  obtain ⟨samples, hsamples, -, hat⟩ := hchannels 3 "alt" ⟨rfl, by decide⟩ hlast
  refine ⟨⟨t, samples, ht, hnames, ?_, hsamples, hat 1 _ rfl⟩, ?_⟩
  · rw [hrows, hnames]
    rfl
  · refine (hcut.2.2 _).2 ⟨2, _, rfl, ?_, ?_⟩
    · refine @Delimited.BadCell.intro _ 2 _ 1 "alt" "" .empty (by decide) ⟨rfl, by decide⟩ rfl rfl ?_
      intro earlier hearlier other _
      obtain rfl : earlier = 0 := Nat.lt_one_iff.1 hearlier
      rfl
    · intro j hj earlier hearlier
      obtain rfl | rfl : j = 0 ∨ j = 1 := by omega
      · obtain rfl := Option.some.inj hearlier
        decide
      · obtain rfl := Option.some.inj hearlier
        decide

end FlightFit
