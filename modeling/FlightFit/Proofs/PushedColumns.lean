import FlightFit.Load.Files
import FlightFit.Proofs.ColumnTables
import FlightFit.Proofs.KeyedLists

/-!
Module: FlightFit.Proofs.PushedColumns
Purpose: Files that are read row by row. The readers append the numbers of a record to the columns one after the
  other, and what has been appended when a record fails is dropped. Read as a whole, a record gives a row of numbers or
  the first thing that is wrong with it (`Delimited.readRows`, `Json.readRecords`); the columns that the readers end
  with are the cross-sections of these rows, so that no number is lost, doubled or put into another row or column.
Main exports: Delimited.readRows, Delimited.pushRows_eq, Delimited.columnsOfRecords_eq, Json.readRecords,
  Json.pushRecords_eq, Json.columnsOfRecords_eq, Table.ofRead, Table.ofRead_map_zip, outcome_tableOf
-/

namespace FlightFit

/-! ### Delimited text -/

namespace Delimited

/-- The numbers of the kept columns in a record; a cell that is missing is empty. -/
def readCells (row : Nat) (record : List String) : List (Nat × String) → Except Failure (List Float)
  | [] => .ok []
  | (index, name) :: rest =>
    let cell := record.getD index ""
    match readFloat cell with
    | .error fault => .error (cellFailure row name cell fault)
    | .ok value => do
      let values ← readCells row record rest
      .ok (value :: values)

/-- The rows of numbers in records, counted from `row` on; a record that is not UTF-8 has no texts. -/
def readRows (kept : List (Nat × String)) : Nat → List (Option (List String)) →
    Except Failure (List (List Float))
  | _, [] => .ok []
  | row, none :: _ => .error ⟨[s!"row {digitText row}"], .encoding⟩
  | row, some record :: rest =>
    if isBare record then readRows kept (row + 1) rest
    else do
      let values ← readCells row record kept
      let more ← readRows kept (row + 1) rest
      .ok (values :: more)

/-- Appends a row of numbers, one to each column. -/
def pushRow (columns : List (Array Float)) (numbers : List Float) : List (Array Float) :=
  List.zipWith Array.push columns numbers

section Columns

variable {kept : List (Nat × String)} {columns : List (Array Float)}

theorem length_of_readCells {row : Nat} {record : List String} {numbers : List Float}
    (h : readCells row record kept = .ok numbers) : numbers.length = kept.length := by
  induction kept generalizing numbers with
  | nil =>
      cases h
      rfl
  | cons column rest ih =>
      rw [readCells] at h
      split at h
      · cases h
      · obtain ⟨more, hmore, h⟩ := bind_eq_ok_iff.1 h
        cases h
        rw [List.length_cons, ih hmore, List.length_cons]

/-- The numbers of a record are appended to the columns, or nothing is. -/
theorem pushCells_eq (row : Nat) (record : List String) (h : columns.length = kept.length) :
    pushCells row record kept columns = (readCells row record kept).map (pushRow columns) := by
  induction kept generalizing columns with
  | nil =>
      obtain rfl := List.length_eq_zero_iff.1 h
      rfl
  | cons column rest ih =>
      obtain ⟨first, columns, rfl⟩ := List.exists_cons_of_length_eq_add_one h
      rw [pushCells, readCells, ih (by simpa using h)]
      cases readFloat (record.getD column.1 "") with
      | error fault => rfl
      | ok value =>
          cases readCells row record rest with
          | error failure => rfl
          | ok values => rfl

/-- The rows of records are appended to the columns, or nothing is. -/
theorem pushRows_eq (row : Nat) (records : List (Option (List String))) (h : columns.length = kept.length) :
    pushRows kept row records columns = (readRows kept row records).map (List.foldl pushRow columns) := by
  induction records generalizing row columns with
  | nil => rfl
  | cons record rest ih =>
      cases record with
      | none => rfl
      | some record =>
          rw [pushRows, readRows]
          split
          · exact ih (row + 1) h
          · rw [pushCells_eq row record h]
            cases hcells : readCells row record kept with
            | error failure => rfl
            | ok numbers =>
                have hlength : (pushRow columns numbers).length = kept.length := by
                  rw [pushRow, List.length_zipWith, h, length_of_readCells hcells, Nat.min_self]
                rw [Except.map, ok_bind, ih (row + 1) hlength, ok_bind]
                cases readRows kept (row + 1) rest with
                | error failure => rfl
                | ok rows => rfl

theorem length_of_readRows {row : Nat} {records : List (Option (List String))} {rows : List (List Float)}
    (h : readRows kept row records = .ok rows) : ∀ numbers ∈ rows, numbers.length = kept.length := by
  induction records generalizing row rows with
  | nil =>
      cases h
      simp
  | cons record rest ih =>
      cases record with
      | none => cases h
      | some record =>
          rw [readRows] at h
          split at h
          · exact ih h
          · obtain ⟨numbers, hnumbers, h⟩ := bind_eq_ok_iff.1 h
            obtain ⟨more, hmore, h⟩ := bind_eq_ok_iff.1 h
            cases h
            exact List.forall_mem_cons.2 ⟨length_of_readCells hnumbers, ih hmore⟩

/-- Behind what is in the columns already come the cross-sections of the rows that are appended. -/
theorem toList_foldl_pushRow {rows : List (List Float)} (h : ∀ numbers ∈ rows, numbers.length = columns.length) :
    (rows.foldl pushRow columns).map Array.toList =
      List.zipWith (· ++ ·) (columns.map Array.toList) (Matrix.across 0.0 columns.length rows) := by
  induction rows generalizing columns with
  | nil =>
      apply List.ext_getElem?
      intro k
      rw [Table.across_eq_rowAt, List.getElem?_zipWith, List.getElem?_map, List.getElem?_map]
      rcases Nat.lt_or_ge k columns.length with hk | hk
      · simp [Table.rowAt, hk]
      · simp [hk]
  | cons numbers rest ih =>
      obtain ⟨hnumbers, hrest⟩ := List.forall_mem_cons.1 h
      have hlength : (pushRow columns numbers).length = columns.length := by
        rw [pushRow, List.length_zipWith, hnumbers, Nat.min_self]
      rw [List.foldl_cons, ih (by simpa only [hlength] using hrest), hlength, Table.across_eq_rowAt,
        Table.across_eq_rowAt]
      apply List.ext_getElem?
      intro k
      rcases Nat.lt_or_ge k columns.length with hk | hk
      · have hk' : k < numbers.length := hnumbers ▸ hk
        simp only [pushRow, List.getElem?_zipWith, List.getElem?_map]
        simp [Table.rowAt, hk, hk']
      · simp only [pushRow, List.getElem?_zipWith, List.getElem?_map]
        simp [hk]

end Columns

/-- Behind empty columns come the appended numbers alone. -/
theorem zipWith_append_empty {β : Type} (items : List β) {lists : List (List Float)}
    (h : lists.length = items.length) :
    List.zipWith (· ++ ·) ((items.map fun _ => (#[] : Array Float)).map Array.toList) lists = lists := by
  apply List.ext_getElem
  · simp [h]
  · intro k hk hk'
    simp

/-- The columns of delimited text are the cross-sections of its rows of numbers. -/
theorem columnsOfRecords_eq (headers : List String) (records : List (Option (List String))) :
    columnsOfRecords headers records =
      (readRows (keptColumns headers) 0 records).map fun rows =>
        ((keptColumns headers).map Prod.snd).zip (Matrix.across 0.0 (keptColumns headers).length rows) := by
  have hlength : ((keptColumns headers).map fun _ => (#[] : Array Float)).length = (keptColumns headers).length :=
    List.length_map _
  rw [columnsOfRecords, pushRows_eq 0 records hlength]
  cases hrows : readRows (keptColumns headers) 0 records with
  | error failure => rfl
  | ok rows =>
      have hlengths : ∀ numbers ∈ rows,
          numbers.length = ((keptColumns headers).map fun _ => (#[] : Array Float)).length := by
        rw [hlength]
        exact length_of_readRows hrows
      have hcolumns := toList_foldl_pushRow hlengths
      rw [hlength, zipWith_append_empty _ (Matrix.length_across _ _ _)] at hcolumns
      rw [Except.map, ok_bind, hcolumns]
      rfl

end Delimited

/-! ### Arrays of records -/

namespace Json

/-- The numbers of a record under given names. -/
def readRecord (row : Nat) (members : List (String × Value)) : List String → Except Failure (List Float)
  | [] => .ok []
  | name :: rest => match (Keyed.find? name members).bind Value.float? with
    | none => .error (.ofText s!"Row {digitText row}, '{name}': missing or not a number")
    | some x => do
      let more ← readRecord row members rest
      .ok (x :: more)

/-- The rows of numbers in records, counted from `row` on. -/
def readRecords (names : List String) : Nat → List Value → Except Failure (List (List Float))
  | _, [] => .ok []
  | row, .object members :: rest =>
    let members := Keyed.ofList members
    if members.length ≠ names.length then
      .error (.ofText (s!"Row {digitText row}: has {digitText members.length} fields, " ++
        s!"expected {digitText names.length}"))
    else do
      let values ← readRecord row members names
      let more ← readRecords names (row + 1) rest
      .ok (values :: more)
  | row, _ :: _ => .error (.ofText s!"Row {digitText row} is not a JSON object")

/-- Appends a row of numbers, each to the column of its name. -/
def pushRow : List String → List (String × Array Float) → List Float → List (String × Array Float)
  | name :: names, columns, x :: numbers => pushRow names (push name x columns) numbers
  | _, columns, _ => columns

/-- The numbers in the column of a name. -/
def numbersUnder (name : String) (columns : List (String × Array Float)) : List Float :=
  ((Keyed.find? name columns).getD #[]).toList

/-- The numbers of a record are appended to the columns, or nothing is. -/
theorem pushRecord_eq (row : Nat) (members : List (String × Value)) (names : List String)
    (columns : List (String × Array Float)) :
    pushRecord row members names columns = (readRecord row members names).map (pushRow names columns) := by
  induction names generalizing columns with
  | nil => rfl
  | cons name rest ih =>
      rw [pushRecord, readRecord]
      cases (Keyed.find? name members).bind Value.float? with
      | none => rfl
      | some x =>
          dsimp only
          rw [ih]
          cases readRecord row members rest with
          | error failure => rfl
          | ok more => rfl

/-- The rows of records are appended to the columns, or nothing is. -/
theorem pushRecords_eq (names : List String) (row : Nat) (records : List Value)
    (columns : List (String × Array Float)) :
    pushRecords names row records columns =
      (readRecords names row records).map (List.foldl (pushRow names) columns) := by
  induction records generalizing row columns with
  | nil => rfl
  | cons element rest ih =>
      cases element with
      | object members =>
          rw [pushRecords, readRecords]
          split
          · rfl
          · rw [pushRecord_eq]
            cases readRecord row (Keyed.ofList members) names with
            | error failure => rfl
            | ok values =>
                rw [Except.map, ok_bind, ok_bind, ih]
                cases readRecords names (row + 1) rest with
                | error failure => rfl
                | ok more => rfl
      | _ => rfl

theorem numbersUnder_push (name other : String) (x : Float) (columns : List (String × Array Float)) :
    numbersUnder other (push name x columns) =
      if other = name then numbersUnder name columns ++ [x] else numbersUnder other columns := by
  unfold numbersUnder
  induction columns with
  | nil =>
      by_cases hother : other = name
      · simp [push, Keyed.find?, hother]
      · simp [push, Keyed.find?, hother]
  | cons column rest ih =>
      by_cases hname : name = column.1
      · by_cases hother : other = column.1
        · simp [push, Keyed.find?, hname, hother]
        · simp [push, Keyed.find?, hname, hother]
      · by_cases hother : other = column.1
        · simp [push, Keyed.find?, hname, hother, Ne.symm hname]
        · simpa [push, Keyed.find?, hname, hother] using ih

theorem numbersUnder_pushRow_of_not_mem {names : List String} {name : String} (h : name ∉ names)
    (columns : List (String × Array Float)) (numbers : List Float) :
    numbersUnder name (pushRow names columns numbers) = numbersUnder name columns := by
  induction names generalizing columns numbers with
  | nil => rfl
  | cons first rest ih =>
      obtain ⟨hfirst, hrest⟩ := not_or.1 (List.mem_cons.not.1 h)
      cases numbers with
      | nil => rfl
      | cons x numbers => rw [pushRow, ih hrest, numbersUnder_push, if_neg hfirst]

section Names

variable {names : List String} (hnames : names.Nodup)
include hnames

/-- Each column gets the number at the place of its name. -/
theorem numbersUnder_pushRow {numbers : List Float} (h : numbers.length = names.length) {k : Nat} {name : String}
    (hk : names[k]? = some name) (columns : List (String × Array Float)) :
    numbersUnder name (pushRow names columns numbers) = numbersUnder name columns ++ [numbers.getD k 0] := by
  induction names generalizing numbers columns k with
  | nil => cases hk
  | cons first rest ih =>
      obtain ⟨hfresh, hrest⟩ := List.nodup_cons.1 hnames
      obtain ⟨x, numbers, rfl⟩ := List.exists_cons_of_length_eq_add_one h
      rw [pushRow]
      cases k with
      | zero =>
          obtain rfl := Option.some.inj hk
          rw [numbersUnder_pushRow_of_not_mem hfresh, numbersUnder_push, if_pos rfl]
          rfl
      | succ k =>
          have hne : name ≠ first := fun heq => hfresh (heq ▸ List.mem_of_getElem? hk)
          rw [ih hrest (by simpa using h) hk, numbersUnder_push, if_neg hne]
          rfl

/-- Behind what is in a column already come its numbers in the rows that are appended. -/
theorem numbersUnder_foldl_pushRow {rows : List (List Float)} (h : ∀ numbers ∈ rows, numbers.length = names.length)
    {k : Nat} {name : String} (hk : names[k]? = some name) (columns : List (String × Array Float)) :
    numbersUnder name (rows.foldl (pushRow names) columns) = numbersUnder name columns ++ Table.rowAt rows k := by
  induction rows generalizing columns with
  | nil => simp [Table.rowAt]
  | cons numbers rest ih =>
      obtain ⟨hnumbers, hrest⟩ := List.forall_mem_cons.1 h
      rw [List.foldl_cons, ih hrest, numbersUnder_pushRow hnames hnumbers hk, List.append_assoc]
      rfl

/-- Taking out one column leaves the others where they are. -/
theorem takeColumns_eq (columns : List (String × Array Float)) :
    takeColumns names columns = names.map fun name => (name, numbersUnder name columns) := by
  induction names generalizing columns with
  | nil => rfl
  | cons name rest ih =>
      obtain ⟨hfresh, hrest⟩ := List.nodup_cons.1 hnames
      rw [takeColumns, ih hrest, List.map_cons]
      refine congrArg _ (List.map_congr_left fun other hother => ?_)
      have hne : other ≠ name := fun heq => hfresh (heq ▸ hother)
      rw [numbersUnder, Keyed.find?_erase_of_ne hne, numbersUnder]

end Names

theorem length_of_readRecord {row : Nat} {members : List (String × Value)} {names : List String} {numbers : List Float}
    (h : readRecord row members names = .ok numbers) : numbers.length = names.length := by
  induction names generalizing numbers with
  | nil =>
      cases h
      rfl
  | cons name rest ih =>
      rw [readRecord] at h
      split at h
      · cases h
      · obtain ⟨more, hmore, h⟩ := bind_eq_ok_iff.1 h
        cases h
        rw [List.length_cons, ih hmore, List.length_cons]

theorem length_of_readRecords {names : List String} {row : Nat} {records : List Value} {rows : List (List Float)}
    (h : readRecords names row records = .ok rows) : ∀ numbers ∈ rows, numbers.length = names.length := by
  induction records generalizing row rows with
  | nil =>
      cases h
      simp
  | cons element rest ih =>
      cases element with
      | object members =>
          rw [readRecords] at h
          split at h
          · cases h
          · obtain ⟨values, hvalues, h⟩ := bind_eq_ok_iff.1 h
            obtain ⟨more, hmore, h⟩ := bind_eq_ok_iff.1 h
            cases h
            exact List.forall_mem_cons.2 ⟨length_of_readRecord hvalues, ih hmore⟩
      | _ => cases h

theorem nodup_recordNames (records : List Value) : (recordNames records).Nodup := by
  unfold recordNames
  split
  · exact Keyed.nodup_keys_ofList _
  · exact List.nodup_nil

/-- The columns of an array of records are the cross-sections of its rows of numbers. -/
theorem columnsOfRecords_eq (records : List Value) :
    columnsOfRecords records =
      (readRecords (recordNames records) 0 records).map fun rows =>
        (recordNames records).zip (Matrix.across 0.0 (recordNames records).length rows) := by
  have hnames := nodup_recordNames records
  rw [columnsOfRecords, pushRecords_eq]
  cases hrows : readRecords (recordNames records) 0 records with
  | error failure => rfl
  | ok rows =>
      have hcolumns : takeColumns (recordNames records) (rows.foldl (pushRow (recordNames records)) []) =
          (recordNames records).zip (Matrix.across 0.0 (recordNames records).length rows) := by
        rw [takeColumns_eq hnames]
        apply List.ext_getElem?
        intro k
        rw [Table.across_eq_rowAt, List.getElem?_map]
        rcases Nat.lt_or_ge k (recordNames records).length with hk | hk
        · have hname : (recordNames records)[k]? = some (recordNames records)[k] := List.getElem?_eq_getElem hk
          rw [hname, Option.map_some, numbersUnder_foldl_pushRow hnames (length_of_readRecords hrows) hname]
          symm
          rw [List.getElem?_zip_eq_some, List.getElem?_map, List.getElem?_range' hk]
          exact ⟨hname, by simp [numbersUnder, Keyed.find?]⟩
        · simp [hk]
      rw [Except.map, ok_bind, hcolumns]
      rfl

end Json

/-! ### Tables of columns -/

/-- The table of columns that are read. -/
def Table.ofRead (columns : Except Failure Columns) : Except Failure Table := do
  Failure.ofResult (Table.ofColumns (← columns))

/-- The cross-sections of rows make the table of the rows. -/
theorem Table.ofRead_map_zip (headings : List String) (read : Except Failure (List (List Float))) :
    Table.ofRead (read.map fun rows => headings.zip (Matrix.across 0.0 headings.length rows)) =
      read >>= Table.ofRows headings := by
  cases read with
  | error failure => rfl
  | ok rows => rfl

/-- Loading ends with the table of the columns that are read. -/
theorem outcome_tableOf (columns : Action Columns) (session : Session) :
    (tableOf columns).outcome session = Table.ofRead (columns.outcome session) := by
  rw [Action.outcome, tableOf, Action.runOn_bind, Action.outcome]
  cases columns.runOn session with
  | mk result after =>
      cases result with
      | error failure => rfl
      | ok columns =>
          dsimp only
          rw [Action.runOn_attempt, Table.ofRead, ok_bind]

end FlightFit
