import Mathlib.Data.Finset.Card
import Mathlib.Data.List.FinRange
import FlightFit.Proofs.ColumnTables
import FlightFit.Proofs.InTurn
import FlightFit.Proofs.JsonText
import FlightFit.Proofs.KeyedLists
import FlightFit.Proofs.Loading
import FlightFit.Proofs.MatrixColumns
import FlightFit.Proofs.PushedColumns

/-!
Module: FlightFit.Proofs.JsonTables
Purpose: Tables in JSON. Of an array of records it is only tested that each of them has as many fields as the first
  one, and a number in each field of the first one; that is enough for the same fields with numbers throughout, and
  every record becomes the row of its own position. The first record that is different decides how loading fails.
  An object with an array for each channel gives the same table as records with the same numbers, in whatever order
  members are written.
Main exports: Json.fields, Json.number?, Json.Agrees, Json.Offence, Json.readElement_eq_error_iff,
  Json.exists_readElement_iff, array_loads_record_by_record, Json.readColumns_of_perm, Json.tableOfRecords_of_perm,
  json_layouts_give_one_table
-/

namespace FlightFit

open FlightFit.Action

/-- Loading JSON is making a table of the value in the file. -/
theorem outcome_loadJson {session : Session} {path text : String} {value : Json.Value}
    (htext : session.store.readText path = .ok text) (hvalue : Json.Value.ofText text = .ok value) :
    (loadJson path).outcome session = Table.ofRead (Json.columnsOfValue value) := by
  have hread : (during "reading JSON file" (readText path)).runOn session = (.ok text, session) :=
    runOn_during_eq_ok_iff.2 (runOn_consult_eq_ok_iff.2 ⟨htext, rfl⟩)
  have hparsed : (during "parsing JSON" (decode (Json.Value.ofText text))).runOn session = (.ok value, session) := by
    rw [hvalue]
    exact runOn_during_eq_ok_iff.2 rfl
  rw [loadJson, outcome_tableOf, outcome, jsonColumns, runOn_bind, hread]
  dsimp only
  rw [runOn_bind, hparsed]
  dsimp only
  rw [runOn_conclude]

namespace Json

/-! ### Fields of objects -/

/-- The names of the fields of an object. -/
def fields (members : List (String × Value)) : Finset String := (members.map Prod.fst).toFinset

/-- The number in a field of an object. A field that is given several times has the value that is given last. -/
def number? (name : String) (members : List (String × Value)) : Option Float :=
  (valuesAt name members).getLast?.bind Value.float?

/-- The names of the fields of an object, in the order of their bytes. -/
def fieldNames (members : List (String × Value)) : List String := (Keyed.ofList members).map Prod.fst

section Fields

variable {name : String} {members : List (String × Value)}

theorem mem_fieldNames : name ∈ fieldNames members ↔ name ∈ fields members := by
  rw [fieldNames, Keyed.mem_keys_ofList, fields, List.mem_toFinset]

theorem pairwise_fieldNames (members : List (String × Value)) : (fieldNames members).Pairwise BytesLess :=
  (Keyed.sorted_ofList members).imp bytesLess_iff.2

theorem nodup_fieldNames (members : List (String × Value)) : (fieldNames members).Nodup :=
  Keyed.nodup_keys_ofList members

theorem length_ofList (members : List (String × Value)) : (Keyed.ofList members).length = (fields members).card := by
  have hset : (fieldNames members).toFinset = fields members := by
    ext name
    rw [List.mem_toFinset, mem_fieldNames]
  rw [← hset, List.toFinset_card_of_nodup (nodup_fieldNames members), fieldNames, List.length_map]

theorem length_fieldNames (members : List (String × Value)) : (fieldNames members).length = (fields members).card := by
  rw [fieldNames, List.length_map, length_ofList]

theorem find?_ofList_bind_float? (name : String) (members : List (String × Value)) :
    (Keyed.find? name (Keyed.ofList members)).bind Value.float? = number? name members := by
  rw [Keyed.find?_ofList]
  rfl

/-- Only a field of an object has a number. -/
theorem mem_fields_of_isSome_number? (h : (number? name members).isSome) : name ∈ fields members := by
  rw [← mem_fieldNames, fieldNames]
  by_contra hnot
  rw [← find?_ofList_bind_float?, Keyed.find?_eq_none_iff.2 hnot] at h
  cases h

/-- What stands before a field, in the list of the names, is what comes before it in the order of bytes. -/
theorem forall_before_field_iff {i : Nat} (hname : (fieldNames members)[i]? = some name) (p : String → Prop) :
    (∀ j < i, ∀ other, (fieldNames members)[j]? = some other → p other) ↔
      ∀ other ∈ fields members, BytesLess other name → p other := by
  have hasymm : ∀ a b, BytesLess a b → ¬BytesLess b a := fun a b => List.lt_asymm
  rw [forall_before_iff hasymm (pairwise_fieldNames members) hname]
  simp only [mem_fieldNames]

end Fields

/-! ### Elements of an array -/

/-- An element of an array is an object with the fields of the first one, each with a number. -/
def Agrees (first : List (String × Value)) (element : Value) : Prop :=
  ∃ members, element = .object members ∧ fields members = fields first ∧
    ∀ name ∈ fields members, (number? name members).isSome

/-- What is wrong with the element in a row of an array whose first object is `first`: it is no object, or else it
    has another number of fields, or else a field of the first object, the first one in the order of bytes, has no
    number. -/
inductive Offence (first : List (String × Value)) (row : Nat) : Value → Failure → Prop where
  | notObject {element : Value} (h : ∀ members, element ≠ .object members) :
      Offence first row element (.ofText s!"Row {digitText row} is not a JSON object")
  | fieldCount {members : List (String × Value)} (h : (fields members).card ≠ (fields first).card) :
      Offence first row (.object members)
        (.ofText (s!"Row {digitText row}: has {digitText (fields members).card} fields, " ++
          s!"expected {digitText (fields first).card}"))
  | noNumber {members : List (String × Value)} {name : String}
      (hcount : (fields members).card = (fields first).card) (hname : name ∈ fields first)
      (hnumber : number? name members = none)
      (hbefore : ∀ other ∈ fields first, BytesLess other name → (number? other members).isSome) :
      Offence first row (.object members)
        (.ofText s!"Row {digitText row}, '{name}': missing or not a number")

/-- The number in a field of a record. -/
def readField (row : Nat) (members : List (String × Value)) (name : String) : Except Failure Float :=
  match (Keyed.find? name members).bind Value.float? with
  | none => .error (.ofText s!"Row {digitText row}, '{name}': missing or not a number")
  | some x => .ok x

/-- The numbers of an element of an array under given names. -/
def readElement (names : List String) (row : Nat) : Value → Except Failure (List Float)
  | .object members =>
    if (Keyed.ofList members).length ≠ names.length then
      .error (.ofText (s!"Row {digitText row}: has {digitText (Keyed.ofList members).length} fields, " ++
        s!"expected {digitText names.length}"))
    else readRecord row (Keyed.ofList members) names
  | _ => .error (.ofText s!"Row {digitText row} is not a JSON object")

theorem readRecord_eq_inTurn (row index : Nat) (members : List (String × Value)) (names : List String) :
    readRecord row members names = inTurn (fun _ => readField row members) index names := by
  induction names generalizing index with
  | nil => rfl
  | cons name rest ih =>
      rw [readRecord, inTurn, readField]
      cases (Keyed.find? name members).bind Value.float? with
      | none => rfl
      | some x =>
          dsimp only [ok_bind]
          rw [ih (index + 1)]

theorem readRecords_eq_inTurn (names : List String) (row : Nat) (records : List Value) :
    readRecords names row records = inTurn (readElement names) row records := by
  induction records generalizing row with
  | nil => rfl
  | cons element rest ih =>
      rw [inTurn]
      cases element with
      | object members =>
          rw [readRecords, readElement]
          split
          · rfl
          · rw [ih]
      | _ => rfl

section Elements

variable {first : List (String × Value)} {row : Nat} {element : Value}

theorem readField_eq_ok_iff {members : List (String × Value)} {name : String} {x : Float} :
    readField row (Keyed.ofList members) name = .ok x ↔ number? name members = some x := by
  rw [readField, find?_ofList_bind_float?]
  cases number? name members <;> simp

theorem readField_eq_error_iff {members : List (String × Value)} {name : String} {failure : Failure} :
    readField row (Keyed.ofList members) name = .error failure ↔
      number? name members = none ∧
        failure = .ofText s!"Row {digitText row}, '{name}': missing or not a number" := by
  rw [readField, find?_ofList_bind_float?]
  cases number? name members <;> simp [eq_comm]

theorem readRecord_eq_ok_iff {members : List (String × Value)} {names : List String} {numbers : List Float} :
    readRecord row (Keyed.ofList members) names = .ok numbers ↔
      names.map (number? · members) = numbers.map some := by
  induction names generalizing numbers with
  | nil => cases numbers <;> simp [readRecord]
  | cons name rest ih =>
      rw [readRecord, find?_ofList_bind_float?, List.map_cons]
      cases number? name members with
      | none => cases numbers <;> simp
      | some x =>
          simp only [bind_eq_ok_iff, ih, Except.ok.injEq]
          cases numbers with
          | nil => simp
          | cons y more => simp [and_comm, eq_comm]

/-- An element is read when it is an object with as many fields as the first one and a number in each of those. -/
theorem readElement_eq_ok_iff {numbers : List Float} :
    readElement (fieldNames first) row element = .ok numbers ↔
      ∃ members, element = .object members ∧ (fields members).card = (fields first).card ∧
        (fieldNames first).map (number? · members) = numbers.map some := by
  cases element with
  | object members =>
      rw [readElement, length_ofList, length_fieldNames]
      by_cases hcount : (fields members).card = (fields first).card
      · rw [if_neg (not_not_intro hcount), readRecord_eq_ok_iff]
        simp [hcount]
      · simp [hcount]
  | _ => simp [readElement]

/-- Reading an element fails with the first thing that is wrong with it. -/
theorem readElement_eq_error_iff {failure : Failure} :
    readElement (fieldNames first) row element = .error failure ↔ Offence first row element failure := by
  cases element with
  | object members =>
      rw [readElement, length_ofList, length_fieldNames]
      by_cases hcount : (fields members).card = (fields first).card
      · rw [if_neg (not_not_intro hcount), readRecord_eq_inTurn row 0, inTurn_eq_error_iff]
        simp only [readField_eq_error_iff, readField_eq_ok_iff, ← Option.isSome_iff_exists]
        constructor
        · rintro ⟨i, name, hname, ⟨hnumber, rfl⟩, hbefore⟩
          exact .noNumber hcount (mem_fieldNames.1 (List.mem_of_getElem? hname)) hnumber
            ((forall_before_field_iff hname _).1 hbefore)
        · intro h
          cases h with
          | notObject h => exact absurd rfl (h members)
          | fieldCount h => exact absurd hcount h
          | @noNumber _ name _ hmem hnumber hbefore =>
              obtain ⟨i, hname⟩ := List.mem_iff_getElem?.1 (mem_fieldNames.2 hmem)
              exact ⟨i, name, hname, ⟨hnumber, rfl⟩, (forall_before_field_iff hname _).2 hbefore⟩
      · rw [if_pos hcount]
        constructor
        · intro h
          obtain rfl := Except.error.inj h
          exact .fieldCount hcount
        · intro h
          cases h with
          | notObject h => exact absurd rfl (h members)
          | fieldCount h => rfl
          | noNumber h => exact absurd h hcount
  | _ =>
      refine ⟨fun h => ?_, fun h => ?_⟩
      · obtain rfl := Except.error.inj h
        exact .notObject (by simp)
      · cases h
        rfl

/-- The tests on an element add up: as many fields as the first object, and numbers in the fields of that, are the
    same fields with numbers. -/
theorem exists_readElement_iff :
    (∃ numbers, readElement (fieldNames first) row element = .ok numbers) ↔ Agrees first element := by
  simp only [readElement_eq_ok_iff]
  constructor
  · rintro ⟨numbers, members, rfl, hcount, hnumbers⟩
    have hsome : ∀ name ∈ fields first, (number? name members).isSome := by
      intro name hname
      have hmem := List.mem_map_of_mem (f := (number? · members)) (mem_fieldNames.2 hname)
      rw [hnumbers] at hmem
      obtain ⟨x, -, hx⟩ := List.mem_map.1 hmem
      rw [← hx]
      rfl
    have hsubset : fields first ⊆ fields members := fun name hname => mem_fields_of_isSome_number? (hsome name hname)
    have hsame : fields first = fields members := Finset.eq_of_subset_of_card_le hsubset (Nat.le_of_eq hcount)
    exact ⟨members, rfl, hsame.symm, hsame ▸ hsome⟩
  · rintro ⟨members, rfl, hsame, hsome⟩
    refine ⟨(fieldNames first).map fun name => (number? name members).getD 0, members, rfl, by rw [hsame], ?_⟩
    rw [List.map_map]
    refine List.map_congr_left fun name hname => ?_
    have hnumber := hsome name (hsame ▸ mem_fieldNames.1 hname)
    obtain ⟨x, hx⟩ := Option.isSome_iff_exists.1 hnumber
    simp [hx]

end Elements

/-! ### Arrays of records -/

/-- The members of the first element of an array, if it is an object. -/
def firstMembers : List Value → List (String × Value)
  | .object members :: _ => members
  | _ => []

theorem recordNames_eq (records : List Value) : recordNames records = fieldNames (firstMembers records) := by
  cases records with
  | nil => rfl
  | cons element rest => cases element <;> rfl

section Records

variable {records : List Value} {t : Table} {failure : Failure}

/-- The table of an array of records. -/
def tableOfRecords (records : List Value) : Except Failure Table := Table.ofRead (columnsOfRecords records)

theorem tableOfRecords_eq (records : List Value) :
    tableOfRecords records =
      inTurn (readElement (fieldNames (firstMembers records))) 0 records >>=
        Table.ofRows (fieldNames (firstMembers records)) := by
  rw [tableOfRecords, columnsOfRecords_eq, Table.ofRead_map_zip, readRecords_eq_inTurn, recordNames_eq]

/-- The table of an array holds the rows that are read from its elements. -/
theorem of_tableOfRecords (h : tableOfRecords records = .ok t) :
    ∃ rows, inTurn (readElement (fieldNames (firstMembers records))) 0 records = .ok rows ∧
      t.HoldsRows (fieldNames (firstMembers records)) rows := by
  rw [tableOfRecords_eq] at h
  obtain ⟨rows, hrows, hbuilt⟩ := bind_eq_ok_iff.1 h
  exact ⟨rows, hrows, Table.holdsRows_of_ofRows hbuilt⟩

theorem exists_tableOfRecords_iff :
    (∃ t, tableOfRecords records = .ok t) ↔ ∀ element ∈ records, Agrees (firstMembers records) element := by
  rw [tableOfRecords_eq, Table.exists_bind_ofRows_iff]
  exact exists_inTurn_iff_forall_mem fun _ _ => exists_readElement_iff

/-- An array fails to be a table with what is wrong with its first element that does not agree with the first. -/
theorem tableOfRecords_eq_error_iff :
    tableOfRecords records = .error failure ↔
      ∃ i element, records[i]? = some element ∧ Offence (firstMembers records) i element failure ∧
        ∀ j < i, ∀ earlier, records[j]? = some earlier → Agrees (firstMembers records) earlier := by
  rw [tableOfRecords_eq, Table.bind_ofRows_eq_error_iff, inTurn_eq_error_iff]
  simp only [Nat.zero_add, readElement_eq_error_iff, exists_readElement_iff]

/-- The number in a row of a channel is that of the record at the same position. -/
theorem channel_of_tableOfRecords (h : tableOfRecords records = .ok t) {name : String}
    (hname : name ∈ fields (firstMembers records)) :
    ∃ samples, t.channel name = .ok samples ∧ samples.length = records.length ∧
      ∀ (i : Nat) (members : List (String × Value)), records[i]? = some (.object members) →
        samples[i]? = number? name members := by
  obtain ⟨rows, hrows, hholds⟩ := of_tableOfRecords h
  obtain ⟨k, hk⟩ := List.mem_iff_getElem?.1 (mem_fieldNames.2 hname)
  refine ⟨_, hholds.channel k name hk (Table.getElem?_ne_of_nodup (nodup_fieldNames _) hk), ?_, ?_⟩
  · rw [List.length_map, length_of_inTurn hrows]
  · intro i members hi
    obtain ⟨numbers, hnumbers, hread⟩ := getElem?_of_inTurn hrows hi
    obtain ⟨_, hsame, -, hvalues⟩ := readElement_eq_ok_iff.1 hread
    obtain rfl := Value.object.inj hsame
    have hvalue := congrArg (·[k]?) hvalues
    simp only [List.getElem?_map, hk, Option.map_some] at hvalue
    obtain ⟨x, hx, hnumber⟩ := Option.map_eq_some_iff.1 hvalue.symm
    simp [hnumbers, hx, ← hnumber]

end Records

end Json

/-- An array loads as a table exactly when every element is an object with the fields of the first one and a number
    in each of them. Each channel then has the number of every element at that element's position. Otherwise loading
    fails with what is wrong with the first element that is different, and building the table never fails. -/
theorem array_loads_record_by_record (session : Session) (path text : String) (records : List Json.Value)
    (htext : session.store.readText path = .ok text) (hvalue : Json.Value.ofText text = .ok (.array records)) :
    ((∃ t, (loadJson path).outcome session = .ok t) ↔
      ∀ element ∈ records, Json.Agrees (Json.firstMembers records) element) ∧
    (∀ t, (loadJson path).outcome session = .ok t →
      t.names.Pairwise BytesLess ∧
      (∀ name, name ∈ t.names ↔ name ∈ Json.fields (Json.firstMembers records)) ∧
      t.rows = (if t.names = [] then 0 else records.length) ∧
      ∀ name ∈ t.names, ∃ samples, t.channel name = .ok samples ∧ samples.length = records.length ∧
        ∀ (i : Nat) (members : List (String × Json.Value)), records[i]? = some (.object members) →
          samples[i]? = Json.number? name members) ∧
    (∀ failure, (loadJson path).outcome session = .error failure ↔
      ∃ i element, records[i]? = some element ∧ Json.Offence (Json.firstMembers records) i element failure ∧
        ∀ j < i, ∀ earlier, records[j]? = some earlier → Json.Agrees (Json.firstMembers records) earlier) := by
  rw [outcome_loadJson htext hvalue]
  refine ⟨Json.exists_tableOfRecords_iff, fun t ht => ?_, fun failure => Json.tableOfRecords_eq_error_iff⟩
  obtain ⟨rows, hrows, hholds⟩ := Json.of_tableOfRecords ht
  have hnames : t.names = Json.fieldNames (Json.firstMembers records) := by
    rw [hholds.names, Table.eraseDups_of_nodup (Json.nodup_fieldNames _)]
  have hmem : ∀ name, name ∈ t.names ↔ name ∈ Json.fields (Json.firstMembers records) := fun name => by
    rw [hnames, Json.mem_fieldNames]
  refine ⟨?_, hmem, ?_, fun name hname => Json.channel_of_tableOfRecords ht ((hmem name).1 hname)⟩
  · rw [hnames]
    exact Json.pairwise_fieldNames _
  · rw [hholds.rows, hnames, length_of_inTurn hrows]

/-- A store with JSON files. -/
def jsonFiles (files : List (String × Json.Value)) : Session where
  store := ⟨files.map fun file => ([file.1], .file (.bytes (file.2.render .compact).toUTF8))⟩
  log := []

/-- Records with the same fields, in different order; in the last one a field is repeated. -/
def steadyRecords : List Json.Value :=
  [.object [("t", .number (.whole 0)), ("alt", .number (.whole 120))],
    .object [("alt", .number (.whole 125)), ("t", .number (.whole 1))],
    .object [("alt", .null), ("t", .number (.whole 2)), ("alt", .number (.whole 131))]]

/-- Records of which the second has as many fields as the first one, but not the same; after it is no record at all. -/
def driftingRecords : List Json.Value :=
  [.object [("t", .number (.whole 0)), ("alt", .number (.whole 120))],
    .object [("t", .number (.whole 1)), ("speed", .number (.whole 9))], .null]

/-- The two arrays in files. -/
def recordFiles : Session :=
  jsonFiles [("steady.json", .array steadyRecords), ("drifting.json", .array driftingRecords)]

theorem array_loads_record_by_record_two_files :
    (∃ t samples, (loadJson "steady.json").outcome recordFiles = .ok t ∧ t.rows = 3 ∧
      t.channel "alt" = .ok samples ∧ samples.length = 3 ∧ samples[2]? = some (Json.Number.whole 131).toFloat) ∧
    (loadJson "drifting.json").outcome recordFiles =
      .error (.ofText "Row 1, 'alt': missing or not a number") := by
  have hsteady := array_loads_record_by_record recordFiles "steady.json" _ steadyRecords
    (Store.readText_of_read rfl) (Json.valueOfText_render .compact rfl)
  have hdrifting := array_loads_record_by_record recordFiles "drifting.json" _ driftingRecords
    (Store.readText_of_read rfl) (Json.valueOfText_render .compact rfl)
  have hagree : ∀ element ∈ steadyRecords, Json.Agrees (Json.firstMembers steadyRecords) element := by
    simp only [steadyRecords, List.forall_mem_cons, List.not_mem_nil, false_implies, implies_true, and_true]
    refine ⟨⟨_, rfl, rfl, by decide⟩, ⟨_, rfl, by decide, by decide⟩, ⟨_, rfl, by decide, by decide⟩⟩
  obtain ⟨t, ht⟩ := hsteady.1.2 hagree
  obtain ⟨-, hnames, hrows, hchannels⟩ := hsteady.2.1 t ht
  have hmem : "alt" ∈ t.names := (hnames "alt").2 (by decide)
  obtain ⟨samples, hsamples, hlength, hat⟩ := hchannels "alt" hmem
  refine ⟨⟨t, samples, ht, ?_, hsamples, hlength, hat 2 _ rfl⟩, ?_⟩
  · rw [hrows, if_neg (List.ne_nil_of_mem hmem)]
    rfl
  · refine (hdrifting.2.2 _).2 ⟨1, _, rfl, @Json.Offence.noNumber _ 1 _ "alt" (by decide) (by decide) rfl ?_, ?_⟩
    · intro other hother hless
      have hnone : ∀ other ∈ Json.fields (Json.firstMembers driftingRecords), ¬other < "alt" := by decide
      exact absurd (bytesLess_iff.1 hless) (hnone other hother)
    · intro j hj earlier hearlier
      obtain rfl : j = 0 := by omega
      obtain rfl := Option.some.inj hearlier
      exact ⟨_, rfl, rfl, by decide⟩

/-! ### Two layouts -/

namespace Json

theorem readNumbers_numbers (name : String) (index : Nat) (numbers : List Number) :
    readNumbers name index (numbers.map .number) = .ok (numbers.map Number.toFloat) := by
  induction numbers generalizing index with
  | nil => rfl
  | cons number rest ih =>
      simp only [List.map_cons, readNumbers, Value.float?, ih, ok_bind]

theorem readColumns_arrays (columns : List (String × List Number)) :
    readColumns (columns.map fun column => (column.1, .array (column.2.map .number))) =
      .ok (columns.map fun column => (column.1, column.2.map Number.toFloat)) := by
  induction columns with
  | nil => rfl
  | cons column rest ih =>
      simp only [List.map_cons, readColumns, readNumbers_numbers, ih, ok_bind]

/-- The columns of channels with a number in each row, in the order of their names. -/
def orderedColumns {n : Nat} (channels : List (String × (Fin n → Number))) : List (String × List Float) :=
  (Keyed.ofList channels).map fun channel => (channel.1, List.ofFn fun i => (channel.2 i).toFloat)

section Layouts

variable {n : Nat} {channels : List (String × (Fin n → Number))} (hnames : (channels.map Prod.fst).Nodup)
include hnames

/-- What an object is in order, when it has a value for each channel, in whatever order it is written. -/
theorem ofList_of_perm (value : (Fin n → Number) → Value) {members : List (String × Value)}
    (h : members.Perm (channels.map fun channel => (channel.1, value channel.2))) :
    Keyed.ofList members = (Keyed.ofList channels).map fun channel => (channel.1, value channel.2) := by
  apply Keyed.ofList_eq_of_perm
  · rw [List.map_map]
    exact Keyed.sorted_ofList channels
  · exact h.trans ((Keyed.ofList_perm hnames).map _).symm

/-- An object with an array for each channel has these columns. -/
theorem readColumns_of_perm {members : List (String × Value)}
    (h : members.Perm (channels.map fun channel => (channel.1, .array (List.ofFn fun i => .number (channel.2 i))))) :
    readColumns (Keyed.ofList members) = .ok (orderedColumns channels) := by
  have hcolumns := readColumns_arrays ((Keyed.ofList channels).map fun channel => (channel.1, List.ofFn channel.2))
  simp only [List.map_map, Function.comp_def, List.map_ofFn] at hcolumns
  rw [ofList_of_perm hnames (fun numbers => .array (List.ofFn fun i => .number (numbers i))) h, hcolumns]
  rfl

theorem fieldNames_of_perm {members : List (String × Value)} {i : Fin n}
    (h : members.Perm (channels.map fun channel => (channel.1, .number (channel.2 i)))) :
    fieldNames members = (Keyed.ofList channels).map Prod.fst := by
  rw [fieldNames, ofList_of_perm hnames (fun numbers => .number (numbers i)) h, List.map_map]
  rfl

/-- A record with a number for each channel gives these numbers. -/
theorem readElement_of_perm {members first : List (String × Value)} {i j : Fin n}
    (h : members.Perm (channels.map fun channel => (channel.1, .number (channel.2 i))))
    (hfirst : first.Perm (channels.map fun channel => (channel.1, .number (channel.2 j)))) (row : Nat) :
    readElement (fieldNames first) row (.object members) =
      .ok ((Keyed.ofList channels).map fun channel => (channel.2 i).toFloat) := by
  have hmembers := ofList_of_perm hnames (fun numbers => .number (numbers i)) h
  have hnamed := fieldNames_of_perm hnames hfirst
  refine readElement_eq_ok_iff.2 ⟨members, rfl, ?_, ?_⟩
  · rw [← length_ofList, ← length_fieldNames, hmembers, hnamed, List.length_map, List.length_map]
  · rw [hnamed, List.map_map, List.map_map]
    refine List.map_congr_left fun channel hchannel => ?_
    have hfound : Keyed.find? channel.1 (Keyed.ofList members) = some (.number (channel.2 i)) := by
      refine Keyed.find?_of_mem (Keyed.nodup_keys_ofList members) ?_
      rw [hmembers]
      exact List.mem_map.2 ⟨channel, hchannel, rfl⟩
    simp only [Function.comp_apply, ← find?_ofList_bind_float?, hfound]
    rfl

/-- Records with a number for each channel have the columns of the channels. -/
theorem tableOfRecords_of_perm {records : Fin n → List (String × Value)} (hrows : 0 < n)
    (h : ∀ i, (records i).Perm (channels.map fun channel => (channel.1, .number (channel.2 i)))) :
    tableOfRecords (List.ofFn fun i => .object (records i)) =
      Failure.ofResult (Table.ofColumns (orderedColumns channels)) := by
  have hfirst : firstMembers (List.ofFn fun i => .object (records i)) = records ⟨0, hrows⟩ := by
    cases n with
    | zero => cases hrows
    | succ n =>
        rw [List.ofFn_succ]
        rfl
  have hread : inTurn (readElement (fieldNames (records ⟨0, hrows⟩))) 0 (List.ofFn fun i => .object (records i)) =
      .ok ((List.finRange n).map fun i => (Keyed.ofList channels).map fun channel => (channel.2 i).toFloat) := by
    rw [List.ofFn_eq_map]
    exact inTurn_map_eq_ok fun row i _ => readElement_of_perm hnames (h i) (h _) row
  have hacross := Matrix.across_map_map 0.0
    (fun (i : Fin n) (channel : String × (Fin n → Number)) => (channel.2 i).toFloat) (List.finRange n)
    (Keyed.ofList channels)
  rw [tableOfRecords_eq, hfirst, hread, ok_bind, Table.ofRows, fieldNames_of_perm hnames (h _), List.length_map, hacross,
    List.zip_map']
  simp only [orderedColumns, List.ofFn_eq_map]

/-- Channels make a table, whose columns are in the order of the names. -/
theorem exists_ofColumns_orderedColumns :
    ∃ t, Table.ofColumns (orderedColumns channels) = .ok t ∧
      t.rows = (if channels = [] then 0 else n) ∧ t.names.Pairwise BytesLess ∧
      t.names.Perm (channels.map Prod.fst) ∧
      ∀ channel ∈ channels, t.channel channel.1 = .ok (List.ofFn fun i => (channel.2 i).toFloat) := by
  have hordered := Keyed.ofList_perm hnames
  have hlengths : ∀ column ∈ orderedColumns channels, column.2.length = n := by
    intro column hcolumn
    obtain ⟨channel, -, rfl⟩ := List.mem_map.1 hcolumn
    exact List.length_ofFn
  have hmem : ∀ channel ∈ channels,
      (channel.1, List.ofFn fun i => (channel.2 i).toFloat) ∈ orderedColumns channels :=
    fun channel hchannel => List.mem_map.2 ⟨channel, hordered.mem_iff.2 hchannel, rfl⟩
  have hkeys : (orderedColumns channels).map Prod.fst = (Keyed.ofList channels).map Prod.fst := by
    rw [orderedColumns, List.map_map]
    rfl
  have hdistinct : ((orderedColumns channels).map Prod.fst).Nodup := hkeys ▸ Keyed.nodup_keys_ofList channels
  obtain ⟨t, ht⟩ := Table.exists_ofColumns hlengths
  obtain ⟨hbare, hcount, -⟩ := Table.of_ofColumns ht
  have hnamed : t.names = (Keyed.ofList channels).map Prod.fst := by
    rw [Table.names_of_ofColumns ht, Table.eraseDups_of_nodup hdistinct, hkeys]
  refine ⟨t, ht, ?_, ?_, ?_, ?_⟩
  · split
    · next hnil => exact hbare (by rw [hnil]; rfl)
    · next hsome =>
        obtain ⟨channel, hchannel⟩ := List.exists_mem_of_ne_nil _ hsome
        exact (hcount _ (hmem channel hchannel)).symm.trans (hlengths _ (hmem channel hchannel))
  · rw [hnamed]
    exact (Keyed.sorted_ofList channels).imp bytesLess_iff.2
  · rw [hnamed]
    exact hordered.map Prod.fst
  · intro channel hchannel
    obtain ⟨k, hk⟩ := List.mem_iff_getElem?.1 (hmem channel hchannel)
    refine Table.channel_of_ofColumns ht hk (Table.getElem?_ne_of_nodup hdistinct ?_)
    rw [List.getElem?_map, hk]
    rfl

end Layouts

end Json

/-- An object with an array of numbers for each channel, and an array of records with the same numbers, load as the
    same table, whatever the order of the members in the object and in each of the records. -/
theorem json_layouts_give_one_table (n : Nat) (hrows : 0 < n) (channels : List (String × (Fin n → Json.Number)))
    (hnames : (channels.map Prod.fst).Nodup) (members : List (String × Json.Value))
    (hmembers : members.Perm
      (channels.map fun channel => (channel.1, .array (List.ofFn fun i => .number (channel.2 i)))))
    (records : Fin n → List (String × Json.Value))
    (hrecords : ∀ i, (records i).Perm (channels.map fun channel => (channel.1, .number (channel.2 i))))
    (session : Session) (columnPath columnText recordPath recordText : String)
    (hcolumnText : session.store.readText columnPath = .ok columnText)
    (hcolumns : Json.Value.ofText columnText = .ok (.object members))
    (hrecordText : session.store.readText recordPath = .ok recordText)
    (hrecord : Json.Value.ofText recordText = .ok (.array (List.ofFn fun i => .object (records i)))) :
    ∃ t, (loadJson columnPath).outcome session = .ok t ∧ (loadJson recordPath).outcome session = .ok t ∧
      t.rows = (if channels = [] then 0 else n) ∧ t.names.Pairwise BytesLess ∧
      t.names.Perm (channels.map Prod.fst) ∧
      ∀ channel ∈ channels, t.channel channel.1 = .ok (List.ofFn fun i => (channel.2 i).toFloat) := by
  obtain ⟨t, ht, hholds⟩ := Json.exists_ofColumns_orderedColumns hnames
  have hresult : Failure.ofResult (Table.ofColumns (Json.orderedColumns channels)) = .ok t := by
    rw [ht]
    rfl
  refine ⟨t, ?_, ?_, hholds⟩
  · rw [outcome_loadJson hcolumnText hcolumns, Json.columnsOfValue, Json.readColumns_of_perm hnames hmembers,
      Table.ofRead, ok_bind, hresult]
  · rw [outcome_loadJson hrecordText hrecord]
    exact (Json.tableOfRecords_of_perm hnames hrows hrecords).trans hresult

/-- Two channels over two rows. -/
def climb : List (String × (Fin 2 → Json.Number)) :=
  [("t", fun i => .whole i), ("alt", fun i => .whole (120 + 5 * i))]

/-- The records of the two channels; the second has its members in the other order. -/
def climbRecords (i : Fin 2) : List (String × Json.Value) :=
  let record := climb.map fun channel => (channel.1, .number (channel.2 i))
  if i = 0 then record else record.reverse

/-- The arrays of the two channels, the second channel first. -/
def climbMembers : List (String × Json.Value) :=
  (climb.map fun channel => (channel.1, .array (List.ofFn fun i => .number (channel.2 i)))).reverse

/-- The two layouts of the same flight. -/
def layoutFiles : Session :=
  jsonFiles [("columns.json", .object climbMembers),
    ("records.json", .array (List.ofFn fun i => .object (climbRecords i)))]

theorem json_layouts_give_one_table_climb :
    ∃ t, (loadJson "columns.json").outcome layoutFiles = .ok t ∧ (loadJson "records.json").outcome layoutFiles = .ok t ∧
      t.rows = 2 ∧ t.names.Pairwise BytesLess ∧ t.names.Perm ["t", "alt"] := by
  have hrecords : ∀ i, (climbRecords i).Perm (climb.map fun channel => (channel.1, .number (channel.2 i))) := by
    intro i
    unfold climbRecords
    split
    · exact .refl _
    · exact List.reverse_perm _
  obtain ⟨t, hcolumns, hrows, hcount, horder, hnames, -⟩ := json_layouts_give_one_table 2 (by decide) climb (by decide)
    climbMembers (List.reverse_perm _) climbRecords hrecords layoutFiles "columns.json" _ "records.json" _
    (Store.readText_of_read rfl) (Json.valueOfText_render .compact rfl) (Store.readText_of_read rfl)
    (Json.valueOfText_render .compact rfl)
  exact ⟨t, hcolumns, hrows, hcount, horder, hnames⟩

end FlightFit
