import Mathlib.Data.List.Induction
import FlightFit.Proofs.TableLife

/-!
Module: FlightFit.Proofs.ColumnTables
Purpose: Tables that are built from columns. The first column that is not as long as the first of all is refused
  (`Table.FirstUneven`). The names come in the order in which they first turn up, and of several columns with one name
  the last one counts. Readers that go through a file row by row cut the rows across into columns; these are always as
  long as each other, so that the table is built and holds the rows that were read (`Table.HoldsRows`).
Main exports: Table.names_of_ofColumns, Table.channel_of_ofColumns, Table.exists_ofColumns, Table.FirstUneven,
  Table.ofColumns_cases, Table.columns_make_table, Table.HoldsRows, Table.ofRows, Table.exists_ofRows,
  Table.bind_ofRows_eq_error_iff, Table.exists_bind_ofRows_iff
-/

namespace FlightFit.Table

/-! ### Distinct names -/

section Distinct

variable {names : List String} (h : names.Nodup)
include h

theorem eraseDups_of_nodup : names.eraseDups = names := by
  induction names with
  | nil => rfl
  | cons name rest ih =>
      obtain ⟨hfresh, hrest⟩ := List.nodup_cons.1 h
      have hkept : rest.filter (fun other => !other == name) = rest := by
        refine List.filter_eq_self.2 fun other hother => ?_
        have hne : other ≠ name := fun heq => hfresh (heq ▸ hother)
        simp [hne]
      rw [List.eraseDups_cons, hkept, ih hrest]

theorem getElem?_ne_of_nodup {k : Nat} {name : String} (hk : names[k]? = some name) :
    ∀ l, k < l → names[l]? ≠ some name := by
  intro l hl heq
  obtain ⟨hkbound, hk⟩ := List.getElem?_eq_some_iff.1 hk
  obtain ⟨hlbound, heq⟩ := List.getElem?_eq_some_iff.1 heq
  exact List.pairwise_iff_getElem.1 h k l hkbound hlbound hl (hk.trans heq.symm)

end Distinct

/-! ### Columns -/

section Columns

variable {columns : List (String × List Float)} {t : Table}

theorem find?_put (name other : String) (samples : List Float) (channels : List Channel) :
    find? other (put name samples channels) = if other = name then some samples else find? other channels := by
  induction channels with
  | nil => simp [put, find?, eq_comm]
  | cons c rest ih =>
      by_cases hname : c.name = name
      · by_cases hother : other = name
        · simp [put, find?, hname, hother]
        · simp [put, find?, hname, hother, Ne.symm hother]
      · by_cases hother : c.name = other
        · have hne : other ≠ name := fun h => hname (hother.trans h)
          simp [put, find?, hother, hne]
        · simp [put, find?, hname, hother, ih]

/-- The names of channels that columns have been put into, one after the other. -/
theorem names_foldl_put (columns : List (String × List Float)) :
    (columns.foldl (fun channels column => put column.1 column.2 channels) []).map Channel.name =
      (columns.map Prod.fst).eraseDups := by
  induction columns using List.reverseRecOn with
  | nil => rfl
  | append_singleton columns column ih =>
      rw [List.foldl_append, List.foldl_cons, List.foldl_nil, names_put, ih, List.map_append, List.eraseDups_append]
      by_cases hmem : column.1 ∈ columns.map Prod.fst
      · rw [if_pos (List.mem_eraseDups.2 hmem)]
        simp [List.removeAll, hmem]
      · rw [if_neg fun h => hmem (List.mem_eraseDups.1 h)]
        simp [List.removeAll, hmem, List.eraseDups_cons]

/-- Columns with other names do not change what is found under a name. -/
theorem find?_foldl_put_of_not_mem {name : String} (h : name ∉ columns.map Prod.fst) (channels : List Channel) :
    find? name (columns.foldl (fun channels column => put column.1 column.2 channels) channels) =
      find? name channels := by
  induction columns generalizing channels with
  | nil => rfl
  | cons column rest ih =>
      obtain ⟨hfirst, hrest⟩ := not_or.1 (List.mem_cons.not.1 h)
      rw [List.foldl_cons, ih hrest, find?_put, if_neg hfirst]

theorem names_of_ofColumns (h : ofColumns columns = .ok t) : t.names = (columns.map Prod.fst).eraseDups := by
  obtain ⟨-, -, hchannels⟩ := of_ofColumns h
  rw [names, hchannels, names_foldl_put]

/-- Under a name are the samples of the last column that has it. -/
theorem channel_of_ofColumns (h : ofColumns columns = .ok t) {k : Nat} {name : String} {samples : List Float}
    (hcolumn : columns[k]? = some (name, samples)) (hlast : ∀ l, k < l → (columns.map Prod.fst)[l]? ≠ some name) :
    t.channel name = .ok samples := by
  obtain ⟨hk, hat⟩ := List.getElem?_eq_some_iff.1 hcolumn
  have hafter : name ∉ (columns.drop (k + 1)).map Prod.fst := by
    intro hmem
    rw [List.map_drop] at hmem
    obtain ⟨i, hi⟩ := List.mem_iff_getElem?.1 hmem
    rw [List.getElem?_drop] at hi
    exact hlast (k + 1 + i) (by omega) hi
  have hsplit : columns = columns.take k ++ (name, samples) :: columns.drop (k + 1) := by
    rw [← hat, List.getElem_cons_drop, List.take_append_drop]
  obtain ⟨-, -, hchannels⟩ := of_ofColumns h
  have hfind : find? name t.channels = some samples := by
    rw [hchannels, hsplit, List.foldl_append, List.foldl_cons, find?_foldl_put_of_not_mem hafter, find?_put, if_pos rfl]
  rw [channel, hfind]

/-- Columns of one length make a table. -/
theorem exists_ofColumns {rows : Nat} (h : ∀ column ∈ columns, column.2.length = rows) :
    ∃ t, ofColumns columns = .ok t := by
  cases columns with
  | nil => exact ⟨_, rfl⟩
  | cons first rest =>
      have hnone : (first :: rest).find? (fun column => column.2.length != first.2.length) = none := by
        rw [List.find?_eq_none]
        intro column hcolumn
        simp [h column hcolumn, h first List.mem_cons_self]
      simp only [ofColumns, hnone]
      exact ⟨_, rfl⟩

end Columns

/-! ### Building -/

section Building

variable {columns : List (String × List Float)}

/-- The length of the first column; without columns it is zero. -/
def firstLength (columns : List (String × List Float)) : Nat :=
  (columns.head?.map fun column => column.2.length).getD 0

/-- The first column that is not as long as the first of all. -/
def FirstUneven (columns : List (String × List Float)) (uneven : String × List Float) : Prop :=
  uneven.2.length ≠ firstLength columns ∧
    ∃ k : Nat, columns[k]? = some uneven ∧
      ∀ l < k, ∀ column, columns[l]? = some column → column.2.length = firstLength columns

theorem FirstUneven.unique {first second : String × List Float} (hfirst : FirstUneven columns first)
    (hsecond : FirstUneven columns second) : first = second := by
  rcases hfirst with ⟨huneven, k, hk, hbefore⟩
  rcases hsecond with ⟨huneven', l, hl, hbefore'⟩
  rcases Nat.lt_trichotomy k l with hless | rfl | hless
  · exact absurd (hbefore' k hless first hk) huneven
  · exact Option.some.inj (hk.symm.trans hl)
  · exact absurd (hbefore l hless second hl) huneven'

theorem ofColumns_eq (columns : List (String × List Float)) :
    ofColumns columns =
      match columns.find? (fun column => column.2.length != firstLength columns) with
      | some (name, samples) => .error (.lengthMismatch name (firstLength columns) samples.length)
      | none =>
        .ok ⟨firstLength columns, columns.foldl (fun channels column => put column.1 column.2 channels) []⟩ := by
  cases columns with
  | nil => rfl
  | cons first rest => rfl

/-- Either some column is uneven and the first such column is refused, or a table with their length is made. -/
theorem ofColumns_cases (columns : List (String × List Float)) :
    (∃ uneven, FirstUneven columns uneven ∧
      ofColumns columns = .error (.lengthMismatch uneven.1 (firstLength columns) uneven.2.length)) ∨
    ((∀ column ∈ columns, column.2.length = firstLength columns) ∧
      ∃ t, ofColumns columns = .ok t ∧ t.rows = firstLength columns) := by
  rw [ofColumns_eq]
  cases hfind : columns.find? (fun column => column.2.length != firstLength columns) with
  | none =>
      refine .inr ⟨?_, _, rfl, rfl⟩
      intro column hcolumn
      simpa using List.find?_eq_none.1 hfind column hcolumn
  | some uneven =>
      rcases List.find?_eq_some_iff_getElem.1 hfind with ⟨huneven, k, hk, hat, hbefore⟩
      refine .inl ⟨uneven, ⟨by simpa using huneven, k, by rw [← hat]; exact List.getElem?_eq_getElem hk, ?_⟩, rfl⟩
      intro l hl column hcolumn
      rcases List.getElem?_eq_some_iff.1 hcolumn with ⟨hbound, rfl⟩
      simpa using hbefore l hl

/-- Columns are refused exactly for the first of them that is uneven. -/
theorem ofColumns_eq_error_iff {fault : Fault} :
    ofColumns columns = .error fault ↔
      ∃ uneven, FirstUneven columns uneven ∧
        fault = .lengthMismatch uneven.1 (firstLength columns) uneven.2.length := by
  rcases ofColumns_cases columns with ⟨uneven, hfirst, h⟩ | ⟨heven, t, h, -⟩
  · rw [h]
    constructor
    · rintro ⟨⟩
      exact ⟨uneven, hfirst, rfl⟩
    · rintro ⟨other, hother, rfl⟩
      rw [hother.unique hfirst]
  · rw [h]
    constructor
    · rintro ⟨⟩
    · rintro ⟨other, ⟨huneven, k, hk, -⟩, -⟩
      exact absurd (heven other (List.mem_of_getElem? hk)) huneven

/-- Columns make a table exactly when all of them are as long as the first; otherwise the first that is not is
    refused, with both lengths, whatever the names are. The table has the common length as its number of rows and the
    names in the order in which they first turn up; under each name are the samples of the last column that has it. -/
theorem columns_make_table (columns : List (String × List Float)) :
    ((∃ fault, ofColumns columns = .error fault) ↔ ∃ column ∈ columns, column.2.length ≠ firstLength columns) ∧
    (∀ fault, ofColumns columns = .error fault ↔
      ∃ uneven, FirstUneven columns uneven ∧
        fault = .lengthMismatch uneven.1 (firstLength columns) uneven.2.length) ∧
    ∀ t, ofColumns columns = .ok t →
      (t.rows = firstLength columns ∧ ∀ column ∈ columns, column.2.length = t.rows) ∧
      t.names = (columns.map Prod.fst).eraseDups ∧
      (∀ (k : Nat) name samples, columns[k]? = some (name, samples) →
        (∀ l, k < l → (columns.map Prod.fst)[l]? ≠ some name) → t.channel name = .ok samples) ∧
      ∀ name, name ∉ columns.map Prod.fst → t.channel name = .error (.unknownChannel name) := by
  refine ⟨?_, fun fault => ofColumns_eq_error_iff, ?_⟩
  · rcases ofColumns_cases columns with ⟨uneven, ⟨huneven, k, hk, -⟩, h⟩ | ⟨heven, t, h, -⟩
    · exact iff_of_true ⟨_, h⟩ ⟨uneven, List.mem_of_getElem? hk, huneven⟩
    · apply iff_of_false
      · rintro ⟨fault, hfault⟩
        cases h.symm.trans hfault
      · rintro ⟨column, hcolumn, huneven⟩
        exact huneven (heven column hcolumn)
  · intro t ht
    have hnames := names_of_ofColumns ht
    refine ⟨?_, hnames, fun k name samples => channel_of_ofColumns ht, ?_⟩
    · rcases ofColumns_cases columns with ⟨uneven, -, h⟩ | ⟨heven, other, h, hrows⟩
      · cases h.symm.trans ht
      · cases h.symm.trans ht
        rw [hrows]
        exact ⟨rfl, heven⟩
    · intro name hname
      rcases channel_cases t name with ⟨hmem, -⟩ | ⟨-, hunknown⟩
      · rw [hnames] at hmem
        exact absurd (List.mem_eraseDups.1 hmem) hname
      · exact hunknown

/-- Columns of which two have one name. -/
def repeatedColumns : List (String × List Float) := [("t", [0.0, 1.0]), ("v", [60.0, 61.0]), ("t", [7.0, 8.0])]

/-- Columns of which two are too short; both their names come twice. -/
def unevenColumns : List (String × List Float) := [("t", [0.0, 1.0]), ("v", [60.0]), ("t", []), ("v", [60.0, 61.0])]

theorem columns_make_table_repeated :
    (∃ t, ofColumns repeatedColumns = .ok t ∧ t.rows = 2 ∧ t.names = ["t", "v"] ∧ t.channel "t" = .ok [7.0, 8.0]) ∧
    ofColumns unevenColumns = .error (.lengthMismatch "v" 2 1) := by
  have hlengths : ∀ column ∈ repeatedColumns, column.2.length = 2 := by simp [repeatedColumns]
  have hfirst : FirstUneven unevenColumns ("v", [60.0]) := by
    refine ⟨by decide, 1, rfl, ?_⟩
    intro l hl column hcolumn
    cases Nat.lt_one_iff.1 hl
    cases hcolumn
    rfl
  rcases columns_make_table repeatedColumns with ⟨-, -, hbuilt⟩
  rcases columns_make_table unevenColumns with ⟨-, hrefused, -⟩
  rcases exists_ofColumns hlengths with ⟨t, ht⟩
  rcases hbuilt t ht with ⟨⟨hrows, -⟩, hnames, hchannel, -⟩
  refine ⟨⟨t, ht, hrows, hnames, ?_⟩, (hrefused _).2 ⟨_, hfirst, rfl⟩⟩
  apply hchannel 2 "t" [7.0, 8.0] rfl
  intro l hl
  have hbeyond : (repeatedColumns.map Prod.fst).length ≤ l := hl
  rw [List.getElem?_eq_none hbeyond]
  simp

end Building

/-! ### Rows -/

/-- A table that holds rows under given names, each row with a number for each of them. Of several columns with one
    name the last one counts. -/
structure HoldsRows (t : Table) (headings : List String) (records : List (List Float)) : Prop where
  names : t.names = headings.eraseDups
  rows : t.rows = if headings = [] then 0 else records.length
  channel : ∀ k name, headings[k]? = some name → (∀ l, k < l → headings[l]? ≠ some name) →
    t.channel name = .ok (records.map fun record => record.getD k 0)

theorem across_eq_rowAt (records : List (List Float)) (count : Nat) :
    Matrix.across 0.0 count records = (List.range' 0 count).map (rowAt records) := by
  have hdrop := across_drop records 0 count
  rw [show List.drop 0 = (id : List Float → List Float) from rfl, List.map_id] at hdrop
  exact hdrop

/-- The table of rows that have been read under given names: the rows are cut across into columns. -/
def ofRows (headings : List String) (records : List (List Float)) : Except Failure Table :=
  Failure.ofResult (ofColumns (headings.zip (Matrix.across 0.0 headings.length records)))

/-- Rows always make a table, and it holds them. -/
theorem exists_ofRows (headings : List String) (records : List (List Float)) :
    ∃ t, ofRows headings records = .ok t ∧ t.HoldsRows headings records := by
  set columns := headings.zip (Matrix.across 0.0 headings.length records) with hcolumns
  have hnames : columns.map Prod.fst = headings :=
    List.map_fst_zip (Nat.le_of_eq (Matrix.length_across _ _ _).symm)
  have hat : ∀ {k name}, headings[k]? = some name → columns[k]? = some (name, rowAt records k) := by
    intro k name hname
    have hk : k < headings.length := (List.getElem?_eq_some_iff.1 hname).1
    rw [hcolumns, List.getElem?_zip_eq_some, across_eq_rowAt, List.getElem?_map, List.getElem?_range' hk]
    simp [hname]
  have hlengths : ∀ column ∈ columns, column.2.length = records.length := by
    intro column hcolumn
    exact Matrix.length_of_mem_across 0.0 headings.length records column.2 (List.of_mem_zip hcolumn).2
  obtain ⟨t, ht⟩ := exists_ofColumns hlengths
  obtain ⟨hbare, hrows, -⟩ := of_ofColumns ht
  refine ⟨t, mapError_eq_ok_iff.2 ht, ?_, ?_, ?_⟩
  · rw [names_of_ofColumns ht, hnames]
  · split
    · next hnil => exact hbare (by rw [hcolumns, hnil, List.zip_nil_left])
    · next hsome =>
        obtain ⟨first, rest, hcons⟩ := List.exists_cons_of_ne_nil hsome
        have hfirst : columns[0]? = some (first, rowAt records 0) := hat (by rw [hcons]; rfl)
        have hmem := List.mem_of_getElem? hfirst
        exact (hrows _ hmem).symm.trans (hlengths _ hmem)
  · intro k name hname hlast
    exact channel_of_ofColumns ht (hat hname) (by rwa [hnames])

section Read

variable {headings : List String} {records : List (List Float)} {t : Table} {read : Except Failure (List (List Float))}

theorem holdsRows_of_ofRows (h : ofRows headings records = .ok t) : t.HoldsRows headings records := by
  obtain ⟨t', ht, hholds⟩ := exists_ofRows headings records
  obtain rfl : t = t' := Except.ok.inj (h.symm.trans ht)
  exact hholds

/-- Of the work on a table, only reading the rows can fail. -/
theorem bind_ofRows_eq_error_iff {failure : Failure} :
    (read >>= ofRows headings) = .error failure ↔ read = .error failure := by
  rw [bind_eq_error_iff]
  refine or_iff_left ?_
  rintro ⟨records, -, hbuilt⟩
  obtain ⟨t, ht, -⟩ := exists_ofRows headings records
  rw [ht] at hbuilt
  cases hbuilt

theorem exists_bind_ofRows_iff :
    (∃ t, (read >>= ofRows headings) = .ok t) ↔ ∃ records, read = .ok records := by
  constructor
  · rintro ⟨t, ht⟩
    obtain ⟨records, hrecords, -⟩ := bind_eq_ok_iff.1 ht
    exact ⟨records, hrecords⟩
  · rintro ⟨records, rfl⟩
    obtain ⟨t, ht, -⟩ := exists_ofRows headings records
    exact ⟨t, ht⟩

end Read

end FlightFit.Table
