import FlightFit.Generator.Flight
import FlightFit.Proofs.DelimitedTables
import FlightFit.Proofs.DelimitedText
import FlightFit.Proofs.ShortestDigits

/-!
Module: FlightFit.Proofs.WrittenFlights
Purpose: Flights that are written as delimited text and loaded again. A double written with fixed places is read as
  the rounded one, whatever it is; names and numbers that have no white space at their ends survive trimming; and
  since the records that are read are those that were written, a flight is loaded with its names, its rows and its
  numbers, each rounded.
Main exports: roundedTo, readFloat_fixedPlaces, trim_of_ends, Delimited.decodeRecord_encode, Flight.Writable,
  Flight.Writable.columnsOfBytes_text, written_flight_loads
-/

namespace FlightFit

/-! ### Written numbers -/

/-- A double rounded to decimal places. -/
def roundedTo (places : Nat) (x : Float) : Float :=
  match Binary.ofFloat x with
  | .undefined => Binary.toFloat .undefined
  | .infinite negative => Binary.toFloat (.infinite negative)
  | .finite negative code =>
    let (num, den) := BinaryFormat.double.fraction code
    Decimal.toFloat ⟨negative, roundDiv .toEven (num * Nat.pow 10 places) den, -(places : Int)⟩

/-- Digits that are written with a point are read as the number that they spell. -/
theorem readMagnitude_positionalText {n : Nat} {digits : List Char} (h : Spells n digits) (places : Nat) :
    readMagnitude (positionalText [] digits (-(places : Int))) = some (n, -(places : Int)) := by
  cases places with
  | zero =>
      have hrun : digitRun 0 0 digits = (n, digits.length, []) := by
        have happend := digitRun_append 0 0 h.areDigits []
        rw [List.append_nil, h.value, Nat.zero_add] at happend
        exact happend
      have htext : positionalText [] digits 0 = digits := by
        change digits ++ List.replicate 0 '0' ++ [] = digits
        simp
      change readMagnitude (positionalText [] digits 0) = _
      simp [htext, readMagnitude, hrun, readExponent, h.ne_nil]
  | succ k =>
      rcases h.exists_point [] k with ⟨m, whole, after, htext, hwhole, hafter, hlength, hvalue⟩
      have hbefore : digitRun 0 0 (whole ++ '.' :: after) = (m, whole.length, '.' :: after) := by
        rw [digitRun_append 0 0 hwhole.areDigits, digitRun_stop _ _ (Json.noDigit_cons (by decide) after),
          hwhole.value, Nat.zero_add]
      have hbehind : digitRun m 0 after = (n, k + 1, []) := by
        have happend := digitRun_append m 0 hafter []
        rw [List.append_nil, hvalue, hlength, Nat.zero_add] at happend
        exact happend
      change readMagnitude (positionalText [] digits (.negSucc k)) = _
      simp [htext, readMagnitude, hbefore, hbehind, readExponent]

/-- What stands in digits with a point. -/
theorem mem_positionalText {digits : List Char} (h : ∀ c ∈ digits, isDigit c = true) (exponent : Int) :
    ∀ c ∈ positionalText [] digits exponent, isDigit c = true ∨ c = '.' := by
  have hzeros : ∀ {count : Nat}, ∀ c ∈ List.replicate count '0', isDigit c = true := by
    intro count c hc
    rw [List.eq_of_mem_replicate hc]
    decide
  intro c hc
  cases exponent with
  | ofNat zeros =>
      simp only [positionalText, List.append_nil] at hc
      rcases List.mem_append.1 hc with hc | hc
      · exact .inl (h c hc)
      · exact .inl (hzeros c hc)
  | negSucc k =>
      simp only [positionalText] at hc
      split at hc
      · simp only [List.mem_cons, List.mem_append] at hc
        rcases hc with rfl | rfl | hc | hc
        · exact .inl (by decide)
        · exact .inr rfl
        · exact .inl (hzeros c hc)
        · exact .inl (h c hc)
      · simp only [List.mem_cons, List.mem_append] at hc
        rcases hc with hc | rfl | hc
        · exact .inl (h c (List.mem_of_mem_take hc))
        · exact .inr rfl
        · exact .inl (h c (List.mem_of_mem_drop hc))

/-- A sign is split off a text that does not begin with another one. -/
theorem splitSign_minus (negative : Bool) {body : List Char} (h : ∀ c ∈ body.head?, c ≠ '-' ∧ c ≠ '+') :
    splitSign (minus negative ++ body) = (negative, body) := by
  cases negative with
  | true => rfl
  | false =>
      change splitSign body = _
      unfold splitSign
      split
      · exact absurd rfl (h _ rfl).1
      · exact absurd rfl (h _ rfl).2
      · rfl

theorem readFloat_minus (negative : Bool) {body : List Char} (hne : body ≠ [])
    (h : ∀ c ∈ body.head?, c ≠ '-' ∧ c ≠ '+') :
    readFloat (String.ofList (minus negative ++ body)) = readUnsigned negative body := by
  have hsome : minus negative ++ body ≠ [] := by simp [hne]
  rw [readFloat, String.toList_ofList]
  split
  · next hnil => exact absurd hnil hsome
  · rw [splitSign_minus negative h]

theorem readFloat_positionalText (negative : Bool) (digits places : Nat) :
    readFloat (String.ofList (minus negative ++ positionalText [] (digitList digits) (-(places : Int)))) =
      .ok (Decimal.toFloat ⟨negative, digits, -(places : Int)⟩) := by
  have hspells := spells_digitList digits
  have hread := readMagnitude_positionalText hspells places
  have hplain : ∀ c ∈ (positionalText [] (digitList digits) (-(places : Int))).head?, c ≠ '-' ∧ c ≠ '+' := by
    intro c hc
    rcases mem_positionalText hspells.areDigits _ c (List.mem_of_mem_head? hc) with hdigit | rfl
    · have hsigns : isDigit '-' = false ∧ isDigit '+' = false := by decide
      exact ⟨fun hminus => by simp [hminus, hsigns] at hdigit, fun hplus => by simp [hplus, hsigns] at hdigit⟩
    · decide
  have hne : positionalText [] (digitList digits) (-(places : Int)) ≠ [] := by
    intro hnil
    rw [hnil] at hread
    simp [readMagnitude, digitRun] at hread
  rw [readFloat_minus negative hne hplain, readUnsigned, hread]

/-- A double written with fixed places is read as the rounded one. -/
theorem readFloat_fixedPlaces (places : Nat) (x : Float) :
    readFloat (fixedPlaces places x) = .ok (roundedTo places x) := by
  rw [fixedPlaces, roundedTo]
  cases Binary.ofFloat x with
  | undefined => exact readFloat_minus false (List.cons_ne_nil 'N' ['a', 'N']) (by simp)
  | infinite negative => exact readFloat_minus negative (List.cons_ne_nil _ _) (by simp)
  | finite negative code => exact readFloat_positionalText negative _ places

/-! ### White space -/

theorem isBlank_eq_false_of_isDigit {c : Char} (h : isDigit c = true) : isBlank c = false := by
  have hbounds : '0'.toNat ≤ c.toNat ∧ c.toNat ≤ '9'.toNat := by
    simp only [isDigit, Bool.and_eq_true, decide_eq_true_eq] at h
    exact h
  have hlow : '0'.toNat = 48 := rfl
  have hhigh : '9'.toNat = 57 := rfl
  simp only [isBlank, blankRanges, List.any_eq_false, List.forall_mem_cons, Bool.and_eq_true, decide_eq_true_eq,
    List.not_mem_nil, false_implies, implies_true, and_true]
  omega

theorem isBlank_eq_false_of_mem_minus (negative : Bool) {body : List Char} (h : ∀ c ∈ body, isBlank c = false) :
    ∀ c ∈ (String.ofList (minus negative ++ body)).toList, isBlank c = false := by
  have hsign : ∀ negative, ∀ c ∈ minus negative, isBlank c = false := by simp [minus, isBlank, blankRanges]
  intro c hc
  rw [String.toList_ofList] at hc
  rcases List.mem_append.1 hc with hc | hc
  · exact hsign negative c hc
  · exact h c hc

/-- A written double has no white space in it. -/
theorem isBlank_eq_false_of_mem_fixedPlaces {places : Nat} {x : Float} :
    ∀ c ∈ (fixedPlaces places x).toList, isBlank c = false := by
  rw [fixedPlaces]
  cases Binary.ofFloat x with
  | undefined =>
      have hword : ∀ c ∈ ['N', 'a', 'N'], isBlank c = false := by simp [isBlank, blankRanges]
      exact isBlank_eq_false_of_mem_minus false hword
  | infinite negative => exact isBlank_eq_false_of_mem_minus negative (by simp [isBlank, blankRanges])
  | finite negative code =>
      apply isBlank_eq_false_of_mem_minus negative
      intro c hc
      rcases mem_positionalText (spells_digitList _).areDigits _ c hc with hdigit | rfl
      · exact isBlank_eq_false_of_isDigit hdigit
      · decide

theorem dropWhile_isBlank {cs : List Char} (h : ∀ c ∈ cs.head?, isBlank c = false) : cs.dropWhile isBlank = cs := by
  cases cs with
  | nil => rfl
  | cons c cs => rw [List.dropWhile_cons, h c rfl, if_neg Bool.false_ne_true]

/-- A text that neither begins nor ends with white space is left as it is. -/
theorem trim_of_ends {s : String} (hfirst : ∀ c ∈ s.toList.head?, isBlank c = false)
    (hlast : ∀ c ∈ s.toList.getLast?, isBlank c = false) : trim s = s := by
  have hreverse : s.toList.reverse.dropWhile isBlank = s.toList.reverse := by
    apply dropWhile_isBlank
    rw [List.head?_reverse]
    exact hlast
  rw [trim, dropWhile_isBlank hfirst, hreverse, List.reverse_reverse, String.ofList_toList]

theorem trim_fixedPlaces (places : Nat) (x : Float) : trim (fixedPlaces places x) = fixedPlaces places x :=
  trim_of_ends (fun c hc => isBlank_eq_false_of_mem_fixedPlaces c (List.mem_of_mem_head? hc))
    fun c hc => isBlank_eq_false_of_mem_fixedPlaces c (List.mem_of_getLast? hc)

/-- The bytes of texts are read as the texts, trimmed. -/
theorem Delimited.decodeRecord_encode (fields : List String) :
    decodeRecord (fields.map fun field => encode field.toList) = some (fields.map trim) := by
  induction fields with
  | nil => rfl
  | cons field rest ih =>
      have hdecoded : String.fromUTF8? ⟨(encode field.toList).toArray⟩ = some field := by
        have hbytes : encode field.toList = field.toUTF8.data.toList := (toList_toUTF8 field).symm
        rw [hbytes, Array.toArray_toList]
        exact dif_pos field.isValidUTF8
      simp only [decodeRecord] at ih ⊢
      simp [decodeFields, hdecoded, ih]

/-! ### Flights -/

namespace Flight

/-- A flight that can be written and loaded again: there are columns, all of one length, each with a name, and names
    are distinct headings without white space at their ends. -/
structure Writable (f : Flight) : Prop where
  hasColumns : f.columns ≠ []
  named : f.names.length = f.columns.length
  aligned : ∀ column ∈ f.columns, column.length = f.samples
  distinct : f.names.Nodup
  filled : ∀ name ∈ f.names, name ≠ ""
  begins : ∀ name ∈ f.names, ∀ c ∈ name.toList.head?, isBlank c = false ∧ c ≠ '\uFEFF'
  ends : ∀ name ∈ f.names, ∀ c ∈ name.toList.getLast?, isBlank c = false

/-- The rows of a flight as they are written. -/
def cells (f : Flight) : List (List String) := f.rows.map (List.map (fixedPlaces 6))

theorem cells_eq (f : Flight) :
    f.cells = (List.range' 0 f.samples).map fun r => (Table.rowAt f.columns r).map (fixedPlaces 6) := by
  rw [cells, rows, Table.across_eq_rowAt, List.map_map]
  rfl

theorem exists_rowAt_of_mem_cells {f : Flight} {record : List String} (h : record ∈ f.cells) :
    ∃ r, record = (Table.rowAt f.columns r).map (fixedPlaces 6) := by
  rw [cells_eq] at h
  rcases List.mem_map.1 h with ⟨r, -, rfl⟩
  exact ⟨r, rfl⟩

/-- A written cell is read as the rounded number. -/
theorem cellNumber?_rowAt {columns : List (List Float)} {k : Nat} {column : List Float}
    (h : columns[k]? = some column) (r : Nat) :
    Delimited.cellNumber? ((Table.rowAt columns r).map (fixedPlaces 6)) k = some (roundedTo 6 (column.getD r 0)) := by
  simp [Delimited.cellNumber?, Table.rowAt, h, readFloat_fixedPlaces, Except.toOption]

namespace Writable

variable {f : Flight} (h : f.Writable)
include h

theorem names_ne : f.names ≠ [] := by
  intro hnil
  have hnamed := h.named
  rw [hnil] at hnamed
  exact h.hasColumns (List.length_eq_zero_iff.1 hnamed.symm)

theorem map_trim_names : f.names.map trim = f.names := by
  have htrim : ∀ name ∈ f.names, trim name = id name := fun name hname =>
    trim_of_ends (fun c hc => (h.begins name hname c hc).1) (h.ends name hname)
  rw [List.map_congr_left htrim, List.map_id]

theorem filter_names : f.names.filter (· ≠ "") = f.names := by
  refine List.filter_eq_self.2 fun name hname => ?_
  exact decide_eq_true (h.filled name hname)

/-- Every written row has a number in every column. -/
theorem sound : ∀ record ∈ f.cells, Delimited.Sound f.names record := by
  intro record hrecord
  rcases exists_rowAt_of_mem_cells hrecord with ⟨r, rfl⟩
  intro _ k name hkept
  have hk : k < f.columns.length := by
    rw [← h.named]
    exact (List.getElem?_eq_some_iff.1 hkept.1).1
  rw [cellNumber?_rowAt (List.getElem?_eq_getElem hk) r]
  rfl

/-- No written row is bare, since the empty text is no number. -/
theorem filter_cells : f.cells.filter Delimited.Filled = f.cells := by
  refine List.filter_eq_self.2 fun record hrecord => ?_
  rcases exists_rowAt_of_mem_cells hrecord with ⟨r, rfl⟩
  rcases List.exists_cons_of_ne_nil h.hasColumns with ⟨column, rest, hcolumns⟩
  apply decide_eq_true
  refine ⟨fixedPlaces 6 (column.getD r 0), by simp [hcolumns, Table.rowAt], ?_⟩
  intro hempty
  have hread := readFloat_fixedPlaces 6 (column.getD r 0)
  rw [hempty] at hread
  exact absurd hread (by simp [readFloat])

/-- The text of a flight is read as its names and written rows. -/
theorem columnsOfBytes_text :
    Delimited.columnsOfBytes 124 f.text.toUTF8.data.toList = Delimited.columnsOfRecords f.names (f.cells.map some) := by
  have hbytes : f.text.toUTF8.data.toList = Delimited.encode ((f.names :: f.cells).flatMap Delimited.writeRecord) := by
    rw [toList_toUTF8, text, Delimited.writeTable, String.toList_ofList, cells, List.flatMap_cons, List.flatMap_map]
    rfl
  have hrecords : Delimited.records 124 f.text.toUTF8.data.toList =
      (f.names :: f.cells).map (List.map fun field => Delimited.encode field.toList) := by
    rw [hbytes]
    apply Delimited.records_encode
    · rw [List.forall_mem_cons]
      refine ⟨h.names_ne, fun record hrecord => ?_⟩
      rcases exists_rowAt_of_mem_cells hrecord with ⟨r, rfl⟩
      simp [Table.rowAt, h.hasColumns]
    · intro names hnames first hfirst c hc
      obtain rfl := Option.some.inj hnames
      exact (h.begins first (List.mem_of_mem_head? hfirst) c hc).2
  apply Delimited.columnsOfBytes_eq
  · rw [hrecords, List.map_cons, List.headD_cons, Delimited.decodeRecord_encode, h.map_trim_names]
  · have htrim : ∀ record ∈ f.cells, record.map trim = record := by
      intro record hrecord
      rcases exists_rowAt_of_mem_cells hrecord with ⟨r, rfl⟩
      rw [List.map_map]
      exact List.map_congr_left fun x _ => trim_fixedPlaces 6 x
    rw [hrecords, List.map_cons, List.tail_cons, List.map_map]
    refine List.map_congr_left fun record hrecord => ?_
    rw [Function.comp_apply, Delimited.decodeRecord_encode, htrim record hrecord]

end Writable

end Flight

/-- A flight that was written as text is loaded with its names in order and its rows, and each channel has in each row
    the number that its column has there, as it was written with six places and read again. -/
theorem written_flight_loads (f : Flight) (session : Session) (path : String) (h : f.Writable)
    (hfile : session.store.read path = .ok (.bytes f.text.toUTF8)) :
    ∃ t, (loadDelimited 124 path).outcome session = .ok t ∧ t.names = f.names ∧ t.rows = f.samples ∧
      ∀ (k : Nat) (name : String) (column : List Float), f.names[k]? = some name → f.columns[k]? = some column →
        ∃ samples, t.channel name = .ok samples ∧ samples.length = f.samples ∧
          ∀ (r : Nat) (x : Float), column[r]? = some x →
            ∃ y, readFloat (fixedPlaces 6 x) = .ok y ∧ samples[r]? = some y := by
  have hload := outcome_loadDelimited 124 hfile
  rw [h.columnsOfBytes_text] at hload
  rcases Delimited.exists_tableOfRecords_iff.2 h.sound with ⟨t, ht⟩
  have hlength : f.cells.length = f.samples := by simp [Flight.cells_eq]
  have hholds := Delimited.holdsRows_of_tableOfRecords ht
  rw [h.filter_names, h.filter_cells] at hholds
  refine ⟨t, hload.trans ht, ?_, ?_, ?_⟩
  · rw [hholds.names, Table.eraseDups_of_nodup h.distinct]
  · rw [hholds.rows, if_neg h.names_ne, List.length_map, hlength]
  · intro k name column hname hcolumn
    have hkept : Delimited.Kept f.names k name := ⟨hname, h.filled name (List.mem_of_getElem? hname)⟩
    rcases Delimited.channel_of_tableOfRecords ht hkept (Table.getElem?_ne_of_nodup h.distinct hname) with
      ⟨samples, hchannel, hcount, hat⟩
    rw [h.filter_cells] at hcount hat
    refine ⟨samples, hchannel, hcount.trans hlength, ?_⟩
    intro r x hx
    have hr : r < f.samples := by
      rw [← h.aligned column (List.mem_of_getElem? hcolumn)]
      exact (List.getElem?_eq_some_iff.1 hx).1
    have hrow : f.cells[r]? = some ((Table.rowAt f.columns r).map (fixedPlaces 6)) := by simp [Flight.cells_eq, hr]
    refine ⟨_, readFloat_fixedPlaces 6 x, ?_⟩
    rw [hat r _ hrow, Flight.cellNumber?_rowAt hcolumn, List.getD_eq_getElem?_getD, hx]
    rfl

/-- A flight whose names hold a delimiter, quotes and a line break, and whose samples are no number, infinite, large or
    too small for six places. -/
def oddFlight : Flight :=
  ⟨["t|s", "\"left\"\ntank", "h é"], [[0.5, 0.0 / 0.0], [-0.0000004, 1.0e300], [-1.0 / 0.0, 7.0]]⟩

/-- The flight in a file. -/
def oddFiles : Session where
  store := ⟨[(["odd.txt"], .file (.bytes oddFlight.text.toUTF8))]⟩
  log := []

theorem writable_oddFlight : oddFlight.Writable where
  hasColumns := by decide
  named := rfl
  aligned := by decide
  distinct := by decide
  filled := by decide
  begins := by simp [oddFlight, isBlank, blankRanges]
  ends := by simp [oddFlight, isBlank, blankRanges]

theorem written_flight_loads_odd :
    oddFlight.Writable ∧ ∃ t samples y, (loadDelimited 124 "odd.txt").outcome oddFiles = .ok t ∧
      t.names = ["t|s", "\"left\"\ntank", "h é"] ∧ t.rows = 2 ∧ t.channel "\"left\"\ntank" = .ok samples ∧
      readFloat "-0.000000" = .ok y ∧ samples[0]? = some y := by
  rcases written_flight_loads oddFlight oddFiles "odd.txt" writable_oddFlight rfl with ⟨t, ht, hnames, hrows, hchannels⟩
  rcases hchannels 1 _ _ rfl rfl with ⟨samples, hsamples, -, hat⟩
  rcases hat 0 _ rfl with ⟨y, hy, hfirst⟩
  have hwritten : fixedPlaces 6 (-0.0000004) = "-0.000000" := by decide
  rw [hwritten] at hy
  exact ⟨writable_oddFlight, t, samples, y, ht, hnames, hrows, hsamples, hy, hfirst⟩

end FlightFit
