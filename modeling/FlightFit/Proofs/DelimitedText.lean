import Mathlib.Data.List.Basic
import FlightFit.Delimited.Reader
import FlightFit.Delimited.Writer
import FlightFit.Proofs.KeyedLists

/-!
Module: FlightFit.Proofs.DelimitedText
Purpose: Records that are written and read again. The writer works on characters and the scanner on bytes; a byte of
  the format stands in a text only for the character itself, so a field outside of quotes has none that the scanner
  looks for, and inside of quotes only quotes count, which are doubled. After each field the scanner holds its bytes,
  and so the records that were written are those that are read, whatever their fields say.
Main exports: Delimited.encode, Delimited.mem_utf8EncodeChar_ascii, Delimited.dropMark_encode,
  Delimited.Scanner.scan_writeField, Delimited.Scanner.scan_writeRecord, Delimited.records_encode
-/

namespace FlightFit.Delimited

/-! ### Characters and bytes -/

/-- The bytes of characters. -/
def encode (cs : List Char) : List UInt8 := cs.flatMap String.utf8EncodeChar

@[simp] theorem encode_nil : encode [] = [] := rfl

@[simp] theorem encode_cons (c : Char) (cs : List Char) : encode (c :: cs) = String.utf8EncodeChar c ++ encode cs := rfl

@[simp] theorem encode_append (cs ds : List Char) : encode (cs ++ ds) = encode cs ++ encode ds := List.flatMap_append

/-- A byte below 128 is a character of its own. -/
theorem mem_utf8EncodeChar_ascii {c : Char} {b : UInt8} (hmem : b ∈ String.utf8EncodeChar c) (hascii : b.toNat < 128) :
    c.toNat = b.toNat := by
  revert hmem
  change b ∈ String.utf8EncodeChar c → c.val.toNat = b.toNat
  simp only [String.utf8EncodeChar]
  generalize c.val.toNat = m
  -- The bytes of a longer form are all above 127.
  repeat' split
  all_goals
    simp only [List.mem_cons, List.not_mem_nil, or_false, ← UInt8.toNat_inj, UInt8.toNat_ofNat']
    omega

/-- The byte of an ASCII character comes from no other one. -/
theorem ne_of_mem_utf8EncodeChar {c d : Char} {b : UInt8} (hmem : b ∈ String.utf8EncodeChar c) (hne : c ≠ d)
    (hascii : d.toNat < 128) : b ≠ UInt8.ofNat d.toNat := by
  rintro rfl
  have hbyte : (UInt8.ofNat d.toNat).toNat = d.toNat := by
    rw [UInt8.toNat_ofNat']
    omega
  apply hne
  apply Char.toNat_inj.1
  rw [mem_utf8EncodeChar_ascii hmem (by omega), hbyte]

/-- The bytes of a text tell its first character. -/
theorem eq_of_utf8EncodeChar_append {c d : Char} {s t : List UInt8}
    (h : String.utf8EncodeChar c ++ s = String.utf8EncodeChar d ++ t) : c = d := by
  rcases Std.lt_trichotomy c d with hless | heq | hgreater
  · have hbytes := utf8EncodeChar_append_lt hless s t
    rw [h] at hbytes
    exact absurd hbytes (List.lt_irrefl _)
  · exact heq
  · have hbytes := utf8EncodeChar_append_lt hgreater t s
    rw [h] at hbytes
    exact absurd hbytes (List.lt_irrefl _)

/-- A text that does not begin with a byte order mark is left as it is. -/
theorem dropMark_encode {cs : List Char} (h : ∀ c ∈ cs.head?, c ≠ '\uFEFF') : dropMark (encode cs) = encode cs := by
  unfold dropMark
  split
  · next rest heq =>
      cases cs with
      | nil => simp at heq
      | cons c cs =>
          have hmark : String.utf8EncodeChar c ++ encode cs = String.utf8EncodeChar '\uFEFF' ++ rest := heq
          exact absurd (eq_of_utf8EncodeChar_append hmark) (h c rfl)
  · rfl

/-! ### Fields -/

/-- A byte that is data wherever it stands. -/
structure Inert (b : UInt8) : Prop where
  noBar : b ≠ 124
  noQuote : b ≠ quote
  noLineEnd : isLineEnd b = false

theorem inert_of_mem_encode {field : List Char} (h : needsQuotes field = false) : ∀ b ∈ encode field, Inert b := by
  intro b hb
  rcases List.mem_flatMap.1 hb with ⟨c, hc, hmem⟩
  have hplain := List.any_eq_false.1 h c hc
  simp only [Bool.or_eq_true, beq_iff_eq, not_or] at hplain
  rcases hplain with ⟨⟨⟨hbar, hquote⟩, hfeed⟩, hreturn⟩
  refine ⟨ne_of_mem_utf8EncodeChar hmem hbar (by decide), ne_of_mem_utf8EncodeChar hmem hquote (by decide), ?_⟩
  have hnofeed : b ≠ 10 := ne_of_mem_utf8EncodeChar hmem hfeed (by decide)
  have hnoreturn : b ≠ 13 := ne_of_mem_utf8EncodeChar hmem hreturn (by decide)
  simp [isLineEnd, hnofeed, hnoreturn]

namespace Scanner

/-- The scanner after more text, with a bar as the delimiter. -/
def scan (s : Scanner) (cs : List Char) : Scanner := (encode cs).foldl (step 124) s

theorem scan_append (s : Scanner) (cs ds : List Char) : s.scan (cs ++ ds) = (s.scan cs).scan ds := by
  simp [scan]

/-- A scanner outside of quotes, with no closing quote just before. -/
def Outside (s : Scanner) : Prop := s.mode ≠ .quoted ∧ s.mode ≠ .quoteSeen

theorem step_inert {s : Scanner} {b : UInt8} (hs : s.Outside) (hb : Inert b) : step 124 s b = s.push .plain b := by
  rcases s with ⟨mode, field, fields, records⟩
  cases mode with
  | recordStart => simp [step, stepField, stepPlain, hb.noBar, hb.noQuote, hb.noLineEnd]
  | fieldStart => simp [step, stepField, stepPlain, hb.noBar, hb.noQuote, hb.noLineEnd]
  | plain => simp [step, stepPlain, hb.noBar, hb.noLineEnd]
  | quoted => exact absurd rfl hs.1
  | quoteSeen => exact absurd rfl hs.2

/-- Bytes of data go into the field. -/
theorem foldl_step_inert {s : Scanner} {bytes : List UInt8} (hs : s.Outside) (hbytes : ∀ b ∈ bytes, Inert b)
    (hne : bytes ≠ []) :
    bytes.foldl (step 124) s = { s with mode := .plain, field := bytes.reverse ++ s.field } := by
  induction bytes generalizing s with
  | nil => exact absurd rfl hne
  | cons b bytes ih =>
      rcases List.forall_mem_cons.1 hbytes with ⟨hb, hrest⟩
      rw [List.foldl_cons, step_inert hs hb]
      cases bytes with
      | nil => rfl
      | cons b' bytes =>
          rw [ih (s := s.push .plain b) (by simp [Outside, push]) hrest (List.cons_ne_nil _ _)]
          simp [push]

/-- Inside of quotes every byte but a quote goes into the field. -/
theorem foldl_step_quoted {s : Scanner} {bytes : List UInt8} (hs : s.mode = .quoted) (hbytes : ∀ b ∈ bytes, b ≠ quote) :
    bytes.foldl (step 124) s = { s with field := bytes.reverse ++ s.field } := by
  induction bytes generalizing s with
  | nil => rfl
  | cons b bytes ih =>
      rcases List.forall_mem_cons.1 hbytes with ⟨hb, hrest⟩
      have hstep : step 124 s b = s.push .quoted b := by simp [step, hs, hb]
      rw [List.foldl_cons, hstep, ih rfl hrest]
      simp [push, hs]

/-- Inside of quotes a character goes into the field; a quote is written twice for that. -/
theorem scan_doubled {s : Scanner} (hs : s.mode = .quoted) (c : Char) :
    s.scan (if c == '"' then ['"', '"'] else [c]) = { s with field := (String.utf8EncodeChar c).reverse ++ s.field } := by
  rcases s with ⟨mode, field, fields, records⟩
  obtain rfl : mode = .quoted := hs
  by_cases hc : c = '"'
  · obtain rfl := hc
    rfl
  · have hbytes : ∀ b ∈ encode [c], b ≠ quote := by
      intro b hb
      simp only [encode_cons, encode_nil, List.append_nil] at hb
      exact ne_of_mem_utf8EncodeChar hb hc (by decide)
    simp only [beq_iff_eq, hc, if_false, scan]
    rw [foldl_step_quoted rfl hbytes]
    simp

theorem scan_flatMap_doubled {s : Scanner} (hs : s.mode = .quoted) (cs : List Char) :
    s.scan (cs.flatMap fun c => if c == '"' then ['"', '"'] else [c]) =
      { s with field := (encode cs).reverse ++ s.field } := by
  induction cs generalizing s with
  | nil => rfl
  | cons c cs ih =>
      have hrest := ih (s := { s with field := (String.utf8EncodeChar c).reverse ++ s.field }) hs
      rw [List.flatMap_cons, scan_append, scan_doubled hs c, hrest]
      simp

/-- A scanner before a field. -/
structure Fresh (s : Scanner) : Prop where
  mode : s.mode = .recordStart ∨ s.mode = .fieldStart
  field : s.field = []

theorem Fresh.outside {s : Scanner} (h : s.Fresh) : s.Outside := by
  rcases h.mode with hmode | hmode
  · simp [Outside, hmode]
  · simp [Outside, hmode]

theorem scan_quoteField {s : Scanner} (hs : s.Fresh) (cs : List Char) :
    s.scan (quoteField cs) = { s with mode := .quoteSeen, field := (encode cs).reverse } := by
  have hopen : s.scan ['"'] = { s with mode := .quoted } := by
    change step 124 s quote = _
    rcases hs.mode with hmode | hmode
    · simp [step, stepField, hmode, isLineEnd, quote]
    · simp [step, stepField, hmode]
  rw [quoteField, List.cons_append, ← List.singleton_append, scan_append, hopen, scan_append, scan_flatMap_doubled rfl,
    hs.field, List.append_nil]
  rfl

/-- After a written field the scanner holds it, and it is not inside of quotes. It still waits for the record to begin
    only where nothing was written. -/
theorem scan_writeField {s : Scanner} (hs : s.Fresh) (field : List Char) :
    ∃ mode, s.scan (writeField field) = { s with mode, field := (encode field).reverse } ∧ mode ≠ .quoted ∧
      (mode = .recordStart → s.mode = .recordStart ∧ writeField field = []) := by
  rw [writeField]
  split
  · exact ⟨.quoteSeen, scan_quoteField hs field, by decide, by simp⟩
  · next hplain =>
      have hinert := inert_of_mem_encode (Bool.eq_false_iff.2 hplain)
      cases field with
      | nil =>
          refine ⟨s.mode, ?_, hs.outside.1, fun hmode => ⟨hmode, rfl⟩⟩
          rw [encode_nil, List.reverse_nil, ← hs.field]
          rfl
      | cons c cs =>
          have hne : encode (c :: cs) ≠ [] := by simp [String.utf8EncodeChar_ne_nil]
          refine ⟨.plain, ?_, by decide, by simp⟩
          rw [scan, foldl_step_inert hs.outside hinert hne, hs.field, List.append_nil]

/-! ### Records -/

theorem scan_bar {s : Scanner} (hs : s.mode ≠ .quoted) : s.scan [bar] = s.endField := by
  change step 124 s 124 = _
  rcases s with ⟨mode, field, fields, records⟩
  cases mode with
  | quoted => exact absurd rfl hs
  | recordStart => rfl
  | fieldStart => rfl
  | plain => rfl
  | quoteSeen => rfl

theorem scan_lineFeed {s : Scanner} (hs : s.mode ≠ .quoted) (hbegun : s.mode ≠ .recordStart) :
    s.scan ['\n'] = s.endRecord := by
  change step 124 s 10 = _
  rcases s with ⟨mode, field, fields, records⟩
  cases mode with
  | quoted => exact absurd rfl hs
  | recordStart => exact absurd rfl hbegun
  | fieldStart => rfl
  | plain => rfl
  | quoteSeen => rfl

/-- A written line is read as its fields. A line without any text would be skipped. -/
theorem scan_joinFields {s : Scanner} (hs : s.Fresh) {fields : List (List Char)} (hne : fields ≠ [])
    (htext : s.mode = .recordStart → joinFields (fields.map writeField) ≠ []) :
    s.scan (joinFields (fields.map writeField) ++ ['\n']) =
      ⟨.recordStart, [], [], (s.fields.reverse ++ fields.map encode) :: s.records⟩ := by
  induction fields generalizing s with
  | nil => exact absurd rfl hne
  | cons field rest ih =>
      rcases scan_writeField hs field with ⟨mode, hscan, hquoted, hbegun⟩
      cases rest with
      | nil =>
          have hrecord : mode ≠ .recordStart := by
            intro hmode
            rcases hbegun hmode with ⟨hstart, hempty⟩
            exact htext hstart hempty
          have hline : joinFields ([field].map writeField) = writeField field := rfl
          rw [hline, scan_append, hscan, scan_lineFeed hquoted hrecord]
          simp [endRecord]
      | cons next rest =>
          have hline : joinFields ((field :: next :: rest).map writeField) =
              writeField field ++ bar :: joinFields ((next :: rest).map writeField) := rfl
          rw [hline, List.append_assoc, scan_append, hscan, List.cons_append, ← List.singleton_append, scan_append,
            scan_bar hquoted]
          -- After a delimiter the record has begun, so the rest may be empty.
          rw [ih ⟨.inr rfl, rfl⟩ (List.cons_ne_nil next rest) (by simp [endField])]
          simp [endField]

/-- Only a lone field without text leaves a line empty. -/
theorem eq_of_joinFields_eq_nil {fields : List (List Char)} (hne : fields ≠ [])
    (h : joinFields (fields.map writeField) = []) : fields = [[]] := by
  rcases List.exists_cons_of_ne_nil hne with ⟨field, rest, rfl⟩
  cases rest with
  | nil =>
      have hfield : writeField field = [] := h
      rw [writeField] at hfield
      split at hfield
      · simp [quoteField] at hfield
      · rw [hfield]
  | cons next rest => simp [joinFields] at h

/-- A written record is read as its fields. -/
theorem scan_writeRecord (before : List (List (List UInt8))) {fields : List String} (hne : fields ≠ []) :
    scan ⟨.recordStart, [], [], before⟩ (writeRecord fields) =
      ⟨.recordStart, [], [], fields.map (fun field => encode field.toList) :: before⟩ := by
  have hfresh : Fresh ⟨.recordStart, [], [], before⟩ := ⟨.inl rfl, rfl⟩
  have hmap : (fields.map fun field => writeField field.toList) = (fields.map String.toList).map writeField := by
    simp
  rw [writeRecord, hmap]
  split
  · next hempty =>
      have hlone := eq_of_joinFields_eq_nil (by simpa using hne) hempty
      have hfields : fields.map (fun field => encode field.toList) = (fields.map String.toList).map encode := by
        simp
      rw [hfields, hlone]
      rfl
  · next line hline =>
      rw [scan_joinFields hfresh (by simpa using hne) (fun _ => hline)]
      simp

theorem scan_flatMap_writeRecord (before : List (List (List UInt8))) {table : List (List String)}
    (hne : ∀ record ∈ table, record ≠ []) :
    scan ⟨.recordStart, [], [], before⟩ (table.flatMap writeRecord) =
      ⟨.recordStart, [], [], (table.map (List.map fun field => encode field.toList)).reverse ++ before⟩ := by
  induction table generalizing before with
  | nil => rfl
  | cons record table ih =>
      rcases List.forall_mem_cons.1 hne with ⟨hrecord, hrest⟩
      rw [List.flatMap_cons, scan_append, scan_writeRecord before hrecord, ih _ hrest]
      simp

end Scanner

theorem head?_writeField {field : List Char} : ∀ c ∈ (writeField field).head?, c = '"' ∨ c ∈ field.head? := by
  intro c hc
  rw [writeField] at hc
  split at hc
  · exact .inl (Option.some.inj hc).symm
  · exact .inr hc

/-- What a line begins with belongs to the format or begins the first field. -/
theorem head?_writeRecord {first : String} {rest : List String} :
    ∀ c ∈ (writeRecord (first :: rest)).head?, c = '"' ∨ c = bar ∨ c ∈ first.toList.head? := by
  intro c hc
  rw [writeRecord] at hc
  split at hc
  · exact .inl (Option.some.inj hc).symm
  · next line hline =>
      have hfield : ∀ c ∈ (writeField first.toList).head?, c = '"' ∨ c = bar ∨ c ∈ first.toList.head? :=
        fun c hc => (head?_writeField c hc).imp_right .inr
      rw [List.head?_append_of_ne_nil _ hline] at hc
      cases rest with
      | nil => exact hfield c hc
      | cons next rest =>
          simp only [List.map_cons, joinFields, List.head?_append, Option.mem_def, Option.or_eq_some_iff] at hc
          rcases hc with hc | ⟨-, hbar⟩
          · exact hfield c hc
          · exact .inr (.inl (Option.some.inj hbar).symm)

/-- The records that were written are read, with the bytes of their fields. -/
theorem records_encode {table : List (List String)} (hne : ∀ record ∈ table, record ≠ [])
    (hmark : ∀ record ∈ table.head?, ∀ field ∈ record.head?, ∀ c ∈ field.toList.head?, c ≠ '\uFEFF') :
    records 124 (encode (table.flatMap writeRecord)) = table.map (List.map fun field => encode field.toList) := by
  have hhead : ∀ c ∈ (table.flatMap writeRecord).head?, c ≠ '\uFEFF' := by
    cases table with
    | nil => simp
    | cons record table =>
        rcases List.exists_cons_of_ne_nil (hne record List.mem_cons_self) with ⟨first, rest, rfl⟩
        have hwritten : writeRecord (first :: rest) ≠ [] := by
          rw [writeRecord]
          split
          · simp
          · simp
        intro c hc
        rw [List.flatMap_cons, List.head?_append_of_ne_nil _ hwritten] at hc
        rcases head?_writeRecord c hc with rfl | rfl | hfirst
        · decide
        · decide
        · exact hmark _ rfl _ rfl c hfirst
  have hscan : (encode (table.flatMap writeRecord)).foldl (Scanner.step 124) Scanner.start = _ :=
    Scanner.scan_flatMap_writeRecord [] hne
  rw [records, dropMark_encode hhead, hscan]
  simp [Scanner.finish]

end FlightFit.Delimited
