import FlightFit.Proofs.DoubleBits
import FlightFit.Proofs.ShortestDigits

/-!
Module: FlightFit.Proofs.JsonText
Purpose: JSON text that is written and read again. Every value has a tree, the one that a reader makes of
  its text: strings come back as they were, integers and finite doubles as numerals that denote them, and a
  double that is not finite as null. The text of a value is read as its tree, in either style and with
  nothing left over.
Main exports: Json.readText_writeText, Json.Value.tree, Json.readValue_writeValue, Json.ofText_render,
  Json.valueOfText_render
-/

namespace FlightFit.Json

/-! ### Strings -/

theorem hexValue_hexDigit : ∀ d < 16, hexValue? (hexDigit d) = some d := by
  decide

/-- A control character is read back from its four digits. -/
theorem readString_control (s : Scan) {c : Char} (h : c.toNat < 0x20) (tail : List Char) :
    readString s ('\\' :: 'u' :: '0' :: '0' :: hexDigit (c.toNat / 16) :: hexDigit (c.toNat % 16) :: tail) =
      readString (s.add c) tail := by
  have hunit : unit? '0' '0' (hexDigit (c.toNat / 16)) (hexDigit (c.toNat % 16)) = some c.toNat := by
    have hzero : hexValue? '0' = some 0 := by decide
    simp only [unit?, hzero, hexValue_hexDigit _ (by omega : c.toNat / 16 < 16),
      hexValue_hexDigit _ (by omega : c.toNat % 16 < 16), Option.bind_eq_bind, Option.bind_some]
    congr 1
    omega
  have hhigh : isHigh c.toNat = false := by
    simp only [isHigh, Bool.and_eq_false_iff, decide_eq_false_iff_not]
    omega
  have hlow : isLow c.toNat = false := by
    simp only [isLow, Bool.and_eq_false_iff, decide_eq_false_iff_not]
    omega
  rw [readString, hunit]
  simp only [Scan.addUnit, hhigh, hlow, Bool.false_eq_true, if_false, Char.ofNat_toNat]

theorem readString_writeChar (s : Scan) (c : Char) (tail : List Char) :
    readString s (writeChar c tail) = readString (s.add c) tail := by
  unfold writeChar
  split
  case h_8 hquote hslash _ _ _ _ _ =>
    split
    · next hcontrol => exact readString_control s hcontrol tail
    · next hplain =>
        rw [readString]
        · rw [if_neg hplain]
        · exact hquote
        · intro _ _ _ _ _ h
          exact absurd h hslash
        · intro _ _ h
          exact absurd h hslash
  all_goals
    rw [readString]
    · rfl
    · simp

/-- Written characters are read one by one. -/
theorem readString_writeChars (chars cs tail : List Char) :
    readString ⟨chars, true, none⟩ (cs.foldr writeChar ('"' :: tail)) =
      some (some (String.ofList (chars.reverse ++ cs)), tail) := by
  induction cs generalizing chars with
  | nil => simp [readString, Scan.text]
  | cons c cs ih =>
      have hadd : Scan.add ⟨chars, true, none⟩ c = ⟨c :: chars, true, none⟩ := rfl
      rw [List.foldr_cons, readString_writeChar, hadd, ih, List.reverse_cons, List.append_assoc]
      rfl

/-- A written string is read back, after its opening quote. -/
theorem readText_writeText (s : String) (tail : List Char) :
    readText (s.toList.foldr writeChar ('"' :: tail)) = some (some s, tail) := by
  rw [readText, readString_writeChars]
  simp

/-! ### Trees -/

/-- The numeral that the written form of a finite double is read as. -/
def numeralOf (negative : Bool) (code : Nat) : Numeral :=
  match readNumeral (Layout.json.finiteText negative code) with
  | some (numeral, _) => numeral
  | none => ⟨negative, 0, 0, false⟩

/-- What a reader makes of a written number. -/
def Number.tree : Number → Json
  | .whole k => .number ⟨k < 0, k.natAbs, 0, true⟩
  | .real x => match Binary.ofFloat x with
    | .finite negative code => .number (numeralOf negative code)
    | _ => .null

mutual

/-- What a reader makes of a written value. -/
def Value.tree : Value → Json
  | .null => .null
  | .bool b => .bool b
  | .number n => n.tree
  | .string s => .string (some s)
  | .array items => .array (Value.treeItems items) true
  | .object members => .object (Value.treeMembers members) true

/-- What a reader makes of written items. -/
def Value.treeItems : List Value → List Json
  | [] => []
  | item :: rest => item.tree :: Value.treeItems rest

/-- What a reader makes of written members. -/
def Value.treeMembers : List (String × Value) → List (Option String × Json)
  | [] => []
  | (key, item) :: rest => (some key, item.tree) :: Value.treeMembers rest

end

theorem numeralOf_spec (negative : Bool) {code : Nat} (hfinite : code < BinaryFormat.double.infinity) :
    ∃ d e, numeralOf negative code = ⟨negative, d, e, false⟩ ∧ Decimal.code d e = code ∧
      ∀ tail, endsNumeral tail = true →
        readNumeral (Layout.json.finiteText negative code ++ tail) = some (numeralOf negative code, tail) := by
  obtain ⟨d, e, hcode, hread⟩ := readNumeral_finiteText negative hfinite
  have hnumeral : numeralOf negative code = ⟨negative, d, e, false⟩ := by
    have hnil := hread [] rfl
    rw [List.append_nil] at hnil
    rw [numeralOf, hnil]
  refine ⟨d, e, hnumeral, hcode, ?_⟩
  rw [hnumeral]
  exact hread

/-! ### Blanks -/

theorem skipBlanks_replicate (n : Nat) (cs : List Char) :
    skipBlanks (List.replicate n ' ' ++ cs) = skipBlanks cs := by
  induction n with
  | zero => rfl
  | succ n ih => exact ih

theorem skipBlanks_line (style : Style) (level : Nat) (cs : List Char) :
    skipBlanks (style.line level cs) = skipBlanks cs := by
  cases style with
  | pretty => exact skipBlanks_replicate _ cs
  | compact => rfl

theorem skipBlanks_skipBlanks (cs : List Char) : skipBlanks (skipBlanks cs) = skipBlanks cs := by
  induction cs with
  | nil => rfl
  | cons c cs ih =>
      by_cases h : (c == ' ' || c == '\n' || c == '\t' || c == '\r') = true
      · rw [skipBlanks, if_pos h]
        exact ih
      · rw [skipBlanks, if_neg h, skipBlanks, if_neg h]

section Readers

variable (fuel : Nat) {cs ds : List Char} (h : skipBlanks cs = skipBlanks ds)
include h

theorem readValue_congr : readValue fuel cs = readValue fuel ds := by
  cases fuel with
  | zero => rfl
  | succ fuel => rw [readValue, readValue, h]

theorem readItems_congr (items : List Json) : readItems fuel items cs = readItems fuel items ds := by
  cases fuel with
  | zero => rfl
  | succ fuel => rw [readItems, readItems, readValue_congr fuel h]

theorem readMembers_congr (members : List (Option String × Json)) :
    readMembers fuel members cs = readMembers fuel members ds := by
  cases fuel with
  | zero => rfl
  | succ fuel => rw [readMembers, readMembers, h]

end Readers

/-- A colon is found before a value, and what blank follows it does not matter. -/
theorem skipBlanks_colon (style : Style) (cs : List Char) :
    ∃ rest, skipBlanks (style.colon cs) = ':' :: rest ∧ skipBlanks rest = skipBlanks cs := by
  cases style with
  | pretty => exact ⟨' ' :: cs, rfl, rfl⟩
  | compact => exact ⟨cs, rfl, rfl⟩

/-! ### Lengths -/

theorem length_le_line (style : Style) (level : Nat) (cs : List Char) :
    cs.length ≤ (style.line level cs).length := by
  cases style with
  | pretty =>
      simp only [Style.line, List.length_cons, List.length_append]
      omega
  | compact => exact Nat.le_refl _

theorem length_le_colon (style : Style) (cs : List Char) : cs.length ≤ (style.colon cs).length := by
  cases style with
  | pretty =>
      simp only [Style.colon, List.length_cons]
      omega
  | compact =>
      simp only [Style.colon, List.length_cons]
      omega

theorem length_le_writeChar (c : Char) (tail : List Char) : tail.length ≤ (writeChar c tail).length := by
  unfold writeChar
  split
  case h_8 =>
    split
    · simp only [List.length_cons]
      omega
    · exact Nat.le_succ _
  all_goals
    simp only [List.length_cons]
    omega

theorem length_le_writeText (s : String) (tail : List Char) : tail.length ≤ (writeText s tail).length := by
  have hchars : ∀ cs : List Char, tail.length ≤ (cs.foldr writeChar ('"' :: tail)).length := by
    intro cs
    induction cs with
    | nil => exact Nat.le_succ _
    | cons c cs ih => exact Nat.le_trans ih (length_le_writeChar c _)
  exact Nat.le_trans (hchars s.toList) (Nat.le_succ _)

theorem length_le_writeNumber (n : Number) (tail : List Char) : tail.length ≤ (writeNumber n tail).length := by
  unfold writeNumber
  split
  · simp
  · split
    · simp
    · simp only [List.length_cons]
      omega

theorem length_le_member (style : Style) (level : Nat) (key : String) (cs : List Char) :
    cs.length ≤ (style.line level (writeText key (style.colon cs))).length :=
  Nat.le_trans (length_le_colon style cs)
    (Nat.le_trans (length_le_writeText key _) (length_le_line style level _))

mutual

theorem length_le_writeValue (style : Style) (level : Nat) (v : Value) (tail : List Char) :
    tail.length ≤ (writeValue style level v tail).length := by
  match v with
  | .null | .bool true | .bool false | .array [] | .object [] =>
      simp only [writeValue, List.length_cons]
      omega
  | .number n =>
      rw [writeValue]
      exact length_le_writeNumber n tail
  | .string s =>
      rw [writeValue]
      exact length_le_writeText s tail
  | .array (item :: items) =>
      rw [writeValue]
      have hitems := length_le_writeItems style level items tail
      have hitem := length_le_writeValue style (level + 1) item (writeItems style level items tail)
      exact Nat.le_succ_of_le (Nat.le_trans hitems (Nat.le_trans hitem (length_le_line style _ _)))
  | .object ((key, item) :: members) =>
      rw [writeValue]
      have hmembers := length_le_writeMembers style level members tail
      have hitem := length_le_writeValue style (level + 1) item (writeMembers style level members tail)
      exact Nat.le_succ_of_le (Nat.le_trans hmembers (Nat.le_trans hitem (length_le_member style _ key _)))

theorem length_le_writeItems (style : Style) (level : Nat) (items : List Value) (tail : List Char) :
    tail.length ≤ (writeItems style level items tail).length := by
  match items with
  | [] =>
      rw [writeItems]
      exact Nat.le_of_succ_le (length_le_line style level (']' :: tail))
  | item :: rest =>
      rw [writeItems]
      have hrest := length_le_writeItems style level rest tail
      have hitem := length_le_writeValue style (level + 1) item (writeItems style level rest tail)
      exact Nat.le_succ_of_le (Nat.le_trans hrest (Nat.le_trans hitem (length_le_line style _ _)))

theorem length_le_writeMembers (style : Style) (level : Nat) (members : List (String × Value))
    (tail : List Char) : tail.length ≤ (writeMembers style level members tail).length := by
  match members with
  | [] =>
      rw [writeMembers]
      exact Nat.le_of_succ_le (length_le_line style level ('\x7d' :: tail))
  | (key, item) :: rest =>
      rw [writeMembers]
      have hrest := length_le_writeMembers style level rest tail
      have hitem := length_le_writeValue style (level + 1) item (writeMembers style level rest tail)
      exact Nat.le_succ_of_le (Nat.le_trans hrest (Nat.le_trans hitem (length_le_member style _ key _)))

end

/-! ### Scalars -/

/-- How a numeral can start. -/
def opensNumeral (c : Char) : Bool := c == '-' || isDigit c

theorem ne_of_opensNumeral {c d : Char} (hc : opensNumeral c = true) (hd : opensNumeral d = false) : c ≠ d := by
  rintro rfl
  rw [hc] at hd
  exact Bool.noConfusion hd

theorem opensNumeral_of_readNumeral {cs : List Char} {found : Numeral × List Char}
    (h : readNumeral cs = some found) : ∃ c rest, cs = c :: rest ∧ opensNumeral c = true := by
  have hdigit : ∀ {negative : Bool} {cs : List Char}, readUnsignedNumeral negative cs = some found →
      ∃ c rest, cs = c :: rest ∧ opensNumeral c = true := by
    intro negative cs hread
    obtain ⟨⟨whole, rest⟩, hwhole, -⟩ := Option.bind_eq_some_iff.1 hread
    obtain ⟨c, more, rfl, hc⟩ := exists_digit_of_readWhole hwhole
    exact ⟨c, more, rfl, by simp [opensNumeral, hc]⟩
  unfold readNumeral at h
  split at h
  · next rest => exact ⟨'-', rest, rfl, rfl⟩
  · exact hdigit h

theorem skipBlanks_of_opensNumeral {c : Char} (hc : opensNumeral c = true) (rest : List Char) :
    skipBlanks (c :: rest) = c :: rest := by
  have hblank : (c == ' ' || c == '\n' || c == '\t' || c == '\r') = false := by
    simp [ne_of_opensNumeral hc (by decide : opensNumeral ' ' = false),
      ne_of_opensNumeral hc (by decide : opensNumeral '\n' = false),
      ne_of_opensNumeral hc (by decide : opensNumeral '\t' = false),
      ne_of_opensNumeral hc (by decide : opensNumeral '\r' = false)]
  rw [skipBlanks, hblank, if_neg Bool.false_ne_true]

theorem readScalar_of_readNumeral {cs rest : List Char} {numeral : Numeral}
    (h : readNumeral cs = some (numeral, rest)) : readScalar cs = some (.number numeral, rest) := by
  obtain ⟨c, more, rfl, hc⟩ := opensNumeral_of_readNumeral h
  unfold readScalar
  split
  · next heq => exact absurd (List.cons.inj heq).1 (ne_of_opensNumeral hc (by decide))
  · next heq => exact absurd (List.cons.inj heq).1 (ne_of_opensNumeral hc (by decide))
  · next heq => exact absurd (List.cons.inj heq).1 (ne_of_opensNumeral hc (by decide))
  · rw [h]
    rfl

theorem readValue_of_readNumeral (fuel : Nat) {cs rest : List Char} {numeral : Numeral}
    (h : readNumeral cs = some (numeral, rest)) : readValue (fuel + 1) cs = (.number numeral, some rest) := by
  have hscalar := readScalar_of_readNumeral h
  obtain ⟨c, more, rfl, hc⟩ := opensNumeral_of_readNumeral h
  rw [readValue, skipBlanks_of_opensNumeral hc]
  split
  · next heq => exact absurd (List.cons.inj heq).1 (ne_of_opensNumeral hc (by decide))
  · next heq => exact absurd (List.cons.inj heq).1 (ne_of_opensNumeral hc (by decide))
  · next heq => exact absurd (List.cons.inj heq).1 (ne_of_opensNumeral hc (by decide))
  · rw [hscalar]

theorem readValue_null (fuel : Nat) (tail : List Char) :
    readValue (fuel + 1) ('n' :: 'u' :: 'l' :: 'l' :: tail) = (.null, some tail) := by
  rw [readValue]
  rfl

/-- A written number is read as its tree. -/
theorem readValue_writeNumber (fuel : Nat) (n : Number) {tail : List Char} (htail : endsNumeral tail = true) :
    readValue (fuel + 1) (writeNumber n tail) = (n.tree, some tail) := by
  cases n with
  | whole k => exact readValue_of_readNumeral fuel (readNumeral_signedText k htail)
  | real x =>
      by_cases hx : x.isFinite = true
      · obtain ⟨negative, code, hcode, hfinite, -⟩ := Binary.ofFloat_of_isFinite hx
        obtain ⟨d, e, -, -, hread⟩ := numeralOf_spec negative hfinite
        simp only [writeNumber, Number.tree, hcode]
        exact readValue_of_readNumeral fuel (hread tail htail)
      · have hcode := Binary.ofFloat_of_not_isFinite (Bool.eq_false_iff.2 hx)
        simp only [writeNumber, Number.tree]
        exact readValue_null fuel tail

/-! ### Values -/

theorem endsNumeral_writeItems (style : Style) (level : Nat) (items : List Value) (tail : List Char) :
    endsNumeral (writeItems style level items tail) = true := by
  cases items with
  | nil => cases style <;> rfl
  | cons item rest => rfl

theorem endsNumeral_writeMembers (style : Style) (level : Nat) (members : List (String × Value))
    (tail : List Char) : endsNumeral (writeMembers style level members tail) = true := by
  cases members with
  | nil => cases style <;> rfl
  | cons member rest => rfl

theorem readValue_close (fuel : Nat) {cs rest : List Char} (h : skipBlanks cs = ']' :: rest) :
    readValue fuel cs = (.broken, none) := by
  cases fuel with
  | zero => rfl
  | succ fuel =>
      rw [readValue, h]
      rfl

theorem readItems_last {fuel : Nat} {before : List Json} {item : Json} {cs after tail : List Char}
    (hitem : readValue fuel cs = (item, some after)) (hafter : skipBlanks after = ']' :: tail) :
    readItems (fuel + 1) before cs = ((item :: before).reverse, some tail) := by
  rw [readItems, hitem]
  simp only [hafter]

theorem readItems_more {fuel : Nat} {before : List Json} {item : Json} {cs rest : List Char}
    (hitem : readValue fuel cs = (item, some (',' :: rest))) :
    readItems (fuel + 1) before cs = readItems fuel (item :: before) rest := by
  rw [readItems, hitem]
  rfl

theorem readValue_array {fuel : Nat} {cs : List Char} {items : List Json} {tail : List Char}
    (hopen : ∀ rest, skipBlanks cs ≠ ']' :: rest) (hitems : readItems fuel [] cs = (items, some tail)) :
    readValue (fuel + 1) ('[' :: cs) = (.array items true, some tail) := by
  have hskip := readItems_congr fuel (skipBlanks_skipBlanks cs) []
  rw [hitems] at hskip
  rw [readValue, skipBlanks, if_neg (by decide)]
  simp only [hskip]
  rfl

section Members

variable {fuel : Nat} {before : List (Option String × Json)} {key : String} {item : Json}
  {cs after tail : List Char} (style : Style) (hitem : readValue fuel cs = (item, some after))
include hitem

theorem readMembers_last (hafter : skipBlanks after = '\x7d' :: tail) :
    readMembers (fuel + 1) before (writeText key (style.colon cs)) =
      (((some key, item) :: before).reverse, some tail) := by
  obtain ⟨rest, hcolon, hrest⟩ := skipBlanks_colon style cs
  rw [readMembers, writeText, skipBlanks, if_neg (by decide)]
  simp only [readText_writeText, hcolon]
  rw [readValue_congr fuel hrest, hitem]
  simp only [hafter]

theorem readMembers_more (hafter : after = ',' :: tail) :
    readMembers (fuel + 1) before (writeText key (style.colon cs)) =
      readMembers fuel ((some key, item) :: before) tail := by
  obtain ⟨rest, hcolon, hrest⟩ := skipBlanks_colon style cs
  rw [readMembers, writeText, skipBlanks, if_neg (by decide)]
  simp only [readText_writeText, hcolon]
  rw [readValue_congr fuel hrest, hitem, hafter]
  rfl

end Members

theorem readValue_object {fuel : Nat} {cs rest : List Char} {members : List (Option String × Json)}
    {tail : List Char} (hopen : skipBlanks cs = '"' :: rest)
    (hmembers : readMembers fuel [] cs = (members, some tail)) :
    readValue (fuel + 1) ('\x7b' :: cs) = (.object members true, some tail) := by
  have hskip := readMembers_congr fuel (skipBlanks_skipBlanks cs) []
  rw [hmembers, hopen] at hskip
  rw [readValue, skipBlanks, if_neg (by decide)]
  simp only [hopen]
  split
  · next heq => simp at heq
  · rw [hskip]
    rfl

mutual

/-- The text of a value is read as its tree, up to the text that follows. -/
theorem readValue_writeValue (style : Style) (level fuel : Nat) (v : Value) (tail : List Char)
    (htail : endsNumeral tail = true) (hfuel : 2 * (writeValue style level v tail).length < fuel) :
    readValue fuel (writeValue style level v tail) = (v.tree, some tail) := by
  obtain ⟨fuel, rfl⟩ := Nat.exists_eq_add_one.2 (Nat.zero_lt_of_lt hfuel)
  match v with
  | .null => exact readValue_null fuel tail
  | .bool true | .bool false =>
      rw [writeValue, readValue]
      rfl
  | .number n =>
      rw [writeValue]
      exact readValue_writeNumber fuel n htail
  | .string s =>
      rw [writeValue, writeText, readValue, skipBlanks, if_neg (by decide)]
      simp only [readText_writeText]
      rfl
  | .array [] | .object [] =>
      rw [writeValue, readValue]
      rfl
  | .array (item :: items) =>
      have hlength := length_le_line style (level + 1) (writeValue style (level + 1) item
        (writeItems style level items tail))
      rw [writeValue] at hfuel ⊢
      rw [List.length_cons] at hfuel
      have hitem := readValue_writeValue style (level + 1) fuel item (writeItems style level items tail)
        (endsNumeral_writeItems style level items tail) (by omega)
      have hitems := readItems_writeItems style level fuel [] item items tail (by omega)
      rw [Value.tree]
      apply readValue_array
      · -- Had the array been closed at once, no item could have been read.
        intro rest hclose
        rw [skipBlanks_line] at hclose
        rw [readValue_close fuel hclose] at hitem
        simp at hitem
      · rw [readItems_congr fuel (skipBlanks_line style (level + 1) _), hitems]
        rfl
  | .object ((key, item) :: members) =>
      have hlength := length_le_line style (level + 1) (writeText key (style.colon
        (writeValue style (level + 1) item (writeMembers style level members tail))))
      rw [writeValue] at hfuel ⊢
      rw [List.length_cons] at hfuel
      have hmembers := readMembers_writeMembers style level fuel [] key item members tail (by omega)
      rw [Value.tree]
      apply readValue_object
      · rw [skipBlanks_line, writeText, skipBlanks, if_neg (by decide)]
      · rw [readMembers_congr fuel (skipBlanks_line style (level + 1) _), hmembers]
        rfl

/-- The items of an array are read as their trees, after those before them. -/
theorem readItems_writeItems (style : Style) (level fuel : Nat) (before : List Json) (item : Value)
    (items : List Value) (tail : List Char)
    (hfuel : 2 * (writeValue style (level + 1) item (writeItems style level items tail)).length + 1 < fuel) :
    readItems fuel before (writeValue style (level + 1) item (writeItems style level items tail)) =
      (before.reverse ++ item.tree :: Value.treeItems items, some tail) := by
  obtain ⟨fuel, rfl⟩ := Nat.exists_eq_add_one.2 (Nat.zero_lt_of_lt hfuel)
  have hitem := readValue_writeValue style (level + 1) fuel item (writeItems style level items tail)
    (endsNumeral_writeItems style level items tail) (by omega)
  have hlength := length_le_writeValue style (level + 1) item (writeItems style level items tail)
  match items with
  | [] =>
      have hclose : skipBlanks (writeItems style level [] tail) = ']' :: tail := by
        rw [writeItems, skipBlanks_line]
        rfl
      rw [readItems_last hitem hclose, List.reverse_cons]
      rfl
  | next :: rest =>
      -- The comma pays for the fuel that the step takes.
      have hnext : (writeValue style (level + 1) next (writeItems style level rest tail)).length <
          (writeItems style level (next :: rest) tail).length := by
        rw [writeItems, List.length_cons]
        exact Nat.lt_succ_of_le (length_le_line style (level + 1) _)
      have hrest := readItems_writeItems style level fuel (item.tree :: before) next rest tail (by omega)
      rw [readItems_more hitem, readItems_congr fuel (skipBlanks_line style (level + 1) _), hrest,
        List.reverse_cons, List.append_assoc]
      rfl

/-- The members of an object are read as their trees, after those before them. -/
theorem readMembers_writeMembers (style : Style) (level fuel : Nat) (before : List (Option String × Json))
    (key : String) (item : Value) (members : List (String × Value)) (tail : List Char)
    (hfuel : 2 * (writeText key (style.colon (writeValue style (level + 1) item
      (writeMembers style level members tail)))).length + 1 < fuel) :
    readMembers fuel before (writeText key (style.colon (writeValue style (level + 1) item
      (writeMembers style level members tail)))) =
      (before.reverse ++ (some key, item.tree) :: Value.treeMembers members, some tail) := by
  obtain ⟨fuel, rfl⟩ := Nat.exists_eq_add_one.2 (Nat.zero_lt_of_lt hfuel)
  have hvalue := Nat.le_trans (length_le_colon style _) (length_le_writeText key (style.colon
    (writeValue style (level + 1) item (writeMembers style level members tail))))
  have hitem := readValue_writeValue style (level + 1) fuel item (writeMembers style level members tail)
    (endsNumeral_writeMembers style level members tail) (by omega)
  have hlength := length_le_writeValue style (level + 1) item (writeMembers style level members tail)
  match members with
  | [] =>
      have hclose : skipBlanks (writeMembers style level [] tail) = '\x7d' :: tail := by
        rw [writeMembers, skipBlanks_line]
        rfl
      rw [readMembers_last style hitem hclose, List.reverse_cons]
      rfl
  | (nextKey, next) :: rest =>
      have hnext : (writeText nextKey (style.colon (writeValue style (level + 1) next
          (writeMembers style level rest tail)))).length <
          (writeMembers style level ((nextKey, next) :: rest) tail).length := by
        rw [writeMembers, List.length_cons]
        exact Nat.lt_succ_of_le (length_le_line style (level + 1) _)
      have hrest := readMembers_writeMembers style level fuel ((some key, item.tree) :: before) nextKey next
        rest tail (by omega)
      rw [readMembers_more style hitem rfl, readMembers_congr fuel (skipBlanks_line style (level + 1) _), hrest,
        List.reverse_cons, List.append_assoc]
      rfl

end

/-- The text of a value is read as its tree, and nothing is left over. -/
theorem ofText_render (style : Style) (v : Value) : Document.ofText (v.render style) = ⟨v.tree, true⟩ := by
  have hread := readValue_writeValue style 0 (2 * (writeValue style 0 v []).length + 2) v [] rfl (by omega)
  simp only [Document.ofText, Value.render, String.toList_ofList, hread]
  rfl

/-- The text of a value within the bounds of JSON has the value that its tree has. -/
theorem valueOfText_render (style : Style) {v w : Value} (h : v.tree.strict 0 = .ok w) :
    Value.ofText (v.render style) = .ok w := by
  rw [Value.ofText, ofText_render]
  simp only [h]
  rfl

end FlightFit.Json
