import FlightFit.Json.Printer
import FlightFit.Json.Reader
import FlightFit.Proofs.NearestDouble

/-!
Module: FlightFit.Proofs.ShortestDigits
Purpose: Numbers that are written and read again. The digits that are chosen for a double denote that
  double; a text of digits is read as the number that it spells; and so the written form of a finite double,
  whatever its layout, is read as a numeral that denotes it.
Main exports: code_shortest, Spells, spells_digitList, Spells.exists_point, Json.endsNumeral, Json.readNumeral_finiteText,
  Json.readNumeral_signedText
-/

namespace FlightFit

/-! ### The chosen digits -/

/-- Of two candidates, only one that reads back is picked. -/
theorem code_of_candidates {near far code digits : Nat} {exponent : Int}
    (h : (if Decimal.code near exponent == code then some near
      else if Decimal.code far exponent == code then some far else none) = some digits) :
    Decimal.code digits exponent = code := by
  split at h
  · next hnear =>
      obtain rfl := Option.some.inj h
      exact eq_of_beq hnear
  · split at h
    · next hfar =>
        obtain rfl := Option.some.inj h
        exact eq_of_beq hfar
    · simp at h

theorem code_of_pickNeighbour {tie : Tie} {code num den digits : Nat} {exponent : Int}
    (h : pickNeighbour tie code exponent num den = some digits) : Decimal.code digits exponent = code := by
  unfold pickNeighbour at h
  extract_lets low rest raised near far offset at h
  split at h
  · simp at h
  · exact code_of_candidates h

theorem code_of_onGrid {tie : Tie} {code num den count : Nat} {top : Int} {found : Nat × Int}
    (h : onGrid tie code num den top count = some found) : Decimal.code found.1 found.2 = code := by
  obtain ⟨digits, hdigits, rfl⟩ := Option.map_eq_some_iff.1 h
  exact code_of_pickNeighbour hdigits

theorem code_dropZeros (fuel digits : Nat) (exponent : Int) :
    Decimal.code (dropZeros fuel digits exponent).1 (dropZeros fuel digits exponent).2 =
      Decimal.code digits exponent := by
  induction fuel generalizing digits exponent with
  | zero => rfl
  | succ fuel ih =>
      unfold dropZeros
      split
      · next hzero =>
          have hdigits : digits = digits / 10 * 10 ^ 1 := by omega
          rw [ih, hdigits, Decimal.code_mul_pow, ← hdigits]
          rfl
      · rfl

theorem code_trimmed (found : Nat × Int) :
    Decimal.code (trimmed found).1 (trimmed found).2 = Decimal.code found.1 found.2 :=
  code_dropZeros _ _ _

theorem code_shorten {tie : Tie} {code num den : Nat} {top : Int} (fuel : Nat) {found : Nat × Int}
    (h : Decimal.code found.1 found.2 = code) :
    Decimal.code (shorten tie code num den top fuel found).1 (shorten tie code num den top fuel found).2 =
      code := by
  induction fuel generalizing found with
  | zero => exact h
  | succ fuel ih =>
      simp only [shorten]
      split
      · exact h
      · split
        · next shorter hshorter =>
            apply ih
            rw [code_trimmed]
            exact code_of_onGrid hshorter
        · exact h

open BinaryFormat in
theorem code_exactDigits {code : Nat} (hcode : code ≠ 0) (hfinite : code < double.infinity) :
    Decimal.code (exactDigits (double.fraction code).1 (double.fraction code).2).1
      (exactDigits (double.fraction code).1 (double.fraction code).2).2 = code := by
  have hexact := nearest_fraction (f := double) (Nat.le_of_lt hfinite)
  rw [fraction_eq] at hexact ⊢
  simp only [exactDigits, Nat.log2_two_pow] at hexact ⊢
  generalize double.significand code * 2 ^ (double.exponent code).toNat = num at hexact ⊢
  generalize (-double.exponent code).toNat = places at hexact ⊢
  have hnum : num ≠ 0 := by
    intro hzero
    rw [hzero] at hexact
    exact hcode hexact.symm
  have hdigits : num * Nat.pow 5 places ≠ 0 := Nat.mul_ne_zero hnum (Nat.pos_iff_ne_zero.1 (Nat.pow_pos (by decide)))
  have hzeros : (-(places : Int)).toNat = 0 := by omega
  have hplaces : (-(-(places : Int))).toNat = places := by omega
  rw [Decimal.code_eq_nearest hdigits, hzeros, hplaces, ← hexact]
  refine (nearest_congr (Decimal.ten_pow_ne_zero _) (Nat.pos_iff_ne_zero.1 (Nat.two_pow_pos _)) ?_)
  rw [Nat.pow_zero, Nat.mul_one, Nat.mul_assoc]
  exact congrArg (num * ·) (Nat.mul_pow 5 2 places).symm

theorem code_getD {code : Nat} {grid : Option (Nat × Int)} {all : Nat × Int}
    (hgrid : ∀ found, grid = some found → Decimal.code found.1 found.2 = code)
    (hall : Decimal.code all.1 all.2 = code) :
    Decimal.code (grid.getD all).1 (grid.getD all).2 = code := by
  cases grid with
  | some found => exact hgrid found rfl
  | none => exact hall

/-- The digits that are chosen for a finite double denote it. -/
theorem code_shortest (tie : Tie) {code : Nat} (hfinite : code < BinaryFormat.double.infinity) :
    Decimal.code (shortest tie code).1 (shortest tie code).2 = code := by
  unfold shortest
  split
  · next hzero =>
      rw [hzero]
      rfl
  · next hcode =>
      apply code_shorten
      rw [code_trimmed]
      exact code_getD (fun found => code_of_onGrid) (code_exactDigits hcode hfinite)

/-! ### Digits as text -/

/-- The number that digits stand for when they follow those of `value`. -/
def digitsValue (value : Nat) (digits : List Char) : Nat :=
  digits.foldl (fun value c => value * 10 + digitValue c) value

theorem digitsValue_append (value : Nat) (digits more : List Char) :
    digitsValue value (digits ++ more) = digitsValue (digitsValue value digits) more :=
  List.foldl_append

theorem digitsValue_zeros (zeros : Nat) : digitsValue 0 (List.replicate zeros '0') = 0 := by
  induction zeros with
  | zero => rfl
  | succ zeros ih => exact ih

/-- Digits at the front of a text are taken in. -/
theorem digitRun_append (value count : Nat) {digits : List Char} (h : ∀ c ∈ digits, isDigit c = true)
    (rest : List Char) :
    digitRun value count (digits ++ rest) = digitRun (digitsValue value digits) (count + digits.length) rest := by
  induction digits generalizing value count with
  | nil => rfl
  | cons c digits ih =>
      obtain ⟨hc, hdigits⟩ := List.forall_mem_cons.1 h
      rw [List.cons_append, digitRun, if_pos hc, ih _ _ hdigits, List.length_cons]
      congr 1
      omega

theorem digitRun_stop (value count : Nat) {rest : List Char} (h : ∀ c ∈ rest.head?, isDigit c = false) :
    digitRun value count rest = (value, count, rest) := by
  cases rest with
  | nil => rfl
  | cons c rest => rw [digitRun, h c rfl, if_neg Bool.false_ne_true]

/-- A text of digits, with no zero in front unless it stands alone. -/
structure Spells (n : Nat) (digits : List Char) : Prop where
  areDigits : ∀ c ∈ digits, isDigit c = true
  value : digitsValue 0 digits = n
  lead : ∃ c more, digits = c :: more ∧ (c = '0' → more = [])

theorem digitChar_spec : ∀ d < 10, isDigit (digitChar d) = true ∧ digitValue (digitChar d) = d ∧
    (digitChar d = '0' → d = 0) := by
  decide

theorem spells_digitChar {d : Nat} (h : d < 10) : Spells d [digitChar d] := by
  obtain ⟨hdigit, hvalue, -⟩ := digitChar_spec d h
  refine ⟨by simpa using hdigit, ?_, ⟨_, [], rfl, fun _ => rfl⟩⟩
  change 0 * 10 + digitValue (digitChar d) = d
  omega

/-- A further digit goes below those of a number that is not zero. -/
theorem Spells.snoc {n d : Nat} {digits : List Char} (h : Spells n digits) (hn : n ≠ 0) (hd : d < 10) :
    Spells (n * 10 + d) (digits ++ [digitChar d]) := by
  obtain ⟨hdigit, hvalue, -⟩ := digitChar_spec d hd
  obtain ⟨c, more, hcons, hzero⟩ := h.lead
  refine ⟨?_, ?_, ⟨c, more ++ [digitChar d], by rw [hcons]; rfl, fun hc => ?_⟩⟩
  · intro c hc
    rcases List.mem_append.1 hc with hc | hc
    · exact h.areDigits c hc
    · rw [List.mem_singleton.1 hc]
      exact hdigit
  · rw [digitsValue_append, h.value]
    change n * 10 + digitValue (digitChar d) = n * 10 + d
    rw [hvalue]
  · -- A lone zero spells no other number.
    have hlone : digits = ['0'] := by rw [hcons, hc, hzero hc]
    have hvalue := h.value
    rw [hlone] at hvalue
    exact absurd hvalue.symm hn

theorem Spells.ne_nil {n : Nat} {digits : List Char} (h : Spells n digits) : digits ≠ [] := by
  obtain ⟨c, more, rfl, -⟩ := h.lead
  exact List.cons_ne_nil c more

/-- Zeros go below the digits of a number; zero itself has no room for them. -/
theorem Spells.zeros {n zeros : Nat} {digits : List Char} (h : Spells n digits) (hzero : n = 0 → zeros = 0) :
    Spells (n * 10 ^ zeros) (digits ++ List.replicate zeros '0') := by
  induction zeros with
  | zero => simpa using h
  | succ zeros ih =>
      have hn : n ≠ 0 := fun hn => Nat.succ_ne_zero zeros (hzero hn)
      have hsnoc := (ih fun h => absurd h hn).snoc (Nat.mul_ne_zero hn (Decimal.ten_pow_ne_zero zeros))
        (by decide : 0 < 10)
      rw [List.replicate_succ', ← List.append_assoc, Nat.pow_succ, ← Nat.mul_assoc]
      exact hsnoc

/-- The first digits spell a number of their own. -/
theorem Spells.take {n count : Nat} {digits : List Char} (h : Spells n digits) (hcount : 0 < count) :
    Spells (digitsValue 0 (digits.take count)) (digits.take count) := by
  obtain ⟨c, more, rfl, hzero⟩ := h.lead
  obtain ⟨count, rfl⟩ := Nat.exists_eq_add_one.2 hcount
  refine ⟨fun d hd => h.areDigits d (List.mem_of_mem_take hd), rfl, ⟨c, more.take count, rfl, fun hc => ?_⟩⟩
  rw [hzero hc, List.take_nil]

theorem exists_digitsBefore {fuel n : Nat} (h : n < 10 ^ (fuel + 1)) (tail : List Char) :
    ∃ digits, Spells n digits ∧ digitsBefore fuel n tail = digits ++ tail := by
  induction fuel generalizing n tail with
  | zero =>
      have hn : n < 10 := by simpa using h
      refine ⟨[digitChar n], spells_digitChar hn, ?_⟩
      rw [digitsBefore, Nat.mod_eq_of_lt hn]
      rfl
  | succ fuel ih =>
      unfold digitsBefore
      split
      · next hn => exact ⟨[digitChar n], spells_digitChar hn, rfl⟩
      · next hn =>
          have hless : n / 10 < 10 ^ (fuel + 1) := by
            rw [Nat.div_lt_iff_lt_mul (by decide)]
            exact h
          obtain ⟨digits, hspells, heq⟩ := ih hless (digitChar (n % 10) :: tail)
          have hsnoc := hspells.snoc (by omega) (Nat.mod_lt n (by decide : 0 < 10))
          refine ⟨digits ++ [digitChar (n % 10)], ?_, by rw [heq, List.append_assoc]; rfl⟩
          rwa [Nat.div_add_mod' n 10] at hsnoc

/-- The decimal digits of a number spell it. -/
theorem spells_digitList (n : Nat) : Spells n (digitList n) := by
  have hbound : n < 10 ^ (n.log2 + 1) :=
    Nat.lt_of_lt_of_le Nat.lt_log2_self (Nat.pow_le_pow_left (by decide) _)
  obtain ⟨digits, hspells, heq⟩ := exists_digitsBefore hbound []
  rw [digitList, heq, List.append_nil]
  exact hspells

/-- Digits with a point at their place are a whole number and places, and both together spell the digits. -/
theorem Spells.exists_point {n : Nat} {digits : List Char} (h : Spells n digits) (wholeEnd : List Char) (k : Nat) :
    ∃ m whole places, positionalText wholeEnd digits (.negSucc k) = whole ++ '.' :: places ∧ Spells m whole ∧
      (∀ c ∈ places, isDigit c = true) ∧ places.length = k + 1 ∧ digitsValue m places = n := by
  simp only [positionalText]
  split
  · next hshort =>
      refine ⟨0, ['0'], _, rfl, spells_digitChar (by decide : 0 < 10), ?_, ?_, ?_⟩
      · intro c hc
        rcases List.mem_append.1 hc with hc | hc
        · rw [List.eq_of_mem_replicate hc]
          decide
        · exact h.areDigits c hc
      · rw [List.length_append, List.length_replicate]
        omega
      · rw [digitsValue_append, digitsValue_zeros, h.value]
  · next hlong =>
      -- The point stands between two parts of the digits.
      refine ⟨_, _, _, rfl, h.take (by omega), fun c hc => h.areDigits c (List.mem_of_mem_drop hc), ?_, ?_⟩
      · rw [List.length_drop]
        omega
      · rw [← digitsValue_append, List.take_append_drop, h.value]

/-! ### Numerals as text -/

namespace Json

/-- A text that does not go on with a numeral before it. -/
def endsNumeral : List Char → Bool
  | [] => true
  | c :: _ => !(isDigit c || c == '.' || c == 'e' || c == 'E')

/-- What comes after a digit run, a point or an exponent is seen by its first character. -/
structure Bounded (rest : List Char) : Prop where
  noDigit : ∀ c ∈ rest.head?, isDigit c = false
  noPoint : ∀ more, rest ≠ '.' :: more
  noPower : ∀ c ∈ rest.head?, (c == 'e' || c == 'E') = false

theorem bounded_of_endsNumeral {tail : List Char} (h : endsNumeral tail = true) : Bounded tail := by
  cases tail with
  | nil => exact ⟨by simp, by simp, by simp⟩
  | cons c tail =>
      simp only [endsNumeral, Bool.not_eq_true', Bool.or_eq_false_iff] at h
      obtain ⟨⟨⟨hdigit, hpoint⟩, he⟩, hE⟩ := h
      refine ⟨?_, ?_, ?_⟩
      · intro d hd
        obtain rfl := Option.some.inj hd
        exact hdigit
      · intro more hmore
        obtain ⟨rfl, -⟩ := List.cons.inj hmore
        simp at hpoint
      · intro d hd
        obtain rfl := Option.some.inj hd
        simp [he, hE]

theorem readWhole_append {n : Nat} {digits : List Char} (h : Spells n digits) {rest : List Char}
    (hrest : ∀ c ∈ rest.head?, isDigit c = false) : readWhole (digits ++ rest) = some (n, rest) := by
  obtain ⟨c, more, rfl, hzero⟩ := h.lead
  by_cases hc : c = '0'
  · obtain rfl := hc
    obtain rfl := hzero rfl
    have hn : n = 0 := h.value.symm
    rw [hn]
    cases rest with
    | nil => rfl
    | cons c rest => simp [readWhole, hrest c rfl]
  · have hdigit := h.areDigits c List.mem_cons_self
    have hrun := digitRun_append 0 0 h.areDigits rest
    rw [digitRun_stop _ _ hrest, h.value] at hrun
    rw [List.cons_append] at hrun ⊢
    unfold readWhole
    split
    · next heq => simp at heq
    · next heq => exact absurd (List.cons.inj heq).1 hc
    · next heq =>
        obtain ⟨rfl, rfl⟩ := List.cons.inj heq
        rw [if_pos hdigit, hrun]

theorem readPlaces_point (whole : Nat) {digits : List Char} (hne : digits ≠ [])
    (hdigits : ∀ c ∈ digits, isDigit c = true) {rest : List Char}
    (hrest : ∀ c ∈ rest.head?, isDigit c = false) :
    readPlaces whole ('.' :: (digits ++ rest)) = some (digitsValue whole digits, digits.length, rest) := by
  have hrun := digitRun_append whole 0 hdigits rest
  rw [digitRun_stop _ _ hrest, Nat.zero_add] at hrun
  have hlength : digits.length ≠ 0 := fun h => hne (List.length_eq_zero_iff.1 h)
  simp only [readPlaces, hrun]
  split
  · next heq => exact absurd (Prod.mk.inj (Prod.mk.inj heq).2).1 hlength
  · rfl

theorem readPlaces_none (whole : Nat) {rest : List Char} (h : ∀ more, rest ≠ '.' :: more) :
    readPlaces whole rest = some (whole, 0, rest) := by
  unfold readPlaces
  split
  · next more => exact absurd rfl (h more)
  · rfl

theorem readPower_none {rest : List Char} (h : ∀ c ∈ rest.head?, (c == 'e' || c == 'E') = false) :
    readPower rest = some (false, 0, rest) := by
  cases rest with
  | nil => rfl
  | cons c rest => simp [readPower, h c rfl]

theorem digitRun_digitList (n : Nat) {rest : List Char} (hrest : ∀ c ∈ rest.head?, isDigit c = false) :
    ∃ count, digitRun 0 0 (digitList n ++ rest) = (n, count + 1, rest) := by
  have hspells := spells_digitList n
  obtain ⟨c, more, hcons, -⟩ := hspells.lead
  refine ⟨more.length, ?_⟩
  rw [digitRun_append 0 0 hspells.areDigits, digitRun_stop _ _ hrest, hspells.value, hcons, List.length_cons,
    Nat.zero_add]

theorem readPower_signed (n : Int) {rest : List Char} (hrest : ∀ c ∈ rest.head?, isDigit c = false) :
    readPower ('e' :: (signedText ['+'] n ++ rest)) = some (true, n, rest) := by
  cases n with
  | ofNat k =>
      obtain ⟨count, hrun⟩ := digitRun_digitList k hrest
      simp [readPower, signedText, splitSign, hrun]
  | negSucc k =>
      obtain ⟨count, hrun⟩ := digitRun_digitList (k + 1) hrest
      rw [readPower, if_pos (by decide)]
      simp only [signedText, splitSign, List.cons_append, hrun]
      rfl

theorem noDigit_cons {c : Char} (h : isDigit c = false) (rest : List Char) :
    ∀ d ∈ (c :: rest).head?, isDigit d = false := by
  intro d hd
  obtain rfl := Option.some.inj hd
  exact h

/-- A numeral is read part by part. -/
theorem readUnsignedNumeral_eq (negative : Bool) {cs afterWhole afterPlaces rest : List Char}
    {whole digits places : Nat} {powered : Bool} {power : Int} (hwhole : readWhole cs = some (whole, afterWhole))
    (hplaces : readPlaces whole afterWhole = some (digits, places, afterPlaces))
    (hpower : readPower afterPlaces = some (powered, power, rest)) :
    readUnsignedNumeral negative cs =
      some (⟨negative, digits, power - places, places == 0 && !powered⟩, rest) := by
  simp [readUnsignedNumeral, hwhole, hplaces, hpower]

section Unsigned

variable (negative : Bool) {n : Nat} {digits : List Char} (h : Spells n digits) {tail : List Char}
  (htail : Bounded tail)
include h htail

theorem readUnsignedNumeral_whole :
    readUnsignedNumeral negative (digits ++ tail) = some (⟨negative, n, 0, true⟩, tail) :=
  readUnsignedNumeral_eq negative (readWhole_append h htail.noDigit) (readPlaces_none n htail.noPoint)
    (readPower_none htail.noPower)

theorem readUnsignedNumeral_power (power : Int) :
    readUnsignedNumeral negative (digits ++ 'e' :: (signedText ['+'] power ++ tail)) =
      some (⟨negative, n, power, false⟩, tail) := by
  have hread := readUnsignedNumeral_eq negative (readWhole_append h (noDigit_cons (by decide) _))
    (readPlaces_none n (by simp)) (readPower_signed power htail.noDigit)
  simpa using hread

variable {places : List Char} (hne : places ≠ []) (hplaces : ∀ c ∈ places, isDigit c = true)
include hne hplaces

theorem readUnsignedNumeral_places :
    readUnsignedNumeral negative (digits ++ '.' :: (places ++ tail)) =
      some (⟨negative, digitsValue n places, -(places.length : Int), false⟩, tail) := by
  have hsome : (places.length == 0) = false := by simpa using hne
  have hread := readUnsignedNumeral_eq negative (readWhole_append h (noDigit_cons (by decide) _))
    (readPlaces_point n hne hplaces htail.noDigit) (readPower_none htail.noPower)
  simpa [hsome] using hread

theorem readUnsignedNumeral_placesPower (power : Int) :
    readUnsignedNumeral negative (digits ++ '.' :: (places ++ 'e' :: (signedText ['+'] power ++ tail))) =
      some (⟨negative, digitsValue n places, power - places.length, false⟩, tail) := by
  have hread := readUnsignedNumeral_eq negative (readWhole_append h (noDigit_cons (by decide) _))
    (readPlaces_point n hne hplaces (noDigit_cons (by decide) _)) (readPower_signed power htail.noDigit)
  simpa using hread

end Unsigned

/-! ### Written doubles -/

section Laid

variable (negative : Bool) {n : Nat} {digits tail : List Char} (h : Spells n digits) (htail : Bounded tail)
include h htail

theorem readUnsignedNumeral_ofNat {zeros : Nat} (hzero : n = 0 → zeros = 0) :
    readUnsignedNumeral negative (positionalText ['.', '0'] digits (.ofNat zeros) ++ tail) =
      some (⟨negative, n * 10 ^ (zeros + 1), -1, false⟩, tail) := by
  have hread := readUnsignedNumeral_places negative (h.zeros hzero) htail (List.cons_ne_nil '0' [])
    (List.forall_mem_singleton.2 (by decide))
  have hvalue : digitsValue (n * 10 ^ zeros) ['0'] = n * 10 ^ (zeros + 1) := by
    rw [Nat.pow_succ, ← Nat.mul_assoc]
    rfl
  rw [hvalue] at hread
  simpa [positionalText] using hread

theorem readUnsignedNumeral_negSucc (wholeEnd : List Char) (k : Nat) :
    readUnsignedNumeral negative (positionalText wholeEnd digits (.negSucc k) ++ tail) =
      some (⟨negative, n, .negSucc k, false⟩, tail) := by
  obtain ⟨m, whole, places, htext, hwhole, hplaces, hlength, hvalue⟩ := h.exists_point wholeEnd k
  have hne : places ≠ [] := by
    rintro rfl
    simp at hlength
  have hread := readUnsignedNumeral_places negative hwhole htail hne hplaces
  rw [hvalue, hlength] at hread
  rw [htext, List.append_assoc]
  exact hread

theorem readUnsignedNumeral_scientific (exponent : Int) :
    readUnsignedNumeral negative (scientificText ['+'] digits exponent ++ tail) =
      some (⟨negative, n, exponent, false⟩, tail) := by
  obtain ⟨c, more, rfl, -⟩ := h.lead
  obtain ⟨hc, hmore⟩ := List.forall_mem_cons.1 h.areDigits
  have hfirst : Spells (digitValue c) [c] := ⟨by simpa using hc, by simp [digitsValue], ⟨c, [], rfl, fun _ => rfl⟩⟩
  have hvalue : digitsValue (digitValue c) more = n := by
    rw [← h.value]
    simp [digitsValue]
  cases more with
  | nil =>
      have hread := readUnsignedNumeral_power negative hfirst htail exponent
      simpa [scientificText, ← hvalue, digitsValue] using hread
  | cons d more =>
      have hread := readUnsignedNumeral_placesPower negative hfirst htail (List.cons_ne_nil d more) hmore
        (exponent + (d :: more).length)
      rw [hvalue, Int.add_sub_cancel] at hread
      simpa [scientificText] using hread

end Laid

/-- Laid out digits are read as a numeral that denotes what they do, whatever text follows. -/
theorem readUnsignedNumeral_lay (negative : Bool) {digits : Nat} {exponent : Int}
    (hzero : digits = 0 → exponent = 0) :
    ∃ d e, Decimal.code d e = Decimal.code digits exponent ∧ ∀ tail, Bounded tail →
      readUnsignedNumeral negative (Layout.json.lay digits exponent ++ tail) =
        some (⟨negative, d, e, false⟩, tail) := by
  have hspells := spells_digitList digits
  simp only [Layout.lay]
  split
  · cases exponent with
    | ofNat zeros =>
        have hzeros : digits = 0 → zeros = 0 := fun h => Int.ofNat.inj (hzero h)
        refine ⟨digits * 10 ^ (zeros + 1), -1, ?_, ?_⟩
        · rw [Decimal.code_mul_pow]
          congr 1
          simp only [Int.ofNat_eq_natCast]
          omega
        · intro tail htail
          exact readUnsignedNumeral_ofNat negative hspells htail hzeros
    | negSucc k =>
        refine ⟨digits, .negSucc k, rfl, ?_⟩
        intro tail htail
        exact readUnsignedNumeral_negSucc negative hspells htail _ k
  · refine ⟨digits, exponent, rfl, ?_⟩
    intro tail htail
    exact readUnsignedNumeral_scientific negative hspells htail exponent

theorem shortest_eq_zero {tie : Tie} {code : Nat} (hfinite : code < BinaryFormat.double.infinity)
    (h : (shortest tie code).1 = 0) : (shortest tie code).2 = 0 := by
  have hcode := code_shortest tie hfinite
  rw [h] at hcode
  have hzero : code = 0 := hcode.symm
  rw [hzero]
  rfl

theorem exists_digit_of_readWhole {cs rest : List Char} {whole : Nat} (h : readWhole cs = some (whole, rest)) :
    ∃ c more, cs = c :: more ∧ isDigit c = true := by
  cases cs with
  | nil => simp [readWhole] at h
  | cons c more =>
      refine ⟨c, more, rfl, ?_⟩
      unfold readWhole at h
      split at h
      · next heq => simp at heq
      · next heq =>
          obtain ⟨rfl, -⟩ := List.cons.inj heq
          decide
      · next heq =>
          obtain ⟨rfl, rfl⟩ := List.cons.inj heq
          split at h
          · next hdigit => exact hdigit
          · simp at h

/-- Signs are read before the digits. -/
theorem readNumeral_minus (negative : Bool) {cs : List Char} {found : Numeral × List Char}
    (h : readUnsignedNumeral negative cs = some found) : readNumeral (minus negative ++ cs) = some found := by
  obtain ⟨⟨whole, rest⟩, hwhole, -⟩ := Option.bind_eq_some_iff.1 h
  obtain ⟨c, more, rfl, hc⟩ := exists_digit_of_readWhole hwhole
  rw [← h]
  cases negative with
  | true => rfl
  | false =>
      simp only [minus, Bool.false_eq_true, if_false, List.nil_append]
      unfold readNumeral
      split
      · next heq =>
          obtain ⟨rfl, -⟩ := List.cons.inj heq
          exact absurd hc (by decide)
      · rfl

/-- The written form of a finite double is read as a numeral that denotes it. -/
theorem readNumeral_finiteText (negative : Bool) {code : Nat} (hfinite : code < BinaryFormat.double.infinity) :
    ∃ d e, Decimal.code d e = code ∧ ∀ tail, endsNumeral tail = true →
      readNumeral (Layout.json.finiteText negative code ++ tail) = some (⟨negative, d, e, false⟩, tail) := by
  have hzero : (shortest Layout.json.tie code).1 = 0 → (shortest Layout.json.tie code).2 = 0 :=
    shortest_eq_zero hfinite
  obtain ⟨d, e, hcode, hread⟩ := readUnsignedNumeral_lay negative hzero
  refine ⟨d, e, hcode.trans (code_shortest _ hfinite), ?_⟩
  intro tail htail
  simp only [Layout.finiteText, List.append_assoc]
  exact readNumeral_minus negative (hread tail (bounded_of_endsNumeral htail))

/-- The text of an integer is read as a whole numeral. -/
theorem readNumeral_signedText (k : Int) {tail : List Char} (htail : endsNumeral tail = true) :
    readNumeral (signedText [] k ++ tail) = some (⟨k < 0, k.natAbs, 0, true⟩, tail) := by
  have hbounded := bounded_of_endsNumeral htail
  cases k with
  | ofNat n => exact readNumeral_minus false (readUnsignedNumeral_whole false (spells_digitList n) hbounded)
  | negSucc n =>
      have hread := readNumeral_minus true (readUnsignedNumeral_whole true (spells_digitList (n + 1)) hbounded)
      have hnegative : decide (Int.negSucc n < 0) = true := by simp
      rw [hnegative]
      exact hread

end Json

end FlightFit
