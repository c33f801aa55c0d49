import Mathlib.Data.List.Induction
import FlightFit.Keyed

/-!
Module: FlightFit.Proofs.KeyedLists
Purpose: What ordered lists of keys and values hold. Texts are compared character by character, which is the same as
  comparing their bytes (`bytesLess_iff`); so keys are in the order of their bytes. Under a key is found the value that
  was given for it last, and a list in order is determined by the pairs in it, in whatever order they were given.
Main exports: BytesLess, bytesLess_iff, Keyed.sorted_ofList, Keyed.nodup_keys_ofList, Keyed.find?_ofList,
  Keyed.mem_keys_ofList, Keyed.ofList_eq_of_perm, Keyed.eq_of_find?
-/

namespace FlightFit

/-! ### The order of texts -/

/-- One text comes before another in the order of their bytes. -/
def BytesLess (a b : String) : Prop := a.toUTF8.data.toList < b.toUTF8.data.toList

/-- The bytes of a character decide its order, whatever follows. -/
theorem utf8EncodeChar_append_lt {c d : Char} (h : c < d) (s t : List UInt8) :
    String.utf8EncodeChar c ++ s < String.utf8EncodeChar d ++ t := by
  have hless : c.val.toNat < d.val.toNat := h
  have hbound : d.val.toNat < 0x110000 := by
    have hvalid := d.valid
    simp only [UInt32.isValidChar, Nat.isValidChar] at hvalid
    omega
  have hsecond : ∀ k, k / 4096 = k / 64 / 64 := fun k => (Nat.div_div_eq_div_mul k 64 64).symm
  have hthird : ∀ k, k / 262144 = k / 64 / 64 / 64 := fun k => by
    rw [Nat.div_div_eq_div_mul, Nat.div_div_eq_div_mul]
  unfold String.utf8EncodeChar
  simp only [hsecond, hthird]
  generalize c.val.toNat = m at hless ⊢
  generalize d.val.toNat = n at hless hbound ⊢
  -- A shorter form has a smaller first byte; forms of one length are numbers in base 64, highest digit first.
  repeat' split
  all_goals
    simp only [List.cons_append, List.nil_append, List.cons_lt_cons_iff, UInt8.lt_iff_toNat_lt, ← UInt8.toNat_inj,
      UInt8.toNat_ofNat']
    omega

theorem append_lt_append_iff (first s t : List UInt8) : first ++ s < first ++ t ↔ s < t := by
  induction first with
  | nil => rfl
  | cons b first ih => simp [ih]

theorem flatMap_utf8EncodeChar_lt_iff {cs ds : List Char} :
    cs.flatMap String.utf8EncodeChar < ds.flatMap String.utf8EncodeChar ↔ cs < ds := by
  induction cs generalizing ds with
  | nil =>
      cases ds with
      | nil => simp
      | cons d ds =>
          obtain ⟨b, rest, hcons⟩ := List.exists_cons_of_ne_nil (String.utf8EncodeChar_ne_nil (c := d))
          simp [List.flatMap_cons, hcons]
  | cons c cs ih =>
      cases ds with
      | nil => simp
      | cons d ds =>
          rw [List.flatMap_cons, List.flatMap_cons, List.cons_lt_cons_iff]
          rcases Std.lt_trichotomy c d with hless | rfl | hgreater
          · exact iff_of_true (utf8EncodeChar_append_lt hless _ _) (.inl hless)
          · rw [append_lt_append_iff, ih]
            simp
          · have hback := utf8EncodeChar_append_lt hgreater (ds.flatMap String.utf8EncodeChar)
              (cs.flatMap String.utf8EncodeChar)
            refine iff_of_false (List.lt_asymm hback) ?_
            rintro (hless | ⟨rfl, -⟩)
            · exact Nat.lt_asymm hless hgreater
            · exact Nat.lt_irrefl _ hgreater

/-- The bytes of a text are those of its characters. -/
theorem toList_toUTF8 (s : String) : s.toUTF8.data.toList = s.toList.flatMap String.utf8EncodeChar := by
  rw [String.toUTF8_eq_toByteArray, ← String.utf8Encode_toList]
  simp [List.utf8Encode]

/-- Texts are in the order of their bytes. -/
theorem bytesLess_iff {a b : String} : BytesLess a b ↔ a < b := by
  rw [BytesLess, toList_toUTF8, toList_toUTF8, flatMap_utf8EncodeChar_lt_iff]
  rfl

theorem bytesLess_irrefl (a : String) : ¬BytesLess a a := by
  rw [bytesLess_iff]
  exact String.lt_irrefl a

theorem bytesLess_asymm {a b : String} (h : BytesLess a b) : ¬BytesLess b a := by
  rw [bytesLess_iff] at h ⊢
  exact String.lt_asymm h

/-! ### Keyed lists -/

namespace Keyed

variable {α : Type}

theorem find?_eq_none_iff {key : String} {pairs : List (String × α)} :
    find? key pairs = none ↔ key ∉ pairs.map Prod.fst := by
  induction pairs with
  | nil => simp [find?]
  | cons pair rest ih =>
      by_cases hkey : key = pair.1
      · simp [find?, hkey]
      · simp [find?, hkey, ih]

/-- Where keys occur once, each pair is found. -/
theorem find?_of_mem {key : String} {value : α} {pairs : List (String × α)} (h : (pairs.map Prod.fst).Nodup)
    (hmem : (key, value) ∈ pairs) : find? key pairs = some value := by
  induction pairs with
  | nil => cases hmem
  | cons pair rest ih =>
      obtain ⟨hfresh, hrest⟩ := List.nodup_cons.1 h
      rcases List.mem_cons.1 hmem with rfl | hmem
      · simp [find?]
      · have hkey : key ≠ pair.1 := by
          intro heq
          rw [← heq] at hfresh
          exact hfresh (List.mem_map.2 ⟨_, hmem, rfl⟩)
        simp [find?, hkey, ih hrest hmem]

theorem find?_erase_of_ne {key other : String} (h : other ≠ key) (pairs : List (String × α)) :
    find? other (erase key pairs) = find? other pairs := by
  induction pairs with
  | nil => rfl
  | cons pair rest ih =>
      unfold erase at ih ⊢
      by_cases hkey : pair.1 = key
      · simpa [hkey, find?, h] using ih
      · simp [hkey, find?, ih]

theorem mem_keys_insert {key other : String} {value : α} {pairs : List (String × α)}
    (h : other ∈ (insert key value pairs).map Prod.fst) : other = key ∨ other ∈ pairs.map Prod.fst := by
  induction pairs with
  | nil => simpa [insert] using h
  | cons pair rest ih =>
      unfold insert at h
      split at h
      · next hkey =>
          rcases List.mem_cons.1 h with h | h
          · exact .inl h
          · exact .inr (List.mem_cons_of_mem _ h)
      · split at h
        · exact List.mem_cons.1 h
        · rcases List.mem_cons.1 h with h | h
          · rw [h]
            exact .inr List.mem_cons_self
          · exact (ih h).imp_right (List.mem_cons_of_mem _)

/-- Inserting keeps the keys in increasing order. -/
theorem sorted_insert (key : String) (value : α) {pairs : List (String × α)}
    (h : (pairs.map Prod.fst).Pairwise (· < ·)) : ((insert key value pairs).map Prod.fst).Pairwise (· < ·) := by
  induction pairs with
  | nil => simp [insert]
  | cons pair rest ih =>
      obtain ⟨hfirst, hrest⟩ := List.pairwise_cons.1 h
      unfold insert
      split
      · next hkey =>
          rw [List.map_cons]
          exact List.pairwise_cons.2 ⟨by rw [hkey]; exact hfirst, hrest⟩
      · next hkey =>
          split
          · next hless =>
              refine List.pairwise_cons.2 ⟨?_, h⟩
              intro other hother
              rcases List.mem_cons.1 hother with rfl | hother
              · exact hless
              · exact String.lt_trans hless (hfirst other hother)
          · next hless =>
              refine List.pairwise_cons.2 ⟨?_, ih hrest⟩
              intro other hother
              rcases mem_keys_insert hother with rfl | hother
              · exact Std.lt_of_le_of_ne (String.not_lt.1 hless) (Ne.symm hkey)
              · exact hfirst other hother

/-- The keys of an ordered list are in increasing order. -/
theorem sorted_ofList (pairs : List (String × α)) : ((ofList pairs).map Prod.fst).Pairwise (· < ·) := by
  induction pairs using List.reverseRecOn with
  | nil => exact List.Pairwise.nil
  | append_singleton pairs pair ih =>
      rw [ofList, List.foldl_append]
      exact sorted_insert pair.1 pair.2 ih

/-- Each key of an ordered list occurs once. -/
theorem nodup_keys_ofList (pairs : List (String × α)) : ((ofList pairs).map Prod.fst).Nodup := by
  refine (sorted_ofList pairs).imp fun hless => ?_
  rintro rfl
  exact String.lt_irrefl _ hless

/-! ### What is found -/

theorem find?_insert (key other : String) (value : α) (pairs : List (String × α)) :
    find? other (insert key value pairs) = if other = key then some value else find? other pairs := by
  induction pairs with
  | nil => rfl
  | cons pair rest ih =>
      obtain ⟨k, v⟩ := pair
      unfold insert
      split
      · next hkey =>
          by_cases hother : other = key
          · simp [find?, hother]
          · simp [find?, hother, ← hkey]
      · next hkey =>
          split
          · rfl
          · rw [find?, ih, find?]
            by_cases hother : other = key
            · simp [hother, hkey]
            · simp [hother]

/-- Under a key is the value that was given last for it. -/
theorem find?_ofList (key : String) (pairs : List (String × α)) :
    find? key (ofList pairs) =
      (pairs.filterMap fun pair => if pair.1 == key then some pair.2 else none).getLast? := by
  induction pairs using List.reverseRecOn with
  | nil => rfl
  | append_singleton pairs pair ih =>
      have hlast : ofList (pairs ++ [pair]) = insert pair.1 pair.2 (ofList pairs) := List.foldl_append
      rw [hlast, find?_insert, ih, List.filterMap_append]
      by_cases hkey : key = pair.1
      · simp [hkey]
      · simp [hkey, Ne.symm hkey]

theorem mem_keys_ofList {key : String} {pairs : List (String × α)} :
    key ∈ (ofList pairs).map Prod.fst ↔ key ∈ pairs.map Prod.fst := by
  rw [← not_iff_not, ← find?_eq_none_iff, find?_ofList, List.getLast?_eq_none_iff, List.filterMap_eq_nil_iff]
  simp only [ite_eq_right_iff, beq_iff_eq, reduceCtorEq, imp_false, List.mem_map, not_exists, not_and]

/-! ### Pairs in any order -/

theorem insert_perm {key : String} (value : α) {pairs : List (String × α)} (h : key ∉ pairs.map Prod.fst) :
    (insert key value pairs).Perm ((key, value) :: pairs) := by
  induction pairs with
  | nil => exact .refl _
  | cons pair rest ih =>
      obtain ⟨hfirst, hrest⟩ := not_or.1 (List.mem_cons.not.1 h)
      unfold insert
      split
      · next hkey => exact absurd hkey hfirst
      · split
        · exact .refl _
        · exact ((ih hrest).cons pair).trans (.swap _ _ _)

theorem ofList_perm {pairs : List (String × α)} (h : (pairs.map Prod.fst).Nodup) : (ofList pairs).Perm pairs := by
  induction pairs using List.reverseRecOn with
  | nil => exact .refl _
  | append_singleton pairs pair ih =>
      have hlast : ofList (pairs ++ [pair]) = insert pair.1 pair.2 (ofList pairs) := List.foldl_append
      rw [List.map_append, List.nodup_append] at h
      obtain ⟨hpairs, -, hfresh⟩ := h
      have hnew : pair.1 ∉ (ofList pairs).map Prod.fst := by
        rw [mem_keys_ofList]
        exact fun hmem => hfresh pair.1 hmem pair.1 (by simp) rfl
      have hfront : (pair :: ofList pairs).Perm (pair :: pairs) := (ih hpairs).cons pair
      rw [hlast]
      exact ((insert_perm pair.2 hnew).trans hfront).trans (List.perm_append_singleton pair pairs).symm

/-- A list in order is what becomes of its pairs, in whatever order they are given. -/
theorem ofList_eq_of_perm {pairs sorted : List (String × α)} (hsorted : (sorted.map Prod.fst).Pairwise (· < ·))
    (h : pairs.Perm sorted) : ofList pairs = sorted := by
  have hdistinct : (pairs.map Prod.fst).Nodup := by
    refine ((h.map Prod.fst).nodup_iff).2 (hsorted.imp fun hless => ?_)
    rintro rfl
    exact String.lt_irrefl _ hless
  have horder : ∀ {list : List (String × α)}, (list.map Prod.fst).Pairwise (· < ·) →
      list.Pairwise (fun a b => a.1 < b.1) := fun hlist => List.pairwise_map.1 hlist
  refine ((ofList_perm hdistinct).trans h).eq_of_pairwise ?_ (horder (sorted_ofList pairs)) (horder hsorted)
  intro a b _ _ hless hgreater
  exact absurd (String.lt_trans hless hgreater) (String.lt_irrefl _)

/-! ### Lists that hold the same -/

theorem mem_of_find? {key : String} {value : α} {pairs : List (String × α)} (h : find? key pairs = some value) :
    (key, value) ∈ pairs := by
  induction pairs with
  | nil => cases h
  | cons pair rest ih =>
      unfold find? at h
      split at h
      · next hkey =>
          cases h
          simp [hkey]
      · exact List.mem_cons_of_mem _ (ih h)

/-- Lists in order are equal when the same is found in them under every key. -/
theorem eq_of_find? {first second : List (String × α)} (hfirst : (first.map Prod.fst).Pairwise (· < ·))
    (hsecond : (second.map Prod.fst).Pairwise (· < ·)) (h : ∀ key, find? key first = find? key second) :
    first = second := by
  have hkeys : ∀ {list : List (String × α)}, (list.map Prod.fst).Pairwise (· < ·) → (list.map Prod.fst).Nodup := by
    intro list hlist
    apply hlist.imp
    rintro key _ hless rfl
    exact String.lt_irrefl _ hless
  have hpairs : ∀ {list : List (String × α)}, (list.map Prod.fst).Pairwise (· < ·) → list.Nodup := by
    intro list hlist
    apply (List.pairwise_map.1 hlist).imp
    rintro pair _ hless rfl
    exact String.lt_irrefl _ hless
  have hmem : ∀ pair, pair ∈ first ↔ pair ∈ second := by
    rintro ⟨key, value⟩
    constructor
    · intro hpair
      apply mem_of_find?
      rw [← h, find?_of_mem (hkeys hfirst) hpair]
    · intro hpair
      apply mem_of_find?
      rw [h, find?_of_mem (hkeys hsecond) hpair]
  have hperm : first.Perm second := (List.perm_ext_iff_of_nodup (hpairs hfirst) (hpairs hsecond)).2 hmem
  have hsame : ofList second = first := ofList_eq_of_perm hfirst hperm.symm
  rw [← hsame]
  exact ofList_eq_of_perm hsecond (.refl second)

end Keyed

end FlightFit
