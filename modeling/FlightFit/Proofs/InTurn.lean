import FlightFit.Proofs.Outcome

/-!
Module: FlightFit.Proofs.InTurn
Purpose: Items that are taken in turn until one fails. Readers of lists look at one item after the other, know its
  position, and stop at the first failure. `inTurn` is that loop for any treatment of an item; it succeeds when
  every item does, and otherwise it fails as the first item that fails.
Main exports: inTurn, inTurn_eq_ok_iff, getElem?_of_inTurn, inTurn_map_eq_ok, exists_inTurn_iff_forall_mem,
  inTurn_eq_error_iff, forall_before_iff
-/

namespace FlightFit

variable {ε α β : Type}

/-- The results for the items of a list, taken in turn from position `index` on. -/
def inTurn (f : Nat → α → Except ε β) (index : Nat) : List α → Except ε (List β)
  | [] => .ok []
  | a :: rest => do
    let b ← f index a
    let more ← inTurn f (index + 1) rest
    .ok (b :: more)

variable {f : Nat → α → Except ε β} {index : Nat} {as : List α} {bs : List β}

theorem mapIdx_from_cons (f : Nat → α → β) (index : Nat) (a : α) (rest : List α) :
    (a :: rest).mapIdx (fun i item => f (index + i) item) =
      f index a :: rest.mapIdx (fun i item => f (index + 1 + i) item) := by
  rw [List.mapIdx_cons]
  refine congrArg (f index a :: ·) (List.mapIdx_eq_mapIdx_iff.2 fun i _ => ?_)
  rw [Nat.add_comm i 1, ← Nat.add_assoc]

/-- Items taken in turn give their own results, in order. -/
theorem inTurn_eq_ok_iff :
    inTurn f index as = .ok bs ↔ as.mapIdx (fun i item => f (index + i) item) = bs.map .ok := by
  induction as generalizing index bs with
  | nil => cases bs <;> simp [inTurn]
  | cons a rest ih =>
      rw [inTurn, mapIdx_from_cons]
      simp only [bind_eq_ok_iff, ih, Except.ok.injEq]
      constructor
      · rintro ⟨b, hb, more, hmore, rfl⟩
        rw [hb, hmore, List.map_cons]
      · intro h
        cases bs with
        | nil => cases h
        | cons b more =>
            obtain ⟨hb, hmore⟩ := List.cons.inj h
            exact ⟨b, hb, more, hmore, rfl⟩

section Ok

variable (h : inTurn f index as = .ok bs)
include h

theorem length_of_inTurn : bs.length = as.length := by
  have hlength := congrArg List.length (inTurn_eq_ok_iff.1 h)
  rw [List.length_mapIdx, List.length_map] at hlength
  exact hlength.symm

/-- The result of the item at a position stands at that position. -/
theorem getElem?_of_inTurn {i : Nat} {a : α} (ha : as[i]? = some a) :
    ∃ b, bs[i]? = some b ∧ f (index + i) a = .ok b := by
  have hresult := congrArg (·[i]?) (inTurn_eq_ok_iff.1 h)
  rw [List.getElem?_mapIdx, List.getElem?_map, ha, Option.map_some] at hresult
  obtain ⟨b, hb, hok⟩ := Option.map_eq_some_iff.1 hresult.symm
  exact ⟨b, hb, hok.symm⟩

end Ok

/-- Items that succeed wherever they stand give all their results. -/
theorem inTurn_map_eq_ok {γ : Type} {item : γ → α} {result : γ → β} {cs : List γ}
    (h : ∀ i, ∀ c ∈ cs, f i (item c) = .ok (result c)) : inTurn f index (cs.map item) = .ok (cs.map result) := by
  induction cs generalizing index with
  | nil => rfl
  | cons c rest ih =>
      obtain ⟨hfirst, hrest⟩ : f index (item c) = .ok (result c) ∧ ∀ i, ∀ c ∈ rest, f i (item c) = .ok (result c) :=
        ⟨h index c List.mem_cons_self, fun i c hc => h i c (List.mem_cons_of_mem _ hc)⟩
      rw [List.map_cons, inTurn, hfirst, ok_bind, ih hrest, ok_bind, List.map_cons]

/-- The first item that fails is the first of all, or the first among the others if that one does not fail. -/
theorem inTurn_cons_eq_error_iff {a : α} {e : ε} :
    inTurn f index (a :: as) = .error e ↔
      f index a = .error e ∨ (∃ b, f index a = .ok b) ∧ inTurn f (index + 1) as = .error e := by
  rw [inTurn]
  cases f index a with
  | error e' => simp
  | ok b =>
      cases inTurn f (index + 1) as with
      | error e' => simp
      | ok more => simp

/-- Items taken in turn fail as the first of them that fails. -/
theorem inTurn_eq_error_iff {e : ε} :
    inTurn f index as = .error e ↔
      ∃ i a, as[i]? = some a ∧ f (index + i) a = .error e ∧
        ∀ j < i, ∀ b, as[j]? = some b → ∃ result, f (index + j) b = .ok result := by
  induction as generalizing index with
  | nil => simp [inTurn]
  | cons a rest ih =>
      have hshift : ∀ i, index + 1 + i = index + (i + 1) := fun i => by omega
      rw [inTurn_cons_eq_error_iff, ih]
      simp only [hshift]
      constructor
      · rintro (hfirst | ⟨hfirst, i, item, hitem, herror, hbefore⟩)
        · exact ⟨0, a, rfl, hfirst, fun j hj => absurd hj (Nat.not_lt_zero j)⟩
        · refine ⟨i + 1, item, hitem, herror, fun j hj b hb => ?_⟩
          cases j with
          | zero =>
              obtain rfl := Option.some.inj hb
              exact hfirst
          | succ j => exact hbefore j (Nat.lt_of_succ_lt_succ hj) b hb
      · rintro ⟨i, item, hitem, herror, hbefore⟩
        cases i with
        | zero =>
            obtain rfl := Option.some.inj hitem
            exact .inl herror
        | succ i =>
            refine .inr ⟨hbefore 0 (Nat.succ_pos i) a rfl, i, item, hitem, herror, fun j hj b hb => ?_⟩
            exact hbefore (j + 1) (Nat.succ_lt_succ hj) b hb

theorem exists_inTurn_iff :
    (∃ bs, inTurn f index as = .ok bs) ↔ ∀ i a, as[i]? = some a → ∃ b, f (index + i) a = .ok b := by
  constructor
  · rintro ⟨bs, h⟩ i a ha
    obtain ⟨b, -, hb⟩ := getElem?_of_inTurn h ha
    exact ⟨b, hb⟩
  · intro h
    cases hall : inTurn f index as with
    | ok bs => exact ⟨bs, rfl⟩
    | error e =>
        obtain ⟨i, a, ha, herror, -⟩ := inTurn_eq_error_iff.1 hall
        obtain ⟨b, hb⟩ := h i a ha
        rw [herror] at hb
        cases hb

/-- Where success of an item does not depend on its position, all items succeed when each of them does. -/
theorem exists_inTurn_iff_forall_mem {p : α → Prop} (h : ∀ i a, (∃ b, f i a = .ok b) ↔ p a) :
    (∃ bs, inTurn f index as = .ok bs) ↔ ∀ a ∈ as, p a := by
  rw [exists_inTurn_iff]
  simp only [h]
  constructor
  · intro hall a ha
    obtain ⟨i, hi⟩ := List.mem_iff_getElem?.1 ha
    exact hall i a hi
  · intro hall i a hi
    exact hall a (List.mem_of_getElem? hi)

/-- In a list that is in order, what stands before an item is what is less than the item. -/
theorem forall_before_iff {less : α → α → Prop} (hasymm : ∀ a b, less a b → ¬less b a) (hsorted : as.Pairwise less)
    {i : Nat} {a : α} (ha : as[i]? = some a) (p : α → Prop) :
    (∀ j < i, ∀ b, as[j]? = some b → p b) ↔ ∀ b ∈ as, less b a → p b := by
  obtain ⟨hi, rfl⟩ := List.getElem?_eq_some_iff.1 ha
  have hordered := List.pairwise_iff_getElem.1 hsorted
  constructor
  · intro h b hb hless
    obtain ⟨j, hj, rfl⟩ := List.mem_iff_getElem.1 hb
    refine h j ?_ _ (List.getElem?_eq_getElem hj)
    rcases Nat.lt_trichotomy j i with hlt | rfl | hgt
    · exact hlt
    · exact absurd hless (hasymm _ _ hless)
    · exact absurd hless (hasymm _ _ (hordered i j hi hj hgt))
  · intro h j hj b hb
    obtain ⟨hbound, rfl⟩ := List.getElem?_eq_some_iff.1 hb
    exact h _ (List.getElem_mem hbound) (hordered j i hbound hi hj)

end FlightFit
