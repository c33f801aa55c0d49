import FlightFit.Proofs.WindowRows

/-!
Module: FlightFit.Proofs.Buffers
Purpose: Training sets as they are changed in memory, one field after the other. An `Edit` keeps what it has
  changed when it fails halfway, so that nothing in it can take a change back; an edit whose checks come
  before its changes is atomic all the same (`Edit.Looks.bind`, `Edit.Atomic.bind`). Appending and merging
  are such edits, and they do what `TrainingSet.append` and `TrainingSet.merge` say.
Main exports: Edit, Edit.Atomic, Buffers, Buffers.append, Buffers.merge, Buffers.atomic_append,
  Buffers.atomic_merge, TrainingSet.runOn_append, TrainingSet.runOn_merge, TrainingSet.Reached,
  Buffers.Reached.exists_set
-/

namespace FlightFit

/-- A change of a state that may fail; what it has changed until then stays changed. -/
abbrev Edit (σ α : Type) := ExceptT Fault (StateM σ) α

namespace Edit

variable {σ α β : Type}

/-- The outcome of an edit and the state it leaves. -/
def runOn (edit : Edit σ α) (state : σ) : Except Fault α × σ := (edit.run.run state : Id _)

/-- Takes over the outcome of a computation that changes nothing. -/
def ofResult : Except Fault α → Edit σ α
  | .ok a => pure a
  | .error fault => throw fault

@[simp] theorem runOn_pure (a : α) (state : σ) : (pure a : Edit σ α).runOn state = (.ok a, state) := rfl

@[simp] theorem runOn_get (state : σ) : (get : Edit σ σ).runOn state = (.ok state, state) := rfl

@[simp] theorem runOn_set (next state : σ) : (set next : Edit σ PUnit).runOn state = (.ok ⟨⟩, next) := rfl

@[simp] theorem runOn_modify (f : σ → σ) (state : σ) :
    (modify f : Edit σ PUnit).runOn state = (.ok ⟨⟩, f state) := rfl

@[simp] theorem runOn_ofResult (result : Except Fault α) (state : σ) :
    (ofResult result : Edit σ α).runOn state = (result, state) := by
  cases result with
  | ok a => rfl
  | error fault => rfl

theorem runOn_bind_of_ok {edit : Edit σ α} {state after : σ} {a : α} (h : edit.runOn state = (.ok a, after))
    (next : α → Edit σ β) : (edit >>= next).runOn state = (next a).runOn after :=
  run_run_bind_of_ok h next

theorem runOn_bind_of_error {edit : Edit σ α} {state after : σ} {fault : Fault}
    (h : edit.runOn state = (.error fault, after)) (next : α → Edit σ β) :
    (edit >>= next).runOn state = (.error fault, after) :=
  run_run_bind_of_error h next

/-! ### Checks before changes -/

/-- Changes nothing. -/
def Looks (edit : Edit σ α) : Prop := ∀ state, (edit.runOn state).2 = state

/-- Does not fail. -/
def Sure (edit : Edit σ α) : Prop := ∀ state, ∃ a after, edit.runOn state = (.ok a, after)

/-- Changes nothing when it fails. -/
def Atomic (edit : Edit σ α) : Prop :=
  ∀ state after fault, edit.runOn state = (.error fault, after) → after = state

theorem Looks.atomic {edit : Edit σ α} (h : Looks edit) : Atomic edit := by
  intro state after fault hrun
  have hstate := h state
  rw [hrun] at hstate
  exact hstate

theorem Sure.atomic {edit : Edit σ α} (h : Sure edit) : Atomic edit := by
  intro state after fault hrun
  obtain ⟨a, last, hsure⟩ := h state
  rw [hsure] at hrun
  cases hrun

theorem looks_get : Looks (get : Edit σ σ) := fun _ => rfl

theorem looks_throw (fault : Fault) : Looks (throw fault : Edit σ α) := fun _ => rfl

theorem looks_ofResult (result : Except Fault α) : Looks (ofResult result : Edit σ α) := by
  intro state
  rw [runOn_ofResult]

theorem sure_pure (a : α) : Sure (pure a : Edit σ α) := fun state => ⟨a, state, rfl⟩

theorem sure_set (next : σ) : Sure (set next : Edit σ PUnit) := fun _ => ⟨⟨⟩, next, rfl⟩

theorem sure_modify (f : σ → σ) : Sure (modify f : Edit σ PUnit) := fun state => ⟨⟨⟩, f state, rfl⟩

theorem Sure.bind {edit : Edit σ α} {next : α → Edit σ β} (h : Sure edit) (hnext : ∀ a, Sure (next a)) :
    Sure (edit >>= next) := by
  intro state
  obtain ⟨a, middle, hfirst⟩ := h state
  rw [runOn_bind_of_ok hfirst]
  exact hnext a middle

/-- What is atomic may come after a check. -/
theorem Looks.bind {edit : Edit σ α} {next : α → Edit σ β} (h : Looks edit) (hnext : ∀ a, Atomic (next a)) :
    Atomic (edit >>= next) := by
  intro state after fault hrun
  have hsame := h state
  cases hfirst : edit.runOn state with
  | mk result middle =>
      rw [hfirst] at hsame
      subst hsame
      cases result with
      | error other =>
          rw [runOn_bind_of_error hfirst] at hrun
          cases hrun
          rfl
      | ok a =>
          rw [runOn_bind_of_ok hfirst] at hrun
          exact hnext a _ after fault hrun

/-- What cannot fail may come after what is atomic. -/
theorem Atomic.bind {edit : Edit σ α} {next : α → Edit σ β} (h : Atomic edit) (hnext : ∀ a, Sure (next a)) :
    Atomic (edit >>= next) := by
  intro state after fault hrun
  cases hfirst : edit.runOn state with
  | mk result middle =>
      cases result with
      | error other =>
          rw [runOn_bind_of_error hfirst] at hrun
          cases hrun
          exact h state _ _ hfirst
      | ok a =>
          obtain ⟨b, last, hsure⟩ := hnext a middle
          rw [runOn_bind_of_ok hfirst, hsure] at hrun
          cases hrun

end Edit

/-! ### Training sets -/

/-- A training set in memory: the entries of feature and target rows in order, and the sizes. Nothing makes
    the sizes agree with the entries. -/
structure Buffers where
  x : List Float
  y : List Float
  features : Nat
  targets : Nat
  rows : Nat

namespace Buffers

/-- The buffers of a set without rows. -/
def empty : Buffers := ⟨[], [], 0, 0, 0⟩

/-- Whether there are no rows. -/
def isEmpty (b : Buffers) : Bool := b.rows == 0

/-- The matrix that a buffer fills. A buffer of another length has none, and asking for it ends the
    program. -/
def matrix (rows cols : Nat) (values : List Float) : Except Fault (Matrix Float) :=
  if h : values.length = rows * cols then .ok ⟨rows, cols, values, h⟩ else .error (.oversized rows cols)

/-- Takes over the numbers of columns of the first rows, and checks those of later ones. -/
def settleColumns (features targets : Nat) : Edit Buffers Unit := do
  let held ← get
  if held.isEmpty then do
    modify fun b => { b with features := features }
    modify fun b => { b with targets := targets }
  else if features = held.features ∧ targets = held.targets then pure ()
  else throw (.shapeMismatch (.batchColumns features targets held.features held.targets))

/-- Copies rows behind the entries, a feature row and a target row at a time. -/
def copyRows : List (List Float) → List (List Float) → Edit Buffers Unit
  | row :: rows, target :: targets => do
    modify fun b => { b with x := b.x ++ row }
    modify fun b => { b with y := b.y ++ target }
    copyRows rows targets
  | _, _ => pure ()

/-- Appends aligned rows. -/
def append (x y : Matrix Float) : Edit Buffers Unit :=
  if x.height ≠ y.height then throw (.shapeMismatch (.rowCounts x.height y.height))
  else if x.height = 0 then pure ()
  else do
    settleColumns x.cols y.cols
    copyRows x.rows y.rows
    modify fun b => { b with rows := b.rows + x.height }

/-- Merges another set below the rows. -/
def merge (other : Buffers) : Edit Buffers Unit :=
  if other.isEmpty then pure ()
  else do
    let held ← get
    if held.isEmpty then set other
    else if other.features = held.features ∧ other.targets = held.targets then do
      modify fun b => { b with x := b.x ++ other.x }
      modify fun b => { b with y := b.y ++ other.y }
      modify fun b => { b with rows := b.rows + other.rows }
    else throw (.shapeMismatch (.batchColumns other.features other.targets held.features held.targets))

/-- The buffers of given rows. -/
def ofMatrices (x y : Matrix Float) : Except Fault Buffers :=
  match (append x y).runOn .empty with
  | (.ok (), b) => .ok b
  | (.error fault, _) => .error fault

open Edit

theorem sure_copyRows (rows targets : List (List Float)) : Sure (copyRows rows targets) := by
  induction rows generalizing targets with
  | nil => exact sure_pure ()
  | cons row rows ih =>
      cases targets with
      | nil => exact sure_pure ()
      | cons target targets =>
          apply (sure_modify _).bind
          intro _
          apply (sure_modify _).bind
          intro _
          exact ih targets

theorem atomic_settleColumns (features targets : Nat) : Atomic (settleColumns features targets) := by
  apply looks_get.bind
  intro held
  split
  · exact ((sure_modify _).bind fun _ => sure_modify _).atomic
  · split
    · exact (sure_pure ()).atomic
    · exact (looks_throw _).atomic

/-- Appending changes nothing when it fails: once the columns are settled, nothing can go wrong. -/
theorem atomic_append (x y : Matrix Float) : Atomic (append x y) := by
  unfold append
  split
  · exact (looks_throw _).atomic
  · split
    · exact (sure_pure ()).atomic
    · apply (atomic_settleColumns x.cols y.cols).bind
      intro _
      apply (sure_copyRows x.rows y.rows).bind
      intro _
      exact sure_modify _

/-- Merging changes nothing when it fails. -/
theorem atomic_merge (other : Buffers) : Atomic (merge other) := by
  unfold merge
  split
  · exact (sure_pure ()).atomic
  · apply looks_get.bind
    intro held
    split
    · exact (sure_set other).atomic
    · split
      · apply Sure.atomic
        apply (sure_modify _).bind
        intro _
        apply (sure_modify _).bind
        intro _
        exact sure_modify _
      · exact (looks_throw _).atomic

/-! ### What an edit of the buffers leaves -/

variable {b after : Buffers} {features targets : Nat}

theorem runOn_settleColumns_first (features targets : Nat) (h : b.isEmpty = true) :
    (settleColumns features targets).runOn b = (.ok (), { b with features := features, targets := targets }) := by
  unfold settleColumns
  rw [runOn_bind_of_ok (runOn_get b), if_pos h]
  rfl

theorem runOn_settleColumns_later (hrows : ¬b.isEmpty = true) (h : features = b.features ∧ targets = b.targets) :
    (settleColumns features targets).runOn b = (.ok (), b) := by
  unfold settleColumns
  rw [runOn_bind_of_ok (runOn_get b), if_neg hrows, if_pos h]
  rfl

theorem runOn_settleColumns_other (hrows : ¬b.isEmpty = true) (h : ¬(features = b.features ∧ targets = b.targets)) :
    (settleColumns features targets).runOn b =
      (.error (.shapeMismatch (.batchColumns features targets b.features b.targets)), b) := by
  unfold settleColumns
  rw [runOn_bind_of_ok (runOn_get b), if_neg hrows, if_neg h]
  rfl

theorem runOn_copyRows {rows targets : List (List Float)} (h : rows.length = targets.length) (b : Buffers) :
    (copyRows rows targets).runOn b =
      (.ok (), { b with x := b.x ++ rows.flatten, y := b.y ++ targets.flatten }) := by
  induction rows generalizing targets b with
  | nil =>
      obtain rfl : targets = [] := List.length_eq_zero_iff.1 h.symm
      simp [copyRows]
  | cons row rows ih =>
      cases targets with
      | nil => cases h
      | cons target targets =>
          have hrest : rows.length = targets.length := Nat.succ.inj h
          rw [copyRows, runOn_bind_of_ok (runOn_modify _ b), runOn_bind_of_ok (runOn_modify _ _), ih hrest]
          simp

/-- Once the columns are settled, the rows go behind the entries. -/
theorem runOn_append_of_settled {x y : Matrix Float} (hheight : x.height = y.height) (hrows : x.height ≠ 0)
    (h : (settleColumns x.cols y.cols).runOn b = (.ok (), after)) :
    (append x y).runOn b =
      (.ok (), { after with
        x := after.x ++ x.entries
        y := after.y ++ y.entries
        rows := after.rows + x.height }) := by
  have hlengths : x.rows.length = y.rows.length := by rw [x.length_rows, y.length_rows, hheight]
  unfold append
  rw [if_neg (not_not_intro hheight), if_neg hrows, runOn_bind_of_ok h,
    runOn_bind_of_ok (runOn_copyRows hlengths after), x.flatten_rows, y.flatten_rows]
  rfl

theorem runOn_merge_empty {other : Buffers} (h : other.isEmpty = true) : (merge other).runOn b = (.ok (), b) := by
  unfold merge
  rw [if_pos h]
  rfl

theorem runOn_merge_first {other : Buffers} (hother : ¬other.isEmpty = true) (h : b.isEmpty = true) :
    (merge other).runOn b = (.ok (), other) := by
  unfold merge
  rw [if_neg hother, runOn_bind_of_ok (runOn_get b), if_pos h]
  rfl

theorem runOn_merge_later {other : Buffers} (hother : ¬other.isEmpty = true) (hrows : ¬b.isEmpty = true)
    (h : other.features = b.features ∧ other.targets = b.targets) :
    (merge other).runOn b =
      (.ok (), { b with x := b.x ++ other.x, y := b.y ++ other.y, rows := b.rows + other.rows }) := by
  unfold merge
  rw [if_neg hother, runOn_bind_of_ok (runOn_get b), if_neg hrows, if_pos h]
  rfl

theorem runOn_merge_other {other : Buffers} (hother : ¬other.isEmpty = true) (hrows : ¬b.isEmpty = true)
    (h : ¬(other.features = b.features ∧ other.targets = b.targets)) :
    (merge other).runOn b =
      (.error (.shapeMismatch (.batchColumns other.features other.targets b.features b.targets)), b) := by
  unfold merge
  rw [if_neg hother, runOn_bind_of_ok (runOn_get b), if_neg hrows, if_neg h]
  rfl

end Buffers

namespace TrainingSet

/-- A training set as it lies in memory. -/
def buffers (s : TrainingSet) : Buffers :=
  ⟨s.featureEntries.reverse, s.targetEntries.reverse, s.features, s.targets, s.rows⟩

/-- What is left in memory of a set after an operation on it. -/
def settled (s : TrainingSet) : Except Fault TrainingSet → Except Fault Unit × Buffers
  | .ok next => (.ok (), next.buffers)
  | .error fault => (.error fault, s.buffers)

theorem matrix_x (s : TrainingSet) : Buffers.matrix s.buffers.rows s.buffers.features s.buffers.x = .ok s.x :=
  dif_pos s.x.filled

theorem matrix_y (s : TrainingSet) : Buffers.matrix s.buffers.rows s.buffers.targets s.buffers.y = .ok s.y :=
  dif_pos s.y.filled

theorem entries_of_isEmpty {s : TrainingSet} (h : s.isEmpty = true) :
    s.featureEntries = [] ∧ s.targetEntries = [] := by
  have hx := s.featuresFilled
  have hy := s.targetsFilled
  rw [isEmpty_iff.1 h, Nat.zero_mul] at hx hy
  exact ⟨List.length_eq_zero_iff.1 hx, List.length_eq_zero_iff.1 hy⟩

/-- The first rows settle the columns. -/
theorem buffers_ofAligned {s : TrainingSet} (hs : s.isEmpty = true) {x y : Matrix Float}
    (h : x.height = y.height) :
    (ofAligned x y h).buffers =
      ⟨s.buffers.x ++ x.entries, s.buffers.y ++ y.entries, x.cols, y.cols, s.buffers.rows + x.height⟩ := by
  have hentries := entries_of_isEmpty hs
  simp [buffers, ofAligned, hentries, isEmpty_iff.1 hs]

/-- Appending in memory does what `append` says. -/
theorem runOn_append (s : TrainingSet) (x y : Matrix Float) :
    (Buffers.append x y).runOn s.buffers = s.settled (s.append x y) := by
  unfold append
  split
  · next hheight =>
      split
      · next hzero =>
          unfold Buffers.append
          rw [if_neg (not_not_intro hheight), if_pos hzero]
          rfl
      · next hsome =>
          split
          · next hs =>
              have hfirst := Buffers.runOn_settleColumns_first (b := s.buffers) x.cols y.cols hs
              rw [Buffers.runOn_append_of_settled hheight hsome hfirst, settled, buffers_ofAligned hs]
          · next hs =>
              split
              · next hcolumns =>
                  have hlater := Buffers.runOn_settleColumns_later (b := s.buffers) hs hcolumns
                  rw [Buffers.runOn_append_of_settled hheight hsome hlater, settled]
                  simp [buffers, stack, ofAligned]
              · next hcolumns =>
                  have hother := Buffers.runOn_settleColumns_other (b := s.buffers) hs hcolumns
                  unfold Buffers.append
                  rw [if_neg (not_not_intro hheight), if_neg hsome, Edit.runOn_bind_of_error hother]
                  rfl
  · next hheight =>
      unfold Buffers.append
      rw [if_pos hheight]
      rfl

/-- Merging in memory does what `merge` says. -/
theorem runOn_merge (s other : TrainingSet) :
    (Buffers.merge other.buffers).runOn s.buffers = s.settled (s.merge other) := by
  unfold merge
  split
  · next hother => exact Buffers.runOn_merge_empty hother
  · next hother =>
      split
      · next hs => exact Buffers.runOn_merge_first hother hs
      · next hs =>
          split
          · next hcolumns =>
              have hlater : (Buffers.merge other.buffers).runOn s.buffers = _ :=
                Buffers.runOn_merge_later hother hs hcolumns
              rw [hlater, settled]
              simp [buffers, stack]
          · next hcolumns => exact Buffers.runOn_merge_other hother hs hcolumns

/-- Building a set in memory does what `ofMatrices` says. -/
theorem buffers_ofMatrices (x y : Matrix Float) :
    Buffers.ofMatrices x y = (ofMatrices x y).map buffers := by
  have hrun : (Buffers.append x y).runOn .empty = empty.settled (ofMatrices x y) := runOn_append empty x y
  unfold Buffers.ofMatrices
  rw [hrun]
  cases ofMatrices x y with
  | ok s => rfl
  | error fault => rfl

/-- The sets that come about by appending rows and merging sets. -/
inductive Reached : TrainingSet → Prop where
  | empty : Reached .empty
  | append {s next : TrainingSet} (x y : Matrix Float) : Reached s → s.append x y = .ok next → Reached next
  | merge {s other next : TrainingSet} : Reached s → Reached other → s.merge other = .ok next → Reached next

end TrainingSet

/-- The buffers that come about by appending and merging, whether that succeeds or fails. -/
inductive Buffers.Reached : Buffers → Prop where
  | empty : Reached .empty
  | append {b : Buffers} (x y : Matrix Float) : Reached b → Reached ((Buffers.append x y).runOn b).2
  | merge {b other : Buffers} : Reached b → Reached other → Reached ((Buffers.merge other).runOn b).2

/-- Such buffers are those of a training set. -/
theorem Buffers.Reached.exists_set {b : Buffers} (h : b.Reached) :
    ∃ s : TrainingSet, s.Reached ∧ b = s.buffers := by
  induction h with
  | empty => exact ⟨.empty, .empty, rfl⟩
  | append x y _ ih =>
      rcases ih with ⟨s, hs, rfl⟩
      rw [s.runOn_append x y]
      cases happend : s.append x y with
      | ok next => exact ⟨next, .append x y hs happend, rfl⟩
      | error fault => exact ⟨s, hs, rfl⟩
  | merge _ _ ih ihother =>
      rcases ih with ⟨s, hs, rfl⟩
      rcases ihother with ⟨other, hother, rfl⟩
      rw [s.runOn_merge other]
      cases hmerge : s.merge other with
      | ok next => exact ⟨next, .merge hs hother hmerge, rfl⟩
      | error fault => exact ⟨s, hs, rfl⟩

end FlightFit
