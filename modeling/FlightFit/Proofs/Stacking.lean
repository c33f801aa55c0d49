import FlightFit.Proofs.Outcome
import FlightFit.TrainingSet

/-!
Module: FlightFit.Proofs.Stacking
Purpose: Training sets as lists of rows. `TrainingSet.Stacked` says that one set holds the rows of another
  and below them those of some batches, in order; merging does exactly this with one batch, and stacking
  batch after batch is stacking them all. Batches can as well be merged with each other first.
Main exports: Matrix.rows_stack, TrainingSet.Stacked, TrainingSet.stacked_of_merge,
  TrainingSet.Stacked.append, TrainingSet.merge_of_columns, TrainingSet.merge_assoc
-/

namespace FlightFit

namespace Matrix

variable {α : Type}

/-- Lists that fill whole rows are cut up one after the other. -/
theorem pieces_append (width count more : Nat) (values rest : List α) (h : values.length = count * width) :
    pieces width (count + more) (values ++ rest) = pieces width count values ++ pieces width more rest := by
  induction count generalizing values with
  | zero =>
      have hnil : values = [] := List.length_eq_zero_iff.1 (by simpa using h)
      simp [hnil, pieces]
  | succ n ih =>
      have hwidth : width ≤ values.length := by rw [h, Nat.succ_mul]; omega
      have hdrop : (values.drop width).length = n * width := by
        rw [List.length_drop, h, Nat.succ_mul, Nat.add_sub_cancel]
      rw [Nat.succ_add, pieces, pieces, List.take_append_of_le_length hwidth,
        List.drop_append_of_le_length hwidth, ih _ hdrop, List.cons_append]

theorem rows_stack (a b : Matrix α) (h : b.cols = a.cols) : (a.stack b h).rows = a.rows ++ b.rows := by
  unfold rows stack
  rw [pieces_append a.cols a.height b.height a.entries b.entries a.filled, h]

end Matrix

namespace TrainingSet

variable {s t first next last batch top bottom both middle : TrainingSet}

/-- The set with given feature and target columns. -/
def ofColumns (rows : Nat) (x y : List (List Float)) : TrainingSet :=
  .ofAligned (.ofColumns rows x) (.ofColumns rows y) rfl

theorem isEmpty_iff : s.isEmpty = true ↔ s.rows = 0 := by simp [isEmpty]

theorem isEmpty_eq_false_iff : s.isEmpty = false ↔ 0 < s.rows := by simp [isEmpty, Nat.pos_iff_ne_zero]

theorem length_x_rows (s : TrainingSet) : s.x.rows.length = s.rows := s.x.length_rows

theorem length_y_rows (s : TrainingSet) : s.y.rows.length = s.rows := s.y.length_rows

theorem x_rows_of_isEmpty (h : s.isEmpty = true) : s.x.rows = [] :=
  List.length_eq_zero_iff.1 (s.length_x_rows.trans (isEmpty_iff.1 h))

theorem y_rows_of_isEmpty (h : s.isEmpty = true) : s.y.rows = [] :=
  List.length_eq_zero_iff.1 (s.length_y_rows.trans (isEmpty_iff.1 h))

/-- `last` holds the rows of `first` and below them those of the batches, in order. Where there are rows,
    the numbers of columns agree. -/
structure Stacked (first : TrainingSet) (batches : List TrainingSet) (last : TrainingSet) : Prop where
  xRows : last.x.rows = first.x.rows ++ batches.flatMap fun batch => batch.x.rows
  yRows : last.y.rows = first.y.rows ++ batches.flatMap fun batch => batch.y.rows
  columns : ∀ s ∈ first :: batches, s.isEmpty = false → s.features = last.features ∧ s.targets = last.targets
  bare : batches = [] → last = first

namespace Stacked

variable {batches more : List TrainingSet}

theorem refl (s : TrainingSet) : Stacked s [] s := by
  refine ⟨by simp, by simp, fun t ht _ => ?_, fun _ => rfl⟩
  rw [List.mem_singleton.1 ht]
  exact ⟨rfl, rfl⟩

/-- The rows of the batches are counted in. -/
theorem rows_eq (h : Stacked first batches last) :
    last.rows = first.rows + (batches.flatMap fun batch => batch.x.rows).length := by
  rw [← length_x_rows, h.xRows, List.length_append, length_x_rows]

/-- A set with a part that has rows has rows. -/
theorem isEmpty_eq_false_of_mem (h : Stacked first batches last) (hs : s ∈ first :: batches)
    (hrows : s.isEmpty = false) : last.isEmpty = false := by
  cases hlast : last.isEmpty with
  | false => rfl
  | true =>
      have hnil := h.xRows.symm.trans (x_rows_of_isEmpty hlast)
      rw [List.append_eq_nil_iff, List.flatMap_eq_nil_iff] at hnil
      have hpart : s.x.rows = [] := by
        rcases List.mem_cons.1 hs with rfl | hs
        · exact hnil.1
        · exact hnil.2 s hs
      have hzero : s.rows = 0 := by rw [← s.length_x_rows, hpart, List.length_nil]
      rw [isEmpty_iff.2 hzero] at hrows
      exact hrows

/-- A set with rows has a part with rows. -/
theorem exists_part (h : Stacked first batches last) (hlast : last.isEmpty = false) :
    ∃ s ∈ first :: batches, s.isEmpty = false := by
  apply Classical.byContradiction
  intro hnone
  have hempty : ∀ s ∈ first :: batches, s.x.rows = [] := by
    intro s hs
    cases hrows : s.isEmpty with
    | true => exact x_rows_of_isEmpty hrows
    | false => exact absurd ⟨s, hs, hrows⟩ hnone
  have hrows : last.x.rows = [] := by
    rw [h.xRows, hempty first List.mem_cons_self, List.nil_append, List.flatMap_eq_nil_iff]
    intro batch hbatch
    exact hempty batch (List.mem_cons_of_mem _ hbatch)
  have hzero : last.rows = 0 := by rw [← length_x_rows, hrows, List.length_nil]
  rw [isEmpty_iff.2 hzero] at hlast
  cases hlast

/-- More batches go below the first ones. -/
theorem append (hfirst : Stacked first batches next) (hnext : Stacked next more last) :
    Stacked first (batches ++ more) last := by
  refine ⟨?_, ?_, fun s hs hrows => ?_, fun hnil => ?_⟩
  · rw [hnext.xRows, hfirst.xRows, List.flatMap_append, List.append_assoc]
  · rw [hnext.yRows, hfirst.yRows, List.flatMap_append, List.append_assoc]
  · rw [← List.cons_append, List.mem_append] at hs
    rcases hs with hs | hs
    · obtain ⟨hx, hy⟩ := hfirst.columns s hs hrows
      obtain ⟨hx', hy'⟩ := hnext.columns next List.mem_cons_self (hfirst.isEmpty_eq_false_of_mem hs hrows)
      exact ⟨hx.trans hx', hy.trans hy'⟩
    · exact hnext.columns s (List.mem_cons_of_mem _ hs) hrows
  · obtain ⟨hbatches, hmore⟩ := List.append_eq_nil_iff.1 hnil
    rw [hnext.bare hmore, hfirst.bare hbatches]

end Stacked

/-- Merging puts a batch below a set. -/
theorem stacked_of_merge (hbatch : batch.isEmpty = false) (h : s.merge batch = .ok t) :
    Stacked s [batch] t := by
  unfold merge at h
  rw [if_neg (by simp [hbatch])] at h
  split at h
  · next hempty =>
      obtain rfl := Except.ok.inj h
      refine ⟨?_, ?_, fun u hu hrows => ?_, by simp⟩
      · simp [x_rows_of_isEmpty hempty]
      · simp [y_rows_of_isEmpty hempty]
      · rcases List.mem_cons.1 hu with rfl | hu
        · simp [hempty] at hrows
        · rw [List.mem_singleton.1 hu]
          exact ⟨rfl, rfl⟩
  · split at h
    · next hcolumns =>
        obtain rfl := Except.ok.inj h
        refine ⟨?_, ?_, fun u hu _ => ?_, by simp⟩
        · rw [x_stack, List.flatMap_singleton]
          exact Matrix.rows_stack s.x batch.x hcolumns.1
        · rw [y_stack, List.flatMap_singleton]
          exact Matrix.rows_stack s.y batch.y hcolumns.2
        · rcases List.mem_cons.1 hu with rfl | hu
          · exact ⟨rfl, rfl⟩
          · rw [List.mem_singleton.1 hu]
            exact hcolumns
    · simp at h

section Merged

variable (hbatch : batch.isEmpty = false) (h : s.merge batch = .ok t)
include hbatch h

theorem columns_of_merge : batch.features = t.features ∧ batch.targets = t.targets :=
  (stacked_of_merge hbatch h).columns batch (List.mem_cons_of_mem _ List.mem_cons_self) hbatch

theorem columns_of_merge_first (hs : s.isEmpty = false) : s.features = t.features ∧ s.targets = t.targets :=
  (stacked_of_merge hbatch h).columns s List.mem_cons_self hs

theorem isEmpty_eq_false_of_merge : t.isEmpty = false :=
  (stacked_of_merge hbatch h).isEmpty_eq_false_of_mem (List.mem_cons_of_mem _ List.mem_cons_self) hbatch

end Merged

/-- A batch with the columns of a set, if that has rows, can be merged into it. -/
theorem merge_of_columns (hbatch : batch.isEmpty = false)
    (hcolumns : s.isEmpty = false → batch.features = s.features ∧ batch.targets = s.targets) :
    ∃ t, s.merge batch = .ok t := by
  unfold merge
  rw [if_neg (by simp [hbatch])]
  split
  · exact ⟨batch, rfl⟩
  · next hrows => exact ⟨_, dif_pos (hcolumns (by simpa using hrows))⟩

/-! ### Merging one batch after the other -/

theorem stack_assoc (hx : top.features = s.features) (hy : top.targets = s.targets)
    (hx' : bottom.features = top.features) (hy' : bottom.targets = top.targets) :
    (s.stack top hx hy).stack bottom (hx'.trans hx) (hy'.trans hy) =
      s.stack (top.stack bottom hx' hy') hx hy := by
  simp [stack, Nat.add_assoc]

theorem merge_of_isEmpty (hs : s.isEmpty = true) (htop : top.isEmpty = false) :
    s.merge top = .ok top := by
  simp [merge, hs, htop]

theorem merge_eq_stack (hs : s.isEmpty = false) (htop : top.isEmpty = false)
    (hx : top.features = s.features) (hy : top.targets = s.targets) :
    s.merge top = .ok (s.stack top hx hy) := by
  simp [merge, hs, htop, hx, hy]

theorem exists_stack_of_merge (hs : s.isEmpty = false) (htop : top.isEmpty = false)
    (h : s.merge top = .ok middle) : ∃ hx hy, middle = s.stack top hx hy := by
  obtain ⟨hx, hy⟩ := columns_of_merge htop h
  obtain ⟨hx', hy'⟩ := columns_of_merge_first htop h hs
  have hstack := merge_eq_stack hs htop (hx.trans hx'.symm) (hy.trans hy'.symm)
  exact ⟨_, _, Except.ok.inj (h.symm.trans hstack)⟩

/-- Two batches can be merged into a set one after the other, or first with each other. -/
theorem merge_assoc (htop : top.isEmpty = false) (hbottom : bottom.isEmpty = false)
    (hmiddle : s.merge top = .ok middle) (hboth : top.merge bottom = .ok both) :
    middle.merge bottom = s.merge both := by
  have hrows : both.isEmpty = false := isEmpty_eq_false_of_merge hbottom hboth
  cases hs : s.isEmpty with
  | true =>
      obtain rfl := Except.ok.inj ((merge_of_isEmpty hs htop).symm.trans hmiddle)
      rw [hboth, merge_of_isEmpty hs hrows]
  | false =>
      have hsome : middle.isEmpty = false := isEmpty_eq_false_of_merge htop hmiddle
      obtain ⟨hx, hy, rfl⟩ := exists_stack_of_merge hs htop hmiddle
      obtain ⟨hx', hy', rfl⟩ := exists_stack_of_merge htop hbottom hboth
      rw [merge_eq_stack hsome hbottom (hx'.trans hx) (hy'.trans hy), merge_eq_stack hs hrows hx hy,
        stack_assoc]

end TrainingSet

end FlightFit
