import FlightFit.Proofs.SnapshotRoundTrip

/-!
Module: FlightFit.Proofs.BlockSizes
Purpose: How the size of a stored block of weights is checked. The declared sizes are words, and so is their
  product, which is compared with the number of values. A block whose product is not that number is refused
  for its shape, unless the product differs by a multiple of the word size (`ParameterBlock.Wraps`): then the
  check lets it pass, and there is no matrix to be made of it.
Main exports: ParameterBlock.Wraps, ParameterBlock.toMatrix_eq_ok_iff, ParameterBlock.toMatrix_eq_oversized_iff,
  ParameterBlock.toMatrix_eq_shapeMismatch_iff, Snapshot.Restorable, Model.ofSnapshot_eq_oversized_iff,
  block_sizes_checked_in_words
-/

namespace FlightFit

namespace ParameterBlock

/-- The declared shape has more entries than there are values, by a multiple of the word size. -/
def Wraps (b : ParameterBlock) : Prop :=
  b.values.length < wordSize ∧ ∃ turns, b.rows * b.cols = b.values.length + (turns + 1) * wordSize

/-- The product looks right in a word, and is not right. -/
theorem wraps_iff {b : ParameterBlock} :
    b.Wraps ↔ b.values.length ≠ b.rows * b.cols ∧ b.values.length = b.rows * b.cols % wordSize := by
  have hpos : 0 < wordSize := by decide
  constructor
  · rintro ⟨hlength, turns, hproduct⟩
    have hturn : 0 < (turns + 1) * wordSize := Nat.mul_pos (Nat.succ_pos turns) hpos
    refine ⟨by omega, ?_⟩
    rw [hproduct, Nat.add_mul_mod_self_right, Nat.mod_eq_of_lt hlength]
  · rintro ⟨hne, hmod⟩
    have hdivision := Nat.div_add_mod (b.rows * b.cols) wordSize
    refine ⟨hmod ▸ Nat.mod_lt _ hpos, b.rows * b.cols / wordSize - 1, ?_⟩
    cases hturns : b.rows * b.cols / wordSize with
    | zero =>
        rw [hturns, Nat.mul_zero, Nat.zero_add] at hdivision
        exact absurd (hmod.trans hdivision) hne
    | succ turns =>
        rw [hturns, ← hmod] at hdivision
        rw [Nat.add_sub_cancel, ← hdivision, Nat.mul_comm, Nat.add_comm]

section Outcome

variable {b : ParameterBlock}

/-- A block is read as the matrix that it describes. -/
theorem toMatrix_eq_ok_iff {m : Matrix Float} : b.toMatrix = .ok m ↔ b = ofMatrix m := by
  constructor
  · intro h
    unfold toMatrix at h
    split at h
    · cases h
      rfl
    · split at h
      · cases h
      · cases h
  · rintro rfl
    exact toMatrix_ofMatrix m

theorem toMatrix_of_length (h : b.values.length = b.rows * b.cols) :
    b.toMatrix = .ok ⟨b.rows, b.cols, b.values, h⟩ :=
  toMatrix_eq_ok_iff.2 rfl

theorem toMatrix_of_wraps (h : b.Wraps) : b.toMatrix = .error (.oversized b.rows b.cols) := by
  obtain ⟨hne, hmod⟩ := wraps_iff.1 h
  unfold toMatrix
  rw [dif_neg hne, if_pos hmod]

theorem toMatrix_of_not_wraps (hne : b.values.length ≠ b.rows * b.cols) (h : ¬ b.Wraps) :
    b.toMatrix = .error (.shapeMismatch (.blockValues b.rows b.cols b.values.length)) := by
  have hmod : b.values.length ≠ b.rows * b.cols % wordSize := fun hmod => h (wraps_iff.2 ⟨hne, hmod⟩)
  unfold toMatrix
  rw [dif_neg hne, if_neg hmod]

/-- The three ways in which reading a block ends, each with its cause. -/
theorem toMatrix_cases (b : ParameterBlock) :
    (∃ h : b.values.length = b.rows * b.cols, b.toMatrix = .ok ⟨b.rows, b.cols, b.values, h⟩) ∨
    (b.Wraps ∧ b.toMatrix = .error (.oversized b.rows b.cols)) ∨
    (b.values.length ≠ b.rows * b.cols ∧ ¬ b.Wraps ∧
      b.toMatrix = .error (.shapeMismatch (.blockValues b.rows b.cols b.values.length))) := by
  by_cases hlength : b.values.length = b.rows * b.cols
  · exact .inl ⟨hlength, toMatrix_of_length hlength⟩
  · by_cases hwraps : b.Wraps
    · exact .inr (.inl ⟨hwraps, toMatrix_of_wraps hwraps⟩)
    · exact .inr (.inr ⟨hlength, hwraps, toMatrix_of_not_wraps hlength hwraps⟩)

theorem exists_toMatrix_iff :
    (∃ m, b.toMatrix = .ok m ∧ m.height = b.rows ∧ m.cols = b.cols ∧ m.entries = b.values) ↔
      b.rows * b.cols = b.values.length := by
  constructor
  · rintro ⟨m, -, hrows, hcols, hvalues⟩
    rw [← hrows, ← hcols, ← hvalues, m.filled]
  · intro h
    exact ⟨_, toMatrix_of_length h.symm, rfl, rfl, rfl⟩

theorem toMatrix_eq_oversized_iff : b.toMatrix = .error (.oversized b.rows b.cols) ↔ b.Wraps := by
  refine ⟨fun h => ?_, toMatrix_of_wraps⟩
  rcases toMatrix_cases b with ⟨hlength, hok⟩ | ⟨hwraps, -⟩ | ⟨-, -, hshape⟩
  · rw [hok] at h
    cases h
  · exact hwraps
  · rw [hshape] at h
    cases h

theorem toMatrix_eq_shapeMismatch_iff :
    b.toMatrix = .error (.shapeMismatch (.blockValues b.rows b.cols b.values.length)) ↔
      b.rows * b.cols ≠ b.values.length ∧ ¬ b.Wraps := by
  refine ⟨fun h => ?_, fun h => toMatrix_of_not_wraps h.1.symm h.2⟩
  rcases toMatrix_cases b with ⟨hlength, hok⟩ | ⟨hwraps, hoversized⟩ | ⟨hne, hwraps, -⟩
  · rw [hok] at h
    cases h
  · rw [hoversized] at h
    cases h
  · exact ⟨hne.symm, hwraps⟩

end Outcome

end ParameterBlock

/-! ### Restoring -/

theorem Regressor.named_ne_oversized {name : String} {options : RegressorOptions} {rows cols : Nat} :
    Regressor.named name options ≠ .error (.oversized rows cols) := by
  unfold Regressor.named
  split
  · rintro ⟨⟩
  · rintro ⟨⟩

theorem Transform.checked_ne_oversized {t : Transform} {rows cols : Nat} :
    t.checked ≠ .error (.oversized rows cols) := by
  cases t with
  | linear features targets intercept => rintro ⟨⟩
  | fuelFlow features targets bias =>
      simp only [checked]
      split
      · rintro ⟨⟩
      · split
        · rintro ⟨⟩
        · rintro ⟨⟩

/-- A snapshot of the version that can be read, with a method that is known and a transform that can be
    used. -/
def Snapshot.Restorable (s : Snapshot) : Prop :=
  s.formatVersion = snapshotVersion ∧ (∃ regressor, Regressor.named s.model s.options = .ok regressor) ∧
    s.transform.checked = .ok s.transform

/-- The size of the weights is looked at last, and nothing before it can go wrong in that way. -/
theorem Model.ofSnapshot_eq_oversized_iff {s : Snapshot} :
    Model.ofSnapshot s = .error (.oversized s.parameters.rows s.parameters.cols) ↔
      s.Restorable ∧ s.parameters.Wraps := by
  unfold Model.ofSnapshot
  constructor
  · intro h
    rcases bind_eq_error_iff.1 h with hversion | ⟨found, hfound, h⟩
    · unfold Snapshot.checked at hversion
      split at hversion <;> cases hversion
    · unfold Snapshot.checked at hfound
      split at hfound
      · next hversion =>
          cases hfound
          rcases bind_eq_error_iff.1 h with hnamed | ⟨regressor, hnamed, h⟩
          · exact absurd hnamed Regressor.named_ne_oversized
          · rcases bind_eq_error_iff.1 h with hchecked | ⟨transform, hchecked, h⟩
            · exact absurd hchecked Transform.checked_ne_oversized
            · obtain rfl := Transform.eq_of_checked hchecked
              rcases bind_eq_error_iff.1 h with hsize | ⟨weights, -, h⟩
              · exact ⟨⟨hversion, ⟨regressor, hnamed⟩, hchecked⟩, ParameterBlock.toMatrix_eq_oversized_iff.1 hsize⟩
              · cases h
      · cases hfound
  · rintro ⟨⟨hversion, ⟨regressor, hnamed⟩, hchecked⟩, hwraps⟩
    rw [Snapshot.checked, if_pos hversion, ok_bind, hnamed, ok_bind, hchecked, ok_bind,
      ParameterBlock.toMatrix_of_wraps hwraps, error_bind]

/-- A block is read as a matrix of its shape exactly when the product of its sizes is the number of its values.
    It is refused for its shape when that is not so, unless the product exceeds the number of values by a
    multiple of the word size. Such a block passes the check with no matrix to be made of it, and so does every
    snapshot with this block that is sound in all else. -/
theorem block_sizes_checked_in_words (b : ParameterBlock) :
    ((∃ m, b.toMatrix = .ok m ∧ m.height = b.rows ∧ m.cols = b.cols ∧ m.entries = b.values) ↔
      b.rows * b.cols = b.values.length) ∧
    (b.toMatrix = .error (.shapeMismatch (.blockValues b.rows b.cols b.values.length)) ↔
      b.rows * b.cols ≠ b.values.length ∧ ¬ b.Wraps) ∧
    (b.toMatrix = .error (.oversized b.rows b.cols) ↔ b.Wraps) ∧
    ∀ s : Snapshot, Model.ofSnapshot { s with parameters := b } = .error (.oversized b.rows b.cols) ↔
      { s with parameters := b }.Restorable ∧ b.Wraps := by
  refine ⟨ParameterBlock.exists_toMatrix_iff, ParameterBlock.toMatrix_eq_shapeMismatch_iff,
    ParameterBlock.toMatrix_eq_oversized_iff, ?_⟩
  intro s
  exact Model.ofSnapshot_eq_oversized_iff (s := { s with parameters := b })

/-- A snapshot that declares as many rows and columns as half a word counts, and holds no value. -/
def hugeSnapshot : Snapshot where
  formatVersion := 1
  model := "least_squares"
  options := {}
  transform := .linear ["a"] ["y"] false
  parameters := ⟨4294967296, 4294967296, []⟩
  metadata := ⟨2, none, "0.1.0"⟩

/-- It can be stored and read back, but the model in it is neither restored nor refused for its shape. -/
theorem huge_block_passes_size_check :
    Snapshot.ofText hugeSnapshot.text = .ok hugeSnapshot ∧
    hugeSnapshot.parameters.rows * hugeSnapshot.parameters.cols ≠ hugeSnapshot.parameters.values.length ∧
    (∀ reason, hugeSnapshot.parameters.toMatrix ≠ .error (.shapeMismatch reason)) ∧
    Model.ofSnapshot hugeSnapshot = .error (.oversized 4294967296 4294967296) := by
  have hsized : hugeSnapshot.Sized :=
    ⟨by decide, by decide, by decide, by decide, fun r hr => by cases hr⟩
  have hfinite : hugeSnapshot.isFinite = true := by decide +kernel
  have hwraps : hugeSnapshot.parameters.Wraps := ⟨by decide, 0, by decide⟩
  have hrestorable : hugeSnapshot.Restorable := ⟨rfl, ⟨_, Regressor.named_id (.leastSquares {})⟩, rfl⟩
  refine ⟨Snapshot.ofText_text_eq_ok_iff.2 ⟨hsized, hfinite, rfl⟩, by decide, ?_, ?_⟩
  · intro reason h
    rw [ParameterBlock.toMatrix_of_wraps hwraps] at h
    cases h
  · exact Model.ofSnapshot_eq_oversized_iff.2 ⟨hrestorable, hwraps⟩

end FlightFit
