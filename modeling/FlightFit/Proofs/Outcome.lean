import FlightFit.Session

/-!
Module: FlightFit.Proofs.Outcome
Purpose: How outcomes compose. A computation that can fail yields a value exactly when each of its steps
  does; an action does the same and hands the session on from step to step. The laws here let proofs
  about the program take such computations apart without opening the monads they are written in.
Main exports: bind_eq_ok_iff, bind_eq_error_iff, bind_eq_bind_of_map, run_run_bind_of_ok, run_run_bind_of_error,
  Action.outcome, Action.runOn_bind, Action.runOn_during, Action.outcome_eq_ok_iff,
  Action.runOn_bind_eq_ok_iff, Action.runOn_attempt_eq_ok_iff, Action.runOn_conclude_eq_ok_iff,
  Action.runOn_during_eq_ok_iff
-/

namespace FlightFit

section Except

variable {ε α β : Type}

@[simp] theorem ok_bind (a : α) (f : α → Except ε β) : ((Except.ok a : Except ε α) >>= f) = f a := rfl

@[simp] theorem error_bind (e : ε) (f : α → Except ε β) :
    ((Except.error e : Except ε α) >>= f) = .error e := rfl

/-- Two steps yield a value when the first one yields what the second one makes it from. -/
theorem bind_eq_ok_iff {x : Except ε α} {f : α → Except ε β} {b : β} :
    (x >>= f) = .ok b ↔ ∃ a, x = .ok a ∧ f a = .ok b := by
  cases x with
  | error e => simp
  | ok a => simp

/-- Two steps fail when the first one does, or the second one does on what the first one yields. -/
theorem bind_eq_error_iff {x : Except ε α} {f : α → Except ε β} {e : ε} :
    (x >>= f) = .error e ↔ x = .error e ∨ ∃ a, x = .ok a ∧ f a = .error e := by
  cases x with
  | error e' => simp
  | ok a => simp

@[simp] theorem mapError_ok {ε' : Type} (a : α) (f : ε → ε') :
    (Except.ok a : Except ε α).mapError f = .ok a := rfl

@[simp] theorem mapError_error {ε' : Type} (e : ε) (f : ε → ε') :
    (Except.error e : Except ε α).mapError f = .error (f e) := rfl

/-- Changing how a failure is described does not change what is yielded. -/
theorem mapError_eq_ok_iff {ε' : Type} {x : Except ε α} {f : ε → ε'} {a : α} :
    x.mapError f = .ok a ↔ x = .ok a := by
  cases x with
  | error e =>
      constructor
      · intro h
        cases h
      · intro h
        cases h
  | ok a' =>
      constructor
      · intro h
        exact congrArg Except.ok (Except.ok.inj h)
      · intro h
        exact congrArg Except.ok (Except.ok.inj h)

theorem mapError_eq_error_iff {ε' : Type} {x : Except ε α} {f : ε → ε'} {e' : ε'} :
    x.mapError f = .error e' ↔ ∃ e, x = .error e ∧ f e = e' := by
  cases x with
  | error e => simp
  | ok a => simp

theorem toOption_eq_some_iff {x : Except ε α} {a : α} : x.toOption = some a ↔ x = .ok a := by
  cases x with
  | error e => simp [Except.toOption]
  | ok a' => simp [Except.toOption]

/-- A function of the value has no part in a failure. -/
theorem map_eq_error_iff {x : Except ε α} {f : α → β} {e : ε} : x.map f = .error e ↔ x = .error e := by
  cases x with
  | error e' => simp [Except.map]
  | ok a => simp [Except.map]

theorem exists_map_eq_ok_iff {x : Except ε α} {f : α → β} : (∃ b, x.map f = .ok b) ↔ ∃ a, x = .ok a := by
  cases x with
  | error e => simp [Except.map]
  | ok a => simp [Except.map]

theorem eq_error_of_map {x : Except ε α} {f : α → β} {e : ε} (h : x.map f = .error e) : x = .error e :=
  map_eq_error_iff.1 h

/-- A function of the value is taken after the last step. -/
theorem map_bind {γ : Type} (x : Except ε α) (f : α → Except ε β) (g : β → γ) :
    (x >>= f).map g = x >>= fun a => (f a).map g := by
  cases x with
  | error e => rfl
  | ok a => rfl

/-- Steps that are seen alike are followed alike, if what follows only depends on what is seen. -/
theorem bind_eq_bind_of_map {γ δ : Type} {x : Except ε α} {y : Except ε β} {f : α → γ} {g : β → γ}
    {next : α → Except ε δ} {next' : β → Except ε δ} (h : x.map f = y.map g)
    (hnext : ∀ a b, x = .ok a → y = .ok b → f a = g b → next a = next' b) :
    x >>= next = y >>= next' := by
  cases x with
  | error e =>
      cases y with
      | error e' => exact congrArg Except.error (Except.error.inj h)
      | ok b => simp [Except.map] at h
  | ok a =>
      cases y with
      | error e' => simp [Except.map] at h
      | ok b => exact hnext a b rfl rfl (Except.ok.inj h)

section State

variable {σ : Type} {first : ExceptT ε (StateM σ) α} {state after : σ}

/-- The second of two steps on a state runs in the state that the first one leaves. -/
theorem run_run_bind_of_ok {a : α} (h : (first.run.run state : Id _) = (.ok a, after))
    (next : α → ExceptT ε (StateM σ) β) :
    ((first >>= next).run.run state : Id _) = ((next a).run.run after : Id _) := by
  rw [ExceptT.run_bind, StateT.run_bind, h]
  rfl

theorem run_run_bind_of_error {e : ε} (h : (first.run.run state : Id _) = (.error e, after))
    (next : α → ExceptT ε (StateM σ) β) :
    ((first >>= next).run.run state : Id _) = (.error e, after) := by
  rw [ExceptT.run_bind, StateT.run_bind, h]
  rfl

end State

end Except

namespace Action

variable {α β : Type}

/-- What an action answers in a session, apart from what it leaves there. -/
def outcome (action : Action α) (session : Session) : Except Failure α := (action.runOn session).1

@[simp] theorem runOn_pure (a : α) (session : Session) :
    (pure a : Action α).runOn session = (.ok a, session) := rfl

/-- The second step of an action runs in the session that the first one leaves. -/
theorem runOn_bind (action : Action α) (next : α → Action β) (session : Session) :
    (action >>= next).runOn session =
      match action.runOn session with
      | (.ok a, after) => (next a).runOn after
      | (.error failure, after) => (.error failure, after) := by
  cases h : action.runOn session with
  | mk result after =>
      cases result with
      | ok a => exact run_run_bind_of_ok h next
      | error failure => exact run_run_bind_of_error h next

@[simp] theorem runOn_get (session : Session) :
    (get : Action Session).runOn session = (.ok session, session) := rfl

@[simp] theorem runOn_fail (cause : Cause) (session : Session) :
    (fail cause : Action α).runOn session = (.error (.ofCause cause), session) := rfl

@[simp] theorem runOn_conclude (result : Except Failure α) (session : Session) :
    (conclude result).runOn session = (result, session) := by
  cases result with
  | error failure => rfl
  | ok a => rfl

@[simp] theorem runOn_attempt (result : Except Fault α) (session : Session) :
    (attempt result).runOn session = (Failure.ofResult result, session) := by
  cases result with
  | error fault => rfl
  | ok a => rfl

@[simp] theorem runOn_reportAll (events : List Event) (session : Session) :
    (reportAll events).runOn session = (.ok (), { session with log := session.log ++ events }) := rfl

@[simp] theorem runOn_report (event : Event) (session : Session) :
    (report event).runOn session = (.ok (), { session with log := session.log ++ [event] }) := rfl

/-- Naming an activity only adds to the context of a failure. -/
theorem runOn_during (activity : String) (action : Action α) (session : Session) :
    (during activity action).runOn session =
      ((action.runOn session).1.mapError (·.within activity), (action.runOn session).2) := by
  cases h : action.runOn session with
  | mk result after =>
      simp only [runOn] at h
      simp only [runOn, during, tryCatch, tryCatchThe, MonadExceptOf.tryCatch, ExceptT.tryCatch,
        ExceptT.run_mk, StateT.run_bind]
      change (StateT.run (ExceptT.run action) session >>= _ : Id _) = _
      rw [h]
      cases result with
      | ok a => rfl
      | error failure => rfl

/-! ### Success

An action succeeds exactly when each of its steps does, in the session that the step before it left. -/

section Success

variable {action : Action α} {next : α → Action β} {session after : Session} {a : α} {b : β}

theorem outcome_eq_ok_iff :
    action.outcome session = .ok a ↔ ∃ after, action.runOn session = (.ok a, after) := by
  unfold outcome
  cases action.runOn session with
  | mk result last => simp

theorem runOn_bind_eq_ok_iff :
    (action >>= next).runOn session = (.ok b, after) ↔
      ∃ a middle, action.runOn session = (.ok a, middle) ∧ (next a).runOn middle = (.ok b, after) := by
  rw [runOn_bind]
  cases action.runOn session with
  | mk result middle =>
      cases result with
      | error failure => simp
      | ok a =>
          constructor
          · intro h
            exact ⟨a, middle, rfl, h⟩
          · rintro ⟨_, _, hfirst, hnext⟩
            obtain ⟨rfl, rfl⟩ : a = _ ∧ middle = _ := by simpa using hfirst
            exact hnext

theorem runOn_attempt_eq_ok_iff {result : Except Fault α} :
    (attempt result).runOn session = (.ok a, after) ↔ result = .ok a ∧ session = after := by
  rw [runOn_attempt, Prod.mk.injEq, Failure.ofResult, mapError_eq_ok_iff]

theorem runOn_conclude_eq_ok_iff {result : Except Failure α} :
    (conclude result).runOn session = (.ok a, after) ↔ result = .ok a ∧ session = after := by
  rw [runOn_conclude, Prod.mk.injEq]

theorem runOn_during_eq_ok_iff {activity : String} :
    (during activity action).runOn session = (.ok a, after) ↔ action.runOn session = (.ok a, after) := by
  rw [runOn_during]
  cases action.runOn session with
  | mk result last => rw [Prod.mk.injEq, Prod.mk.injEq, mapError_eq_ok_iff]

end Success

end Action

end FlightFit
