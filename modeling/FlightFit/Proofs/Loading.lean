import FlightFit.Load.Files
import FlightFit.Proofs.Files

/-!
Module: FlightFit.Proofs.Loading
Purpose: What loading depends on. An action that reads only leaves the store as it is, and answers the same
  in every session in which the files it names are read as here; reports made before do not matter. Loading
  telemetry and units is such work, and so is everything that makes no use of files at all.
Main exports: Action.ReadsOnly, Action.ReadsOnly.bind, Action.ReadsOnly.outcome_of_retains,
  Action.readsOnly_readText, readsOnly_loadUnits, readsOnly_loadFile, readsOnly_loadAll, Table.MadeOf,
  madeOf_of_loadAll
-/

namespace FlightFit

namespace Action

variable {α β : Type} {paths : List String}

/-- Where the action succeeds it leaves the store as it is, and it succeeds with the same answer in every
    session in which the files at some paths are read as here. -/
def ReadsOnly (paths : List String) (action : Action α) : Prop :=
  ∀ (session after : Session) (a : α), action.runOn session = (.ok a, after) →
    after.store = session.store ∧
      ∀ other : Session, (∀ path ∈ paths, session.store.Retains other.store path) → action.outcome other = .ok a

namespace ReadsOnly

variable {action : Action α} {next : α → Action β} {session after other : Session} {a : α}

theorem store_eq (h : ReadsOnly paths action) (hrun : action.runOn session = (.ok a, after)) :
    after.store = session.store := (h session after a hrun).1

theorem outcome_of_retains (h : ReadsOnly paths action) (hok : action.outcome session = .ok a)
    (hretains : ∀ path ∈ paths, session.store.Retains other.store path) : action.outcome other = .ok a := by
  obtain ⟨after, hrun⟩ := outcome_eq_ok_iff.1 hok
  exact (h session after a hrun).2 other hretains

/-- The answer does not depend on the reports so far. -/
theorem outcome_eq (h : ReadsOnly paths action) (hok : action.outcome session = .ok a)
    (hstore : other.store = session.store) : action.outcome other = .ok a := by
  apply h.outcome_of_retains hok
  intro path _
  rw [hstore]
  exact .refl _ _

theorem mono {more : List String} (h : ReadsOnly paths action) (hpaths : paths ⊆ more) : ReadsOnly more action := by
  intro session after a hrun
  obtain ⟨hstore, hsame⟩ := h session after a hrun
  exact ⟨hstore, fun other hretains => hsame other fun path hpath => hretains path (hpaths hpath)⟩

/-- Steps that read only make work that reads only. -/
theorem bind (h : ReadsOnly paths action) (hnext : ∀ a, ReadsOnly paths (next a)) :
    ReadsOnly paths (action >>= next) := by
  intro session after b hrun
  obtain ⟨a, middle, hfirst, hsecond⟩ := runOn_bind_eq_ok_iff.1 hrun
  obtain ⟨hmiddle, hsame⟩ := h session middle a hfirst
  obtain ⟨hafter, hsame'⟩ := hnext a middle after b hsecond
  refine ⟨hafter.trans hmiddle, fun other hretains => ?_⟩
  obtain ⟨middle', hfirst'⟩ := outcome_eq_ok_iff.1 (hsame other hretains)
  have hstore := h.store_eq hfirst'
  have hsecond' : (next a).outcome middle' = .ok b := by
    apply hsame' middle'
    rw [hmiddle, hstore]
    exact hretains
  obtain ⟨after', hlast⟩ := outcome_eq_ok_iff.1 hsecond'
  exact outcome_eq_ok_iff.2 ⟨after', runOn_bind_eq_ok_iff.2 ⟨a, middle', hfirst', hlast⟩⟩

/-- After a step that reads only, work goes on from the same store. -/
theorem outcome_bind {b : β} (h : ReadsOnly paths action) (hfirst : action.outcome session = .ok a)
    (hnext : ∀ middle : Session, middle.store = session.store → (next a).outcome middle = .ok b) :
    (action >>= next).outcome session = .ok b := by
  obtain ⟨middle, hfirst⟩ := outcome_eq_ok_iff.1 hfirst
  obtain ⟨last, hlast⟩ := outcome_eq_ok_iff.1 (hnext middle (h.store_eq hfirst))
  exact outcome_eq_ok_iff.2 ⟨last, runOn_bind_eq_ok_iff.2 ⟨a, middle, hfirst, hlast⟩⟩

theorem during (h : ReadsOnly paths action) (activity : String) : ReadsOnly paths (during activity action) := by
  intro session after a hrun
  obtain ⟨hstore, hsame⟩ := h session after a (runOn_during_eq_ok_iff.1 hrun)
  refine ⟨hstore, fun other hretains => ?_⟩
  obtain ⟨after', hlast⟩ := outcome_eq_ok_iff.1 (hsame other hretains)
  exact outcome_eq_ok_iff.2 ⟨after', runOn_during_eq_ok_iff.2 hlast⟩

end ReadsOnly

theorem readsOnly_conclude (result : Except Failure α) : ReadsOnly paths (conclude result) := by
  intro session after a hrun
  obtain ⟨hresult, rfl⟩ := runOn_conclude_eq_ok_iff.1 hrun
  exact ⟨rfl, fun other _ => outcome_eq_ok_iff.2 ⟨other, runOn_conclude_eq_ok_iff.2 ⟨hresult, rfl⟩⟩⟩

theorem readsOnly_pure (a : α) : ReadsOnly paths (pure a : Action α) := readsOnly_conclude (.ok a)

theorem readsOnly_attempt (result : Except Fault α) : ReadsOnly paths (attempt result) := by
  intro session after a hrun
  obtain ⟨hresult, rfl⟩ := runOn_attempt_eq_ok_iff.1 hrun
  exact ⟨rfl, fun other _ => outcome_eq_ok_iff.2 ⟨other, runOn_attempt_eq_ok_iff.2 ⟨hresult, rfl⟩⟩⟩

theorem readsOnly_reportAll (events : List Event) : ReadsOnly paths (reportAll events) := by
  intro session after a hrun
  obtain rfl := (Prod.mk.inj hrun).2
  exact ⟨rfl, fun other _ => rfl⟩

theorem readsOnly_report (event : Event) : ReadsOnly paths (report event) := readsOnly_reportAll [event]

theorem readsOnly_decode (result : Except Json.Defect α) : ReadsOnly paths (decode result) := by
  cases result with
  | ok value => exact readsOnly_pure value
  | error defect => exact readsOnly_conclude (.error (.ofCause (.json defect)))

/-- An action that never succeeds. -/
def Fails (action : Action α) : Prop := ∀ session, ∃ failure, action.outcome session = .error failure

theorem fails_fail (cause : Cause) : Fails (fail cause : Action α) := fun _ => ⟨_, rfl⟩

theorem Fails.during {action : Action α} (h : Fails action) (activity : String) :
    Fails (during activity action) := by
  intro session
  obtain ⟨failure, hfailure⟩ := h session
  have hrun : (action.runOn session).1 = .error failure := hfailure
  rw [outcome, runOn_during, hrun]
  exact ⟨_, rfl⟩

theorem Fails.readsOnly {action : Action α} (h : Fails action) : ReadsOnly paths action := by
  intro session after a hrun
  obtain ⟨failure, hfailure⟩ := h session
  rw [outcome, hrun] at hfailure
  simp at hfailure

theorem runOn_consult (question : Store → Except StoreFault α) (session : Session) :
    (consult question).runOn session =
      ((question session.store).mapError fun fault => .ofCause (.store fault), session) := by
  unfold consult
  rw [runOn_bind, runOn_get]
  cases h : question session.store with
  | ok value => simp only [h]; rfl
  | error fault => simp only [h]; rfl

theorem runOn_consult_eq_ok_iff {question : Store → Except StoreFault α} {session after : Session} {a : α} :
    (consult question).runOn session = (.ok a, after) ↔ question session.store = .ok a ∧ session = after := by
  rw [runOn_consult, Prod.mk.injEq, mapError_eq_ok_iff]

theorem readsOnly_readText {path : String} (hpath : path ∈ paths) : ReadsOnly paths (readText path) := by
  intro session after text hrun
  obtain ⟨htext, rfl⟩ := runOn_consult_eq_ok_iff.1 hrun
  refine ⟨rfl, fun other hretains => outcome_eq_ok_iff.2 ⟨other, ?_⟩⟩
  exact runOn_consult_eq_ok_iff.2 ⟨(hretains path hpath).readText htext, rfl⟩

/-- Work on one file depends on what that file holds, if it fails where the file cannot be read. -/
theorem readsOnly_of_read {path : String} (hpath : path ∈ paths) {action : Action α} (next : Content → Action α)
    (hnext : ∀ content, ReadsOnly paths (next content))
    (hok : ∀ session content, session.store.read path = .ok content →
      action.runOn session = (next content).runOn session)
    (herror : ∀ session fault, session.store.read path = .error fault →
      ∃ failure, action.outcome session = .error failure) : ReadsOnly paths action := by
  intro session after a hrun
  cases hread : session.store.read path with
  | error fault =>
      obtain ⟨failure, hfailure⟩ := herror session fault hread
      rw [outcome, hrun] at hfailure
      simp at hfailure
  | ok content =>
      rw [hok session content hread] at hrun
      obtain ⟨hstore, hsame⟩ := hnext content session after a hrun
      refine ⟨hstore, fun other hretains => ?_⟩
      rw [outcome, hok other content (hretains path hpath content hread)]
      exact hsame other hretains

end Action

open FlightFit.Action

/-! ### Loading -/

theorem readsOnly_loadUnits {paths : List String} {path : String} (hpath : path ∈ paths) :
    ReadsOnly paths (loadUnits path) :=
  ((readsOnly_readText hpath).during _).bind fun _ => (readsOnly_decode _).during _

/-- What is read from the content of a file of delimited text. -/
def takeDelimited (delimiter : UInt8) : Content → Action Columns
  | .bytes data => conclude (Delimited.columnsOfBytes delimiter data.data.toList)
  | .columns _ => during "reading headers" (fail .encoding)

theorem readsOnly_delimitedColumns {paths : List String} {path : String} (hpath : path ∈ paths) (delimiter : UInt8) :
    ReadsOnly paths (delimitedColumns delimiter path) := by
  refine readsOnly_of_read hpath (takeDelimited delimiter) (fun content => ?_) (fun session content hread => ?_)
    fun session fault hread => ?_
  · cases content with
    | bytes data => exact readsOnly_conclude _
    | columns columns => exact ((fails_fail _).during _).readsOnly
  · rw [delimitedColumns, runOn_bind, runOn_get]
    cases content <;> simp only [hread, takeDelimited]
  · rw [delimitedColumns, outcome, runOn_bind, runOn_get]
    cases fault <;> simp only [hread] <;> exact (fails_fail _).during _ session

theorem readsOnly_jsonColumns {paths : List String} {path : String} (hpath : path ∈ paths) :
    ReadsOnly paths (jsonColumns path) := by
  refine ((readsOnly_readText hpath).during _).bind fun text => ?_
  exact ((readsOnly_decode _).during _).bind fun value => readsOnly_conclude _

/-- What is read from the content of a columnar file. -/
def takeColumnar : Content → Action Columns
  | .columns columns => conclude (Columnar.columnsOf columns)
  | .bytes _ => during "reading parquet metadata" (fail .columnar)

theorem readsOnly_columnarColumns {paths : List String} {path : String} (hpath : path ∈ paths) :
    ReadsOnly paths (columnarColumns path) := by
  refine readsOnly_of_read hpath takeColumnar (fun content => ?_) (fun session content hread => ?_)
    fun session fault hread => ?_
  · cases content with
    | bytes data => exact ((fails_fail _).during _).readsOnly
    | columns columns => exact readsOnly_conclude _
  · rw [columnarColumns, runOn_bind, runOn_get]
    cases content <;> simp only [hread, takeColumnar]
  · rw [columnarColumns, outcome, runOn_bind, runOn_get]
    cases fault <;> simp only [hread] <;> exact (fails_fail _).during _ session

theorem readsOnly_tableOf {paths : List String} {columns : Action Columns} (h : ReadsOnly paths columns) :
    ReadsOnly paths (tableOf columns) := h.bind fun _ => readsOnly_attempt _

theorem readsOnly_loadFile {paths : List String} {path : String} (hpath : path ∈ paths) (delimiter : UInt8) :
    ReadsOnly paths (loadFile delimiter path) := by
  unfold loadFile
  dsimp only
  split
  · exact (fails_fail _).readsOnly
  · next format _ =>
      refine ReadsOnly.bind (ReadsOnly.during ?_ _) fun table => (readsOnly_report _).bind fun _ => readsOnly_pure table
      cases format with
      | columnar => exact readsOnly_tableOf (readsOnly_columnarColumns hpath)
      | json => exact readsOnly_tableOf (readsOnly_jsonColumns hpath)
      | delimited => exact readsOnly_tableOf (readsOnly_delimitedColumns hpath delimiter)

theorem readsOnly_loadBelow {paths files : List String} (hfiles : files ⊆ paths) (delimiter : UInt8) (table : Table) :
    ReadsOnly paths (loadBelow delimiter table files) := by
  induction files generalizing table with
  | nil => exact readsOnly_pure table
  | cons path rest ih =>
      obtain ⟨hpath, hrest⟩ := List.cons_subset.1 hfiles
      refine (readsOnly_loadFile hpath delimiter).bind fun next => ?_
      exact ((readsOnly_attempt _).during _).bind fun extended => ih hrest extended

theorem readsOnly_convertUnits {paths : List String} (converter : UnitConverter) (table : Table) :
    ReadsOnly paths (convertUnits converter table) := by
  unfold convertUnits
  split
  · exact (readsOnly_report _).bind fun _ => readsOnly_pure _
  · split
    · exact ((fails_fail _).during _).readsOnly
    · exact (fails_fail _).readsOnly

/-- Loading telemetry depends on the files that are loaded. -/
theorem readsOnly_loadAll (delimiter : UInt8) (converter : Option UnitConverter) (files : List String) :
    ReadsOnly files (loadAll delimiter converter files) := by
  refine (readsOnly_loadBelow (List.Subset.refl files) delimiter .empty).bind fun table => ?_
  cases converter with
  | none => exact readsOnly_pure table
  | some converter => exact readsOnly_convertUnits converter table

/-! ### What has been loaded -/

/-- A table is made of files: each of them can be loaded by itself, and the tables have been put one below
    the other and converted. -/
def Table.MadeOf (table : Table) (files : List String) (delimiter : UInt8) (converter : Option UnitConverter)
    (session : Session) : Prop :=
  ∃ (tables : List Table) (joined : Table), files.map (fun path => (loadFile delimiter path).outcome session) = tables.map .ok ∧
    tables.foldlM Table.extend Table.empty = .ok joined ∧
    match converter with
    | some converter => converter.apply joined = (table, .ok ())
    | none => table = joined

/-- Loading files one below the other is loading each of them and joining the tables. -/
theorem exists_tables_of_loadBelow {delimiter : UInt8} {files : List String} {table last : Table}
    {session after : Session} (h : (loadBelow delimiter table files).runOn session = (.ok last, after)) :
    ∃ tables : List Table, tables.foldlM Table.extend table = .ok last ∧
      ∀ other : Session, other.store = session.store →
        files.map (fun path => (loadFile delimiter path).outcome other) = tables.map .ok := by
  induction files generalizing table session with
  | nil =>
      obtain ⟨rfl, -⟩ : table = last ∧ session = after := by simpa [loadBelow] using h
      exact ⟨[], rfl, fun _ _ => rfl⟩
  | cons path rest ih =>
      obtain ⟨first, loaded, hfirst, h⟩ := runOn_bind_eq_ok_iff.1 h
      obtain ⟨next, appended, hnext, h⟩ := runOn_bind_eq_ok_iff.1 h
      obtain ⟨hextend, rfl⟩ := runOn_attempt_eq_ok_iff.1 (runOn_during_eq_ok_iff.1 hnext)
      obtain ⟨tables, hjoined, htables⟩ := ih h
      have hpath : ReadsOnly [path] (loadFile delimiter path) := readsOnly_loadFile List.mem_cons_self delimiter
      have hstore := hpath.store_eq hfirst
      refine ⟨first :: tables, ?_, fun other hother => ?_⟩
      · rw [List.foldlM_cons, hextend]
        exact hjoined
      · have hloaded := hpath.outcome_eq (outcome_eq_ok_iff.2 ⟨loaded, hfirst⟩) hother
        rw [List.map_cons, List.map_cons, hloaded, htables other (hother.trans hstore.symm)]

theorem madeOf_of_loadAll {delimiter : UInt8} {converter : Option UnitConverter} {files : List String}
    {table : Table} {session : Session} (h : (loadAll delimiter converter files).outcome session = .ok table) :
    table.MadeOf files delimiter converter session := by
  obtain ⟨after, h⟩ := outcome_eq_ok_iff.1 h
  obtain ⟨joined, middle, hbelow, h⟩ := runOn_bind_eq_ok_iff.1 h
  obtain ⟨tables, hjoined, htables⟩ := exists_tables_of_loadBelow hbelow
  refine ⟨tables, joined, htables session rfl, hjoined, ?_⟩
  cases converter with
  | none => exact (Except.ok.inj (Prod.mk.inj h).1).symm
  | some converter =>
      simp only [convertUnits] at h
      split at h
      · next converted happly =>
          obtain ⟨_, _, -, h⟩ := runOn_bind_eq_ok_iff.1 h
          obtain rfl := Except.ok.inj (Prod.mk.inj h).1
          exact happly
      · split at h
        · simp [runOn_during] at h
        · simp at h

end FlightFit
