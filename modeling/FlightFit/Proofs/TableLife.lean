import FlightFit.Proofs.Loading
import FlightFit.Proofs.WindowRows

/-!
Module: FlightFit.Proofs.TableLife
Purpose: Tables along their life. Building, extending, writing a sample, converting units and loading keep a
  table well-formed, whether they succeed or fail. In a well-formed table a selection finds every sample it
  asks for: what is outside the rows or has an unknown name is refused, and every entry of what is selected
  is a sample of its channel.
Main exports: Table.wellFormed_ofColumns, Table.extend_eq_ok_iff, Table.wellFormed_extend,
  Table.wellFormed_applyAll, wellFormed_loadAll, Table.Operation, Table.perform, Table.Reached,
  Table.Reached.wellFormed, Table.Selects, Table.WellFormed.selects
-/

namespace FlightFit

namespace Table

/-! ### Building -/

theorem names_put (name : String) (samples : List Float) (channels : List Channel) :
    (put name samples channels).map Channel.name =
      if name ∈ channels.map Channel.name then channels.map Channel.name
      else channels.map Channel.name ++ [name] := by
  induction channels with
  | nil => rfl
  | cons c rest ih =>
      by_cases hname : c.name = name
      · simp [put, hname]
      · have hne : name ≠ c.name := fun h => hname h.symm
        simp only [put, if_neg hname, List.map_cons, ih, List.mem_cons, hne, false_or]
        split <;> rfl

theorem mem_put {name : String} {samples : List Float} {channels : List Channel} {c : Channel}
    (h : c ∈ put name samples channels) : c = ⟨name, samples⟩ ∨ c ∈ channels := by
  induction channels with
  | nil => exact .inl (List.mem_singleton.1 h)
  | cons other rest ih =>
      unfold put at h
      split at h
      · rcases List.mem_cons.1 h with h | h
        · exact .inl h
        · exact .inr (List.mem_cons_of_mem _ h)
      · rcases List.mem_cons.1 h with rfl | h
        · exact .inr List.mem_cons_self
        · exact (ih h).imp_right (List.mem_cons_of_mem _)

/-- Channels with different names and a given number of samples each. -/
structure Aligned (rows : Nat) (channels : List Channel) : Prop where
  distinct : (channels.map Channel.name).Nodup
  lengths : ∀ c ∈ channels, c.samples.length = rows

theorem nodup_put {channels : List Channel} (h : (channels.map Channel.name).Nodup) (name : String)
    (samples : List Float) : ((put name samples channels).map Channel.name).Nodup := by
  rw [names_put]
  split
  · exact h
  · next hnew =>
      refine List.nodup_append.2 ⟨h, by simp, ?_⟩
      rintro other hother _ hname rfl
      rw [List.mem_singleton.1 hname] at hother
      exact hnew hother

theorem Aligned.put {rows : Nat} {channels : List Channel} (h : Aligned rows channels) (name : String)
    {samples : List Float} (hlength : samples.length = rows) : Aligned rows (put name samples channels) := by
  constructor
  · exact nodup_put h.distinct name samples
  · intro c hc
    rcases mem_put hc with rfl | hc
    · exact hlength
    · exact h.lengths c hc

/-- Columns of one length give aligned channels, and some channel if there is a column. -/
theorem aligned_foldl_put {rows : Nat} {columns : List (String × List Float)} {channels : List Channel}
    (h : Aligned rows channels) (hlengths : ∀ column ∈ columns, column.2.length = rows) :
    Aligned rows (columns.foldl (fun channels column => Table.put column.1 column.2 channels) channels) ∧
      (columns.foldl (fun channels column => Table.put column.1 column.2 channels) channels = [] →
        columns = [] ∧ channels = []) := by
  induction columns generalizing channels with
  | nil => exact ⟨h, fun hnil => ⟨rfl, hnil⟩⟩
  | cons column rest ih =>
      obtain ⟨hcolumn, hrest⟩ := List.forall_mem_cons.1 hlengths
      obtain ⟨haligned, hsome⟩ := ih (h.put column.1 hcolumn) hrest
      refine ⟨haligned, fun hnil => ?_⟩
      have hput := (hsome hnil).2
      cases channels with
      | nil => simp [Table.put] at hput
      | cons c more =>
          unfold Table.put at hput
          split at hput <;> simp at hput

/-- A table is built from columns of one length. -/
theorem of_ofColumns {columns : List (String × List Float)} {t : Table} (h : Table.ofColumns columns = .ok t) :
    (columns = [] → t.rows = 0) ∧ (∀ column ∈ columns, column.2.length = t.rows) ∧
      t.channels = columns.foldl (fun channels column => Table.put column.1 column.2 channels) [] := by
  cases columns with
  | nil =>
      obtain rfl := Except.ok.inj h
      exact ⟨fun _ => rfl, by simp, rfl⟩
  | cons first rest =>
      simp only [Table.ofColumns] at h
      split at h
      · simp at h
      · next hnone =>
          obtain rfl := Except.ok.inj h
          refine ⟨by simp, fun column hcolumn => ?_, rfl⟩
          simpa using List.find?_eq_none.1 hnone column hcolumn

/-- A table that is built is well-formed. -/
theorem wellFormed_ofColumns {columns : List (String × List Float)} {t : Table}
    (h : Table.ofColumns columns = .ok t) : t.WellFormed := by
  obtain ⟨hbare, hlengths, hchannels⟩ := of_ofColumns h
  have hnone : Aligned t.rows [] := ⟨List.nodup_nil, by simp⟩
  obtain ⟨haligned, hsome⟩ := aligned_foldl_put hnone hlengths
  rw [← hchannels] at haligned hsome
  exact ⟨haligned.distinct, haligned.lengths, fun hnil => hbare (hsome hnil).1⟩

theorem wellFormed_empty : empty.WellFormed := ⟨List.nodup_nil, by simp [empty], fun _ => rfl⟩

/-! ### Extending -/

/-- A table takes over another one if it has no channels; otherwise both need the same channels. -/
theorem extend_eq_ok_iff {t other next : Table} :
    t.extend other = .ok next ↔
      (t.channels = [] ∧ next = other) ∨ (t.channels ≠ [] ∧ SameChannels t other ∧ next = t.joined other) := by
  by_cases hbare : t.channels = []
  · have hadopt : t.extend other = .ok other := by simp [extend, hbare]
    rw [hadopt, Except.ok.injEq]
    simp [hbare, eq_comm]
  by_cases hsame : SameChannels t other
  · rw [extend_of_sameChannels hbare hsame, Except.ok.injEq]
    simp [hbare, hsame, eq_comm]
  have hrefused : ¬ t.extend other = .ok next := by
    intro h
    unfold extend at h
    rw [if_neg (by simpa using hbare)] at h
    split at h
    · simp at h
    · next hforth =>
        split at h
        · simp at h
        · next hback =>
            apply hsame
            intro name
            rw [← has_iff, ← has_iff]
            constructor
            · intro hname
              simpa using List.find?_eq_none.1 hback name (has_iff.1 hname)
            · intro hname
              simpa using List.find?_eq_none.1 hforth name (has_iff.1 hname)
  simp [hrefused, hbare, hsame]

theorem names_joined (a b : Table) : (a.joined b).names = a.names := by
  simp [names, joined]

theorem wellFormed_joined {a b : Table} (ha : a.WellFormed) (hb : b.WellFormed) (hchannels : a.channels ≠ [])
    (h : SameChannels a b) : (a.joined b).WellFormed := by
  refine ⟨by rw [names_joined]; exact ha.distinct, ?_, fun hbare => ?_⟩
  · intro c hc
    obtain ⟨top, htop, rfl⟩ := List.mem_map.1 hc
    have hname : top.name ∈ b.names := (h _).1 (List.mem_map_of_mem htop)
    rcases channel_cases b top.name with ⟨-, bottom, hfind, hbottom⟩ | ⟨hnot, -⟩
    · rw [hfind, Option.getD_some, List.length_append, ha.aligned top htop, hb.length_of_channel hbottom]
      rfl
    · exact absurd hname hnot
  · exact absurd (List.map_eq_nil_iff.1 hbare) hchannels

theorem wellFormed_extend {t other next : Table} (ht : t.WellFormed) (hother : other.WellFormed)
    (h : t.extend other = .ok next) : next.WellFormed := by
  rcases extend_eq_ok_iff.1 h with ⟨-, rfl⟩ | ⟨hchannels, hsame, rfl⟩
  · exact hother
  · exact wellFormed_joined ht hother hchannels hsame

/-! ### Changing samples -/

/-- New samples in place of as many old ones keep a table well-formed. -/
theorem wellFormed_update {t next : Table} {name : String} {f : List Float → List Float} (ht : t.WellFormed)
    (hf : ∀ samples, (f samples).length = samples.length) (h : t.update name f = .ok next) : next.WellFormed := by
  unfold update at h
  split at h
  · obtain rfl := Except.ok.inj h
    have hnames : (t.channels.map fun c => if c.name = name then ⟨name, f c.samples⟩ else c).map Channel.name =
        t.channels.map Channel.name := by
      rw [List.map_map]
      apply List.map_congr_left
      intro c _
      by_cases hname : c.name = name
      · simp [hname]
      · simp [hname]
    refine ⟨?_, ?_, fun hbare => ht.bare (List.map_eq_nil_iff.1 hbare)⟩
    · unfold names
      rw [hnames]
      exact ht.distinct
    intro c hc
    obtain ⟨old, hold, rfl⟩ := List.mem_map.1 hc
    have hlength := ht.aligned old hold
    split
    · exact (hf old.samples).trans hlength
    · exact hlength
  · simp at h

theorem wellFormed_write {t next : Table} {name : String} {index : Nat} {value : Float} (ht : t.WellFormed)
    (h : t.write name index value = .ok next) : next.WellFormed :=
  wellFormed_update ht (fun _ => List.length_set) h

/-- Converting units keeps a table well-formed, also where it stops at a channel that is not there. -/
theorem wellFormed_applyAll (conversions : List (String × Conversion)) {t : Table} (ht : t.WellFormed) :
    (UnitConverter.applyAll conversions t).1.WellFormed := by
  induction conversions generalizing t with
  | nil => exact ht
  | cons conversion rest ih =>
      unfold UnitConverter.applyAll
      split
      · next next hupdate => exact ih (wellFormed_update ht (fun _ => List.length_map _) hupdate)
      · exact ht

end Table

/-! ### Loading -/

section Loading

open FlightFit.Action FlightFit.Failure

variable {session after : Session} {t : Table} {delimiter : UInt8} {path : String}

/-- A table is well-formed whatever the columns are that it is made of. -/
theorem wellFormed_tableOf {columns : Action Columns} (h : (tableOf columns).runOn session = (.ok t, after)) :
    t.WellFormed := by
  obtain ⟨read, _, -, h⟩ := runOn_bind_eq_ok_iff.1 h
  exact Table.wellFormed_ofColumns (runOn_attempt_eq_ok_iff.1 h).1

/-- A table is well-formed whatever file it comes from. -/
theorem wellFormed_loadFile (h : (loadFile delimiter path).runOn session = (.ok t, after)) : t.WellFormed := by
  unfold loadFile at h
  dsimp only at h
  split at h
  · rw [runOn_fail] at h
    simp at h
  · next format _ =>
      obtain ⟨table, _, hload, h⟩ := runOn_bind_eq_ok_iff.1 h
      obtain ⟨_, _, -, h⟩ := runOn_bind_eq_ok_iff.1 h
      obtain ⟨rfl, -⟩ : table = t ∧ _ := by simpa using h
      rw [runOn_during_eq_ok_iff] at hload
      cases format with
      | columnar | json | delimited => exact wellFormed_tableOf hload

theorem wellFormed_loadBelow {paths : List String} {table : Table} (htable : table.WellFormed)
    (h : (loadBelow delimiter table paths).runOn session = (.ok t, after)) : t.WellFormed := by
  induction paths generalizing table session with
  | nil =>
      obtain ⟨rfl, -⟩ : table = t ∧ _ := by simpa [loadBelow] using h
      exact htable
  | cons path rest ih =>
      obtain ⟨next, _, hload, h⟩ := runOn_bind_eq_ok_iff.1 h
      obtain ⟨extended, _, hextend, h⟩ := runOn_bind_eq_ok_iff.1 h
      rw [runOn_during_eq_ok_iff, runOn_attempt_eq_ok_iff] at hextend
      exact ih (Table.wellFormed_extend htable (wellFormed_loadFile hload) hextend.1) h

theorem wellFormed_convertUnits {converter : UnitConverter} {table : Table} (htable : table.WellFormed)
    (h : (convertUnits converter table).runOn session = (.ok t, after)) : t.WellFormed := by
  have hconverted := Table.wellFormed_applyAll converter.conversions htable
  unfold convertUnits UnitConverter.apply at h
  split at h
  · next converted hok =>
      obtain ⟨_, _, -, h⟩ := runOn_bind_eq_ok_iff.1 h
      obtain ⟨rfl, -⟩ : converted = t ∧ _ := by simpa using h
      rw [hok] at hconverted
      exact hconverted
  · split at h
    · rw [runOn_during_eq_ok_iff, runOn_fail] at h
      simp at h
    · rw [runOn_fail] at h
      simp at h

/-- Files that are loaded together give a well-formed table. -/
theorem wellFormed_loadAll {converter : Option UnitConverter} {paths : List String}
    (h : (loadAll delimiter converter paths).outcome session = .ok t) : t.WellFormed := by
  obtain ⟨after, h⟩ := outcome_eq_ok_iff.1 h
  obtain ⟨table, _, hload, h⟩ := runOn_bind_eq_ok_iff.1 h
  have htable := wellFormed_loadBelow Table.wellFormed_empty hload
  cases converter with
  | none =>
      obtain ⟨rfl, -⟩ : table = t ∧ _ := by simpa using h
      exact htable
  | some converter => exact wellFormed_convertUnits htable h

end Loading

namespace Table

/-! ### Operations -/

/-- Something that is done with a table. -/
inductive Operation where
  | build (columns : List (String × List Float))
  | extend (other : Table)
  | write (name : String) (index : Nat) (value : Float)
  | convert (converter : UnitConverter)
  | load (delimiter : UInt8) (converter : Option UnitConverter) (paths : List String) (session : Session)

/-- The table after an operation. After a fault it is the table before, but for conversions: those done
    before the fault stay done. -/
def perform (t : Table) : Operation → Table
  | .build columns => (Table.ofColumns columns).toOption.getD t
  | .extend other => (t.extend other).toOption.getD t
  | .write name index value => (t.write name index value).toOption.getD t
  | .convert converter => (converter.apply t).1
  | .load delimiter converter paths session => ((loadAll delimiter converter paths).outcome session).toOption.getD t

/-- The tables that operations lead to. A table can be extended by another one that they lead to. -/
inductive Reached : Table → Prop where
  | empty : Reached .empty
  | step {t : Table} (ht : Reached t) (op : Operation) (hother : ∀ other, op = .extend other → Reached other) :
      Reached (t.perform op)

/-- An operation that may fail keeps what holds of the table before and of every table it can give. -/
theorem of_toOption_getD {ε : Type} {motive : Table → Prop} {t : Table} (ht : motive t)
    {result : Except ε Table} (h : ∀ next, result = .ok next → motive next) : motive (result.toOption.getD t) := by
  cases result with
  | error fault => exact ht
  | ok next => exact h next rfl

/-- Every operation keeps a table well-formed. -/
theorem wellFormed_perform {t : Table} (ht : t.WellFormed) (op : Operation)
    (hother : ∀ other, op = .extend other → other.WellFormed) : (t.perform op).WellFormed := by
  cases op with
  | build columns => exact of_toOption_getD ht fun _ => wellFormed_ofColumns
  | extend other => exact of_toOption_getD ht fun _ => wellFormed_extend ht (hother other rfl)
  | write name index value => exact of_toOption_getD ht fun _ => wellFormed_write ht
  | convert converter => exact wellFormed_applyAll converter.conversions ht
  | load delimiter converter paths session => exact of_toOption_getD ht fun _ => wellFormed_loadAll

theorem Reached.wellFormed {t : Table} (h : Reached t) : t.WellFormed := by
  induction h with
  | empty => exact wellFormed_empty
  | step ht op hother ih ihother => exact wellFormed_perform ih op ihother

end Table

/-! ### Selecting -/

namespace Table

theorem channelsNamed_eq_ok_iff {t : Table} {names : List String} {columns : List (List Float)} :
    t.channelsNamed names = .ok columns ↔ names.map t.channel = columns.map .ok := by
  induction names generalizing columns with
  | nil =>
      cases columns with
      | nil => exact ⟨fun _ => rfl, fun _ => rfl⟩
      | cons samples more => simp [channelsNamed]
  | cons name rest ih =>
      simp only [channelsNamed, bind_eq_ok_iff, ih, Except.ok.injEq, List.map_cons]
      constructor
      · rintro ⟨samples, hsamples, more, hmore, rfl⟩
        rw [hsamples, hmore, List.map_cons]
      · intro h
        cases columns with
        | nil => simp at h
        | cons samples more =>
            obtain ⟨hsamples, hmore⟩ := List.cons.inj h
            exact ⟨samples, hsamples, more, hmore, rfl⟩

theorem exists_channelsNamed {t : Table} {names : List String} (h : ∀ name ∈ names, name ∈ t.names) :
    ∃ columns, t.channelsNamed names = .ok columns := by
  induction names with
  | nil => exact ⟨[], rfl⟩
  | cons name rest ih =>
      obtain ⟨hname, hrest⟩ := List.forall_mem_cons.1 h
      obtain ⟨samples, hsamples⟩ := exists_channel_of_mem hname
      obtain ⟨more, hmore⟩ := ih hrest
      exact ⟨samples :: more, by rw [channelsNamed, hsamples, ok_bind, hmore, ok_bind]⟩

/-- The first name that is not known is refused. -/
theorem channelsNamed_unknown {t : Table} {known : List String} {name : String}
    (hknown : ∀ other ∈ known, other ∈ t.names) (hname : name ∉ t.names) (rest : List String) :
    t.channelsNamed (known ++ name :: rest) = .error (.unknownChannel name) := by
  induction known with
  | nil =>
      rcases channel_cases t name with ⟨hmem, -⟩ | ⟨-, hunknown⟩
      · exact absurd hmem hname
      · rw [List.nil_append, channelsNamed, hunknown, error_bind]
  | cons other known ih =>
      obtain ⟨hother, hknown⟩ := List.forall_mem_cons.1 hknown
      obtain ⟨samples, hsamples⟩ := exists_channel_of_mem hother
      rw [List.cons_append, channelsNamed, hsamples, ok_bind, ih hknown, error_bind]

/-- How a selection ends: a window that is not inside the table is refused, then the first name that is not
    known, and otherwise every entry is a sample of its channel. -/
structure Selects (t : Table) (names : List String) (w : Window) : Prop where
  outside : t.select names w = .error (.outOfBounds w.start w.stop t.rows) ↔ t.rows < w.stop ∨ w.stop < w.start
  unknown : w.start ≤ w.stop → w.stop ≤ t.rows → ∀ known name rest, names = known ++ name :: rest →
    (∀ other ∈ known, other ∈ t.names) → name ∉ t.names → t.select names w = .error (.unknownChannel name)
  inside : w.start ≤ w.stop → w.stop ≤ t.rows → (∀ name ∈ names, name ∈ t.names) →
    ∃ m, t.select names w = .ok m ∧ m.height = w.stop - w.start ∧ m.cols = names.length ∧
      ∀ row < w.stop - w.start, ∀ column name, names[column]? = some name →
        ∃ samples, t.channel name = .ok samples ∧ w.start + row < samples.length ∧
          m.at? row column = samples[w.start + row]?

theorem select_of_inside {t : Table} {w : Window} (hstart : w.start ≤ w.stop) (hstop : w.stop ≤ t.rows)
    (names : List String) :
    t.select names w =
      (t.channelsNamed names).map fun columns =>
        Matrix.ofColumns w.len (columns.map fun samples => samples.drop w.start) := by
  have hbounds : (t.rows < w.stop || w.stop < w.start) = false := by
    simp only [Bool.or_eq_false_iff, decide_eq_false_iff_not]
    omega
  unfold select
  rw [hbounds, if_neg Bool.false_ne_true]
  cases t.channelsNamed names <;> rfl

/-- The entries of a selection are the samples in its window. -/
theorem at?_ofColumns {columns : List (List Float)} {w : Window} {row column : Nat} {samples : List Float}
    (hrow : row < w.len) (hcolumn : columns[column]? = some samples) (hsamples : w.start + row < samples.length) :
    (Matrix.ofColumns w.len (columns.map fun samples => samples.drop w.start)).at? row column =
      samples[w.start + row]? := by
  have hrows : (Matrix.ofColumns w.len (columns.map fun samples => samples.drop w.start)).rows =
      (List.range' w.start w.len).map (rowAt columns) :=
    (Matrix.rows_ofColumns _ _).trans (across_drop columns w.start w.len)
  rw [Matrix.at?, hrows, List.getElem?_map, List.getElem?_range' hrow]
  simp [rowAt, hcolumn, hsamples]

theorem WellFormed.selects {t : Table} (h : t.WellFormed) (names : List String) (w : Window) :
    t.Selects names w := by
  constructor
  · constructor
    · intro hrefused
      rcases Nat.lt_or_ge t.rows w.stop with hstop | hstop
      · exact .inl hstop
      rcases Nat.lt_or_ge w.stop w.start with hstart | hstart
      · exact .inr hstart
      -- Inside the table only a name can be refused.
      rw [select_of_inside hstart hstop] at hrefused
      cases hcolumns : t.channelsNamed names with
      | ok columns => simp [hcolumns, Except.map] at hrefused
      | error fault =>
          obtain ⟨name, rfl⟩ := exists_name_of_channelsNamed hcolumns
          simp [hcolumns, Except.map] at hrefused
    · intro houtside
      have hbounds : (t.rows < w.stop || w.stop < w.start) = true := by simpa using houtside
      unfold select
      rw [if_pos hbounds]
  · rintro hstart hstop known name rest rfl hknown hname
    rw [select_of_inside hstart hstop, channelsNamed_unknown hknown hname]
    rfl
  · intro hstart hstop hnames
    obtain ⟨columns, hcolumns⟩ := exists_channelsNamed hnames
    have hchannels := channelsNamed_eq_ok_iff.1 hcolumns
    refine ⟨_, by rw [select_of_inside hstart hstop, hcolumns]; rfl, rfl, ?_, ?_⟩
    · rw [Matrix.cols_ofColumns, List.length_map, length_of_channelsNamed hcolumns]
    · intro row hrow column name hname
      have hcolumn : (columns[column]?).map Except.ok = some (t.channel name) := by
        rw [← List.getElem?_map, ← hchannels, List.getElem?_map, hname, Option.map_some]
      obtain ⟨samples, hsamples, hchannel⟩ := Option.map_eq_some_iff.1 hcolumn
      have hlength := h.length_of_channel hchannel.symm
      have hbound : w.start + row < samples.length := by omega
      exact ⟨samples, hchannel.symm, hbound, at?_ofColumns hrow hsamples hbound⟩

end Table

end FlightFit
