import FlightFit.Proofs.KeyedLists
import FlightFit.Proofs.TableLife

/-!
Module: FlightFit.Proofs.JoinedFiles
Purpose: Several files as one table. Files that are loaded together are loaded one by one and joined, which
  works exactly when they have the same channels; a channel of the whole is the channel of each file, one
  below the other (`Table.joinAll`). Changing samples channel by channel commutes with joining
  (`Table.foldlM_extend_mapSamples`), so it does not matter whether units are converted at the end or file
  by file.
Main exports: Table.mapSamples, Table.extend_mapSamples, Table.joinAll,
  Table.foldlM_extend_eq_ok_iff, Table.channel_joinAll, UnitConverter.applyAll_eq_ok_iff,
  outcome_loadAll_eq_ok_iff_madeOf, loaded_files_are_joined
-/

namespace FlightFit

namespace Table

/-! ### Changing samples channel by channel -/

/-- The table with new samples for every channel, made from its name and its old ones. -/
def mapSamples (f : String → List Float → List Float) (t : Table) : Table :=
  { t with channels := t.channels.map fun c => ⟨c.name, f c.name c.samples⟩ }

section MapSamples

variable (f : String → List Float → List Float)

@[simp] theorem names_mapSamples (t : Table) : (t.mapSamples f).names = t.names := by
  simp [names, mapSamples]

theorem channels_mapSamples_eq_nil {t : Table} : (t.mapSamples f).channels = [] ↔ t.channels = [] := by
  simp [mapSamples]

theorem has_mapSamples (t : Table) (name : String) : (t.mapSamples f).has name = t.has name := by
  rw [Bool.eq_iff_iff, has_iff, has_iff, names_mapSamples]

theorem channel_mapSamples (t : Table) (name : String) :
    (t.mapSamples f).channel name = (t.channel name).map (f name) := by
  unfold channel
  rw [mapSamples, find?_map]
  cases find? name t.channels with
  | none => rfl
  | some samples => rfl

/-- What is changed in every part is changed in the whole. -/
theorem extend_mapSamples (hf : ∀ name top bottom, f name (top ++ bottom) = f name top ++ f name bottom)
    (t other : Table) :
    (t.mapSamples f).extend (other.mapSamples f) = (t.extend other).map (mapSamples f) := by
  have hnil : ∀ name, f name [] = [] := by
    intro name
    have hlength := congrArg List.length (hf name [] [])
    rw [List.append_nil, List.length_append] at hlength
    exact List.length_eq_zero_iff.1 (by omega)
  have hempty : (t.mapSamples f).channels.isEmpty = t.channels.isEmpty := by
    rw [Bool.eq_iff_iff, List.isEmpty_iff, List.isEmpty_iff, channels_mapSamples_eq_nil]
  unfold extend
  simp only [hempty, names_mapSamples, has_mapSamples]
  split
  · rfl
  · split
    · rfl
    · split
      · rfl
      · refine congrArg (fun channels => Except.ok (Table.mk (t.rows + other.rows) channels)) ?_
        simp only [mapSamples, List.map_map]
        apply List.map_congr_left
        intro c _
        simp only [Function.comp_apply, find?_map, hf]
        cases find? c.name other.channels with
        | none => simp [hnil]
        | some samples => rfl

theorem foldlM_extend_mapSamples
    (hf : ∀ name top bottom, f name (top ++ bottom) = f name top ++ f name bottom) (tables : List Table)
    (t : Table) :
    (tables.map (mapSamples f)).foldlM extend (t.mapSamples f) = (tables.foldlM extend t).map (mapSamples f) := by
  induction tables generalizing t with
  | nil => rfl
  | cons other rest ih =>
      rw [List.map_cons, List.foldlM_cons, List.foldlM_cons, extend_mapSamples f hf]
      cases t.extend other with
      | error fault => rfl
      | ok next => exact ih next

end MapSamples

/-! ### Tables one below the other -/

theorem SameChannels.refl (t : Table) : t.SameChannels t := fun _ => Iff.rfl

theorem SameChannels.symm {a b : Table} (h : a.SameChannels b) : b.SameChannels a := fun name => (h name).symm

theorem SameChannels.trans {a b c : Table} (h : a.SameChannels b) (h' : b.SameChannels c) : a.SameChannels c :=
  fun name => (h name).trans (h' name)

theorem sameChannels_joined (a b : Table) : (a.joined b).SameChannels a := by
  intro name
  rw [names_joined]

/-- Tables one below the other, with the channels of the first. -/
def joinAll : List Table → Table
  | [] => .empty
  | first :: rest => rest.foldl joined first

theorem foldlM_extend_of_channels {t : Table} (ht : t.channels ≠ []) {tables : List Table} {last : Table} :
    tables.foldlM extend t = .ok last ↔ (∀ b ∈ tables, t.SameChannels b) ∧ last = tables.foldl joined t := by
  induction tables generalizing t with
  | nil =>
      rw [List.foldlM_nil, List.foldl_nil]
      exact ⟨fun h => ⟨by simp, (Except.ok.inj h).symm⟩, fun h => congrArg Except.ok h.2.symm⟩
  | cons b rest ih =>
      have hjoined : (t.joined b).channels ≠ [] := fun hnil => ht (List.map_eq_nil_iff.1 hnil)
      rw [List.foldlM_cons, List.foldl_cons, List.forall_mem_cons, bind_eq_ok_iff]
      constructor
      · rintro ⟨next, hextend, hrest⟩
        obtain ⟨hbare, -⟩ | ⟨-, hsame, rfl⟩ := extend_eq_ok_iff.1 hextend
        · exact absurd hbare ht
        · obtain ⟨hall, hlast⟩ := (ih hjoined).1 hrest
          exact ⟨⟨hsame, fun c hc => (sameChannels_joined t b).symm.trans (hall c hc)⟩, hlast⟩
      · rintro ⟨⟨hsame, hall⟩, hlast⟩
        refine ⟨t.joined b, extend_of_sameChannels ht hsame, (ih hjoined).2 ⟨?_, hlast⟩⟩
        intro c hc
        exact (sameChannels_joined t b).trans (hall c hc)

/-- Tables with channels can be put one below the other exactly when they have the same ones. -/
theorem foldlM_extend_eq_ok_iff {tables : List Table} (hchannels : ∀ t ∈ tables, t.channels ≠ []) {last : Table} :
    tables.foldlM extend .empty = .ok last ↔
      (∀ a ∈ tables, ∀ b ∈ tables, a.SameChannels b) ∧ last = joinAll tables := by
  cases tables with
  | nil =>
      rw [List.foldlM_nil]
      exact ⟨fun h => ⟨by simp, (Except.ok.inj h).symm⟩, fun h => congrArg Except.ok h.2.symm⟩
  | cons first rest =>
      have hadopt : Table.empty.extend first = .ok first := rfl
      have hfirst := hchannels first List.mem_cons_self
      rw [List.foldlM_cons, hadopt, ok_bind, foldlM_extend_of_channels hfirst, joinAll]
      refine and_congr_left fun _ => ⟨fun hall => ?_, fun hall b hb => ?_⟩
      · have hsame : ∀ b ∈ first :: rest, first.SameChannels b :=
          List.forall_mem_cons.2 ⟨.refl first, hall⟩
        exact fun a ha b hb => (hsame a ha).symm.trans (hsame b hb)
      · exact hall first List.mem_cons_self b (List.mem_cons_of_mem _ hb)

theorem names_foldl_joined (tables : List Table) (t : Table) : (tables.foldl joined t).names = t.names := by
  induction tables generalizing t with
  | nil => rfl
  | cons b rest ih => rw [List.foldl_cons, ih, names_joined]

theorem names_joinAll (tables : List Table) :
    (joinAll tables).names = (tables.head?.map names).getD [] := by
  cases tables with
  | nil => rfl
  | cons first rest => exact names_foldl_joined rest first

theorem channel_foldl_joined {tables : List Table} {t : Table} (h : ∀ b ∈ tables, t.SameChannels b) {name : String}
    {samples : List Float} (ht : t.channel name = .ok samples) :
    ∃ parts : List (List Float), tables.map (fun b => b.channel name) = parts.map .ok ∧
      (tables.foldl joined t).channel name = .ok (samples ++ parts.flatten) := by
  induction tables generalizing t samples with
  | nil => exact ⟨[], rfl, by rw [List.foldl_nil, List.flatten_nil, List.append_nil, ht]⟩
  | cons b rest ih =>
      obtain ⟨hsame, hrest⟩ := List.forall_mem_cons.1 h
      rcases channel_joined hsame name with ⟨top, bottom, htop, hbottom, hjoined⟩ | ⟨htop, -, -⟩
      · obtain rfl := Except.ok.inj (ht.symm.trans htop)
        obtain ⟨parts, hparts, hchannel⟩ :=
          ih (fun c hc => (sameChannels_joined t b).trans (hrest c hc)) hjoined
        refine ⟨bottom :: parts, ?_, ?_⟩
        · rw [List.map_cons, List.map_cons, hbottom, hparts]
        · rw [List.foldl_cons, hchannel, List.flatten_cons, List.append_assoc]
      · rw [ht] at htop
        cases htop

/-- A channel of the whole is the channel of each table, in order. -/
theorem channel_joinAll {tables : List Table} (h : ∀ a ∈ tables, ∀ b ∈ tables, a.SameChannels b) {name : String}
    (hname : name ∈ (joinAll tables).names) :
    ∃ parts : List (List Float), tables.map (fun t => t.channel name) = parts.map .ok ∧
      (joinAll tables).channel name = .ok parts.flatten := by
  cases tables with
  | nil => cases hname
  | cons first rest =>
      rw [joinAll, names_foldl_joined] at hname
      obtain ⟨samples, hsamples⟩ := exists_channel_of_mem hname
      have hsame : ∀ b ∈ rest, first.SameChannels b :=
        fun b hb => h first List.mem_cons_self b (List.mem_cons_of_mem _ hb)
      obtain ⟨parts, hparts, hchannel⟩ := channel_foldl_joined hsame hsamples
      exact ⟨samples :: parts, by rw [List.map_cons, List.map_cons, hsamples, hparts], hchannel⟩

end Table

/-! ### Converting units -/

namespace UnitConverter

/-- The samples of a channel in the units that are listed for it, if any are. -/
def convertSamples (conversions : List (String × Conversion)) (name : String) (samples : List Float) :
    List Float :=
  match Keyed.find? name conversions with
  | some conversion => samples.map conversion.convert
  | none => samples

theorem convertSamples_append (conversions : List (String × Conversion)) (name : String)
    (top bottom : List Float) :
    convertSamples conversions name (top ++ bottom) =
      convertSamples conversions name top ++ convertSamples conversions name bottom := by
  unfold convertSamples
  split
  · exact List.map_append
  · rfl

theorem convertSamples_of_mem {conversions : List (String × Conversion)}
    (hdistinct : (conversions.map Prod.fst).Nodup) {name : String} {conversion : Conversion}
    (h : (name, conversion) ∈ conversions) (samples : List Float) :
    convertSamples conversions name samples = samples.map conversion.convert := by
  rw [convertSamples, Keyed.find?_of_mem hdistinct h]

theorem convertSamples_of_not_mem {conversions : List (String × Conversion)} {name : String}
    (h : name ∉ conversions.map Prod.fst) (samples : List Float) :
    convertSamples conversions name samples = samples := by
  rw [convertSamples, Keyed.find?_eq_none_iff.2 h]

theorem update_of_mem {t : Table} {name : String} (h : name ∈ t.names) (f : List Float → List Float) :
    t.update name f = .ok (t.mapSamples fun other samples => if other = name then f samples else samples) := by
  unfold Table.update
  rw [if_pos (Table.has_iff.2 h)]
  refine congrArg (fun channels => Except.ok (Table.mk t.rows channels)) (List.map_congr_left ?_)
  intro c _
  by_cases hname : c.name = name
  · simp [hname]
  · simp [hname]

theorem update_of_not_mem {t : Table} {name : String} (h : name ∉ t.names) (f : List Float → List Float) :
    t.update name f = .error (.unknownChannel name) := by
  unfold Table.update
  rw [if_neg fun hhas => h (Table.has_iff.1 hhas)]

theorem mapSamples_mapSamples (f g : String → List Float → List Float) (t : Table) :
    (t.mapSamples f).mapSamples g = t.mapSamples fun name samples => g name (f name samples) := by
  simp [Table.mapSamples]

/-- The first conversion of a list is done, and then those of the rest, which are for other channels. -/
theorem convertSamples_cons {name : String} {conversion : Conversion} {rest : List (String × Conversion)}
    (hfresh : name ∉ rest.map Prod.fst) :
    convertSamples ((name, conversion) :: rest) = fun other samples =>
      convertSamples rest other (if other = name then samples.map conversion.convert else samples) := by
  funext other samples
  by_cases hname : other = name
  · rw [if_pos hname, hname, convertSamples_of_not_mem hfresh]
    simp [convertSamples, Keyed.find?]
  · rw [if_neg hname]
    simp [convertSamples, Keyed.find?, hname]

/-- Conversions of different channels are done when the table has all of these, and then each is done
    once. -/
theorem applyAll_eq_ok_iff {conversions : List (String × Conversion)}
    (hdistinct : (conversions.map Prod.fst).Nodup) {t last : Table} :
    applyAll conversions t = (last, .ok ()) ↔
      (∀ name ∈ conversions.map Prod.fst, name ∈ t.names) ∧ last = t.mapSamples (convertSamples conversions) := by
  induction conversions generalizing t with
  | nil =>
      have hsame : t.mapSamples (convertSamples []) = t := by
        simp [Table.mapSamples, convertSamples, Keyed.find?]
      rw [hsame, applyAll]
      simp [eq_comm]
  | cons first rest ih =>
      obtain ⟨name, conversion⟩ := first
      obtain ⟨hfresh, hrest⟩ := List.nodup_cons.1 hdistinct
      rw [List.map_cons, List.forall_mem_cons]
      by_cases hname : name ∈ t.names
      · rw [applyAll, update_of_mem hname]
        simp only [ih hrest, Table.names_mapSamples, mapSamples_mapSamples, convertSamples_cons hfresh, hname,
          true_and]
      · rw [applyAll, update_of_not_mem hname]
        simp [hname]

end UnitConverter

/-! ### Files -/

open FlightFit.Action

theorem outcome_loadBelow {delimiter : UInt8} {files : List String} {tables : List Table} {session other : Session}
    (hload : files.map (fun path => (loadFile delimiter path).outcome session) = tables.map .ok)
    (hother : other.store = session.store) {table last : Table} (hjoin : tables.foldlM Table.extend table = .ok last) :
    (loadBelow delimiter table files).outcome other = .ok last := by
  induction files generalizing tables table other with
  | nil =>
      cases tables with
      | nil =>
          obtain rfl := Except.ok.inj hjoin
          rfl
      | cons first rest => cases hload
  | cons path files ih =>
      cases tables with
      | nil => cases hload
      | cons first rest =>
          obtain ⟨hfirst, hrest⟩ := List.cons.inj hload
          rw [List.foldlM_cons] at hjoin
          obtain ⟨next, hextend, hjoin⟩ := bind_eq_ok_iff.1 hjoin
          have hpath : ReadsOnly [path] (loadFile delimiter path) := readsOnly_loadFile List.mem_cons_self delimiter
          refine hpath.outcome_bind (hpath.outcome_eq hfirst hother) fun middle hmiddle => ?_
          have happend : ReadsOnly [] (during s!"appending {path}" (attempt (table.extend first))) :=
            (readsOnly_attempt _).during _
          refine happend.outcome_bind (by rw [hextend]; rfl) fun appended happended => ?_
          exact ih hrest (happended.trans (hmiddle.trans hother)) hjoin

/-- Files that are loaded together are loaded one by one, put one below the other and converted. -/
theorem outcome_loadAll_eq_ok_iff_madeOf {delimiter : UInt8} {converter : Option UnitConverter}
    {files : List String} {table : Table} {session : Session} :
    (loadAll delimiter converter files).outcome session = .ok table ↔
      table.MadeOf files delimiter converter session := by
  refine ⟨madeOf_of_loadAll, ?_⟩
  rintro ⟨tables, joined, hload, hjoin, hconvert⟩
  refine (readsOnly_loadBelow (List.Subset.refl files) delimiter .empty).outcome_bind
    (outcome_loadBelow hload rfl hjoin) fun middle _ => ?_
  cases converter with
  | none => exact congrArg Except.ok hconvert.symm
  | some converter =>
      have happly : converter.apply joined = (table, .ok ()) := hconvert
      simp only [convertUnits, happly]
      rfl

section Files

variable {delimiter : UInt8} {session : Session} {paths : List String} {tables : List Table} {t : Table}
  {converter : UnitConverter}

theorem madeOf_iff (hload : paths.map (fun path => (loadFile delimiter path).outcome session) = tables.map .ok)
    {converter : Option UnitConverter} :
    t.MadeOf paths delimiter converter session ↔
      ∃ joined, tables.foldlM Table.extend .empty = .ok joined ∧
        match converter with
        | some converter => converter.apply joined = (t, .ok ())
        | none => t = joined := by
  constructor
  · rintro ⟨others, joined, hothers, hjoin, hconvert⟩
    have hsame : others = tables := (List.map_inj_right fun _ _ => Except.ok.inj).1 (hothers.symm.trans hload)
    rw [hsame] at hjoin
    exact ⟨joined, hjoin, hconvert⟩
  · rintro ⟨joined, hjoin, hconvert⟩
    exact ⟨tables, joined, hload, hjoin, hconvert⟩

/-- Tables that are converted one by one all have the listed channels. -/
theorem map_apply_eq_iff (hdistinct : (converter.conversions.map Prod.fst).Nodup) {converted : List Table} :
    tables.map converter.apply = converted.map (fun t => (t, .ok ())) ↔
      (∀ t ∈ tables, ∀ name ∈ converter.conversions.map Prod.fst, name ∈ t.names) ∧
        converted = tables.map (Table.mapSamples (UnitConverter.convertSamples converter.conversions)) := by
  induction tables generalizing converted with
  | nil =>
      cases converted with
      | nil => simp
      | cons first rest => simp
  | cons table tables ih =>
      cases converted with
      | nil => simp
      | cons first rest =>
          have hfirst : converter.apply table = (first, .ok ()) ↔ _ := UnitConverter.applyAll_eq_ok_iff hdistinct
          simp only [List.map_cons, List.cons.injEq, hfirst, ih, List.forall_mem_cons]
          constructor
          · rintro ⟨⟨hknown, hchanged⟩, hrest, hmore⟩
            exact ⟨⟨hknown, hrest⟩, hchanged, hmore⟩
          · rintro ⟨⟨hknown, hrest⟩, hchanged, hmore⟩
            exact ⟨⟨hknown, hchanged⟩, hrest, hmore⟩

/-- A channel that occurs in one of several tables with the same channels occurs in all of them and in the
    whole. -/
theorem mem_names_of_sameChannels (hsame : ∀ a ∈ tables, ∀ b ∈ tables, a.SameChannels b) {name : String}
    (hoccur : ∃ t ∈ tables, name ∈ t.names) :
    (∀ t ∈ tables, name ∈ t.names) ∧ name ∈ (Table.joinAll tables).names := by
  obtain ⟨found, hfound, hname⟩ := hoccur
  have hall : ∀ t ∈ tables, name ∈ t.names := fun t ht => (hsame found hfound t ht name).1 hname
  refine ⟨hall, ?_⟩
  cases tables with
  | nil => cases hfound
  | cons first rest =>
      rw [Table.names_joinAll]
      exact hall first List.mem_cons_self

variable (hload : paths.map (fun path => (loadFile delimiter path).outcome session) = tables.map .ok)
  (hchannels : ∀ t ∈ tables, t.channels ≠ [])
include hload hchannels

theorem outcome_loadAll_none_eq_ok_iff :
    (loadAll delimiter none paths).outcome session = .ok t ↔
      (∀ a ∈ tables, ∀ b ∈ tables, a.SameChannels b) ∧ t = Table.joinAll tables := by
  rw [outcome_loadAll_eq_ok_iff_madeOf, madeOf_iff hload]
  simp only [Table.foldlM_extend_eq_ok_iff hchannels]
  constructor
  · rintro ⟨joined, ⟨hsame, rfl⟩, rfl⟩
    exact ⟨hsame, rfl⟩
  · rintro ⟨hsame, rfl⟩
    exact ⟨_, ⟨hsame, rfl⟩, rfl⟩

theorem outcome_loadAll_some_eq_ok_iff (hdistinct : (converter.conversions.map Prod.fst).Nodup)
    (hoccur : ∀ name ∈ converter.conversions.map Prod.fst, ∃ t ∈ tables, name ∈ t.names) :
    (loadAll delimiter (some converter) paths).outcome session = .ok t ↔
      (∀ a ∈ tables, ∀ b ∈ tables, a.SameChannels b) ∧
        t = (Table.joinAll tables).mapSamples (UnitConverter.convertSamples converter.conversions) := by
  have happly : ∀ joined, converter.apply joined = (t, .ok ()) ↔ _ :=
    fun joined => UnitConverter.applyAll_eq_ok_iff hdistinct
  rw [outcome_loadAll_eq_ok_iff_madeOf, madeOf_iff hload]
  simp only [Table.foldlM_extend_eq_ok_iff hchannels, happly]
  constructor
  · rintro ⟨joined, ⟨hsame, rfl⟩, -, ht⟩
    exact ⟨hsame, ht⟩
  · rintro ⟨hsame, ht⟩
    refine ⟨_, ⟨hsame, rfl⟩, ?_, ht⟩
    intro name hname
    exact (mem_names_of_sameChannels hsame (hoccur name hname)).2

omit hload in
/-- Converting the files one by one and joining them comes to the same. -/
theorem exists_converted_iff (hdistinct : (converter.conversions.map Prod.fst).Nodup)
    (hoccur : ∀ name ∈ converter.conversions.map Prod.fst, ∃ t ∈ tables, name ∈ t.names) :
    (∃ converted : List Table, tables.map converter.apply = converted.map (fun t => (t, .ok ())) ∧
        converted.foldlM Table.extend .empty = .ok t) ↔
      (∀ a ∈ tables, ∀ b ∈ tables, a.SameChannels b) ∧
        t = (Table.joinAll tables).mapSamples (UnitConverter.convertSamples converter.conversions) := by
  have hcommutes : (tables.map (Table.mapSamples (UnitConverter.convertSamples converter.conversions))).foldlM
      Table.extend .empty = (tables.foldlM Table.extend .empty).map
        (Table.mapSamples (UnitConverter.convertSamples converter.conversions)) :=
    Table.foldlM_extend_mapSamples _ (UnitConverter.convertSamples_append converter.conversions) tables .empty
  simp only [map_apply_eq_iff hdistinct]
  constructor
  · rintro ⟨converted, ⟨-, rfl⟩, hjoin⟩
    rw [hcommutes] at hjoin
    cases hjoined : tables.foldlM Table.extend .empty with
    | error fault =>
        rw [hjoined] at hjoin
        cases hjoin
    | ok joined =>
        obtain ⟨hsame, rfl⟩ := (Table.foldlM_extend_eq_ok_iff hchannels).1 hjoined
        rw [hjoined] at hjoin
        exact ⟨hsame, (Except.ok.inj hjoin).symm⟩
  · rintro ⟨hsame, rfl⟩
    refine ⟨_, ⟨fun t ht name hname => ?_, rfl⟩, ?_⟩
    · exact (mem_names_of_sameChannels hsame (hoccur name hname)).1 t ht
    · rw [hcommutes, (Table.foldlM_extend_eq_ok_iff hchannels).2 ⟨hsame, rfl⟩]
      rfl

end Files

/-- Files that can each be loaded, to tables with channels, are loaded together exactly when they have the
    same channels, in whatever order. The whole has the columns of the first file, and each of them holds what
    the files have in it, in order. With a converter whose channels all occur, the whole is what comes of
    converting every file by itself and putting the results one below the other: each sample of a listed
    channel is converted once, and the other channels are left alone. -/
theorem loaded_files_are_joined (delimiter : UInt8) (session : Session) (paths : List String) (tables : List Table)
    (hload : paths.map (fun path => (loadFile delimiter path).outcome session) = tables.map .ok)
    (hchannels : ∀ t ∈ tables, t.channels ≠ []) :
    ((∃ t, (loadAll delimiter none paths).outcome session = .ok t) ↔
      ∀ a ∈ tables, ∀ b ∈ tables, a.SameChannels b) ∧
    (∀ t, (loadAll delimiter none paths).outcome session = .ok t →
      t.names = (tables.head?.map Table.names).getD [] ∧
      ∀ name ∈ t.names, ∃ parts : List (List Float), tables.map (fun t => t.channel name) = parts.map .ok ∧
        t.channel name = .ok parts.flatten) ∧
    ∀ converter : UnitConverter, (converter.conversions.map Prod.fst).Nodup →
      (∀ name ∈ converter.conversions.map Prod.fst, ∃ t ∈ tables, name ∈ t.names) →
      ((∃ t, (loadAll delimiter (some converter) paths).outcome session = .ok t) ↔
        ∀ a ∈ tables, ∀ b ∈ tables, a.SameChannels b) ∧
      (∀ t, (loadAll delimiter (some converter) paths).outcome session = .ok t ↔
        ∃ converted : List Table, tables.map converter.apply = converted.map (fun t => (t, .ok ())) ∧
          converted.foldlM Table.extend .empty = .ok t) ∧
      ∀ t, (loadAll delimiter (some converter) paths).outcome session = .ok t →
        t.names = (tables.head?.map Table.names).getD [] ∧
        ∀ name ∈ t.names, ∃ parts : List (List Float), tables.map (fun t => t.channel name) = parts.map .ok ∧
          (∀ conversion, (name, conversion) ∈ converter.conversions →
            t.channel name = .ok (parts.flatten.map conversion.convert)) ∧
          (name ∉ converter.conversions.map Prod.fst → t.channel name = .ok parts.flatten) := by
  have hplain : ∀ t, (loadAll delimiter none paths).outcome session = .ok t ↔ _ :=
    fun t => outcome_loadAll_none_eq_ok_iff hload hchannels
  refine ⟨⟨?_, fun hsame => ⟨_, (hplain _).2 ⟨hsame, rfl⟩⟩⟩, ?_, ?_⟩
  · rintro ⟨t, ht⟩
    exact ((hplain t).1 ht).1
  · intro t ht
    obtain ⟨hsame, rfl⟩ := (hplain t).1 ht
    exact ⟨Table.names_joinAll tables, fun name hname => Table.channel_joinAll hsame hname⟩
  · intro converter hdistinct hoccur
    have hconverted : ∀ t, (loadAll delimiter (some converter) paths).outcome session = .ok t ↔ _ :=
      fun t => outcome_loadAll_some_eq_ok_iff hload hchannels hdistinct hoccur
    refine ⟨⟨?_, fun hsame => ⟨_, (hconverted _).2 ⟨hsame, rfl⟩⟩⟩, ?_, ?_⟩
    · rintro ⟨t, ht⟩
      exact ((hconverted t).1 ht).1
    · intro t
      exact (hconverted t).trans (exists_converted_iff hchannels hdistinct hoccur).symm
    · intro t ht
      obtain ⟨hsame, rfl⟩ := (hconverted t).1 ht
      rw [Table.names_mapSamples]
      refine ⟨Table.names_joinAll tables, fun name hname => ?_⟩
      obtain ⟨parts, hparts, hchannel⟩ := Table.channel_joinAll hsame hname
      refine ⟨parts, hparts, fun conversion hlisted => ?_, fun hunlisted => ?_⟩
      · rw [Table.channel_mapSamples, hchannel, ← UnitConverter.convertSamples_of_mem hdistinct hlisted]
        rfl
      · rw [Table.channel_mapSamples, hchannel]
        exact congrArg Except.ok (UnitConverter.convertSamples_of_not_mem hunlisted _)

/-- A flight in two files, whose columns are in different order. -/
def splitFlight : Session where
  store := ⟨[(["out.parquet"], .file (.columns [⟨"t", .float64, [some 0.0, some 1.0]⟩,
      ⟨"v", .float64, [some 100.0, none]⟩])),
    (["back.parquet"], .file (.columns [⟨"v", .int32, [some 300.0]⟩, ⟨"t", .float64, [some 2.0]⟩]))]⟩
  log := []

/-- Speeds in metres per second; the first conversion that was given for them does not count. -/
def speedUnits : UnitConverter := .ofList [("v", ⟨0.5, 0.0⟩), ("v", ⟨0.25, 1.0⟩)]

/-- The tables of the two files. -/
def splitTables : List Table :=
  [⟨2, [⟨"t", [0.0, 1.0]⟩, ⟨"v", [100.0, Binary.toFloat .undefined]⟩]⟩, ⟨1, [⟨"v", [300.0]⟩, ⟨"t", [2.0]⟩]⟩]

theorem loaded_files_are_joined_split :
    ["out.parquet", "back.parquet"].map (fun path => (loadFile 124 path).outcome splitFlight) =
      splitTables.map .ok ∧
    ∃ t, (loadAll 124 (some speedUnits) ["out.parquet", "back.parquet"]).outcome splitFlight = .ok t ∧
      t.names = ["t", "v"] ∧
      ∃ converted : List Table, splitTables.map speedUnits.apply = converted.map (fun t => (t, .ok ())) ∧
        converted.foldlM Table.extend .empty = .ok t := by
  have hload : ["out.parquet", "back.parquet"].map (fun path => (loadFile 124 path).outcome splitFlight) =
      splitTables.map .ok := by rfl
  have hchannels : ∀ t ∈ splitTables, t.channels ≠ [] := by simp [splitTables]
  have hsame : ∀ a ∈ splitTables, ∀ b ∈ splitTables, a.SameChannels b := by
    simp [splitTables, Table.SameChannels, Table.names, or_comm]
  have hoccur : ∀ name ∈ speedUnits.conversions.map Prod.fst, ∃ t ∈ splitTables, name ∈ t.names := by decide
  obtain ⟨-, -, hconverter⟩ := loaded_files_are_joined 124 splitFlight _ splitTables hload hchannels
  obtain ⟨hsucceeds, hequal, hsamples⟩ := hconverter speedUnits (Keyed.nodup_keys_ofList _) hoccur
  obtain ⟨t, ht⟩ := hsucceeds.2 hsame
  exact ⟨hload, t, ht, (hsamples t ht).1, (hequal t).1 ht⟩

end FlightFit
