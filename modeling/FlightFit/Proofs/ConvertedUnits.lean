import FlightFit.Proofs.Sheets

/-!
Module: FlightFit.Proofs.ConvertedUnits
Purpose: What converting units leaves of a table, whether it succeeds or stops midway. The conversions are done in the
  order of the bytes of the channel names, and the first channel that the table lacks stops them; so what is done by
  then are the conversions with smaller names. Each of them is done once, sample by sample, and everything else in the
  table stays as it was (`UnitConverter.Rewritten`).
Main exports: UnitConverter.listed, UnitConverter.Ordered, UnitConverter.Rewritten, UnitConverter.LeastMissing,
  UnitConverter.exists_leastMissing, UnitConverter.applyAll_of_missing, UnitConverter.rewritten_mapSamples,
  UnitConverter.conversions_stop_at_missing_channel
-/

namespace FlightFit.UnitConverter

/-- The names of the channels that a converter lists. -/
def listed (c : UnitConverter) : List String := c.conversions.map Prod.fst

/-- The listed names are in increasing order of their bytes, as those of every converter made from a list are. -/
def Ordered (c : UnitConverter) : Prop := c.listed.Pairwise BytesLess

theorem ordered_ofList (conversions : List (String × Conversion)) : (ofList conversions).Ordered :=
  (Keyed.sorted_ofList conversions).imp bytesLess_iff.2

/-- Of the listed channels, those in question have been converted, each once and sample by sample. The other channels,
    the order of the names and the number of rows are as before. -/
structure Rewritten (c : UnitConverter) (done : String → Prop) (before after : Table) : Prop where
  names : after.names = before.names
  rows : after.rows = before.rows
  converted : ∀ name conversion samples, (name, conversion) ∈ c.conversions → done name →
    before.channel name = .ok samples →
    after.channel name = .ok (samples.map fun value => value * conversion.scale + conversion.offset)
  kept : ∀ name, ¬(name ∈ c.listed ∧ done name) → after.channel name = before.channel name

/-- The least of the listed channels that a table lacks, by the bytes of the names. -/
structure LeastMissing (c : UnitConverter) (t : Table) (name : String) : Prop where
  listed : name ∈ c.listed
  missing : name ∉ t.names
  least : ∀ other ∈ c.listed, other ∉ t.names → other = name ∨ BytesLess name other

section Order

variable {c : UnitConverter} (hc : c.Ordered)
include hc

theorem Ordered.nodup : c.listed.Nodup := by
  apply List.Pairwise.imp _ hc
  rintro name _ hless rfl
  exact bytesLess_irrefl name hless

/-- What stands before a conversion are those of smaller names. -/
theorem Ordered.mem_before_iff {before after : List (String × Conversion)} {name : String} {conversion : Conversion}
    (h : c.conversions = before ++ (name, conversion) :: after) (pair : String × Conversion) :
    pair ∈ before ↔ pair ∈ c.conversions ∧ BytesLess pair.1 name := by
  have hordered : c.conversions.Pairwise fun first second => BytesLess first.1 second.1 := List.pairwise_map.1 hc
  rw [h] at hordered ⊢
  rcases List.pairwise_append.1 hordered with ⟨-, hrest, hbefore⟩
  have hafter := (List.pairwise_cons.1 hrest).1
  constructor
  · intro hpair
    exact ⟨List.mem_append_left _ hpair, hbefore pair hpair _ List.mem_cons_self⟩
  · rintro ⟨hpair, hless⟩
    rcases List.mem_append.1 hpair with hpair | hpair
    · exact hpair
    · rcases List.mem_cons.1 hpair with rfl | hpair
      · exact absurd hless (bytesLess_irrefl name)
      · exact absurd hless (bytesLess_asymm (hafter pair hpair))

/-- The first of the listed channels that is missing is the least one. -/
theorem exists_leastMissing {t : Table} (h : ∃ name ∈ c.listed, name ∉ t.names) : ∃ name, c.LeastMissing t name := by
  rcases h with ⟨missing, hlisted, hmissing⟩
  cases hfind : c.listed.find? (fun name => !t.has name) with
  | none => exact absurd (Table.find?_not_has_eq_none_iff.1 hfind missing hlisted) hmissing
  | some name =>
      rcases Table.find?_not_has_eq_some_iff.1 hfind with ⟨hname, before, after, hsplit, hknown⟩
      have hordered : (before ++ name :: after).Pairwise BytesLess := hsplit ▸ hc
      have hafter := (List.pairwise_cons.1 (List.pairwise_append.1 hordered).2.1).1
      refine ⟨name, by simp [hsplit], hname, ?_⟩
      intro other hother hnot
      rw [hsplit] at hother
      rcases List.mem_append.1 hother with hother | hother
      · exact absurd (hknown other hother) hnot
      · exact (List.mem_cons.1 hother).imp_right (hafter other)

end Order

/-! ### Conversions one after the other -/

/-- Conversions that all are done are followed by the rest. -/
theorem applyAll_append_of_ok {first : List (String × Conversion)} {t middle : Table}
    (h : applyAll first t = (middle, .ok ())) (rest : List (String × Conversion)) :
    applyAll (first ++ rest) t = applyAll rest middle := by
  induction first generalizing t with
  | nil =>
      cases h
      rfl
  | cons conversion first ih =>
      rw [List.cons_append, applyAll]
      rw [applyAll] at h
      split
      · next next hupdate =>
          rw [hupdate] at h
          exact ih h
      · next fault hupdate =>
          rw [hupdate] at h
          cases h

/-- The conversions before that of a channel that is missing are done, and no others. -/
theorem applyAll_of_missing {before : List (String × Conversion)} (hdistinct : (before.map Prod.fst).Nodup) {t : Table}
    (hknown : ∀ name ∈ before.map Prod.fst, name ∈ t.names) {name : String} (hmissing : name ∉ t.names)
    (conversion : Conversion) (after : List (String × Conversion)) :
    applyAll (before ++ (name, conversion) :: after) t =
      (t.mapSamples (convertSamples before), .error (.unknownChannel name)) := by
  have hdone := (applyAll_eq_ok_iff hdistinct).2 ⟨hknown, rfl⟩
  have hstill : name ∉ (t.mapSamples (convertSamples before)).names := by
    rw [Table.names_mapSamples]
    exact hmissing
  rw [applyAll_append_of_ok hdone, applyAll, update_of_not_mem hstill]

/-- Converting some of the listed channels rewrites just these. -/
theorem rewritten_mapSamples {c : UnitConverter} {done : String → Prop} {conversions : List (String × Conversion)}
    (hdistinct : (conversions.map Prod.fst).Nodup)
    (hdone : ∀ pair, pair ∈ conversions ↔ pair ∈ c.conversions ∧ done pair.1) (t : Table) :
    c.Rewritten done t (t.mapSamples (convertSamples conversions)) where
  names := Table.names_mapSamples _ t
  rows := rfl
  converted := by
    intro name conversion samples hlisted hname hsamples
    have hmem := (hdone (name, conversion)).2 ⟨hlisted, hname⟩
    rw [Table.channel_mapSamples, hsamples, Except.map, convertSamples_of_mem hdistinct hmem]
    rfl
  kept := by
    intro name hname
    have hnot : name ∉ conversions.map Prod.fst := by
      intro hmem
      rcases List.mem_map.1 hmem with ⟨pair, hpair, rfl⟩
      rcases (hdone pair).1 hpair with ⟨hlisted, hpair⟩
      exact hname ⟨List.mem_map_of_mem hlisted, hpair⟩
    have hsame : convertSamples conversions name = id := funext (convertSamples_of_not_mem hnot)
    rw [Table.channel_mapSamples, hsame]
    cases t.channel name <;> rfl

theorem apply_of_leastMissing {c : UnitConverter} (hc : c.Ordered) {t : Table} {name : String}
    (h : c.LeastMissing t name) :
    ∃ last, c.apply t = (last, .error (.unknownChannel name)) ∧ c.Rewritten (BytesLess · name) t last := by
  rcases List.mem_map.1 h.listed with ⟨⟨name, conversion⟩, hlisted, rfl⟩
  rcases List.append_of_mem hlisted with ⟨before, after, hsplit⟩
  have hsmaller := hc.mem_before_iff hsplit
  have hdistinct : (before.map Prod.fst).Nodup := by
    have hnodup := hc.nodup
    rw [listed, hsplit, List.map_append] at hnodup
    exact (List.nodup_append.1 hnodup).1
  -- A smaller name that is missing as well would be the least instead.
  have hknown : ∀ other ∈ before.map Prod.fst, other ∈ t.names := by
    intro other hother
    rcases List.mem_map.1 hother with ⟨pair, hpair, rfl⟩
    rcases (hsmaller pair).1 hpair with ⟨hpair, hless⟩
    apply Classical.byContradiction
    intro hnot
    rcases h.least pair.1 (List.mem_map_of_mem hpair) hnot with heq | hgreater
    · rw [heq] at hless
      exact bytesLess_irrefl name hless
    · exact bytesLess_asymm hless hgreater
  refine ⟨_, ?_, rewritten_mapSamples hdistinct hsmaller t⟩
  rw [apply, hsplit]
  exact applyAll_of_missing hdistinct hknown h.missing conversion after

/-- A converter rewrites every channel it lists, each once and sample by sample, if the table has all of them. If some
    are missing, it fails with the least of these by the bytes of the names; by then it has rewritten just the listed
    channels with smaller names. Nothing else in the table changes. -/
theorem conversions_stop_at_missing_channel (c : UnitConverter) (hc : c.Ordered) (t : Table) :
    ((∃ last, c.apply t = (last, .ok ())) ↔ ∀ name ∈ c.listed, name ∈ t.names) ∧
    (∀ last, c.apply t = (last, .ok ()) → c.Rewritten (fun _ => True) t last) ∧
    ((∃ name ∈ c.listed, name ∉ t.names) → ∃ name, c.LeastMissing t name) ∧
    ∀ name, c.LeastMissing t name →
      ∃ last, c.apply t = (last, .error (.unknownChannel name)) ∧ c.Rewritten (BytesLess · name) t last := by
  have hok : ∀ last, c.apply t = (last, .ok ()) ↔ _ := fun last => applyAll_eq_ok_iff hc.nodup
  refine ⟨?_, ?_, exists_leastMissing hc, fun name => apply_of_leastMissing hc⟩
  · constructor
    · rintro ⟨last, hlast⟩
      exact ((hok last).1 hlast).1
    · intro hknown
      exact ⟨_, (hok _).2 ⟨hknown, rfl⟩⟩
  · intro last hlast
    rcases (hok last).1 hlast with ⟨-, rfl⟩
    apply rewritten_mapSamples hc.nodup
    simp

/-- Conversions of four channels, out of order. -/
def cabinUnits : UnitConverter := .ofList [("y", ⟨2.0, 0.0⟩), ("x", ⟨1.0, 1.0⟩), ("z", ⟨1.0, 0.0⟩), ("a", ⟨0.5, 1.0⟩)]

/-- A table that has the first and the third of these channels. -/
def cabinTable : Table := ⟨2, [⟨"y", [1.0, 2.0]⟩, ⟨"t", [0.0, 1.0]⟩, ⟨"a", [4.0, 6.0]⟩]⟩

theorem conversions_stop_at_missing_channel_cabin :
    cabinUnits.Ordered ∧ cabinUnits.LeastMissing cabinTable "x" ∧
    ∃ last, cabinUnits.apply cabinTable = (last, .error (.unknownChannel "x")) ∧ last.names = ["y", "t", "a"] ∧
      last.channel "a" = .ok [3.0, 4.0] ∧ last.channel "y" = .ok [1.0, 2.0] := by
  have hordered : cabinUnits.Ordered := ordered_ofList _
  have hlisted : cabinUnits.listed = ["a", "x", "y", "z"] := by decide
  have hleast : cabinUnits.LeastMissing cabinTable "x" := by
    refine ⟨by decide, by decide, ?_⟩
    rw [hlisted]
    simp only [bytesLess_iff]
    decide
  rcases conversions_stop_at_missing_channel cabinUnits hordered cabinTable with ⟨-, -, -, hstop⟩
  rcases hstop "x" hleast with ⟨last, hlast, hrewritten⟩
  refine ⟨hordered, hleast, last, hlast, hrewritten.names, ?_, ?_⟩
  · exact hrewritten.converted "a" ⟨0.5, 1.0⟩ [4.0, 6.0] List.mem_cons_self (bytesLess_iff.2 (by decide)) rfl
  · apply hrewritten.kept
    rintro ⟨-, hless⟩
    exact absurd (bytesLess_iff.1 hless) (by decide)

end FlightFit.UnitConverter
