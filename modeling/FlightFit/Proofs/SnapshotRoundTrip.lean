import FlightFit.Proofs.SavedModels

/-!
Module: FlightFit.Proofs.SnapshotRoundTrip
Purpose: What can be read from the text of a snapshot. The text says nothing but that snapshot: it is read
  as it was written or not at all, and it is read exactly when all doubles are finite and all sizes fit in
  their words. Text without the options, as older files have it, stands for the default options.
Main exports: Json.Value.without, Json.exists_of_members_slot, Snapshot.sized_of_ofText,
  Snapshot.ofText_text_eq_ok_iff, Snapshot.ofText_without_options, Snapshot.saved_snapshot_reads_back
-/

namespace FlightFit

namespace Json

/-- A value without the members of a name. -/
def Value.without (key : String) : Value → Value
  | .object members => .object (members.filter fun member => member.1 != key)
  | other => other

theorem lt_of_below_tree {depth limit n k : Nat} (h : Decoder.below limit depth (Value.whole n).tree = .ok k) :
    n < limit := by
  rw [tree_whole] at h
  simp only [Decoder.below, Numeral.size?] at h
  by_cases hword : n < wordLimit
  · simp only [hword, decide_true, Bool.not_false, Bool.and_self, if_true] at h
    split at h
    · next hlimit => exact hlimit
    · simp at h
  · simp [hword] at h

section Records

variable {σ α : Type} {schema : Schema σ} {depth : Nat}

/-- Where members are read, a field that is met for the first time has been read, and the members after it
    have been read on. -/
theorem exists_of_members_slot {s last : σ} {key : String} {json : Json} {rest : List (Option String × Json)}
    {get : σ → Option α} {set : σ → Option α → σ} {decoder : Decoder α}
    (hfind : schema.fields.find? (fun field => field.name == key) = some (.slot key get set decoder))
    (hfirst : get s = none) (h : schema.members depth s ((some key, json) :: rest) = .ok last) :
    ∃ value, decoder depth json = .ok value ∧ schema.members depth (set s (some value)) rest = .ok last := by
  rw [Schema.members, hfind] at h
  simp only [Field.slot, hfirst, Option.isSome_none, Bool.false_eq_true, if_false] at h
  obtain ⟨next, hread, hrest⟩ := bind_eq_ok_iff.1 h
  cases hvalue : decoder depth json with
  | error defect => simp [hvalue, Except.map] at hread
  | ok value =>
      rw [hvalue] at hread
      obtain rfl := Except.ok.inj hread
      exact ⟨value, rfl, hrest⟩

theorem exists_of_decode_object {finish : σ → Option α} {pairs : List (Option String × Json)} {value : α}
    (h : schema.decode finish depth (.object pairs true) = .ok value) :
    ∃ last, schema.members (depth + 1) schema.blank pairs = .ok last := by
  obtain ⟨last, hcollect, -⟩ := bind_eq_ok_iff.1 h
  obtain ⟨inner, henter, hcollect⟩ := bind_eq_ok_iff.1 hcollect
  obtain ⟨last', hmembers, -⟩ := bind_eq_ok_iff.1 hcollect
  unfold enter at henter
  split at henter
  · obtain rfl := Except.ok.inj henter
    exact ⟨last', hmembers⟩
  · simp at henter

end Records

end Json

open Json

/-! ### What has been read fits in words -/

theorem ErrorReport.rows_lt_of_decoder {depth : Nat} {r r' : ErrorReport Float}
    (h : ErrorReport.decoder depth r.toValue.tree = .ok r') : r.rows < wordLimit := by
  obtain ⟨_, hmembers⟩ := exists_of_decode_object h
  obtain ⟨_, -, hmembers⟩ := exists_of_members_slot rfl rfl hmembers
  obtain ⟨_, -, hmembers⟩ := exists_of_members_slot rfl rfl hmembers
  obtain ⟨_, hrows, -⟩ := exists_of_members_slot rfl rfl hmembers
  exact lt_of_below_tree hrows

theorem ParameterBlock.sizes_lt_of_decoder {depth : Nat} {b b' : ParameterBlock}
    (h : ParameterBlock.decoder depth b.toValue.tree = .ok b') : b.rows < wordLimit ∧ b.cols < wordLimit := by
  obtain ⟨_, hmembers⟩ := exists_of_decode_object h
  obtain ⟨_, hrows, hmembers⟩ := exists_of_members_slot rfl rfl hmembers
  obtain ⟨_, hcols, -⟩ := exists_of_members_slot rfl rfl hmembers
  exact ⟨lt_of_below_tree hrows, lt_of_below_tree hcols⟩

theorem SnapshotMetadata.sizes_lt_of_decoder {depth : Nat} {m m' : SnapshotMetadata}
    (h : SnapshotMetadata.decoder depth m.toValue.tree = .ok m') :
    m.trainedRows < wordLimit ∧ ∀ r ∈ m.inSample, r.rows < wordLimit := by
  obtain ⟨trained, inSample, version⟩ := m
  obtain ⟨_, hmembers⟩ := exists_of_decode_object h
  cases inSample with
  | none =>
      obtain ⟨_, htrained, -⟩ := exists_of_members_slot rfl rfl hmembers
      exact ⟨lt_of_below_tree htrained, by simp⟩
  | some r =>
      obtain ⟨_, htrained, hmembers⟩ := exists_of_members_slot rfl rfl hmembers
      obtain ⟨_, hreport, -⟩ := exists_of_members_slot rfl rfl hmembers
      refine ⟨lt_of_below_tree htrained, fun r' hr' => ?_⟩
      obtain rfl := Option.some.inj hr'
      -- A report is an object, so it is not taken for a missing one.
      cases hdecoded : ErrorReport.decoder (depth + 1) r.toValue.tree with
      | ok found => exact ErrorReport.rows_lt_of_decoder hdecoded
      | error defect =>
          rw [ErrorReport.toValue, Value.tree] at hreport hdecoded
          simp [Decoder.nullable, hdecoded, Except.map] at hreport

namespace Snapshot

variable {s s' : Snapshot}

/-- The sizes in a snapshot whose text can be read fit in their words. -/
theorem sized_of_ofText (h : ofText s.text = .ok s') : s.Sized := by
  obtain ⟨read, hdecoder, -⟩ := bind_eq_ok_iff.1 h
  rw [text, ofText_render] at hdecoder
  obtain ⟨_, hmembers⟩ := exists_of_decode_object hdecoder
  obtain ⟨_, hversion, hmembers⟩ := exists_of_members_slot rfl rfl hmembers
  obtain ⟨_, -, hmembers⟩ := exists_of_members_slot rfl rfl hmembers
  obtain ⟨_, -, hmembers⟩ := exists_of_members_slot rfl rfl hmembers
  obtain ⟨_, -, hmembers⟩ := exists_of_members_slot rfl rfl hmembers
  obtain ⟨_, hparameters, hmembers⟩ := exists_of_members_slot rfl rfl hmembers
  obtain ⟨_, hmetadata, -⟩ := exists_of_members_slot rfl rfl hmembers
  obtain ⟨hrows, hcols⟩ := ParameterBlock.sizes_lt_of_decoder hparameters
  obtain ⟨htrained, hreported⟩ := SnapshotMetadata.sizes_lt_of_decoder hmetadata
  exact ⟨lt_of_below_tree hversion, hrows, hcols, htrained, hreported⟩

/-- The text of a snapshot is read as nothing but that snapshot, and only if it is finite and its sizes fit in
    their words. -/
theorem ofText_text_eq_ok_iff : ofText s.text = .ok s' ↔ s.Sized ∧ s.isFinite = true ∧ s' = s := by
  constructor
  · intro h
    have hsized := sized_of_ofText h
    rw [ofText_text hsized] at h
    cases hfinite : s.isFinite with
    | true =>
        rw [hfinite, onlyIf_true] at h
        exact ⟨hsized, rfl, (Except.ok.inj h).symm⟩
    | false => simp [hfinite, onlyIf] at h
  · rintro ⟨hsized, hfinite, rfl⟩
    rw [ofText_text hsized, hfinite, onlyIf_true]

/-- Without its options, the text of a snapshot is read as the snapshot with the default options. -/
theorem ofText_without_options (hsized : s.Sized) (hfinite : s.isFinite = true) (style : Style) :
    ofText ((s.toValue.without "options").render style) = .ok { s with options := {} } := by
  have hmembers : schema.members 1 {} (Value.treeMembers [("format_version", .whole s.formatVersion),
      ("model", .string s.model), ("transform", s.transform.toValue), ("parameters", s.parameters.toValue),
      ("metadata", s.metadata.toValue)]) =
        onlyIf (true && (true && (s.transform.isFinite && (s.parameters.values.all (·.isFinite) &&
          (s.metadata.inSample.all ErrorReport.isFinite && true)))))
          ⟨some s.formatVersion, some s.model, none, some s.transform, some s.parameters, some s.metadata⟩ :=
    members_slot rfl rfl (below_tree _ hsized.version (by decide))
      (members_slot rfl rfl rfl (members_rest hsized none))
  have hrest : (s.transform.isFinite && (s.parameters.values.all (·.isFinite) &&
      s.metadata.inSample.all ErrorReport.isFinite)) = true := by
    rw [isFinite, Bool.and_eq_true] at hfinite
    exact hfinite.2
  rw [Bool.true_and, Bool.true_and, Bool.and_true, hrest] at hmembers
  have hdecoder : decoder 0 (s.toValue.without "options").tree = onlyIf true { s with options := {} } :=
    decode_object (by decide) hmembers rfl
  simp only [ofText, Decoder.run, ofText_render, hdecoder]
  rfl

/-- A snapshot whose doubles are finite and whose sizes fit in their words is read from its text as it was,
    bit for bit. Where it was saved it can be loaded, if it has the version that can be read; otherwise that
    version is refused. Without its options the text stands for the snapshot with the default options, in
    whatever style it is written. -/
theorem saved_snapshot_reads_back (s : Snapshot) (hsized : s.Sized) (hfinite : s.isFinite = true) :
    ofText s.text = .ok s ∧
    (∀ path before after, (s.save path).runOn before = (.ok (), after) →
      after.store.readText path = .ok s.text ∧
      (load path).outcome after =
        if s.formatVersion = 1 then .ok s
        else .error (.ofCause (.fault (.snapshotVersion s.formatVersion 1)))) ∧
    ∀ style, ofText ((s.toValue.without "options").render style) = .ok { s with options := {} } := by
  have htext := ofText_text_eq_ok_iff.2 ⟨hsized, hfinite, rfl⟩
  refine ⟨htext, fun path before after hsave => ⟨readText_of_save hsave, ?_⟩,
    fun style => ofText_without_options hsized hfinite style⟩
  rw [outcome_load_of_readText (readText_of_save hsave), htext]
  by_cases hversion : s.formatVersion = 1
  · have hchecked : s.checked = .ok s := if_pos hversion
    simp only [hchecked, if_pos hversion]
    rfl
  · have hchecked : s.checked = .error (.snapshotVersion s.formatVersion 1) := if_neg hversion
    simp only [hchecked, if_neg hversion]
    rfl

/-- A snapshot of another version, with names that have to be escaped, a negative zero, the largest size and
    a subnormal number. -/
def oddSnapshot : Snapshot where
  formatVersion := 7
  model := "a \"quoted\" name\n"
  options := { maxCondition := 1e12 }
  transform := .fuelFlow ["\\", "", "\t", "é"] ["f"] (-0.0)
  parameters := ⟨2, 18446744073709551615, [5e-324, -1.5]⟩
  metadata := ⟨3, some ⟨[0.1], [0.2], 3⟩, "0.1.0"⟩

theorem saved_snapshot_reads_back_odd :
    oddSnapshot.Sized ∧ oddSnapshot.isFinite = true ∧ ofText oddSnapshot.text = .ok oddSnapshot ∧
    (∃ after, (oddSnapshot.save "models/odd.json").runOn ⟨.empty, []⟩ = (.ok (), after) ∧
      after.store.readText "models/odd.json" = .ok oddSnapshot.text ∧
      (load "models/odd.json").outcome after = .error (.ofCause (.fault (.snapshotVersion 7 1)))) ∧
    ∀ style, ofText ((oddSnapshot.toValue.without "options").render style) =
      .ok { oddSnapshot with options := {} } := by
  have hsized : oddSnapshot.Sized := by
    refine ⟨by decide, by decide, by decide, by decide, fun r hr => ?_⟩
    obtain rfl := Option.some.inj hr
    decide
  have hfinite : oddSnapshot.isFinite = true := by decide +kernel
  obtain ⟨htext, hload, hwithout⟩ := saved_snapshot_reads_back oddSnapshot hsized hfinite
  obtain ⟨after, hsave⟩ := Action.outcome_eq_ok_iff.1
    (by rfl : (oddSnapshot.save "models/odd.json").outcome ⟨.empty, []⟩ = .ok ())
  exact ⟨hsized, hfinite, htext, ⟨after, hsave, hload _ _ after hsave⟩, hwithout⟩

end Snapshot

end FlightFit
