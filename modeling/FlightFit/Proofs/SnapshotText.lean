import FlightFit.Codec.Snapshot
import FlightFit.Proofs.JsonText
import FlightFit.Proofs.Outcome

/-!
Module: FlightFit.Proofs.SnapshotText
Purpose: Snapshots that are written and read again. The text of a snapshot is read as that snapshot, bit for
  bit in every double, if all its doubles are finite; if one of them is not, its place is null and the text
  is refused, because what stands there is of another type.
Main exports: Json.onlyIf, Json.members_slot, Snapshot.isFinite, Snapshot.Sized, Snapshot.decoder_tree,
  Snapshot.ofText_text
-/

namespace FlightFit

namespace Json

/-! ### Outcomes that depend on a condition -/

/-- A value under a condition; something of another type is found where the condition fails. -/
def onlyIf {α : Type} (sound : Bool) (value : α) : Except Defect α :=
  if sound then .ok value else .error .mistyped

theorem onlyIf_true {α : Type} (value : α) : onlyIf true value = .ok value := rfl

/-! ### Numbers -/

/-- The numeral of a finite double denotes it. -/
theorem toFloat_numeralOf {x : Float} (h : x.isFinite = true) :
    ∃ n : Numeral, (Value.real x).tree = .number n ∧ n.whole = false ∧ n.toFloat? = some x := by
  obtain ⟨negative, code, hcode, hfinite, hx⟩ := Binary.ofFloat_of_isFinite h
  obtain ⟨d, e, hnumeral, hvalue, -⟩ := numeralOf_spec negative hfinite
  refine ⟨⟨negative, d, e, false⟩, ?_, rfl, ?_⟩
  · simp only [Value.real, Value.tree, Number.tree, hcode, hnumeral]
  · simp only [Numeral.toFloat?, Decimal.toFloat, hvalue, hfinite, if_true, hx]

theorem tree_real_of_not_isFinite {x : Float} (h : x.isFinite = false) : (Value.real x).tree = .null := by
  have hcode := Binary.ofFloat_of_not_isFinite h
  simp only [Value.real, Value.tree, Number.tree]

theorem float_tree (depth : Nat) (x : Float) : Decoder.float depth (Value.real x).tree = onlyIf x.isFinite x := by
  by_cases h : x.isFinite = true
  · obtain ⟨n, htree, -, hvalue⟩ := toFloat_numeralOf h
    rw [htree, h]
    simp only [Decoder.float, hvalue]
    rfl
  · have hnot := Bool.eq_false_iff.2 h
    rw [tree_real_of_not_isFinite hnot, hnot]
    rfl

theorem tree_whole (n : Nat) : (Value.whole n).tree = .number ⟨false, n, 0, true⟩ := by
  simp only [Value.whole, Value.tree, Number.tree]
  rfl

theorem below_tree (depth : Nat) {limit n : Nat} (h : n < limit) (hlimit : limit ≤ wordLimit) :
    Decoder.below limit depth (Value.whole n).tree = onlyIf true n := by
  have hsize : Numeral.size? ⟨false, n, 0, true⟩ = some n := by
    simp [Numeral.size?, Nat.lt_of_lt_of_le h hlimit]
  rw [tree_whole]
  simp only [Decoder.below, hsize, h, if_true]
  rfl

theorem size_tree (depth : Nat) {n : Nat} (h : n < wordLimit) :
    Decoder.size depth (Value.whole n).tree = onlyIf true n :=
  below_tree depth h (Nat.le_refl _)

/-! ### Lists -/

theorem items_tree {α : Type} {item : Decoder α} {toValue : α → Value} {sound : α → Bool} {depth : Nat}
    (h : ∀ a, item depth (toValue a).tree = onlyIf (sound a) a) (as : List α) :
    Decoder.items item depth (Value.treeItems (as.map toValue)) = onlyIf (as.all sound) as := by
  induction as with
  | nil => rfl
  | cons a as ih =>
      simp only [List.map_cons, Value.treeItems, Decoder.items, h, ih, List.all_cons]
      cases sound a <;> cases as.all sound <;> rfl

theorem reals_tree {depth : Nat} (hdepth : depth < depthLimit) (xs : List Float) :
    Decoder.list Decoder.float depth (Value.reals xs).tree = onlyIf (xs.all (·.isFinite)) xs := by
  have hitems := items_tree (float_tree (depth + 1)) xs
  simp only [Value.reals, Value.tree, Decoder.list, enter, hdepth, if_true, ok_bind, hitems]
  cases xs.all (·.isFinite) <;> rfl

/-! ### Records -/

section Records

variable {σ α : Type} {schema : Schema σ} {depth : Nat}

theorem members_nil (s : σ) : schema.members depth s [] = onlyIf true s := rfl

/-- A field that is met for the first time is read, and the members after it are read on. -/
theorem members_slot {s last : σ} {key : String} {json : Json} {rest : List (Option String × Json)}
    {get : σ → Option α} {set : σ → Option α → σ} {decoder : Decoder α} {value : α} {sound more : Bool}
    (hfind : schema.fields.find? (fun field => field.name == key) = some (.slot key get set decoder))
    (hfirst : get s = none) (hread : decoder depth json = onlyIf sound value)
    (hrest : schema.members depth (set s (some value)) rest = onlyIf more last) :
    schema.members depth s ((some key, json) :: rest) = onlyIf (sound && more) last := by
  rw [Schema.members, hfind]
  simp only [Field.slot, hfirst, Option.isSome_none, Bool.false_eq_true, if_false, hread]
  cases sound with
  | true => exact hrest
  | false => rfl

theorem decode_object {finish : σ → Option α} {pairs : List (Option String × Json)} {last : σ} {value : α}
    {sound : Bool} (hdepth : depth < depthLimit)
    (hmembers : schema.members (depth + 1) schema.blank pairs = onlyIf sound last)
    (hfinish : finish last = some value) :
    schema.decode finish depth (.object pairs true) = onlyIf sound value := by
  simp only [Schema.decode, Schema.collect, enter, hdepth, if_true, ok_bind, hmembers]
  cases sound with
  | true => simp only [onlyIf_true, ok_bind, hfinish]
  | false => rfl

end Records

end Json

open Json

/-! ### What has to be finite, and what has to fit in a word -/

/-- Whether the sums of an error report are finite. -/
def ErrorReport.isFinite (r : ErrorReport Float) : Bool := r.rmse.all (·.isFinite) && r.se.all (·.isFinite)

/-- Whether the constant of a transform is finite, if it has one. -/
def Transform.isFinite : Transform → Bool
  | .fuelFlow _ _ bias => bias.isFinite
  | .linear .. => true

namespace Snapshot

/-- Whether all doubles of a snapshot are finite. -/
def isFinite (s : Snapshot) : Bool :=
  s.options.maxCondition.isFinite && (s.transform.isFinite && (s.parameters.values.all (·.isFinite) &&
    s.metadata.inSample.all ErrorReport.isFinite))

/-- The sizes in a snapshot fit in their words. -/
structure Sized (s : Snapshot) : Prop where
  version : s.formatVersion < versionLimit
  rows : s.parameters.rows < wordLimit
  cols : s.parameters.cols < wordLimit
  trained : s.metadata.trainedRows < wordLimit
  reported : ∀ r ∈ s.metadata.inSample, r.rows < wordLimit

end Snapshot

/-! ### The records of a snapshot -/

theorem RegressorOptions.decoder_tree {depth : Nat} (hdepth : depth < depthLimit) (o : RegressorOptions) :
    RegressorOptions.decoder depth o.toValue.tree = onlyIf o.maxCondition.isFinite o := by
  have hmembers : RegressorOptions.schema.members (depth + 1) none
      (Value.treeMembers [("max_condition", .real o.maxCondition)]) =
        onlyIf (o.maxCondition.isFinite && true) (some o.maxCondition) :=
    members_slot rfl rfl (float_tree _ _) (members_nil _)
  rw [Bool.and_true] at hmembers
  exact decode_object hdepth hmembers rfl

theorem ErrorReport.decoder_tree {depth : Nat} (hdepth : depth + 1 < depthLimit) {r : ErrorReport Float}
    (hrows : r.rows < wordLimit) : ErrorReport.decoder depth r.toValue.tree = onlyIf r.isFinite r := by
  have hmembers : ErrorReport.schema.members (depth + 1) {} (Value.treeMembers [("RMSE", .reals r.rmse),
      ("SE", .reals r.se), ("rows", .whole r.rows)]) =
        onlyIf (r.rmse.all (·.isFinite) && (r.se.all (·.isFinite) && (true && true)))
          ⟨some r.rmse, some r.se, some r.rows⟩ :=
    members_slot rfl rfl (reals_tree hdepth r.rmse) (members_slot rfl rfl (reals_tree hdepth r.se)
      (members_slot rfl rfl (size_tree _ hrows) (members_nil _)))
  rw [Bool.and_true, Bool.and_true] at hmembers
  exact decode_object (Nat.lt_of_succ_lt hdepth) hmembers rfl

theorem ParameterBlock.decoder_tree {depth : Nat} (hdepth : depth + 1 < depthLimit) {b : ParameterBlock}
    (hrows : b.rows < wordLimit) (hcols : b.cols < wordLimit) :
    ParameterBlock.decoder depth b.toValue.tree = onlyIf (b.values.all (·.isFinite)) b := by
  have hmembers : ParameterBlock.schema.members (depth + 1) {} (Value.treeMembers [("rows", .whole b.rows),
      ("cols", .whole b.cols), ("values", .reals b.values)]) =
        onlyIf (true && (true && (b.values.all (·.isFinite) && true)))
          ⟨some b.rows, some b.cols, some b.values⟩ :=
    members_slot rfl rfl (size_tree _ hrows) (members_slot rfl rfl (size_tree _ hcols)
      (members_slot rfl rfl (reals_tree hdepth b.values) (members_nil _)))
  rw [Bool.true_and, Bool.true_and, Bool.and_true] at hmembers
  exact decode_object (Nat.lt_of_succ_lt hdepth) hmembers rfl

theorem nullable_report {depth : Nat} (hdepth : depth + 1 < depthLimit) {r : ErrorReport Float}
    (hrows : r.rows < wordLimit) :
    Decoder.nullable ErrorReport.decoder depth r.toValue.tree = onlyIf r.isFinite (some r) := by
  have hreport := ErrorReport.decoder_tree hdepth hrows
  rw [ErrorReport.toValue, Value.tree] at hreport ⊢
  simp only [Decoder.nullable, hreport]
  cases r.isFinite <;> rfl

theorem SnapshotMetadata.decoder_tree {depth : Nat} (hdepth : depth + 2 < depthLimit) {m : SnapshotMetadata}
    (htrained : m.trainedRows < wordLimit) (hreported : ∀ r ∈ m.inSample, r.rows < wordLimit) :
    SnapshotMetadata.decoder depth m.toValue.tree = onlyIf (m.inSample.all ErrorReport.isFinite) m := by
  obtain ⟨trained, inSample, version⟩ := m
  cases inSample with
  | none =>
      have hmembers : SnapshotMetadata.schema.members (depth + 1) {}
          (Value.treeMembers [("trained_rows", .whole trained), ("crate_version", .string version)]) =
            onlyIf (true && (true && true)) ⟨some trained, none, some version⟩ :=
        members_slot rfl rfl (size_tree _ htrained) (members_slot rfl rfl rfl (members_nil _))
      exact decode_object (Nat.lt_of_le_of_lt (Nat.le_add_right depth 2) hdepth) hmembers rfl
  | some r =>
      have hmembers : SnapshotMetadata.schema.members (depth + 1) {}
          (Value.treeMembers [("trained_rows", .whole trained), ("in_sample", r.toValue),
            ("crate_version", .string version)]) =
            onlyIf (true && (r.isFinite && (true && true))) ⟨some trained, some (some r), some version⟩ :=
        members_slot rfl rfl (size_tree _ htrained) (members_slot rfl rfl (nullable_report hdepth (hreported r rfl))
          (members_slot rfl rfl rfl (members_nil _)))
      rw [Bool.true_and, Bool.true_and, Bool.and_true] at hmembers
      exact decode_object (Nat.lt_of_le_of_lt (Nat.le_add_right depth 2) hdepth) hmembers rfl

/-! ### Transforms -/

/-- A double that is not finite has become null. -/
theorem strict_real (depth : Nat) (x : Float) :
    strict depth (Value.real x).tree = .ok (if x.isFinite then .real x else .null) := by
  by_cases h : x.isFinite = true
  · obtain ⟨n, htree, hwhole, hvalue⟩ := toFloat_numeralOf h
    have hinteger : n.integer? = none := by simp [Numeral.integer?, Numeral.size?, hwhole]
    rw [htree, h]
    simp only [strict, Numeral.number?, hinteger, hvalue, Option.map_some]
    rfl
  · have hnot := Bool.eq_false_iff.2 h
    rw [tree_real_of_not_isFinite hnot, hnot]
    rfl

theorem strict_texts {depth : Nat} (hdepth : depth < depthLimit) (texts : List String) :
    strict depth (Value.texts texts).tree = .ok (.texts texts) := by
  have hitems : ∀ texts : List String,
      strictItems (depth + 1) (Value.treeItems (texts.map .string)) = .ok (texts.map .string) := by
    intro texts
    induction texts with
    | nil => rfl
    | cons text texts ih =>
        simp only [List.map_cons, Value.treeItems, Value.tree, strictItems, strict, ih, ok_bind]
  simp only [Value.texts, Value.tree, strict, enter, hdepth, if_true, hitems, ok_bind]

theorem texts?_texts (texts : List String) : (Value.texts texts).texts? = some texts := by
  simp only [Value.texts, Value.texts?]
  induction texts with
  | nil => rfl
  | cons text texts ih => rw [List.map_cons, Value.textsIn, ih, Option.map_some]

namespace Transform

theorem splitKind_kind {depth : Nat} {json : Json} {rest : List (Option String × Json)} {kind : TransformKind}
    (h : TransformKind.decoder depth json = .ok kind) :
    splitKind depth none ((some "kind", json) :: rest) = splitKind depth (some kind) rest := by
  rw [splitKind, if_pos (by decide), if_neg (by decide), h]
  rfl

theorem splitKind_member {depth : Nat} {kind found : Option TransformKind} {key : String} {json : Json}
    {rest : List (Option String × Json)} {value : Value} {members : List (String × Value)}
    (hkey : (key == "kind") = false) (hvalue : strict depth json = .ok value)
    (hrest : splitKind depth kind rest = .ok (found, members)) :
    splitKind depth kind ((some key, json) :: rest) = .ok (found, (key, value) :: members) := by
  rw [splitKind, if_neg (by rw [hkey]; exact Bool.false_ne_true), hvalue, ok_bind, hrest]
  rfl

theorem ofMembers_three (kind : TransformKind) (features targets extra : Value) :
    ofMembers kind [("features", features), ("targets", targets), (extraKey kind, extra)] =
      ofFields kind features targets (some extra) := by
  cases kind <;> rfl

/-- The kind and the channels are read as they were written, whatever the third field is. -/
theorem decoder_object {depth : Nat} (hdepth : depth + 1 < depthLimit) (features targets : List String)
    (kind : TransformKind) (name extra : Value) {value : Value}
    (hkind : TransformKind.decoder (depth + 1) name.tree = .ok kind)
    (hextra : strict (depth + 1) extra.tree = .ok value) :
    decoder depth (Value.object [("kind", name), ("features", .texts features), ("targets", .texts targets),
      (extraKey kind, extra)]).tree = expect (ofFields kind (.texts features) (.texts targets) (some value)) := by
  have hkey : (extraKey kind == "kind") = false := by cases kind <;> rfl
  have hsplit : splitKind (depth + 1) none (Value.treeMembers [("kind", name), ("features", .texts features),
      ("targets", .texts targets), (extraKey kind, extra)]) =
        .ok (some kind, [("features", .texts features), ("targets", .texts targets), (extraKey kind, value)]) :=
    (splitKind_kind hkind).trans (splitKind_member rfl (strict_texts hdepth features)
      (splitKind_member rfl (strict_texts hdepth targets) (splitKind_member hkey hextra rfl)))
  simp only [Value.tree, decoder, enter, Nat.lt_of_succ_lt hdepth, if_true, ok_bind, hsplit, Option.bind_some,
    ofMembers_three]

theorem decoder_tree {depth : Nat} (hdepth : depth + 1 < depthLimit) (t : Transform) :
    decoder depth t.toValue.tree = onlyIf t.isFinite t := by
  cases t with
  | fuelFlow features targets bias =>
      refine (decoder_object hdepth features targets .fuelFlow (.string "fuel_flow") (.real bias) rfl
        (strict_real _ bias)).trans ?_
      simp only [ofFields, texts?_texts, Option.bind_eq_bind, Option.bind_some, isFinite]
      cases bias.isFinite <;> rfl
  | linear features targets intercept =>
      refine (decoder_object hdepth features targets .linear (.string "linear") (.bool intercept) rfl rfl).trans ?_
      simp only [ofFields, texts?_texts, Option.bind_eq_bind, Option.bind_some]
      rfl

end Transform

/-! ### Snapshots -/

namespace Snapshot

/-- The members after the options are read as they were written, whatever the options are. -/
theorem members_rest {s : Snapshot} (hsized : s.Sized) (options : Option RegressorOptions) :
    schema.members 1 ⟨some s.formatVersion, some s.model, options, none, none, none⟩
      (Value.treeMembers [("transform", s.transform.toValue), ("parameters", s.parameters.toValue),
        ("metadata", s.metadata.toValue)]) =
        onlyIf (s.transform.isFinite && (s.parameters.values.all (·.isFinite) &&
          (s.metadata.inSample.all ErrorReport.isFinite && true)))
          ⟨some s.formatVersion, some s.model, options, some s.transform, some s.parameters, some s.metadata⟩ :=
  members_slot rfl rfl (Transform.decoder_tree (by decide) s.transform)
    (members_slot rfl rfl (ParameterBlock.decoder_tree (by decide) hsized.rows hsized.cols)
      (members_slot rfl rfl (SnapshotMetadata.decoder_tree (by decide) hsized.trained hsized.reported)
        (members_nil _)))

theorem decoder_tree {s : Snapshot} (hsized : s.Sized) : decoder 0 s.toValue.tree = onlyIf s.isFinite s := by
  have hmembers : schema.members 1 {} (Value.treeMembers [("format_version", .whole s.formatVersion),
      ("model", .string s.model), ("options", s.options.toValue), ("transform", s.transform.toValue),
      ("parameters", s.parameters.toValue), ("metadata", s.metadata.toValue)]) =
        onlyIf (true && (true && (s.options.maxCondition.isFinite && (s.transform.isFinite &&
          (s.parameters.values.all (·.isFinite) && (s.metadata.inSample.all ErrorReport.isFinite && true))))))
          ⟨some s.formatVersion, some s.model, some s.options, some s.transform, some s.parameters,
            some s.metadata⟩ :=
    members_slot rfl rfl (below_tree _ hsized.version (by decide))
      (members_slot rfl rfl rfl
        (members_slot rfl rfl (RegressorOptions.decoder_tree (by decide) s.options)
          (members_rest hsized (some s.options))))
  rw [Bool.true_and, Bool.true_and, Bool.and_true] at hmembers
  exact decode_object (by decide) hmembers rfl

/-- The text of a snapshot is read as the snapshot, if all its doubles are finite; otherwise it is refused. -/
theorem ofText_text {s : Snapshot} (hsized : s.Sized) : ofText s.text = onlyIf s.isFinite s := by
  have hdecoder := decoder_tree hsized
  simp only [ofText, Decoder.run, text, ofText_render, hdecoder]
  cases s.isFinite <;> rfl

end Snapshot

end FlightFit
