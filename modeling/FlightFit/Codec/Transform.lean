import FlightFit.Codec.Basic
import FlightFit.Transform

/-!
Module: FlightFit.Codec.Transform
Purpose: The JSON form of transforms: an object whose member `kind` says which transform it is, at any
  place among the others, or an array that starts with the kind. All the other members are read as
  plain values first, and are looked at when the kind is known.
Main exports: Transform.decoder, Transform.toValue
-/

namespace FlightFit

open FlightFit.Json

/-- The kinds of transforms. -/
inductive TransformKind where
  | fuelFlow
  | linear
deriving DecidableEq, Repr

/-- A kind, by its name. -/
def TransformKind.decoder : Decoder TransformKind := fun depth json => do
  match ← Decoder.text depth json with
  | "fuel_flow" => .ok .fuelFlow
  | "linear" => .ok .linear
  | _ => .error .mistyped

namespace Transform

/-- The transform of a kind, from its fields in order; the last one may be missing. -/
def ofFields (kind : TransformKind) (features targets : Value) (extra : Option Value) :
    Option Transform := do
  let features ← features.texts?
  let targets ← targets.texts?
  match kind, extra with
  | .fuelFlow, none => some (.fuelFlow features targets fuelBias)
  | .fuelFlow, some value => value.float?.map (.fuelFlow features targets)
  | .linear, none => some (.linear features targets true)
  | .linear, some value => value.bool?.map (.linear features targets)

/-- The name of the third field of a kind. -/
def extraKey : TransformKind → String
  | .fuelFlow => "bias"
  | .linear => "intercept"

/-- The transform of a kind, from members in any order; none of its fields may occur twice. -/
def ofMembers (kind : TransformKind) (members : List (String × Value)) : Option Transform :=
  match valuesAt "features" members, valuesAt "targets" members, valuesAt (extraKey kind) members with
  | [features], [targets], [] => ofFields kind features targets none
  | [features], [targets], [extra] => ofFields kind features targets (some extra)
  | _, _, _ => none

/-- The transform of a kind, from its fields in an array. -/
def ofItems (kind : TransformKind) : List Value → Option Transform
  | [features, targets] => ofFields kind features targets none
  | [features, targets, extra] => ofFields kind features targets (some extra)
  | _ => none

/-- Separates the kind from the other members. -/
def splitKind (depth : Nat) : Option TransformKind → List (Option String × Json) →
    Except Defect (Option TransformKind × List (String × Value))
  | kind, [] => .ok (kind, [])
  | _, (none, _) :: _ => .error .malformed
  | kind, (some key, json) :: rest =>
    if key == "kind" then
      if kind.isSome then .error .mistyped
      else do
        let found ← TransformKind.decoder depth json
        splitKind depth (some found) rest
    else do
      let value ← json.strict depth
      let (kind, members) ← splitKind depth kind rest
      .ok (kind, (key, value) :: members)

/-- What is read, if it is a transform. -/
def expect : Option Transform → Except Defect Transform
  | some transform => .ok transform
  | none => .error .mistyped

/-- A transform. -/
def decoder : Decoder Transform := fun depth json =>
  match json with
  | .object pairs closed => do
    let inner ← enter depth
    let (kind, members) ← splitKind inner none pairs
    if closed then expect (kind.bind fun kind => ofMembers kind members) else .error .malformed
  | .array [] closed => do
    let _ ← enter depth
    .error (if closed then .mistyped else .malformed)
  | .array (tag :: items) closed => do
    let inner ← enter depth
    let kind ← TransformKind.decoder inner tag
    let values ← strictItems inner items
    if closed then expect (ofItems kind values) else .error .malformed
  | other => .error (refusal other)

/-- The JSON form of a transform. -/
def toValue : Transform → Value
  | .fuelFlow features targets bias =>
    .object [("kind", .string "fuel_flow"), ("features", .texts features), ("targets", .texts targets),
      ("bias", .real bias)]
  | .linear features targets intercept =>
    .object [("kind", .string "linear"), ("features", .texts features), ("targets", .texts targets),
      ("intercept", .bool intercept)]

end Transform

end FlightFit
