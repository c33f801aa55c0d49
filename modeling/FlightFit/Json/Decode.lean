import FlightFit.Json.Reader

/-!
Module: FlightFit.Json.Decode
Purpose: Typed reading of JSON in the order of the text, so that the first defect met is the one
  reported: a value of the wrong type stops the reading before what follows it is looked at, and a
  container of the wrong type before what is in it. A record may be written as an object with its
  members in any order, or as an array of its fields in their own order.
Main exports: Decoder, Decoder.float, Decoder.size, Decoder.text, Decoder.list, Field, Schema,
  Schema.decode, Decoder.run
-/

namespace FlightFit.Json

/-- Reads a value with a number of containers around it. -/
abbrev Decoder (α : Type) := Nat → Json → Except Defect α

/-- What is wrong with a value of an unwanted type. Scalars are read to their end first, containers
    are not looked into. -/
def refusal : Json → Defect
  | .broken => .malformed
  | .string none => .malformed
  | .number n => if n.toFloat?.isSome then .mistyped else .malformed
  | _ => .mistyped

namespace Decoder

/-- A double. -/
def float : Decoder Float := fun _ json =>
  match json with
  | .number n => match n.toFloat? with
    | some x => .ok x
    | none => .error .malformed
  | other => .error (refusal other)

/-- A natural number below a limit of at most `2^64`. -/
def below (limit : Nat) : Decoder Nat := fun _ json =>
  match json with
  | .number n => match n.size? with
    | some k => if k < limit then .ok k else .error .mistyped
    | none => .error (refusal (.number n))
  | other => .error (refusal other)

/-- A natural number below `2^64`. -/
def size : Decoder Nat := below wordLimit

/-- A truth value. -/
def bool : Decoder Bool := fun _ json =>
  match json with
  | .bool b => .ok b
  | other => .error (refusal other)

/-- A text. -/
def text : Decoder String := fun _ json =>
  match json with
  | .string (some s) => .ok s
  | other => .error (refusal other)

/-- A text of one character. -/
def letter : Decoder Char := fun depth json => do
  match (← text depth json).toList with
  | [c] => .ok c
  | _ => .error .mistyped

/-- The items of a list, each read in turn. -/
def items {α : Type} (item : Decoder α) (depth : Nat) : List Json → Except Defect (List α)
  | [] => .ok []
  | json :: rest => do
    let value ← item depth json
    let values ← items item depth rest
    .ok (value :: values)

/-- A list. -/
def list {α : Type} (item : Decoder α) : Decoder (List α) := fun depth json =>
  match json with
  | .array jsons closed => do
    let inner ← enter depth
    let values ← items item inner jsons
    if closed then .ok values else .error .malformed
  | other => .error (refusal other)

/-- A pair, written as an array. Too short an array has the wrong type; text after the second item is
    a syntax error. -/
def pair {α β : Type} (first : Decoder α) (second : Decoder β) : Decoder (α × β) := fun depth json =>
  match json with
  | .array jsons closed => do
    let inner ← enter depth
    match jsons with
    | [] => .error (if closed then .mistyped else .malformed)
    | a :: rest =>
      let a ← first inner a
      match rest with
      | [] => .error (if closed then .mistyped else .malformed)
      | b :: rest =>
        let b ← second inner b
        if closed && rest.isEmpty then .ok (a, b) else .error .malformed
  | other => .error (refusal other)

/-- A value that may be null. -/
def nullable {α : Type} (item : Decoder α) : Decoder (Option α) := fun depth json =>
  match json with
  | .null => .ok none
  | other => (item depth other).map some

/-- A table of values under text keys. The last value under a key counts. -/
def entries {α : Type} (item : Decoder α) (depth : Nat) :
    List (Option String × Json) → Except Defect (List (String × α))
  | [] => .ok []
  | (none, _) :: _ => .error .malformed
  | (some key, json) :: rest => do
    let value ← item depth json
    let pairs ← entries item depth rest
    .ok ((key, value) :: pairs)

/-- The members of an object whose values are all of one type, in the order of the text. -/
def table {α : Type} (item : Decoder α) : Decoder (List (String × α)) := fun depth json =>
  match json with
  | .object members closed => do
    let inner ← enter depth
    let pairs ← entries item inner members
    if closed then .ok pairs else .error .malformed
  | other => .error (refusal other)

/-- Reads a whole text. -/
def run {α : Type} (decoder : Decoder α) (text : String) : Except Defect α := do
  let document := Document.ofText text
  let value ← decoder 0 document.root
  if document.clean then .ok value else .error .malformed

end Decoder

/-- A field of a record that is being collected in `σ`. -/
structure Field (σ : Type) where
  name : String
  /-- Whether the field has been read already. -/
  given : σ → Bool
  /-- Reads the field into the collection. -/
  read : Nat → Json → σ → Except Defect σ

/-- A field kept in an optional slot of the collection. -/
def Field.slot {σ α : Type} (name : String) (get : σ → Option α) (set : σ → Option α → σ)
    (decoder : Decoder α) : Field σ where
  name := name
  given := fun s => (get s).isSome
  read := fun depth json s => (decoder depth json).map fun value => set s (some value)

/-- How a record is read. -/
structure Schema (σ : Type) where
  /-- The fields, in the order that an array gives them. -/
  fields : List (Field σ)
  /-- The collection before any field was read. -/
  blank : σ
  /-- Whether the record may be written as an array. -/
  positional : Bool := true
  /-- What happens to members that are no field: they are skipped, or kept as values. -/
  keep : Option (String → Value → σ → σ) := none

namespace Schema

variable {σ : Type}

/-- Reads the members of an object. A field that occurs twice has the wrong type. -/
def members (schema : Schema σ) (depth : Nat) : σ → List (Option String × Json) → Except Defect σ
  | s, [] => .ok s
  | _, (none, _) :: _ => .error .malformed
  | s, (some key, json) :: rest =>
    match schema.fields.find? (fun field => field.name == key), schema.keep with
    | some field, _ =>
      if field.given s then .error .mistyped
      else do
        let s ← field.read depth json s
        members schema depth s rest
    | none, some keep => do
      let value ← json.strict depth
      members schema depth (keep key value s) rest
    | none, none => if json.intact then members schema depth s rest else .error .malformed

/-- Reads the items of an array into the fields in their order; items are left when there are more. -/
def positions (depth : Nat) : List (Field σ) → σ → List Json → Except Defect (σ × List Json)
  | _, s, [] => .ok (s, [])
  | [], s, jsons => .ok (s, jsons)
  | field :: fields, s, json :: rest => do
    let s ← field.read depth json s
    positions depth fields s rest

/-- Collects the fields of a record. -/
def collect (schema : Schema σ) : Decoder σ := fun depth json =>
  match json with
  | .object pairs closed => do
    let inner ← enter depth
    let s ← schema.members inner schema.blank pairs
    if closed then .ok s else .error .malformed
  | .array jsons closed =>
    if schema.positional then do
      let inner ← enter depth
      let (s, rest) ← positions inner schema.fields schema.blank jsons
      if closed && rest.isEmpty then .ok s else .error .malformed
    else .error .mistyped
  | other => .error (refusal other)

/-- Reads a record; a collection that lacks a required field has the wrong type. -/
def decode {α : Type} (schema : Schema σ) (finish : σ → Option α) : Decoder α := fun depth json => do
  match finish (← schema.collect depth json) with
  | some value => .ok value
  | none => .error .mistyped

end Schema

end FlightFit.Json
