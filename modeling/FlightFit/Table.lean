import FlightFit.Window
import FlightFit.Matrix.Basic

/-!
Module: FlightFit.Table
Purpose: Telemetry tables: named channels with one sample a row, in the order in which the names first
  came up. A table is plain data; `Table.WellFormed` says when its parts agree.
Main exports: Channel, Columns, Table, Table.WellFormed, Table.ofColumns, Table.extend, Table.channel,
  Table.write, Table.select
-/

namespace FlightFit

/-- A named series of samples. -/
structure Channel where
  name : String
  samples : List Float
deriving Repr

/-- Samples under names, as a table is made of them. A name can come up several times. -/
abbrev Columns := List (String × List Float)

/-- Channels of aligned samples. -/
structure Table where
  rows : Nat
  channels : List Channel
deriving Repr

namespace Table

/-- The table without channels. -/
def empty : Table := ⟨0, []⟩

/-- The channel names in order. -/
def names (t : Table) : List String := t.channels.map Channel.name

/-- Names occur once, every channel has a sample for every row, and a table without channels has no
    rows. -/
structure WellFormed (t : Table) : Prop where
  distinct : t.names.Nodup
  aligned : ∀ c ∈ t.channels, c.samples.length = t.rows
  bare : t.channels = [] → t.rows = 0

/-- Whether there are no rows. -/
def isEmpty (t : Table) : Bool := t.rows == 0

/-- Gives a channel new samples: in place when the name is known, at the end when it is new. -/
def put (name : String) (samples : List Float) : List Channel → List Channel
  | [] => [⟨name, samples⟩]
  | c :: rest => if c.name = name then ⟨name, samples⟩ :: rest else c :: put name samples rest

/-- The samples of a channel in a list. -/
def find? (name : String) : List Channel → Option (List Float)
  | [] => none
  | c :: rest => if c.name = name then some c.samples else find? name rest

/-- A table of columns, all as long as the first one. The last column of a name counts, at the place
    of the first. -/
def ofColumns (columns : Columns) : Except Fault Table :=
  let rows := match columns with
    | [] => 0
    | (_, samples) :: _ => samples.length
  match columns.find? (fun column => column.2.length != rows) with
  | some (name, samples) => .error (.lengthMismatch name rows samples.length)
  | none => .ok ⟨rows, columns.foldl (fun channels column => put column.1 column.2 channels) []⟩

/-- The samples of a channel. -/
def channel (t : Table) (name : String) : Except Fault (List Float) :=
  match find? name t.channels with
  | some samples => .ok samples
  | none => .error (.unknownChannel name)

/-- Whether a table has a channel. -/
def has (t : Table) (name : String) : Bool := (find? name t.channels).isSome

/-- The rows of another table below those of this one. Both need the same channels, in any order; a
    table without channels becomes the other one. -/
def extend (t other : Table) : Except Fault Table :=
  if t.channels.isEmpty then .ok other
  else match other.names.find? (fun name => !t.has name) with
    | some name => .error (.unknownChannel name)
    | none => match t.names.find? (fun name => !other.has name) with
      | some name => .error (.unknownChannel name)
      | none => .ok {
          rows := t.rows + other.rows
          channels := t.channels.map fun c =>
            ⟨c.name, c.samples ++ (find? c.name other.channels).getD []⟩ }

/-- Gives a channel new samples, made from its old ones. -/
def update (t : Table) (name : String) (f : List Float → List Float) : Except Fault Table :=
  if t.has name then
    .ok { t with channels := t.channels.map fun c => if c.name = name then ⟨name, f c.samples⟩ else c }
  else .error (.unknownChannel name)

/-- Writes one sample. -/
def write (t : Table) (name : String) (index : Nat) (value : Float) : Except Fault Table :=
  t.update name fun samples => samples.set index value

/-- The samples of several channels. -/
def channelsNamed (t : Table) : List String → Except Fault (List (List Float))
  | [] => .ok []
  | name :: rest => do
    let samples ← t.channel name
    let more ← t.channelsNamed rest
    .ok (samples :: more)

/-- Copies channels over a window into a matrix, one column for each name. -/
def select (t : Table) (names : List String) (w : Window) : Except Fault (Matrix Float) :=
  if t.rows < w.stop || w.stop < w.start then .error (.outOfBounds w.start w.stop t.rows)
  else do
    let columns ← t.channelsNamed names
    .ok (Matrix.ofColumns w.len (columns.map fun samples => samples.drop w.start))

end Table

end FlightFit
