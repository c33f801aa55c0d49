import FlightFit.Binary
import FlightFit.Store.Path

/-!
Module: FlightFit.Store.Basic
Purpose: A tree of folders and files under a working folder, with the operations a program needs: to
  read a file, to write one and to make folders. The folders around the working folder are known to be
  there, but not what is in them, apart from what was put there. Files hold bytes, or typed columns
  where the format is columnar.
Main exports: StoreFault, ColumnType, TypedColumn, Content, Store, Store.locate, Store.read,
  Store.write, Store.makeFolders, Store.withFoldersFor, Store.place, Store.written
-/

namespace FlightFit

/-- Why a file cannot be used. -/
inductive StoreFault where
  | notFound
  | isFolder
  | notFolder
  | alreadyExists
  | notText
  /-- The path has a character that no path can have. -/
  | badPath
  /-- The path, or a name in it, is too long. -/
  | tooLong
deriving DecidableEq, Repr

/-- The wording of a store fault. -/
def StoreFault.message : StoreFault → String
  | .notFound => "no such file or folder"
  | .isFolder => "is a folder"
  | .notFolder => "not a folder"
  | .alreadyExists => "file exists"
  | .notText => "not valid UTF-8"
  | .badPath => "path with a null character"
  | .tooLong => "file name too long"

/-- The type of a column in a columnar file. -/
inductive ColumnType where
  | float64
  | float32
  | int32
  | int64
  | int16
  | uint32
  | boolean
  | utf8
deriving DecidableEq, Repr

namespace ColumnType

/-- The name of a type. -/
def name : ColumnType → String
  | .float64 => "Float64"
  | .float32 => "Float32"
  | .int32 => "Int32"
  | .int64 => "Int64"
  | .int16 => "Int16"
  | .uint32 => "UInt32"
  | .boolean => "Boolean"
  | .utf8 => "Utf8"

/-- Whether columns of the type can be read as telemetry. -/
def isNumeric : ColumnType → Bool
  | .float64 | .float32 | .int32 | .int64 => true
  | _ => false

end ColumnType

/-- A column of a columnar file; a missing value has no number, and neither has a value that is not
    numeric. -/
structure TypedColumn where
  name : String
  type : ColumnType
  values : List (Option Float)
deriving Repr

/-- The column as it is kept: single precision is less than double. -/
def TypedColumn.stored (c : TypedColumn) : TypedColumn :=
  match c.type with
  | .float32 => { c with values := c.values.map fun value => value.map toSingle }
  | _ => c

/-- What a file holds. -/
inductive Content where
  | bytes (data : ByteArray)
  | columns (columns : List TypedColumn)

/-- An entry of a store. -/
inductive Entry where
  | file (content : Content)
  | folder

/-- Entries under the names on the way to them. The working folder itself has no names; the way from
    the root starts with a slash, and the way out of the working folder with double dots. -/
structure Store where
  entries : List (List String × Entry)

/-- What a path leads to. A path that ends with a slash asks for a folder, whatever it leads to. -/
inductive Place where
  | file (key : List String) (content : Content) (slash : Bool)
  | folder (key : List String)
  /-- Nothing yet, in a folder that exists. -/
  | vacant (key : List String) (slash : Bool)

namespace Store

/-- The store with nothing but the working folder. -/
def empty : Store := ⟨[]⟩

/-- Whether a key is the root, the working folder, or a folder around it. -/
def isTop (key : List String) : Bool := key == ["/"] || key.all (· == "..")

/-- The key of the folder around an entry. The root is its own parent. -/
def above (key : List String) : List String :=
  if key == ["/"] then key
  else if isTop key then key ++ [".."]
  else key.dropLast

/-- The entry under a key. -/
def find? (s : Store) (key : List String) : Option Entry :=
  if isTop key then some .folder
  else (s.entries.find? fun entry => entry.1 == key).map Prod.snd

/-- Puts an entry under a key. -/
def put (s : Store) (key : List String) (entry : Entry) : Store :=
  ⟨(key, entry) :: s.entries.filter fun other => other.1 != key⟩

/-- A name has at most this many bytes. -/
def nameLimit : Nat := 255

/-- A path has at most this many bytes. -/
def pathLimit : Nat := 4095

/-- Follows the pieces of a path from a folder. -/
def walk (s : Store) (key : List String) : List String → Except StoreFault Place
  | [] => .ok (.folder key)
  | piece :: rest =>
    if Path.isIdle piece then s.walk key rest
    else if piece == ".." then s.walk (above key) rest
    else if nameLimit < piece.utf8ByteSize then .error .tooLong
    else
      let next := key ++ [piece]
      let isLast := rest.all (· == "")
      match s.find? next with
      | some .folder => s.walk next rest
      | some (.file content) =>
        if isLast then .ok (.file next content (!rest.isEmpty)) else .error .notFolder
      | none => if isLast then .ok (.vacant next (!rest.isEmpty)) else .error .notFound

/-- What a path leads to. -/
def locate (s : Store) (path : String) : Except StoreFault Place :=
  if path.toList.contains '\x00' then .error .badPath
  else if path == "" then .error .notFound
  else if pathLimit < path.utf8ByteSize then .error .tooLong
  else s.walk (if Path.isAbsolute path then ["/"] else []) (Path.pieces path)

/-- The content of a file. -/
def read (s : Store) (path : String) : Except StoreFault Content := do
  match ← s.locate path with
  | .file _ content false => .ok content
  | .file _ _ true => .error .notFolder
  | .folder _ => .error .isFolder
  | .vacant .. => .error .notFound

/-- The content of a text file. -/
def readText (s : Store) (path : String) : Except StoreFault String := do
  match ← s.read path with
  | .bytes data => match String.fromUTF8? data with
    | some text => .ok text
    | none => .error .notText
  | .columns _ => .error .notText

/-- Writes a file, in place of one that is there. A path that ends with a slash can only be a folder's. -/
def write (s : Store) (path : String) (content : Content) : Except StoreFault Store := do
  match ← s.locate path with
  | .file key _ false => .ok (s.put key (.file content))
  | .vacant key false => .ok (s.put key (.file content))
  | _ => .error .isFolder

/-- Makes one folder. -/
def makeFolder (s : Store) (path : String) : Except StoreFault Store := do
  match ← s.locate path with
  | .vacant key _ => .ok (s.put key .folder)
  | _ => .error .alreadyExists

/-- Whether a path leads to a folder. -/
def isFolder (s : Store) (path : String) : Bool :=
  match s.locate path with
  | .ok (.folder _) => true
  | _ => false

/-- Makes a folder after those around it; one that is there already stays. -/
def makeFolderAt (s : Store) (path : String) : Store × Option StoreFault :=
  match s.makeFolder path with
  | .ok s => (s, none)
  | .error fault => (s, if s.isFolder path then none else some fault)

/-- Makes a folder and those around it, `fuel` of them at most. -/
def makeFoldersUpTo : Nat → Store → String → Store × Option StoreFault
  | 0, s, _ => (s, none)
  | fuel + 1, s, path =>
    if path == "" then (s, none)
    else match s.makeFolderAt path with
      | (_, some .notFound) => match Path.parent? path with
        | none => (s, some .notFound)
        | some parent => match makeFoldersUpTo fuel s parent with
          | (s, none) => s.makeFolderAt path
          | failed => failed
      | settled => settled

/-- Makes a folder and those around it, and tells what went wrong; folders that are there already stay,
    and so do those that were made before something went wrong. -/
def makeFolders (s : Store) (path : String) : Store × Option StoreFault :=
  makeFoldersUpTo (path.length + 1) s path

/-- The store with the folders around a path. -/
def withFoldersFor (s : Store) (path : String) : Store :=
  match Path.parent? path with
  | some folder => (s.makeFolders folder).1
  | none => s

/-- Puts an entry at a path, with folders around it; a path that cannot be used is passed over. -/
def place (s : Store) (path : String) : Entry → Store
  | .folder => (s.makeFolders path).1
  | .file content => ((s.withFoldersFor path).write path content).toOption.getD s

/-- Whether a store holds an entry under a key already. -/
def holds (s : Store) (key : List String) (entry : Entry) : Bool :=
  match s.find? key, entry with
  | some .folder, .folder => true
  | some (.file (.bytes old)), .file (.bytes new) => old.data == new.data
  | some (.file (.columns _)), .file (.columns _) => true
  | _, _ => false

/-- The entries that are new or different in a later store, under their paths. -/
def written (before after : Store) : List (String × Entry) :=
  (after.entries.filter fun (key, entry) => !before.holds key entry).map fun (key, entry) =>
    (Path.ofKey key, entry)

end Store

end FlightFit
