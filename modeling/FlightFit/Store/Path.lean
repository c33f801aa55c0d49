/-!
Module: FlightFit.Store.Path
Purpose: Paths as texts of pieces between slashes. Empty pieces, and single dots after the first piece,
  name nothing; the text of a path is kept as it was given all the same.
Main exports: Path.pieces, Path.isAbsolute, Path.parent?, Path.join, Path.extension
-/

namespace FlightFit.Path

/-- The pieces of a list of characters between slashes. -/
def split : List Char → List (List Char)
  | [] => [[]]
  | c :: cs =>
    if c == '/' then [] :: split cs
    else match split cs with
      | piece :: rest => (c :: piece) :: rest
      | [] => [[c]]

/-- The pieces of a path between slashes. -/
def pieces (path : String) : List String := (split path.toList).map String.ofList

/-- Whether a path starts at the root. -/
def isAbsolute (path : String) : Bool :=
  match path.toList with
  | '/' :: _ => true
  | _ => false

/-- The path of the names on the way to an entry; the way from the root starts with a slash. -/
def ofKey : List String → String
  | "/" :: names => "/" ++ "/".intercalate names
  | names => "/".intercalate names

/-- Whether a piece after the first one names nothing. -/
def isIdle (piece : String) : Bool := piece == "" || piece == "."

/-- Splits pieces after the first one into those before the last name, and the last name. -/
def splitLast (pieces : List String) : Option (List String × String) :=
  match pieces.reverse.dropWhile isIdle with
  | [] => none
  | last :: before => some ((before.dropWhile isIdle).reverse, last)

/-- The path without its last component. -/
def parent? (path : String) : Option String :=
  match pieces path with
  | [] => none
  | first :: rest => match splitLast rest with
    | some (before, _) =>
      if first == "" && before.isEmpty then some "/" else some ("/".intercalate (first :: before))
    | none => if first == "" then none else some ""

/-- The last component of a path, if it is a name. -/
def fileName? (path : String) : Option String :=
  match pieces path with
  | [] => none
  | first :: rest =>
    let last := match splitLast rest with
      | some (_, last) => last
      | none => first
    if isIdle last || last == ".." then none else some last

/-- The part of a name after its last dot, unless that dot starts the name. -/
def extensionOf (name : List Char) : Option (List Char) :=
  let after := (name.reverse.takeWhile (· != '.')).reverse
  let before := (name.reverse.dropWhile (· != '.')).drop 1
  if before.isEmpty then none else some after

/-- The extension of a path in small letters; none counts as empty. -/
def extension (path : String) : String :=
  match (fileName? path).bind fun name => extensionOf name.toList with
  | some letters => String.ofList (letters.map Char.toLower)
  | none => ""

/-- A path taken from a folder. -/
def join (folder path : String) : String :=
  if isAbsolute path || folder == "" then path
  else if folder.toList.getLast? == some '/' then folder ++ path
  else folder ++ "/" ++ path

end FlightFit.Path
