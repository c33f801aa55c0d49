import FlightFit.Decimal.Reader
import FlightFit.Segment

/-!
Module: FlightFit.Command.Arguments
Purpose: The command line. Options may stand anywhere among the inputs, a value follows its option as
  the next word or after an equals sign, and no option may be given twice. A word that starts with a
  dash is never taken for a value, unless it is a lone dash. Words are judged from the left, and those
  after a request for help or for the version are not looked at.
Main exports: Command, Invocation, Request, ValueKind, OptionSpec, Grammar, scanWords, Request.parse
-/

namespace FlightFit

/-- What the program is asked to do. -/
inductive Command where
  | fit (config : String)
  | segment (inputs : List String) (delimiter : Char) (speed time : String) (limits : CruiseLimits)
      (units : Option String)
  | evaluate (model : String) (inputs : List String) (delimiter : Char) (units : Option String)
      (start : Nat) (stop : Option Nat)
  | models
deriving Repr

/-- A command, and whether everything shall be reported. -/
structure Invocation where
  verbose : Bool
  command : Command
deriving Repr

/-- What a command line asks for. -/
inductive Request where
  | invoke (invocation : Invocation)
  | help
  | version
deriving Repr

/-- A natural number below `2^64`, with an optional plus sign. -/
def readSize (text : String) : Option Nat :=
  let body := match text.toList with
    | '+' :: cs => cs
    | cs => cs
  match digitRun 0 0 body with
  | (value, count, []) => if count = 0 || Nat.pow 2 64 ≤ value then none else some value
  | _ => none

/-- A text of one character. -/
def readLetter (text : String) : Option Char :=
  match text.toList with
  | [c] => some c
  | _ => none

/-- A path that is not empty. -/
def readPath (text : String) : Option String := if text == "" then none else some text

/-- A number with a fraction. -/
def readReal (text : String) : Option Float := (readFloat text).toOption

/-- What the value of an option or an input stands for. -/
inductive ValueKind where
  | text
  | path
  | letter
  | size
  | real
deriving DecidableEq, Repr

/-- Whether a text is a value of a kind. -/
def ValueKind.accepts (text : String) : ValueKind → Bool
  | .text => true
  | .path => (readPath text).isSome
  | .letter => (readLetter text).isSome
  | .size => (readSize text).isSome
  | .real => (readReal text).isSome

/-- An option: its long name, its letter, and the kind of its value; a flag has none. -/
structure OptionSpec where
  long : String
  letter : Option Char
  value : Option ValueKind
deriving DecidableEq, Repr

/-- The words that can follow a command: its options, and whether there are inputs, which are paths. -/
structure Grammar where
  options : List OptionSpec
  inputs : Bool
deriving DecidableEq, Repr

namespace Grammar

/-- The options of every command. -/
def common : List OptionSpec := [⟨"verbose", some 'v', none⟩, ⟨"help", some 'h', none⟩]

/-- The options before the command. -/
def program : Grammar := ⟨common ++ [⟨"version", some 'V', none⟩], false⟩

/-- The words after `fit`. -/
def fit : Grammar := ⟨common ++ [⟨"config", some 'c', some .path⟩], false⟩

/-- The words after `segment`. -/
def segment : Grammar :=
  ⟨common ++ [⟨"delimiter", none, some .letter⟩, ⟨"speed", none, some .text⟩, ⟨"time", none, some .text⟩,
    ⟨"accel-tolerance", none, some .real⟩, ⟨"min-speed", none, some .real⟩, ⟨"min-length", none, some .size⟩,
    ⟨"units", none, some .path⟩], true⟩

/-- The words after `evaluate`. -/
def evaluate : Grammar :=
  ⟨common ++ [⟨"model", some 'm', some .path⟩, ⟨"delimiter", none, some .letter⟩,
    ⟨"units", none, some .path⟩, ⟨"start", none, some .size⟩, ⟨"end", none, some .size⟩], true⟩

/-- The words after `models`. -/
def models : Grammar := ⟨common, false⟩

end Grammar

/-- What has been found on a command line: options with their values, flags with none, and inputs. -/
structure Found where
  options : List (String × String) := []
  inputs : List String := []

namespace Found

/-- The value of an option. -/
def value? (f : Found) (name : String) : Option String :=
  (f.options.find? fun option => option.1 == name).map Prod.snd

/-- Whether an option was given. -/
def has (f : Found) (name : String) : Bool := (f.value? name).isSome

/-- Whether what follows does not matter any more. -/
def isFinal (f : Found) : Bool := f.has "help" || f.has "version"

/-- Adds a flag that was not given before. -/
def addFlag (f : Found) (spec : OptionSpec) : Option Found :=
  if f.has spec.long then none else some { f with options := f.options ++ [(spec.long, "")] }

/-- Adds an option that was not given before, with a value of its kind. -/
def addOption (f : Found) (spec : OptionSpec) (kind : ValueKind) (value : String) : Option Found :=
  if f.has spec.long || !kind.accepts value then none
  else some { f with options := f.options ++ [(spec.long, value)] }

/-- Adds an input where inputs can stand. -/
def addInput (f : Found) (grammar : Grammar) (input : String) : Option Found :=
  if grammar.inputs && ValueKind.path.accepts input then some { f with inputs := f.inputs ++ [input] }
  else none

end Found

/-- What a word is by its look. -/
inductive Word where
  /-- Two dashes: everything after is input. -/
  | divider
  | long (name : String) (value : Option String)
  | letters (letters : List Char)
  | plain (text : String)
deriving Repr

/-- Splits at the first equals sign. -/
def splitEquals (cs : List Char) : String × Option String :=
  let name := cs.takeWhile (· != '=')
  match cs.dropWhile (· != '=') with
  | _ :: value => (String.ofList name, some (String.ofList value))
  | [] => (String.ofList name, none)

/-- The look of a word. -/
def Word.ofText (word : String) : Word :=
  match word.toList with
  | ['-', '-'] => .divider
  | '-' :: '-' :: cs =>
    let (name, value) := splitEquals cs
    .long name value
  | '-' :: c :: cs => .letters (c :: cs)
  | _ => .plain word

/-- An option that waits for its value. -/
abbrev Pending := Option (OptionSpec × ValueKind)

/-- What one word of letters asks for: flags, and at its end perhaps an option with or without value. -/
def scanLetters (grammar : Grammar) (found : Found) : List Char → Option (Found × Pending)
  | [] => some (found, none)
  | c :: cs => do
    let spec ← grammar.options.find? fun spec => spec.letter == some c
    match spec.value, cs with
    | some kind, [] => some (found, some (spec, kind))
    | some kind, '=' :: value => (found.addOption spec kind (String.ofList value)).map (·, none)
    | some kind, value => (found.addOption spec kind (String.ofList value)).map (·, none)
    | none, _ =>
      let found ← found.addFlag spec
      if found.isFinal then some (found, none) else scanLetters grammar found cs

/-- What a long option asks for. -/
def scanLong (grammar : Grammar) (found : Found) (name : String) (value : Option String) :
    Option (Found × Pending) := do
  let spec ← grammar.options.find? fun spec => spec.long == name
  match spec.value, value with
  | some kind, some value => (found.addOption spec kind value).map (·, none)
  | some kind, none => some (found, some (spec, kind))
  | none, none => (found.addFlag spec).map (·, none)
  | none, some _ => none

/-- Scans the words of a command. `pending` is an option that waits for its value, and after a divider
    all words are inputs. -/
def scanWords (grammar : Grammar) : Found → Pending → Bool → List String → Option Found
  | found, none, _, [] => some found
  | _, some _, _, [] => none
  | found, pending, true, word :: words =>
    match pending with
    | some _ => none
    | none => do scanWords grammar (← found.addInput grammar word) none true words
  | found, pending, false, word :: words =>
    match Word.ofText word, pending with
    | .plain text, some (spec, kind) => do
      scanWords grammar (← found.addOption spec kind text) none false words
    | .plain text, none => do scanWords grammar (← found.addInput grammar text) none false words
    | _, some _ => none
    | .divider, none => scanWords grammar found none true words
    | .long name value, none => do
      let (found, pending) ← scanLong grammar found name value
      if found.isFinal then some found else scanWords grammar found pending false words
    | .letters letters, none => do
      let (found, pending) ← scanLetters grammar found letters
      if found.isFinal then some found else scanWords grammar found pending false words

/-- The value of an option, or its default. -/
def optionOr {α : Type} (found : Found) (name : String) (read : String → Option α) (default : α) :
    Option α :=
  match found.value? name with
  | some text => read text
  | none => some default

/-- The value of an option that may be left out. -/
def optionalValue {α : Type} (found : Found) (name : String) (read : String → Option α) :
    Option (Option α) :=
  match found.value? name with
  | some text => (read text).map some
  | none => some none

/-- The inputs, at least one. -/
def someInputs (found : Found) : Option (List String) :=
  if found.inputs.isEmpty then none else some found.inputs

namespace Command

/-- The command `fit`. -/
def ofFit (found : Found) : Option Command := do
  some (.fit (← (found.value? "config").bind readPath))

/-- The command `segment`. -/
def ofSegment (found : Found) : Option Command := do
  let standard : CruiseLimits := {}
  let limits : CruiseLimits := {
    accelTolerance := ← optionOr found "accel-tolerance" readReal standard.accelTolerance
    minSpeed := ← optionOr found "min-speed" readReal standard.minSpeed
    minLength := ← optionOr found "min-length" readSize standard.minLength }
  some (.segment (← someInputs found) (← optionOr found "delimiter" readLetter '|')
    (← optionOr found "speed" some "true air speed") (← optionOr found "time" some "_zulu,_time") limits
    (← optionalValue found "units" readPath))

/-- The command `evaluate`. -/
def ofEvaluate (found : Found) : Option Command := do
  some (.evaluate (← (found.value? "model").bind readPath) (← someInputs found)
    (← optionOr found "delimiter" readLetter '|') (← optionalValue found "units" readPath)
    (← optionOr found "start" readSize 0) (← optionalValue found "end" readSize))

/-- The words that can follow a command, and how it is made of them. -/
def named? : String → Option (Grammar × (Found → Option Command))
  | "fit" => some (.fit, ofFit)
  | "segment" => some (.segment, ofSegment)
  | "evaluate" => some (.evaluate, ofEvaluate)
  | "models" => some (.models, fun _ => some .models)
  | _ => none

end Command

namespace Request

/-- What help is asked for: about the program, or about one command. -/
def ofTopics : List String → Option Request
  | [] => some .help
  | [topic] => if topic == "help" || (Command.named? topic).isSome then some .help else none
  | _ => none

/-- What flags before the command's name ask for, if they settle it. -/
def ofFlags? (found : Found) : Option Request :=
  if found.has "help" then some .help
  else if found.has "version" then some .version
  else none

/-- Reads the words after the command's name. -/
def ofCommand (outer : Found) (grammar : Grammar) (build : Found → Option Command)
    (words : List String) : Option Request := do
  let found ← scanWords grammar {} none false words
  if found.has "help" then some .help
  else
    let command ← build found
    some (.invoke ⟨outer.has "verbose" || found.has "verbose", command⟩)

/-- Reads the words before the command's name. -/
def ofWords : Found → List String → Option Request
  | _, [] => none
  | found, word :: words =>
    match Word.ofText word with
    | .plain "help" => ofTopics words
    | .plain name => do
      let (grammar, build) ← Command.named? name
      ofCommand found grammar build words
    | .divider => none
    | .long name value => do
      let (found, _) ← scanLong .program found name value
      (ofFlags? found).or (ofWords found words)
    | .letters letters => do
      let (found, _) ← scanLetters .program found letters
      (ofFlags? found).or (ofWords found words)

/-- What a command line asks for; nothing if it cannot be understood. -/
def parse (words : List String) : Option Request := ofWords {} words

end Request

end FlightFit
