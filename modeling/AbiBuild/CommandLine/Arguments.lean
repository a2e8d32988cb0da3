import AbiBuild.Files.Path
import AbiBuild.Text.Split

/-!
# Arguments of the command line

A command has a verb, one path of sources, and options.  Arguments are read from left to right.  The
value of an option may follow in the next argument, so it is only looked at when the next thing is
complete, and a fault in it may be found after other arguments have been read.
-/

namespace AbiBuild.CommandLine

open Files

inductive Verb
  | compile
  | clear
  | inspect
  deriving DecidableEq, Repr

namespace Verb

def ofName? : String → Option Verb
  | "compile" => some compile
  | "clear" => some clear
  | "inspect" => some inspect
  | _ => none

def name : Verb → String
  | compile => "compile"
  | clear => "clear"
  | inspect => "inspect"

end Verb

structure Invocation where
  verb : Verb
  debug : Bool
  sources : Path
  output : Option Path
  classpath : List Path
  deriving DecidableEq, Repr

/-- Why there is nothing to do. -/
inductive Refusal
  | invalidSubcommand
  | missingSubcommand
  | missingArgument
  | unknownArgument
  /-- An option without its value, or an empty path. -/
  | invalidValue
  /-- A value for an option that takes none. -/
  | tooManyValues
  | givenTwice
  | nothingGiven
  | help
  | version
  deriving DecidableEq, Repr

def Refusal.exitCode : Refusal → Int
  | help | version => 0
  | _ => 2

/-! ## The shape of an argument -/

/-- What an argument looks like. -/
inductive Shape
  | separator
  /-- Two dashes, a name, and a value after an equals sign. -/
  | long (name : String) (value : Option String)
  /-- One dash and letters. -/
  | short (letters : List Char)
  | plain (text : String)
  deriving DecidableEq, Repr

def shapeOf (argument : String) : Shape :=
  match argument.toList with
  | ['-', '-'] => .separator
  | '-' :: '-' :: rest =>
    let value := rest.dropWhile (· ≠ '=')
    .long (String.ofList (rest.takeWhile (· ≠ '=')))
      (if value.isEmpty then none else some (String.ofList (value.drop 1)))
  | '-' :: letter :: rest => .short (letter :: rest)
  | _ => .plain argument

/-! ## After the verb -/

/-- What takes a value. -/
inductive Target
  | sources
  | output
  | classpath
  deriving DecidableEq, Repr

/-- What has been read after the verb. -/
structure Reading where
  debug : Bool
  sources : Option String := none
  output : Option String := none
  classpath : List String := []
  /-- What has been named, and its value if it has been read, but not looked at. -/
  pending : Option (Target × Option String) := none
  /-- The path of the sources has been read. -/
  hasSources : Bool := false

namespace Reading

def setOnce (current : Option String) (value : String) : Except Refusal (Option String) :=
  if current.isSome then .error .givenTwice
  else if value = "" then .error .invalidValue
  else .ok (some value)

def give (reading : Reading) (target : Target) (value : String) : Except Refusal Reading :=
  match target with
  | .sources => do pure { reading with sources := ← setOnce reading.sources value }
  | .output => do pure { reading with output := ← setOnce reading.output value }
  | .classpath =>
    let entries := Text.splitOn ':' value
    if entries.any (· = "") then .error .invalidValue
    else .ok { reading with classpath := reading.classpath ++ entries }

def settle (reading : Reading) : Except Refusal Reading :=
  match reading.pending with
  | none => .ok reading
  | some (_, none) => .error .invalidValue
  | some (target, some value) => { reading with pending := none }.give target value

/-- Names an option, with its value if it came along. -/
def name (reading : Reading) (target : Target) (value : Option String) :
    Except Refusal Reading := do
  let reading ← reading.settle
  match value with
  | some value => reading.give target value
  | none => pure { reading with pending := some (target, none) }

/-- Reads an argument that is no option: the value that an option waits for, or the path. -/
def plain (reading : Reading) (argument : String) : Except Refusal Reading := do
  if reading.hasSources then throw .unknownArgument
  let reading ← reading.settle
  pure { reading with pending := some (.sources, some argument), hasSources := true }

end Reading

def longTarget? (verb : Verb) : String → Option Target
  | "output" => some .output
  | "classpath" | "cp" => if verb = .compile then some .classpath else none
  | _ => none

def shortTarget? (verb : Verb) : Char → Option Target
  | 'o' => some .output
  | 'c' => if verb = .compile then some .classpath else none
  | _ => none

def readLong (verb : Verb) (reading : Reading) (name : String) (value : Option String) :
    Except Refusal Reading :=
  match name, value with
  | "debug", none => do
    let reading ← reading.settle
    if reading.debug then throw .givenTwice
    pure { reading with debug := true }
  | "help", none => do
    let _ ← reading.settle
    throw .help
  | "debug", some _ | "help", some _ => .error .tooManyValues
  | name, value =>
    match longTarget? verb name with
    | some target => reading.name target value
    | none => .error .unknownArgument

/-- Reads an option of one letter.  What follows the letter is its value, with or without an equals
sign. -/
def readShort (verb : Verb) (reading : Reading) (letter : Char) (rest : List Char) :
    Except Refusal Reading :=
  if letter = 'h' then do
    let _ ← reading.settle
    throw .help
  else
    match shortTarget? verb letter, rest with
    | none, _ => .error .unknownArgument
    | some target, [] => reading.name target none
    | some target, '=' :: value => reading.name target (some (String.ofList value))
    | some target, value => reading.name target (some (String.ofList value))

def readArgument (verb : Verb) (reading : Reading) (argument : String) : Except Refusal Reading :=
  match shapeOf argument with
  | .long name value => readLong verb reading name value
  | .short (letter :: rest) => readShort verb reading letter rest
  | _ =>
    match reading.pending with
    | some (target, none) => .ok { reading with pending := some (target, some argument) }
    | _ => reading.plain argument

def readArguments (verb : Verb) : (separated : Bool) → Reading → List String →
    Except Refusal Reading
  | _, reading, [] => reading.settle
  | true, reading, argument :: rest => do
    readArguments verb true (← reading.plain argument) rest
  | false, reading, argument :: rest =>
    if shapeOf argument = .separator then readArguments verb true reading rest
    else do readArguments verb false (← readArgument verb reading argument) rest

def parseVerb (verb : Verb) (debug : Bool) (arguments : List String) :
    Except Refusal Invocation := do
  let reading ← readArguments verb false ⟨false, none, none, [], none, false⟩ arguments
  match reading.sources with
  | none => throw .missingArgument
  | some sources =>
    pure
      { verb := verb
        debug := debug || reading.debug
        sources := ⟨sources⟩
        output := reading.output.map Files.Path.mk
        classpath := reading.classpath.map Files.Path.mk }

/-! ## Before the verb -/

def withoutVerb (debug : Bool) : Refusal :=
  if debug then .missingSubcommand else .nothingGiven

def isCommandName (text : String) : Bool :=
  text = "help" || (Verb.ofName? text).isSome

def refusalOfHelp : List String → Refusal
  | [] => .help
  | [topic] => if isCommandName topic then .help else .invalidSubcommand
  | _ => .invalidSubcommand

def refusalAfterSeparator (debug : Bool) : List String → Refusal
  | [] => withoutVerb debug
  | argument :: _ => if isCommandName argument then .unknownArgument else .invalidSubcommand

def parseFrom (debug : Bool) : List String → Except Refusal Invocation
  | [] => .error (withoutVerb debug)
  | argument :: rest =>
    match shapeOf argument with
    | .separator => .error (refusalAfterSeparator debug rest)
    | .long "debug" none => if debug then .error .givenTwice else parseFrom true rest
    | .long "help" none => .error .help
    | .long "version" none => .error .version
    | .long "debug" (some _) | .long "help" (some _) | .long "version" (some _) =>
      .error .tooManyValues
    | .long _ _ => .error .unknownArgument
    | .short ('h' :: _) => .error .help
    | .short ('V' :: _) => .error .version
    | .short _ => .error .unknownArgument
    | .plain "help" => .error (refusalOfHelp rest)
    | .plain name =>
      match Verb.ofName? name with
      | some verb => parseVerb verb debug rest
      | none => .error .invalidSubcommand

def parse (arguments : List String) : Except Refusal Invocation := parseFrom false arguments

end AbiBuild.CommandLine
