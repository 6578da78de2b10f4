import Sysml.Files.Path

/-!
# Arguments

What the words of a command line ask for. Options may stand anywhere before two
hyphens on their own; the one word that is no option is the input. A long option
takes its value after an equals sign or from the next word, a short one from
the rest of its word or the next one, and short ones may share a word.
-/

set_option autoImplicit false

namespace Sysml.CommandLine

open Files (Path)

inductive Flag where
  | verbose
  | noLibrary
  | outline
  | json
  | validate
  | workspace
  | decompile
  | selfContained
  | version
  | help
  deriving DecidableEq, Repr, Inhabited

inductive Slot where
  | libraryPath
  | format
  | output
  deriving DecidableEq, Repr, Inhabited

inductive Switch where
  | flag (flag : Flag)
  | slot (slot : Slot)
  deriving DecidableEq, Repr, Inhabited

def longOptions : List (String × Switch) :=
  [("--verbose", .flag .verbose), ("--no-stdlib", .flag .noLibrary),
    ("--stdlib-path", .slot .libraryPath), ("--export", .slot .format),
    ("--export-ast", .flag .outline), ("--json", .flag .json), ("--import", .flag .validate),
    ("--import-workspace", .flag .workspace), ("--decompile", .flag .decompile),
    ("--self-contained", .flag .selfContained), ("--output", .slot .output),
    ("--version", .flag .version), ("--help", .flag .help)]

def shortOptions : List (Char × Switch) :=
  [('v', .flag .verbose), ('o', .slot .output)]

/-- The options and other words met so far; of the values for one slot the last
one counts. -/
structure Words where
  flags : List Flag := []
  values : List (Slot × String) := []
  inputs : List String := []
  deriving DecidableEq, Repr, Inhabited

namespace Words

def addFlag (words : Words) (flag : Flag) : Words :=
  { words with flags := words.flags ++ [flag] }

def addValue (words : Words) (slot : Slot) (value : String) : Words :=
  { words with values := (slot, value) :: words.values }

def has (words : Words) (flag : Flag) : Bool :=
  words.flags.contains flag

def value? (words : Words) (slot : Slot) : Option String :=
  words.values.lookup slot

end Words

/-- Takes the short options of one word; the last one may take its value from
the words that follow. Gives the words not used up. -/
def takeShort (words : Words) (following : List String) :
    List Char → Option (Words × List String)
  | [] => some (words, following)
  | c :: rest =>
      match shortOptions.lookup c with
      | none => none
      | some (.flag flag) => takeShort (words.addFlag flag) following rest
      | some (.slot slot) =>
          if rest.isEmpty then
            match following with
            | [] => none
            | value :: following => some (words.addValue slot value, following)
          else some (words.addValue slot (String.ofList rest), following)

def takeLong (words : Words) (following : List String) (option : Switch)
    (given : Option String) : Option (Words × List String) :=
  match option, given, following with
  | .flag flag, none, _ => some (words.addFlag flag, following)
  | .flag _, some _, _ => none
  | .slot slot, some value, _ => some (words.addValue slot value, following)
  | .slot slot, none, value :: following => some (words.addValue slot value, following)
  | .slot _, none, [] => none

/-- The name of a long option, and the value after an equals sign. -/
def splitLong (word : List Char) : String × Option String :=
  let name := word.takeWhile (· != '=')
  (String.ofList name,
    if name.length < word.length then some (String.ofList (word.drop (name.length + 1))) else none)

/-- Takes a word that begins with a hyphen. -/
def takeOption (words : Words) (following : List String) (word : List Char) :
    Option (Words × List String) :=
  let (name, given) := splitLong word
  match longOptions.lookup name with
  | some option => takeLong words following option given
  | none => if word.take 2 = ['-', '-'] then none else takeShort words following (word.drop 1)

/-- Takes one word after the other, so many at most. -/
def take : Nat → Words → List String → Option Words
  | 0, words, _ => some words
  | _ + 1, words, [] => some words
  | fuel + 1, words, word :: rest =>
      let chars := word.toList
      if word = "--" then some { words with inputs := words.inputs ++ rest }
      else if chars.head? = some '-' && 1 < chars.length then
        match takeOption words rest chars with
        | none => none
        | some (words, rest) => take fuel words rest
      else take fuel { words with inputs := words.inputs ++ [word] } rest

structure Request where
  input : Path
  isVerbose : Bool := false
  noLibrary : Bool := false
  libraryPath : Option Path := none
  /-- Write the model in a format. -/
  format : Option String := none
  /-- Write the symbols of each file. -/
  outline : Bool := false
  /-- Write the analysis as data. -/
  json : Bool := false
  /-- Validate a document. -/
  validate : Bool := false
  /-- Take a document into the workspace. -/
  workspace : Bool := false
  /-- Turn a document into source text. -/
  decompile : Bool := false
  selfContained : Bool := false
  output : Option Path := none
  deriving DecidableEq, Repr, Inhabited

inductive Command where
  | run (request : Request)
  | version
  | help
  /-- No run: an option that there is not, a value too few or an input too many. -/
  | misuse
  deriving DecidableEq, Repr, Inhabited

def Request.ofWords (words : Words) (input : String) : Request :=
  { input := Path.ofText input
    isVerbose := words.has .verbose
    noLibrary := words.has .noLibrary
    libraryPath := (words.value? .libraryPath).map Path.ofText
    format := words.value? .format
    outline := words.has .outline
    json := words.has .json
    validate := words.has .validate
    workspace := words.has .workspace
    decompile := words.has .decompile
    selfContained := words.has .selfContained
    output := (words.value? .output).map Path.ofText }

/-- The meaning of the words of a command line. Version and help need no input. -/
def Command.ofArguments (arguments : List String) : Command :=
  match take arguments.length {} arguments with
  | none => .misuse
  | some words =>
      match words.flags.find? fun flag => flag == .version || flag == .help with
      | some .version => .version
      | some _ => .help
      | none =>
          match words.inputs with
          | [input] => .run (.ofWords words input)
          | _ => .misuse

end Sysml.CommandLine
