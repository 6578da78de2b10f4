import Sysml.Files.Tree
import Sysml.Text.Lines
import Sysml.Toml.Printer
import Sysml.Toml.Reader

/-!
# Settings

What the user has settled once for all runs: whether and where there is a
standard library, and whether exports bring library elements along. A settings
file holds them in the tables `stdlib` and `export`; the environment goes before
the file. A file that is missing or cannot be read settles nothing.
-/

set_option autoImplicit false

namespace Sysml

structure Environment where
  /-- The user's own directory. -/
  home : String
  /-- The directory of the settings file. -/
  settingsHome : Option String := none
  /-- Where the standard library is. -/
  library : Option String := none
  deriving DecidableEq, Repr, Inhabited

structure Settings where
  /-- The standard library is loaded unless a run says otherwise. -/
  libraryEnabled : Bool := true
  /-- Where the standard library is; null if that is not settled. -/
  library : Value := .null
  /-- Exports bring library elements along. -/
  selfContained : Bool := false
  /-- The user's own directory. -/
  home : String := ""
  deriving Repr, Inhabited

namespace Settings

open Files (Path Tree)

/-- A path with the user's own directory for a tilde at its front. -/
def expandHome (home : String) (path : Path) : Except Failure Path :=
  match path.isAbsolute, path.parts with
  | false, first :: rest =>
      if first = "~" then .ok ((Path.ofText home).join { parts := rest })
      else if first.startsWith "~" then .error .noHome
      else .ok path
  | _, _ => .ok path

def file (environment : Environment) : Except Failure Path := do
  let directory :=
    match environment.settingsHome with
    | some directory => Path.ofText directory
    | none => (Path.ofText environment.home).child ".syster"
  return (← expandHome environment.home directory).child "config.toml"

/-- The failure of reading a settings file; none where it is only malformed. -/
def unreadable? : Toml.Fault → Option Failure
  | .malformed => none
  | .cut => some .cutShort
  | .noTable => some .wrongKind
  | .noArray => some .noFields
  | .unnamed => some .unnamed
  | .overflow => some .overflow

/-- The tables of a settings file; none if it is missing or unreadable. Bytes
that are no text are a failure. -/
def tables (tree : Tree) (path : Path) : Except Failure Toml.Table := do
  match tree.read path with
  | .error _ => return []
  | .ok octets =>
      match Text.Utf8.decode octets.toList with
      | .error fault => throw (.notText fault)
      | .ok text =>
          match Toml.read (Text.unifyLineEnds text) with
          | .ok entries => return entries
          | .error fault =>
              match unreadable? fault with
              | none => return []
              | some failure => throw failure

/-- A key and a value from something that stands for both. -/
def keyAndValue : Value → Except Failure (Value × Value)
  | .list [key, value] => if key.isKey then .ok (key, value) else .error .wrongKind
  | .list _ => .error .wrongValue
  | .map [(first, _), (second, _)] => .ok (first, second)
  | .map _ => .error .wrongValue
  | .text s =>
      match s.toList with
      | [key, value] => .ok (.text (String.singleton key), .text (String.singleton value))
      | _ => .error .wrongValue
  | _ => .error .wrongKind

/-- Entries with those of a value over them: a table, or a list of pairs. -/
def update (entries : Toml.Table) (value : Value) : Except Failure Toml.Table := do
  let added ←
    match value with
    | .map added => pure added
    | .list items => items.mapM keyAndValue
    | .text s => if s.isEmpty then pure [] else throw .wrongValue
    | _ => throw .wrongKind
  return added.foldl (fun entries entry => Entries.put entry.1 entry.2 entries) entries

/-- A table of a settings file over what holds without it. -/
def table (tree : Tree) (path : Path) (name : String) (defaults : Toml.Table) :
    Except Failure Toml.Table := do
  match (← tables tree path).lookup (.text name) with
  | none => return defaults
  | some value => update defaults value

def libraryTable (tree : Tree) (path : Path) : Except Failure Toml.Table :=
  table tree path "stdlib" [(.text "enabled", .bool true)]

def exportTable (tree : Tree) (path : Path) : Except Failure Toml.Table :=
  table tree path "export" [(.text "self_contained", .bool false)]

def present? (entries : Toml.Table) (key : String) : Option Value :=
  (entries.lookup (.text key)).filter fun value => !value.isAbsent

def read (tree : Tree) (environment : Environment) : Except Failure Settings := do
  let path ← file environment
  let library ← libraryTable tree path
  let exports ← exportTable tree path
  let named := environment.library.filter fun directory => !directory.isEmpty
  return {
    libraryEnabled := (present? library "enabled").isSome
    library := (named.map Value.text).getD ((present? library "path").getD .null)
    selfContained := (present? exports "self_contained").isSome
    home := environment.home }

/-- Where a standard library may be, unless that is settled. -/
def defaultLibraries : List Path :=
  ["sysml.library", "../sysml.library", "../base/sysml.library"].map Path.ofText

def libraries (settings : Settings) : Except Failure (List Path) := do
  match settings.library with
  | .null => return defaultLibraries
  | .text path => return (← expandHome settings.home (Path.ofText path)) :: defaultLibraries
  | _ => throw .wrongKind

/-- Writes a value as a settings file, with the directories it stands in. Tells
whether the file could be opened; a value that has no written form leaves it
empty. -/
def save (tree : Tree) (path : Path) (value : Value) : Except Failure Bool × Tree :=
  match tree.makeDirectories path.parent with
  | .error _ => (.ok false, tree)
  | .ok made =>
      match made.write path .empty with
      | .error _ => (.ok false, made)
      | .ok opened =>
          match Toml.render value with
          | .error failure => (.error failure, opened)
          | .ok text =>
              match made.write path text.toUTF8 with
              | .error _ => (.ok false, opened)
              | .ok written => (.ok true, written)

end Settings

end Sysml
