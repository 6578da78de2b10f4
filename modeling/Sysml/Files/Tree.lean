import Sysml.Entries
import Sysml.Files.Fault
import Sysml.Files.Path

/-!
# File trees

The files, directories and links that a program can reach, as a value. A place
is the chain of names from the root down to an entry, with no link on the way;
a path leads to a place by following links and by going up at two dots.
-/

set_option autoImplicit false

namespace Sysml.Files

abbrev Place := List String

inductive Entry where
  | file (octets : ByteArray)
  | directory
  | link (target : Path)
  deriving Inhabited

/-- The entries of a file system, in no particular order, and the directory that
relative paths begin at. -/
structure Tree where
  entries : List (Place × Entry) := []
  here : Place := []
  deriving Inhabited

namespace Tree

/-- The entry at a place; the root is always a directory. -/
def entry? (tree : Tree) (place : Place) : Option Entry :=
  if place.isEmpty then some .directory else tree.entries.lookup place

def linkLimit : Nat := 40

/-- Walks down from a place. Nothing needs to stand at the end of the way, only
on it. -/
def walk (tree : Tree) (links : Nat) (place : Place) (names : List String) :
    Except Fault Place :=
  match names with
  | [] => .ok place
  | name :: rest =>
      if name = ".." then tree.walk links place.dropLast rest
      else
        let next := place ++ [name]
        match tree.entry? next with
        | none => if rest.isEmpty then .ok next else .error .missing
        | some .directory => tree.walk links next rest
        | some (.file _) => if rest.isEmpty then .ok next else .error .notDirectory
        | some (.link target) =>
            match links with
            | 0 => .error .tooManyLinks
            | links + 1 =>
                tree.walk links (if target.isAbsolute then [] else place) (target.parts ++ rest)
termination_by (links, names.length)

def place (tree : Tree) (path : Path) : Except Fault Place :=
  tree.walk linkLimit (if path.isAbsolute then [] else tree.here) path.parts

def find (tree : Tree) (path : Path) : Except Fault Entry := do
  match tree.entry? (← tree.place path) with
  | some entry => return entry
  | none => throw .missing

def has (tree : Tree) (path : Path) : Bool :=
  match tree.find path with
  | .ok _ => true
  | .error _ => false

def hasFile (tree : Tree) (path : Path) : Bool :=
  match tree.find path with
  | .ok (.file _) => true
  | _ => false

def hasDirectory (tree : Tree) (path : Path) : Bool :=
  match tree.find path with
  | .ok .directory => true
  | _ => false

def read (tree : Tree) (path : Path) : Except Fault ByteArray := do
  match ← tree.find path with
  | .file octets => return octets
  | .directory => throw .isDirectory
  | .link _ => throw .tooManyLinks

def namesAt (tree : Tree) (place : Place) : List String :=
  tree.entries.filterMap fun entry =>
    if entry.1.dropLast == place then entry.1.getLast? else none

/-- The names in a directory; a path that leads to no directory has none. -/
def names (tree : Tree) (directory : Path) : List String :=
  if tree.hasDirectory directory then
    match tree.place directory with
    | .ok place => tree.namesAt place
    | .error _ => []
  else []

def put (tree : Tree) (place : Place) (entry : Entry) : Tree :=
  { tree with entries := Entries.put place entry tree.entries }

/-- Writes a file, over what it held before. Its directory has to be there. -/
def write (tree : Tree) (path : Path) (octets : ByteArray) : Except Fault Tree := do
  let place ← tree.place path
  match tree.entry? place with
  | some .directory => throw .isDirectory
  | _ => return tree.put place (.file octets)

def makeDirectory (tree : Tree) (path : Path) : Except Fault Tree := do
  let place ← tree.place path
  match tree.entry? place with
  | none => return tree.put place .directory
  | some .directory => return tree
  | some _ => throw .alreadyThere

/-- Makes a directory and those it stands in, so many levels up at most. -/
def makeDirectoriesFrom (tree : Tree) (path : Path) : Nat → Except Fault Tree
  | 0 => tree.makeDirectory path
  | levels + 1 => do
      match tree.makeDirectory path with
      | .ok tree => return tree
      | .error .missing =>
          let tree ← tree.makeDirectoriesFrom path.parent levels
          tree.makeDirectory path
      | .error fault => throw fault

/-- Makes a directory and those it stands in, unless they are there. -/
def makeDirectories (tree : Tree) (path : Path) : Except Fault Tree :=
  tree.makeDirectoriesFrom path path.parts.length

end Tree

end Sysml.Files
