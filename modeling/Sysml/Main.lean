import Sysml.CommandLine.Run

/-!
# The program

Takes stock of the files that a command line may need, runs it on them as a
value, writes back what the run has changed, and shows what it has to show.
-/

set_option autoImplicit false

namespace Sysml.CommandLine

open Files (Path Place Tree Entry)

def pathOf (place : Place) : Path :=
  ⟨"/", place⟩

/-- The place that a path leads to on the disk; none if there is nothing. -/
def realPlace? (path : Path) : IO (Option Place) := do
  try
    let real ← IO.FS.realPath path.text
    return some (Path.ofText real.toString).parts
  catch _ => return none

/-- The names in a directory on the disk; none if the place is no directory. -/
def namesOnDisk? (place : Place) : IO (Option (List String)) := do
  let real ← IO.FS.realPath (pathOf place).text
  if ← real.isDir then return some ((← real.readDir).toList.map (·.fileName))
  else return none

/-- The bytes of a file on the disk; none if it cannot be read. -/
def bytesOnDisk (place : Place) : IO ByteArray := do
  try IO.FS.readBinFile (pathOf place).text
  catch _ => return .empty

/-- Takes stock of a place that is there and of the directories it stands in.
The bytes of a file are read if they are wanted; what was read stays. -/
def survey (tree : Tree) (place : Place) (wanted : Bool) : IO Tree := do
  if !wanted && (tree.entry? place).isSome then return tree
  let above := (List.range place.length).filterMap fun n =>
    if n = 0 then none else some (place.take n)
  let tree := above.foldl (fun tree place => tree.put place .directory) tree
  match ← namesOnDisk? place with
  | some _ => return if place.isEmpty then tree else tree.put place .directory
  | none => return tree.put place (.file (← if wanted then bytesOnDisk place else pure .empty))

/-- Takes stock of a name in a directory. A link is followed and what it leads to
is looked at too. -/
def surveyName (tree : Tree) (directory : Place) (name : String) (wanted : Bool) :
    IO (Tree × Place) := do
  let place := directory ++ [name]
  match ← realPlace? (pathOf place) with
  | none => return (tree, place)
  | some real =>
      let tree ← survey tree real wanted
      if real == place then return (tree, place)
      else return (tree.put place (.link (pathOf real)), real)

/-- Takes stock of what stands on the way that a path leads, and of its end. -/
def surveyPath (tree : Tree) (path : Path) : IO (Tree × Place) := do
  let mut tree := tree
  let mut place := if path.isAbsolute then [] else tree.here
  for name in path.parts do
    if name = ".." then place := place.dropLast
    else (tree, place) ← surveyName tree place name true
  return (tree, place)

def isWanted (name : String) : Bool :=
  name.endsWith Files.companionSuffix ||
    Files.sourceSuffixes.contains (Path.child {} name).suffix

/-- Takes stock of the names in a directory and, so many levels down, of what is
below. No directory is looked at twice. -/
def surveyBelow : Nat → Tree × List Place → Place → IO (Tree × List Place)
  | levels, (tree, seen), directory => do
      if seen.contains directory then return (tree, seen)
      match ← namesOnDisk? directory with
      | none => return (tree, seen)
      | some names =>
          let mut course := (tree, directory :: seen)
          for name in names do
            let (tree, place) ← surveyName course.1 directory name (isWanted name)
            course := (tree, course.2)
            match levels with
            | 0 => pure ()
            | levels + 1 =>
                if (tree.entry? place matches some .directory) then
                  course ← surveyBelow levels course place
          return course

/-- Takes stock of a path and of what is so many levels below it. -/
def surveyAll (levels : Nat) (tree : Tree) (path : Path) : IO Tree := do
  let (tree, place) ← surveyPath tree path
  match tree.entry? place with
  | some .directory => return (← surveyBelow levels (tree, []) place).1
  | _ => return tree

def levelLimit : Nat := 255

def surveyRequest (settings : Settings) (tree : Tree) (request : Request) : IO Tree := do
  let mut tree ← surveyAll levelLimit tree request.input
  tree ← surveyAll 0 tree request.input.parent
  if let some output := request.output then
    tree ← surveyAll 0 tree output.parent
  if let some search := Run.librarySearch settings request then
    let libraries := search.explicit.toList ++ (search.candidates.toOption.getD [])
    for library in libraries do
      tree ← surveyAll levelLimit tree library
  return tree

def writeBack (before after : Tree) : IO Unit := do
  for (place, entry) in after.entries do
    if let .file octets := entry then
      let same := match before.entry? place with
        | some (.file old) => old.data == octets.data
        | _ => false
      if !same then IO.FS.writeBinFile (pathOf place).text octets

end Sysml.CommandLine

open Sysml Sysml.CommandLine in
def main (arguments : List String) : IO UInt32 := do
  let environment : Environment :=
    { home := (← IO.getEnv "HOME").getD "/"
      settingsHome := ← IO.getEnv "SYSTER_HOME"
      library := ← IO.getEnv "SYSTER_STDLIB" }
  let here := ((← realPlace? (Files.Path.ofText ".")).getD [])
  let tree ← survey { here } here false
  let tree ←
    match Settings.file environment with
    | .ok path => Prod.fst <$> surveyPath tree path
    | .error _ => pure tree
  match Settings.read tree environment with
  | .error failure =>
      IO.eprintln failure.message
      return 1
  | .ok settings =>
      let tree ←
        match Command.ofArguments arguments with
        | .run request => surveyRequest settings tree request
        | _ => pure tree
      let outcome := run settings tree arguments
      writeBack tree outcome.tree
      IO.print outcome.output
      IO.eprint outcome.errors
      match outcome.ending with
      | .ok code => return UInt32.ofNat code
      | .error failure =>
          IO.eprintln failure.message
          return 1
