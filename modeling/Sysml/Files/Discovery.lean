import Sysml.Files.Tree

/-!
# Finding files

The files of a model below a directory, and the companion files next to a model.
Links are followed, and no directory is entered twice, whatever ways lead to it.
-/

set_option autoImplicit false

namespace Sysml.Files

def sourceSuffixes : List String :=
  [".sysml", ".kerml"]

def companionSuffix : String :=
  ".metadata.json"

def sortNames (names : List String) : List String :=
  names.mergeSort fun a b => a ≤ b

namespace Tree

def isSource (tree : Tree) (path : Path) : Bool :=
  sourceSuffixes.contains path.suffix && tree.hasFile path

/-- The source files found so far, and the places of the directories that were
entered. -/
structure Finds where
  sources : List Path := []
  entered : List Place := []
  deriving Inhabited

/-- Adds the source files below a directory: its own come before those of the
directories in it. Each level enters another directory, so `fuel` need not
exceed their number. -/
def discoverFrom (tree : Tree) : Nat → Finds → Path → Finds
  | 0, finds, _ => finds
  | fuel + 1, finds, directory =>
      if !tree.hasDirectory directory then finds
      else
        match tree.place directory with
        | .error _ => finds
        | .ok place =>
            if finds.entered.contains place then finds
            else
              let names := sortNames (tree.namesAt place)
              let sources := (names.map directory.child).filter tree.isSource
              let inner := names.filter fun name => tree.hasDirectory (directory.child name)
              inner.foldl (fun finds name => tree.discoverFrom fuel finds (directory.child name))
                ⟨finds.sources ++ sources, place :: finds.entered⟩

def discover (tree : Tree) (directory : Path) : List Path :=
  (tree.discoverFrom (tree.entries.length + 2) {} directory).sources

def companions (tree : Tree) (input : Path) : List Path :=
  let directory := if tree.hasDirectory input then input else input.parent
  (sortNames ((tree.names directory).filter fun name => name.endsWith companionSuffix)).map
    directory.child

end Tree

end Sysml.Files
