import Sysml.Value.Text

/-!
# YAML anchors

Names for the values that stand in several places. A value is written where it
is met first, with its anchor; elsewhere an alias stands for it. Anchors are
numbered in the order in which their values are met again.
-/

set_option autoImplicit false

namespace Sysml.Yaml

/-- The labels that were met in a value so far. -/
structure Census where
  met : List Nat := []
  /-- Those that were met again, in order. -/
  repeated : List Nat := []
  deriving Repr, Inhabited

namespace Census

def meetAgain (census : Census) (label : Nat) : Census :=
  if census.repeated.contains label then census
  else { census with repeated := census.repeated ++ [label] }

mutual

def visit (census : Census) : Value → Census
  | .shared label held =>
      if census.met.contains label then census.meetAgain label
      else visit { census with met := label :: census.met } held
  | .again label => census.meetAgain label
  | .list items => visitItems census items
  | .map entries => visitEntries census entries
  | .set members => visitItems census members
  | .pair first second => visit (visit census first) second
  | _ => census

def visitItems (census : Census) : List Value → Census
  | [] => census
  | item :: rest => visitItems (visit census item) rest

def visitEntries (census : Census) : List (Value × Value) → Census
  | [] => census
  | (key, held) :: rest => visitEntries (visit (visit census key) held) rest

end

end Census

abbrev Anchors := List Nat

def Anchors.ofValue (value : Value) : Anchors :=
  (Census.visit {} value).repeated

def Anchors.name? (anchors : Anchors) (label : Nat) : Option String :=
  (anchors.idxOf? label).map fun index => "id" ++ paddedNat 3 (index + 1)

end Sysml.Yaml
