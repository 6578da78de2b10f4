import Sysml.Yaml.Node

/-!
# Merged entries

The key `<<` puts the entries of another mapping, or of several, before a
mapping's own. Merging changes the nodes: a mapping holds the entries that it
merged from then on, wherever it stands. A mapping that merges itself gets the
entries that it has so far.
-/

set_option autoImplicit false

namespace Sysml.Yaml.Graph

/-- The entries of a mapping node; others have none. -/
def entriesOf (graph : Graph) (n : Nat) : List (Nat × Nat) :=
  match graph.node n with
  | .mapping _ entries => entries
  | _ => []

def withEntries (graph : Graph) (n : Nat) (entries : List (Nat × Nat)) : Graph :=
  graph.setIfInBounds n (.mapping (graph.node n).tag entries)

def isMerge (graph : Graph) (entry : Nat × Nat) : Bool :=
  (graph.node entry.1).tag == .merge

def settleKeys (graph : Graph) (entries : List (Nat × Nat)) : Graph :=
  entries.foldl (fun graph (key, _) =>
    let node := graph.node key
    if node.tag == .standIn then graph.setIfInBounds key (node.withTag .text) else graph) graph

mutual

/-- Merges what a mapping asks for from entry `index` on; `merged` are the entries
found before. Each step takes out one entry that asks for a merge. -/
def mergeFrom : Nat → Graph → Nat → Nat → List (Nat × Nat) → Except Fault Graph
  | 0, _, _, _, _ => .error .malformed
  | fuel + 1, graph, n, index, merged => do
      let entries := graph.entriesOf n
      let rest := entries.drop index
      let own := rest.takeWhile fun entry => !graph.isMerge entry
      let asked := rest.drop own.length
      let graph := graph.settleKeys own
      match asked with
      | [] =>
          if merged.isEmpty then return graph
          else return graph.withEntries n (merged ++ graph.entriesOf n)
      | (_, source) :: later =>
          let index := index + own.length
          let graph := graph.withEntries n (entries.take index ++ later)
          let (graph, found) ← sourceEntries fuel graph source
          mergeFrom fuel graph n index (merged ++ found)

/-- The entries of the mapping, or of the mappings of the sequence, that is
merged; of several mappings the first wins, so it comes last. -/
def sourceEntries : Nat → Graph → Nat → Except Fault (Graph × List (Nat × Nat))
  | 0, _, _ => .error .malformed
  | fuel + 1, graph, source =>
      match graph.node source with
      | .mapping _ _ => do
          let graph ← mergeFrom fuel graph source 0 []
          return (graph, graph.entriesOf source)
      | .sequence _ items =>
          items.foldlM (fun (graph, found) item => do
            match graph.node item with
            | .mapping _ _ =>
                let graph ← mergeFrom fuel graph item 0 []
                return (graph, graph.entriesOf item ++ found)
            | _ => .error .malformed) (graph, [])
      | .scalar _ _ => .error .malformed

end

def entryCount (graph : Graph) : Nat :=
  graph.foldl (fun count node =>
    match node with
    | .mapping _ entries => count + entries.length
    | _ => count) 0

/-- The graph in which a mapping has merged what it asks for. -/
def merge (graph : Graph) (n : Nat) : Except Fault Graph :=
  mergeFrom (2 * graph.entryCount + 2) graph n 0 []

end Sysml.Yaml.Graph
