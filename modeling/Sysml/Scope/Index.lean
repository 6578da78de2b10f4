import Sysml.Symbol
import Sysml.QualifiedName

/-!
# Scope tables

What names can be looked up in: the symbols in load order, the imports outside
of any declaration, and the symbols by element id. Symbols that share a
qualified name share their members, so a package may be declared in pieces.
-/

set_option autoImplicit false

namespace Sysml.Scope

structure Index where
  /-- All symbols, in load order. -/
  symbols : List Symbol
  /-- The imports outside of any declaration, by file. -/
  rootImports : List (String × List Import)
  /-- The first symbol of each element id, as the ids were when the index was built. -/
  byId : List (Key × Symbol)
  deriving Repr, Inhabited

namespace Index

def build (symbols : List Symbol) (rootImports : List (String × List Import)) : Index :=
  { symbols, rootImports
    byId := symbols.filterMap fun symbol =>
      (Key.given? symbol.elementId).map fun id => (id, symbol) }

def named (index : Index) (qualifiedName : Key) : List Symbol :=
  index.symbols.filter fun symbol => symbol.qualifiedName == qualifiedName

/-- The first symbol of a qualified name. -/
def lookup (index : Index) (qualifiedName : Key) : Option Symbol :=
  index.symbols.find? fun symbol => symbol.qualifiedName == qualifiedName

def lookupId (index : Index) (id : Key) : Option Symbol :=
  index.byId.lookup id

/-- The members of a namespace; the root has no name. -/
def members (index : Index) (space : Option Key) : List Symbol :=
  index.symbols.filter fun symbol => symbol.owner == space

/-- The imports of a namespace; at the root, those of a file. -/
def importsOf (index : Index) (space : Option Key) (file : String) : List Import :=
  match space with
  | none => (index.rootImports.lookup file).getD []
  | some name => (index.named name).flatMap (·.imports)

def outgoing (index : Index) (space : Key) : List (Symbol × Reference) :=
  (index.named space).flatMap fun symbol => symbol.references.map (symbol, ·)

def adjust (index : Index) (change : Symbol → Symbol) : Index :=
  { index with
    symbols := index.symbols.map change
    byId := index.byId.map fun entry => (entry.1, change entry.2) }

end Index

def answersTo (name : String) (symbol : Symbol) : Bool :=
  symbol.name.isText name || (!symbol.shortName.isAbsent && symbol.shortName.isText name)

end Sysml.Scope
