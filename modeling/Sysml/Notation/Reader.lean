import Sysml.Notation.Statement

/-!
# Reading the notation

A text is read as a forest of members: declarations with their members,
imports and documentation. Reading never fails: faults are noted beside the
members, and reading goes on after them. A declaration that nothing names has
no symbol; its members belong to the declaration around it.
-/

set_option autoImplicit false

namespace Sysml.Notation

inductive Member where
  /-- A declaration with its members, up to `stop`. -/
  | declared (heading : Heading) (stop : Position) (members : List Member)
  | imported (i : Import)
  | documented (text : String)
  deriving Repr, Inhabited

/-- The member that a declaration becomes, or its own members if nothing names it. -/
def membersOf (heading : Option Heading) (last : Option Token) (inner : List Member) :
    List Member :=
  match heading with
  | none => inner
  | some heading =>
      [.declared heading ((last.map (·.span.stop)).getD heading.anchor.stop) inner]

mutual

def element (c : Cursor) : List Member × Cursor :=
  match _read : Statement.read c with
  | (.skipped, after) => ([], after)
  | (.imported i, after) => ([.imported i], after)
  | (.documented text, after) => ([.documented text], after)
  | (.declared heading, after) => (membersOf heading after.last [], after)
  | (.opened heading opening, after) =>
      let (inner, rest) := block opening after
      (membersOf heading rest.last inner, rest)
termination_by 2 * c.length
decreasing_by
  have := Statement.read_opens_length _read
  omega

/-- The members of a block whose brace stands at `opening`, from the place after
it on. A statement that makes no headway ends the block. -/
def block (opening : Span) (c : Cursor) : List Member × Cursor :=
  if c.atEnd then ([], c.report opening .openBlock)
  else if c.sees (·.isSymbol "\x7d") then ([], c.advance)
  else
    let (members, next) := element c
    if next.length < c.length then
      let (others, rest) := block opening next
      (members ++ others, rest)
    else (members, next)
termination_by 2 * c.length + 1
decreasing_by all_goals omega

end

/-- The members of a whole text. A brace that closes nothing is a fault. -/
def topLevel (c : Cursor) : List Member × Cursor :=
  if c.atEnd then ([], c)
  else if c.sees (·.isSymbol "\x7d") then
    topLevel (c.advance.report c.here.span .strayBrace)
  else
    let (members, next) := element c
    if next.length < c.length then
      let (others, rest) := topLevel next
      (members ++ others, rest)
    else (members, next)
termination_by c.length
decreasing_by
  · exact Cursor.advance_length_of_not_atEnd (c := c) (by assumption)
  · assumption

/-- Documentation joined to what is there already. -/
def joinDoc (doc : Option String) (text : String) : Option String :=
  match doc with
  | none => some text
  | some doc => if doc.isEmpty then some text else some (doc ++ "\n\n" ++ text)

def importsOf (members : List Member) : List Import :=
  members.filterMap fun
    | .imported i => some i
    | _ => none

def docOf (members : List Member) : Option String :=
  (members.filterMap fun
    | .documented text => some text
    | _ => none).foldl joinDoc none

mutual

/-- The symbols of a member: its own and then those of its members. -/
def Member.symbols (file : String) (isLibrary : Bool) (owner : Option String) :
    Member → List Symbol
  | .declared heading stop members =>
      let qualifiedName :=
        match owner with
        | none => heading.name
        | some owner => QualifiedName.join owner heading.name
      { name := .text heading.name, qualifiedName := .text qualifiedName, kind := heading.kind, file
        span := ⟨heading.anchor.start, stop⟩, owner := owner.map .text
        shortName := .text heading.shortName, doc := (docOf members).elim .null .text
        isAbstract := heading.isAbstract, direction := heading.direction
        references := heading.references, imports := importsOf members, isLibrary } ::
        symbolsOf file isLibrary (some qualifiedName) members
  | .imported _ => []
  | .documented _ => []

def symbolsOf (file : String) (isLibrary : Bool) (owner : Option String) :
    List Member → List Symbol
  | [] => []
  | member :: rest => member.symbols file isLibrary owner ++ symbolsOf file isLibrary owner rest

end

structure Parsed where
  symbols : List Symbol
  /-- The imports outside of any declaration. -/
  imports : List Import
  diagnostics : List Diagnostic
  deriving Repr, Inhabited

def parse (file text : String) (isLibrary : Bool) : Parsed :=
  let (members, after) := topLevel (scan text).cursor
  { symbols := symbolsOf file isLibrary none members
    imports := importsOf members
    diagnostics := after.faults.reverse.map fun fault =>
      ⟨file, fault.span, .syntaxProblem fault.problem⟩ }

end Sysml.Notation
