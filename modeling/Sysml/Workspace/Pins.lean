import Sysml.Workspace

/-!
# Pins

Element ids that companion data gives to what a workspace declares: to a symbol
by its qualified name, to a reference or import by its kind and ends.
-/

set_option autoImplicit false

namespace Sysml

/-- An element id for something declared. What an entry gives as the kind and the
target of a relationship is compared with what is declared, whatever it is. -/
inductive Pin where
  | element (id qualifiedName : Key)
  | relationship (id source : Key) (kind target : Value)
  deriving Repr, Inhabited

namespace Pin

/-- The pin that an entry of companion data describes; entries without an id
describe none. -/
def ofValue? (entry : Value) : Except Failure (Option Pin) := do
  if entry.entries?.isNone then throw .noFields
  let field (key : String) : Value := (entry.field? key).getD (.text "")
  let id : Key := ⟨field "id"⟩
  if id.isAbsent then return none
  else if (entry.field? "qualifiedName").isSome then
    return some (.element id (← Key.proper ⟨field "qualifiedName"⟩))
  else
    return some (.relationship id (← Key.proper ⟨field "source"⟩) (field "kind") (field "target"))

/-- The pins that entries describe, up to the first entry that is refused. -/
def ofValues : List Value → List Pin × Option Failure
  | [] => ([], none)
  | entry :: rest =>
      match ofValue? entry with
      | .error failure => ([], some failure)
      | .ok pin =>
          let (pins, failure) := ofValues rest
          (pin.toList ++ pins, failure)

def referenceKinds : List (String × RefKind) :=
  [("FeatureTyping", .typing), ("Specialization", .specialization), ("Subsetting", .subsetting),
    ("Redefinition", .redefinition)]

/-- Whether a target means what a reference is to: it is what is written, what
the reference is bound to, or ends in what is written. A reference that is bound
to nothing is to `null` as well; of other values the end cannot be told. -/
def meansTarget (target : Value) (reference : Reference) : Except Failure Bool :=
  if reference.target == ⟨target⟩ || reference.targetName.getD ⟨.null⟩ == ⟨target⟩ then .ok true
  else
    match target with
    | .text path => .ok (("::" ++ reference.target.display).toList.isSuffixOf path.toList)
    | _ => .error .noFields

/-- Whether a kind is that of a reference. A kind that no reference has fits all
of them. -/
def meansKind (kind : Value) (reference : Reference) : Except Failure Bool := do
  let kind ← Key.proper ⟨kind⟩
  return ((kind.text?.bind fun kind => referenceKinds.lookup kind).all fun kind =>
    kind == reference.kind)

/-- Whether a relationship of a kind with a target may stand for a reference:
for one without an id that has this target and kind. -/
def fitsReference (kind target : Value) (reference : Reference) : Except Failure Bool := do
  if (Key.given? reference.elementId).isSome then return false
  else if ← meansTarget target reference then meansKind kind reference
  else return false

def fitsImport (target : Value) (i : Import) : Bool :=
  i.path == ⟨target⟩ && (Key.given? i.elementId).isNone

def changeFirst? {α : Type} (fits : α → Except Failure Bool) (change : α → α) :
    List α → Except Failure (Option (List α))
  | [] => .ok none
  | item :: rest => do
      if ← fits item then return some (change item :: rest)
      else return (← changeFirst? fits change rest).map (item :: ·)

def isImportKind (kind : Value) : Bool :=
  kind.isText "NamespaceImport" || kind.isText "MembershipImport"

/-- The symbol with the id on the first reference or import that fits, if one does. -/
def onSymbol? (id : Key) (kind target : Value) (symbol : Symbol) :
    Except Failure (Option Symbol) := do
  if isImportKind kind then
    let imports ← changeFirst? (fun i => .ok (fitsImport target i))
      (fun i => { i with elementId := some id }) symbol.imports
    return imports.map fun imports => { symbol with imports }
  else
    let references ← changeFirst? (fitsReference kind target)
      (fun reference => { reference with elementId := some id }) symbol.references
    return references.map fun references => { symbol with references }

/-- What a pin makes of the first symbol that it is about, if it applies to it. -/
def change? (pin : Pin) (symbols : List Symbol) : Except Failure (Option Symbol) :=
  match pin with
  | .element id name =>
      .ok ((symbols.find? fun symbol => symbol.qualifiedName == name).map fun symbol =>
        { symbol with elementId := some id })
  | .relationship id source kind target =>
      match symbols.find? fun symbol => symbol.qualifiedName == source with
      | none => .ok none
      | some symbol => onSymbol? id kind target symbol

end Pin

namespace Workspace

def applyPin (w : Workspace) (pin : Pin) : Except Failure (Workspace × Bool) := do
  match ← pin.change? w.symbols with
  | none => return (w, false)
  | some changed =>
      return (w.adjust fun symbol => if symbol.serial = changed.serial then changed else symbol,
        true)

/-- Applies pins one after the other and counts those that applied. Before a pin
that fails the others stay applied. -/
def applyPinsFrom (w : Workspace) (count : Nat) : List Pin → Except Failure Nat × Workspace
  | [] => (.ok count, w)
  | pin :: rest =>
      match w.applyPin pin with
      | .error failure => (.error failure, w)
      | .ok (w, applied) => applyPinsFrom w (if applied then count + 1 else count) rest

/-- Applies pins. If any applied, and none failed, the index is dropped. -/
def applyPins (w : Workspace) (pins : List Pin) : Except Failure Nat × Workspace :=
  match w.applyPinsFrom 0 pins with
  | (.error failure, w) => (.error failure, w)
  | (.ok count, w) => (.ok count, if count = 0 then w else { w with index := none })

/-- Applies the pins that entries of companion data describe. Where an entry is
refused the pins before it stay applied, and the index stays as it was. Nothing
can be looked up while a symbol has a container for its qualified name. -/
def applyEntries (w : Workspace) (entries : List Value) : Except Failure Nat × Workspace :=
  if w.symbols.any fun symbol => !symbol.qualifiedName.isProper then (.error .wrongKind, w)
  else
    match Pin.ofValues entries with
    | (pins, none) => w.applyPins pins
    | (pins, some refused) =>
        match w.applyPinsFrom 0 pins with
        | (.error failure, w) => (.error failure, w)
        | (.ok _, w) => (.error refused, w)

end Workspace

end Sysml
