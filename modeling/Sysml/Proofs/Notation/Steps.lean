import Sysml.Notation.Reader

/-!
# The steps of reading

What each reader does at a place, as an equation: the readers are defined together with the
reasons why they end, which are of no further use here.
-/

set_option autoImplicit false

namespace Sysml.Notation

namespace Cursor

variable {c : Cursor} {p : Token → Bool}

theorem more_of_sees (seen : c.sees p = true) : ¬ c.atEnd = true := by
  intro ends
  rw [atEnd, List.isEmpty_iff] at ends
  rw [sees, ends] at seen
  cases seen

theorem sees_here (more : ¬ c.atEnd = true) : c.sees p = p c.here := by
  unfold sees here
  unfold atEnd at more
  split <;> simp_all

theorem seesNext_advance (p : Token → Bool) (c : Cursor) : c.seesNext p = c.advance.sees p := by
  obtain ⟨ahead, stop, last, faults⟩ := c
  match ahead with
  | [] => rfl
  | [_] => rfl
  | _ :: _ :: _ => rfl

end Cursor

/-- What is known before a declaration once one more word is, if the word may stand there. -/
def Lead.withWord? (lead : Lead) (word : String) : Option Lead :=
  if visibilityKeywords.contains word then some { lead with visibility := some word }
  else if word = "abstract" then some { lead with isAbstract := true }
  else if directionKeywords.contains word then some { lead with direction := word }
  else if word = "ref" then some { lead with isRef := true }
  else if word = "library" then some { lead with isLibrary := true }
  else if modifierKeywords.contains word then some lead
  else none

def passMark (c : Cursor) : Cursor :=
  ((path? false c.advance).map (·.2)).getD c.advance

theorem passMark_length {c : Cursor} (mark : c.sees (·.isSymbol "#") = true) :
    (passMark c).length < c.length := by
  have moved := Cursor.advance_length_of_sees mark
  unfold passMark
  cases found : path? false c.advance with
  | none => exact moved
  | some read => exact Nat.lt_trans (path?_length found) moved

theorem leadFrom_eq (lead : Lead) (c : Cursor) :
    leadFrom lead c =
      if c.sees (·.isSymbol "#") then leadFrom lead (passMark c)
      else if c.sees (·.kind == .word) then
        match lead.withWord? c.here.text with
        | some lead => leadFrom lead c.advance
        | none => (lead, c)
      else (lead, c) := by
  rw [leadFrom]
  split
  · next mark =>
    split
    · next none_ => simp only [passMark, none_, Option.map_none, Option.getD_none]
    · next found => simp only [passMark, found, Option.map_some, Option.getD_some]
  · split
    · unfold Lead.withWord?
      dsimp only
      repeat' split
      all_goals simp_all
    · rfl

theorem targets_eq (kind : RefKind) (c : Cursor) :
    targets kind c =
      match path? true (skipConjugation c) with
      | none => ([], skipConjugation c)
      | some (target, after) =>
          let start := (skipConjugation c).here
          let reference : Reference :=
            { kind, target := .text target
              span := ⟨start.span.start, (after.last.getD start).span.stop⟩ }
          if after.sees (·.isSymbol ",") then
            (reference :: (targets kind after.advance).1, (targets kind after.advance).2)
          else ([reference], after) := by
  rw [targets]
  split
  · next none_ => rw [none_]
  · next found =>
    rw [found]
    dsimp only
    split <;> rfl

/-- The place behind the references that a word or symbol announces; none is a fault. -/
def afterTargets (relationship : RefKind) (c : Cursor) : Cursor :=
  (targets relationship (passOperator c)).2.reportIf (targets relationship (passOperator c)).1.isEmpty
    (targets relationship (passOperator c)).2.here.span (.noTarget c.here.text)

theorem afterTargets_length (relationship : RefKind) {c : Cursor} (more : ¬ c.atEnd = true) :
    (afterTargets relationship c).length < c.length := by
  have found := targets_length relationship (passOperator c)
  have passed := passOperator_length c
  have moved := Cursor.advance_length_of_not_atEnd more
  rw [afterTargets, Cursor.reportIf_length]
  omega

theorem header_announced {kind : SymbolKind} {c : Cursor} {relationship : RefKind}
    (announced : c.relationship? kind = some relationship)
    (noEnd : c.sees (·.isSymbol ";") = false) (noBody : c.sees (·.isSymbol "\x7b") = false)
    (noBrace : c.sees (·.isSymbol "\x7d") = false) :
    header kind c =
      ((targets relationship (passOperator c)).1 ++ (header kind (afterTargets relationship c)).1,
        (header kind (afterTargets relationship c)).2) := by
  have more : c.atEnd = false := by
    cases ends : c.atEnd with
    | true => simp [Cursor.relationship?, ends] at announced
    | false => rfl
  rw [header]
  simp only [more, noEnd, noBody, noBrace, announced, Bool.false_eq_true, ↓reduceIte]
  rfl

def passName (c : Cursor) : Cursor :=
  if c.sees Token.isName then c.advance else c

def nameHere? (c : Cursor) : Option Token :=
  if c.sees Token.isName then some c.here else none

/-- What a declaration says that starts with `start`, if anything names it. -/
def headingOf (kind : SymbolKind) (lead : Lead) (start : Token) (shortName : String)
    (name? : Option Token) (references : List Reference) : Option Heading :=
  ((name?.map (·.text)) <|> redefinedName? references).map fun name =>
    { name, kind, shortName, isAbstract := lead.isAbstract, direction := lead.direction
      references, anchor := (name?.getD start).span : Heading }

def HeaderEnd.finish (ending : HeaderEnd) (heading : Option Heading) (after : Cursor) :
    Statement × Cursor :=
  match ending with
  | .closed => (.declared heading, after)
  | .opens => (.opened heading after.here.span, after.advance)

theorem declaration_eq (kind : SymbolKind) (lead : Lead) (needsName : Bool) (c : Cursor) :
    declaration kind lead needsName c =
      let named := (shortName c).2
      let read := header kind (passName named)
      let heading := headingOf kind lead c.here (shortName c).1 (nameHere? named) read.1
      read.2.1.finish heading
        (read.2.2.reportIf (heading.isNone && needsName) c.here.span (.noName kind)) := by
  unfold declaration
  generalize shortName c = short
  obtain ⟨text, named⟩ := short
  dsimp only
  have passed : (if (if named.sees Token.isName = true then some named.here else none).isSome = true
      then named.advance else named) = passName named := by
    unfold passName
    split <;> rfl
  rw [passed]
  generalize header kind (passName named) = read
  obtain ⟨references, ending, after⟩ := read
  cases ending <;> rfl

def importStart (c : Cursor) : Cursor :=
  if c.advance.sees (·.isKeyword "all") then c.advance.advance else c.advance

def passConditions (c : Cursor) : Cursor :=
  if c.sees (·.isSymbol "[") then skipGroup "[" "]" c else c

def importEnd (c : Cursor) : Cursor :=
  if c.sees (·.isSymbol ";") then c.advance
  else skipStatement (c.report c.here.span .importNotEnded)

theorem importStatement_eq (lead : Lead) (c : Cursor) :
    importStatement lead c =
      match path? false (importStart c) with
      | none =>
          (.skipped, skipStatement
            ((importStart c).report (importStart c).here.span (.noTarget c.here.text)))
      | some (path, after) =>
          let stars := importStars false false after
          (.imported
            { path := .text path, isNamespace := stars.1, isRecursive := stars.2.1
              visibility := lead.visibility.getD "private"
              span := ⟨(importStart c).here.span.start,
                (stars.2.2.last.getD (importStart c).here).span.stop⟩ },
            importEnd (passConditions stars.2.2)) := by
  unfold importStatement
  rfl

/-- The place after the name of a documentation, if no comment comes first. -/
def passDocName (c : Cursor) : Cursor :=
  if c.comment?.isNone && c.sees Token.isName then c.advance else c

def passLocale (c : Cursor) : Cursor :=
  if c.sees (·.isKeyword "locale") then
    if c.advance.sees (·.kind == .string) then c.advance.advance else c.advance
  else c

theorem docStatement_eq (c : Cursor) :
    docStatement c =
      let body := passLocale (passDocName c.advance)
      match body.comment? with
      | none => (.skipped, body.report c.here.span .noCommentBody)
      | some comment =>
          (.documented (String.ofList (cleanComment comment.text.toList)), body.passComment) :=
  rfl

/-- The place after a token that is passed without being kept as the last one. -/
def Cursor.drop (c : Cursor) : Cursor :=
  { c.advance with last := c.last }

theorem skipRemark_eq (c : Cursor) :
    skipRemark c =
      if c.comment?.isSome then c.passComment
      else if c.atEnd then c
      else if c.sees (fun t => t.isSymbol "\x7b" || t.isSymbol "\x7d") then c
      else if c.sees (·.isSymbol ";") then c.drop
      else skipRemark c.drop := by
  rw [skipRemark]
  rfl

/-- The statement that begins behind its lead. -/
def statementFrom (lead : Lead) (c : Cursor) : Statement × Cursor :=
  if c.atEnd || c.sees (·.isSymbol "\x7d") then (.skipped, c)
  else if c.sees (·.isSymbol ";") then (.skipped, c.advance)
  else if c.sees (·.kind == .word) then
    (keywordStatement? lead c).getD (plainStatement lead c)
  else plainStatement lead c

theorem Statement.read_eq (c : Cursor) :
    Statement.read c = statementFrom (leadFrom {} c).1 (leadFrom {} c).2 :=
  rfl

theorem element_eq (c : Cursor) :
    element c =
      match Statement.read c with
      | (.skipped, after) => ([], after)
      | (.imported i, after) => ([.imported i], after)
      | (.documented text, after) => ([.documented text], after)
      | (.declared heading, after) => (membersOf heading after.last [], after)
      | (.opened heading opening, after) =>
          (membersOf heading (block opening after).2.last (block opening after).1,
            (block opening after).2) := by
  rw [element]
  split <;> next read => rw [read]

end Sysml.Notation
