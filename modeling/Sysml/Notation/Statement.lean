import Sysml.QualifiedName
import Sysml.Notation.Comment
import Sysml.Notation.Cursor

/-!
# Statements

One statement of the notation, up to the block that it opens, if it opens one:
what comes before a declaration, names and paths, the references of a
declaration's header, imports, documentation, and what is skipped because no
declaration begins there. No step goes back, and a statement that opens a block
has passed its brace (`Statement.read_opens_length`).
-/

set_option autoImplicit false

namespace Sysml.Notation

/-- The words and marks before a declaration. -/
structure Lead where
  visibility : Option String := none
  isAbstract : Bool := false
  direction : String := ""
  isRef : Bool := false
  isLibrary : Bool := false
  deriving DecidableEq, Repr, Inhabited

/-- What a declaration says before its body. -/
structure Heading where
  name : String
  kind : SymbolKind
  shortName : String
  isAbstract : Bool
  direction : String
  references : List Reference
  /-- Where the name stands, or where the declaration starts if its name is that
  of the feature it redefines. -/
  anchor : Span
  deriving Repr, Inhabited

/-- Separators of a path: `::`, and a point where features are chained. -/
def isSeparator (chain : Bool) (token : Token) : Bool :=
  token.isSymbol "::" || (chain && token.isSymbol ".")

def pathTail (chain : Bool) (c : Cursor) : List String × Cursor :=
  if _more : c.sees (isSeparator chain) = true ∧ c.seesNext Token.isName = true then
    let (parts, after) := pathTail chain c.advance.advance
    (c.here.text :: c.advance.here.text :: parts, after)
  else ([], c)
termination_by c.length
decreasing_by
  exact Nat.lt_of_le_of_lt (Cursor.advance_length_le _) (Cursor.advance_length_of_sees _more.1)

def path? (chain : Bool) (c : Cursor) : Option (String × Cursor) :=
  if c.sees Token.isName then
    let (parts, after) := pathTail chain c.advance
    some (String.join (c.here.text :: parts), after)
  else none

theorem pathTail_length (chain : Bool) (c : Cursor) : (pathTail chain c).2.length ≤ c.length := by
  fun_induction pathTail chain c with
  | case1 c more parts after same ih =>
    rw [same] at ih
    have first := Cursor.advance_length_le c
    have second := Cursor.advance_length_le c.advance
    simp only at ih ⊢
    omega
  | case2 => exact Nat.le_refl _

theorem path?_length {chain : Bool} {c after : Cursor} {text : String}
    (found : path? chain c = some (text, after)) : after.length < c.length := by
  unfold path? at found
  split at found
  · next seen =>
    cases found
    exact Nat.lt_of_le_of_lt (pathTail_length chain c.advance) (Cursor.advance_length_of_sees seen)
  · simp at found

/-- The words and marks before a declaration; `#` marks a name that is not kept. -/
def leadFrom (lead : Lead) (c : Cursor) : Lead × Cursor :=
  if mark : c.sees (·.isSymbol "#") = true then
    match found : path? false c.advance with
    | none => leadFrom lead c.advance
    | some (_, after) =>
        have := path?_length found
        have := Cursor.advance_length_of_sees mark
        leadFrom lead after
  else if c.sees (·.kind == .word) then
    let text := c.here.text
    if visibilityKeywords.contains text then
      leadFrom { lead with visibility := some text } c.advance
    else if text = "abstract" then leadFrom { lead with isAbstract := true } c.advance
    else if directionKeywords.contains text then
      leadFrom { lead with direction := text } c.advance
    else if text = "ref" then leadFrom { lead with isRef := true } c.advance
    else if text = "library" then leadFrom { lead with isLibrary := true } c.advance
    else if modifierKeywords.contains text then leadFrom lead c.advance
    else (lead, c)
  else (lead, c)
termination_by c.length
decreasing_by
  all_goals first
    | exact Cursor.advance_length_of_sees mark
    | exact Cursor.advance_length_of_sees (c := c) (by assumption)
    | omega

theorem leadFrom_length (lead : Lead) (c : Cursor) : (leadFrom lead c).2.length ≤ c.length := by
  fun_induction leadFrom lead c
  all_goals first
    | exact Nat.le_refl _
    | next ih => exact Nat.le_trans ih (Cursor.advance_length_le _)
    | skip
  next mark _ _ found _ _ ih =>
    have passed := path?_length found
    have := Cursor.advance_length_le
    omega

/-- Passes a bracketed group; `depth` brackets are open. A group that the text
ends in is a fault at its first bracket. -/
def closeGroup (opening closing : String) (first : Span) (depth : Nat) (c : Cursor) : Cursor :=
  match depth with
  | 0 => c
  | depth + 1 =>
      if c.atEnd then c.report first (.openBracket opening closing)
      else if c.sees (·.isSymbol opening) then
        closeGroup opening closing first (depth + 2) c.advance
      else if c.sees (·.isSymbol closing) then closeGroup opening closing first depth c.advance
      else closeGroup opening closing first (depth + 1) c.advance
termination_by c.length
decreasing_by all_goals exact Cursor.advance_length_of_not_atEnd (by assumption)

/-- Passes the bracketed group that begins with the next token. -/
def skipGroup (opening closing : String) (c : Cursor) : Cursor :=
  closeGroup opening closing c.here.span 1 c.advance

theorem closeGroup_length (opening closing : String) (first : Span) (depth : Nat) (c : Cursor) :
    (closeGroup opening closing first depth c).length ≤ c.length := by
  fun_induction closeGroup opening closing first depth c
  all_goals first
    | exact Nat.le_refl _
    | next ih => exact Nat.le_trans ih (Cursor.advance_length_le _)

theorem skipGroup_length_le (opening closing : String) (c : Cursor) :
    (skipGroup opening closing c).length ≤ c.length :=
  Nat.le_trans (closeGroup_length ..) (Cursor.advance_length_le c)

theorem skipGroup_length {opening closing : String} {p : Token → Bool} {c : Cursor}
    (seen : c.sees p = true) : (skipGroup opening closing c).length < c.length :=
  Nat.lt_of_le_of_lt (closeGroup_length ..) (Cursor.advance_length_of_sees seen)

/-- Passes what is left of a statement: up to its semicolon or over its block,
but not over a brace that closes the block around it. -/
def skipStatement (c : Cursor) : Cursor :=
  if c.atEnd then c
  else if c.sees (·.isSymbol "\x7d") then c
  else if c.sees (·.isSymbol "\x7b") then skipGroup "\x7b" "\x7d" c
  else if c.sees (·.isSymbol ";") then c.advance
  else skipStatement c.advance
termination_by c.length
decreasing_by exact Cursor.advance_length_of_not_atEnd (by assumption)

theorem skipStatement_length (c : Cursor) : (skipStatement c).length ≤ c.length := by
  fun_induction skipStatement c
  all_goals first
    | exact Nat.le_refl _
    | exact skipGroup_length_le ..
    | exact Cursor.advance_length_le _
    | next ih => exact Nat.le_trans ih (Cursor.advance_length_le _)

/-- Passes an expression: up to a semicolon or brace outside of its brackets. -/
def skipOperands (depth : Nat) (c : Cursor) : Cursor :=
  if c.atEnd then c
  else if c.sees (fun t => t.isSymbol "(" || t.isSymbol "[") then
    skipOperands (depth + 1) c.advance
  else if c.sees (fun t => t.isSymbol ")" || t.isSymbol "]") then
    skipOperands (depth - 1) c.advance
  else if depth = 0 ∧
      c.sees (fun t => t.isSymbol ";" || t.isSymbol "\x7b" || t.isSymbol "\x7d") = true then c
  else skipOperands depth c.advance
termination_by c.length
decreasing_by all_goals exact Cursor.advance_length_of_not_atEnd (by assumption)

theorem skipOperands_length (depth : Nat) (c : Cursor) :
    (skipOperands depth c).length ≤ c.length := by
  fun_induction skipOperands depth c
  all_goals first
    | exact Nat.le_refl _
    | next ih => exact Nat.le_trans ih (Cursor.advance_length_le _)

/-- The kind of reference that the next token announces in a declaration of a
kind: `token` is that token, and `by` follows it where that matters. -/
def relationship? (kind : SymbolKind) (token : Token) (byFollows : Bool) : Option RefKind :=
  if token.isSymbol ":" then some .typing
  else if token.isSymbol ":>" then some (if kind.isDefinition then .specialization else .subsetting)
  else if token.isSymbol ":>>" then some .redefinition
  else if token.isSymbol "::>" then some .subsetting
  else if token.isKeyword "specializes" then some .specialization
  else if token.isKeyword "subsets" || token.isKeyword "references" then some .subsetting
  else if token.isKeyword "redefines" then some .redefinition
  else if (token.isKeyword "typed" || token.isKeyword "defined") && byFollows then some .typing
  else none

def Cursor.relationship? (kind : SymbolKind) (c : Cursor) : Option RefKind :=
  if c.atEnd then none
  else Notation.relationship? kind c.here (c.seesNext (·.isKeyword "by"))

/-- The place after a mark of conjugation, which is not kept. -/
def skipConjugation (c : Cursor) : Cursor :=
  if c.sees (·.isSymbol "~") then c.advance else c

theorem skipConjugation_length (c : Cursor) : (skipConjugation c).length ≤ c.length := by
  unfold skipConjugation
  split
  · exact Cursor.advance_length_le c
  · exact Nat.le_refl _

def targets (kind : RefKind) (c : Cursor) : List Reference × Cursor :=
  match _found : path? true (skipConjugation c) with
  | none => ([], skipConjugation c)
  | some (target, after) =>
      let start := (skipConjugation c).here
      let reference : Reference :=
        { kind, target := .text target
          span := ⟨start.span.start, (after.last.getD start).span.stop⟩ }
      if _comma : after.sees (·.isSymbol ",") = true then
        let (others, rest) := targets kind after.advance
        (reference :: others, rest)
      else ([reference], after)
termination_by c.length
decreasing_by
  have := path?_length _found
  have := skipConjugation_length c
  have := Cursor.advance_length_of_sees _comma
  omega

theorem targets_length (kind : RefKind) (c : Cursor) : (targets kind c).2.length ≤ c.length := by
  fun_induction targets kind c with
  | case1 c _ => exact skipConjugation_length c
  | case2 c target after found start reference comma others rest same ih =>
    rw [same] at ih
    have passed := path?_length found
    have skipped := skipConjugation_length c
    have moved := Cursor.advance_length_le after
    simp only at ih ⊢
    omega
  | case3 c target after found start reference comma =>
    have passed := path?_length found
    have skipped := skipConjugation_length c
    simp only
    omega

/-- A declaration of a kind begins here whatever came before it. -/
def startsDeclaration (c : Cursor) : Bool :=
  c.sees (·.kind == .word) &&
    (let text := c.here.text
    text == "package" || text == "namespace" || text == "import" ||
      (text == "library" && c.seesNext (·.isKeyword "package")) ||
      ((familyKeywords.lookup text).isSome && c.seesNext (·.isKeyword "def")))

inductive HeaderEnd where
  | closed
  /-- With the brace of a body, which is still ahead. -/
  | opens
  deriving DecidableEq, Repr, Inhabited

/-- The place after the word or symbol that announces a reference. -/
def passOperator (c : Cursor) : Cursor :=
  if c.here.text = "typed" ∨ c.here.text = "defined" then c.advance.advance else c.advance

theorem passOperator_length (c : Cursor) : (passOperator c).length ≤ c.advance.length := by
  unfold passOperator
  split
  · exact Cursor.advance_length_le _
  · exact Nat.le_refl _

/-- The references of a declaration's header, from the place after its name to
the token that ends it. -/
def header (kind : SymbolKind) (c : Cursor) : List Reference × HeaderEnd × Cursor :=
  if c.atEnd then ([], .closed, c.report c.here.span .declarationAtEnd)
  else if c.sees (·.isSymbol ";") then ([], .closed, c.advance)
  else if c.sees (·.isSymbol "\x7b") then ([], .opens, c)
  else if c.sees (·.isSymbol "\x7d") then
    ([], .closed, c.report c.here.span (.declarationBefore "\x7d"))
  else
    match c.relationship? kind with
    | some relationship =>
        let found := targets relationship (passOperator c)
        let next := found.2.reportIf found.1.isEmpty found.2.here.span (.noTarget c.here.text)
        let (references, ending, rest) := header kind next
        (found.1 ++ references, ending, rest)
    | none =>
        if c.sees (·.isSymbol "[") then header kind (skipGroup "[" "]" c)
        else if c.sees (·.isSymbol "(") then header kind (skipGroup "(" ")" c)
        else if c.sees (fun t => t.isSymbol "=" || t.isSymbol ":=" || t.isKeyword "default") then
          header kind (skipOperands 0 c.advance)
        else if startsDeclaration c then
          ([], .closed, c.report c.here.span (.declarationBefore c.here.text))
        else header kind c.advance
termination_by c.length
decreasing_by
  · have := targets_length relationship (passOperator c)
    have := passOperator_length c
    have := Cursor.advance_length_of_not_atEnd (c := c) (by assumption)
    simp only [Cursor.reportIf_length]
    omega
  · exact skipGroup_length (by assumption)
  · exact skipGroup_length (by assumption)
  · exact Nat.lt_of_le_of_lt (skipOperands_length _ _)
      (Cursor.advance_length_of_not_atEnd (by assumption))
  · exact Cursor.advance_length_of_not_atEnd (by assumption)

theorem header_length (kind : SymbolKind) (c : Cursor) :
    (header kind c).2.2.length ≤ c.length := by
  fun_induction header kind c
  all_goals first
    | exact Nat.le_refl _
    | exact Cursor.advance_length_le _
    | next ih => exact Nat.le_trans ih (skipGroup_length_le ..)
    | next ih => exact Nat.le_trans ih (Cursor.advance_length_le _)
    | next ih =>
        exact Nat.le_trans ih (Nat.le_trans (skipOperands_length ..) (Cursor.advance_length_le _))
    | skip
  next c _ _ _ _ relationship _ found next references ending rest same ih =>
    rw [same] at ih
    have := targets_length relationship (passOperator c)
    have := passOperator_length c
    have := Cursor.advance_length_le c
    have : next.length = found.2.length := Cursor.reportIf_length ..
    simp only [found] at *
    omega

/-- A header that opens a body stops before its brace. -/
theorem header_opens (kind : SymbolKind) (c : Cursor) (opens : (header kind c).2.1 = .opens) :
    (header kind c).2.2.sees (·.isSymbol "\x7b") = true := by
  fun_induction header kind c <;> simp_all

def shortName (c : Cursor) : String × Cursor :=
  if c.sees (·.isSymbol "<") then
    let inside := c.advance
    let (name, after) :=
      if inside.sees Token.isName then (inside.here.text, inside.advance) else ("", inside)
    if after.sees (·.isSymbol ">") then (name, after.advance)
    else (name, after.report after.here.span .shortNameNotClosed)
  else ("", c)

theorem shortName_length (c : Cursor) : (shortName c).2.length ≤ c.length := by
  unfold shortName
  have first := Cursor.advance_length_le c
  have second := Cursor.advance_length_le c.advance
  have third := Cursor.advance_length_le c.advance.advance
  split
  · dsimp only
    split <;> split <;> simp_all <;> omega
  · exact Nat.le_refl _

/-- The name that a declaration without one takes from the feature it redefines. -/
def redefinedName? (references : List Reference) : Option String :=
  (references.find? fun reference => reference.kind == .redefinition).bind fun reference =>
    reference.target.text?.bind fun path => (QualifiedName.chainPieces path).getLast?

/-- A statement, read up to the block that it opens. -/
inductive Statement where
  /-- Nothing that is kept. -/
  | skipped
  | imported (i : Import)
  | documented (text : String)
  /-- A declaration without a body; it has no heading if nothing names it. -/
  | declared (heading : Option Heading)
  /-- A declaration whose body begins after the brace that stands at `opening`. -/
  | opened (heading : Option Heading) (opening : Span)
  deriving Repr, Inhabited

def declaration (kind : SymbolKind) (lead : Lead) (needsName : Bool) (c : Cursor) :
    Statement × Cursor :=
  let start := c.here
  let (short, named) := shortName c
  let name? := if named.sees Token.isName then some named.here else none
  let (references, ending, after) := header kind (if name?.isSome then named.advance else named)
  let name := (name?.map (·.text)) <|> redefinedName? references
  let heading := name.map fun name =>
    { name, kind, shortName := short, isAbstract := lead.isAbstract, direction := lead.direction
      references, anchor := (name?.getD start).span : Heading }
  let after := after.reportIf (heading.isNone && needsName) start.span (.noName kind)
  match ending with
  | .closed => (.declared heading, after)
  | .opens => (.opened heading after.here.span, after.advance)

def importStars (isNamespace isRecursive : Bool) (c : Cursor) : Bool × Bool × Cursor :=
  if c.sees (·.isSymbol "::") then
    if c.seesNext (·.isSymbol "*") then
      importStars true isRecursive c.advance.advance
    else if c.seesNext (·.isSymbol "**") then importStars isNamespace true c.advance.advance
    else (isNamespace, isRecursive, c)
  else (isNamespace, isRecursive, c)
termination_by c.length
decreasing_by
  all_goals
    exact Nat.lt_of_le_of_lt (Cursor.advance_length_le _)
      (Cursor.advance_length_of_sees (c := c) (by assumption))

def importStatement (lead : Lead) (c : Cursor) : Statement × Cursor :=
  let start := if c.advance.sees (·.isKeyword "all") then c.advance.advance else c.advance
  match path? false start with
  | none => (.skipped, skipStatement (start.report start.here.span (.noTarget c.here.text)))
  | some (path, after) =>
      let (isNamespace, isRecursive, stars) := importStars false false after
      let span : Span := ⟨start.here.span.start, (stars.last.getD start.here).span.stop⟩
      let conditions := if stars.sees (·.isSymbol "[") then skipGroup "[" "]" stars else stars
      let ended :=
        if conditions.sees (·.isSymbol ";") then conditions.advance
        else skipStatement (conditions.report conditions.here.span .importNotEnded)
      (.imported
        { path := .text path, isNamespace, isRecursive
          visibility := lead.visibility.getD "private", span },
        ended)

/-- Documentation, from its keyword on. A name and a locale may come before its
comment. -/
def docStatement (c : Cursor) : Statement × Cursor :=
  let keyword := c.here
  let c := c.advance
  let c := if c.comment?.isNone && c.sees Token.isName then c.advance else c
  let c :=
    if c.sees (·.isKeyword "locale") then
      if c.advance.sees (·.kind == .string) then c.advance.advance else c.advance
    else c
  match c.comment? with
  | none => (.skipped, c.report keyword.span .noCommentBody)
  | some comment =>
      (.documented (String.ofList (cleanComment comment.text.toList)), c.passComment)

/-- Passes a comment or a representation: up to its comment or its semicolon. -/
def skipRemark (c : Cursor) : Cursor :=
  if c.comment?.isSome then c.passComment
  else if c.atEnd then c
  else if c.sees (fun t => t.isSymbol "\x7b" || t.isSymbol "\x7d") then c
  else if c.sees (·.isSymbol ";") then { c.advance with last := c.last }
  else skipRemark { c.advance with last := c.last }
termination_by c.length
decreasing_by exact Cursor.advance_length_of_not_atEnd (c := c) (by assumption)

/-- The kinds of definition and usage that the next words open, and the place
after them. -/
def familyHead? (c : Cursor) : Option (Family × Cursor) :=
  match caseKeywords.lookup c.here.text, familyKeywords.lookup c.here.text with
  | some family, found =>
      if c.seesNext (·.isKeyword "case") then some (family, c.advance.advance)
      else found.map (·, c.advance)
  | none, found => found.map (·, c.advance)

/-- The statement that begins with a word, if the word begins one. -/
def keywordStatement? (lead : Lead) (c : Cursor) : Option (Statement × Cursor) :=
  let keyword := c.here.text
  if keyword = "import" then some (importStatement lead c)
  else if keyword = "doc" then some (docStatement c)
  else if keyword = "comment" ∨ keyword = "rep" then some (.skipped, skipRemark c.advance)
  else if keyword = "package" then
    some (declaration (if lead.isLibrary then .libraryPackage else .package) lead true c.advance)
  else if keyword = "namespace" then some (declaration .namespaceOnly lead true c.advance)
  else
    match familyHead? c with
    | some (family, after) =>
        if after.sees (·.isKeyword "def") then
          some (declaration (.definition family) lead true after.advance)
        else some (declaration (.usage family) lead false after)
    | none =>
        (kernelKeywords.lookup keyword).map fun kind =>
          let after := c.advance
          let after :=
            if keyword = "assoc" && after.sees (·.isKeyword "struct") then after.advance else after
          declaration (.kernel kind) lead (SymbolKind.kernel kind).isDefinition after

/-- A statement that no keyword begins: a reference usage, a redefinition, or a
usage whose name is followed by a reference; anything else is skipped. -/
def plainStatement (lead : Lead) (c : Cursor) : Statement × Cursor :=
  if lead.isRef then declaration .referenceUsage lead false c
  else if c.sees (fun t => t.isSymbol ":>>" || t.isKeyword "redefines") then
    declaration .plainUsage lead false c
  else if c.sees Token.isName &&
      (!lead.direction.isEmpty ||
        c.seesNext fun t => (relationship? .plainUsage t false).isSome) then
    declaration .plainUsage lead false c
  else (.skipped, skipStatement c)

def Statement.read (c : Cursor) : Statement × Cursor :=
  let (lead, c) := leadFrom {} c
  if c.atEnd || c.sees (·.isSymbol "\x7d") then (.skipped, c)
  else if c.sees (·.isSymbol ";") then (.skipped, c.advance)
  else if c.sees (·.kind == .word) then
    (keywordStatement? lead c).getD (plainStatement lead c)
  else plainStatement lead c

theorem declaration_opens {kind : SymbolKind} {lead : Lead} {needsName : Bool} {c after : Cursor}
    {heading : Option Heading} {opening : Span}
    (opens : declaration kind lead needsName c = (.opened heading opening, after)) :
    after.length < c.length := by
  unfold declaration at opens
  dsimp only at opens
  split at opens
  · cases opens
  · next ending =>
    have short := shortName_length c
    generalize shortName c = named at *
    obtain ⟨text, named⟩ := named
    dsimp only at *
    cases opens
    generalize within : (if (if named.sees Token.isName = true then some named.here else
      none).isSome = true then named.advance else named) = inner at *
    have inner_length : inner.length ≤ named.length := by
      rw [← within]
      split
      · exact Cursor.advance_length_le _
      · exact Nat.le_refl _
    have brace := header_opens kind inner ending
    have passed := header_length kind inner
    refine Nat.lt_of_lt_of_le
      (Cursor.advance_length_of_sees (p := (·.isSymbol "\x7b")) (by simpa using brace)) ?_
    rw [Cursor.reportIf_length]
    exact Nat.le_trans passed (Nat.le_trans inner_length short)

theorem importStatement_not_opens {lead : Lead} {c after : Cursor} {heading : Option Heading}
    {opening : Span} : importStatement lead c ≠ (.opened heading opening, after) := by
  unfold importStatement
  dsimp only
  split <;> simp

theorem docStatement_not_opens {c after : Cursor} {heading : Option Heading} {opening : Span} :
    docStatement c ≠ (.opened heading opening, after) := by
  unfold docStatement
  dsimp only
  split <;> simp

theorem familyHead?_length {c after : Cursor} {family : Family}
    (found : familyHead? c = some (family, after)) : after.length ≤ c.length := by
  have first := Cursor.advance_length_le c
  have second := Cursor.advance_length_le c.advance
  unfold familyHead? at found
  split at found
  · split at found
    · cases found; omega
    · simp only [Option.map_eq_some_iff] at found
      obtain ⟨_, _, same⟩ := found
      cases same
      exact first
  · simp only [Option.map_eq_some_iff] at found
    obtain ⟨_, _, same⟩ := found
    cases same
    exact first

theorem keywordStatement?_opens {lead : Lead} {c after : Cursor} {heading : Option Heading}
    {opening : Span}
    (opens : keywordStatement? lead c = some (.opened heading opening, after)) :
    after.length < c.length := by
  have first := Cursor.advance_length_le c
  unfold keywordStatement? at opens
  dsimp only at opens
  split at opens
  · simp [importStatement_not_opens] at opens
  · split at opens
    · simp [docStatement_not_opens] at opens
    · split at opens
      · simp at opens
      · split at opens
        · exact Nat.lt_of_lt_of_le (declaration_opens (Option.some.inj opens)) first
        · split at opens
          · exact Nat.lt_of_lt_of_le (declaration_opens (Option.some.inj opens)) first
          · split at opens
            · next family next found =>
              have passed := familyHead?_length found
              split at opens
              · exact Nat.lt_of_lt_of_le (declaration_opens (Option.some.inj opens))
                  (Nat.le_trans (Cursor.advance_length_le _) passed)
              · exact Nat.lt_of_lt_of_le (declaration_opens (Option.some.inj opens)) passed
            · simp only [Option.map_eq_some_iff] at opens
              obtain ⟨kind, _, opens⟩ := opens
              have passed := declaration_opens opens
              have second := Cursor.advance_length_le c.advance
              split at passed <;> omega

theorem plainStatement_opens {lead : Lead} {c after : Cursor} {heading : Option Heading}
    {opening : Span} (opens : plainStatement lead c = (.opened heading opening, after)) :
    after.length < c.length := by
  unfold plainStatement at opens
  split at opens
  · exact declaration_opens opens
  · split at opens
    · exact declaration_opens opens
    · split at opens
      · exact declaration_opens opens
      · simp at opens

/-- A statement that opens a block has passed its brace. -/
theorem Statement.read_opens_length {c after : Cursor} {heading : Option Heading} {opening : Span}
    (opens : Statement.read c = (.opened heading opening, after)) : after.length < c.length := by
  have passed := leadFrom_length {} c
  unfold Statement.read at opens
  dsimp only at opens
  generalize leadFrom {} c = led at *
  obtain ⟨lead, next⟩ := led
  dsimp only at *
  split at opens
  · simp at opens
  · split at opens
    · simp at opens
    · split at opens
      · cases found : keywordStatement? lead next with
        | none =>
          rw [found] at opens
          exact Nat.lt_of_lt_of_le (plainStatement_opens opens) passed
        | some read =>
          rw [found] at opens
          simp only [Option.getD_some] at opens
          subst opens
          exact Nat.lt_of_lt_of_le (keywordStatement?_opens found) passed
      · exact Nat.lt_of_lt_of_le (plainStatement_opens opens) passed

end Sysml.Notation
