import Sysml.Proofs.Notation.Facing

/-!
# Declarations as they are written

What a declaration says before its body, the tokens that say it, and how they are read:
whatever the kind is, the statement that begins with them declares what they say
(`read_title`).
-/

set_option autoImplicit false

namespace Sysml.Notation

def familyWords (family : Family) : List String :=
  match familyKeywords.find? fun entry => entry.2 == family with
  | some (word, _) => [word]
  | none =>
      match caseKeywords.find? fun entry => entry.2 == family with
      | some (word, _) => [word, "case"]
      | none => []

def leadingWords : SymbolKind → List String
  | .libraryPackage => ["library"]
  | .referenceUsage => ["ref"]
  | _ => []

def kindWords : SymbolKind → List String
  | .package | .libraryPackage => ["package"]
  | .namespaceOnly => ["namespace"]
  | .definition family => familyWords family ++ ["def"]
  | .usage family => familyWords family
  | .kernel kind => ((kernelKeywords.find? fun entry => entry.2 == kind).map (·.1)).toList
  | .referenceUsage | .plainUsage | .element => []

/-- What a declaration says before its body. References of one kind stand together. -/
structure Title where
  kind : SymbolKind
  isAbstract : Bool
  /-- The direction; the empty text stands for none. -/
  direction : String
  /-- The short name; the empty text stands for none. -/
  shortName : String
  name : String
  clauses : List (RefKind × List String)

namespace Title

/-- A declaration that can be read as what it says: a usage without a keyword is told by its
direction or its references, and has no place for a short name. -/
structure Sound (title : Title) : Prop where
  known : title.kind ≠ .element
  direction : title.direction = "" ∨ title.direction ∈ directionKeywords
  targeted : ∀ clause ∈ title.clauses, clause.2 ≠ []
  plain : title.kind = .plainUsage →
    title.shortName = "" ∧ (title.direction ≠ "" ∨ title.clauses ≠ [])

variable (title : Title)

/-- The direction is one of the notation's, or there is none. -/
def IsDirected : Prop :=
  title.direction = "" ∨ title.direction ∈ directionKeywords

def modifiers : List String :=
  (if title.isAbstract then ["abstract"] else []) ++
    (if title.direction = "" then [] else [title.direction])

def nameTokens : List Token :=
  (if title.shortName = "" then [] else [.mark "<", .named title.shortName, .mark ">"]) ++
    [.named title.name]

def tokens : List Token :=
  (title.modifiers ++ leadingWords title.kind ++ kindWords title.kind).map .word ++
    title.nameTokens ++ title.clauses.flatMap (clauseTokens title.kind.isDefinition)

def lead : Lead :=
  { isAbstract := title.isAbstract, direction := title.direction
    isRef := title.kind == .referenceUsage, isLibrary := title.kind == .libraryPackage }

/-- What a declaration says, wherever it stands. -/
def heading : Heading :=
  { name := title.name, kind := title.kind, shortName := title.shortName
    isAbstract := title.isAbstract, direction := title.direction
    references := title.clauses.flatMap clauseReferences, anchor := {} }

end Title

def Heading.unplaced (heading : Heading) : Heading :=
  { heading with references := heading.references.map Reference.unplaced, anchor := {} }

def HeaderEnd.statement (ending : HeaderEnd) (heading : Heading) (opening : Span) : Statement :=
  match ending with
  | .closed => .declared (some heading)
  | .opens => .opened (some heading) opening

/-! ## What stands before the kind -/

def leadWords : List String :=
  visibilityKeywords ++ ["abstract"] ++ directionKeywords ++ ["ref", "library"] ++ modifierKeywords

theorem leadWords_reserved : ∀ word ∈ leadWords, isReserved word = true := by
  decide

variable {c : Cursor} {lead : Lead} {token : Token} {rest : List Token}

theorem leadFrom_word {word : String} (faces : c.Faces (.word word :: rest)) :
    leadFrom lead c =
      if visibilityKeywords.contains word then
        leadFrom { lead with visibility := some word } c.advance
      else if word = "abstract" then leadFrom { lead with isAbstract := true } c.advance
      else if directionKeywords.contains word then
        leadFrom { lead with direction := word } c.advance
      else if word = "ref" then leadFrom { lead with isRef := true } c.advance
      else if word = "library" then leadFrom { lead with isLibrary := true } c.advance
      else if modifierKeywords.contains word then leadFrom lead c.advance
      else (lead, c) := by
  have isWord : c.sees (·.kind == .word) = true := faces.sees (by simp) fun _ => rfl
  rw [leadFrom, dif_neg (by simp [faces.sees_symbol (by simp)]), if_pos isWord, faces.here_text (by simp)]
  rfl

/-- What is no such word is left ahead. -/
theorem leadFrom_stops (faces : c.Faces (token :: rest)) (spoken : token.kind ≠ .comment)
    (noMark : token.isSymbol "#" = false)
    (noLead : token.kind = .word → token.text ∉ leadWords) : leadFrom lead c = (lead, c) := by
  have isWord : c.sees (·.kind == .word) = (token.kind == .word) := faces.sees spoken fun _ => rfl
  rw [leadFrom, dif_neg (by simp [faces.sees_symbol spoken, noMark]), isWord]
  split
  · next word =>
    have apart := noLead (by simpa using word)
    simp only [leadWords, List.mem_append, List.mem_cons, List.not_mem_nil, or_false,
      not_or] at apart
    simp [faces.here_text spoken, apart]
  · rfl

theorem leadFrom_abstract (faces : c.Faces (.word "abstract" :: rest)) :
    leadFrom lead c = leadFrom { lead with isAbstract := true } c.advance := by
  rw [leadFrom_word faces, if_neg (by decide), if_pos rfl]

theorem leadFrom_direction {word : String} (direction : word ∈ directionKeywords)
    (faces : c.Faces (.word word :: rest)) :
    leadFrom lead c = leadFrom { lead with direction := word } c.advance := by
  have others : ∀ word ∈ directionKeywords,
      ¬ visibilityKeywords.contains word = true ∧ word ≠ "abstract" := by decide
  obtain ⟨noVisibility, noAbstract⟩ := others word direction
  rw [leadFrom_word faces, if_neg noVisibility, if_neg noAbstract,
    if_pos (by simpa using direction)]

theorem leadFrom_ref (faces : c.Faces (.word "ref" :: rest)) :
    leadFrom lead c = leadFrom { lead with isRef := true } c.advance := by
  rw [leadFrom_word faces, if_neg (by decide), if_neg (by decide), if_neg (by decide), if_pos rfl]

theorem leadFrom_library (faces : c.Faces (.word "library" :: rest)) :
    leadFrom lead c = leadFrom { lead with isLibrary := true } c.advance := by
  rw [leadFrom_word faces, if_neg (by decide), if_neg (by decide), if_neg (by decide),
    if_neg (by decide), if_pos rfl]

theorem leadFrom_modifiers {title : Title} (directed : title.IsDirected)
    (faces : c.Faces (title.modifiers.map .word ++ rest)) :
    ∃ after, after.Faces rest ∧
      leadFrom {} c =
        leadFrom { isAbstract := title.isAbstract, direction := title.direction } after := by
  -- First the direction, whatever is known before it.
  have onward (c : Cursor) (isAbstract : Bool)
      (faces : c.Faces
        ((if title.direction = "" then [] else [title.direction]).map Token.word ++ rest)) :
      ∃ after, after.Faces rest ∧ leadFrom { isAbstract } c =
        leadFrom { isAbstract, direction := title.direction } after := by
    rcases directed with none_ | listed
    · rw [if_pos none_] at faces
      exact ⟨c, faces, by rw [none_]⟩
    · rw [if_neg (by rintro same; rw [same] at listed; revert listed; decide)] at faces
      exact ⟨c.advance, faces.advance (by simp), leadFrom_direction listed faces⟩
  rw [Title.modifiers, List.map_append, List.append_assoc] at faces
  cases isAbstract : title.isAbstract with
  | false =>
    rw [isAbstract] at faces
    exact onward c false faces
  | true =>
    rw [isAbstract] at faces
    obtain ⟨after, facesRest, read⟩ := onward c.advance true (faces.advance (by simp))
    exact ⟨after, facesRest, (leadFrom_abstract faces).trans read⟩

/-- The words before the kind are read as they were written. -/
theorem leadFrom_faces {title : Title} (directed : title.IsDirected)
    (stops : ∀ c : Cursor, c.Faces rest → ∀ lead, leadFrom lead c = (lead, c))
    (faces : c.Faces ((title.modifiers ++ leadingWords title.kind).map .word ++ rest)) :
    ∃ after, leadFrom {} c = (title.lead, after) ∧ after.Faces rest := by
  rw [List.map_append, List.append_assoc] at faces
  obtain ⟨next, facesNext, read⟩ := leadFrom_modifiers directed faces
  rw [read]
  cases isKind : title.kind with
  | referenceUsage =>
    rw [isKind] at facesNext
    have facesRest : next.advance.Faces rest := facesNext.advance (by decide)
    refine ⟨next.advance, ?_, facesRest⟩
    rw [leadFrom_ref facesNext, stops _ facesRest, Title.lead, isKind]
    rfl
  | libraryPackage =>
    rw [isKind] at facesNext
    have facesRest : next.advance.Faces rest := facesNext.advance (by decide)
    refine ⟨next.advance, ?_, facesRest⟩
    rw [leadFrom_library facesNext, stops _ facesRest, Title.lead, isKind]
    rfl
  | _ =>
    rw [isKind] at facesNext
    refine ⟨next, ?_, facesNext⟩
    rw [stops _ facesNext, Title.lead, isKind]
    rfl

/-! ## The name and the references -/

theorem shortName_faces {title : Title} (faces : c.Faces (title.nameTokens ++ rest)) :
    ∃ named, shortName c = (title.shortName, named) ∧
      named.Faces (.named title.name :: rest) := by
  by_cases none_ : title.shortName = ""
  · rw [Title.nameTokens, if_pos none_] at faces
    refine ⟨c, ?_, faces⟩
    replace faces : c.Faces (.named title.name :: rest) := faces
    rw [shortName, if_neg (by simp [faces.sees_symbol (by simp)]), none_]
  · rw [Title.nameTokens, if_neg none_] at faces
    replace faces : c.Faces (.mark "<" :: .named title.shortName :: .mark ">" ::
        .named title.name :: rest) := faces
    have inside := faces.advance (by simp)
    have closing := inside.advance (by simp)
    have isNamed : c.advance.sees Token.isName = true := by
      simp [inside.sees_name (by simp)]
    refine ⟨_, ?_, closing.advance (by simp)⟩
    rw [shortName, if_pos (by simp [faces.sees_symbol (by simp)])]
    simp only [isNamed, ↓reduceIte]
    rw [if_pos (by simp [closing.sees_symbol (by simp)]), inside.here_text (by simp)]
    rfl

/-- From its short name on, a declaration is read as it was written. -/
theorem declaration_faces {title : Title} (sound : title.Sound) (needsName : Bool)
    (ending : HeaderEnd)
    (faces : c.Faces (title.nameTokens ++
      (title.clauses.flatMap (clauseTokens title.kind.isDefinition) ++ ending.token :: rest))) :
    ∃ heading opening after,
      declaration title.kind title.lead needsName c = (ending.statement heading opening, after) ∧
        heading.unplaced = title.heading ∧ after.Faces rest := by
  obtain ⟨named, short, facesName⟩ := shortName_faces faces
  obtain ⟨references, last, read, are, facesLast⟩ :=
    header_faces title.kind ending sound.targeted (facesName.advance (by simp))
  have isNamed : named.sees Token.isName = true := by simp [facesName.sees_name (by simp)]
  have isName : named.here.text = title.name := facesName.here_text (by simp)
  refine ⟨⟨title.name, title.kind, title.shortName, title.isAbstract, title.direction, references,
    named.here.span⟩, ?_⟩
  have said : (⟨title.name, title.kind, title.shortName, title.isAbstract, title.direction,
      references, named.here.span⟩ : Heading).unplaced = title.heading := by
    rw [Heading.unplaced, are, Title.heading]
  rw [declaration]
  simp only [short, isNamed, ↓reduceIte, Option.isSome_some, read]
  cases ending with
  | closed => exact ⟨{}, last, by rw [← isName]; rfl, said, facesLast⟩
  | opens =>
    exact ⟨last.here.span, last.advance, by rw [← isName]; rfl, said,
      facesLast.advance (by decide)⟩

/-! ## The kind -/

/-- A token that goes on with a statement: it is no comment, and no symbol that ends or leads
one. -/
structure Token.GoesOn (token : Token) : Prop where
  spoken : token.kind ≠ .comment
  noMark : token.isSymbol "#" = false
  noEnd : token.isSymbol ";" = false
  noClose : token.isSymbol "\x7d" = false

/-- The tokens begin with one that goes on with a statement and is no reserved word. -/
def BeginsFree (tokens : List Token) : Prop :=
  ∃ token rest, tokens = token :: rest ∧ token.GoesOn ∧
    ∀ word, isReserved word = true → token.isKeyword word = false

theorem nameTokens_free (title : Title) (rest : List Token) :
    BeginsFree (title.nameTokens ++ rest) := by
  by_cases none_ : title.shortName = ""
  · rw [Title.nameTokens, if_pos none_]
    exact ⟨.named title.name, rest, rfl, ⟨by simp, by simp, by simp, by simp⟩,
      fun word reserved => Token.named_isKeyword title.name reserved⟩
  · rw [Title.nameTokens, if_neg none_]
    exact ⟨.mark "<", _, rfl, ⟨by simp, rfl, rfl, rfl⟩, fun _ _ => rfl⟩

theorem BeginsFree.sees_keyword (free : BeginsFree rest) (faces : c.Faces rest) (word : String)
    (reserved : isReserved word = true) : c.sees (·.isKeyword word) = false := by
  obtain ⟨token, more, rfl, goesOn, apart⟩ := free
  rw [faces.sees_keyword goesOn.spoken, apart word reserved]

def ownWords : List String :=
  ["import", "doc", "comment", "rep", "package", "namespace"]

/-- The words of a family are known as that family's. -/
theorem familyWords_known (family : Family) :
    (∃ word, familyWords family = [word] ∧ word ∉ ownWords ∧
      familyKeywords.lookup word = some family ∧ caseKeywords.lookup word = none) ∨
    ∃ word, familyWords family = [word, "case"] ∧ word ∉ ownWords ∧
      caseKeywords.lookup word = some family := by
  cases family <;> first
    | exact .inl ⟨_, rfl, by decide, rfl, rfl⟩
    | exact .inr ⟨_, rfl, by decide, rfl⟩

/-- The word of a kernel kind is known as that kind's and no family's. -/
theorem kernelWord_known (kind : KernelKind) :
    ∃ word, kindWords (.kernel kind) = [word] ∧ word ∉ ownWords ∧
      kernelKeywords.lookup word = some kind ∧ familyKeywords.lookup word = none ∧
      caseKeywords.lookup word = none := by
  cases kind <;> exact ⟨_, rfl, by decide, rfl, rfl, rfl⟩

theorem familyHead?_faces {family : Family}
    (faces : c.Faces ((familyWords family).map .word ++ rest)) :
    ∃ after, familyHead? c = some (family, after) ∧ after.Faces rest := by
  rcases familyWords_known family with ⟨word, are, _, known, noCase⟩ | ⟨word, are, _, known⟩
  · rw [are] at faces
    replace faces : c.Faces (.word word :: rest) := faces
    refine ⟨c.advance, ?_, faces.advance (by simp)⟩
    simp only [familyHead?, faces.here_text (by simp), Token.word_text, noCase, known,
      Option.map_some]
  · rw [are] at faces
    replace faces : c.Faces (.word word :: .word "case" :: rest) := faces
    have isCase : c.seesNext (·.isKeyword "case") = true :=
      faces.seesNext (by simp) (by simp) fun _ => rfl
    refine ⟨c.advance.advance, ?_, (faces.advance (by simp)).advance (by simp)⟩
    simp only [familyHead?, faces.here_text (by simp), Token.word_text, known, isCase, ↓reduceIte]

theorem familyWords_cons (family : Family) :
    ∃ word more, familyWords family = word :: more ∧ word ∉ ownWords := by
  rcases familyWords_known family with ⟨word, are, other, _⟩ | ⟨word, are, other, _⟩
  · exact ⟨word, _, are, other⟩
  · exact ⟨word, _, are, other⟩

theorem keywordStatement?_family {word : String} {family : Family} {after : Cursor}
    (faces : c.Faces (.word word :: rest)) (other : word ∉ ownWords)
    (found : familyHead? c = some (family, after)) :
    keywordStatement? lead c =
      some (if after.sees (·.isKeyword "def") then
        declaration (.definition family) lead true after.advance
      else declaration (.usage family) lead false after) := by
  simp only [ownWords, List.mem_cons, List.not_mem_nil, or_false, not_or] at other
  simp only [keywordStatement?, faces.here_text (by simp), Token.word_text, other, ↓reduceIte,
    found, or_self]
  split <;> rfl

/-- The words of a kind begin a declaration of that kind. -/
theorem keywordStatement?_faces {kind : SymbolKind} (worded : kindWords kind ≠ [])
    (isLibrary : lead.isLibrary = (kind == .libraryPackage)) (free : BeginsFree rest)
    (faces : c.Faces ((kindWords kind).map .word ++ rest)) :
    ∃ needsName after, keywordStatement? lead c = some (declaration kind lead needsName after) ∧
      after.Faces rest := by
  have here (word : String) (more : List Token) (faces : c.Faces (.word word :: more)) :
      c.here.text = word := faces.here_text (by simp)
  cases kind with
  | package =>
    refine ⟨true, c.advance, ?_, faces.advance (by decide)⟩
    simp [keywordStatement?, here "package" _ faces, isLibrary]
  | libraryPackage =>
    refine ⟨true, c.advance, ?_, faces.advance (by decide)⟩
    simp [keywordStatement?, here "package" _ faces, isLibrary]
  | namespaceOnly =>
    refine ⟨true, c.advance, ?_, faces.advance (by decide)⟩
    simp [keywordStatement?, here "namespace" _ faces]
  | definition family =>
    obtain ⟨word, more, are, other⟩ := familyWords_cons family
    rw [kindWords, List.map_append, List.append_assoc] at faces
    obtain ⟨after, found, facesDef⟩ := familyHead?_faces faces
    rw [are] at faces
    replace facesDef : after.Faces (.word "def" :: rest) := facesDef
    have isDef : after.sees (·.isKeyword "def") = true := facesDef.sees_keyword (by simp) "def"
    refine ⟨true, after.advance, ?_, facesDef.advance (by simp)⟩
    rw [keywordStatement?_family faces other found, if_pos isDef]
  | usage family =>
    obtain ⟨word, more, are, other⟩ := familyWords_cons family
    rw [kindWords] at faces
    obtain ⟨after, found, facesRest⟩ := familyHead?_faces faces
    rw [are] at faces
    refine ⟨false, after, ?_, facesRest⟩
    rw [keywordStatement?_family faces other found,
      if_neg (by simp [free.sees_keyword facesRest "def" (by decide)])]
  | kernel kind =>
    obtain ⟨word, are, other, known, noFamily, noCase⟩ := kernelWord_known kind
    rw [are] at faces
    replace faces : c.Faces (.word word :: rest) := faces
    have facesRest := faces.advance (by simp)
    have noStruct := free.sees_keyword facesRest "struct" (by decide)
    refine ⟨(SymbolKind.kernel kind).isDefinition, c.advance, ?_, facesRest⟩
    simp only [ownWords, List.mem_cons, List.not_mem_nil, or_false, not_or] at other
    simp only [keywordStatement?, familyHead?, here word _ faces, other, noFamily, noCase, known,
      noStruct, Option.map_some, Option.map_none, Bool.and_false, Bool.false_eq_true, ↓reduceIte,
      or_self]
  | referenceUsage => exact absurd rfl worded
  | plainUsage => exact absurd rfl worded
  | element => exact absurd rfl worded

theorem lookup_free {β : Type} {entries : List (String × β)} {word : String}
    (keys : ∀ key ∈ entries.map (·.1), isReserved key = true) (free : isReserved word = false) :
    entries.lookup word = none := by
  cases found : entries.lookup word with
  | none => rfl
  | some value =>
    obtain ⟨held, same, member⟩ := Entries.exists_mem_of_lookup found
    rw [beq_iff_eq.mp same, keys held (List.mem_map_of_mem member)] at free
    cases free

/-- A name begins no statement of its own. -/
theorem keywordStatement?_free {word : String} (isWord : c.here.text = word)
    (free : isReserved word = false) : keywordStatement? lead c = none := by
  have other : word ∉ ownWords := by
    have reserved : ∀ word ∈ ownWords, isReserved word = true := by decide
    intro listed
    rw [reserved word listed] at free
    cases free
  have noCase : caseKeywords.lookup word = none := lookup_free (by decide) free
  have noFamily : familyKeywords.lookup word = none := lookup_free (by decide) free
  have noKernel : kernelKeywords.lookup word = none := lookup_free (by decide) free
  simp only [ownWords, List.mem_cons, List.not_mem_nil, or_false, not_or] at other
  simp [keywordStatement?, familyHead?, isWord, other, noCase, noFamily, noKernel]

/-- What begins with a short name or a name is no statement of a keyword. -/
theorem read_nameTokens {title : Title} (faces : c.Faces (title.nameTokens ++ rest)) :
    (if c.sees (·.kind == .word) = true then
      (keywordStatement? lead c).getD (plainStatement lead c) else plainStatement lead c) =
        plainStatement lead c := by
  split
  · next isWord =>
    by_cases none_ : title.shortName = ""
    · rw [Title.nameTokens, if_pos none_] at faces
      replace faces : c.Faces (.named title.name :: rest) := faces
      have kind : c.sees (·.kind == .word) = ((Token.named title.name).kind == .word) :=
        faces.sees (by simp) fun _ => rfl
      rcases Token.named_kind title.name with ⟨_, free⟩ | isName
      · rw [keywordStatement?_free (faces.here_text (by simp)) free, Option.getD_none]
      · rw [kind, isName] at isWord
        cases isWord
    · rw [Title.nameTokens, if_neg none_] at faces
      have kind : c.sees (·.kind == .word) = false := faces.sees (by simp) fun _ => rfl
      rw [kind] at isWord
      cases isWord
  · rfl

/-- Where no keyword says what is declared, a usage is, told by its direction or its
references. -/
theorem plainStatement_faces {title : Title} (sound : title.Sound)
    (unworded : kindWords title.kind = []) (ending : HeaderEnd)
    (faces : c.Faces (title.nameTokens ++
      (title.clauses.flatMap (clauseTokens title.kind.isDefinition) ++ ending.token :: rest))) :
    plainStatement title.lead c = declaration title.kind title.lead false c := by
  cases isKind : title.kind with
  | referenceUsage => rw [plainStatement, if_pos (by rw [Title.lead, isKind]; rfl)]
  | plainUsage =>
    obtain ⟨noShort, told⟩ := sound.plain isKind
    rw [Title.nameTokens, if_pos noShort, isKind] at faces
    replace faces : c.Faces (.named title.name :: (title.clauses.flatMap (clauseTokens false) ++
      ending.token :: rest)) := faces
    have noRedefinition : c.sees (fun t => t.isSymbol ":>>" || t.isKeyword "redefines") = false :=
      (faces.sees (by simp) fun _ => rfl).trans
        (by simp [Token.named_isKeyword title.name (show isReserved "redefines" = true by decide)])
    have isNamed : c.sees Token.isName = true := by simp [faces.sees_name (by simp)]
    have isTold : (!title.direction.isEmpty ||
        c.seesNext fun t => (relationship? .plainUsage t false).isSome) = true := by
      rcases told with directed | clauses
      · simp [directed]
      · obtain ⟨clause, others, are⟩ := List.exists_cons_of_ne_nil clauses
        rw [are] at faces
        replace faces : c.Faces (.named title.name :: operatorToken clause.1 false ::
          (targetTokens clause.2 ++ (others.flatMap (clauseTokens false) ++
            ending.token :: rest))) := by simpa [clauseTokens] using faces
        have isOperator : (c.seesNext fun t => (relationship? .plainUsage t false).isSome) =
            (relationship? .plainUsage (operatorToken clause.1 false) false).isSome :=
          faces.seesNext (by simp) (operatorToken_plain _ _).1 fun _ => rfl
        have known := relationship?_operator .plainUsage clause.1 false
        rw [isOperator]
        exact Bool.or_eq_true_iff.mpr (.inr (congrArg Option.isSome known))
    rw [plainStatement, if_neg (by simp [Title.lead, isKind]), if_neg (by simp [noRedefinition]),
      if_pos (by rw [isNamed]; exact isTold)]
  | element => exact absurd isKind sound.known
  | package => rw [isKind] at unworded; cases unworded
  | libraryPackage => rw [isKind] at unworded; cases unworded
  | namespaceOnly => rw [isKind] at unworded; cases unworded
  | definition family => simp [isKind, kindWords] at unworded
  | usage family =>
    obtain ⟨word, more, are, _⟩ := familyWords_cons family
    rw [isKind, kindWords, are] at unworded
    cases unworded
  | kernel kind =>
    obtain ⟨word, are, _⟩ := kernelWord_known kind
    rw [isKind, are] at unworded
    cases unworded

/-! ## Whole declarations -/

theorem Title.tokens_append (title : Title) (rest : List Token) :
    title.tokens ++ rest = (title.modifiers ++ leadingWords title.kind).map .word ++
      ((kindWords title.kind).map .word ++ (title.nameTokens ++
        (title.clauses.flatMap (clauseTokens title.kind.isDefinition) ++ rest))) := by
  simp [Title.tokens]

theorem kindWords_lead {kind : SymbolKind} {word : String} {words : List String}
    (are : kindWords kind = word :: words) : word ∉ leadWords := by
  cases kind with
  | definition family => cases family <;> cases are <;> decide
  | usage family => cases family <;> cases are <;> decide
  | kernel kind => cases kind <;> cases are <;> decide
  | _ => cases are <;> decide

/-- A declaration goes on with its kind or its name behind the words before it. -/
theorem kind_begins (title : Title) (rest : List Token) :
    ∃ token more, (kindWords title.kind).map .word ++ (title.nameTokens ++ rest) = token :: more ∧
      token.GoesOn ∧ (token.kind = .word → token.text ∉ leadWords) := by
  cases words : kindWords title.kind with
  | nil =>
    obtain ⟨token, more, are, goesOn, free⟩ := nameTokens_free title rest
    refine ⟨token, more, are, goesOn, fun isWord listed => ?_⟩
    have apart := free token.text (leadWords_reserved _ listed)
    simp [Token.isKeyword, isWord] at apart
  | cons word words =>
    exact ⟨.word word, _, rfl, ⟨by simp, rfl, rfl, rfl⟩, fun _ => kindWords_lead (by assumption)⟩

/-- A declaration is read from its kind on, with the words before it known. -/
theorem read_led {title : Title} (directed : title.IsDirected)
    (faces : c.Faces (title.tokens ++ rest)) :
    ∃ next, next.Faces ((kindWords title.kind).map .word ++ (title.nameTokens ++
        (title.clauses.flatMap (clauseTokens title.kind.isDefinition) ++ rest))) ∧
      Statement.read c =
        if next.sees (·.kind == .word) = true then
          (keywordStatement? title.lead next).getD (plainStatement title.lead next)
        else plainStatement title.lead next := by
  rw [title.tokens_append] at faces
  obtain ⟨token, more, are, goesOn, noLead⟩ := kind_begins title
    (title.clauses.flatMap (clauseTokens title.kind.isDefinition) ++ rest)
  obtain ⟨next, led, facesKind⟩ := leadFrom_faces directed
    (fun c faces lead => leadFrom_stops (are ▸ faces) goesOn.spoken goesOn.noMark noLead) faces
  have facesToken : next.Faces (token :: more) := are ▸ facesKind
  refine ⟨next, facesKind, ?_⟩
  rw [Statement.read, led]
  dsimp only
  rw [if_neg (by simp [facesToken.not_atEnd goesOn.spoken,
      facesToken.sees_symbol goesOn.spoken, goesOn.noClose]),
    if_neg (by simp [facesToken.sees_symbol goesOn.spoken, goesOn.noEnd])]

/-- A declaration is read as what it says. -/
theorem read_title {title : Title} (sound : title.Sound) (ending : HeaderEnd)
    (faces : c.Faces (title.tokens ++ ending.token :: rest)) :
    ∃ heading opening after, Statement.read c = (ending.statement heading opening, after) ∧
      heading.unplaced = title.heading ∧ after.Faces rest := by
  obtain ⟨next, facesKind, begins⟩ := read_led sound.direction faces
  rw [begins]
  by_cases unworded : kindWords title.kind = []
  · rw [unworded] at facesKind
    rw [read_nameTokens facesKind, plainStatement_faces sound unworded ending facesKind]
    exact declaration_faces sound false ending facesKind
  · have isLibrary : title.lead.isLibrary = (title.kind == .libraryPackage) := rfl
    obtain ⟨needsName, after, found, facesName⟩ :=
      keywordStatement?_faces unworded isLibrary (nameTokens_free title _) facesKind
    have isWord : next.sees (·.kind == .word) = true := by
      obtain ⟨word, words, areWords⟩ := List.exists_cons_of_ne_nil unworded
      rw [areWords] at facesKind
      exact facesKind.sees (by simp) fun _ => rfl
    rw [if_pos isWord, found, Option.getD_some]
    exact declaration_faces sound needsName ending facesName

/-! ## As text -/

def clauseText (isDefinition : Bool) (clause : RefKind × List String) : String :=
  (operatorToken clause.1 isDefinition).text ++ " " ++ ", ".intercalate (clause.2.map quotePath)

namespace Title

/-- The declaration with what stands for its names between their quotes. -/
def escaped (title : Title) : Title :=
  { title with
    shortName := Notation.escaped title.shortName, name := Notation.escaped title.name
    clauses := title.clauses.map fun clause => (clause.1, clause.2.map Notation.escaped) }

def parts (title : Title) : List (String × List Token) :=
  (title.modifiers ++ leadingWords title.kind ++ kindWords title.kind).map
      (fun word => (word, [.word word])) ++
    (if title.shortName = "" then []
      else [("<" ++ quoteName title.shortName ++ ">",
        [.mark "<", .named (Notation.escaped title.shortName), .mark ">"])]) ++
    [(quoteName title.name, [.named (Notation.escaped title.name)])] ++
    title.clauses.map fun clause =>
      (clauseText title.kind.isDefinition clause,
        clauseTokens title.kind.isDefinition (clause.1, clause.2.map Notation.escaped))

def text (title : Title) : String :=
  " ".intercalate (title.parts.map (·.1))

/-- No name in the declaration has a character to escape. -/
structure Plain (title : Title) : Prop where
  name : IsPlain title.name
  shortName : IsPlain title.shortName
  targets : ∀ clause ∈ title.clauses, ∀ path ∈ clause.2, IsPlain path

/-- No name in the declaration has a line feed. -/
structure IsUnbroken (title : Title) : Prop where
  name : Notation.IsUnbroken title.name
  shortName : Notation.IsUnbroken title.shortName
  targets : ∀ clause ∈ title.clauses, ∀ path ∈ clause.2, Notation.IsUnbroken path

theorem Plain.isUnbroken {title : Title} (plain : title.Plain) : title.IsUnbroken :=
  ⟨plain.name.isUnbroken, plain.shortName.isUnbroken, fun clause listed path isTarget =>
    (plain.targets clause listed path isTarget).isUnbroken⟩

theorem Plain.escaped_eq_self {title : Title} (plain : title.Plain) : title.escaped = title := by
  have clauses : title.clauses.map (fun clause => (clause.1, clause.2.map Notation.escaped)) =
      title.clauses := by
    refine (List.map_congr_left fun clause listed => ?_).trans (List.map_id _)
    have targets : clause.2.map Notation.escaped = clause.2 :=
      (List.map_congr_left fun path isTarget =>
        Notation.escaped_eq_self (plain.targets clause listed path isTarget)).trans (List.map_id _)
    rw [targets]
    rfl
  rw [escaped, clauses, Notation.escaped_eq_self plain.name,
    Notation.escaped_eq_self plain.shortName]

theorem tokens_eq_parts (title : Title) : title.escaped.tokens = title.parts.flatMap (·.2) := by
  by_cases none_ : title.shortName = ""
  · simp [parts, tokens, nameTokens, none_, escaped, escaped_eq_empty, modifiers, List.flatMap_map,
      ← List.map_eq_flatMap]
  · simp [parts, tokens, nameTokens, none_, escaped, escaped_eq_empty, modifiers, List.flatMap_map,
      ← List.map_eq_flatMap]
    rfl

end Title

def isWordText (text : String) : Bool :=
  match text.toList with
  | [] => false
  | c :: rest => isNameStart c && rest.all isNamePart

theorem isWordText_start {text : String} (isWord : isWordText text = true) :
    ∃ c tail, text.toList = c :: tail ∧ isNameStart c = true ∧ tail.all isNamePart = true := by
  unfold isWordText at isWord
  split at isWord
  · cases isWord
  · next c tail isText => exact ⟨c, tail, isText, Bool.and_eq_true_iff.mp isWord⟩

theorem kindWords_text (kind : SymbolKind) :
    ∀ word ∈ leadingWords kind ++ kindWords kind, isWordText word = true ∧ word ≠ "locale" := by
  cases kind with
  | definition family => cases family <;> decide
  | usage family => cases family <;> decide
  | kernel kind => cases kind <;> decide
  | _ => decide

theorem modifiers_text {title : Title} (directed : title.IsDirected) :
    ∀ word ∈ title.modifiers, isWordText word = true ∧ word ≠ "locale" := by
  have directions : ∀ word ∈ directionKeywords, isWordText word = true ∧ word ≠ "locale" := by
    decide
  intro word listed
  rw [Title.modifiers, List.mem_append] at listed
  rcases listed with listed | listed
  · split at listed
    · cases List.mem_singleton.mp listed
      decide
    · cases listed
  · split at listed
    · cases listed
    · next some_ =>
      cases List.mem_singleton.mp listed
      exact directions _ (directed.resolve_left some_)

/-- The words of a declaration are words, and none is the one that documentation looks for. -/
theorem words_text {title : Title} (directed : title.IsDirected) :
    ∀ word ∈ title.modifiers ++ leadingWords title.kind ++ kindWords title.kind,
      isWordText word = true ∧ word ≠ "locale" := by
  intro word listed
  rw [List.append_assoc] at listed
  rcases List.mem_append.mp listed with modifier | inKind
  · exact modifiers_text directed word modifier
  · exact kindWords_text title.kind word inKind

/-- A declaration begins with a token that goes on with a statement. -/
theorem title_begins {title : Title} (directed : title.IsDirected) (rest : List Token) :
    ∃ token more, title.tokens ++ rest = token :: more ∧ token.GoesOn ∧
      token.isKeyword "locale" = false := by
  have texts := words_text directed
  rw [Title.tokens]
  cases words : title.modifiers ++ leadingWords title.kind ++ kindWords title.kind with
  | nil =>
    obtain ⟨token, more, are, goesOn, free⟩ := nameTokens_free title
      (title.clauses.flatMap (clauseTokens title.kind.isDefinition) ++ rest)
    refine ⟨token, more, ?_, goesOn, free "locale" (by decide)⟩
    rw [← are, List.map_nil, List.nil_append, List.append_assoc]
  | cons word words' =>
    have other := (texts word (by rw [words]; exact List.mem_cons_self)).2
    exact ⟨.word word, _, rfl, ⟨by simp, rfl, rfl, rfl⟩, by simpa using other⟩

theorem spells_operator (kind : RefKind) (isDefinition : Bool) :
    Spells endsToken (operatorToken kind isDefinition).text.toList
      [operatorToken kind isDefinition] := by
  have mark {symbol : List Char} (listed : symbol ∈ plainMarks) :
      Spells endsToken symbol [.mark (String.ofList symbol)] :=
    (spells_mark listed).mono fun _ ends => ends.2
  have word {text : String} (isWord : isWordText text = true) :
      Spells endsToken text.toList [.word text] :=
    (spells_word (isWordText_start isWord)).mono fun _ ends => ends.1
  have typing : Spells endsToken [':'] [.mark ":"] := mark (by decide)
  have redefinition : Spells endsToken [':', '>', '>'] [.mark ":>>"] := mark (by decide)
  have plain : Spells endsToken [':', '>'] [.mark ":>"] := mark (by decide)
  cases kind <;> cases isDefinition
  · exact typing
  · exact typing
  · exact word (by decide)
  · exact plain
  · exact plain
  · exact word (by decide)
  · exact redefinition
  · exact redefinition

theorem quotePath_cons (path : String) :
    ∃ c tail, (quotePath path).toList = c :: tail ∧ endsMark c := by
  obtain ⟨first, others, pieces⟩ := exists_pieces path
  obtain ⟨c, tail, isFirst, ends⟩ := quoteName_cons first
  rw [quotePath, pieces, String.toList_intercalate, List.map_cons, List.map_cons, isFirst,
    List.intercalate_cons_cons_left]
  exact ⟨c, _, rfl, ends⟩

theorem clauseText_spells {isDefinition : Bool} {clause : RefKind × List String}
    (unbroken : ∀ path ∈ clause.2, IsUnbroken path) :
    Spells endsToken (clauseText isDefinition clause).toList
      (clauseTokens isDefinition (clause.1, clause.2.map escaped)) := by
  have separates : Spells anyNext [',', ' '] [.mark ","] :=
    Spells.append_cons (spells_mark (by decide) : Spells endsMark [','] [.mark ","])
      (spells_blank (by decide)) (by decide)
  have targets : Spells endsWord (", ".intercalate (clause.2.map quotePath)).toList
      (targetTokens (clause.2.map escaped)) := by
    have each : ∀ path ∈ clause.2,
        Spells endsWord (quotePath path).toList (pathTokens (escaped path)) ∧
          ∃ c tail, (quotePath path).toList = c :: tail ∧ anyNext c := by
      intro path listed
      obtain ⟨c, tail, isText, _⟩ := quotePath_cons path
      exact ⟨quotePath_spells (unbroken path listed), c, tail, isText, trivial⟩
    have spelled := spells_intercalate (fun path => (quotePath path).toList)
      (fun path => pathTokens (escaped path)) separates ⟨',', [' '], rfl, by decide⟩ clause.2 each
    rw [String.toList_intercalate, List.map_map, targetTokens, List.map_map, Function.comp_def,
      Function.comp_def]
    exact spelled
  have blank : Spells anyNext [' '] [] := spells_blank (by decide)
  have spaced := blank.append_any targets
  rw [clauseText, String.toList_append, String.toList_append, List.append_assoc]
  exact ((spells_operator clause.1 isDefinition).append_cons spaced (by decide)).mono
    fun _ ends => ends.1

theorem clauseText_cons (isDefinition : Bool) (clause : RefKind × List String) :
    ∃ c tail, (clauseText isDefinition clause).toList = c :: tail ∧ anyNext c := by
  have operator : ∃ c tail, (operatorToken clause.1 isDefinition).text.toList = c :: tail := by
    cases clause.1 <;> cases isDefinition <;> exact ⟨_, _, rfl⟩
  obtain ⟨c, tail, isOperator⟩ := operator
  rw [clauseText, String.toList_append, String.toList_append, isOperator]
  exact ⟨c, _, rfl, trivial⟩

theorem bracketed_spells {name : String} (unbroken : IsUnbroken name) :
    Spells endsToken ("<" ++ quoteName name ++ ">").toList
      [.mark "<", .named (escaped name), .mark ">"] := by
  have opening : Spells endsMark ['<'] [.mark "<"] := spells_mark (by decide)
  have closing : Spells endsMark ['>'] [.mark ">"] := spells_mark (by decide)
  have closed := (quoteName_spells unbroken).append_cons closing (by decide)
  obtain ⟨c, tail, isText, ends⟩ := quoteName_cons name
  rw [isText] at closed
  rw [String.toList_append, String.toList_append, isText, List.append_assoc]
  exact (opening.append_cons closed ends).mono fun _ ends => ends.2

theorem intercalate_nil_eq {α : Type} (parts : List (List α)) :
    ([] : List α).intercalate parts = parts.flatten := by
  cases parts with
  | nil => rfl
  | cons first others => simp [intercalate_eq_flatMap, List.flatMap_id']

/-- A declaration before its body spells what it says, its names as they stand between their
quotes. -/
theorem Title.spells {title : Title} (directed : title.IsDirected) (unbroken : title.IsUnbroken) :
    Spells endsToken title.text.toList title.escaped.tokens := by
  have each : ∀ part ∈ title.parts, Spells endsToken part.1.toList part.2 ∧
      ∃ c tail, part.1.toList = c :: tail ∧ anyNext c := by
    intro part listed
    simp only [parts, List.mem_append, List.mem_map] at listed
    rcases listed with ((⟨word, listed, rfl⟩ | listed) | listed) | ⟨clause, listed, rfl⟩
    · have isWord := (words_text directed word (by simpa [or_assoc] using listed)).1
      obtain ⟨c, tail, isText, _⟩ := isWordText_start isWord
      exact ⟨(spells_word (isWordText_start isWord)).mono fun _ ends => ends.1, c, tail, isText,
        trivial⟩
    · split at listed
      · cases listed
      · cases List.mem_singleton.mp listed
        exact ⟨bracketed_spells unbroken.shortName, by
          rw [String.toList_append, String.toList_append]; exact ⟨'<', _, rfl, trivial⟩⟩
    · cases List.mem_singleton.mp listed
      obtain ⟨c, tail, isText, _⟩ := quoteName_cons title.name
      exact ⟨(quoteName_spells unbroken.name).mono fun _ ends => ends.1, c, tail, isText, trivial⟩
    · exact ⟨clauseText_spells (unbroken.targets clause listed), clauseText_cons _ clause⟩
  have separates : Spells anyNext [' '] [] := spells_blank (by decide)
  have spelled := spells_intercalate (fun part : String × List Token => part.1.toList) (·.2)
    separates ⟨' ', [], rfl, by decide⟩ title.parts each
  rw [text, String.toList_intercalate, List.map_map, tokens_eq_parts]
  rw [intercalate_nil_eq, ← List.flatMap_def] at spelled
  exact spelled

end Sysml.Notation
