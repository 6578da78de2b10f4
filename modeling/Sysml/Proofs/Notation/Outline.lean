import Sysml.Document.SourceText
import Sysml.Proofs.Notation.Title

/-!
# Whole texts

Declarations with their documentation, their imports and their members, as lines of text.
Reading the text gives the declarations again, in order, each once, and no fault
(`parse_outline`).
-/

set_option autoImplicit false

namespace Sysml

/-- A symbol wherever its declaration stands. -/
def Symbol.unplaced (symbol : Symbol) : Symbol :=
  { symbol with
    span := {}
    references := symbol.references.map Reference.unplaced
    imports := symbol.imports.map Import.unplaced }

namespace Notation

/-! ## Imports and documentation -/

inductive Reach where
  /-- What the path names. -/
  | one
  /-- The members of what it names. -/
  | members
  /-- All that is below what it names. -/
  | below
  deriving DecidableEq, Repr, Inhabited

def Reach.text : Reach → String
  | .one => ""
  | .members => "::*"
  | .below => "::**"

def Reach.tokens : Reach → List Token
  | .one => []
  | .members => [.mark "::", .mark "*"]
  | .below => [.mark "::", .mark "**"]

structure ImportLine where
  isPublic : Bool
  path : String
  reach : Reach

namespace ImportLine

variable (line : ImportLine)

def text : String :=
  (if line.isPublic then "public import " else "import ") ++ quotePath line.path ++
    line.reach.text ++ ";"

def tokens : List Token :=
  (if line.isPublic then [.word "public"] else []) ++
    .word "import" :: (pathTokens line.path ++ (line.reach.tokens ++ [.mark ";"]))

/-- The import that the statement stands for. -/
def imported : Import :=
  { path := .text line.path
    isNamespace := line.reach == .members
    isRecursive := line.reach == .below
    visibility := if line.isPublic then "public" else "private" }

/-- An import with what stands for its path between quotes. -/
def escaped : ImportLine :=
  { line with path := Notation.escaped line.path }

end ImportLine

def commentText (body : String) : String :=
  "/* " ++ body ++ " */"

def docSaid (body : String) : String :=
  String.ofList (cleanComment (commentText body).toList)

/-- The text does not end the comment that it stands in. -/
def StaysOpen (body : String) : Prop :=
  ∀ rest : List Char,
    commentEnd? (' ' :: body.toList ++ ' ' :: '*' :: '/' :: rest) =
      some (' ' :: body.toList ++ [' ', '*', '/'], rest)

def docTokens (body : String) : List Token :=
  [.word "doc", .remark (commentText body)]

variable {c : Cursor} {rest : List Token}

/-- A comment ahead is read and passed over, and does not hide the token behind it. -/
theorem Cursor.Faces.remark {text : String} (faces : c.Faces (.remark text :: rest)) :
    ∃ comment, c.comment? = some comment ∧ comment.text = text ∧ c.passComment.Faces rest ∧
      ∀ p, c.sees p = c.passComment.sees p := by
  obtain ⟨found, isTokens, attached⟩ := faces.ahead
  obtain ⟨comment, others, rfl, isComment, isRest⟩ := List.map_eq_cons_iff.mp isTokens
  have kind : comment.kind = .comment := congrArg Token.kind isComment
  rw [attachComments, if_pos kind, List.nil_append, attachComments_pending] at attached
  refine ⟨comment, ?_, congrArg Token.text isComment, ⟨⟨others, isRest, ?_⟩, ?_⟩, ?_⟩
  all_goals
    rcases attachedRest : attachComments [] others with ⟨words, trailing⟩
    rw [attachedRest] at attached
    cases words with
    | nil =>
      obtain ⟨isAhead, isTrailing⟩ := Prod.mk.inj attached
      simp [Cursor.comment?, Cursor.passComment, Cursor.sees, ← isAhead, ← isTrailing, faces.clean]
    | cons word words =>
      obtain ⟨isAhead, isTrailing⟩ := Prod.mk.inj attached
      simp [Cursor.comment?, Cursor.passComment, Cursor.sees, ← isAhead, ← isTrailing, faces.clean]

/-- Documentation is read as what stands in its comment. -/
theorem read_doc {body : String} {token : Token}
    (faces : c.Faces (docTokens body ++ token :: rest)) (spoken : token.kind ≠ .comment)
    (noLocale : token.isKeyword "locale" = false) :
    ∃ after, Statement.read c = (.documented (docSaid body), after) ∧
      after.Faces (token :: rest) := by
  replace faces : c.Faces (.word "doc" :: .remark (commentText body) :: token :: rest) := faces
  have facesComment := faces.advance (by simp)
  obtain ⟨comment, ahead, isText, facesRest, through⟩ := facesComment.remark
  have led (lead : Lead) : leadFrom lead c = (lead, c) :=
    leadFrom_stops faces (by simp) (by rfl) fun _ => by decide
  have isWord : c.sees (·.kind == .word) = true := faces.sees (by simp) fun _ => rfl
  have apart : c.advance.sees (·.isKeyword "locale") = false := by
    rw [through, facesRest.sees_keyword spoken, noLocale]
  have statement : docStatement c =
      (.documented (docSaid body), c.advance.passComment) := by
    simp [docStatement, ahead, apart, isText, docSaid]
  refine ⟨c.advance.passComment, ?_, facesRest⟩
  rw [Statement.read, led]
  dsimp only
  rw [if_neg (by simp [faces.not_atEnd (by simp), faces.sees_symbol (by simp)]),
    if_neg (by simp [faces.sees_symbol (by simp)]), if_pos isWord]
  simp [keywordStatement?, faces.here_text (by simp), statement]

theorem importStars_faces (reach : Reach)
    (faces : c.Faces (reach.tokens ++ .mark ";" :: rest)) :
    ∃ after, importStars false false c = (reach == .members, reach == .below, after) ∧
      after.Faces (.mark ";" :: rest) := by
  have ends (isNamespace isRecursive : Bool) (c : Cursor) (faces : c.Faces (.mark ";" :: rest)) :
      importStars isNamespace isRecursive c = (isNamespace, isRecursive, c) := by
    rw [importStars, if_neg (by simp [faces.sees_symbol (by simp)])]
  cases reach with
  | one => exact ⟨c, ends false false c faces, faces⟩
  | members =>
    replace faces : c.Faces (.mark "::" :: .mark "*" :: .mark ";" :: rest) := faces
    have star : c.seesNext (·.isSymbol "*") = true :=
      faces.seesNext (by simp) (by simp) fun _ => rfl
    have facesEnd := (faces.advance (by simp)).advance (by simp)
    refine ⟨_, ?_, facesEnd⟩
    rw [importStars, if_pos (by simp [faces.sees_symbol (by simp)]), if_pos star,
      ends true false _ facesEnd]
    rfl
  | below =>
    replace faces : c.Faces (.mark "::" :: .mark "**" :: .mark ";" :: rest) := faces
    have star : c.seesNext (·.isSymbol "*") = false :=
      faces.seesNext (by simp) (by simp) fun _ => rfl
    have stars : c.seesNext (·.isSymbol "**") = true :=
      faces.seesNext (by simp) (by simp) fun _ => rfl
    have facesEnd := (faces.advance (by simp)).advance (by simp)
    refine ⟨_, ?_, facesEnd⟩
    rw [importStars, if_pos (by simp [faces.sees_symbol (by simp)]), if_neg (by simp [star]),
      if_pos stars, ends false true _ facesEnd]
    rfl

theorem importStatement_faces {line : ImportLine} {lead : Lead}
    (visible : lead.visibility.getD "private" = if line.isPublic then "public" else "private")
    (faces : c.Faces (.word "import" ::
      (pathTokens line.path ++ (line.reach.tokens ++ .mark ";" :: rest)))) :
    ∃ i after, importStatement lead c = (.imported i, after) ∧ i.unplaced = line.imported ∧
      after.Faces rest := by
  have ends : EndsPath (line.reach.tokens ++ .mark ";" :: rest) := by
    cases line.reach with
    | one => exact .other (by simp) (by decide)
    | members => exact .separator (by simp) (by simp) (by simp)
    | below => exact .separator (by simp) (by simp) (by simp)
  have facesPath := faces.advance (by simp)
  obtain ⟨after, path, facesReach⟩ := path?_faces false ends facesPath
  obtain ⟨stars, reached, facesEnd⟩ := importStars_faces line.reach facesReach
  have noAll : c.advance.sees (·.isKeyword "all") = false := by
    obtain ⟨first, more, isPath⟩ := pathTokens_cons line.path
    rw [isPath] at facesPath
    rw [facesPath.sees_keyword (by simp),
      Token.named_isKeyword first (show isReserved "all" = true by decide)]
  have noBracket : stars.sees (·.isSymbol "[") = false := by
    simp [facesEnd.sees_symbol (by simp)]
  have isEnd : stars.sees (·.isSymbol ";") = true := by
    simp [facesEnd.sees_symbol (by simp)]
  refine ⟨⟨.text line.path, line.reach == .members, line.reach == .below,
    lead.visibility.getD "private",
    ⟨c.advance.here.span.start, (stars.last.getD c.advance.here).span.stop⟩, none, none⟩,
    stars.advance, ?_, ?_, facesEnd.advance (by simp)⟩
  · simp [importStatement, noAll, path, reached, noBracket, isEnd]
  · rw [Import.unplaced, ImportLine.imported, visible]

/-- An import is read as it was written. -/
theorem read_import {line : ImportLine} (faces : c.Faces (line.tokens ++ rest)) :
    ∃ i after, Statement.read c = (.imported i, after) ∧ i.unplaced = line.imported ∧
      after.Faces rest := by
  -- From the keyword on it is the same, whether something stands before it or not.
  have fromKeyword (next : Cursor) (lead : Lead)
      (led : leadFrom {} c = leadFrom lead next)
      (visible : lead.visibility.getD "private" = if line.isPublic then "public" else "private")
      (faces : next.Faces (.word "import" ::
        (pathTokens line.path ++ (line.reach.tokens ++ .mark ";" :: rest)))) :
      ∃ i after, Statement.read c = (.imported i, after) ∧ i.unplaced = line.imported ∧
        after.Faces rest := by
    obtain ⟨i, after, statement, isImport, facesRest⟩ := importStatement_faces visible faces
    have stops : leadFrom lead next = (lead, next) :=
      leadFrom_stops faces (by simp) (by rfl) fun _ => by decide
    have isWord : next.sees (·.kind == .word) = true := faces.sees (by simp) fun _ => rfl
    refine ⟨i, after, ?_, isImport, facesRest⟩
    rw [Statement.read, led, stops]
    dsimp only
    rw [if_neg (by simp [faces.not_atEnd (by simp), faces.sees_symbol (by simp)]),
      if_neg (by simp [faces.sees_symbol (by simp)]), if_pos isWord]
    simp [keywordStatement?, faces.here_text (by simp), statement]
  cases isPublic : line.isPublic with
  | false =>
    refine fromKeyword c {} rfl (by simp [isPublic]) ?_
    simpa [ImportLine.tokens, isPublic] using faces
  | true =>
    replace faces : c.Faces (.word "public" :: .word "import" ::
        (pathTokens line.path ++ (line.reach.tokens ++ .mark ";" :: rest))) := by
      simpa [ImportLine.tokens, isPublic] using faces
    have led : leadFrom {} c = leadFrom { visibility := some "public" } c.advance := by
      rw [leadFrom_word faces, if_pos (by decide)]
    exact fromKeyword c.advance _ led (by simp [isPublic]) (faces.advance (by simp))

/-! ## Sequences of statements -/

theorem element_documented {text : String} {after : Cursor}
    (read : Statement.read c = (.documented text, after)) :
    element c = ([.documented text], after) := by
  rw [element]
  split <;> simp_all

theorem element_imported {i : Import} {after : Cursor}
    (read : Statement.read c = (.imported i, after)) : element c = ([.imported i], after) := by
  rw [element]
  split <;> simp_all

theorem element_declared {heading : Option Heading} {after : Cursor}
    (read : Statement.read c = (.declared heading, after)) :
    element c = (membersOf heading after.last [], after) := by
  rw [element]
  split <;> simp_all

theorem element_opened {heading : Option Heading} {opening : Span} {after : Cursor}
    (read : Statement.read c = (.opened heading opening, after)) :
    element c = (membersOf heading (block opening after).2.last (block opening after).1,
      (block opening after).2) := by
  rw [element]
  split <;> simp_all

/-- The statements from one place to another give these members. None of them is empty, and
none is a closing brace. -/
inductive Elements : Cursor → List Member → Cursor → Prop where
  | nil (c : Cursor) : Elements c [] c
  | cons {c next last : Cursor} {members others : List Member} (more : c.atEnd = false)
      (inside : c.sees (·.isSymbol "\x7d") = false) (read : element c = (members, next))
      (moved : next.length < c.length) (further : Elements next others last) :
      Elements c (members ++ others) last

namespace Elements

variable {middle last : Cursor} {members others : List Member}

theorem append (first : Elements c members middle) (second : Elements middle others last) :
    Elements c (members ++ others) last := by
  induction first with
  | nil => exact second
  | cons more inside read moved _ ih =>
    rw [List.append_assoc]
    exact .cons more inside read moved (ih second)

theorem block (opening : Span) (elements : Elements c members last) :
    Notation.block opening c =
      (members ++ (Notation.block opening last).1, (Notation.block opening last).2) := by
  induction elements with
  | nil => rfl
  | cons more inside read moved _ ih =>
    rw [Notation.block, if_neg (by simp [more]), if_neg (by simp [inside]), read]
    dsimp only
    rw [if_pos moved, ih, List.append_assoc]

theorem topLevel (elements : Elements c members last) :
    Notation.topLevel c =
      (members ++ (Notation.topLevel last).1, (Notation.topLevel last).2) := by
  induction elements with
  | nil => rfl
  | cons more inside read moved _ ih =>
    rw [Notation.topLevel, if_neg (by simp [more]), if_neg (by simp [inside]), read]
    dsimp only
    rw [if_pos moved, ih, List.append_assoc]

end Elements

theorem Cursor.Faces.length_lt {tokens : List Token} {after : Cursor}
    (faces : c.Faces (tokens ++ rest)) (facesRest : after.Faces rest)
    (spoken : ∃ token ∈ tokens, token.kind ≠ .comment) : after.length < c.length := by
  obtain ⟨token, member, isSpoken⟩ := spoken
  have some_ : 0 < (tokens.filter fun token => token.kind != .comment).length :=
    List.length_pos_of_mem (List.mem_filter.mpr ⟨member, by simpa using isSpoken⟩)
  rw [faces.length, facesRest.length, List.filter_append, List.length_append]
  omega

/-- A statement at a token that goes on is one more of a sequence. -/
theorem Elements.step {tokens more : List Token} {token : Token} {after last : Cursor}
    {members others : List Member} (faces : c.Faces (tokens ++ rest)) (some_ : tokens ≠ [])
    (are : tokens ++ rest = token :: more) (goesOn : token.GoesOn)
    (read : element c = (members, after)) (facesRest : after.Faces rest)
    (further : Elements after others last) : Elements c (members ++ others) last := by
  have inside : token ∈ tokens := by
    obtain ⟨first, tail, rfl⟩ := List.exists_cons_of_ne_nil some_
    cases are
    exact List.mem_cons_self
  have facesToken : c.Faces (token :: more) := are ▸ faces
  refine .cons (facesToken.not_atEnd goesOn.spoken) ?_ read
    (faces.length_lt facesRest ⟨token, inside, goesOn.spoken⟩) further
  rw [facesToken.sees_symbol goesOn.spoken, goesOn.noClose]

/-! ## Outlines -/

structure Entry where
  title : Title
  doc : Option String
  imports : List ImportLine

/-- Declarations in order, each with its members. -/
inductive Outline where
  | nil
  /-- A declaration, its members, and the declarations after it. -/
  | node (entry : Entry) (below after : Outline)

/-- An entry that can be read as what it says. -/
structure Entry.Sound (entry : Entry) : Prop where
  title : entry.title.Sound
  plain : entry.title.Plain
  doc : ∀ body ∈ entry.doc, StaysOpen body
  imports : ∀ line ∈ entry.imports, IsPlain line.path

/-- An entry with what stands for its names between their quotes. -/
def Entry.escaped (entry : Entry) : Entry :=
  { entry with
    title := entry.title.escaped
    imports := entry.imports.map ImportLine.escaped }

/-- An entry that is written as its tokens: no name in it has a line feed, and its
documentation does not end its comment. -/
structure Entry.IsUnbroken (entry : Entry) : Prop where
  directed : entry.title.IsDirected
  title : entry.title.IsUnbroken
  doc : ∀ body ∈ entry.doc, StaysOpen body
  imports : ∀ line ∈ entry.imports, Notation.IsUnbroken line.path

theorem Entry.Sound.isUnbroken {entry : Entry} (sound : entry.Sound) : entry.IsUnbroken :=
  ⟨sound.title.direction, sound.plain.isUnbroken, sound.doc, fun line listed =>
    (sound.imports line listed).isUnbroken⟩

theorem Entry.Sound.escaped_eq_self {entry : Entry} (sound : entry.Sound) :
    entry.escaped = entry := by
  have imports : entry.imports.map ImportLine.escaped = entry.imports :=
    (List.map_congr_left fun line listed => by
      rw [ImportLine.escaped, Notation.escaped_eq_self (sound.imports line listed), id]).trans
      (List.map_id _)
  rw [Entry.escaped, sound.plain.escaped_eq_self, imports]

/-- The tokens of what stands in a body before the members. -/
def Entry.inner (entry : Entry) : List Token :=
  (entry.doc.elim [] docTokens) ++ entry.imports.flatMap ImportLine.tokens

def Entry.symbol (file : String) (isLibrary : Bool) (owner : Option String) (entry : Entry) :
    Symbol :=
  { name := .text entry.title.name
    qualifiedName := .text (owner.elim entry.title.name fun owner =>
      QualifiedName.join owner entry.title.name)
    kind := entry.title.kind, file, owner := owner.map .text
    shortName := .text entry.title.shortName
    doc := (entry.doc.map docSaid).elim .null .text
    isAbstract := entry.title.isAbstract, direction := entry.title.direction
    references := entry.title.clauses.flatMap clauseReferences
    imports := entry.imports.map ImportLine.imported, isLibrary }

namespace Outline

def Sound : Outline → Prop
  | nil => True
  | node entry below after => entry.Sound ∧ below.Sound ∧ after.Sound

def isBare (entry : Entry) (below : Outline) : Bool :=
  match below with
  | nil => entry.doc.isNone && entry.imports.isEmpty
  | node .. => false

def tokens : Outline → List Token
  | nil => []
  | node entry below after =>
      entry.title.tokens ++
        (if isBare entry below then [.mark ";"]
        else .mark "\x7b" :: (entry.inner ++ (below.tokens ++ [.mark "\x7d"]))) ++
        after.tokens

/-- The symbols of the declarations: each before its members, and those before what follows. -/
def symbols (file : String) (isLibrary : Bool) (owner : Option String) : Outline → List Symbol
  | nil => []
  | node entry below after =>
      entry.symbol file isLibrary owner ::
        (below.symbols file isLibrary (some (owner.elim entry.title.name fun owner =>
          QualifiedName.join owner entry.title.name)) ++
        after.symbols file isLibrary owner)

end Outline

/-! ## Reading an outline -/

/-- The tokens begin with one that does not go on with documentation before it. -/
def EndsDoc (tokens : List Token) : Prop :=
  ∃ token rest, tokens = token :: rest ∧ token.kind ≠ .comment ∧ token.isKeyword "locale" = false

theorem ImportLine.tokens_ne_nil (line : ImportLine) : line.tokens ≠ [] := by
  rw [tokens]
  simp

theorem ImportLine.begins (line : ImportLine) (rest : List Token) :
    ∃ token more, line.tokens ++ rest = token :: more ∧ token.GoesOn ∧
      token.isKeyword "locale" = false := by
  rw [tokens]
  cases line.isPublic with
  | true =>
    exact ⟨.word "public", _, rfl, ⟨by decide, by decide, by decide, by decide⟩, by decide⟩
  | false =>
    exact ⟨.word "import", _, rfl, ⟨by decide, by decide, by decide, by decide⟩, by decide⟩

theorem imports_endDoc {lines : List ImportLine} (ends : EndsDoc rest) :
    EndsDoc (lines.flatMap ImportLine.tokens ++ rest) := by
  cases lines with
  | nil => exact ends
  | cons line lines =>
    obtain ⟨token, more, are, goesOn, noLocale⟩ :=
      line.begins (lines.flatMap ImportLine.tokens ++ rest)
    refine ⟨token, more, ?_, goesOn.spoken, noLocale⟩
    rw [List.flatMap_cons, List.append_assoc, are]

theorem Outline.endsDoc {outline : Outline} (sound : outline.Sound) (ends : EndsDoc rest) :
    EndsDoc (outline.tokens ++ rest) := by
  cases outline with
  | nil => exact ends
  | node entry below after =>
    rw [tokens, List.append_assoc, List.append_assoc]
    obtain ⟨token, more, are, goesOn, noLocale⟩ := title_begins sound.1.title.direction _
    exact ⟨token, more, are, goesOn.spoken, noLocale⟩

/-- Imports are read one after the other. -/
theorem imports_elements (lines : List ImportLine)
    (faces : c.Faces (lines.flatMap ImportLine.tokens ++ rest)) :
    ∃ (imports : List Import) (last : Cursor), Elements c (imports.map .imported) last ∧ last.Faces rest ∧
      imports.map Import.unplaced = lines.map ImportLine.imported := by
  induction lines generalizing c with
  | nil => exact ⟨[], c, .nil c, faces, rfl⟩
  | cons line lines ih =>
    rw [List.flatMap_cons, List.append_assoc] at faces
    obtain ⟨i, after, read, isImport, facesRest⟩ := read_import faces
    obtain ⟨imports, last, further, facesLast, are⟩ := ih facesRest
    obtain ⟨token, more, begins, goesOn, _⟩ := line.begins _
    exact ⟨i :: imports, last,
      .step faces line.tokens_ne_nil begins goesOn (element_imported read) facesRest further,
      facesLast,
      by rw [List.map_cons, List.map_cons, isImport, are]⟩

/-- Documentation and imports are read before the members. -/
theorem inner_elements {entry : Entry} (ends : EndsDoc rest)
    (faces : c.Faces (entry.inner ++ rest)) :
    ∃ (imports : List Import) (last : Cursor),
      Elements c ((entry.doc.map docSaid).toList.map .documented ++ imports.map .imported) last ∧
        last.Faces rest ∧ imports.map Import.unplaced = entry.imports.map ImportLine.imported := by
  cases isDoc : entry.doc with
  | none =>
    replace faces : c.Faces (entry.imports.flatMap ImportLine.tokens ++ rest) := by
      simpa [Entry.inner, isDoc] using faces
    exact imports_elements entry.imports faces
  | some body =>
    replace faces : c.Faces
        (docTokens body ++ (entry.imports.flatMap ImportLine.tokens ++ rest)) := by
      simpa [Entry.inner, isDoc] using faces
    obtain ⟨token, more, are, spoken, noLocale⟩ := @imports_endDoc rest entry.imports ends
    obtain ⟨after, read, facesRest⟩ := read_doc (are ▸ faces) spoken noLocale
    rw [← are] at facesRest
    obtain ⟨imports, last, further, facesLast, areImports⟩ :=
      imports_elements entry.imports facesRest
    exact ⟨imports, last, .step faces (List.cons_ne_nil _ _) rfl
      ⟨by decide, by decide, by decide, by decide⟩ (element_documented read) facesRest further,
      facesLast, areImports⟩

def Member.IsDeclared : Member → Prop
  | .declared .. => True
  | .imported _ | .documented _ => False

theorem importsOf_declared {members : List Member}
    (declared : ∀ member ∈ members, member.IsDeclared) : importsOf members = [] := by
  refine List.filterMap_eq_nil_iff.mpr fun member listed => ?_
  cases member with
  | declared => rfl
  | imported => cases declared _ listed
  | documented => cases declared _ listed

theorem importsOf_append (members others : List Member) :
    importsOf (members ++ others) = importsOf members ++ importsOf others :=
  List.filterMap_append

/-- What stands in a body: documentation, imports, and members. -/
def bodyMembers (doc : Option String) (imports : List Import) (members : List Member) :
    List Member :=
  doc.toList.map .documented ++ imports.map .imported ++ members

theorem importsOf_body (doc : Option String) (imports : List Import) {members : List Member}
    (declared : ∀ member ∈ members, member.IsDeclared) :
    importsOf (bodyMembers doc imports members) = imports := by
  have among : importsOf (imports.map .imported) = imports := by
    rw [importsOf, List.filterMap_map]
    exact List.filterMap_some
  have apart : importsOf (doc.toList.map .documented) = [] := by
    cases doc <;> rfl
  rw [bodyMembers, importsOf_append, importsOf_append, apart, among, importsOf_declared declared,
    List.nil_append, List.append_nil]

theorem docOf_append {members others : List Member}
    (silent : ∀ member ∈ others, ∀ text, member ≠ .documented text) :
    docOf (members ++ others) = docOf members := by
  rw [docOf, docOf, List.filterMap_append, List.foldl_append]
  refine congrArg (List.foldl joinDoc _) (List.filterMap_eq_nil_iff.mpr fun member listed => ?_)
  cases member with
  | declared => rfl
  | imported => rfl
  | documented text => exact absurd rfl (silent _ listed text)

theorem docOf_body (doc : Option String) (imports : List Import) {members : List Member}
    (declared : ∀ member ∈ members, member.IsDeclared) :
    docOf (bodyMembers doc imports members) = doc := by
  rw [bodyMembers, docOf_append, docOf_append]
  · cases doc <;> rfl
  · rintro member listed text rfl
    obtain ⟨i, _, same⟩ := List.mem_map.mp listed
    cases same
  · rintro member listed text rfl
    cases declared _ listed

theorem symbolsOf_body (file : String) (isLibrary : Bool) (owner : Option String)
    (doc : Option String) (imports : List Import) (members : List Member) :
    symbolsOf file isLibrary owner (bodyMembers doc imports members) =
      symbolsOf file isLibrary owner members := by
  have skip (before : List Member) (silent : ∀ member ∈ before,
      member.symbols file isLibrary owner = []) (members : List Member) :
      symbolsOf file isLibrary owner (before ++ members) =
        symbolsOf file isLibrary owner members := by
    induction before with
    | nil => rfl
    | cons member before ih =>
      rw [List.cons_append, symbolsOf, silent member List.mem_cons_self,
        ih fun other listed => silent other (List.mem_cons_of_mem _ listed), List.nil_append]
  rw [bodyMembers, skip]
  intro member listed
  rcases List.mem_append.mp listed with documented | imported
  · obtain ⟨text, _, rfl⟩ := List.mem_map.mp documented
    rw [Member.symbols]
  · obtain ⟨i, _, rfl⟩ := List.mem_map.mp imported
    rw [Member.symbols]

theorem symbolsOf_append (file : String) (isLibrary : Bool) (owner : Option String)
    (members others : List Member) :
    symbolsOf file isLibrary owner (members ++ others) =
      symbolsOf file isLibrary owner members ++ symbolsOf file isLibrary owner others := by
  induction members with
  | nil => rfl
  | cons member members ih =>
    rw [List.cons_append, symbolsOf, symbolsOf, ih, List.append_assoc]

structure Declares (members : List Member)
    (symbols : String → Bool → Option String → List Symbol) : Prop where
  declared : ∀ member ∈ members, member.IsDeclared
  symbols (file : String) (isLibrary : Bool) (owner : Option String) :
    (symbolsOf file isLibrary owner members).map Symbol.unplaced = symbols file isLibrary owner

/-- A declaration has the symbol of its entry, before those of its members. -/
theorem declares_node {entry : Entry} {heading : Heading} (stop : Position)
    {imports : List Import} {members : List Member}
    {below : String → Bool → Option String → List Symbol}
    (said : heading.unplaced = entry.title.heading)
    (areImports : imports.map Import.unplaced = entry.imports.map ImportLine.imported)
    (inside : Declares members below) :
    Declares [.declared heading stop (bodyMembers (entry.doc.map docSaid) imports members)]
      fun file isLibrary owner =>
        entry.symbol file isLibrary owner ::
          below file isLibrary (some (owner.elim entry.title.name fun owner =>
            QualifiedName.join owner entry.title.name)) := by
  refine ⟨fun member listed => by cases List.mem_singleton.mp listed; trivial, ?_⟩
  intro file isLibrary owner
  obtain ⟨name, kind, shortName, isAbstract, direction, references, anchor⟩ := heading
  obtain ⟨rfl, rfl, rfl, rfl, rfl, areReferences, _⟩ := Heading.mk.inj said
  rw [symbolsOf, symbolsOf, List.append_nil]
  cases owner <;>
    simp only [Member.symbols, docOf_body _ _ inside.declared, importsOf_body _ _ inside.declared,
      symbolsOf_body, List.map_cons, inside.symbols, Symbol.unplaced, areReferences, areImports,
      Entry.symbol, Option.elim_none, Option.elim_some]

theorem declares_nil : Declares [] fun _ _ _ => [] :=
  ⟨fun _ listed => (by cases listed), fun _ _ _ => rfl⟩

theorem Declares.append {members others : List Member}
    {symbols further : String → Bool → Option String → List Symbol}
    (first : Declares members symbols) (second : Declares others further) :
    Declares (members ++ others) fun file isLibrary owner =>
      symbols file isLibrary owner ++ further file isLibrary owner := by
  refine ⟨fun member listed => ?_, fun file isLibrary owner => ?_⟩
  · rcases List.mem_append.mp listed with inFirst | inSecond
    · exact first.declared member inFirst
    · exact second.declared member inSecond
  · rw [symbolsOf_append, List.map_append, first.symbols, second.symbols]

theorem isBare_iff {entry : Entry} {below : Outline} (bare : Outline.isBare entry below = true) :
    below = .nil ∧ entry.doc = none ∧ entry.imports = [] := by
  cases below with
  | nil => simpa [Outline.isBare] using bare
  | node => cases bare

/-- A declaration without a body is read as its entry. -/
theorem element_bare {entry : Entry} (sound : entry.title.Sound)
    (bare : Outline.isBare entry .nil = true)
    (faces : c.Faces (entry.title.tokens ++ .mark ";" :: rest)) :
    ∃ members next, element c = (members, next) ∧ next.Faces rest ∧
      Declares members fun file isLibrary owner => [entry.symbol file isLibrary owner] := by
  obtain ⟨_, noDoc, noImports⟩ := isBare_iff bare
  obtain ⟨heading, opening, next, read, said, facesRest⟩ := read_title sound .closed faces
  have areImports : ([] : List Import).map Import.unplaced =
      entry.imports.map ImportLine.imported := by rw [noImports]; rfl
  have declares := declares_node ((next.last.map (·.span.stop)).getD heading.anchor.stop) said
    areImports declares_nil
  rw [noDoc] at declares
  exact ⟨_, next, element_declared read, facesRest, declares⟩

theorem endsDoc_close (rest : List Token) : EndsDoc (.mark "\x7d" :: rest) :=
  ⟨_, _, rfl, by simp, rfl⟩

/-- A declaration with a body is read as its entry, with the members in it. -/
theorem element_body {entry : Entry} (sound : entry.title.Sound) {below : List Token}
    {symbols : String → Bool → Option String → List Symbol}
    (ends : EndsDoc (below ++ .mark "\x7d" :: rest))
    (inside : ∀ c : Cursor, c.Faces (below ++ .mark "\x7d" :: rest) →
      ∃ members last, Elements c members last ∧ last.Faces (.mark "\x7d" :: rest) ∧
        Declares members symbols)
    (faces : c.Faces (entry.title.tokens ++ .mark "\x7b" :: (entry.inner ++ (below ++
      .mark "\x7d" :: rest)))) :
    ∃ members next, element c = (members, next) ∧ next.Faces rest ∧
      Declares members fun file isLibrary owner =>
        entry.symbol file isLibrary owner ::
          symbols file isLibrary (some (owner.elim entry.title.name fun owner =>
            QualifiedName.join owner entry.title.name)) := by
  obtain ⟨heading, opening, after, read, said, facesBody⟩ := read_title sound .opens faces
  obtain ⟨imports, middle, first, facesBelow, areImports⟩ := inner_elements ends facesBody
  obtain ⟨members, last, second, facesClose, declares⟩ := inside middle facesBelow
  have whole := (first.append second).block opening
  have ended : block opening last = ([], last.advance) := by
    rw [block, if_neg (by simp [facesClose.not_atEnd (by simp)]),
      if_pos (by simp [facesClose.sees_symbol (by simp)])]
  rw [ended, List.append_nil] at whole
  refine ⟨_, last.advance, ?_, facesClose.advance (by simp),
    declares_node ((last.advance.last.map (·.span.stop)).getD heading.anchor.stop) said areImports
      declares⟩
  rw [element_opened read, whole]
  rfl

/-- An outline is read as what it says. -/
theorem Outline.elements {outline : Outline} (sound : outline.Sound)
    (faces : c.Faces (outline.tokens ++ rest)) :
    ∃ members last, Elements c members last ∧ last.Faces rest ∧
      Declares members fun file isLibrary owner => outline.symbols file isLibrary owner := by
  induction outline generalizing c rest with
  | nil =>
    exact ⟨[], c, .nil c, faces, declares_nil⟩
  | node entry below after ihBelow ihAfter =>
    obtain ⟨soundEntry, soundBelow, soundAfter⟩ := sound
    have read : ∃ members next, element c = (members, next) ∧
        next.Faces (after.tokens ++ rest) ∧
        Declares members fun file isLibrary owner =>
          entry.symbol file isLibrary owner ::
            below.symbols file isLibrary (some (owner.elim entry.title.name fun owner =>
              QualifiedName.join owner entry.title.name)) := by
      rw [tokens] at faces
      cases bare : isBare entry below with
      | true =>
        obtain ⟨rfl, _⟩ := isBare_iff bare
        exact element_bare soundEntry.title bare (by simpa [bare] using faces)
      | false =>
        exact element_body soundEntry.title (Outline.endsDoc soundBelow (endsDoc_close _))
          (fun c => ihBelow soundBelow) (by simpa [bare] using faces)
    obtain ⟨members, next, first, facesRest, declares⟩ := read
    obtain ⟨others, last, further, facesLast, declaresOthers⟩ := ihAfter soundAfter facesRest
    obtain ⟨token, more, are, goesOn, _⟩ := title_begins soundEntry.title.direction
      ((if isBare entry below then [Token.mark ";"]
        else .mark "\x7b" :: (entry.inner ++ (below.tokens ++ [.mark "\x7d"]))) ++
        (after.tokens ++ rest))
    rw [tokens, List.append_assoc] at faces
    rw [← List.append_assoc] at are
    exact ⟨members ++ others, last, .step faces (by split <;> simp) are goesOn first facesRest further,
      facesLast, declares.append declaresOthers⟩

end Notation

end Sysml
