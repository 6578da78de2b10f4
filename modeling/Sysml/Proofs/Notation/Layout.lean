import Sysml.Proofs.Notation.Outline

/-!
# Texts of declarations

An outline as lines of text, each declaration on a line of its own and its members indented
between braces. The scan cuts the text into the tokens of the outline, so reading it gives the
symbols of the outline, in order, each once, and no fault (`parse_outline`).

Tokens that make up whole declarations are read up to their end wherever they stand, and where
the statement around them is skipped they are passed over up to their end as well. A declaration
has one symbol beside those of its members; a usage that nothing tells from a mere name has none,
and its members have none either (`Block.declaration`).
-/

set_option autoImplicit false

namespace Sysml.Notation

open Document (indentation)

/-- A line of text before its end: blanks and what stands behind them. -/
def indented (depth : Nat) (content : String) : String :=
  indentation depth ++ content

def docLine (body : String) : String :=
  "doc " ++ commentText body

/-- What stands in a body before the members, as lines of text. -/
def Entry.innerLines (entry : Entry) : List String :=
  entry.doc.toList.map docLine ++ entry.imports.map ImportLine.text

/-- A declaration as lines of text, with those of its members if it has a body. -/
def Entry.lines (entry : Entry) (bare : Bool) (depth : Nat) (members : List String) :
    List String :=
  if bare then [indented depth (entry.title.text ++ ";")]
  else [indented depth (entry.title.text ++ " \x7b")] ++
    entry.innerLines.map (indented (depth + 1)) ++ members ++ [indented depth "\x7d"]

namespace Outline

def lines (depth : Nat) : Outline → List String
  | nil => []
  | node entry below after =>
      (if isBare entry below then [indented depth (entry.title.text ++ ";")]
      else [indented depth (entry.title.text ++ " \x7b")] ++
        entry.innerLines.map (indented (depth + 1)) ++ below.lines (depth + 1) ++
          [indented depth "\x7d"]) ++
        after.lines depth

def text (outline : Outline) : String :=
  String.join ((outline.lines 0).map (· ++ "\n"))

end Outline

theorem Outline.lines_node (entry : Entry) (below after : Outline) (depth : Nat) :
    (node entry below after).lines depth =
      entry.lines (isBare entry below) depth (below.lines (depth + 1)) ++ after.lines depth := rfl

/-! ## Lines spell their tokens -/

def lineChars (lines : List String) : List Char :=
  lines.flatMap fun line => line.toList ++ ['\n']

theorem lineChars_append (lines more : List String) :
    lineChars (lines ++ more) = lineChars lines ++ lineChars more :=
  List.flatMap_append

/-- A line spells what its content spells, if a line may end there. -/
theorem indented_spells {next : Char → Prop} {content : String} {tokens : List Token} (depth : Nat)
    (spells : Spells next content.toList tokens) (ends : next '\n') :
    Spells anyNext (lineChars [indented depth content]) tokens := by
  have blanks : Spells anyNext (indentation depth).toList [] := by
    refine spells_blanks fun c member => ?_
    rw [indentation, String.toList_ofList] at member
    cases List.eq_of_mem_replicate member
    decide
  have ended : Spells anyNext (content.toList ++ ['\n']) (tokens ++ []) :=
    spells.append_cons (spells_blank (by decide)) ends
  rw [List.append_nil] at ended
  have whole := blanks.append_any ended
  rw [List.nil_append] at whole
  simpa [lineChars, indented] using whole

theorem lineChars_spells {α : Type} {text : α → String} {tokens : α → List Token} {items : List α}
    (each : ∀ item ∈ items, Spells anyNext (lineChars [text item]) (tokens item)) :
    Spells anyNext (lineChars (items.map text)) (items.flatMap tokens) := by
  induction items with
  | nil => exact .nil
  | cons item rest ih =>
    obtain ⟨first, others⟩ := List.forall_mem_cons.mp each
    have whole := first.append_any (ih others)
    rwa [← lineChars_append] at whole

/-- A word with a blank behind it spells itself before what follows. -/
theorem word_spells {word : String} (isWord : isWordText word = true) {later : Char → Prop}
    {more : List Char} {tokens : List Token} (further : Spells later more tokens) :
    Spells later (word.toList ++ ' ' :: more) (.word word :: tokens) := by
  have spaced : Spells later (' ' :: more) tokens :=
    (spells_blank (by decide) : Spells anyNext [' '] []).append_any further
  exact (spells_word (isWordText_start isWord)).append_cons spaced (by decide)

/-- Documentation spells the word for it and the comment. -/
theorem docLine_spells {body : String} (staysOpen : StaysOpen body) :
    Spells anyNext (docLine body).toList (docTokens body) := by
  have isComment : (commentText body).toList =
      '/' :: '*' :: ((' ' :: body.toList ++ [' ']) ++ ['*', '/']) := by
    simp [commentText, String.toList_append]
  have comment : Spells anyNext (commentText body).toList [.remark (commentText body)] := by
    have spelled : Spells anyNext ('/' :: '*' :: ((' ' :: body.toList ++ [' ']) ++ ['*', '/'])) _ :=
      spells_comment fun rest => by simpa using staysOpen rest
    rwa [← isComment, String.ofList_toList] at spelled
  have isLine : (docLine body).toList = "doc".toList ++ ' ' :: (commentText body).toList := by
    simp [docLine, String.toList_append]
  rw [isLine]
  exact word_spells (by decide) comment

theorem reach_spells (reach : Reach) :
    ∃ c tail, (reach.text ++ ";").toList = c :: tail ∧ endsWord c ∧
      Spells endsMark (c :: tail) (reach.tokens ++ [.mark ";"]) := by
  have ending : Spells endsMark [';'] [.mark ";"] := spells_mark (by decide)
  have colons : Spells endsMark [':', ':'] [.mark "::"] := spells_mark (by decide)
  cases reach with
  | one => exact ⟨';', [], rfl, by decide, ending⟩
  | members =>
    refine ⟨':', [':', '*', ';'], rfl, by decide, ?_⟩
    exact colons.append_cons (spells_star.append_cons ending (by decide)) (by decide)
  | below =>
    refine ⟨':', [':', '*', '*', ';'], rfl, by decide, ?_⟩
    have stars : Spells endsMark ['*', '*'] [.mark "**"] := spells_mark (by decide)
    exact colons.append_cons (stars.append_cons ending (by decide)) (by decide)

/-- An import statement spells its tokens, its path as it stands between quotes. -/
theorem ImportLine.spells {line : ImportLine} (unbroken : IsUnbroken line.path) :
    Spells endsMark line.text.toList line.escaped.tokens := by
  obtain ⟨c, tail, isReach, ends, reached⟩ := reach_spells line.reach
  have path := (quotePath_spells unbroken).append_cons reached ends
  have fromKeyword := word_spells (show isWordText "import" = true by decide) path
  have isText : (quotePath line.path ++ line.reach.text ++ ";").toList =
      (quotePath line.path).toList ++ c :: tail := by
    rw [String.append_assoc, String.toList_append, isReach]
  cases isPublic : line.isPublic with
  | false =>
    have isLine : line.text.toList =
        "import".toList ++ ' ' :: ((quotePath line.path).toList ++ c :: tail) := by
      rw [text, isPublic, ← isText]
      simp [String.toList_append]
    rw [isLine, escaped, tokens, isPublic]
    exact fromKeyword
  | true =>
    have isLine : line.text.toList = "public".toList ++ ' ' ::
        ("import".toList ++ ' ' :: ((quotePath line.path).toList ++ c :: tail)) := by
      rw [text, isPublic, ← isText]
      simp [String.toList_append]
    rw [isLine, escaped, tokens, isPublic]
    exact word_spells (by decide) fromKeyword

/-- A title with a symbol behind it, which ends the statement or opens a body. -/
theorem title_spells {title : Title} (directed : title.IsDirected) (unbroken : title.IsUnbroken)
    (depth : Nat) (ending : HeaderEnd) :
    Spells anyNext (lineChars [indented depth (title.text ++
        match ending with | .closed => ";" | .opens => " \x7b")])
      (title.escaped.tokens ++ [ending.token]) := by
  have spelled := Title.spells directed unbroken
  have content : Spells endsMark (title.text ++ match ending with
      | .closed => ";" | .opens => " \x7b").toList (title.escaped.tokens ++ [ending.token]) := by
    rw [String.toList_append]
    cases ending with
    | closed =>
      exact spelled.append_cons (spells_mark (by decide) : Spells endsMark [';'] [.mark ";"])
        (by decide)
    | opens =>
      have opened : Spells endsMark [' ', '\x7b'] [.mark "\x7b"] :=
        (spells_blank (by decide) : Spells anyNext [' '] []).append_any (spells_mark (by decide))
      exact spelled.append_cons opened (by decide)
  exact indented_spells depth content (by decide)

theorem innerLines_spells {entry : Entry} (unbroken : entry.IsUnbroken) (depth : Nat) :
    Spells anyNext (lineChars (entry.innerLines.map (indented depth))) entry.escaped.inner := by
  have imports : Spells anyNext
      (lineChars ((entry.imports.map ImportLine.text).map (indented depth)))
      ((entry.imports.map ImportLine.escaped).flatMap ImportLine.tokens) := by
    rw [List.map_map, List.flatMap_map]
    exact lineChars_spells fun line listed =>
      indented_spells depth (ImportLine.spells (unbroken.imports line listed)) (by decide)
  rw [Entry.innerLines, Entry.inner, Entry.escaped, List.map_append, lineChars_append]
  cases isDoc : entry.doc with
  | none => exact imports
  | some body =>
    have doc : Spells anyNext (lineChars [indented depth (docLine body)]) (docTokens body) :=
      indented_spells depth (docLine_spells (unbroken.doc body isDoc)) trivial
    exact doc.append_any imports

/-- The tokens of a declaration behind its names and references: its end, or its body. -/
def Entry.tail (entry : Entry) (bare : Bool) (members : List Token) : List Token :=
  if bare then [.mark ";"]
  else .mark "\x7b" :: (entry.inner ++ (members ++ [.mark "\x7d"]))

/-- The lines of a declaration spell its tokens if those of its members do. -/
theorem Entry.spells {entry : Entry} (unbroken : entry.IsUnbroken) (bare : Bool) (depth : Nat)
    {members : List String} {tokens : List Token}
    (spells : Spells anyNext (lineChars members) tokens) :
    Spells anyNext (lineChars (entry.lines bare depth members))
      (entry.escaped.title.tokens ++ entry.escaped.tail bare tokens) := by
  have title := title_spells unbroken.directed unbroken.title depth
  rw [lines, tail]
  cases bare with
  | true => exact title .closed
  | false =>
    have closed : Spells anyNext (lineChars [indented depth "\x7d"]) [.mark "\x7d"] :=
      indented_spells depth (spells_mark (by decide) : Spells endsMark ['\x7d'] _) (by decide)
    have body := (title .opens).append_any ((innerLines_spells unbroken (depth + 1)).append_any
      (spells.append_any closed))
    simpa [← lineChars_append, HeaderEnd.token, Entry.escaped] using body

/-- The lines of an outline spell its tokens. -/
theorem Outline.spells {outline : Outline} (sound : outline.Sound) (depth : Nat) :
    Spells anyNext (lineChars (outline.lines depth)) outline.tokens := by
  induction outline generalizing depth with
  | nil => exact .nil
  | node entry below after ihBelow ihAfter =>
    obtain ⟨soundEntry, soundBelow, soundAfter⟩ := sound
    have first := Entry.spells soundEntry.isUnbroken (isBare entry below) depth
      (ihBelow soundBelow (depth + 1))
    rw [soundEntry.escaped_eq_self] at first
    rw [lines_node, lineChars_append]
    exact first.append_any (ihAfter soundAfter depth)

/-! ## Whole texts -/

/-- A text whose tokens are declarations up to the end is read as these, without a fault. -/
theorem parse_declares {text : String} {tokens : List Token}
    {symbols : String → Bool → Option String → List Symbol}
    (spells : Spells anyNext text.toList tokens)
    (read : ∀ c : Cursor, c.Faces (tokens ++ []) →
      ∃ members last, Elements c members last ∧ last.Faces [] ∧ Declares members symbols)
    (file : String) (isLibrary : Bool) :
    (parse file text isLibrary).diagnostics = [] ∧
      (parse file text isLibrary).imports = [] ∧
      (parse file text isLibrary).symbols.map Symbol.unplaced = symbols file isLibrary none := by
  have faces : (scan text).cursor.Faces (tokens ++ []) := by
    rw [List.append_nil]
    exact scan_faces spells
  obtain ⟨members, last, elements, facesEnd, declares⟩ := read _ faces
  have ended : topLevel last = ([], last) := by
    rw [topLevel, if_pos facesEnd.atEnd_nil]
  have whole := elements.topLevel
  rw [ended, List.append_nil] at whole
  simp only [parse, whole, facesEnd.clean, List.reverse_nil, List.map_nil,
    importsOf_declared declares.declared, declares.symbols, and_self]

/-- Reading the text of an outline gives its symbols, each once and in order, and no fault. -/
theorem parse_outline {outline : Outline} (sound : outline.Sound) (file : String)
    (isLibrary : Bool) :
    (parse file outline.text isLibrary).diagnostics = [] ∧
      (parse file outline.text isLibrary).imports = [] ∧
      (parse file outline.text isLibrary).symbols.map Symbol.unplaced =
        outline.symbols file isLibrary none := by
  have spelled : Spells anyNext outline.text.toList outline.tokens := by
    have lines := Outline.spells sound 0
    rw [Outline.text, String.toList_join, List.flatMap_map]
    simpa [lineChars] using lines
  exact parse_declares spelled (fun _ => Outline.elements sound) file isLibrary

variable {c : Cursor} {first : Span} {rest : List Token}

/-! ## Bodies passed over -/

/-- A token of a declaration outside of its body: no brace, and nothing that ends it. -/
structure Token.IsInert (token : Token) : Prop where
  spoken : token.kind ≠ .comment
  noLocale : token.isKeyword "locale" = false
  noOpen : token.isSymbol "\x7b" = false
  noClose : token.isSymbol "\x7d" = false
  noEnd : token.isSymbol ";" = false

/-- Tokens of statements in which each brace has its counterpart, and comments document. -/
inductive Balanced : List Token → Prop where
  | nil : Balanced []
  | inert {token : Token} (isInert : token.IsInert) : Balanced [token]
  | semicolon : Balanced [.mark ";"]
  | doc (body : String) : Balanced (docTokens body)
  | append {tokens more : List Token} (first : Balanced tokens) (second : Balanced more) :
      Balanced (tokens ++ more)
  | body {tokens : List Token} (inside : Balanced tokens) :
      Balanced (.mark "\x7b" :: (tokens ++ [.mark "\x7d"]))

/-- Behind a comment a body is passed over as before it. -/
theorem closeGroup_remark {text : String} (depth : Nat) (ends : EndsDoc rest)
    (faces : c.Faces (.remark text :: rest)) :
    closeGroup "\x7b" "\x7d" first (depth + 1) c =
      closeGroup "\x7b" "\x7d" first (depth + 1) c.passComment := by
  obtain ⟨_, _, _, facesRest, through⟩ := faces.remark
  obtain ⟨token, more, rfl, spoken, _⟩ := ends
  have going := facesRest.not_atEnd spoken
  have same : c.atEnd = c.passComment.atEnd := by
    unfold Cursor.passComment Cursor.atEnd
    split <;> simp_all
  have moved : c.passComment.advance = c.advance := by
    rw [← same] at going
    unfold Cursor.passComment Cursor.advance
    cases ahead : c.ahead with
    | nil => simp [Cursor.atEnd, ahead] at going
    | cons word words => rfl
  rw [closeGroup.eq_def, closeGroup.eq_def _ _ _ _ c.passComment]
  simp only [same, through, moved, going, Bool.false_eq_true, ↓reduceIte]

namespace Balanced

variable {tokens : List Token}

theorem endsDoc (balanced : Balanced tokens) (ends : EndsDoc rest) : EndsDoc (tokens ++ rest) := by
  induction balanced generalizing rest with
  | nil => exact ends
  | inert isInert => exact ⟨_, rest, rfl, isInert.spoken, isInert.noLocale⟩
  | semicolon => exact ⟨_, rest, rfl, by simp, rfl⟩
  | doc body => exact ⟨.word "doc", _, rfl, by simp, rfl⟩
  | append _ _ ihFirst ihSecond =>
    rw [List.append_assoc]
    exact ihFirst (ihSecond ends)
  | body => exact ⟨.mark "\x7b", _, rfl, by simp, rfl⟩

/-- Passing over a body comes from the beginning of such tokens to their end, however deep they
stand in it. -/
theorem closeGroup_eq (balanced : Balanced tokens) (ends : EndsDoc rest) (depth : Nat)
    (faces : c.Faces (tokens ++ rest)) :
    ∃ after, after.Faces rest ∧
      closeGroup "\x7b" "\x7d" first (depth + 1) c =
        closeGroup "\x7b" "\x7d" first (depth + 1) after := by
  have passes {c : Cursor} {token : Token} {rest : List Token} (faces : c.Faces (token :: rest))
      (spoken : token.kind ≠ .comment) (noOpen : token.isSymbol "\x7b" = false)
      (noClose : token.isSymbol "\x7d" = false) (depth : Nat) :
      closeGroup "\x7b" "\x7d" first (depth + 1) c =
        closeGroup "\x7b" "\x7d" first (depth + 1) c.advance := by
    rw [closeGroup, if_neg (by simp [faces.not_atEnd spoken]),
      if_neg (by simp [faces.sees_symbol spoken, noOpen]),
      if_neg (by simp [faces.sees_symbol spoken, noClose])]
  -- A body inside is passed with one more bracket open, so the depth is any.
  induction balanced generalizing c rest depth with
  | nil => exact ⟨c, faces, rfl⟩
  | inert isInert =>
    exact ⟨c.advance, faces.advance isInert.spoken,
      passes faces isInert.spoken isInert.noOpen isInert.noClose depth⟩
  | semicolon =>
    exact ⟨c.advance, faces.advance (by simp), passes faces (by simp) rfl rfl depth⟩
  | doc body =>
    replace faces : c.Faces (.word "doc" :: .remark (commentText body) :: rest) := faces
    have facesComment := faces.advance (by simp)
    obtain ⟨_, _, _, facesRest, _⟩ := facesComment.remark
    exact ⟨c.advance.passComment, facesRest,
      (passes faces (by simp) rfl rfl depth).trans (closeGroup_remark depth ends facesComment)⟩
  | append _ second ihFirst ihSecond =>
    rw [List.append_assoc] at faces
    obtain ⟨middle, facesMore, toMiddle⟩ := ihFirst (second.endsDoc ends) depth faces
    obtain ⟨after, facesRest, toAfter⟩ := ihSecond ends depth facesMore
    exact ⟨after, facesRest, toMiddle.trans toAfter⟩
  | @body tokens _ ih =>
    replace faces : c.Faces (.mark "\x7b" :: (tokens ++ .mark "\x7d" :: rest)) := by
      simpa using faces
    obtain ⟨closing, facesClose, inside⟩ :=
      ih (endsDoc_close rest) (depth + 1) (faces.advance (by simp))
    refine ⟨closing.advance, facesClose.advance (by simp), ?_⟩
    rw [closeGroup, if_neg (by simp [faces.not_atEnd (by simp)]),
      if_pos (by simp [faces.sees_symbol (by simp)]), inside, closeGroup,
      if_neg (by simp [facesClose.not_atEnd (by simp)]),
      if_neg (by simp [facesClose.sees_symbol (by simp)]),
      if_pos (by simp [facesClose.sees_symbol (by simp)])]

theorem inerts (each : ∀ token ∈ tokens, token.IsInert) : Balanced tokens := by
  induction tokens with
  | nil => exact nil
  | cons token tokens ih =>
    obtain ⟨isInert, others⟩ := List.forall_mem_cons.mp each
    exact append (inert isInert) (ih others)

theorem flatMap {α : Type} {items : List α} {tokens : α → List Token}
    (each : ∀ item ∈ items, Balanced (tokens item)) : Balanced (items.flatMap tokens) := by
  induction items with
  | nil => exact nil
  | cons item items ih =>
    obtain ⟨first, others⟩ := List.forall_mem_cons.mp each
    exact append first (ih others)

end Balanced

/-! ## The tokens of declarations -/

theorem Token.mark_isInert {text : String} (other : text ∉ ["\x7b", "\x7d", ";"]) :
    (mark text).IsInert := by
  simp only [List.mem_cons, List.not_mem_nil, or_false, not_or] at other
  exact ⟨by simp, rfl, by simpa using other.1, by simpa using other.2.1, by simpa using other.2.2⟩

theorem Token.word_isInert {text : String} (other : text ≠ "locale") : (word text).IsInert :=
  ⟨by simp, by simpa using other, rfl, rfl, rfl⟩

theorem Token.named_isInert (name : String) : (named name).IsInert :=
  ⟨by simp, named_isKeyword name (by decide), by simp, by simp, by simp⟩

theorem inert_intercalate {separator : Token} (isInert : separator.IsInert)
    {parts : List (List Token)} (each : ∀ part ∈ parts, ∀ token ∈ part, token.IsInert) :
    ∀ token ∈ [separator].intercalate parts, token.IsInert := by
  cases parts with
  | nil => exact fun _ listed => by cases listed
  | cons part others =>
    obtain ⟨inFirst, inOthers⟩ := List.forall_mem_cons.mp each
    intro token listed
    rw [intercalate_eq_flatMap, List.mem_append, List.mem_flatMap] at listed
    rcases listed with inside | ⟨other, isOther, inside⟩
    · exact inFirst token inside
    · rcases List.mem_cons.mp inside with rfl | inside
      · exact isInert
      · exact inOthers other isOther token inside

theorem pathTokens_inert (path : String) : ∀ token ∈ pathTokens path, token.IsInert := by
  refine inert_intercalate (Token.mark_isInert (by decide)) fun part isPart token inside => ?_
  obtain ⟨piece, _, rfl⟩ := List.mem_map.mp isPart
  cases List.mem_singleton.mp inside
  exact Token.named_isInert piece

theorem clauseTokens_inert (isDefinition : Bool) (clause : RefKind × List String) :
    ∀ token ∈ clauseTokens isDefinition clause, token.IsInert := by
  have operator : (operatorToken clause.1 isDefinition).IsInert := by
    cases clause.1 <;> cases isDefinition <;> first
      | exact Token.mark_isInert (by decide)
      | exact Token.word_isInert (by decide)
  refine List.forall_mem_cons.mpr ⟨operator, ?_⟩
  refine inert_intercalate (Token.mark_isInert (by decide)) fun part isPart => ?_
  obtain ⟨path, _, rfl⟩ := List.mem_map.mp isPart
  exact pathTokens_inert path

theorem nameTokens_inert (title : Title) : ∀ token ∈ title.nameTokens, token.IsInert := by
  intro token listed
  rcases List.mem_append.mp listed with short | name
  · split at short
    · cases short
    · simp only [List.mem_cons, List.not_mem_nil, or_false] at short
      rcases short with rfl | rfl | rfl
      · exact Token.mark_isInert (by decide)
      · exact Token.named_isInert _
      · exact Token.mark_isInert (by decide)
  · cases List.mem_singleton.mp name
    exact Token.named_isInert _

/-- Nothing in a declaration before its body is a brace or ends it. -/
theorem title_inert {title : Title} (directed : title.IsDirected) :
    ∀ token ∈ title.tokens, token.IsInert := by
  intro token listed
  rw [Title.tokens, List.mem_append, List.mem_append, List.mem_flatMap] at listed
  rcases listed with (word | name) | ⟨clause, _, inside⟩
  · obtain ⟨text, isWord, rfl⟩ := List.mem_map.mp word
    exact Token.word_isInert (words_text directed text isWord).2
  · exact nameTokens_inert title token name
  · exact clauseTokens_inert _ clause token inside

theorem ImportLine.balanced (line : ImportLine) : Balanced line.tokens := by
  have reach : ∀ token ∈ line.reach.tokens, token.IsInert := by
    cases line.reach with
    | one => exact fun _ listed => by cases listed
    | members | below =>
      intro token listed
      simp only [Reach.tokens, List.mem_cons, List.not_mem_nil, or_false] at listed
      rcases listed with rfl | rfl <;> exact Token.mark_isInert (by decide)
  have isPublic : ∀ token ∈ (if line.isPublic then [Token.word "public"] else []),
      token.IsInert := by
    intro token listed
    split at listed
    · cases List.mem_singleton.mp listed
      exact Token.word_isInert (by decide)
    · cases listed
  rw [tokens]
  exact (Balanced.inerts isPublic).append (.append (.inert (Token.word_isInert (by decide)))
    ((Balanced.inerts (pathTokens_inert line.path)).append ((Balanced.inerts reach).append
      .semicolon)))

theorem Entry.inner_balanced (entry : Entry) : Balanced entry.inner := by
  rw [inner]
  refine .append ?_ (.flatMap fun line _ => line.balanced)
  cases entry.doc with
  | none => exact .nil
  | some body => exact .doc body

/-! ## Statements skipped -/

theorem element_skipped {after : Cursor} (read : Statement.read c = (.skipped, after)) :
    element c = ([], after) := by
  rw [element]
  split <;> simp_all

theorem skipStatement_inert {tokens : List Token} (inert : ∀ token ∈ tokens, token.IsInert)
    (faces : c.Faces (tokens ++ rest)) :
    ∃ after, after.Faces rest ∧ skipStatement c = skipStatement after := by
  induction tokens generalizing c with
  | nil => exact ⟨c, faces, rfl⟩
  | cons token tokens ih =>
    obtain ⟨isInert, others⟩ := List.forall_mem_cons.mp inert
    have facesToken : c.Faces (token :: (tokens ++ rest)) := faces
    obtain ⟨after, facesRest, skipped⟩ := ih others (facesToken.advance isInert.spoken)
    refine ⟨after, facesRest, ?_⟩
    rw [skipStatement, if_neg (by simp [facesToken.not_atEnd isInert.spoken]),
      if_neg (by simp [facesToken.sees_symbol isInert.spoken, isInert.noClose]),
      if_neg (by simp [facesToken.sees_symbol isInert.spoken, isInert.noOpen]),
      if_neg (by simp [facesToken.sees_symbol isInert.spoken, isInert.noEnd]), skipped]

/-- What may stand behind a declaration's names and references: its end, or its body. -/
inductive Tail : HeaderEnd → List Token → Prop where
  | closed : Tail .closed []
  | opens {tokens : List Token} (inside : Balanced tokens) : Tail .opens (tokens ++ [.mark "\x7d"])

theorem skipStatement_tail {ending : HeaderEnd} {tokens : List Token} (tail : Tail ending tokens)
    (faces : c.Faces (ending.token :: (tokens ++ rest))) : (skipStatement c).Faces rest := by
  cases tail with
  | closed =>
    replace faces : c.Faces (.mark ";" :: rest) := faces
    rw [skipStatement, if_neg (by simp [faces.not_atEnd (by simp)]),
      if_neg (by simp [faces.sees_symbol (by simp)]),
      if_neg (by simp [faces.sees_symbol (by simp)]),
      if_pos (by simp [faces.sees_symbol (by simp)])]
    exact faces.advance (by simp)
  | @opens tokens inside =>
    replace faces : c.Faces (.mark "\x7b" :: (tokens ++ .mark "\x7d" :: rest)) := by
      simpa [HeaderEnd.token] using faces
    obtain ⟨closing, facesClose, passed⟩ :=
      inside.closeGroup_eq (endsDoc_close rest) 0 (faces.advance (by simp))
    rw [skipStatement, if_neg (by simp [faces.not_atEnd (by simp)]),
      if_neg (by simp [faces.sees_symbol (by simp)]),
      if_pos (by simp [faces.sees_symbol (by simp)]), skipGroup, passed, closeGroup,
      if_neg (by simp [facesClose.not_atEnd (by simp)]),
      if_neg (by simp [facesClose.sees_symbol (by simp)]),
      if_pos (by simp [facesClose.sees_symbol (by simp)]), closeGroup]
    exact facesClose.advance (by simp)

/-- A usage without a keyword that nothing tells from a mere name: it has a short name, or neither
a direction nor a reference. -/
structure Title.IsUntold (title : Title) : Prop where
  plain : title.kind = .plainUsage
  untold : title.shortName ≠ "" ∨ title.direction = "" ∧ title.clauses = []

/-- A usage that nothing tells from a mere name is skipped with its body. -/
theorem read_untold {title : Title} (directed : title.IsDirected) (untold : title.IsUntold)
    {ending : HeaderEnd} {tokens : List Token} (tail : Tail ending tokens)
    (faces : c.Faces (title.tokens ++ ending.token :: (tokens ++ rest))) :
    ∃ after, Statement.read c = (.skipped, after) ∧ after.Faces rest := by
  obtain ⟨next, facesName, begins⟩ := read_led directed faces
  have isKind := untold.plain
  rw [isKind] at facesName
  replace facesName : next.Faces (title.nameTokens ++
      (title.clauses.flatMap (clauseTokens false) ++ ending.token :: (tokens ++ rest))) := facesName
  have skipped : plainStatement title.lead next = (.skipped, skipStatement next) := by
    have noRef : title.lead.isRef = false := by
      rw [Title.lead, isKind]
      rfl
    -- With a short name the statement begins with a bracket and not with a name.
    by_cases none_ : title.shortName = ""
    · obtain ⟨undirected, noClauses⟩ := untold.untold.resolve_left fun short => short none_
      have noLead : title.lead.direction = "" := undirected
      rw [Title.nameTokens, if_pos none_, noClauses] at facesName
      replace facesName : next.Faces (.named title.name :: ending.token :: (tokens ++ rest)) :=
        facesName
      have noMark : next.sees (fun t => t.isSymbol ":>>" || t.isKeyword "redefines") = false :=
        (facesName.sees (by simp) fun _ => rfl).trans (by
          simp [Token.named_isKeyword title.name (show isReserved "redefines" = true by decide)])
      have noReference :
          (next.seesNext fun t => (relationship? .plainUsage t false).isSome) = false := by
        cases ending <;> exact facesName.seesNext (by simp) (by decide) fun _ => rfl
      simp [plainStatement, noRef, noLead, noMark, noReference]
    · rw [Title.nameTokens, if_neg none_] at facesName
      have noName : next.sees Token.isName = false := facesName.sees_name (by simp)
      have noMark : next.sees (fun t => t.isSymbol ":>>" || t.isKeyword "redefines") = false :=
        facesName.sees (by simp) fun _ => rfl
      simp [plainStatement, noRef, noName, noMark]
  obtain ⟨after, facesTail, passed⟩ := skipStatement_inert (nameTokens_inert title) facesName
  obtain ⟨last, facesEnd, through⟩ := skipStatement_inert (fun token listed => by
    obtain ⟨clause, _, inside⟩ := List.mem_flatMap.mp listed
    exact clauseTokens_inert false clause token inside) facesTail
  refine ⟨_, ?_, skipStatement_tail tail facesEnd⟩
  rw [begins, read_nameTokens facesName, skipped, passed, through]

/-! ## Blocks -/

/-- Tokens that are whole declarations, with so many symbols at most. -/
structure Block (tokens : List Token) (count : Nat) : Prop where
  balanced : Balanced tokens
  read : ∃ symbols : String → Bool → Option String → List Symbol,
    (∀ file isLibrary owner, (symbols file isLibrary owner).length ≤ count) ∧
      ∀ (c : Cursor) (rest : List Token), c.Faces (tokens ++ rest) →
        ∃ members last, Elements c members last ∧ last.Faces rest ∧ Declares members symbols

/-- A usage without a keyword is told from a mere name, or it is not. -/
theorem Title.sound_or_untold {title : Title} (known : title.kind ≠ .element)
    (directed : title.IsDirected) (targeted : ∀ clause ∈ title.clauses, clause.2 ≠ []) :
    title.Sound ∨ title.IsUntold := by
  by_cases plain : title.kind = .plainUsage
  · by_cases short : title.shortName = ""
    · by_cases told : title.direction = "" ∧ title.clauses = []
      · exact .inr ⟨plain, .inr told⟩
      · exact .inl ⟨known, directed, targeted, fun _ =>
          ⟨short, Decidable.not_and_iff_or_not.mp told⟩⟩
    · exact .inr ⟨plain, .inl short⟩
  · exact .inl ⟨known, directed, targeted, fun isPlain => absurd isPlain plain⟩

namespace Block

variable {tokens more : List Token} {count further : Nat} {entry : Entry}

theorem nil : Block [] 0 :=
  ⟨.nil, fun _ _ _ => [], fun _ _ _ => Nat.le_refl 0, fun c _ faces =>
    ⟨[], c, .nil c, faces, declares_nil⟩⟩

theorem mono (block : Block tokens count) (more : count ≤ further) : Block tokens further := by
  obtain ⟨symbols, bounded, read⟩ := block.read
  exact ⟨block.balanced, symbols, fun _ _ _ => Nat.le_trans (bounded ..) more, read⟩

theorem append (block : Block tokens count) (second : Block more further) :
    Block (tokens ++ more) (count + further) := by
  obtain ⟨symbols, bounded, read⟩ := block.read
  obtain ⟨others, boundedOthers, readOthers⟩ := second.read
  refine ⟨block.balanced.append second.balanced, fun file isLibrary owner =>
    symbols file isLibrary owner ++ others file isLibrary owner, fun file isLibrary owner => ?_,
    fun c rest faces => ?_⟩
  · rw [List.length_append]
    exact Nat.add_le_add (bounded ..) (boundedOthers ..)
  · rw [List.append_assoc] at faces
    obtain ⟨members, middle, elements, facesMore, declares⟩ := read c _ faces
    obtain ⟨later, last, elementsLater, facesRest, declaresLater⟩ := readOthers middle _ facesMore
    exact ⟨_, last, elements.append elementsLater, facesRest, declares.append declaresLater⟩

/-- One statement that begins with the words and names of a declaration. -/
theorem statement {title : Title} (directed : title.IsDirected) (some_ : tokens ≠ [])
    (balanced : Balanced (title.tokens ++ tokens))
    (symbols : String → Bool → Option String → List Symbol)
    (bounded : ∀ file isLibrary owner, (symbols file isLibrary owner).length ≤ count)
    (read : ∀ (c : Cursor) (rest : List Token), c.Faces (title.tokens ++ tokens ++ rest) →
      ∃ members next, element c = (members, next) ∧ next.Faces rest ∧ Declares members symbols) :
    Block (title.tokens ++ tokens) count := by
  refine ⟨balanced, symbols, bounded, fun c rest faces => ?_⟩
  obtain ⟨members, next, isElement, facesRest, declares⟩ := read c rest faces
  obtain ⟨token, others, are, goesOn, _⟩ := title_begins directed (tokens ++ rest)
  have one : Elements c (members ++ []) next :=
    .step faces (by simp [some_]) ((List.append_assoc ..).trans are) goesOn isElement facesRest
      (.nil next)
  rw [List.append_nil] at one
  exact ⟨members, next, one, facesRest, declares⟩

variable (known : entry.title.kind ≠ .element) (directed : entry.title.IsDirected)
  (targeted : ∀ clause ∈ entry.title.clauses, clause.2 ≠ [])

include known directed targeted

/-- A declaration without a body has one symbol at most. -/
theorem closed (bare : Outline.isBare entry .nil = true) :
    Block (entry.title.tokens ++ [.mark ";"]) 1 := by
  have balanced := (Balanced.inerts (title_inert directed)).append .semicolon
  rcases Title.sound_or_untold known directed targeted with sound | untold
  · exact statement directed (by simp) balanced
      (fun file isLibrary owner => [entry.symbol file isLibrary owner])
      (fun _ _ _ => Nat.le_refl 1) fun c rest faces =>
        element_bare sound bare (by simpa using faces)
  · refine statement directed (by simp) balanced (fun _ _ _ => []) (fun _ _ _ => Nat.zero_le _)
      fun c rest faces => ?_
    obtain ⟨after, read, facesRest⟩ := read_untold directed untold .closed
      (by simpa [HeaderEnd.token] using faces)
    exact ⟨[], after, element_skipped read, facesRest, declares_nil⟩

/-- A declaration has one symbol at most beside those of its members. -/
theorem opened (below : Block tokens count) :
    Block (entry.title.tokens ++ .mark "\x7b" :: (entry.inner ++ tokens ++ [.mark "\x7d"]))
      (count + 1) := by
  have inside := entry.inner_balanced.append below.balanced
  have balanced := (Balanced.inerts (title_inert directed)).append inside.body
  rcases Title.sound_or_untold known directed targeted with sound | untold
  · obtain ⟨symbols, bounded, read⟩ := below.read
    exact statement directed (by simp) balanced
      (fun file isLibrary owner => entry.symbol file isLibrary owner ::
        symbols file isLibrary (some (owner.elim entry.title.name fun owner =>
          QualifiedName.join owner entry.title.name)))
      (fun file isLibrary owner => Nat.succ_le_succ (bounded ..)) fun c rest faces =>
        element_body sound (below.balanced.endsDoc (endsDoc_close rest)) (fun c => read c _)
          (by simpa using faces)
  · refine statement directed (by simp) balanced (fun _ _ _ => []) (fun _ _ _ => Nat.zero_le _)
      fun c rest faces => ?_
    obtain ⟨after, read, facesRest⟩ := read_untold directed untold (.opens inside)
      (by simpa [HeaderEnd.token] using faces)
    exact ⟨[], after, element_skipped read, facesRest, declares_nil⟩

/-- A declaration, whether it has a body or not, has one symbol at most beside those of its
members. -/
theorem declaration (below : Block tokens count) {bare : Bool}
    (isBare : bare = true → Outline.isBare entry .nil = true) :
    Block (entry.title.tokens ++ entry.tail bare tokens) (count + 1) := by
  cases bare with
  | true =>
    exact (closed known directed targeted (isBare rfl)).mono (Nat.succ_le_succ (Nat.zero_le _))
  | false => simpa [Entry.tail] using opened known directed targeted below

end Block

/-- Reading the lines of declarations gives no fault, and no more symbols than they have. -/
theorem parse_block {text : String} {tokens : List Token} {count : Nat}
    (spells : Spells anyNext text.toList tokens) (block : Block tokens count) (file : String)
    (isLibrary : Bool) :
    (parse file text isLibrary).diagnostics = [] ∧
      (parse file text isLibrary).symbols.length ≤ count := by
  obtain ⟨symbols, bounded, read⟩ := block.read
  obtain ⟨clean, _, are⟩ := parse_declares spells (fun c => read c []) file isLibrary
  refine ⟨clean, ?_⟩
  rw [← List.length_map Symbol.unplaced, are]
  exact bounded file isLibrary none

end Sysml.Notation
