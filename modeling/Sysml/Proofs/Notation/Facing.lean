import Sysml.Notation.Reader
import Sysml.Proofs.Notation.Spelling

/-!
# Reading known tokens

A cursor faces tokens if they are what is ahead of it, the comments among them included, and
no fault was met so far. From what it faces follows what each step of the reader does: paths,
the targets of a reference and the references of a header are read as they were written
(`path?_faces`, `targets_faces`, `header_faces`). What is read of a path that was written is the
path itself where none of its characters needs an escape, and only there (`quotePath_readBack`).
-/

set_option autoImplicit false

namespace Sysml

def Reference.unplaced (reference : Reference) : Reference :=
  { reference with span := {} }

def Import.unplaced (i : Import) : Import :=
  { i with span := {} }

namespace Notation

theorem attachComments_cons {token : Token} (spoken : token.kind ≠ .comment)
    (tokens : List Token) :
    attachComments [] (token :: tokens) =
      (⟨[], token⟩ :: (attachComments [] tokens).1, (attachComments [] tokens).2) := by
  rw [attachComments, if_neg spoken]

/-- Comments before what is there: before the first word, or else at the end. -/
def withPending (pending : List Token) : List Word × List Token → List Word × List Token
  | ([], trailing) => ([], pending ++ trailing)
  | (word :: words, trailing) =>
      ({ word with comments := pending ++ word.comments } :: words, trailing)

theorem withPending_append (pending further : List Token) (found : List Word × List Token) :
    withPending pending (withPending further found) = withPending (pending ++ further) found := by
  obtain ⟨words, trailing⟩ := found
  cases words <;> simp [withPending]

/-- Comments that are pending stand before those of the next token. -/
theorem attachComments_pending (pending tokens : List Token) :
    attachComments pending tokens = withPending pending (attachComments [] tokens) := by
  induction tokens generalizing pending with
  | nil => simp [attachComments, withPending]
  | cons token rest ih =>
    by_cases isComment : token.kind = .comment
    · rw [attachComments, if_pos isComment, ih, attachComments, if_pos isComment, List.nil_append,
        ih [token], withPending_append]
    · rw [attachComments, if_neg isComment, attachComments, if_neg isComment]
      simp [withPending]

theorem attachComments_length (pending tokens : List Token) :
    (attachComments pending tokens).1.length =
      (tokens.filter fun token => token.kind != .comment).length := by
  induction tokens generalizing pending with
  | nil => rfl
  | cons token rest ih =>
    by_cases isComment : token.kind = .comment
    · rw [attachComments, if_pos isComment, ih, List.filter_cons_of_neg (by simp [isComment])]
    · rw [attachComments, if_neg isComment, List.filter_cons_of_pos (by simpa using isComment),
        List.length_cons, List.length_cons, ih]

namespace Cursor

/-- The tokens ahead are these, wherever they stand, and no fault was met. -/
structure Faces (c : Cursor) (tokens : List Token) : Prop where
  ahead : ∃ found : List Token, found.map Token.bare = tokens ∧
    attachComments [] found = (c.ahead, c.stop.comments)
  clean : c.faults = []

namespace Faces

variable {c : Cursor} {token second : Token} {rest : List Token}

theorem front (faces : c.Faces (token :: rest)) (spoken : token.kind ≠ .comment) :
    ∃ found words, c.ahead = ⟨[], found⟩ :: words ∧ found.bare = token := by
  obtain ⟨found, isTokens, attached⟩ := faces.ahead
  obtain ⟨first, others, rfl, isFirst, isRest⟩ := List.map_eq_cons_iff.mp isTokens
  have spokenFirst : first.kind ≠ .comment := by
    rw [← isFirst] at spoken
    exact spoken
  rw [attachComments_cons spokenFirst] at attached
  exact ⟨first, _, (Prod.mk.inj attached).1.symm, isFirst⟩

theorem advance (faces : c.Faces (token :: rest)) (spoken : token.kind ≠ .comment) :
    c.advance.Faces rest := by
  obtain ⟨found, isTokens, attached⟩ := faces.ahead
  obtain ⟨first, others, rfl, isFirst, isRest⟩ := List.map_eq_cons_iff.mp isTokens
  have spokenFirst : first.kind ≠ .comment := by
    rw [← isFirst] at spoken
    exact spoken
  rw [attachComments_cons spokenFirst] at attached
  obtain ⟨isAhead, isTrailing⟩ := Prod.mk.inj attached
  have moved : c.advance = { c with ahead := (attachComments [] others).1, last := some first } := by
    rw [Cursor.advance, ← isAhead]
  rw [moved]
  exact ⟨⟨others, isRest, by rw [← isTrailing]⟩, faces.clean⟩

theorem here_bare (faces : c.Faces (token :: rest)) (spoken : token.kind ≠ .comment) :
    c.here.bare = token := by
  obtain ⟨found, words, ahead, isFound⟩ := faces.front spoken
  rw [here, ahead]
  exact isFound

theorem here_text (faces : c.Faces (token :: rest)) (spoken : token.kind ≠ .comment) :
    c.here.text = token.text := by
  rw [← faces.here_bare spoken]
  rfl

theorem sees (faces : c.Faces (token :: rest)) (spoken : token.kind ≠ .comment)
    {p : Token → Bool} (blind : ∀ token : Token, p token.bare = p token) :
    c.sees p = p token := by
  obtain ⟨found, words, ahead, isFound⟩ := faces.front spoken
  rw [Cursor.sees, ahead, ← isFound]
  exact (blind found).symm

theorem sees_symbol (faces : c.Faces (token :: rest)) (spoken : token.kind ≠ .comment)
    (symbol : String) : c.sees (·.isSymbol symbol) = token.isSymbol symbol :=
  faces.sees spoken fun _ => rfl

theorem sees_keyword (faces : c.Faces (token :: rest)) (spoken : token.kind ≠ .comment)
    (keyword : String) : c.sees (·.isKeyword keyword) = token.isKeyword keyword :=
  faces.sees spoken fun _ => rfl

theorem sees_name (faces : c.Faces (token :: rest)) (spoken : token.kind ≠ .comment) :
    c.sees Token.isName = token.isName :=
  faces.sees spoken fun _ => rfl

theorem seesNext (faces : c.Faces (token :: second :: rest)) (spoken : token.kind ≠ .comment)
    (spokenNext : second.kind ≠ .comment) {p : Token → Bool}
    (blind : ∀ token : Token, p token.bare = p token) : c.seesNext p = p second := by
  obtain ⟨found, words, ahead, isFound⟩ := faces.front spoken
  obtain ⟨next, further, aheadNext, isNext⟩ := (faces.advance spoken).front spokenNext
  rw [Cursor.advance, ahead] at aheadNext
  dsimp only at aheadNext
  rw [Cursor.seesNext, ahead, aheadNext, ← isNext]
  exact (blind next).symm

theorem not_atEnd (faces : c.Faces (token :: rest)) (spoken : token.kind ≠ .comment) :
    c.atEnd = false := by
  obtain ⟨found, words, ahead, _⟩ := faces.front spoken
  rw [atEnd, ahead]
  rfl

theorem atEnd_nil (faces : c.Faces []) : c.atEnd = true := by
  obtain ⟨found, isTokens, attached⟩ := faces.ahead
  cases List.map_eq_nil_iff.mp isTokens
  rw [atEnd, ← (Prod.mk.inj attached).1]
  rfl

theorem length (faces : c.Faces rest) :
    c.length = (rest.filter fun token => token.kind != .comment).length := by
  obtain ⟨found, rfl, attached⟩ := faces.ahead
  rw [Cursor.length, ← (Prod.mk.inj attached).1, attachComments_length, List.filter_map,
    List.length_map]
  rfl

end Faces

end Cursor

/-- A text that spells tokens faces them from its beginning. -/
theorem scan_faces {next : Char → Prop} {text : String} {tokens : List Token}
    (spells : Spells next text.toList tokens) : (scan text).cursor.Faces tokens := by
  obtain ⟨found, isTokens, cut⟩ := spells {} [] (fun _ head => (by cases head))
  rw [List.append_nil, scanFrom_nil, List.append_nil] at cut
  have tokens_ : (scan text).tokens = found := by
    rw [Scan.tokens, scan, cut, List.filterMap_map]
    exact List.filterMap_some
  have clean : (scan text).faults = [] := by
    rw [Scan.faults, scan, cut, List.filterMap_map]
    exact List.filterMap_eq_nil_iff.mpr fun _ _ => rfl
  refine ⟨⟨found, isTokens, ?_⟩, ?_⟩
  · rw [Scan.cursor, tokens_]
  · rw [Scan.cursor, clean]
    rfl

/-! ## Tokens as they are written -/

namespace Token

@[simp] theorem word_kind (text : String) : (word text).kind = .word := rfl

@[simp] theorem word_text (text : String) : (word text).text = text := rfl

@[simp] theorem mark_kind (text : String) : (mark text).kind = .symbol := rfl

@[simp] theorem mark_text (text : String) : (mark text).text = text := rfl

@[simp] theorem named_text (name : String) : (named name).text = name := rfl

@[simp] theorem word_isSymbol (text symbol : String) : (word text).isSymbol symbol = false := rfl

@[simp] theorem word_isKeyword (text keyword : String) :
    (word text).isKeyword keyword = (text == keyword) := rfl

@[simp] theorem mark_isSymbol (text symbol : String) :
    (mark text).isSymbol symbol = (text == symbol) := rfl

@[simp] theorem mark_isKeyword (text keyword : String) : (mark text).isKeyword keyword = false := rfl

@[simp] theorem mark_isName (text : String) : (mark text).isName = false := rfl

theorem named_kind (name : String) :
    (named name).kind = .word ∧ isReserved name = false ∨ (named name).kind = .name := by
  by_cases plain : isPlainName name = true
  · exact .inl ⟨by rw [named, if_pos plain], (isPlainName_start plain).2⟩
  · exact .inr (by rw [named, if_neg plain])

@[simp] theorem named_spoken (name : String) : (named name).kind ≠ .comment := by
  rcases named_kind name with ⟨isWord, _⟩ | isName
  · rw [isWord]; decide
  · rw [isName]; decide

@[simp] theorem named_isName (name : String) : (named name).isName = true := by
  rcases named_kind name with ⟨isWord, free⟩ | isName
  · simp [Token.isName, isWord, free]
  · simp [Token.isName, isName]

@[simp] theorem named_isSymbol (name symbol : String) : (named name).isSymbol symbol = false := by
  rcases named_kind name with ⟨isWord, _⟩ | isName
  · simp [isSymbol, isWord]
  · simp [isSymbol, isName]

/-- A name is written so that it is no keyword. -/
theorem named_isKeyword (name : String) {keyword : String} (reserved : isReserved keyword = true) :
    (named name).isKeyword keyword = false := by
  rcases named_kind name with ⟨isWord, free⟩ | isName
  · have other : name ≠ keyword := by
      rintro rfl
      rw [free] at reserved
      cases reserved
    simp [isKeyword, isWord, other]
  · simp [isKeyword, isName]

end Token

/-! ## Paths -/

/-- No path goes on into these tokens: there are none, they do not begin with a separator, or no
name stands behind it. -/
inductive EndsPath : List Token → Prop where
  | nil : EndsPath []
  | other {token : Token} {rest : List Token} (spoken : token.kind ≠ .comment)
      (apart : isSeparator true token = false) : EndsPath (token :: rest)
  | separator {token second : Token} {rest : List Token} (spoken : token.kind ≠ .comment)
      (spokenNext : second.kind ≠ .comment) (unnamed : second.isName = false) :
      EndsPath (token :: second :: rest)

theorem isSeparator_bare (chain : Bool) (token : Token) :
    isSeparator chain token.bare = isSeparator chain token := rfl

theorem isName_bare (token : Token) : token.bare.isName = token.isName := rfl

variable {c : Cursor} {rest : List Token}

theorem pathTail_ends {chain : Bool} (ends : EndsPath rest) (faces : c.Faces rest) :
    pathTail chain c = ([], c) := by
  rw [pathTail, dif_neg]
  rintro ⟨separator, name⟩
  cases ends with
  | nil =>
    rw [Cursor.sees, List.isEmpty_iff.mp faces.atEnd_nil] at separator
    cases separator
  | other spoken apart =>
    rw [faces.sees spoken (isSeparator_bare chain)] at separator
    have : isSeparator chain _ = true := separator
    cases chain <;> simp_all [isSeparator]
  | separator spoken spokenNext unnamed =>
    rw [faces.seesNext spoken spokenNext isName_bare, unnamed] at name
    cases name

/-- Pieces behind separators are read up to where the path ends. -/
theorem pathTail_faces {chain : Bool} (ends : EndsPath rest) (pieces : List String)
    (faces : c.Faces (pieces.flatMap (fun piece => [.mark "::", .named piece]) ++ rest)) :
    ∃ after, pathTail chain c = (pieces.flatMap (fun piece => ["::", piece]), after) ∧
      after.Faces rest := by
  induction pieces generalizing c with
  | nil => exact ⟨c, pathTail_ends ends faces, faces⟩
  | cons piece pieces ih =>
    replace faces : c.Faces (.mark "::" :: .named piece ::
        (pieces.flatMap (fun piece => [.mark "::", .named piece]) ++ rest)) := faces
    have named := faces.advance (by simp)
    obtain ⟨after, read, facesRest⟩ := ih (named.advance (by simp))
    have separator : c.sees (isSeparator chain) = true :=
      faces.sees (by simp) (isSeparator_bare chain)
    have isNamed : c.seesNext Token.isName = true :=
      (faces.seesNext (by simp) (by simp) isName_bare).trans (Token.named_isName piece)
    refine ⟨after, ?_, facesRest⟩
    rw [pathTail, dif_pos ⟨separator, isNamed⟩, read, faces.here_text (by simp),
      named.here_text (by simp)]
    rfl

theorem intercalate_eq_flatMap {α : Type} (separator first : List α) (others : List (List α)) :
    separator.intercalate (first :: others) = first ++ others.flatMap (separator ++ ·) := by
  induction others generalizing first with
  | nil => simp
  | cons second rest ih =>
    rw [List.intercalate_cons_cons, ih second, List.flatMap_cons, List.append_assoc,
      List.append_assoc]

theorem pathTokens_eq {path first : String} {others : List String}
    (pieces : QualifiedName.pieces path = first :: others) :
    pathTokens path =
      .named first :: others.flatMap fun piece => [.mark "::", .named piece] := by
  rw [pathTokens, pieces, List.map_cons, intercalate_eq_flatMap, List.flatMap_map]
  rfl

theorem path_eq {path first : String} {others : List String}
    (pieces : QualifiedName.pieces path = first :: others) :
    String.join (first :: others.flatMap fun piece => ["::", piece]) = path := by
  rw [← join_pieces path, pieces, ← String.toList_inj, String.toList_join,
    String.toList_intercalate, List.map_cons, intercalate_eq_flatMap, List.flatMap_cons,
    List.flatMap_map, List.flatMap_assoc]
  simp

theorem exists_pieces (path : String) :
    ∃ first others, QualifiedName.pieces path = first :: others := by
  cases pieces : QualifiedName.pieces path with
  | nil =>
    rw [QualifiedName.pieces, List.map_eq_nil_iff] at pieces
    exact absurd pieces (cut_ne_nil false [] path.toList)
  | cons first others => exact ⟨first, others, rfl⟩

/-- A path is read as it was written. -/
theorem path?_faces (chain : Bool) {path : String} (ends : EndsPath rest)
    (faces : c.Faces (pathTokens path ++ rest)) :
    ∃ after, path? chain c = some (path, after) ∧ after.Faces rest := by
  obtain ⟨first, others, pieces⟩ := exists_pieces path
  rw [pathTokens_eq pieces, List.cons_append] at faces
  obtain ⟨after, read, facesRest⟩ := pathTail_faces ends others (faces.advance (by simp))
  refine ⟨after, ?_, facesRest⟩
  have isNamed : c.sees Token.isName = true :=
    (faces.sees_name (by simp)).trans (Token.named_isName first)
  rw [path?, if_pos isNamed, read, faces.here_text (by simp)]
  exact congrArg (fun path => some (path, after)) (path_eq pieces)

/-- The first token of a path as it is written is a name. -/
theorem pathTokens_cons (path : String) :
    ∃ first more, pathTokens path = .named first :: more := by
  obtain ⟨first, others, pieces⟩ := exists_pieces path
  exact ⟨first, _, pathTokens_eq pieces⟩

/-! ## Paths read back -/

theorem toList_intercalate_cons (first : String) (others : List String) :
    ("::".intercalate (first :: others)).toList =
      first.toList ++ others.flatMap fun piece => [':', ':'] ++ piece.toList := by
  rw [String.toList_intercalate, List.map_cons, intercalate_eq_flatMap, List.flatMap_map]
  rfl

/-- Of names with separators between them, one with a line feed leaves a quote astray. -/
theorem scanFrom_path_broken {first : String} {others : List String}
    (broken : ∃ name ∈ first :: others, '\n' ∈ name.toList) (place : Position) :
    ∃ c span, Scanned.stray c span ∈ scanFrom place ((quoteName first).toList ++
      others.flatMap fun name => [':', ':'] ++ (quoteName name).toList) := by
  induction others generalizing first place with
  | nil =>
    obtain ⟨name, member, feed⟩ := broken
    cases List.mem_singleton.mp member
    exact scanFrom_broken feed place _
  | cons second rest ih =>
    by_cases feed : '\n' ∈ first.toList
    · exact scanFrom_broken feed place _
    · have later : ∃ name ∈ second :: rest, '\n' ∈ name.toList := by
        obtain ⟨name, member, inName⟩ := broken
        rcases List.mem_cons.mp member with rfl | member
        · exact absurd inName feed
        · exact ⟨name, member, inName⟩
      have separates : Spells endsMark [':', ':'] [.mark "::"] := spells_mark (by decide)
      have spelled := (quoteName_spells feed).append_cons separates (by decide)
      obtain ⟨c, tail, isSecond, ends⟩ := quoteName_cons second
      obtain ⟨found, -, cut⟩ := spelled place ((quoteName second).toList ++
        rest.flatMap fun name => [':', ':'] ++ (quoteName name).toList) fun d head => by
          rw [isSecond] at head
          cases Option.mem_some.mp head
          exact ends
      obtain ⟨astray, span, listed⟩ := ih later (place.after ((quoteName first).toList ++ [':', ':']))
      refine ⟨astray, span, ?_⟩
      rw [List.flatMap_cons, List.append_assoc, ← List.append_assoc, cut]
      exact List.mem_append_right _ listed

/-- A path with a line feed is not cut into tokens without a fault. -/
theorem quotePath_broken {path : String} (feed : '\n' ∈ path.toList) :
    (scan (quotePath path)).faults ≠ [] := by
  obtain ⟨first, others, pieces⟩ := exists_pieces path
  have broken : ∃ name ∈ first :: others, '\n' ∈ name.toList := by
    rw [← join_pieces path, pieces, toList_intercalate_cons] at feed
    simpa using feed
  obtain ⟨c, span, stray⟩ := scanFrom_path_broken broken {}
  have text : (quotePath path).toList =
      (quoteName first).toList ++ others.flatMap fun name => [':', ':'] ++ (quoteName name).toList := by
    rw [quotePath, pieces, List.map_cons, toList_intercalate_cons, List.flatMap_map]
  rw [← text] at stray
  exact List.ne_nil_of_mem (List.mem_filterMap.mpr ⟨_, stray, rfl⟩)

/-- The text is cut into tokens without a fault, and the path that is read from these is the given
one and leaves nothing over. -/
def ReadsBack (text path : String) : Prop :=
  (scan text).faults = [] ∧ ∃ after, path? false (scan text).cursor = some (path, after) ∧
    after.ahead = [] ∧ after.stop.comments = []

/-- A path without a line feed is read as what stands between its quotes. -/
theorem quotePath_unbroken {path : String} (unbroken : IsUnbroken path) :
    ReadsBack (quotePath path) (escaped path) := by
  have faces := scan_faces (quotePath_spells unbroken)
  rw [← List.append_nil (pathTokens _)] at faces
  obtain ⟨after, read, facesEnd⟩ := path?_faces false .nil faces
  refine ⟨List.reverse_eq_nil_iff.mp faces.clean, after, read, ?_⟩
  obtain ⟨found, none_, attached⟩ := facesEnd.ahead
  cases List.map_eq_nil_iff.mp none_
  exact ⟨(Prod.mk.inj attached).1.symm, (Prod.mk.inj attached).2.symm⟩

theorem ReadsBack.unique {text path other : String} (first : ReadsBack text path)
    (second : ReadsBack text other) : path = other := by
  obtain ⟨-, after, read, -⟩ := first
  obtain ⟨-, after', read', -⟩ := second
  rw [read] at read'
  exact (Prod.mk.inj (Option.some.inj read')).1

/-- A path as it is written is read back exactly where none of its characters needs an escape. -/
theorem quotePath_readBack (path : String) :
    ReadsBack (quotePath path) path ↔ ∀ c ∈ path.toList, c ≠ '\\' ∧ c ≠ '\'' ∧ c ≠ '\n' := by
  constructor
  · intro back
    have unbroken : IsUnbroken path := fun feed => quotePath_broken feed back.1
    have free := escaped_eq_self_iff.mp ((quotePath_unbroken unbroken).unique back)
    intro c member
    refine ⟨(free c member).2, (free c member).1, ?_⟩
    rintro rfl
    exact unbroken member
  · intro plain
    have unbroken : IsUnbroken path := fun feed => (plain _ feed).2.2 rfl
    have back := quotePath_unbroken unbroken
    rwa [escaped_of_free fun c member => ⟨(plain c member).2.1, (plain c member).1⟩] at back

/-! ## References -/

def targetTokens (paths : List String) : List Token :=
  [Token.mark ","].intercalate (paths.map pathTokens)

/-- Neither a path nor a list of targets goes on into these tokens. -/
def EndsTargets (tokens : List Token) : Prop :=
  ∃ token rest, tokens = token :: rest ∧ token.kind ≠ .comment ∧
    isSeparator true token = false ∧ token.isSymbol "," = false

theorem EndsTargets.endsPath (ends : EndsTargets rest) : EndsPath rest := by
  obtain ⟨token, more, rfl, spoken, apart, _⟩ := ends
  exact .other spoken apart

/-- A reference, and those behind a comma after it. -/
theorem targets_of_path (kind : RefKind) {path : String} {after : Cursor}
    (found : path? true (skipConjugation c) = some (path, after)) :
    ∃ reference : Reference, reference.unplaced = { kind, target := .text path } ∧
      targets kind c =
        if after.sees (·.isSymbol ",") then
          (reference :: (targets kind after.advance).1, (targets kind after.advance).2)
        else ([reference], after) := by
  let start := (skipConjugation c).here
  refine ⟨⟨kind, .text path, ⟨start.span.start, (after.last.getD start).span.stop⟩, none, none,
    none⟩, rfl, ?_⟩
  rw [targets]
  split
  · next none_ => rw [found] at none_; cases none_
  · next same =>
    rw [found] at same
    cases same
    split <;> rfl

/-- References are read as they were written. -/
theorem targets_faces (kind : RefKind) {path : String} {others : List String}
    (ends : EndsTargets rest) (faces : c.Faces (targetTokens (path :: others) ++ rest)) :
    ∃ references after, targets kind c = (references, after) ∧ after.Faces rest ∧
      references.map Reference.unplaced =
        (path :: others).map fun path => { kind, target := .text path } := by
  have straight (c : Cursor) (path : String) (tokens : List Token)
      (faces : c.Faces (pathTokens path ++ tokens)) : skipConjugation c = c := by
    obtain ⟨first, tail, isPath⟩ := pathTokens_cons path
    rw [isPath] at faces
    rw [skipConjugation, faces.sees_symbol (by simp)]
    simp
  induction others generalizing c path with
  | nil =>
    obtain ⟨token, more, rfl, spoken, apart, noComma⟩ := id ends
    rw [targetTokens, List.map_singleton, List.intercalate_singleton] at faces
    obtain ⟨after, read, facesRest⟩ := path?_faces true ends.endsPath faces
    obtain ⟨reference, isReference, found⟩ :=
      targets_of_path kind (by rw [straight c path _ faces, read])
    have stops : after.sees (·.isSymbol ",") = false :=
      (facesRest.sees_symbol spoken ",").trans noComma
    rw [if_neg (by simp [stops])] at found
    exact ⟨_, _, found, facesRest, by rw [List.map_singleton, isReference, List.map_singleton]⟩
  | cons second others ih =>
    rw [targetTokens, List.map_cons, List.map_cons, List.intercalate_cons_cons, List.append_assoc,
      List.append_assoc] at faces
    have comma : EndsPath (.mark "," :: (targetTokens (second :: others) ++ rest)) :=
      .other (by simp) (by decide)
    obtain ⟨after, read, facesComma⟩ := path?_faces true comma faces
    obtain ⟨reference, isReference, found⟩ :=
      targets_of_path kind (by rw [straight c path _ faces, read])
    have goesOn : after.sees (·.isSymbol ",") = true :=
      facesComma.sees_symbol (by simp) ","
    obtain ⟨references, last, further, facesRest, are⟩ := ih (facesComma.advance (by simp))
    rw [if_pos goesOn, further] at found
    refine ⟨_, _, found, facesRest, ?_⟩
    rw [List.map_cons, are, isReference]
    rfl

/-! ## Headers -/

/-- The word or symbol that announces references of a kind in a declaration. -/
def operatorToken (kind : RefKind) (isDefinition : Bool) : Token :=
  match kind with
  | .typing => .mark ":"
  | .redefinition => .mark ":>>"
  | .specialization => if isDefinition then .mark ":>" else .word "specializes"
  | .subsetting => if isDefinition then .word "subsets" else .mark ":>"

def clauseTokens (isDefinition : Bool) (clause : RefKind × List String) : List Token :=
  operatorToken clause.1 isDefinition :: targetTokens clause.2

def clauseReferences (clause : RefKind × List String) : List Reference :=
  clause.2.map fun path => { kind := clause.1, target := .text path }

def HeaderEnd.token : HeaderEnd → Token
  | .closed => .mark ";"
  | .opens => .mark "\x7b"

/-- An operator is no comment, ends no header, and is one token. -/
theorem operatorToken_plain (kind : RefKind) (isDefinition : Bool) :
    let token := operatorToken kind isDefinition
    token.kind ≠ .comment ∧ token.isSymbol ";" = false ∧ token.isSymbol "\x7b" = false ∧
      token.isSymbol "\x7d" = false ∧ token.isSymbol "," = false ∧
      isSeparator true token = false ∧ token.text ≠ "typed" ∧ token.text ≠ "defined" := by
  cases kind <;> cases isDefinition <;> decide

/-- The operator of a kind of reference is read as that kind. -/
theorem relationship?_operator (kind : SymbolKind) (reference : RefKind) (byFollows : Bool) :
    relationship? kind (operatorToken reference kind.isDefinition) byFollows = some reference := by
  cases reference <;> cases isDefinition : kind.isDefinition <;>
    simp [relationship?, operatorToken, isDefinition]

theorem relationship?_faces {kind : SymbolKind} {reference : RefKind} {tokens : List Token}
    (faces : c.Faces (operatorToken reference kind.isDefinition :: tokens)) :
    c.relationship? kind = some reference := by
  have spoken := (operatorToken_plain reference kind.isDefinition).1
  have blind : Notation.relationship? kind c.here (c.seesNext (·.isKeyword "by")) =
      Notation.relationship? kind c.here.bare (c.seesNext (·.isKeyword "by")) := rfl
  rw [Cursor.relationship?, if_neg (by simp [faces.not_atEnd spoken]), blind,
    faces.here_bare spoken, relationship?_operator]

/-- Behind an operator and the targets after it the header goes on. -/
theorem header_of_operator {kind : SymbolKind} {reference : RefKind} {tokens : List Token}
    {references : List Reference} {after : Cursor}
    (faces : c.Faces (operatorToken reference kind.isDefinition :: tokens))
    (found : targets reference c.advance = (references, after)) (some_ : references ≠ []) :
    header kind c =
      (references ++ (header kind after).1, (header kind after).2.1, (header kind after).2.2) := by
  obtain ⟨spoken, noEnd, noBrace, noClose, _, _, noTyped, noDefined⟩ :=
    operatorToken_plain reference kind.isDefinition
  have passed : passOperator c = c.advance := by
    rw [passOperator, faces.here_text spoken, if_neg (by simp [noTyped, noDefined])]
  have isSome : references.isEmpty = false := by simpa using some_
  rw [header, if_neg (by simp [faces.not_atEnd spoken]),
    if_neg (by simp [faces.sees_symbol spoken, noEnd]),
    if_neg (by simp [faces.sees_symbol spoken, noBrace]),
    if_neg (by simp [faces.sees_symbol spoken, noClose])]
  simp only [relationship?_faces faces, passed, found, isSome, Cursor.reportIf, Bool.false_eq_true,
    ↓reduceIte]

/-- What a cursor faces behind a header: a brace that ends it is still ahead. -/
def HeaderEnd.left (ending : HeaderEnd) (rest : List Token) : List Token :=
  match ending with
  | .closed => rest
  | .opens => ending.token :: rest

theorem header_ends (kind : SymbolKind) (ending : HeaderEnd)
    (faces : c.Faces (ending.token :: rest)) :
    ∃ after, header kind c = ([], ending, after) ∧ after.Faces (ending.left rest) := by
  cases ending with
  | closed =>
    refine ⟨_, ?_, faces.advance (by decide)⟩
    rw [header, if_neg (by simp [faces.not_atEnd (by decide)]),
      if_pos (by rw [faces.sees_symbol (by decide)]; decide)]
  | opens =>
    refine ⟨_, ?_, faces⟩
    rw [header, if_neg (by simp [faces.not_atEnd (by decide)]),
      if_neg (by rw [faces.sees_symbol (by decide)]; decide),
      if_pos (by rw [faces.sees_symbol (by decide)]; decide)]

/-- The references of a header are read as they were written. -/
theorem header_faces (kind : SymbolKind) (ending : HeaderEnd)
    {clauses : List (RefKind × List String)} (targeted : ∀ clause ∈ clauses, clause.2 ≠ [])
    (faces : c.Faces (clauses.flatMap (clauseTokens kind.isDefinition) ++ ending.token :: rest)) :
    ∃ references after, header kind c = (references, ending, after) ∧
      references.map Reference.unplaced = clauses.flatMap clauseReferences ∧
      after.Faces (ending.left rest) := by
  induction clauses generalizing c with
  | nil =>
    obtain ⟨after, found, facesRest⟩ := header_ends kind ending faces
    exact ⟨[], after, found, rfl, facesRest⟩
  | cons clause clauses ih =>
    obtain ⟨reference, paths⟩ := clause
    obtain ⟨path, others, rfl⟩ :=
      List.exists_cons_of_ne_nil (targeted _ List.mem_cons_self)
    rw [List.flatMap_cons, clauseTokens, List.cons_append, List.cons_append, List.append_assoc]
      at faces
    have ends : EndsTargets
        (clauses.flatMap (clauseTokens kind.isDefinition) ++ ending.token :: rest) := by
      cases clauses with
      | nil => exact ⟨_, _, rfl, by cases ending <;> decide⟩
      | cons next clauses =>
        obtain ⟨spoken, _, _, _, noComma, apart, _⟩ := operatorToken_plain next.1 kind.isDefinition
        exact ⟨_, _, rfl, spoken, apart, noComma⟩
    obtain ⟨references, after, found, facesRest, are⟩ :=
      targets_faces reference ends (faces.advance (operatorToken_plain _ _).1)
    obtain ⟨further, last, read, areFurther, facesLast⟩ :=
      ih (fun clause member => targeted clause (List.mem_cons_of_mem _ member)) facesRest
    have some_ : references ≠ [] := by
      rintro rfl
      cases are
    refine ⟨references ++ further, last, ?_, ?_, facesLast⟩
    · rw [header_of_operator faces found some_, read]
    · rw [List.map_append, are, areFurther]
      rfl

end Notation

end Sysml
