import Sysml.Proofs.Xml.Markup

/-!
# Trees as they are written

An element that is written inside another one is read as a child of that one, up to the white space
that stands between elements (`Sound.isRead`). Names are written in a way that the declarations at
the root undo.
-/

set_option autoImplicit false

/-!
## Content as it is written

The text of an element is cut into its tags and texts again. Each step of the reader passes over
some text, so as much fuel as there is text is enough (`Yields`).
-/

namespace Sysml.Xml

/-- With more fuel than there is text, the text inside the open elements is cut into these pieces,
up to what follows. -/
def Yields (opened : List String) (text : List Char) (pieces : List Piece) (after : List Char) :
    Prop :=
  ∀ fuel, text.length < fuel → content {} fuel [] false opened text = .ok (pieces, after)

variable {opened : List String} {pieces : List Piece} {rest after : List Char}

/-- A tag that opens an element, and may close it. -/
theorem yields_opening {name : String} (isTagName : IsTagName name)
    {entries : List (String × String)} (names : ∀ entry ∈ entries, IsTagName entry.1)
    (distinct : (entries.map (·.1)).Nodup) (closes : Bool)
    (others : Yields (if closes then opened else name :: opened) rest pieces after) :
    Yields opened ('<' :: (name.toList ++ (attributesText entries ++ (tagEnd closes ++ rest))))
      (.opening name entries :: if closes then .closing :: pieces else pieces) after := by
  intro fuel enough
  obtain ⟨c, tail, chars, isStart⟩ := isTagName.head
  have apart {d : Char} (noStart : isNameStart d = false) : c ≠ d := by
    rintro rfl
    rw [isStart] at noStart
    cases noStart
  have noSlash : c ≠ '/' := apart (isNameStart_delimiter (by decide))
  have noMark : c ≠ '?' := apart (isNameStart_delimiter (by decide))
  have noBang : c ≠ '!' := apart (isNameStart_delimiter (by decide))
  have opens := fullName_append isTagName (ends_attributes entries closes rest)
  have tagged := attributes_written names distinct name closes rest
  cases fuel with
  | zero => cases enough
  | succ fuel =>
    have isRead := others fuel (by simp at enough; omega)
    rw [chars, List.cons_append] at opens ⊢
    unfold content
    split <;> rename_i whole
    case h_7 =>
      obtain rfl := (List.cons.inj whole).2
      simp only [bind, Except.bind, opens, tagged]
      cases closes with
      | true =>
        simp only [↓reduceIte] at isRead ⊢
        rw [isRead]
        rfl
      | false =>
        simp only [Bool.false_eq_true, ↓reduceIte] at isRead ⊢
        rw [isRead]
        rfl
    case h_8 => exact (whole _ rfl).elim
    all_goals simp [noSlash, noMark, noBang] at whole

/-- A tag that closes the last of several open elements. -/
theorem yields_closing {name : String} (isTagName : IsTagName name) {outer : List String}
    (some_ : outer ≠ []) (others : Yields outer rest pieces after) :
    Yields (name :: outer) ('<' :: '/' :: (name.toList ++ '>' :: rest)) (.closing :: pieces)
      after := by
  intro fuel enough
  have closes := fullName_append isTagName (ends_greater rest)
  have isEnd : expect ">" (skipSpace ('>' :: rest)) = .ok rest := rfl
  cases fuel with
  | zero => cases enough
  | succ fuel =>
    have isRead := others fuel (by simp at enough; omega)
    rw [content]
    simp [bind, Except.bind, closes, isEnd, isRead, some_]
    rfl

/-- The tag that closes the only open element ends the content. -/
theorem yields_end {name : String} (isTagName : IsTagName name) (after : List Char) :
    Yields [name] ('<' :: '/' :: (name.toList ++ '>' :: after)) [.closing] after := by
  intro fuel enough
  have closes := fullName_append isTagName (ends_greater after)
  have isEnd : expect ">" (skipSpace ('>' :: after)) = .ok after := rfl
  cases fuel with
  | zero => cases enough
  | succ fuel =>
    rw [content]
    simp [bind, Except.bind, closes, isEnd]
    rfl

/-- A reference to a character is a piece of text. -/
theorem yields_reference {tail : List Char} {c : Char}
    (isReference : reference (tail ++ rest) = .ok (.char c, rest))
    (others : Yields opened rest pieces after) :
    Yields opened ('&' :: (tail ++ rest)) (.text [c] :: pieces) after := by
  intro fuel enough
  cases fuel with
  | zero => cases enough
  | succ fuel =>
    have isRead := others fuel (by simp at enough; omega)
    rw [content]
    simp only [bind, Except.bind, isReference, isRead]
    rfl

theorem splitAt?_none {word : List Char} {c : Char} (listed : c ∈ word) {text : List Char}
    (absent : c ∉ text) : splitAt? word text = none := by
  induction text with
  | nil =>
    have some_ : word.isEmpty = false := by
      cases word with
      | nil => cases listed
      | cons _ _ => rfl
    rw [splitAt?, if_neg (by simp [some_])]
  | cons d text ih =>
    have noPrefix : ¬ word.isPrefixOf (d :: text) = true := fun isPrefix =>
      absent ((List.isPrefixOf_iff_prefix.mp isPrefix).subset listed)
    rw [splitAt?, if_neg noPrefix, ih fun inside => absent (List.mem_cons_of_mem d inside)]
    rfl

/-- Characters that are no markup are a piece of text up to the next markup. -/
theorem yields_plain {c : Char} {plain : List Char}
    (noMarkup : ∀ d ∈ c :: plain, d ≠ '<' ∧ d ≠ '&' ∧ d ≠ '>')
    (ends : ∀ d ∈ rest.head?, (d != '<' && d != '&') = false)
    (others : Yields opened rest pieces after) :
    Yields opened (c :: plain ++ rest) (.text (c :: plain) :: pieces) after := by
  intro fuel enough
  obtain ⟨noLess, noAmpersand, -⟩ := noMarkup c List.mem_cons_self
  have noEnd : splitAt? "]]>".toList (c :: plain) = none :=
    splitAt?_none (by decide : '>' ∈ "]]>".toList) fun listed => (noMarkup '>' listed).2.2 rfl
  have taken : (c :: plain ++ rest).takeWhile (fun c => c != '<' && c != '&') = c :: plain :=
    (takeWhile_dropWhile_append (fun d listed => by simp [noMarkup d listed]) ends).1
  have dropped : (c :: plain ++ rest).drop (c :: plain).length = rest := List.drop_left
  cases fuel with
  | zero => cases enough
  | succ fuel =>
    have isRead := others fuel (by simp at enough; omega)
    unfold content
    split <;> rename_i whole
    case h_8 =>
      simp only [taken, noEnd, dropped, bind, Except.bind, isRead]
      rfl
    all_goals simp [noLess, noAmpersand] at whole

/-! ## Text -/

def escapedText (text : List Char) : List Char :=
  text.flatMap fun c => (textChar c).toList

theorem toList_escaped (text : String) :
    (escaped textChar text).toList = escapedText text.toList := by
  rw [escaped, String.toList_join, List.flatMap_map, escapedText]

theorem escapedText_append (text more : List Char) :
    escapedText (text ++ more) = escapedText text ++ escapedText more :=
  List.flatMap_append

def isPlain (c : Char) : Bool :=
  c != '<' && c != '&' && c != '>'

theorem isPlain_iff {c : Char} : isPlain c = true ↔ c ≠ '<' ∧ c ≠ '&' ∧ c ≠ '>' := by
  simp [isPlain, and_assoc]

theorem escapedText_plain {text : List Char} (plain : ∀ c ∈ text, isPlain c = true) :
    escapedText text = text := by
  induction text with
  | nil => rfl
  | cons c text ih =>
    obtain ⟨isPlain_, others⟩ := List.forall_mem_cons.mp plain
    obtain ⟨noLess, noAmpersand, noGreater⟩ := isPlain_iff.mp isPlain_
    have same : (textChar c).toList = [c] := by
      simp [textChar, noLess, noAmpersand, noGreater]
    have chars : escapedText (c :: text) = (textChar c).toList ++ escapedText text :=
      List.flatMap_cons
    rw [chars, same, ih others]
    rfl

/-- A character that is markup is written as a reference. -/
theorem escapedText_markup {c : Char} (markup : isPlain c = false) (text : List Char) :
    ∃ tail, escapedText (c :: text) = '&' :: (tail ++ escapedText text) ∧
      ∀ rest, reference (tail ++ rest) = .ok (.char c, rest) := by
  have chars : escapedText (c :: text) = (textChar c).toList ++ escapedText text :=
    List.flatMap_cons
  rcases standsFor_textChar c with ⟨tail, isReference, isRead⟩ | ⟨-, noMarkup⟩
  · exact ⟨tail, by rw [chars, isReference, List.cons_append], isRead⟩
  · rw [isPlain_iff.mpr noMarkup] at markup
    cases markup

/-- Escaped characters are cut into texts that are together these characters. -/
theorem yields_text (text : List Char) (isMarkup : rest.head? = some '<')
    (others : Yields opened rest pieces after) :
    ∃ chunks : List (List Char), chunks.flatten = text ∧
      Yields opened (escapedText text ++ rest) (chunks.map .text ++ pieces) after := by
  -- After a run of plain characters stands a reference or the end of the text.
  induction size : text.length using Nat.strongRecOn generalizing text with
  | _ size ih =>
    cases text with
    | nil => exact ⟨[], rfl, others⟩
    | cons c text =>
      cases isPlain_ : isPlain c with
      | false =>
        obtain ⟨tail, chars, isReference⟩ := escapedText_markup isPlain_ text
        obtain ⟨chunks, whole, isRead⟩ := ih text.length (by simp [← size]) text rfl
        refine ⟨[c] :: chunks, by simp [whole], ?_⟩
        rw [chars, List.cons_append, List.append_assoc]
        exact yields_reference (isReference _) isRead
      | true =>
        obtain ⟨chunks, whole, isRead⟩ := ih (text.dropWhile isPlain).length
          (by rw [← size]; exact Nat.lt_succ_of_le (List.dropWhile_suffix _).length_le) _ rfl
        have plain : ∀ d ∈ c :: text.takeWhile isPlain, isPlain d = true :=
          List.forall_mem_cons.mpr ⟨isPlain_, List.all_eq_true.mp List.all_takeWhile⟩
        have split_ : c :: text = c :: text.takeWhile isPlain ++ text.dropWhile isPlain := by
          rw [List.cons_append, List.takeWhile_append_dropWhile]
        have chars : escapedText (c :: text) ++ rest = c :: text.takeWhile isPlain ++
            (escapedText (text.dropWhile isPlain) ++ rest) := by
          rw [split_, escapedText_append, escapedText_plain plain, List.append_assoc]
        have ends : ∀ d ∈ (escapedText (text.dropWhile isPlain) ++ rest).head?,
            (d != '<' && d != '&') = false := by
          cases later : text.dropWhile isPlain with
          | nil =>
            intro d isHead
            rw [escapedText, List.flatMap_nil, List.nil_append, isMarkup] at isHead
            cases isHead
            rfl
          | cons d later_ =>
            have markup : isPlain d = false := by
              have := List.head?_dropWhile_not isPlain text
              rw [later] at this
              simpa using this
            obtain ⟨tail, chars, -⟩ := escapedText_markup markup later_
            rw [chars]
            rintro _ ⟨⟩
            rfl
        refine ⟨(c :: text.takeWhile isPlain) :: chunks, ?_, ?_⟩
        · rw [List.flatten_cons, whole, ← split_]
        · rw [chars]
          exact yields_plain (fun d listed => isPlain_iff.mp (plain d listed)) ends isRead

end Sysml.Xml

namespace Sysml.Xml

structure Names (scope : Scope) (written name : String) : Prop where
  isTagName : IsTagName written
  free : declared? written = none
  resolved : ∀ isElement, resolveName scope isElement written = .ok name

def writtenUnder (name : String → String) (attributes : List (String × AttributeValue)) :
    List (String × String) :=
  attributes.map fun entry => (name entry.1, entry.2.content)

/-- A tree with names that can be written, and with texts as the values of attributes. -/
inductive Sound (scope : Scope) (name : String → String) : Element → Prop where
  | node {tag : String} {attributes : List (String × AttributeValue)} {text : String}
      {children : List Element} (named : Names scope (name tag) tag)
      (keys : ∀ entry ∈ attributes, Names scope (name entry.1) entry.1)
      (values : ∀ entry ∈ attributes, ∃ value, entry.2 = .text value)
      (distinct : (attributes.map (·.1)).Nodup)
      (inside : ∀ child ∈ children, Sound scope name child) :
      Sound scope name (.node tag attributes text children)

variable {scope : Scope} {name : String → String}

/-! ## Attributes -/

section Attributes

variable {attributes : List (String × AttributeValue)}
  (keys : ∀ entry ∈ attributes, Names scope (name entry.1) entry.1)

include keys

theorem writtenUnder_names : ∀ entry ∈ writtenUnder name attributes, IsTagName entry.1 := by
  intro entry listed
  obtain ⟨field, isField, rfl⟩ := List.mem_map.mp listed
  exact (keys field isField).isTagName

/-- Different names are written differently. -/
theorem writtenUnder_distinct (distinct : (attributes.map (·.1)).Nodup) :
    ((writtenUnder name attributes).map (·.1)).Nodup := by
  rw [writtenUnder, List.map_map, List.Nodup, List.pairwise_map]
  refine (List.pairwise_map.mp distinct).imp_of_mem fun {one other} isOne isOther apart same => ?_
  have resolved := (keys one isOne).resolved false
  have same : name one.1 = name other.1 := same
  rw [same, (keys other isOther).resolved false] at resolved
  exact apart (Except.ok.inj resolved).symm

/-- The names of attributes are told from what is written. -/
theorem resolveAttributes_written (distinct : (attributes.map (·.1)).Nodup) :
    resolveAttributes scope (writtenUnder name attributes) = .ok (contents attributes) := by
  induction attributes with
  | nil => rfl
  | cons entry attributes ih =>
    obtain ⟨named, others⟩ := List.forall_mem_cons.mp keys
    obtain ⟨fresh, distinct⟩ := List.nodup_cons.mp distinct
    have absent : (contents attributes).lookup entry.1 = none := by
      rw [List.lookup_eq_none_iff]
      intro other listed
      obtain ⟨field, isField, rfl⟩ := List.mem_map.mp listed
      have apart : entry.1 ≠ field.1 := fun same =>
        fresh (List.mem_map.mpr ⟨field, isField, same.symm⟩)
      simpa using apart
    change resolveAttributes scope ((name entry.1, entry.2.content) :: writtenUnder name attributes)
      = _
    rw [resolveAttributes, ih others distinct]
    simp only [bind, Except.bind, named.free, named.resolved, absent]
    rfl

theorem declareAll_written : declareAll scope (writtenUnder name attributes) = .ok scope := by
  induction attributes with
  | nil => rfl
  | cons entry attributes ih =>
    obtain ⟨named, others⟩ := List.forall_mem_cons.mp keys
    change declareAll scope ((name entry.1, entry.2.content) :: writtenUnder name attributes) = _
    rw [declareAll, named.free]
    exact ih others

end Attributes

/-- An element that is opened has its name and attributes. -/
theorem make_written {tag : String} (named : Names scope (name tag) tag)
    {attributes : List (String × AttributeValue)}
    (keys : ∀ entry ∈ attributes, Names scope (name entry.1) entry.1)
    (distinct : (attributes.map (·.1)).Nodup) :
    OpenElement.make scope (name tag) (writtenUnder name attributes) =
      .ok { name := tag, attributes := contents attributes, scope } := by
  unfold OpenElement.make
  rw [declareAll_written keys]
  simp only [bind, Except.bind, resolveAttributes_written keys distinct, named.resolved]
  rfl

/-! ## What pieces add to an element -/

/-- The element with texts before its first child. -/
theorem build_texts (opened : OpenElement) (outer : List OpenElement) (chunks : List (List Char))
    (rest : List Piece) :
    build (opened :: outer) (chunks.map .text ++ rest) =
      build (chunks.foldl OpenElement.addText opened :: outer) rest := by
  induction chunks generalizing opened with
  | nil => rfl
  | cons chunk chunks ih =>
    rw [List.map_cons, List.cons_append, build, List.foldl_cons]
    exact ih _

def OpenElement.filled (opened : OpenElement) (texts : List (List Char)) (children : List Element) :
    OpenElement :=
  { opened with
    text := if opened.children.isEmpty then texts.reverse ++ opened.text else opened.text
    children := children.reverse ++ opened.children }

theorem foldl_addText (opened : OpenElement) (chunks : List (List Char)) :
    chunks.foldl OpenElement.addText opened = opened.filled chunks [] := by
  induction chunks generalizing opened with
  | nil => cases opened; simp [OpenElement.filled]
  | cons chunk chunks ih =>
    rw [List.foldl_cons, ih, OpenElement.addText]
    cases empty : opened.children.isEmpty <;> simp [empty, OpenElement.filled]

/-- After a child texts do not count. -/
theorem OpenElement.filled_addChild (opened : OpenElement) (chunks later : List (List Char))
    (child : Element) (children : List Element) :
    ((opened.filled chunks []).addChild child).filled later children =
      opened.filled chunks (child :: children) := by
  simp [OpenElement.filled, OpenElement.addChild]

def Adds (scope : Scope) (pieces : List Piece) (child : Element) : Prop :=
  ∀ (parent : OpenElement) (outer : List OpenElement) (rest : List Piece), parent.scope = scope →
    build (parent :: outer) (pieces ++ rest) = build (parent.addChild child :: outer) rest

/-- Inside of an open element the text is read to the pieces of a child like this element. -/
def IsRead (scope : Scope) (text : List Char) (element : Element) : Prop :=
  ∀ (opened : List String) (rest : List Char) (others : List Piece) (after : List Char),
    opened ≠ [] → Yields opened rest others after →
      ∃ pieces read, alike read element = true ∧ Adds scope pieces read ∧
        Yields opened (text ++ rest) (pieces ++ others) after

/-- What stands between the tags of an element. -/
def insideText (name : String → String) (depth : Nat) (text : String) (children : List Element) :
    List Char :=
  (escaped textChar text).toList ++
    if children.isEmpty then []
    else (childrenText name (depth + 1) children).toList ++ (lineStart depth).toList

/-- White space is no markup. -/
theorem escapedText_lineStart (depth : Nat) :
    escapedText (lineStart depth).toList = (lineStart depth).toList := by
  refine escapedText_plain fun c listed => ?_
  have blank : c = '\n' ∨ c = ' ' := by
    simp [lineStart] at listed
    rcases listed with feed | ⟨-, isBlank⟩
    · exact .inl feed
    · exact .inr isBlank
  rcases blank with rfl | rfl <;> rfl

theorem elementText_head (declarations : String) (depth : Nat) (element : Element)
    (rest : List Char) :
    ((elementText name declarations depth element).toList ++ rest).head? = some '<' := by
  cases element
  unfold elementText
  dsimp only
  split
  · split <;> simp
  · simp

/-- Children are read one after the other; the white space before them counts with the text before,
or not at all. -/
theorem children_read {children : List Element} (depth : Nat)
    (areRead : ∀ child ∈ children,
      IsRead scope (elementText name "" depth child).toList child)
    (before : List Char) (last : Nat) {opened : List String} {rest : List Char}
    {others : List Piece} {after : List Char} (some_ : opened ≠ [])
    (isMarkup : rest.head? = some '<') (isRest : Yields opened rest others after) :
    ∃ pieces chunks reads, allAlike reads children = true ∧
      Yields opened (escapedText before ++ ((childrenText name depth children).toList ++
        ((lineStart last).toList ++ rest))) (pieces ++ others) after ∧
      ∀ (parent : OpenElement) (outer : List OpenElement) (more : List Piece), parent.scope = scope →
        build (parent :: outer) (pieces ++ more) =
          build (parent.filled chunks reads :: outer) more := by
  induction children generalizing before with
  | nil =>
    obtain ⟨chunks, -, isRead⟩ := yields_text (before ++ (lineStart last).toList) isMarkup isRest
    refine ⟨chunks.map .text, chunks, [], rfl, ?_, fun parent outer more _ => ?_⟩
    · rw [escapedText_append, escapedText_lineStart, List.append_assoc] at isRead
      rw [childrenText]
      exact isRead
    · rw [build_texts, foldl_addText]
  | cons child children ih =>
    obtain ⟨first, later⟩ := List.forall_mem_cons.mp areRead
    obtain ⟨laterPieces, laterChunks, laterReads, same, isLater, adds⟩ := ih later []
    obtain ⟨ownPieces, read, alike_, addsOwn, isOwn⟩ := first opened _ _ after some_ isLater
    obtain ⟨chunks, -, isRead⟩ := yields_text (before ++ (lineStart depth).toList)
      (elementText_head "" depth child _) isOwn
    refine ⟨chunks.map .text ++ (ownPieces ++ laterPieces), chunks, read :: laterReads,
      by rw [allAlike, alike_, same]; rfl, ?_, fun parent outer more inScope => ?_⟩
    · have text : escapedText before ++ ((childrenText name depth (child :: children)).toList ++
            ((lineStart last).toList ++ rest)) =
          escapedText (before ++ (lineStart depth).toList) ++
            ((elementText name "" depth child).toList ++ (escapedText [] ++
              ((childrenText name depth children).toList ++ ((lineStart last).toList ++ rest)))) := by
        rw [escapedText_append, escapedText_lineStart, childrenText]
        simp [escapedText]
      rw [text, List.append_assoc, List.append_assoc]
      exact isRead
    · rw [List.append_assoc, List.append_assoc, build_texts, foldl_addText,
        addsOwn (parent.filled chunks []) outer _ inScope,
        adds ((parent.filled chunks []).addChild read) outer more inScope,
        OpenElement.filled_addChild]

/-- What stands between the tags of an element is read to its children, and to its text if there
are none. -/
theorem inside_read {children : List Element} (depth : Nat) (text : String)
    (areRead : ∀ child ∈ children,
      IsRead scope (elementText name "" (depth + 1) child).toList child)
    {opened : List String} {rest : List Char} {others : List Piece} {after : List Char}
    (some_ : opened ≠ []) (isMarkup : rest.head? = some '<')
    (isRest : Yields opened rest others after) :
    ∃ pieces chunks reads, allAlike reads children = true ∧
      (children = [] → chunks.flatten = text.toList) ∧
      Yields opened (insideText name depth text children ++ rest) (pieces ++ others) after ∧
      ∀ (parent : OpenElement) (outer : List OpenElement) (more : List Piece), parent.scope = scope →
        build (parent :: outer) (pieces ++ more) =
          build (parent.filled chunks reads :: outer) more := by
  cases children with
  | nil =>
    obtain ⟨chunks, whole, isRead⟩ := yields_text text.toList isMarkup isRest
    refine ⟨chunks.map .text, chunks, [], rfl, fun _ => whole, ?_, fun parent outer more _ => ?_⟩
    · rw [insideText, toList_escaped]
      simpa using isRead
    · rw [build_texts, foldl_addText]
  | cons child children =>
    obtain ⟨pieces, chunks, reads, same, isRead, filled⟩ :=
      children_read (depth + 1) areRead text.toList depth some_ isMarkup isRest
    refine ⟨pieces, chunks, reads, same, nofun, ?_, filled⟩
    rw [insideText, toList_escaped]
    simpa using isRead

/-- The element that is closed is like the one that was written. -/
theorem alike_close (scope : Scope) {tag text : String} {attributes : List (String × AttributeValue)}
    {children reads : List Element} {chunks : List (List Char)}
    (same : allAlike reads children = true) (whole : children = [] → chunks.flatten = text.toList) :
    alike (OpenElement.filled { name := tag, attributes := contents attributes, scope } chunks
      reads).close (.node tag attributes text children) = true := by
  have values : contents ((contents attributes).map fun entry => (entry.1, .text entry.2)) =
      contents attributes := by
    simp [contents, AttributeValue.content]
  simp only [OpenElement.filled, OpenElement.close, alike, values]
  cases children with
  | nil => simp [whole rfl, same]
  | cons _ _ => simp [same]

/-- An element as it is written: a tag that closes it, or two tags with something between. -/
theorem elementText_eq (name : String → String) (declarations : String) (depth : Nat)
    {tag text : String} {attributes : List (String × AttributeValue)} {children : List Element}
    (values : ∀ entry ∈ attributes, ∃ value, entry.2 = .text value) :
    (elementText name declarations depth (.node tag attributes text children)).toList =
      '<' :: ((name tag).toList ++ (declarations.toList ++
        (attributesText (writtenUnder name attributes) ++
          if children.isEmpty && text.isEmpty then tagEnd true
          else tagEnd false ++ (insideText name depth text children ++
            '<' :: '/' :: ((name tag).toList ++ ['>']))))) := by
  have joined : (String.join (attributes.map fun entry => attributeText (name entry.1) entry.2)).toList =
      attributesText (writtenUnder name attributes) := by
    have same : (attributes.map fun entry => attributeText (name entry.1) entry.2) =
        (writtenUnder name attributes).map fun entry => attributeText entry.1 (.text entry.2) := by
      rw [writtenUnder, List.map_map]
      refine List.map_congr_left fun entry listed => ?_
      obtain ⟨value, isValue⟩ := values entry listed
      simp [isValue, AttributeValue.content]
    rw [same, String.toList_join, List.flatMap_map]
    rfl
  unfold elementText
  simp only [insideText]
  cases children with
  | nil =>
    cases empty : text.isEmpty <;> simp [joined, tagEnd]
  | cons child children => simp [joined, tagEnd]

/-- A tree inside of an element is read as it was written. -/
theorem Sound.isRead {element : Element} (sound : Sound scope name element) (depth : Nat) :
    IsRead scope (elementText name "" depth element).toList element := by
  induction sound generalizing depth with
  | @node tag attributes text children named keys values distinct _ ih =>
    intro opened rest others after some_ isRest
    have names := writtenUnder_names keys
    have apart := writtenUnder_distinct keys distinct
    have opens (parent : OpenElement) (outer : List OpenElement) (more : List Piece)
        (inScope : parent.scope = scope) :
        build (parent :: outer) (.opening (name tag) (writtenUnder name attributes) :: more) =
          build ({ name := tag, attributes := contents attributes, scope } :: parent :: outer)
            more := by
      subst inScope
      simp only [build, List.head?_cons, Option.map_some, Option.getD_some,
        make_written named keys distinct]
      rfl
    rw [elementText_eq name "" depth values]
    cases empty : children.isEmpty && text.isEmpty with
    | true =>
      obtain ⟨noChildren, noText⟩ := Bool.and_eq_true _ _ ▸ empty
      obtain rfl := List.isEmpty_iff.mp noChildren
      have whole : [].flatten = text.toList := by simp [String.isEmpty_iff.mp noText]
      have same : allAlike [] [] = true := rfl
      refine ⟨[.opening (name tag) (writtenUnder name attributes), .closing], _,
        alike_close scope same fun _ => whole, fun parent outer more inScope => ?_, ?_⟩
      · exact opens parent outer (.closing :: more) inScope
      · have isOpening := yields_opening named.isTagName names apart true isRest
        simpa using isOpening
    | false =>
      obtain ⟨pieces, chunks, reads, same, whole, isInside, filled⟩ :=
        inside_read depth text (fun child isChild => ih child isChild (depth + 1))
          (List.cons_ne_nil (name tag) opened) (by rfl)
          (yields_closing named.isTagName some_ isRest)
      refine ⟨.opening (name tag) (writtenUnder name attributes) :: (pieces ++ [.closing]), _,
        alike_close scope same whole, fun parent outer more inScope => ?_, ?_⟩
      · rw [List.cons_append, opens _ _ _ inScope, List.append_assoc, filled _ _ _ rfl]
        rfl
      · have isOpening := yields_opening named.isTagName names apart false isInside
        simpa using isOpening

end Sysml.Xml
