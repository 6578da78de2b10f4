import Sysml.Proofs.Xml.Tree

/-!
# Names in namespaces

The root of a written tree declares an abbreviation for each namespace in use. Inside of it a name
that is written with the abbreviation stands for the name in the namespace (`names_written`).
-/

set_option autoImplicit false

namespace Sysml.Xml

/-! ## Labels -/

section Labels

variable {label : String} (isLabel : isName label = true)

include isLabel

theorem not_mem_name {c : Char} (noName : isNameChar c = false) : c ∉ label.toList := by
  obtain ⟨-, all⟩ := Bool.and_eq_true _ _ ▸ isLabel
  intro listed
  rw [List.all_eq_true.mp all c listed] at noName
  cases noName

theorem noColon_name : ∀ c ∈ label.toList, (c != ':') = true := by
  intro c listed
  have apart : c ≠ ':' := by
    rintro rfl
    exact not_mem_name isLabel (isNameChar_delimiter (by decide)) listed
  simpa using apart

theorem splitName_qualified (space : String) :
    splitName (qualified space label) = some (some space, label) := by
  have chars : (qualified space label).toList =
      '\x7b' :: (space.toList ++ '\x7d' :: label.toList) := by
    simp [qualified]
  have taken : (space.toList ++ '\x7d' :: label.toList).take
      ((space.toList ++ '\x7d' :: label.toList).length - label.length - 1) = space.toList := by
    have length : (space.toList ++ '\x7d' :: label.toList).length - label.length - 1 =
        space.toList.length := by
      rw [← String.length_toList, List.length_append, List.length_cons]
      omega
    rw [length, List.take_left]
  have ends : (space.toList ++ '\x7d' :: label.toList).contains '\x7d' = true := by simp
  unfold splitName
  simp only [chars, ends, ↓reduceIte, taken, String.ofList_toList,
    localName_qualified (not_mem_name isLabel (isNameChar_delimiter (by decide)))]

theorem head?_name : label.toList.head? ≠ some '\x7b' := by
  obtain ⟨c, rest, chars, isStart⟩ := (IsTagName.plain isLabel).head
  rw [chars]
  intro same
  rw [Option.some.inj same] at isStart
  rw [isNameStart_delimiter (by decide)] at isStart
  cases isStart

theorem splitName_label : splitName label = some (none, label) := by
  unfold splitName
  split
  · next chars => exact absurd (by rw [chars]; rfl) (head?_name isLabel)
  · rfl

theorem splitColon_label : splitColon label = (none, label) := by
  have none_ : label.toList.dropWhile (· != ':') = [] := by
    rw [← List.append_nil label.toList, List.dropWhile_append_of_pos (noColon_name isLabel),
       List.dropWhile_nil]
  simp only [splitColon, none_]

end Labels

theorem splitColon_short {short : String} (isShort : isName short = true) (label : String) :
    splitColon (short ++ ":" ++ label) = (some short, label) := by
  have stops : ∀ c ∈ (':' :: label.toList).head?, (c != ':') = false := by
    rintro _ ⟨⟩
    rfl
  have chars : (short ++ ":" ++ label).toList = short.toList ++ ':' :: label.toList := by
    simp
  obtain ⟨taken, dropped⟩ := takeWhile_dropWhile_append (noColon_name isShort) stops
  simp only [splitColon, chars, taken, dropped, String.ofList_toList]

/-! ## Namespaces -/

/-- Namespaces and abbreviations that can be declared together. -/
structure AreKnown (known : List (String × String)) : Prop where
  spaces : (known.map (·.1)).Nodup
  shorts : (known.map (·.2)).Nodup
  names : ∀ entry ∈ known, isName entry.2 = true ∧ entry.2 ≠ "xml"
  declarable : ∀ entry ∈ known, mayDeclare entry.2 entry.1 = true
  allowed : ∀ entry ∈ known, entry.1.toList.all isAllowed = true

/-- A name outside of all namespaces or in one of these. -/
inductive IsIn (known : List (String × String)) : String → Prop where
  | plain {label : String} (isLabel : isName label = true) (free : label ≠ "xmlns") :
      IsIn known label
  | qualified {space short label : String} (isKnown : (space, short) ∈ known)
      (isLabel : isName label = true) : IsIn known (qualified space label)

variable {known used : List (String × String)}

theorem IsIn.mono (listed : used ⊆ known) {name : String} (isIn : IsIn used name) :
    IsIn known name := by
  cases isIn with
  | plain isLabel free => exact .plain isLabel free
  | qualified isUsed isLabel => exact .qualified (listed isUsed) isLabel

theorem IsIn.isSplit {name : String} (isIn : IsIn known name) : IsSplit name := by
  cases isIn with
  | plain isLabel free => rw [IsSplit, splitName_label isLabel]; rfl
  | qualified isKnown isLabel => rw [IsSplit, splitName_qualified isLabel]; rfl

/-- Of entries under different keys, the one that is listed is found. -/
theorem lookup_of_mem {α β : Type} [BEq α] [LawfulBEq α] {entries : List (α × β)}
    (distinct : (entries.map (·.1)).Nodup) {key : α} {value : β} (listed : (key, value) ∈ entries) :
    entries.lookup key = some value := by
  induction entries with
  | nil => cases listed
  | cons entry rest ih =>
    obtain ⟨fresh, others⟩ := List.nodup_cons.mp distinct
    rcases List.mem_cons.mp listed with rfl | later
    · rw [List.lookup_cons, BEq.rfl]
    · have apart : (key == entry.1) = false := by
        rw [beq_eq_false_iff_ne]
        exact fun same => fresh (List.mem_map.mpr ⟨_, later, same⟩)
      rw [List.lookup_cons, apart]
      exact ih others later

/-- The namespaces noted so far are among those that are known, each once. -/
structure Notes (known used : List (String × String)) : Prop where
  listed : used ⊆ known
  spaces : (used.map (·.1)).Nodup

/-- Noted namespaces can be declared together. -/
theorem Notes.areKnown (notes : Notes known used) (areKnown : AreKnown known) : AreKnown used where
  spaces := notes.spaces
  shorts := by
    rw [List.Nodup, List.pairwise_map]
    refine (List.pairwise_map.mp notes.spaces).imp_of_mem fun {one other} isOne isOther apart same => ?_
    have swapped : (known.map fun entry => (entry.2, entry.1)).map (·.1) = known.map (·.2) := by
      rw [List.map_map]
      rfl
    have found {entry : String × String} (isEntry : entry ∈ used) :
        (known.map fun entry => (entry.2, entry.1)).lookup entry.2 = some entry.1 :=
      lookup_of_mem (swapped ▸ areKnown.shorts)
        (List.mem_map.mpr ⟨entry, notes.listed isEntry, rfl⟩)
    have first := found isOne
    rw [same, found isOther] at first
    exact apart (Option.some.inj first).symm
  names entry isEntry := areKnown.names entry (notes.listed isEntry)
  declarable entry isEntry := areKnown.declarable entry (notes.listed isEntry)
  allowed entry isEntry := areKnown.allowed entry (notes.listed isEntry)

/-! ## Writing -/

theorem lookup_known (areKnown : AreKnown known) {space short : String}
    (isKnown : (space, short) ∈ known) (more : List (String × String)) :
    (known ++ more).lookup space = some short := by
  rw [List.lookup_append, lookup_of_mem areKnown.spaces isKnown]
  rfl

/-- A namespace in use has its known abbreviation. -/
theorem abbreviation_known (areKnown : AreKnown known) (notes : Notes known used)
    {space short : String} (isKnown : (space, short) ∈ known) :
    abbreviation (known ++ wellKnown) used space = short := by
  rw [abbreviation, lookup_known areKnown isKnown]
  cases found : used.lookup space with
  | none => rfl
  | some other =>
    obtain ⟨before, after, whole, -⟩ := List.lookup_eq_some_iff.mp found
    have isOther : (space, other) ∈ known := notes.listed (by rw [whole]; simp)
    have same := lookup_of_mem areKnown.spaces isKnown
    rw [lookup_of_mem areKnown.spaces isOther] at same
    exact Option.some.inj same

/-- A namespace is noted with its abbreviation. -/
theorem useName_notes (areKnown : AreKnown known) (notes : Notes known used) {name : String}
    (isIn : IsIn known name) {after : List (String × String)}
    (isUsed : useName (known ++ wellKnown) used name = some after) :
    Notes known after ∧ used ⊆ after ∧ IsIn after name := by
  cases isIn with
  | plain isLabel free =>
    simp only [useName, splitName_label isLabel, Option.bind_eq_bind, Option.bind_some] at isUsed
    obtain rfl := Option.some.inj isUsed
    exact ⟨notes, List.Subset.refl _, .plain isLabel free⟩
  | @qualified space short label isKnown isLabel =>
    have noXml : short ≠ "xml" := (areKnown.names _ isKnown).2
    simp only [useName, splitName_qualified isLabel, Option.bind_eq_bind, Option.bind_some,
      abbreviation_known areKnown notes isKnown] at isUsed
    cases found : used.lookup space with
    | none =>
      simp only [found, noXml, Option.isSome_none, decide_false, Bool.or_self, Bool.false_eq_true,
        ↓reduceIte] at isUsed
      obtain rfl := Option.some.inj isUsed
      have fresh : space ∉ used.map (·.1) := by
        intro listed
        obtain ⟨entry, isEntry, rfl⟩ := List.mem_map.mp listed
        simpa using List.lookup_eq_none_iff.mp found entry isEntry
      refine ⟨⟨List.append_subset.mpr ⟨notes.listed, by simpa using isKnown⟩, ?_⟩,
        List.subset_append_left ..,
        .qualified (List.mem_append_right _ (List.mem_singleton.mpr rfl)) isLabel⟩
      rw [List.map_append]
      exact (List.perm_append_singleton _ _).nodup_iff.mpr
        (List.nodup_cons.mpr ⟨fresh, notes.spaces⟩)
    | some other =>
      simp only [found, Option.isSome_some, Bool.or_true, ↓reduceIte] at isUsed
      obtain rfl := Option.some.inj isUsed
      obtain ⟨before, later, whole, -⟩ := List.lookup_eq_some_iff.mp found
      have isUsed : (space, other) ∈ used := whole ▸ List.mem_append_right _ List.mem_cons_self
      exact ⟨notes, List.Subset.refl _, .qualified isUsed isLabel⟩

theorem useNames_notes (areKnown : AreKnown known) {names : List String}
    (areIn : ∀ name ∈ names, IsIn known name) (notes : Notes known used)
    {after : List (String × String)}
    (areUsed : names.foldlM (useName (known ++ wellKnown)) used = some after) :
    Notes known after ∧ used ⊆ after ∧ ∀ name ∈ names, IsIn after name := by
  induction names generalizing used with
  | nil =>
    obtain rfl := Option.some.inj areUsed
    exact ⟨notes, List.Subset.refl _, List.forall_mem_nil _⟩
  | cons name rest ih =>
    obtain ⟨first, others⟩ := List.forall_mem_cons.mp areIn
    rw [List.foldlM_cons] at areUsed
    obtain ⟨next, isNext, areUsed⟩ := Option.bind_eq_some_iff.mp areUsed
    obtain ⟨noted, grown, isFirst⟩ := useName_notes areKnown notes first isNext
    obtain ⟨notes, grownToo, isRest⟩ := ih others noted areUsed
    exact ⟨notes, List.Subset.trans grown grownToo,
      List.forall_mem_cons.mpr ⟨isFirst.mono grownToo, isRest⟩⟩

mutual

/-- The namespaces of a tree are noted. -/
theorem useElement_notes (areKnown : AreKnown known) : ∀ (element : Element),
    (∀ name ∈ names element, IsIn known name) → ∀ {used after : List (String × String)},
    Notes known used → useElement (known ++ wellKnown) used element = some after →
      Notes known after ∧ used ⊆ after ∧ ∀ name ∈ names element, IsIn after name
  | .node tag attributes text children, areIn, used, after, notes, isUsed => by
    rw [names, List.cons_append, List.forall_mem_cons, List.forall_mem_append] at areIn
    obtain ⟨isTag, areKeys, areInside⟩ := areIn
    rw [useElement] at isUsed
    obtain ⟨own, isOwn, isUsed⟩ := Option.bind_eq_some_iff.mp isUsed
    obtain ⟨keyed, isKeyed, isUsed⟩ := Option.bind_eq_some_iff.mp isUsed
    obtain ⟨ownNotes, grown, tagged⟩ := useName_notes areKnown notes isTag isOwn
    obtain ⟨keyNotes, grownToo, keys⟩ := useNames_notes areKnown areKeys ownNotes isKeyed
    obtain ⟨afterNotes, grownLast, inside⟩ :=
      useElements_notes areKnown children areInside keyNotes isUsed
    refine ⟨afterNotes, List.Subset.trans grown (List.Subset.trans grownToo grownLast), ?_⟩
    rw [names, List.cons_append, List.forall_mem_cons, List.forall_mem_append]
    exact ⟨tagged.mono (List.Subset.trans grownToo grownLast),
      fun name isKey => (keys name isKey).mono grownLast, inside⟩

theorem useElements_notes (areKnown : AreKnown known) : ∀ (elements : List Element),
    (∀ name ∈ allNames elements, IsIn known name) → ∀ {used after : List (String × String)},
    Notes known used → useElements (known ++ wellKnown) used elements = some after →
      Notes known after ∧ used ⊆ after ∧ ∀ name ∈ allNames elements, IsIn after name
  | [], _, used, after, notes, isUsed => by
    obtain rfl := Option.some.inj isUsed
    exact ⟨notes, List.Subset.refl _, List.forall_mem_nil _⟩
  | element :: rest, areIn, used, after, notes, isUsed => by
    rw [allNames, List.forall_mem_append] at areIn ⊢
    rw [useElements] at isUsed
    obtain ⟨next, isNext, isUsed⟩ := Option.bind_eq_some_iff.mp isUsed
    obtain ⟨noted, grown, first⟩ := useElement_notes areKnown element areIn.1 notes isNext
    obtain ⟨afterNotes, grownToo, others⟩ := useElements_notes areKnown rest areIn.2 noted isUsed
    exact ⟨afterNotes, List.Subset.trans grown grownToo,
      fun name isName => (first name isName).mono grownToo, others⟩

end

/-! ## Reading -/

def declaredScope (declared : List (String × String)) : Scope :=
  (declared.map fun entry => (entry.2, entry.1)).reverse ++ [("xml", xmlSpace)]

def declarations (declared : List (String × String)) : List (String × String) :=
  declared.map fun entry => ("xmlns:" ++ entry.2, entry.1)

theorem declaration_eq (short : String) : "xmlns:" ++ short = "xmlns" ++ ":" ++ short := by
  rw [← String.toList_inj]
  simp

theorem splitColon_declaration (short : String) :
    splitColon ("xmlns:" ++ short) = (some "xmlns", short) := by
  rw [declaration_eq]
  exact splitColon_short (isName_of_isAlpha rfl) short

theorem declared?_declaration (short : String) :
    declared? ("xmlns:" ++ short) = some short := by
  rw [declared?, splitColon_declaration]
  rfl

/-- What is declared counts in front of what was declared before. -/
theorem declareAll_declarations {declared : List (String × String)} (areKnown : AreKnown declared)
    (scope : Scope) (rest : List (String × String)) :
    declareAll scope (declarations declared ++ rest) =
      declareAll ((declared.map fun entry => (entry.2, entry.1)).reverse ++ scope) rest := by
  have declarable := areKnown.declarable
  clear areKnown
  induction declared generalizing scope with
  | nil => rfl
  | cons entry declared ih =>
    change declareAll scope (("xmlns:" ++ entry.2, entry.1) :: (declarations declared ++ rest)) = _
    rw [declareAll, declared?_declaration]
    simp only [declarable entry List.mem_cons_self, ↓reduceIte]
    rw [ih _ fun other listed => declarable other (List.mem_cons_of_mem _ listed)]
    simp

/-- Declarations are no attributes. -/
theorem resolveAttributes_declarations (declared : List (String × String)) (scope : Scope)
    {rest found : List (String × String)}
    (resolved : resolveAttributes scope rest = .ok found) :
    resolveAttributes scope (declarations declared ++ rest) = .ok found := by
  induction declared with
  | nil => exact resolved
  | cons entry declared ih =>
    change resolveAttributes scope
      (("xmlns:" ++ entry.2, entry.1) :: (declarations declared ++ rest)) = _
    rw [resolveAttributes, ih]
    simp [bind, Except.bind, declared?_declaration]
    rfl

theorem AreKnown.perm {declared : List (String × String)} (areKnown : AreKnown used)
    (same : declared.Perm used) : AreKnown declared where
  spaces := (same.map _).nodup_iff.mpr areKnown.spaces
  shorts := (same.map _).nodup_iff.mpr areKnown.shorts
  names entry listed := areKnown.names entry (same.mem_iff.mp listed)
  declarable entry listed := areKnown.declarable entry (same.mem_iff.mp listed)
  allowed entry listed := areKnown.allowed entry (same.mem_iff.mp listed)

/-- A declared abbreviation stands for its namespace. -/
theorem lookup_declaredScope {declared : List (String × String)} (areKnown : AreKnown declared)
    {space short : String} (listed : (space, short) ∈ declared) :
    (declaredScope declared).lookup short = some space := by
  have keys : ((declared.map fun entry => (entry.2, entry.1)).reverse.map (·.1)).Nodup := by
    rw [List.map_reverse, (List.reverse_perm _).nodup_iff, List.map_map]
    exact areKnown.shorts
  have found := lookup_of_mem keys (List.mem_reverse.mpr (List.mem_map.mpr ⟨_, listed, rfl⟩))
  rw [declaredScope, List.lookup_append, found]
  rfl

/-- There is no namespace for names without an abbreviation. -/
theorem lookup_empty {declared : List (String × String)} (areKnown : AreKnown declared) :
    (declaredScope declared).lookup "" = none := by
  rw [List.lookup_eq_none_iff]
  intro entry listed
  rcases List.mem_append.mp listed with isDeclared | isOwn
  · obtain ⟨known, isKnown, rfl⟩ := List.mem_map.mp (List.mem_reverse.mp isDeclared)
    have some_ : known.2 ≠ "" := by
      intro empty
      have isShort := (areKnown.names known isKnown).1
      rw [empty] at isShort
      revert isShort
      decide
    simpa using some_.symm
  · rw [List.mem_singleton.mp isOwn]
    rfl

/-- A name as it is written stands for that name. -/
theorem names_written (areKnown : AreKnown known) (notes : Notes known used)
    {declared : List (String × String)} (same : declared.Perm used) {name : String}
    (isIn : IsIn used name) :
    Names (declaredScope declared) (nameText (known ++ wellKnown) used name) name := by
  have areDeclared := (notes.areKnown areKnown).perm same
  cases isIn with
  | plain isLabel free =>
    have written : nameText (known ++ wellKnown) used name = name := by
      rw [nameText, splitName_label isLabel]
    rw [written]
    refine ⟨.plain isLabel, ?_, fun isElement => ?_⟩
    · rw [declared?, splitColon_label isLabel]
      split
      · next same => exact absurd (Prod.mk.inj same).2 free
      · next same => cases (Prod.mk.inj same).1
      · rfl
    · rw [resolveName, splitColon_label isLabel]
      simp only [lookup_empty areDeclared]
  | @qualified space short label isUsed isLabel =>
    have isKnown := notes.listed isUsed
    have isShort := (areKnown.names _ isKnown).1
    have noDeclaration : short ≠ "xmlns" := by
      have declarable := areKnown.declarable _ isKnown
      simp only [mayDeclare, Bool.and_eq_true, bne_iff_ne] at declarable
      exact declarable.1.1.1.1
    have written : nameText (known ++ wellKnown) used (qualified space label) =
        short ++ ":" ++ label := by
      rw [nameText, splitName_qualified isLabel]
      simp only [abbreviation_known areKnown notes isKnown]
    rw [written]
    refine ⟨.short isShort isLabel, ?_, fun isElement => ?_⟩
    · rw [declared?, splitColon_short isShort]
      split
      · next same => cases (Prod.mk.inj same).1
      · next same => exact absurd (Option.some.inj (Prod.mk.inj same).1) noDeclaration
      · rfl
    · rw [resolveName, splitColon_short isShort]
      simp only [lookup_declaredScope areDeclared (same.mem_iff.mpr isUsed)]

end Sysml.Xml
