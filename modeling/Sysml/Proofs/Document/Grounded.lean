import Sysml.Proofs.Document.Rejoined
import Sysml.Proofs.Scope.Completeness

/-!
# Redefinitions that end

What a redefining feature inherits is looked for while no further query is under way. Where no
feature needs its own redefinition for this, all references of an index that recalls a faithful
document end (`refer_finishes`).
-/

set_option autoImplicit false

/-!
## References that mean what they meant

Where the qualified name of each target leads to no other element, and what a redefining feature
could inherit under the name of its target is the target, each reference of an index that
recalls a document means the target of its relationship (`refer_exact`).
-/

namespace Sysml

open Scope

namespace Document

/-- An element refers to another, other than by an import. -/
def Refers (document : Document) (source target : Record) : Prop :=
  ∃ relation, document.Relates relation source target ∧
    ∃ kind : RefKind, relation.kind = kind.metaclass

/-- What a name means in an element: one of its members, or else what it means in an element
that this one refers to. -/
inductive Gives (document : Document) : Record → String → Record → Prop where
  | own {space found : Record} {name : String} :
      found ∈ document.elements → document.OwnedBy found space → found.AnswersTo name →
      Gives document space name found
  | inherited {space general found : Record} {name : String} :
      (∀ other ∈ document.elements, document.OwnedBy other space → ¬ other.AnswersTo name) →
      document.Refers space general → Gives document general name found →
      Gives document space name found

def Inherits (document : Document) (space : Record) (name : String) (found : Record) : Prop :=
  ∃ general, document.Refers space general ∧ general ≠ space ∧ document.Gives general name found

/-- A document in which the qualified name of each element that is referred to leads to no other
one, and under the name of what a feature redefines nothing else is inherited. -/
structure Faithful (document : Document) : Prop where
  distinct : ∀ source target, document.Refers source target → document.Distinct target
  apart : ∀ relation source target, document.Redefines relation source target → target ≠ source
  sole : ∀ relation source target, document.Redefines relation source target →
    ∀ owner, document.OwnedBy source owner →
      ∀ found, document.Inherits owner target.ownName found → found = target

theorem Faithful.discerned {document : Document} (faithful : document.Faithful)
    (relation source target : Record) (redefines : document.Redefines relation source target) :
    document.Discerned source target :=
  ⟨faithful.apart relation source target redefines, .inl (faithful.distinct source target
    ⟨relation, redefines.toRelates, .redefinition, redefines.kind⟩)⟩

theorem Leads.getLast? {document : Document} {names : List String} {record : Record}
    (leads : document.Leads names record) : names.getLast? = some record.ownName := by
  cases leads with
  | root => rfl
  | member => exact List.getLast?_concat

end Document

section Inheriting

variable {index : Index} {document : Document} {record target owner : Record}
  {symbol holder : Symbol} {name : String} {inv : Memo → Prop}
  (recalls : index.Recalls document) (told : document.Told)

/-- The symbol of an element that answers to a name answers to it. -/
theorem Symbol.Recalls.answers {done : List Record} (isElement : symbol.Recalls document done record)
    (someName : name ≠ "") (answers : record.AnswersTo name) :
    Scope.answersTo name symbol = true := by
  rw [Scope.answersTo, isElement.name, isElement.shortName, Bool.or_eq_true]
  rcases answers with same | isShort
  · exact .inl (beq_iff_eq.mpr same)
  · right
    rw [isShort]
    simp [Key.isAbsent, Value.isAbsent, Key.isText, Value.isText, Value.text?, someName]

/-- A reference to a target leads to the symbol of the target, if to any. -/
def Exact (index : Index) (document : Document) (inv : Memo → Prop)
    (refer : Reference → Symbol → Search (Option Symbol)) : Prop :=
  ∀ symbol ∈ index.symbols, ∀ record, symbol.RecallsAll document record →
    ∀ reference ∈ symbol.references, ∀ relation target, document.Relates relation record target →
      reference.StandsFor relation target →
      Keeps inv (fun found => index.Has found ∧ Meets (Symbol.RecallsAll document target) found)
        (refer reference symbol)

/-- A search finds a symbol whose element a name means in some way. -/
def Finds (index : Index) (document : Document) (meant : Record → Prop) (found : Option Symbol) :
    Prop :=
  Meets (fun symbol => symbol ∈ index.symbols ∧
    ∃ record ∈ document.elements, symbol.RecallsAll document record ∧ meant record) found

variable {refer : Reference → Symbol → Search (Option Symbol)}
  (exact_ : Exact index document inv refer)

include recalls told exact_

theorem inherited_gives {down : Key → List Key → Search (Option Symbol × List Key)}
    (below : ∀ general ∈ index.symbols, ∀ record ∈ document.elements,
      general.RecallsAll document record → ∀ visited, Keeps inv
        (fun answer => Finds index document (document.Gives record name) answer.1)
        (down general.qualifiedName visited))
    (holderIn : holder ∈ index.symbols) (ownerIn : owner ∈ document.elements)
    (holds : holder.RecallsAll document owner) {entries : List (Symbol × Reference)}
    (inside : entries ⊆ index.outgoing holder.qualifiedName) (visited : List Key) :
    Keeps inv (fun answer => Finds index document (document.Inherits owner name) answer.1)
      (inherited refer down holder.qualifiedName entries visited) := by
  induction entries generalizing visited with
  | nil => exact .pure (meets_none _)
  | cons entry rest ih =>
    obtain ⟨symbol, reference⟩ := entry
    obtain ⟨here, others⟩ := List.cons_subset.mp inside
    obtain ⟨known, asked⟩ := Index.outgoing_within here
    obtain rfl : symbol = holder := by
      obtain ⟨other, named, listed⟩ := List.mem_flatMap.mp here
      obtain ⟨_, _, same⟩ := List.mem_map.mp listed
      cases same
      exact recalls.names symbol known holder holderIn (List.mem_filter.mp named).2
    obtain ⟨relation, target, relates, stands⟩ := told.reference_relates ownerIn holds asked
    simp only [inherited]
    refine (exact_ symbol known owner holds reference asked relation target relates stands).bind
      fun general leads => ?_
    cases general with
    | none => exact ih others visited
    | some general =>
      have generalIn := leads.1 general rfl
      have isTarget := leads.2 general rfl
      dsimp only
      split
      · exact ih others visited
      · next apart =>
        have refers : document.Refers owner target :=
          ⟨relation, relates, reference.kind, stands.kind⟩
        have isApart : target ≠ owner := by
          rintro rfl
          rw [recalls.unique generalIn known isTarget holds] at apart
          simp at apart
        refine (below general generalIn target relates.targetIn isTarget visited).bind
          fun answer found => ?_
        obtain ⟨member, later⟩ := answer
        cases member with
        | none => exact ih others later
        | some member =>
          obtain ⟨memberIn, record, recordIn, isRecord, gives⟩ := found member rfl
          exact .pure (meets_some ⟨memberIn, record, recordIn, isRecord,
            target, refers, isApart, gives⟩)

theorem member_gives (someName : name ≠ "") (fuel : Nat) (holderIn : holder ∈ index.symbols)
    (ownerIn : owner ∈ document.elements) (holds : holder.RecallsAll document owner)
    (visited : List Key) :
    Keeps inv (fun answer => Finds index document (document.Gives owner name) answer.1)
      (member index refer name fuel (some holder.qualifiedName) visited) := by
  induction fuel generalizing holder owner visited with
  | zero => exact .throw _
  | succ fuel ih =>
    simp only [member]
    split
    · next found looked =>
      have isMember := List.mem_of_find?_eq_some looked
      have known := index.members_subset _ isMember
      obtain ⟨record, recordIn, isRecord⟩ := recalls.known found known
      exact .pure (meets_some ⟨known, record, recordIn, isRecord, .own recordIn
        ((told.mem_members known isRecord holds ownerIn).mp isMember)
        (isRecord.answersTo (List.find?_some looked))⟩)
    · next nothing =>
      split
      · exact .pure (meets_none _)
      · have noOwn : ∀ other ∈ document.elements, document.OwnedBy other owner →
            ¬ other.AnswersTo name := by
          intro other otherIn ownedBy answers
          obtain ⟨symbol, known, isOther⟩ := recalls.told other otherIn
          have isMember := (told.mem_members known isOther holds ownerIn).mpr ownedBy
          exact List.find?_eq_none.mp nothing symbol isMember (isOther.answers someName answers)
        refine (inherited_gives recalls told exact_ (fun general generalIn record recordIn isRecord
          visited => ih generalIn recordIn isRecord visited) holderIn ownerIn holds
          (List.Subset.refl _) _).mono fun answer found symbol same => ?_
        obtain ⟨known, record, recordIn, isRecord, general, refers, _, gives⟩ := found symbol same
        exact ⟨known, record, recordIn, isRecord, .inherited noOwn refers gives⟩

/-- What a namespace is found to inherit, its element inherits. -/
theorem findInherited_gives (someName : name ≠ "") (holderIn : holder ∈ index.symbols)
    (ownerIn : owner ∈ document.elements) (holds : holder.RecallsAll document owner) :
    Keeps inv (Finds index document (document.Inherits owner name))
      (findInherited index refer holder.qualifiedName name) := by
  refine (inherited_gives recalls told exact_ (fun general generalIn record recordIn isRecord =>
    member_gives recalls told exact_ someName _ generalIn recordIn isRecord) holderIn ownerIn holds
    (List.Subset.refl _) _).bind fun answer found => .pure found

end Inheriting

section Referring

variable {index : Index} {document : Document} {record target relation : Record}
  {symbol : Symbol} {reference : Reference} (recalls : index.Recalls document)
  (told : document.Told) (faithful : document.Faithful)

include recalls told faithful

/-- Whatever is remembered that upholds the paths of targets: a reference means the target of its
relationship, if anything. -/
theorem refer_exact (depth : Nat) (active : List Query) :
    Exact index document (Memo.Upheld index (document.Answers index))
      (referAt index depth active) := by
  have upholds := recalls.upholds told
  induction depth with
  | zero => exact fun _ _ _ _ _ _ _ _ _ _ => .throw _
  | succ depth ih =>
    intro symbol known record isElement reference asked relation target relates stands
    have distinct : document.Distinct target :=
      faithful.distinct record target ⟨relation, relates, reference.kind, stands.kind⟩
    have resolves (query : Query) (isPath : query.path = target.path) :
        Keeps (Memo.Upheld index (document.Answers index))
          (fun found => index.Has found ∧ Meets (Symbol.RecallsAll document target) found)
          (resolveWith index (referAt index depth) active query) := by
      refine (resolveWith_upholds upholds
        (answer_upholds upholds recalls.ids depth (query :: active) query)).mono fun found holds =>
          ⟨holds.1, ?_⟩
      rcases holds.2 with ⟨_, rfl⟩ | answers
      · exact meets_none _
      · exact answers.distinct target relates.targetIn isPath distinct
    refine (Keeps.lift (boundTarget index reference)).bind fun found isBound => ?_
    obtain rfl : found = none := Except.ok.inj (isBound.symm.trans (stands.unbound index))
    refine (Keeps.lift (pathOf reference)).bind fun path isPath => ?_
    obtain rfl : path = target.path := Except.ok.inj (isPath.symm.trans stands.pathOf)
    split
    · next owner redefines owned =>
      obtain ⟨holder, holderIn, above, ownedBy, holds, rfl⟩ := recalls.ownerSymbol isElement owned
      have someName := (told.portable.elements target relates.targetIn).texts.2.1
      unfold resolveRedefinition
      rw [distinct.getLast?]
      dsimp only
      refine (findInherited_gives recalls told ih someName holderIn ownedBy.1 holds).bind
        fun inherited finds => ?_
      cases inherited with
      | some inherited =>
        obtain ⟨inheritedIn, found, foundIn, isFound, inherits⟩ := finds inherited rfl
        have same : found = target := faithful.sole relation record target
          (stands.redefines relates redefines ownedBy) above ownedBy found inherits
        exact .pure ⟨has_some inheritedIn, meets_some (same ▸ isFound)⟩
      | none =>
        refine (Keeps.lift (parentScope _)).bind fun scope _ => ?_
        refine (resolves _ rfl).bind fun found holds => .pure ⟨?_, ?_⟩
        · exact fun answer kept => holds.1 answer (Option.filter_eq_some_iff.mp kept).1
        · exact fun answer kept => holds.2 answer (Option.filter_eq_some_iff.mp kept).1
    · exact resolves _ rfl

end Referring

end Sysml

namespace Sysml

open Scope

namespace Document

/-- To find what the outer feature redefines may take what the inner one redefines: the inner one
can be reached from the owner of the outer one. -/
def Asks (document : Document) (outer inner : Record) : Prop :=
  (∃ relation target, document.Redefines relation inner target) ∧
    ∃ owner, document.OwnedBy outer owner ∧ Relation.ReflTransGen document.Refers owner inner

/-- No feature needs its own redefinition to find what it redefines. -/
def Grounded (document : Document) : Prop :=
  ∀ record, ¬ Relation.TransGen document.Asks record record

/-- No owned feature redefines another, or what each of them redefines is found. -/
def RedefinitionsEnd (document : Document) : Prop :=
  (∀ relation source target, ¬ document.Redefines relation source target) ∨
    document.Faithful ∧ document.Grounded

end Document

namespace Scope

section Searches

variable {α : Type} {inv : Memo → Prop} {post other : α → Prop} {index : Index}

theorem Finishes.keeping {run : Search α} (finishes : Finishes inv post run)
    (keeps : Keeps inv other run) : Finishes inv (fun value => post value ∧ other value) run := by
  intro memo kept
  obtain ⟨value, later, ran, holds, keptOn⟩ := finishes.ends kept
  exact .inl ⟨value, later, ran, ⟨holds, keeps.answers kept value (by rw [ran])⟩, keptOn⟩

/-- A query whose answers are kept is answered if it is known, under way, or answered when it is
not. -/
theorem resolveWith_finishes {refer : Refer} {active : List Query} {query : Query}
    {post : Option Symbol → Prop} (keeps : Keeps inv post (resolveWith index refer active query))
    (answered : active.contains query = false →
      Finishes inv index.Has (answer index (refer (query :: active)) query)) :
    Finishes inv post (resolveWith index refer active query) := by
  intro memo kept
  have ends : ∃ found later, outcome (resolveWith index refer active query) memo =
      (.ok found, later) := by
    rw [resolveWith_outcome]
    split
    · exact ⟨_, _, rfl⟩
    · split
      · exact ⟨_, _, rfl⟩
      · next idle =>
        obtain ⟨found, later, ran, _⟩ := (answered (by simpa using idle)).ends kept
        rw [ran]
        exact ⟨_, _, rfl⟩
  obtain ⟨found, later, ran⟩ := ends
  have stores := keeps.stores kept
  rw [ran] at stores
  exact .inl ⟨found, later, ran, keeps.answers kept found (by rw [ran]), stores⟩

end Searches

def Index.referring (index : Index) : List Symbol :=
  index.symbols.filter fun symbol => !symbol.references.isEmpty

theorem referring_length (index : Index) : index.referring.length ≤ index.asked.length := by
  rw [Index.referring, Index.asked, List.length_flatMap]
  induction index.symbols with
  | nil => exact Nat.zero_le _
  | cons symbol rest ih =>
    rw [List.filter_cons, List.map_cons, List.sum_cons, List.length_map]
    split
    · next refers =>
      have some_ : 0 < symbol.references.length := by
        cases isList : symbol.references with
        | nil => simp [isList] at refers
        | cons => exact Nat.succ_pos _
      rw [List.length_cons]
      omega
    · omega

end Scope

section Nesting

variable {index : Index} {document : Document} {record : Record} {symbol : Symbol}
  {reference : Reference}

/-- The symbols whose redefinitions are being looked for while no further query is under way, and
an element that can be reached from them. -/
structure Nested (index : Index) (document : Document) (underway : List Symbol) (record : Record) :
    Prop where
  nodup : underway.Nodup
  referring : underway ⊆ index.referring
  asks : (∃ relation target, document.Redefines relation record target) →
    ∀ outer ∈ underway, ∃ above ∈ document.elements, outer.RecallsAll document above ∧
      Relation.TransGen document.Asks above record

theorem Nested.nil (index : Index) (document : Document) (record : Record) :
    Nested index document [] record :=
  ⟨List.nodup_nil, List.nil_subset _, fun _ _ member => (by cases member)⟩

theorem Nested.length_le {underway : List Symbol} (nested : Nested index document underway record) :
    underway.length ≤ index.referring.length :=
  (List.subperm_of_subset nested.nodup nested.referring).length_le

/-- How much deeper references may nest: by the queries that were not asked yet, and for each of
them by the symbols whose redefinitions are not looked for yet. -/
def nesting (index : Index) (active : List Query) (underway : List Symbol) : Nat :=
  remaining index.asked active * (index.referring.length + 1) +
    (index.referring.length - underway.length)

/-- The symbol of an element that references lead to from another one. -/
def ReachedFrom (document : Document) (above : Record) (symbol : Symbol) : Prop :=
  ∃ record ∈ document.elements, symbol.RecallsAll document record ∧
    Relation.ReflTransGen document.Refers above record

variable (recalls : index.Recalls document) (told : document.Told) (faithful : document.Faithful)
  (grounded : document.Grounded)

include told grounded

omit told grounded in
/-- One more query leaves less nesting. -/
theorem nesting_ask {active : List Query} {query : Query} (underway : List Symbol)
    (fewer : remaining index.asked (query :: active) < remaining index.asked active) :
    nesting index (query :: active) [] < nesting index active underway := by
  have most := Nat.mul_le_mul_right (index.referring.length + 1) (Nat.succ_le_of_lt fewer)
  rw [Nat.succ_mul] at most
  simp only [nesting, List.length_nil]
  omega

omit told grounded in
/-- One more feature leaves less nesting. -/
theorem nesting_enter (active : List Query) {underway : List Symbol}
    (nested : Nested index document (symbol :: underway) record) :
    nesting index active (symbol :: underway) < nesting index active underway := by
  have few := nested.length_le
  simp only [nesting, List.length_cons] at few ⊢
  omega

/-- A feature whose redefinition is looked for is not one that waits for it. -/
theorem Nested.cons {underway : List Symbol} (nested : Nested index document underway record)
    (known : symbol ∈ index.symbols) (member : record ∈ document.elements)
    (isElement : symbol.RecallsAll document record) (asked : reference ∈ symbol.references)
    (redefines : ∃ relation target, document.Redefines relation record target) {owner inner : Record}
    (ownedBy : document.OwnedBy record owner)
    (reached : Relation.ReflTransGen document.Refers owner inner) :
    Nested index document (symbol :: underway) inner := by
  refine ⟨List.nodup_cons.mpr ⟨fun again => ?_, nested.nodup⟩, ?_, fun redefinesToo outer listed => ?_⟩
  · obtain ⟨above, aboveIn, isAbove, asks⟩ := nested.asks redefines symbol again
    obtain rfl := told.record_unique aboveIn member isAbove isElement
    exact grounded _ asks
  · refine List.cons_subset.mpr ⟨List.mem_filter.mpr ⟨known, ?_⟩, nested.referring⟩
    cases isList : symbol.references with
    | nil =>
      rw [isList] at asked
      cases asked
    | cons => rfl
  · have asks : document.Asks record inner := ⟨redefinesToo, owner, ownedBy, reached⟩
    rcases List.mem_cons.mp listed with rfl | earlier
    · exact ⟨record, member, isElement, .single asks⟩
    · obtain ⟨above, aboveIn, isAbove, before⟩ := nested.asks redefines outer earlier
      exact ⟨above, aboveIn, isAbove, before.tail asks⟩

include recalls faithful

/-- References nest no deeper than there are queries to ask, and for each query features to look
for a redefinition of. -/
theorem referAt_finishes {depth : Nat} {active : List Query} {underway : List Symbol}
    (nested : Nested index document underway record) (enough : nesting index active underway < depth)
    (known : symbol ∈ index.symbols) (member : record ∈ document.elements)
    (isElement : symbol.RecallsAll document record) (asked : reference ∈ symbol.references) :
    Finishes (Memo.Upheld index (document.Answers index)) index.Has
      (referAt index depth active reference symbol) := by
  induction depth generalizing active underway symbol record reference with
  | zero => omega
  | succ depth ih =>
    have upholds := recalls.upholds told
    obtain ⟨relation, target, relates, stands⟩ := told.reference_relates member isElement asked
    have isAsked : askedBy symbol reference ∈ index.asked :=
      List.mem_flatMap.mpr ⟨symbol, known, List.mem_map_of_mem asked⟩
    have resolves {query : Query} (same : askedBy symbol reference = query)
        (isName : Key.IsName query.scope) :
        Finishes (Memo.Upheld index (document.Answers index)) index.Has
          (resolveWith index (referAt index depth) active query) := by
      refine resolveWith_finishes ((resolveWith_upholds upholds (answer_upholds upholds recalls.ids
        depth (query :: active) query)).mono fun _ => And.left) fun idle => ?_
      have fewer := remaining_cons_lt
        (List.contains_iff_exists_mem_beq.mpr ⟨_, same ▸ isAsked, BEq.rfl⟩) idle
      refine answer_ends (fun other otherIn reference has => ?_) recalls.ids
        (fun _ otherIn => recalls.isName otherIn) (fun _ _ _ _ has => recalls.imports_end told has _)
        (recalls.climbs told isName)
      obtain ⟨inner, innerIn, isInner⟩ := recalls.known other otherIn
      have deeper := nesting_ask underway fewer
      exact ih (.nil index document inner) (by omega) otherIn innerIn isInner has
    refine (Halts.lift (p := (· = none)) (stands.unbound index) rfl).bind fun found same => ?_
    subst same
    refine (Halts.lift (p := (· = target.path)) stands.pathOf rfl).bind fun path same => ?_
    subst same
    split
    · next owner redefines owned =>
      obtain ⟨holder, holderIn, above, ownedBy, holds, rfl⟩ := recalls.ownerSymbol isElement owned
      have isRedefinition := stands.redefines relates redefines ownedBy
      have inner (other : Symbol) (otherIn : other ∈ index.symbols)
          (isReached : ReachedFrom document above other) (reference : Reference)
          (has : reference ∈ other.references) :
          Finishes (Memo.Upheld index (document.Answers index)) (fun found => ∀ target,
            found = some target → target ∈ index.symbols ∧ ReachedFrom document above target)
            (referAt index depth active reference other) := by
        obtain ⟨inner, innerIn, isInner, reached⟩ := isReached
        have nestedOn := nested.cons told grounded known member isElement asked
          ⟨relation, target, isRedefinition⟩ ownedBy reached
        have deeper := nesting_enter active nestedOn
        obtain ⟨inside, goal, leads, standsFor⟩ := told.reference_relates innerIn isInner has
        refine ((ih nestedOn (by omega) otherIn innerIn isInner has).keeping
          (refer_exact recalls told faithful depth active other otherIn inner isInner reference has
            inside goal leads standsFor)).mono fun found holds general same => ⟨holds.1 general same,
              goal, leads.targetIn, holds.2.2 general same, reached.tail ?_⟩
        exact ⟨inside, leads, reference.kind, standsFor.kind⟩
      unfold resolveRedefinition
      rw [(faithful.distinct record target ⟨relation, relates, reference.kind, stands.kind⟩).getLast?]
      dsimp only
      refine (findInherited_ends_inside ?_ inner ?_ _).bind fun inherited has => ?_
      · intro one oneIn other otherIn same reached
        exact recalls.names one oneIn other otherIn same ▸ reached
      · intro other named
        obtain ⟨otherIn, same⟩ := List.mem_filter.mp named
        exact recalls.names holder holderIn other otherIn (BEq.symm same) ▸
          ⟨above, ownedBy.1, holds, .refl⟩
      · cases inherited with
        | some inherited => exact .pure has
        | none =>
          have around : parentScope holder.qualifiedName =
              .ok ((QualifiedName.parent? above.path).map .text) := by
            rw [holds.qualifiedName]
            rfl
          have same : askedBy symbol reference = ⟨target.path,
              (QualifiedName.parent? above.path).map .text, symbol.file⟩ := by
            rw [askedBy, stands.path, redefines, owned]
            simp only [around]
            rfl
          refine (Halts.lift (p := (· = (QualifiedName.parent? above.path).map .text)) around
            rfl).bind fun scope isScope => ?_
          subst isScope
          refine (resolves same (Key.isName_map _)).bind fun found has => .pure fun answer kept => ?_
          exact has answer (Option.filter_eq_some_iff.mp kept).1
    · next noRedefinition =>
      refine resolves ?_ ((recalls.typed told).symbols symbol known).owner
      rw [askedBy, stands.path]
      split
      · next redefines owned => exact absurd owned (noRedefinition _ redefines)
      · rfl

/-- Each reference of an index that recalls a faithful and grounded document has an answer. -/
theorem refer_finishes (known : symbol ∈ index.symbols) (asked : reference ∈ symbol.references) :
    Finishes (Memo.Upheld index (document.Answers index)) index.Has
      (resolveReference index reference symbol) := by
  obtain ⟨record, member, isElement⟩ := recalls.known symbol known
  refine referAt_finishes recalls told faithful grounded (.nil index document record) ?_ known
    member isElement asked
  have few : nesting index [] [] ≤ index.asked.length * (index.asked.length + 1) +
      index.asked.length :=
    Nat.add_le_add (Nat.mul_le_mul (remaining_le index.asked [])
      (Nat.succ_le_succ (referring_length index))) (Nat.le_trans (Nat.sub_le _ _)
        (referring_length index))
  rw [Index.depthBound, ← asked_length]
  simp only [Nat.mul_add, Nat.add_mul] at few ⊢
  omega

end Nesting

end Sysml
