import Sysml.Proofs.Notation.Stretch

/-!
# Symbols enclose their members

The members of a declaration stand in the text between its heading and its end, one after the other
(`element_adds`), whether or not anything names the declarations around them. So the symbols of a
text form a forest (`parse_forest`): they are told in the order in which they start, and of two
symbols either the first one ends before the second one starts, or it has the second one inside of
it and its qualified name before that of the second one.
-/

set_option autoImplicit false

namespace Sysml

/-- The symbol stands in a text between two places, its references inside of it. -/
structure Symbol.Stands (text : List Char) (low high : Position) (symbol : Symbol) : Prop where
  within : symbol.span.Within text
  low : low.UpTo symbol.span.start
  filled : symbol.span.start.Before symbol.span.stop
  high : symbol.span.stop.UpTo high
  references : ∀ reference ∈ symbol.references,
    reference.Stands text symbol.span.start symbol.span.stop
  imports : ∀ i ∈ symbol.imports, i.span.Within text

theorem Symbol.Stands.widen {text : List Char} {low high lower higher : Position} {symbol : Symbol}
    (stands : symbol.Stands text low high) (down : lower.UpTo low) (up : high.UpTo higher) :
    symbol.Stands text lower higher :=
  { stands with low := down.trans stands.low, high := stands.high.trans up }

/-- The qualified name goes on from another one. -/
def Key.Below (inner outer : Key) : Prop :=
  ∃ above rest : String, outer = .text above ∧ inner = .text (above ++ "::" ++ rest)

/-- The symbol ends before the other one starts, or it has the other one inside of it. -/
def Symbol.Encloses (symbol other : Symbol) : Prop :=
  symbol.span.stop.UpTo other.span.start ∨
    other.span.stop.UpTo symbol.span.stop ∧ other.qualifiedName.Below symbol.qualifiedName

/-- The order of a text: a symbol starts before all later ones and encloses them, if it does not
end before them. -/
def Symbol.Before (symbol other : Symbol) : Prop :=
  symbol.span.start.Before other.span.start ∧ symbol.Encloses other

/-- The qualified name of a symbol is its name, or its name behind that of an earlier symbol, its
owner. -/
inductive Symbol.NamedAfter (earlier : List Symbol) (symbol : Symbol) : Prop where
  | root : symbol.owner = none → symbol.qualifiedName = symbol.name → NamedAfter earlier symbol
  | owned (holder : Symbol) (outer name : String) : holder ∈ earlier →
      holder.qualifiedName = .text outer → symbol.owner = some (.text outer) →
      symbol.name = .text name → symbol.qualifiedName = .text (outer ++ "::" ++ name) →
      NamedAfter earlier symbol

namespace Notation

open Cursor (Leads Placed)

variable {text : List Char} {c : Cursor}

/-! ## Members -/

mutual

def Member.Lies (text : List Char) (low high : Position) : Member → Prop
  | .declared heading stop members =>
      ∃ body, heading.Stands text low body ∧ MembersLie text body stop members ∧
        stop.In text ∧ stop.UpTo high
  | .imported i => i.span.Within text ∧ low.UpTo high
  | .documented _ => low.UpTo high

def MembersLie (text : List Char) (low high : Position) : List Member → Prop
  | [] => low.UpTo high
  | member :: rest => ∃ middle, member.Lies text low middle ∧ MembersLie text middle high rest

end

variable {low middle high : Position}

mutual

theorem Member.Lies.upTo : ∀ {member : Member} {low high : Position},
    member.Lies text low high → low.UpTo high
  | .declared _ _ _, _, _, lies => by
      obtain ⟨body, heading, inner, -, higher⟩ := lies
      exact ((heading.low.trans_before heading.filled).upTo.trans inner.upTo).trans higher
  | .imported _, _, _, lies => lies.2
  | .documented _, _, _, lies => lies

theorem MembersLie.upTo : ∀ {members : List Member} {low high : Position},
    MembersLie text low high members → low.UpTo high
  | [], _, _, lies => lies
  | _ :: _, _, _, ⟨_, first, others⟩ => first.upTo.trans others.upTo

end

theorem Member.Lies.lower {lower : Position} (down : lower.UpTo low) :
    ∀ {member : Member}, member.Lies text low high → member.Lies text lower high
  | .declared _ _ _, ⟨body, heading, rest⟩ => ⟨body, heading.widen down (.refl _), rest⟩
  | .imported _, ⟨within, upTo⟩ => ⟨within, down.trans upTo⟩
  | .documented _, upTo => down.trans upTo

theorem MembersLie.lower {lower : Position} (down : lower.UpTo low) {members : List Member}
    (lie : MembersLie text low high members) : MembersLie text lower high members := by
  cases members with
  | nil => exact down.trans lie
  | cons member rest =>
    obtain ⟨middle, first, others⟩ := lie
    exact ⟨middle, first.lower down, others⟩

theorem MembersLie.append {left right : List Member} (first : MembersLie text low middle left)
    (second : MembersLie text middle high right) : MembersLie text low high (left ++ right) := by
  induction left generalizing low with
  | nil => exact second.lower first
  | cons member rest ih =>
    obtain ⟨between, lies, others⟩ := first
    exact ⟨between, lies, ih others⟩

/-- A declaration ends with the token that was passed last. -/
theorem membersOf_lie {heading : Option Heading} {body : Position} {inner : List Member}
    (stands : ∀ kept ∈ heading, kept.Stands text low body) (down : low.UpTo body)
    (lie : MembersLie text body c.reached inner) (placed : c.Placed text) :
    MembersLie text low c.reached (membersOf heading c.last inner) := by
  cases heading with
  | none => exact lie.lower down
  | some heading =>
    have heading_ := stands heading rfl
    obtain ⟨last, known, ends⟩ := Cursor.last_of_before (heading_.filled.trans_upTo lie.upTo)
    simp only [membersOf, known, Option.map_some, Option.getD_some, ends]
    exact ⟨c.reached, ⟨body, heading_, lie, placed.reached, .refl _⟩, .refl _⟩

/-! ## Reading -/

structure Adds (text : List Char) (c : Cursor) (read : List Member × Cursor) : Prop where
  leads : Leads text c read.2
  lie : MembersLie text c.reached read.2.reached read.1

theorem Adds.append {read others : List Member × Cursor} (first : Adds text c read)
    (second : Adds text read.2 others) : Adds text c (read.1 ++ others.1, others.2) :=
  ⟨first.leads.trans second.leads, first.lie.append second.lie⟩

mutual

/-- What a statement with its block adds stands on its way. -/
theorem element_adds (c : Cursor) (placed : c.Placed text) : Adds text c (element c) := by
  have reads := Statement.read_reads placed
  rw [element_eq]
  split
  · next after read =>
    rw [read] at reads
    exact ⟨reads.leads, reads.leads.reached⟩
  · next i after read =>
    rw [read] at reads
    exact ⟨reads.leads, _, ⟨reads.stands, reads.leads.reached⟩, .refl _⟩
  · next doc after read =>
    rw [read] at reads
    exact ⟨reads.leads, _, reads.leads.reached, .refl _⟩
  · next heading after read =>
    rw [read] at reads
    exact ⟨reads.leads, membersOf_lie reads.stands reads.leads.reached (.refl _) reads.leads.placed⟩
  · next heading opening after read =>
    rw [read] at reads
    have shorter := Statement.read_opens_length read
    have inner := block_adds opening after reads.stands.2 reads.leads.placed
    exact ⟨reads.leads.trans inner.leads,
      membersOf_lie reads.stands.1 reads.leads.reached inner.lie inner.leads.placed⟩
termination_by 2 * c.length
decreasing_by omega

theorem block_adds (opening : Span) (c : Cursor) (within : opening.Within text)
    (placed : c.Placed text) : Adds text c (block opening c) := by
  unfold block
  split
  · exact ⟨placed.stay.report within _, .refl _⟩
  · split
    · exact ⟨placed.advance, placed.advance.reached⟩
    · have first := element_adds c placed
      dsimp only
      split
      · next shorter =>
        exact first.append (block_adds opening (element c).2 within first.leads.placed)
      · exact first
termination_by 2 * c.length + 1
decreasing_by all_goals omega

end

theorem topLevel_adds (c : Cursor) (placed : c.Placed text) : Adds text c (topLevel c) := by
  fun_induction topLevel c with
  | case1 c _ => exact ⟨placed.stay, .refl _⟩
  | case2 c _ _ ih =>
    have brace := placed.advance.report placed.here_within .strayBrace
    have others := ih brace.placed
    exact ⟨brace.trans others.leads, others.lie.lower brace.reached⟩
  | case3 c _ _ members next read _ others rest same ih =>
    have first := element_adds c placed
    rw [read] at first
    have second := ih first.leads.placed
    rw [same] at second
    exact first.append second
  | case4 c _ _ members next read _ =>
    have first := element_adds c placed
    rwa [read] at first

/-! ## Symbols -/

theorem importsOf_within {members : List Member} (lie : MembersLie text low high members) :
    ∀ i ∈ importsOf members, i.span.Within text := by
  induction members generalizing low with
  | nil => exact fun _ member => (by cases member)
  | cons member rest ih =>
    obtain ⟨middle, first, others⟩ := lie
    intro i found
    rw [importsOf_cons] at found
    rcases List.mem_append.mp found with here | later
    · cases member with
      | declared | documented => cases here
      | imported other =>
        obtain rfl := List.mem_singleton.mp here
        exact first.1
    · exact ih others i later

section Symbols

variable (file : String) (isLibrary : Bool)

mutual

theorem Member.symbols_stand : ∀ (member : Member) (owner : Option String) {low high : Position},
    member.Lies text low high →
      ∀ symbol ∈ member.symbols file isLibrary owner, symbol.Stands text low high
  | .declared heading stop members, owner, low, high, lies => by
      obtain ⟨body, heading_, inner, inside, higher⟩ := lies
      intro symbol found
      simp only [Member.symbols] at found
      rcases List.mem_cons.mp found with rfl | deeper
      · have filled := heading_.filled.trans_upTo inner.upTo
        exact
          { within := ⟨heading_.within.start, inside, filled.upTo⟩
            low := heading_.low
            filled
            high := higher
            references := fun reference member =>
              (heading_.references reference member).widen (.refl _) inner.upTo
            imports := importsOf_within inner }
      · exact (symbolsOf_stand members _ inner symbol deeper).widen
          (heading_.low.trans_before heading_.filled).upTo higher
  | .imported _, _, _, _, _ => fun _ found => (by cases found)
  | .documented _, _, _, _, _ => fun _ found => (by cases found)

theorem symbolsOf_stand : ∀ (members : List Member) (owner : Option String) {low high : Position},
    MembersLie text low high members →
      ∀ symbol ∈ symbolsOf file isLibrary owner members, symbol.Stands text low high
  | [], _, _, _, _ => fun _ found => (by cases found)
  | member :: rest, owner, low, high, lie => by
      obtain ⟨middle, first, others⟩ := lie
      intro symbol found
      rw [symbolsOf] at found
      rcases List.mem_append.mp found with here | later
      · exact (Member.symbols_stand member owner first symbol here).widen (.refl _) others.upTo
      · exact (symbolsOf_stand rest owner others symbol later).widen first.upTo (.refl _)

end

mutual

/-- All symbols of what a namespace owns have its name before theirs. -/
theorem Member.symbols_below : ∀ (member : Member) (outer : String),
    ∀ symbol ∈ member.symbols file isLibrary (some outer),
      symbol.qualifiedName.Below (.text outer)
  | .declared heading stop members, outer => by
      intro symbol found
      simp only [Member.symbols] at found
      rcases List.mem_cons.mp found with rfl | deeper
      · exact ⟨outer, heading.name, rfl, rfl⟩
      · obtain ⟨above, rest, same, below⟩ := symbolsOf_below members _ symbol deeper
        obtain rfl := Key.text_inj same
        refine ⟨outer, heading.name ++ "::" ++ rest, rfl, ?_⟩
        rw [below, QualifiedName.join]
        simp only [String.append_assoc]
  | .imported _, _ => fun _ found => (by cases found)
  | .documented _, _ => fun _ found => (by cases found)

theorem symbolsOf_below : ∀ (members : List Member) (outer : String),
    ∀ symbol ∈ symbolsOf file isLibrary (some outer) members,
      symbol.qualifiedName.Below (.text outer)
  | [], _ => fun _ found => (by cases found)
  | member :: rest, outer => by
      intro symbol found
      rw [symbolsOf] at found
      rcases List.mem_append.mp found with here | later
      · exact Member.symbols_below member outer symbol here
      · exact symbolsOf_below rest outer symbol later

end

mutual

theorem Member.symbols_ordered : ∀ (member : Member) (owner : Option String) {low high : Position},
    member.Lies text low high →
      (member.symbols file isLibrary owner).Pairwise Symbol.Before
  | .declared heading stop members, owner, low, high, lies => by
      obtain ⟨body, heading_, inner, -, -⟩ := lies
      simp only [Member.symbols]
      refine .cons (fun other deeper => ?_) (symbolsOf_ordered members _ inner)
      have stands := symbolsOf_stand file isLibrary members _ inner other deeper
      have below := symbolsOf_below file isLibrary members _ other deeper
      exact ⟨heading_.filled.trans_upTo stands.low, .inr ⟨stands.high, below⟩⟩
  | .imported _, _, _, _, _ => .nil
  | .documented _, _, _, _, _ => .nil

theorem symbolsOf_ordered : ∀ (members : List Member) (owner : Option String)
    {low high : Position}, MembersLie text low high members →
      (symbolsOf file isLibrary owner members).Pairwise Symbol.Before
  | [], _, _, _, _ => .nil
  | member :: rest, owner, low, high, lie => by
      obtain ⟨middle, first, others⟩ := lie
      rw [symbolsOf]
      refine List.pairwise_append.mpr ⟨Member.symbols_ordered member owner first,
        symbolsOf_ordered rest owner others, fun symbol here other later => ?_⟩
      have before := Member.symbols_stand file isLibrary member owner first symbol here
      have behind := symbolsOf_stand file isLibrary rest owner others other later
      have apart := before.high.trans behind.low
      exact ⟨before.filled.trans_upTo apart, .inl apart⟩

end

mutual

theorem Member.symbols_named : ∀ (member : Member) (owner : Option String) (outside : List Symbol),
    (∀ outer ∈ owner, ∃ holder ∈ outside, holder.qualifiedName = .text outer) →
      ∀ before symbol after, member.symbols file isLibrary owner = before ++ symbol :: after →
        symbol.NamedAfter (outside ++ before)
  | .declared heading stop members, owner, outside, held, before, symbol, after, split => by
      simp only [Member.symbols] at split
      cases before with
      | nil =>
        obtain ⟨rfl, -⟩ := List.cons.inj split
        cases owner with
        | none => exact .root rfl rfl
        | some outer =>
          obtain ⟨holder, found, named⟩ := held outer rfl
          exact .owned holder outer heading.name (List.mem_append_left _ found) named rfl rfl rfl
      | cons top before =>
        obtain ⟨same, deeper⟩ := List.cons.inj split
        have inner := symbolsOf_named members _ (outside ++ [top])
          (fun outer member => ⟨top, by simp, ?_⟩) before symbol after deeper
        · simpa using inner
        · obtain rfl := Option.some.inj member
          rw [← same]
  | .imported _, _, _, _, before, _, _, split => by cases before <;> cases split
  | .documented _, _, _, _, before, _, _, split => by cases before <;> cases split

theorem symbolsOf_named : ∀ (members : List Member) (owner : Option String)
    (outside : List Symbol),
    (∀ outer ∈ owner, ∃ holder ∈ outside, holder.qualifiedName = .text outer) →
      ∀ before symbol after, symbolsOf file isLibrary owner members = before ++ symbol :: after →
        symbol.NamedAfter (outside ++ before)
  | [], _, _, _, before, _, _, split => by cases before <;> cases split
  | member :: rest, owner, outside, held, before, symbol, after, split => by
      rw [symbolsOf] at split
      rcases List.append_eq_append_iff.mp split with ⟨more, same, later⟩ | ⟨more, same, later⟩
      · have named := symbolsOf_named rest owner (outside ++ member.symbols file isLibrary owner)
          (fun outer member => ?_) more symbol after later
        · rw [same, ← List.append_assoc]
          exact named
        · obtain ⟨holder, found, name⟩ := held outer member
          exact ⟨holder, List.mem_append_left _ found, name⟩
      · cases more with
        | nil =>
          rw [List.append_nil] at same
          have named := symbolsOf_named rest owner (outside ++ member.symbols file isLibrary owner)
            (fun outer member => ?_) [] symbol after later.symm
          · rwa [same, List.append_nil] at named
          · obtain ⟨holder, found, name⟩ := held outer member
            exact ⟨holder, List.mem_append_left _ found, name⟩
        | cons top more =>
          obtain ⟨rfl, -⟩ := List.cons.inj later
          exact Member.symbols_named member owner outside held before symbol more same

end

end Symbols

/-- The symbols of a text are a forest of spans with the names to it, and nothing is noted outside
of the text. -/
structure Parsed.Forest (text : List Char) (parsed : Parsed) : Prop where
  symbols : ∀ symbol ∈ parsed.symbols, symbol.span.Within text
  references : ∀ symbol ∈ parsed.symbols, ∀ reference ∈ symbol.references,
    reference.span.Within text ∧ symbol.span.start.UpTo reference.span.start ∧
      reference.span.stop.UpTo symbol.span.stop
  imports : ∀ i ∈ parsed.imports ++ parsed.symbols.flatMap (·.imports), i.span.Within text
  errors : ∀ diagnostic ∈ parsed.diagnostics, diagnostic.span.Within text
  increasing : parsed.symbols.Pairwise fun symbol later =>
    symbol.span.start.Before later.span.start
  named : ∀ before symbol after, parsed.symbols = before ++ symbol :: after →
    symbol.NamedAfter before
  nested : parsed.symbols.Pairwise Symbol.Encloses

/-- Every text is read as a forest of symbols. -/
theorem parse_forest (file text : String) (isLibrary : Bool) :
    (parse file text isLibrary).Forest text.toList := by
  have adds := topLevel_adds _ (scan_placed text)
  have stand := symbolsOf_stand file isLibrary _ none adds.lie
  have ordered := symbolsOf_ordered file isLibrary _ none adds.lie
  constructor
  case symbols => exact fun symbol found => (stand symbol found).within
  case references =>
    intro symbol found reference member
    have inside := (stand symbol found).references reference member
    exact ⟨inside.within, inside.low, inside.high⟩
  case imports =>
    intro i found
    rcases List.mem_append.mp found with free | owned
    · exact importsOf_within adds.lie i free
    · obtain ⟨symbol, member, own⟩ := List.mem_flatMap.mp owned
      exact (stand symbol member).imports i own
  case errors =>
    intro diagnostic found
    obtain ⟨fault, member, rfl⟩ := List.mem_map.mp found
    exact adds.leads.placed.faults fault (List.mem_reverse.mp member)
  case increasing => exact ordered.imp fun before => before.1
  case named =>
    exact symbolsOf_named file isLibrary _ none [] (fun _ outer => (by cases outer))
  case nested => exact ordered.imp fun before => before.2

end Notation

end Sysml
