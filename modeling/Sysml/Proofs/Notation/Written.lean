import Sysml.Notation.Reader

/-!
# What is read from a text

Symbols that are read from a text know each other by texts only: nothing that refers
to them is bound to an id yet, and nothing has an id.
-/

set_option autoImplicit false

namespace Sysml

/-- A reference as a text gives it: a path that is bound to nothing. -/
structure Reference.Written (reference : Reference) : Prop where
  target : ∃ path, reference.target = .text path
  targetId : reference.targetId = none
  targetName : reference.targetName = none
  elementId : reference.elementId = none

structure Import.Written (i : Import) : Prop where
  path : ∃ path, i.path = .text path
  targetId : i.targetId = none
  elementId : i.elementId = none

structure Symbol.Written (file : String) (isLibrary : Bool) (symbol : Symbol) : Prop where
  file : symbol.file = file
  library : symbol.isLibrary = isLibrary
  elementId : symbol.elementId = none
  name : ∃ name, symbol.name = .text name
  qualifiedName : ∃ name, symbol.qualifiedName = .text name
  unnamed : symbol.qualifiedName = .text "" → symbol.name = .text ""
  owner : ∀ owner, symbol.owner = some owner → ∃ name, owner = .text name
  shortName : ∃ name, symbol.shortName = .text name
  references : ∀ reference ∈ symbol.references, reference.Written
  imports : ∀ i ∈ symbol.imports, i.Written

namespace Notation

theorem targets_written (kind : RefKind) (c : Cursor) :
    ∀ reference ∈ (targets kind c).1, reference.Written := by
  fun_induction targets kind c with
  | case1 => intro reference member; cases member
  | case2 c target after found start first comma others rest same ih =>
    rw [same] at ih
    intro reference member
    rcases List.mem_cons.mp member with rfl | other
    · exact ⟨⟨target, rfl⟩, rfl, rfl, rfl⟩
    · exact ih reference other
  | case3 c target after found start first comma =>
    intro reference member
    cases List.mem_singleton.mp member
    exact ⟨⟨target, rfl⟩, rfl, rfl, rfl⟩

theorem header_written (kind : SymbolKind) (c : Cursor) :
    ∀ reference ∈ (header kind c).1, reference.Written := by
  fun_induction header kind c
  all_goals first
    | assumption
    | (intro reference member; cases member)
    | skip
  next c _ _ _ _ relationship _ found next references ending rest same ih =>
    rw [same] at ih
    intro reference member
    rcases List.mem_append.mp member with here | later
    · exact targets_written _ _ reference here
    · exact ih reference later

def Statement.Written : Statement → Prop
  | .skipped | .documented _ => True
  | .imported i => i.Written
  | .declared heading | .opened heading _ =>
      ∀ found, heading = some found → ∀ reference ∈ found.references, reference.Written

theorem declaration_written (kind : SymbolKind) (lead : Lead) (needsName : Bool) (c : Cursor) :
    (declaration kind lead needsName c).1.Written := by
  unfold declaration
  dsimp only
  generalize (shortName c) = named
  obtain ⟨short, named⟩ := named
  dsimp only
  generalize (if (if named.sees Token.isName = true then some named.here else none).isSome = true
    then named.advance else named) = inner
  have written := header_written kind inner
  generalize header kind inner = found at *
  obtain ⟨references, ending, after⟩ := found
  cases ending with
  | closed =>
    intro heading same
    obtain ⟨_, _, rfl⟩ := Option.map_eq_some_iff.mp same
    exact written
  | opens =>
    intro heading same
    obtain ⟨_, _, rfl⟩ := Option.map_eq_some_iff.mp same
    exact written

theorem importStatement_written (lead : Lead) (c : Cursor) :
    (importStatement lead c).1.Written := by
  unfold importStatement
  dsimp only
  split
  · trivial
  · next path after found => exact ⟨⟨path, rfl⟩, rfl, rfl⟩

theorem docStatement_written (c : Cursor) : (docStatement c).1.Written := by
  unfold docStatement
  dsimp only
  split <;> trivial

theorem keywordStatement?_written {lead : Lead} {c after : Cursor} {statement : Statement}
    (found : keywordStatement? lead c = some (statement, after)) : statement.Written := by
  have declared {kind : SymbolKind} {needsName : Bool} {start : Cursor}
      (same : declaration kind lead needsName start = (statement, after)) :
      statement.Written := by
    have written := declaration_written kind lead needsName start
    rwa [same] at written
  unfold keywordStatement? at found
  dsimp only at found
  split at found
  · have written := importStatement_written lead c
    rwa [Option.some.inj found] at written
  · split at found
    · have written := docStatement_written c
      rwa [Option.some.inj found] at written
    · split at found
      · cases found
        trivial
      · split at found
        · exact declared (Option.some.inj found)
        · split at found
          · exact declared (Option.some.inj found)
          · split at found
            · split at found
              · exact declared (Option.some.inj found)
              · exact declared (Option.some.inj found)
            · obtain ⟨kind, _, same⟩ := Option.map_eq_some_iff.mp found
              exact declared same

theorem plainStatement_written (lead : Lead) (c : Cursor) :
    (plainStatement lead c).1.Written := by
  unfold plainStatement
  split
  · exact declaration_written ..
  · split
    · exact declaration_written ..
    · split
      · exact declaration_written ..
      · trivial

theorem Statement.read_written (c : Cursor) : (Statement.read c).1.Written := by
  unfold Statement.read
  dsimp only
  generalize leadFrom {} c = led
  obtain ⟨lead, next⟩ := led
  dsimp only
  split
  · trivial
  · split
    · trivial
    · split
      · cases found : keywordStatement? lead next with
        | none => exact plainStatement_written lead next
        | some read => exact keywordStatement?_written found
      · exact plainStatement_written lead next

mutual

def Member.Written : Member → Prop
  | .declared heading _ members =>
      (∀ reference ∈ heading.references, reference.Written) ∧ MembersWritten members
  | .imported i => i.Written
  | .documented _ => True

def MembersWritten : List Member → Prop
  | [] => True
  | member :: rest => member.Written ∧ MembersWritten rest

end

theorem MembersWritten.append {left right : List Member} (first : MembersWritten left)
    (second : MembersWritten right) : MembersWritten (left ++ right) := by
  induction left with
  | nil => exact second
  | cons member rest ih => exact ⟨first.1, ih first.2⟩

theorem membersOf_written {heading : Option Heading} {last : Option Token} {inner : List Member}
    (head : ∀ found, heading = some found → ∀ reference ∈ found.references, reference.Written)
    (written : MembersWritten inner) : MembersWritten (membersOf heading last inner) := by
  cases heading with
  | none => exact written
  | some heading => exact ⟨⟨head heading rfl, written⟩, trivial⟩

mutual

theorem element_written (c : Cursor) : MembersWritten (element c).1 := by
  have written := Statement.read_written c
  unfold element
  split
  · trivial
  · next read =>
    rw [read] at written
    exact ⟨written, trivial⟩
  · exact ⟨trivial, trivial⟩
  · next read =>
    rw [read] at written
    exact membersOf_written written trivial
  · next heading opening after read =>
    rw [read] at written
    have shorter := Statement.read_opens_length read
    exact membersOf_written written (block_written opening after)
termination_by 2 * c.length
decreasing_by omega

theorem block_written (opening : Span) (c : Cursor) : MembersWritten (block opening c).1 := by
  unfold block
  split
  · trivial
  · split
    · trivial
    · have first := element_written c
      dsimp only
      split
      · next shorter => exact first.append (block_written opening (element c).2)
      · exact first
termination_by 2 * c.length + 1
decreasing_by all_goals omega

end

theorem topLevel_written (c : Cursor) : MembersWritten (topLevel c).1 := by
  fun_induction topLevel c with
  | case1 => trivial
  | case2 _ _ _ ih => exact ih
  | case3 c _ _ members next read _ others rest same ih =>
    have first := element_written c
    rw [read] at first
    rw [same] at ih
    exact first.append ih
  | case4 c _ _ members next read _ =>
    have first := element_written c
    rwa [read] at first

theorem importsOf_written {members : List Member} (written : MembersWritten members) :
    ∀ i ∈ importsOf members, i.Written := by
  induction members with
  | nil => intro i member; cases member
  | cons member rest ih =>
    intro i found
    cases member with
    | imported first =>
      rcases List.mem_cons.mp found with rfl | later
      · exact written.1
      · exact ih written.2 i later
    | declared heading stop members => exact ih written.2 i found
    | documented text => exact ih written.2 i found

theorem join_ne_empty (owner name : String) : QualifiedName.join owner name ≠ "" := by
  intro empty
  have lengths := congrArg String.length empty
  simp [QualifiedName.join] at lengths

mutual

theorem Member.symbols_written (file : String) (isLibrary : Bool) (owner : Option String) :
    ∀ member : Member, member.Written → ∀ symbol ∈ member.symbols file isLibrary owner,
      symbol.Written file isLibrary
  | .declared heading stop members, written => by
      intro symbol found
      simp only [Member.symbols, List.mem_cons] at found
      rcases found with rfl | inner
      · refine ⟨rfl, rfl, rfl, ⟨_, rfl⟩, ⟨_, rfl⟩, ?_, ?_, ⟨_, rfl⟩, written.1,
          importsOf_written written.2⟩
        · cases owner with
          | none => exact id
          | some owner => exact fun empty => absurd (Key.text_inj empty) (join_ne_empty owner heading.name)
        · intro key same
          obtain ⟨name, _, rfl⟩ := Option.map_eq_some_iff.mp same
          exact ⟨name, rfl⟩
      · exact symbolsOf_written file isLibrary _ members written.2 symbol inner
  | .imported _, _ => by simp [Member.symbols]
  | .documented _, _ => by simp [Member.symbols]

theorem symbolsOf_written (file : String) (isLibrary : Bool) (owner : Option String) :
    ∀ members : List Member, MembersWritten members →
      ∀ symbol ∈ symbolsOf file isLibrary owner members, symbol.Written file isLibrary
  | [], _ => by simp [symbolsOf]
  | member :: rest, written => by
      intro symbol found
      rw [symbolsOf] at found
      rcases List.mem_append.mp found with first | later
      · exact Member.symbols_written file isLibrary owner member written.1 symbol first
      · exact symbolsOf_written file isLibrary owner rest written.2 symbol later

end

/-- The symbols of a text are as the text gives them. -/
theorem parse_written (file text : String) (isLibrary : Bool) :
    ∀ symbol ∈ (parse file text isLibrary).symbols, symbol.Written file isLibrary :=
  symbolsOf_written file isLibrary none _ (topLevel_written _)

theorem parse_imports_written (file text : String) (isLibrary : Bool) :
    ∀ i ∈ (parse file text isLibrary).imports, i.Written :=
  importsOf_written (topLevel_written _)

mutual

/-- A symbol is owned by what its member belongs to, or by a symbol that stands around it. -/
theorem Member.symbols_owner (file : String) (isLibrary : Bool) (owner : Option String) :
    ∀ member : Member, ∀ symbol ∈ member.symbols file isLibrary owner,
      symbol.owner = owner.map .text ∨
        ∃ holder ∈ member.symbols file isLibrary owner, symbol.owner = some holder.qualifiedName
  | .declared heading stop members => by
      intro symbol found
      simp only [Member.symbols, List.mem_cons] at found ⊢
      rcases found with rfl | inner
      · exact .inl rfl
      · refine .inr ?_
        rcases symbolsOf_owner file isLibrary _ members symbol inner with same | ⟨holder, inside, same⟩
        · exact ⟨_, .inl rfl, same⟩
        · exact ⟨holder, .inr inside, same⟩
  | .imported _ => by simp [Member.symbols]
  | .documented _ => by simp [Member.symbols]

theorem symbolsOf_owner (file : String) (isLibrary : Bool) (owner : Option String) :
    ∀ members : List Member, ∀ symbol ∈ symbolsOf file isLibrary owner members,
      symbol.owner = owner.map .text ∨
        ∃ holder ∈ symbolsOf file isLibrary owner members, symbol.owner = some holder.qualifiedName
  | [] => by simp [symbolsOf]
  | member :: rest => by
      intro symbol found
      rw [symbolsOf] at found ⊢
      rcases List.mem_append.mp found with first | later
      · refine (Member.symbols_owner file isLibrary owner member symbol first).imp_right ?_
        exact fun ⟨holder, inside, same⟩ => ⟨holder, List.mem_append_left _ inside, same⟩
      · refine (symbolsOf_owner file isLibrary owner rest symbol later).imp_right ?_
        exact fun ⟨holder, inside, same⟩ => ⟨holder, List.mem_append_right _ inside, same⟩

end

mutual

/-- The qualified name of a symbol goes on from that of its owner. -/
theorem Member.symbols_joined (file : String) (isLibrary : Bool) (owner : Option String) :
    ∀ member : Member, ∀ symbol ∈ member.symbols file isLibrary owner, ∀ outer,
      symbol.owner = some (.text outer) →
        ∃ name, symbol.qualifiedName = .text (QualifiedName.join outer name)
  | .declared heading stop members => by
      intro symbol found outer owned
      simp only [Member.symbols, List.mem_cons] at found
      rcases found with rfl | inner
      · obtain ⟨name, rfl, same⟩ := Option.map_eq_some_iff.mp owned
        exact ⟨heading.name, by rw [← Key.text_inj same]⟩
      · exact symbolsOf_joined file isLibrary _ members symbol inner outer owned
  | .imported _ => by simp [Member.symbols]
  | .documented _ => by simp [Member.symbols]

theorem symbolsOf_joined (file : String) (isLibrary : Bool) (owner : Option String) :
    ∀ members : List Member, ∀ symbol ∈ symbolsOf file isLibrary owner members, ∀ outer,
      symbol.owner = some (.text outer) →
        ∃ name, symbol.qualifiedName = .text (QualifiedName.join outer name)
  | [] => by simp [symbolsOf]
  | member :: rest => by
      intro symbol found outer owned
      rw [symbolsOf] at found
      rcases List.mem_append.mp found with first | later
      · exact Member.symbols_joined file isLibrary owner member symbol first outer owned
      · exact symbolsOf_joined file isLibrary owner rest symbol later outer owned

end

theorem parse_joined (file text : String) (isLibrary : Bool) :
    ∀ symbol ∈ (parse file text isLibrary).symbols, ∀ outer, symbol.owner = some (.text outer) →
      ∃ name, symbol.qualifiedName = .text (QualifiedName.join outer name) :=
  symbolsOf_joined file isLibrary none _

/-- The owner of a symbol is a symbol of its text. -/
theorem parse_owner (file text : String) (isLibrary : Bool) :
    ∀ symbol ∈ (parse file text isLibrary).symbols, ∀ owner, symbol.owner = some owner →
      ∃ holder ∈ (parse file text isLibrary).symbols, holder.qualifiedName = owner := by
  intro symbol member owner owned
  rcases symbolsOf_owner file isLibrary none _ symbol member with none_ | ⟨holder, inside, same⟩
  · rw [owned] at none_
    cases none_
  · exact ⟨holder, inside, Option.some.inj (same.symm.trans owned)⟩

end Notation

end Sysml
