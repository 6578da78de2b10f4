import Sysml.Proofs.Workspace.Tidy

/-!
# What pins make of a workspace

Before an index is built, and where no two symbols share a qualified name, a pin changes each
symbol as if it stood alone. So pins one after the other do to a symbol what those do that are
about it (`applyPins_onto`).
-/

set_option autoImplicit false

namespace Sysml

namespace Pin

def Textual : Pin → Prop
  | element _ _ => True
  | relationship _ _ kind target => (∃ s, kind = .text s) ∧ ∃ s, target = .text s

def subject : Pin → Key
  | element _ name => name
  | relationship _ source _ _ => source

def changed? (pin : Pin) (symbol : Symbol) : Except Failure (Option Symbol) :=
  match pin with
  | element id _ => .ok (some { symbol with elementId := some id })
  | relationship id _ kind target => onSymbol? id kind target symbol

/-- What a pin makes of a symbol that stands alone. -/
def onto (pin : Pin) (symbol : Symbol) : Symbol :=
  if symbol.qualifiedName == pin.subject then (pin.changed? symbol).toOption.join.getD symbol
  else symbol

variable {pin : Pin} {symbol : Symbol} {id : Key} {kind target : String}

theorem meansTarget_ok (reference : Reference) :
    ∃ means, meansTarget (.text target) reference = .ok means := by
  unfold meansTarget
  split <;> exact ⟨_, rfl⟩

theorem fitsReference_ok (reference : Reference) :
    ∃ fits, fitsReference (.text kind) (.text target) reference = .ok fits := by
  obtain ⟨means, isMeans⟩ := @meansTarget_ok target reference
  unfold fitsReference
  split
  · exact ⟨_, rfl⟩
  · rw [isMeans, ok_bind]
    cases means with
    | true => exact ⟨_, rfl⟩
    | false => exact ⟨_, rfl⟩

theorem changeFirst?_ok {α : Type} {fits : α → Except Failure Bool} {change : α → α}
    (answers : ∀ item, ∃ fit, fits item = .ok fit) (items : List α) :
    ∃ changed, changeFirst? fits change items = .ok changed := by
  induction items with
  | nil => exact ⟨none, rfl⟩
  | cons item rest ih =>
    obtain ⟨fit, isFit⟩ := answers item
    obtain ⟨changed, others⟩ := ih
    rw [changeFirst?, isFit, ok_bind]
    cases fit with
    | true => exact ⟨_, rfl⟩
    | false =>
      rw [if_neg Bool.false_ne_true, others]
      exact ⟨_, rfl⟩

/-- The first item that fits is changed. -/
theorem changeFirst?_found {α : Type} {fits : α → Except Failure Bool} {change : α → α}
    {before after : List α} {item : α} (passed : ∀ other ∈ before, fits other = .ok false)
    (fit : fits item = .ok true) :
    changeFirst? fits change (before ++ item :: after) =
      .ok (some (before ++ change item :: after)) := by
  induction before with
  | nil =>
    rw [List.nil_append, changeFirst?, fit]
    rfl
  | cons other rest ih =>
    rw [List.cons_append, changeFirst?, passed other List.mem_cons_self, ok_bind]
    simp only [Bool.false_eq_true, ↓reduceIte]
    rw [ih fun one member => passed one (List.mem_cons_of_mem _ member)]
    rfl

theorem onSymbol?_ok (symbol : Symbol) :
    ∃ changed, onSymbol? id (.text kind) (.text target) symbol = .ok changed := by
  unfold onSymbol?
  split
  · obtain ⟨imports, changed⟩ := @changeFirst?_ok Import
      (fun i => .ok (fitsImport (.text target) i))
      (fun i => { i with elementId := some id }) (fun _ => ⟨_, rfl⟩) symbol.imports
    rw [changed]
    exact ⟨_, rfl⟩
  · obtain ⟨references, changed⟩ := @changeFirst?_ok Reference
      (fitsReference (.text kind) (.text target))
      (fun reference => { reference with elementId := some id }) fitsReference_ok
      symbol.references
    rw [changed]
    exact ⟨_, rfl⟩

theorem change?_eq (pin : Pin) (symbols : List Symbol) :
    pin.change? symbols =
      match symbols.find? fun symbol => symbol.qualifiedName == pin.subject with
      | none => .ok none
      | some symbol => pin.changed? symbol := by
  cases pin with
  | element id name =>
    rw [change?, subject]
    cases symbols.find? fun symbol => symbol.qualifiedName == name <;> rfl
  | relationship id source kind target =>
    rw [change?, subject]
    cases symbols.find? fun symbol => symbol.qualifiedName == source <;> rfl

theorem changed?_ok (textual : pin.Textual) (symbol : Symbol) :
    ∃ changed, pin.changed? symbol = .ok changed := by
  cases pin with
  | element id name => exact ⟨_, rfl⟩
  | relationship id source kind target =>
    obtain ⟨⟨kind, rfl⟩, target, rfl⟩ := textual
    exact onSymbol?_ok symbol

/-- A pin changes neither a serial number nor a qualified name. -/
theorem changed?_keeps {changed : Symbol} (changes : pin.changed? symbol = .ok (some changed)) :
    changed.serial = symbol.serial ∧ changed.qualifiedName = symbol.qualifiedName := by
  cases pin with
  | element id name =>
    cases changes
    exact ⟨rfl, rfl⟩
  | relationship id source kind target =>
    simp only [changed?, onSymbol?] at changes
    split at changes
    · obtain ⟨_, _, changes⟩ := result_bind_ok changes
      obtain ⟨_, _, rfl⟩ := Option.map_eq_some_iff.mp (Except.ok.inj changes)
      exact ⟨rfl, rfl⟩
    · obtain ⟨_, _, changes⟩ := result_bind_ok changes
      obtain ⟨_, _, rfl⟩ := Option.map_eq_some_iff.mp (Except.ok.inj changes)
      exact ⟨rfl, rfl⟩

theorem onto_keeps (pin : Pin) (symbol : Symbol) :
    (pin.onto symbol).serial = symbol.serial ∧
      (pin.onto symbol).qualifiedName = symbol.qualifiedName := by
  unfold onto
  split
  · rcases changes : pin.changed? symbol with failure | _ | changed
    · exact ⟨rfl, rfl⟩
    · exact ⟨rfl, rfl⟩
    · exact changed?_keeps changes
  · exact ⟨rfl, rfl⟩

/-- Pins change neither serial numbers nor qualified names. -/
theorem foldl_keeps (pins : List Pin) (symbol : Symbol) :
    (pins.foldl (fun symbol pin => pin.onto symbol) symbol).serial = symbol.serial ∧
      (pins.foldl (fun symbol pin => pin.onto symbol) symbol).qualifiedName =
        symbol.qualifiedName := by
  induction pins generalizing symbol with
  | nil => exact ⟨rfl, rfl⟩
  | cons pin rest ih =>
    have first := pin.onto_keeps symbol
    have others := ih (pin.onto symbol)
    exact ⟨others.1.trans first.1, others.2.trans first.2⟩

/-- A pin that is about something else leaves a symbol as it is. -/
theorem onto_of_apart (apart : (symbol.qualifiedName == pin.subject) = false) :
    pin.onto symbol = symbol := by
  rw [onto, apart]
  rfl

theorem onto_of_changed {changed : Option Symbol}
    (isSubject : (symbol.qualifiedName == pin.subject) = true)
    (changes : pin.changed? symbol = .ok changed) : pin.onto symbol = changed.getD symbol := by
  rw [onto, isSubject, changes]
  rfl

end Pin

namespace Workspace

variable {w : Workspace}

/-- A workspace without an index, whose symbols have different names. -/
structure Unindexed (w : Workspace) : Prop where
  index : w.index = none
  memo : w.memo = []
  serials : (w.symbols.map (·.serial)).Nodup
  names : ∀ one ∈ w.symbols, ∀ other ∈ w.symbols,
    (one.qualifiedName == other.qualifiedName) = true → one = other

namespace Unindexed

variable (unindexed : w.Unindexed)

include unindexed

theorem adjust_congr {change other : Symbol → Symbol}
    (same : ∀ symbol ∈ w.symbols, change symbol = other symbol) :
    w.adjust change = w.adjust other := by
  have files : w.files.map (fun file => { file with symbols := file.symbols.map change }) =
      w.files.map fun file => { file with symbols := file.symbols.map other } := by
    refine List.map_congr_left fun file member => ?_
    rw [List.map_congr_left fun symbol has => same symbol (List.mem_flatMap_of_mem member has)]
  simp only [adjust, unindexed.index, unindexed.memo, files, Option.map_none, List.map_nil]

theorem adjust_self : w.adjust id = w := by
  obtain ⟨files, index, memo, findings, nextSerial⟩ := w
  obtain rfl : index = none := unindexed.index
  obtain rfl : memo = [] := unindexed.memo
  simp [adjust]

omit unindexed in
theorem adjust_adjust (change other : Symbol → Symbol) :
    (w.adjust change).adjust other = w.adjust (other ∘ change) := by
  obtain ⟨files, index, memo, findings, nextSerial⟩ := w
  cases index <;> simp [adjust, Scope.Index.adjust, Function.comp_def]

theorem adjusted {change : Symbol → Symbol} (keeps : ∀ symbol,
    (change symbol).serial = symbol.serial ∧
      (change symbol).qualifiedName = symbol.qualifiedName) : (w.adjust change).Unindexed := by
  refine ⟨?_, ?_, ?_, ?_⟩
  · rw [adjust, unindexed.index]
    rfl
  · rw [adjust, unindexed.memo]
    rfl
  · have serials : w.symbols.map ((·.serial) ∘ change) = w.symbols.map (·.serial) :=
      List.map_congr_left fun symbol _ => (keeps symbol).1
    rw [adjust_symbols, List.map_map, serials]
    exact unindexed.serials
  · intro one first other second same
    rw [adjust_symbols] at first second
    obtain ⟨one, oneIn, rfl⟩ := List.mem_map.mp first
    obtain ⟨other, otherIn, rfl⟩ := List.mem_map.mp second
    rw [(keeps one).2, (keeps other).2] at same
    rw [unindexed.names one oneIn other otherIn same]

/-- A pin changes each symbol as if it stood alone. -/
theorem applyPin_onto {pin : Pin} (textual : pin.Textual) :
    ∃ applied, w.applyPin pin = .ok (w.adjust pin.onto, applied) := by
  have unchanged (same : ∀ symbol ∈ w.symbols, pin.onto symbol = symbol) :
      w.adjust pin.onto = w :=
    (unindexed.adjust_congr same).trans unindexed.adjust_self
  cases found : w.symbols.find? (fun symbol => symbol.qualifiedName == pin.subject) with
  | none =>
    have same : w.adjust pin.onto = w := unchanged fun symbol member =>
      Pin.onto_of_apart (by simpa using List.find?_eq_none.mp found symbol member)
    refine ⟨false, ?_⟩
    rw [applyPin, Pin.change?_eq, found, same]
    rfl
  | some symbol =>
    have known := List.mem_of_find?_eq_some found
    have isSubject : (symbol.qualifiedName == pin.subject) = true := by
      simpa using List.find?_some found
    -- Only the symbol that the pin is about is changed, as serial numbers and names tell it.
    have others : ∀ other ∈ w.symbols, other ≠ symbol → pin.onto other = other := by
      intro other member apart
      refine Pin.onto_of_apart (Bool.eq_false_iff.mpr fun same => apart ?_)
      exact unindexed.names other member symbol known (BEq.trans same (BEq.symm isSubject))
    obtain ⟨changed, changes⟩ := Pin.changed?_ok textual symbol
    have onto := Pin.onto_of_changed isSubject changes
    rw [applyPin, Pin.change?_eq, found]
    dsimp only
    rw [changes, ok_bind]
    cases changed with
    | none =>
      refine ⟨false, ?_⟩
      rw [unchanged fun other member => ?_]
      · rfl
      · by_cases isSymbol : other = symbol
        · rw [isSymbol]
          exact onto
        · exact others other member isSymbol
    | some changed =>
      have onto : pin.onto symbol = changed := onto
      have serial : changed.serial = symbol.serial := (Pin.changed?_keeps changes).1
      refine ⟨true, ?_⟩
      dsimp only
      have same : w.adjust (fun other => if other.serial = changed.serial then changed else other) =
          w.adjust pin.onto := by
        refine unindexed.adjust_congr fun other member => ?_
        by_cases isSymbol : other = symbol
        · rw [isSymbol, serial, if_pos rfl, onto]
        · rw [if_neg, others other member isSymbol]
          intro same
          exact isSymbol
            (List.inj_on_of_nodup_map unindexed.serials member known (same.trans serial))
      rw [same]
      rfl

/-- Pins change each symbol as if it stood alone. -/
theorem applyPinsFrom_onto {pins : List Pin} (textual : ∀ pin ∈ pins, pin.Textual) (count : Nat) :
    ∃ total, w.applyPinsFrom count pins =
      (.ok total, w.adjust fun symbol => pins.foldl (fun symbol pin => pin.onto symbol) symbol) := by
  induction pins generalizing w count with
  | nil => exact ⟨count, by rw [applyPinsFrom]; exact congrArg _ unindexed.adjust_self.symm⟩
  | cons pin rest ih =>
    obtain ⟨first, others⟩ := List.forall_mem_cons.mp textual
    obtain ⟨applied, ran⟩ := unindexed.applyPin_onto first
    obtain ⟨total, ranOn⟩ := ih (unindexed.adjusted pin.onto_keeps) others (if applied then count + 1 else count)
    refine ⟨total, ?_⟩
    rw [applyPinsFrom, ran]
    dsimp only
    rw [ranOn, adjust_adjust]
    rfl

theorem applyPins_onto {pins : List Pin} (textual : ∀ pin ∈ pins, pin.Textual) :
    ∃ total, w.applyPins pins =
      (.ok total, w.adjust fun symbol => pins.foldl (fun symbol pin => pin.onto symbol) symbol) := by
  obtain ⟨total, ran⟩ := unindexed.applyPinsFrom_onto textual 0
  refine ⟨total, ?_⟩
  rw [applyPins, ran]
  dsimp only
  split
  · rfl
  · rw [adjust, unindexed.index]
    rfl

end Unindexed

end Workspace

end Sysml
