/-!
# Entries

Key and value pairs in insertion order. Putting a key that is already there
replaces its value and keeps its place, so no key is ever held twice.
-/

set_option autoImplicit false

namespace Sysml.Entries

universe u v

variable {κ : Type u} {ν : Type v} [BEq κ]

/-- The entries with `key` bound to `value`: in its old place if there was one,
else at the end. -/
def put (key : κ) (value : ν) : List (κ × ν) → List (κ × ν)
  | [] => [(key, value)]
  | (held, old) :: rest =>
      if held == key then (held, value) :: rest else (held, old) :: put key value rest

/-- The entries with `key` bound to `value` unless it is bound already. -/
def putNew (key : κ) (value : ν) (entries : List (κ × ν)) : List (κ × ν) :=
  if (entries.lookup key).isSome then entries else entries ++ [(key, value)]

def erase (key : κ) (entries : List (κ × ν)) : List (κ × ν) :=
  entries.filter fun entry => !(entry.1 == key)

def ofPairs (pairs : List (κ × ν)) : List (κ × ν) :=
  pairs.foldl (fun entries pair => put pair.1 pair.2 entries) []

/-- The entries with `value` added to the end of the list held under `key`. -/
def addTo (key : κ) (value : ν) : List (κ × List ν) → List (κ × List ν)
  | [] => [(key, [value])]
  | (held, values) :: rest =>
      if held == key then (held, values ++ [value]) :: rest
      else (held, values) :: addTo key value rest

theorem exists_mem_of_lookup {key : κ} {value : ν} {entries : List (κ × ν)}
    (found : entries.lookup key = some value) : ∃ held, (key == held) = true ∧
      (held, value) ∈ entries := by
  induction entries with
  | nil => simp at found
  | cons entry rest ih =>
    obtain ⟨held, first⟩ := entry
    rw [List.lookup_cons] at found
    cases same : key == held with
    | true =>
      simp only [same, Option.some.injEq] at found
      exact ⟨held, same, by simp [found]⟩
    | false =>
      simp only [same] at found
      obtain ⟨other, equal, member⟩ := ih found
      exact ⟨other, equal, List.mem_cons_of_mem _ member⟩

/-- Putting adds a key at the end, if it is new, and else keeps the keys. -/
theorem keys_put (key : κ) (value : ν) (entries : List (κ × ν)) :
    (put key value entries).map (·.1) =
      if (entries.map (·.1)).any (· == key) then entries.map (·.1)
      else entries.map (·.1) ++ [key] := by
  induction entries with
  | nil => rfl
  | cons entry rest ih =>
    obtain ⟨held, old⟩ := entry
    cases same : held == key with
    | true => simp [put, same]
    | false =>
      simp only [put, same, Bool.false_eq_true, ↓reduceIte, List.map_cons, ih, List.any_cons,
        Bool.false_or, List.cons_append]
      split <;> rfl

theorem lookup_isSome (key : κ) (entries : List (κ × ν)) :
    (entries.lookup key).isSome = (entries.map (·.1)).contains key := by
  induction entries with
  | nil => rfl
  | cons entry rest ih =>
    obtain ⟨held, old⟩ := entry
    rw [List.lookup_cons, List.map_cons, List.contains_cons, ← ih]
    cases key == held <;> rfl

theorem keys_putNew (key : κ) (value : ν) (entries : List (κ × ν)) :
    (putNew key value entries).map (·.1) =
      if (entries.map (·.1)).contains key then entries.map (·.1)
      else entries.map (·.1) ++ [key] := by
  unfold putNew
  rw [lookup_isSome]
  split <;> simp

/-- A key that is not there yet is put at the end. -/
theorem put_new {key : κ} (value : ν) {entries : List (κ × ν)}
    (new : ∀ entry ∈ entries, (entry.1 == key) = false) :
    put key value entries = entries ++ [(key, value)] := by
  induction entries with
  | nil => rfl
  | cons entry rest ih =>
    rw [put, new entry List.mem_cons_self, if_neg Bool.false_ne_true,
      ih fun other listed => new other (List.mem_cons_of_mem _ listed)]
    rfl

theorem foldl_put {entries pairs : List (κ × ν)}
    (apart : (entries ++ pairs).Pairwise fun one other => (one.1 == other.1) = false) :
    pairs.foldl (fun entries pair => put pair.1 pair.2 entries) entries = entries ++ pairs := by
  induction pairs generalizing entries with
  | nil => simp
  | cons pair rest ih =>
    have new : ∀ entry ∈ entries, (entry.1 == pair.1) = false := fun entry listed =>
      (List.pairwise_append.mp apart).2.2 entry listed pair List.mem_cons_self
    rw [List.foldl_cons, put_new _ new, ih (by simpa using apart), List.append_assoc]
    rfl

/-- Pairs with different keys are held as they are. -/
theorem ofPairs_eq {pairs : List (κ × ν)}
    (apart : pairs.Pairwise fun one other => (one.1 == other.1) = false) :
    ofPairs pairs = pairs :=
  foldl_put apart

end Sysml.Entries
