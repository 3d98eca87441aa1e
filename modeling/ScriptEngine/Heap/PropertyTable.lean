import ScriptEngine.Value
import ScriptEngine.Index

/-!
# Properties of an object

Keys are unique and keep the order of their first registration; a later registration of the same key
overwrites the value in place. An index gives each key the place of its entry.
-/

namespace ScriptEngine

/-- What a property holds: a value, or the object that owns the property. -/
inductive Slot where
  | value (v : Value)
  | owner
  deriving DecidableEq, Repr

structure PropertyTable where
  entries : List (String × Slot) := []
  /-- The place of each key among the entries. -/
  index : List (String × Nat) := []
  indexed : Indexes index (entries.map (·.1)) := by exact .nil
  deriving DecidableEq, Repr

namespace PropertyTable

/-- The place of a key among the entries. -/
def indexOf? (t : PropertyTable) (key : String) : Option Nat := t.index.lookup key

/-- What is stored under a key. -/
def get? (t : PropertyTable) (key : String) : Option Slot :=
  (t.indexOf? key).bind fun i => t.entries[i]?.map (·.2)

theorem keys_modify (entries : List (String × Slot)) (i : Nat) (slot : Slot) :
    (entries.modify i fun entry => (entry.1, slot)).map (·.1) = entries.map (·.1) := by
  apply List.ext_getElem?
  intro j
  rw [List.getElem?_map, List.getElem?_map, List.getElem?_modify]
  cases entries[j]? with
  | none => simp
  | some entry => by_cases here : i = j <;> simp [here]

theorem indexed_append {entries : List (String × Slot)} {index : List (String × Nat)}
    (indexed : Indexes index (entries.map (·.1))) {key : String} (absent : index.lookup key = none)
    (slot : Slot) :
    Indexes ((key, entries.length) :: index) ((entries ++ [(key, slot)]).map (·.1)) := by
  have added := indexed.add absent
  rw [List.length_map] at added
  rw [List.map_append]
  exact added

/-- Overwrite in place, or append. -/
def insert (t : PropertyTable) (key : String) (slot : Slot) : PropertyTable :=
  match place : t.indexOf? key with
  | some i =>
      { entries := t.entries.modify i fun entry => (entry.1, slot)
        index := t.index
        indexed := (keys_modify t.entries i slot).symm ▸ t.indexed }
  | none =>
      { entries := t.entries ++ [(key, slot)]
        index := (key, t.entries.length) :: t.index
        indexed := indexed_append t.indexed place slot }

def keys (t : PropertyTable) : List String := t.entries.map (·.1)

def size (t : PropertyTable) : Nat := t.entries.length

end PropertyTable

end ScriptEngine
