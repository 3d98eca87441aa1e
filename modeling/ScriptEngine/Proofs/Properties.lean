import ScriptEngine.Proofs.Heap
import ScriptEngine.Proofs.Index

/-!
# Own properties

An object is made without properties, or as a function that holds itself under `apply`. Whatever else
happens on the heap, from then on its table is what the registrations made to it put there, one after
the other: a key stays where it came first and holds what came last.
-/

namespace ScriptEngine

namespace PropertyTable

/-- Store slots one after the other. -/
def insertAll (t : PropertyTable) (stores : List (String × Slot)) : PropertyTable :=
  stores.foldl (fun t store => t.insert store.1 store.2) t

theorem insertAll_append (t : PropertyTable) (first second : List (String × Slot)) :
    t.insertAll (first ++ second) = (t.insertAll first).insertAll second := List.foldl_append

theorem keys_insertAll (stores : List (String × Slot)) :
    (({} : PropertyTable).insertAll stores).keys = (stores.map (·.1)).eraseDups := by
  have empty : ({} : PropertyTable).keys = ([] : List String).eraseDups := rfl
  exact names_foldl keys (fun t store => t.insert store.1 store.2) (·.1)
    (fun t store => t.keys_insert store.1 store.2) empty stores

/-- Of the slots stored under a key the last one counts. -/
theorem get?_insertAll (t : PropertyTable) (stores : List (String × Slot)) (key : String) :
    (t.insertAll stores).get? key = (stores.reverse.lookup key).or (t.get? key) := by
  induction stores generalizing t with
  | nil => rfl
  | cons store rest ih =>
    have step : t.insertAll (store :: rest) = (t.insert store.1 store.2).insertAll rest := rfl
    rw [step, ih, get?_insert, List.reverse_cons, List.lookup_append, Option.or_assoc]
    congr 1
    obtain ⟨other, slot⟩ := store
    rw [lookup_cons_ite, List.lookup_nil]
    by_cases same : key = other <;> simp [same]

end PropertyTable

/-- How an object is made. -/
inductive Making where
  | object (proto : Option ObjectId)
  | env (proto : Option ObjectId)
  | function (name : String) (entry : Callable)

/-- What the object `id` holds when it is made: a function holds itself under `apply`. -/
def Making.start (id : ObjectId) : Making → List (String × Value)
  | .object _ | .env _ => []
  | .function _ _ => [(applyKey, .object id)]

/-- The slots stored for it. -/
def Making.slots : Making → List (String × Slot)
  | .object _ | .env _ => []
  | .function _ _ => [(applyKey, .owner)]

/-- What is done to a heap from outside. -/
inductive Deed where
  | make (how : Making)
  | register (id : ObjectId) (key : String) (v : Value)

/-- What a deed registers on the object `id`. -/
def Deed.registered (id : ObjectId) : Deed → Option (String × Value)
  | .make _ => none
  | .register target key v => if target = id then some (key, v) else none

namespace Heap

def make (h : Heap) : Making → ObjectId × Heap
  | .object proto => h.newObject proto
  | .env proto => h.newEnv proto
  | .function name entry => h.newFunction name entry

def perform (h : Heap) : Deed → Heap
  | .make how => (h.make how).2
  | .register id key v => h.register id key v

/-- The heap after deeds, done in order. -/
def performAll (h : Heap) (deeds : List Deed) : Heap := deeds.foldl perform h

theorem properties_alloc (h : Heap) (name : String) (proto : Option ObjectId)
    (callable : Option Callable) (id : ObjectId) :
    (h.alloc name proto callable).2.properties id = if id = h.size then {} else h.properties id := by
  rw [properties, object?_alloc]
  split <;> rfl

theorem properties_store {h : Heap} {id : ObjectId} (there : id < h.size) (target : ObjectId)
    (key : String) (slot : Slot) :
    (h.store target key slot).properties id =
      if target = id then (h.properties id).insert key slot else h.properties id := by
  have found : h.object? id = some h.objects[id] := Array.getElem?_eq_getElem there
  rw [properties, properties, object?_store, found]
  split <;> rfl

theorem size_make (h : Heap) (how : Making) : (h.make how).2.size = h.size + 1 := by
  cases how with
  | object proto => exact h.size_alloc _ _ _
  | env proto => exact h.size_alloc _ _ _
  | function name entry => exact (size_store _ _ _ _).trans (h.size_alloc _ _ _)

theorem make_fst (h : Heap) (how : Making) : (h.make how).1 = h.size := by
  cases how <;> rfl

/-- A new object has the properties it is made with, and the old ones keep theirs. -/
theorem properties_make {h : Heap} {id : ObjectId} (there : id ≤ h.size) (how : Making) :
    (h.make how).2.properties id =
      if id = h.size then ({} : PropertyTable).insertAll how.slots else h.properties id := by
  cases how with
  | object proto => exact h.properties_alloc _ _ _ id
  | env proto => exact h.properties_alloc _ _ _ id
  | function name entry =>
    have inside : id < (h.alloc ("function " ++ name) none (some entry)).2.size := by
      rw [size_alloc]
      exact Nat.lt_succ_of_le there
    refine (properties_store inside h.size applyKey .owner).trans ?_
    rw [properties_alloc]
    by_cases new : id = h.size
    · rw [if_pos new.symm, if_pos new, if_pos new]
      rfl
    · rw [if_neg (Ne.symm new), if_neg new, if_neg new]

/-- A registration as a store. -/
def stored (registration : String × Value) : String × Slot :=
  (registration.1, .value registration.2)

/-- A deed stores in an object what it registers on it. -/
theorem properties_perform {h : Heap} {id : ObjectId} (there : id < h.size) (deed : Deed) :
    (h.perform deed).properties id =
      (h.properties id).insertAll ((deed.registered id).toList.map stored) := by
  cases deed with
  | make how =>
    rw [perform, properties_make (Nat.le_of_lt there), if_neg (Nat.ne_of_lt there)]
    rfl
  | register target key v =>
    rw [perform, register, properties_store there, Deed.registered]
    split <;> rfl

theorem size_le_perform (h : Heap) (deed : Deed) : h.size ≤ (h.perform deed).size := by
  cases deed with
  | make how =>
    rw [perform, size_make]
    exact Nat.le_succ _
  | register target key v => exact Nat.le_of_eq (h.size_store target key (.value v)).symm

/-- Deeds store in an object what they register on it, in order. -/
theorem properties_performAll {h : Heap} {id : ObjectId} (there : id < h.size) (deeds : List Deed) :
    (h.performAll deeds).properties id =
      (h.properties id).insertAll ((deeds.filterMap (Deed.registered id)).map stored) := by
  induction deeds generalizing h with
  | nil => rfl
  | cons deed rest ih =>
    have still : id < (h.perform deed).size := Nat.lt_of_lt_of_le there (h.size_le_perform deed)
    have split : (deed :: rest).filterMap (Deed.registered id) =
        (deed.registered id).toList ++ rest.filterMap (Deed.registered id) := by
      cases registered : deed.registered id <;> simp [registered]
    have tail : (h.performAll (deed :: rest)).properties id =
        ((h.perform deed).performAll rest).properties id := rfl
    rw [tail, ih still, properties_perform there, split, List.map_append,
      PropertyTable.insertAll_append]

theorem mem_entries_iff (h : Heap) (id : ObjectId) (key : String) (v : Value) :
    (key, v) ∈ h.entries id ↔ h.own? id key = some v := by
  rw [own?, Option.map_eq_some_iff]
  constructor
  · intro member
    obtain ⟨entry, held, same⟩ := List.mem_map.mp member
    obtain ⟨rfl, rfl⟩ := Prod.mk.inj same
    exact ⟨entry.2, PropertyTable.get?_eq_some_iff.mpr held, rfl⟩
  · rintro ⟨slot, held, rfl⟩
    exact List.mem_map.mpr ⟨(key, slot), PropertyTable.get?_eq_some_iff.mp held, rfl⟩

end Heap

theorem lookup_map_value {β γ : Type} (f : β → γ) (entries : List (String × β)) (key : String) :
    (entries.map fun entry => (entry.1, f entry.2)).lookup key = (entries.lookup key).map f := by
  induction entries with
  | nil => rfl
  | cons entry rest ih =>
    rw [List.map_cons, List.lookup_cons, List.lookup_cons]
    cases key == entry.1 with
    | true => rfl
    | false => exact ih

/-- The slots of an object, as it is made and as it is registered on, stand for the values it was
given. -/
theorem slots_resolve (how : Making) (id : ObjectId) (registered : List (String × Value)) :
    (how.slots ++ registered.map Heap.stored).map (fun entry => (entry.1, Heap.slotValue id entry.2)) =
      how.start id ++ registered := by
  rw [List.map_append, List.map_map]
  congr 1
  · cases how <;> rfl
  · exact List.map_id _

/-- The keys of an object are those given to it, when it was made and by registrations since, each where it
came first, and a key holds the value given last. Its index gives a key the place `i` exactly if the entry
at `i` has this key. -/
theorem properties_follow_registrations (h : Heap) (how : Making) (deeds : List Deed) :
    let id := (h.make how).1
    let h' := (h.make how).2.performAll deeds
    let given := how.start id ++ deeds.filterMap (Deed.registered id)
    (∀ key i, (h'.properties id).index.lookup key = some i ↔
      ∃ slot, (h'.properties id).entries[i]? = some (key, slot)) ∧
    h'.keys id = (given.map (·.1)).eraseDups ∧
    (h'.keys id).Nodup ∧
    h'.length id = (h'.keys id).length ∧
    (∀ key, h'.own? id key = given.reverse.lookup key) ∧
    ∀ key v, (key, v) ∈ h'.entries id ↔ h'.own? id key = some v := by
  intro id h' given
  have table : h'.properties id = ({} : PropertyTable).insertAll
      (how.slots ++ (deeds.filterMap (Deed.registered id)).map Heap.stored) := by
    have there : id < (h.make how).2.size := by
      rw [Heap.size_make]
      exact Nat.lt_succ_of_le (Nat.le_of_eq (h.make_fst how))
    have made := h.make_fst how
    rw [Heap.properties_performAll there, Heap.properties_make (Nat.le_of_eq made), if_pos made,
      PropertyTable.insertAll_append]
  have resolved := slots_resolve how id (deeds.filterMap (Deed.registered id))
  refine ⟨?_, ?_, (h'.properties id).indexed.nodup, (List.length_map _).symm, ?_,
    h'.mem_entries_iff id⟩
  · intro key i
    refine ((h'.properties id).indexed key i).trans ?_
    rw [List.getElem?_map, Option.map_eq_some_iff]
    constructor
    · rintro ⟨entry, held, rfl⟩
      exact ⟨entry.2, held⟩
    · rintro ⟨slot, held⟩
      exact ⟨(key, slot), held, rfl⟩
  · rw [Heap.keys, table, PropertyTable.keys_insertAll]
    have keys := congrArg (List.map (·.1)) resolved
    rw [List.map_map] at keys
    exact congrArg List.eraseDups keys
  · intro key
    have nothing : ({} : PropertyTable).get? key = none := rfl
    rw [Heap.own?, table, PropertyTable.get?_insertAll, nothing, Option.or_none, ← lookup_map_value,
      List.map_reverse, resolved]

end ScriptEngine
