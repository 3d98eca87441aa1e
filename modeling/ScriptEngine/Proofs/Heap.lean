import ScriptEngine.Engine
import ScriptEngine.Proofs.CallSite
import ScriptEngine.Proofs.HostProgram
import Mathlib.Logic.Relation

/-!
# Objects on the heap

A heap that grows keeps its objects: name, prototype and entry of an object never change, and its keys
stay in their order while new ones are put behind them. A heap is closed if whatever its objects mention
is on it and prototypes are older than the objects that inherit from them; then lookups stay inside the
heap and no prototype chain comes back to where it began.
-/

namespace ScriptEngine

namespace PropertyTable

variable {t : PropertyTable} {key : String}

theorem indexOf?_eq_some_iff {i : Nat} : t.indexOf? key = some i ↔ t.keys[i]? = some key :=
  t.indexed key i

theorem indexOf?_eq_none_iff : t.indexOf? key = none ↔ key ∉ t.keys :=
  t.indexed.lookup_eq_none_iff

/-- The index leads to the entry that holds the key. -/
theorem get?_eq_some_iff {slot : Slot} : t.get? key = some slot ↔ (key, slot) ∈ t.entries := by
  have place : ∀ {i : Nat} {entry : String × Slot}, t.entries[i]? = some entry →
      (t.indexOf? key = some i ↔ entry.1 = key) := by
    intro i entry held
    rw [indexOf?_eq_some_iff, keys, List.getElem?_map, held]
    simp
  constructor
  · intro found
    obtain ⟨i, indexed, stored⟩ := Option.bind_eq_some_iff.mp found
    obtain ⟨entry, held, rfl⟩ := Option.map_eq_some_iff.mp stored
    obtain rfl := (place held).mp indexed
    exact List.mem_of_getElem? held
  · intro member
    obtain ⟨i, held⟩ := List.mem_iff_getElem?.mp member
    rw [get?, (place held).mpr rfl]
    simp [held]

theorem insert_of_some {i : Nat} (found : t.indexOf? key = some i) (slot : Slot) :
    (t.insert key slot).entries = t.entries.modify i (fun entry => (entry.1, slot)) ∧
      (t.insert key slot).index = t.index := by
  unfold insert
  split
  · rename_i j place
    obtain rfl : j = i := Option.some.inj (place.symm.trans found)
    exact ⟨rfl, rfl⟩
  · rename_i place
    rw [found] at place
    cases place

theorem insert_of_none (absent : t.indexOf? key = none) (slot : Slot) :
    (t.insert key slot).entries = t.entries ++ [(key, slot)] ∧
      (t.insert key slot).index = (key, t.entries.length) :: t.index := by
  unfold insert
  split
  · rename_i i place
    rw [absent] at place
    cases place
  · exact ⟨rfl, rfl⟩

theorem keys_insert (t : PropertyTable) (key : String) (slot : Slot) :
    (t.insert key slot).keys = if key ∈ t.keys then t.keys else t.keys ++ [key] := by
  cases found : t.indexOf? key with
  | none =>
    rw [if_neg (indexOf?_eq_none_iff.mp found), keys, (insert_of_none found slot).1, List.map_append]
    rfl
  | some i =>
    have present : key ∈ t.keys := List.mem_of_getElem? (indexOf?_eq_some_iff.mp found)
    rw [if_pos present, keys, (insert_of_some found slot).1, keys_modify]
    rfl

theorem keys_insert_prefix (t : PropertyTable) (key : String) (slot : Slot) :
    t.keys <+: (t.insert key slot).keys := by
  rw [keys_insert]
  split
  · exact List.prefix_rfl
  · exact List.prefix_append _ _

/-- A key holds what was stored under it last; the other keys are not touched. -/
theorem get?_insert (t : PropertyTable) (key : String) (slot : Slot) (other : String) :
    (t.insert key slot).get? other = if other = key then some slot else t.get? other := by
  cases found : t.indexOf? key with
  | some i =>
    obtain ⟨entries, index⟩ := insert_of_some found slot
    have here := indexOf?_eq_some_iff.mp found
    rw [get?, get?, indexOf?, index, entries, ← indexOf?]
    by_cases same : other = key
    · subst other
      obtain ⟨entry, held, -⟩ : ∃ entry, t.entries[i]? = some entry ∧ entry.1 = key := by
        simpa [keys] using here
      simp [found, held]
    · rw [if_neg same]
      apply Option.bind_congr
      intro j elsewhere
      have apart : i ≠ j := by
        rintro rfl
        exact same (Option.some.inj ((indexOf?_eq_some_iff.mp elsewhere).symm.trans here))
      rw [List.getElem?_modify_ne _ _ apart]
  | none =>
    obtain ⟨entries, index⟩ := insert_of_none found slot
    rw [get?, get?, indexOf?, index, entries, lookup_cons_ite]
    by_cases same : other = key
    · subst other
      simp
    · rw [if_neg same, if_neg same, ← indexOf?]
      apply Option.bind_congr
      intro j elsewhere
      have inside : j < t.entries.length := by
        have old := (List.getElem?_eq_some_iff.mp (indexOf?_eq_some_iff.mp elsewhere)).1
        rwa [keys, List.length_map] at old
      rw [List.getElem?_append_left inside]

theorem mem_insert {t : PropertyTable} {key : String} {slot : Slot} {entry : String × Slot}
    (member : entry ∈ (t.insert key slot).entries) : entry ∈ t.entries ∨ entry = (key, slot) := by
  have found := get?_eq_some_iff.mpr member
  rw [get?_insert] at found
  split at found
  · rename_i same
    exact Or.inr (Prod.ext same (Option.some.inj found).symm)
  · exact Or.inl (get?_eq_some_iff.mp found)

end PropertyTable

/-- What may become of an object: its keys stay in order, and new ones come behind them. -/
structure Object.Extends (o o' : Object) : Prop where
  name : o'.name = o.name
  proto : o'.proto = o.proto
  callable : o'.callable = o.callable
  keys : o.properties.keys <+: o'.properties.keys

theorem Object.Extends.refl (o : Object) : o.Extends o := ⟨rfl, rfl, rfl, List.prefix_rfl⟩

theorem Object.Extends.trans {o₁ o₂ o₃ : Object} (first : o₁.Extends o₂) (second : o₂.Extends o₃) :
    o₁.Extends o₃ where
  name := second.name.trans first.name
  proto := second.proto.trans first.proto
  callable := second.callable.trans first.callable
  keys := first.keys.trans second.keys

namespace Heap

theorem object?_lt {h : Heap} {id : ObjectId} {o : Object} (found : h.object? id = some o) :
    id < h.size := (Array.getElem?_eq_some_iff.mp found).1

theorem object?_alloc (h : Heap) (name : String) (proto : Option ObjectId)
    (callable : Option Callable) (id : ObjectId) :
    (h.alloc name proto callable).2.object? id =
      if id = h.size then some { name, proto, callable, token := h.nextToken } else h.object? id :=
  Array.getElem?_push

theorem object?_store (h : Heap) (id : ObjectId) (key : String) (slot : Slot) (other : ObjectId) :
    (h.store id key slot).object? other =
      if id = other then (h.object? other).map fun o =>
        { o with properties := o.properties.insert key slot, token := h.nextToken }
      else h.object? other :=
  Array.getElem?_modify

@[simp] theorem size_alloc (h : Heap) (name : String) (proto : Option ObjectId)
    (callable : Option Callable) : (h.alloc name proto callable).2.size = h.size + 1 :=
  Array.size_push ..

@[simp] theorem size_store (h : Heap) (id : ObjectId) (key : String) (slot : Slot) :
    (h.store id key slot).size = h.size := Array.size_modify

theorem Grows.size_le {h h' : Heap} (grows : h.Grows h') : h.size ≤ h'.size := by
  induction grows with
  | refl => exact Nat.le_refl _
  | alloc name proto callable _ ih =>
    rw [size_alloc]
    omega
  | store id key slot _ ih =>
    rw [size_store]
    exact ih

/-- Every object is still there, and is the same object. -/
theorem Grows.object {h h' : Heap} (grows : h.Grows h') {id : ObjectId} {o : Object}
    (found : h.object? id = some o) : ∃ o', h'.object? id = some o' ∧ o.Extends o' := by
  induction grows with
  | refl => exact ⟨o, found, .refl o⟩
  | @alloc h' name proto callable _ ih =>
    obtain ⟨o', found', extends_⟩ := ih
    have old : id ≠ h'.size := Nat.ne_of_lt (object?_lt found')
    exact ⟨o', by rw [object?_alloc, if_neg old, found'], extends_⟩
  | @store h' target key slot _ ih =>
    obtain ⟨o', found', extends_⟩ := ih
    rw [object?_store, found']
    split
    · exact ⟨_, rfl, extends_.trans ⟨rfl, rfl, rfl, o'.properties.keys_insert_prefix key slot⟩⟩
    · exact ⟨o', rfl, extends_⟩

end Heap

/-- The value mentions only objects of a heap with `n` objects. -/
def Value.Below (n : Nat) (v : Value) : Prop := ∀ id, v = .object id → id < n

theorem Value.Below.mono {n k : Nat} (less : n ≤ k) {v : Value} (below : v.Below n) : v.Below k :=
  fun id same => Nat.lt_of_lt_of_le (below id same) less

theorem Value.below_object {n : Nat} {id : ObjectId} : (Value.object id).Below n ↔ id < n := by
  constructor
  · intro below
    exact below id rfl
  · rintro less _ ⟨⟩
    exact less

theorem Value.Below.of_plain {n : Nat} {v : Value} (plain : v.object? = none) : v.Below n := by
  rintro id rfl
  cases plain

theorem below_argument {n : Nat} {args : List Value} (below : ∀ v ∈ args, v.Below n) (i : Nat) :
    (argument args i).Below n := by
  rw [argument]
  cases found : args[i]? with
  | none => exact Value.Below.of_plain rfl
  | some v => exact below v (List.mem_of_getElem? found)

/-- From now on, the program names only objects of a heap with `n` objects, and objects it is given. -/
def HostProgram.Below (n : Nat) (p : HostProgram) : Prop := p.Careful (fun k v => v.Below k) (· ≤ ·) n

/-- The function names only objects of a heap with `n` objects, and objects it is given. -/
def HostFunction.Below (n : Nat) (f : HostFunction) : Prop :=
  ∀ k receiver args, n ≤ k → (∀ v ∈ receiver :: args, v.Below k) → (f.onCall receiver args).Below k

theorem HostFunction.Below.mono {n k : Nat} (less : n ≤ k) {f : HostFunction} (below : f.Below n) :
    f.Below k :=
  fun n' receiver args later => below n' receiver args (Nat.le_trans less later)

/-- The entry mentions only objects of a heap with `n` objects. -/
def Callable.Below (n : Nat) : Callable → Prop
  | .native f => f.body.Below n
  | .compiled .. => True

theorem Callable.Below.mono {n k : Nat} (less : n ≤ k) {entry : Callable} (below : entry.Below n) :
    entry.Below k := by
  cases entry with
  | native f => exact HostFunction.Below.mono less below
  | compiled => trivial

/-- Whatever the object with the number `id` mentions is among `n` objects; its prototype is older
than itself. -/
structure Object.Closed (n : Nat) (id : ObjectId) (o : Object) : Prop where
  proto : ∀ p, o.proto = some p → p < id
  values : ∀ key v, (key, Slot.value v) ∈ o.properties.entries → v.Below n
  callable : ∀ entry, o.callable = some entry → entry.Below n

theorem Object.Closed.mono {n k : Nat} (less : n ≤ k) {id : ObjectId} {o : Object}
    (closed : o.Closed n id) : o.Closed k id where
  proto := closed.proto
  values key v member := (closed.values key v member).mono less
  callable entry same := (closed.callable entry same).mono less

namespace Heap

def Closed (h : Heap) : Prop := ∀ id o, h.object? id = some o → o.Closed h.size id

variable {h : Heap}

theorem Closed.alloc (closed : h.Closed) (name : String) {proto : Option ObjectId}
    (older : ∀ p, proto = some p → p < h.size) {callable : Option Callable}
    (below : ∀ entry, callable = some entry → entry.Below h.size) :
    (h.alloc name proto callable).2.Closed := by
  intro id o found
  rw [size_alloc]
  rw [object?_alloc] at found
  split at found
  · rename_i last
    subst last
    cases found
    exact ⟨older, by simp, fun entry same => (below entry same).mono (Nat.le_succ _)⟩
  · exact (closed id o found).mono (Nat.le_succ _)

theorem Closed.store (closed : h.Closed) (id : ObjectId) (key : String) {slot : Slot}
    (below : ∀ v, slot = .value v → v.Below h.size) : (h.store id key slot).Closed := by
  intro other o found
  rw [size_store]
  rw [object?_store] at found
  split at found
  · obtain ⟨old, held, rfl⟩ := Option.map_eq_some_iff.mp found
    have before := closed other old held
    refine ⟨before.proto, ?_, before.callable⟩
    intro key' v member
    rcases PropertyTable.mem_insert member with kept | new
    · exact before.values key' v kept
    · exact below v (congrArg Prod.snd new).symm
  · exact closed other o found

theorem Closed.newFunction (closed : h.Closed) (name : String) {entry : Callable}
    (below : entry.Below h.size) :
    (h.newFunction name entry).2.Closed ∧
      (h.newFunction name entry).1 < (h.newFunction name entry).2.size := by
  have made : (h.alloc ("function " ++ name) none (some entry)).2.Closed :=
    closed.alloc _ (by simp) (by simpa using below)
  refine ⟨made.store _ applyKey (by simp), ?_⟩
  simp only [Heap.newFunction, size_store, size_alloc]
  exact Nat.lt_succ_self _

theorem Closed.own? (closed : h.Closed) {id : ObjectId} {key : String} {v : Value}
    (found : h.own? id key = some v) : v.Below h.size := by
  cases object : h.object? id with
  | none => simp [Heap.own?, properties, object, PropertyTable.get?] at found
  | some o =>
    obtain ⟨slot, held, rfl⟩ := Option.map_eq_some_iff.mp found
    have member : (key, slot) ∈ o.properties.entries := by
      rw [properties, object] at held
      exact PropertyTable.get?_eq_some_iff.mp held
    cases slot with
    | value v => exact (closed id o object).values key v member
    | owner => exact Value.below_object.mpr (object?_lt object)

theorem Closed.lookup (closed : h.Closed) (id : ObjectId) (key : String) :
    (h.lookup id key).Below h.size := by
  have along : ∀ steps id, (h.lookupWithin key steps id).Below h.size := by
    intro steps
    induction steps with
    | zero =>
      rintro id _ ⟨⟩
    | succ steps ih =>
      intro id
      rw [lookupWithin]
      split
      · rename_i v found
        exact closed.own? found
      · split
        · exact ih _
        · rintro _ ⟨⟩
  exact along h.size id

theorem Closed.callable? (closed : h.Closed) {id : ObjectId} {entry : Callable}
    (found : h.callable? id = some entry) : id < h.size ∧ entry.Below h.size := by
  obtain ⟨o, object, same⟩ := Option.bind_eq_some_iff.mp found
  exact ⟨object?_lt object, (closed id o object).callable entry same⟩

theorem Closed.proto_lt (closed : h.Closed) {id p : Nat} (link : h.proto? id = some p) :
    p < id ∧ id < h.size := by
  obtain ⟨o, object, same⟩ := Option.bind_eq_some_iff.mp link
  exact ⟨(closed id o object).proto p same, object?_lt object⟩

/-- Along a chain objects get older and older. -/
theorem Closed.chain_lt (closed : h.Closed) {id p : Nat}
    (chain : Relation.TransGen (fun id p => h.proto? id = some p) id p) : p < id := by
  induction chain with
  | single link => exact (closed.proto_lt link).1
  | tail _ link ih => exact Nat.lt_trans (closed.proto_lt link).1 ih

theorem Closed.chains_finite (closed : h.Closed) :
    WellFounded fun p id => h.proto? id = some p :=
  Subrelation.wf (fun link => (closed.proto_lt link).1) Nat.lt_wfRel.wf

/-- More steps than there are older objects make no difference. -/
theorem Closed.lookupWithin_eq (closed : h.Closed) (key : String) {steps steps' id : Nat}
    (enough : id < steps) (enough' : id < steps') :
    h.lookupWithin key steps id = h.lookupWithin key steps' id := by
  induction steps generalizing steps' id with
  | zero => omega
  | succ steps ih =>
    obtain ⟨steps', rfl⟩ : ∃ n, steps' = n + 1 := ⟨steps' - 1, by omega⟩
    rw [lookupWithin, lookupWithin]
    split
    · rfl
    · split
      · rename_i p link
        have older := (closed.proto_lt link).1
        exact ih (by omega) (by omega)
      · rfl

/-- A lookup goes along the whole chain. -/
theorem Closed.lookup_eq (closed : h.Closed) (id : Nat) (key : String) :
    h.lookup id key =
      match h.own? id key, h.proto? id with
      | some v, _ => v
      | none, some p => h.lookup p key
      | none, none => .undefined := by
  by_cases inside : id < h.size
  · obtain ⟨n, size⟩ : ∃ n, h.size = n + 1 := ⟨h.size - 1, by omega⟩
    have whole : ∀ id, h.lookup id key = h.lookupWithin key (n + 1) id := by
      intro id
      rw [Heap.lookup, size]
    rw [whole, lookupWithin]
    split
    · rename_i v found
      simp only [found]
    · rename_i missing
      split
      · rename_i p link
        have older := (closed.proto_lt link).1
        simp only [missing, link]
        rw [whole]
        exact closed.lookupWithin_eq key (by omega) (by omega)
      · rename_i last
        simp only [missing, last]
  · have gone : h.object? id = none := Array.getElem?_eq_none (Nat.le_of_not_lt inside)
    have nothing : ∀ steps, h.lookupWithin key steps id = .undefined := by
      intro steps
      cases steps <;> simp [lookupWithin, Heap.own?, properties, proto?, gone, PropertyTable.get?]
    simp [Heap.lookup, nothing, Heap.own?, properties, proto?, gone, PropertyTable.get?]

end Heap

theorem define_grows (m : Machine) (owner : ObjectId) (name : String) (arity : Arity)
    (body : HostFunction) : m.heap.Grows (m.define owner name arity body).2.heap :=
  (m.heap.newFunction_grows name _).trans (Heap.register_grows _ owner name _)

theorem operators_grow (ops : List Operator) (m : Machine) :
    m.heap.Grows (ops.foldl
      (fun m op => (m.define Machine.global op.symbol (.fixed 2) (.operator op)).2) m).heap := by
  induction ops generalizing m with
  | nil => exact .refl
  | cons op ops ih => exact (define_grows m _ _ _ _).trans (ih _)

theorem size_define (m : Machine) (owner : ObjectId) (name : String) (arity : Arity)
    (body : HostFunction) : (m.define owner name arity body).2.heap.size = m.heap.size + 1 := by
  simp only [Machine.define, Heap.newNative, Heap.newFunction, Heap.register, Heap.size_store,
    Heap.size_alloc]

theorem define_callable (m : Machine) (owner : ObjectId) (name : String) (arity : Arity)
    (body : HostFunction) : (m.define owner name arity body).2.heap.callable? m.heap.size =
      some (.native { name, arity, body }) :=
  (Heap.register_grows _ owner name _).keeps _ _ (m.heap.newFunction_callable name _)

/-- Operators are defined one after another, and a later one does not change an earlier one. -/
theorem operators_callable (ops : List Operator) (m : Machine) {i : Nat} {op : Operator}
    (listed : ops[i]? = some op) :
    (ops.foldl (fun m op => (m.define Machine.global op.symbol (.fixed 2) (.operator op)).2)
      m).heap.callable? (m.heap.size + i) = some (.native ⟨op.symbol, .fixed 2, .operator op⟩) := by
  induction ops generalizing m i with
  | nil => cases listed
  | cons first ops ih =>
    cases i with
    | zero =>
      cases listed
      exact (operators_grow ops _).keeps _ _ (define_callable m _ _ _ _)
    | succ i =>
      have later := ih (m.define Machine.global first.symbol (.fixed 2) (.operator first)).2 listed
      rwa [size_define, Nat.add_assoc, Nat.add_comm 1 i] at later

end ScriptEngine
