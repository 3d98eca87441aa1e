import ScriptEngine.Proofs.Tokens
import Mathlib.Data.Fintype.Card

/-!
# Lookup along prototypes

A lookup goes up the prototype chain of an object until it meets one that owns the key. What it finds is
the own value there, resolved at the object that holds it. A registration is therefore seen from exactly
those objects from which the lookup gets as far as the object it is made to.
-/

namespace ScriptEngine

namespace Heap

theorem own?_eq (h : Heap) (id : ObjectId) (key : String) :
    h.own? id key = (h.object? id).bind fun o => (o.properties.get? key).map (slotValue id) := by
  cases found : h.object? id <;> simp [own?, properties, found, PropertyTable.get?]

theorem own?_lt {h : Heap} {id : ObjectId} {key : String} {v : Value}
    (owned : h.own? id key = some v) : id < h.size := by
  rw [own?_eq] at owned
  obtain ⟨o, found, -⟩ := Option.bind_eq_some_iff.mp owned
  exact object?_lt found

theorem proto?_lt {h : Heap} {id p : ObjectId} (link : h.proto? id = some p) : id < h.size := by
  obtain ⟨o, found, -⟩ := Option.bind_eq_some_iff.mp link
  exact object?_lt found

theorem proto?_store (h : Heap) (id : ObjectId) (key : String) (slot : Slot) (other : ObjectId) :
    (h.store id key slot).proto? other = h.proto? other := by
  rw [proto?, proto?, object?_store]
  by_cases same : id = other
  · subst other
    cases h.object? id <;> simp
  · simp [same]

theorem own?_store {h : Heap} {id : ObjectId} (there : id < h.size) (key : String) (slot : Slot)
    (other : ObjectId) (k : String) :
    (h.store id key slot).own? other k =
      if other = id ∧ k = key then some (slotValue id slot) else h.own? other k := by
  rw [own?_eq, own?_eq, object?_store]
  by_cases same : id = other
  · subst other
    have found : h.object? id = some h.objects[id] := Array.getElem?_eq_getElem there
    rw [if_pos rfl, found]
    simp only [Option.map_some, Option.bind_some, PropertyTable.get?_insert, true_and]
    split <;> rfl
  · have apart : ¬ (other = id ∧ k = key) := fun both => same both.1.symm
    rw [if_neg same, if_neg apart]

/-- A new object owns nothing, and the old ones own what they owned. -/
theorem own?_alloc (h : Heap) (name : String) (proto : Option ObjectId) (callable : Option Callable)
    (id : ObjectId) (key : String) :
    (h.alloc name proto callable).2.own? id key = h.own? id key := by
  rw [own?_eq, own?_eq, object?_alloc]
  by_cases new : id = h.size
  · have missing : h.object? id = none := Array.getElem?_eq_none (Nat.le_of_eq new.symm)
    rw [if_pos new, missing]
    rfl
  · rw [if_neg new]

/-- The object that stands `i` links up the prototype chain. -/
def ancestor (h : Heap) : (i : Nat) → ObjectId → Option ObjectId
  | 0, id => some id
  | i + 1, id => (h.proto? id).bind (h.ancestor i)

/-- The object `p` stands on the chain of `id`, and none of the objects before it owns the key. -/
def Unshadowed (h : Heap) (key : String) (id p : ObjectId) : Prop :=
  ∃ i, h.ancestor i id = some p ∧
    ∀ j q, j < i → h.ancestor j id = some q → h.own? q key = none

theorem ancestor_add (h : Heap) (i j : Nat) (id : ObjectId) :
    h.ancestor (i + j) id = (h.ancestor i id).bind (h.ancestor j) := by
  induction i generalizing id with
  | zero => simp [ancestor]
  | succ i ih =>
    rw [Nat.succ_add, ancestor, ancestor]
    cases h.proto? id with
    | none => rfl
    | some p => exact ih p

theorem unshadowed_self (h : Heap) (key : String) (id : ObjectId) : h.Unshadowed key id id := by
  refine ⟨0, rfl, ?_⟩
  intro j q before
  omega

theorem Unshadowed.below {h : Heap} {key : String} {id p q : ObjectId} (missing : h.own? id key = none)
    (link : h.proto? id = some p) (unshadowed : h.Unshadowed key p q) : h.Unshadowed key id q := by
  obtain ⟨i, stands, clear⟩ := unshadowed
  refine ⟨i + 1, by rw [ancestor, link]; exact stands, ?_⟩
  intro j r before found
  cases j with
  | zero =>
    obtain rfl : id = r := Option.some.inj found
    exact missing
  | succ j =>
    rw [ancestor, link] at found
    exact clear j r (by omega) found

/-- The key is owned `i` links up the chain, by `q`, and nowhere before. -/
structure FirstOwner (h : Heap) (key : String) (id : ObjectId) (i : Nat) (q : ObjectId) (v : Value) :
    Prop where
  stands : h.ancestor i id = some q
  owned : h.own? q key = some v
  first : ∀ j r, j < i → h.ancestor j id = some r → h.own? r key = none

theorem exists_firstOwner {h : Heap} {key : String} {id q : ObjectId} {i : Nat} {v : Value}
    (stands : h.ancestor i id = some q) (owned : h.own? q key = some v) :
    ∃ j r w, j ≤ i ∧ h.FirstOwner key id j r w := by
  induction i using Nat.strongRecOn generalizing q v with
  | ind i ih =>
    by_cases earlier : ∃ j r w, j < i ∧ h.ancestor j id = some r ∧ h.own? r key = some w
    · obtain ⟨j, r, w, before, stands, owned⟩ := earlier
      obtain ⟨k, r, w, least, found⟩ := ih j before stands owned
      exact ⟨k, r, w, by omega, found⟩
    · refine ⟨i, q, v, Nat.le_refl i, stands, owned, ?_⟩
      intro j r before stands
      cases own : h.own? r key with
      | none => rfl
      | some w => exact absurd ⟨j, r, w, before, stands, own⟩ earlier

/-- A first owner has fewer objects before it than there are objects: none of them occurs twice. This
needs no assumption on the prototypes, which might even go round in a circle. -/
theorem FirstOwner.lt_size {h : Heap} {key : String} {id q : ObjectId} {i : Nat} {v : Value}
    (owner : h.FirstOwner key id i q v) : i < h.size := by
  have rest : ∀ j r, j ≤ i → h.ancestor j id = some r → h.ancestor (i - j) r = some q := by
    intro j r inside stands
    have split := h.ancestor_add j (i - j) id
    rw [Nat.add_sub_cancel' inside, stands, owner.stands] at split
    exact split.symm
  have objects : ∀ j : Fin (i + 1), ∃ r : Fin h.size, h.ancestor j id = some r.val := by
    rintro ⟨j, inside⟩
    have split := h.ancestor_add j (i - j) id
    rw [Nat.add_sub_cancel' (by omega), owner.stands] at split
    obtain ⟨r, stands, -⟩ := Option.bind_eq_some_iff.mp split.symm
    by_cases last : j = i
    · subst j
      obtain rfl : q = r := Option.some.inj (owner.stands.symm.trans stands)
      exact ⟨⟨q, own?_lt owner.owned⟩, stands⟩
    · -- there is one more link from here
      obtain ⟨k, more⟩ : ∃ k, i - j = k + 1 := ⟨i - j - 1, by omega⟩
      have up := rest j r (by omega) stands
      rw [more, ancestor] at up
      obtain ⟨p, link, -⟩ := Option.bind_eq_some_iff.mp up
      exact ⟨⟨r, proto?_lt link⟩, stands⟩
  choose place stands using objects
  have apart : ∀ j j' : Fin (i + 1), j.val < j'.val → place j ≠ place j' := by
    intro j j' before same
    -- the chain would come to `q` the shorter way, from the first of the two places
    have shorter : h.ancestor (j + (i - j')) id = some q := by
      rw [ancestor_add, stands j, same]
      exact rest j' _ (by omega) (stands j')
    have missing := owner.first (j + (i - j')) q (by omega) shorter
    rw [owner.owned] at missing
    cases missing
  have injective : Function.Injective place := by
    intro j j' same
    rcases Nat.lt_trichotomy j.val j'.val with before | equal | after
    · exact absurd same (apart j j' before)
    · exact Fin.ext equal
    · exact absurd same.symm (apart j' j after)
  have count := Fintype.card_le_of_injective place injective
  simp only [Fintype.card_fin] at count
  omega

theorem FirstOwner.lookupWithin_eq {h : Heap} {key : String} {id q : ObjectId} {i steps : Nat}
    {v : Value} (owner : h.FirstOwner key id i q v) (enough : i < steps) :
    h.lookupWithin key steps id = v := by
  induction i generalizing id steps with
  | zero =>
    obtain ⟨n, rfl⟩ : ∃ n, steps = n + 1 := ⟨steps - 1, by omega⟩
    obtain rfl : id = q := Option.some.inj owner.stands
    simp [lookupWithin, owner.owned]
  | succ i ih =>
    obtain ⟨n, rfl⟩ : ∃ n, steps = n + 1 := ⟨steps - 1, by omega⟩
    have missing := owner.first 0 id (by omega) rfl
    have stands := owner.stands
    rw [ancestor] at stands
    obtain ⟨p, link, stands⟩ := Option.bind_eq_some_iff.mp stands
    have above : h.FirstOwner key p i q v := by
      refine ⟨stands, owner.owned, ?_⟩
      intro j r before found
      exact owner.first (j + 1) r (by omega) (by rw [ancestor, link]; exact found)
    simp only [lookupWithin, missing, link]
    exact ih above (by omega)

theorem FirstOwner.lookup_eq {h : Heap} {key : String} {id q : ObjectId} {i : Nat} {v : Value}
    (owner : h.FirstOwner key id i q v) : h.lookup id key = v :=
  owner.lookupWithin_eq owner.lt_size

theorem lookup_of_unshadowed {h : Heap} {key : String} {id q : ObjectId} {v : Value}
    (unshadowed : h.Unshadowed key id q) (owned : h.own? q key = some v) : h.lookup id key = v := by
  obtain ⟨i, stands, clear⟩ := unshadowed
  exact FirstOwner.lookup_eq ⟨stands, owned, clear⟩

theorem lookup_of_unowned {h : Heap} {key : String} {id : ObjectId}
    (unowned : ∀ i q, h.ancestor i id = some q → h.own? q key = none) :
    h.lookup id key = .undefined := by
  have along : ∀ steps id, (∀ i q, h.ancestor i id = some q → h.own? q key = none) →
      h.lookupWithin key steps id = .undefined := by
    intro steps
    induction steps with
    | zero => intro id _; rfl
    | succ steps ih =>
      intro id unowned
      have missing := unowned 0 id rfl
      cases link : h.proto? id with
      | none => simp only [lookupWithin, missing, link]
      | some p =>
        simp only [lookupWithin, missing, link]
        apply ih
        intro i q stands
        exact unowned (i + 1) q (by rw [ancestor, link]; exact stands)
  exact along h.size id unowned

theorem ancestor_store (h : Heap) (id : ObjectId) (key : String) (slot : Slot) (i : Nat)
    (other : ObjectId) : (h.store id key slot).ancestor i other = h.ancestor i other := by
  induction i generalizing other with
  | zero => rfl
  | succ i ih =>
    rw [ancestor, ancestor, proto?_store]
    cases h.proto? other with
    | none => rfl
    | some p => exact ih p

/-- A stored value is seen wherever the object is not shadowed. -/
theorem lookup_store_of_unshadowed {h : Heap} {p : ObjectId} (there : p < h.size) {key : String}
    {o : ObjectId} (unshadowed : h.Unshadowed key o p) (slot : Slot) :
    (h.store p key slot).lookup o key = slotValue p slot := by
  obtain ⟨i, stands, clear⟩ := unshadowed
  have stands' : (h.store p key slot).ancestor i o = some p := by rw [ancestor_store, stands]
  have owned : (h.store p key slot).own? p key = some (slotValue p slot) := by
    rw [own?_store there, if_pos ⟨rfl, rfl⟩]
  obtain ⟨j, q, w, inside, owner⟩ := exists_firstOwner stands' owned
  -- before `p` nothing was owned, so the first owner can only be `p`
  have holder : q = p := by
    by_contra other
    have before : j < i := by
      rcases Nat.lt_or_eq_of_le inside with before | rfl
      · exact before
      · exact absurd (Option.some.inj (owner.stands.symm.trans stands')) other
    have missing := clear j q before (by rw [← ancestor_store]; exact owner.stands)
    have held := owner.owned
    rw [own?_store there, if_neg fun both => other both.1, missing] at held
    cases held
  subst q
  rw [owner.lookup_eq]
  exact Option.some.inj (owner.owned.symm.trans owned)

/-- Nothing else is seen to change. -/
theorem lookup_store_of_shadowed {h : Heap} {p : ObjectId} (there : p < h.size) {key k : String}
    {o : ObjectId} (shadowed : ¬ (k = key ∧ h.Unshadowed k o p)) (slot : Slot) :
    (h.store p key slot).lookup o k = h.lookup o k := by
  have along : ∀ steps o, ¬ (k = key ∧ h.Unshadowed k o p) →
      (h.store p key slot).lookupWithin k steps o = h.lookupWithin k steps o := by
    intro steps
    induction steps with
    | zero => intro o _; rfl
    | succ steps ih =>
      intro o shadowed
      have apart : ¬ (o = p ∧ k = key) := by
        rintro ⟨rfl, same⟩
        exact shadowed ⟨same, h.unshadowed_self k o⟩
      simp only [lookupWithin, own?_store there, if_neg apart, proto?_store]
      cases missing : h.own? o k with
      | some v => rfl
      | none =>
        cases link : h.proto? o with
        | none => rfl
        | some q =>
          apply ih
          rintro ⟨same, unshadowed⟩
          exact shadowed ⟨same, unshadowed.below missing link⟩
  rw [lookup, lookup, size_store]
  exact along h.size o shadowed

theorem own?_change {h : Heap} {c : Change} {id : ObjectId} {key : String}
    (untouched : ∀ slot, c ≠ .store id key slot) : (h.change c).own? id key = h.own? id key := by
  cases c with
  | create name proto callable => exact h.own?_alloc name proto callable id key
  | store target k slot =>
    have apart : ¬ (id = target ∧ key = k) := by
      rintro ⟨rfl, rfl⟩
      exact untouched slot rfl
    by_cases there : target < h.size
    · exact (own?_store there k slot id key).trans (if_neg apart)
    · -- nothing is stored in an object that does not exist
      have missing : h.object? target = none := Array.getElem?_eq_none (Nat.le_of_not_lt there)
      rw [change, own?_eq, own?_eq, object?_store]
      by_cases same : target = id
      · subst id
        rw [if_pos rfl, missing]
        rfl
      · rw [if_neg same]

theorem own?_after {id : ObjectId} {key : String} (changes : List Change)
    (untouched : ∀ slot, .store id key slot ∉ changes) (h : Heap) :
    (h.after changes).own? id key = h.own? id key := by
  induction changes generalizing h with
  | nil => rfl
  | cons c rest ih =>
    have later : ∀ slot, .store id key slot ∉ rest := fun slot member =>
      untouched slot (List.mem_cons_of_mem _ member)
    have here : ∀ slot, c ≠ .store id key slot := by
      rintro slot rfl
      exact untouched slot List.mem_cons_self
    rw [after, List.foldl_cons, ← after, ih later, own?_change here]

/-- A fresh function finds itself. -/
theorem own?_newFunction (h : Heap) (name : String) (entry : Callable) :
    (h.newFunction name entry).2.own? h.size applyKey = some (.object h.size) := by
  have there : h.size < (h.alloc ("function " ++ name) none (some entry)).2.size := by
    rw [size_alloc]
    omega
  exact (own?_store there applyKey .owner h.size applyKey).trans (if_pos ⟨rfl, rfl⟩)

end Heap

/-- A lookup gives the own value of the first object on the chain that owns the key, and `undefined` if none
does; so a registration is seen exactly from where its object is reached before another owner. A function
is found under `apply` until something else is stored there. -/
theorem lookup_finds_first_owner (h : Heap) :
    (∀ o k,
      (∀ q v, h.Unshadowed k o q → h.own? q k = some v → h.lookup o k = v) ∧
      ((∀ i q, h.ancestor i o = some q → h.own? q k = none) → h.lookup o k = .undefined)) ∧
    (∀ o p k key v, p < h.size →
      (k = key → h.Unshadowed k o p → (h.register p key v).lookup o k = v) ∧
      (¬ (k = key ∧ h.Unshadowed k o p) → (h.register p key v).lookup o k = h.lookup o k)) ∧
    ∀ name entry f changes, f = (h.newFunction name entry).1 →
      (∀ slot, Change.store f applyKey slot ∉ changes) →
      let later := (h.newFunction name entry).2.after changes
      later.own? f applyKey = some (.object f) ∧
        ∀ o, later.Unshadowed applyKey o f → later.lookup o applyKey = .object f := by
  refine ⟨?_, ?_, ?_⟩
  · intro o k
    exact ⟨fun q v => Heap.lookup_of_unshadowed, Heap.lookup_of_unowned⟩
  · intro o p k key v there
    constructor
    · rintro rfl unshadowed
      exact Heap.lookup_store_of_unshadowed there unshadowed (.value v)
    · intro shadowed
      exact Heap.lookup_store_of_shadowed there shadowed (.value v)
  · rintro name entry f changes rfl untouched later
    have itself : later.own? h.size applyKey = some (.object h.size) :=
      (Heap.own?_after changes untouched _).trans (h.own?_newFunction name entry)
    refine ⟨itself, ?_⟩
    intro o unshadowed
    exact Heap.lookup_of_unshadowed unshadowed itself

/-- A function, an object that inherits from it, and one that inherits from that object. -/
def inheritedFunction : Heap :=
  (((({} : Heap).newFunction "f" (.compiled 0 "f" 0)).2.newObject (some 0)).2.newObject (some 1)).2

/-- The last object finds the function under `apply` until its prototype has an `apply` of its own; the
function itself goes on finding itself. -/
theorem lookup_finds_first_owner_inherited :
    inheritedFunction.lookup 2 applyKey = .object 0 ∧ 1 < inheritedFunction.size ∧
      (inheritedFunction.register 1 applyKey .null).lookup 2 applyKey = .null ∧
      (inheritedFunction.register 1 applyKey .null).lookup 0 applyKey = .object 0 := by
  obtain ⟨-, registered, -⟩ := lookup_finds_first_owner inheritedFunction
  obtain ⟨-, -, functions⟩ := lookup_finds_first_owner {}
  have there : 1 < inheritedFunction.size := by decide
  have through : inheritedFunction.Unshadowed applyKey 2 1 := by
    refine ⟨1, by decide, ?_⟩
    intro j q before stands
    obtain rfl : j = 0 := by omega
    cases stands
    decide
  have untouched : ∀ slot, Change.store 0 applyKey slot ∉
      [.create "object" (some 0) none, .create "object" (some 1) none] := by simp
  have found := functions "f" (.compiled 0 "f" 0) 0 _ rfl untouched
  have root : inheritedFunction.lookup 0 applyKey = .object 0 :=
    found.2 0 (Heap.unshadowed_self _ _ _)
  refine ⟨found.2 2 ?_, there, (registered 2 1 _ _ .null there).1 rfl through, ?_⟩
  · refine ⟨2, by decide, ?_⟩
    intro j q before stands
    rcases Nat.lt_succ_iff_lt_or_eq.mp before with early | rfl
    · obtain rfl : j = 0 := by omega
      cases stands
      decide
    · cases stands
      decide
  · rw [(registered 0 1 _ _ .null there).2 ?_, root]
    rintro ⟨-, i, stands, -⟩
    cases i with
    | zero => cases stands
    | succ i => cases stands

end ScriptEngine
