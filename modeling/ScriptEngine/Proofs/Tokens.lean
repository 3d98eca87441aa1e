import ScriptEngine.Proofs.Session
import ScriptEngine.Proofs.Heap

/-!
# Tokens

Every creation of an object and every stored property takes the next word of one counter. A run of such
changes is followed from the empty heap: the change with the number `i` takes the word `i + 1`, and an
object carries the word of the last change that was made to it. As long as there are enough words, the
token of an object therefore tells which change was the last, and nothing else has ever carried it.
-/

namespace ScriptEngine

/-- What may happen to a heap. Either takes one token. -/
inductive Change where
  | create (name : String) (proto : Option ObjectId) (callable : Option Callable)
  | store (id : ObjectId) (key : String) (slot : Slot)

namespace Heap

def change (h : Heap) : Change → Heap
  | .create name proto callable => (h.alloc name proto callable).2
  | .store id key slot => h.store id key slot

/-- The heap after changes, made in order. -/
def after (h : Heap) (changes : List Change) : Heap := changes.foldl change h

end Heap

/-- The object that a change gives a token to. -/
def Change.target (h : Heap) : Change → ObjectId
  | .create .. => h.size
  | .store id .. => id

namespace Heap

theorem nextToken_change (h : Heap) (c : Change) : (h.change c).nextToken = h.nextToken + 1 := by
  cases c <;> rfl

theorem object?_change_of_ne {h : Heap} {c : Change} {id : ObjectId} (other : id ≠ c.target h) :
    (h.change c).object? id = h.object? id := by
  cases c with
  | create name proto callable => exact (h.object?_alloc name proto callable id).trans (if_neg other)
  | store target key slot => exact (h.object?_store target key slot id).trans (if_neg (Ne.symm other))

theorem token_change {h : Heap} {c : Change} {o : Object}
    (found : (h.change c).object? (c.target h) = some o) : o.token = h.nextToken := by
  cases c with
  | create name proto callable =>
    have made := (h.object?_alloc name proto callable h.size).symm.trans found
    rw [if_pos rfl] at made
    exact (congrArg Object.token (Option.some.inj made)).symm
  | store id key slot =>
    have stored := (h.object?_store id key slot id).symm.trans found
    rw [if_pos rfl] at stored
    obtain ⟨old, -, rfl⟩ := Option.map_eq_some_iff.mp stored
    rfl

theorem after_append (h : Heap) (first second : List Change) :
    h.after (first ++ second) = (h.after first).after second := List.foldl_append

/-- Whatever makes a heap grow is a list of changes. -/
theorem Grows.after {h h' : Heap} (grows : h.Grows h') : ∃ changes, h' = h.after changes := by
  induction grows with
  | refl => exact ⟨[], rfl⟩
  | alloc name proto callable _ ih =>
    obtain ⟨changes, rfl⟩ := ih
    exact ⟨changes ++ [.create name proto callable], by rw [after_append]; rfl⟩
  | store id key slot _ ih =>
    obtain ⟨changes, rfl⟩ := ih
    exact ⟨changes ++ [.store id key slot], by rw [after_append]; rfl⟩

theorem after_grows (h : Heap) (changes : List Change) : h.Grows (h.after changes) := by
  induction changes generalizing h with
  | nil => exact .refl
  | cons c rest ih =>
    have first : h.Grows (h.change c) := by
      cases c with
      | create name proto callable => exact Grows.refl.alloc name proto callable
      | store id key slot => exact Grows.refl.store id key slot
    exact first.trans (ih (h.change c))

/-- The heap after the first `i` changes of a run that began with no objects. -/
def moment (changes : List Change) (i : Nat) : Heap := ({} : Heap).after (changes.take i)

variable {changes : List Change}

theorem moment_succ {i : Nat} {c : Change} (next : changes[i]? = some c) :
    moment changes (i + 1) = (moment changes i).change c := by
  rw [moment, List.take_add_one, next, after_append]
  rfl

theorem moment_grows (changes : List Change) {i j : Nat} (order : i ≤ j) :
    (moment changes i).Grows (moment changes j) := by
  have split := (List.take_append_drop i (changes.take j)).symm
  rw [List.take_take, Nat.min_eq_left order] at split
  rw [moment, moment, split, after_append]
  exact after_grows _ _

/-- The token that the change with the number `i` takes. -/
def issued (changes : List Change) (i : Nat) : UInt64 := (moment changes i).nextToken

theorem issued_eq {i : Nat} (inside : i ≤ changes.length) :
    issued changes i = UInt64.ofNat (i + 1) := by
  induction i with
  | zero => rfl
  | succ i ih =>
    have next : changes[i]? = some changes[i] := List.getElem?_eq_getElem inside
    rw [issued, moment_succ next, nextToken_change, ← issued, ih (by omega), UInt64.ofNat_add (i + 1)]
    rfl

/-- As long as there are words left, each change takes another one. -/
theorem issued_injective (few : changes.length ≤ UInt64.size) {i j : Nat} (first : i < changes.length)
    (second : j < changes.length) (same : issued changes i = issued changes j) : i = j := by
  rw [issued_eq (by omega), issued_eq (by omega)] at same
  have words := congrArg UInt64.toNat same
  simp only [UInt64.toNat_ofNat'] at words
  simp only [UInt64.size] at few
  omega

/-- The object that the change with the number `i` is made to. -/
def changedAt (changes : List Change) (i : Nat) : Option ObjectId :=
  changes[i]?.map (·.target (moment changes i))

theorem changedAt_of_next {i : Nat} {c : Change} (next : changes[i]? = some c) :
    changedAt changes i = some (c.target (moment changes i)) := by
  rw [changedAt, next]
  rfl

/-- An object that is not changed stays what it is. -/
theorem object?_moment_of_untouched {i j : Nat} {id : ObjectId} (order : i ≤ j)
    (bound : j ≤ changes.length)
    (untouched : ∀ k, i ≤ k → k < j → changedAt changes k ≠ some id) :
    (moment changes j).object? id = (moment changes i).object? id := by
  induction j, order using Nat.le_induction with
  | base => rfl
  | succ j order ih =>
    have next : changes[j]? = some changes[j] := List.getElem?_eq_getElem bound
    have other : id ≠ changes[j].target (moment changes j) := by
      intro same
      apply untouched j order (by omega)
      rw [changedAt_of_next next, same]
    rw [moment_succ next, object?_change_of_ne other]
    exact ih (by omega) fun k from_ until_ => untouched k from_ (by omega)

/-- An object carries the token of the last change made to it. -/
theorem token_moment {i : Nat} (bound : i ≤ changes.length) {id : ObjectId} {o : Object}
    (found : (moment changes i).object? id = some o) :
    ∃ k, k < i ∧ o.token = issued changes k ∧ changedAt changes k = some id ∧
      ∀ j, k < j → j < i → changedAt changes j ≠ some id := by
  induction i with
  | zero => simp [moment, after, object?] at found
  | succ i ih =>
    have next : changes[i]? = some changes[i] := List.getElem?_eq_getElem bound
    rw [moment_succ next] at found
    by_cases here : id = changes[i].target (moment changes i)
    · subst here
      exact ⟨i, by omega, token_change found, changedAt_of_next next, by omega⟩
    · rw [object?_change_of_ne here] at found
      obtain ⟨k, before, token, changed, last⟩ := ih (by omega) found
      refine ⟨k, by omega, token, changed, ?_⟩
      intro j after until_
      by_cases now : j = i
      · subst now
        rw [changedAt_of_next next]
        exact fun same => here (Option.some.inj same).symm
      · exact last j after (by omega)

/-- Whoever carries a token carries it since the change that took it. -/
theorem eq_of_token_eq (few : changes.length ≤ UInt64.size) {i j : Nat} (first : i ≤ changes.length)
    (second : j ≤ changes.length) {a b : ObjectId} {o o' : Object}
    (found : (moment changes i).object? a = some o) (found' : (moment changes j).object? b = some o')
    (same : o.token = o'.token) :
    a = b ∧ ∀ k, i ≤ k → k < j → changedAt changes k ≠ some a := by
  obtain ⟨k, before, token, changed, -⟩ := token_moment first found
  obtain ⟨l, before', token', changed', last⟩ := token_moment second found'
  have one : k = l :=
    issued_injective few (by omega) (by omega) (token.symm.trans (same.trans token'))
  subst one
  obtain rfl : a = b := Option.some.inj (changed.symm.trans changed')
  refine ⟨rfl, ?_⟩
  intro n from_ until_
  exact last n (by omega) until_

/-- Of an object that is there only the properties can be changed. -/
theorem store_of_changedAt {i k : Nat} (order : i ≤ k) {id : ObjectId} {o : Object}
    (found : (moment changes i).object? id = some o) (changed : changedAt changes k = some id) :
    ∃ key slot, changes[k]? = some (.store id key slot) := by
  obtain ⟨c, next, target⟩ := Option.map_eq_some_iff.mp changed
  cases c with
  | store other key slot =>
    obtain rfl : other = id := target
    exact ⟨key, slot, next⟩
  | create name proto callable =>
    obtain ⟨o', still, -⟩ := (moment_grows changes order).object found
    have inside := object?_lt still
    exact absurd target (Nat.ne_of_gt inside)

/-- No object has carried the token that a change gives. -/
theorem token_fresh (few : changes.length ≤ UInt64.size) {i : Nat} {c : Change}
    (next : changes[i]? = some c) {o : Object}
    (found : (moment changes (i + 1)).object? (c.target (moment changes i)) = some o)
    {j : Nat} (past : j ≤ i) {a : ObjectId} {o' : Object}
    (found' : (moment changes j).object? a = some o') : o'.token ≠ o.token := by
  intro same
  have inside : i < changes.length := (List.getElem?_eq_some_iff.mp next).1
  obtain ⟨rfl, untouched⟩ := eq_of_token_eq few (by omega) (by omega) found' found same
  exact untouched i past (by omega) (changedAt_of_next next)

/-- An object that shows a token twice has not been changed, and is the same. -/
theorem object?_of_token_eq (few : changes.length ≤ UInt64.size) {i j : Nat} (order : i ≤ j)
    (bound : j ≤ changes.length) {id : ObjectId} {o o' : Object}
    (found : (moment changes i).object? id = some o) (found' : (moment changes j).object? id = some o')
    (same : o.token = o'.token) : (moment changes j).object? id = (moment changes i).object? id :=
  object?_moment_of_untouched order bound
    (eq_of_token_eq few (by omega) bound found found' same).2

theorem token_eq_iff (few : changes.length ≤ UInt64.size) {i j : Nat} (order : i ≤ j)
    (bound : j ≤ changes.length) {id : ObjectId} {o o' : Object}
    (found : (moment changes i).object? id = some o)
    (found' : (moment changes j).object? id = some o') :
    o.token = o'.token ↔
      ∀ k key slot, i ≤ k → k < j → changes[k]? ≠ some (.store id key slot) := by
  constructor
  · intro same k key slot from_ until_ next
    obtain ⟨-, untouched⟩ := eq_of_token_eq few (by omega) bound found found' same
    exact untouched k from_ until_ (changedAt_of_next next)
  · intro unstored
    have same : (moment changes j).object? id = (moment changes i).object? id := by
      apply object?_moment_of_untouched order bound
      intro k from_ until_ changed
      obtain ⟨key, slot, next⟩ := store_of_changedAt from_ found changed
      exact unstored k key slot from_ until_ next
    rw [found, found'] at same
    rw [Option.some.inj same]

end Heap

theorem boot_grows (cacheDepth : Nat) (sink : Sink) :
    ({} : Heap).Grows (Machine.boot cacheDepth sink).heap := by
  have begins : ({} : Heap).Grows (({} : Heap).newEnv none).2 := Heap.Grows.refl.alloc "env" none none
  have operators := begins.trans
    (operators_grow Operator.all { heap := (({} : Heap).newEnv none).2, cacheDepth, sink })
  simp only [Machine.boot]
  exact operators.trans (define_grows _ _ _ _ _)

theorem Machine.Reachable.heap_grows {m : Machine} (reachable : m.Reachable) :
    ({} : Heap).Grows m.heap := by
  induction reachable with
  | boot cacheDepth sink => exact boot_grows cacheDepth sink
  | serve before served ih => exact ih.trans ((serve_refines _ _ _ before.sound).leads served).heap
  | site before called ih => exact ih.trans (CallSite.invoke_leads before.sound called).heap

theorem Machine.Reachable.session_moments {m m' : Machine} {requests : List (Nat × Request)}
    {answers : List Answer} (reachable : m.Reachable) (served : session requests m = some (answers, m')) :
    ∃ (run : List Change) (i : Nat), i ≤ run.length ∧ m.heap = Heap.moment run i ∧
      m'.heap = Heap.moment run run.length := by
  obtain ⟨past, before⟩ := reachable.heap_grows.after
  obtain ⟨later, after⟩ := ((session_refines requests m reachable.sound).leads served).heap.after
  refine ⟨past ++ later, past.length, by simp, ?_, ?_⟩
  · rw [before, Heap.moment, List.take_left]
  · rw [after, before, Heap.moment, List.take_length, Heap.after_append]

/-- Along any run of at most as many changes as there are words, no token is issued twice. Two objects never
carry the same one, and an object that shows the same token at two moments is the same at both, exactly if
no property was stored in it in between. -/
theorem tokens_never_repeat (changes : List Change) (few : changes.length ≤ UInt64.size) :
    let heap := Heap.moment changes
    (∀ i j, i < j → j < changes.length → Heap.issued changes i ≠ Heap.issued changes j) ∧
    (∀ i a b o o', i ≤ changes.length → a ≠ b → (heap i).object? a = some o →
      (heap i).object? b = some o' → o.token ≠ o'.token) ∧
    (∀ i c, changes[i]? = some c →
      heap (i + 1) = (heap i).change c ∧
      (∀ id, id ≠ c.target (heap i) → (heap (i + 1)).object? id = (heap i).object? id) ∧
      (c.target (heap i) < (heap (i + 1)).size →
        ∃ o, (heap (i + 1)).object? (c.target (heap i)) = some o ∧ o.token = Heap.issued changes i ∧
          ∀ j a o', j ≤ i → (heap j).object? a = some o' → o'.token ≠ o.token)) ∧
    (∀ i j id o o', i ≤ j → j ≤ changes.length → (heap i).object? id = some o →
      (heap j).object? id = some o' →
      (o.token = o'.token ↔
        ∀ k key slot, i ≤ k → k < j → changes[k]? ≠ some (.store id key slot)) ∧
      (o.token = o'.token → o = o' ∧ (heap i).entries id = (heap j).entries id)) ∧
    (∀ h id key v, Heap.register h id key v = h.after [.store id key (.value v)]) ∧
    (∀ h name entry, (Heap.newFunction h name entry).2 =
      h.after [.create ("function " ++ name) none (some entry), .store h.size applyKey .owner]) ∧
    ∀ (m m' : Machine) requests answers, m.Reachable → session requests m = some (answers, m') →
      ∃ (run : List Change) (i : Nat), i ≤ run.length ∧ m.heap = Heap.moment run i ∧
        m'.heap = Heap.moment run run.length := by
  intro heap
  refine ⟨?_, ?_, ?_, ?_, fun _ _ _ _ => rfl, fun _ _ _ => rfl, ?_⟩
  · intro i j before inside same
    have := Heap.issued_injective few (by omega) inside same
    omega
  · intro i a b o o' bound apart found found' same
    exact apart (Heap.eq_of_token_eq few bound bound found found' same).1
  · intro i c next
    have step : heap (i + 1) = (heap i).change c := Heap.moment_succ next
    refine ⟨step, ?_, ?_⟩
    · intro id other
      rw [step]
      exact Heap.object?_change_of_ne other
    · intro there
      obtain ⟨o, found⟩ : ∃ o, (heap (i + 1)).object? (c.target (heap i)) = some o :=
        ⟨_, Array.getElem?_eq_getElem there⟩
      refine ⟨o, found, Heap.token_change (step ▸ found), ?_⟩
      intro j a o' past found'
      exact Heap.token_fresh few next found past found'
  · intro i j id o o' order bound found found'
    refine ⟨Heap.token_eq_iff few order bound found found', ?_⟩
    intro same
    have equal : (heap j).object? id = (heap i).object? id :=
      Heap.object?_of_token_eq few order bound found found' same
    constructor
    · rw [found, found'] at equal
      exact (Option.some.inj equal).symm
    · simp only [Heap.entries, Heap.properties, equal]
  · intro m m' requests answers reachable served
    exact reachable.session_moments served

/-- An object that inherits from another one and in which the same value is stored twice. -/
def storedTwice : List Change :=
  [.create "object" none none, .create "object" (some 0) none,
    .store 1 "a" (.value (.int 1)), .store 1 "a" (.value (.int 1))]

/-- The second time changes nothing but the token, and the other object keeps its own. -/
theorem tokens_never_repeat_overwriting :
    storedTwice.length ≤ UInt64.size ∧ ∃ o o' p,
      (Heap.moment storedTwice 3).object? 1 = some o ∧
      (Heap.moment storedTwice 4).object? 1 = some o' ∧
      (Heap.moment storedTwice 4).object? 0 = some p ∧
      o'.properties = o.properties ∧ o.token ≠ o'.token ∧
      (Heap.moment storedTwice 2).object? 0 = some p ∧ p.token ≠ o'.token := by
  have few : storedTwice.length ≤ UInt64.size := by decide
  obtain ⟨-, apart, changed, again, -⟩ := tokens_never_repeat storedTwice few
  refine ⟨few, _, _, _, rfl, rfl, rfl, rfl, ?_, ?_, ?_⟩
  · intro same
    exact (again 3 4 1 _ _ (by decide) (by decide) rfl rfl).1.mp same 3 "a" _ (by decide)
      (by decide) rfl
  · have third := (changed 3 _ rfl).2.1 0 (by decide)
    have second := (changed 2 _ rfl).2.1 0 (by decide)
    exact (third.trans second).symm
  · exact apart 4 0 1 _ _ (by decide) (by decide) rfl rfl

end ScriptEngine
