import ScriptEngine.Proofs.Since
import ScriptEngine.Registry
import Mathlib.Data.List.Nodup

/-!
# Records taken once

A registry is followed through any calls made to it, each of which registers a record or tries to
consume one. Numbers count up and are never given twice, whatever has been consumed, and a number can be
consumed exactly if it was given for a record that nobody has taken since.
-/

namespace ScriptEngine

/-- Leaving out a number that stands once leaves one record less. -/
theorem length_filter_number {β : Type} {records : List (Nat × β)}
    (distinct : (records.map (·.1)).Nodup) {id : Nat} {b : β}
    (found : records.lookup id = some b) :
    (records.filter (·.1 != id)).length + 1 = records.length := by
  have member : id ∈ records.map (·.1) := by
    obtain ⟨before, later, rfl, -⟩ := List.lookup_eq_some_iff.mp found
    simp
  have once : records.countP (fun record => record.1 == id) = 1 := by
    have counted := List.count_eq_one_of_mem distinct member
    rwa [List.count, List.countP_map] at counted
  have split := List.length_eq_countP_add_countP (fun record : Nat × β => record.1 == id) (l := records)
  have others : records.countP (fun record => decide ¬(record.1 == id) = true) =
      (records.filter (·.1 != id)).length := by
    rw [List.countP_eq_length_filter]
    congr 1
    apply List.filter_congr
    intro record _
    cases here : record.1 == id <;> simp [bne, here]
  omega

namespace Registry

/-- What is asked of a registry. -/
inductive Call where
  | register (f : FunctionDef)
  | consume (id : Nat)

/-- What it replies. -/
inductive Reply where
  | issued (id : Nat)
  | taken (f : FunctionDef)
  | refused (error : CompileError)

def Call.isRegister : Call → Bool
  | .register _ => true
  | .consume _ => false

def Reply.isTaken : Reply → Bool
  | .taken _ => true
  | _ => false

/-- The reply to a call and the registry after it; a call that fails changes nothing. -/
def answer (r : Registry) : Call → Reply × Registry
  | .register f => (.issued (r.register f).1, (r.register f).2)
  | .consume id =>
      match r.consume id with
      | .ok (f, r') => (.taken f, r')
      | .error e => (.refused e, r)

theorem lookup_register {r : Registry} (fresh : r.records.lookup r.next = none) (f : FunctionDef)
    (id : Nat) :
    (r.register f).2.records.lookup id = if id = r.next then some f else r.records.lookup id := by
  rw [register, List.lookup_append, lookup_cons_ite]
  by_cases same : id = r.next
  · subst same
    simp [fresh]
  · simp [same]

theorem answer_consume_of_some {r : Registry} {id : Nat} {f : FunctionDef}
    (found : r.records.lookup id = some f) :
    r.answer (.consume id) = (.taken f, { r with records := r.records.filter (·.1 != id) }) := by
  simp only [answer, consume, found]

theorem answer_consume_of_none {r : Registry} {id : Nat} (missing : r.records.lookup id = none) :
    r.answer (.consume id) = (.refused (.functionConsumed id), r) := by
  simp only [answer, consume, missing]

/-- A registry with all calls made to it so far and the replies to them. -/
structure Ledger where
  registry : Registry := {}
  past : List (Call × Reply) := []

namespace Ledger

def call (l : Ledger) (c : Call) : Ledger where
  registry := (l.registry.answer c).2
  past := l.past ++ [(c, (l.registry.answer c).1)]

/-- The ledger of calls made to a new registry. -/
def ofCalls (calls : List Call) : Ledger := calls.foldl call {}

/-- The event gives the number `id` for the record `f`. -/
def Gives (id : Nat) (f : FunctionDef) (_ : List (Call × Reply)) (event : Call × Reply) : Prop :=
  event = (.register f, .issued id)

/-- Something is taken under the number `id`. -/
def Takes (id : Nat) (event : Call × Reply) : Prop := ∃ f, event = (.consume id, .taken f)

/-- The number `id` was given for the record `f`, and nothing was taken under it since. -/
def Awaits (l : Ledger) (id : Nat) (f : FunctionDef) : Prop := Since (Gives id f) (Takes id) l.past

/-- What the past tells about the registry. -/
structure Tells (l : Ledger) : Prop where
  next : l.registry.next = l.past.countP (·.1.isRegister)
  below : ∀ c id, (c, Reply.issued id) ∈ l.past → id < l.registry.next
  records : FollowsPast Gives Takes l.past l.registry.records
  distinct : (l.registry.records.map (·.1)).Nodup
  length : l.registry.length + l.past.countP (·.2.isTaken) = l.past.countP (·.1.isRegister)

theorem Awaits.issued {l : Ledger} {id : Nat} {f : FunctionDef} (awaits : l.Awaits id f) :
    (Call.register f, Reply.issued id) ∈ l.past := by
  obtain ⟨before, event, later, split, rfl, -⟩ := awaits
  rw [split]
  simp

theorem tells_empty : ({} : Ledger).Tells where
  next := rfl
  below := by simp
  records := .nil
  distinct := List.nodup_nil
  length := rfl

variable {l : Ledger}

theorem Tells.lookup_iff (tells : l.Tells) {id : Nat} {f : FunctionDef} :
    l.registry.records.lookup id = some f ↔ l.Awaits id f :=
  tells.records id f

/-- No record has the next number. -/
theorem Tells.lookup_next (tells : l.Tells) : l.registry.records.lookup l.registry.next = none := by
  cases found : l.registry.records.lookup l.registry.next with
  | none => rfl
  | some f =>
    have issued := (tells.lookup_iff.mp found).issued
    exact absurd (tells.below _ _ issued) (Nat.lt_irrefl _)

theorem Tells.register (tells : l.Tells) (f : FunctionDef) : (l.call (.register f)).Tells where
  next := by
    simp [call, answer, Registry.register, tells.next, Call.isRegister]
  below := by
    intro c id member
    rcases List.mem_append.mp member with old | new
    · exact Nat.lt_succ_of_lt (tells.below c id old)
    · obtain ⟨-, rfl⟩ : c = .register f ∧ id = l.registry.next := by
        simpa [answer, Registry.register] using new
      exact Nat.lt_succ_self _
  records := by
    refine tells.records.put tells.lookup_next ?_ ?_ (lookup_register tells.lookup_next f)
    · intro id g
      simp [Gives, answer, Registry.register, eq_comm, and_comm]
    · intro id
      simp [Takes]
  distinct := by
    have absent : l.registry.next ∉ l.registry.records.map (·.1) := by
      intro member
      obtain ⟨record, held, same⟩ := List.mem_map.mp member
      have apart := List.lookup_eq_none_iff.mp tells.lookup_next record held
      simp [same] at apart
    simp only [call, answer, Registry.register, List.map_append, List.map_cons, List.map_nil]
    exact List.Nodup.append tells.distinct (List.nodup_singleton _) (by simpa using absent)
  length := by
    have length := tells.length
    simp [call, answer, Registry.register, Registry.length, Call.isRegister, Reply.isTaken] at length ⊢
    omega

theorem Tells.consume (tells : l.Tells) (id : Nat) : (l.call (.consume id)).Tells := by
  cases found : l.registry.records.lookup id with
  | some f =>
    have step : l.call (.consume id) =
        { registry := { l.registry with records := l.registry.records.filter (·.1 != id) }
          past := l.past ++ [(.consume id, .taken f)] } := by
      rw [call, answer_consume_of_some found]
    rw [step]
    refine ⟨?_, ?_, ?_, ?_, ?_⟩
    · simpa [Call.isRegister] using tells.next
    · intro c other member
      exact tells.below c other (by simpa using member)
    · refine tells.records.remove ?_ ?_
      · simp [Gives]
      · simp [Takes, eq_comm]
    · exact tells.distinct.sublist (List.filter_sublist.map _)
    · have length := tells.length
      have one := length_filter_number tells.distinct found
      simp [Registry.length, Call.isRegister, Reply.isTaken] at length ⊢
      omega
  | none =>
    have step : l.call (.consume id) =
        { l with past := l.past ++ [(.consume id, .refused (.functionConsumed id))] } := by
      rw [call, answer_consume_of_none found]
    rw [step]
    refine ⟨?_, ?_, ?_, tells.distinct, ?_⟩
    · simpa [Call.isRegister] using tells.next
    · intro c other member
      exact tells.below c other (by simpa using member)
    · refine tells.records.idle ?_ ?_
      · simp [Gives]
      · simp [Takes]
    · simpa [Call.isRegister, Reply.isTaken] using tells.length

/-- The ledger holds the calls in the order in which they were made. -/
theorem past_ofCalls (calls : List Call) : (ofCalls calls).past.map (·.1) = calls := by
  have grows : ∀ (l : Ledger), (calls.foldl call l).past.map (·.1) = l.past.map (·.1) ++ calls := by
    induction calls with
    | nil => simp
    | cons c rest ih =>
      intro l
      rw [List.foldl_cons, ih]
      simp [call]
  exact grows {}

theorem tells_ofCalls (calls : List Call) : (ofCalls calls).Tells :=
  List.foldlRecOn calls call tells_empty fun _ tells c _ =>
    match c with
    | .register f => tells.register f
    | .consume id => tells.consume id

end Ledger

end Registry

open Registry in
/-- After any calls to a new registry the next record gets a number never given before, a number can be
consumed exactly if its record was not taken yet, and otherwise it is refused and nothing changes. Numbers
count the registrations, so those of fewer than 2^32 registrations fit a 32-bit word. -/
theorem records_are_consumed_once (calls : List Call) :
    let l := Ledger.ofCalls calls
    l.past.map (·.1) = calls ∧
    (∀ f, (l.registry.register f).1 = calls.countP Call.isRegister ∧
      ∀ c, (c, .issued (l.registry.register f).1) ∉ l.past) ∧
    (∀ id f, (∃ r, l.registry.consume id = .ok (f, r)) ↔ l.Awaits id f) ∧
    (∀ id, l.registry.consume id = .error (.functionConsumed id) ↔ ¬ ∃ f, l.Awaits id f) ∧
    (∀ id e, l.registry.consume id = .error e → (l.call (.consume id)).registry = l.registry) ∧
    l.registry.length + l.past.countP (·.2.isTaken) = calls.countP Call.isRegister := by
  intro l
  have tells : l.Tells := Ledger.tells_ofCalls calls
  have made : l.past.map (·.1) = calls := Ledger.past_ofCalls calls
  have registered : l.past.countP (·.1.isRegister) = calls.countP Call.isRegister := by
    rw [← made, List.countP_map]
    rfl
  refine ⟨made, ?_, ?_, ?_, ?_, tells.length.trans registered⟩
  · intro f
    refine ⟨tells.next.trans registered, ?_⟩
    intro c given
    exact absurd (tells.below c _ given) (Nat.lt_irrefl _)
  · intro id f
    rw [← tells.lookup_iff, consume]
    cases l.registry.records.lookup id <;> simp
  · intro id
    simp only [← tells.lookup_iff, consume]
    cases l.registry.records.lookup id <;> simp
  · intro id e failed
    have missing : l.registry.records.lookup id = none := by
      cases found : l.registry.records.lookup id with
      | none => rfl
      | some f => simp [consume, found] at failed
    rw [Ledger.call, answer_consume_of_none missing]

namespace Registry

def firstRecord : FunctionDef := ⟨some "f", ["x"], .empty, 0⟩

def secondRecord : FunctionDef := ⟨some "g", [], .empty, 0⟩

/-- A record is registered, taken and asked for again, then a number that was never given is asked for,
and a second record is registered. -/
def askedAgain : List Call :=
  [.register firstRecord, .consume 0, .consume 0, .consume 7, .register secondRecord]

end Registry

open Registry in
/-- The number of the first record is not given again and can not be consumed again, while the second
record waits under its own. -/
theorem records_are_consumed_once_asked_again :
    let l := Ledger.ofCalls askedAgain
    (l.registry.register firstRecord).1 = 2 ∧
    (∃ r, l.registry.consume 1 = .ok (secondRecord, r)) ∧
    l.registry.consume 0 = .error (.functionConsumed 0) ∧
    (l.call (.consume 0)).registry = l.registry ∧
    l.registry.length = 1 := by
  intro l
  obtain ⟨-, next, taken, -, unchanged, length⟩ := records_are_consumed_once askedAgain
  have past : l.past = [(.register firstRecord, .issued 0), (.consume 0, .taken firstRecord),
      (.consume 0, .refused (.functionConsumed 0)), (.consume 7, .refused (.functionConsumed 7))] ++
      [(.register secondRecord, .issued 1)] := rfl
  have failed : l.registry.consume 0 = .error (.functionConsumed 0) := rfl
  refine ⟨(next firstRecord).1, (taken 1 secondRecord).mpr ?_, failed, unchanged 0 _ failed, ?_⟩
  · exact ⟨_, _, [], past, rfl, by simp⟩
  · rw [past] at length
    exact Nat.add_right_cancel length

end ScriptEngine
