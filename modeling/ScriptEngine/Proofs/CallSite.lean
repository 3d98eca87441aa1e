import ScriptEngine.Site.Call
import Mathlib.Data.Finset.Card

/-!
# What a call site remembers

The entry of an object is fixed when the object is created, so that a guard made at one moment holds at
every later one. A call through guards that were made by earlier calls finds the target that resolving
the callee would find. The life of a site, from its creation through calls and changes of the heap in
any order, is followed with the list of the functions resolved at it; the regime, the chain and the
events of the site are functions of that list.
-/

namespace ScriptEngine

namespace Heap

/-- Whatever can be entered in `h` has the same entry in `h'`. -/
def Keeps (h h' : Heap) : Prop :=
  ∀ id entry, h.callable? id = some entry → h'.callable? id = some entry

theorem Keeps.refl (h : Heap) : h.Keeps h := fun _ _ found => found

theorem Keeps.trans {h₁ h₂ h₃ : Heap} (first : h₁.Keeps h₂) (second : h₂.Keeps h₃) :
    h₁.Keeps h₃ := fun id entry found => second id entry (first id entry found)

theorem alloc_keeps (h : Heap) (name : String) (proto : Option ObjectId)
    (callable : Option Callable) : h.Keeps (h.alloc name proto callable).2 := by
  intro id entry found
  have old : id < h.objects.size := by
    by_contra beyond
    have missing : h.objects[id]? = none := Array.getElem?_eq_none (Nat.le_of_not_lt beyond)
    simp [callable?, object?, missing] at found
  simpa [callable?, object?, alloc, Array.getElem?_push, Nat.ne_of_lt old] using found

theorem store_callable (h : Heap) (id other : ObjectId) (key : String) (slot : Slot) :
    (h.store id key slot).callable? other = h.callable? other := by
  simp only [callable?, object?, store, Array.getElem?_modify]
  by_cases same : id = other
  · subst other
    cases h.objects[id]? <;> simp
  · simp [same]

theorem store_keeps (h : Heap) (id : ObjectId) (key : String) (slot : Slot) :
    h.Keeps (h.store id key slot) := by
  intro other entry found
  rw [store_callable]
  exact found

/-- `h'` comes from `h` by creating objects and storing properties. -/
inductive Grows (h : Heap) : Heap → Prop
  | refl : Grows h h
  | alloc {h' : Heap} (name : String) (proto : Option ObjectId) (callable : Option Callable) :
      Grows h h' → Grows h (h'.alloc name proto callable).2
  | store {h' : Heap} (id : ObjectId) (key : String) (slot : Slot) :
      Grows h h' → Grows h (h'.store id key slot)

theorem Grows.trans {h₁ h₂ h₃ : Heap} (first : h₁.Grows h₂) (second : h₂.Grows h₃) :
    h₁.Grows h₃ := by
  induction second with
  | refl => exact first
  | alloc name proto callable _ ih => exact ih.alloc name proto callable
  | store id key slot _ ih => exact ih.store id key slot

theorem Grows.keeps {h h' : Heap} (grows : h.Grows h') : h.Keeps h' := by
  induction grows with
  | refl => exact Keeps.refl h
  | alloc name proto callable _ ih => exact ih.trans (alloc_keeps _ name proto callable)
  | store id key slot _ ih => exact ih.trans (store_keeps _ id key slot)

theorem register_grows (h : Heap) (id : ObjectId) (key : String) (v : Value) :
    h.Grows (h.register id key v) := Grows.refl.store id key (.value v)

theorem newObject_grows (h : Heap) (proto : Option ObjectId) : h.Grows (h.newObject proto).2 :=
  Grows.refl.alloc "object" proto none

theorem newFunction_grows (h : Heap) (name : String) (entry : Callable) :
    h.Grows (h.newFunction name entry).2 :=
  (Grows.refl.alloc ("function " ++ name) none (some entry)).store _ applyKey .owner

theorem newFunction_callable (h : Heap) (name : String) (entry : Callable) :
    (h.newFunction name entry).2.callable? (h.newFunction name entry).1 = some entry := by
  simp only [newFunction, store_callable]
  simp [callable?, object?, alloc, size]

theorem resolveCallee_ok_iff (h : Heap) (callee : Value) (argCount : Nat) (id : ObjectId)
    (entry : Callable) :
    h.resolveCallee callee argCount = .ok (id, entry) ↔
      callee = .object id ∧ h.callable? id = some entry ∧ entry.arity.check argCount = .ok () := by
  cases callee with
  | object other =>
    cases found : h.callable? other with
    | none =>
      simp only [resolveCallee, found, reduceCtorEq, Value.object.injEq, false_iff, not_and]
      rintro rfl
      simp [found]
    | some target =>
      cases checked : target.arity.check argCount with
      | error e =>
        simp only [resolveCallee, found, checked, bind, Except.bind, reduceCtorEq, false_iff,
          Value.object.injEq, not_and]
        rintro rfl same
        obtain rfl : target = entry := Option.some.inj (found.symm.trans same)
        simp [checked]
      | ok _ =>
        simp only [resolveCallee, found, checked, bind, Except.bind, pure, Except.pure,
          Except.ok.injEq, Prod.mk.injEq, Value.object.injEq]
        constructor
        · rintro ⟨rfl, rfl⟩
          exact ⟨rfl, found, checked⟩
        · rintro ⟨rfl, same, _⟩
          exact ⟨rfl, Option.some.inj (found.symm.trans same)⟩
  | _ => simp [resolveCallee]

theorem resolveCallee_keeps {h h' : Heap} (keeps : h.Keeps h') {callee : Value} {argCount : Nat}
    {id : ObjectId} {entry : Callable}
    (resolved : h.resolveCallee callee argCount = .ok (id, entry)) :
    h'.resolveCallee callee argCount = .ok (id, entry) := by
  obtain ⟨same, found, checked⟩ := (h.resolveCallee_ok_iff callee argCount id entry).mp resolved
  exact (h'.resolveCallee_ok_iff callee argCount id entry).mpr
    ⟨same, keeps id entry found, checked⟩

end Heap

namespace CallSite

/-- Every guard holds what resolving its function gives. -/
def Linked (site : CallSite) (h : Heap) : Prop :=
  ∀ guards, site.strategy = .guarded guards → ∀ g ∈ guards,
    h.resolveCallee (.object g.expected) site.argCount = .ok (g.expected, g.target)

theorem fresh_linked (argCount maxDepth : Nat) (h : Heap) :
    CallSite.Linked { argCount, maxDepth } h := by
  intro guards same g member
  cases same
  cases member

theorem Linked.keeps {site : CallSite} {h h' : Heap} (linked : site.Linked h)
    (keeps : h.Keeps h') : site.Linked h' := fun guards same g member =>
  Heap.resolveCallee_keeps keeps (linked guards same g member)

theorem Linked.guard {site : CallSite} {h : Heap} (linked : site.Linked h) {guards : List Guard}
    (same : site.strategy = .guarded guards) {id : ObjectId} {entry : Callable}
    (resolved : h.resolveCallee (.object id) site.argCount = .ok (id, entry)) (depth : Nat) :
    CallSite.Linked { site with strategy := .guarded (⟨id, entry⟩ :: guards), depth } h := by
  intro chosen chosen_eq g member
  obtain rfl : ⟨id, entry⟩ :: guards = chosen := Strategy.guarded.inj chosen_eq
  rcases List.mem_cons.mp member with rfl | old
  · exact resolved
  · exact linked guards same g old

theorem megamorphic_linked (site : CallSite) (h : Heap) (depth : Nat) :
    CallSite.Linked { site with strategy := .megamorphic, depth } h := by
  intro chosen chosen_eq
  cases chosen_eq

/-- The site after a call of `callee`. -/
def after (site : CallSite) (h : Heap) (callee : Value) : CallSite :=
  match site.dispatch h callee with
  | .ok d => d.site
  | .error _ => site

/-- What a call of `callee` reports. -/
def report (site : CallSite) (h : Heap) (callee : Value) : Option Event :=
  match site.dispatch h callee with
  | .ok d => d.event
  | .error _ => none

theorem relink_error {site : CallSite} {h : Heap} {callee : Value} {e : RuntimeError}
    (guards : List Guard) (failed : h.resolveCallee callee site.argCount = .error e) :
    site.relink h guards callee = .error e := by
  simp [relink, failed, bind, Except.bind]

theorem relink_full {site : CallSite} {h : Heap} {callee : Value} {id : ObjectId}
    {entry : Callable} (guards : List Guard)
    (resolved : h.resolveCallee callee site.argCount = .ok (id, entry))
    (full : site.maxDepth ≤ site.depth) :
    site.relink h guards callee = .ok {
      target := entry
      site := { site with strategy := .megamorphic, depth := 0 }
      event := some (.wentMegamorphic site.depth (h.nameOf id)) } := by
  simp [relink, resolved, full, bind, Except.bind, pure, Except.pure]

theorem relink_room {site : CallSite} {h : Heap} {callee : Value} {id : ObjectId}
    {entry : Callable} (guards : List Guard)
    (resolved : h.resolveCallee callee site.argCount = .ok (id, entry))
    (room : site.depth < site.maxDepth) :
    site.relink h guards callee = .ok {
      target := entry
      site := { site with strategy := .guarded (⟨id, entry⟩ :: guards), depth := site.depth + 1 }
      event := some (.installedGuard (site.depth + 1) (h.nameOf id)) } := by
  simp [relink, resolved, Nat.not_le.mpr room, bind, Except.bind, pure, Except.pure]

/-- A guard hit skips every check, and still gives the target that resolving gives. -/
theorem dispatch_target {site : CallSite} {h : Heap} (linked : site.Linked h) (callee : Value) :
    (site.dispatch h callee).map (·.target) =
      (h.resolveCallee callee site.argCount).map (·.2) := by
  cases same : site.strategy with
  | megamorphic =>
    cases resolved : h.resolveCallee callee site.argCount with
    | error e => simp [dispatch, same, resolved, bind, Except.bind, Except.map]
    | ok found => simp [dispatch, same, resolved, bind, Except.bind, pure, Except.pure, Except.map]
  | guarded guards =>
    cases hit : guards.find? fun g => callee = .object g.expected with
    | some g =>
      have callee_eq : callee = .object g.expected := by simpa using List.find?_some hit
      have resolved := linked guards same g (List.mem_of_find?_eq_some hit)
      rw [← callee_eq] at resolved
      simp [dispatch, same, hit, resolved, Except.map]
    | none =>
      simp only [dispatch, same, hit]
      cases resolved : h.resolveCallee callee site.argCount with
      | error e => simp [relink_error guards resolved, Except.map]
      | ok found =>
        obtain ⟨id, entry⟩ := found
        by_cases full : site.maxDepth ≤ site.depth
        · simp [relink_full guards resolved full, Except.map]
        · simp [relink_room guards resolved (Nat.lt_of_not_le full), Except.map]

/-- A call keeps the number of arguments and leaves every guard true. -/
theorem Linked.after {site : CallSite} {h : Heap} (linked : site.Linked h) (callee : Value) :
    (site.after h callee).argCount = site.argCount ∧ (site.after h callee).Linked h := by
  cases same : site.strategy with
  | megamorphic =>
    cases resolved : h.resolveCallee callee site.argCount with
    | error e => simpa [CallSite.after, dispatch, same, resolved, bind, Except.bind] using linked
    | ok found =>
      simpa [CallSite.after, dispatch, same, resolved, bind, Except.bind, pure, Except.pure]
        using linked
  | guarded guards =>
    cases hit : guards.find? fun g => callee = .object g.expected with
    | some g => simpa only [CallSite.after, dispatch, same, hit, true_and] using linked
    | none =>
      simp only [CallSite.after, dispatch, same, hit]
      cases resolved : h.resolveCallee callee site.argCount with
      | error e =>
        rw [relink_error guards resolved]
        exact ⟨rfl, linked⟩
      | ok found =>
        obtain ⟨id, entry⟩ := found
        obtain ⟨rfl, -⟩ := (h.resolveCallee_ok_iff callee _ id entry).mp resolved
        by_cases full : site.maxDepth ≤ site.depth
        · rw [relink_full guards resolved full]
          exact ⟨rfl, megamorphic_linked site h 0⟩
        · rw [relink_room guards resolved (Nat.lt_of_not_le full)]
          exact ⟨rfl, linked.guard same resolved _⟩

/-- Something that happens while a site is in use. Between two calls, and while a call is running, the
heap may grow and properties may be stored. -/
inductive Moment where
  | call (callee : Value)
  | alloc (name : String) (proto : Option ObjectId) (callable : Option Callable)
  | store (id : ObjectId) (key : String) (slot : Slot)

/-- A site, the heap it works on, and what has happened at it. -/
structure Life where
  heap : Heap
  site : CallSite
  /-- The functions resolved so far, newest first; one that was called twice stands here twice. -/
  resolved : List ObjectId := []
  events : List Event := []

namespace Life

def start (h : Heap) (argCount maxDepth : Nat) : Life := { heap := h, site := { argCount, maxDepth } }

def step (l : Life) : Moment → Life
  | .call callee =>
      { l with
        site := l.site.after l.heap callee
        resolved :=
          match l.heap.resolveCallee callee l.site.argCount with
          | .ok (id, _) => id :: l.resolved
          | .error _ => l.resolved
        events := l.events ++ (l.site.report l.heap callee).toList }
  | .alloc name proto callable => { l with heap := (l.heap.alloc name proto callable).2 }
  | .store id key slot => { l with heap := l.heap.store id key slot }

def run (l : Life) (moments : List Moment) : Life := moments.foldl step l

theorem run_append (l : Life) (first second : List Moment) :
    l.run (first ++ second) = (l.run first).run second := by
  simp [run]

/-- Whatever happens to the heap outside of the site can be told as a list of moments. -/
theorem run_grows (l : Life) {h : Heap} (grows : l.heap.Grows h) :
    ∃ moments, l.run moments = { l with heap := h } := by
  induction grows with
  | refl => exact ⟨[], rfl⟩
  | alloc name proto callable _ ih =>
    obtain ⟨moments, told⟩ := ih
    exact ⟨moments ++ [.alloc name proto callable], by rw [run_append, told]; rfl⟩
  | store id key slot _ ih =>
    obtain ⟨moments, told⟩ := ih
    exact ⟨moments ++ [.store id key slot], by rw [run_append, told]; rfl⟩

/-- A call, and whatever happens to the heap while it runs. -/
theorem run_call_grows (l : Life) (callee : Value) {h : Heap} (grows : l.heap.Grows h) :
    ∃ later, l.run (.call callee :: later) = { l.step (.call callee) with heap := h } :=
  (l.step (.call callee)).run_grows grows

/-- The number of different functions resolved so far. -/
def count (l : Life) : Nat := l.resolved.toFinset.card

theorem count_eq (l : Life) : l.count = l.resolved.dedup.length := List.card_toFinset l.resolved

end Life

/-- What an event of a call site says about its guards. -/
inductive Link where
  | guard (depth : Nat)
  | megamorphic (depth : Nat)
  deriving DecidableEq

def link? : Event → Option Link
  | .installedGuard depth _ => some (.guard depth)
  | .wentMegamorphic depth _ => some (.megamorphic depth)
  | _ => none

/-- All that a site can ever report: its guards in order, and then that it has given them up. -/
def lifetime (maxDepth : Nat) : List Link :=
  (List.range' 1 maxDepth).map .guard ++ [.megamorphic maxDepth]

@[simp] theorem lifetime_length (maxDepth : Nat) : (lifetime maxDepth).length = maxDepth + 1 := by
  simp [lifetime]

theorem lifetime_guard {maxDepth n : Nat} (room : n < maxDepth) :
    (lifetime maxDepth)[n]? = some (.guard (n + 1)) := by
  have inside : n < ((List.range' 1 maxDepth).map Link.guard).length := by simpa using room
  rw [lifetime, List.getElem?_append_left inside]
  simp [room, Nat.add_comm]

theorem lifetime_last (maxDepth : Nat) :
    (lifetime maxDepth)[maxDepth]? = some (.megamorphic maxDepth) := by
  simp [lifetime]

/-- The regime of a site at which `n` different functions were resolved. -/
def regimeOf (maxDepth n : Nat) : Regime :=
  if maxDepth < n then .megamorphic
  else if n = 0 then .unlinked
  else if n = 1 then .monomorphic
  else .polymorphic n

namespace Life

/-- What holds at every moment of the life of a site. -/
structure Valid (argCount maxDepth : Nat) (l : Life) : Prop where
  arguments : l.site.argCount = argCount
  capacity : l.site.maxDepth = maxDepth
  linked : l.site.Linked l.heap
  guarded : ∀ guards, l.site.strategy = .guarded guards →
    guards.map (·.expected) = l.resolved.dedup ∧ l.site.depth = guards.length ∧
      guards.length ≤ maxDepth
  megamorphic : l.site.strategy = .megamorphic → maxDepth < l.resolved.dedup.length
  events : l.events.map link? = ((lifetime maxDepth).take l.resolved.dedup.length).map some

theorem start_valid (h : Heap) (argCount maxDepth : Nat) :
    (start h argCount maxDepth).Valid argCount maxDepth where
  arguments := rfl
  capacity := rfl
  linked := fresh_linked argCount maxDepth h
  guarded := by
    intro guards same
    cases same
    simp [start]
  megamorphic := by
    intro same
    cases same
  events := by simp [start]

/-- A change of the heap that keeps entries leaves the site as it is. -/
theorem Valid.heap_changes {argCount maxDepth : Nat} {l : Life} (valid : l.Valid argCount maxDepth)
    {h : Heap} (keeps : l.heap.Keeps h) :
    Valid argCount maxDepth { l with heap := h } where
  arguments := valid.arguments
  capacity := valid.capacity
  linked := valid.linked.keeps keeps
  guarded := valid.guarded
  megamorphic := valid.megamorphic
  events := valid.events

theorem step_call_failed {l : Life} {callee : Value} {e : RuntimeError}
    (failed : l.site.dispatch l.heap callee = .error e)
    (unresolved : l.heap.resolveCallee callee l.site.argCount = .error e) :
    l.step (.call callee) = l := by
  simp [step, after, report, failed, unresolved]

theorem step_call_ok {l : Life} {callee : Value} {d : Dispatch} {id : ObjectId} {entry : Callable}
    (found : l.site.dispatch l.heap callee = .ok d)
    (resolved : l.heap.resolveCallee callee l.site.argCount = .ok (id, entry)) :
    l.step (.call callee) =
      { heap := l.heap, site := d.site, resolved := id :: l.resolved,
        events := l.events ++ d.event.toList } := by
  simp [step, after, report, found, resolved]

/-- A call of a function that a guard knows. -/
theorem Valid.call_hit {argCount maxDepth : Nat} {l : Life} (valid : l.Valid argCount maxDepth)
    {guards : List Guard} (same : l.site.strategy = .guarded guards) {g : Guard}
    (member : g ∈ guards) :
    Valid argCount maxDepth { l with resolved := g.expected :: l.resolved } := by
  obtain ⟨chain, _, _⟩ := valid.guarded guards same
  have known : g.expected ∈ l.resolved := by
    rw [← List.mem_dedup, ← chain]
    exact List.mem_map_of_mem member
  have unchanged : (g.expected :: l.resolved).dedup = l.resolved.dedup :=
    List.dedup_cons_of_mem known
  constructor
  · exact valid.arguments
  · exact valid.capacity
  · exact valid.linked
  · simpa only [unchanged] using valid.guarded
  · simpa only [unchanged] using valid.megamorphic
  · simpa only [unchanged] using valid.events

/-- A call at a site that has given up its guards. -/
theorem Valid.call_megamorphic {argCount maxDepth : Nat} {l : Life}
    (valid : l.Valid argCount maxDepth) (same : l.site.strategy = .megamorphic) (id : ObjectId) :
    Valid argCount maxDepth { l with resolved := id :: l.resolved } := by
  have beyond := valid.megamorphic same
  have grows : l.resolved.dedup.length ≤ (id :: l.resolved).dedup.length := by
    by_cases known : id ∈ l.resolved
    · rw [List.dedup_cons_of_mem known]
    · rw [List.dedup_cons_of_notMem known]
      simp
  constructor
  · exact valid.arguments
  · exact valid.capacity
  · exact valid.linked
  · intro guards other
    cases same.symm.trans other
  · intro _
    exact Nat.lt_of_lt_of_le beyond grows
  · have whole : ∀ n, maxDepth < n → (lifetime maxDepth).take n = lifetime maxDepth :=
      fun n large => List.take_of_length_le (by rw [lifetime_length]; exact large)
    have events := valid.events
    rw [whole _ beyond] at events
    rw [whole _ (Nat.lt_of_lt_of_le beyond grows)]
    exact events

/-- A call of a function that no guard knows, at a site with room for one more guard. -/
theorem Valid.call_room {argCount maxDepth : Nat} {l : Life} (valid : l.Valid argCount maxDepth)
    {guards : List Guard} (same : l.site.strategy = .guarded guards) {id : ObjectId}
    {entry : Callable} (new : id ∉ l.resolved)
    (resolved : l.heap.resolveCallee (.object id) l.site.argCount = .ok (id, entry))
    (room : l.site.depth < l.site.maxDepth) :
    Valid argCount maxDepth
      { heap := l.heap
        site := { l.site with
          strategy := .guarded (⟨id, entry⟩ :: guards), depth := l.site.depth + 1 }
        resolved := id :: l.resolved
        events := l.events ++ [.installedGuard (l.site.depth + 1) (l.heap.nameOf id)] } := by
  obtain ⟨chain, depth_eq, _⟩ := valid.guarded guards same
  have count : l.resolved.dedup.length = l.site.depth := by
    rw [← chain, List.length_map, depth_eq]
  have grown : (id :: l.resolved).dedup = id :: l.resolved.dedup := List.dedup_cons_of_notMem new
  rw [valid.capacity] at room
  constructor
  · exact valid.arguments
  · exact valid.capacity
  · exact valid.linked.guard same resolved _
  · intro chosen chosen_eq
    obtain rfl : ⟨id, entry⟩ :: guards = chosen := Strategy.guarded.inj chosen_eq
    refine ⟨by simp [grown, chain], by simp [depth_eq], ?_⟩
    simp only [List.length_cons]
    omega
  · intro other
    cases other
  · simp only [grown, List.length_cons, List.take_add_one, count, lifetime_guard room,
      List.map_append, valid.events, link?, Option.toList, List.map_cons, List.map_nil]

/-- A call of a function that no guard knows, at a site whose chain is full. -/
theorem Valid.call_full {argCount maxDepth : Nat} {l : Life} (valid : l.Valid argCount maxDepth)
    {guards : List Guard} (same : l.site.strategy = .guarded guards) {id : ObjectId}
    (new : id ∉ l.resolved) (full : l.site.maxDepth ≤ l.site.depth) :
    Valid argCount maxDepth
      { heap := l.heap
        site := { l.site with strategy := .megamorphic, depth := 0 }
        resolved := id :: l.resolved
        events := l.events ++ [.wentMegamorphic l.site.depth (l.heap.nameOf id)] } := by
  obtain ⟨chain, depth_eq, bound⟩ := valid.guarded guards same
  have count : l.resolved.dedup.length = l.site.depth := by
    rw [← chain, List.length_map, depth_eq]
  have grown : (id :: l.resolved).dedup = id :: l.resolved.dedup := List.dedup_cons_of_notMem new
  rw [valid.capacity] at full
  have reached : l.site.depth = maxDepth := by omega
  constructor
  · exact valid.arguments
  · exact valid.capacity
  · exact megamorphic_linked l.site l.heap 0
  · intro chosen chosen_eq
    cases chosen_eq
  · intro _
    simp only [grown, List.length_cons]
    omega
  · simp only [grown, List.length_cons, List.take_add_one, count, reached, lifetime_last,
      List.map_append, valid.events, link?, Option.toList, List.map_cons, List.map_nil]

theorem Valid.step_call {argCount maxDepth : Nat} {l : Life} (valid : l.Valid argCount maxDepth)
    (callee : Value) : (l.step (.call callee)).Valid argCount maxDepth := by
  have target := dispatch_target valid.linked callee
  cases resolved : l.heap.resolveCallee callee l.site.argCount with
  | error e =>
    cases found : l.site.dispatch l.heap callee with
    | ok d => simp [found, resolved, Except.map] at target
    | error e' =>
      obtain rfl : e' = e := by simpa [found, resolved, Except.map] using target
      rw [step_call_failed found resolved]
      exact valid
  | ok pair =>
    obtain ⟨id, entry⟩ := pair
    obtain ⟨rfl, -⟩ := (l.heap.resolveCallee_ok_iff callee _ id entry).mp resolved
    cases same : l.site.strategy with
    | megamorphic =>
      have found : l.site.dispatch l.heap (.object id) =
          .ok { target := entry, site := l.site, event := none } := by
        simp [dispatch, same, resolved, bind, Except.bind, pure, Except.pure]
      rw [step_call_ok found resolved]
      simpa using valid.call_megamorphic same id
    | guarded guards =>
      cases hit : guards.find? fun g => Value.object id = .object g.expected with
      | some g =>
        have known : id = g.expected := by simpa using List.find?_some hit
        have found : l.site.dispatch l.heap (.object id) =
            .ok { target := g.target, site := l.site, event := none } := by
          simp only [dispatch, same, hit]
        rw [step_call_ok found resolved]
        simpa [known] using valid.call_hit same (List.mem_of_find?_eq_some hit)
      | none =>
        have new : id ∉ l.resolved := by
          rw [← List.mem_dedup, ← (valid.guarded guards same).1]
          intro member
          obtain ⟨g, held, expected⟩ := List.mem_map.mp member
          have missed := List.find?_eq_none.mp hit g held
          simp [expected] at missed
        have found : l.site.dispatch l.heap (.object id) =
            l.site.relink l.heap guards (.object id) := by
          simp only [dispatch, same, hit]
        by_cases full : l.site.maxDepth ≤ l.site.depth
        · rw [step_call_ok (found.trans (relink_full guards resolved full)) resolved]
          exact valid.call_full same new full
        · have room : l.site.depth < l.site.maxDepth := Nat.lt_of_not_le full
          rw [step_call_ok (found.trans (relink_room guards resolved room)) resolved]
          exact valid.call_room same new resolved room

theorem Valid.step {argCount maxDepth : Nat} {l : Life} (valid : l.Valid argCount maxDepth)
    (moment : Moment) : (l.step moment).Valid argCount maxDepth := by
  cases moment with
  | call callee => exact valid.step_call callee
  | alloc name proto callable =>
    exact valid.heap_changes (l.heap.alloc_keeps name proto callable)
  | store id key slot => exact valid.heap_changes (l.heap.store_keeps id key slot)

theorem Valid.run {argCount maxDepth : Nat} {l : Life} (valid : l.Valid argCount maxDepth)
    (moments : List Moment) : (l.run moments).Valid argCount maxDepth := by
  induction moments generalizing l with
  | nil => exact valid
  | cons moment rest ih => exact ih (valid.step moment)

theorem count_le_step (l : Life) (moment : Moment) : l.count ≤ (l.step moment).count := by
  cases moment with
  | call callee =>
    apply Finset.card_le_card
    intro id member
    have old : id ∈ l.resolved := List.mem_toFinset.mp member
    rw [List.mem_toFinset]
    cases resolved : l.heap.resolveCallee callee l.site.argCount with
    | error e => simpa [step, resolved] using old
    | ok pair => simp [step, resolved, old]
  | alloc name proto callable => exact Nat.le_refl _
  | store id key slot => exact Nat.le_refl _

theorem count_le_run (l : Life) (moments : List Moment) : l.count ≤ (l.run moments).count := by
  induction moments generalizing l with
  | nil => exact Nat.le_refl _
  | cons moment rest ih => exact Nat.le_trans (l.count_le_step moment) (ih (l.step moment))

theorem Valid.regime_eq {argCount maxDepth : Nat} {l : Life} (valid : l.Valid argCount maxDepth) :
    l.site.regime = regimeOf maxDepth l.count := by
  rw [count_eq]
  cases same : l.site.strategy with
  | megamorphic =>
    have beyond := valid.megamorphic same
    simp [regime, regimeOf, same, beyond]
  | guarded guards =>
    obtain ⟨chain, depth_eq, bound⟩ := valid.guarded guards same
    have count : l.resolved.dedup.length = guards.length := by rw [← chain, List.length_map]
    rw [count]
    cases guards with
    | nil => simp [regime, regimeOf, same]
    | cons g rest =>
      simp only [regime, regimeOf, same, depth_eq, Nat.not_lt.mpr bound, if_false]
      simp

theorem Valid.unresolved {argCount maxDepth : Nat} {l : Life} (valid : l.Valid argCount maxDepth)
    {callee : Value} {e : RuntimeError}
    (failed : l.heap.resolveCallee callee argCount = .error e) : l.step (.call callee) = l := by
  rw [← valid.arguments] at failed
  have target := dispatch_target valid.linked callee
  cases found : l.site.dispatch l.heap callee with
  | ok d => simp [found, failed, Except.map] at target
  | error e' =>
    obtain rfl : e' = e := by simpa [found, failed, Except.map] using target
    exact step_call_failed found failed

end Life

/-- The functions resolved at a site determine it: its regime is a function of their number and never
goes back from megamorphic, its chain holds each of them once with the newest in front, a callee that
can not be resolved changes nothing, and the events follow the one possible sequence. -/
theorem site_follows_resolved_functions (h : Heap) (argCount maxDepth : Nat)
    (moments : List Moment) :
    let l := (Life.start h argCount maxDepth).run moments
    l.site.regime = regimeOf maxDepth l.count ∧
    (∀ later, maxDepth < l.count → (l.run later).site.regime = .megamorphic) ∧
    (∀ guards, l.site.strategy = .guarded guards →
      guards.map (·.expected) = l.resolved.dedup ∧ guards.length = l.count ∧
        l.site.depth = guards.length) ∧
    (∀ callee e, l.heap.resolveCallee callee argCount = .error e → l.step (.call callee) = l) ∧
    l.events.map link? = ((lifetime maxDepth).take l.count).map some := by
  intro l
  have valid : l.Valid argCount maxDepth := (Life.start_valid h argCount maxDepth).run moments
  refine ⟨valid.regime_eq, ?_, ?_, fun _ _ => valid.unresolved, ?_⟩
  · intro later beyond
    have grown : maxDepth < (l.run later).count :=
      Nat.lt_of_lt_of_le beyond (l.count_le_run later)
    rw [(valid.run later).regime_eq, regimeOf, if_pos grown]
  · intro guards same
    obtain ⟨chain, depth_eq, _⟩ := valid.guarded guards same
    refine ⟨chain, ?_, depth_eq⟩
    rw [l.count_eq, ← chain, List.length_map]
  · rw [l.count_eq]
    exact valid.events

/-- A heap with two functions. -/
def twoFunctions : Heap :=
  ((({} : Heap).newNative "a" .variadic ⟨fun receiver _ => .give receiver⟩).2.newNative "b" .variadic
    ⟨fun _ _ => .give .null⟩).2

/-- Two functions at a site for one guard, one of them called twice. -/
theorem site_follows_resolved_functions_two :
    let l := (Life.start twoFunctions 0 1).run
      [.call (.object 0), .call .null, .call (.object 1), .call (.object 0)]
    l.count = 2 ∧ l.site.regime = .megamorphic ∧
      (l.run [.call (.object 1)]).site.regime = .megamorphic ∧ l.step (.call .null) = l := by
  intro l
  have two : l.count = 2 := by decide +kernel
  obtain ⟨now, ever, -, failed, -⟩ := site_follows_resolved_functions twoFunctions 0 1
    [.call (.object 0), .call .null, .call (.object 1), .call (.object 0)]
  refine ⟨two, ?_, ever _ (show 1 < l.count by omega), failed .null _ rfl⟩
  rw [now, show l.count = 2 from two]
  rfl

end CallSite

end ScriptEngine
