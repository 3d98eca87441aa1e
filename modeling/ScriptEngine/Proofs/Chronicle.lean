import ScriptEngine.Proofs.Heap
import ScriptEngine.Proofs.History
import ScriptEngine.Proofs.Numbering

/-!
# What the past has left behind

What the sites of a unit have learned is determined by what has happened in this unit so far, and by
nothing else: a literal is off the record exactly if it was evaluated, and a call site is in the state
that the functions resolved at it lead to. Every operation of running code keeps this in step with the
account of the run, and so it holds at every moment of every run.
-/

namespace ScriptEngine

namespace Act

/-- The act is the evaluation of the literal `id` of a unit. -/
def evaluates (unit : UnitId) (id : Nat) : Act → Bool
  | .visit u (.function i _) _ => u == unit && i == id
  | _ => false

/-- The function that the act resolves at a call site of a unit, if it resolves one there. -/
def resolves? (unit : UnitId) (site : Nat) : Act → Option ObjectId
  | .dispatch u i callee argCount m =>
      if u = unit ∧ i = site then (m.heap.resolveCallee callee argCount).toOption.map (·.1) else none
  | _ => none

/-- The act neither evaluates a literal of the unit nor resolves a function in it. -/
def Idle (unit : UnitId) (act : Act) : Prop :=
  (∀ id, act.evaluates unit id = false) ∧ ∀ site, act.resolves? unit site = none

theorem idle_of_ne {act : Act} {unit : UnitId} (other : act.unit ≠ unit) : act.Idle unit := by
  cases act with
  | visit u code m =>
    refine ⟨fun id => ?_, fun site => rfl⟩
    cases code with
    | function i registration => simp [evaluates, show u ≠ unit from other]
    | _ => rfl
  | dispatch u i callee argCount m =>
    exact ⟨fun id => rfl, fun site => if_neg fun both => other both.1⟩

/-- Only literals and calls leave something behind. -/
theorem idle_visit {code : Code} (plain : code.record? = none) (u unit : UnitId) (m : Machine) :
    (Act.visit u code m).Idle unit := by
  refine ⟨fun id => ?_, fun site => rfl⟩
  cases code with
  | function i registration => cases plain
  | _ => rfl

end Act

/-- The literal `id` of the unit was evaluated. -/
def evaluated (h : List Act) (unit : UnitId) (id : Nat) : Bool := h.any (·.evaluates unit id)

/-- The functions resolved at a call site of a unit, oldest first. -/
def resolvedAt (h : List Act) (unit : UnitId) (site : Nat) : List ObjectId :=
  h.filterMap (·.resolves? unit site)

theorem evaluated_iff (h : List Act) (unit : UnitId) (id : Nat) :
    evaluated h unit id = true ↔ ∃ registration m, .visit unit (.function id registration) m ∈ h := by
  simp only [evaluated, List.any_eq_true]
  constructor
  · rintro ⟨act, member, evaluates⟩
    cases act with
    | dispatch => cases evaluates
    | visit u code m =>
      cases code with
      | function i registration =>
        have same : u = unit ∧ i = id := by simpa [Act.evaluates] using evaluates
        obtain ⟨rfl, rfl⟩ := same
        exact ⟨registration, m, member⟩
      | _ => cases evaluates
  · rintro ⟨registration, m, member⟩
    exact ⟨_, member, by simp [Act.evaluates]⟩

@[simp] theorem evaluated_append (h h' : List Act) (unit : UnitId) (id : Nat) :
    evaluated (h ++ h') unit id = (evaluated h unit id || evaluated h' unit id) := by
  simp [evaluated]

@[simp] theorem resolvedAt_append (h h' : List Act) (unit : UnitId) (site : Nat) :
    resolvedAt (h ++ h') unit site = resolvedAt h unit site ++ resolvedAt h' unit site := by
  simp [resolvedAt]

theorem evaluated_of_idle {h : List Act} {unit : UnitId} (idle : ∀ act ∈ h, act.Idle unit)
    (id : Nat) : evaluated h unit id = false := by
  simp only [evaluated, List.any_eq_false]
  intro act member
  simp [(idle act member).1 id]

theorem resolvedAt_of_idle {h : List Act} {unit : UnitId} (idle : ∀ act ∈ h, act.Idle unit)
    (site : Nat) : resolvedAt h unit site = [] := by
  simp only [resolvedAt, List.filterMap_eq_nil_iff]
  intro act member
  exact (idle act member).2 site

/-- How many sites of each kind there are. -/
def SiteTable.sizes (t : SiteTable) : List Nat :=
  [t.lookups.size, t.registrations.size, t.fields.size, t.functions.size, t.calls.size,
    t.methods.size]

theorem SiteTable.size_eq (t : SiteTable) : t.size = t.sizes.sum := by
  simp [SiteTable.size, SiteTable.sizes]
  omega

/-- The record that a site keeps is not in the registry. -/
theorem FunctionSite.take_records {site : FunctionSite} {registry : Registry} {f : FunctionDef}
    (owns : site.Owns registry f) : (site.take registry).registry.records =
      registry.records.filter (·.1 != site.id) := by
  rcases owns with ⟨kept, absent⟩ | ⟨empty, recorded⟩
  · rw [take_kept kept, eq_comm, List.filter_eq_self]
    intro record member
    have apart : site.id ≠ record.1 := by
      simpa using List.lookup_eq_none_iff.mp absent record member
    simpa using apart.symm
  · rw [take_record empty recorded]

namespace CompiledUnit

/-- The unit `u` with the number `unit` is what `fresh` has become after the history `h`. -/
structure Follows (h : List Act) (unit : UnitId) (u fresh : CompiledUnit) (heap : Heap) : Prop where
  /-- On record are the literals that were not evaluated. -/
  records : u.registry.records =
    fresh.registry.records.filter fun record => !evaluated h unit record.1
  /-- A call site has lived through the resolutions that happened at it. -/
  calls : Covers (fresh.sites.calls[·]?) u.sites.calls fun i site used =>
    ∃ events, CallSite.Life.Valid site.argCount site.maxDepth
      { heap, site := used, resolved := (resolvedAt h unit i).reverse, events }
  sizes : u.sites.sizes = fresh.sites.sizes
  constants : u.sites.constants = fresh.sites.constants

variable {h : List Act} {unit : UnitId} {u fresh : CompiledUnit} {heap : Heap}

theorem Follows.idle (follows : u.Follows h unit fresh heap) {acts : List Act}
    (idle : ∀ act ∈ acts, act.Idle unit) : u.Follows (h ++ acts) unit fresh heap where
  records := by simpa [evaluated_of_idle idle] using follows.records
  calls := by simpa [resolvedAt_of_idle idle] using follows.calls
  sizes := follows.sizes
  constants := follows.constants

theorem Follows.grows (follows : u.Follows h unit fresh heap) {heap' : Heap}
    (grows : heap.Grows heap') : u.Follows h unit fresh heap' :=
  { follows with
    calls := follows.calls.mono fun _ _ _ ⟨events, valid⟩ =>
      ⟨events, valid.heap_changes grows.keeps⟩ }

/-- Nothing has happened in a unit that was compiled just now. -/
theorem follows_fresh {f : FunctionDef} {cacheDepth : Nat} (compiled : f.compile cacheDepth = .ok u)
    (idle : ∀ act ∈ h, act.Idle unit) (heap : Heap) : u.Follows h unit u heap where
  records := by simp [evaluated_of_idle idle]
  calls := by
    intro i site found
    have listed : site ∈ u.sites.calls.toList :=
      List.mem_of_getElem? (by rw [Array.getElem?_toList]; exact found)
    rw [FunctionDef.compile_calls compiled] at listed
    obtain ⟨call, -, rfl⟩ := List.mem_map.mp listed
    refine ⟨_, found, [], ?_⟩
    rw [resolvedAt_of_idle idle]
    exact CallSite.Life.start_valid heap _ _
  sizes := rfl
  constants := rfl

/-- What was learned about global names does not count. -/
theorem Follows.globals (follows : u.Follows h unit fresh heap) {lookups registrations : Array GlobalSite}
    (reads : lookups.size = u.sites.lookups.size)
    (writes : registrations.size = u.sites.registrations.size) :
    Follows h unit { u with sites := { u.sites with lookups, registrations } } fresh heap where
  records := follows.records
  calls := follows.calls
  sizes := by simpa [SiteTable.sizes, reads, writes] using follows.sizes
  constants := follows.constants

/-- A call is looked up at a call site. -/
theorem Follows.call (follows : u.Follows h unit fresh heap) {place : Nat} {site used : CallSite}
    (wanted : fresh.sites.calls[place]? = some site) (found : u.sites.calls[place]? = some used)
    (callee : Value) {m : Machine} (current : m.heap = heap) :
    Follows (h ++ [.dispatch unit place callee site.argCount m]) unit { u with sites := { u.sites with
      calls := u.sites.calls.setIfInBounds place (used.after heap callee) } } fresh heap := by
  obtain ⟨held, found', events, valid⟩ := follows.calls place site wanted
  obtain rfl : used = held := Option.some.inj (found.symm.trans found')
  have arguments : used.argCount = site.argCount := valid.arguments
  constructor
  · simpa [evaluated, Act.evaluates] using follows.records
  · -- the life of this site goes on, and the other sites see nothing of it
    intro i other wanted'
    by_cases here : place = i
    · subst i
      obtain rfl : site = other := Option.some.inj (wanted.symm.trans wanted')
      obtain ⟨inside, -⟩ := Array.getElem?_eq_some_iff.mp found
      let l : CallSite.Life :=
        { heap, site := used, resolved := (resolvedAt h unit place).reverse, events }
      have next : (l.step (.call callee)).Valid site.argCount site.maxDepth :=
        valid.step_call callee
      have same : (l.step (.call callee)).resolved =
          (resolvedAt (h ++ [.dispatch unit place callee site.argCount m]) unit place).reverse := by
        cases resolved : heap.resolveCallee callee site.argCount <;>
          simp [l, CallSite.Life.step, resolvedAt, Act.resolves?, current, arguments, resolved,
            Except.toOption]
      refine ⟨_, Array.getElem?_setIfInBounds_self_of_lt inside,
        (l.step (.call callee)).events, ?_⟩
      rw [← same]
      exact next
    · obtain ⟨held, found'', events', valid'⟩ := follows.calls i other wanted'
      refine ⟨held, by rw [Array.getElem?_setIfInBounds_ne here, found''], events', ?_⟩
      have elsewhere : resolvedAt [Act.dispatch unit place callee site.argCount m] unit i = [] := by
        simp [resolvedAt, Act.resolves?, here]
      simpa [elsewhere] using valid'
  · simpa [SiteTable.sizes] using follows.sizes
  · exact follows.constants

/-- A literal is evaluated. -/
theorem Follows.evaluate (follows : u.Follows h unit fresh heap) (tracks : u.Tracks fresh heap)
    {id : Nat} {f : FunctionDef} {used : FunctionSite}
    (recorded : fresh.registry.records.lookup id = some f)
    (found : u.sites.functions[id]? = some used) (registration : Option (String × Nat))
    (m : Machine) :
    (u.keepRecord id (used.take u.registry)).Follows
      (h ++ [.visit unit (.function id registration) m]) unit fresh heap := by
  obtain ⟨held, found', numbered, owns⟩ := tracks.functions id f recorded
  obtain rfl : used = held := Option.some.inj (found.symm.trans found')
  constructor
  · rw [keepRecord, FunctionSite.take_records owns, numbered, follows.records, List.filter_filter]
    congr 1
    funext record
    have now : evaluated [.visit unit (.function id registration) m] unit record.1 =
        (record.1 == id) := by
      simp [evaluated, Act.evaluates, Bool.beq_comm]
    rw [evaluated_append, now, Bool.not_or, Bool.and_comm, bne]
  · have elsewhere : ∀ i, resolvedAt [Act.visit unit (.function id registration) m] unit i = [] :=
      fun i => rfl
    simpa [elsewhere, keepRecord] using follows.calls
  · simpa [SiteTable.sizes, keepRecord] using follows.sizes
  · exact follows.constants

end CompiledUnit

namespace Heap

/-- There are no new functions. -/
theorem newObject_entries (h : Heap) (proto : Option ObjectId) : (h.newObject proto).2.Keeps h := by
  intro id entry found
  rw [newObject, callable?, object?_alloc] at found
  split at found
  · cases found
  · exact found

theorem register_entries (h : Heap) (id : ObjectId) (key : String) (v : Value) :
    (h.register id key v).Keeps h := by
  intro other entry found
  rwa [register, store_callable] at found

/-- The one new function is the given one. -/
theorem newFunction_entries {h : Heap} {name : String} {target entry : Callable} {id : ObjectId}
    (found : (h.newFunction name target).2.callable? id = some entry) :
    h.callable? id = some entry ∨ entry = target := by
  rw [newFunction, store_callable, callable?, object?_alloc] at found
  split at found
  · exact Or.inr (Option.some.inj found).symm
  · exact Or.inl found

end Heap

/-- The entry belongs to a unit of the machine and says what it takes, or to one of the given functions of
the host. -/
def Callable.Known (hosts : NativeFunction → Prop) (m : Machine) : Callable → Prop
  | .compiled unit name params => ∃ f, (m.units[unit]?).map (·.definition) = some f ∧
      name = f.name.getD anonymousName ∧ params = f.params.length
  | .native f => hosts f

theorem Callable.Known.leads {hosts : NativeFunction → Prop} {m m' : Machine} {entry : Callable}
    (known : entry.Known hosts m) (leads : m.Leads m') : entry.Known hosts m' := by
  cases entry with
  | native f => exact known
  | compiled unit name params =>
    obtain ⟨f, named, rest⟩ := known
    exact ⟨f, leads.units unit f named, rest⟩

namespace Machine

/-- The units of the machine are what the history `h` has made of them, and its functions are those of
its units and the given ones of the host. -/
structure Chronicle (hosts : NativeFunction → Prop) (h : List Act) (m : Machine) : Prop where
  sound : m.Sound
  follows : ∀ (i : Nat) u, m.units[i]? = some u →
    ∃ fresh, u.definition.compile m.cacheDepth = .ok fresh ∧ u.Follows h i fresh m.heap
  past : ∀ act ∈ h, act.unit < m.units.size
  entries : ∀ id entry, m.heap.callable? id = some entry → entry.Known hosts m

variable {hosts : NativeFunction → Prop} {h : List Act} {m m' : Machine}

theorem Chronicle.unit_follows (chronicle : m.Chronicle hosts h) {unit : UnitId}
    {u fresh : CompiledUnit} (holds : m.Holds unit fresh) (found : m.units[unit]? = some u) :
    u.Follows h unit fresh m.heap := by
  obtain ⟨fresh', compiled, follows⟩ := chronicle.follows unit u found
  have same : u.definition = fresh.definition := by simpa [found] using holds.2
  rw [same, holds.1] at compiled
  obtain rfl : fresh = fresh' := Except.ok.inj compiled
  exact follows

/-- The code of a unit stays what it was when the unit was compiled. -/
theorem Chronicle.unit_compiled (chronicle : m.Chronicle hosts h) {unit : UnitId} {u : CompiledUnit}
    (found : m.units[unit]? = some u) :
    ∃ fresh, u.definition.compile m.cacheDepth = .ok fresh ∧ u.code = fresh.code ∧
      u.Follows h unit fresh m.heap := by
  obtain ⟨fresh, compiled, follows⟩ := chronicle.follows unit u found
  obtain ⟨fresh', compiled', tracks⟩ := chronicle.sound unit u found
  obtain rfl : fresh = fresh' := Except.ok.inj (compiled.symm.trans compiled')
  exact ⟨fresh, compiled, tracks.code, follows⟩

theorem Holds.inside {unit : UnitId} {fresh : CompiledUnit} (holds : m.Holds unit fresh) :
    unit < m.units.size := by
  obtain ⟨u, found, -⟩ := Option.map_eq_some_iff.mp holds.2
  obtain ⟨inside, -⟩ := Array.getElem?_eq_some_iff.mp found
  exact inside

/-- A change outside of the units. -/
theorem Chronicle.outside (chronicle : m.Chronicle hosts h) (leads : m.Leads m')
    (units : m'.units = m.units) (entries : ∀ id entry, m'.heap.callable? id = some entry →
      m.heap.callable? id = some entry ∨ entry.Known hosts m') : m'.Chronicle hosts h where
  sound := leads.sound
  follows := by
    intro i u found
    rw [units] at found
    obtain ⟨fresh, compiled, follows⟩ := chronicle.follows i u found
    exact ⟨fresh, by rw [leads.cacheDepth]; exact compiled, follows.grows leads.heap⟩
  past := by
    rw [units]
    exact chronicle.past
  entries := by
    intro id entry found
    rcases entries id entry found with old | new
    · exact (chronicle.entries id entry old).leads leads
    · exact new

/-- A change outside of the units that makes no function. -/
theorem Chronicle.quiet (chronicle : m.Chronicle hosts h) (leads : m.Leads m')
    (units : m'.units = m.units) (entries : m'.heap.Keeps m.heap) : m'.Chronicle hosts h :=
  chronicle.outside leads units fun id entry found => Or.inl (entries id entry found)

/-- A change of one unit by acts of its own. -/
theorem Chronicle.modify (chronicle : m.Chronicle hosts h) (leads : m.Leads m') {unit : UnitId}
    {fresh u : CompiledUnit} {f : CompiledUnit → CompiledUnit} {acts : List Act}
    (units : m'.units = m.units.modify unit f) (holds : m.Holds unit fresh)
    (found : m.units[unit]? = some u)
    (learns : (f u).Follows (h ++ acts) unit fresh m'.heap) (own : ∀ act ∈ acts, act.unit = unit)
    (entries : m'.heap.Keeps m.heap) : m'.Chronicle hosts (h ++ acts) where
  sound := leads.sound
  follows := by
    intro i u' found'
    by_cases same : unit = i
    · subst i
      have now := leads.holds holds
      have named : u'.definition = fresh.definition := by simpa [found'] using now.2
      rw [units, Array.getElem?_modify, if_pos rfl, found] at found'
      obtain rfl : f u = u' := Option.some.inj found'
      exact ⟨fresh, by rw [named]; exact now.1, learns⟩
    · rw [units, Array.getElem?_modify, if_neg same] at found'
      obtain ⟨fresh', compiled, follows⟩ := chronicle.follows i u' found'
      have idle : ∀ act ∈ acts, act.Idle i := fun act member =>
        Act.idle_of_ne (by rw [own act member]; exact same)
      exact ⟨fresh', by rw [leads.cacheDepth]; exact compiled, (follows.idle idle).grows leads.heap⟩
  past := by
    intro act member
    rw [units, Array.size_modify]
    rcases List.mem_append.mp member with old | new
    · exact chronicle.past act old
    · rw [own act new]
      exact holds.inside
  entries := fun id entry found => (chronicle.entries id entry (entries id entry found)).leads leads

/-- A node is visited that leaves nothing behind. -/
theorem Chronicle.visit (chronicle : m.Chronicle hosts h) {unit : UnitId}
    (inside : unit < m.units.size) {code : Code} (plain : code.record? = none) :
    m.Chronicle hosts (h ++ [.visit unit code m]) where
  sound := chronicle.sound
  follows := by
    intro i u found
    obtain ⟨fresh, compiled, follows⟩ := chronicle.follows i u found
    refine ⟨fresh, compiled, follows.idle fun act member => ?_⟩
    rw [List.mem_singleton.mp member]
    exact Act.idle_visit plain unit i m
  past := by
    intro act member
    rcases List.mem_append.mp member with old | new
    · exact chronicle.past act old
    · rw [List.mem_singleton.mp new]
      exact inside
  entries := chronicle.entries

/-- A function is compiled. -/
theorem Chronicle.compile (chronicle : m.Chronicle hosts h) {f : FunctionDef} {id : ObjectId}
    (done : m.compile f = .ok (id, m')) : m'.Chronicle hosts h := by
  have leads := chronicle.sound.compile_leads done
  obtain ⟨fresh, event, compiled, rfl, rfl⟩ := compile_inv done
  obtain ⟨rfl, -⟩ := FunctionDef.compile_ok compiled
  have last : (m.units.push fresh)[m.units.size]? = some fresh := by simp
  constructor
  · exact leads.sound
  · intro i u found
    by_cases new : i = m.units.size
    · -- nothing has happened yet in a unit with a number that is new
      subst i
      obtain rfl : fresh = u := Option.some.inj (last.symm.trans found)
      refine ⟨fresh, compiled, CompiledUnit.follows_fresh compiled (fun act member => ?_) _⟩
      exact Act.idle_of_ne (Nat.ne_of_lt (chronicle.past act member))
    · have old : m.units[i]? = some u := by
        simpa [Array.getElem?_push, new] using found
      obtain ⟨before, compiled', follows⟩ := chronicle.follows i u old
      exact ⟨before, compiled', follows.grows leads.heap⟩
  · intro act member
    simpa using Nat.lt_succ_of_lt (chronicle.past act member)
  · intro id entry found
    rcases Heap.newFunction_entries found with old | rfl
    · exact (chronicle.entries id entry old).leads leads
    · exact ⟨fresh.definition, by simp, rfl, rfl⟩

/-- A change of the sites of one unit by acts of its own. -/
theorem Chronicle.modifySites (chronicle : m.Chronicle hosts h) {unit : UnitId}
    {fresh u : CompiledUnit} {f : SiteTable → SiteTable} {acts : List Act}
    (leads : m.Leads (m'.modifySites unit f)) (units : m'.units = m.units)
    (holds : m.Holds unit fresh) (found : m.units[unit]? = some u)
    (learns : CompiledUnit.Follows (h ++ acts) unit { u with sites := f u.sites } fresh m'.heap)
    (own : ∀ act ∈ acts, act.unit = unit) (entries : m'.heap.Keeps m.heap) :
    (m'.modifySites unit f).Chronicle hosts (h ++ acts) :=
  chronicle.modify (f := fun u => { u with sites := f u.sites }) leads
    (by rw [Machine.modifySites, units]) holds found learns own entries

theorem Chronicle.lookupGlobal (chronicle : m.Chronicle hosts h) {unit : UnitId}
    {fresh : CompiledUnit} (holds : m.Holds unit fresh) {place : Nat} {name : String}
    (wanted : fresh.sites.lookups[place]? = some { name }) :
    (m.lookupGlobal unit place name).2.Chronicle hosts h ∧
      m.Leads (m.lookupGlobal unit place name).2 := by
  have leads : m.Leads (m.lookupGlobal unit place name).2 :=
    (chronicle.sound.lookupGlobal holds wanted).leads rfl
  obtain ⟨u, found, -⟩ := chronicle.sound.tracks holds
  refine ⟨?_, leads⟩
  simp only [Machine.lookupGlobal, lookupAt_eq] at leads ⊢
  rw [← List.append_nil h]
  refine chronicle.modifySites leads (by simp) holds found ?_ (by simp) ?_
  · rw [List.append_nil, log?_heap]
    exact (chronicle.unit_follows holds found).globals (Array.size_setIfInBounds ..) rfl
  · rw [log?_heap]
    exact .refl _

theorem Chronicle.registerGlobal (chronicle : m.Chronicle hosts h) {unit : UnitId}
    {fresh : CompiledUnit} (holds : m.Holds unit fresh) {place : Nat} {name : String}
    (wanted : fresh.sites.registrations[place]? = some { name }) (v : Value) :
    (m.registerGlobal unit place name v).Chronicle hosts h ∧
      m.Leads (m.registerGlobal unit place name v) := by
  have leads : m.Leads (m.registerGlobal unit place name v) :=
    (chronicle.sound.registerGlobal holds wanted v).leads rfl
  obtain ⟨u, found, -⟩ := chronicle.sound.tracks holds
  refine ⟨?_, leads⟩
  simp only [Machine.registerGlobal, registerAt_eq] at leads ⊢
  rw [← List.append_nil h]
  refine chronicle.modifySites leads (by simp) holds found ?_ (by simp)
    (m.heap.register_entries _ _ v)
  rw [List.append_nil]
  exact ((chronicle.unit_follows holds found).grows leads.heap).globals rfl
    (Array.size_setIfInBounds ..)

/-- What a call at a site of a unit leaves behind. -/
theorem dispatchCall_eq {unit : UnitId} {u : CompiledUnit} {place : Nat} {used : CallSite}
    (found : m.units[unit]? = some u) (held : u.sites.calls[place]? = some used) (argCount : Nat)
    (callee : Value) :
    m.dispatchCall unit place argCount callee =
      ((used.dispatch m.heap callee).map (·.target),
        (m.log? (used.report m.heap callee)).modifySites unit fun t =>
          { t with calls := t.calls.setIfInBounds place (used.after m.heap callee) }) := by
  cases done : used.dispatch m.heap callee <;>
    simp [Machine.dispatchCall, found, held, dispatchAt, CallSite.after, CallSite.report, done,
      Except.map, Machine.log?]

theorem Chronicle.dispatchCall (chronicle : m.Chronicle hosts h) {unit : UnitId}
    {fresh : CompiledUnit} (holds : m.Holds unit fresh) {place : Nat} {site : CallSite}
    (wanted : fresh.sites.calls[place]? = some site) (callee : Value) :
    (m.dispatchCall unit place site.argCount callee).2.Chronicle hosts
        (h ++ [.dispatch unit place callee site.argCount m]) ∧
      m.Leads (m.dispatchCall unit place site.argCount callee).2 := by
  obtain ⟨m', dispatched, -, leads⟩ := chronicle.sound.dispatchCall holds wanted callee
  obtain ⟨u, found, tracks⟩ := chronicle.sound.tracks holds
  obtain ⟨used, held, -⟩ := tracks.calls place site wanted
  have ends := dispatchCall_eq found held site.argCount callee
  rw [dispatched] at ends ⊢
  obtain ⟨-, rfl⟩ := Prod.mk.inj ends
  refine ⟨chronicle.modifySites leads (by simp) holds found ?_ (by simp [Act.unit]) ?_, leads⟩
  · rw [log?_heap]
    exact (chronicle.unit_follows holds found).call wanted held callee rfl
  · rw [log?_heap]
    exact .refl _

theorem Chronicle.makeFunction (chronicle : m.Chronicle hosts h) {unit : UnitId}
    {fresh : CompiledUnit} (holds : m.Holds unit fresh) {id : Nat} {f : FunctionDef}
    (recorded : fresh.registry.records.lookup id = some f) (registration : Option (String × Nat)) :
    (m.makeFunction unit id).2.Chronicle hosts
        (h ++ [.visit unit (.function id registration) m]) ∧
      m.Leads (m.makeFunction unit id).2 := by
  obtain ⟨u, found, tracks⟩ := chronicle.sound.tracks holds
  obtain ⟨used, held, -⟩ := tracks.functions id f recorded
  obtain ⟨definition, learns⟩ := tracks.keepRecord recorded held
  have leads := (chronicle.sound.makeFunction holds recorded).leads rfl
  refine ⟨?_, leads⟩
  rw [makeFunction_eq found held definition]
  have first : m.Leads (m.keepRecord unit id (used.take u.registry)) :=
    chronicle.sound.leads_modify (f := (·.keepRecord id (used.take u.registry)))
      (by simp [keepRecord]) (by simpa [keepRecord] using Heap.Grows.refl) (by simp [keepRecord])
      holds found (by simpa [keepRecord] using learns)
  have taken : (m.keepRecord unit id (used.take u.registry)).Chronicle hosts
      (h ++ [.visit unit (.function id registration) m]) :=
    chronicle.modify first (f := (·.keepRecord id (used.take u.registry)))
      (by simp [keepRecord]) holds found
      (by simpa [keepRecord] using
        (chronicle.unit_follows holds found).evaluate tracks recorded held registration m)
      (by simp [Act.unit]) (by simpa [keepRecord] using Heap.Keeps.refl m.heap)
  cases compiled : (m.keepRecord unit id (used.take u.registry)).compile f with
  | error e => exact taken
  | ok made => exact taken.compile compiled

end Machine

end ScriptEngine
