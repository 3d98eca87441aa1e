import ScriptEngine.Proofs.CallSite
import ScriptEngine.Proofs.Lowering
import ScriptEngine.Proofs.Since

/-!
# Units in use

A unit that has run is the unit its function compiles to, except for what its sites have learned, and
what they have learned holds in the machine. Every operation of running code keeps this, also when the
operation fails, and does to what can be observed of the machine what the operation without a site does.
-/

namespace ScriptEngine

open Reference (World)

/-- A site that works on a name of a global object, bound to it or not bound yet. -/
def GlobalSite.Serves (site : GlobalSite) (name : String) (global : ObjectId) : Prop :=
  site.name = name ∧ site.target global = global

theorem GlobalSite.Serves.link {site : GlobalSite} {name : String} {global : ObjectId}
    (serves : site.Serves name global) : (site.link global).Serves name global :=
  ⟨serves.1, by simpa [GlobalSite.link, GlobalSite.target] using serves.2⟩

/-- The record of a literal is with its site or in the registry, and never in both. -/
def FunctionSite.Owns (site : FunctionSite) (registry : Registry) (f : FunctionDef) : Prop :=
  site.kept = some f ∧ registry.records.lookup site.id = none ∨
    site.kept = none ∧ registry.records.lookup site.id = some f

namespace FunctionSite

theorem take_kept {site : FunctionSite} {f : FunctionDef} (kept : site.kept = some f)
    (registry : Registry) :
    site.take registry = { definition := .ok f, site, registry, event := none } := by
  simp [take, kept]

theorem take_record {site : FunctionSite} {registry : Registry} {f : FunctionDef}
    (empty : site.kept = none) (recorded : registry.records.lookup site.id = some f) :
    site.take registry = {
      definition := .ok f
      site := { site with kept := some f }
      registry := { registry with records := registry.records.filter (·.1 != site.id) }
      event := some (.consumingFunction site.id) } := by
  simp [take, empty, Registry.consume, recorded]

/-- Taking a record moves it from the registry to its site and no other record. -/
theorem Owns.take {site : FunctionSite} {registry : Registry} {f : FunctionDef}
    (owns : site.Owns registry f) :
    let taken := site.take registry
    taken.definition = .ok f ∧ taken.site.id = site.id ∧ taken.site.Owns taken.registry f ∧
      ∀ other, other ≠ site.id →
        taken.registry.records.lookup other = registry.records.lookup other := by
  rcases owns with ⟨kept, absent⟩ | ⟨empty, recorded⟩
  · rw [take_kept kept]
    exact ⟨rfl, rfl, Or.inl ⟨kept, absent⟩, fun _ _ => rfl⟩
  · rw [take_record empty recorded]
    refine ⟨rfl, rfl, Or.inl ⟨rfl, ?_⟩, fun other apart => ?_⟩
    · simp [lookup_filter_number (· != site.id)]
    · simp [lookup_filter_number (· != site.id), apart]

end FunctionSite

/-- Every wanted entry has its counterpart at the same place. -/
def Covers {α β : Type} (wanted : Nat → Option α) (used : Array β) (P : Nat → α → β → Prop) : Prop :=
  ∀ i x, wanted i = some x → ∃ y, used[i]? = some y ∧ P i x y

theorem Covers.mono {α β : Type} {wanted : Nat → Option α} {used : Array β}
    {P Q : Nat → α → β → Prop} (covers : Covers wanted used P)
    (weaker : ∀ i x y, P i x y → Q i x y) : Covers wanted used Q := by
  intro i x wants
  obtain ⟨y, found, holds⟩ := covers i x wants
  exact ⟨y, found, weaker i x y holds⟩

theorem Covers.set {α β : Type} {wanted : Nat → Option α} {used : Array β}
    {P : Nat → α → β → Prop} (covers : Covers wanted used P) {place : Nat} {y : β}
    (holds : ∀ x, wanted place = some x → P place x y) :
    Covers wanted (used.setIfInBounds place y) P := by
  intro i x wants
  obtain ⟨old, found, kept⟩ := covers i x wants
  by_cases same : place = i
  · subst i
    obtain ⟨inside, _⟩ := Array.getElem?_eq_some_iff.mp found
    exact ⟨y, Array.getElem?_setIfInBounds_self_of_lt inside, holds x wants⟩
  · exact ⟨old, by rw [Array.getElem?_setIfInBounds_ne same, found], kept⟩

theorem Covers.link {wanted : Nat → Option GlobalSite} {used : Array GlobalSite} {global : ObjectId}
    (covers : Covers wanted used fun _ site used => used.Serves site.name global) {place : Nat}
    {site : GlobalSite} (found : used[place]? = some site) :
    Covers wanted (used.setIfInBounds place (site.link global)) fun _ site used =>
      used.Serves site.name global := by
  apply covers.set
  intro x wants
  obtain ⟨held, found', serves⟩ := covers place x wants
  obtain rfl : site = held := Option.some.inj (found.symm.trans found')
  exact serves.link

/-- The unit `u` is `fresh` except for what its sites have learned, which holds in the heap. -/
structure CompiledUnit.Tracks (u fresh : CompiledUnit) (h : Heap) : Prop where
  definition : u.definition = fresh.definition
  scope : u.scope = fresh.scope
  code : u.code = fresh.code
  lookups : Covers (fresh.sites.lookups[·]?) u.sites.lookups fun _ site used =>
    used.Serves site.name fresh.global
  registrations : Covers (fresh.sites.registrations[·]?) u.sites.registrations fun _ site used =>
    used.Serves site.name fresh.global
  functions : Covers (fresh.registry.records.lookup ·) u.sites.functions fun id f used =>
    used.id = id ∧ used.Owns u.registry f
  calls : Covers (fresh.sites.calls[·]?) u.sites.calls fun _ site used =>
    used.argCount = site.argCount ∧ used.Linked h

namespace CompiledUnit

theorem Tracks.grows {u fresh : CompiledUnit} {h h' : Heap} (tracks : u.Tracks fresh h)
    (grows : h.Grows h') : u.Tracks fresh h' :=
  { tracks with
    calls := tracks.calls.mono fun _ _ _ holds => ⟨holds.1, holds.2.keeps grows.keeps⟩ }

/-- Nothing was learned yet. -/
theorem tracks_fresh {f : FunctionDef} {cacheDepth : Nat} {fresh : CompiledUnit}
    (compiled : f.compile cacheDepth = .ok fresh) (h : Heap) : fresh.Tracks fresh h := by
  obtain ⟨-, -, unused, -⟩ := FunctionDef.compile_ok compiled
  refine ⟨rfl, rfl, rfl, ?_, ?_, ?_, ?_⟩
  · intro i site found
    exact ⟨site, found, rfl, by simp [GlobalSite.target, unused.lookups i site found]⟩
  · intro i site found
    exact ⟨site, found, rfl, by simp [GlobalSite.target, unused.registrations i site found]⟩
  · intro id f recorded
    obtain ⟨before, after, split, _⟩ := List.lookup_eq_some_iff.mp recorded
    have member : (id, f) ∈ fresh.registry.records := by simp [split]
    have issued := unused.records id f member
    exact ⟨{ id }, unused.functions id issued, rfl, Or.inr ⟨rfl, recorded⟩⟩
  · intro i site found
    refine ⟨site, found, rfl, ?_⟩
    intro guards same g member
    cases (unused.calls i site found).symm.trans same
    cases member

theorem Tracks.call {u fresh : CompiledUnit} {h : Heap} (tracks : u.Tracks fresh h)
    {place : Nat} {used : CallSite} (found : u.sites.calls[place]? = some used) (callee : Value) :
    Tracks { u with sites := { u.sites with
      calls := u.sites.calls.setIfInBounds place (used.after h callee) } } fresh h := by
  refine { tracks with calls := tracks.calls.set ?_ }
  intro site wants
  obtain ⟨held, found', arguments, linked⟩ := tracks.calls place site wants
  obtain rfl : used = held := Option.some.inj (found.symm.trans found')
  obtain ⟨same, linked'⟩ := linked.after callee
  exact ⟨same.trans arguments, linked'⟩

/-- The unit after a record has gone from its registry to the site of its literal. -/
def keepRecord (u : CompiledUnit) (id : Nat) (taken : Taken) : CompiledUnit :=
  { u with
    registry := taken.registry
    sites := { u.sites with functions := u.sites.functions.setIfInBounds id taken.site } }

theorem Tracks.keepRecord {u fresh : CompiledUnit} {h : Heap} (tracks : u.Tracks fresh h)
    {id : Nat} {f : FunctionDef} {used : FunctionSite}
    (recorded : fresh.registry.records.lookup id = some f)
    (found : u.sites.functions[id]? = some used) :
    (used.take u.registry).definition = .ok f ∧
      (u.keepRecord id (used.take u.registry)).Tracks fresh h := by
  obtain ⟨held, found', numbered, owns⟩ := tracks.functions id f recorded
  obtain rfl : used = held := Option.some.inj (found.symm.trans found')
  obtain ⟨definition, number, owns', others⟩ := owns.take
  refine ⟨definition, { tracks with functions := ?_ }⟩
  intro other g wants
  by_cases same : id = other
  · subst other
    obtain rfl : f = g := Option.some.inj (recorded.symm.trans wants)
    obtain ⟨inside, _⟩ := Array.getElem?_eq_some_iff.mp found
    exact ⟨_, Array.getElem?_setIfInBounds_self_of_lt inside, number.trans numbered, owns'⟩
  · obtain ⟨held, found', numbered', owned⟩ := tracks.functions other g wants
    refine ⟨held, (Array.getElem?_setIfInBounds_ne same).trans found', numbered', ?_⟩
    have untouched : held.id ≠ used.id := by rw [numbered, numbered']; exact Ne.symm same
    simpa only [FunctionSite.Owns, CompiledUnit.keepRecord, others held.id untouched] using owned

end CompiledUnit

namespace Machine

/-- What can be observed of a machine: everything but sites, code, reported events and a parked
failure. -/
def observe (m : Machine) : World where
  heap := m.heap
  functions := m.units.map (·.definition)
  kept := m.roots.arena
  output := m.output
  sink := m.sink

/-- Every unit is a unit in use. -/
def Sound (m : Machine) : Prop :=
  ∀ (i : Nat) u, m.units[i]? = some u →
    ∃ fresh, u.definition.compile m.cacheDepth = .ok fresh ∧ u.Tracks fresh m.heap

/-- The function of the unit compiles to `fresh`. -/
def Holds (m : Machine) (unit : UnitId) (fresh : CompiledUnit) : Prop :=
  fresh.definition.compile m.cacheDepth = .ok fresh ∧
    (m.units[unit]?).map (·.definition) = some fresh.definition

/-- `m'` is a sound machine in which all that was there in `m` still is. -/
structure Leads (m m' : Machine) : Prop where
  sound : m'.Sound
  cacheDepth : m'.cacheDepth = m.cacheDepth
  heap : m.heap.Grows m'.heap
  units : ∀ (i : Nat) f, (m.units[i]?).map (·.definition) = some f →
    (m'.units[i]?).map (·.definition) = some f

theorem Sound.refl {m : Machine} (sound : m.Sound) : m.Leads m :=
  ⟨sound, rfl, .refl, fun _ _ => id⟩

theorem Leads.trans {m₁ m₂ m₃ : Machine} (first : m₁.Leads m₂) (second : m₂.Leads m₃) :
    m₁.Leads m₃ where
  sound := second.sound
  cacheDepth := second.cacheDepth.trans first.cacheDepth
  heap := first.heap.trans second.heap
  units i f found := second.units i f (first.units i f found)

theorem Leads.holds {m m' : Machine} (leads : m.Leads m') {unit : UnitId} {fresh : CompiledUnit}
    (holds : m.Holds unit fresh) : m'.Holds unit fresh :=
  ⟨by rw [leads.cacheDepth]; exact holds.1, leads.units unit _ holds.2⟩

theorem Sound.tracks {m : Machine} (sound : m.Sound) {unit : UnitId} {fresh : CompiledUnit}
    (holds : m.Holds unit fresh) : ∃ u, m.units[unit]? = some u ∧ u.Tracks fresh m.heap := by
  obtain ⟨u, found, same⟩ := Option.map_eq_some_iff.mp holds.2
  obtain ⟨fresh', compiled, tracks⟩ := sound unit u found
  rw [same, holds.1] at compiled
  obtain rfl : fresh = fresh' := Except.ok.inj compiled
  exact ⟨u, found, tracks⟩

/-- A change of the units one by one that learns only what holds. -/
theorem Sound.leads {m m' : Machine} (sound : m.Sound) (depth : m'.cacheDepth = m.cacheDepth)
    (grows : m.heap.Grows m'.heap)
    (units : ∀ (i : Nat), (m.units[i]? = none ∧ m'.units[i]? = none) ∨
      ∃ u u', m.units[i]? = some u ∧ m'.units[i]? = some u' ∧
        ∀ fresh, u.definition.compile m.cacheDepth = .ok fresh → u.Tracks fresh m.heap →
          u'.Tracks fresh m'.heap) : m.Leads m' := by
  -- the function of a unit does not change, and so neither does the unit it is compared with
  have steps : ∀ (i : Nat) u, m.units[i]? = some u → ∃ u', m'.units[i]? = some u' ∧
      ∃ fresh, u.definition.compile m.cacheDepth = .ok fresh ∧ u.definition = fresh.definition ∧
        u'.Tracks fresh m'.heap := by
    intro i u found
    obtain ⟨fresh, compiled, tracks⟩ := sound i u found
    rcases units i with ⟨missing, -⟩ | ⟨held, u', held_eq, found', learns⟩
    · simp [missing] at found
    · obtain rfl : u = held := Option.some.inj (found.symm.trans held_eq)
      exact ⟨u', found', fresh, compiled, tracks.definition, learns fresh compiled tracks⟩
  refine ⟨?_, depth, grows, ?_⟩
  · intro i u' found'
    rcases units i with ⟨-, missing⟩ | ⟨u, -, found, -⟩
    · simp [missing] at found'
    · obtain ⟨held, held_eq, fresh, compiled, same, tracks⟩ := steps i u found
      obtain rfl : u' = held := Option.some.inj (found'.symm.trans held_eq)
      refine ⟨fresh, ?_, tracks⟩
      rw [depth, tracks.definition, ← same]
      exact compiled
  · intro i f named
    obtain ⟨u, found, rfl⟩ := Option.map_eq_some_iff.mp named
    obtain ⟨u', found', fresh, -, same, tracks⟩ := steps i u found
    rw [found', Option.map_some, tracks.definition, same]

/-- A change outside of the units. -/
theorem Sound.leads_heap {m m' : Machine} (sound : m.Sound) (depth : m'.cacheDepth = m.cacheDepth)
    (grows : m.heap.Grows m'.heap) (units : m'.units = m.units) : m.Leads m' := by
  refine sound.leads depth grows fun i => ?_
  cases found : m.units[i]? with
  | none => exact Or.inl ⟨rfl, by rw [units, found]⟩
  | some u =>
    exact Or.inr ⟨u, u, rfl, by rw [units, found], fun _ _ tracks => tracks.grows grows⟩

/-- A change of one unit. -/
theorem Sound.leads_modify {m m' : Machine} (sound : m.Sound)
    (depth : m'.cacheDepth = m.cacheDepth) (grows : m.heap.Grows m'.heap) {unit : UnitId}
    {fresh u : CompiledUnit} {f : CompiledUnit → CompiledUnit}
    (units : m'.units = m.units.modify unit f) (holds : m.Holds unit fresh)
    (found : m.units[unit]? = some u) (learns : (f u).Tracks fresh m'.heap) : m.Leads m' := by
  refine sound.leads depth grows fun i => ?_
  rw [units, Array.getElem?_modify]
  cases found' : m.units[i]? with
  | none => exact Or.inl ⟨rfl, by simp⟩
  | some u' =>
    by_cases same : unit = i
    · subst i
      obtain rfl : u = u' := Option.some.inj (found.symm.trans found')
      refine Or.inr ⟨u, f u, rfl, by simp, fun fresh' compiled _ => ?_⟩
      have same : u.definition = fresh.definition := by simpa [found] using holds.2
      rw [same, holds.1] at compiled
      obtain rfl : fresh = fresh' := Except.ok.inj compiled
      exact learns
    · exact Or.inr ⟨u', u', rfl, by simp [same], fun _ _ tracks => tracks.grows grows⟩

/-- Two runs end alike: neither ends, or both end with the same result and the same to observe. -/
inductive Agrees {α : Type} (m : Machine) : Option (α × Machine) → Option (α × World) → Prop
  | stuck : Agrees m none none
  | ends {a : α} {m' : Machine} (leads : m.Leads m') : Agrees m (some (a, m')) (some (a, m'.observe))

@[simp] theorem log?_heap (m : Machine) (event : Option Event) :
    (m.log? event).heap = m.heap := by cases event <;> rfl

@[simp] theorem log?_units (m : Machine) (event : Option Event) :
    (m.log? event).units = m.units := by cases event <;> rfl

@[simp] theorem log?_cacheDepth (m : Machine) (event : Option Event) :
    (m.log? event).cacheDepth = m.cacheDepth := by cases event <;> rfl

@[simp] theorem observe_log? (m : Machine) (event : Option Event) :
    (m.log? event).observe = m.observe := by cases event <;> rfl

theorem map_definition_modify (units : Array CompiledUnit) (unit : UnitId)
    {f : CompiledUnit → CompiledUnit} (same : ∀ u, (f u).definition = u.definition) :
    (units.modify unit f).map (·.definition) = units.map (·.definition) := by
  apply Array.ext_getElem?
  intro i
  rw [Array.getElem?_map, Array.getElem?_map, Array.getElem?_modify]
  split
  · cases units[i]? with
    | none => rfl
    | some u => simp [same]
  · rfl

theorem observe_modify (m : Machine) (unit : UnitId) {f : CompiledUnit → CompiledUnit}
    (same : ∀ u, (f u).definition = u.definition) :
    observe { m with units := m.units.modify unit f } = m.observe := by
  simp [observe, map_definition_modify m.units unit same]

@[simp] theorem observe_modifySites (m : Machine) (unit : UnitId) (f : SiteTable → SiteTable) :
    (m.modifySites unit f).observe = m.observe := m.observe_modify unit fun _ => rfl

theorem lookupAt_eq (m : Machine) (site : GlobalSite) (global : ObjectId) :
    m.lookupAt site global = (m.heap.lookup (site.target global) site.name,
      m.log? (if site.isLinked then none else some (.linkedLookup site.name))) := by
  cases linked : site.isLinked <;> simp [lookupAt, linked, log?, log]

theorem registerAt_eq (m : Machine) (site : GlobalSite) (global : ObjectId) (v : Value) :
    m.registerAt site global v =
      { m.log? (if site.isLinked then none else some (.linkedRegistration site.name)) with
        heap := m.heap.register (site.target global) site.name v } := by
  cases linked : site.isLinked <;> simp [registerAt, linked, log?, log]

theorem Agrees.ends_in {α : Type} {m m' : Machine} {a : α} {w : World} (leads : m.Leads m')
    (same : m'.observe = w) : m.Agrees (some (a, m')) (some (a, w)) := by
  subst w
  exact .ends leads

theorem Sound.log? {m : Machine} (sound : m.Sound) (event : Option Event) :
    m.Leads (m.log? event) :=
  sound.leads_heap (by simp) (by rw [log?_heap]; exact .refl) (by simp)

theorem Leads.modifySites {m m' : Machine} (leads : m.Leads m') {unit : UnitId}
    {fresh u : CompiledUnit} {f : SiteTable → SiteTable} (holds : m'.Holds unit fresh)
    (found : m'.units[unit]? = some u)
    (learns : CompiledUnit.Tracks { u with sites := f u.sites } fresh m'.heap) :
    m.Leads (m'.modifySites unit f) :=
  leads.trans (leads.sound.leads_modify (f := fun u => { u with sites := f u.sites })
    rfl .refl rfl holds found learns)

/-- A global name is read from the global object of the unit, whatever the site is bound to. -/
theorem Sound.lookupGlobal {m : Machine} (sound : m.Sound) {unit : UnitId} {fresh : CompiledUnit}
    (holds : m.Holds unit fresh) {place : Nat} {name : String}
    (wanted : fresh.sites.lookups[place]? = some { name }) :
    m.Agrees (some (m.lookupGlobal unit place name))
      (some (m.observe.heap.lookup fresh.global name, m.observe)) := by
  obtain ⟨u, found, tracks⟩ := sound.tracks holds
  obtain ⟨site, held, named, targeted⟩ := tracks.lookups place _ wanted
  have global : u.global = fresh.global := congrArg FunctionDef.global tracks.definition
  simp only [Machine.lookupGlobal, globalOf, found, Option.map_some, Option.bind_some, held,
    Option.getD_some, lookupAt_eq, global, targeted, named]
  have logged := sound.log? (if site.isLinked then none else some (.linkedLookup name))
  rw [← log?_units m] at found
  rw [← log?_heap m] at tracks
  have learns := tracks.lookups.link held
  exact .ends_in (logged.modifySites (logged.holds holds) found { tracks with lookups := learns })
    (by simp)

/-- A function is registered in the global object of the unit, whatever the site is bound to. -/
theorem Sound.registerGlobal {m : Machine} (sound : m.Sound) {unit : UnitId}
    {fresh : CompiledUnit} (holds : m.Holds unit fresh) {place : Nat} {name : String}
    (wanted : fresh.sites.registrations[place]? = some { name }) (v : Value) :
    m.Agrees (some ((), m.registerGlobal unit place name v))
      (some ((), m.observe.register fresh.global name v)) := by
  obtain ⟨u, found, tracks⟩ := sound.tracks holds
  obtain ⟨site, held, named, targeted⟩ := tracks.registrations place _ wanted
  have global : u.global = fresh.global := congrArg FunctionDef.global tracks.definition
  simp only [Machine.registerGlobal, globalOf, found, Option.map_some, Option.bind_some, held,
    Option.getD_some, registerAt_eq, global, targeted, named]
  have grows := m.heap.register_grows fresh.global name v
  have registered : m.Leads
      { m.log? (if site.isLinked then none else some (.linkedRegistration name)) with
        heap := m.heap.register fresh.global name v } :=
    sound.leads_heap (by simp) grows (by simp)
  rw [← log?_units m] at found
  have learns := tracks.registrations.link held
  refine .ends_in (registered.modifySites (registered.holds holds) found
    { tracks.grows grows with registrations := learns }) ?_
  rw [observe_modifySites]
  cases site.isLinked <;> rfl

/-- A call site finds what resolving finds, and fails as resolving fails. -/
theorem Sound.dispatchCall {m : Machine} (sound : m.Sound) {unit : UnitId} {fresh : CompiledUnit}
    (holds : m.Holds unit fresh) {place : Nat} {site : CallSite}
    (wanted : fresh.sites.calls[place]? = some site) (callee : Value) :
    ∃ m', m.dispatchCall unit place site.argCount callee =
        ((m.heap.resolveCallee callee site.argCount).map (·.2), m') ∧
      m'.observe = m.observe ∧ m.Leads m' := by
  obtain ⟨u, found, tracks⟩ := sound.tracks holds
  obtain ⟨used, held, arguments, linked⟩ := tracks.calls place site wanted
  have target := CallSite.dispatch_target linked callee
  have ends : m.dispatchAt used callee = (((used.dispatch m.heap callee).map (·.target),
      used.after m.heap callee), m.log? (used.report m.heap callee)) := by
    cases done : used.dispatch m.heap callee <;>
      simp [dispatchAt, CallSite.after, CallSite.report, done, Except.map, Machine.log?]
  simp only [Machine.dispatchCall, found, Option.bind_some, held, Option.getD_some, ends, target,
    arguments]
  have logged := sound.log? (used.report m.heap callee)
  rw [← log?_units m] at found
  refine ⟨_, rfl, by simp, logged.modifySites (logged.holds holds) found ?_⟩
  rw [log?_heap]
  exact tracks.call held callee

theorem compile_of_ok {m : Machine} {f : FunctionDef} {fresh : CompiledUnit}
    (compiled : f.compile m.cacheDepth = .ok fresh) :
    ∃ event, m.compile f = .ok
      ((m.heap.newFunction fresh.name (.compiled m.units.size fresh.name fresh.arity)).1,
        { m.log event with
          heap :=
            (m.heap.newFunction fresh.name (.compiled m.units.size fresh.name fresh.arity)).2
          units := m.units.push fresh }) :=
  ⟨_, by rw [Machine.compile, compiled]; rfl⟩

/-- What compiling a function leaves behind. -/
theorem compile_inv {m m' : Machine} {f : FunctionDef} {id : ObjectId}
    (done : m.compile f = .ok (id, m')) : ∃ fresh event, f.compile m.cacheDepth = .ok fresh ∧
      id = (m.heap.newFunction fresh.name (.compiled m.units.size fresh.name fresh.arity)).1 ∧
      m' = { m.log event with
        heap := (m.heap.newFunction fresh.name (.compiled m.units.size fresh.name fresh.arity)).2
        units := m.units.push fresh } := by
  cases compiled : f.compile m.cacheDepth with
  | error e => simp [Machine.compile, compiled, bind, Except.bind] at done
  | ok fresh =>
    obtain ⟨event, done'⟩ := compile_of_ok compiled
    cases done.symm.trans done'
    exact ⟨fresh, event, rfl, rfl, rfl⟩

/-- Compiling fails as checking does, and makes the same function object. -/
theorem Sound.compile {m : Machine} (sound : m.Sound) (f : FunctionDef) :
    (∃ e, m.compile f = .error e ∧ m.observe.compile f = .error e) ∨
      ∃ id m', m.compile f = .ok (id, m') ∧ m.observe.compile f = .ok (id, m'.observe) ∧
        m.Leads m' := by
  cases checked : f.check with
  | error e =>
    have failed := FunctionDef.compile_of_check_error checked m.cacheDepth
    exact Or.inl ⟨e, by simp [Machine.compile, failed, bind, Except.bind],
      by simp [World.compile, checked, bind, Except.bind]⟩
  | ok _ =>
    obtain ⟨fresh, compiled⟩ := FunctionDef.compile_of_check_ok checked m.cacheDepth
    obtain ⟨rfl, -⟩ := FunctionDef.compile_ok compiled
    obtain ⟨event, done⟩ := compile_of_ok compiled
    refine Or.inr ⟨_, _, done, ?_, ?_⟩
    · simp [World.compile, checked, bind, Except.bind, pure, Except.pure, observe, Machine.log,
        CompiledUnit.name, CompiledUnit.arity]
    · have grows := m.heap.newFunction_grows fresh.name
        (.compiled m.units.size fresh.name fresh.arity)
      refine ⟨?_, rfl, grows, ?_⟩
      · intro i u found
        rcases Emission.push_cases found with old | rfl
        · obtain ⟨before, compiled', tracks⟩ := sound i u old
          exact ⟨before, compiled', tracks.grows grows⟩
        · exact ⟨u, compiled, CompiledUnit.tracks_fresh compiled _⟩
      · intro i g named
        obtain ⟨u, found, rfl⟩ := Option.map_eq_some_iff.mp named
        rw [Emission.push_old found, Option.map_some]

theorem Sound.compile_leads {m m' : Machine} (sound : m.Sound) {f : FunctionDef} {id : ObjectId}
    (done : m.compile f = .ok (id, m')) : m.Leads m' := by
  rcases sound.compile f with ⟨e, failed, -⟩ | ⟨id', m'', done', -, leads⟩
  · cases done.symm.trans failed
  · cases done.symm.trans done'
    exact leads

theorem compile_modifySites (m : Machine) (f : FunctionDef) {unit : UnitId}
    (inside : unit < m.units.size) (g : SiteTable → SiteTable) :
    (m.modifySites unit g).compile f =
      (m.compile f).map fun (id, m') => (id, m'.modifySites unit g) := by
  have pushed : ∀ u : CompiledUnit,
      (m.units.modify unit fun u => { u with sites := g u.sites }).push u =
        (m.units.push u).modify unit fun u => { u with sites := g u.sites } := by
    intro u
    apply Array.ext_getElem?
    intro i
    simp only [Array.getElem?_push, Array.getElem?_modify, Array.size_modify]
    by_cases last : i = m.units.size
    · subst i
      have apart : unit ≠ m.units.size := Nat.ne_of_lt inside
      simp [apart]
    · simp [last]
  cases compiled : f.compile m.cacheDepth with
  | error e => simp [Machine.compile, modifySites, compiled, bind, Except.bind, Except.map]
  | ok u =>
    simp [Machine.compile, modifySites, compiled, bind, Except.bind, Except.map, pure, Except.pure,
      Machine.log, pushed]

theorem modify_twice {α : Type} (xs : Array α) (i : Nat) (f g : α → α) :
    (xs.modify i f).modify i g = xs.modify i (g ∘ f) := by
  apply Array.toList_inj.mp
  simp [List.modify_modify_eq]

def keepRecord (m : Machine) (unit : UnitId) (id : Nat) (taken : Taken) : Machine :=
  { m.log? taken.event with
    units := (m.log? taken.event).units.modify unit (·.keepRecord id taken) }

/-- The site is updated after the function was compiled; it could as well be updated before. -/
theorem makeFunction_eq {m : Machine} {unit : UnitId} {u : CompiledUnit} {id : Nat}
    {used : FunctionSite} {f : FunctionDef} (found : m.units[unit]? = some u)
    (held : u.sites.functions[id]? = some used)
    (definition : (used.take u.registry).definition = .ok f) :
    m.makeFunction unit id =
      match (m.keepRecord unit id (used.take u.registry)).compile f with
      | .error e => (.error (.compile e), m.keepRecord unit id (used.take u.registry))
      | .ok (made, m') => (.ok (.object made), m') := by
  generalize taken_eq : used.take u.registry = taken at definition
  -- Between these two steps the record is in neither place, so the machine is not sound there.
  let keep : SiteTable → SiteTable := fun t =>
    { t with functions := t.functions.setIfInBounds id taken.site }
  let emptied : Machine := { m.log? taken.event with
    units := (m.log? taken.event).units.modify unit fun u => { u with registry := taken.registry } }
  have both : emptied.modifySites unit keep = m.keepRecord unit id taken := by
    simp only [emptied, modifySites, modify_twice, keepRecord]
    rfl
  have inside : unit < emptied.units.size := by
    obtain ⟨inside, _⟩ := Array.getElem?_eq_some_iff.mp found
    simpa [emptied] using inside
  have order := compile_modifySites emptied f inside keep
  rw [both] at order
  have ends : m.makeFunction unit id = (match emptied.compile f with
      | .error e => (.error (.compile e), emptied.modifySites unit keep)
      | .ok (made, m') => (.ok (.object made), m'.modifySites unit keep)) := by
    simp only [Machine.makeFunction, materializeAt, found, held, Option.map_some, Option.bind_some,
      Option.getD_some, taken_eq, definition]
    cases emptied.compile f <;> rfl
  rw [ends, order, both]
  cases emptied.compile f <;> rfl

/-- Evaluating a literal makes a function of its definition every time, or fails in the same way
every time. -/
theorem Sound.makeFunction {m : Machine} (sound : m.Sound) {unit : UnitId} {fresh : CompiledUnit}
    (holds : m.Holds unit fresh) {id : Nat} {f : FunctionDef}
    (recorded : fresh.registry.records.lookup id = some f) :
    m.Agrees (some (m.makeFunction unit id)) (some (m.observe.makeFunction f)) := by
  obtain ⟨u, found, tracks⟩ := sound.tracks holds
  obtain ⟨used, held, -⟩ := tracks.functions id f recorded
  obtain ⟨definition, learns⟩ := tracks.keepRecord recorded held
  rw [makeFunction_eq found held definition]
  generalize used.take u.registry = taken at learns
  have leads : m.Leads (m.keepRecord unit id taken) :=
    sound.leads_modify (f := (·.keepRecord id taken)) (by simp [keepRecord])
      (by simpa [keepRecord] using Heap.Grows.refl) (by simp [keepRecord]) holds found
      (by simpa [keepRecord] using learns)
  have same : (m.keepRecord unit id taken).observe = m.observe := by
    rw [← observe_log? m taken.event]
    exact observe_modify _ unit fun _ => rfl
  rw [← same]
  rcases leads.sound.compile f with ⟨e, failed, failed'⟩ | ⟨made, m', done, done', further⟩
  · simp only [failed, World.makeFunction, failed']
    exact .ends leads
  · simp only [done, World.makeFunction, done']
    exact .ends (leads.trans further)

end Machine

end ScriptEngine
