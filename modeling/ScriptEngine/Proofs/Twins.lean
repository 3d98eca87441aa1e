import ScriptEngine.Proofs.History
import ScriptEngine.Proofs.Replacement

/-!
# Runs that differ in a literal

Take a run, and a second one that begins on a machine in some of whose units a literal has been replaced.
As long as the first run does not evaluate that literal, the second one does the same: it ends in the same
way, on a machine that differs in the same literal and in nothing else. The units in which the literal
stands are those that were made from the literals around it, and their number may grow on the way.
-/

namespace ScriptEngine

section
variable (new : Lambda)

/-- The machine after the replacement; in each unit the literal has a place of its own. -/
def Machine.altered (places : UnitId → Place) (m : Machine) : Machine :=
  { m with units := m.units.mapIdx fun k u => u.altered new (places k) }

end

theorem mapIdx_modify {α β : Type} (xs : Array α) (φ : Nat → α → β) (i : Nat) {f : α → α}
    {f' : β → β} (same : ∀ x, f' (φ i x) = φ i (f x)) :
    (xs.mapIdx φ).modify i f' = (xs.modify i f).mapIdx φ := by
  apply Array.ext_getElem?
  intro j
  simp only [Array.getElem?_modify, Array.getElem?_mapIdx]
  by_cases here : i = j
  · subst j
    cases xs[i]? <;> simp [same]
  · simp [here]

namespace CompiledUnit

variable {new : Lambda} {place : Place} (u : CompiledUnit)

@[simp] theorem altered_name : (u.altered new place).name = u.name := rfl

@[simp] theorem altered_scope : (u.altered new place).scope = u.scope := rfl

/-- The parameters of the function itself stay. -/
theorem altered_arity (inside : place ≠ some []) : (u.altered new place).arity = u.arity := by
  match place with
  | none => rfl
  | some [] => exact absurd rfl inside
  | some (i :: path) => rfl

end CompiledUnit

theorem Registry.lookup_altered (g : Nat → Lambda → Lambda) (r : Registry) (id : Nat) :
    (r.altered g).records.lookup id = (r.records.lookup id).map (·.onLambda (g id)) := by
  rw [altered]
  induction r.records with
  | nil => rfl
  | cons record rest ih =>
    obtain ⟨number, f⟩ := record
    by_cases same : id = number
    · subst id
      simp
    · have apart : (id == number) = false := by simpa using same
      simp [List.lookup_cons, apart, ih]

/-- A site takes the changed literal where it would have taken the literal. -/
theorem FunctionSite.take_altered (g : Nat → Lambda → Lambda) (s : FunctionSite) (r : Registry) :
    (s.altered g).take (r.altered g) = {
      definition := (s.take r).definition.map (·.onLambda (g s.id))
      site := (s.take r).site.altered g
      registry := (s.take r).registry.altered g
      event := (s.take r).event } := by
  cases kept : s.kept with
  | some f => simp [take, altered, kept, Except.map]
  | none =>
    have lookup := r.lookup_altered g s.id
    cases found : r.records.lookup s.id with
    | none =>
      rw [found] at lookup
      simp [take, altered, kept, Registry.consume, lookup, found, Except.map]
    | some f =>
      rw [found] at lookup
      simp only [take, altered, kept, Option.map_none, Registry.consume, lookup, found,
        Option.map_some, Except.map]
      simp [Registry.altered, List.filter_map, Function.comp_def]

/-- The literals of a unit have the numbers of their sites. -/
def CompiledUnit.SitesNumbered (u : CompiledUnit) : Prop :=
  ∀ (i : Nat) s, u.sites.functions[i]? = some s → s.id = i

theorem FunctionDef.compile_sitesNumbered {f : FunctionDef} {cacheDepth : Nat} {u : CompiledUnit}
    (done : f.compile cacheDepth = .ok u) : u.SitesNumbered := by
  obtain ⟨-, -, fresh, -⟩ := compile_ok done
  intro i s found
  obtain ⟨inside, -⟩ := Array.getElem?_eq_some_iff.mp found
  have unused := fresh.functions i (by rw [← fresh.size]; exact inside)
  cases found.symm.trans unused
  rfl

theorem FunctionSite.take_id (s : FunctionSite) (r : Registry) : (s.take r).site.id = s.id := by
  cases kept : s.kept with
  | some f => simp [take, kept]
  | none => cases found : r.records.lookup s.id <;> simp [take, kept, Registry.consume, found]

namespace Machine

variable {new : Lambda} {places : UnitId → Place} (m : Machine)

@[simp] theorem altered_heap : (m.altered new places).heap = m.heap := rfl

@[simp] theorem altered_sink : (m.altered new places).sink = m.sink := rfl

@[simp] theorem altered_cacheDepth : (m.altered new places).cacheDepth = m.cacheDepth := rfl

theorem altered_nowhere : m.altered new (fun _ => none) = m := by
  have units : m.units.mapIdx (fun _ u => u.altered new none) = m.units := by
    apply Array.ext_getElem?
    intro k
    simp
  rw [altered, units]

theorem altered_unit (k : UnitId) :
    (m.altered new places).units[k]? = (m.units[k]?).map (·.altered new (places k)) :=
  Array.getElem?_mapIdx

theorem altered_log? (event : Option Event) :
    (m.altered new places).log? event = (m.log? event).altered new places := by
  cases event <;> rfl

/-- A change of the sites that does not look at function literals. -/
theorem altered_modifySites (unit : UnitId) {f : SiteTable → SiteTable}
    (same : ∀ t g, f (t.altered g) = (f t).altered g) :
    (m.altered new places).modifySites unit f = (m.modifySites unit f).altered new places := by
  have units : (m.altered new places).units.modify unit (fun u => { u with sites := f u.sites }) =
      (m.units.modify unit fun u => { u with sites := f u.sites }).mapIdx
        fun k u => u.altered new (places k) :=
    mapIdx_modify _ _ _ fun u => by simp only [CompiledUnit.altered, same]
  rw [modifySites, units]
  rfl

theorem altered_globalOf (unit : UnitId) : (m.altered new places).globalOf unit = m.globalOf unit := by
  rw [globalOf, globalOf, altered_unit, Option.map_map]
  rfl

/-- Other sites than those of literals stay. -/
theorem altered_site {σ : Type} (unit : UnitId) (read : SiteTable → Option σ)
    (same : ∀ t g, read (t.altered g) = read t) :
    ((m.altered new places).units[unit]?).bind (fun u => read u.sites) =
      (m.units[unit]?).bind fun u => read u.sites := by
  rw [altered_unit]
  cases m.units[unit]? <;> simp [CompiledUnit.altered, same]

theorem altered_lookupGlobal (unit : UnitId) (site : Nat) (name : String) :
    (m.altered new places).lookupGlobal unit site name =
      ((m.lookupGlobal unit site name).1,
        (m.lookupGlobal unit site name).2.altered new places) := by
  have held : ((m.altered new places).units[unit]?).bind (·.sites.lookups[site]?) =
      (m.units[unit]?).bind (·.sites.lookups[site]?) :=
    m.altered_site unit (·.lookups[site]?) fun t g => rfl
  simp only [lookupGlobal, altered_globalOf, held, lookupAt_eq, altered_heap, altered_log?]
  rw [altered_modifySites]
  exact fun t g => rfl

theorem altered_registerGlobal (unit : UnitId) (site : Nat) (name : String) (v : Value) :
    (m.altered new places).registerGlobal unit site name v =
      (m.registerGlobal unit site name v).altered new places := by
  have held : ((m.altered new places).units[unit]?).bind (·.sites.registrations[site]?) =
      (m.units[unit]?).bind (·.sites.registrations[site]?) :=
    m.altered_site unit (·.registrations[site]?) fun t g => rfl
  simp only [registerGlobal, altered_globalOf, held, registerAt_eq, altered_heap, altered_log?]
  rw [← altered_modifySites]
  · rfl
  · exact fun t g => rfl

theorem altered_dispatchCall (unit : UnitId) (site argCount : Nat) (callee : Value) :
    (m.altered new places).dispatchCall unit site argCount callee =
      ((m.dispatchCall unit site argCount callee).1,
        (m.dispatchCall unit site argCount callee).2.altered new places) := by
  have held : ((m.altered new places).units[unit]?).bind (·.sites.calls[site]?) =
      (m.units[unit]?).bind (·.sites.calls[site]?) :=
    m.altered_site unit (·.calls[site]?) fun t g => rfl
  simp only [dispatchCall, held, dispatchAt, altered_heap, altered_cacheDepth]
  cases (((m.units[unit]?).bind (·.sites.calls[site]?)).getD
      { argCount, maxDepth := m.cacheDepth }).dispatch m.heap callee with
  | error e => exact congrArg _ (m.altered_modifySites unit fun t g => rfl)
  | ok d =>
    simp only [altered_log?]
    exact congrArg _ ((m.log? d.event).altered_modifySites unit fun t g => rfl)

/-- Compiling on the changed machine a function with the literal replaced in it. -/
theorem altered_compile (f : FunctionDef) {place : Place} (inside : place ≠ some []) :
    (m.altered new places).compile (f.onLambda (place.replace new)) =
      (m.compile f).map fun r => (r.1, r.2.altered new (Function.update places m.units.size place)) := by
  have compiled := f.compile_replace new m.cacheDepth inside
  cases done : f.compile m.cacheDepth with
  | error e =>
    rw [done] at compiled
    simp [Machine.compile, altered_cacheDepth, compiled, done, bind, Except.bind, Except.map]
  | ok u =>
    rw [done] at compiled
    have pushed : (m.altered new places).units.push (u.altered new place) =
        (m.units.push u).mapIdx
          fun k u => u.altered new (Function.update places m.units.size place k) := by
      apply Array.ext_getElem?
      intro k
      rw [Array.getElem?_push, altered_unit, Array.getElem?_mapIdx, Array.getElem?_push]
      by_cases last : k = m.units.size
      · subst k
        simp [altered]
      · simp [altered, last]
    have sites : (u.altered new place).sites.size = u.sites.size := by
      simp [CompiledUnit.altered, SiteTable.altered, SiteTable.size]
    have constants : (u.altered new place).sites.constants = u.sites.constants := rfl
    have count : (m.altered new places).units.size = m.units.size := Array.size_mapIdx
    simp only [Machine.compile, altered_cacheDepth, compiled, done, bind, Except.bind, Except.map,
      pure, Except.pure, CompiledUnit.altered_name, CompiledUnit.altered_scope,
      u.altered_arity inside, sites, constants, log, altered_heap, count, pushed]
    rfl

/-- A site keeps the changed literal where it would have kept the literal. -/
theorem altered_keepSite (unit : UnitId) (id : Nat) (s : FunctionSite) :
    (m.altered new places).modifySites unit (fun t => { t with
        functions := t.functions.setIfInBounds id
          (s.altered fun i => Place.replace new ((places unit).below i)) }) =
      (m.modifySites unit fun t =>
        { t with functions := t.functions.setIfInBounds id s }).altered new places := by
  have units : (m.altered new places).units.modify unit (fun u => { u with sites := { u.sites with
        functions := u.sites.functions.setIfInBounds id
          (s.altered fun i => Place.replace new ((places unit).below i)) } }) =
      (m.units.modify unit fun u => { u with sites := { u.sites with
        functions := u.sites.functions.setIfInBounds id s } }).mapIdx
        fun k u => u.altered new (places k) :=
    mapIdx_modify _ _ _ fun u => by
      simp [CompiledUnit.altered, SiteTable.altered, Array.map_setIfInBounds]
  rw [modifySites, units]
  rfl

end Machine

/-- In the acts, whenever a literal is evaluated in a unit and `S` has a place inside it, then the place
is a literal further inside, and `S` has its place in the unit that is made. So the literal in question
is never evaluated itself. -/
def Spares (acts : List Act) (S : UnitId → List Nat → Prop) : Prop :=
  ∀ unit i path registration m, S unit (i :: path) → .visit unit (.function i registration) m ∈ acts →
    path ≠ [] ∧ ∀ v, (m.makeFunction unit i).1 = .ok v → S m.units.size path

/-- The places belong to units of the machine in which, according to `S`, the literal stands. -/
def Machine.Fits (S : UnitId → List Nat → Prop) (places : UnitId → Place) (m : Machine) : Prop :=
  ∀ k u, m.units[k]? = some u → ∀ path, places k = some path →
    path ≠ [] ∧ S k path ∧ u.SitesNumbered

namespace Machine

variable {S : UnitId → List Nat → Prop} {places : UnitId → Place} {m m' : Machine}

theorem Fits.modify (fits : m.Fits S places) {unit : UnitId} {f : CompiledUnit → CompiledUnit}
    (units : m'.units = m.units.modify unit f)
    (numbered : ∀ u path, places unit = some path → u.SitesNumbered → (f u).SitesNumbered) :
    m'.Fits S places := by
  intro k u found path place
  rw [units, Array.getElem?_modify] at found
  split at found
  · rename_i here
    subst k
    obtain ⟨before, found', rfl⟩ := Option.map_eq_some_iff.mp found
    obtain ⟨inside, stands, lined⟩ := fits unit before found' path place
    exact ⟨inside, stands, numbered before path place lined⟩
  · exact fits k u found path place

theorem Fits.same (fits : m.Fits S places) (units : m'.units = m.units) : m'.Fits S places := by
  intro k u found
  rw [units] at found
  exact fits k u found

theorem Fits.push (fits : m.Fits S places) {u : CompiledUnit} (units : m'.units = m.units.push u)
    {place : Place} (stands : ∀ path, place = some path → path ≠ [] ∧ S m.units.size path)
    (numbered : u.SitesNumbered) : m'.Fits S (Function.update places m.units.size place) := by
  intro k u' found path here
  rw [units, Array.getElem?_push] at found
  split at found
  · rename_i last
    subst k
    obtain rfl : u = u' := Option.some.inj found
    rw [Function.update_self] at here
    obtain ⟨inside, there⟩ := stands path here
    exact ⟨inside, there, numbered⟩
  · rename_i other
    rw [Function.update_of_ne other] at here
    exact fits k u' found path here

end Machine

namespace Machine

/-- What the site of a literal takes. -/
def taken (m : Machine) (unit : UnitId) (id : Nat) : Taken :=
  (((m.units[unit]?).bind (·.sites.functions[id]?)).getD { id }).take
    (((m.units[unit]?).map (·.registry)).getD {})

/-- The machine when a literal is off the record, and its site does not keep it yet. -/
def emptied (m : Machine) (unit : UnitId) (t : Taken) : Machine :=
  { m.log? t.event with
    units := (m.log? t.event).units.modify unit fun u => { u with registry := t.registry } }

def keepSite (m : Machine) (unit : UnitId) (id : Nat) (site : FunctionSite) : Machine :=
  m.modifySites unit fun t => { t with functions := t.functions.setIfInBounds id site }

variable {m m' : Machine} {unit : UnitId} {id : Nat}

theorem makeFunction_failed {e : CompileError}
    (failed : (m.taken unit id).definition.bind (m.emptied unit (m.taken unit id)).compile = .error e) :
    m.makeFunction unit id = (.error (.compile e),
      (m.emptied unit (m.taken unit id)).keepSite unit id (m.taken unit id).site) := by
  cases definition : (m.taken unit id).definition with
  | error e' =>
    rw [definition] at failed
    cases failed
    simp only [taken] at definition
    simp only [makeFunction, materializeAt, definition]
    rfl
  | ok f =>
    rw [definition] at failed
    have failed : (m.emptied unit (m.taken unit id)).compile f = .error e := failed
    simp only [taken, emptied] at definition failed
    simp only [makeFunction, materializeAt, definition, failed]
    rfl

theorem makeFunction_done {made : ObjectId}
    (done : (m.taken unit id).definition.bind (m.emptied unit (m.taken unit id)).compile =
      .ok (made, m')) :
    m.makeFunction unit id = (.ok (.object made), m'.keepSite unit id (m.taken unit id).site) := by
  cases definition : (m.taken unit id).definition with
  | error e =>
    rw [definition] at done
    cases done
  | ok f =>
    rw [definition] at done
    have done : (m.emptied unit (m.taken unit id)).compile f = .ok (made, m') := done
    simp only [taken, emptied] at definition done
    simp only [makeFunction, materializeAt, definition, done]
    rfl

/-- The site of a literal with its number. -/
theorem site_id (numbered : ∀ s, (m.units[unit]?).bind (·.sites.functions[id]?) = some s → s.id = id) :
    (((m.units[unit]?).bind (·.sites.functions[id]?)).getD { id }).id = id := by
  cases found : (m.units[unit]?).bind (·.sites.functions[id]?) with
  | none => rfl
  | some s => exact numbered s found

section
variable {new : Lambda} {places : UnitId → Place} {S : UnitId → List Nat → Prop}

theorem altered_taken (numbered : ∀ path, places unit = some path → ∀ s,
      (m.units[unit]?).bind (·.sites.functions[id]?) = some s → s.id = id) :
    (m.altered new places).taken unit id = {
      definition := (m.taken unit id).definition.map
        (·.onLambda (Place.replace new ((places unit).below id)))
      site := (m.taken unit id).site.altered fun i => Place.replace new ((places unit).below i)
      registry := (m.taken unit id).registry.altered
        fun i => Place.replace new ((places unit).below i)
      event := (m.taken unit id).event } := by
  let g : Nat → Lambda → Lambda := fun i => Place.replace new ((places unit).below i)
  let s := ((m.units[unit]?).bind (·.sites.functions[id]?)).getD { id }
  have site : (((m.altered new places).units[unit]?).bind (·.sites.functions[id]?)).getD { id } =
      s.altered g := by
    simp only [altered_unit, s]
    cases m.units[unit]? with
    | none => rfl
    | some u =>
      simp only [Option.map_some, Option.bind_some, CompiledUnit.altered, SiteTable.altered,
        Array.getElem?_map]
      cases u.sites.functions[id]? <;> rfl
  have registry : (((m.altered new places).units[unit]?).map (·.registry)).getD {} =
      Registry.altered g (((m.units[unit]?).map (·.registry)).getD {}) := by
    rw [altered_unit]
    cases m.units[unit]? <;> rfl
  have number : g s.id = Place.replace new ((places unit).below id) := by
    cases place : places unit with
    | none => simp only [g, place, Place.below]
    | some path =>
      have same : s.id = id := site_id (numbered path place)
      simp only [g, same, place]
  rw [taken, site, registry, FunctionSite.take_altered, number]
  rfl

theorem altered_emptied {t t' : Taken} (events : t'.event = t.event) (records : t'.registry =
      t.registry.altered fun i => Place.replace new ((places unit).below i)) :
    (m.altered new places).emptied unit t' = (m.emptied unit t).altered new places := by
  have units : ((m.log? t.event).altered new places).units.modify unit
        (fun u => { u with registry := t'.registry }) =
      ((m.log? t.event).units.modify unit fun u => { u with registry := t.registry }).mapIdx
        fun k u => u.altered new (places k) :=
    mapIdx_modify _ _ _ fun u => by rw [records]; rfl
  rw [emptied, events, altered_log?, units]
  rfl

theorem Fits.emptied (fits : m.Fits S places) (t : Taken) :
    (m.emptied unit t).Fits S places := by
  have units : (m.emptied unit t).units =
      m.units.modify unit fun u => { u with registry := t.registry } := by
    rw [Machine.emptied, log?_units]
  exact fits.modify units fun u path place numbered => numbered

theorem Fits.keepSite (fits : m.Fits S places) {site : FunctionSite}
    (number : ∀ path, places unit = some path → site.id = id) :
    (m.keepSite unit id site).Fits S places := by
  have units : (m.keepSite unit id site).units = m.units.modify unit fun u => { u with
      sites := { u.sites with functions := u.sites.functions.setIfInBounds id site } } := rfl
  refine fits.modify units fun u path place numbered i s found => ?_
  rw [Array.getElem?_setIfInBounds] at found
  split at found
  · rename_i here
    subst i
    split at found
    · cases found
      exact number path place
    · cases found
  · exact numbered i s found

theorem Fits.compile (fits : m.Fits S places) {f : FunctionDef}
    {object : ObjectId} (done : m.compile f = .ok (object, m')) {place : Place}
    (stands : ∀ path, place = some path → path ≠ [] ∧ S m.units.size path) :
    m'.Fits S (Function.update places m.units.size place) := by
  obtain ⟨fresh, event, compiled, rfl, rfl⟩ := compile_inv done
  exact fits.push rfl stands (FunctionDef.compile_sitesNumbered compiled)

/-- The place inside a literal that is evaluated. -/
theorem Fits.below {acts : List Act} (fits : m.Fits S places)
    (spares : Spares acts S) {registration : Option (String × Nat)}
    (visited : .visit unit (.function id registration) m ∈ acts) {u : CompiledUnit}
    (found : m.units[unit]? = some u) {path : List Nat}
    (place : (places unit).below id = some path) :
    path ≠ [] ∧ ∀ v, (m.makeFunction unit id).1 = .ok v → S m.units.size path := by
  have whole : places unit = some (id :: path) := by
    unfold Place.below at place
    split at place
    · rename_i j rest same
      split at place
      · rename_i here
        rw [same, here, Option.some.inj place]
      · cases place
    · cases place
  obtain ⟨-, stands, -⟩ := fits unit u found _ whole
  exact spares unit id path registration m stands visited

/-- The sites of literals have their numbers in the units where the literal in question stands. -/
theorem Fits.numbered (fits : m.Fits S places) : ∀ path, places unit = some path → ∀ s,
    (m.units[unit]?).bind (·.sites.functions[id]?) = some s → s.id = id := by
  intro path place s held
  obtain ⟨u, found, held'⟩ := Option.bind_eq_some_iff.mp held
  exact (fits unit u found path place).2.2 id s held'

theorem Fits.taken_id (fits : m.Fits S places) :
    ∀ path, places unit = some path → (m.taken unit id).site.id = id := by
  intro path place
  rw [taken, FunctionSite.take_id]
  exact site_id (fits.numbered path place)

theorem Fits.altered_emptied_taken (fits : m.Fits S places) :
    (m.altered new places).emptied unit ((m.altered new places).taken unit id) =
      (m.emptied unit (m.taken unit id)).altered new places :=
  altered_emptied (by rw [altered_taken fits.numbered]) (by rw [altered_taken fits.numbered])

/-- Without a new unit the places stay. -/
theorem Fits.makeFunction_failed (fits : m.Fits S places) {e : CompileError}
    (failed : (m.taken unit id).definition.bind (m.emptied unit (m.taken unit id)).compile = .error e)
    (failed' : ((m.altered new places).taken unit id).definition.bind
      ((m.altered new places).emptied unit ((m.altered new places).taken unit id)).compile =
        .error e) :
    (m.altered new places).makeFunction unit id =
        ((m.makeFunction unit id).1, (m.makeFunction unit id).2.altered new places) ∧
      (m.makeFunction unit id).2.Fits S places := by
  rw [Machine.makeFunction_failed failed, Machine.makeFunction_failed failed',
    fits.altered_emptied_taken, altered_taken fits.numbered]
  exact ⟨congrArg _ (altered_keepSite _ unit id _), (fits.emptied _).keepSite fits.taken_id⟩

/-- With a new unit its place is the one below. -/
theorem Fits.makeFunction_done (fits : m.Fits S places) {u : CompiledUnit}
    (found : m.units[unit]? = some u) {f : FunctionDef}
    (definition : (m.taken unit id).definition = .ok f) {made : ObjectId}
    (done : (m.emptied unit (m.taken unit id)).compile f = .ok (made, m'))
    (inner : ∀ path, (places unit).below id = some path → path ≠ [] ∧ S m.units.size path) :
    ∃ places', (m.altered new places).makeFunction unit id =
        ((m.makeFunction unit id).1, (m.makeFunction unit id).2.altered new places') ∧
      (m.makeFunction unit id).2.Fits S places' := by
  have size : (m.emptied unit (m.taken unit id)).units.size = m.units.size := by
    simp [Machine.emptied]
  have compiles : ((m.emptied unit (m.taken unit id)).altered new places).compile
      (f.onLambda (Place.replace new ((places unit).below id))) = _ :=
    altered_compile _ f fun whole => (inner [] whole).1 rfl
  have fits' : m'.Fits S (Function.update places m.units.size ((places unit).below id)) := by
    rw [← size] at inner ⊢
    exact (fits.emptied _).compile done inner
  rw [done, size] at compiles
  have finished := Machine.makeFunction_done (show (m.taken unit id).definition.bind _ = _ by
    rw [definition]; exact done)
  have finished' : (m.altered new places).makeFunction unit id = _ :=
    Machine.makeFunction_done (show Except.bind _ _ = _ by
      rw [fits.altered_emptied_taken, altered_taken fits.numbered, definition]; exact compiles)
  -- the unit of the literal itself is an old one
  obtain ⟨inUnits, -⟩ := Array.getElem?_eq_some_iff.mp found
  have stays : Function.update places m.units.size ((places unit).below id) unit = places unit :=
    Function.update_of_ne (Nat.ne_of_lt inUnits) _ _
  generalize Function.update places m.units.size ((places unit).below id) = places' at *
  refine ⟨places', ?_, ?_⟩
  · rw [finished, finished', altered_taken fits.numbered, ← stays]
    exact congrArg _ (m'.altered_keepSite unit id _)
  · rw [finished]
    exact fits'.keepSite fun path place => fits.taken_id path (stays ▸ place)

/-- A literal that is not the one in question is evaluated on the changed machine as on the machine. -/
theorem Fits.makeFunction {acts : List Act} (fits : m.Fits S places) (spares : Spares acts S)
    {registration : Option (String × Nat)}
    (visited : .visit unit (.function id registration) m ∈ acts) :
    ∃ places', (m.altered new places).makeFunction unit id =
        ((m.makeFunction unit id).1, (m.makeFunction unit id).2.altered new places') ∧
      (m.makeFunction unit id).2.Fits S places' := by
  have takes : (m.altered new places).taken unit id = _ := altered_taken fits.numbered
  cases definition : (m.taken unit id).definition with
  | error e =>
    exact ⟨places, fits.makeFunction_failed (e := e) (by rw [definition]; rfl)
      (by rw [takes, definition]; rfl)⟩
  | ok f =>
    obtain ⟨u, found⟩ : ∃ u, m.units[unit]? = some u := by
      cases found : m.units[unit]? with
      | some u => exact ⟨u, rfl⟩
      | none =>
        simp only [taken, found, Option.bind_none, Option.getD_none, Option.map_none,
          FunctionSite.take, Registry.consume, List.lookup_nil, reduceCtorEq] at definition
    have inner : ∀ path, (places unit).below id = some path →
        path ≠ [] ∧ ∀ v, (m.makeFunction unit id).1 = .ok v → S m.units.size path :=
      fun path => fits.below spares visited found
    cases done : (m.emptied unit (m.taken unit id)).compile f with
    | error e =>
      have compiles : ((m.emptied unit (m.taken unit id)).altered new places).compile
          (f.onLambda (Place.replace new ((places unit).below id))) = _ :=
        altered_compile _ f fun whole => (inner [] whole).1 rfl
      rw [done] at compiles
      refine ⟨places, fits.makeFunction_failed (e := e) (by rw [definition]; exact done) ?_⟩
      rw [fits.altered_emptied_taken, takes, definition]
      exact compiles
    | ok made =>
      obtain ⟨object, m₂⟩ := made
      have finished := Machine.makeFunction_done (show (m.taken unit id).definition.bind _ = _ by
        rw [definition]; exact done)
      exact fits.makeFunction_done found definition done fun path place =>
        ⟨(inner path place).1, (inner path place).2 _ (by rw [finished])⟩

end

end Machine

section
variable (new : Lambda) (acts : List Act) (S : UnitId → List Nat → Prop)

/-- How two runs end: without a result, or with the same one on machines that differ in the literal. -/
inductive Alike {α : Type} : Option (α × Machine) → Option (α × Machine) → Prop
  | stuck : Alike none none
  | ends {a : α} {m : Machine} {places : UnitId → Place} (fits : m.Fits S places) :
      Alike (some (a, m)) (some (a, m.altered new places))

/-- What `r` does is the same with the literal replaced, if its acts are among `acts`. -/
def Steady {α : Type} (r : Machine → Option (α × Machine)) (account : Machine → List Act) : Prop :=
  ∀ m places, m.Fits S places → (∀ act ∈ account m, act ∈ acts) →
    Alike new S (r m) (r (m.altered new places))

def EnterSteady (enter : Enter) (inner : EnterAccount) : Prop :=
  ∀ target receiver args, Steady new acts S (enter target receiver args) (inner target receiver args)

end

section
variable {new : Lambda} {acts : List Act} {S : UnitId → List Nat → Prop} {α β : Type}

theorem Alike.mapResult {r r' : Option (α × Machine)} (alike : Alike new S r r') (f : α → β) :
    Alike new S (r.map fun x => (f x.1, x.2)) (r'.map fun x => (f x.1, x.2)) := by
  cases alike with
  | stuck => exact .stuck
  | ends fits => exact .ends fits

theorem Steady.mono {r : Machine → Option (α × Machine)} {account account' : Machine → List Act}
    (steady : Steady new acts S r account) (fewer : ∀ m, account m ⊆ account' m) :
    Steady new acts S r account' :=
  fun m places fits inside => steady m places fits fun act mem => inside act (fewer m mem)

theorem steady_pure (a : α) (locals : List Value) :
    Steady new acts S ((pure a : Exec α) locals) (Account.silent locals) :=
  fun _ _ fits _ => .ends fits

theorem steady_leave (v : Value) (locals : List Value) :
    Steady new acts S ((Exec.leave v : Exec α) locals) (Account.silent locals) :=
  fun _ _ fits _ => .ends fits

theorem steady_load (slot : Nat) (locals : List Value) :
    Steady new acts S (Exec.load slot locals) (Account.silent locals) :=
  fun _ _ fits _ => .ends fits

theorem steady_store (slot : Nat) (v : Value) (locals : List Value) :
    Steady new acts S (Exec.store slot v locals) (Account.silent locals) :=
  fun _ _ fits _ => .ends fits

theorem steady_bind {x : Exec α} {f : α → Exec β} {first : Account} {rest : α → Account}
    {locals : List Value} (left : Steady new acts S (x locals) (first locals))
    (right : ∀ a locals, Steady new acts S (f a locals) (rest a locals)) :
    Steady new acts S ((x >>= f) locals) (first.andThen x rest locals) := by
  intro m places fits inside
  change Alike new S (Exec.bind x f locals m) (Exec.bind x f locals (m.altered new places))
  have before := left m places fits fun act mem => inside act (List.mem_append_left _ mem)
  cases ran : x locals m with
  | none =>
    rw [ran] at before
    generalize ran' : x locals (m.altered new places) = r' at before
    cases before
    simp only [Exec.bind, ran, ran']
    exact .stuck
  | some result =>
    rw [ran] at before
    generalize ran' : x locals (m.altered new places) = r' at before
    obtain - | @⟨flow, m₁, places₁, fits₁⟩ := before
    cases flow with
    | next a locals₁ =>
      rw [Account.andThen_of_next ran] at inside
      simp only [Exec.bind, ran, ran']
      exact right a locals₁ m₁ places₁ fits₁ fun act mem => inside act (List.mem_append_right _ mem)
    | returned v =>
      simp only [Exec.bind, ran, ran']
      exact .ends fits₁
    | aborted =>
      simp only [Exec.bind, ran, ran']
      exact .ends fits₁

/-- No act happens after `x`. -/
theorem steady_then {x : Exec α} {f : α → Exec β} {account : Machine → List Act}
    {locals : List Value} (left : Steady new acts S (x locals) account)
    (right : ∀ a locals, Steady new acts S (f a locals) (Account.silent locals)) :
    Steady new acts S ((x >>= f) locals) account := by
  have both : Steady new acts S ((x >>= f) locals)
      (Account.andThen (fun _ => account) x (fun _ => .silent) locals) := steady_bind left right
  refine both.mono fun m => ?_
  rw [Account.andThen]
  split <;> simp [Account.silent]

theorem steady_visiting {r : Machine → Option (α × Machine)} {account : Account} {unit : UnitId}
    {code : Code} {locals : List Value} (steady : Steady new acts S r (account locals)) :
    Steady new acts S r (Account.visiting unit code account locals) :=
  steady.mono fun _ => List.subset_cons_self _ _

theorem steady_fetch {f : Machine → Value × Machine}
    (works : ∀ m places, m.Fits S places →
      f (m.altered new places) = ((f m).1, (f m).2.altered new places) ∧ (f m).2.Fits S places)
    (locals : List Value) :
    Steady new acts S (Exec.fetch f locals) (Account.silent locals) := by
  intro m places fits _
  obtain ⟨same, fits'⟩ := works m places fits
  simp only [Exec.fetch, same]
  exact .ends (m := (f m).2.root (f m).1) (fits'.same rfl)

theorem steady_act {f : Machine → Machine}
    (works : ∀ m places, m.Fits S places →
      f (m.altered new places) = (f m).altered new places ∧ (f m).Fits S places)
    (locals : List Value) : Steady new acts S (Exec.act f locals) (Account.silent locals) := by
  intro m places fits _
  obtain ⟨same, fits'⟩ := works m places fits
  simp only [Exec.act, same]
  exact .ends fits'

theorem steady_attempt {r : Run (Except RuntimeError Value)} {account : Machine → List Act}
    (steady : Steady new acts S r account) (locals : List Value) :
    Steady new acts S (Exec.attempt r locals) account := by
  intro m places fits inside
  have tried := steady m places fits inside
  simp only [Exec.attempt]
  generalize r m = result, r (m.altered new places) = result' at tried
  obtain - | @⟨outcome, m', places', fits'⟩ := tried
  · exact .stuck
  · cases outcome with
    | ok v => exact .ends (m := m'.root v) (fits'.same rfl)
    | error e => exact .ends (m := m'.park e) (fits'.same rfl)

end

section
variable {new : Lambda} {acts : List Act} {S : UnitId → List Nat → Prop}

/-- A change of the sites other than those of literals. -/
theorem Machine.Fits.modifySites {places : UnitId → Place} {m m' : Machine} (fits : m.Fits S places)
    (units : m'.units = m.units) (unit : UnitId) {f : SiteTable → SiteTable}
    (same : ∀ t, (f t).functions = t.functions) : (m'.modifySites unit f).Fits S places := by
  have modified : (m'.modifySites unit f).units =
      m'.units.modify unit fun u => { u with sites := f u.sites } := rfl
  refine (fits.same units).modify modified fun u path _ numbered i s found => ?_
  rw [same] at found
  exact numbered i s found

theorem Machine.Fits.dispatchCall {places : UnitId → Place} {m : Machine} (fits : m.Fits S places)
    (unit : UnitId) (site argCount : Nat) (callee : Value) :
    (m.dispatchCall unit site argCount callee).2.Fits S places := by
  simp only [Machine.dispatchCall, dispatchAt]
  split
  · exact fits.modifySites (log?_units _ _) unit fun t => rfl
  · exact fits.modifySites rfl unit fun t => rfl

theorem steady_lookupGlobal (unit : UnitId) (site : Nat) (name : String) (locals : List Value) :
    Steady new acts S (Exec.fetch (·.lookupGlobal unit site name) locals)
      (Account.silent locals) := by
  refine steady_fetch (fun m places fits => ⟨m.altered_lookupGlobal unit site name, ?_⟩) locals
  simp only [Machine.lookupGlobal, Machine.lookupAt_eq]
  exact fits.modifySites (Machine.log?_units _ _) unit fun t => rfl

theorem steady_registerGlobal (unit : UnitId) (site : Nat) (name : String) (v : Value)
    (locals : List Value) :
    Steady new acts S (Exec.act (·.registerGlobal unit site name v) locals)
      (Account.silent locals) := by
  refine steady_act (fun m places fits => ⟨m.altered_registerGlobal unit site name v, ?_⟩) locals
  simp only [Machine.registerGlobal, Machine.registerAt_eq]
  refine fits.modifySites ?_ unit fun t => ?_
  · exact Machine.log?_units _ _
  · rfl

theorem steady_newObject (locals : List Value) :
    Steady new acts S (Exec.fetch (·.newObject) locals) (Account.silent locals) :=
  steady_fetch (fun _ _ fits => ⟨rfl, fits.same rfl⟩) locals

theorem steady_setField (site : FieldSite) (receiver v : Value) (locals : List Value) :
    Steady new acts S (Exec.attempt (fun m => some (m.setField site receiver v)) locals)
      (Account.silent locals) := by
  refine steady_attempt (fun m places fits _ => ?_) locals
  simp only [Machine.setField, Machine.altered_heap]
  cases site.set m.heap receiver v with
  | ok heap => exact .ends (m := { m with heap }) (fits.same rfl)
  | error e => exact .ends fits

/-- A literal in the units of the run, other than the one in question. -/
theorem steady_makeFunction (spares : Spares acts S) (unit : UnitId) (id : Nat)
    (registration : Option (String × Nat)) (locals : List Value) :
    Steady new acts S (Exec.attempt (fun m => some (m.makeFunction unit id)) locals)
      (Account.visiting unit (.function id registration) .silent locals) := by
  refine steady_attempt (fun m places fits inside => ?_) locals
  obtain ⟨places', same, fits'⟩ := fits.makeFunction spares (inside _ (List.mem_singleton_self _))
  rw [same]
  exact .ends fits'

end

section
variable {new : Lambda} {acts : List Act} {S : UnitId → List Nat → Prop} {enter : Enter}
  {inner : EnterAccount}

theorem invokeObject_steady (enters : EnterSteady new acts S enter inner) (id : ObjectId)
    (receiver : Value) (args : List Value) :
    Steady new acts S (invokeObject enter id receiver args) (invokeActs inner id receiver args) := by
  intro m places fits inside
  rw [invokeActs] at inside
  rw [invokeObject, invokeObject, Machine.altered_heap]
  cases found : m.heap.callable? id with
  | none => exact .ends fits
  | some target =>
    simp only [found] at inside
    dsimp only
    cases checked : target.arity.check args.length with
    | error e => exact .ends fits
    | ok _ =>
      simp only [checked] at inside
      exact enters target receiver args m places fits inside

theorem callMethod_steady (enters : EnterSteady new acts S enter inner) (site : MethodSite)
    (receiver : Value) (args : List Value) :
    Steady new acts S (callMethod enter site receiver args)
      (methodActs inner site receiver args) := by
  intro m places fits inside
  rw [methodActs] at inside
  rw [callMethod, callMethod, Machine.altered_heap]
  cases resolved : site.resolve m.heap receiver with
  | error e => exact .ends fits
  | ok method =>
    simp only [resolved] at inside
    exact invokeObject_steady enters method receiver args m places fits inside

theorem callAt_steady (enters : EnterSteady new acts S enter inner) (unit : UnitId) (site : Nat)
    (callee receiver : Value) (args : List Value) :
    Steady new acts S (callAt enter unit site callee receiver args)
      (callActs inner unit site callee receiver args) := by
  intro m places fits inside
  have fits' := fits.dispatchCall unit site args.length callee
  rw [callActs] at inside
  rw [callAt, callAt, Machine.altered_dispatchCall]
  cases found : m.dispatchCall unit site args.length callee with
  | mk target m' =>
    rw [found] at fits'
    cases target with
    | error e => exact .ends fits'
    | ok target =>
      simp only [found] at inside
      exact enters target receiver args m' places fits' fun act mem =>
        inside act (List.mem_cons_of_mem _ mem)

end

section
variable {new : Lambda} {acts : List Act} {S : UnitId → List Nat → Prop} {enter : Enter}
  {inner : EnterAccount}

mutual

/-- Every node does the same with the literal replaced. The induction is on the tree, one case for each
kind of node. -/
theorem evalCode_steady (spares : Spares acts S) (enters : EnterSteady new acts S enter inner)
    (unit : UnitId) : (code : Code) → (locals : List Value) →
    Steady new acts S (evalCode enter unit code locals) (actsCode inner enter unit code locals)
  | .int n, locals => by
    rw [evalCode, actsCode]
    exact steady_visiting (steady_pure _ _)
  | .text s, locals => by
    rw [evalCode, actsCode]
    exact steady_visiting (steady_pure _ _)
  | .load slot, locals => by
    rw [evalCode, actsCode]
    exact steady_visiting (steady_load _ _)
  | .store slot value, locals => by
    rw [evalCode, actsCode]
    exact steady_visiting (steady_then (evalCode_steady spares enters unit value locals) fun v locals =>
      steady_then (steady_store slot v locals) fun _ => steady_pure _)
  | .loadGlobal name site, locals => by
    rw [evalCode, actsCode]
    exact steady_visiting (steady_lookupGlobal unit site name locals)
  | .block body, locals => by
    rw [evalCode, actsCode]
    exact steady_visiting
      (steady_then (evalBody_steady spares enters unit body locals) fun _ => steady_pure _)
  | .ret value, locals => by
    rw [evalCode, actsCode]
    exact steady_visiting
      (steady_then (evalCode_steady spares enters unit value locals) fun v => steady_leave v)
  | .branch condition yes no, locals => by
    rw [evalCode, actsCode]
    refine steady_visiting
      (steady_bind (evalCode_steady spares enters unit condition locals) fun v locals => ?_)
    cases v.truth with
    | true => exact steady_then (evalBody_steady spares enters unit yes locals) fun _ => steady_pure _
    | false => exact steady_then (evalBody_steady spares enters unit no locals) fun _ => steady_pure _
  | .function id none, locals => by
    rw [evalCode, actsCode]
    exact steady_then (steady_makeFunction spares unit id none locals) fun _ => steady_pure _
  | .function id (some (name, site)), locals => by
    rw [evalCode, actsCode]
    exact steady_then (steady_makeFunction spares unit id _ locals) fun v locals =>
      steady_then (steady_registerGlobal unit site name v locals) fun _ => steady_pure _
  | .object entries, locals => by
    rw [evalCode, actsCode]
    exact steady_visiting (steady_bind (steady_newObject locals) fun object locals =>
      steady_then (evalEntries_steady spares enters unit object entries locals) fun _ =>
        steady_pure _)
  | .getField receiver site, locals => by
    rw [evalCode, actsCode]
    exact steady_visiting (steady_then (evalCode_steady spares enters unit receiver locals) fun v =>
      steady_attempt fun _ _ fits _ => .ends fits)
  | .setField receiver value site, locals => by
    rw [evalCode, actsCode]
    exact steady_visiting (steady_bind (evalCode_steady spares enters unit receiver locals)
      fun v locals => steady_then (evalCode_steady spares enters unit value locals) fun v' =>
        steady_setField site v v')
  | .call callee args site, locals => by
    rw [evalCode, actsCode]
    exact steady_visiting (steady_bind (evalCode_steady spares enters unit callee locals)
      fun f locals => steady_bind (evalArgs_steady spares enters unit args locals) fun vs =>
        steady_attempt (callAt_steady enters unit site f .undefined vs))
  | .method receiver args site, locals => by
    rw [evalCode, actsCode]
    exact steady_visiting (steady_bind (evalCode_steady spares enters unit receiver locals)
      fun r locals => steady_bind (evalArgs_steady spares enters unit args locals) fun vs =>
        steady_attempt (callMethod_steady enters site r vs))

theorem evalBody_steady (spares : Spares acts S) (enters : EnterSteady new acts S enter inner)
    (unit : UnitId) : (codes : List Code) → (locals : List Value) →
    Steady new acts S (evalBody enter unit codes locals) (actsBody inner enter unit codes locals)
  | [], locals => by
    rw [evalBody, actsBody]
    exact steady_pure _ _
  | c :: cs, locals => by
    rw [evalBody, actsBody]
    exact steady_bind (evalCode_steady spares enters unit c locals) fun _ =>
      evalBody_steady spares enters unit cs

theorem evalArgs_steady (spares : Spares acts S) (enters : EnterSteady new acts S enter inner)
    (unit : UnitId) : (codes : List Code) → (locals : List Value) →
    Steady new acts S (evalArgs enter unit codes locals) (actsArgs inner enter unit codes locals)
  | [], locals => by
    rw [evalArgs, actsArgs]
    exact steady_pure _ _
  | c :: cs, locals => by
    rw [evalArgs, actsArgs]
    exact steady_bind (evalCode_steady spares enters unit c locals) fun v locals =>
      steady_then (evalArgs_steady spares enters unit cs locals) fun _ => steady_pure _

theorem evalEntries_steady (spares : Spares acts S) (enters : EnterSteady new acts S enter inner)
    (unit : UnitId) (object : Value) : (entries : List (Code × FieldSite)) →
    (locals : List Value) → Steady new acts S (evalEntries enter unit object entries locals)
      (actsEntries inner enter unit object entries locals)
  | [], locals => by
    rw [evalEntries, actsEntries]
    exact steady_pure _ _
  | (c, site) :: rest, locals => by
    rw [evalEntries, actsEntries]
    exact steady_bind (evalCode_steady spares enters unit c locals) fun v locals =>
      steady_bind (steady_setField site object v locals) fun _ =>
        evalEntries_steady spares enters unit object rest

end

end

section
variable {new : Lambda} {acts : List Act} {S : UnitId → List Nat → Prop}

theorem Alike.endInvocation {r r' : Option (Flow Unit × Machine)} (alike : Alike new S r r')
    (mark : Nat) : Alike new S (endInvocation mark r) (ScriptEngine.endInvocation mark r') := by
  obtain - | @⟨flow, m, places, fits⟩ := alike
  · exact .stuck
  · cases flow with
    | next a locals => exact .ends (m := m.release mark) (fits.same rfl)
    | returned v => exact .ends (m := m.release mark) (fits.same rfl)
    | aborted => exact .ends (m := m.takeParked.2.release mark) (fits.same rfl)

theorem Machine.print_units (m : Machine) (args : List Value) : (m.print args).2.units = m.units := by
  rw [print]
  cases m.sink <;> rfl

theorem Machine.altered_print (m : Machine) {places : UnitId → Place} (args : List Value) :
    (m.altered new places).print args =
      ((m.print args).1, (m.print args).2.altered new places) := by
  rw [print, print, altered_heap, altered_sink]
  cases m.sink <;> rfl

/-- A step of a host function looks at no unit. A unit that it compiles is the same in both runs. -/
theorem perform_steady {enter : Enter} {inner : EnterAccount}
    (enters : EnterSteady new acts S enter inner) (s : HostStep) :
    Steady new acts S (s.perform enter) (actsStep inner s) := by
  intro m places fits inside
  cases s with
  | register id key v =>
    exact .ends (m := { m with heap := m.heap.register id key v }) (fits.same rfl)
  | create proto => exact .ends (m := { m with heap := (m.heap.newObject proto).2 }) (fits.same rfl)
  | print args =>
    simp only [HostStep.perform, Machine.altered_print]
    exact .ends (fits.same (m.print_units args))
  | compile f =>
    have compiles : (m.altered new places).compile f = (m.compile f).map fun r =>
        (r.1, r.2.altered new (Function.update places m.units.size none)) :=
      m.altered_compile f (show (none : Place) ≠ some [] by simp)
    simp only [HostStep.perform, compiles]
    cases done : m.compile f with
    | error e => exact .ends fits
    | ok made =>
      obtain ⟨id, m'⟩ := made
      exact .ends (fits.compile done (by simp))
  | invoke id receiver args => exact invokeObject_steady enters id receiver args m places fits inside
  | _ => exact .ends fits

theorem program_steady {enter : Enter} {inner : EnterAccount}
    (enters : EnterSteady new acts S enter inner) (p : HostProgram) :
    Steady new acts S (p.run enter) (actsProgram inner enter p) := by
  induction p with
  | done result => exact fun _ _ fits _ => .ends fits
  | step s next ih =>
    intro m places fits inside
    have alike := perform_steady enters s m places fits fun act mem =>
      inside act (by rw [actsProgram]; exact List.mem_append_left _ mem)
    cases performed : s.perform enter m with
    | none =>
      rw [performed] at alike
      generalize stuck : s.perform enter (m.altered new places) = r at alike
      cases alike
      rw [HostProgram.run_of_stuck performed, HostProgram.run_of_stuck stuck]
      exact .stuck
    | some given =>
      obtain ⟨answer, m'⟩ := given
      rw [performed] at alike
      generalize again : s.perform enter (m.altered new places) = r at alike
      cases alike with
      | ends fits' =>
        rw [actsProgram_of_performed inner performed] at inside
        rw [HostProgram.run_of_performed performed, HostProgram.run_of_performed again]
        exact ih answer m' _ fits' fun act mem => inside act (List.mem_append_right _ mem)

/-- Every invocation does the same with the literal replaced, under every bound on the calls open at
once. -/
theorem enter_steady (spares : Spares acts S) (depth : Nat) :
    EnterSteady new acts S (enter depth) (enterActs depth) := by
  induction depth with
  | zero => exact fun _ _ _ _ _ _ _ => .stuck
  | succ depth ih =>
    intro target receiver args m places fits inside
    cases target with
    | compiled unit name params =>
      rw [enterActs] at inside
      rw [enter, invokeUnit, invokeUnit, Machine.altered_unit]
      cases found : m.units[unit]? with
      | none => exact .ends fits
      | some u =>
        have arity : (u.altered new (places unit)).arity = u.arity :=
          u.altered_arity fun whole => (fits unit u found [] whole).1 rfl
        simp only [found] at inside
        simp only [Option.map_some, arity]
        split
        · exact .ends fits
        · rename_i accepted
          rw [if_neg accepted] at inside
          exact Alike.endInvocation (evalBody_steady spares ih unit u.code
            (u.initialLocals receiver args) m places fits inside) _
    | native f =>
      have alike := program_steady ih (f.body.onCall receiver args) m places fits inside
      simp only [enter, runHost]
      generalize (f.body.onCall receiver args).run (enter depth) m = r,
        (f.body.onCall receiver args).run (enter depth) (m.altered new places) = r' at alike
      obtain - | @⟨result, m', places', fits'⟩ := alike
      · exact .stuck
      · exact .ends fits'

end

end ScriptEngine
