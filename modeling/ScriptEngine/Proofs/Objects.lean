import ScriptEngine.Proofs.Heap
import ScriptEngine.Proofs.Discipline

/-!
# No object is missing

Whatever a machine mentions is on its heap: in properties and prototypes, in the sites of its units, in
the slots, arguments and results of running code. A host that names only objects it has seen keeps it
so, and no request takes an object away or changes what identifies it.
-/

namespace ScriptEngine

namespace Lowering

variable {α β : Type}

/-- Lowering with `x` keeps what holds of the emission. -/
def Preserves (P : Emission → Prop) (x : Lowering α) : Prop :=
  ∀ e a e', P e → x e = .ok (a, e') → P e'

variable {P : Emission → Prop}

theorem preserves_pure (a : α) : Preserves P (pure a) := by
  intro e b e' holds done
  obtain ⟨-, rfl⟩ := pure_ok done
  exact holds

theorem preserves_throw (err : CompileError) : Preserves P (throw err : Lowering α) := by
  intro e a e' _ done
  cases done

theorem preserves_emit {f : Emission → α × Emission} (keeps : ∀ e, P e → P (f e).2) :
    Preserves P (emit f) := by
  intro e a e' holds done
  obtain ⟨-, rfl⟩ := emit_ok done
  exact keeps e holds

theorem preserves_bind {x : Lowering α} {g : α → Lowering β} (left : Preserves P x)
    (right : ∀ a, Preserves P (g a)) : Preserves P (x >>= g) := by
  intro e b e'' holds done
  obtain ⟨a, e', first, second⟩ := bind_ok done
  exact right a e' b e'' (left e a e' holds first) second

end Lowering

/-- Every literal on record has the given global object. -/
def Emission.Shares (global : ObjectId) (e : Emission) : Prop :=
  ∀ id f, (id, f) ∈ e.registry.records → f.global = global

theorem Emission.Shares.addFunction {global : ObjectId} {e : Emission} (shares : e.Shares global)
    {f : FunctionDef} (same : f.global = global) : (e.addFunction f).2.Shares global := by
  intro id g member
  simp only [Emission.addFunction, Registry.register, List.mem_append, List.mem_singleton,
    Prod.mk.injEq] at member
  rcases member with old | ⟨-, rfl⟩
  · exact shares id g old
  · exact same

section
open Lowering

mutual

theorem lowerExpr_shares (ctx : LoweringContext) :
    (e : Expr) → Preserves (·.Shares ctx.global) (lowerExpr ctx e)
  | .block (.mk instrs _) => by
    rw [lowerExpr, lowerBlock]
    exact preserves_bind (lowerAll_shares ctx instrs) fun _ => preserves_pure _
  | .literal (.int _) _ => by
    rw [lowerExpr]
    exact preserves_pure _
  | .literal (.text _) _ => by
    rw [lowerExpr]
    exact preserves_bind (preserves_emit fun _ shares => shares) fun _ => preserves_pure _
  | .call callee args _ => by
    rw [lowerExpr]
    exact preserves_bind (lowerExpr_shares ctx callee) fun _ =>
      preserves_bind (lowerAll_shares ctx args) fun _ =>
        preserves_bind (preserves_emit fun _ shares => shares) fun _ => preserves_pure _
  | .var _ _ => by
    rw [lowerExpr]
    split
    · exact preserves_pure _
    · exact preserves_bind (preserves_emit fun _ shares => shares) fun _ => preserves_pure _
  | .assign name value _ _ => by
    rw [lowerExpr]
    refine preserves_bind (lowerExpr_shares ctx value) fun _ => ?_
    split
    · exact preserves_pure _
    · exact preserves_throw _
  | .function _ _ _ _ => by
    rw [lowerExpr]
    refine preserves_bind (preserves_emit fun _ shares => shares.addFunction rfl) fun _ => ?_
    split
    · exact preserves_bind (preserves_emit fun _ shares => shares) fun _ => preserves_pure _
    · exact preserves_pure _
  | .ret value _ => by
    rw [lowerExpr]
    exact preserves_bind (lowerExpr_shares ctx value) fun _ => preserves_pure _
  | .cond condition (.mk yes _) (.mk no _) _ => by
    rw [lowerExpr, lowerBlock, lowerBlock]
    exact preserves_bind (lowerExpr_shares ctx condition) fun _ =>
      preserves_bind (lowerAll_shares ctx yes) fun _ =>
        preserves_bind (lowerAll_shares ctx no) fun _ => preserves_pure _
  | .object entries _ => by
    rw [lowerExpr]
    exact preserves_bind (lowerEntries_shares ctx entries) fun _ => preserves_pure _
  | .field receiver _ _ => by
    rw [lowerExpr]
    exact preserves_bind (lowerExpr_shares ctx receiver) fun _ =>
      preserves_bind (preserves_emit fun _ shares => shares) fun _ => preserves_pure _
  | .setField receiver _ value _ => by
    rw [lowerExpr]
    exact preserves_bind (lowerExpr_shares ctx receiver) fun _ =>
      preserves_bind (lowerExpr_shares ctx value) fun _ =>
        preserves_bind (preserves_emit fun _ shares => shares) fun _ => preserves_pure _
  | .method receiver _ args _ => by
    rw [lowerExpr]
    exact preserves_bind (lowerExpr_shares ctx receiver) fun _ =>
      preserves_bind (lowerAll_shares ctx args) fun _ =>
        preserves_bind (preserves_emit fun _ shares => shares) fun _ => preserves_pure _

theorem lowerAll_shares (ctx : LoweringContext) :
    (es : List Expr) → Preserves (·.Shares ctx.global) (lowerAll ctx es)
  | [] => by
    rw [lowerAll]
    exact preserves_pure _
  | e :: es => by
    rw [lowerAll]
    exact preserves_bind (lowerExpr_shares ctx e) fun _ =>
      preserves_bind (lowerAll_shares ctx es) fun _ => preserves_pure _

theorem lowerEntries_shares (ctx : LoweringContext) :
    (es : List (String × Expr)) → Preserves (·.Shares ctx.global) (lowerEntries ctx es)
  | [] => by
    rw [lowerEntries]
    exact preserves_pure _
  | (_, e) :: es => by
    rw [lowerEntries]
    exact preserves_bind (lowerExpr_shares ctx e) fun _ =>
      preserves_bind (preserves_emit fun _ shares => shares) fun _ =>
        preserves_bind (lowerEntries_shares ctx es) fun _ => preserves_pure _

end

end

theorem FunctionDef.compile_shares {f : FunctionDef} {cacheDepth : Nat} {u : CompiledUnit}
    (done : f.compile cacheDepth = .ok u) : u.emission.Shares f.global := by
  rw [compile_eq] at done
  cases lowered : lowerAll (f.context cacheDepth) f.body.instrs {} with
  | error e => simp [lowered] at done
  | ok r =>
    have shares := lowerAll_shares (f.context cacheDepth) f.body.instrs {} r.1 r.2
      (by simp [Emission.Shares]) lowered
    rw [lowered] at done
    cases done
    exact shares

/-- Whatever the unit mentions is on the heap, and the guards of its call sites hold what resolving
gives. -/
structure CompiledUnit.Closed (h : Heap) (u : CompiledUnit) : Prop where
  global : u.global < h.size
  lookups : ∀ (i : Nat) site, u.sites.lookups[i]? = some site →
    ∀ id, site.bound = some id → id < h.size
  registrations : ∀ (i : Nat) site, u.sites.registrations[i]? = some site →
    ∀ id, site.bound = some id → id < h.size
  functions : ∀ (i : Nat) site, u.sites.functions[i]? = some site →
    ∀ f, site.kept = some f → f.global < h.size
  calls : ∀ (i : Nat) site, u.sites.calls[i]? = some site → site.Linked h
  records : ∀ id f, (id, f) ∈ u.registry.records → f.global < h.size

theorem CompiledUnit.Closed.grows {h h' : Heap} (grows : h.Grows h') {u : CompiledUnit}
    (closed : u.Closed h) : u.Closed h' where
  global := Nat.lt_of_lt_of_le closed.global grows.size_le
  lookups i site found id bound :=
    Nat.lt_of_lt_of_le (closed.lookups i site found id bound) grows.size_le
  registrations i site found id bound :=
    Nat.lt_of_lt_of_le (closed.registrations i site found id bound) grows.size_le
  functions i site found f kept :=
    Nat.lt_of_lt_of_le (closed.functions i site found f kept) grows.size_le
  calls i site found := (closed.calls i site found).keeps grows.keeps
  records id f member := Nat.lt_of_lt_of_le (closed.records id f member) grows.size_le

/-- A unit that was compiled just now mentions nothing but its global object. -/
theorem CompiledUnit.closed_fresh {f : FunctionDef} {cacheDepth : Nat} {u : CompiledUnit}
    (done : f.compile cacheDepth = .ok u) {h : Heap} (global : f.global < h.size) : u.Closed h := by
  obtain ⟨rfl, -, fresh, -⟩ := FunctionDef.compile_ok done
  have shares := FunctionDef.compile_shares done
  refine ⟨global, ?_, ?_, ?_, ?_, ?_⟩
  · intro i site found id bound
    cases (fresh.lookups i site found).symm.trans bound
  · intro i site found id bound
    cases (fresh.registrations i site found).symm.trans bound
  · intro i site found f kept
    obtain ⟨inside, -⟩ := Array.getElem?_eq_some_iff.mp found
    have unused := fresh.functions i (by rw [← fresh.size]; exact inside)
    obtain rfl : { id := i } = site := Option.some.inj (unused.symm.trans found)
    cases kept
  · intro i site found guards same g member
    cases (fresh.calls i site found).symm.trans same
    cases member
  · intro id g member
    rw [shares id g member]
    exact global

theorem set_all {α : Type} {xs : Array α} {P : α → Prop} {place : Nat} {y : α}
    (old : ∀ (i : Nat) x, xs[i]? = some x → P x) (new : P y) :
    ∀ (i : Nat) x, (xs.setIfInBounds place y)[i]? = some x → P x := by
  intro i x found
  by_cases here : place = i
  · subst i
    rw [Array.getElem?_setIfInBounds_self] at found
    split at found
    · rw [← Option.some.inj found]
      exact new
    · cases found
  · rw [Array.getElem?_setIfInBounds_ne here] at found
    exact old i x found

theorem FunctionSite.take_global {n : Nat} {site : FunctionSite} {registry : Registry}
    (kept : ∀ f, site.kept = some f → f.global < n)
    (records : ∀ id f, (id, f) ∈ registry.records → f.global < n) :
    (∀ f, (site.take registry).definition = .ok f → f.global < n) ∧
      (∀ f, (site.take registry).site.kept = some f → f.global < n) ∧
      ∀ id f, (id, f) ∈ (site.take registry).registry.records → f.global < n := by
  unfold FunctionSite.take
  split
  · rename_i f same
    refine ⟨?_, kept, records⟩
    rintro g ⟨⟩
    exact kept f same
  · rename_i missing
    unfold Registry.consume
    cases found : registry.records.lookup site.id with
    | none =>
      refine ⟨?_, kept, records⟩
      rintro g ⟨⟩
    | some f =>
      obtain ⟨before, after, split, -⟩ := List.lookup_eq_some_iff.mp found
      have here : f.global < n := records site.id f (by simp [split])
      refine ⟨?_, ?_, ?_⟩
      · rintro g ⟨⟩
        exact here
      · rintro g ⟨⟩
        exact here
      · intro id g member
        exact records id g (List.mem_of_mem_filter member)

/-- Whatever the machine mentions is on its heap. -/
structure Machine.Closed (m : Machine) : Prop where
  heap : m.heap.Closed
  global : Machine.global < m.heap.size
  units : ∀ (i : Nat) u, m.units[i]? = some u → u.Closed m.heap

namespace Machine

variable {m m' : Machine}

/-- A change of the heap. -/
theorem Closed.of_heap (closed : m.Closed) (heap : m'.heap.Closed) (grows : m.heap.Grows m'.heap)
    (units : m'.units = m.units) : m'.Closed := by
  refine ⟨heap, Nat.lt_of_lt_of_le closed.global grows.size_le, ?_⟩
  intro i u found
  rw [units] at found
  exact (closed.units i u found).grows grows

/-- A change of neither heap nor units. -/
theorem Closed.same (closed : m.Closed) (heap : m'.heap = m.heap) (units : m'.units = m.units) :
    m'.Closed :=
  closed.of_heap (by rw [heap]; exact closed.heap) (by rw [heap]; exact .refl) units

/-- A change of one unit. -/
theorem Closed.modify (closed : m.Closed) {unit : UnitId} {f : CompiledUnit → CompiledUnit}
    (heap : m'.heap = m.heap) (units : m'.units = m.units.modify unit f)
    (change : ∀ u, m.units[unit]? = some u → u.Closed m.heap → (f u).Closed m.heap) :
    m'.Closed := by
  refine ⟨by rw [heap]; exact closed.heap, by rw [heap]; exact closed.global, ?_⟩
  intro i u found
  rw [units, Array.getElem?_modify] at found
  rw [heap]
  split at found
  · rename_i here
    subst here
    obtain ⟨old, held, rfl⟩ := Option.map_eq_some_iff.mp found
    exact change old held (closed.units _ old held)
  · exact closed.units i u found

theorem Closed.modifySites (closed : m.Closed) (unit : UnitId) {f : SiteTable → SiteTable}
    (change : ∀ u, m.units[unit]? = some u → u.Closed m.heap →
      CompiledUnit.Closed m.heap { u with sites := f u.sites }) : (m.modifySites unit f).Closed :=
  closed.modify (f := fun u => { u with sites := f u.sites }) rfl rfl change

theorem Closed.log? (closed : m.Closed) (event : Option Event) : (m.log? event).Closed :=
  closed.same (m.log?_heap event) (m.log?_units event)

theorem Closed.register (closed : m.Closed) (id : ObjectId) (key : String) {v : Value}
    (below : v.Below m.heap.size) : Closed { m with heap := m.heap.register id key v } := by
  refine closed.of_heap (closed.heap.store id key ?_) (m.heap.register_grows id key v) rfl
  rintro w ⟨⟩
  exact below

theorem Closed.create (closed : m.Closed) {proto : Option ObjectId}
    (older : ∀ p, proto = some p → p < m.heap.size) :
    Closed { m with heap := (m.heap.newObject proto).2 } :=
  closed.of_heap (closed.heap.alloc "object" older (by simp)) (m.heap.newObject_grows proto) rfl

theorem Closed.compile (closed : m.Closed) {f : FunctionDef} (global : f.global < m.heap.size)
    {id : ObjectId} (done : m.compile f = .ok (id, m')) :
    m'.Closed ∧ m.heap.Grows m'.heap ∧ id < m'.heap.size := by
  obtain ⟨fresh, event, compiled, rfl, rfl⟩ := compile_inv done
  have grows := m.heap.newFunction_grows fresh.name
    (.compiled m.units.size fresh.name fresh.arity)
  obtain ⟨heap, inside⟩ := closed.heap.newFunction fresh.name
    (show (Callable.compiled m.units.size fresh.name fresh.arity).Below _ from trivial)
  refine ⟨⟨heap, Nat.lt_of_lt_of_le closed.global grows.size_le, ?_⟩, grows, inside⟩
  intro i u found
  rcases Emission.push_cases found with old | rfl
  · exact (closed.units i u old).grows grows
  · exact CompiledUnit.closed_fresh compiled (Nat.lt_of_lt_of_le global grows.size_le)

theorem Closed.globalOf (closed : m.Closed) (unit : UnitId) : m.globalOf unit < m.heap.size := by
  rw [Machine.globalOf]
  cases found : m.units[unit]? with
  | none => exact closed.global
  | some u => exact (closed.units unit u found).global

/-- A site for a global name works on an object of the heap. -/
theorem Closed.target (closed : m.Closed) (unit : UnitId) (place : Nat) (name : String)
    {table : CompiledUnit → Array GlobalSite}
    (bound : ∀ u, u.Closed m.heap → ∀ (i : Nat) site, (table u)[i]? = some site →
      ∀ id, site.bound = some id → id < m.heap.size) :
    (((m.units[unit]?).bind fun u => (table u)[place]?).getD { name }).target (m.globalOf unit) <
      m.heap.size := by
  have global := closed.globalOf unit
  generalize m.globalOf unit = fallback at global
  cases found : m.units[unit]? with
  | none => exact global
  | some u =>
    rw [Option.bind_some]
    cases held : (table u)[place]? with
    | none => exact global
    | some site =>
      rw [Option.getD_some, GlobalSite.target]
      cases linked : site.bound with
      | none => exact global
      | some id => exact bound u (closed.units unit u found) place site held id linked

theorem Closed.lookupGlobal (closed : m.Closed) (unit : UnitId) (place : Nat) (name : String) :
    (m.lookupGlobal unit place name).2.Closed ∧
      (m.lookupGlobal unit place name).2.heap = m.heap ∧
      (m.lookupGlobal unit place name).1.Below m.heap.size := by
  have target := closed.target unit place name fun u closed => closed.lookups
  simp only [Machine.lookupGlobal, lookupAt_eq]
  refine ⟨Closed.modifySites (closed.log? _) unit ?_, m.log?_heap _, closed.heap.lookup _ _⟩
  intro u _ before
  refine { before with lookups := set_all before.lookups ?_ }
  rintro id ⟨⟩
  rw [m.log?_heap]
  exact target

theorem Closed.registerGlobal (closed : m.Closed) (unit : UnitId) (place : Nat) (name : String)
    {v : Value} (below : v.Below m.heap.size) :
    (m.registerGlobal unit place name v).Closed ∧
      m.heap.Grows (m.registerGlobal unit place name v).heap := by
  have target := closed.target unit place name fun u closed => closed.registrations
  simp only [Machine.registerGlobal, registerAt_eq]
  generalize ((m.units[unit]?).bind fun u => u.sites.registrations[place]?).getD { name } = site
    at target
  have logged := closed.log? (if site.isLinked then none else some (.linkedRegistration site.name))
  have registered := logged.register (site.target (m.globalOf unit)) site.name
    (by rw [m.log?_heap]; exact below)
  rw [m.log?_heap] at registered
  refine ⟨Closed.modifySites registered unit ?_, m.heap.register_grows _ _ _⟩
  intro u _ before
  refine { before with registrations := set_all before.registrations ?_ }
  rintro id ⟨⟩
  exact Nat.lt_of_lt_of_le target (m.heap.register_grows _ _ _).size_le

/-- Dispatching finds an entry of the heap. -/
theorem Closed.dispatchAt (closed : m.Closed) {site : CallSite} (linked : site.Linked m.heap)
    (callee : Value) :
    (m.dispatchAt site callee).2.Closed ∧ (m.dispatchAt site callee).2.heap = m.heap ∧
      (m.dispatchAt site callee).2.units = m.units ∧
      (m.dispatchAt site callee).1.2.Linked m.heap ∧
      ∀ entry, (m.dispatchAt site callee).1.1 = .ok entry → entry.Below m.heap.size := by
  have after := (linked.after callee).2
  have target := CallSite.dispatch_target linked callee
  unfold Machine.dispatchAt
  unfold CallSite.after at after
  cases found : site.dispatch m.heap callee with
  | error e =>
    refine ⟨closed, rfl, rfl, linked, ?_⟩
    rintro entry ⟨⟩
  | ok d =>
    simp only [found] at after
    refine ⟨closed.log? d.event, m.log?_heap d.event, m.log?_units d.event, after, ?_⟩
    rintro entry ⟨⟩
    cases resolved : m.heap.resolveCallee callee site.argCount with
    | error e => simp [found, resolved, Except.map] at target
    | ok pair =>
      obtain ⟨id, entry⟩ := pair
      obtain ⟨-, callable, -⟩ := (m.heap.resolveCallee_ok_iff callee _ id entry).mp resolved
      have same : d.target = entry := by simpa [found, resolved, Except.map] using target
      rw [same]
      exact (closed.heap.callable? callable).2

theorem Closed.dispatchCall (closed : m.Closed) (unit : UnitId) (place argCount : Nat)
    (callee : Value) :
    (m.dispatchCall unit place argCount callee).2.Closed ∧
      (m.dispatchCall unit place argCount callee).2.heap = m.heap ∧
      ∀ entry, (m.dispatchCall unit place argCount callee).1 = .ok entry →
        entry.Below m.heap.size := by
  have linked : (((m.units[unit]?).bind (·.sites.calls[place]?)).getD
      { argCount, maxDepth := m.cacheDepth }).Linked m.heap := by
    cases found : m.units[unit]? with
    | none => exact CallSite.fresh_linked argCount m.cacheDepth m.heap
    | some u =>
      rw [Option.bind_some]
      cases held : u.sites.calls[place]? with
      | none => exact CallSite.fresh_linked argCount m.cacheDepth m.heap
      | some site => exact (closed.units unit u found).calls place site held
  obtain ⟨closed', heap, -, after, entries⟩ := closed.dispatchAt linked callee
  simp only [Machine.dispatchCall]
  refine ⟨Closed.modifySites closed' unit ?_, heap, entries⟩
  intro u _ before
  refine { before with calls := set_all before.calls ?_ }
  rw [heap]
  exact after

/-- Using a function site makes a function object, or fails. -/
theorem Closed.materializeAt (closed : m.Closed) {site : FunctionSite} (unit : UnitId)
    (kept : ∀ f, site.kept = some f → f.global < m.heap.size) :
    let made := m.materializeAt site unit
    made.2.Closed ∧ m.heap.Grows made.2.heap ∧
      (∀ f, made.1.2.kept = some f → f.global < m.heap.size) ∧
      ∀ id, made.1.1 = .ok id → id < made.2.heap.size := by
  have records : ∀ (id : Nat) (f : FunctionDef),
      (id, f) ∈ (((m.units[unit]?).map CompiledUnit.registry).getD {}).records →
        f.global < m.heap.size := by
    intro id f member
    cases found : m.units[unit]? with
    | none => simp [found] at member
    | some u =>
      rw [found] at member
      exact (closed.units unit u found).records id f member
  obtain ⟨definition, kept', records'⟩ := FunctionSite.take_global kept records
  simp only [Machine.materializeAt]
  generalize site.take _ = taken at definition kept' records'
  have logged := closed.log? taken.event
  have emptied : Closed { m.log? taken.event with
      units := (m.log? taken.event).units.modify unit
        fun u => { u with registry := taken.registry } } := by
    refine logged.modify (f := fun u => { u with registry := taken.registry }) rfl rfl ?_
    intro u _ before
    exact { before with records := by rw [m.log?_heap]; exact records' }
  have grows : m.heap.Grows (m.log? taken.event).heap := by
    rw [m.log?_heap]
    exact .refl
  split
  · refine ⟨emptied, grows, kept', ?_⟩
    rintro id ⟨⟩
  · rename_i f same
    split
    · refine ⟨emptied, grows, kept', ?_⟩
      rintro id ⟨⟩
    · rename_i id m' done
      have global : f.global < (m.log? taken.event).heap.size := by
        rw [m.log?_heap]
        exact definition f same
      obtain ⟨closed', further, inside⟩ := emptied.compile global done
      refine ⟨closed', grows.trans further, kept', ?_⟩
      rintro id' ⟨⟩
      exact inside

theorem Closed.makeFunction (closed : m.Closed) (unit : UnitId) (id : Nat) :
    (m.makeFunction unit id).2.Closed ∧ m.heap.Grows (m.makeFunction unit id).2.heap ∧
      ∀ v, (m.makeFunction unit id).1 = .ok v → v.Below (m.makeFunction unit id).2.heap.size := by
  have kept : ∀ f,
      (((m.units[unit]?).bind (·.sites.functions[id]?)).getD { id }).kept = some f →
        f.global < m.heap.size := by
    intro f same
    cases found : m.units[unit]? with
    | none => simp [found] at same
    | some u =>
      rw [found, Option.bind_some] at same
      cases held : u.sites.functions[id]? with
      | none => simp [held] at same
      | some site =>
        rw [held] at same
        exact (closed.units unit u found).functions id site held f same
  obtain ⟨closed', grows, kept', inside⟩ := closed.materializeAt unit kept
  simp only [Machine.makeFunction]
  refine ⟨Closed.modifySites closed' unit ?_, grows, ?_⟩
  · intro u _ before
    refine { before with functions := set_all before.functions ?_ }
    intro f same
    exact Nat.lt_of_lt_of_le (kept' f same) grows.size_le
  · intro v made
    generalize Machine.materializeAt m _ unit = result at made inside
    obtain ⟨⟨function, site⟩, m'⟩ := result
    cases function with
    | error e => cases made
    | ok made' =>
      cases made
      exact Value.below_object.mpr (inside made' rfl)

theorem Closed.define (closed : m.Closed) {owner : ObjectId} (name : String) (arity : Arity)
    {body : HostFunction} (below : body.Below m.heap.size) :
    (m.define owner name arity body).2.Closed ∧
      m.heap.Grows (m.define owner name arity body).2.heap ∧
      (m.define owner name arity body).1 < (m.define owner name arity body).2.heap.size := by
  have entry : (Callable.native { name, arity, body }).Below m.heap.size := below
  obtain ⟨made, inside⟩ := closed.heap.newFunction name entry
  have grows := m.heap.newFunction_grows name (.native { name, arity, body })
  have created : Closed { m with heap := (m.heap.newNative name arity body).2 } :=
    closed.of_heap made grows rfl
  have registered := created.register owner name (Value.below_object.mpr inside)
  refine ⟨registered, grows.trans (Heap.register_grows _ _ _ _), ?_⟩
  exact Nat.lt_of_lt_of_le inside (Heap.register_grows _ _ _ _).size_le

end Machine

open Machine in
/-- The discipline of objects: values and entries mention only objects of the heap. -/
def naming : Discipline where
  holds m := m.Closed ∧ m.roots.parked = none
  moves _ m m' := (m'.Closed ∧ m'.roots.parked = none) ∧ m.heap.Grows m'.heap
  fine m v := v.Below m.heap.size
  opens m entry := entry.Below m.heap.size
  holds_of_moves moved := moved.1
  fine_of_moves moved fine := fine.mono moved.2.size_le
  idle holds := holds.2
  plain _ _ none := Value.Below.of_plain none
  stay holds := ⟨holds, .refl⟩
  trans first second := ⟨second.1, first.2.trans second.2⟩
  mono _ moved := moved
  root {m v} holds _ := by
    refine ⟨⟨holds.1.same rfl rfl, ?_⟩, .refl⟩
    rw [Machine.root, Roots.root]
    split <;> exact holds.2
  release moved := ⟨⟨moved.1.1.same rfl rfl, moved.1.2⟩, moved.2⟩
  fine_release _ fine := fine
  log event holds := ⟨⟨holds.1.same rfl rfl, holds.2⟩, .refl⟩
  print {m} args holds := by
    have same : (m.print args).2.heap = m.heap ∧ (m.print args).2.units = m.units ∧
        (m.print args).2.roots = m.roots := by
      cases sink : m.sink <;> simp [Machine.print, sink]
    obtain ⟨heap, units, roots⟩ := same
    refine ⟨⟨holds.1.same heap units, by rw [roots]; exact holds.2⟩, ?_⟩
    rw [heap]
    exact .refl
  lookup key holds _ := holds.1.heap.lookup _ key
  register key holds _ below :=
    ⟨⟨holds.1.register _ key below, holds.2⟩, Heap.register_grows _ _ _ _⟩
  create {m proto} holds older := by
    have inside : m.heap.size < (m.heap.newObject proto).2.size := by
      rw [Heap.newObject, Heap.size_alloc]
      exact Nat.lt_succ_self _
    exact ⟨⟨⟨holds.1.create fun p same => Value.below_object.mp (older p same), holds.2⟩,
      m.heap.newObject_grows proto⟩, Value.below_object.mpr inside⟩
  lookupGlobal {m} unit site name holds := by
    obtain ⟨closed, heap, below⟩ := holds.1.lookupGlobal unit site name
    have roots := m.lookupGlobal_roots unit site name
    refine ⟨⟨⟨closed, by rw [roots]; exact holds.2⟩, ?_⟩, ?_⟩
    · rw [heap]
      exact .refl
    · rw [heap]
      exact below
  registerGlobal {m v} unit site name holds below := by
    obtain ⟨closed, grows⟩ := holds.1.registerGlobal unit site name below
    have roots := m.registerGlobal_roots unit site name v
    exact ⟨⟨closed, by rw [roots]; exact holds.2⟩, grows⟩
  makeFunction {m} unit id holds := by
    obtain ⟨closed, grows, below⟩ := holds.1.makeFunction unit id
    have roots := m.makeFunction_roots unit id
    exact ⟨⟨⟨closed, by rw [roots]; exact holds.2⟩, grows⟩, below⟩
  dispatchCall {m} unit site argCount callee holds := by
    obtain ⟨closed, heap, below⟩ := holds.1.dispatchCall unit site argCount callee
    have roots := m.dispatchCall_roots unit site argCount callee
    refine ⟨⟨⟨closed, by rw [roots]; exact holds.2⟩, ?_⟩, ?_⟩
    · rw [heap]
      exact .refl
    · rw [heap]
      exact below
  callable holds found := (holds.1.heap.callable? found).2
  native below m' receiver args moved given :=
    HostProgram.Careful.comap (fun m : Machine => m.heap.size) (fun _ _ moved => moved.2.size_le)
      (below m'.heap.size receiver args moved.2.size_le given)
  global holds := Value.below_object.mpr holds.1.global
  compile holds global done :=
    have ⟨closed, grows, inside⟩ := holds.1.compile (Value.below_object.mp global) done
    ⟨⟨⟨closed, by rw [compile_roots done]; exact holds.2⟩, grows⟩, Value.below_object.mpr inside⟩
  define {_ _ name arity _} holds _ below :=
    have ⟨closed, grows, inside⟩ := holds.1.define name arity below
    ⟨⟨⟨closed, holds.2⟩, grows⟩, Value.below_object.mpr inside⟩

theorem CallSite.Linked.below {site : CallSite} {h : Heap} (linked : site.Linked h)
    (closed : h.Closed) {guards : List Guard} (same : site.strategy = .guarded guards) {g : Guard}
    (member : g ∈ guards) : g.expected < h.size ∧ g.target.Below h.size := by
  have resolved := linked guards same g member
  obtain ⟨-, found, -⟩ := (h.resolveCallee_ok_iff _ _ _ _).mp resolved
  exact closed.callable? found

namespace HostProgram

variable {n : Nat}

theorem Below.give {v : Value} (below : v.Below n) : (give v).Below n := by
  rintro w ⟨⟩
  exact below

theorem Below.error (e : HostError) : (done (.error e)).Below n := by
  rintro w ⟨⟩

theorem Below.step {s : HostStep} {next : s.Answer → HostProgram}
    (named : ∀ v ∈ s.named, v.Below n)
    (rest : ∀ k answer, n ≤ k → (∀ v ∈ s.given answer, v.Below k) → (next answer).Below k) :
    (HostProgram.step s next).Below n :=
  ⟨named, rest⟩

theorem Below.describe {v : Value} (below : v.Below n) {next : String → HostProgram}
    (rest : ∀ k text, n ≤ k → (next text).Below k) : (HostProgram.step (.describe v) next).Below n :=
  .step (by simpa [HostStep.named] using below) fun k text less _ => rest k text less

theorem Below.describeAll {vs : List Value} (below : ∀ v ∈ vs, v.Below n)
    {next : List String → HostProgram} (rest : ∀ k texts, n ≤ k → (next texts).Below k) :
    (HostProgram.describeAll vs next).Below n := by
  induction vs generalizing n next with
  | nil => exact rest n [] (Nat.le_refl n)
  | cons v vs ih =>
    refine .describe (below v List.mem_cons_self) fun k text less => ?_
    exact ih (fun w member => (below w (List.mem_cons_of_mem _ member)).mono less)
      fun k' texts further => rest k' _ (Nat.le_trans less further)

theorem Below.applyFirst (who : String) {receiver : Value} {args : List Value}
    (below : ∀ v ∈ receiver :: args, v.Below n) {next : Except RuntimeError Value → HostProgram}
    (gives : ∀ k v, n ≤ k → v.Below k → (next (.ok v)).Below k)
    (fails : ∀ k e, n ≤ k → (next (.error e)).Below k) :
    (HostProgram.applyFirst who receiver args next).Below n := by
  cases args with
  | nil => exact .describe (.of_plain rfl) fun k text _ => .error _
  | cons first rest =>
    have fine : first.Below n := below first (by simp)
    rw [HostProgram.applyFirst, List.headD_cons]
    split
    · refine .step (fun v member => ?_) fun k answer less given => ?_
      · simp only [HostStep.named, List.tail_cons, List.mem_cons] at member
        rcases member with rfl | rfl | member
        · exact fine
        · exact below v List.mem_cons_self
        · exact below v (by simp [member])
      · cases answer with
        | ok v => exact gives k v less (given v List.mem_cons_self)
        | error e => exact fails k e less
    · exact .describe fine fun k text _ => .error _

end HostProgram

theorem Operator.plain_onInts (op : Operator) (a b : Int) {v : Value}
    (gives : op.onInts a b = .ok v) : v.object? = none := by
  have exact_plain : ∀ n, op.exact n = .ok v → v.object? = none := by
    intro n gives
    rw [Operator.exact] at gives
    split at gives <;> cases gives
    rfl
  cases op with
  | add | sub | mul => exact exact_plain _ gives
  | div =>
    rw [Operator.onInts] at gives
    split at gives
    · cases gives
    · exact exact_plain _ gives
  | rem =>
    rw [Operator.onInts] at gives
    split at gives
    · cases gives
    · split at gives
      · exact exact_plain _ gives
      · cases gives
  | eq | ne | lt | le | gt | ge =>
    cases gives
    rfl

theorem Operator.below_apply (op : Operator) {n : Nat} {a b : Value} (first : a.Below n)
    (second : b.Below n) : (op.apply a b).Below n := by
  have exact_below : ∀ (op : Operator) (i j : Int),
      (HostProgram.done ((op.onInts i j).mapError .foreign)).Below n := by
    intro op i j v same
    cases gives : op.onInts i j with
    | ok w =>
      rw [gives] at same
      cases same
      exact Value.Below.of_plain (op.plain_onInts i j gives)
    | error fault =>
      rw [gives] at same
      cases same
  have refuse_below : ∀ message, (refuse a b message).Below n := fun message =>
    .describe first fun _ _ less => .describe (second.mono less) fun _ _ _ => .error _
  rw [Operator.apply.eq_def]
  split
  · exact .give (.of_plain rfl)
  · exact .give (.of_plain rfl)
  · split
    · exact exact_below _ _ _
    · exact .step (by simpa [HostStep.named] using second) fun _ _ _ _ => .give (.of_plain rfl)
    · exact .step (by simpa [HostStep.named] using first) fun _ _ _ _ => .give (.of_plain rfl)
    · exact refuse_below _
  · split
    · exact exact_below _ _ _
    · exact refuse_below _

namespace HostFunction

variable (n : Nat)

theorem operator_below (op : Operator) : (operator op).Below n := by
  intro k receiver args _ below
  obtain ⟨-, given⟩ := List.forall_mem_cons.mp below
  exact op.below_apply (below_argument given 0) (below_argument given 1)

theorem print_below : print.Below n := by
  intro k receiver args _ below
  obtain ⟨-, shown⟩ := List.forall_mem_cons.mp below
  refine .step shown fun k' answer _ given => ?_
  cases answer with
  | ok v => exact .give (given v List.mem_cons_self)
  | error fault => exact .error _

theorem const_below_iff (v : Value) : (const v).Below n ↔ v.Below n := by
  constructor
  · intro below
    exact below n .undefined [] (Nat.le_refl n) (by simp [Value.Below]) v rfl
  · intro below k receiver args less _
    exact .give (below.mono less)

/-- Of the functions at hand, only a constant can name an object that it was not given. -/
theorem stock_below : (∀ i, (arg i).Below n) ∧ this.Below n ∧ count.Below n ∧ rooted.Below n ∧
    join.Below n ∧ (∀ key, (get key).Below n) ∧ (∀ key, (put key).Below n) ∧ apply.Below n ∧
    attempt.Below n ∧ (∀ fault, (fail fault).Below n) ∧ ∀ e, (raise e).Below n := by
  refine ⟨fun i => ?_, ?_, ?_, ?_, ?_, fun key => ?_, fun key => ?_, ?_, ?_, fun fault => ?_,
    fun e => ?_⟩ <;> intro k receiver args less below <;>
    obtain ⟨own, given⟩ := List.forall_mem_cons.mp below
  · exact .give (below_argument given i)
  · exact .give own
  · exact .give (.of_plain rfl)
  · exact .step (by simp [HostStep.named]) fun _ _ _ _ => .give (.of_plain rfl)
  · refine .describe own fun k' _ further => ?_
    exact .describeAll (fun v member => (given v member).mono further) fun _ _ _ =>
      .give (.of_plain rfl)
  · cases receiver with
    | object id =>
      refine .step (by simpa [HostStep.named] using own) fun _ v _ found => ?_
      exact .give (found v List.mem_cons_self)
    | _ => exact .give (.of_plain rfl)
  · cases receiver with
    | object id =>
      have first := below_argument given 0
      refine .step (by simpa [HostStep.named] using ⟨own, first⟩) fun _ _ further _ => ?_
      exact .give (own.mono further)
    | _ => exact .give own
  · exact .applyFirst "apply" below (fun _ _ _ => .give) fun _ _ _ => .error _
  · exact .applyFirst "attempt" below (fun _ _ _ => .give) fun _ _ _ => .give (.of_plain rfl)
  · exact .error _
  · exact .error _

end HostFunction

theorem Machine.operators_closed (ops : List Operator) {m : Machine} (closed : m.Closed) :
    (ops.foldl (fun m op => (m.define Machine.global op.symbol (.fixed 2) (.operator op)).2)
      m).Closed := by
  induction ops generalizing m with
  | nil => exact closed
  | cons op ops ih => exact ih (closed.define op.symbol (.fixed 2) (HostFunction.operator_below _ op)).1

theorem Machine.boot_closed (cacheDepth : Nat) (sink : Sink) :
    (Machine.boot cacheDepth sink).Closed := by
  have empty : Heap.Closed {} := by
    intro id o found
    simp [Heap.object?] at found
  have env : (({} : Heap).newEnv none).2.Closed := empty.alloc "env" (by simp) (by simp)
  have start : Machine.Closed { heap := (({} : Heap).newEnv none).2, cacheDepth, sink } := by
    refine ⟨env, ?_, ?_⟩
    · show Machine.global < (({} : Heap).newEnv none).2.size
      decide
    · intro i u found
      simp at found
  exact ((operators_closed _ start).define "print" .variadic (HostFunction.print_below _)).1

/-- The request names only objects of a heap with `n` objects. -/
def Request.Below (n : Nat) : Request → Prop
  | .execute _ | .document _ => True
  | .compile f => f.global < n
  | .invoke id receiver args => id < n ∧ ∀ v ∈ receiver :: args, v.Below n
  | .enter entry receiver args => entry.Below n ∧ ∀ v ∈ receiver :: args, v.Below n
  | .create proto => ∀ p, proto = some p → p < n
  | .define owner _ _ body => owner < n ∧ body.Below n
  | .register id _ v => id < n ∧ v.Below n

theorem Request.Below.allows {m : Machine} {request : Request}
    (below : request.Below m.heap.size) : naming.Allows m request := by
  cases request with
  | execute | document => trivial
  | compile f => exact Value.below_object.mpr below
  | invoke id receiver args => exact Discipline.Fine.cons (Value.below_object.mpr below.1) below.2
  | enter entry receiver args => exact below
  | create proto => exact fun p same => Value.below_object.mpr (below p same)
  | define owner name arity body => exact ⟨Value.below_object.mpr below.1, below.2⟩
  | register id key v => exact ⟨Value.below_object.mpr below.1, below.2⟩

/-- The machines a host can get to that names only objects it was given, with call sites of its
own. -/
inductive Machine.Tended : List CallSite → Machine → Prop
  | boot (cacheDepth : Nat) (sink : Sink) : Tended [] (Machine.boot cacheDepth sink)
  | serve {sites : List CallSite} {m m' : Machine} {depth : Nat} {request : Request}
      {answer : Answer} : Tended sites m → request.Below m.heap.size →
      serve depth request m = some (answer, m') → Tended sites m'
  | site {sites : List CallSite} {m : Machine} (argCount maxDepth : Nat) : Tended sites m →
      Tended ({ argCount, maxDepth } :: sites) m
  | call {sites : List CallSite} {m m' : Machine} {site site' : CallSite} {depth : Nat}
      {callee receiver : Value} {args : List Value} {result : Except RuntimeError Value} :
      Tended sites m → site ∈ sites → (∀ v ∈ callee :: receiver :: args, v.Below m.heap.size) →
      site.invoke depth callee receiver args m = some ((result, site'), m') →
      Tended (site' :: sites) m'

theorem Machine.Tended.reachable {sites : List CallSite} {m : Machine} (tended : m.Tended sites) :
    m.Reachable := by
  induction tended with
  | boot cacheDepth sink => exact .boot cacheDepth sink
  | serve _ _ served ih => exact ih.serve served
  | site _ _ _ ih => exact ih
  | call _ _ _ called ih => exact ih.site called

/-- A call of a host through a site of its own. -/
theorem CallSite.Linked.invoke {m m' : Machine} (closed : m.Closed) (idle : m.roots.parked = none)
    {site site' : CallSite} (linked : site.Linked m.heap) {depth : Nat} {callee receiver : Value}
    {args : List Value} {result : Except RuntimeError Value}
    (below : ∀ v ∈ receiver :: args, v.Below m.heap.size)
    (called : site.invoke depth callee receiver args m = some ((result, site'), m')) :
    (m'.Closed ∧ m'.roots.parked = none) ∧ m.heap.Grows m'.heap ∧ site'.Linked m'.heap := by
  obtain ⟨-, after⟩ := linked.after callee
  rw [CallSite.invoke_eq] at called
  obtain ⟨-, -, -, -, entries⟩ := closed.dispatchAt linked callee
  unfold Machine.dispatchAt at entries
  unfold CallSite.after at after
  cases found : site.dispatch m.heap callee with
  | error e =>
    simp only [found] at called after
    cases called
    exact ⟨⟨closed, idle⟩, .refl, after⟩
  | ok d =>
    simp only [found] at called after entries
    obtain ⟨⟨given, reached⟩, entered, same⟩ := Option.map_eq_some_iff.mp called
    cases same
    have holds : naming.holds (m.log? d.event) :=
      ⟨closed.log? d.event, by rw [m.log?_roots]; exact idle⟩
    have heap := m.log?_heap d.event
    have opens : naming.opens (m.log? d.event) d.target := by
      show d.target.Below _
      rw [heap]
      exact entries d.target rfl
    have fine : naming.Fine (m.log? d.event) (receiver :: args) := by
      intro v member
      show v.Below _
      rw [heap]
      exact below v member
    obtain ⟨now, grows⟩ : (reached.Closed ∧ reached.roots.parked = none) ∧
        (m.log? d.event).heap.Grows reached.heap :=
      (Discipline.enters_enter depth d.target receiver args _ holds opens fine).moves entered
    rw [heap] at grows
    exact ⟨now, grows, after.keeps grows.keeps⟩

theorem Machine.Tended.closed {sites : List CallSite} {m : Machine} (tended : m.Tended sites) :
    m.Closed ∧ m.roots.parked = none ∧ ∀ site ∈ sites, site.Linked m.heap := by
  induction tended with
  | boot cacheDepth sink =>
    refine ⟨Machine.boot_closed cacheDepth sink, ?_, by simp⟩
    rfl
  | serve _ below served ih =>
    obtain ⟨closed, idle, linked⟩ := ih
    have moved := (Discipline.serve_returns (D := naming) ⟨closed, idle⟩ _ below.allows).moves served
    exact ⟨moved.1.1, moved.1.2, fun site member => (linked site member).keeps moved.2.keeps⟩
  | site argCount maxDepth _ ih =>
    obtain ⟨closed, idle, linked⟩ := ih
    refine ⟨closed, idle, ?_⟩
    intro site member
    rcases List.mem_cons.mp member with rfl | member
    · exact CallSite.fresh_linked argCount maxDepth _
    · exact linked site member
  | call _ member below called ih =>
    obtain ⟨closed, idle, linked⟩ := ih
    obtain ⟨⟨closed', idle'⟩, grows, after⟩ := (linked _ member).invoke closed idle
      (fun v inside => below v (List.mem_cons_of_mem _ inside)) called
    refine ⟨closed', idle', ?_⟩
    intro site held
    rcases List.mem_cons.mp held with rfl | held
    · exact after
    · exact (linked site held).keeps grows.keeps

/-- The values that running a node hands on. -/
def Flow.values : Flow Value → List Value
  | .next v locals => v :: locals
  | .returned v => [v]
  | .aborted => []

namespace Activity

/-- The values that an activity begins with: slots, or receiver and arguments. -/
def given : Activity → List Value
  | .node _ _ p => p.locals
  | .entry _ _ receiver args _ => receiver :: args

/-- An activity ends on `m'` and hands on the values `vs`. -/
def Ends (vs : List Value) (m' : Machine) : Activity → Prop
  | .node depth unit p => ∃ flow, p.run (enter depth) unit = some (flow, m') ∧ vs = flow.values
  | .entry depth target receiver args m =>
      ∃ result, enter depth target receiver args m = some (result, m') ∧
        vs = result.toOption.toList

end Activity

/-- What an activity of a run ends with is in the heap then. -/
theorem naming_ends {a : Activity} (admits : naming.Admits a) {vs : List Value} {m' : Machine}
    (ends : a.Ends vs m') :
    m'.Closed ∧ a.machine.heap.Grows m'.heap ∧ ∀ v ∈ vs, v.Below m'.heap.size := by
  cases a with
  | node depth unit p =>
    obtain ⟨flow, ran, rfl⟩ := ends
    have kept := Discipline.node_ends admits
    rw [ran] at kept
    cases kept with
    | next moved slots given => exact ⟨moved.1.1, moved.2, given.append slots⟩
    | returned moved given => exact ⟨moved.1.1, moved.2, Discipline.fine_single given⟩
    | aborted moved => exact ⟨moved.1.1.same rfl rfl, moved.2, by simp [Flow.values]⟩
  | entry depth target receiver args m =>
    obtain ⟨result, entered, rfl⟩ := ends
    have returns := Discipline.entry_returns admits
    have moved := returns.moves entered
    refine ⟨moved.1.1, moved.2, ?_⟩
    intro v member
    cases result with
    | error e => simp [Except.toOption] at member
    | ok given =>
      have same : v = given := by simpa [Except.toOption] using member
      rw [same]
      exact returns.fine entered

/-- Until an activity begins the heap has only grown. -/
theorem Within.grows {start a : Activity} {frames : List Frame} (within : Within start frames a)
    (admits : naming.Admits start) : start.machine.heap.Grows a.machine.heap := by
  induction within with
  | start => exact .refl
  | part outer part ih =>
    obtain ⟨-, n, moved, -⟩ :=
      Discipline.part_moves part (Discipline.within_admits outer admits)
    exact ih.trans moved.2

/-- Every object of `h` is on `h'`, with the same name, prototype and entry and all its keys. -/
def Heap.Retains (h h' : Heap) : Prop :=
  ∀ id o, h.object? id = some o → ∃ o', h'.object? id = some o' ∧ o.Extends o'

/-- An activity of a run that began on the heap `h` mentions only objects of the heap, both when it
begins and when it ends, and all objects of `h` are still there. -/
structure Activity.Allocated (h : Heap) (a : Activity) : Prop where
  closed : a.machine.Closed
  given : ∀ v ∈ a.given, v.Below a.machine.heap.size
  retains : h.Retains a.machine.heap
  ends : ∀ vs m', a.Ends vs m' →
    m'.Closed ∧ h.Retains m'.heap ∧ ∀ v ∈ vs, v.Below m'.heap.size

theorem Within.allocated {start a : Activity} {frames : List Frame} (within : Within start frames a)
    (admits : naming.Admits start) {h : Heap} (before : h.Grows start.machine.heap) :
    a.Allocated h := by
  have here := Discipline.within_admits within admits
  have until_here := before.trans (within.grows admits)
  refine ⟨here.holds.1, ?_, ?_, ?_⟩
  · cases a with
    | node => exact here.2
    | entry => exact here.2.2
  · intro id o found
    exact until_here.object found
  · intro vs m' ends
    obtain ⟨closed, grows, values⟩ := naming_ends here ends
    refine ⟨closed, ?_, values⟩
    intro id o found
    exact (until_here.trans grows).object found

/-- Objects keep their name, prototype and entry, and get keys only after the ones they have. If a host names
only objects it was given, then at every moment values, prototypes and guards of call sites are objects
of the heap, and prototype chains end. -/
theorem objects_never_dangle :
    (∀ m m' : Machine, m.Reachable →
      (∃ depth request answer, serve depth request m = some (answer, m')) ∨
        (∃ site depth callee receiver args answer,
          CallSite.invoke site depth callee receiver args m = some (answer, m')) →
      m.heap.Retains m'.heap) ∧
    (∀ sites (m : Machine), m.Tended sites →
      m.Reachable ∧ m.Closed ∧ m.roots.parked = none ∧
        ∀ site ∈ sites, ∀ guards, site.strategy = .guarded guards →
          ∀ g ∈ guards, g.expected < m.heap.size ∧ g.target.Below m.heap.size) ∧
    ∀ m : Machine, m.Closed → m.roots.parked = none →
      (∀ (unit place : Nat) u site guards, m.units[unit]? = some u →
        u.sites.calls[place]? = some site → site.strategy = .guarded guards →
          ∀ g ∈ guards, g.expected < m.heap.size ∧ g.target.Below m.heap.size) ∧
      (∀ id, ¬ Relation.TransGen (fun id p => m.heap.proto? id = some p) id id) ∧
      WellFounded (fun p id => m.heap.proto? id = some p) ∧
      (∀ id key, m.heap.lookup id key =
        match m.heap.own? id key, m.heap.proto? id with
        | some v, _ => v
        | none, some p => m.heap.lookup p key
        | none, none => .undefined) ∧
      (∀ depth request answer m', request.Below m.heap.size →
        serve depth request m = some (answer, m') →
          m'.Closed ∧ m'.roots.parked = none ∧ ∀ v, answer = .ok v → v.Below m'.heap.size) ∧
      (∀ depth target receiver args, target.Below m.heap.size →
        (∀ v ∈ receiver :: args, v.Below m.heap.size) →
        ∀ frames a, Within (.entry depth target receiver args m) frames a →
          a.Allocated m.heap) ∧
      ∀ depth program main m', m.compile (mainFunction program) = .ok (main, m') →
        ∀ frames a, Within (.entry depth (.compiled m.units.size mainName 0) .undefined []
            (m'.log (.executingProgram program.instrs.length))) frames a →
          a.Allocated m.heap := by
  refine ⟨?_, ?_, ?_⟩
  · intro m m' reachable asked id o found
    rcases asked with ⟨depth, request, answer, served⟩ |
      ⟨site, depth, callee, receiver, args, answer, called⟩
    · exact ((serve_refines depth request m reachable.sound).leads served).heap.object found
    · exact (CallSite.invoke_leads reachable.sound called).heap.object found
  · intro sites m tended
    obtain ⟨closed, idle, linked⟩ := tended.closed
    refine ⟨tended.reachable, closed, idle, ?_⟩
    intro site member guards same g guard
    exact (linked site member).below closed.heap same guard
  · intro m closed idle
    refine ⟨?_, ?_, closed.heap.chains_finite, closed.heap.lookup_eq, ?_, ?_, ?_⟩
    · intro unit place u site guards found held same g guard
      exact ((closed.units unit u found).calls place site held).below closed.heap same guard
    · intro id chain
      exact Nat.lt_irrefl id (closed.heap.chain_lt chain)
    · intro depth request answer m' below served
      have returns := Discipline.serve_returns (D := naming) ⟨closed, idle⟩ depth below.allows
      obtain ⟨now, -⟩ := returns.moves served
      refine ⟨now.1, now.2, ?_⟩
      rintro v rfl
      exact returns.fine served
    · intro depth target receiver args opens below frames a within
      exact within.allocated ⟨⟨closed, idle⟩, opens, below⟩ .refl
    · intro depth program main m' compiled frames a within
      -- compiling the program makes one object, its main function; the run begins after that
      obtain ⟨closed', grows, -⟩ := closed.compile closed.global compiled
      have idle' : m'.roots.parked = none := by
        rw [Machine.compile_roots compiled]
        exact idle
      refine within.allocated ⟨⟨closed'.same rfl rfl, idle'⟩, trivial, ?_⟩ grows
      exact Discipline.fine_plain _ rfl

/-- A program that registers a function under `f`, calls it, and fails. -/
def registersThenFails : Block :=
  .mk [.function (some "f") [] (.mk [.ret (.object [("x", .object [] 1)] 1) 1] 1) 1,
    .setField (.call (.var "f" 2) [] 2) "y" (.literal (.int 1) 2) 2,
    .call (.var "g" 3) [] 3] 1

theorem objects_never_dangle_failing :
    ∃ (site : CallSite) (m m' : Machine) (o o' : Object) (answer : Answer),
      m.Tended [site, { argCount := 2, maxDepth := 3 }] ∧ site.strategy ≠ .guarded [] ∧
      (∀ guards, site.strategy = .guarded guards → ∀ g ∈ guards, g.expected < m.heap.size) ∧
      serve 3 (.execute registersThenFails) m = some (answer, m') ∧ answer.toBool = false ∧
      m.heap.object? Machine.global = some o ∧ m'.heap.object? Machine.global = some o' ∧
      o.Extends o' ∧ o'.properties.keys = o.properties.keys ++ ["f"] ∧ m'.Closed := by
  have ran : ((CallSite.invoke { argCount := 2, maxDepth := 3 } 1 (.object 1) .undefined
      [.int 1, .int 2] (Machine.boot 3 .accepting)).bind fun r =>
        (execute 3 registersThenFails r.2).bind fun s =>
          (r.2.heap.object? Machine.global).bind fun o =>
            (s.2.heap.object? Machine.global).map fun o' =>
              (r.1.2.regime, s.1.toBool,
                decide (o'.properties.keys = o.properties.keys ++ ["f"]))) =
      some (.monomorphic, false, true) := by decide +kernel
  obtain ⟨⟨⟨given, site⟩, m⟩, called, rest⟩ := Option.bind_eq_some_iff.mp ran
  obtain ⟨⟨answer, m'⟩, executed, rest⟩ := Option.bind_eq_some_iff.mp rest
  obtain ⟨o, object, rest⟩ := Option.bind_eq_some_iff.mp rest
  obtain ⟨o', object', facts⟩ := Option.map_eq_some_iff.mp rest
  obtain ⟨regime, facts⟩ := Prod.mk.inj facts
  obtain ⟨failed, keys⟩ := Prod.mk.inj facts
  have known : ∀ v ∈ [Value.object 1, .undefined, .int 1, .int 2],
      v.Below (Machine.boot 3 .accepting).heap.size := by
    intro v member
    rcases List.mem_cons.mp member with rfl | member
    · exact Value.below_object.mpr (by decide +kernel)
    · rintro id rfl
      simp at member
  have tended : m.Tended [site, { argCount := 2, maxDepth := 3 }] :=
    ((Machine.Tended.boot 3 .accepting).site 2 3).call (List.mem_singleton_self _) known called
  obtain ⟨reachable, closed, idle, guards⟩ := objects_never_dangle.2.1 _ _ tended
  obtain ⟨-, -, -, -, served, -⟩ := objects_never_dangle.2.2 m closed idle
  obtain ⟨o'', found, extends_⟩ :=
    objects_never_dangle.1 m m' reachable (Or.inl ⟨3, .execute registersThenFails, answer, executed⟩)
      Machine.global o object
  cases object'.symm.trans found
  obtain ⟨closed', -⟩ := served 3 (.execute registersThenFails) answer m' trivial executed
  refine ⟨site, m, m', o, o', answer, tended, ?_, ?_, executed, failed,
    object, object', extends_, of_decide_eq_true keys, closed'⟩
  · intro same
    simp only [CallSite.regime, same] at regime
    cases regime
  · intro gs same g member
    exact (guards site List.mem_cons_self gs same g member).1

end ScriptEngine
