import ScriptEngine.Proofs.Simulation

/-!
# Sessions

A host boots an engine and asks it for one thing after another: to run programs, to compile and define
functions, to invoke what was made before. Whatever it asks, and however much the sites of the engine
have learned by then, it gets the answers that running the trees gives.
-/

namespace ScriptEngine

open Reference (World Outcome)

/-- What a host asks of an engine. -/
inductive Request where
  | execute (program : Block)
  /-- Read a program and run it. -/
  | document (text : String)
  | compile (f : FunctionDef)
  | invoke (id : ObjectId) (receiver : Value) (args : List Value)
  /-- Enter a callable without a look at the number of arguments. -/
  | enter (entry : Callable) (receiver : Value) (args : List Value)
  | create (proto : Option ObjectId)
  | define (owner : ObjectId) (name : String) (arity : Arity) (body : HostFunction)
  | register (id : ObjectId) (key : String) (v : Value)

abbrev Answer := Except ExecError Value

/-- Serve one request. -/
def serve (depth : Nat) : Request → Run Answer
  | .execute program => execute depth program
  | .document text => executeDocument depth text
  | .compile f => fun m =>
      match m.compile f with
      | .error e => some (.error (.compile e), m)
      | .ok (id, m) => some (.ok (.object id), m)
  | .invoke id receiver args => fun m =>
      (invoke depth id receiver args m).map fun (result, m) => (result.mapError .runtime, m)
  | .enter entry receiver args => fun m =>
      (enter depth entry receiver args m).map fun (result, m) => (result.mapError .runtime, m)
  | .create proto => fun m =>
      let (id, heap) := m.heap.newObject proto
      some (.ok (.object id), { m with heap })
  | .define owner name arity body => fun m =>
      let (id, m) := m.define owner name arity body
      some (.ok (.object id), m)
  | .register id key v => fun m => some (.ok v, { m with heap := m.heap.register id key v })

/-- Serve requests in order, each with a bound on the calls that may be open at once. -/
def inTurn {σ : Type} (serve : Nat → Request → StateT σ Option Answer) :
    List (Nat × Request) → StateT σ Option (List Answer)
  | [] => return []
  | (depth, request) :: rest => do
      let answer ← serve depth request
      return answer :: (← inTurn serve rest)

def session (requests : List (Nat × Request)) : Run (List Answer) := inTurn serve requests

/-- The machines a host can get to. -/
inductive Machine.Reachable : Machine → Prop
  | boot (cacheDepth : Nat) (sink : Sink) : Reachable (Machine.boot cacheDepth sink)
  | serve {m m' : Machine} {depth : Nat} {request : Request} {answer : Answer} :
      Reachable m → serve depth request m = some (answer, m') → Reachable m'
  /-- The host may call through call sites of its own. -/
  | site {m m' : Machine} {site site' : CallSite} {depth : Nat} {callee receiver : Value}
      {args : List Value} {result : Except RuntimeError Value} : Reachable m →
      site.invoke depth callee receiver args m = some ((result, site'), m') → Reachable m'

namespace Reference

/-- Define a host function under its name. -/
def World.define (w : World) (owner : ObjectId) (name : String) (arity : Arity)
    (body : HostFunction) : ObjectId × World :=
  let (id, heap) := w.heap.newNative name arity body
  (id, { w with heap := heap.register owner name (.object id) })

/-- A fresh engine. -/
def World.boot (sink : Sink) : World :=
  let (_, heap) := ({} : Heap).newEnv none
  let w := Operator.all.foldl
    (fun w op => (w.define Machine.global op.symbol (.fixed 2) (.operator op)).2)
    ({ heap, sink } : World)
  (w.define Machine.global "print" .variadic .print).2

/-- Run a program. -/
def execute (depth : Nat) (program : Block) : Run Answer := fun w =>
  match w.compile (mainFunction program) with
  | .error e => some (.error (.compile e), w)
  | .ok (main, w) =>
      (invokeObject (enter depth) main .undefined [] w).map fun (result, w) =>
        (result.mapError .runtime, w)

/-- Serve one request. -/
def serve (depth : Nat) : Request → Run Answer
  | .execute program => execute depth program
  | .document text => fun w =>
      match Block.parse text with
      | .error e => some (.error (.document e), w)
      | .ok program => execute depth program w
  | .compile f => fun w =>
      match w.compile f with
      | .error e => some (.error (.compile e), w)
      | .ok (id, w) => some (.ok (.object id), w)
  | .invoke id receiver args => fun w =>
      (invokeObject (enter depth) id receiver args w).map fun (result, w) =>
        (result.mapError .runtime, w)
  | .enter entry receiver args => fun w =>
      (enter depth entry receiver args w).map fun (result, w) => (result.mapError .runtime, w)
  | .create proto => fun w =>
      let (id, heap) := w.heap.newObject proto
      some (.ok (.object id), { w with heap })
  | .define owner name arity body => fun w =>
      let (id, w) := w.define owner name arity body
      some (.ok (.object id), w)
  | .register id key v => fun w => some (.ok v, w.register id key v)

def session (requests : List (Nat × Request)) : Run (List Answer) := inTurn serve requests

end Reference

theorem refines_pure {α : Type} (a : α) : Refines (pure a) (pure a) := fun _ sound =>
  .ends sound.refl

theorem refines_bind {α β : Type} {x : Run α} {y : Reference.Run α} {f : α → Run β}
    {g : α → Reference.Run β} (left : Refines x y) (right : ∀ a, Refines (f a) (g a)) :
    Refines (x >>= f) (y >>= g) := by
  intro m sound
  have first := left m sound
  change m.Agrees ((x m).bind fun (a, m) => f a m) ((y m.observe).bind fun (a, w) => g a w)
  generalize x m = r at first
  generalize y m.observe = r' at first
  cases first with
  | stuck => exact .stuck
  | @ends a m' leads => exact (right a m' leads.sound).after leads

namespace Machine

theorem Agrees.map {α β : Type} {m : Machine} {r : Option (α × Machine)}
    {r' : Option (α × World)} (agrees : m.Agrees r r') (f : α → β) :
    m.Agrees (r.map fun (a, m) => (f a, m)) (r'.map fun (a, w) => (f a, w)) := by
  cases agrees with
  | stuck => exact .stuck
  | ends leads => exact .ends leads

theorem Sound.define {m : Machine} (sound : m.Sound) (owner : ObjectId) (name : String)
    (arity : Arity) (body : HostFunction) : m.Leads (m.define owner name arity body).2 :=
  sound.leads_heap rfl ((m.heap.newFunction_grows _ _).trans (Heap.register_grows _ _ _ _)) rfl

end Machine

theorem compile_refines (depth : Nat) (f : FunctionDef) :
    Refines (serve depth (.compile f)) (Reference.serve depth (.compile f)) := by
  intro m sound
  rcases sound.compile f with ⟨e, failed, failed'⟩ | ⟨id, m', done, done', leads⟩
  · simp only [serve, Reference.serve, failed, failed']
    exact .ends sound.refl
  · simp only [serve, Reference.serve, done, done']
    exact .ends leads

theorem execute_refines (depth : Nat) (program : Block) :
    Refines (execute depth program) (Reference.execute depth program) := by
  intro m sound
  rcases sound.compile (mainFunction program) with
    ⟨e, failed, failed'⟩ | ⟨main, m', done, done', leads⟩
  · simp only [execute, Reference.execute, failed, failed']
    exact .ends sound.refl
  · have logged := leads.trans (leads.sound.log? (some (.executingProgram program.instrs.length)))
    have invoked : m.Agrees
        (invoke depth main .undefined [] (m'.log (.executingProgram program.instrs.length)))
        (Reference.invokeObject (Reference.enter depth) main .undefined [] m'.observe) :=
      (invokeObject_refines (enter_refines depth) main .undefined [] _ logged.sound).after logged
    simp only [execute, Reference.execute, done, done']
    generalize invoke depth main .undefined [] _ = r at invoked
    generalize Reference.invokeObject (Reference.enter depth) main .undefined [] _ = r' at invoked
    cases invoked with
    | stuck => exact .stuck
    | ends further => exact .ends further

theorem serve_refines (depth : Nat) (request : Request) :
    Refines (serve depth request) (Reference.serve depth request) := by
  cases request with
  | execute program => exact execute_refines depth program
  | document text =>
    intro m sound
    cases parsed : Block.parse text with
    | error e =>
      simp only [serve, executeDocument, Reference.serve, parsed]
      exact .ends sound.refl
    | ok program =>
      simp only [serve, executeDocument, Reference.serve, parsed]
      exact execute_refines depth program m sound
  | compile f => exact compile_refines depth f
  | invoke id receiver args =>
    exact fun m sound =>
      (invokeObject_refines (enter_refines depth) id receiver args m sound).map _
  | enter entry receiver args =>
    exact fun m sound => (enter_refines depth entry receiver args m sound).map _
  | create proto =>
    exact fun m sound => .ends (sound.leads_heap rfl (m.heap.newObject_grows proto) rfl)
  | define owner name arity body =>
    exact fun m sound => .ends (sound.define owner name arity body)
  | register id key v => exact fun m sound => .ends (sound.register id key v)

theorem session_refines (requests : List (Nat × Request)) :
    Refines (session requests) (Reference.session requests) := by
  induction requests with
  | nil => exact refines_pure []
  | cons head rest ih =>
    exact refines_bind (serve_refines head.1 head.2) fun answer =>
      refines_bind ih fun answers => refines_pure (answer :: answers)

theorem operators_sound (ops : List Operator) {m : Machine} (sound : m.Sound) :
    (ops.foldl (fun m op => (m.define Machine.global op.symbol (.fixed 2) (.operator op)).2)
      m).Sound := by
  induction ops generalizing m with
  | nil => exact sound
  | cons op ops ih => exact ih (sound.define _ _ _ _).sound

theorem boot_sound (cacheDepth : Nat) (sink : Sink) : (Machine.boot cacheDepth sink).Sound := by
  have empty : ∀ heap, Machine.Sound { heap, cacheDepth, sink } := by
    intro heap i u found
    simp at found
  rw [Machine.boot]
  exact ((operators_sound _ (empty _)).define _ _ _ _).sound

theorem observe_define (m : Machine) (owner : ObjectId) (name : String) (arity : Arity)
    (body : HostFunction) : (m.define owner name arity body).2.observe =
      (m.observe.define owner name arity body).2 := rfl

theorem observe_operators (ops : List Operator) (m : Machine) :
    (ops.foldl (fun m op => (m.define Machine.global op.symbol (.fixed 2) (.operator op)).2)
      m).observe =
    ops.foldl (fun w op => (w.define Machine.global op.symbol (.fixed 2) (.operator op)).2)
      m.observe := by
  induction ops generalizing m with
  | nil => rfl
  | cons op ops ih => exact ih _

theorem observe_boot (cacheDepth : Nat) (sink : Sink) :
    (Machine.boot cacheDepth sink).observe = World.boot sink := by
  have empty : ∀ heap, Machine.observe { heap, cacheDepth, sink } = { heap, sink } := by
    simp [Machine.observe]
  rw [Machine.boot, World.boot, observe_define, observe_operators, empty]

/-- What a host can observe of the end of a run. -/
def observed {α : Type} (r : Option (α × Machine)) : Option (α × World) :=
  r.map fun (a, m) => (a, m.observe)

theorem Machine.Agrees.observed_eq {α : Type} {m : Machine} {r : Option (α × Machine)}
    {r' : Option (α × World)} (agrees : m.Agrees r r') : observed r = r' := by
  cases agrees <;> rfl

theorem Machine.Agrees.leads {α : Type} {m m' : Machine} {r : Option (α × Machine)}
    {r' : Option (α × World)} {a : α} (agrees : m.Agrees r r') (done : r = some (a, m')) :
    m.Leads m' := by
  cases agrees with
  | stuck => cases done
  | ends leads =>
    cases done
    exact leads

theorem CallSite.invoke_eq (site : CallSite) (depth : Nat) (callee receiver : Value)
    (args : List Value) (m : Machine) :
    site.invoke depth callee receiver args m =
      match site.dispatch m.heap callee with
      | .error e => some ((.error e, site), m)
      | .ok d => (enter depth d.target receiver args (m.log? d.event)).map
          fun (result, m) => ((result, d.site), m) := by
  cases found : site.dispatch m.heap callee with
  | error e => simp [CallSite.invoke, Machine.dispatchAt, found]
  | ok d =>
    cases run : enter depth d.target receiver args (m.log? d.event) <;>
      simp [CallSite.invoke, Machine.dispatchAt, found, run]

theorem CallSite.invoke_leads {m m' : Machine} (sound : m.Sound) {site site' : CallSite}
    {depth : Nat} {callee receiver : Value} {args : List Value}
    {result : Except RuntimeError Value}
    (called : site.invoke depth callee receiver args m = some ((result, site'), m')) :
    m.Leads m' := by
  rw [CallSite.invoke_eq] at called
  cases found : site.dispatch m.heap callee with
  | error e =>
    simp only [found] at called
    cases called
    exact sound.refl
  | ok d =>
    simp only [found] at called
    have logged := sound.log? d.event
    have entered := (enter_refines depth d.target receiver args _ logged.sound).after logged
    exact (entered.map fun result => (result, d.site)).leads called

theorem Machine.Reachable.sound {m : Machine} (reachable : m.Reachable) : m.Sound := by
  induction reachable with
  | boot cacheDepth sink => exact boot_sound cacheDepth sink
  | serve _ served ih => exact ((serve_refines _ _ _ ih).leads served).sound
  | site _ called ih => exact (CallSite.invoke_leads ih called).sound

/-- A unit and a second one compiled from the same function, in the same machine. -/
theorem invokeUnit_same_definition {m : Machine} (sound : m.Sound) {unit copy : UnitId}
    {f : FunctionDef} (first : (m.units[unit]?).map (·.definition) = some f)
    (second : (m.units[copy]?).map (·.definition) = some f) (depth : Nat) (receiver : Value)
    (args : List Value) :
    observed (invokeUnit (enter depth) unit receiver args m) =
      observed (invokeUnit (enter depth) copy receiver args m) := by
  have functions : ∀ i : Nat, m.observe.functions[i]? = (m.units[i]?).map (·.definition) :=
    fun _ => Array.getElem?_map
  rw [(invokeUnit_refines (enter_refines depth) unit receiver args m sound).observed_eq,
    (invokeUnit_refines (enter_refines depth) copy receiver args m sound).observed_eq]
  simp only [Reference.invokeFunction, functions, first, second]

theorem session_observed (cacheDepth : Nat) (sink : Sink) (requests : List (Nat × Request)) :
    observed (session requests (Machine.boot cacheDepth sink)) =
      Reference.session requests (World.boot sink) := by
  rw [← observe_boot cacheDepth sink]
  exact (session_refines requests _ (boot_sound cacheDepth sink)).observed_eq

/-- What sites remember can not be observed. A session with sites of any depth ends exactly when the
session on trees ends, with the same answers, the same output and the same heap; so the depth makes no
difference, and a unit that has run behaves like a copy compiled just now. -/
theorem sites_are_unobservable :
    (∀ (cacheDepth : Nat) (sink : Sink) (requests : List (Nat × Request)),
      observed (session requests (Machine.boot cacheDepth sink)) =
        Reference.session requests (World.boot sink)) ∧
    (∀ (cacheDepth cacheDepth' : Nat) (sink : Sink) (requests : List (Nat × Request)),
      observed (session requests (Machine.boot cacheDepth sink)) =
        observed (session requests (Machine.boot cacheDepth' sink))) ∧
    (∀ (m : Machine) (unit : UnitId) (u : CompiledUnit), m.Reachable → m.units[unit]? = some u →
      ∃ copy fresh m', m.compile u.definition = .ok (copy, m') ∧
        u.definition.compile m.cacheDepth = .ok fresh ∧ m'.units[m.units.size]? = some fresh ∧
        m'.heap.callable? copy = some (.compiled m.units.size u.name u.arity) ∧
        ∀ (depth : Nat) (receiver : Value) (args : List Value),
          observed (invokeUnit (enter depth) unit receiver args m') =
            observed (invokeUnit (enter depth) m.units.size receiver args m')) := by
  refine ⟨session_observed, ?_, ?_⟩
  · intro cacheDepth cacheDepth' sink requests
    rw [session_observed, session_observed]
  · intro m unit u reachable found
    have sound := reachable.sound
    obtain ⟨fresh, compiled, tracks⟩ := sound unit u found
    obtain ⟨event, done⟩ := Machine.compile_of_ok compiled
    have last : (m.units.push fresh)[m.units.size]? = some fresh := by simp
    have name : fresh.name = u.name := by rw [CompiledUnit.name, CompiledUnit.name, tracks.definition]
    have arity : fresh.arity = u.arity := by
      rw [CompiledUnit.arity, CompiledUnit.arity, tracks.definition]
    refine ⟨_, fresh, _, done, compiled, last, ?_, ?_⟩
    · rw [← name, ← arity]
      exact m.heap.newFunction_callable _ _
    · intro depth receiver args
      have leads := sound.compile_leads done
      exact invokeUnit_same_definition leads.sound (leads.units unit u.definition (by simp [found]))
        (by rw [last, Option.map_some, tracks.definition]) depth receiver args

/-- One call site that calls two operators in turn. -/
def twoCallees : Block :=
  .mk [.function (some "use") ["f"]
        (.mk [.ret (.call (.var "f" 1) [.literal (.int 1) 1, .literal (.int 2) 1] 1) 1] 1) 1,
      .call (.var "use" 2) [.var "+" 2] 2, .call (.var "use" 3) [.var "-" 3] 3] 1

/-- The function with that call site has run twice, at a depth of one guard, and has given up its
guards; it behaves like its copy, which has none yet. -/
theorem sites_are_unobservable_after_two_callees :
    ∃ (m : Machine) (u fresh : CompiledUnit) (copy : ObjectId) (m' : Machine), m.Reachable ∧
      m.units[1]? = some u ∧ u.regimes = [.megamorphic] ∧
      m.compile u.definition = .ok (copy, m') ∧ m'.units[m.units.size]? = some fresh ∧
      ∀ (depth : Nat) (receiver : Value) (args : List Value),
        observed (invokeUnit (enter depth) 1 receiver args m') =
          observed (invokeUnit (enter depth) m.units.size receiver args m') := by
  have ran : ((serve 9 (.execute twoCallees) (Machine.boot 1 .accepting)).bind fun r =>
      (r.2.units[1]?).map (·.regimes)) = some [.megamorphic] := by decide +kernel
  obtain ⟨⟨answer, m⟩, served, second⟩ := Option.bind_eq_some_iff.mp ran
  obtain ⟨u, found, regimes⟩ := Option.map_eq_some_iff.mp second
  have reachable : m.Reachable := (Machine.Reachable.boot 1 .accepting).serve served
  obtain ⟨copy, fresh, m', compiled, -, last, -, same⟩ :=
    sites_are_unobservable.2.2 m 1 u reachable found
  exact ⟨m, u, fresh, copy, m', reachable, found, regimes, compiled, last, same⟩

/-- The end of a body that ran on slots, as seen on names. -/
def Scope.seen {α : Type} (scope : Scope) : Flow α × Machine → Outcome α × World
  | (.next a locals, m) => (.next a (scope.view locals), m.observe)
  | (.returned v, m) => (.returned v, m.observe)
  | (.aborted, m) => (.failed m.takeParked.1, m.observe)

theorem Ends.seen_eq {α : Type} {scope : Scope} {m : Machine} {r : Option (Flow α × Machine)}
    {r' : Option (Outcome α × World)} (ends : Ends scope m r r') : r.map scope.seen = r' := by
  cases ends <;> rfl

theorem serve_compile {m m' : Machine} {f : FunctionDef} {id : ObjectId}
    (done : m.compile f = .ok (id, m')) :
    serve 0 (.compile f) m = some (.ok (.object id), m') := by
  simp only [serve, done]

/-- Whatever compiles becomes a unit of a machine the host can get to. -/
theorem Machine.Reachable.compile {m : Machine} (reachable : m.Reachable) {f : FunctionDef}
    {fresh : CompiledUnit} (compiled : f.compile m.cacheDepth = .ok fresh) :
    ∃ id m', m.compile f = .ok (id, m') ∧ m'.Reachable ∧ m'.units[m.units.size]? = some fresh := by
  obtain ⟨event, done⟩ := Machine.compile_of_ok compiled
  exact ⟨_, _, done, reachable.serve (serve_compile done), by simp⟩

/-- A body run on slots does what it does on names. Exactly the receiver, the parameters and what the body
declares have slots, no two of them the same one, and the body ends with the same result or failure, the
same effects and the same values under its names. -/
theorem slots_refine_names {m : Machine} (reachable : m.Reachable) :
    (∀ (f : FunctionDef) (fresh : CompiledUnit), f.compile m.cacheDepth = .ok fresh →
      ∃ id m', m.compile f = .ok (id, m') ∧ m'.Reachable ∧
        m'.units[m.units.size]? = some fresh) ∧
    ∀ (unit : UnitId) (u : CompiledUnit) (depth : Nat) (receiver : Value) (args : List Value),
      m.units[unit]? = some u → args.length = u.arity →
      (∀ x, (∃ slot, u.scope.lookup x = some slot) ↔ x ∈ u.definition.locals) ∧
      (∀ x y slot, u.scope.lookup x = some slot → u.scope.lookup y = some slot → x = y) ∧
      (u.initialLocals receiver args).length = u.scope.slotCount ∧
      u.scope.view (u.initialLocals receiver args) = u.definition.initialEnv receiver args ∧
      (evalBody (enter depth) unit u.code (u.initialLocals receiver args) m).map u.scope.seen =
        Reference.evalBlock (Reference.enter depth) u.definition.global u.definition.body
          (u.definition.initialEnv receiver args) m.observe ∧
      observed (invokeUnit (enter depth) unit receiver args m) =
        Reference.runBody (Reference.enter depth) u.definition receiver args m.observe := by
  refine ⟨fun f fresh => reachable.compile, ?_⟩
  intro unit u depth receiver args found count
  have sound := reachable.sound
  obtain ⟨fresh, compiled, tracks⟩ := sound unit u found
  obtain ⟨-, resolved, -⟩ := FunctionDef.compile_ok compiled
  have scope : u.scope = Scope.resolve u.definition.params u.definition.body :=
    tracks.scope.trans resolved
  obtain ⟨fits, view⟩ := CompiledUnit.view_initialLocals scope receiver args
  refine ⟨?_, ?_, fits, view, ?_, ?_⟩
  · intro x
    rw [← Option.isSome_iff_exists, Option.isSome_iff_ne_none, scope, ne_eq,
      Scope.lookup_resolve_eq_none_iff, not_not]
  · intro x y slot first second
    exact Scope.lookup_injective first second
  · exact (body_ends (enter_refines depth) sound found receiver args).seen_eq
  · have functions : m.observe.functions[unit]? = some u.definition := by
      simp [Machine.observe, found]
    rw [(invokeUnit_refines (enter_refines depth) unit receiver args m sound).observed_eq]
    have same : args.length = u.definition.params.length := count
    simp only [Reference.invokeFunction, functions, same, ne_eq, not_true_eq_false, if_false]

/-- A repeated parameter, and one with the name of the receiver. -/
def lastOfThree : FunctionDef where
  name := some "last"
  params := ["x", "this", "x"]
  body := .mk [.assign "y" (.var "x" 1) true 1, .ret (.var "y" 1) 1] 1
  global := Machine.global

theorem slots_refine_names_repeated_parameter :
    ∃ (m : Machine) (u : CompiledUnit), m.Reachable ∧ m.units[0]? = some u ∧
      u.definition = lastOfThree ∧ u.arity = 3 ∧
      observed (invokeUnit (enter 1) 0 .null [.int 1, .int 2, .int 3] m) =
        Reference.runBody (Reference.enter 1) lastOfThree .null [.int 1, .int 2, .int 3]
          m.observe := by
  obtain ⟨fresh, compiled⟩ := FunctionDef.compile_of_check_ok (f := lastOfThree) rfl 3
  obtain ⟨definition, -⟩ := FunctionDef.compile_ok compiled
  have booted := Machine.Reachable.boot 3 .accepting
  obtain ⟨id, m, -, reachable, found⟩ := (slots_refine_names booted).1 lastOfThree fresh compiled
  have arity : fresh.arity = 3 := by rw [CompiledUnit.arity, definition]; rfl
  obtain ⟨-, -, -, -, -, same⟩ := (slots_refine_names reachable).2 0 fresh 1 .null
    [.int 1, .int 2, .int 3] found arity.symm
  exact ⟨m, fresh, reachable, found, definition, arity, definition ▸ same⟩

/-- Call a value without a site. -/
def callDirectly (depth : Nat) (callee receiver : Value) (args : List Value) :
    Run (Except RuntimeError Value) := fun m =>
  match callee with
  | .object id => invoke depth id receiver args m
  | v => some (.error (.notCallable (m.heap.describe v)), m)

theorem callDirectly_eq (depth : Nat) (callee receiver : Value) (args : List Value)
    (m : Machine) :
    callDirectly depth callee receiver args m =
      match m.heap.resolveCallee callee args.length with
      | .ok (_, target) => enter depth target receiver args m
      | .error e => some (.error e, m) := by
  cases callee with
  | object id =>
    cases found : m.heap.callable? id with
    | none => simp [callDirectly, invoke, invokeObject, Heap.resolveCallee, found]
    | some entry =>
      cases checked : entry.arity.check args.length <;>
        simp [callDirectly, invoke, invokeObject, Heap.resolveCallee, found, checked, bind,
          Except.bind, pure, Except.pure]
  | _ => rfl

theorem callDirectly_refines (depth : Nat) (callee receiver : Value) (args : List Value) :
    Refines (callDirectly depth callee receiver args)
      (Reference.callValue (Reference.enter depth) callee receiver args) := by
  intro m sound
  have same : m.observe.heap = m.heap := rfl
  rw [callDirectly_eq]
  cases resolved : m.heap.resolveCallee callee args.length with
  | error e =>
    simp only [Reference.callValue, same, resolved]
    exact .ends sound.refl
  | ok found =>
    simp only [Reference.callValue, same, resolved]
    exact enter_refines depth found.2 receiver args m sound

/-- A site whose guards are true calls as it is called directly, after the event of the site. -/
theorem CallSite.Linked.invoke_eq {site : CallSite} {m : Machine} (linked : site.Linked m.heap)
    (depth : Nat) (callee receiver : Value) {args : List Value}
    (fits : args.length = site.argCount) :
    site.invoke depth callee receiver args m =
      (callDirectly depth callee receiver args (m.log? (site.report m.heap callee))).map
        fun r => ((r.1, site.after m.heap callee), r.2) := by
  have target := CallSite.dispatch_target linked callee
  rw [← fits] at target
  rw [CallSite.invoke_eq, callDirectly_eq, Machine.log?_heap]
  cases found : site.dispatch m.heap callee with
  | error e =>
    cases resolved : m.heap.resolveCallee callee args.length with
    | ok pair => simp [found, resolved, Except.map] at target
    | error e' =>
      obtain rfl : e = e' := by simpa [found, resolved, Except.map] using target
      simp [CallSite.report, CallSite.after, found, Machine.log?]
  | ok d =>
    cases resolved : m.heap.resolveCallee callee args.length with
    | error e => simp [found, resolved, Except.map] at target
    | ok pair =>
      have same : d.target = pair.2 := by simpa [found, resolved, Except.map] using target
      simp only [CallSite.report, CallSite.after, found, same]

theorem CallSite.Linked.invoke_observed {site : CallSite} {m : Machine}
    (linked : site.Linked m.heap) (sound : m.Sound) (depth : Nat) (callee receiver : Value)
    {args : List Value} (fits : args.length = site.argCount) :
    (observed (site.invoke depth callee receiver args m)).map (fun r => (r.1.1, r.2)) =
      observed (callDirectly depth callee receiver args m) := by
  have direct := callDirectly_refines depth callee receiver args
  have logged := direct _ (sound.log? (site.report m.heap callee)).sound
  rw [Machine.observe_log?] at logged
  rw [(direct m sound).observed_eq, ← logged.observed_eq,
    linked.invoke_eq depth callee receiver fits]
  simp only [observed, Option.map_map]
  rfl

theorem CallSite.Linked.invoke_site {site site' : CallSite} {m m' : Machine}
    (linked : site.Linked m.heap) {depth : Nat} {callee receiver : Value} {args : List Value}
    (fits : args.length = site.argCount) {result : Except RuntimeError Value}
    (done : site.invoke depth callee receiver args m = some ((result, site'), m')) :
    site' = site.after m.heap callee := by
  rw [linked.invoke_eq depth callee receiver fits] at done
  obtain ⟨r, -, same⟩ := Option.map_eq_some_iff.mp done
  exact (congrArg (·.1.2) same).symm

end ScriptEngine
