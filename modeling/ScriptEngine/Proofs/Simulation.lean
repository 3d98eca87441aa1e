import ScriptEngine.Proofs.Tracking

/-!
# Code runs as its tree

Running code on slots and sites is compared, node by node, with evaluating its tree on names. Both end
together, with the same value or the same failure, and leave the same to observe. This holds for every
bound on nested calls, and so also for calls that come back to a unit which is still running.
-/

namespace ScriptEngine

open Reference (World Env Eval Outcome)

/-- From every sound machine both runs end alike. -/
def Refines {α : Type} (x : Run α) (y : Reference.Run α) : Prop :=
  ∀ m : Machine, m.Sound → m.Agrees (x m) (y m.observe)

/-- Both ways to enter callables end alike. -/
def RefinesEnter (enter : Enter) (enter' : Reference.Enter) : Prop :=
  ∀ entry receiver args, Refines (enter entry receiver args) (enter' entry receiver args)

namespace Machine

theorem Agrees.after {α : Type} {m m' : Machine} (leads : m.Leads m')
    {r : Option (α × Machine)} {r' : Option (α × World)} (agrees : m'.Agrees r r') :
    m.Agrees r r' := by
  cases agrees with
  | stuck => exact .stuck
  | ends further => exact .ends (leads.trans further)

theorem Sound.root {m : Machine} (sound : m.Sound) (v : Value) : m.Leads (m.root v) :=
  sound.leads_heap rfl .refl rfl

theorem observe_root (m : Machine) (v : Value) : (m.root v).observe = m.observe.keep v := by
  cases heap : v.isHeap <;> simp [observe, root, Roots.root, World.keep, heap]

theorem Sound.park {m : Machine} (sound : m.Sound) (e : RuntimeError) : m.Leads (m.park e) :=
  sound.leads_heap rfl .refl rfl

theorem Sound.release {m : Machine} (sound : m.Sound) (mark : Nat) : m.Leads (m.release mark) :=
  sound.leads_heap rfl .refl rfl

theorem Sound.takeParked {m : Machine} (sound : m.Sound) : m.Leads m.takeParked.2 :=
  sound.leads_heap rfl .refl rfl

theorem Sound.newObject {m : Machine} (sound : m.Sound) :
    m.Agrees (some m.newObject) (some m.observe.newObject) :=
  .ends (sound.leads_heap rfl (m.heap.newObject_grows none) rfl)

theorem Sound.register {m : Machine} (sound : m.Sound) (id : ObjectId) (key : String) (v : Value) :
    m.Leads { m with heap := m.heap.register id key v } :=
  sound.leads_heap rfl (m.heap.register_grows id key v) rfl

theorem Sound.setField {m : Machine} (sound : m.Sound) (site : FieldSite) (receiver value : Value) :
    m.Agrees (some (m.setField site receiver value))
      (some (m.observe.setField site.name receiver value)) := by
  cases receiver with
  | object id => exact .ends (sound.register id site.name value)
  | _ => exact .ends sound.refl

theorem Sound.print {m : Machine} (sound : m.Sound) (args : List Value) :
    m.Agrees (some (m.print args)) (some (m.observe.print args)) := by
  have same : m.observe.sink = m.sink := rfl
  cases sink : m.sink with
  | accepting =>
    simp only [Machine.print, World.print, same, sink]
    exact .ends (sound.leads_heap rfl .refl rfl)
  | refusesWrite =>
    simp only [Machine.print, World.print, same, sink]
    exact .ends sound.refl
  | refusesFlush =>
    simp only [Machine.print, World.print, same, sink]
    exact .ends (sound.leads_heap rfl .refl rfl)

end Machine

theorem invokeObject_refines {enter : Enter} {enter' : Reference.Enter}
    (enters : RefinesEnter enter enter') (id : ObjectId) (receiver : Value) (args : List Value) :
    Refines (invokeObject enter id receiver args)
      (Reference.invokeObject enter' id receiver args) := by
  intro m sound
  have same : m.observe.heap = m.heap := rfl
  cases found : m.heap.callable? id with
  | none =>
    simp only [invokeObject, Reference.invokeObject, same, found]
    exact .ends sound.refl
  | some entry =>
    cases checked : entry.arity.check args.length with
    | error e =>
      simp only [invokeObject, Reference.invokeObject, same, found, checked]
      exact .ends sound.refl
    | ok _ =>
      simp only [invokeObject, Reference.invokeObject, same, found, checked]
      exact enters entry receiver args m sound

theorem callMethod_refines {enter : Enter} {enter' : Reference.Enter}
    (enters : RefinesEnter enter enter') (site : MethodSite) (receiver : Value)
    (args : List Value) :
    Refines (callMethod enter site receiver args)
      (Reference.callMethod enter' site.name receiver args) := by
  intro m sound
  have same : MethodSite.resolve { name := site.name, argCount := args.length } m.observe.heap
      receiver = site.resolve m.heap receiver := rfl
  cases resolved : site.resolve m.heap receiver with
  | error e =>
    simp only [callMethod, Reference.callMethod, same, resolved]
    exact .ends sound.refl
  | ok method =>
    simp only [callMethod, Reference.callMethod, same, resolved]
    exact invokeObject_refines enters method receiver args m sound

/-- A call at a site of a unit does what resolving the callee and entering it does. -/
theorem callAt_agrees {enter : Enter} {enter' : Reference.Enter}
    (enters : RefinesEnter enter enter') {m : Machine} (sound : m.Sound) {unit : UnitId}
    {fresh : CompiledUnit} (holds : m.Holds unit fresh) {place : Nat} {site : CallSite}
    (wanted : fresh.sites.calls[place]? = some site) (callee receiver : Value) {args : List Value}
    (fits : args.length = site.argCount) :
    m.Agrees (callAt enter unit place callee receiver args m)
      (Reference.callValue enter' callee receiver args m.observe) := by
  obtain ⟨m', dispatched, same, leads⟩ := sound.dispatchCall holds wanted callee
  rw [← fits] at dispatched
  have heap : m.observe.heap = m.heap := rfl
  cases resolved : m.heap.resolveCallee callee args.length with
  | error e =>
    simp only [callAt, Reference.callValue, dispatched, heap, resolved, Except.map]
    exact .ends_in leads same
  | ok found =>
    simp only [callAt, Reference.callValue, dispatched, heap, resolved, Except.map]
    rw [← same]
    exact (enters found.2 receiver args m' leads.sound).after leads

/-- A node ends alike on slots and on names: the slots stand for the names, and a parked failure is
the failure. -/
inductive Ends {α : Type} (scope : Scope) (m : Machine) :
    Option (Flow α × Machine) → Option (Outcome α × World) → Prop
  | stuck : Ends scope m none none
  | next {a : α} {locals : List Value} {m' : Machine} (fits : locals.length = scope.slotCount)
      (leads : m.Leads m') :
      Ends scope m (some (.next a locals, m')) (some (.next a (scope.view locals), m'.observe))
  | returned {v : Value} {m' : Machine} (leads : m.Leads m') :
      Ends scope m (some (.returned v, m')) (some (.returned v, m'.observe))
  | failed {m' : Machine} (leads : m.Leads m') :
      Ends scope m (some (.aborted, m')) (some (.failed m'.takeParked.1, m'.observe))

theorem Ends.after {α : Type} {scope : Scope} {m m' : Machine} (leads : m.Leads m')
    {r : Option (Flow α × Machine)} {r' : Option (Outcome α × World)} (ends : Ends scope m' r r') :
    Ends scope m r r' := by
  cases ends with
  | stuck => exact .stuck
  | next fits further => exact .next fits (leads.trans further)
  | returned further => exact .returned (leads.trans further)
  | failed further => exact .failed (leads.trans further)

/-- In a sound machine, as part of the unit `unit` that was compiled to `fresh`, the code `x` ends as
the tree `y` does. -/
def Simulates {α : Type} (unit : UnitId) (fresh : CompiledUnit) (x : Exec α) (y : Eval α) : Prop :=
  ∀ (locals : List Value) (m : Machine), locals.length = fresh.scope.slotCount → m.Sound →
    m.Holds unit fresh → Ends fresh.scope m (x locals m) (y (fresh.scope.view locals) m.observe)

/-- What `x` gives has the property `P`. -/
def Exec.Yields {α : Type} (x : Exec α) (P : α → Prop) : Prop :=
  ∀ locals m a locals' m', x locals m = some (.next a locals', m') → P a

section
variable {α β : Type} {unit : UnitId} {fresh : CompiledUnit}

theorem simulates_pure (a : α) : Simulates unit fresh (pure a) (pure a) :=
  fun _ _ fits sound _ => .next fits sound.refl

theorem simulates_leave (v : Value) :
    Simulates unit fresh (Exec.leave v : Exec α) (Eval.leave v) :=
  fun _ _ _ sound _ => .returned sound.refl

theorem simulates_bind_yields {x : Exec α} {y : Eval α} {f : α → Exec β} {g : α → Eval β}
    {P : α → Prop} (left : Simulates unit fresh x y) (yields : x.Yields P)
    (right : ∀ a, P a → Simulates unit fresh (f a) (g a)) :
    Simulates unit fresh (x >>= f) (y >>= g) := by
  intro locals m fits sound holds
  have first := left locals m fits sound holds
  change Ends fresh.scope m (Exec.bind x f locals m)
    (Eval.bind y g (fresh.scope.view locals) m.observe)
  cases run : x locals m with
  | none =>
    rw [run] at first
    generalize run' : y (fresh.scope.view locals) m.observe = r' at first
    cases first
    simp only [Exec.bind, Eval.bind, run, run']
    exact .stuck
  | some r =>
    rw [run] at first
    generalize run' : y (fresh.scope.view locals) m.observe = r' at first
    cases first with
    | @next a locals' m' fits' leads =>
      simp only [Exec.bind, Eval.bind, run, run']
      -- the machine has moved on, and still holds the unit
      have second := right a (yields locals m a locals' m' run) locals' m' fits' leads.sound
        (leads.holds holds)
      exact second.after leads
    | returned leads =>
      simp only [Exec.bind, Eval.bind, run, run']
      exact .returned leads
    | failed leads =>
      simp only [Exec.bind, Eval.bind, run, run']
      exact .failed leads

theorem simulates_bind {x : Exec α} {y : Eval α} {f : α → Exec β} {g : α → Eval β}
    (left : Simulates unit fresh x y) (right : ∀ a, Simulates unit fresh (f a) (g a)) :
    Simulates unit fresh (x >>= f) (y >>= g) :=
  simulates_bind_yields left (fun _ _ _ _ _ _ => trivial) fun a _ => right a

theorem simulates_load {name : String} {slot : Nat}
    (found : fresh.scope.lookup name = some slot) (global : ObjectId) :
    Simulates unit fresh (Exec.load slot) (Eval.read global name) := by
  intro locals m fits sound holds
  simp only [Exec.load, Eval.read, Scope.view_of_lookup fits found]
  exact .next fits sound.refl

theorem simulates_store {name : String} {slot : Nat}
    (found : fresh.scope.lookup name = some slot) (v : Value) :
    Simulates unit fresh (Exec.store slot v) (Eval.assign name v) := by
  intro locals m fits sound holds
  simp only [Exec.store, Eval.assign, ← Scope.view_set fits found]
  exact .next (by simpa using fits) sound.refl

theorem simulates_fetch {f : Machine → Value × Machine} {g : World → Value × World}
    (agrees : ∀ m : Machine, m.Sound → m.Holds unit fresh → m.Agrees (some (f m)) (some (g m.observe))) :
    Simulates unit fresh (Exec.fetch f) (Eval.fetch g) := by
  intro locals m fits sound holds
  have fetched := agrees m sound holds
  simp only [Exec.fetch, Eval.fetch]
  generalize f m = r at fetched
  generalize g m.observe = r' at fetched
  cases fetched with
  | ends leads =>
    rw [← Machine.observe_root]
    exact .next fits (leads.trans (leads.sound.root _))

theorem simulates_act {f : Machine → Machine} {g : World → World}
    (agrees : ∀ m : Machine, m.Sound → m.Holds unit fresh →
      m.Agrees (some ((), f m)) (some ((), g m.observe))) :
    Simulates unit fresh (Exec.act f) (Eval.act g) := by
  intro locals m fits sound holds
  have acted := agrees m sound holds
  simp only [Exec.act, Eval.act]
  generalize f m = m' at acted
  generalize g m.observe = w' at acted
  cases acted with
  | ends leads => exact .next fits leads

theorem simulates_attempt {r : Run (Except RuntimeError Value)}
    {r' : Reference.Run (Except RuntimeError Value)}
    (agrees : ∀ m : Machine, m.Sound → m.Holds unit fresh → m.Agrees (r m) (r' m.observe)) :
    Simulates unit fresh (Exec.attempt r) (Eval.attempt r') := by
  intro locals m fits sound holds
  have tried := agrees m sound holds
  simp only [Exec.attempt, Eval.attempt]
  generalize r m = result at tried
  generalize r' m.observe = result' at tried
  cases tried with
  | stuck => exact .stuck
  | @ends result m' leads =>
    cases result with
    | ok v =>
      simp only [← Machine.observe_root]
      exact .next fits (leads.trans (leads.sound.root v))
    | error e => exact .failed (leads.trans (leads.sound.park e))

theorem simulates_loadGlobal {name : String} {place : Nat}
    (free : fresh.scope.lookup name = none)
    (wanted : fresh.sites.lookups[place]? = some { name }) :
    Simulates unit fresh (Exec.fetch (·.lookupGlobal unit place name))
      (Eval.read fresh.global name) := by
  intro locals m fits sound holds
  simp only [Eval.read, Scope.view_of_free locals free]
  exact simulates_fetch (fun _ sound holds => sound.lookupGlobal holds wanted) locals m fits sound
    holds

end

theorem yields_bind {α β : Type} {x : Exec α} {f : α → Exec β} {P : α → Prop} {Q : β → Prop}
    (left : x.Yields P) (right : ∀ a, P a → (f a).Yields Q) : (x >>= f).Yields Q := by
  intro locals m b locals' m' done
  change Exec.bind x f locals m = _ at done
  cases run : x locals m with
  | none => simp [Exec.bind, run] at done
  | some r =>
    obtain ⟨flow, m₁⟩ := r
    cases flow with
    | next a locals₁ =>
      simp only [Exec.bind, run] at done
      exact right a (left locals m a locals₁ m₁ run) locals₁ m₁ b locals' m' done
    | returned v => simp [Exec.bind, run] at done
    | aborted => simp [Exec.bind, run] at done

/-- As many values as there are arguments, so that the number of arguments of a call is that of its
site. -/
theorem evalArgs_yields (enter : Enter) (unit : UnitId) (codes : List Code) :
    (evalArgs enter unit codes).Yields (·.length = codes.length) := by
  induction codes with
  | nil =>
    intro locals m values locals' m' done
    rw [evalArgs] at done
    cases done
    rfl
  | cons code codes ih =>
    rw [evalArgs]
    refine yields_bind (P := fun _ => True) (fun _ _ _ _ _ _ => trivial) fun v _ =>
      yields_bind ih fun values count => ?_
    intro locals m values' locals' m' done
    cases done
    simp [count]

section
variable {enter : Enter} {enter' : Reference.Enter}

mutual

/-- Code ends as its tree does. The induction is on the tree, one case for each kind of node; which
code belongs to it is read off the derivation. -/
theorem evalCode_simulates (enters : RefinesEnter enter enter') {unit : UnitId}
    {fresh : CompiledUnit} : (e : Expr) → (code : Code) →
    Lowered fresh.scope fresh.global fresh.emission e code →
    Simulates unit fresh (evalCode enter unit code)
      (Reference.evalExpr enter' fresh.global e)
  | .block (.mk instrs line), _, .block body => by
    rw [evalCode, Reference.evalExpr, Reference.evalBlock]
    exact simulates_bind (evalBody_simulates enters instrs _ body) fun _ => simulates_pure _
  | .literal (.int n) line, _, .int => by
    rw [evalCode, Reference.evalExpr]
    exact simulates_pure _
  | .literal (.text s) line, _, .text => by
    rw [evalCode, Reference.evalExpr]
    exact simulates_pure _
  | .call callee args line, .call code codes place, .call first rest wanted count => by
    rw [evalCode, Reference.evalExpr]
    refine simulates_bind (evalCode_simulates enters callee _ first) fun v =>
      simulates_bind_yields (evalArgs_simulates enters args _ rest)
        (evalArgs_yields enter unit codes) fun values length_eq => simulates_attempt ?_
    intro m sound holds
    exact callAt_agrees enters sound holds wanted v .undefined
      (length_eq.trans (rest.length_eq.trans count.symm))
  | .var name line, _, .load found => by
    rw [evalCode, Reference.evalExpr]
    exact simulates_load found fresh.global
  | .var name line, _, .loadGlobal free wanted => by
    rw [evalCode, Reference.evalExpr]
    exact simulates_loadGlobal free wanted
  | .assign name value declares line, _, .assign lowered found => by
    rw [evalCode, Reference.evalExpr]
    exact simulates_bind (evalCode_simulates enters value _ lowered) fun v =>
      simulates_bind (simulates_store found v) fun _ => simulates_pure _
  | .function none params body line, _, .function recorded => by
    rw [evalCode, Reference.evalExpr]
    refine simulates_bind (simulates_attempt ?_) fun v => simulates_pure _
    intro m sound holds
    exact sound.makeFunction holds recorded
  | .function (some name) params body line, _, .named recorded wanted => by
    rw [evalCode, Reference.evalExpr]
    refine simulates_bind (simulates_attempt ?_) fun v =>
      simulates_bind (simulates_act ?_) fun _ => simulates_pure _
    · intro m sound holds
      exact sound.makeFunction holds recorded
    · intro m sound holds
      exact sound.registerGlobal holds wanted v
  | .ret value line, _, .ret lowered => by
    rw [evalCode, Reference.evalExpr]
    exact simulates_bind (evalCode_simulates enters value _ lowered) fun v => simulates_leave v
  | .cond condition (.mk yes yesLine) (.mk no noLine) line, _, .cond lowered first second => by
    rw [evalCode, Reference.evalExpr, Reference.evalBlock, Reference.evalBlock]
    refine simulates_bind (evalCode_simulates enters condition _ lowered) fun v => ?_
    cases v.truth with
    | true => exact simulates_bind (evalBody_simulates enters yes _ first) fun _ => simulates_pure _
    | false => exact simulates_bind (evalBody_simulates enters no _ second) fun _ => simulates_pure _
  | .object entries line, _, .object lowered => by
    rw [evalCode, Reference.evalExpr]
    refine simulates_bind (simulates_fetch fun m sound _ => sound.newObject) fun object =>
      simulates_bind (evalEntries_simulates enters object entries _ lowered) fun _ =>
        simulates_pure _
  | .field receiver name line, _, .field lowered => by
    rw [evalCode, Reference.evalExpr]
    refine simulates_bind (evalCode_simulates enters receiver _ lowered) fun v =>
      simulates_attempt fun m sound _ => .ends sound.refl
  | .setField receiver name value line, _, .setField first second => by
    rw [evalCode, Reference.evalExpr]
    exact simulates_bind (evalCode_simulates enters receiver _ first) fun v =>
      simulates_bind (evalCode_simulates enters value _ second) fun v' =>
        simulates_attempt fun m sound _ => sound.setField { name } v v'
  | .method receiver name args line, _, .method first rest => by
    rw [evalCode, Reference.evalExpr]
    exact simulates_bind (evalCode_simulates enters receiver _ first) fun v =>
      simulates_bind (evalArgs_simulates enters args _ rest) fun values =>
        simulates_attempt fun m sound _ => callMethod_refines enters _ v values m sound

theorem evalBody_simulates (enters : RefinesEnter enter enter') {unit : UnitId}
    {fresh : CompiledUnit} : (es : List Expr) → (codes : List Code) →
    LoweredAll fresh.scope fresh.global fresh.emission es codes →
    Simulates unit fresh (evalBody enter unit codes)
      (Reference.evalInstrs enter' fresh.global es)
  | [], _, .nil => by
    rw [evalBody, Reference.evalInstrs]
    exact simulates_pure _
  | e :: es, _, .cons first rest => by
    rw [evalBody, Reference.evalInstrs]
    exact simulates_bind (evalCode_simulates enters e _ first) fun _ =>
      evalBody_simulates enters es _ rest

theorem evalArgs_simulates (enters : RefinesEnter enter enter') {unit : UnitId}
    {fresh : CompiledUnit} : (es : List Expr) → (codes : List Code) →
    LoweredAll fresh.scope fresh.global fresh.emission es codes →
    Simulates unit fresh (evalArgs enter unit codes)
      (Reference.evalArgs enter' fresh.global es)
  | [], _, .nil => by
    rw [evalArgs, Reference.evalArgs]
    exact simulates_pure _
  | e :: es, _, .cons first rest => by
    rw [evalArgs, Reference.evalArgs]
    exact simulates_bind (evalCode_simulates enters e _ first) fun _ =>
      simulates_bind (evalArgs_simulates enters es _ rest) fun _ => simulates_pure _

theorem evalEntries_simulates (enters : RefinesEnter enter enter') {unit : UnitId}
    {fresh : CompiledUnit} (object : Value) : (es : List (String × Expr)) →
    (codes : List (Code × FieldSite)) →
    LoweredEntries fresh.scope fresh.global fresh.emission es codes →
    Simulates unit fresh (evalEntries enter unit object codes)
      (Reference.evalEntries enter' fresh.global object es)
  | [], _, .nil => by
    rw [evalEntries, Reference.evalEntries]
    exact simulates_pure _
  | (key, e) :: es, _, .cons first rest => by
    rw [evalEntries, Reference.evalEntries]
    exact simulates_bind (evalCode_simulates enters e _ first) fun v =>
      simulates_bind (simulates_attempt fun m sound _ => sound.setField { name := key } object v)
        fun _ => evalEntries_simulates enters object es _ rest

end

end

/-- The body of a unit in use, started on the slots of a fresh invocation. -/
theorem body_ends {enter : Enter} {enter' : Reference.Enter} (enters : RefinesEnter enter enter')
    {m : Machine} (sound : m.Sound) {unit : UnitId} {u : CompiledUnit}
    (found : m.units[unit]? = some u) (receiver : Value) (args : List Value) :
    Ends u.scope m (evalBody enter unit u.code (u.initialLocals receiver args) m)
      (Reference.evalBlock enter' u.definition.global u.definition.body
        (u.definition.initialEnv receiver args) m.observe) := by
  obtain ⟨fresh, compiled, tracks⟩ := sound unit u found
  obtain ⟨definition, resolved, -, lowered⟩ := FunctionDef.compile_ok compiled
  have holds : m.Holds unit fresh := by
    refine ⟨?_, by rw [found, Option.map_some, definition]⟩
    rw [definition]
    exact compiled
  have scope : u.scope = Scope.resolve u.definition.params u.definition.body := by
    rw [tracks.scope, resolved]
  obtain ⟨fits, view⟩ := CompiledUnit.view_initialLocals scope receiver args
  have global : fresh.global = u.definition.global := congrArg FunctionDef.global definition
  rw [← global] at lowered
  have ends := evalBody_simulates enters u.definition.body.instrs fresh.code lowered
    (u.initialLocals receiver args) m (tracks.scope ▸ fits) sound holds
  have block : Reference.evalBlock enter' u.definition.global u.definition.body =
      Reference.evalInstrs enter' u.definition.global u.definition.body.instrs := by
    cases u.definition.body
    rw [Reference.evalBlock, Block.instrs]
  rw [← tracks.scope, ← tracks.code, view, global] at ends
  rw [block]
  exact ends

theorem endInvocation_agrees {scope : Scope} {m : Machine} (mark : Nat)
    {r : Option (Flow Unit × Machine)} {r' : Option (Outcome Unit × World)}
    (ends : Ends scope m r r') :
    m.Agrees (endInvocation mark r) (Reference.endInvocation mark r') := by
  cases ends with
  | stuck => exact .stuck
  | next _ leads => exact .ends (leads.trans (leads.sound.release mark))
  | returned leads => exact .ends (leads.trans (leads.sound.release mark))
  | failed leads =>
    have taken := leads.trans leads.sound.takeParked
    exact .ends (taken.trans (taken.sound.release mark))

theorem invokeUnit_refines {enter : Enter} {enter' : Reference.Enter}
    (enters : RefinesEnter enter enter') (unit : UnitId) (receiver : Value) (args : List Value) :
    Refines (invokeUnit enter unit receiver args)
      (Reference.invokeFunction enter' unit receiver args) := by
  intro m sound
  have functions : m.observe.functions[unit]? = (m.units[unit]?).map (·.definition) :=
    Array.getElem?_map
  cases found : m.units[unit]? with
  | none =>
    simp only [invokeUnit, Reference.invokeFunction, functions, found, Option.map_none]
    exact .ends sound.refl
  | some u =>
    simp only [invokeUnit, Reference.invokeFunction, functions, found, Option.map_some,
      CompiledUnit.arity]
    by_cases count : args.length = u.definition.params.length
    · simp only [count, ne_eq, not_true_eq_false, if_false]
      exact endInvocation_agrees _ (body_ends enters sound found receiver args)
    · simp only [count, ne_eq, not_false_eq_true, if_true]
      exact .ends sound.refl

/-- Each step of a host function is answered alike. -/
theorem perform_refines {enter : Enter} {enter' : Reference.Enter}
    (enters : RefinesEnter enter enter') (s : HostStep) :
    Refines (s.perform enter) (Reference.performStep enter' s) := by
  intro m sound
  cases s with
  | register id key v => exact .ends (sound.register id key v)
  | create proto => exact .ends (sound.leads_heap rfl (m.heap.newObject_grows proto) rfl)
  | print args => exact sound.print args
  | compile f =>
    rcases sound.compile f with ⟨e, failed, failed'⟩ | ⟨id, m', done, done', leads⟩
    · simp only [HostStep.perform, Reference.performStep, failed, failed']
      exact .ends sound.refl
    · simp only [HostStep.perform, Reference.performStep, done, done']
      exact .ends leads
  | invoke id receiver args => exact invokeObject_refines enters id receiver args m sound
  | _ => exact .ends sound.refl

theorem run_refines {enter : Enter} {enter' : Reference.Enter} (enters : RefinesEnter enter enter')
    (p : HostProgram) : Refines (p.run enter) (Reference.runProgram enter' p) := by
  induction p with
  | done result =>
    intro m sound
    exact .ends sound.refl
  | step s next ih =>
    intro m sound
    have performed := perform_refines enters s m sound
    simp only [HostProgram.run, Reference.runProgram]
    generalize s.perform enter m = r at performed
    generalize Reference.performStep enter' s m.observe = r' at performed
    cases performed with
    | stuck => exact .stuck
    | @ends answer m' leads => exact (ih answer m' leads.sound).after leads

/-- Entering a callable, under every bound on the calls that are open at once. -/
theorem enter_refines (depth : Nat) : RefinesEnter (enter depth) (Reference.enter depth) := by
  induction depth with
  | zero => exact fun _ _ _ _ _ => .stuck
  | succ depth ih =>
    intro entry receiver args
    -- a call that comes back to a unit still running is one of the calls covered by `ih`
    cases entry with
    | compiled unit name params => exact invokeUnit_refines ih unit receiver args
    | native f =>
      intro m sound
      have hosted := run_refines ih (f.body.onCall receiver args) m sound
      simp only [enter, Reference.enter, runHost, Reference.runHost]
      generalize (f.body.onCall receiver args).run (enter depth) m = r at hosted
      generalize Reference.runProgram (Reference.enter depth) (f.body.onCall receiver args)
        m.observe = r' at hosted
      cases hosted with
      | stuck => exact .stuck
      | ends leads => exact .ends leads

end ScriptEngine
