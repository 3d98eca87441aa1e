import ScriptEngine.Proofs.Failure
import ScriptEngine.Proofs.Placement
import ScriptEngine.Service

/-!
# Functions are entered with the arguments they take

The number of arguments is compared with the arity of a function when the function is resolved, and not
again when a call site finds it behind a guard. It fits all the same: whatever is begun on the way through
a program or a call of the host, every entry that is entered takes as many arguments as it is given. A
call with any other number of arguments is answered with the two numbers, and nothing else happens.
-/

namespace ScriptEngine

theorem Arity.accepts_of_check {arity : Arity} {count : Nat} (checked : arity.check count = .ok ()) :
    arity.accepts count = true := by
  cases arity with
  | variadic => rfl
  | fixed n =>
    by_cases same : n = count
    · simp [accepts, same]
    · simp [check, same] at checked

/-- The answer to a call with `count` arguments: the invocation `run` if the entry takes as many, and
otherwise the two numbers, on the machine as it is. -/
def Callable.answer (target : Callable) (count : Nat) (m : Machine)
    (run : Option (Except RuntimeError Value × Machine)) :
    Option (Except RuntimeError Value × Machine) :=
  match target.arity with
  | .fixed n => if n = count then run else some (.error (.arityMismatch n count), m)
  | .variadic => run

section
variable {target : Callable} {count : Nat} {m : Machine}
  {run : Option (Except RuntimeError Value × Machine)}

theorem Callable.answer_of_ok (checked : target.arity.check count = .ok ()) :
    target.answer count m run = run := by
  cases arity : target.arity with
  | variadic => simp [answer, arity]
  | fixed n =>
    by_cases same : n = count
    · simp [answer, arity, same]
    · simp [arity, Arity.check, same] at checked

theorem Callable.answer_of_error {e : RuntimeError} (checked : target.arity.check count = .error e) :
    target.answer count m run = some (.error e, m) := by
  cases arity : target.arity with
  | variadic => simp [arity, Arity.check] at checked
  | fixed n =>
    by_cases same : n = count
    · simp [arity, Arity.check, same] at checked
    · simp only [arity, Arity.check, same, if_false, Except.error.injEq] at checked
      simp [answer, arity, same, checked]

end

theorem invokeObject_answer (enter : Enter) {m : Machine} {id : ObjectId} {target : Callable}
    (found : m.heap.callable? id = some target) (receiver : Value) (args : List Value) :
    invokeObject enter id receiver args m =
      target.answer args.length m (enter target receiver args m) := by
  rw [invokeObject]
  simp only [found]
  cases checked : target.arity.check args.length with
  | error e => exact (target.answer_of_error checked).symm
  | ok _ => exact (target.answer_of_ok checked).symm

theorem Heap.resolveCallee_object {h : Heap} {id : ObjectId} {target : Callable}
    (found : h.callable? id = some target) (argCount : Nat) :
    h.resolveCallee (.object id) argCount =
      (target.arity.check argCount).map fun _ => (id, target) := by
  cases checked : target.arity.check argCount <;>
    simp [resolveCallee, found, checked, bind, Except.bind, pure, Except.pure, Except.map]

theorem modify_eq_self {α : Type} {xs : Array α} {i : Nat} {f : α → α}
    (same : ∀ x, xs[i]? = some x → f x = x) : xs.modify i f = xs := by
  apply Array.ext_getElem?
  intro j
  rw [Array.getElem?_modify]
  split
  · rename_i here
    subst j
    cases found : xs[i]? with
    | none => rfl
    | some x => rw [Option.map_some, same x found]
  · rfl

theorem setIfInBounds_eq_self {α : Type} {xs : Array α} {i : Nat} {x : α}
    (found : xs[i]? = some x) : xs.setIfInBounds i x = xs := by
  apply Array.ext_getElem?
  intro j
  by_cases here : i = j
  · subst j
    obtain ⟨inside, -⟩ := Array.getElem?_eq_some_iff.mp found
    rw [Array.getElem?_setIfInBounds_self_of_lt inside, found]
  · rw [Array.getElem?_setIfInBounds_ne here]

/-- A call that can not be resolved leaves nothing behind. -/
theorem Machine.Sound.dispatchCall_refused {m : Machine} (sound : m.Sound) {unit : UnitId}
    {fresh : CompiledUnit} (holds : m.Holds unit fresh) {place : Nat} {site : CallSite}
    (wanted : fresh.sites.calls[place]? = some site) {callee : Value} {e : RuntimeError}
    (refused : m.heap.resolveCallee callee site.argCount = .error e) :
    m.dispatchCall unit place site.argCount callee = (.error e, m) := by
  obtain ⟨u, found, tracks⟩ := sound.tracks holds
  obtain ⟨used, held, arguments, linked⟩ := tracks.calls place site wanted
  have failed : used.dispatch m.heap callee = .error e := by
    have target := CallSite.dispatch_target linked callee
    rw [arguments, refused] at target
    cases done : used.dispatch m.heap callee with
    | ok d => simp [done, Except.map] at target
    | error e' => simpa [done, Except.map] using target
  have unchanged : (m.modifySites unit fun t =>
      { t with calls := t.calls.setIfInBounds place used }) = m := by
    have units : m.units.modify unit (fun u => { u with sites := { u.sites with
        calls := u.sites.calls.setIfInBounds place used } }) = m.units := by
      apply modify_eq_self
      intro u' found'
      obtain rfl : u = u' := Option.some.inj (found.symm.trans found')
      rw [setIfInBounds_eq_self held]
    rw [Machine.modifySites, units]
  rw [dispatchCall_eq found held]
  simp only [failed, CallSite.after, CallSite.report, Machine.log?, Except.map, unchanged]

theorem callAt_answer {h : List Act} {hosts : NativeFunction → Prop} (enter : Enter) {m : Machine}
    (chronicle : m.Chronicle hosts h) {unit : UnitId} {fresh : CompiledUnit}
    (holds : m.Holds unit fresh) {place : Nat} {site : CallSite}
    (wanted : fresh.sites.calls[place]? = some site) {id : ObjectId} {target : Callable}
    (found : m.heap.callable? id = some target) (receiver : Value) {args : List Value}
    (fits : args.length = site.argCount) :
    callAt enter unit place (.object id) receiver args m =
      target.answer args.length m (enter target receiver args
        (m.dispatchCall unit place args.length (.object id)).2) := by
  have resolved := Heap.resolveCallee_object found site.argCount
  rw [callAt, fits]
  cases checked : target.arity.check site.argCount with
  | error e =>
    rw [checked] at resolved
    rw [chronicle.sound.dispatchCall_refused holds wanted resolved,
      target.answer_of_error checked]
  | ok _ =>
    obtain ⟨m', dispatched, -⟩ := chronicle.sound.dispatchCall holds wanted (.object id)
    rw [resolved, checked] at dispatched
    rw [dispatched, target.answer_of_ok checked]
    rfl

theorem CallSite.Linked.invoke_answer {site : CallSite} {m : Machine} (linked : site.Linked m.heap)
    {id : ObjectId} {target : Callable} (found : m.heap.callable? id = some target) (depth : Nat)
    (receiver : Value) {args : List Value} (fits : args.length = site.argCount) :
    site.invoke depth (.object id) receiver args m =
      (target.answer args.length m (enter depth target receiver args
        (m.log? (site.report m.heap (.object id))))).map
          fun r => ((r.1, site.after m.heap (.object id)), r.2) := by
  have resolved := Heap.resolveCallee_object found args.length
  have target_eq := CallSite.dispatch_target linked (.object id)
  rw [← fits, resolved] at target_eq
  rw [linked.invoke_eq depth (.object id) receiver fits, callDirectly_eq, Machine.log?_heap, resolved]
  cases checked : target.arity.check args.length with
  | ok _ => rw [target.answer_of_ok checked]; rfl
  | error e =>
    cases done : site.dispatch m.heap (.object id) with
    | ok d => simp [checked, done, Except.map] at target_eq
    | error e' =>
      simp [target.answer_of_error checked, CallSite.report, done, Machine.log?, Except.map]

/-- A program that compiles is the invocation of its main function. -/
theorem execute_of_compile {m m' : Machine} {program : Block} {main : ObjectId}
    (compiled : m.compile (mainFunction program) = .ok (main, m')) (depth : Nat) :
    execute depth program m = (enter depth (.compiled m.units.size mainName 0) .undefined []
      (m'.log (.executingProgram program.instrs.length))).map
        fun r => (r.1.mapError .runtime, r.2) := by
  have callable : (m'.log (.executingProgram program.instrs.length)).heap.callable? main =
      some (.compiled m.units.size mainName 0) := Machine.compile_callable compiled
  simp only [Discipline.execute_eq, compiled, invoke_of_callable callable depth .undefined [] rfl]

/-- The invocations that a host begins on the machine: of a program, of an object with as many arguments
as it takes, and through a call site of its own that has been used on this heap, with as many arguments
as the site is meant for. -/
inductive Machine.Starts (m : Machine) : Activity → Prop
  | program {depth : Nat} {program : Block} {main : ObjectId} {m' : Machine}
      (compiled : m.compile (mainFunction program) = .ok (main, m')) :
      Starts m (.entry depth (.compiled m.units.size mainName 0) .undefined []
        (m'.log (.executingProgram program.instrs.length)))
  | invoke {depth : Nat} {id : ObjectId} {target : Callable} {receiver : Value} {args : List Value}
      (found : m.heap.callable? id = some target)
      (fits : target.arity.check args.length = .ok ()) :
      Starts m (.entry depth target receiver args m)
  | site {h : Heap} {argCount maxDepth : Nat} {history : List CallSite.Moment} {depth : Nat}
      {callee receiver : Value} {args : List Value} {d : Dispatch}
      (current : m.heap = ((CallSite.Life.start h argCount maxDepth).run history).heap)
      (fits : args.length = argCount)
      (found : ((CallSite.Life.start h argCount maxDepth).run history).site.dispatch m.heap callee =
        .ok d) :
      Starts m (.entry depth d.target receiver args (m.log? d.event))

theorem Machine.Starts.placed {m : Machine} {h : List Act} {hosts : NativeFunction → Prop}
    (chronicle : m.Chronicle hosts h) {start : Activity} (starts : m.Starts start) :
    start.Placed hosts h := by
  cases starts with
  | @program depth program main m' compiled =>
    obtain ⟨logged, -⟩ :=
      (chronicle.compile compiled).log? (some (.executingProgram program.instrs.length))
    exact ⟨logged, logged.entries main _ (Machine.compile_callable compiled), rfl⟩
  | invoke found fits => exact ⟨chronicle, chronicle.entries _ _ found, fits⟩
  | @site h₀ argCount maxDepth history depth callee receiver args d current fits found =>
    have valid := (CallSite.Life.start_valid h₀ argCount maxDepth).run history
    have target := CallSite.dispatch_target (current ▸ valid.linked) callee
    rw [found, valid.arguments, ← fits] at target
    obtain ⟨logged, leads⟩ := chronicle.log? d.event
    cases resolved : m.heap.resolveCallee callee args.length with
    | error e => simp [resolved, Except.map] at target
    | ok pair =>
      obtain ⟨id, entry⟩ := pair
      obtain ⟨-, callable, checked⟩ := (m.heap.resolveCallee_ok_iff _ _ _ _).mp resolved
      have same : d.target = entry := by simpa [resolved, Except.map] using target
      rw [same]
      exact ⟨logged, (chronicle.entries id entry callable).leads leads, checked⟩

/-- An entry in its place takes the arguments it is given. -/
theorem Activity.Placed.takes {hosts : NativeFunction → Prop} {h : List Act} {k : Nat}
    {entered : Callable} {self : Value} {given : List Value} {m : Machine}
    (placed : (Activity.entry k entered self given m).Placed hosts h) :
    entered.arity.accepts given.length = true ∧
      (∀ unit name params, entered = .compiled unit name params →
        ∃ u, m.units[unit]? = some u ∧ given.length = u.arity ∧
          (self :: given).length = entryParamCount u.arity) ∧
      ∀ f, entered = .native f → f.arity = .fixed 2 → ∃ a b, given = [a, b] := by
  obtain ⟨-, known, checked⟩ := placed
  refine ⟨Arity.accepts_of_check checked, ?_, ?_⟩
  · rintro unit name params rfl
    obtain ⟨f, named, -, rfl⟩ := known
    obtain ⟨u, found, rfl⟩ := Option.map_eq_some_iff.mp named
    have count : u.arity = given.length := by
      simpa [Callable.arity, Arity.accepts, CompiledUnit.arity] using
        Arity.accepts_of_check checked
    exact ⟨u, found, count.symm, by rw [count]; rfl⟩
  · rintro f rfl two
    have count : 2 = given.length := by
      simpa [Callable.arity, two, Arity.accepts] using Arity.accepts_of_check checked
    exact List.length_eq_two.mp count.symm

theorem Machine.define_heap {m m' : Machine} (same : m.heap = m'.heap) (owner : ObjectId)
    (name : String) (arity : Arity) (body : HostFunction) :
    (m.define owner name arity body).2.heap = (m'.define owner name arity body).2.heap := by
  simp only [Machine.define, same]

/-- What a fresh engine holds does not depend on its settings. -/
theorem Machine.boot_heap (cacheDepth : Nat) (sink : Sink) :
    (Machine.boot cacheDepth sink).heap = (Machine.boot 0 .accepting).heap := by
  have defined : ∀ (ops : List Operator) (m m' : Machine), m.heap = m'.heap →
      (ops.foldl (fun m op => (m.define global op.symbol (.fixed 2) (.operator op)).2) m).heap =
        (ops.foldl (fun m op => (m.define global op.symbol (.fixed 2) (.operator op)).2) m').heap := by
    intro ops
    induction ops with
    | nil => exact fun _ _ same => same
    | cons op ops ih => exact fun m m' same => ih _ _ (define_heap same _ _ _ _)
  simp only [boot]
  refine define_heap ?_ _ _ _ _
  exact defined Operator.all _ _ rfl

/-- The functions of a fresh engine stay what they are. -/
theorem Machine.Reachable.keeps_boot {m : Machine} (reachable : m.Reachable) :
    ∃ cacheDepth sink, (Machine.boot cacheDepth sink).heap.Keeps m.heap := by
  induction reachable with
  | boot cacheDepth sink => exact ⟨cacheDepth, sink, .refl _⟩
  | serve before served ih =>
    obtain ⟨cacheDepth, sink, keeps⟩ := ih
    have leads := (serve_refines _ _ _ before.sound).leads served
    exact ⟨cacheDepth, sink, keeps.trans leads.heap.keeps⟩
  | site before called ih =>
    obtain ⟨cacheDepth, sink, keeps⟩ := ih
    have leads := CallSite.invoke_leads before.sound called
    exact ⟨cacheDepth, sink, keeps.trans leads.heap.keeps⟩

theorem Machine.Reachable.operator {m : Machine} (reachable : m.Reachable) {i : Nat}
    {op : Operator} (listed : Operator.all[i]? = some op) :
    m.heap.callable? (i + 1) = some (.native ⟨op.symbol, .fixed 2, .operator op⟩) := by
  obtain ⟨cacheDepth, sink, keeps⟩ := reachable.keeps_boot
  have defined := operators_callable Operator.all
    { heap := (({} : Heap).newEnv none).2, cacheDepth, sink } listed
  rw [Nat.add_comm i 1]
  exact keeps _ _ ((define_grows _ _ _ _ _).keeps _ _ defined)

/-- Whatever is begun on the way through a program or a call of the host, an entry that is entered takes
the number of arguments it is given. A call with another number is answered by the declared and the given
number, on the machine as it was. -/
theorem entries_take_their_arguments {m : Machine} (reachable : m.Reachable) :
    (∀ start frames k entered self given m₁, m.Starts start →
      Within start frames (.entry k entered self given m₁) →
        entered.arity.accepts given.length = true ∧
        (∀ unit name params, entered = .compiled unit name params →
          ∃ u, m₁.units[unit]? = some u ∧ given.length = u.arity ∧
            (self :: given).length = entryParamCount u.arity) ∧
        ∀ f, entered = .native f → f.arity = .fixed 2 → ∃ a b, given = [a, b]) ∧
    (∀ i op, Operator.all[i]? = some op →
      m.heap.callable? (i + 1) = some (.native ⟨op.symbol, .fixed 2, .operator op⟩)) ∧
    (∀ start frames k unit callee args place id vs target locals locals₁ locals' m₁ m₂ m₃,
      m.Starts start →
      Within start frames (.node k unit ⟨.call callee args place, locals, m₁⟩) →
      evalCode (enter k) unit callee locals m₁ = some (.next (.object id) locals₁, m₂) →
      evalArgs (enter k) unit args locals₁ m₂ = some (.next vs locals', m₃) →
      m₃.heap.callable? id = some target →
      callAt (enter k) unit place (.object id) .undefined vs m₃ =
        target.answer vs.length m₃ (enter k target .undefined vs
          (m₃.dispatchCall unit place vs.length (.object id)).2)) ∧
    (∀ k id target self given m₁, m₁.heap.callable? id = some target →
      invoke k id self given m₁ =
        target.answer given.length m₁ (enter k target self given m₁)) ∧
    (∀ (site : MethodSite) k id target self given m₁, site.resolve m₁.heap self = .ok id →
      m₁.heap.callable? id = some target →
      site.invoke k self given m₁ =
        target.answer given.length m₁ (enter k target self given m₁)) ∧
    (∀ h argCount maxDepth history k id target self given,
      let l := (CallSite.Life.start h argCount maxDepth).run history
      m.heap = l.heap → given.length = argCount → m.heap.callable? id = some target →
      l.site.invoke k (.object id) self given m =
        (target.answer given.length m (enter k target self given
          (m.log? (l.site.report m.heap (.object id))))).map
            fun r => ((r.1, l.site.after m.heap (.object id)), r.2)) ∧
    ∀ k program main m', m.compile (mainFunction program) = .ok (main, m') →
      execute k program m = (enter k (.compiled m.units.size mainName 0) .undefined []
        (m'.log (.executingProgram program.instrs.length))).map
          fun r => (r.1.mapError .runtime, r.2) := by
  obtain ⟨h, recorded⟩ := reachable.recorded
  have chronicle := recorded.chronicle
  refine ⟨?_, ?_, ?_, ?_, ?_, ?_, ?_⟩
  · intro start frames k entered self given m₁ starts within
    obtain ⟨before, -, placed, -⟩ := within.told (starts.placed chronicle)
    exact placed.takes
  · intro i op listed
    exact reachable.operator listed
  · intro start frames k unit callee args place id vs target locals locals₁ locals' m₁ m₂ m₃ starts
      within called given found
    obtain ⟨before, -, placed, -⟩ := within.told (starts.placed chronicle)
    obtain ⟨acts, fresh, site, told, holds, wanted, fits, -⟩ := call_ready placed called given
    obtain ⟨ready, -⟩ := told.last m₃ rfl
    exact callAt_answer (enter k) ready holds wanted found .undefined fits
  · intro k id target self given m₁ found
    exact invokeObject_answer (enter k) found self given
  · intro site k id target self given m₁ resolved found
    rw [MethodSite.invoke, callMethod]
    simp only [resolved]
    exact invokeObject_answer (enter k) found self given
  · intro h argCount maxDepth history k id target self given l current fits found
    have valid := (CallSite.Life.start_valid h argCount maxDepth).run history
    have linked : l.site.Linked m.heap := current ▸ valid.linked
    exact linked.invoke_answer found k self (fits.trans valid.arguments.symm)
  · intro k program main m' compiled
    exact execute_of_compile compiled k

/-- A site for two arguments that knows `+` already enters it without a look at its arity, and still with
two arguments; a site for one argument is refused, and nothing changes. -/
theorem entries_take_their_arguments_at_guard :
    let m := Machine.boot 3 .accepting
    let known := (CallSite.Life.start m.heap 2 3).run [.call (.object 1)]
    let other := (CallSite.Life.start m.heap 1 3).run []
    m.Reachable ∧ known.site.regime = .monomorphic ∧
      (∃ d, known.site.dispatch m.heap (.object 1) = .ok d ∧
        d.target.arity.accepts [Value.int 1, .int 2].length = true) ∧
      other.site.invoke 9 (.object 1) .undefined [.int 1] m =
        some ((.error (.arityMismatch 2 1), other.site), m) := by
  intro m known other
  have reachable : m.Reachable := .boot 3 .accepting
  obtain ⟨entered, operators, -, -, -, sites, -⟩ := entries_take_their_arguments reachable
  have plus := operators 0 .add rfl
  refine ⟨reachable, by decide +kernel, ?_, ?_⟩
  · obtain ⟨d, found⟩ : ∃ d, known.site.dispatch m.heap (.object 1) = .ok d := by
      have hit : (known.site.dispatch m.heap (.object 1)).isOk = true := by decide +kernel
      cases done : known.site.dispatch m.heap (.object 1) with
      | ok d => exact ⟨d, rfl⟩
      | error e => simp [done, Except.isOk, Except.toBool] at hit
    have starts : m.Starts (.entry 1 d.target .undefined [.int 1, .int 2] (m.log? d.event)) :=
      .site (show m.heap = known.heap from rfl) rfl found
    exact ⟨d, found, (entered _ _ _ _ _ _ _ starts .start).1⟩
  · have unchanged : other.site.after m.heap (.object 1) = other.site := by
      have missed : (other.site.dispatch m.heap (.object 1)).isOk = false := by decide +kernel
      rw [CallSite.after]
      cases done : other.site.dispatch m.heap (.object 1) with
      | ok d => simp [done, Except.isOk, Except.toBool] at missed
      | error e => rfl
    rw [sites m.heap 1 3 [] 9 1 _ .undefined [.int 1] rfl rfl plus, unchanged]
    simp [Callable.answer, Callable.arity]

/-- After any history of a call site, the next call gives what a call without the site gives, and nothing
but the reported event tells them apart. So does every call at a site of a unit, at every moment of a run,
also while another call at the same site is under way. -/
theorem site_call_eq_direct_call (h : Heap) (argCount maxDepth : Nat)
    (history : List CallSite.Moment) {m : Machine} (depth : Nat) (callee receiver : Value)
    {args : List Value}
    (current : m.heap = ((CallSite.Life.start h argCount maxDepth).run history).heap)
    (fits : args.length = argCount) :
    let l := (CallSite.Life.start h argCount maxDepth).run history
    (l.site.dispatch m.heap callee).map (·.target) =
      (m.heap.resolveCallee callee argCount).map (·.2) ∧
    l.site.invoke depth callee receiver args m =
      (callDirectly depth callee receiver args (m.log? (l.site.report m.heap callee))).map
        (fun r => ((r.1, (l.step (.call callee)).site), r.2)) ∧
    (m.Reachable →
      (observed (l.site.invoke depth callee receiver args m)).map (fun r => (r.1.1, r.2)) =
        observed (callDirectly depth callee receiver args m) ∧
      (∀ result m', l.site.invoke depth callee receiver args m = some (result, m') →
        m'.Reachable ∧ ∃ later, (l.run (.call callee :: later)).site = result.2 ∧
          (l.run (.call callee :: later)).heap = m'.heap) ∧
      ∀ start frames k unit head rest place f vs locals locals₁ locals' m₁ m₂ m₃, m.Starts start →
        Within start frames (.node k unit ⟨.call head rest place, locals, m₁⟩) →
        evalCode (enter k) unit head locals m₁ = some (.next f locals₁, m₂) →
        evalArgs (enter k) unit rest locals₁ m₂ = some (.next vs locals', m₃) →
        observed (callAt (enter k) unit place f .undefined vs m₃) =
          observed (callDirectly k f .undefined vs m₃)) := by
  intro l
  have valid : l.Valid argCount maxDepth :=
    (CallSite.Life.start_valid h argCount maxDepth).run history
  have linked : l.site.Linked m.heap := current ▸ valid.linked
  have site_eq : (l.step (.call callee)).site = l.site.after m.heap callee := by
    rw [current]
    rfl
  have fits' : args.length = l.site.argCount := fits.trans valid.arguments.symm
  refine ⟨?_, ?_, fun reachable => ⟨?_, ?_, ?_⟩⟩
  · rw [CallSite.dispatch_target linked callee, valid.arguments]
  · rw [linked.invoke_eq depth callee receiver fits', site_eq]
  · exact linked.invoke_observed reachable.sound depth callee receiver fits'
  · rintro ⟨result, site'⟩ m' done
    have leads := CallSite.invoke_leads reachable.sound done
    obtain ⟨later, told⟩ := l.run_call_grows callee (current ▸ leads.heap)
    refine ⟨reachable.site done, later, ?_, by rw [told]⟩
    rw [told, linked.invoke_site fits' done]
    exact site_eq
  · intro start frames k unit head rest place f vs locals locals₁ locals' m₁ m₂ m₃ starts within called
      given
    obtain ⟨past, recorded⟩ := reachable.recorded
    obtain ⟨before, -, placed, -⟩ := within.told (starts.placed recorded.chronicle)
    obtain ⟨acts, fresh, site, told, holds, wanted, fits, -⟩ := call_ready placed called given
    obtain ⟨ready, -⟩ := told.last m₃ rfl
    have atSite := callAt_agrees (enter_refines k) ready.sound holds wanted f .undefined fits
    have direct := callDirectly_refines k f .undefined vs m₃ ready.sound
    exact atSite.observed_eq.trans direct.observed_eq.symm

/-- A site for one guard that was called with two operators and with a value that is no function. -/
theorem site_call_eq_direct_call_megamorphic :
    let boot := Machine.boot 1 .accepting
    let l := (CallSite.Life.start boot.heap 2 1).run [.call (.object 1), .call (.object 2), .call .null]
    boot.heap = l.heap ∧ [Value.int 1, .int 2].length = 2 ∧ l.site.regime = .megamorphic ∧
      (observed (l.site.invoke 1 (.object 1) .undefined [.int 1, .int 2] boot)).map
          (fun r => (r.1.1, r.2)) =
        observed (callDirectly 1 (.object 1) .undefined [.int 1, .int 2] boot) := by
  intro boot l
  have applied := site_call_eq_direct_call boot.heap 2 1
    [.call (.object 1), .call (.object 2), .call .null] 1 (.object 1) .undefined
    (show boot.heap = l.heap from rfl) (show [Value.int 1, .int 2].length = 2 from rfl)
  exact ⟨rfl, rfl, by decide +kernel, (applied.2.2 (.boot 1 .accepting)).1⟩

end ScriptEngine
