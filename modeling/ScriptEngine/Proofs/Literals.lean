import ScriptEngine.Proofs.Arity
import ScriptEngine.Proofs.Since

/-!
# Function literals

The literals of a unit are on record under the numbers 0, 1, 2, ... in the order of the body, each until
it is evaluated for the first time. From then on its site keeps the definition, so that a literal can be
evaluated again and again, and a literal that can not be compiled fails in the same way every time. No
run ever asks for a record that is gone.
-/

namespace ScriptEngine

namespace CompiledUnit.Follows

variable {h : List Act} {unit : UnitId} {u fresh : CompiledUnit} {heap : Heap} {cacheDepth : Nat}

/-- A literal is on record exactly until it is evaluated. -/
theorem lookup (follows : u.Follows h unit fresh heap)
    (compiled : u.definition.compile cacheDepth = .ok fresh) (id : Nat) :
    u.registry.records.lookup id =
      if evaluated h unit id then none else u.definition.literals[id]? := by
  rw [follows.records, lookup_filter_number (fun id => !evaluated h unit id),
    FunctionDef.compile_lookup compiled]
  cases evaluated h unit id <;> simp

/-- The registry is as long as there are literals that were not evaluated. -/
theorem registry_length (follows : u.Follows h unit fresh heap)
    (compiled : u.definition.compile cacheDepth = .ok fresh) :
    u.registry.length =
      (List.range u.definition.literals.length).countP fun id => !evaluated h unit id := by
  have numbers : fresh.registry.records.map (·.1) = List.range u.definition.literals.length := by
    rw [(FunctionDef.compile_records compiled).2, List.map_map, List.range_eq_range',
      ← List.zipIdx_map_snd 0 u.definition.literals]
    rfl
  rw [Registry.length, follows.records, ← List.countP_eq_length_filter, ← numbers, List.countP_map]
  rfl

end CompiledUnit.Follows

namespace Machine.Chronicle

variable {hosts : NativeFunction → Prop} {h : List Act} {m : Machine}

/-- The literal is on record in the unit as it was compiled. -/
theorem recorded (chronicle : m.Chronicle hosts h) {unit : UnitId} {u : CompiledUnit}
    (found : m.units[unit]? = some u) {id : Nat} {f : FunctionDef}
    (listed : u.definition.literals[id]? = some f) :
    ∃ fresh, m.Holds unit fresh ∧ fresh.registry.records.lookup id = some f := by
  obtain ⟨fresh, holds, -⟩ := chronicle.sound.holds found
  have same : u.definition = fresh.definition := by simpa [found] using holds.2
  refine ⟨fresh, holds, ?_⟩
  rw [FunctionDef.compile_lookup holds.1, ← same, listed]

/-- A literal is evaluated as its definition says, however often that has happened before. -/
theorem makeFunction_observed (chronicle : m.Chronicle hosts h) {unit : UnitId} {u : CompiledUnit}
    (found : m.units[unit]? = some u) {id : Nat} {f : FunctionDef}
    (listed : u.definition.literals[id]? = some f) :
    (m.makeFunction unit id).1 = (m.observe.makeFunction f).1 ∧
      (m.makeFunction unit id).2.observe = (m.observe.makeFunction f).2 := by
  obtain ⟨fresh, holds, recorded⟩ := chronicle.recorded found listed
  have agrees := chronicle.sound.makeFunction holds recorded
  generalize m.makeFunction unit id = made at agrees
  generalize m.observe.makeFunction f = wanted at agrees
  cases agrees with
  | ends leads => exact ⟨rfl, rfl⟩

end Machine.Chronicle

namespace Reference.World

theorem makeFunction_of_error {f : FunctionDef} {e : CompileError} (failed : f.check = .error e)
    (w : World) : w.makeFunction f = (.error (.compile e), w) := by
  simp [makeFunction, compile, failed, bind, Except.bind]

theorem makeFunction_of_ok {f : FunctionDef} (passed : f.check = .ok ()) (w : World) :
    w.makeFunction f = (.ok (.object w.heap.size), { w with
      heap := (w.heap.newFunction (f.name.getD anonymousName)
        (.compiled w.functions.size (f.name.getD anonymousName) f.params.length)).2
      functions := w.functions.push f }) := by
  simp [makeFunction, compile, passed, bind, Except.bind, pure, Except.pure, Heap.newFunction,
    Heap.alloc]

end Reference.World

theorem FunctionDef.check_cases (f : FunctionDef) :
    f.check = .ok () ∨ ∃ name line, f.check = .error (.unknownVariable name line) := by
  rw [check]
  split
  · exact Or.inr ⟨_, _, rfl⟩
  · exact Or.inl rfl

theorem FunctionDef.error_of_check {f : FunctionDef} {e : CompileError} (failed : f.check = .error e) :
    ∃ name line, e = .unknownVariable name line := by
  rcases f.check_cases with passed | ⟨name, line, refused⟩
  · cases passed.symm.trans failed
  · cases refused.symm.trans failed
    exact ⟨name, line, rfl⟩

theorem FunctionDef.compile_error_iff (f : FunctionDef) (cacheDepth : Nat) (e : CompileError) :
    f.compile cacheDepth = .error e ↔ f.check = .error e := by
  constructor
  · intro failed
    cases checked : f.check with
    | error e' =>
      rw [compile_of_check_error checked cacheDepth] at failed
      cases failed
      rfl
    | ok _ =>
      obtain ⟨fresh, compiled⟩ := compile_of_check_ok checked cacheDepth
      cases compiled.symm.trans failed
  · intro failed
    exact compile_of_check_error failed cacheDepth

theorem FunctionDef.check_of_compile {f : FunctionDef} {cacheDepth : Nat} {u : CompiledUnit}
    (compiled : f.compile cacheDepth = .ok u) : f.check = .ok () := by
  rcases f.check_cases with passed | ⟨name, line, refused⟩
  · exact passed
  · rw [compile_of_check_error refused cacheDepth] at compiled
    cases compiled

/-- After its evaluation a literal is off the record, whether it could be compiled or not. -/
theorem Machine.Chronicle.makeFunction_taken {hosts : NativeFunction → Prop} {h : List Act}
    {m : Machine} (chronicle : m.Chronicle hosts h) {unit : UnitId} {u : CompiledUnit}
    (found : m.units[unit]? = some u) {id : Nat} {f : FunctionDef}
    (listed : u.definition.literals[id]? = some f) :
    ((m.makeFunction unit id).2.units[unit]?).map (·.registry.records.lookup id) = some none := by
  obtain ⟨fresh, holds, recorded⟩ := chronicle.recorded found listed
  obtain ⟨chronicle', leads⟩ := chronicle.makeFunction holds recorded none
  obtain ⟨u', found', -⟩ := chronicle'.sound.tracks (leads.holds holds)
  obtain ⟨fresh', compiled, -, follows⟩ := chronicle'.unit_compiled found'
  have now : evaluated (h ++ [.visit unit (.function id none) m]) unit id = true :=
    (evaluated_iff _ _ _).mpr ⟨none, m, by simp⟩
  rw [found', Option.map_some, follows.lookup compiled, if_pos now]

/-- The activity is the evaluation of a literal that can not be compiled for the reason `e`, or a host
function that fails with `e` of its own accord. -/
def Activity.Faulty (e : CompileError) : Activity → Prop
  | .node _ unit ⟨.function id _, _, m⟩ => ∃ u f, m.units[unit]? = some u ∧
      u.definition.literals[id]? = some f ∧ f.check = .error e
  | .entry (k + 1) (.native f) receiver args m =>
      HostProgram.Raises (enter k) (.compile e) (f.body.onCall receiver args) m
  | _ => False

theorem Arity.check_ne_compile (arity : Arity) (count : Nat) (e : CompileError) :
    arity.check count ≠ .error (.compile e) := by
  cases arity with
  | variadic => simp [check]
  | fixed n => by_cases same : n = count <;> simp [check, same]

theorem Heap.resolveCallee_ne_compile (h : Heap) (callee : Value) (argCount : Nat)
    (e : CompileError) : h.resolveCallee callee argCount ≠ .error (.compile e) := by
  intro resolved
  cases callee with
  | object id =>
    cases found : h.callable? id with
    | none => simp [resolveCallee, found] at resolved
    | some target =>
      rw [resolveCallee_object found] at resolved
      cases checked : target.arity.check argCount with
      | ok _ => simp [checked, Except.map] at resolved
      | error e' =>
        simp only [checked, Except.map, Except.error.injEq] at resolved
        exact target.arity.check_ne_compile argCount e (resolved ▸ checked)
  | _ => simp [resolveCallee] at resolved

theorem MethodSite.resolve_ne_compile (site : MethodSite) (h : Heap) (receiver : Value)
    (e : CompileError) : site.resolve h receiver ≠ .error (.compile e) := by
  intro resolved
  cases receiver with
  | object id =>
    rw [resolve] at resolved
    split at resolved <;> cases resolved
  | _ => cases resolved

theorem Machine.setField_ne_compile (m : Machine) (site : FieldSite) (receiver v : Value)
    (e : CompileError) : (m.setField site receiver v).1 ≠ .error (.compile e) := by
  cases receiver <;> simp [setField, FieldSite.set]

theorem Machine.getField_ne_compile (m : Machine) (site : FieldSite) (receiver : Value)
    (e : CompileError) : (m.getField site receiver).1 ≠ .error (.compile e) := by
  cases receiver <;> simp [getField, FieldSite.get]

/-- The invocation of an object fails to compile something only inside the entry. -/
theorem invokeObject_compile {enter : Enter} {id : ObjectId} {receiver : Value} {args : List Value}
    {m s : Machine} {e : CompileError}
    (failed : invokeObject enter id receiver args m = some (.error (.compile e), s)) :
    ∃ target, m.heap.callable? id = some target ∧ target.arity.check args.length = .ok () ∧
      enter target receiver args m = some (.error (.compile e), s) := by
  cases found : m.heap.callable? id with
  | none => simp [invokeObject, found] at failed
  | some target =>
    cases checked : target.arity.check args.length with
    | ok _ =>
      simp only [invokeObject, found, checked] at failed
      exact ⟨target, rfl, checked, failed⟩
    | error e' =>
      simp only [invokeObject, found, checked, Option.some.injEq, Prod.mk.injEq,
        Except.error.injEq] at failed
      exact absurd (failed.1 ▸ checked) (target.arity.check_ne_compile _ e)

section
variable {hosts : NativeFunction → Prop} {h : List Act} {e : CompileError} {s : Machine}

/-- The literal that a node evaluates. -/
theorem Activity.Placed.literal {depth : Nat} {unit : UnitId} {id : Nat}
    {registration : Option (String × Nat)} {locals : List Value} {m : Machine}
    (placed : (Activity.node depth unit ⟨.function id registration, locals, m⟩).Placed hosts h) :
    ∃ u f, m.units[unit]? = some u ∧ u.definition.literals[id]? = some f := by
  obtain ⟨chronicle, fresh, literal, holds, lowered⟩ := placed
  obtain ⟨u, found, named⟩ := Option.map_eq_some_iff.mp holds.2
  have record : ∃ f, fresh.registry.records.lookup id = some f := by
    cases lowered with
    | function recorded => exact ⟨_, recorded⟩
    | named recorded => exact ⟨_, recorded⟩
  obtain ⟨f, recorded⟩ := record
  refine ⟨u, f, found, ?_⟩
  rw [named, ← FunctionDef.compile_lookup holds.1, recorded]

/-- A node that fails to compile something evaluates the literal at fault, or waits for a part that
fails. -/
theorem node_compile_cause {depth : Nat} {unit : UnitId} {p : Spot}
    (placed : (Activity.node depth unit p).Placed hosts h)
    (admits : keeping.Admits (.node depth unit p))
    (failed : (Activity.node depth unit p).Fails (.compile e) s) :
    (Activity.node depth unit p).Faulty e ∨
      ∃ b s', Part (.node depth unit p) b ∧ b.Fails (.compile e) s' := by
  rcases (node_fails_iff admits _ _).mp failed with ⟨q, operand, inside⟩ | ⟨helper, m', asks, tried⟩
  · exact Or.inr ⟨_, s, .operand operand, inside⟩
  · cases asks with
    | @function id registration locals =>
      obtain ⟨u, f, found, listed⟩ := placed.literal
      refine Or.inl ⟨u, f, found, listed, ?_⟩
      have made := (placed.1.makeFunction_observed found listed).1
      rw [Option.some.inj tried] at made
      rcases f.check_cases with passed | ⟨name, line, refused⟩
      · rw [Reference.World.makeFunction_of_ok passed] at made
        cases made
      · rw [Reference.World.makeFunction_of_error refused] at made
        cases made
        exact refused
    | entry ran given =>
      exact absurd (congrArg Prod.fst (Option.some.inj tried)) (Machine.setField_ne_compile _ _ _ _ e)
    | getField read =>
      exact absurd (congrArg Prod.fst (Option.some.inj tried)) (Machine.getField_ne_compile _ _ _ e)
    | setField into given =>
      exact absurd (congrArg Prod.fst (Option.some.inj tried)) (Machine.setField_ne_compile _ _ _ _ e)
    | @call callee args place f vs locals locals₁ locals' m m₁ _ called given =>
      obtain ⟨acts, fresh, site, told, holds, wanted, fits, -⟩ := call_ready placed called given
      obtain ⟨ready, -⟩ := told.last m' rfl
      obtain ⟨m₃, dispatched, -⟩ := ready.sound.dispatchCall holds wanted f
      rw [← fits] at dispatched
      cases resolved : m'.heap.resolveCallee f vs.length with
      | error e' =>
        simp only [callAt, dispatched, resolved, Except.map, Option.some.injEq, Prod.mk.injEq,
          Except.error.injEq] at tried
        exact absurd (tried.1 ▸ resolved) (Heap.resolveCallee_ne_compile _ _ _ e)
      | ok pair =>
        rw [resolved] at dispatched
        simp only [callAt, dispatched, Except.map] at tried
        exact Or.inr ⟨_, s, .call called given dispatched, tried⟩
    | @method receiver args site r vs locals locals₁ locals' m m₁ _ self given =>
      cases resolved : site.resolve m'.heap r with
      | error e' =>
        simp only [callMethod, resolved, Option.some.injEq, Prod.mk.injEq,
          Except.error.injEq] at tried
        exact absurd (tried.1 ▸ resolved) (MethodSite.resolve_ne_compile _ _ _ e)
      | ok id =>
        simp only [callMethod, resolved] at tried
        obtain ⟨target, found, fits, inside⟩ := invokeObject_compile tried
        exact Or.inr ⟨_, s, .method self given resolved found fits, inside⟩

/-- An invocation that fails to compile something is that of a host function with this error, or waits
for a part that fails. -/
theorem entry_compile_cause {depth : Nat} {target : Callable} {receiver : Value}
    {args : List Value} {m : Machine}
    (admits : keeping.Admits (.entry depth target receiver args m))
    (failed : (Activity.entry depth target receiver args m).Fails (.compile e) s) :
    (Activity.entry depth target receiver args m).Faulty e ∨
      ∃ b s', Part (.entry depth target receiver args m) b ∧ b.Fails (.compile e) s' ∧
        (Activity.entry depth target receiver args m).HandsOn b := by
  cases depth with
  | zero => cases failed
  | succ depth =>
    cases target with
    | compiled unit name params =>
      cases found : m.units[unit]? with
      | none => simp [Activity.Fails, enter, invokeUnit, found] at failed
      | some u =>
        by_cases count : args.length = u.arity
        · obtain ⟨p, s', part, inside, -⟩ :=
            (compiled_fails_iff admits.1.1 admits.1.2 depth found receiver count _ _).mp failed
          exact Or.inr ⟨_, s', part, inside, trivial⟩
        · simp [Activity.Fails, enter, invokeUnit, found, count] at failed
    | native f =>
      rcases (native_fails_iff depth f receiver args m _ _).mp failed with known | ⟨_, wrapped, -⟩
      · rcases HostProgram.known_cause known with own | ⟨id, r, vs, next, m', reaches, inside, hands⟩
        · exact Or.inl own
        · obtain ⟨target, found, fits, inside⟩ := invokeObject_compile inside
          refine Or.inr ⟨_, s, .host reaches found fits, inside, id, next, reaches, found, ?_⟩
          intro e' s' again
          cases inside.symm.trans again
          exact hands
      · cases wrapped

theorem Exposed.trans {start a b : Activity} {frames frames' : List Frame}
    (outer : Exposed start frames a) (exposed : Exposed a frames' b) :
    Exposed start (frames ++ frames') b := by
  induction exposed with
  | start => simpa using outer
  | part _ part open_ ih =>
    rw [← List.append_assoc]
    exact ih.part part open_

/-- Every failure to compile something goes back to a literal or to a host function. -/
theorem compile_origin (a : Activity) (h : List Act) (s : Machine) (placed : a.Placed hosts h)
    (admits : keeping.Admits a) (failed : a.Fails (.compile e) s) :
    ∃ frames b, Exposed a frames b ∧ b.Faulty e := by
  have cause : a.Faulty e ∨ ∃ b s', Part a b ∧ b.Fails (.compile e) s' ∧ a.HandsOn b := by
    cases a with
    | node depth unit p =>
      rcases node_compile_cause placed admits failed with own | ⟨b, s', part, inside⟩
      · exact Or.inl own
      · exact Or.inr ⟨b, s', part, inside, trivial⟩
    | entry => exact entry_compile_cause admits failed
  rcases cause with own | ⟨b, s', part, inside, open_⟩
  · exact ⟨[], a, .start, own⟩
  · obtain ⟨before, -, placed', -⟩ := part.told placed
    obtain ⟨frames, c, exposed, faulty⟩ :=
      compile_origin b (h ++ before) s' placed' (Discipline.part_moves part admits).1 inside
    exact ⟨_, c, (Exposed.start.part part open_).trans exposed, faulty⟩
termination_by a.rank
decreasing_by exact part.rank_lt

end

/-- The literals that an activity evaluates are those whose nodes are begun on the way. -/
theorem evaluated_acts_iff {hosts : NativeFunction → Prop} {h : List Act} {a : Activity}
    (placed : a.Placed hosts h) (unit : UnitId) (id : Nat) :
    evaluated a.acts unit id = true ↔ ∃ frames k registration locals m₁,
      Within a frames (.node k unit ⟨.function id registration, locals, m₁⟩) := by
  simp only [evaluated_iff, mem_acts_iff placed]
  constructor
  · rintro ⟨registration, m₁, frames, b, within, does⟩
    cases does with
    | visit => exact ⟨frames, _, registration, _, m₁, within⟩
  · rintro ⟨frames, k, registration, locals, m₁, within⟩
    exact ⟨registration, m₁, frames, _, within, .visit⟩

theorem Machine.compile_error_iff (m : Machine) (f : FunctionDef) (e : CompileError) :
    m.compile f = .error e ↔ f.check = .error e := by
  rw [← f.compile_error_iff m.cacheDepth]
  cases compiled : f.compile m.cacheDepth <;>
    simp [Machine.compile, compiled, bind, Except.bind, pure, Except.pure]

theorem execute_compile_iff (m : Machine) (depth : Nat) (program : Block) (e : CompileError)
    (m' : Machine) : execute depth program m = some (.error (.compile e), m') ↔
      (mainFunction program).check = .error e ∧ m' = m := by
  rw [← m.compile_error_iff]
  cases compiled : m.compile (mainFunction program) with
  | error e' => simp [Discipline.execute_eq, compiled, eq_comm]
  | ok made =>
    rw [execute_of_compile compiled]
    constructor
    · intro failed
      obtain ⟨⟨result, s⟩, -, same⟩ := Option.map_eq_some_iff.mp failed
      cases result <;> cases same
    · rintro ⟨⟨⟩, -⟩

/-- A program fails as its main function does. -/
theorem fails_of_execute {m m' : Machine} {program : Block} {main : ObjectId}
    (compiled : m.compile (mainFunction program) = .ok (main, m')) {depth : Nat} {e : RuntimeError}
    {s : Machine} (failed : execute depth program m = some (.error (.runtime e), s)) :
    (Activity.entry depth (.compiled m.units.size mainName 0) .undefined []
      (m'.log (.executingProgram program.instrs.length))).Fails e s := by
  rw [execute_of_compile compiled] at failed
  obtain ⟨⟨result, s'⟩, ran, same⟩ := Option.map_eq_some_iff.mp failed
  cases result with
  | ok v => cases same
  | error e' =>
    cases same
    exact ran

theorem Machine.Starts.admits {m : Machine} (sound : m.Sound) (idle : m.roots.parked = none)
    {start : Activity} (starts : m.Starts start) : keeping.Admits start := by
  cases starts with
  | @program depth program main m' compiled =>
    have genuine : (m'.log (.executingProgram program.instrs.length)).Genuine :=
      (sound.genuine.compile compiled).of_units rfl
    have same : m'.roots = m.roots := Machine.compile_roots compiled
    exact keeping_admits genuine (by rw [← idle, ← same]; rfl) depth _ .undefined []
  | invoke found fits => exact keeping_admits sound.genuine idle _ _ _ _
  | @site h argCount maxDepth history depth callee receiver args d current fits found =>
    have genuine : (m.log? d.event).Genuine := sound.genuine.of_units (m.log?_units d.event)
    have same : (m.log? d.event).roots = m.roots := by cases d.event <;> rfl
    exact keeping_admits genuine (by rw [same, idle]) depth _ receiver args

/-- The functions of the host that count are those that exist. -/
theorem Machine.Chronicle.narrow {hosts hosts' : NativeFunction → Prop} {h : List Act} {m : Machine}
    (chronicle : m.Chronicle hosts h)
    (natives : ∀ id f, m.heap.callable? id = some (.native f) → hosts' f) :
    m.Chronicle hosts' h :=
  { chronicle with
    entries := by
      intro id entry found
      cases entry with
      | compiled unit name params => exact chronicle.entries id _ found
      | native f => exact natives id f found }

theorem Activity.Placed.never_consumed {hosts : NativeFunction → Prop} {h : List Act} {a : Activity}
    (placed : a.Placed hosts h) (admits : keeping.Admits a) {n : Nat}
    (harmless : ∀ f, hosts f → ¬ f.body.MayRaise (.compile (.functionConsumed n))) (s : Machine) :
    ¬ a.Fails (.compile (.functionConsumed n)) s := by
  intro failed
  obtain ⟨frames, b, exposed, faulty⟩ := compile_origin a h s placed admits failed
  obtain ⟨before, -, placed', -⟩ := exposed.within.told placed
  unfold Activity.Faulty at faulty
  split at faulty
  · obtain ⟨u, f, -, -, failed'⟩ := faulty
    obtain ⟨name, line, same⟩ := FunctionDef.error_of_check failed'
    cases same
  · obtain ⟨-, known, -⟩ := placed'
    exact harmless _ known ⟨_, _, faulty.mayRaise⟩
  · exact faulty

/-- At every moment of every run a literal is on record in a unit exactly if it has not been evaluated there
so far, and evaluating it makes a function, or fails with the error of its definition each time. No run
fails because a record is gone, unless a function of the host fails with this error of its own accord. -/
theorem literals_are_taken_once {h : List Act} {m : Machine} (seen : m.Seen h) :
    (∀ unit u, m.units[unit]? = some u →
      (codeNodes u.code).filterMap Code.record? = List.range u.definition.literals.length ∧
      List.Forall₂ (fun e code =>
          code.record?.bind (u.definition.literals[·]?) = (Node.expr e).literal? u.global)
        (u.definition.nodes.filterMap Node.expr?) (codeNodes u.code) ∧
      (∀ id, u.registry.records.lookup id =
        if evaluated h unit id then none else u.definition.literals[id]?) ∧
      u.registry.length =
        (List.range u.definition.literals.length).countP (fun id => !evaluated h unit id) ∧
      ∀ id f, u.definition.literals[id]? = some f →
        ((m.makeFunction unit id).2.units[unit]?).map (·.registry.records.lookup id) = some none ∧
        (∀ e, f.compile m.cacheDepth = .error e →
          (m.makeFunction unit id).1 = .error (.compile e)) ∧
        ∀ v, f.compile m.cacheDepth = .ok v →
          (m.makeFunction unit id).1 = .ok (.object m.heap.size)) ∧
    (∀ start, m.Starts start → ∀ unit id, evaluated start.acts unit id = true ↔
      ∃ frames k registration locals m₁,
        Within start frames (.node k unit ⟨.function id registration, locals, m₁⟩)) ∧
    (m.Recorded h → ∀ n, (∀ id f, m.heap.callable? id = some (.native f) →
        ¬ f.body.MayRaise (.compile (.functionConsumed n))) →
      (∀ start frames a s, m.Starts start → Within start frames a →
        ¬ a.Fails (.compile (.functionConsumed n)) s) ∧
      ∀ depth program m', execute depth program m ≠
          some (.error (.compile (.functionConsumed n)), m') ∧
        execute depth program m ≠ some (.error (.runtime (.compile (.functionConsumed n))), m')) := by
  have chronicle := seen.chronicle
  refine ⟨?_, ?_, ?_⟩
  · intro unit u found
    obtain ⟨fresh, compiled, code, follows⟩ := chronicle.unit_compiled found
    refine ⟨?_, ?_, follows.lookup compiled, follows.registry_length compiled, ?_⟩
    · rw [code]
      exact (FunctionDef.compile_numbered compiled).2
    · rw [code]
      exact FunctionDef.compile_literal_places compiled
    · intro id f listed
      refine ⟨chronicle.makeFunction_taken found listed, ?_, ?_⟩
      · intro e failed
        rw [(chronicle.makeFunction_observed found listed).1,
          Reference.World.makeFunction_of_error ((f.compile_error_iff _ e).mp failed)]
      · intro v done
        rw [(chronicle.makeFunction_observed found listed).1,
          Reference.World.makeFunction_of_ok (FunctionDef.check_of_compile done)]
        rfl
  · intro start starts unit id
    exact evaluated_acts_iff (starts.placed chronicle) unit id
  · intro recorded n harmless
    have idle : m.roots.parked = none := by rw [recorded.reachable.roots_eq]
    have narrow : m.Chronicle (fun f => ¬ f.body.MayRaise (.compile (.functionConsumed n))) h :=
      chronicle.narrow harmless
    have never : ∀ start frames a s, m.Starts start → Within start frames a →
        ¬ a.Fails (.compile (.functionConsumed n)) s := by
      intro start frames a s starts within
      obtain ⟨before, -, placed, -⟩ := within.told (starts.placed narrow)
      have admits := Discipline.within_admits within (starts.admits chronicle.sound idle)
      exact placed.never_consumed admits (fun _ other => other) s
    refine ⟨never, fun depth program m' => ⟨?_, ?_⟩⟩
    · intro failed
      obtain ⟨refused, -⟩ := (execute_compile_iff m depth program _ m').mp failed
      obtain ⟨name, line, same⟩ := FunctionDef.error_of_check refused
      cases same
    · intro failed
      cases compiled : m.compile (mainFunction program) with
      | error e => simp [Discipline.execute_eq, compiled] at failed
      | ok made =>
        exact never _ _ _ _ (.program compiled) .start (fails_of_execute compiled failed)

/-- A fresh engine with one function compiled. -/
def bootWith (f : FunctionDef) : Machine :=
  (((Machine.boot 3 .accepting).compile f).toOption.map (·.2)).getD {}

theorem bootWith_serve {f : FunctionDef} (passed : f.check = .ok ()) {depth : Nat}
    {request : Request} {answer : Answer} {m : Machine}
    (served : serve depth request (bootWith f) = some (answer, m)) :
    m.Recorded (serveActs depth request (bootWith f)) ∧
      ∃ u, m.units[0]? = some u ∧ u.definition = f := by
  obtain ⟨fresh, compiled⟩ := FunctionDef.compile_of_check_ok passed 3
  obtain ⟨id, m₀, done, -, found⟩ := (Machine.Reachable.boot 3 .accepting).compile compiled
  have same : bootWith f = m₀ := by
    rw [bootWith, done]
    rfl
  have first : (Machine.boot 3 .accepting).units.size = 0 := rfl
  rw [same] at served ⊢
  have before : m₀.Recorded [] := (Machine.Recorded.boot 3 .accepting).serve (serve_compile done)
  have leads := ((serve_told before.chronicle depth request).last m (by rw [served]; rfl)).2
  have named : (m₀.units[0]?).map (·.definition) = some f := by
    rw [← first, found, Option.map_some, (FunctionDef.compile_ok compiled).1]
  obtain ⟨u, found', definition⟩ := Option.map_eq_some_iff.mp (leads.units 0 f named)
  refine ⟨?_, u, found', definition⟩
  rw [← List.nil_append (serveActs depth request m₀)]
  exact before.serve served

/-- A function with three literals, of which the second can not be compiled. -/
def threeLiterals : FunctionDef where
  name := some "f"
  params := []
  body := .mk [.function none [] (.mk [] 1) 1,
    .function (some "g") [] (.mk [.assign "x" (.literal (.int 1) 2) false 2] 2) 2,
    .function none [] (.mk [] 3) 3] 1
  global := Machine.global

/-- A run of it ends at the second literal: two literals are off the record, and the second one fails
again when it is evaluated again. -/
theorem literals_are_taken_once_failing :
    let acts := serveActs 2 (.invoke 13 .undefined []) (bootWith threeLiterals)
    ∃ (m : Machine) (u : CompiledUnit), m.Recorded acts ∧ m.units[0]? = some u ∧
      evaluated acts 0 0 = true ∧ evaluated acts 0 1 = true ∧ evaluated acts 0 2 = false ∧
      u.registry.length = 1 ∧ u.registry.records.lookup 1 = none ∧
      (m.makeFunction 0 1).1 = .error (.compile (.unknownVariable "x" 2)) := by
  intro acts
  have begun : evaluated acts 0 0 = true ∧ evaluated acts 0 1 = true ∧ evaluated acts 0 2 = false := by
    decide +kernel
  have ends : (serve 2 (.invoke 13 .undefined []) (bootWith threeLiterals)).isSome = true := by
    decide +kernel
  obtain ⟨⟨answer, m⟩, served⟩ := Option.isSome_iff_exists.mp ends
  obtain ⟨recorded, u, found, definition⟩ := bootWith_serve (f := threeLiterals) rfl served
  have recorded : m.Recorded acts := recorded
  obtain ⟨units, -⟩ := literals_are_taken_once (.rest recorded)
  obtain ⟨-, -, lookup, length, evaluates⟩ := units 0 u found
  have literals : u.definition.literals.length = 3 := by rw [definition]; rfl
  refine ⟨m, u, recorded, found, begun.1, begun.2.1, begun.2.2, ?_, ?_, ?_⟩
  · rw [length, literals]
    simp [List.range_succ, begun]
  · rw [lookup, if_pos begun.2.1]
  · refine (evaluates 1 _ (by rw [definition]; rfl)).2.1 _ ?_
    exact (FunctionDef.compile_error_iff _ _ _).mpr rfl

end ScriptEngine
