import ScriptEngine.Proofs.Roots

/-!
# Failures

A failure goes outwards. Whatever has been waiting for the activity that failed fails too, with the same
error and on the machine that the failure left: nothing that would have come later is run, and nothing
that came earlier is undone. Only the roots of the frames that are left are given up. A host function
may go on after an invocation that failed, or hand the failure on; a fault of a host function is wrapped
where it arises and nowhere else.
-/

namespace ScriptEngine

/-- The activity fails with the error `e` and leaves the machine `s`. A node has parked its failure. -/
def Activity.Fails : Activity → RuntimeError → Machine → Prop
  | .node depth unit p, e, s =>
      p.run (enter depth) unit = some (.aborted, s.park e) ∧ s.roots.parked = none
  | .entry depth target receiver args m, e, s =>
      enter depth target receiver args m = some (.error e, s)

/-- If the part fails, the activity ends with its failure. Only a function of the host can do something
else: it does so if it goes on in another way after the invocation. -/
def Activity.HandsOn : Activity → Activity → Prop
  | .entry (depth + 1) (.native f) receiver args m, .entry k target r vs m' => ∃ id next,
      HostProgram.Reaches (enter depth) (f.body.onCall receiver args) m
        (.step (.invoke id r vs) next) m' ∧ m'.heap.callable? id = some target ∧
      ∀ e s, enter k target r vs m' = some (.error e, s) → next (.error e) = .raise e
  | _, _ => True

/-- `apply` hands on every failure. -/
theorem Part.handsOn_of_apply {depth : Nat} {f : NativeFunction} {receiver : Value}
    {args : List Value} {m : Machine} {b : Activity} (body : f.body = .apply)
    (part : Part (.entry (depth + 1) (.native f) receiver args m) b) :
    Activity.HandsOn (.entry (depth + 1) (.native f) receiver args m) b := by
  cases part with
  | host reaches found fits =>
    refine ⟨_, _, reaches, found, fun e s _ => ?_⟩
    simp only [body, HostFunction.apply, HostProgram.applyFirst] at reaches
    split at reaches
    · cases reaches with
      | here => rfl
      | step _ later => cases later
    · cases reaches with
      | step _ later => cases later

/-- The machine after the frames have been left, outermost first. -/
def Machine.leave (s : Machine) : List Frame → Machine
  | [] => s
  | frame :: _ => s.release frame.mark

/-- On the way through `start` the activity is begun, and nothing between the two catches failures. -/
inductive Exposed (start : Activity) : List Frame → Activity → Prop
  | start : Exposed start [] start
  | part {frames : List Frame} {a b : Activity} (outer : Exposed start frames a) (part : Part a b)
      (open_ : a.HandsOn b) : Exposed start (frames ++ a.frames) b

theorem Exposed.within {start a : Activity} {frames : List Frame} (exposed : Exposed start frames a) :
    Within start frames a := by
  induction exposed with
  | start => exact .start
  | part _ part _ ih => exact ih.part part

/-- A failing statement ends the body it stands in. -/
theorem evalBody_of_statement {enter : Enter} {unit : UnitId} {before : List Code} {c : Code}
    (after : List Code) {locals locals' : List Value} {m m' s : Machine}
    (ran : evalBody enter unit before locals m = some (.next () locals', m'))
    (failed : evalCode enter unit c locals' m' = some (.aborted, s)) :
    evalBody enter unit (before ++ c :: after) locals m = some (.aborted, s) := by
  rw [evalBody_append, Exec.bind_eq_of_next ran, evalBody]
  exact Exec.bind_eq_of_aborted failed

/-- What waits for an activity that fails, fails with it. -/
theorem Part.fails {a b : Activity} (part : Part a b) (open_ : a.HandsOn b)
    (admits : keeping.Admits a) {e : RuntimeError} {s : Machine} (failed : b.Fails e s) :
    a.Fails e (s.leave a.frames) := by
  have begun := (Discipline.part_moves part admits).1
  cases part with
  | operand operand => exact ⟨operand.aborts failed.1, failed.2⟩
  | @call depth unit callee args site f vs locals locals₁ locals' m m₁ m₂ m' target called given
      found =>
    have failed : enter depth target .undefined vs m' = some (.error e, s) := failed
    have helper : callAt (enter depth) unit site f .undefined vs m₂ = some (.error e, s) := by
      simp only [callAt, found, failed]
    refine ⟨(Asks.call called given).aborts helper, ?_⟩
    have same := (enter_roots begun.1.1 begun.1.2 failed).2
    simp only [Activity.frames, Machine.leave, same, begun.1.2]
  | @method depth unit receiver args site r vs locals locals₁ locals' m m₁ m' id target self given
      resolved found fits =>
    have failed : enter depth target r vs m' = some (.error e, s) := failed
    have helper : callMethod (enter depth) site r vs m' = some (.error e, s) := by
      simp only [callMethod, resolved, invokeObject, found, fits, failed]
    refine ⟨(Asks.method self given).aborts helper, ?_⟩
    have same := (enter_roots begun.1.1 begun.1.2 failed).2
    simp only [Activity.frames, Machine.leave, same, begun.1.2]
  | @body depth unit name params receiver args locals' m m' u before after c found count split ran =>
    obtain ⟨stopped, idle⟩ := failed
    have body := evalBody_of_statement after ran stopped
    rw [← split] at body
    simp only [Activity.Fails, Activity.frames, found, Machine.leave, enter, invokeUnit, count,
      ne_eq, not_true_eq_false, if_false, body, endInvocation, Discipline.takeParked_park idle]
  | @host depth f receiver r args vs m m' _ _ target _ _ fits =>
    have failed : enter depth target r vs m' = some (.error e, s) := failed
    obtain ⟨id, next, reaches, found, hands⟩ := open_
    have invoked : (HostStep.invoke id r vs).perform (enter depth) m' = some (.error e, s) := by
      simp only [HostStep.perform, invokeObject, found, fits, failed]
    have ran : runHost (enter depth) f.body receiver args m = some (.error (.known e), s) := by
      rw [runHost, reaches.run_eq, HostProgram.run_of_performed invoked, hands e s failed]
      rfl
    simp only [Activity.Fails, Activity.frames, Machine.leave, enter, ran]
    rfl

theorem mark_of_mem_frames {a : Activity} {frame : Frame} (member : frame ∈ a.frames) :
    frame.mark = a.machine.roots.count := by
  unfold Activity.frames at member
  split at member
  · split at member
    · rw [List.mem_singleton.mp member]
      rfl
    · cases member
  · cases member

/-- Frames begin in the order of the calls. -/
theorem Within.mark_le {start a : Activity} {frames : List Frame} (within : Within start frames a)
    (admits : keeping.Admits start) {frame : Frame} (member : frame ∈ frames) :
    frame.mark ≤ a.machine.roots.count := by
  induction within with
  | start => cases member
  | @part frames a b outer part ih =>
    obtain ⟨-, n, moved, -⟩ := Discipline.part_moves part (Discipline.within_admits outer admits)
    have adds : a.machine.Adds n b.machine := moved.2
    have grows : a.machine.roots.count ≤ b.machine.roots.count := by
      obtain ⟨held, arena, -, -⟩ := adds.arena
      have length := congrArg List.length arena
      simp only [List.length_append, Array.length_toList] at length
      simp only [Roots.count]
      omega
    rcases List.mem_append.mp member with old | new
    · exact Nat.le_trans (ih old) grows
    · rw [mark_of_mem_frames new]
      exact grows

theorem Machine.release_release (s : Machine) {first second : Nat} (order : second ≤ first) :
    (s.release first).release second = s.release second := by
  have cut : (s.roots.arena.shrink first).shrink second = s.roots.arena.shrink second := by
    apply Array.toList_inj.mp
    rw [Array.toList_shrink, Array.toList_shrink, Array.toList_shrink, List.take_take,
      Nat.min_eq_left order]
  simp only [Machine.release, Roots.release, cut]

/-- Everything that waits for a failing activity fails with it, and leaves the same machine but for the
roots of the frames in between. -/
theorem Exposed.fails {start a : Activity} {frames : List Frame} (exposed : Exposed start frames a)
    (admits : keeping.Admits start) {e : RuntimeError} {s : Machine} (failed : a.Fails e s) :
    start.Fails e (s.leave frames) := by
  induction exposed generalizing s with
  | start => exact failed
  | @part frames a b outer part open_ ih =>
    have here := ih (part.fails open_ (Discipline.within_admits outer.within admits) failed)
    have same : (s.leave a.frames).leave frames = s.leave (frames ++ a.frames) := by
      cases frames with
      | nil => rfl
      | cons frame rest =>
        cases inner : a.frames with
        | nil => rw [List.append_nil]; rfl
        | cons frame' rest' =>
          have mark : frame'.mark = a.machine.roots.count :=
            mark_of_mem_frames (by rw [inner]; exact List.mem_cons_self)
          have order := outer.within.mark_le admits (List.mem_cons_self (a := frame) (l := rest))
          exact s.release_release (mark ▸ order)
    rw [← same]
    exact here

theorem Machine.leave_eq (s : Machine) (frames : List Frame) :
    s.leave frames = { s with roots := (s.leave frames).roots } := by
  cases frames <;> rfl

/-- An invocation that waits for a failing activity fails on the machine that the failure left, with
the roots the invocation began with. -/
theorem Exposed.enter_fails {m : Machine} (genuine : m.Genuine) (idle : m.roots.parked = none)
    {depth : Nat} {target : Callable} {receiver : Value} {args : List Value} {frames : List Frame}
    {a : Activity} (exposed : Exposed (.entry depth target receiver args m) frames a)
    {e : RuntimeError} {s : Machine} (failed : a.Fails e s) :
    enter depth target receiver args m = some (.error e, { s with roots := m.roots }) := by
  have ended : enter depth target receiver args m = some (.error e, s.leave frames) :=
    exposed.fails (keeping_admits genuine idle depth target receiver args) failed
  have same := (enter_roots genuine idle ended).2
  rw [ended, Machine.leave_eq, same]

/-- A node fails exactly when one of its operands fails or an operation it asks for fails, with the
same error and on the same machine. -/
theorem node_fails_iff {depth : Nat} {unit : UnitId} {p : Spot}
    (admits : keeping.Admits (.node depth unit p)) (e : RuntimeError) (s : Machine) :
    Activity.Fails (.node depth unit p) e s ↔
      (∃ q, Operand (enter depth) unit p q ∧ Activity.Fails (.node depth unit q) e s) ∨
        ∃ helper m, Asks (enter depth) unit p helper m ∧ helper m = some (.error e, s) := by
  have idle_after : ∀ helper m e s, Asks (enter depth) unit p helper m →
      helper m = some (.error e, s) → s.roots.parked = none := by
    intro helper m e s asks tried
    obtain ⟨-, returns⟩ := Discipline.asks_returns (D := keeping) (Discipline.enters_enter depth)
      asks admits.1 admits.2
    rw [tried] at returns
    cases returns with
    | error moved => exact moved.2.idle
  constructor
  · rintro ⟨stopped, idle⟩
    rcases p.aborted_cause stopped with ⟨q, operand, failed⟩ | ⟨helper, m, e', s', asks, tried, same⟩
    · exact Or.inl ⟨q, operand, failed, idle⟩
    · have idle' := idle_after helper m e' s' asks tried
      obtain ⟨rfl, rfl⟩ := Machine.park_injective idle idle' same
      exact Or.inr ⟨helper, m, asks, tried⟩
  · rintro (⟨q, operand, failed, idle⟩ | ⟨helper, m, asks, tried⟩)
    · exact ⟨operand.aborts failed, idle⟩
    · exact ⟨asks.aborts tried, idle_after helper m e s asks tried⟩

/-- A host function fails with the error it was given, or with a fault of its own, wrapped. -/
theorem native_fails_iff (depth : Nat) (f : NativeFunction) (receiver : Value) (args : List Value)
    (m : Machine) (e : RuntimeError) (s : Machine) :
    Activity.Fails (.entry (depth + 1) (.native f) receiver args m) e s ↔
      runHost (enter depth) f.body receiver args m = some (.error (.known e), s) ∨
        ∃ fault, e = .invocationFailure fault ∧
          runHost (enter depth) f.body receiver args m = some (.error (.foreign fault), s) := by
  simp only [Activity.Fails, enter]
  cases ran : runHost (enter depth) f.body receiver args m with
  | none => simp
  | some r =>
    obtain ⟨result, s'⟩ := r
    cases result with
    | ok v => simp [Except.mapError]
    | error cause =>
      cases cause with
      | known e' => simp [Except.mapError, RuntimeError.ofHost]
      | foreign fault =>
        simp only [Except.mapError, RuntimeError.ofHost, Option.some.injEq, Prod.mk.injEq,
          Except.error.injEq, reduceCtorEq, false_and, false_or, HostError.foreign.injEq]
        constructor
        · rintro ⟨rfl, rfl⟩
          exact ⟨fault, rfl, rfl, rfl⟩
        · rintro ⟨fault', rfl, rfl, rfl⟩
          exact ⟨rfl, rfl⟩

/-- A compiled function that was not refused fails exactly when a statement of its body fails. -/
theorem compiled_fails_iff {m : Machine} (genuine : m.Genuine) (idle : m.roots.parked = none)
    (depth : Nat) {unit : UnitId} {name : String} {params : Nat} {u : CompiledUnit}
    (found : m.units[unit]? = some u) (receiver : Value) {args : List Value}
    (count : args.length = u.arity) (e : RuntimeError) (s : Machine) :
    Activity.Fails (.entry (depth + 1) (.compiled unit name params) receiver args m) e s ↔
      ∃ p s', Part (.entry (depth + 1) (.compiled unit name params) receiver args m)
          (.node depth unit p) ∧
        Activity.Fails (.node depth unit p) e s' ∧ s = { s' with roots := m.roots } := by
  constructor
  · intro failed
    obtain ⟨s', aborted, parked, left⟩ := invocation_aborts genuine idle found count failed
    obtain ⟨before, c, after, locals', m', split, ran, stopped⟩ := evalBody_aborted aborted
    exact ⟨⟨c, locals', m'⟩, s', .body found count split ran, ⟨stopped, parked⟩, left⟩
  · rintro ⟨p, s', part, failed, rfl⟩
    have exposed : Exposed (.entry (depth + 1) (.compiled unit name params) receiver args m)
        _ (.node depth unit p) := Exposed.start.part part trivial
    exact exposed.enter_fails genuine idle failed

theorem Machine.compile_callable {m m' : Machine} {f : FunctionDef} {id : ObjectId}
    (done : m.compile f = .ok (id, m')) :
    m'.heap.callable? id =
      some (.compiled m.units.size (f.name.getD anonymousName) f.params.length) := by
  obtain ⟨fresh, event, compiled, rfl, rfl⟩ := compile_inv done
  obtain ⟨rfl, -⟩ := FunctionDef.compile_ok compiled
  exact m.heap.newFunction_callable _ _

theorem invoke_of_callable {m : Machine} {id : ObjectId} {target : Callable}
    (found : m.heap.callable? id = some target) (depth : Nat) (receiver : Value)
    (args : List Value) (fits : target.arity.check args.length = .ok ()) :
    invoke depth id receiver args m = enter depth target receiver args m := by
  simp only [invoke, invokeObject, found, fits]

/-- A program fails as the activities inside its main function fail. -/
theorem execute_fails {m m' : Machine} (genuine : m.Genuine) (idle : m.roots.parked = none)
    {program : Block} {main : ObjectId} (compiled : m.compile (mainFunction program) = .ok (main, m'))
    {depth : Nat} {frames : List Frame} {a : Activity}
    (exposed : Exposed (.entry depth (.compiled m.units.size mainName 0) .undefined []
      (m'.log (.executingProgram program.instrs.length))) frames a)
    {e : RuntimeError} {s : Machine} (failed : a.Fails e s) :
    execute depth program m = some (.error (.runtime e), { s with roots := m.roots }) := by
  have genuine' := genuine.compile compiled
  have same := Machine.compile_roots compiled
  have logged : (m'.log (.executingProgram program.instrs.length)).Genuine := genuine'.of_units rfl
  have ended := exposed.enter_fails logged (by rw [← idle, ← same]; rfl) failed
  have callable : (m'.log (.executingProgram program.instrs.length)).heap.callable? main =
      some (.compiled m.units.size mainName 0) := Machine.compile_callable compiled
  have invoked := invoke_of_callable callable depth .undefined [] rfl
  have roots : (m'.log (.executingProgram program.instrs.length)).roots = m.roots := same
  simp only [Discipline.execute_eq, compiled, invoked, ended, roots]
  rfl

/-- Whatever waits for an activity that fails, with nothing in between that catches failures, fails with the
same error on the machine that the failure left, but for the roots of the frames it leaves. A node fails
exactly through an operand or an operation it asks for, and a host function wraps a fault of its own once. -/
theorem failures_go_outwards {m : Machine} (reachable : m.Reachable) (depth : Nat)
    (target : Callable) (receiver : Value) (args : List Value) :
    let start := Activity.entry depth target receiver args m
    (∀ outside b frames a e s, Within start outside b → Exposed b frames a → a.Fails e s →
      b.Fails e (s.leave frames)) ∧
    (∀ outside k entered self given m₁ frames a e s,
      Within start outside (.entry k entered self given m₁) →
      Exposed (.entry k entered self given m₁) frames a → a.Fails e s →
      enter k entered self given m₁ = some (.error e, { s with roots := m₁.roots })) ∧
    (∀ outside k unit p e s, Within start outside (.node k unit p) →
      (Activity.Fails (.node k unit p) e s ↔
        (∃ q, Operand (enter k) unit p q ∧ Activity.Fails (.node k unit q) e s) ∨
          ∃ helper m₁, Asks (enter k) unit p helper m₁ ∧ helper m₁ = some (.error e, s))) ∧
    (∀ outside k unit name params self given m₁ u e s,
      Within start outside (.entry (k + 1) (.compiled unit name params) self given m₁) →
      m₁.units[unit]? = some u → given.length = u.arity →
      (enter (k + 1) (.compiled unit name params) self given m₁ = some (.error e, s) ↔
        ∃ p s', Part (.entry (k + 1) (.compiled unit name params) self given m₁)
            (.node k unit p) ∧
          Activity.Fails (.node k unit p) e s' ∧ s = { s' with roots := m₁.roots })) ∧
    (∀ k f self given m₁ e s,
      enter (k + 1) (.native f) self given m₁ = some (.error e, s) ↔
        runHost (enter k) f.body self given m₁ = some (.error (.known e), s) ∨
          ∃ fault, e = .invocationFailure fault ∧
            runHost (enter k) f.body self given m₁ = some (.error (.foreign fault), s)) ∧
    (∀ id frames a e s, m.heap.callable? id = some target →
      target.arity.check args.length = .ok () → Exposed start frames a → a.Fails e s →
      invoke depth id receiver args m = some (.error e, { s with roots := m.roots })) ∧
    (∀ program main m' frames a e s, m.compile (mainFunction program) = .ok (main, m') →
      Exposed (.entry depth (.compiled m.units.size mainName 0) .undefined []
        (m'.log (.executingProgram program.instrs.length))) frames a → a.Fails e s →
      execute depth program m = some (.error (.runtime e), { s with roots := m.roots })) := by
  intro start
  have genuine := reachable.sound.genuine
  have idle : m.roots.parked = none := by rw [reachable.roots_eq]
  have admits : keeping.Admits start := keeping_admits genuine idle depth target receiver args
  refine ⟨?_, ?_, ?_, ?_, ?_, ?_, ?_⟩
  · intro outside b frames a e s within exposed failed
    exact exposed.fails (Discipline.within_admits within admits) failed
  · intro outside k entered self given m₁ frames a e s within exposed failed
    have here := Discipline.within_admits within admits
    exact exposed.enter_fails here.1.1 here.1.2 failed
  · intro outside k unit p e s within
    exact node_fails_iff (Discipline.within_admits within admits) e s
  · intro outside k unit name params self given m₁ u e s within found count
    have here := Discipline.within_admits within admits
    exact compiled_fails_iff here.1.1 here.1.2 k found self count e s
  · intro k f self given m₁ e s
    exact native_fails_iff k f self given m₁ e s
  · intro id frames a e s found fits exposed failed
    rw [invoke_of_callable found depth receiver args fits]
    exact exposed.enter_fails genuine idle failed
  · intro program main m' frames a e s compiled exposed failed
    exact execute_fails genuine idle compiled exposed failed

/-- The value of a node and the slots after it. -/
def Flow.next? {α : Type} : Flow α → Option (α × List Value)
  | .next a locals => some (a, locals)
  | _ => none

theorem Flow.eq_of_next? {α : Type} {flow : Flow α} {a : α} {locals : List Value}
    (ended : flow.next? = some (a, locals)) : flow = .next a locals := by
  cases flow with
  | next => cases ended; rfl
  | returned => cases ended
  | aborted => cases ended

/-- A function that prints, divides by zero and would print again. -/
def dividesByZero : FunctionDef where
  name := some "f"
  params := []
  body := .mk [.call (.var "print" 1) [.literal (.text "a") 1] 1,
    .call (.var "/" 2) [.literal (.int 1) 2, .literal (.int 0) 2] 2,
    .call (.var "print" 3) [.literal (.text "b") 3] 3] 1
  global := Machine.global

/-- A fresh engine with that function compiled. -/
def withDivision : Machine :=
  (((Machine.boot 3 .accepting).compile dividesByZero).toOption.map (·.2)).getD {}

theorem withDivision_reachable : withDivision.Reachable := by
  obtain ⟨fresh, compiled⟩ := FunctionDef.compile_of_check_ok (f := dividesByZero) rfl 3
  obtain ⟨id, m, done, reachable, -⟩ := (Machine.Reachable.boot 3 .accepting).compile compiled
  have same : withDivision = m := by rw [withDivision, done]; rfl
  rw [same]
  exact reachable

theorem failures_go_outwards_division :
    ∃ a s, Exposed (.entry 2 (.compiled 0 "f" 0) .undefined [] withDivision)
        [{ function := dividesByZero, mark := 0 }] a ∧
      a.Fails (.invocationFailure Operator.divisionByZero) s ∧ s.output = "a\n" ∧
      enter 2 (.compiled 0 "f" 0) .undefined [] withDivision =
        some (.error (.invocationFailure Operator.divisionByZero),
          { s with roots := withDivision.roots }) := by
  let start := Activity.entry 2 (.compiled 0 "f" 0) .undefined [] withDivision
  let before : List Code := [.call (.loadGlobal "print" 0) [.text "a"] 0]
  let failing : Code := .call (.loadGlobal "/" 1) [.int 1, .int 0] 1
  obtain ⟨u, found, definition, count, code⟩ : ∃ u, withDivision.units[0]? = some u ∧
      u.definition = dividesByZero ∧ [].length = u.arity ∧
      u.code = before ++ failing :: [.call (.loadGlobal "print" 2) [.text "b"] 2] :=
    ⟨_, rfl, rfl, rfl, rfl⟩
  have ran : ((evalBody (enter 1) 0 before (u.initialLocals .undefined []) withDivision).bind
      fun r => r.1.next?.bind fun done =>
        (evalCode (enter 1) 0 (.loadGlobal "/" 1) done.2 r.2).bind fun r' =>
          r'.1.next?.bind fun given => (r'.2.dispatchCall 0 1 2 given.1).1.toOption.bind fun target =>
            (enter 1 target .undefined [.int 1, .int 0] (r'.2.dispatchCall 0 1 2 given.1).2).map
              fun ended => (ended.1, ended.2.output)) =
      some (.error (.invocationFailure Operator.divisionByZero), "a\n") := by
    obtain rfl : _ = u := Option.some.inj found
    decide +kernel
  obtain ⟨⟨flow, m₁⟩, printed, rest⟩ := Option.bind_eq_some_iff.mp ran
  obtain ⟨⟨done, locals⟩, ended, rest⟩ := Option.bind_eq_some_iff.mp rest
  obtain rfl := Flow.eq_of_next? ended
  obtain ⟨⟨flow', m₂⟩, looked, rest⟩ := Option.bind_eq_some_iff.mp rest
  obtain ⟨⟨f, locals'⟩, ended', rest⟩ := Option.bind_eq_some_iff.mp rest
  obtain rfl := Flow.eq_of_next? ended'
  obtain ⟨division, called, rest⟩ := Option.bind_eq_some_iff.mp rest
  obtain ⟨m₃, dispatched⟩ : ∃ m₃, m₂.dispatchCall 0 1 2 f = (.ok division, m₃) := by
    cases found : m₂.dispatchCall 0 1 2 f with
    | mk target m₃ =>
      rw [found] at called
      cases target with
      | error e => cases called
      | ok target => exact ⟨m₃, by rw [Option.some.inj called]⟩
  simp only [dispatched] at rest
  obtain ⟨⟨result, s⟩, entered, given⟩ := Option.map_eq_some_iff.mp rest
  obtain ⟨rfl, output⟩ := Prod.mk.inj given
  have statement : Part start (.node 1 0 ⟨failing, locals, m₁⟩) := .body found count code printed
  have call : Part (.node 1 0 ⟨failing, locals, m₁⟩)
      (.entry 1 division .undefined [.int 1, .int 0] m₃) := by
    have given : evalArgs (enter 1) 0 [.int 1, .int 0] locals' m₂ =
        some (.next [.int 1, .int 0] locals', m₂) := by
      simp only [evalArgs, evalCode, pure_bind]
      rfl
    exact .call looked given dispatched
  have exposed := (Exposed.start.part statement trivial).part call trivial
  have failed : Activity.Fails (.entry 1 division .undefined [.int 1, .int 0] m₃)
      (.invocationFailure Operator.divisionByZero) s := entered
  have frames : start.frames = [{ function := dividesByZero, mark := 0 }] := by
    simp only [start, Activity.frames, found, definition]
    rfl
  rw [frames] at exposed
  have outwards := failures_go_outwards withDivision_reachable 2 (.compiled 0 "f" 0) .undefined []
  exact ⟨_, s, exposed, failed, output, outwards.2.1 _ _ _ _ _ _ _ _ _ _ .start exposed failed⟩

end ScriptEngine
