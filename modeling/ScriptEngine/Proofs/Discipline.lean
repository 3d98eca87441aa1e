import ScriptEngine.Proofs.Moments
import ScriptEngine.Proofs.Session

/-!
# What holds all through a run

A discipline says what may become of a machine while code runs on it. It is given by what each
single operation of the machine may do, and then every run keeps it, at every moment and however the
run ends. A discipline also counts: code keeps at most one value for each of its nodes that asks for
a value, and what an invocation has kept is given up at its end.
-/

namespace ScriptEngine

mutual

/-- The number of nodes of some code that ask the machine for a value. -/
def Code.requests : Code → Nat
  | .int _ | .text _ | .load _ => 0
  | .store _ value | .ret value => value.requests
  | .loadGlobal _ _ | .function _ _ => 1
  | .block body => requestsAll body
  | .branch condition yes no => condition.requests + (requestsAll yes + requestsAll no)
  | .object entries => requestsEntries entries + 1
  | .getField receiver _ => receiver.requests + 1
  | .setField receiver value _ => receiver.requests + value.requests
  | .call callee args _ => callee.requests + (requestsAll args + 1)
  | .method receiver args _ => receiver.requests + (requestsAll args + 1)

def requestsAll : List Code → Nat
  | [] => 0
  | c :: cs => c.requests + requestsAll cs

def requestsEntries : List (Code × FieldSite) → Nat
  | [] => 0
  | (c, _) :: rest => c.requests + requestsEntries rest

end

theorem requestsAll_append (first second : List Code) :
    requestsAll (first ++ second) = requestsAll first + requestsAll second := by
  induction first with
  | nil => simp [requestsAll]
  | cons c rest ih => simp only [List.cons_append, requestsAll, ih, Nat.add_assoc]

theorem requestsEntries_append (first second : List (Code × FieldSite)) :
    requestsEntries (first ++ second) = requestsEntries first + requestsEntries second := by
  induction first with
  | nil => simp [requestsEntries]
  | cons entry rest ih => simp only [List.cons_append, requestsEntries, ih, Nat.add_assoc]

namespace Machine

@[simp] theorem log?_roots (m : Machine) (event : Option Event) :
    (m.log? event).roots = m.roots := by cases event <;> rfl

@[simp] theorem modifySites_roots (m : Machine) (unit : UnitId) (f : SiteTable → SiteTable) :
    (m.modifySites unit f).roots = m.roots := rfl

@[simp] theorem lookupGlobal_roots (m : Machine) (unit : UnitId) (site : Nat) (name : String) :
    (m.lookupGlobal unit site name).2.roots = m.roots := by
  simp [lookupGlobal, lookupAt_eq]

@[simp] theorem registerGlobal_roots (m : Machine) (unit : UnitId) (site : Nat) (name : String)
    (v : Value) : (m.registerGlobal unit site name v).roots = m.roots := by
  simp [registerGlobal, registerAt_eq]

@[simp] theorem dispatchCall_roots (m : Machine) (unit : UnitId) (site argCount : Nat)
    (callee : Value) : (m.dispatchCall unit site argCount callee).2.roots = m.roots := by
  simp only [dispatchCall, dispatchAt, modifySites_roots]
  split <;> simp

theorem compile_roots {m m' : Machine} {f : FunctionDef} {id : ObjectId}
    (done : m.compile f = .ok (id, m')) : m'.roots = m.roots := by
  obtain ⟨fresh, event, compiled, rfl, rfl⟩ := compile_inv done
  rfl

@[simp] theorem makeFunction_roots (m : Machine) (unit : UnitId) (id : Nat) :
    (m.makeFunction unit id).2.roots = m.roots := by
  simp only [makeFunction, materializeAt, modifySites_roots]
  generalize FunctionSite.take _ _ = taken
  split
  · exact m.log?_roots taken.event
  · split
    · exact m.log?_roots taken.event
    · rename_i done
      exact (compile_roots done).trans (m.log?_roots taken.event)

end Machine

/-- What may happen to a machine in a run. -/
structure Discipline where
  /-- Holds of the machine whenever an activity begins. -/
  holds : Machine → Prop
  /-- What may become of a machine while at most `n` values are kept. -/
  moves : (n : Nat) → Machine → Machine → Prop
  /-- The values that may occur. -/
  fine : Machine → Value → Prop
  /-- The entries that may be entered. -/
  opens : Machine → Callable → Prop
  holds_of_moves {n m m'} : moves n m m' → holds m'
  fine_of_moves {n m m' v} : moves n m m' → fine m v → fine m' v
  idle {m} : holds m → m.roots.parked = none
  /-- Values that are no objects may always occur. -/
  plain (m) {v} : v.object? = none → fine m v
  stay {m} : holds m → moves 0 m m
  trans {n k m₁ m₂ m₃} : moves n m₁ m₂ → moves k m₂ m₃ → moves (n + k) m₁ m₃
  mono {n k m m'} : n ≤ k → moves n m m' → moves k m m'
  -- the roots of running code
  root {m v} : holds m → fine m v → moves 1 m (m.root v)
  release {n m m'} : moves n m m' → moves 0 m (m'.release m.roots.count)
  fine_release {m v} (mark) : fine m v → fine (m.release mark) v
  -- what running code and functions of the host ask for
  log {m} (event) : holds m → moves 0 m (m.log event)
  print {m} (args) : holds m → moves 0 m (m.print args).2
  lookup {m id} (key) : holds m → fine m (.object id) → fine m (m.heap.lookup id key)
  register {m id v} (key) : holds m → fine m (.object id) → fine m v →
    moves 0 m { m with heap := m.heap.register id key v }
  create {m proto} : holds m → (∀ p, proto = some p → fine m (.object p)) →
    let created := m.heap.newObject proto
    moves 0 m { m with heap := created.2 } ∧ fine { m with heap := created.2 } (.object created.1)
  lookupGlobal {m} (unit site name) : holds m →
    let found := m.lookupGlobal unit site name
    moves 0 m found.2 ∧ fine found.2 found.1
  registerGlobal {m v} (unit site name) : holds m → fine m v →
    moves 0 m (m.registerGlobal unit site name v)
  makeFunction {m} (unit id) : holds m →
    let made := m.makeFunction unit id
    moves 0 m made.2 ∧ ∀ v, made.1 = .ok v → fine made.2 v
  dispatchCall {m} (unit site argCount callee) : holds m →
    let found := m.dispatchCall unit site argCount callee
    moves 0 m found.2 ∧ ∀ entry, found.1 = .ok entry → opens found.2 entry
  callable {m id entry} : holds m → m.heap.callable? id = some entry → opens m entry
  native {m f} : opens m (.native f) → f.body.Careful fine (moves 0) m
  -- what only the host asks for
  global {m} : holds m → fine m (.object Machine.global)
  compile {m f id m'} : holds m → fine m (.object f.global) → m.compile f = .ok (id, m') →
    moves 0 m m' ∧ fine m' (.object id)
  define {m owner name arity body} : holds m → fine m (.object owner) →
    opens m (.native { name, arity, body }) →
    let defined := m.define owner name arity body
    moves 0 m defined.2 ∧ fine defined.2 (.object defined.1)

namespace Discipline

variable (D : Discipline)

def Fine (m : Machine) (vs : List Value) : Prop := ∀ v ∈ vs, D.fine m v

variable {D}

theorem Fine.moves {n : Nat} {m m' : Machine} {vs : List Value} (fine : D.Fine m vs)
    (moved : D.moves n m m') : D.Fine m' vs := fun v member => D.fine_of_moves moved (fine v member)

theorem fine_nil (m : Machine) : D.Fine m [] := by simp [Fine]

theorem Fine.cons {m : Machine} {v : Value} {vs : List Value} (head : D.fine m v)
    (tail : D.Fine m vs) : D.Fine m (v :: vs) := by
  intro w member
  rcases List.mem_cons.mp member with rfl | member
  · exact head
  · exact tail w member

theorem Fine.append {m : Machine} {vs ws : List Value} (first : D.Fine m vs)
    (second : D.Fine m ws) : D.Fine m (vs ++ ws) := by
  intro v member
  rcases List.mem_append.mp member with member | member
  · exact first v member
  · exact second v member

theorem Fine.sub {m : Machine} {vs ws : List Value} (fine : D.Fine m vs) (sub : ws ⊆ vs) :
    D.Fine m ws := fun v member => fine v (sub member)

theorem fine_single {m : Machine} {v : Value} (fine : D.fine m v) : D.Fine m [v] := by
  intro w member
  rw [List.mem_singleton.mp member]
  exact fine

theorem fine_plain (m : Machine) {v : Value} (plain : v.object? = none) : D.Fine m [v] :=
  fine_single (D.plain m plain)

variable (D)

/-- How an invocation may end that begins on `m`. -/
inductive Returns {ε : Type} (m : Machine) : Option (Except ε Value × Machine) → Prop
  | stuck : Returns m none
  | ok {v : Value} {m' : Machine} (moved : D.moves 0 m m') (given : D.fine m' v) :
      Returns m (some (.ok v, m'))
  | error {e : ε} {m' : Machine} (moved : D.moves 0 m m') : Returns m (some (.error e, m'))

/-- How running code may end that begins on `m` and keeps at most `n` values; `mentions` are the
values in what it gives. A failure is parked on a machine that would do. -/
inductive Ends {α : Type} (n : Nat) (m : Machine) (mentions : α → List Value) :
    Option (Flow α × Machine) → Prop
  | stuck : Ends n m mentions none
  | next {a : α} {locals : List Value} {m' : Machine} (moved : D.moves n m m')
      (slots : D.Fine m' locals) (given : D.Fine m' (mentions a)) :
      Ends n m mentions (some (.next a locals, m'))
  | returned {v : Value} {m' : Machine} (moved : D.moves n m m') (given : D.fine m' v) :
      Ends n m mentions (some (.returned v, m'))
  | aborted {e : RuntimeError} {s : Machine} (moved : D.moves n m s) :
      Ends n m mentions (some (.aborted, s.park e))

/-- Entering a callable that may be entered ends well. -/
def Enters (enter : Enter) : Prop :=
  ∀ (entry : Callable) (receiver : Value) (args : List Value) (m : Machine), D.holds m →
    D.opens m entry → D.Fine m (receiver :: args) → D.Returns m (enter entry receiver args m)

/-- On slots and further values that may occur, `x` ends well and keeps at most `n` values. -/
def Keeps {α : Type} (known : List Value) (n : Nat) (x : Exec α) (mentions : α → List Value) :
    Prop :=
  ∀ (locals : List Value) (m : Machine), D.holds m → D.Fine m locals → D.Fine m known →
    D.Ends n m mentions (x locals m)

variable {D}

theorem Returns.moves {ε : Type} {m m' : Machine} {r : Option (Except ε Value × Machine)}
    {result : Except ε Value} (returns : D.Returns m r) (done : r = some (result, m')) :
    D.moves 0 m m' := by
  subst done
  cases returns with
  | ok moved given => exact moved
  | error moved => exact moved

theorem Returns.fine {ε : Type} {m m' : Machine} {r : Option (Except ε Value × Machine)} {v : Value}
    (returns : D.Returns m r) (done : r = some (.ok v, m')) : D.fine m' v := by
  subst done
  cases returns with
  | ok moved given => exact given

theorem Returns.after {ε : Type} {m m' : Machine} {r : Option (Except ε Value × Machine)}
    (moved : D.moves 0 m m') (returns : D.Returns m' r) : D.Returns m r := by
  cases returns with
  | stuck => exact .stuck
  | ok further given => exact .ok (D.trans moved further) given
  | error further => exact .error (D.trans moved further)

theorem Ends.after {α : Type} {n k : Nat} {m m' : Machine} {mentions : α → List Value}
    {r : Option (Flow α × Machine)} (moved : D.moves n m m') (ends : D.Ends k m' mentions r) :
    D.Ends (n + k) m mentions r := by
  cases ends with
  | stuck => exact .stuck
  | next further slots given => exact .next (D.trans moved further) slots given
  | returned further given => exact .returned (D.trans moved further) given
  | aborted further => exact .aborted (D.trans moved further)

section
variable {α β : Type} {known : List Value} {n k : Nat}

theorem keeps_mono {x : Exec α} {mentions : α → List Value} (less : n ≤ k)
    (keeps : D.Keeps known n x mentions) : D.Keeps known k x mentions := by
  intro locals m holds slots others
  have ends := keeps locals m holds slots others
  generalize x locals m = r at ends
  cases ends with
  | stuck => exact .stuck
  | next moved slots given => exact .next (D.mono less moved) slots given
  | returned moved given => exact .returned (D.mono less moved) given
  | aborted moved => exact .aborted (D.mono less moved)

theorem keeps_pure {a : α} {mentions : α → List Value}
    (given : ∀ m, D.Fine m known → D.Fine m (mentions a)) : D.Keeps known 0 (pure a) mentions :=
  fun _ m holds slots others => .next (D.stay holds) slots (given m others)

theorem keeps_leave {v : Value} {mentions : α → List Value} (member : v ∈ known) :
    D.Keeps known 0 (Exec.leave v) mentions :=
  fun _ _ holds _ others => .returned (D.stay holds) (others v member)

theorem keeps_bind {x : Exec α} {f : α → Exec β} {mentions : α → List Value}
    {mentions' : β → List Value} (left : D.Keeps known n x mentions)
    (right : ∀ a, D.Keeps (mentions a ++ known) k (f a) mentions') :
    D.Keeps known (n + k) (x >>= f) mentions' := by
  intro locals m holds slots others
  have first := left locals m holds slots others
  change D.Ends (n + k) m mentions' (Exec.bind x f locals m)
  generalize run : x locals m = r at first
  simp only [Exec.bind, run]
  cases first with
  | stuck => exact .stuck
  | @next a locals' m' moved slots' given =>
    have second := right a locals' m' (D.holds_of_moves moved) slots'
      (given.append (others.moves moved))
    exact second.after moved
  | returned moved given => exact .returned (D.mono (Nat.le_add_right n k) moved) given
  | aborted moved => exact .aborted (D.mono (Nat.le_add_right n k) moved)

/-- Both parts count, and nothing else does. -/
theorem keeps_then {x : Exec α} {f : α → Exec β} {mentions : α → List Value}
    {mentions' : β → List Value} (left : D.Keeps known n x mentions)
    (right : ∀ a, D.Keeps (mentions a ++ known) 0 (f a) mentions') :
    D.Keeps known n (x >>= f) mentions' := keeps_bind left right

theorem keeps_load (slot : Nat) : D.Keeps known 0 (Exec.load slot) fun v => [v] := by
  intro locals m holds slots _
  refine .next (D.stay holds) slots (fine_single ?_)
  cases found : locals[slot]? with
  | none => exact D.plain m rfl
  | some v => exact slots v (List.mem_of_getElem? found)

theorem keeps_store (slot : Nat) {v : Value} (member : v ∈ known) :
    D.Keeps known 0 (Exec.store slot v) fun _ => [] := by
  intro locals m holds slots others
  refine .next (D.stay holds) ?_ (fine_nil _)
  intro w stored
  rcases List.mem_or_eq_of_mem_set stored with old | rfl
  · exact slots w old
  · exact others w member

theorem keeps_fetch {f : Machine → Value × Machine}
    (works : ∀ m, D.holds m → D.moves 0 m (f m).2 ∧ D.fine (f m).2 (f m).1) :
    D.Keeps known 1 (Exec.fetch f) fun v => [v] := by
  intro locals m holds slots _
  obtain ⟨moved, given⟩ := works m holds
  have rooted := D.root (D.holds_of_moves moved) given
  have all := D.trans moved rooted
  rw [Nat.zero_add] at all
  exact .next all (slots.moves all) (fine_single (D.fine_of_moves rooted given))

theorem keeps_act {f : Machine → Machine}
    (works : ∀ m, D.holds m → D.Fine m known → D.moves 0 m (f m)) :
    D.Keeps known 0 (Exec.act f) fun _ => [] := by
  intro locals m holds slots others
  have moved := works m holds others
  exact .next moved (slots.moves moved) (fine_nil _)

theorem keeps_attempt {r : Run (Except RuntimeError Value)}
    (works : ∀ m, D.holds m → D.Fine m known → D.Returns m (r m)) :
    D.Keeps known 1 (Exec.attempt r) fun v => [v] := by
  intro locals m holds slots others
  have returns := works m holds others
  generalize tried : r m = result at returns
  simp only [Exec.attempt, tried]
  cases returns with
  | stuck => exact .stuck
  | ok moved given =>
    have rooted := D.root (D.holds_of_moves moved) given
    have all := D.trans moved rooted
    rw [Nat.zero_add] at all
    exact .next all (slots.moves all) (fine_single (D.fine_of_moves rooted given))
  | error moved => exact .aborted (D.mono (Nat.zero_le 1) moved)

/-- A write gives nothing that would have to be kept. -/
theorem keeps_setField (site : FieldSite) {receiver value : Value} (into : receiver ∈ known)
    (given : value ∈ known) :
    D.Keeps known 0 (Exec.attempt fun m => some (m.setField site receiver value)) fun v => [v] := by
  intro locals m holds slots others
  cases receiver with
  | object id =>
    have moved := D.register site.name holds (others _ into) (others _ given)
    exact .next moved (slots.moves moved) (fine_plain _ rfl)
  | _ => exact .aborted (D.stay holds)

end

theorem returns_invokeObject {enter : Enter} (enters : D.Enters enter) {m : Machine}
    (holds : D.holds m) (id : ObjectId) {receiver : Value} {args : List Value}
    (fine : D.Fine m (receiver :: args)) : D.Returns m (invokeObject enter id receiver args m) := by
  rw [invokeObject]
  split
  · exact .error (D.stay holds)
  · rename_i entry found
    split
    · exact .error (D.stay holds)
    · exact enters entry receiver args m holds (D.callable holds found) fine

theorem returns_callMethod {enter : Enter} (enters : D.Enters enter) {m : Machine}
    (holds : D.holds m) (site : MethodSite) {receiver : Value} {args : List Value}
    (fine : D.Fine m (receiver :: args)) : D.Returns m (callMethod enter site receiver args m) := by
  rw [callMethod]
  split
  · exact returns_invokeObject enters holds _ fine
  · exact .error (D.stay holds)

theorem returns_callAt {enter : Enter} (enters : D.Enters enter) {m : Machine} (holds : D.holds m)
    (unit : UnitId) (site : Nat) (callee : Value) {receiver : Value} {args : List Value}
    (fine : D.Fine m (receiver :: args)) :
    D.Returns m (callAt enter unit site callee receiver args m) := by
  obtain ⟨moved, opened⟩ := D.dispatchCall unit site args.length callee holds
  rw [callAt]
  split
  · rename_i target m' found
    rw [found] at moved opened
    have returns := enters target receiver args m' (D.holds_of_moves moved) (opened target rfl)
      (fine.moves moved)
    generalize enter target receiver args m' = r at returns
    cases returns with
    | stuck => exact .stuck
    | ok further given => exact .ok (D.trans moved further) given
    | error further => exact .error (D.trans moved further)
  · rename_i e m' found
    rw [found] at moved
    exact .error moved

theorem returns_getField {m : Machine} (holds : D.holds m) (site : FieldSite) {receiver : Value}
    (fine : D.fine m receiver) : D.Returns m (some (m.getField site receiver)) := by
  cases receiver with
  | object id => exact .ok (D.stay holds) (D.lookup site.name holds fine)
  | _ => exact .error (D.stay holds)

theorem returns_setField {m : Machine} (holds : D.holds m) (site : FieldSite)
    {receiver value : Value} (into : D.fine m receiver) (given : D.fine m value) :
    D.Returns m (some (m.setField site receiver value)) := by
  cases receiver with
  | object id => exact .ok (D.register site.name holds into given) (D.plain _ rfl)
  | _ => exact .error (D.stay holds)

theorem returns_makeFunction {m : Machine} (holds : D.holds m) (unit : UnitId) (id : Nat) :
    D.Returns m (some (m.makeFunction unit id)) := by
  obtain ⟨moved, given⟩ := D.makeFunction unit id holds
  generalize m.makeFunction unit id = made at moved given
  obtain ⟨result, m'⟩ := made
  cases result with
  | ok v => exact .ok moved (given v rfl)
  | error e => exact .error moved

mutual

/-- Evaluating a node keeps the discipline, with at most one value kept for each request in it. -/
theorem keeps_evalCode {enter : Enter} (enters : D.Enters enter) (unit : UnitId)
    (known : List Value) (c : Code) :
    D.Keeps known c.requests (evalCode enter unit c) fun v => [v] := by
  cases c with
  | int n | text t =>
    rw [evalCode]
    exact keeps_pure fun m _ => fine_plain m rfl
  | load slot =>
    rw [evalCode]
    exact keeps_load slot
  | store slot value =>
    rw [evalCode]
    refine keeps_then (keeps_evalCode enters unit known value) fun v => ?_
    refine keeps_then (keeps_store slot (by simp)) fun _ => ?_
    exact keeps_pure fun m _ => fine_plain m rfl
  | loadGlobal name site =>
    rw [evalCode]
    exact keeps_fetch fun m holds => D.lookupGlobal unit site name holds
  | block body =>
    rw [evalCode]
    refine keeps_then (keeps_evalBody enters unit known body) fun _ => ?_
    exact keeps_pure fun m _ => fine_plain m rfl
  | ret value =>
    rw [evalCode]
    exact keeps_then (keeps_evalCode enters unit known value) fun v => keeps_leave (by simp)
  | branch condition yes no =>
    rw [evalCode_branch]
    refine keeps_bind (keeps_evalCode enters unit known condition) fun v => ?_
    have arm : D.Keeps ([v] ++ known) (requestsAll yes + requestsAll no)
        (evalBody enter unit (if v.truth then yes else no)) fun _ => [] := by
      split
      · exact keeps_mono (Nat.le_add_right _ _) (keeps_evalBody enters unit _ yes)
      · exact keeps_mono (Nat.le_add_left _ _) (keeps_evalBody enters unit _ no)
    exact keeps_then arm fun _ => keeps_pure fun m _ => fine_plain m rfl
  | function id registration =>
    rw [evalCode]
    refine keeps_then (keeps_attempt fun m holds _ => ?_) fun v => ?_
    · exact returns_makeFunction holds unit id
    cases registration with
    | none => exact keeps_pure fun m fine => fine.sub (by simp)
    | some entry =>
      obtain ⟨name, site⟩ := entry
      refine keeps_then (keeps_act fun m holds fine => ?_) fun _ => keeps_pure fun m fine => ?_
      · exact D.registerGlobal unit site name holds (fine v (by simp))
      · exact fine.sub (by simp)
  | object entries =>
    rw [evalCode, Code.requests, Nat.add_comm]
    refine keeps_bind (keeps_fetch fun m holds => D.create holds (by simp)) fun v => ?_
    refine keeps_then (keeps_evalEntries enters unit _ v (by simp) entries) fun _ => ?_
    exact keeps_pure fun m fine => fine.sub (by simp)
  | getField receiver site =>
    rw [evalCode]
    refine keeps_bind (keeps_evalCode enters unit known receiver) fun r => ?_
    exact keeps_attempt fun m holds fine => returns_getField holds site (fine r (by simp))
  | setField receiver value site =>
    rw [evalCode]
    refine keeps_bind (keeps_evalCode enters unit known receiver) fun r => ?_
    refine keeps_then (keeps_evalCode enters unit _ value) fun v => ?_
    exact keeps_setField site (by simp) (by simp)
  | call callee args site =>
    rw [evalCode]
    refine keeps_bind (keeps_evalCode enters unit known callee) fun f => ?_
    refine keeps_bind (keeps_evalArgs enters unit _ args) fun vs => ?_
    refine keeps_attempt fun m holds fine => returns_callAt enters holds unit site f ?_
    exact Fine.cons (D.plain m rfl) (fine.sub (by simp))
  | method receiver args site =>
    rw [evalCode]
    refine keeps_bind (keeps_evalCode enters unit known receiver) fun r => ?_
    refine keeps_bind (keeps_evalArgs enters unit _ args) fun vs => ?_
    refine keeps_attempt fun m holds fine => returns_callMethod enters holds site ?_
    exact Fine.cons (fine r (by simp)) (fine.sub (by simp))

theorem keeps_evalBody {enter : Enter} (enters : D.Enters enter) (unit : UnitId)
    (known : List Value) (codes : List Code) :
    D.Keeps known (requestsAll codes) (evalBody enter unit codes) fun _ => [] := by
  cases codes with
  | nil =>
    rw [evalBody]
    exact keeps_pure fun m _ => fine_nil m
  | cons c rest =>
    rw [evalBody]
    exact keeps_bind (keeps_evalCode enters unit known c) fun v => keeps_evalBody enters unit _ rest

theorem keeps_evalArgs {enter : Enter} (enters : D.Enters enter) (unit : UnitId)
    (known : List Value) (codes : List Code) :
    D.Keeps known (requestsAll codes) (evalArgs enter unit codes) fun vs => vs := by
  cases codes with
  | nil =>
    rw [evalArgs]
    exact keeps_pure fun m _ => fine_nil m
  | cons c rest =>
    rw [evalArgs]
    refine keeps_bind (keeps_evalCode enters unit known c) fun v => ?_
    refine keeps_then (keeps_evalArgs enters unit _ rest) fun vs => ?_
    exact keeps_pure fun m fine => Fine.cons (fine v (by simp)) (fine.sub (by simp))

theorem keeps_evalEntries {enter : Enter} (enters : D.Enters enter) (unit : UnitId)
    (known : List Value) (object : Value) (member : object ∈ known)
    (entries : List (Code × FieldSite)) :
    D.Keeps known (requestsEntries entries) (evalEntries enter unit object entries) fun _ => [] := by
  cases entries with
  | nil =>
    rw [evalEntries]
    exact keeps_pure fun m _ => fine_nil m
  | cons entry rest =>
    obtain ⟨c, site⟩ := entry
    rw [evalEntries]
    refine keeps_bind (keeps_evalCode enters unit known c) fun v => ?_
    rw [← Nat.zero_add (requestsEntries rest)]
    refine keeps_bind (keeps_setField site (by simp [member]) (by simp)) fun _ => ?_
    exact keeps_evalEntries enters unit _ object (by simp [member]) rest

end

theorem mem_initialLocals {u : CompiledUnit} {receiver v : Value} {args : List Value}
    (member : v ∈ u.initialLocals receiver args) : v = .undefined ∨ v ∈ receiver :: args := by
  have bound : ∀ (stores : List (Nat × Value)) (locals : List Value),
      v ∈ stores.foldl (fun locals store => locals.set store.1 store.2) locals →
        v ∈ locals ∨ v ∈ stores.map (·.2) := by
    intro stores
    induction stores with
    | nil => intro locals inside; exact Or.inl inside
    | cons store rest ih =>
      intro locals inside
      rcases ih _ inside with old | new
      · rcases List.mem_or_eq_of_mem_set old with older | rfl
        · exact Or.inl older
        · exact Or.inr (by simp)
      · exact Or.inr (by simp [new])
  rcases bound _ _ member with old | new
  · exact Or.inl (List.eq_of_mem_replicate old)
  · obtain ⟨store, inside, rfl⟩ := List.mem_map.mp new
    exact Or.inr (List.of_mem_zip inside).2

theorem fine_initialLocals {m : Machine} (u : CompiledUnit) {receiver : Value} {args : List Value}
    (fine : D.Fine m (receiver :: args)) : D.Fine m (u.initialLocals receiver args) := by
  intro v member
  rcases mem_initialLocals member with rfl | given
  · exact D.plain m rfl
  · exact fine v given

/-- A parked failure is picked up again, and nothing else changes. -/
theorem takeParked_park {s : Machine} (idle : s.roots.parked = none) (e : RuntimeError) :
    (s.park e).takeParked = (e, s) := by
  obtain ⟨heap, units, ⟨arena, parked⟩, output, events, sink, cacheDepth⟩ := s
  cases idle
  rfl

theorem returns_endInvocation {m : Machine} {n : Nat} {r : Option (Flow Unit × Machine)}
    (ends : D.Ends n m (fun _ => []) r) : D.Returns m (endInvocation m.roots.count r) := by
  cases ends with
  | stuck => exact .stuck
  | next moved slots given => exact .ok (D.release moved) (D.plain _ rfl)
  | returned moved given => exact .ok (D.release moved) (D.fine_release _ given)
  | aborted moved =>
    rw [endInvocation, takeParked_park (D.idle (D.holds_of_moves moved))]
    exact .error (D.release moved)

theorem returns_invokeUnit {enter : Enter} (enters : D.Enters enter) {m : Machine}
    (holds : D.holds m) (unit : UnitId) {receiver : Value} {args : List Value}
    (fine : D.Fine m (receiver :: args)) : D.Returns m (invokeUnit enter unit receiver args m) := by
  rw [invokeUnit]
  split
  · exact .error (D.stay holds)
  · rename_i u found
    split
    · exact .error (D.stay holds)
    · have body := keeps_evalBody enters unit [] u.code
      exact returns_endInvocation
        (body _ m holds (fine_initialLocals u fine) (fine_nil _))

theorem fine_of_invoke {m : Machine} {id : ObjectId} {receiver : Value} {args : List Value}
    (named : D.Fine m (HostStep.invoke id receiver args).named) : D.Fine m (receiver :: args) :=
  named.sub (List.subset_cons_self _ _)

/-- A step of a host function keeps the discipline, and what is answered may occur. -/
theorem perform_moves {enter : Enter} (enters : D.Enters enter) {m m' : Machine}
    (holds : D.holds m) {s : HostStep} {answer : s.Answer} (named : D.Fine m s.named)
    (performed : s.perform enter m = some (answer, m')) :
    D.moves 0 m m' ∧ D.Fine m' (s.given answer) := by
  cases s with
  | describe v | display v | rooted | keys id =>
    cases performed
    exact ⟨D.stay holds, fine_nil _⟩
  | lookup id key =>
    cases performed
    exact ⟨D.stay holds, fine_single (D.lookup key holds (named _ (by simp [HostStep.named])))⟩
  | register id key v =>
    cases performed
    exact ⟨D.register key holds (named _ (by simp [HostStep.named]))
      (named _ (by simp [HostStep.named])), fine_nil _⟩
  | create proto =>
    have parent : ∀ p, proto = some p → D.fine m (.object p) := by
      rintro p rfl
      exact named _ (by simp [HostStep.named])
    obtain ⟨moved, given⟩ := D.create holds parent
    cases performed
    exact ⟨moved, fine_single given⟩
  | print args =>
    have moved := D.print args holds
    obtain ⟨rfl, rfl⟩ : (m.print args).1 = answer ∧ (m.print args).2 = m' := by
      simpa [HostStep.perform, Prod.ext_iff] using performed
    refine ⟨moved, ?_⟩
    cases sink : m.sink <;> simp only [Machine.print, sink, HostStep.given]
    · exact fine_plain _ rfl
    · exact fine_nil _
    · exact fine_nil _
  | compile f =>
    simp only [HostStep.perform] at performed
    split at performed
    · rename_i id compiled done
      cases performed
      obtain ⟨moved, given⟩ := D.compile holds (named _ (by simp [HostStep.named])) done
      exact ⟨moved, fine_single given⟩
    · cases performed
      exact ⟨D.stay holds, fine_nil _⟩
  | invoke id receiver args =>
    have returns := returns_invokeObject enters holds id (fine_of_invoke named)
    cases answer with
    | error e => exact ⟨returns.moves performed, fine_nil _⟩
    | ok v => exact ⟨returns.moves performed, fine_single (returns.fine performed)⟩

/-- A careful host function keeps the discipline from any point on. -/
theorem returns_run {enter : Enter} (enters : D.Enters enter) {m : Machine} (holds : D.holds m)
    {p : HostProgram} (careful : p.Careful D.fine (D.moves 0) m) : D.Returns m (p.run enter m) := by
  induction p generalizing m with
  | done result =>
    cases result with
    | ok v => exact .ok (D.stay holds) (careful v rfl)
    | error e => exact .error (D.stay holds)
  | step s next ih =>
    obtain ⟨named, goesOn⟩ := careful
    cases performed : s.perform enter m with
    | none =>
      rw [HostProgram.run_of_stuck performed]
      exact .stuck
    | some given =>
      obtain ⟨answer, m'⟩ := given
      obtain ⟨moved, fine⟩ := perform_moves enters holds named performed
      rw [HostProgram.run_of_performed performed]
      exact (ih answer (D.holds_of_moves moved) (goesOn m' answer moved fine)).after moved

/-- What is left of a careful host function is careful. -/
theorem reaches_moves {enter : Enter} (enters : D.Enters enter) {p q : HostProgram} {m m' : Machine}
    (reaches : HostProgram.Reaches enter p m q m') (holds : D.holds m)
    (careful : p.Careful D.fine (D.moves 0) m) :
    D.moves 0 m m' ∧ q.Careful D.fine (D.moves 0) m' := by
  induction reaches with
  | here => exact ⟨D.stay holds, careful⟩
  | step performed _ ih =>
    obtain ⟨named, goesOn⟩ := careful
    obtain ⟨moved, fine⟩ := perform_moves enters holds named performed
    obtain ⟨further, rest⟩ := ih (D.holds_of_moves moved) (goesOn _ _ moved fine)
    exact ⟨D.trans moved further, rest⟩

/-- Every invocation keeps the discipline, however deep it nests. -/
theorem enters_enter (depth : Nat) : D.Enters (enter depth) := by
  induction depth with
  | zero =>
    intro entry receiver args m _ _ _
    exact .stuck
  | succ depth ih =>
    intro entry receiver args m holds opens fine
    cases entry with
    | compiled unit name params => exact returns_invokeUnit ih holds unit fine
    | native f =>
      have careful := D.native opens m receiver args (D.stay holds) fine
      have returns := returns_run ih holds careful
      simp only [enter, runHost]
      generalize (f.body.onCall receiver args).run (enter depth) m = r at returns
      cases returns with
      | stuck => exact .stuck
      | ok moved given => exact .ok moved given
      | error moved => exact .error moved

theorem Keeps.next {α : Type} {known : List Value} {n : Nat} {x : Exec α} {mentions : α → List Value}
    (keeps : D.Keeps known n x mentions) {locals locals' : List Value} {m m' : Machine} {a : α}
    (ran : x locals m = some (.next a locals', m')) (holds : D.holds m) (slots : D.Fine m locals)
    (others : D.Fine m known) :
    D.moves n m m' ∧ D.Fine m' locals' ∧ D.Fine m' (mentions a) := by
  have ends := keeps locals m holds slots others
  rw [ran] at ends
  cases ends with
  | next moved slots given => exact ⟨moved, slots, given⟩

theorem operand_moves {enter : Enter} (enters : D.Enters enter) {unit : UnitId} {p q : Spot}
    (operand : Operand enter unit p q) (holds : D.holds p.machine)
    (slots : D.Fine p.machine p.locals) :
    ∃ n, D.moves n p.machine q.machine ∧ D.Fine q.machine q.locals ∧
      n + q.code.requests ≤ p.code.requests := by
  cases operand with
  | assigned | returned | condition | readFrom | writtenTo | callee | receiver =>
    exact ⟨0, D.stay holds, slots, by simp [Code.requests]⟩
  | statement ran =>
    obtain ⟨moved, slots', -⟩ :=
      (keeps_evalBody enters unit [] _).next ran holds slots (fine_nil _)
    refine ⟨_, moved, slots', ?_⟩
    simp only [Code.requests, requestsAll_append, requestsAll]
    omega
  | @arm condition c yes no before after v locals locals₁ locals' m m₁ m' tested chosen ran =>
    obtain ⟨first, slots₁, -⟩ :=
      (keeps_evalCode enters unit [] _).next tested holds slots (fine_nil _)
    obtain ⟨second, slots', -⟩ :=
      (keeps_evalBody enters unit [] _).next ran (D.holds_of_moves first) slots₁ (fine_nil _)
    refine ⟨_, D.trans first second, slots', ?_⟩
    have arm : requestsAll before + c.requests ≤ requestsAll yes + requestsAll no := by
      have all := congrArg requestsAll chosen
      rw [requestsAll_append, requestsAll] at all
      split at all <;> omega
    simp only [Code.requests]
    omega
  | @entry before after c site locals locals' m m' ran =>
    obtain ⟨moved, created⟩ := D.create holds (show ∀ p, none = some p → _ from by simp)
    have rooted := D.trans moved (D.root (D.holds_of_moves moved) created)
    have object := D.fine_of_moves (D.root (D.holds_of_moves moved) created) created
    obtain ⟨further, slots', -⟩ := (keeps_evalEntries enters unit [m.newObject.1] _ (by simp) _).next
      ran (D.holds_of_moves rooted) (slots.moves rooted) (fine_single object)
    refine ⟨_, D.trans rooted further, slots', ?_⟩
    simp only [Code.requests, requestsEntries_append, requestsEntries]
    omega
  | written into =>
    obtain ⟨moved, slots', -⟩ :=
      (keeps_evalCode enters unit [] _).next into holds slots (fine_nil _)
    exact ⟨_, moved, slots', by simp [Code.requests]⟩
  | argument called ran =>
    obtain ⟨first, slots₁, -⟩ :=
      (keeps_evalCode enters unit [] _).next called holds slots (fine_nil _)
    obtain ⟨second, slots', -⟩ :=
      (keeps_evalArgs enters unit [] _).next ran (D.holds_of_moves first) slots₁ (fine_nil _)
    refine ⟨_, D.trans first second, slots', ?_⟩
    simp only [Code.requests, requestsAll_append, requestsAll]
    omega
  | methodArgument self ran =>
    obtain ⟨first, slots₁, -⟩ :=
      (keeps_evalCode enters unit [] _).next self holds slots (fine_nil _)
    obtain ⟨second, slots', -⟩ :=
      (keeps_evalArgs enters unit [] _).next ran (D.holds_of_moves first) slots₁ (fine_nil _)
    refine ⟨_, D.trans first second, slots', ?_⟩
    simp only [Code.requests, requestsAll_append, requestsAll]
    omega

/-- The operations that a node asks for keep the discipline too. -/
theorem asks_returns {enter : Enter} (enters : D.Enters enter) {unit : UnitId} {p : Spot}
    {helper : Run (Except RuntimeError Value)} {m : Machine} (asks : Asks enter unit p helper m)
    (holds : D.holds p.machine) (slots : D.Fine p.machine p.locals) :
    (∃ n, D.moves n p.machine m) ∧ D.Returns m (helper m) := by
  cases asks with
  | function => exact ⟨⟨0, D.stay holds⟩, returns_makeFunction holds unit _⟩
  | @entry before after c site v locals locals₁ locals' m₀ m₁ m' ran given =>
    obtain ⟨moved, created⟩ := D.create holds (show ∀ p, none = some p → _ from by simp)
    have rooted := D.trans moved (D.root (D.holds_of_moves moved) created)
    have object := D.fine_of_moves (D.root (D.holds_of_moves moved) created) created
    obtain ⟨first, slots₁, -⟩ := (keeps_evalEntries enters unit [m₀.newObject.1] _ (by simp) _).next
      ran (D.holds_of_moves rooted) (slots.moves rooted) (fine_single object)
    obtain ⟨second, -, value⟩ := (keeps_evalCode enters unit [] _).next given
      (D.holds_of_moves first) slots₁ (fine_nil _)
    have object' := D.fine_of_moves second (D.fine_of_moves first object)
    exact ⟨⟨_, D.trans (D.trans rooted first) second⟩,
      returns_setField (D.holds_of_moves second) site object' (value v (by simp))⟩
  | @getField receiver site r locals locals' m₀ m' read =>
    obtain ⟨moved, -, value⟩ :=
      (keeps_evalCode enters unit [] _).next read holds slots (fine_nil _)
    exact ⟨⟨_, moved⟩, returns_getField (D.holds_of_moves moved) site (value r (by simp))⟩
  | @setField receiver value site r v locals locals₁ locals' m₀ m₁ m' into given =>
    obtain ⟨first, slots₁, owner⟩ :=
      (keeps_evalCode enters unit [] _).next into holds slots (fine_nil _)
    obtain ⟨second, -, value⟩ := (keeps_evalCode enters unit [] _).next given
      (D.holds_of_moves first) slots₁ (fine_nil _)
    exact ⟨⟨_, D.trans first second⟩, returns_setField (D.holds_of_moves second) site
      (owner.moves second r (by simp)) (value v (by simp))⟩
  | @call callee args site f vs locals locals₁ locals' m₀ m₁ m' called given =>
    obtain ⟨first, slots₁, -⟩ :=
      (keeps_evalCode enters unit [] _).next called holds slots (fine_nil _)
    obtain ⟨second, -, values⟩ := (keeps_evalArgs enters unit [] _).next given
      (D.holds_of_moves first) slots₁ (fine_nil _)
    exact ⟨⟨_, D.trans first second⟩, returns_callAt enters (D.holds_of_moves second) unit site f
      (Fine.cons (D.plain _ rfl) values)⟩
  | @method receiver args site r vs locals locals₁ locals' m₀ m₁ m' self given =>
    obtain ⟨first, slots₁, owner⟩ :=
      (keeps_evalCode enters unit [] _).next self holds slots (fine_nil _)
    obtain ⟨second, -, values⟩ := (keeps_evalArgs enters unit [] _).next given
      (D.holds_of_moves first) slots₁ (fine_nil _)
    exact ⟨⟨_, D.trans first second⟩, returns_callMethod enters (D.holds_of_moves second) site
      ((owner.moves second).append values)⟩

/-- The requests that an activity still makes in the frame it was begun in. -/
def share : Activity → Nat
  | .node _ _ p => p.code.requests
  | .entry .. => 0

/-- The requests that may be made in the frame of the parts of an activity. -/
def room : Activity → Nat
  | .node _ _ p => p.code.requests
  | .entry _ (.compiled unit _ _) _ _ m => ((m.units[unit]?).map (requestsAll ·.code)).getD 0
  | .entry _ (.native _) _ _ _ => 0

variable (D) in
/-- What the discipline asks of an activity that is about to begin. -/
def Admits : Activity → Prop
  | .node _ _ p => D.holds p.machine ∧ D.Fine p.machine p.locals
  | .entry _ target receiver args m =>
      D.holds m ∧ D.opens m target ∧ D.Fine m (receiver :: args)

theorem Admits.holds {a : Activity} (admits : D.Admits a) : D.holds a.machine := by
  cases a with
  | node => exact admits.1
  | entry => exact admits.1

/-- What the discipline asks of an activity it asks of its parts; and what has been kept in the frame
of the parts until one of them begins leaves room for that part. -/
theorem part_moves {a b : Activity} (part : Part a b) (admits : D.Admits a) :
    D.Admits b ∧ ∃ n, D.moves n a.machine b.machine ∧ n + share b ≤ room a := by
  cases part with
  | @operand depth unit p q operand =>
    obtain ⟨holds, slots⟩ := admits
    obtain ⟨n, moved, slots', fits⟩ := operand_moves (enters_enter depth) operand holds slots
    exact ⟨⟨D.holds_of_moves moved, slots'⟩, n, moved, fits⟩
  | @call depth unit callee args site f vs locals locals₁ locals' m m₁ m₂ m' target called given
      found =>
    obtain ⟨holds, slots⟩ := admits
    obtain ⟨first, slots₁, -⟩ :=
      (keeps_evalCode (enters_enter depth) unit [] _).next called holds slots (fine_nil _)
    obtain ⟨second, -, values⟩ := (keeps_evalArgs (enters_enter depth) unit [] _).next given
      (D.holds_of_moves first) slots₁ (fine_nil _)
    obtain ⟨third, opened⟩ := D.dispatchCall unit site vs.length f (D.holds_of_moves second)
    rw [found] at third opened
    refine ⟨⟨D.holds_of_moves third, opened target rfl, ?_⟩, _,
      D.trans (D.trans first second) third, ?_⟩
    · exact Fine.cons (D.plain _ rfl) (values.moves third)
    · simp only [share, room, Code.requests]
      omega
  | @method depth unit receiver args site r vs locals locals₁ locals' m m₁ m' id target self given
      resolved found fits =>
    obtain ⟨holds, slots⟩ := admits
    obtain ⟨first, slots₁, owner⟩ :=
      (keeps_evalCode (enters_enter depth) unit [] _).next self holds slots (fine_nil _)
    obtain ⟨second, -, values⟩ := (keeps_evalArgs (enters_enter depth) unit [] _).next given
      (D.holds_of_moves first) slots₁ (fine_nil _)
    have holds' := D.holds_of_moves second
    refine ⟨⟨holds', D.callable holds' found, ?_⟩, _, D.trans first second, ?_⟩
    · exact (owner.moves second).append values
    · simp only [share, room, Code.requests]
      omega
  | @body depth unit name params receiver args locals' m m' u before after c found count split ran =>
    obtain ⟨holds, -, fine⟩ := admits
    obtain ⟨moved, slots', -⟩ := (keeps_evalBody (enters_enter depth) unit [] _).next ran holds
      (fine_initialLocals u fine) (fine_nil _)
    refine ⟨⟨D.holds_of_moves moved, slots'⟩, _, moved, ?_⟩
    simp only [share, room, found, Option.map_some, Option.getD_some, split, requestsAll_append,
      requestsAll]
    omega
  | host reaches found fits =>
    obtain ⟨holds, opens, fine⟩ := admits
    have careful := D.native opens _ _ _ (D.stay holds) fine
    obtain ⟨moved, named, -⟩ := reaches_moves (enters_enter _) reaches holds careful
    have holds' := D.holds_of_moves moved
    exact ⟨⟨holds', D.callable holds' found, fine_of_invoke named⟩, 0, moved, Nat.le_refl 0⟩

/-- At every moment of a run the discipline is kept. -/
theorem within_admits {start a : Activity} {frames : List Frame} (within : Within start frames a)
    (admits : D.Admits start) : D.Admits a := by
  induction within with
  | start => exact admits
  | part _ part ih => exact (part_moves part ih).1

/-- How a node of a run ends. -/
theorem node_ends {depth : Nat} {unit : UnitId} {p : Spot} (admits : D.Admits (.node depth unit p)) :
    D.Ends p.code.requests p.machine (fun v => [v]) (p.run (enter depth) unit) :=
  keeps_evalCode (enters_enter depth) unit [] p.code p.locals p.machine admits.1 admits.2
    (fine_nil _)

/-- How an invocation of a run ends. -/
theorem entry_returns {depth : Nat} {target : Callable} {receiver : Value} {args : List Value}
    {m : Machine} (admits : D.Admits (.entry depth target receiver args m)) :
    D.Returns m (enter depth target receiver args m) :=
  enters_enter depth target receiver args m admits.1 admits.2.1 admits.2.2

variable (D) in
/-- The request mentions only what may occur. -/
def Allows (m : Machine) : Request → Prop
  | .execute _ | .document _ => True
  | .compile f => D.fine m (.object f.global)
  | .invoke id receiver args => D.Fine m (.object id :: receiver :: args)
  | .enter entry receiver args => D.opens m entry ∧ D.Fine m (receiver :: args)
  | .create proto => ∀ p, proto = some p → D.fine m (.object p)
  | .define owner name arity body =>
      D.fine m (.object owner) ∧ D.opens m (.native { name, arity, body })
  | .register id _ v => D.fine m (.object id) ∧ D.fine m v

theorem Returns.mapError {ε ε' : Type} {m : Machine} {r : Option (Except ε Value × Machine)}
    (returns : D.Returns m r) (f : ε → ε') :
    D.Returns m (r.map fun (result, m') => (result.mapError f, m')) := by
  cases returns with
  | stuck => exact .stuck
  | ok moved given => exact .ok moved given
  | error moved => exact .error moved

theorem execute_eq (depth : Nat) (program : Block) (m : Machine) :
    execute depth program m =
      match m.compile (mainFunction program) with
      | .error e => some (.error (.compile e), m)
      | .ok (main, m') =>
          (invoke depth main .undefined []
            (m'.log (.executingProgram program.instrs.length))).map
              fun (result, m') => (result.mapError .runtime, m') := by
  rw [execute]
  cases m.compile (mainFunction program) with
  | error e => rfl
  | ok made =>
    obtain ⟨main, m'⟩ := made
    dsimp only
    cases invoke depth main .undefined [] (m'.log (.executingProgram program.instrs.length)) <;> rfl

theorem returns_execute {m : Machine} (holds : D.holds m) (depth : Nat) (program : Block) :
    D.Returns m (execute depth program m) := by
  rw [execute_eq]
  split
  · exact .error (D.stay holds)
  · rename_i main m' done
    obtain ⟨compiled, -⟩ := D.compile holds (D.global holds) done
    have logged := D.log (.executingProgram program.instrs.length) (D.holds_of_moves compiled)
    have started := D.trans compiled logged
    have fine : D.Fine (m'.log (.executingProgram program.instrs.length)) [.undefined] :=
      fine_plain _ rfl
    exact ((returns_invokeObject (enters_enter depth) (D.holds_of_moves started) main
      fine).mapError ExecError.runtime).after started

/-- What a host asks for is served within the discipline. -/
theorem serve_returns {m : Machine} (holds : D.holds m) (depth : Nat) {request : Request}
    (allowed : D.Allows m request) : D.Returns m (serve depth request m) := by
  cases request with
  | execute program => exact returns_execute holds depth program
  | document text =>
    rw [serve, executeDocument]
    split
    · exact .error (D.stay holds)
    · exact returns_execute holds depth _
  | compile f =>
    simp only [serve]
    split
    · exact .error (D.stay holds)
    · rename_i id m' done
      obtain ⟨moved, given⟩ := D.compile holds allowed done
      exact .ok moved given
  | invoke id receiver args =>
    exact (returns_invokeObject (enters_enter depth) holds id
      (allowed.sub (List.subset_cons_self _ _))).mapError ExecError.runtime
  | enter entry receiver args =>
    exact (enters_enter depth entry receiver args m holds allowed.1 allowed.2).mapError
      ExecError.runtime
  | create proto =>
    obtain ⟨moved, given⟩ := D.create holds allowed
    exact .ok moved given
  | define owner name arity body =>
    obtain ⟨moved, given⟩ := D.define holds allowed.1 allowed.2
    exact .ok moved given
  | register id key v =>
    have moved := D.register key holds allowed.1 allowed.2
    exact .ok moved (D.fine_of_moves moved allowed.2)

end Discipline

end ScriptEngine
