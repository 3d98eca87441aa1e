import ScriptEngine.Proofs.Discipline
import ScriptEngine.Proofs.Session

/-!
# The arena of kept values

The values kept for running code lie in the arena by frames: first what was there when the outermost
invocation began, then what each active frame keeps, in the order of the calls. A frame keeps at most
one value for each node of its function that asks for one. When an invocation is over the arena is what
it was before, and an invocation that fails does so with the error of the operation that failed.
-/

namespace ScriptEngine

mutual

/-- The number of nodes that ask for a value, outside of nested functions; `locals` are the names that
are no global names. -/
def Expr.requests (locals : List String) : Expr → Nat
  | .literal _ _ => 0
  | .var name _ => if name ∈ locals then 0 else 1
  | .block body => body.requests locals
  | .assign _ value _ _ | .ret value _ => value.requests locals
  | .cond condition yes no _ =>
      condition.requests locals + (yes.requests locals + no.requests locals)
  | .function _ _ _ _ => 1
  | .object entries _ => entriesRequests locals entries + 1
  | .field receiver _ _ => receiver.requests locals + 1
  | .setField receiver _ value _ => receiver.requests locals + value.requests locals
  | .call callee args _ => callee.requests locals + (exprsRequests locals args + 1)
  | .method receiver _ args _ => receiver.requests locals + (exprsRequests locals args + 1)

def Block.requests (locals : List String) : Block → Nat
  | .mk instrs _ => exprsRequests locals instrs

def exprsRequests (locals : List String) : List Expr → Nat
  | [] => 0
  | e :: es => e.requests locals + exprsRequests locals es

def entriesRequests (locals : List String) : List (String × Expr) → Nat
  | [] => 0
  | (_, e) :: es => e.requests locals + entriesRequests locals es

end

/-- The number of nodes in the body of a function that ask for a value. -/
def FunctionDef.requests (f : FunctionDef) : Nat := f.body.requests f.locals

section
variable {scope : Scope} {locals : List String} {global : ObjectId} {E : Emission}

mutual

/-- Lowering turns nodes that ask for a value into nodes that ask for a value. -/
theorem Lowered.requests_eq (free : ∀ x, scope.lookup x = none ↔ x ∉ locals) :
    (e : Expr) → {code : Code} → Lowered scope global E e code →
    code.requests = e.requests locals
  | .literal _ _, _, .int => rfl
  | .literal _ _, _, .text => rfl
  | .block _, _, .block body => by
    rw [Code.requests, Expr.requests, Block.requests, LoweredAll.requests_eq free _ body]
  | .var name _, _, .load found => by
    have known : name ∈ locals := by
      by_contra unknown
      simp [(free name).mpr unknown] at found
    rw [Code.requests, Expr.requests, if_pos known]
  | .var name _, _, .loadGlobal missing _ => by
    rw [Code.requests, Expr.requests, if_neg ((free name).mp missing)]
  | .assign _ value _ _, _, .assign lowered _ => by
    rw [Code.requests, Expr.requests, Lowered.requests_eq free value lowered]
  | .ret value _, _, .ret lowered => by
    rw [Code.requests, Expr.requests, Lowered.requests_eq free value lowered]
  | .cond condition _ _ _, _, .cond lowered yes no => by
    rw [Code.requests, Expr.requests, Block.requests, Block.requests,
      Lowered.requests_eq free condition lowered, LoweredAll.requests_eq free _ yes,
      LoweredAll.requests_eq free _ no]
  | .function none _ _ _, _, .function _ => rfl
  | .function (some _) _ _ _, _, .named _ _ => rfl
  | .object entries _, _, .object lowered => by
    rw [Code.requests, Expr.requests, LoweredEntries.requests_eq free entries lowered]
  | .field receiver _ _, _, .field lowered => by
    rw [Code.requests, Expr.requests, Lowered.requests_eq free receiver lowered]
  | .setField receiver _ value _, _, .setField lowered lowered' => by
    rw [Code.requests, Expr.requests, Lowered.requests_eq free receiver lowered,
      Lowered.requests_eq free value lowered']
  | .call callee args _, _, .call lowered lowered' _ _ => by
    rw [Code.requests, Expr.requests, Lowered.requests_eq free callee lowered,
      LoweredAll.requests_eq free args lowered']
  | .method receiver _ args _, _, .method lowered lowered' => by
    rw [Code.requests, Expr.requests, Lowered.requests_eq free receiver lowered,
      LoweredAll.requests_eq free args lowered']

theorem LoweredAll.requests_eq (free : ∀ x, scope.lookup x = none ↔ x ∉ locals) :
    (es : List Expr) → {codes : List Code} →
    LoweredAll scope global E es codes → requestsAll codes = exprsRequests locals es
  | [], _, .nil => rfl
  | e :: es, _, .cons lowered rest => by
    rw [requestsAll, exprsRequests, Lowered.requests_eq free e lowered,
      LoweredAll.requests_eq free es rest]

theorem LoweredEntries.requests_eq (free : ∀ x, scope.lookup x = none ↔ x ∉ locals) :
    (es : List (String × Expr)) → {codes : List (Code × FieldSite)} →
    LoweredEntries scope global E es codes → requestsEntries codes = entriesRequests locals es
  | [], _, .nil => rfl
  | (_, e) :: es, _, .cons lowered rest => by
    rw [requestsEntries, entriesRequests, Lowered.requests_eq free e lowered,
      LoweredEntries.requests_eq free es rest]

end

end

theorem FunctionDef.requests_compile {f : FunctionDef} {cacheDepth : Nat} {u : CompiledUnit}
    (compiled : f.compile cacheDepth = .ok u) : requestsAll u.code = f.requests := by
  obtain ⟨-, scope, -, lowered⟩ := FunctionDef.compile_ok compiled
  have free : ∀ x, u.scope.lookup x = none ↔ x ∉ f.locals := by
    intro x
    rw [scope]
    exact Scope.lookup_resolve_eq_none_iff f x
  rw [LoweredAll.requests_eq free _ lowered, FunctionDef.requests]
  cases f.body
  rw [Block.requests, Block.instrs]

/-- The unit has the code that its definition compiles to. -/
def CompiledUnit.Genuine (u : CompiledUnit) : Prop :=
  ∃ cacheDepth fresh, u.definition.compile cacheDepth = .ok fresh ∧ u.code = fresh.code

theorem CompiledUnit.Genuine.requests {u : CompiledUnit} (genuine : u.Genuine) :
    requestsAll u.code = u.definition.requests := by
  obtain ⟨cacheDepth, fresh, compiled, same⟩ := genuine
  rw [same, FunctionDef.requests_compile compiled]

namespace Machine

/-- Every unit is genuine. -/
def Genuine (m : Machine) : Prop := ∀ (i : Nat) u, m.units[i]? = some u → u.Genuine

theorem Sound.genuine {m : Machine} (sound : m.Sound) : m.Genuine := by
  intro i u found
  obtain ⟨fresh, compiled, tracks⟩ := sound i u found
  exact ⟨m.cacheDepth, fresh, compiled, tracks.code⟩

theorem Genuine.modify {m m' : Machine} (genuine : m.Genuine) {unit : UnitId}
    {f : CompiledUnit → CompiledUnit} (units : m'.units = m.units.modify unit f)
    (definition : ∀ u, (f u).definition = u.definition) (code : ∀ u, (f u).code = u.code) :
    m'.Genuine := by
  intro i u found
  rw [units, Array.getElem?_modify] at found
  split at found
  · obtain ⟨old, held, rfl⟩ := Option.map_eq_some_iff.mp found
    obtain ⟨cacheDepth, fresh, compiled, same⟩ := genuine i old held
    exact ⟨cacheDepth, fresh, by rw [definition, compiled], by rw [code, same]⟩
  · exact genuine i u found

theorem Genuine.of_units {m m' : Machine} (genuine : m.Genuine) (units : m'.units = m.units) :
    m'.Genuine := by
  intro i u found
  rw [units] at found
  exact genuine i u found

theorem Genuine.compile {m m' : Machine} (genuine : m.Genuine) {f : FunctionDef} {id : ObjectId}
    (done : m.compile f = .ok (id, m')) : m'.Genuine := by
  obtain ⟨fresh, event, compiled, rfl, rfl⟩ := compile_inv done
  intro i u found
  rcases Emission.push_cases found with old | rfl
  · exact genuine i u old
  · obtain ⟨same, -⟩ := FunctionDef.compile_ok compiled
    exact ⟨m.cacheDepth, u, by rw [same, compiled], rfl⟩

theorem Genuine.modifySites {m : Machine} (genuine : m.Genuine) (unit : UnitId)
    (f : SiteTable → SiteTable) : (m.modifySites unit f).Genuine :=
  genuine.modify (f := fun u => { u with sites := f u.sites }) rfl (fun _ => rfl) fun _ => rfl

theorem Genuine.lookupGlobal {m : Machine} (genuine : m.Genuine) (unit : UnitId) (site : Nat)
    (name : String) : (m.lookupGlobal unit site name).2.Genuine := by
  simp only [Machine.lookupGlobal, lookupAt_eq]
  exact Genuine.modifySites (genuine.of_units (by simp)) _ _

theorem Genuine.registerGlobal {m : Machine} (genuine : m.Genuine) (unit : UnitId) (site : Nat)
    (name : String) (v : Value) : (m.registerGlobal unit site name v).Genuine := by
  simp only [Machine.registerGlobal, registerAt_eq]
  exact Genuine.modifySites (genuine.of_units (by simp)) _ _

theorem Genuine.dispatchCall {m : Machine} (genuine : m.Genuine) (unit : UnitId)
    (site argCount : Nat) (callee : Value) :
    (m.dispatchCall unit site argCount callee).2.Genuine := by
  simp only [Machine.dispatchCall, Machine.dispatchAt]
  split
  · exact Genuine.modifySites (genuine.of_units (by simp)) _ _
  · exact Genuine.modifySites genuine _ _

theorem Genuine.makeFunction {m : Machine} (genuine : m.Genuine) (unit : UnitId) (id : Nat) :
    (m.makeFunction unit id).2.Genuine := by
  simp only [Machine.makeFunction, Machine.materializeAt]
  generalize FunctionSite.take _ _ = taken
  have emptied : Genuine { m.log? taken.event with
      units := (m.log? taken.event).units.modify unit
        fun u => { u with registry := taken.registry } } :=
    (genuine.of_units (m.log?_units taken.event)).modify
      (f := fun u => { u with registry := taken.registry }) rfl (fun _ => rfl) fun _ => rfl
  apply Genuine.modifySites
  split
  · exact emptied
  · split
    · exact emptied
    · rename_i done
      exact emptied.compile done

end Machine

/-- `m'` is a machine with nothing parked whose arena is the one of `m` and at most `n` values more. -/
structure Machine.Adds (n : Nat) (m m' : Machine) : Prop where
  genuine : m'.Genuine
  idle : m'.roots.parked = none
  arena : ∃ held : List Value, m'.roots.arena.toList = m.roots.arena.toList ++ held ∧
    held.length ≤ n ∧ ∀ v ∈ held, v.isHeap

namespace Machine.Adds

variable {m m' : Machine}

theorem same (genuine : m'.Genuine) (idle : m.roots.parked = none) (roots : m'.roots = m.roots) :
    Adds 0 m m' :=
  ⟨genuine, by rw [roots, idle], [], by simp [roots], by simp, by simp⟩

theorem root (genuine : m.Genuine) (idle : m.roots.parked = none) (v : Value) :
    Adds 1 m (m.root v) := by
  refine ⟨genuine.of_units rfl, ?_, ?_⟩
  · rw [Machine.root, Roots.root]
    split <;> exact idle
  · by_cases heap : v.isHeap
    · exact ⟨[v], by simp [Machine.root, Roots.root, heap], by simp, by simpa using heap⟩
    · exact ⟨[], by simp [Machine.root, Roots.root, heap], by simp, by simp⟩

theorem trans {n k : Nat} {m'' : Machine} (first : Adds n m m') (second : Adds k m' m'') :
    Adds (n + k) m m'' := by
  obtain ⟨held, arena, few, heap⟩ := first.arena
  obtain ⟨held', arena', few', heap'⟩ := second.arena
  refine ⟨second.genuine, second.idle, held ++ held', ?_, ?_, ?_⟩
  · rw [arena', arena, List.append_assoc]
  · rw [List.length_append]
    omega
  · intro v member
    rcases List.mem_append.mp member with member | member
    · exact heap v member
    · exact heap' v member

theorem mono {n k : Nat} (less : n ≤ k) (adds : Adds n m m') : Adds k m m' := by
  obtain ⟨held, arena, few, heap⟩ := adds.arena
  exact ⟨adds.genuine, adds.idle, held, arena, Nat.le_trans few less, heap⟩

/-- A machine that gave up what was added has the roots it had before. -/
theorem release {n : Nat} (adds : Adds n m m') (idle : m.roots.parked = none) :
    (m'.release m.roots.count).roots = m.roots := by
  obtain ⟨held, arena, -, -⟩ := adds.arena
  have cut : (m'.roots.arena.shrink m.roots.arena.size).toList = m.roots.arena.toList := by
    rw [Array.toList_shrink, arena, ← Array.length_toList, List.take_left]
  have same : m'.roots.arena.shrink m.roots.arena.size = m.roots.arena := Array.toList_inj.mp cut
  have parked := adds.idle.trans idle.symm
  simp only [Machine.release, Roots.release, Roots.count, same, parked]

/-- Nothing is added where nothing may be. -/
theorem roots_eq (adds : Adds 0 m m') (idle : m.roots.parked = none) : m'.roots = m.roots := by
  obtain ⟨held, arena, few, -⟩ := adds.arena
  have none_held : held = [] := List.length_eq_zero_iff.mp (Nat.le_zero.mp few)
  rw [none_held, List.append_nil] at arena
  have parked := adds.idle.trans idle.symm
  have same := Array.toList_inj.mp arena
  cases roots : m'.roots
  cases roots' : m.roots
  simp_all

end Machine.Adds

open Machine in
/-- The discipline of the arena: any value may occur and anything may be entered. -/
def keeping : Discipline where
  holds m := m.Genuine ∧ m.roots.parked = none
  moves n m m' := m.roots.parked = none ∧ Adds n m m'
  fine _ _ := True
  opens _ _ := True
  holds_of_moves moved := ⟨moved.2.genuine, moved.2.idle⟩
  fine_of_moves _ _ := trivial
  idle holds := holds.2
  plain _ _ _ := trivial
  stay holds := ⟨holds.2, .same holds.1 holds.2 rfl⟩
  trans first second := ⟨first.1, first.2.trans second.2⟩
  mono less moved := ⟨moved.1, moved.2.mono less⟩
  root {m v} holds _ := ⟨holds.2, .root holds.1 holds.2 v⟩
  release {n m m'} moved :=
    ⟨moved.1, .same (moved.2.genuine.of_units rfl) moved.1 (moved.2.release moved.1)⟩
  fine_release _ _ := trivial
  log event holds := ⟨holds.2, .same (holds.1.of_units rfl) holds.2 rfl⟩
  print {m} args holds := by
    refine ⟨holds.2, .same (holds.1.of_units ?_) holds.2 ?_⟩ <;>
      cases sink : m.sink <;> simp [Machine.print, sink]
  lookup _ _ _ := trivial
  register key holds _ _ := ⟨holds.2, .same (holds.1.of_units rfl) holds.2 rfl⟩
  create holds _ := ⟨⟨holds.2, .same (holds.1.of_units rfl) holds.2 rfl⟩, trivial⟩
  lookupGlobal {m} unit site name holds :=
    ⟨⟨holds.2, .same (holds.1.lookupGlobal unit site name) holds.2
      (m.lookupGlobal_roots unit site name)⟩, trivial⟩
  registerGlobal {m v} unit site name holds _ :=
    ⟨holds.2, .same (holds.1.registerGlobal unit site name v) holds.2
      (m.registerGlobal_roots unit site name v)⟩
  makeFunction {m} unit id holds :=
    ⟨⟨holds.2, .same (holds.1.makeFunction unit id) holds.2 (m.makeFunction_roots unit id)⟩,
      fun _ _ => trivial⟩
  dispatchCall {m} unit site argCount callee holds :=
    ⟨⟨holds.2, .same (holds.1.dispatchCall unit site argCount callee) holds.2
      (m.dispatchCall_roots unit site argCount callee)⟩, fun _ _ => trivial⟩
  callable _ _ := trivial
  native _ _ _ _ _ _ := HostProgram.careful_of_fine (fun _ _ => trivial) _ _
  global _ := trivial
  compile holds _ done :=
    ⟨⟨holds.2, .same (holds.1.compile done) holds.2 (compile_roots done)⟩, trivial⟩
  define holds _ _ := ⟨⟨holds.2, .same (holds.1.of_units rfl) holds.2 rfl⟩, trivial⟩

/-- The arena consists of `base` and of what each frame keeps, in order: a frame begins where its mark
is, and what it keeps are at most as many heap values as its function has requests. -/
inductive Layered (base : List Value) : List Frame → List Value → Prop
  | base : Layered base [] base
  | frame {below : List Frame} {arena held : List Value} {frame : Frame}
      (under : Layered base below arena) (mark : frame.mark = arena.length)
      (heap : ∀ v ∈ held, v.isHeap) (few : held.length ≤ frame.function.requests) :
      Layered base (below ++ [frame]) (arena ++ held)

/-- The activity finds the arena in order: a node finds it layered with enough room left in its own
frame for the requests it will make. -/
def Activity.Fits (base : List Value) (frames : List Frame) : Activity → Prop
  | .node _ _ p => ∃ below frame arena held, frames = below ++ [frame] ∧ Layered base below arena ∧
      frame.mark = arena.length ∧ p.machine.roots.arena.toList = arena ++ held ∧
      (∀ v ∈ held, v.isHeap) ∧ held.length + p.code.requests ≤ frame.function.requests
  | .entry _ _ _ _ m => Layered base frames m.roots.arena.toList

theorem mem_append_heap {held held' : List Value} (first : ∀ v ∈ held, v.isHeap)
    (second : ∀ v ∈ held', v.isHeap) : ∀ v ∈ held ++ held', v.isHeap := by
  intro v member
  rcases List.mem_append.mp member with member | member
  · exact first v member
  · exact second v member

/-- While a node that fits makes its requests, the arena is layered. -/
theorem Activity.Fits.layered {base : List Value} {frames : List Frame} {depth : Nat} {unit : UnitId}
    {p : Spot} (fits : Activity.Fits base frames (.node depth unit p)) {n : Nat} {m : Machine}
    (adds : p.machine.Adds n m) (room : n ≤ p.code.requests) :
    Layered base frames m.roots.arena.toList := by
  obtain ⟨below, frame, arena, held, rfl, under, mark, found, heap, few⟩ := fits
  obtain ⟨held', found', few', heap'⟩ := adds.arena
  rw [found', found, List.append_assoc]
  refine .frame under mark (mem_append_heap heap heap') ?_
  rw [List.length_append]
  omega

/-- One step inwards. -/
theorem Part.fits {base : List Value} {frames : List Frame} {a b : Activity} (part : Part a b)
    (admits : keeping.Admits a) (fits : a.Fits base frames) :
    b.Fits base (frames ++ a.frames) := by
  obtain ⟨-, n, moved, room⟩ := Discipline.part_moves part admits
  have adds : a.machine.Adds n b.machine := moved.2
  cases part with
  | operand operand =>
    simp only [Activity.frames, List.append_nil]
    obtain ⟨below, frame, arena, held, rfl, under, mark, found, heap, few⟩ := fits
    obtain ⟨held', found', few', heap'⟩ := adds.arena
    refine ⟨below, frame, arena, held ++ held', rfl, under, mark, ?_, mem_append_heap heap heap', ?_⟩
    · rw [← List.append_assoc, ← found]
      exact found'
    · simp only [Discipline.share, Discipline.room] at room
      rw [List.length_append]
      omega
  | call called given found =>
    simp only [Activity.frames, List.append_nil]
    exact fits.layered adds (by simpa [Discipline.share, Discipline.room] using room)
  | method on given resolved found checked =>
    simp only [Activity.frames, List.append_nil]
    exact fits.layered adds (by simpa [Discipline.share, Discipline.room] using room)
  | @body depth unit name params receiver args locals' m m' u before after c found count split ran =>
    obtain ⟨held, found', few, heap⟩ := adds.arena
    have genuine : u.Genuine := admits.1.1 unit u found
    simp only [Discipline.share, Discipline.room, found, Option.map_some, Option.getD_some,
      genuine.requests] at room
    simp only [Activity.frames, found]
    refine ⟨frames, _, m.roots.arena.toList, held, rfl, fits, ?_, found', heap, ?_⟩
    · simp [Roots.count]
    · exact Nat.le_trans (Nat.add_le_add_right few _) room
  | host reaches found checked =>
    obtain ⟨held, found', few, -⟩ := adds.arena
    -- a function of the host keeps nothing itself
    simp only [Discipline.share, Discipline.room] at room
    obtain rfl : held = [] := List.length_eq_zero_iff.mp (by omega)
    rw [List.append_nil] at found'
    simp only [Activity.frames, List.append_nil]
    rw [Activity.Fits] at fits ⊢
    exact found'.symm ▸ fits

/-- At every moment of a run. -/
theorem Within.fits {start a : Activity} {frames : List Frame} {base : List Value}
    (within : Within start frames a) (admits : keeping.Admits start) (fits : start.Fits base []) :
    a.Fits base frames := by
  induction within with
  | start => exact fits
  | part outer part ih => exact part.fits (Discipline.within_admits outer admits) ih

/-- What is to be seen of an activity that fits. -/
theorem Activity.Fits.shows {base : List Value} {frames : List Frame} {a : Activity}
    (fits : a.Fits base frames) (admits : keeping.Admits a) {m : Machine} (shows : a.Shows m) :
    Layered base frames m.roots.arena.toList := by
  cases a with
  | node depth unit p =>
    have start : p.machine.Adds 0 p.machine := .same admits.1.1 admits.1.2 rfl
    rcases shows with rfl | ended
    · exact fits.layered start (Nat.zero_le _)
    · have ends := Discipline.node_ends admits
      obtain ⟨r, run, rfl⟩ := Option.map_eq_some_iff.mp ended
      rw [run] at ends
      cases ends with
      | next moved slots given => exact fits.layered moved.2 (Nat.le_refl _)
      | returned moved given => exact fits.layered moved.2 (Nat.le_refl _)
      | @aborted e s moved =>
        -- parking a failure leaves the arena alone
        have layered : Layered base frames s.roots.arena.toList :=
          fits.layered moved.2 (Nat.le_refl _)
        exact layered
  | entry depth target receiver args m₀ =>
    rcases shows with rfl | ended
    · exact fits
    · have returns := Discipline.entry_returns admits
      obtain ⟨r, run, rfl⟩ := Option.map_eq_some_iff.mp ended
      rw [run] at returns
      cases returns with
      | ok moved given => rw [moved.2.roots_eq moved.1]; exact fits
      | error moved => rw [moved.2.roots_eq moved.1]; exact fits

theorem keeping_admits {m : Machine} (genuine : m.Genuine) (idle : m.roots.parked = none)
    (depth : Nat) (target : Callable) (receiver : Value) (args : List Value) :
    keeping.Admits (.entry depth target receiver args m) :=
  ⟨⟨genuine, idle⟩, trivial, fun _ _ => trivial⟩

/-- An invocation gives the roots back as it found them. -/
theorem enter_roots {m m' : Machine} (genuine : m.Genuine) (idle : m.roots.parked = none)
    {depth : Nat} {target : Callable} {receiver : Value} {args : List Value}
    {result : Except RuntimeError Value}
    (done : enter depth target receiver args m = some (result, m')) :
    m'.Genuine ∧ m'.roots = m.roots := by
  have returns := Discipline.entry_returns (keeping_admits genuine idle depth target receiver args)
  have moved := returns.moves done
  exact ⟨moved.2.genuine, moved.2.roots_eq idle⟩

theorem Machine.release_eq {s : Machine} {roots : Roots} {mark : Nat}
    (same : (s.release mark).roots = roots) : s.release mark = { s with roots } := by
  subst roots
  rfl

theorem Machine.park_injective {s s' : Machine} {e e' : RuntimeError} (idle : s.roots.parked = none)
    (idle' : s'.roots.parked = none) (same : s.park e = s'.park e') : e = e' ∧ s = s' := by
  have taken := congrArg Machine.takeParked same
  rw [Discipline.takeParked_park idle, Discipline.takeParked_park idle'] at taken
  exact ⟨congrArg Prod.fst taken, congrArg Prod.snd taken⟩

/-- The body of a compiled function that is entered on a machine with nothing parked is given up only
with a failure parked, and the invocation fails with that failure. -/
theorem invocation_aborts {m m' : Machine} (genuine : m.Genuine) (idle : m.roots.parked = none)
    {depth : Nat} {unit : UnitId} {u : CompiledUnit} (found : m.units[unit]? = some u)
    {receiver : Value} {args : List Value} (count : args.length = u.arity) {e : RuntimeError}
    (failed : invokeUnit (enter depth) unit receiver args m = some (.error e, m')) :
    ∃ s : Machine, evalBody (enter depth) unit u.code (u.initialLocals receiver args) m =
        some (.aborted, s.park e) ∧
      s.roots.parked = none ∧ m' = { s with roots := m.roots } := by
  have ends := Discipline.keeps_evalBody (D := keeping) (Discipline.enters_enter depth) unit [] u.code
    (u.initialLocals receiver args) m ⟨genuine, idle⟩ (fun _ _ => trivial) (fun _ _ => trivial)
  simp only [invokeUnit, found, count, ne_eq, not_true_eq_false, if_false] at failed
  generalize evalBody (enter depth) unit u.code _ m = r at ends failed
  cases ends with
  | stuck => cases failed
  | next moved slots given => cases failed
  | returned moved given => cases failed
  | @aborted e' s moved =>
    simp only [endInvocation, Discipline.takeParked_park moved.2.idle] at failed
    cases failed
    exact ⟨s, rfl, moved.2.idle, Machine.release_eq (moved.2.release idle)⟩

/-- The operation whose failure an invocation fails with. -/
theorem invocation_failure {m m' : Machine} (genuine : m.Genuine) (idle : m.roots.parked = none)
    {depth : Nat} {unit : UnitId} (name : String) (params : Nat) {u : CompiledUnit}
    (found : m.units[unit]? = some u) {receiver : Value} {args : List Value}
    (count : args.length = u.arity) {e : RuntimeError}
    (failed : invokeUnit (enter depth) unit receiver args m = some (.error e, m')) :
    ∃ p helper m₁ s,
      Within (.entry (depth + 1) (.compiled unit name params) receiver args m)
        [{ function := u.definition, mark := m.roots.count }] (.node depth unit p) ∧
      Asks (enter depth) unit p helper m₁ ∧ helper m₁ = some (.error e, s) ∧
      s.roots.parked = none ∧
      evalBody (enter depth) unit u.code (u.initialLocals receiver args) m =
        some (.aborted, s.park e) ∧
      m' = { s with roots := m.roots } := by
  obtain ⟨s, aborted, parked, left⟩ := invocation_aborts genuine idle found count failed
  obtain ⟨before, c, after, locals', m₀, split, ran, stopped⟩ := evalBody_aborted aborted
  have statement : Within (.entry (depth + 1) (.compiled unit name params) receiver args m)
      [{ function := u.definition, mark := m.roots.count }] (.node depth unit ⟨c, locals', m₀⟩) := by
    have part : Part (.entry (depth + 1) (.compiled unit name params) receiver args m)
      (.node depth unit ⟨c, locals', m₀⟩) := .body found count split ran
    simpa [Activity.frames, found] using Within.start.part part
  obtain ⟨p, helper, m₁, e₁, s₁, nested, asks, tried, same⟩ :=
    Spot.aborted_origin ⟨c, locals', m₀⟩ stopped
  have inside := statement.nested nested
  have admits := Discipline.within_admits inside
    (keeping_admits genuine idle (depth + 1) (.compiled unit name params) receiver args)
  obtain ⟨-, returns⟩ := Discipline.asks_returns (D := keeping) (Discipline.enters_enter depth) asks
    admits.1 admits.2
  rw [tried] at returns
  cases returns with
  | error moved =>
    obtain ⟨rfl, rfl⟩ := Machine.park_injective parked moved.2.idle same
    exact ⟨p, helper, m₁, s, inside, asks, tried, parked, aborted, left⟩

/-- Nothing is kept and nothing is parked between two requests of a host. -/
theorem serve_roots {m m' : Machine} (genuine : m.Genuine) (idle : m.roots.parked = none)
    {depth : Nat} {request : Request} {answer : Answer}
    (served : serve depth request m = some (answer, m')) : m'.Genuine ∧ m'.roots = m.roots := by
  have allowed : keeping.Allows m request := by
    cases request <;> simp [Discipline.Allows, Discipline.Fine, keeping]
  have returns := Discipline.serve_returns (D := keeping) ⟨genuine, idle⟩ depth allowed
  have moved := returns.moves served
  exact ⟨moved.2.genuine, moved.2.roots_eq idle⟩

theorem Machine.Reachable.roots_eq {m : Machine} (reachable : m.Reachable) : m.roots = {} := by
  induction reachable with
  | boot cacheDepth sink => rfl
  | serve before served ih =>
    obtain ⟨-, same⟩ := serve_roots before.sound.genuine (by rw [ih]) served
    exact same.trans ih
  | @site m m' site site' depth callee receiver args result before called ih =>
    rw [CallSite.invoke_eq] at called
    split at called
    · cases called
      exact ih
    · rename_i d dispatched
      obtain ⟨r, entered, rfl, rfl⟩ := Option.map_eq_some_iff.mp called
      have logged : (m.log? d.event).roots = {} := by rw [Machine.log?_roots, ih]
      have genuine := before.sound.genuine.of_units (m.log?_units d.event)
      obtain ⟨-, same⟩ := enter_roots genuine (by rw [logged]) entered
      exact same.trans logged

/-- A function gives the roots back as they were, whether it returns or fails, so a host finds none between
its requests. At every moment of a run the arena is the one at the start and then what the active frames
keep, in call order, each at most one value for each request of its function. -/
theorem roots_follow_frames :
    (∀ m : Machine, m.Reachable → m.Genuine ∧ m.roots = {}) ∧
    ∀ m : Machine, m.Genuine → m.roots.parked = none →
      (∀ depth request answer m', serve depth request m = some (answer, m') →
        m'.Genuine ∧ m'.roots = m.roots) ∧
      (∀ depth target receiver args result m',
        enter depth target receiver args m = some (result, m') →
          m'.Genuine ∧ m'.roots = m.roots) ∧
      (∀ depth unit name params receiver args e m',
        enter (depth + 1) (.compiled unit name params) receiver args m = some (.error e, m') →
        ((∀ u, m.units[unit]? = some u → args.length ≠ u.arity) ∧ m' = m) ∨
        ∃ u p helper m₁ s, m.units[unit]? = some u ∧
          Within (.entry (depth + 1) (.compiled unit name params) receiver args m)
            [{ function := u.definition, mark := m.roots.count }] (.node depth unit p) ∧
          Asks (enter depth) unit p helper m₁ ∧ helper m₁ = some (.error e, s) ∧
          s.roots.parked = none ∧
          evalBody (enter depth) unit u.code (u.initialLocals receiver args) m =
            some (.aborted, s.park e) ∧
          m' = { s with roots := m.roots }) ∧
      ∀ depth target receiver args frames a,
        Within (.entry depth target receiver args m) frames a →
        a.machine.Genuine ∧ a.machine.roots.parked = none ∧
          ∀ seen, a.Shows seen →
            Layered m.roots.arena.toList frames seen.roots.arena.toList := by
  refine ⟨fun m reachable => ⟨reachable.sound.genuine, reachable.roots_eq⟩, ?_⟩
  intro m genuine idle
  refine ⟨?_, ?_, ?_, ?_⟩
  · intro depth request answer m' served
    exact serve_roots genuine idle served
  · intro depth target receiver args result m' done
    exact enter_roots genuine idle done
  · intro depth unit name params receiver args e m' failed
    rw [enter] at failed
    by_cases fits : ∃ u, m.units[unit]? = some u ∧ args.length = u.arity
    · obtain ⟨u, found, count⟩ := fits
      obtain ⟨p, helper, m₁, s, facts⟩ :=
        invocation_failure genuine idle name params found count failed
      exact Or.inr ⟨u, p, helper, m₁, s, found, facts⟩
    · have refused : ∀ u, m.units[unit]? = some u → args.length ≠ u.arity :=
        fun u found count => fits ⟨u, found, count⟩
      refine Or.inl ⟨refused, ?_⟩
      rw [invokeUnit] at failed
      split at failed
      · cases failed
        rfl
      · rename_i u found
        rw [if_pos (refused u found)] at failed
        cases failed
        rfl
  · intro depth target receiver args frames a within
    have admits := keeping_admits genuine idle depth target receiver args
    have here := Discipline.within_admits within admits
    refine ⟨here.holds.1, here.holds.2, ?_⟩
    intro seen shows
    exact (within.fits admits Layered.base).shows here shows

/-- A function that calls a global name without a value, with a fresh object. -/
def callsNothing : FunctionDef where
  name := none
  params := ["x"]
  body := .mk [.ret (.call (.var "g" 1) [.object [("x", .var "x" 1)] 1] 1) 1] 1
  global := Machine.global

theorem roots_follow_frames_failing :
    callsNothing.requests = 3 ∧
    ∃ (m m' : Machine) (e : RuntimeError), m.Genuine ∧ m.roots.parked = none ∧
      enter 2 (.compiled 0 "lambda" 1) .undefined [.null] m = some (.error e, m') ∧
      m'.roots = m.roots ∧
      ∃ u p helper m₁ s, m.units[0]? = some u ∧
        Within (.entry 2 (.compiled 0 "lambda" 1) .undefined [.null] m)
          [{ function := u.definition, mark := m.roots.count }] (.node 1 0 p) ∧
        Asks (enter 1) 0 p helper m₁ ∧ helper m₁ = some (.error e, s) ∧
        Layered m.roots.arena.toList [{ function := u.definition, mark := m.roots.count }]
          p.machine.roots.arena.toList := by
  refine ⟨by decide, ?_⟩
  have ran : (((Machine.boot 3 .accepting).compile callsNothing).toOption.bind fun made =>
      (enter 2 (.compiled 0 "lambda" 1) .undefined [.null] made.2).map fun r =>
        (r.1.toBool, (made.2.units[0]?).map (·.arity))) = some (false, some 1) := by decide +kernel
  obtain ⟨⟨id, m⟩, made, rest⟩ := Option.bind_eq_some_iff.mp ran
  obtain ⟨⟨result, m'⟩, entered, facts⟩ := Option.map_eq_some_iff.mp rest
  obtain ⟨failed, arity⟩ := Prod.mk.inj facts
  obtain ⟨u, found, takes⟩ := Option.map_eq_some_iff.mp arity
  have compiled : (Machine.boot 3 .accepting).compile callsNothing = .ok (id, m) := by
    cases done : (Machine.boot 3 .accepting).compile callsNothing with
    | error e => simp [done, Except.toOption] at made
    | ok r => simpa [done, Except.toOption] using made
  have reachable : m.Reachable := (Machine.Reachable.boot 3 .accepting).serve (serve_compile compiled)
  obtain ⟨genuine, empty⟩ := roots_follow_frames.1 m reachable
  have idle : m.roots.parked = none := by rw [empty]
  obtain ⟨-, balance, origin, moments⟩ := roots_follow_frames.2 m genuine idle
  cases result with
  | ok v => cases failed
  | error e =>
    rcases origin 1 0 "lambda" 1 .undefined [.null] e m' entered with
      ⟨refused, -⟩ | ⟨u', p, helper, m₁, s, found', within, asks, tried, -⟩
    · exact absurd takes.symm (refused u found)
    · obtain ⟨-, -, layered⟩ := moments 2 _ _ _ _ _ within
      exact ⟨m, m', e, genuine, idle, entered, (balance 2 _ _ _ _ _ entered).2, u', p, helper, m₁, s,
        found', within, asks, tried, layered _ (Or.inl rfl)⟩

end ScriptEngine
