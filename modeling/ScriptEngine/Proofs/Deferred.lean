import ScriptEngine.Proofs.Literals
import ScriptEngine.Proofs.Twins

/-!
# Literals that can not be compiled

A program is compiled without a look into the bodies of its function literals. A literal that can not be
compiled shows only when it is evaluated: the program fails there, with everything done that comes
before, and without a trace of the literal. As long as a literal is not evaluated, it could be any other.
-/

namespace ScriptEngine

theorem mainFunction_replaceLiteral (program : Block) {path : List Nat} (inside : path ≠ [])
    (new : Lambda) : mainFunction (program.replaceLiteral path new) =
      (mainFunction program).onLambda (Place.replace new (some path)) := by
  cases path with
  | nil => exact absurd rfl inside
  | cons i path => rfl

/-- A program does the same with another literal at a path, if the literal is not evaluated. -/
theorem execute_alike (m : Machine) (depth : Nat) (program : Block) {path : List Nat}
    (inside : path ≠ []) (new : Lambda) {S : UnitId → List Nat → Prop}
    (spares : Spares (executeActs depth program m) S) (stands : S m.units.size path) :
    Alike new S (execute depth program m) (execute depth (program.replaceLiteral path new) m) := by
  have nowhere : m.Fits S fun _ => none := by
    intro k u _ path' place
    cases place
  have compiles : (m.altered new fun _ => none).compile
      ((mainFunction program).onLambda (Place.replace new (some path))) = _ :=
    m.altered_compile _ fun whole => inside (Option.some.inj whole)
  rw [m.altered_nowhere, ← mainFunction_replaceLiteral program inside] at compiles
  cases done : m.compile (mainFunction program) with
  | error e =>
    have ends : Alike new S (some (Except.error (ExecError.compile e) (α := Value), m))
        (some (_, m.altered new fun _ => none)) := .ends nowhere
    rw [done] at compiles
    rw [m.altered_nowhere] at ends
    simp only [Discipline.execute_eq, done, compiles, Except.map]
    exact ends
  | ok made =>
    obtain ⟨main, m'⟩ := made
    rw [done] at compiles
    -- the literal stands in the main function and nowhere else so far
    have stands' : ∀ path', some path = some path' → path' ≠ [] ∧ S m.units.size path' := by
      rintro path' ⟨⟩
      exact ⟨inside, stands⟩
    have fits := nowhere.compile done stands'
    have invoked : Steady new _ S (invoke depth main .undefined []) _ :=
      invokeObject_steady (enter_steady spares depth) main .undefined []
    have alike := invoked (m'.log (.executingProgram program.instrs.length)) _ (fits.same rfl) <| by
      simp only [executeActs, done]
      exact fun act member => member
    simp only [Discipline.execute_eq, done, compiles, Except.map,
      program.replaceLiteral_length inside]
    exact alike.mapResult _

/-- Apart from the literal itself nothing is different. -/
theorem Alike.same {α : Type} {new : Lambda} {S : UnitId → List Nat → Prop}
    {r r' : Option (α × Machine)} (alike : Alike new S r r') :
    r'.map (fun x => (x.1, { x.2 with units := #[] })) =
      r.map fun x => (x.1, { x.2 with units := #[] }) := by
  cases alike with
  | stuck => rfl
  | ends fits => rfl

/-- Whether a function can be compiled does not depend on the literals inside it. -/
theorem FunctionDef.check_replace (f : FunctionDef) {path : List Nat} (inside : path ≠ [])
    (new : Lambda) : (f.onLambda (Place.replace new (some path))).check = f.check := by
  have compiles := f.compile_replace new 0 fun whole => inside (Option.some.inj whole)
  rcases f.check_cases with passed | ⟨name, line, refused⟩
  · obtain ⟨u, compiled⟩ := compile_of_check_ok passed 0
    rw [compiled] at compiles
    rw [passed, check_of_compile compiles]
  · rw [compile_of_check_error refused] at compiles
    rw [refused, (compile_error_iff _ 0 _).mp compiles]

/-- In the course of `start` the unit has been made by evaluating the literal at the path. The empty path
belongs to the unit `main`. -/
inductive Stems (start : Activity) (main : UnitId) : List Nat → UnitId → Prop
  | main : Stems start main [] main
  | literal {outer : List Nat} {unit : UnitId} {frames : List Frame} {depth id : Nat}
      {registration : Option (String × Nat)} {locals : List Value} {m : Machine} {v : Value}
      (stems : Stems start main outer unit)
      (within : Within start frames (.node depth unit ⟨.function id registration, locals, m⟩))
      (made : (m.makeFunction unit id).1 = .ok v) : Stems start main (outer ++ [id]) m.units.size

/-- The literal at the path is evaluated in the course of `start`. -/
def Evaluates (start : Activity) (main : UnitId) (path : List Nat) : Prop :=
  ∃ outer id unit frames depth registration locals m, path = outer ++ [id] ∧
    Stems start main outer unit ∧
    Within start frames (.node depth unit ⟨.function id registration, locals, m⟩)

/-- The literals of the main body are evaluated as parts of the unit `main`. -/
theorem Evaluates.visited {hosts : NativeFunction → Prop} {h : List Act} {start : Activity}
    (placed : start.Placed hosts h) {main : UnitId} {id : Nat}
    (evaluates : Evaluates start main [id]) : evaluated start.acts main id = true := by
  obtain ⟨outer, id', unit, frames, k, registration, locals, m, split, stems, within⟩ := evaluates
  obtain ⟨rfl, rfl⟩ : outer = [] ∧ id' = id := by
    have empty : outer = [] := List.length_eq_zero_iff.mp (by simpa using congrArg List.length split)
    subst empty
    simpa [eq_comm] using split
  have same : unit = main := by
    generalize none : ([] : List Nat) = path at stems
    cases stems with
    | main => rfl
    | literal => simp at none
  subst same
  exact (evaluated_acts_iff placed _ _).mpr ⟨frames, k, registration, locals, m, within⟩

theorem spares_of_not_evaluates {start : Activity} {main : UnitId} {path : List Nat}
    (idle : ¬ Evaluates start main path) :
    Spares start.acts fun unit rest => ∃ outer, Stems start main outer unit ∧ path = outer ++ rest := by
  rintro unit id rest registration m ⟨outer, stems, split⟩ visited
  obtain ⟨frames, b, within, does⟩ := Within.of_act start visited
  cases does with
  | visit =>
    constructor
    · rintro rfl
      exact idle ⟨outer, id, unit, frames, _, registration, _, m, split, stems, within⟩
    · intro v made
      exact ⟨outer ++ [id], .literal stems within made, by simp [split]⟩

/-- Of two acts of an invocation one comes first. -/
theorem acts_compared {hosts : NativeFunction → Prop} {h : List Act} {depth : Nat}
    {target : Callable} {receiver : Value} {args : List Value} {m : Machine}
    (placed : (Activity.entry depth target receiver args m).Placed hosts h) {x y : Act}
    (first : x ∈ (Activity.entry depth target receiver args m).acts)
    (second : y ∈ (Activity.entry depth target receiver args m).acts) :
    x = y ∨ x.Precedes y.machine ∨ y.Precedes x.machine := by
  have told := enter_tells hosts depth h m target receiver args placed.1
  have ordered := List.pairwise_iff_getElem.mp told.successive.later
  obtain ⟨i, here, rfl⟩ := List.mem_iff_getElem.mp first
  obtain ⟨j, there, rfl⟩ := List.mem_iff_getElem.mp second
  rcases Nat.lt_trichotomy i j with before | rfl | after
  · exact Or.inr (Or.inl (ordered i j here there before))
  · exact Or.inl rfl
  · exact Or.inr (Or.inr (ordered j i there here after))

/-- The function that the evaluation of a literal has made is the literal. -/
theorem Machine.Chronicle.makeFunction_unit {hosts : NativeFunction → Prop} {h : List Act}
    {m : Machine} (chronicle : m.Chronicle hosts h) {unit : UnitId} {u : CompiledUnit}
    (found : m.units[unit]? = some u) {id : Nat} {f : FunctionDef}
    (listed : u.definition.literals[id]? = some f) {v : Value}
    (made : (m.makeFunction unit id).1 = .ok v) :
    ((m.makeFunction unit id).2.units[m.units.size]?).map (·.definition) = some f := by
  obtain ⟨same, observed⟩ := chronicle.makeFunction_observed found listed
  rcases f.check_cases with passed | ⟨name, line, refused⟩
  · rw [Reference.World.makeFunction_of_ok passed] at observed
    have functions := congrArg Reference.World.functions observed
    simp only [observe] at functions
    rw [← Array.getElem?_map, functions, Array.getElem?_push]
    simp
  · rw [Reference.World.makeFunction_of_error refused, made] at same
    cases same

/-- A unit that comes from the literal at a path is that literal of the tree. -/
theorem Stems.definition {hosts : NativeFunction → Prop} {h : List Act} {depth : Nat}
    {target : Callable} {receiver : Value} {args : List Value} {m : Machine}
    (placed : (Activity.entry depth target receiver args m).Placed hosts h) {f : FunctionDef}
    {main : UnitId} (named : (m.units[main]?).map (·.definition) = some f) {path : List Nat}
    {unit : UnitId} (stems : Stems (.entry depth target receiver args m) main path unit) :
    ∀ {frames k p}, Within (.entry depth target receiver args m) frames (.node k unit p) →
      ∃ g, f.literalAt path = some g ∧ (p.machine.units[unit]?).map (·.definition) = some g := by
  induction stems with
  | main =>
    intro frames k p within
    obtain ⟨-, -, -, leads⟩ := within.told placed
    exact ⟨f, rfl, leads.units _ _ named⟩
  | @literal outer unit₁ frames₁ k₁ id registration locals₁ m₁ v _ evaluated made ih =>
    intro frames k p within
    obtain ⟨c, locals, m₂⟩ := p
    obtain ⟨g, there, named₁⟩ := ih evaluated
    obtain ⟨earlier, -, placed₁, -⟩ := evaluated.told placed
    obtain ⟨u, f₁, found, listed⟩ := placed₁.literal
    obtain rfl : u.definition = g := by simpa [found] using named₁
    refine ⟨f₁, by rw [f.literalAt_append, there]; exact listed, ?_⟩
    have fresh := placed₁.chronicle.makeFunction_unit found listed made
    obtain ⟨past, -, ⟨-, unused, -, holds, -⟩, -⟩ := within.told placed
    have visited₁ := (mem_acts_iff placed _).mpr ⟨frames₁, _, evaluated, .visit⟩
    have visited := (mem_acts_iff placed _).mpr ⟨frames, _, within, .visit⟩
    -- code of the new unit can not run before the unit is made
    rcases acts_compared placed visited₁ visited with same | before | after
    · obtain ⟨inside, -⟩ := Array.getElem?_eq_some_iff.mp found
      have units : unit₁ = m₁.units.size := (Act.visit.inj same).1
      exact absurd inside (Nat.not_lt_of_le (Nat.le_of_eq units.symm))
    · exact before.done.units _ _ fresh
    · have inside := (after.begun.holds holds).inside
      exact absurd inside (Nat.lt_irrefl _)

/-- The invocation of the main function of a program, if its body can be compiled. -/
def Machine.programStart? (m : Machine) (depth : Nat) (program : Block) : Option Activity :=
  (m.compile (mainFunction program)).toOption.map fun made =>
    .entry depth (.compiled m.units.size mainName 0) .undefined []
      (made.2.log (.executingProgram program.instrs.length))

theorem Machine.programStart?_eq_some_iff (m : Machine) (depth : Nat) (program : Block)
    (start : Activity) : m.programStart? depth program = some start ↔
      ∃ main m', m.compile (mainFunction program) = .ok (main, m') ∧
        start = .entry depth (.compiled m.units.size mainName 0) .undefined []
          (m'.log (.executingProgram program.instrs.length)) := by
  cases compiled : m.compile (mainFunction program) with
  | error e => simp [programStart?, compiled, Except.toOption]
  | ok made =>
    obtain ⟨main, m'⟩ := made
    simp [programStart?, compiled, Except.toOption, eq_comm]

theorem Machine.compile_definition {m m' : Machine} {f : FunctionDef} {id : ObjectId}
    (done : m.compile f = .ok (id, m')) :
    (m'.units[m.units.size]?).map (·.definition) = some f := by
  obtain ⟨fresh, event, compiled, rfl, rfl⟩ := compile_inv done
  simp [(FunctionDef.compile_ok compiled).1]

theorem executeActs_of_compile {m m' : Machine} {program : Block} {main : ObjectId}
    (compiled : m.compile (mainFunction program) = .ok (main, m')) (depth : Nat) :
    executeActs depth program m = (Activity.entry depth (.compiled m.units.size mainName 0) .undefined
      [] (m'.log (.executingProgram program.instrs.length))).acts := by
  have callable : (m'.log (.executingProgram program.instrs.length)).heap.callable? main =
      some (.compiled m.units.size mainName 0) := Machine.compile_callable compiled
  simp only [executeActs, compiled, invokeActs, callable]
  rfl

/-- A literal that can not be compiled fails where it is evaluated, and leaves nothing behind that could
be seen. -/
theorem literal_fails {hosts : NativeFunction → Prop} {h : List Act} {k : Nat} {unit : UnitId}
    {id : Nat} {registration : Option (String × Nat)} {locals : List Value} {m : Machine}
    (placed : (Activity.node k unit ⟨.function id registration, locals, m⟩).Placed hosts h)
    (admits : keeping.Admits (.node k unit ⟨.function id registration, locals, m⟩))
    {u : CompiledUnit} (found : m.units[unit]? = some u) {f : FunctionDef}
    (listed : u.definition.literals[id]? = some f) {e : CompileError} (failed : f.check = .error e) :
    ∃ s, (Activity.node k unit ⟨.function id registration, locals, m⟩).Fails (.compile e) s ∧
      s.heap = m.heap ∧ s.output = m.output := by
  obtain ⟨result, observed⟩ := placed.chronicle.makeFunction_observed found listed
  rw [Reference.World.makeFunction_of_error failed] at result observed
  refine ⟨(m.makeFunction unit id).2, ?_, ?_, ?_⟩
  · refine (node_fails_iff admits _ _).mpr (Or.inr ⟨_, m, .function, ?_⟩)
    exact congrArg some (Prod.ext result rfl)
  · exact congrArg Reference.World.heap observed
  · exact congrArg Reference.World.output observed

/-- A program is refused with a compile error only for an assignment in its main body, and then nothing has
happened. The error of a function literal is found when the literal is evaluated, so a literal that is
not evaluated can be replaced by any other without a change to the run. -/
theorem compile_errors_are_deferred {m : Machine} (reachable : m.Reachable) (depth : Nat)
    (program : Block) :
    (∀ e m', execute depth program m = some (.error (.compile e), m') ↔
      (mainFunction program).check = .error e ∧ m' = m) ∧
    (∀ path new, path ≠ [] →
      (mainFunction (program.replaceLiteral path new)).check = (mainFunction program).check ∧
      (mainFunction (program.replaceLiteral path new)).literalAt path =
        ((mainFunction program).literalAt path).map (·.onLambda fun _ => new)) ∧
    (∀ start, m.programStart? depth program = some start →
      (∀ frames k unit id registration locals m₁,
        Within start frames (.node k unit ⟨.function id registration, locals, m₁⟩) →
        ∃ u f, m₁.units[unit]? = some u ∧ u.definition.literals[id]? = some f ∧
          (∀ outer, Stems start m.units.size outer unit →
            (mainFunction program).literalAt (outer ++ [id]) = some f) ∧
          (f.check = .ok () → (m₁.makeFunction unit id).1 = .ok (.object m₁.heap.size)) ∧
          ∀ e, f.check = .error e →
            (∃ s, (Activity.node k unit ⟨.function id registration, locals, m₁⟩).Fails
                (.compile e) s ∧ s.heap = m₁.heap ∧ s.output = m₁.output) ∧
            (Exposed start frames (.node k unit ⟨.function id registration, locals, m₁⟩) →
              ∃ m₂, execute depth program m = some (.error (.runtime (.compile e)), m₂) ∧
                m₂.heap = m₁.heap ∧ m₂.output = m₁.output)) ∧
      ∀ e m₂, execute depth program m = some (.error (.runtime (.compile e)), m₂) →
        ∃ frames b, Exposed start frames b ∧ b.Faulty e) ∧
    (∀ path new, path ≠ [] →
      (∀ start, m.programStart? depth program = some start →
        ¬ Evaluates start m.units.size path) →
      (execute depth (program.replaceLiteral path new) m).map
          (fun r => (r.1, { r.2 with units := #[] })) =
        (execute depth program m).map fun r => (r.1, { r.2 with units := #[] })) := by
  obtain ⟨h, recorded⟩ := reachable.recorded
  have chronicle := recorded.chronicle
  have genuine := reachable.sound.genuine
  have idle : m.roots.parked = none := by rw [reachable.roots_eq]
  refine ⟨execute_compile_iff m depth program, ?_, ?_, ?_⟩
  · intro path new inside
    rw [mainFunction_replaceLiteral program inside]
    exact ⟨FunctionDef.check_replace _ inside new, FunctionDef.literalAt_replace new _ path⟩
  · intro start started
    obtain ⟨main, m', compiled, rfl⟩ := (m.programStart?_eq_some_iff depth program start).mp started
    have starts : m.Starts (.entry depth _ _ _ _) := .program compiled
    have placed := starts.placed chronicle
    have admits := starts.admits chronicle.sound idle
    have main_unit := Machine.compile_definition compiled
    refine ⟨?_, fun e m₂ failed => compile_origin _ h m₂ placed admits (fails_of_execute compiled failed)⟩
    intro frames k unit id registration locals m₁ within
    obtain ⟨earlier, -, here, -⟩ := within.told placed
    obtain ⟨u, f, found, listed⟩ := here.literal
    refine ⟨u, f, found, listed, ?_, ?_, ?_⟩
    · intro outer stems
      obtain ⟨g, there, named⟩ := stems.definition placed main_unit within
      obtain rfl : u.definition = g := by simpa [found] using named
      rw [FunctionDef.literalAt_append, there]
      exact listed
    · intro passed
      have made := (here.chronicle.makeFunction_observed found listed).1
      rw [Reference.World.makeFunction_of_ok passed] at made
      exact made
    · intro e failed
      obtain ⟨s, fails, heap, output⟩ :=
        literal_fails here (Discipline.within_admits within admits) found listed failed
      refine ⟨⟨s, fails, heap, output⟩, fun exposed => ?_⟩
      exact ⟨_, execute_fails genuine idle compiled exposed fails, heap, output⟩
  · intro path new inside unevaluated
    cases compiled : m.compile (mainFunction program) with
    | error e =>
      -- there is no run, so nothing is evaluated
      have nothing : Spares (executeActs depth program m) fun _ _ => True := by
        intro unit i rest registration m₁ _ visited
        simp [executeActs, compiled] at visited
      exact (execute_alike m depth program inside new nothing trivial).same
    | ok made =>
      obtain ⟨main, m'⟩ := made
      have started := (m.programStart?_eq_some_iff depth program _).mpr ⟨main, m', compiled, rfl⟩
      have spares := spares_of_not_evaluates (unevaluated _ started)
      rw [← executeActs_of_compile compiled] at spares
      exact (execute_alike m depth program inside new spares ⟨[], .main, rfl⟩).same

/-- A program that prints, passes by the literal `g`, and evaluates the literal `h`, which assigns to an
unknown name. -/
def passesBy : Block :=
  .mk [.call (.var "print" 1) [.literal (.text "a") 1] 1,
    .cond (.var "v" 2) (.mk [.function (some "g") [] (.mk [] 2) 2] 2) (.mk [] 2) 2,
    .function (some "h") [] (.mk [.assign "x" (.literal (.int 1) 3) false 3] 3) 3] 1

/-- It fails after it has printed and before `h` is registered, and just so with a literal in the place of
`g` that can not be compiled either. -/
theorem compile_errors_are_deferred_passing :
    let m := Machine.boot 3 .accepting
    let other := passesBy.replaceLiteral [0] ([], .mk [.assign "y" (.literal (.int 1) 2) false 2] 2)
    m.Reachable ∧ ((mainFunction other).literalAt [0]).map (·.check) =
        some (.error (.unknownVariable "y" 2)) ∧
      (execute 3 other m).map (fun r => (r.1, r.2.output, r.2.heap.lookup Machine.global "h")) =
        some (.error (.runtime (.compile (.unknownVariable "x" 3))), "a\n", .undefined) := by
  intro m other
  have reachable : m.Reachable := .boot 3 .accepting
  obtain ⟨h, recorded⟩ := reachable.recorded
  obtain ⟨-, -, -, same⟩ := compile_errors_are_deferred reachable 3 passesBy
  have unvisited : evaluated (executeActs 3 passesBy m) m.units.size 0 = false := by decide +kernel
  have skipped : ∀ start, m.programStart? 3 passesBy = some start →
      ¬ Evaluates start m.units.size [0] := by
    intro start started evaluates
    obtain ⟨main, m', compiled, rfl⟩ := (m.programStart?_eq_some_iff 3 passesBy start).mp started
    have starts : m.Starts (.entry 3 _ _ _ _) := .program compiled
    have visited := evaluates.visited (starts.placed recorded.chronicle)
    rw [← executeActs_of_compile compiled, unvisited] at visited
    cases visited
  have ends := congrArg (Option.map fun r => (r.1, r.2.output, r.2.heap.lookup Machine.global "h"))
    (same [0] ([], .mk [.assign "y" (.literal (.int 1) 2) false 2] 2) (by simp) skipped)
  simp only [Option.map_map] at ends
  refine ⟨reachable, by decide +kernel, ends.trans ?_⟩
  decide +kernel

end ScriptEngine
