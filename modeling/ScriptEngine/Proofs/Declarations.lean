import ScriptEngine.Proofs.Positions
import ScriptEngine.Proofs.Literals

/-!
# Declared names

A function binds its receiver, its parameters and the names declared by instructions of its body. Every
assignment, also one that declares its name, needs a name that is bound: a function that has others can
not be compiled, and the first of them in the order of positions is reported. A declaration that stands
for a value binds nothing.
-/

namespace ScriptEngine

namespace FunctionDef

/-- At the end of the path stands an assignment to the name, which may also declare it. -/
def Assigns (f : FunctionDef) (path : List Step) (x : String) (line : UInt32) : Prop :=
  ∃ value declares, f.body.At path (.assign x value declares line)

/-- At the end of the path stands a declaration of the name. -/
def Declares (f : FunctionDef) (path : List Step) (x : String) : Prop :=
  ∃ value line, f.body.At path (.assign x value true line)

/-- The name is the receiver, a parameter, or declared in a statement position. -/
def Binds (f : FunctionDef) (x : String) : Prop :=
  x = receiverName ∨ x ∈ f.params ∨ ∃ path, f.Declares path x ∧ StatementPath path

/-- At the end of the path stands an assignment to a name that is not bound. -/
def Offends (f : FunctionDef) (path : List Step) (x : String) (line : UInt32) : Prop :=
  f.Assigns path x line ∧ ¬ f.Binds x

/-- The assignment offends, and all others that offend come later. -/
def FirstOffence (f : FunctionDef) (path : List Step) (x : String) (line : UInt32) : Prop :=
  f.Offends path x line ∧
    ∀ path' y line', f.Offends path' y line' → path' = path ∨ Precedes path path'

theorem mem_locals_iff (f : FunctionDef) (x : String) : x ∈ f.locals ↔ f.Binds x := by
  have declared : x ∈ f.body.declared ↔ ∃ path, f.Declares path x ∧ StatementPath path := by
    refine ((Expr.block f.body).mem_declared_iff x).trans ?_
    simp only [Declares, Block.At, exists_and_right]
  rw [locals, List.mem_append, List.mem_cons, or_assoc, declared]
  rfl

theorem has_slot_iff (f : FunctionDef) (x : String) :
    (∃ slot, (Scope.resolve f.params f.body).lookup x = some slot) ↔ f.Binds x := by
  rw [← Option.ne_none_iff_exists', ne_eq, Scope.lookup_resolve_eq_none_iff, not_not, mem_locals_iff]

theorem offends_iff {f : FunctionDef} {places : List (List Step × (String × UInt32))}
    (listed : (Expr.block f.body).Lists places) (path : List Step) (x : String) (line : UInt32) :
    f.Offends path x line ↔ (path, (x, line)) ∈ places ∧ x ∉ f.locals := by
  rw [listed.members, f.mem_locals_iff]
  constructor
  · rintro ⟨⟨value, declares, stands⟩, free⟩
    exact ⟨⟨_, stands, Expr.mem_assigned_iff.mpr ⟨value, declares, rfl⟩⟩, free⟩
  · rintro ⟨⟨n, stands, assigned⟩, free⟩
    obtain ⟨value, declares, rfl⟩ := Expr.mem_assigned_iff.mp assigned
    exact ⟨⟨value, declares, stands⟩, free⟩

theorem Offends.same {f : FunctionDef} {path : List Step} {x y : String} {line line' : UInt32}
    (offence : f.Offends path x line) (other : f.Offends path y line') : x = y ∧ line = line' := by
  obtain ⟨⟨value, declares, stands⟩, -⟩ := offence
  obtain ⟨⟨value', declares', stands'⟩, -⟩ := other
  have same := Expr.At.unique stands stands'
  simp only [Expr.assign.injEq] at same
  exact ⟨same.1, same.2.2.2⟩

theorem FirstOffence.unique {f : FunctionDef} {path path' : List Step} {x y : String}
    {line line' : UInt32} (first : f.FirstOffence path x line) (other : f.FirstOffence path' y line') :
    x = y ∧ line = line' := by
  have same : path' = path := by
    rcases first.2 path' y line' other.1 with same | later
    · exact same
    · rcases other.2 path x line first.1 with same | earlier
      · exact same.symm
      · exact absurd earlier later.asymm
  subst same
  exact first.1.same other.1

/-- The check passes if nothing offends, and otherwise it fails with the first assignment that does: it
walks the assignments in the order of their positions. -/
theorem check_spec (f : FunctionDef) :
    (f.check = .ok () ∧ ∀ path x line, ¬ f.Offends path x line) ∨
    ∃ path x line, f.FirstOffence path x line ∧ f.check = .error (.unknownVariable x line) := by
  obtain ⟨places, listed⟩ := (Expr.block f.body).lists
  have same := listed.assignments
  rw [Expr.assignments] at same
  rw [check, ← same, List.find?_map]
  cases found : places.find? ((fun a => decide (a.1 ∉ f.locals)) ∘ (·.2)) with
  | none =>
    refine Or.inl ⟨rfl, ?_⟩
    intro path x line offence
    obtain ⟨member, free⟩ := (offends_iff listed path x line).mp offence
    exact List.find?_eq_none.mp found _ member (decide_eq_true free)
  | some first =>
    obtain ⟨path, x, line⟩ := first
    obtain ⟨free, before, after, split, fine⟩ := List.find?_eq_some_iff_append.mp found
    refine Or.inr ⟨path, x, line, ⟨?_, ?_⟩, rfl⟩
    · refine (offends_iff listed path x line).mpr ⟨?_, of_decide_eq_true free⟩
      simp [split]
    · intro path' y line' other
      obtain ⟨member, free'⟩ := (offends_iff listed path' y line').mp other
      have ordered := listed.ordered
      rw [split] at member ordered
      rcases List.mem_append.mp member with early | late
      · have bound := fine _ early
        simp [free'] at bound
      · rcases List.mem_cons.mp late with here | late
        · exact Or.inl (congrArg Prod.fst here)
        · exact Or.inr ((List.pairwise_cons.mp (List.pairwise_append.mp ordered).2.1).1 _ late)

theorem check_error_iff (f : FunctionDef) (e : CompileError) :
    f.check = .error e ↔
      ∃ path x line, f.FirstOffence path x line ∧ e = .unknownVariable x line := by
  rcases f.check_spec with ⟨passed, fine⟩ | ⟨path, x, line, first, failed⟩
  · rw [passed]
    constructor
    · intro failed
      cases failed
    · rintro ⟨path, x, line, first, -⟩
      exact absurd first.1 (fine path x line)
  · rw [failed]
    constructor
    · intro same
      exact ⟨path, x, line, first, (Except.error.inj same).symm⟩
    · rintro ⟨path', y, line', other, rfl⟩
      obtain ⟨rfl, rfl⟩ := first.unique other
      rfl

theorem check_ok_iff (f : FunctionDef) :
    f.check = .ok () ↔ ∀ path x line, f.Assigns path x line → f.Binds x := by
  rcases f.check_spec with ⟨passed, fine⟩ | ⟨path, x, line, first, failed⟩
  · refine iff_of_true passed ?_
    intro path x line assigned
    by_contra free
    exact fine path x line ⟨assigned, free⟩
  · obtain ⟨⟨assigned, free⟩, -⟩ := first
    refine iff_of_false (by simp [failed]) ?_
    intro bound
    exact free (bound path x line assigned)

end FunctionDef

theorem Machine.compile_ok_iff (m : Machine) (f : FunctionDef) :
    (∃ id m', m.compile f = .ok (id, m')) ↔ f.check = .ok () := by
  have fails := m.compile_error_iff f
  cases compiled : m.compile f with
  | ok made =>
    cases checked : f.check with
    | ok => exact iff_of_true ⟨made.1, made.2, rfl⟩ rfl
    | error e =>
      have failed := (fails e).mpr checked
      simp [compiled] at failed
  | error e => simp [(fails e).mp compiled]

/-- A function can be compiled exactly if each assignment of its body goes to a name that is bound, also in
code that is never reached but not in nested functions. Otherwise the first assignment that offends is
reported with its name and line. -/
theorem compile_reports_first_offence (m : Machine) (f : FunctionDef) :
    ((∃ id m', m.compile f = .ok (id, m')) ↔
      ∀ path x line, f.Assigns path x line → f.Binds x) ∧
    ∀ e, m.compile f = .error e ↔
      ∃ path x line, f.FirstOffence path x line ∧ e = .unknownVariable x line := by
  constructor
  · exact (m.compile_ok_iff f).trans f.check_ok_iff
  · intro e
    exact (m.compile_error_iff f e).trans (f.check_error_iff e)

-- In `x = (y = 1)` the inner assignment is lowered first.
example : FunctionDef.check
    { name := none, params := [], global := 0,
      body := .mk [.assign "x" (.assign "y" (.literal (.int 1) 3) false 2) false 1] 0 } =
    .error (.unknownVariable "y" 2) := rfl

theorem Machine.offends_of_reported {m : Machine} {f : FunctionDef} {x : String} {line : UInt32}
    (failed : m.compile f = .error (.unknownVariable x line)) : ∃ path, f.Offends path x line := by
  obtain ⟨path, y, line', first, same⟩ :=
    (f.check_error_iff _).mp ((m.compile_error_iff f _).mp failed)
  obtain ⟨rfl, rfl⟩ := CompileError.unknownVariable.inj same
  exact ⟨path, first.1⟩

/-- A declared name has a slot exactly if it is bound, as it is if a declaration of it stands in a
statement position; a declaration that stands for a value gives no slot, and its name may be reported. -/
theorem declaration_has_slot_iff (m : Machine) (f : FunctionDef) :
    (∀ path x, f.Declares path x →
      ((∃ slot, (Scope.resolve f.params f.body).lookup x = some slot) ↔ f.Binds x) ∧
      (StatementPath path → f.Binds x)) ∧
    (∀ x line, m.compile f = .error (.unknownVariable x line) →
      (Scope.resolve f.params f.body).lookup x = none ∧ (∃ path, f.Assigns path x line) ∧
      ∀ path, f.Declares path x → ¬ StatementPath path) ∧
    (((∀ path x, f.Declares path x → ∃ slot, (Scope.resolve f.params f.body).lookup x = some slot) ∧
        ∀ x line, m.compile f = .error (.unknownVariable x line) → ∀ path, ¬ f.Declares path x) ↔
      ∀ path x, f.Declares path x → f.Binds x) := by
  refine ⟨?_, ?_, ?_⟩
  · intro path x declared
    refine ⟨f.has_slot_iff x, ?_⟩
    intro statement
    exact Or.inr (Or.inr ⟨path, declared, statement⟩)
  · intro x line failed
    obtain ⟨path, assigned, free⟩ := Machine.offends_of_reported failed
    refine ⟨?_, ⟨path, assigned⟩, ?_⟩
    · rwa [Scope.lookup_resolve_eq_none_iff, f.mem_locals_iff]
    · intro path' declared statement
      exact free (Or.inr (Or.inr ⟨path', declared, statement⟩))
  · constructor
    · rintro ⟨slots, -⟩ path x declared
      exact (f.has_slot_iff x).mp (slots path x declared)
    · intro bound
      constructor
      · intro path x declared
        exact (f.has_slot_iff x).mpr (bound path x declared)
      · intro x line failed path declared
        obtain ⟨_, -, free⟩ := Machine.offends_of_reported failed
        exact free (bound path x declared)

/-- The body `return (var x = 1)`. -/
def returnedDeclaration : FunctionDef where
  name := none
  params := []
  body := .mk [.ret (.assign "x" (.literal (.int 1) 0) true 0) 0] 0
  global := 0

/-- The declaration in `return (var x = 1)` has no slot, and it is reported as an assignment to an unknown
variable. -/
theorem returned_declaration_has_no_slot :
    returnedDeclaration.Declares [.instr 0, .value] "x" ∧
    (Scope.resolve returnedDeclaration.params returnedDeclaration.body).lookup "x" = none ∧
    (Machine.boot 3 .accepting).compile returnedDeclaration = .error (.unknownVariable "x" 0) := by
  refine ⟨?_, ?_, ?_⟩
  · exact ⟨_, _, .inside List.mem_cons_self (.inside List.mem_cons_self .here)⟩
  · exact (Scope.lookup_resolve_eq_none_iff returnedDeclaration "x").mpr (by decide)
  · exact (Machine.compile_error_iff _ _ _).mpr rfl

end ScriptEngine
