import ScriptEngine.Proofs.Declarations
import ScriptEngine.Proofs.Recast

/-!
# Code behind a return

What stands behind a return among some instructions never runs, but it is compiled: the names that it
declares are local to the function, and what it assigns has to be local. As long as it declares no name
that is not local without it, it can be deleted. The slots of the function may be numbered differently
then, and it has fewer sites; nothing else changes.
-/

namespace ScriptEngine

/-- The instructions `dead` behind a return are deleted. -/
inductive Cut (dead : List Expr) : List Expr → List Expr → Prop
  | ret (value : Expr) (line : UInt32) : Cut dead (.ret value line :: dead) [.ret value line]

/-- In `f'` the instructions `dead` have been deleted behind returns of `f`: at one place or at some
places, in the body, in blocks and arms at any nesting, and in nested functions that are compiled or
refused as before. The names which `dead` declares are names of `f'`. -/
structure FunctionDef.Trims (dead : List Expr) (f f' : FunctionDef) : Prop where
  name : f'.name = f.name
  params : f'.params = f.params
  global : f'.global = f.global
  body : RecastInstrs (Cut dead) FunctionDef.Accords f.body.instrs f'.body.instrs
  names : ∀ x ∈ declaredAll dead, x ∈ (Scope.resolve f'.params f'.body).names

/-- Behind a return, and whatever stands before it, the rest of a list can be deleted. -/
theorem recast_cut {ok : FunctionDef → FunctionDef → Prop} (allowed : ∀ f, ok f f)
    (before dead : List Expr) (value : Expr) (line : UInt32) :
    RecastInstrs (Cut dead) ok (before ++ .ret value line :: dead) (before ++ [.ret value line]) := by
  induction before with
  | nil => exact .step (recastInstrs_refl allowed _) (.ret value line)
  | cons e es ih => exact .cons (e.recast_refl allowed) ih

theorem partwise_within {β : Type} (extra : List β) :
    Partwise fun xs ys : List β => ys ⊆ xs ++ extra where
  refl _ := List.subset_append_left _ _
  trans := by
    intro xs ys zs first second z member
    rcases List.mem_append.mp (second member) with member | member
    · exact first member
    · exact List.mem_append_right xs member
  append := by
    intro xs xs' ys ys' left right z member
    rcases List.mem_append.mp member with member | member
    · rcases List.mem_append.mp (left member) with member | member <;> simp [member]
    · rcases List.mem_append.mp (right member) with member | member <;> simp [member]

section
variable {dead es es' : List Expr}

theorem Cut.declared_subset (cut : Cut dead es es') : declaredAll es' ⊆ declaredAll es := by
  cases cut
  exact List.nil_subset _

theorem Cut.declared_within (cut : Cut dead es es') :
    declaredAll es ⊆ declaredAll es' ++ declaredAll dead := by
  cases cut
  exact List.Subset.refl _

theorem cut_assigned (ok : FunctionDef → FunctionDef → Prop) :
    NodesCompare (Cut dead) ok (fun xs ys => xs ⊆ ys) Node.assigned := by
  refine ⟨partwise_subset _, fun recast => ?_, fun cut => ?_⟩
  · cases recast <;> exact List.Subset.refl _
  · cases cut
    simp [nodesAll]

end

namespace FunctionDef.Trims

variable {dead : List Expr} {f f' : FunctionDef}

theorem locals (trims : f.Trims dead f') (x : String) : x ∈ f'.locals ↔ x ∈ f.locals := by
  have fewer := trims.body.declared ⟨partwise_subset String, Cut.declared_subset⟩
  have within := trims.body.declared ⟨partwise_within (declaredAll dead), Cut.declared_within⟩
  have names : ∀ x ∈ declaredAll dead, x ∈ f'.locals := fun x member =>
    (Scope.mem_resolve f'.params f'.body x).mp (trims.names x member)
  simp only [declaredAll_eq, ← Block.declared_eq] at fewer within names
  constructor
  · intro member
    rcases List.mem_append.mp member with signature | declared
    · exact List.mem_append_left _ (trims.params ▸ signature)
    · exact List.mem_append_right _ (fewer declared)
  · intro member
    rcases List.mem_append.mp member with signature | declared
    · exact List.mem_append_left _ (trims.params.symm ▸ signature)
    · rcases List.mem_append.mp (within declared) with declared | unused
      · exact List.mem_append_right _ declared
      · exact names x unused

theorem check (trims : f.Trims dead f') (passed : f.check = .ok ()) : f'.check = .ok () := by
  have fewer := trims.body.nodes (cut_assigned _)
  simp only [← assignmentsAll_nodes, ← Block.assignments_eq] at fewer
  rw [check_ok_of_assignments] at passed ⊢
  intro a member
  exact (trims.locals a.1).mpr (passed a (fewer member))

theorem recast (trims : f.Trims dead f') (passed : f.check = .ok ()) :
    f.Recast (Cut dead) FunctionDef.Accords f' :=
  ⟨trims.name, trims.params, trims.global, trims.body,
    (trims.check passed).trans passed.symm, trims.locals⟩

end FunctionDef.Trims

namespace Reference

/-- A return goes on nowhere. -/
theorem evalInstrs_cut (enter : Enter) (global : ObjectId) {dead es es' : List Expr}
    (cut : Cut dead es es') : evalInstrs enter global es' = evalInstrs enter global es := by
  obtain ⟨value, line⟩ := cut
  have leaves : ∀ rest : Value → Eval Unit, evalExpr enter global (.ret value line) >>= rest =
      evalExpr enter global value >>= fun v => Eval.leave v := by
    intro rest
    rw [evalExpr, Eval.bind_assoc]
    rfl
  exact (leaves _).trans (leaves _).symm

theorem cut_exchangeable (dead : List Expr) :
    Exchangeable (FunctionDef.Recast (Cut dead) FunctionDef.Accords) :=
  recast_exchangeable FunctionDef.Accords.refl (fun recast => recast.allowed)
    fun enter global _ _ => evalInstrs_cut enter global

end Reference

/-- A function that compiles does so without instructions that stand behind a return and declare no name
that is not local without them, and nothing that a host asks for from then on ends with another answer,
heap or output. -/
theorem code_after_return_is_dead {dead : List Expr} {f f' : FunctionDef} {cacheDepth : Nat}
    {u : CompiledUnit} (compiles : f.compile cacheDepth = .ok u) (trims : f.Trims dead f') :
    (∃ u', f'.compile cacheDepth = .ok u') ∧
    ∀ (m m₁ : Machine) (id : ObjectId), m.Reachable → m.compile f = .ok (id, m₁) →
      ∃ m₁', m.compile f' = .ok (id, m₁') ∧
        ∀ requests, effects (session requests m₁) = effects (session requests m₁') := by
  have passed := FunctionDef.check_of_compile compiles
  refine ⟨FunctionDef.compile_of_check_ok (trims.check passed) cacheDepth, ?_⟩
  intro m m₁ id reachable done
  obtain ⟨m₁', done', alike⟩ :=
    Reference.served_alike (Reference.cut_exchangeable dead) reachable (trims.recast passed) done
  exact ⟨m₁', done', fun requests => alike _ _ (sessionsLike_refl _ requests)⟩

/-- A declaration and a call behind a return in a block in an arm. -/
def deadDeclaration : List Expr :=
  [.assign "x" (.literal (.int 2) 4) true 4, .call (.var "print" 5) [.var "x" 5] 5]

/-- A function that ends a block in an arm with `rest`. -/
def returnsFromBlock (rest : List Expr) : FunctionDef where
  name := some "leave"
  params := ["c"]
  body := .mk [
    .cond (.var "c" 1)
      (.mk [.block (.mk (.assign "x" (.literal (.int 1) 2) true 2 :: .ret (.var "x" 3) 3 :: rest) 2)] 1)
      (.mk [] 6) 1,
    .call (.var "x" 7) [] 7] 1
  global := Machine.global

theorem code_after_return_is_dead_in_arm :
    (∃ u, (returnsFromBlock deadDeclaration).compile 1 = .ok u) ∧
      (returnsFromBlock deadDeclaration).Trims deadDeclaration (returnsFromBlock []) ∧
      ∃ id m m',
        (Machine.boot 1 .accepting).compile (returnsFromBlock deadDeclaration) = .ok (id, m) ∧
        (Machine.boot 1 .accepting).compile (returnsFromBlock []) = .ok (id, m') ∧
        ∀ (depth : Nat) (receiver : Value) (args : List Value),
          effects (session [(depth, .invoke id receiver args)] m) =
            effects (session [(depth, .invoke id receiver args)] m') := by
  have trims : (returnsFromBlock deadDeclaration).Trims deadDeclaration (returnsFromBlock []) := by
    refine ⟨rfl, rfl, rfl, ?_, by decide⟩
    have block := recast_cut FunctionDef.Accords.refl [.assign "x" (.literal (.int 1) 2) true 2]
      deadDeclaration (.var "x" 3) 3
    exact .cons (.cond .var (.cons (.block block) .nil) .nil)
      (recastInstrs_refl FunctionDef.Accords.refl _)
  obtain ⟨u, compiles⟩ :=
    FunctionDef.compile_of_check_ok (f := returnsFromBlock deadDeclaration) rfl 1
  obtain ⟨id, m, done⟩ :=
    ((Machine.boot 1 .accepting).compile_ok_iff (returnsFromBlock deadDeclaration)).mpr rfl
  obtain ⟨-, runs⟩ := code_after_return_is_dead compiles trims
  obtain ⟨m', done', ends⟩ := runs _ m id (.boot 1 .accepting) done
  exact ⟨⟨u, compiles⟩, trims, id, m, m', done, done', fun depth receiver args => ends _⟩

end ScriptEngine
