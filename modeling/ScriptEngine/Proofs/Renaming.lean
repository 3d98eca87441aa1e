import Mathlib.Data.List.Find
import ScriptEngine.Proofs.Declarations
import ScriptEngine.Proofs.Recast

/-!
# Names of locals

The parameters and the declared names of a function can be given other names, all at once, as long as
different names stay different, none becomes the receiver and none becomes a free name of the function.
Nested functions are left as they are, with their names, which are names of globals, and with the names
inside them, which never mean a local of the function around them. The function is compiled or refused as
before and does what it did.
-/

namespace ScriptEngine

mutual

/-- The tree with `σ x` for every name `x` that it reads or assigns. Nested functions, fields and methods
keep their names. -/
def Expr.rename (σ : String → String) : Expr → Expr
  | .block body => .block (body.rename σ)
  | .literal value line => .literal value line
  | .call callee args line => .call (callee.rename σ) (renameAll σ args) line
  | .var name line => .var (σ name) line
  | .assign name value declares line => .assign (σ name) (value.rename σ) declares line
  | .function name params body line => .function name params body line
  | .ret value line => .ret (value.rename σ) line
  | .cond condition yes no line =>
      .cond (condition.rename σ) (yes.rename σ) (no.rename σ) line
  | .object entries line => .object (renameEntries σ entries) line
  | .field receiver name line => .field (receiver.rename σ) name line
  | .setField receiver name value line => .setField (receiver.rename σ) name (value.rename σ) line
  | .method receiver name args line => .method (receiver.rename σ) name (renameAll σ args) line

def Block.rename (σ : String → String) : Block → Block
  | .mk instrs line => .mk (renameAll σ instrs) line

def renameAll (σ : String → String) : List Expr → List Expr
  | [] => []
  | e :: es => e.rename σ :: renameAll σ es

def renameEntries (σ : String → String) : List (String × Expr) → List (String × Expr)
  | [] => []
  | (key, e) :: es => (key, e.rename σ) :: renameEntries σ es

end

section
variable {σ : String → String}

mutual

theorem Expr.rename_fixed (fixed : ∀ x, σ x = x) : (e : Expr) → e.rename σ = e
  | .block body => by rw [Expr.rename, body.rename_fixed fixed]
  | .literal _ _ | .function _ _ _ _ => rfl
  | .call callee args _ => by rw [Expr.rename, callee.rename_fixed fixed, renameAll_fixed fixed args]
  | .var name _ => by rw [Expr.rename, fixed]
  | .assign name value _ _ => by rw [Expr.rename, fixed, value.rename_fixed fixed]
  | .ret value _ => by rw [Expr.rename, value.rename_fixed fixed]
  | .cond condition yes no _ => by
    rw [Expr.rename, condition.rename_fixed fixed, yes.rename_fixed fixed, no.rename_fixed fixed]
  | .object entries _ => by rw [Expr.rename, renameEntries_fixed fixed entries]
  | .field receiver _ _ => by rw [Expr.rename, receiver.rename_fixed fixed]
  | .setField receiver _ value _ => by
    rw [Expr.rename, receiver.rename_fixed fixed, value.rename_fixed fixed]
  | .method receiver _ args _ => by rw [Expr.rename, receiver.rename_fixed fixed, renameAll_fixed fixed args]

theorem Block.rename_fixed (fixed : ∀ x, σ x = x) : (b : Block) → b.rename σ = b
  | .mk instrs _ => by rw [Block.rename, renameAll_fixed fixed instrs]

theorem renameAll_fixed (fixed : ∀ x, σ x = x) : (es : List Expr) → renameAll σ es = es
  | [] => rfl
  | e :: es => by rw [renameAll, e.rename_fixed fixed, renameAll_fixed fixed es]

theorem renameEntries_fixed (fixed : ∀ x, σ x = x) : (es : List (String × Expr)) → renameEntries σ es = es
  | [] => rfl
  | (_, e) :: es => by rw [renameEntries, e.rename_fixed fixed, renameEntries_fixed fixed es]

end

mutual

theorem Expr.declared_rename : (e : Expr) → (e.rename σ).declared = e.declared.map σ
  | .block body => body.declared_rename
  | .assign _ _ true _ | .assign _ _ false _ => rfl
  | .cond _ yes no _ => by
    simp only [Expr.rename, Expr.declared, yes.declared_rename, no.declared_rename, List.map_append]
  | .literal _ _ | .call _ _ _ | .var _ _ | .function _ _ _ _ | .ret _ _ | .object _ _
  | .field _ _ _ | .setField _ _ _ _ | .method _ _ _ _ => rfl

theorem Block.declared_rename : (b : Block) → (b.rename σ).declared = b.declared.map σ
  | .mk instrs _ => declaredAll_rename instrs

theorem declaredAll_rename : (es : List Expr) →
    declaredAll (renameAll σ es) = (declaredAll es).map σ
  | [] => rfl
  | e :: es => by
    simp only [renameAll, declaredAll, e.declared_rename, declaredAll_rename es, List.map_append]

end

/-- An assignment to another name, at the same line. -/
def renameAssignment (σ : String → String) (a : String × UInt32) : String × UInt32 := (σ a.1, a.2)

mutual

theorem Expr.assignments_rename : (e : Expr) →
    (e.rename σ).assignments = e.assignments.map (renameAssignment σ)
  | .block body => body.assignments_rename
  | .literal _ _ | .var _ _ | .function _ _ _ _ => rfl
  | .call callee args _ => by
    simp only [Expr.rename, Expr.assignments, callee.assignments_rename, assignmentsAll_rename args,
      List.map_append]
  | .assign _ value _ _ => by
    simp only [Expr.rename, Expr.assignments, value.assignments_rename, List.map_append]
    rfl
  | .ret value _ => value.assignments_rename
  | .cond condition yes no _ => by
    simp only [Expr.rename, Expr.assignments, condition.assignments_rename, yes.assignments_rename,
      no.assignments_rename, List.map_append]
  | .object entries _ => assignmentsEntries_rename entries
  | .field receiver _ _ => receiver.assignments_rename
  | .setField receiver _ value _ => by
    simp only [Expr.rename, Expr.assignments, receiver.assignments_rename, value.assignments_rename,
      List.map_append]
  | .method receiver _ args _ => by
    simp only [Expr.rename, Expr.assignments, receiver.assignments_rename, assignmentsAll_rename args,
      List.map_append]

theorem Block.assignments_rename : (b : Block) →
    (b.rename σ).assignments = b.assignments.map (renameAssignment σ)
  | .mk instrs _ => assignmentsAll_rename instrs

theorem assignmentsAll_rename : (es : List Expr) →
    assignmentsAll (renameAll σ es) = (assignmentsAll es).map (renameAssignment σ)
  | [] => rfl
  | e :: es => by
    simp only [renameAll, assignmentsAll, e.assignments_rename, assignmentsAll_rename es,
      List.map_append]

theorem assignmentsEntries_rename : (es : List (String × Expr)) →
    assignmentsEntries (renameEntries σ es) = (assignmentsEntries es).map (renameAssignment σ)
  | [] => rfl
  | (_, e) :: es => by
    simp only [renameEntries, assignmentsEntries, e.assignments_rename,
      assignmentsEntries_rename es, List.map_append]

end

end

/-- The name that is read or assigned here. -/
def Node.name? : Node → Option String
  | .expr (.var x _) | .expr (.assign x _ _ _) => some x
  | _ => none

namespace FunctionDef

/-- The name has a slot in the table of the function and is not the receiver. -/
def Names (f : FunctionDef) (x : String) : Prop :=
  x ∈ (Scope.resolve f.params f.body).names ∧ x ≠ receiverName

instance (f : FunctionDef) (x : String) : Decidable (f.Names x) :=
  inferInstanceAs (Decidable (_ ∧ _))

/-- The names that the body reads or assigns, nested functions left out. -/
def mentioned (f : FunctionDef) : List String := f.nodes.filterMap Node.name?

/-- A name of the function is replaced, any other name stays. -/
def newName (f : FunctionDef) (ρ : String → String) (x : String) : String :=
  if f.Names x then ρ x else x

/-- The function with other names for its parameters and declared names. -/
def renamed (f : FunctionDef) (ρ : String → String) : FunctionDef :=
  { f with params := f.params.map (f.newName ρ), body := f.body.rename (f.newName ρ) }

/-- What is asked of new names. Those that occur nowhere in the function are fresh, and so is one that
occurs as a name to be replaced itself. -/
structure Renaming (f : FunctionDef) (ρ : String → String) : Prop where
  injective : ∀ x y, f.Names x → f.Names y → ρ x = ρ y → x = y
  receiver : ∀ x, f.Names x → ρ x ≠ receiverName
  fresh : ∀ x, f.Names x → ρ x ∈ f.mentioned → f.Names (ρ x)

/-- The function `f'` is `f` with other names for its locals. -/
def Renames (f f' : FunctionDef) : Prop := ∃ ρ, f.Renaming ρ ∧ f' = f.renamed ρ

theorem names_iff (f : FunctionDef) (x : String) :
    f.Names x ↔ x ∈ f.locals ∧ x ≠ receiverName := by
  rw [Names, Scope.mem_resolve]
  rfl

theorem newName_receiver (f : FunctionDef) (ρ : String → String) :
    f.newName ρ receiverName = receiverName :=
  if_neg fun names => names.2 rfl

theorem newName_free {f : FunctionDef} {x : String} (free : x ∉ f.locals) (ρ : String → String) :
    f.newName ρ x = x :=
  if_neg fun names => free ((f.names_iff x).mp names).1

theorem renames_refl (f : FunctionDef) : f.Renames f := by
  have fixed : ∀ x, f.newName id x = x := by
    intro x
    by_cases names : f.Names x
    · exact if_pos names
    · exact if_neg names
  refine ⟨id, ⟨fun _ _ _ _ => id, fun _ names => names.2, fun _ names _ => names⟩, ?_⟩
  have params : f.params.map (f.newName id) = f.params := by
    rw [funext fixed]
    exact List.map_id _
  rw [renamed, params, f.body.rename_fixed fixed]

theorem locals_renamed (f : FunctionDef) (ρ : String → String) :
    (f.renamed ρ).locals = f.locals.map (f.newName ρ) := by
  simp only [locals, renamed, Block.declared_rename, List.map_append, List.map_cons,
    newName_receiver]

/-- A name that matters to the function: it is local, or it is read or assigned. -/
def Uses (f : FunctionDef) (x : String) : Prop := x ∈ f.locals ∨ x ∈ f.mentioned

namespace Renaming

variable {f : FunctionDef} {ρ : String → String}

/-- A name that is kept is nobody's new name. -/
theorem apart (allowed : f.Renaming ρ) {x y : String} (names : f.Names x) (kept : ¬ f.Names y)
    (used : f.Uses y) : ρ x ≠ y := by
  rintro rfl
  rcases used with bound | mentioned
  · exact kept ((f.names_iff _).mpr ⟨bound, allowed.receiver x names⟩)
  · exact kept (allowed.fresh x names mentioned)

/-- Different names stay different. -/
theorem newName_inj (allowed : f.Renaming ρ) {x y : String} (first : f.Uses x) (second : f.Uses y)
    (same : f.newName ρ x = f.newName ρ y) : x = y := by
  unfold newName at same
  by_cases left : f.Names x
  · by_cases right : f.Names y
    · rw [if_pos left, if_pos right] at same
      exact allowed.injective x y left right same
    · rw [if_pos left, if_neg right] at same
      exact absurd same (allowed.apart left right second)
  · by_cases right : f.Names y
    · rw [if_neg left, if_pos right] at same
      exact absurd same.symm (allowed.apart right left first)
    · rw [if_neg left, if_neg right] at same
      exact same

theorem mem_locals (allowed : f.Renaming ρ) {x : String} (used : f.Uses x) :
    f.newName ρ x ∈ (f.renamed ρ).locals ↔ x ∈ f.locals := by
  rw [locals_renamed, List.mem_map]
  constructor
  · rintro ⟨y, bound, same⟩
    exact allowed.newName_inj (Or.inl bound) used same ▸ bound
  · intro bound
    exact ⟨x, bound, rfl⟩

theorem uses_assigned {a : String × UInt32} (assigned : a ∈ f.body.assignments) : f.Uses a.1 := by
  rw [Block.assignments_nodes] at assigned
  obtain ⟨n, member, here⟩ := List.mem_flatMap.mp assigned
  refine Or.inr (List.mem_filterMap.mpr ⟨n, member, ?_⟩)
  unfold Node.assigned at here
  split at here
  · rw [List.mem_singleton.mp here]
    rfl
  · cases here

/-- Renaming keeps the first assignment to a name that is not local, and such a name. -/
theorem check_eq (allowed : f.Renaming ρ) : (f.renamed ρ).check = f.check := by
  have assignments : (f.renamed ρ).body.assignments =
      f.body.assignments.map (renameAssignment (f.newName ρ)) := Block.assignments_rename f.body
  have offends : ∀ a ∈ f.body.assignments,
      decide ((renameAssignment (f.newName ρ) a).1 ∉ (f.renamed ρ).locals) =
        decide (a.1 ∉ f.locals) := by
    intro a assigned
    simp only [renameAssignment, allowed.mem_locals (uses_assigned assigned)]
  have found : (f.renamed ρ).body.assignments.find? (fun a => a.1 ∉ (f.renamed ρ).locals) =
      (f.body.assignments.find? fun a => a.1 ∉ f.locals).map (renameAssignment (f.newName ρ)) := by
    rw [assignments, List.find?_map]
    congr 1
    exact List.find?_congr offends
  rw [check, check, found]
  cases first : f.body.assignments.find? fun a => a.1 ∉ f.locals with
  | none => rfl
  | some a =>
    have free : a.1 ∉ f.locals := by simpa using List.find?_some first
    simp only [Option.map_some, renameAssignment, newName_free free]

end Renaming

end FunctionDef

namespace Reference

/-- The same values, held under the old names and under the new ones. -/
structure Env.Renamed (f : FunctionDef) (ρ : String → String) (env env' : Env) : Prop where
  same : ∀ x, f.Uses x → env' (f.newName ρ x) = env x
  bound : ∀ x ∈ f.locals, env x ≠ none

namespace Env.Renamed

variable {f : FunctionDef} {ρ : String → String} {env env' : Env}

theorem declare (allowed : f.Renaming ρ) :
    Renamed f ρ (Env.declare f.locals) (Env.declare (f.renamed ρ).locals) := by
  constructor
  · intro x used
    simp only [Env.declare, allowed.mem_locals used]
  · intro x bound
    simp [Env.declare, bound]

theorem set (allowed : f.Renaming ρ) (related : Renamed f ρ env env') {x : String} (used : f.Uses x)
    (v : Value) : Renamed f ρ (env.set x v) (env'.set (f.newName ρ x) v) := by
  constructor
  · intro y used'
    by_cases here : y = x
    · subst here
      simp [Env.set]
    · have other : f.newName ρ y ≠ f.newName ρ x := fun same =>
        here (allowed.newName_inj used' used same)
      simp only [Env.set, if_neg here, if_neg other]
      exact related.same y used'
  · intro y bound
    by_cases here : y = x
    · simp [Env.set, here]
    · simp only [Env.set, if_neg here]
      exact related.bound y bound

theorem bindAll (allowed : f.Renaming ρ) (names : List String) (used : ∀ x ∈ names, f.Uses x)
    (values : List Value) (related : Renamed f ρ env env') :
    Renamed f ρ (env.bindAll (names.zip values))
      (env'.bindAll ((names.map (f.newName ρ)).zip values)) := by
  induction names generalizing values env env' with
  | nil => exact related
  | cons x names ih =>
    cases values with
    | nil => exact related
    | cons v values =>
      have first := related.set allowed (used x List.mem_cons_self) v
      exact ih (fun y member => used y (List.mem_cons_of_mem x member)) values first

/-- Receiver and arguments are bound to the new names of what they were bound to. -/
theorem initial (allowed : f.Renaming ρ) (receiver : Value) (args : List Value) :
    Renamed f ρ (f.initialEnv receiver args) ((f.renamed ρ).initialEnv receiver args) := by
  have used : ∀ x ∈ receiverName :: f.params, f.Uses x := fun x member =>
    Or.inl (List.mem_append_left _ member)
  have bound := (declare allowed).bindAll allowed _ used (receiver :: args)
  rw [List.map_cons, FunctionDef.newName_receiver] at bound
  exact bound

end Env.Renamed

/-- Every name that is read or assigned at the nodes satisfies `P`. -/
def Covered (P : String → Prop) (ns : List Node) : Prop :=
  ∀ n ∈ ns, ∀ x, n.name? = some x → P x

theorem covered_append {P : String → Prop} {ns ns' : List Node} :
    Covered P (ns ++ ns') ↔ Covered P ns ∧ Covered P ns' :=
  List.forall_mem_append

/-- Names that satisfy `P` are read and written alike under their old and their new names, a name that is
not bound is kept, a literal makes like functions, and functions are entered alike. -/
structure RenamedSame (R : FunctionDef → FunctionDef → Prop) (S : Env → Env → Prop)
    (σ : String → String) (P : String → Prop) (enter enter' : Enter) : Prop where
  literals {w w' : World} (f : FunctionDef) : w.Like R w' →
    SameEnd R (some (w.makeFunction f)) (some (w'.makeFunction f))
  reads (x : String) : P x → ∀ {env env' : Env}, S env env' →
    env' (σ x) = env x ∧ (env x = none → σ x = x)
  writes (x : String) : P x → ∀ {env env' : Env} (v : Value), S env env' →
    S (env.set x v) (env'.set (σ x) v)
  enters : SameEnter R enter enter'

section
variable {R : FunctionDef → FunctionDef → Prop} {S : Env → Env → Prop} {σ : String → String}
  {P : String → Prop} {enter enter' : Enter} {global : ObjectId}

mutual

theorem evalExpr_rename (same : RenamedSame R S σ P enter enter') : (e : Expr) → Covered P e.nodes →
    SameEval R S (evalExpr enter global e) (evalExpr enter' global (e.rename σ))
  | .block body, covered => block_same (evalBlock_rename same body (covered_append.mp covered).1)
  | .literal value _, _ => literal_same value
  | .call callee args _, covered => by
    obtain ⟨head, rest⟩ := covered_append.mp covered
    exact call_same same.enters (evalExpr_rename same callee head)
      (evalArgs_rename same args (covered_append.mp rest).1)
  | .var x _, covered => sameEval_read global (same.reads x (covered _ List.mem_cons_self x rfl))
  | .assign x value _ _, covered => by
    obtain ⟨inner, here⟩ := covered_append.mp covered
    exact assign_same (same.writes x (here _ List.mem_cons_self x rfl)) (evalExpr_rename same value inner)
  | .function _ _ _ _, _ => function_same fun like => same.literals _ like
  | .ret value _, covered => ret_same (evalExpr_rename same value (covered_append.mp covered).1)
  | .cond condition yes no _, covered => by
    obtain ⟨head, rest⟩ := covered_append.mp covered
    obtain ⟨left, rest⟩ := covered_append.mp rest
    exact cond_same (evalExpr_rename same condition head) (evalBlock_rename same yes left)
      (evalBlock_rename same no (covered_append.mp rest).1)
  | .object entries _, covered =>
    object_same fun object => evalEntries_rename same object entries (covered_append.mp covered).1
  | .field receiver name _, covered =>
    field_same name (evalExpr_rename same receiver (covered_append.mp covered).1)
  | .setField receiver name value _, covered => by
    obtain ⟨head, rest⟩ := covered_append.mp covered
    exact setField_same name (evalExpr_rename same receiver head)
      (evalExpr_rename same value (covered_append.mp rest).1)
  | .method receiver name args _, covered => by
    obtain ⟨head, rest⟩ := covered_append.mp covered
    exact method_same same.enters name (evalExpr_rename same receiver head)
      (evalArgs_rename same args (covered_append.mp rest).1)

theorem evalBlock_rename (same : RenamedSame R S σ P enter enter') : (b : Block) → Covered P b.nodes →
    SameEval R S (evalBlock enter global b) (evalBlock enter' global (b.rename σ))
  | .mk instrs _, covered => evalInstrs_rename same instrs covered

theorem evalInstrs_rename (same : RenamedSame R S σ P enter enter') :
    (es : List Expr) → Covered P (nodesAll es) →
    SameEval R S (evalInstrs enter global es) (evalInstrs enter' global (renameAll σ es))
  | [], _ => sameEval_pure ()
  | e :: es, covered => by
    obtain ⟨head, tail⟩ := covered_append.mp covered
    exact instrs_same (evalExpr_rename same e head) (evalInstrs_rename same es tail)

theorem evalArgs_rename (same : RenamedSame R S σ P enter enter') :
    (es : List Expr) → Covered P (nodesAll es) →
    SameEval R S (evalArgs enter global es) (evalArgs enter' global (renameAll σ es))
  | [], _ => sameEval_pure []
  | e :: es, covered => by
    obtain ⟨head, tail⟩ := covered_append.mp covered
    exact args_same (evalExpr_rename same e head) (evalArgs_rename same es tail)

theorem evalEntries_rename (same : RenamedSame R S σ P enter enter') (object : Value) :
    (es : List (String × Expr)) → Covered P (nodesEntries es) →
    SameEval R S (evalEntries enter global object es)
      (evalEntries enter' global object (renameEntries σ es))
  | [], _ => sameEval_pure ()
  | (key, e) :: es, covered => by
    obtain ⟨head, rest⟩ := covered_append.mp covered
    have tail : Covered P (nodesEntries es) := fun n member => rest n (List.mem_cons_of_mem _ member)
    exact entries_same object key (evalExpr_rename same e head) (evalEntries_rename same object es tail)

end

end

/-- Functions may be exchanged for renamed ones. -/
theorem renames_exchangeable : Exchangeable FunctionDef.Renames := by
  have interface : SameInterface FunctionDef.Renames := by
    refine ⟨?_, ?_, ?_⟩
    · rintro f _ ⟨ρ, -, rfl⟩
      rfl
    · rintro f _ ⟨ρ, -, rfl⟩
      exact List.length_map _
    · rintro f _ ⟨ρ, allowed, rfl⟩
      exact allowed.check_eq
  refine ⟨interface, FunctionDef.renames_refl, ?_⟩
  rintro f _ enter enter' ⟨ρ, allowed, rfl⟩ enters receiver args w w' like
  have covered : Covered f.Uses f.body.nodes := fun n member x name =>
    Or.inr (List.mem_filterMap.mpr ⟨n, member, name⟩)
  have reads : ∀ x, f.Uses x → ∀ {env env' : Env}, Env.Renamed f ρ env env' →
      env' (f.newName ρ x) = env x ∧ (env x = none → f.newName ρ x = x) := by
    intro x used env env' related
    refine ⟨related.same x used, fun unbound => ?_⟩
    exact FunctionDef.newName_free (fun bound => related.bound x bound unbound) ρ
  have same : RenamedSame FunctionDef.Renames (Env.Renamed f ρ) (f.newName ρ) f.Uses enter enter' :=
    ⟨fun g like => like.makeFunction interface (FunctionDef.renames_refl g), reads,
      fun x used _ _ v related => related.set allowed used v, enters⟩
  have evaluated : SameEval FunctionDef.Renames (Env.Renamed f ρ) (evalBlock enter f.global f.body)
      (evalBlock enter' f.global (f.body.rename (f.newName ρ))) :=
    evalBlock_rename same f.body covered
  have kept : w'.kept.size = w.kept.size := by
    obtain ⟨functions, rfl, -⟩ := like
    rfl
  simp only [runBody, kept]
  exact (evaluated (Env.Renamed.initial allowed receiver args) like).endInvocation _

end Reference

/-- If the names in the table of a function, the receiver apart, get different new names, none of them that of
a global which the function reads, then the renamed function compiles if the function does, and nothing
that a host asks for from then on ends with another answer, heap or output. -/
theorem local_names_do_not_matter {f : FunctionDef} {ρ : String → String} (allowed : f.Renaming ρ) :
    (∀ cacheDepth u, f.compile cacheDepth = .ok u →
      ∃ u', (f.renamed ρ).compile cacheDepth = .ok u') ∧
    (∀ cacheDepth e, (f.renamed ρ).compile cacheDepth = .error e ↔ f.compile cacheDepth = .error e) ∧
    ∀ (m m₁ : Machine) (id : ObjectId), m.Reachable → m.compile f = .ok (id, m₁) →
      ∃ m₁', m.compile (f.renamed ρ) = .ok (id, m₁') ∧
        ∀ requests requests', SessionsLike FunctionDef.Renames requests requests' →
          effects (session requests m₁) = effects (session requests' m₁') := by
  refine ⟨?_, ?_, ?_⟩
  · intro cacheDepth u compiles
    have passed := FunctionDef.check_of_compile compiles
    exact FunctionDef.compile_of_check_ok (allowed.check_eq.trans passed) cacheDepth
  · intro cacheDepth e
    rw [FunctionDef.compile_error_iff, FunctionDef.compile_error_iff, allowed.check_eq]
  · intro m m₁ id reachable
    exact Reference.served_alike Reference.renames_exchangeable reachable ⟨ρ, allowed, rfl⟩

/-- A local `x` beside a literal with the name `x` and a field `x`; the body of the literal means the
global. -/
def sharesName : FunctionDef where
  name := some "share"
  params := ["c"]
  body := .mk [
    .assign "x" (.var "c" 1) true 1,
    .function (some "x") ["c"] (.mk [.ret (.var "x" 3) 3] 2) 2,
    .cond (.var "this" 4)
      (.mk [.ret (.object [("x", .var "x" 5)] 5) 5] 4)
      (.mk [.ret (.call (.var "print" 6) [.var "x" 6] 6) 6] 6) 4] 1
  global := Machine.global

theorem local_names_do_not_matter_shared :
    let new (x : String) := "_" ++ x
    sharesName.Renaming new ∧ (sharesName.renamed new).params = ["_c"] ∧
      ∃ id m m', (Machine.boot 1 .accepting).compile sharesName = .ok (id, m) ∧
        (Machine.boot 1 .accepting).compile (sharesName.renamed new) = .ok (id, m') ∧
        ∀ (depth : Nat) (receiver : Value) (args : List Value),
          effects (session [(depth, .invoke id receiver args)] m) =
            effects (session [(depth, .invoke id receiver args)] m') := by
  intro new
  have names : ∀ x, sharesName.Names x → x ∈ ["c", "x"] := by
    rintro x ⟨bound, other⟩
    have table : (Scope.resolve sharesName.params sharesName.body).names = ["this", "c", "x"] := by
      decide
    rw [table] at bound
    exact (List.mem_cons.mp bound).resolve_left other
  have apart : ∀ x ∈ ["c", "x"], new x ≠ receiverName ∧ new x ∉ sharesName.mentioned ∧
      ∀ y ∈ ["c", "x"], new x = new y → x = y := by
    decide
  have allowed : sharesName.Renaming new := by
    refine ⟨?_, ?_, ?_⟩
    · intro x y first second
      exact (apart x (names x first)).2.2 y (names y second)
    · intro x name
      exact (apart x (names x name)).1
    · intro x name mentioned
      exact absurd mentioned (apart x (names x name)).2.1
  obtain ⟨id, m, done⟩ := ((Machine.boot 1 .accepting).compile_ok_iff sharesName).mpr rfl
  obtain ⟨-, -, runs⟩ := local_names_do_not_matter allowed
  obtain ⟨m', done', same⟩ := runs _ m id (.boot 1 .accepting) done
  exact ⟨allowed, by decide, id, m, m', done, done', fun depth receiver args =>
    same _ _ (sessionsLike_refl _ _)⟩

end ScriptEngine
