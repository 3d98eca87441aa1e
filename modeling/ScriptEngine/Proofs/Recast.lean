import ScriptEngine.Proofs.Exchange
import ScriptEngine.Proofs.Numbering

/-!
# Recasting instructions

A rule that exchanges lists of instructions is carried to whole bodies: wherever instructions stand in a
body, at the end of a list or all along it, the rule may be used, any number of times. If the rule never
changes what a list of instructions does, then a body and what it is recast to do the same, and so do
functions with these bodies.
-/

namespace ScriptEngine

section
variable (rule : List Expr → List Expr → Prop) (ok : FunctionDef → FunctionDef → Prop)

mutual

/-- A node whose instructions are exchanged by `rule`, inside nested functions only where `ok` allows
it. -/
inductive Expr.Recast : Expr → Expr → Prop
  | block {instrs instrs' : List Expr} {line : UInt32} (body : RecastInstrs instrs instrs') :
      Expr.Recast (.block (.mk instrs line)) (.block (.mk instrs' line))
  | literal {value : Literal} {line : UInt32} : Expr.Recast (.literal value line) (.literal value line)
  | call {callee callee' : Expr} {args args' : List Expr} {line : UInt32}
      (head : Expr.Recast callee callee') (tail : RecastArgs args args') :
      Expr.Recast (.call callee args line) (.call callee' args' line)
  | var {name : String} {line : UInt32} : Expr.Recast (.var name line) (.var name line)
  | assign {name : String} {value value' : Expr} {declares : Bool} {line : UInt32}
      (inner : Expr.Recast value value') :
      Expr.Recast (.assign name value declares line) (.assign name value' declares line)
  | function {name : Option String} {params : List String} {instrs instrs' : List Expr}
      {start line : UInt32} (body : RecastInstrs instrs instrs')
      (allowed : ∀ global, ok { name, params, body := .mk instrs start, global }
        { name, params, body := .mk instrs' start, global }) :
      Expr.Recast (.function name params (.mk instrs start) line)
        (.function name params (.mk instrs' start) line)
  | ret {value value' : Expr} {line : UInt32} (inner : Expr.Recast value value') :
      Expr.Recast (.ret value line) (.ret value' line)
  | cond {condition condition' : Expr} {yes yes' no no' : List Expr} {first second line : UInt32}
      (head : Expr.Recast condition condition') (left : RecastInstrs yes yes')
      (right : RecastInstrs no no') :
      Expr.Recast (.cond condition (.mk yes first) (.mk no second) line)
        (.cond condition' (.mk yes' first) (.mk no' second) line)
  | object {entries entries' : List (String × Expr)} {line : UInt32}
      (inner : RecastEntries entries entries') :
      Expr.Recast (.object entries line) (.object entries' line)
  | field {receiver receiver' : Expr} {name : String} {line : UInt32}
      (inner : Expr.Recast receiver receiver') :
      Expr.Recast (.field receiver name line) (.field receiver' name line)
  | setField {receiver receiver' : Expr} {name : String} {value value' : Expr} {line : UInt32}
      (head : Expr.Recast receiver receiver') (inner : Expr.Recast value value') :
      Expr.Recast (.setField receiver name value line) (.setField receiver' name value' line)
  | method {receiver receiver' : Expr} {name : String} {args args' : List Expr} {line : UInt32}
      (head : Expr.Recast receiver receiver') (tail : RecastArgs args args') :
      Expr.Recast (.method receiver name args line) (.method receiver' name args' line)

inductive RecastInstrs : List Expr → List Expr → Prop
  | nil : RecastInstrs [] []
  | cons {e e' : Expr} {es es' : List Expr} (head : Expr.Recast e e') (tail : RecastInstrs es es') :
      RecastInstrs (e :: es) (e' :: es')
  | step {es es' es'' : List Expr} (before : RecastInstrs es es') (last : rule es' es'') :
      RecastInstrs es es''

inductive RecastArgs : List Expr → List Expr → Prop
  | nil : RecastArgs [] []
  | cons {e e' : Expr} {es es' : List Expr} (head : Expr.Recast e e') (tail : RecastArgs es es') :
      RecastArgs (e :: es) (e' :: es')

inductive RecastEntries : List (String × Expr) → List (String × Expr) → Prop
  | nil : RecastEntries [] []
  | cons {key : String} {e e' : Expr} {es es' : List (String × Expr)} (head : Expr.Recast e e')
      (tail : RecastEntries es es') : RecastEntries ((key, e) :: es) ((key, e') :: es')

end

end

section
variable {rule : List Expr → List Expr → Prop} {ok : FunctionDef → FunctionDef → Prop}

mutual

theorem Expr.recast_refl (allowed : ∀ f, ok f f) : (e : Expr) → Expr.Recast rule ok e e
  | .block (.mk instrs _) => .block (recastInstrs_refl allowed instrs)
  | .literal _ _ => .literal
  | .call callee args _ => .call (callee.recast_refl allowed) (recastArgs_refl allowed args)
  | .var _ _ => .var
  | .assign _ value _ _ => .assign (value.recast_refl allowed)
  | .function _ _ (.mk instrs _) _ => .function (recastInstrs_refl allowed instrs) fun _ => allowed _
  | .ret value _ => .ret (value.recast_refl allowed)
  | .cond condition (.mk yes _) (.mk no _) _ =>
      .cond (condition.recast_refl allowed) (recastInstrs_refl allowed yes)
        (recastInstrs_refl allowed no)
  | .object entries _ => .object (recastEntries_refl allowed entries)
  | .field receiver _ _ => .field (receiver.recast_refl allowed)
  | .setField receiver _ value _ => .setField (receiver.recast_refl allowed) (value.recast_refl allowed)
  | .method receiver _ args _ => .method (receiver.recast_refl allowed) (recastArgs_refl allowed args)

theorem recastInstrs_refl (allowed : ∀ f, ok f f) : (es : List Expr) → RecastInstrs rule ok es es
  | [] => .nil
  | e :: es => .cons (e.recast_refl allowed) (recastInstrs_refl allowed es)

theorem recastArgs_refl (allowed : ∀ f, ok f f) : (es : List Expr) → RecastArgs rule ok es es
  | [] => .nil
  | e :: es => .cons (e.recast_refl allowed) (recastArgs_refl allowed es)

theorem recastEntries_refl (allowed : ∀ f, ok f f) :
    (es : List (String × Expr)) → RecastEntries rule ok es es
  | [] => .nil
  | (_, e) :: es => .cons (e.recast_refl allowed) (recastEntries_refl allowed es)

end

end

/-- A comparison of lists that is made part by part. -/
structure Partwise {β : Type} (Q : List β → List β → Prop) : Prop where
  refl (xs : List β) : Q xs xs
  trans {xs ys zs : List β} : Q xs ys → Q ys zs → Q xs zs
  append {xs xs' ys ys' : List β} : Q xs xs' → Q ys ys' → Q (xs ++ ys) (xs' ++ ys')

theorem partwise_eq (β : Type) : Partwise (@Eq (List β)) where
  refl _ := rfl
  trans := Eq.trans
  append := congrArg₂ (· ++ ·)

theorem partwise_subset (β : Type) : Partwise fun xs ys : List β => xs ⊆ ys where
  refl := List.Subset.refl
  trans := List.Subset.trans
  append left right := List.append_subset.mpr
    ⟨List.subset_append_of_subset_left _ left, List.subset_append_of_subset_right _ right⟩

section
variable {rule : List Expr → List Expr → Prop} {ok : FunctionDef → FunctionDef → Prop}

/-- The names that instructions declare, compared by `Q`, are preserved by the rule. -/
structure DeclaredCompare (rule : List Expr → List Expr → Prop) (Q : List String → List String → Prop) :
    Prop extends Partwise Q where
  used {es es' : List Expr} : rule es es' → Q (declaredAll es') (declaredAll es)

mutual

/-- Only blocks, arms and declarations themselves declare names. -/
theorem Expr.Recast.declared {Q : List String → List String → Prop} (compare : DeclaredCompare rule Q) :
    {e e' : Expr} → e.Recast rule ok e' → Q e'.declared e.declared
  | _, _, .block body => body.declared compare
  | _, _, .cond _ left right => compare.append (left.declared compare) (right.declared compare)
  | .assign _ _ true _, _, .assign _ => compare.refl _
  | .assign _ _ false _, _, .assign _ => compare.refl _
  | _, _, .literal | _, _, .call _ _ | _, _, .var | _, _, .function _ _ | _, _, .ret _
  | _, _, .object _ | _, _, .field _ | _, _, .setField _ _ | _, _, .method _ _ => compare.refl _

theorem RecastInstrs.declared {Q : List String → List String → Prop} (compare : DeclaredCompare rule Q) :
    {es es' : List Expr} → RecastInstrs rule ok es es' → Q (declaredAll es') (declaredAll es)
  | _, _, .nil => compare.refl _
  | _, _, .cons head tail => compare.append (head.declared compare) (tail.declared compare)
  | _, _, .step before last => compare.trans (compare.used last) (before.declared compare)

end

/-- What `g` finds at the nodes of a tree, compared by `Q`, is preserved by recasting. -/
structure NodesCompare {β : Type} (rule : List Expr → List Expr → Prop)
    (ok : FunctionDef → FunctionDef → Prop) (Q : List β → List β → Prop) (g : Node → List β) :
    Prop extends Partwise Q where
  node {e e' : Expr} : e.Recast rule ok e' → Q (g (.expr e')) (g (.expr e))
  used {es es' : List Expr} : rule es es' →
    Q ((nodesAll es').flatMap g) ((nodesAll es).flatMap g)

section
variable {β : Type} {Q : List β → List β → Prop} {g : Node → List β}

mutual

theorem Expr.Recast.nodes (compare : NodesCompare rule ok Q g) :
    {e e' : Expr} → e.Recast rule ok e' →
    Q (e'.nodes.flatMap g) (e.nodes.flatMap g)
  | _, _, .block body => by
    simpa [Expr.nodes, Block.nodes] using
      compare.append (body.nodes compare) (compare.node (.block body))
  | _, _, .literal => compare.refl _
  | _, _, .call head tail => by
    simpa [Expr.nodes] using compare.append (head.nodes compare)
      (compare.append (tail.nodes compare) (compare.node (.call head tail)))
  | _, _, .var => compare.refl _
  | _, _, .assign inner => by
    simpa [Expr.nodes] using compare.append (inner.nodes compare) (compare.node (.assign inner))
  | _, _, .function body allowed => by
    simpa [Expr.nodes] using compare.node (.function body allowed)
  | _, _, .ret inner => by
    simpa [Expr.nodes] using compare.append (inner.nodes compare) (compare.node (.ret inner))
  | _, _, .cond head left right => by
    simpa [Expr.nodes, Block.nodes] using compare.append (head.nodes compare)
      (compare.append (left.nodes compare)
        (compare.append (right.nodes compare) (compare.node (.cond head left right))))
  | _, _, .object inner => by
    simpa [Expr.nodes] using compare.append (inner.nodes compare) (compare.node (.object inner))
  | _, _, .field inner => by
    simpa [Expr.nodes] using compare.append (inner.nodes compare) (compare.node (.field inner))
  | _, _, .setField head inner => by
    simpa [Expr.nodes] using compare.append (head.nodes compare)
      (compare.append (inner.nodes compare) (compare.node (.setField head inner)))
  | _, _, .method head tail => by
    simpa [Expr.nodes] using compare.append (head.nodes compare)
      (compare.append (tail.nodes compare) (compare.node (.method head tail)))

theorem RecastInstrs.nodes (compare : NodesCompare rule ok Q g) :
    {es es' : List Expr} → RecastInstrs rule ok es es' →
    Q ((nodesAll es').flatMap g) ((nodesAll es).flatMap g)
  | _, _, .nil => compare.refl _
  | _, _, .cons head tail => by
    simpa [nodesAll] using compare.append (head.nodes compare) (tail.nodes compare)
  | _, _, .step before last => compare.trans (compare.used last) (before.nodes compare)

theorem RecastArgs.nodes (compare : NodesCompare rule ok Q g) :
    {es es' : List Expr} → RecastArgs rule ok es es' →
    Q ((nodesAll es').flatMap g) ((nodesAll es).flatMap g)
  | _, _, .nil => compare.refl _
  | _, _, .cons head tail => by
    simpa [nodesAll] using compare.append (head.nodes compare) (tail.nodes compare)

theorem RecastEntries.nodes (compare : NodesCompare rule ok Q g) :
    {es es' : List (String × Expr)} → RecastEntries rule ok es es' →
    Q ((nodesEntries es').flatMap g) ((nodesEntries es).flatMap g)
  | _, _, .nil => compare.refl _
  | _, _, .cons head tail => by
    simpa [nodesEntries] using compare.append (head.nodes compare)
      (compare.append (compare.refl _) (tail.nodes compare))

end

end

end

/-- What a node assigns itself. -/
def Node.assigned : Node → List (String × UInt32)
  | .expr (.assign name _ _ line) => [(name, line)]
  | _ => []

mutual

theorem Expr.assignments_nodes : (e : Expr) → e.assignments = e.nodes.flatMap Node.assigned
  | .block body => by simp [Expr.assignments, Expr.nodes, body.assignments_nodes, Node.assigned]
  | .literal _ _ | .var _ _ | .function _ _ _ _ => rfl
  | .call callee args _ => by
    simp [Expr.assignments, Expr.nodes, callee.assignments_nodes, assignmentsAll_nodes args,
      Node.assigned]
  | .assign _ value _ _ => by
    simp [Expr.assignments, Expr.nodes, value.assignments_nodes, Node.assigned]
  | .ret value _ => by simp [Expr.assignments, Expr.nodes, value.assignments_nodes, Node.assigned]
  | .cond condition yes no _ => by
    simp [Expr.assignments, Expr.nodes, condition.assignments_nodes, yes.assignments_nodes,
      no.assignments_nodes, Node.assigned]
  | .object entries _ => by
    simp [Expr.assignments, Expr.nodes, assignmentsEntries_nodes entries, Node.assigned]
  | .field receiver _ _ => by
    simp [Expr.assignments, Expr.nodes, receiver.assignments_nodes, Node.assigned]
  | .setField receiver _ value _ => by
    simp [Expr.assignments, Expr.nodes, receiver.assignments_nodes, value.assignments_nodes,
      Node.assigned]
  | .method receiver _ args _ => by
    simp [Expr.assignments, Expr.nodes, receiver.assignments_nodes, assignmentsAll_nodes args,
      Node.assigned]

theorem Block.assignments_nodes : (b : Block) → b.assignments = b.nodes.flatMap Node.assigned
  | .mk instrs _ => assignmentsAll_nodes instrs

theorem assignmentsAll_nodes : (es : List Expr) →
    assignmentsAll es = (nodesAll es).flatMap Node.assigned
  | [] => rfl
  | e :: es => by simp [assignmentsAll, nodesAll, e.assignments_nodes, assignmentsAll_nodes es]

theorem assignmentsEntries_nodes : (es : List (String × Expr)) →
    assignmentsEntries es = (nodesEntries es).flatMap Node.assigned
  | [] => rfl
  | (_, e) :: es => by
    simp [assignmentsEntries, nodesEntries, e.assignments_nodes, assignmentsEntries_nodes es,
      Node.assigned]

end

theorem FunctionDef.check_ok_of_assignments {f : FunctionDef} :
    f.check = .ok () ↔ ∀ a ∈ f.body.assignments, a.1 ∈ f.locals := by
  rw [FunctionDef.check]
  cases found : f.body.assignments.find? fun a => a.1 ∉ f.locals with
  | none => simpa using found
  | some a =>
    have member := List.mem_of_find?_eq_some found
    have free := List.find?_some found
    simp only [reduceCtorEq, false_iff, not_forall]
    exact ⟨a, member, by simpa using free⟩

/-- A function with a recast body. -/
structure FunctionDef.Recast (rule : List Expr → List Expr → Prop)
    (ok : FunctionDef → FunctionDef → Prop) (f f' : FunctionDef) : Prop where
  name : f'.name = f.name
  params : f'.params = f.params
  global : f'.global = f.global
  body : RecastInstrs rule ok f.body.instrs f'.body.instrs
  allowed : ok f f'

/-- Functions that are compiled or refused alike and have the same local names. -/
structure FunctionDef.Accords (f f' : FunctionDef) : Prop where
  check : f'.check = f.check
  locals : ∀ x, x ∈ f'.locals ↔ x ∈ f.locals

theorem FunctionDef.Accords.refl (f : FunctionDef) : f.Accords f := ⟨rfl, fun _ => Iff.rfl⟩

/-- What an invocation starts with depends on which names are local, not on their order. -/
theorem FunctionDef.Accords.initialEnv {f f' : FunctionDef} (accords : f.Accords f')
    (params : f'.params = f.params) (receiver : Value) (args : List Value) :
    f'.initialEnv receiver args = f.initialEnv receiver args := by
  have declared : Reference.Env.declare f'.locals = Reference.Env.declare f.locals := by
    funext x
    simp only [Reference.Env.declare, accords.locals x]
  simp only [FunctionDef.initialEnv, params, declared]

namespace Reference

theorem Eval.bind_assoc {α β γ : Type} (x : Eval α) (f : α → Eval β) (g : β → Eval γ) :
    x >>= f >>= g = x >>= fun a => f a >>= g := by
  funext env w
  change Eval.bind (Eval.bind x f) g env w = Eval.bind x (fun a => Eval.bind (f a) g) env w
  unfold Eval.bind
  rcases x env w with _ | ⟨_ | _ | _, w⟩ <;> rfl

theorem evalBlock_eq (enter : Enter) (global : ObjectId) (b : Block) :
    evalBlock enter global b = evalInstrs enter global b.instrs := by
  cases b
  rfl

/-- Recast literals make like functions, uses of the rule change nothing on the right, and functions are
entered alike. -/
structure RecastSame (rule : List Expr → List Expr → Prop) (ok R : FunctionDef → FunctionDef → Prop)
    (enter enter' : Enter) (global : ObjectId) : Prop where
  literals {w w' : World} {f f' : FunctionDef} : w.Like R w' → f.Recast rule ok f' →
    SameEnd R (some (w.makeFunction f)) (some (w'.makeFunction f'))
  keeps {es es' : List Expr} : rule es es' → evalInstrs enter' global es' = evalInstrs enter' global es
  enters : SameEnter R enter enter'

section
variable {rule : List Expr → List Expr → Prop} {ok : FunctionDef → FunctionDef → Prop}
  {R : FunctionDef → FunctionDef → Prop} {enter enter' : Enter} {global : ObjectId}

mutual

theorem evalExpr_same (same : RecastSame rule ok R enter enter' global) :
    {e e' : Expr} → Expr.Recast rule ok e e' →
    SameEval R Eq (evalExpr enter global e) (evalExpr enter' global e')
  | _, _, .block body => block_same (evalInstrs_same same body)
  | .literal value _, _, .literal => literal_same value
  | _, _, .call head tail => call_same same.enters (evalExpr_same same head) (evalArgs_same same tail)
  | _, _, .var => sameEval_read global fun envs => ⟨congrFun envs.symm _, fun _ => rfl⟩
  | _, _, .assign inner => assign_same (fun _ envs => envs ▸ rfl) (evalExpr_same same inner)
  | _, _, .function body allowed =>
    function_same fun like => same.literals like ⟨rfl, rfl, rfl, body, allowed global⟩
  | _, _, .ret inner => ret_same (evalExpr_same same inner)
  | _, _, .cond head left right =>
    cond_same (evalExpr_same same head) (evalInstrs_same same left) (evalInstrs_same same right)
  | _, _, .object inner => object_same fun object => evalEntries_same same object inner
  | _, _, .field inner => field_same _ (evalExpr_same same inner)
  | _, _, .setField head inner => setField_same _ (evalExpr_same same head) (evalExpr_same same inner)
  | _, _, .method head tail => method_same same.enters _ (evalExpr_same same head) (evalArgs_same same tail)

/-- A use of the rule changes nothing on the right, so its place in the list does not matter. -/
theorem evalInstrs_same (same : RecastSame rule ok R enter enter' global) :
    {es es' : List Expr} → RecastInstrs rule ok es es' →
    SameEval R Eq (evalInstrs enter global es) (evalInstrs enter' global es')
  | _, _, .nil => sameEval_pure ()
  | _, _, .cons head tail => instrs_same (evalExpr_same same head) (evalInstrs_same same tail)
  | _, _, .step before last => same.keeps last ▸ evalInstrs_same same before

theorem evalArgs_same (same : RecastSame rule ok R enter enter' global) :
    {es es' : List Expr} → RecastArgs rule ok es es' →
    SameEval R Eq (evalArgs enter global es) (evalArgs enter' global es')
  | _, _, .nil => sameEval_pure []
  | _, _, .cons head tail => args_same (evalExpr_same same head) (evalArgs_same same tail)

theorem evalEntries_same (same : RecastSame rule ok R enter enter' global) (object : Value) :
    {es es' : List (String × Expr)} → RecastEntries rule ok es es' →
    SameEval R Eq (evalEntries enter global object es) (evalEntries enter' global object es')
  | _, _, .nil => sameEval_pure ()
  | _, _, .cons head tail =>
    entries_same object _ (evalExpr_same same head) (evalEntries_same same object tail)

end

end

/-- Functions may be exchanged for recast ones. -/
theorem recast_exchangeable {rule : List Expr → List Expr → Prop}
    {ok : FunctionDef → FunctionDef → Prop} (refl : ∀ f, ok f f)
    (accords : ∀ {f f' : FunctionDef}, f.Recast rule ok f' → f.Accords f')
    (keeps : ∀ (enter : Enter) (global : ObjectId) {es es' : List Expr}, rule es es' →
      evalInstrs enter global es' = evalInstrs enter global es) :
    Exchangeable (FunctionDef.Recast rule ok) := by
  have interface : SameInterface (FunctionDef.Recast rule ok) :=
    ⟨fun recast => recast.name, fun recast => congrArg List.length recast.params,
      fun recast => (accords recast).check⟩
  refine ⟨interface, fun f => ⟨rfl, rfl, rfl, recastInstrs_refl refl _, refl f⟩, ?_⟩
  intro f f' enter enter' recast enters receiver args w w' like
  have same : RecastSame rule ok (FunctionDef.Recast rule ok) enter enter' f.global :=
    ⟨fun like => like.makeFunction interface, keeps enter' f.global, enters⟩
  have evaluated := evalInstrs_same same recast.body
    ((accords recast).initialEnv recast.params receiver args).symm like
  have kept : w'.kept.size = w.kept.size := by
    obtain ⟨functions, rfl, -⟩ := like
    rfl
  simp only [runBody, evalBlock_eq, recast.global, kept]
  exact evaluated.endInvocation _

end Reference

end ScriptEngine
