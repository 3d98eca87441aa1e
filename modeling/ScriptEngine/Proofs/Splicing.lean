import ScriptEngine.Proofs.Declarations
import ScriptEngine.Proofs.Recast

/-!
# Blocks among instructions

A block that stands among instructions can be replaced by its own instructions. This may be done for any
of the blocks of a function, at any nesting and in nested functions too. The function keeps its slots, it
is compiled or refused as before, needs as many sites and constants, and does what it did; a return or a
failure inside such a block leaves the instructions behind it out as before.
-/

namespace ScriptEngine

/-- A block at the head of some instructions gives way to its own. -/
inductive Splice : List Expr → List Expr → Prop
  | block (instrs : List Expr) (line : UInt32) (es : List Expr) :
      Splice (.block (.mk instrs line) :: es) (instrs ++ es)

/-- Blocks may be spliced in every nested function. -/
abbrev Everywhere : FunctionDef → FunctionDef → Prop := fun _ _ => True

/-- Some blocks that stand among the instructions of `f`, or of functions nested in it, have been
replaced by their instructions in `f'`. -/
def FunctionDef.Splices : FunctionDef → FunctionDef → Prop :=
  FunctionDef.Recast Splice Everywhere

mutual

/-- An instruction without blocks: what it consists of once every block that is reached from it through
blocks and arms only has been replaced by its instructions. -/
def Expr.spliced : Expr → List Expr
  | .block body => body.spliced
  | .cond condition yes no line =>
      [.cond condition (.mk yes.spliced yes.line) (.mk no.spliced no.line) line]
  | e => [e]

def Block.spliced : Block → List Expr
  | .mk instrs _ => splicedAll instrs

def splicedAll : List Expr → List Expr
  | [] => []
  | e :: es => e.spliced ++ splicedAll es

end

def FunctionDef.spliced (f : FunctionDef) : FunctionDef :=
  { f with body := .mk f.body.spliced f.body.line }

mutual

theorem Expr.recast_spliced (e : Expr) {es es' : List Expr}
    (rest : RecastInstrs Splice Everywhere es es') :
    RecastInstrs Splice Everywhere (e :: es) (e.spliced ++ es') :=
  match e with
  | .block (.mk instrs line) =>
    .step (.cons (.block (recast_splicedAll instrs)) rest) (.block (splicedAll instrs) line es')
  | .cond condition (.mk yes _) (.mk no _) _ =>
    .cons (.cond (condition.recast_refl fun _ => trivial) (recast_splicedAll yes)
      (recast_splicedAll no)) rest
  | .literal _ _ | .call _ _ _ | .var _ _ | .assign _ _ _ _ | .function _ _ _ _ | .ret _ _
  | .object _ _ | .field _ _ _ | .setField _ _ _ _ | .method _ _ _ _ =>
    .cons (Expr.recast_refl (fun _ => trivial) _) rest

theorem recast_splicedAll :
    (es : List Expr) → RecastInstrs Splice Everywhere es (splicedAll es)
  | [] => .nil
  | e :: es => e.recast_spliced (recast_splicedAll es)

end

theorem FunctionDef.splices_spliced (f : FunctionDef) : f.Splices f.spliced := by
  refine ⟨rfl, rfl, rfl, ?_, trivial⟩
  obtain ⟨name, params, ⟨instrs, line⟩, global⟩ := f
  exact recast_splicedAll instrs

/-- Nothing that is reached through blocks and arms only is a block. -/
def Expr.Bare (e : Expr) : Prop :=
  ∀ path body, StatementPath path → ¬ e.At path (.block body)

theorem Expr.bare_of_parts {e : Expr} (plain : ∀ body, e ≠ .block body)
    (parts : ∀ a c, (a, c) ∈ e.parts → a.isStatement = true → c.Bare) : e.Bare := by
  intro path body through stands
  cases stands with
  | here => exact plain body rfl
  | inside part further =>
    obtain ⟨statement, through⟩ := List.forall_mem_cons.mp through
    exact parts _ _ part statement _ body through further

/-- Instructions are parts of blocks and of conditionals only. -/
theorem Expr.parts_statement {e c : Expr} {a : Step} (part : (a, c) ∈ e.parts)
    (statement : a.isStatement = true) :
    (∃ body, e = .block body) ∨ ∃ condition yes no line, e = .cond condition yes no line := by
  have value : ∀ {step : Nat → Step} {es : List Expr}, (∀ i, (step i).isStatement = false) →
      (a, c) ∉ labelled step es := by
    intro step es values member
    obtain ⟨⟨i, rfl⟩, -⟩ := mem_labelled member
    cases (values i).symm.trans statement
  cases e with
  | block body => exact Or.inl ⟨body, rfl⟩
  | cond condition yes no line => exact Or.inr ⟨condition, yes, no, line, rfl⟩
  | literal | var | function => cases part
  | assign | ret | field =>
    cases List.mem_singleton.mp part
    cases statement
  | setField receiver name stored line =>
    rcases List.mem_cons.mp part with same | part
    · cases same
      cases statement
    · cases List.mem_singleton.mp part
      cases statement
  | object entries line => exact absurd part (value fun _ => rfl)
  | call | method =>
    rcases List.mem_cons.mp part with same | part
    · cases same
      cases statement
    · exact absurd part (value fun _ => rfl)

mutual

theorem Expr.bare_spliced : (e : Expr) → ∀ n ∈ e.spliced, n.Bare
  | .block (.mk instrs _) => bare_splicedAll instrs
  | .cond condition (.mk yes _) (.mk no _) _ => by
    intro n member
    obtain rfl := List.mem_singleton.mp member
    refine Expr.bare_of_parts nofun fun a c part statement => ?_
    rcases List.mem_cons.mp part with same | part
    · cases same
      cases statement
    · rcases List.mem_append.mp part with part | part
      · exact bare_splicedAll yes c (mem_labelled part).2
      · exact bare_splicedAll no c (mem_labelled part).2
  | .literal _ _ | .call _ _ _ | .var _ _ | .assign _ _ _ _ | .function _ _ _ _ | .ret _ _
  | .object _ _ | .field _ _ _ | .setField _ _ _ _ | .method _ _ _ _ => by
    intro n member
    obtain rfl := List.mem_singleton.mp member
    refine Expr.bare_of_parts nofun fun a c part statement => ?_
    rcases Expr.parts_statement part statement with ⟨_, same⟩ | ⟨_, _, _, _, same⟩ <;> cases same

theorem bare_splicedAll : (es : List Expr) → ∀ n ∈ splicedAll es, n.Bare
  | [], _, member => by cases member
  | e :: es, n, member => by
    rcases List.mem_append.mp member with here | later
    · exact e.bare_spliced n here
    · exact bare_splicedAll es n later

end

theorem FunctionDef.spliced_bare (f : FunctionDef) {path : List Step} {body : Block}
    (inside : path ≠ []) (through : StatementPath path) : ¬ f.spliced.body.At path (.block body) := by
  intro stands
  cases stands with
  | here => exact inside rfl
  | inside part further =>
    obtain ⟨name, params, ⟨instrs, line⟩, global⟩ := f
    exact bare_splicedAll instrs _ (mem_labelled part).2 _ body
      (List.forall_mem_cons.mp through).2 further

theorem nodesAll_append (es es' : List Expr) : nodesAll (es ++ es') = nodesAll es ++ nodesAll es' := by
  induction es with
  | nil => rfl
  | cons e es ih => simp only [List.cons_append, nodesAll, ih, List.append_assoc]

theorem Splice.declared_eq {es es' : List Expr} (splice : Splice es es') :
    declaredAll es' = declaredAll es := by
  cases splice
  simp only [declaredAll_eq, List.flatMap_append, List.flatMap_cons, Expr.declared, Block.declared]

/-- Where `g` finds nothing at blocks, splicing does not change what it finds. -/
theorem Splice.nodesCompare {β : Type} {g : Node → List β}
    (node : ∀ {e e' : Expr}, e.Recast Splice Everywhere e' → g (.expr e') = g (.expr e))
    (blocks : ∀ body, g (.expr (.block body)) = []) :
    NodesCompare Splice Everywhere Eq g := by
  refine ⟨partwise_eq β, node, fun splice => ?_⟩
  cases splice
  simp [nodesAll, nodesAll_append, Expr.nodes, Block.nodes, blocks]

namespace FunctionDef.Splices

variable {f f' : FunctionDef}

theorem declared_eq (splices : f.Splices f') : f'.body.declared = f.body.declared := by
  simp only [Block.declared_eq, ← declaredAll_eq]
  exact splices.body.declared ⟨partwise_eq String, Splice.declared_eq⟩

theorem locals_eq (splices : f.Splices f') : f'.locals = f.locals := by
  simp only [FunctionDef.locals, splices.params, splices.declared_eq]

theorem resolve_eq (splices : f.Splices f') :
    Scope.resolve f'.params f'.body = Scope.resolve f.params f.body := by
  simp only [Scope.resolve_eq_foldl, splices.params, splices.declared_eq]

theorem flatMap_nodes (splices : f.Splices f') {β : Type} {g : Node → List β}
    (compare : NodesCompare Splice Everywhere Eq g) :
    f'.nodes.flatMap g = f.nodes.flatMap g := by
  simp only [FunctionDef.nodes, Block.nodes_eq]
  exact splices.body.nodes compare

theorem check_eq (splices : f.Splices f') : f'.check = f.check := by
  have compare : NodesCompare Splice Everywhere Eq Node.assigned :=
    Splice.nodesCompare (fun recast => by cases recast <;> rfl) fun _ => rfl
  have assignments : f'.body.assignments = f.body.assignments := by
    rw [f'.body.assignments_nodes, f.body.assignments_nodes]
    exact splices.flatMap_nodes compare
  simp only [FunctionDef.check, assignments, splices.locals_eq]

theorem siteCount_eq (splices : f.Splices f') : f'.siteCount = f.siteCount := by
  -- the sites of a node as a list with one item for each
  have compare : NodesCompare Splice Everywhere Eq
      fun n => List.replicate (n.siteCount f.locals) () := by
    refine Splice.nodesCompare (fun recast => ?_) fun _ => rfl
    cases recast with
    | @function name => cases name <;> rfl
    | _ => rfl
  have counted := congrArg List.length (splices.flatMap_nodes compare)
  simpa [FunctionDef.siteCount, splices.locals_eq] using counted

theorem texts_eq (splices : f.Splices f') : f'.texts = f.texts := by
  have compare : NodesCompare Splice Everywhere Eq fun n => n.text?.toList :=
    Splice.nodesCompare (fun recast => by cases recast <;> rfl) fun _ => rfl
  simpa only [FunctionDef.texts, List.filterMap_eq_flatMap_toList] using
    splices.flatMap_nodes compare

/-- A spliced function compiles to a unit with as many slots, sites and constants. -/
theorem compile (splices : f.Splices f') {cacheDepth : Nat} {u : CompiledUnit}
    (done : f.compile cacheDepth = .ok u) :
    ∃ u', f'.compile cacheDepth = .ok u' ∧ u'.scope = u.scope ∧ u'.sites.size = u.sites.size ∧
      u'.sites.constants.length = u.sites.constants.length := by
  have passed : f'.check = .ok () := splices.check_eq.trans (FunctionDef.check_of_compile done)
  obtain ⟨u', done'⟩ := FunctionDef.compile_of_check_ok passed cacheDepth
  obtain ⟨-, scope, -⟩ := FunctionDef.compile_ok done
  obtain ⟨-, scope', -⟩ := FunctionDef.compile_ok done'
  refine ⟨u', done', ?_, ?_, ?_⟩
  · rw [scope', scope, splices.resolve_eq]
  · rw [FunctionDef.compile_siteCount done', FunctionDef.compile_siteCount done, splices.siteCount_eq]
  · rw [(FunctionDef.compile_constants done').2, (FunctionDef.compile_constants done).2,
      splices.texts_eq]

end FunctionDef.Splices

namespace Reference

theorem evalInstrs_append (enter : Enter) (global : ObjectId) (es es' : List Expr) :
    evalInstrs enter global (es ++ es') =
      evalInstrs enter global es >>= fun _ => evalInstrs enter global es' := by
  induction es with
  | nil => rfl
  | cons e es ih =>
    rw [List.cons_append, evalInstrs, evalInstrs, Eval.bind_assoc, ih]

/-- A return or a failure in the block ends the list either way. -/
theorem evalInstrs_splice (enter : Enter) (global : ObjectId) {es es' : List Expr}
    (splice : Splice es es') : evalInstrs enter global es' = evalInstrs enter global es := by
  obtain ⟨instrs, line, es⟩ := splice
  rw [evalInstrs_append, evalInstrs, evalExpr, evalBlock, Eval.bind_assoc]
  rfl

theorem splices_exchangeable : Exchangeable FunctionDef.Splices := by
  refine recast_exchangeable (fun _ => trivial) (fun splices => ?_) evalInstrs_splice
  have splices : FunctionDef.Splices _ _ := splices
  exact ⟨splices.check_eq, fun x => by rw [splices.locals_eq]⟩

end Reference

/-- Blocks among the instructions of a function can be replaced by their own instructions until none is left.
The function keeps its slots, is refused as before or compiles, and nothing that a host asks for from then
on ends with another answer, heap or output. -/
theorem blocks_are_transparent :
    (∀ f : FunctionDef, f.Splices f.spliced ∧ ∀ path body, path ≠ [] → StatementPath path →
      ¬ f.spliced.body.At path (.block body)) ∧
    ∀ f f' : FunctionDef, f.Splices f' →
      Scope.resolve f'.params f'.body = Scope.resolve f.params f.body ∧
      (∀ cacheDepth e, f'.compile cacheDepth = .error e ↔ f.compile cacheDepth = .error e) ∧
      (∀ cacheDepth u, f.compile cacheDepth = .ok u →
        ∃ u', f'.compile cacheDepth = .ok u' ∧ u'.scope = u.scope ∧ u'.sites.size = u.sites.size ∧
          u'.sites.constants.length = u.sites.constants.length) ∧
      ∀ (m m₁ : Machine) (id : ObjectId), m.Reachable → m.compile f = .ok (id, m₁) →
        ∃ m₁', m.compile f' = .ok (id, m₁') ∧
          ∀ requests requests', SessionsLike FunctionDef.Splices requests requests' →
            effects (session requests m₁) = effects (session requests' m₁') := by
  refine ⟨fun f => ⟨f.splices_spliced, fun path body => f.spliced_bare⟩, ?_⟩
  intro f f' splices
  refine ⟨splices.resolve_eq, ?_, fun _ _ => splices.compile, ?_⟩
  · intro cacheDepth e
    rw [FunctionDef.compile_error_iff, FunctionDef.compile_error_iff, splices.check_eq]
  · intro m m₁ id reachable
    exact Reference.served_alike Reference.splices_exchangeable reachable splices

/-- A return from a block in an arm, and a call in a block in a block that fails if it is reached. -/
def leavesBlocks : FunctionDef where
  name := some "leave"
  params := ["c"]
  body := .mk [
    .cond (.var "c" 1)
      (.mk [.block (.mk [.assign "x" (.literal (.text "in") 2) true 2, .ret (.var "x" 3) 3] 2),
        .call (.var "print" 4) [.var "x" 4] 4] 1)
      (.mk [] 5) 1,
    .block (.mk [.block (.mk [.call (.var "x" 6) [] 6] 6)] 6)] 1
  global := Machine.global

theorem blocks_are_transparent_leaving :
    leavesBlocks.Splices leavesBlocks.spliced ∧ leavesBlocks.spliced.body.instrs.length = 2 ∧
      ∃ id m m', (Machine.boot 1 .accepting).compile leavesBlocks = .ok (id, m) ∧
        (Machine.boot 1 .accepting).compile leavesBlocks.spliced = .ok (id, m') ∧
        ∀ (depth : Nat) (receiver : Value) (args : List Value),
          effects (session [(depth, .invoke id receiver args)] m) =
            effects (session [(depth, .invoke id receiver args)] m') := by
  have splices := (blocks_are_transparent.1 leavesBlocks).1
  obtain ⟨id, m, done⟩ := ((Machine.boot 1 .accepting).compile_ok_iff leavesBlocks).mpr rfl
  obtain ⟨-, -, -, runs⟩ := blocks_are_transparent.2 leavesBlocks leavesBlocks.spliced splices
  obtain ⟨m', done', same⟩ := runs _ m id (.boot 1 .accepting) done
  exact ⟨splices, rfl, id, m, m', done, done', fun depth receiver args =>
    same _ _ (sessionsLike_refl _ _)⟩

end ScriptEngine
