import ScriptEngine.Proofs.Numbering

/-!
# Replacing a literal

A literal of a program is found by a path: its number among the literals of the body it stands in, after
the path of the literal to which this body belongs. To replace the literal is to give it other parameters
and another body. A function with a literal replaced inside it is compiled to the same code; only the
records differ.
-/

namespace ScriptEngine

/-- Parameters and body of a function. -/
abbrev Lambda := List String × Block

/-- The number of literals among some nodes. -/
def literalCount (ns : List Node) : Nat := (ns.filterMap (Node.literal? 0)).length

section
variable (g : Nat → Lambda → Lambda)

mutual

/-- Change parameters and body of each literal, given its number; the first one has the number `n`.
Nested functions are changed only as a whole. -/
def Expr.rewrite : Nat → Expr → Expr
  | n, .block body => .block (body.rewrite n)
  | _, .literal value line => .literal value line
  | n, .call callee args line =>
      .call (callee.rewrite n) (rewriteAll (n + literalCount callee.nodes) args) line
  | _, .var name line => .var name line
  | n, .assign name value declares line => .assign name (value.rewrite n) declares line
  | n, .function name params body line =>
      .function name (g n (params, body)).1 (g n (params, body)).2 line
  | n, .ret value line => .ret (value.rewrite n) line
  | n, .cond condition yes no line =>
      .cond (condition.rewrite n) (yes.rewrite (n + literalCount condition.nodes))
        (no.rewrite (n + literalCount condition.nodes + literalCount yes.nodes)) line
  | n, .object entries line => .object (rewriteEntries n entries) line
  | n, .field receiver name line => .field (receiver.rewrite n) name line
  | n, .setField receiver name value line =>
      .setField (receiver.rewrite n) name (value.rewrite (n + literalCount receiver.nodes)) line
  | n, .method receiver name args line =>
      .method (receiver.rewrite n) name (rewriteAll (n + literalCount receiver.nodes) args) line

def Block.rewrite : Nat → Block → Block
  | n, .mk instrs line => .mk (rewriteAll n instrs) line

def rewriteAll : Nat → List Expr → List Expr
  | _, [] => []
  | n, e :: es => e.rewrite n :: rewriteAll (n + literalCount e.nodes) es

def rewriteEntries : Nat → List (String × Expr) → List (String × Expr)
  | _, [] => []
  | n, (key, e) :: es => (key, e.rewrite n) :: rewriteEntries (n + literalCount e.nodes) es

end

end

namespace Lambda

/-- Put `new` in the place of the literal with the path; the empty path stands for the function itself. -/
def replaceAt (new : Lambda) : List Nat → Lambda → Lambda
  | [], _ => new
  | i :: path, l =>
      (l.1, l.2.rewrite (fun n inner => if n = i then replaceAt new path inner else inner) 0)

end Lambda

section
variable (g : Nat → Lambda → Lambda)

mutual

@[simp] theorem Expr.declared_rewrite : (e : Expr) → (n : Nat) → (e.rewrite g n).declared = e.declared
  | .block body, n => by
    rw [Expr.rewrite, Expr.declared, Expr.declared, body.declared_rewrite]
  | .assign name value declares line, n => by
    cases declares <;> simp [Expr.rewrite, Expr.declared]
  | .cond condition yes no line, n => by
    rw [Expr.rewrite, Expr.declared, Expr.declared, yes.declared_rewrite, no.declared_rewrite]
  | .literal .., _ | .call .., _ | .var .., _ | .function .., _ | .ret .., _ | .object .., _
  | .field .., _ | .setField .., _ | .method .., _ => rfl

@[simp] theorem Block.declared_rewrite : (b : Block) → (n : Nat) →
    (b.rewrite g n).declared = b.declared
  | .mk instrs line, n => by
    rw [Block.rewrite, Block.declared, Block.declared, declaredAll_rewriteAll]

@[simp] theorem declaredAll_rewriteAll : (es : List Expr) → (n : Nat) →
    declaredAll (rewriteAll g n es) = declaredAll es
  | [], _ => rfl
  | e :: es, n => by
    rw [rewriteAll, declaredAll, declaredAll, e.declared_rewrite, declaredAll_rewriteAll]

end

end

/-- The function with other parameters and another body. -/
def FunctionDef.onLambda (f : FunctionDef) (change : Lambda → Lambda) : FunctionDef :=
  { f with params := (change (f.params, f.body)).1, body := (change (f.params, f.body)).2 }

@[simp] theorem FunctionDef.onLambda_id (f : FunctionDef) : f.onLambda id = f := rfl

section
variable (g : Nat → Lambda → Lambda)

/-- Change what is on record. -/
def Registry.altered (r : Registry) : Registry :=
  { r with records := r.records.map fun record => (record.1, record.2.onLambda (g record.1)) }

/-- Change what the site keeps. -/
def FunctionSite.altered (s : FunctionSite) : FunctionSite :=
  { s with kept := s.kept.map (·.onLambda (g s.id)) }

def SiteTable.altered (t : SiteTable) : SiteTable :=
  { t with functions := t.functions.map (·.altered g) }

def Emission.altered (E : Emission) : Emission :=
  { sites := E.sites.altered g, registry := E.registry.altered g }

end

namespace Lowering

variable {α β : Type} {g : Nat → Lambda → Lambda} {n n' : Nat}

/-- From changed records the second computation gives what the first one gives, and changed records. The
next record has the number `n`. -/
def Alters (g : Nat → Lambda → Lambda) (n : Nat) (x x' : Lowering α) : Prop :=
  ∀ E : Emission, E.registry.next = n →
    x' (E.altered g) = (x E).map fun r => (r.1, r.2.altered g)

theorem alters_pure (a : α) : Alters g n (pure a) (pure a) := fun _ _ => rfl

theorem alters_throw (e : CompileError) : Alters g n (throw e : Lowering α) (throw e) :=
  fun _ _ => rfl

theorem alters_emit {f f' : Emission → α × Emission}
    (same : ∀ E : Emission, E.registry.next = n → f' (E.altered g) = ((f E).1, (f E).2.altered g)) :
    Alters g n (emit f) (emit f') := by
  intro E next
  simp only [emit, same E next]
  rfl

theorem alters_bind {x x' : Lowering α} {f f' : α → Lowering β} (first : Alters g n x x')
    (next : ∀ E a E', E.registry.next = n → x E = .ok (a, E') → E'.registry.next = n')
    (rest : ∀ a, Alters g n' (f a) (f' a)) : Alters g n (x >>= f) (x' >>= f') := by
  intro E here
  have same := first E here
  cases done : x E with
  | error e => simp [bind, StateT.bind, Except.bind, same, done, Except.map]
  | ok r =>
    have later := rest r.1 r.2 (next E r.1 r.2 here done)
    simpa [bind, StateT.bind, Except.bind, same, done, Except.map] using later

theorem alters_map {x x' : Lowering α} (first : Alters g n x x') (f : α → β) :
    Alters g n (x >>= fun a => pure (f a)) (x' >>= fun a => pure (f a)) := by
  intro E here
  have same := first E here
  cases done : x E with
  | error e => simp [bind, StateT.bind, Except.bind, same, done, Except.map]
  | ok r =>
    simp only [bind, StateT.bind, Except.bind, same, done, Except.map]
    rfl

end Lowering

namespace Emission

variable (E : Emission) (g : Nat → Lambda → Lambda)

theorem altered_addConstant (s : String) :
    (E.altered g).addConstant s = ((E.addConstant s).1, (E.addConstant s).2.altered g) := by
  have same : (E.sites.altered g).intern s = (E.sites.intern s).altered g := by
    by_cases known : s ∈ E.sites.constants <;> simp [SiteTable.intern, SiteTable.altered, known]
  simp only [addConstant, altered, same]

/-- The record of a literal is changed as its number says. -/
theorem altered_addFunction (f : FunctionDef) :
    (E.altered g).addFunction (f.onLambda (g E.registry.next)) =
      ((E.addFunction f).1, (E.addFunction f).2.altered g) := by
  simp [addFunction, altered, SiteTable.altered, Registry.altered, Registry.register,
    FunctionSite.altered]

end Emission

theorem length_filterMap_literal? (global : ObjectId) (ns : List Node) :
    (ns.filterMap (Node.literal? global)).length = literalCount ns := by
  have same : ∀ n : Node, (n.literal? global).isSome = (n.literal? 0).isSome := by
    intro n
    unfold Node.literal?
    split <;> rfl
  rw [literalCount, List.length_filterMap_eq_countP, List.length_filterMap_eq_countP]
  simp only [same]

/-- Lowering gives each literal on its way a number. -/
theorem Emission.notes_next (ctx : LoweringContext) (E : Emission) (ns : List Node) :
    (E.notes ctx ns).registry.next = E.registry.next + literalCount ns := by
  rw [(notes_registry ctx ns).1, length_filterMap_literal?]

section
variable (g : Nat → Lambda → Lambda) (global : ObjectId)

/-- The literals among the second nodes are those among the first ones, changed according to their
numbers. -/
def Relabels (n : Nat) (ns ns' : List Node) : Prop :=
  ns'.filterMap (Node.literal? global) =
    (ns.filterMap (Node.literal? global)).mapIdx fun i f => f.onLambda (g (n + i))

variable {g global}

theorem Relabels.append {n : Nat} {ns ns' rest rest' : List Node} (first : Relabels g global n ns ns')
    (second : Relabels g global (n + literalCount ns) rest rest') :
    Relabels g global n (ns ++ rest) (ns' ++ rest') := by
  rw [Relabels] at first second ⊢
  rw [List.filterMap_append, List.filterMap_append, List.mapIdx_append, first, second,
    length_filterMap_literal?]
  congr 2
  funext i f
  rw [Nat.add_right_comm, Nat.add_assoc]

theorem Relabels.plain {n : Nat} {node node' : Node} (other : node.literal? global = none)
    (other' : node'.literal? global = none) : Relabels g global n [node] [node'] := by
  simp [Relabels, other, other']

variable (g global)

mutual

theorem Expr.nodes_rewrite : (e : Expr) → (n : Nat) →
    Relabels g global n e.nodes (e.rewrite g n).nodes
  | .block body, n => by
    rw [Expr.rewrite, Expr.nodes, Expr.nodes]
    exact (body.nodes_rewrite n).append (.plain rfl rfl)
  | .literal value line, n => .plain rfl rfl
  | .call callee args line, n => by
    rw [Expr.rewrite, Expr.nodes, Expr.nodes]
    exact (callee.nodes_rewrite n).append ((nodesAll_rewriteAll args _).append (.plain rfl rfl))
  | .var name line, n => .plain rfl rfl
  | .assign name value declares line, n => by
    rw [Expr.rewrite, Expr.nodes, Expr.nodes]
    exact (value.nodes_rewrite n).append (.plain rfl rfl)
  | .function name params body line, n => rfl
  | .ret value line, n => by
    rw [Expr.rewrite, Expr.nodes, Expr.nodes]
    exact (value.nodes_rewrite n).append (.plain rfl rfl)
  | .cond condition yes no line, n => by
    rw [Expr.rewrite, Expr.nodes, Expr.nodes]
    exact (condition.nodes_rewrite n).append
      ((yes.nodes_rewrite _).append ((no.nodes_rewrite _).append (.plain rfl rfl)))
  | .object entries line, n => by
    rw [Expr.rewrite, Expr.nodes, Expr.nodes]
    exact (nodesEntries_rewriteEntries entries n).append (.plain rfl rfl)
  | .field receiver name line, n => by
    rw [Expr.rewrite, Expr.nodes, Expr.nodes]
    exact (receiver.nodes_rewrite n).append (.plain rfl rfl)
  | .setField receiver name value line, n => by
    rw [Expr.rewrite, Expr.nodes, Expr.nodes]
    exact (receiver.nodes_rewrite n).append ((value.nodes_rewrite _).append (.plain rfl rfl))
  | .method receiver name args line, n => by
    rw [Expr.rewrite, Expr.nodes, Expr.nodes]
    exact (receiver.nodes_rewrite n).append ((nodesAll_rewriteAll args _).append (.plain rfl rfl))

theorem Block.nodes_rewrite : (b : Block) → (n : Nat) →
    Relabels g global n b.nodes (b.rewrite g n).nodes
  | .mk instrs line, n => by
    rw [Block.rewrite, Block.nodes, Block.nodes]
    exact nodesAll_rewriteAll instrs n

theorem nodesAll_rewriteAll : (es : List Expr) → (n : Nat) →
    Relabels g global n (nodesAll es) (nodesAll (rewriteAll g n es))
  | [], n => rfl
  | e :: es, n => by
    rw [rewriteAll, nodesAll, nodesAll]
    exact (e.nodes_rewrite n).append (nodesAll_rewriteAll es _)

theorem nodesEntries_rewriteEntries : (es : List (String × Expr)) → (n : Nat) →
    Relabels g global n (nodesEntries es) (nodesEntries (rewriteEntries g n es))
  | [], n => rfl
  | (key, e) :: es, n => by
    rw [rewriteEntries, nodesEntries, nodesEntries]
    have entry : Relabels g global (n + literalCount e.nodes) [.entry key] [.entry key] :=
      .plain rfl rfl
    exact (e.nodes_rewrite n).append (entry.append (nodesEntries_rewriteEntries es _))

end

end

section
open Lowering
variable (g : Nat → Lambda → Lambda) (ctx : LoweringContext)

theorem lowerExpr_next (e : Expr) {n : Nat} (E : Emission) (c : Code) (E' : Emission)
    (here : E.registry.next = n) (done : lowerExpr ctx e E = .ok (c, E')) :
    E'.registry.next = n + literalCount e.nodes := by
  rw [(lowerExpr_notes ctx e E c E' done).1, Emission.notes_next, here]

theorem lowerAll_next (es : List Expr) {n : Nat} (E : Emission) (cs : List Code) (E' : Emission)
    (here : E.registry.next = n) (done : lowerAll ctx es E = .ok (cs, E')) :
    E'.registry.next = n + literalCount (nodesAll es) := by
  rw [(lowerAll_notes ctx es E cs E' done).1, Emission.notes_next, here]

theorem lowerBlock_next (b : Block) {n : Nat} (E : Emission) (cs : List Code) (E' : Emission)
    (here : E.registry.next = n) (done : lowerBlock ctx b E = .ok (cs, E')) :
    E'.registry.next = n + literalCount b.nodes := by
  rw [lowerBlock_eq] at done
  rw [Block.nodes_eq]
  exact lowerAll_next ctx b.instrs E cs E' here done

/-- Emission without records. -/
theorem emit_next {α : Type} {f : Emission → α × Emission} {n : Nat}
    (same : ∀ E, (f E).2.registry = E.registry) (E : Emission) (a : α) (E' : Emission)
    (here : E.registry.next = n) (done : emit f E = .ok (a, E')) : E'.registry.next = n := by
  obtain ⟨-, rfl⟩ := emit_ok done
  rw [same, here]

mutual

/-- The code of a tree is the same whatever its literals are. -/
theorem lowerExpr_rewrite : (e : Expr) → (n : Nat) →
    Alters g n (lowerExpr ctx e) (lowerExpr ctx (e.rewrite g n))
  | .block body, n => by
    rw [Expr.rewrite, lowerExpr, lowerExpr]
    exact alters_map (lowerBlock_rewrite body n) _
  | .literal (.int value) line, n => by
    rw [Expr.rewrite, lowerExpr]
    exact alters_pure _
  | .literal (.text s) line, n => by
    rw [Expr.rewrite, lowerExpr]
    exact alters_map (alters_emit fun E _ => E.altered_addConstant g s) _
  | .call callee args line, n => by
    rw [Expr.rewrite, lowerExpr, lowerExpr]
    refine alters_bind (lowerExpr_rewrite callee n) (lowerExpr_next ctx callee) fun code => ?_
    refine alters_bind (lowerAll_rewrite args _) (lowerAll_next ctx args) fun codes => ?_
    exact alters_map (alters_emit fun _ _ => rfl) _
  | .var name line, n => by
    rw [Expr.rewrite, lowerExpr]
    cases ctx.scope.lookup name with
    | some slot => exact alters_pure _
    | none => exact alters_map (alters_emit fun _ _ => rfl) _
  | .assign name value declares line, n => by
    rw [Expr.rewrite, lowerExpr, lowerExpr]
    refine alters_bind (lowerExpr_rewrite value n) (lowerExpr_next ctx value) fun code => ?_
    cases ctx.scope.lookup name with
    | some slot => exact alters_pure _
    | none => exact alters_throw _
  | .function name params body line, n => by
    rw [Expr.rewrite, lowerExpr, lowerExpr]
    let f : FunctionDef := { name, params, body, global := ctx.global }
    have recorded : Alters g n (emit (·.addFunction f)) (emit (·.addFunction (f.onLambda (g n)))) :=
      alters_emit fun E here => here ▸ E.altered_addFunction g f
    cases name with
    | none => exact alters_map recorded _
    | some name =>
      have next : ∀ E id E', E.registry.next = n → emit (·.addFunction f) E = .ok (id, E') →
          E'.registry.next = n + 1 := by
        rintro E id E' rfl done
        obtain ⟨-, rfl⟩ := emit_ok done
        rfl
      exact alters_bind recorded next fun id => alters_map (alters_emit fun _ _ => rfl) _
  | .ret value line, n => by
    rw [Expr.rewrite, lowerExpr, lowerExpr]
    exact alters_map (lowerExpr_rewrite value n) _
  | .cond condition yes no line, n => by
    rw [Expr.rewrite, lowerExpr, lowerExpr]
    refine alters_bind (lowerExpr_rewrite condition n) (lowerExpr_next ctx condition) fun code => ?_
    refine alters_bind (lowerBlock_rewrite yes _) (lowerBlock_next ctx yes) fun yesCode => ?_
    exact alters_map (lowerBlock_rewrite no _) _
  | .object entries line, n => by
    rw [Expr.rewrite, lowerExpr, lowerExpr]
    exact alters_map (lowerEntries_rewrite entries n) _
  | .field receiver name line, n => by
    rw [Expr.rewrite, lowerExpr, lowerExpr]
    refine alters_bind (lowerExpr_rewrite receiver n) (lowerExpr_next ctx receiver) fun code => ?_
    exact alters_map (alters_emit fun _ _ => rfl) _
  | .setField receiver name value line, n => by
    rw [Expr.rewrite, lowerExpr, lowerExpr]
    refine alters_bind (lowerExpr_rewrite receiver n) (lowerExpr_next ctx receiver) fun code => ?_
    refine alters_bind (lowerExpr_rewrite value _) (lowerExpr_next ctx value) fun valueCode => ?_
    exact alters_map (alters_emit fun _ _ => rfl) _
  | .method receiver name args line, n => by
    rw [Expr.rewrite, lowerExpr, lowerExpr]
    refine alters_bind (lowerExpr_rewrite receiver n) (lowerExpr_next ctx receiver) fun code => ?_
    refine alters_bind (lowerAll_rewrite args _) (lowerAll_next ctx args) fun codes => ?_
    exact alters_map (alters_emit fun _ _ => rfl) _

theorem lowerBlock_rewrite : (b : Block) → (n : Nat) →
    Alters g n (lowerBlock ctx b) (lowerBlock ctx (b.rewrite g n))
  | .mk instrs line, n => by
    rw [Block.rewrite, lowerBlock, lowerBlock]
    exact lowerAll_rewrite instrs n

theorem lowerAll_rewrite : (es : List Expr) → (n : Nat) →
    Alters g n (lowerAll ctx es) (lowerAll ctx (rewriteAll g n es))
  | [], n => by
    rw [rewriteAll, lowerAll]
    exact alters_pure _
  | e :: es, n => by
    rw [rewriteAll, lowerAll, lowerAll]
    refine alters_bind (lowerExpr_rewrite e n) (lowerExpr_next ctx e) fun code => ?_
    exact alters_map (lowerAll_rewrite es _) _

theorem lowerEntries_rewrite : (es : List (String × Expr)) → (n : Nat) →
    Alters g n (lowerEntries ctx es) (lowerEntries ctx (rewriteEntries g n es))
  | [], n => by
    rw [rewriteEntries, lowerEntries]
    exact alters_pure _
  | (key, e) :: es, n => by
    rw [rewriteEntries, lowerEntries, lowerEntries]
    refine alters_bind (lowerExpr_rewrite e n) (lowerExpr_next ctx e) fun code => ?_
    refine alters_bind (alters_emit fun _ _ => rfl) (emit_next fun _ => rfl) fun site => ?_
    exact alters_map (lowerEntries_rewrite es _) _

end

end

/-- Where the literal that is replaced stands inside a function: nowhere, or at a path. -/
abbrev Place := Option (List Nat)

namespace Place

/-- Where it stands inside the literal with the number `i`. -/
def below (i : Nat) : Place → Place
  | some (j :: path) => if i = j then some path else none
  | _ => none

/-- Replace it. -/
def replace (new : Lambda) : Place → Lambda → Lambda
  | none => id
  | some path => Lambda.replaceAt new path

/-- The replacement inside the body of a function replaces each of its literals as a whole. -/
theorem replace_below (new : Lambda) (i : Nat) (path : List Nat) :
    (fun n => replace new (below n (some (i :: path)))) =
      fun n inner => if n = i then Lambda.replaceAt new path inner else inner := by
  funext n inner
  by_cases here : n = i <;> simp [below, replace, here]

end Place

section
variable (new : Lambda)

/-- The unit after the replacement, whatever has been evaluated in it. -/
def CompiledUnit.altered (place : Place) (u : CompiledUnit) : CompiledUnit :=
  { u with
    definition := u.definition.onLambda (place.replace new)
    sites := u.sites.altered fun i => Place.replace new (place.below i)
    registry := u.registry.altered fun i => Place.replace new (place.below i) }

@[simp] theorem CompiledUnit.altered_none (u : CompiledUnit) : u.altered new none = u := by
  have kept : ∀ s : FunctionSite, s.altered (fun _ => id) = s := by
    intro s
    cases found : s.kept <;> simp [FunctionSite.altered, found] <;> rw [← found]
  simp [CompiledUnit.altered, Place.replace, Place.below, SiteTable.altered, Registry.altered, kept]

/-- What is compiled with a literal replaced in it is the unit with the literal replaced in it. -/
theorem FunctionDef.compile_replace (f : FunctionDef) (cacheDepth : Nat) {place : Place}
    (inside : place ≠ some []) :
    (f.onLambda (place.replace new)).compile cacheDepth =
      (f.compile cacheDepth).map (·.altered new place) := by
  cases place with
  | none =>
    simp only [Place.replace, FunctionDef.onLambda_id, CompiledUnit.altered_none]
    cases f.compile cacheDepth <;> rfl
  | some path =>
    cases path with
    | nil => exact absurd rfl inside
    | cons i path =>
      have numbers := Place.replace_below new i path
      generalize same : (fun n inner => if n = i then Lambda.replaceAt new path inner else inner) = g
        at numbers
      have body : f.onLambda (Place.replace new (some (i :: path))) =
          { f with body := f.body.rewrite g 0 } := by
        rw [← same]
        rfl
      have scope : Scope.resolve f.params (f.body.rewrite g 0) = Scope.resolve f.params f.body := by
        simp only [Scope.resolve_eq_foldl, Block.declared_rewrite]
      have lowered := lowerBlock_rewrite g (f.context cacheDepth) f.body 0 {} rfl
      have empty : ({} : Emission).altered g = {} := by
        simp [Emission.altered, SiteTable.altered, Registry.altered]
      rw [empty] at lowered
      simp only [body, FunctionDef.compile, scope]
      simp only [FunctionDef.context] at lowered
      rw [lowered]
      cases lowerBlock { scope := Scope.resolve f.params f.body, global := f.global, cacheDepth }
          f.body {} with
      | error e => rfl
      | ok r =>
        simp only [Except.map, bind, Except.bind, pure, Except.pure, CompiledUnit.altered, numbers,
          body, Emission.altered]

/-- The literals of a function after a replacement inside its body. -/
theorem FunctionDef.literals_replace (f : FunctionDef) (i : Nat) (path : List Nat) :
    (f.onLambda (Lambda.replaceAt new (i :: path))).literals =
      f.literals.modify i (·.onLambda (Lambda.replaceAt new path)) := by
  have relabels := f.body.nodes_rewrite
    (fun n inner => if n = i then Lambda.replaceAt new path inner else inner) f.global 0
  rw [Relabels] at relabels
  change List.filterMap (Node.literal? f.global) _ = _
  rw [FunctionDef.nodes, FunctionDef.onLambda, Lambda.replaceAt, relabels]
  apply List.ext_getElem?
  intro j
  rw [List.getElem?_mapIdx, List.getElem?_modify, FunctionDef.literals, FunctionDef.nodes]
  by_cases here : i = j
  · subst j
    simp [FunctionDef.onLambda]
  · have apart : j ≠ i := fun same => here same.symm
    simp [here, apart, FunctionDef.onLambda]

/-- The function at a path inside `f`. -/
def FunctionDef.literalAt : List Nat → FunctionDef → Option FunctionDef
  | [], f => some f
  | i :: path, f => (f.literals[i]?).bind (literalAt path)

theorem FunctionDef.literalAt_append (f : FunctionDef) (outer : List Nat) (i : Nat) :
    f.literalAt (outer ++ [i]) = (f.literalAt outer).bind (·.literals[i]?) := by
  induction outer generalizing f with
  | nil => cases listed : f.literals[i]? <;> simp [literalAt, listed]
  | cons j outer ih =>
    cases listed : f.literals[j]? <;> simp [literalAt, listed, ih]

/-- At the path stands the replacement, with the name of the function that stood there. -/
theorem FunctionDef.literalAt_replace (f : FunctionDef) (path : List Nat) :
    (f.onLambda (Lambda.replaceAt new path)).literalAt path =
      (f.literalAt path).map (·.onLambda fun _ => new) := by
  induction path generalizing f with
  | nil => rfl
  | cons i path ih =>
    rw [literalAt, literalAt, f.literals_replace, List.getElem?_modify]
    cases listed : f.literals[i]? with
    | none => simp
    | some inner => simpa using ih inner

end

/-- The program with another literal at the path. -/
def Block.replaceLiteral (program : Block) (path : List Nat) (new : Lambda) : Block :=
  (Lambda.replaceAt new path ([], program)).2

theorem length_rewriteAll (g : Nat → Lambda → Lambda) (es : List Expr) (n : Nat) :
    (rewriteAll g n es).length = es.length := by
  induction es generalizing n with
  | nil => rfl
  | cons e es ih => simp [rewriteAll, ih]

theorem Block.replaceLiteral_length (program : Block) {path : List Nat} (inside : path ≠ [])
    (new : Lambda) : (program.replaceLiteral path new).instrs.length = program.instrs.length := by
  cases path with
  | nil => exact absurd rfl inside
  | cons i path =>
    obtain ⟨instrs, line⟩ := program
    exact length_rewriteAll _ instrs 0

end ScriptEngine
