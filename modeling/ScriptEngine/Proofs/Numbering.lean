import ScriptEngine.Proofs.Lowering
import Mathlib.Data.List.Forall2
import Mathlib.Data.Finset.Card
import Mathlib.Algebra.GroupWithZero.Nat

/-!
# The order of a body

The nodes of a body are listed in the order in which they are lowered: the parts of a node before the
node, left to right, an entry of an object after its value. The bodies of nested functions are left
out, and code that can never run is not. What is emitted for a body is what is emitted for the nodes of
this list, one after the other; so the list tells how sites and records are numbered, and how many
there are.
-/

namespace ScriptEngine

/-- A place where something is emitted: a node, or an entry of an object. -/
inductive Node where
  | expr (e : Expr)
  | entry (key : String)

mutual

/-- The nodes of a tree in the order in which they are lowered. -/
def Expr.nodes : Expr → List Node
  | .block body => body.nodes ++ [.expr (.block body)]
  | .literal value line => [.expr (.literal value line)]
  | .call callee args line =>
      callee.nodes ++ (nodesAll args ++ [.expr (.call callee args line)])
  | .var name line => [.expr (.var name line)]
  | .assign name value declares line => value.nodes ++ [.expr (.assign name value declares line)]
  | .function name params body line => [.expr (.function name params body line)]
  | .ret value line => value.nodes ++ [.expr (.ret value line)]
  | .cond condition yes no line =>
      condition.nodes ++ (yes.nodes ++ (no.nodes ++ [.expr (.cond condition yes no line)]))
  | .object entries line => nodesEntries entries ++ [.expr (.object entries line)]
  | .field receiver name line => receiver.nodes ++ [.expr (.field receiver name line)]
  | .setField receiver name value line =>
      receiver.nodes ++ (value.nodes ++ [.expr (.setField receiver name value line)])
  | .method receiver name args line =>
      receiver.nodes ++ (nodesAll args ++ [.expr (.method receiver name args line)])

def Block.nodes : Block → List Node
  | .mk instrs _ => nodesAll instrs

def nodesAll : List Expr → List Node
  | [] => []
  | e :: es => e.nodes ++ nodesAll es

def nodesEntries : List (String × Expr) → List Node
  | [] => []
  | (key, e) :: es => e.nodes ++ (.entry key :: nodesEntries es)

end

/-- The number of arguments of a call. -/
def Expr.argCount : Expr → Nat
  | .call _ args _ => args.length
  | _ => 0

namespace Node

def expr? : Node → Option Expr
  | .expr e => some e
  | .entry _ => none

/-- The call of a function that stands here. -/
def call? : Node → Option Expr
  | .expr (.call callee args line) => some (.call callee args line)
  | _ => none

/-- The unused call site of the call that stands here. -/
def callSite? (maxDepth : Nat) (n : Node) : Option CallSite :=
  n.call?.map fun call => { argCount := call.argCount, maxDepth }

theorem filterMap_callSite? (maxDepth : Nat) (ns : List Node) :
    ns.filterMap (callSite? maxDepth) =
      (ns.filterMap call?).map fun call => { argCount := call.argCount, maxDepth } :=
  List.map_filterMap.symm

/-- The function literal that stands here, where `global` is the global object of the body. -/
def literal? (global : ObjectId) : Node → Option FunctionDef
  | .expr (.function name params body _) => some { name, params, body, global }
  | _ => none

/-- The text literal that stands here. -/
def text? : Node → Option String
  | .expr (.literal (.text s) _) => some s
  | _ => none

/-- How many sites belong here: one for a read of a free name, a field that is read or written, an
entry of an object, a function literal, a call of a function or of a method, and one more for the
registration of a literal with a name. -/
def siteCount (locals : List String) : Node → Nat
  | .expr (.var name _) => if name ∈ locals then 0 else 1
  | .expr (.function (some _) _ _ _) => 2
  | .expr (.function none _ _ _) => 1
  | .expr (.field ..) | .expr (.setField ..) | .expr (.call ..) | .expr (.method ..) | .entry _ => 1
  | .expr (.block _) | .expr (.literal ..) | .expr (.assign ..) | .expr (.ret ..)
  | .expr (.cond ..) | .expr (.object ..) => 0

end Node

namespace FunctionDef

/-- The nodes of the body, without those of nested functions. -/
def nodes (f : FunctionDef) : List Node := f.body.nodes

/-- The calls of functions in the body. -/
def calls (f : FunctionDef) : List Expr := f.nodes.filterMap Node.call?

/-- The function literals in the body. -/
def literals (f : FunctionDef) : List FunctionDef := f.nodes.filterMap (Node.literal? f.global)

/-- The texts that occur as literals in the body. -/
def texts (f : FunctionDef) : List String := f.nodes.filterMap Node.text?

/-- The number of sites that the body needs. -/
def siteCount (f : FunctionDef) : Nat := (f.nodes.map (·.siteCount f.locals)).sum

end FunctionDef

/-- The emission after one more node. -/
def Emission.note (ctx : LoweringContext) (E : Emission) : Node → Emission
  | .expr (.literal (.text s) _) => (E.addConstant s).2
  | .expr (.call _ args _) => (E.addCall args.length ctx.cacheDepth).2
  | .expr (.var name _) =>
      match ctx.scope.lookup name with
      | some _ => E
      | none => (E.addLookup name).2
  | .expr (.function (some name) params body _) =>
      ((E.addFunction { name := some name, params, body, global := ctx.global }).2.addRegistration
        name).2
  | .expr (.function none params body _) =>
      (E.addFunction { name := none, params, body, global := ctx.global }).2
  | .expr (.field _ name _) | .expr (.setField _ name _ _) | .entry name => (E.addField name).2
  | .expr (.method _ name args _) => (E.addMethod name args.length).2
  | .expr (.block _) | .expr (.literal (.int _) _) | .expr (.assign ..) | .expr (.ret ..)
  | .expr (.cond ..) | .expr (.object ..) => E

/-- The emission after some more nodes. -/
def Emission.notes (ctx : LoweringContext) (E : Emission) (nodes : List Node) : Emission :=
  nodes.foldl (note ctx) E

namespace SiteTable

variable (t : SiteTable) (s : String)

@[simp] theorem intern_calls : (t.intern s).calls = t.calls := by
  unfold intern
  split <;> rfl

@[simp] theorem intern_size : (t.intern s).size = t.size := by
  unfold intern
  split <;> rfl

theorem mem_intern (other : String) :
    other ∈ (t.intern s).constants ↔ other ∈ t.constants ∨ s = other := by
  unfold intern
  split
  · rename_i known
    constructor
    · exact Or.inl
    · rintro (old | rfl)
      · exact old
      · exact known
  · simp [eq_comm]

theorem intern_nodup {t : SiteTable} (distinct : t.constants.Nodup) (s : String) :
    (t.intern s).constants.Nodup := by
  unfold intern
  split
  · exact distinct
  · rename_i unknown
    exact List.nodup_append.mpr ⟨distinct, List.nodup_singleton s, by
      intro a old b new same
      rw [List.mem_singleton.mp new] at same
      exact unknown (same ▸ old)⟩

end SiteTable

namespace Emission

variable (ctx : LoweringContext) {E : Emission}

@[simp] theorem notes_nil : E.notes ctx [] = E := rfl

@[simp] theorem notes_cons (n : Node) (ns : List Node) :
    E.notes ctx (n :: ns) = (E.note ctx n).notes ctx ns := rfl

@[simp] theorem notes_append (first second : List Node) :
    E.notes ctx (first ++ second) = (E.notes ctx first).notes ctx second := by
  simp [notes]

theorem note_calls (n : Node) : (E.note ctx n).sites.calls.toList =
    E.sites.calls.toList ++ (n.callSite? ctx.cacheDepth).toList := by
  unfold note
  split <;> (try split) <;> simp [addConstant, addCall, addLookup, addFunction, addRegistration,
    addField, addMethod, Node.callSite?, Node.call?, Expr.argCount]

theorem note_registry (n : Node) :
    (E.note ctx n).registry.next = E.registry.next + (n.literal? ctx.global).toList.length ∧
    (E.note ctx n).registry.records =
      E.registry.records ++ (n.literal? ctx.global).toList.map (E.registry.next, ·) := by
  unfold note
  split <;> (try split) <;> simp [addConstant, addCall, addLookup, addFunction, addRegistration,
    addField, addMethod, Registry.register, Node.literal?]

theorem note_size {locals : List String} (free : ∀ x, ctx.scope.lookup x = none ↔ x ∉ locals)
    (n : Node) : (E.note ctx n).sites.size = E.sites.size + n.siteCount locals := by
  unfold note
  split
  case h_3 name _ =>
    cases found : ctx.scope.lookup name with
    | some slot =>
      have known : name ∈ locals := by
        by_contra unknown
        simp [(free name).mpr unknown] at found
      simp [Node.siteCount, known]
    | none =>
      simp only [Node.siteCount, if_neg ((free name).mp found), addLookup, SiteTable.size,
        Array.size_push]
      omega
  all_goals
    simp [addConstant, addCall, addFunction, addRegistration, addField, addMethod, Node.siteCount] <;>
      simp [SiteTable.size] <;> omega

theorem note_constants (n : Node) :
    (E.sites.constants.Nodup → (E.note ctx n).sites.constants.Nodup) ∧
    ∀ s, s ∈ (E.note ctx n).sites.constants ↔ s ∈ E.sites.constants ∨ n.text? = some s := by
  unfold note
  split
  case h_1 text _ =>
    exact ⟨fun distinct => SiteTable.intern_nodup distinct text, fun s => by
      simp [addConstant, SiteTable.mem_intern, Node.text?]⟩
  all_goals (try split) <;> simp [addCall, addLookup, addFunction, addRegistration, addField,
    addMethod, Node.text?]

theorem notes_calls (ns : List Node) : (E.notes ctx ns).sites.calls.toList =
    E.sites.calls.toList ++ ns.filterMap (Node.callSite? ctx.cacheDepth) := by
  induction ns generalizing E with
  | nil => simp
  | cons n ns ih =>
    rw [notes_cons, ih, note_calls, List.append_assoc]
    cases site : n.callSite? ctx.cacheDepth <;> simp [site]

/-- Records are numbered in the order of their literals. -/
theorem notes_registry (ns : List Node) :
    (E.notes ctx ns).registry.next =
      E.registry.next + (ns.filterMap (Node.literal? ctx.global)).length ∧
    (E.notes ctx ns).registry.records = E.registry.records ++
      ((ns.filterMap (Node.literal? ctx.global)).zipIdx E.registry.next).map Prod.swap := by
  induction ns generalizing E with
  | nil => simp
  | cons n ns ih =>
    obtain ⟨next, records⟩ := ih (E := E.note ctx n)
    obtain ⟨next', records'⟩ := note_registry ctx (E := E) n
    rw [notes_cons, next, records, next', records']
    cases literal : n.literal? ctx.global with
    | none => simp [literal]
    | some f =>
      simp only [List.filterMap_cons, literal, Option.toList_some, List.length_cons, List.length_nil,
        List.map_cons, List.map_nil, List.zipIdx_cons, List.append_assoc, List.cons_append,
        List.nil_append, Prod.swap_prod_mk, Nat.zero_add, and_true]
      omega

theorem notes_size {locals : List String} (free : ∀ x, ctx.scope.lookup x = none ↔ x ∉ locals)
    (ns : List Node) :
    (E.notes ctx ns).sites.size = E.sites.size + (ns.map (·.siteCount locals)).sum := by
  induction ns generalizing E with
  | nil => simp
  | cons n ns ih => rw [notes_cons, ih, note_size ctx free, List.map_cons, List.sum_cons, Nat.add_assoc]

theorem notes_constants (ns : List Node) :
    (E.sites.constants.Nodup → (E.notes ctx ns).sites.constants.Nodup) ∧
    ∀ s, s ∈ (E.notes ctx ns).sites.constants ↔
      s ∈ E.sites.constants ∨ s ∈ ns.filterMap Node.text? := by
  induction ns generalizing E with
  | nil => simp
  | cons n ns ih =>
    obtain ⟨distinct, members⟩ := ih (E := E.note ctx n)
    obtain ⟨distinct', members'⟩ := note_constants ctx (E := E) n
    refine ⟨fun old => distinct (distinct' old), fun s => ?_⟩
    rw [notes_cons, members, members', or_assoc]
    cases text : n.text? with
    | none => simp [text]
    | some t => simp [text, eq_comm]

end Emission

mutual

/-- The nodes of some code, the parts of a node before the node. -/
def Code.nodes : Code → List Code
  | .int n => [.int n]
  | .text s => [.text s]
  | .load slot => [.load slot]
  | .store slot value => value.nodes ++ [.store slot value]
  | .loadGlobal name site => [.loadGlobal name site]
  | .block body => codeNodes body ++ [.block body]
  | .ret value => value.nodes ++ [.ret value]
  | .branch condition yes no =>
      condition.nodes ++ (codeNodes yes ++ (codeNodes no ++ [.branch condition yes no]))
  | .function id registration => [.function id registration]
  | .object entries => entryNodes entries ++ [.object entries]
  | .getField receiver site => receiver.nodes ++ [.getField receiver site]
  | .setField receiver value site =>
      receiver.nodes ++ (value.nodes ++ [.setField receiver value site])
  | .call callee args site => callee.nodes ++ (codeNodes args ++ [.call callee args site])
  | .method receiver args site => receiver.nodes ++ (codeNodes args ++ [.method receiver args site])

def codeNodes : List Code → List Code
  | [] => []
  | c :: cs => c.nodes ++ codeNodes cs

def entryNodes : List (Code × FieldSite) → List Code
  | [] => []
  | (c, _) :: rest => c.nodes ++ entryNodes rest

end

namespace Code

/-- The number of the call site of a call. -/
def callSite? : Code → Option Nat
  | .call _ _ site => some site
  | _ => none

/-- The number of the record of a function literal. -/
def record? : Code → Option Nat
  | .function id _ => some id
  | _ => none

end Code

/-- The calls and the literals among `codes` are numbered in the order of `nodes`, starting with the
numbers that are free in `E`. -/
structure Numbered (ctx : LoweringContext) (E : Emission) (nodes : List Node) (codes : List Code) :
    Prop where
  calls : codes.filterMap Code.callSite? =
    List.range' E.sites.calls.size (nodes.filterMap (Node.callSite? ctx.cacheDepth)).length
  literals : codes.filterMap Code.record? =
    List.range' E.registry.next (nodes.filterMap (Node.literal? ctx.global)).length

namespace Numbered

variable {ctx : LoweringContext} {E : Emission}

theorem append {ns ns' : List Node} {cs cs' : List Code} (first : Numbered ctx E ns cs)
    (second : Numbered ctx (E.notes ctx ns) ns' cs') : Numbered ctx E (ns ++ ns') (cs ++ cs') := by
  have calls : (E.notes ctx ns).sites.calls.size =
      E.sites.calls.size + (ns.filterMap (Node.callSite? ctx.cacheDepth)).length := by
    simpa using congrArg List.length (Emission.notes_calls ctx (E := E) ns)
  have next := (Emission.notes_registry ctx (E := E) ns).1
  constructor
  · rw [List.filterMap_append, List.filterMap_append, first.calls, second.calls, calls,
      List.length_append, List.range'_append_1]
  · rw [List.filterMap_append, List.filterMap_append, first.literals, second.literals, next,
      List.length_append, List.range'_append_1]

theorem nil : Numbered ctx E [] [] := ⟨rfl, rfl⟩

/-- Neither a call nor a literal. -/
theorem plain {n : Node} {c : Code} (call : n.callSite? ctx.cacheDepth = none)
    (literal : n.literal? ctx.global = none) (site : c.callSite? = none)
    (record : c.record? = none) : Numbered ctx E [n] [c] := by
  constructor
  · simp [call, site]
  · simp [literal, record]

end Numbered

/-- What lowering emits is what is emitted for `nodes`, and its code is numbered accordingly. -/
def Lowering.Notes {α : Type} (ctx : LoweringContext) (x : Lowering α) (nodes : List Node)
    (codes : α → List Code) : Prop :=
  ∀ E a E', x E = .ok (a, E') → E' = E.notes ctx nodes ∧ Numbered ctx E nodes (codes a)

theorem lowerAll_length {ctx : LoweringContext} {es : List Expr} {E E' : Emission}
    {codes : List Code} (done : lowerAll ctx es E = .ok (codes, E')) : codes.length = es.length := by
  induction es generalizing E codes with
  | nil =>
    rw [lowerAll] at done
    obtain ⟨rfl, -⟩ := Lowering.pure_ok done
    rfl
  | cons e es ih =>
    rw [lowerAll] at done
    obtain ⟨code, E₁, -, done⟩ := Lowering.bind_ok done
    obtain ⟨rest, E₂, later, done⟩ := Lowering.bind_ok done
    obtain ⟨rfl, rfl⟩ := Lowering.pure_ok done
    simp [ih later]

section
open Lowering

mutual

theorem lowerExpr_notes (ctx : LoweringContext) :
    (e : Expr) → Notes ctx (lowerExpr ctx e) e.nodes Code.nodes
  | .block (.mk instrs line) => by
    intro E c E' done
    rw [lowerExpr, lowerBlock] at done
    obtain ⟨codes, E₁, body, done⟩ := bind_ok done
    obtain ⟨rfl, rfl⟩ := pure_ok done
    obtain ⟨rfl, numbered⟩ := lowerAll_notes ctx instrs E codes E₁ body
    rw [Expr.nodes, Block.nodes, Code.nodes]
    exact ⟨by simp [Emission.note], numbered.append (.plain rfl rfl rfl rfl)⟩
  | .literal (.int n) line => by
    intro E c E' done
    rw [lowerExpr] at done
    obtain ⟨rfl, rfl⟩ := pure_ok done
    rw [Expr.nodes, Code.nodes]
    exact ⟨rfl, .plain rfl rfl rfl rfl⟩
  | .literal (.text s) line => by
    intro E c E' done
    rw [lowerExpr] at done
    obtain ⟨_, E₁, interned, done⟩ := bind_ok done
    obtain ⟨-, rfl⟩ := emit_ok interned
    obtain ⟨rfl, rfl⟩ := pure_ok done
    rw [Expr.nodes, Code.nodes]
    exact ⟨rfl, .plain rfl rfl rfl rfl⟩
  | .call callee args line => by
    intro E c E' done
    rw [lowerExpr] at done
    obtain ⟨code, E₁, called, done⟩ := bind_ok done
    obtain ⟨codes, E₂, given, done⟩ := bind_ok done
    obtain ⟨site, E₃, emitted, done⟩ := bind_ok done
    obtain ⟨rfl, rfl⟩ := emit_ok emitted
    obtain ⟨rfl, rfl⟩ := pure_ok done
    obtain ⟨rfl, first⟩ := lowerExpr_notes ctx callee E code E₁ called
    obtain ⟨rfl, second⟩ := lowerAll_notes ctx args _ codes E₂ given
    have last : Numbered ctx ((E.notes ctx callee.nodes).notes ctx (nodesAll args))
        [.expr (.call callee args line)] [.call code codes _] := ⟨rfl, rfl⟩
    rw [Expr.nodes, Code.nodes]
    exact ⟨by simp [Emission.note, lowerAll_length given], first.append (second.append last)⟩
  | .var name line => by
    intro E c E' done
    rw [lowerExpr] at done
    rw [Expr.nodes]
    cases found : ctx.scope.lookup name with
    | some slot =>
      simp only [found] at done
      obtain ⟨rfl, rfl⟩ := pure_ok done
      rw [Code.nodes]
      exact ⟨by simp [Emission.note, found], .plain rfl rfl rfl rfl⟩
    | none =>
      simp only [found] at done
      obtain ⟨site, E₁, emitted, done⟩ := bind_ok done
      obtain ⟨rfl, rfl⟩ := emit_ok emitted
      obtain ⟨rfl, rfl⟩ := pure_ok done
      rw [Code.nodes]
      exact ⟨by simp [Emission.note, found], .plain rfl rfl rfl rfl⟩
  | .assign name value declares line => by
    intro E c E' done
    rw [lowerExpr] at done
    obtain ⟨code, E₁, assigned, done⟩ := bind_ok done
    obtain ⟨rfl, numbered⟩ := lowerExpr_notes ctx value E code E₁ assigned
    cases found : ctx.scope.lookup name with
    | none =>
      simp only [found] at done
      cases done
    | some slot =>
      simp only [found] at done
      obtain ⟨rfl, rfl⟩ := pure_ok done
      rw [Expr.nodes, Code.nodes]
      exact ⟨by simp [Emission.note], numbered.append (.plain rfl rfl rfl rfl)⟩
  | .function none params body line => by
    intro E c E' done
    rw [lowerExpr] at done
    obtain ⟨id, E₁, emitted, done⟩ := bind_ok done
    obtain ⟨rfl, rfl⟩ := emit_ok emitted
    obtain ⟨rfl, rfl⟩ := pure_ok done
    rw [Expr.nodes, Code.nodes]
    exact ⟨rfl, rfl, rfl⟩
  | .function (some name) params body line => by
    intro E c E' done
    rw [lowerExpr] at done
    obtain ⟨id, E₁, emitted, done⟩ := bind_ok done
    obtain ⟨rfl, rfl⟩ := emit_ok emitted
    obtain ⟨site, E₂, registered, done⟩ := bind_ok done
    obtain ⟨rfl, rfl⟩ := emit_ok registered
    obtain ⟨rfl, rfl⟩ := pure_ok done
    rw [Expr.nodes, Code.nodes]
    exact ⟨rfl, rfl, rfl⟩
  | .ret value line => by
    intro E c E' done
    rw [lowerExpr] at done
    obtain ⟨code, E₁, given, done⟩ := bind_ok done
    obtain ⟨rfl, rfl⟩ := pure_ok done
    obtain ⟨rfl, numbered⟩ := lowerExpr_notes ctx value E code E₁ given
    rw [Expr.nodes, Code.nodes]
    exact ⟨by simp [Emission.note], numbered.append (.plain rfl rfl rfl rfl)⟩
  | .cond condition (.mk yes yesLine) (.mk no noLine) line => by
    intro E c E' done
    rw [lowerExpr, lowerBlock, lowerBlock] at done
    obtain ⟨code, E₁, tested, done⟩ := bind_ok done
    obtain ⟨yesCode, E₂, first, done⟩ := bind_ok done
    obtain ⟨noCode, E₃, second, done⟩ := bind_ok done
    obtain ⟨rfl, rfl⟩ := pure_ok done
    obtain ⟨rfl, numbered⟩ := lowerExpr_notes ctx condition E code E₁ tested
    obtain ⟨rfl, numbered'⟩ := lowerAll_notes ctx yes _ yesCode E₂ first
    obtain ⟨rfl, numbered''⟩ := lowerAll_notes ctx no _ noCode E₃ second
    rw [Expr.nodes, Block.nodes, Block.nodes, Code.nodes]
    exact ⟨by simp [Emission.note],
      numbered.append (numbered'.append (numbered''.append (.plain rfl rfl rfl rfl)))⟩
  | .object entries line => by
    intro E c E' done
    rw [lowerExpr] at done
    obtain ⟨codes, E₁, filled, done⟩ := bind_ok done
    obtain ⟨rfl, rfl⟩ := pure_ok done
    obtain ⟨rfl, numbered⟩ := lowerEntries_notes ctx entries E codes E₁ filled
    rw [Expr.nodes, Code.nodes]
    exact ⟨by simp [Emission.note], numbered.append (.plain rfl rfl rfl rfl)⟩
  | .field receiver name line => by
    intro E c E' done
    rw [lowerExpr] at done
    obtain ⟨code, E₁, read, done⟩ := bind_ok done
    obtain ⟨site, E₂, emitted, done⟩ := bind_ok done
    obtain ⟨rfl, rfl⟩ := emit_ok emitted
    obtain ⟨rfl, rfl⟩ := pure_ok done
    obtain ⟨rfl, numbered⟩ := lowerExpr_notes ctx receiver E code E₁ read
    rw [Expr.nodes, Code.nodes]
    exact ⟨by simp [Emission.note], numbered.append (.plain rfl rfl rfl rfl)⟩
  | .setField receiver name value line => by
    intro E c E' done
    rw [lowerExpr] at done
    obtain ⟨code, E₁, into, done⟩ := bind_ok done
    obtain ⟨valueCode, E₂, given, done⟩ := bind_ok done
    obtain ⟨site, E₃, emitted, done⟩ := bind_ok done
    obtain ⟨rfl, rfl⟩ := emit_ok emitted
    obtain ⟨rfl, rfl⟩ := pure_ok done
    obtain ⟨rfl, numbered⟩ := lowerExpr_notes ctx receiver E code E₁ into
    obtain ⟨rfl, numbered'⟩ := lowerExpr_notes ctx value _ valueCode E₂ given
    rw [Expr.nodes, Code.nodes]
    exact ⟨by simp [Emission.note],
      numbered.append (numbered'.append (.plain rfl rfl rfl rfl))⟩
  | .method receiver name args line => by
    intro E c E' done
    rw [lowerExpr] at done
    obtain ⟨code, E₁, self, done⟩ := bind_ok done
    obtain ⟨codes, E₂, given, done⟩ := bind_ok done
    obtain ⟨site, E₃, emitted, done⟩ := bind_ok done
    obtain ⟨rfl, rfl⟩ := emit_ok emitted
    obtain ⟨rfl, rfl⟩ := pure_ok done
    obtain ⟨rfl, numbered⟩ := lowerExpr_notes ctx receiver E code E₁ self
    obtain ⟨rfl, numbered'⟩ := lowerAll_notes ctx args _ codes E₂ given
    rw [Expr.nodes, Code.nodes]
    exact ⟨by simp [Emission.note, lowerAll_length given],
      numbered.append (numbered'.append (.plain rfl rfl rfl rfl))⟩

theorem lowerAll_notes (ctx : LoweringContext) :
    (es : List Expr) → Notes ctx (lowerAll ctx es) (nodesAll es) codeNodes
  | [] => by
    intro E codes E' done
    rw [lowerAll] at done
    obtain ⟨rfl, rfl⟩ := pure_ok done
    exact ⟨rfl, .nil⟩
  | e :: es => by
    intro E codes E' done
    rw [lowerAll] at done
    obtain ⟨code, E₁, first, done⟩ := bind_ok done
    obtain ⟨rest, E₂, later, done⟩ := bind_ok done
    obtain ⟨rfl, rfl⟩ := pure_ok done
    obtain ⟨rfl, numbered⟩ := lowerExpr_notes ctx e E code E₁ first
    obtain ⟨rfl, numbered'⟩ := lowerAll_notes ctx es _ rest E₂ later
    rw [nodesAll, codeNodes]
    exact ⟨by simp, numbered.append numbered'⟩

theorem lowerEntries_notes (ctx : LoweringContext) :
    (es : List (String × Expr)) → Notes ctx (lowerEntries ctx es) (nodesEntries es) entryNodes
  | [] => by
    intro E codes E' done
    rw [lowerEntries] at done
    obtain ⟨rfl, rfl⟩ := pure_ok done
    exact ⟨rfl, .nil⟩
  | (key, e) :: es => by
    intro E codes E' done
    rw [lowerEntries] at done
    obtain ⟨code, E₁, first, done⟩ := bind_ok done
    obtain ⟨site, E₂, emitted, done⟩ := bind_ok done
    obtain ⟨rfl, rfl⟩ := emit_ok emitted
    obtain ⟨rest, E₃, later, done⟩ := bind_ok done
    obtain ⟨rfl, rfl⟩ := pure_ok done
    obtain ⟨rfl, numbered⟩ := lowerExpr_notes ctx e E code E₁ first
    obtain ⟨rfl, numbered'⟩ := lowerEntries_notes ctx es _ rest E₃ later
    rw [nodesEntries, entryNodes]
    -- the entry itself has neither a call site nor a record
    have entry : Numbered ctx (E.notes ctx e.nodes) [.entry key] [] := ⟨rfl, rfl⟩
    exact ⟨by simp [Emission.note], numbered.append (entry.append numbered')⟩

end

end

section
variable {scope : Scope} {global : ObjectId} {E : Emission}

mutual

/-- Each node of the code is the code of the node of the tree at the same place. -/
theorem Lowered.nodes : (e : Expr) → {code : Code} → Lowered scope global E e code →
    List.Forall₂ (Lowered scope global E) (e.nodes.filterMap Node.expr?) code.nodes
  | .block (.mk instrs line), _, .block body => by
    simp only [Expr.nodes, Block.nodes, Code.nodes, List.filterMap_append]
    exact List.rel_append (LoweredAll.nodes instrs body) (.cons (.block body) .nil)
  | .literal (.int n) line, _, .int => .cons .int .nil
  | .literal (.text s) line, _, .text => .cons .text .nil
  | .call callee args line, _, .call first rest wanted count => by
    simp only [Expr.nodes, Code.nodes, List.filterMap_append]
    exact List.rel_append (Lowered.nodes callee first)
      (List.rel_append (LoweredAll.nodes args rest) (.cons (.call first rest wanted count) .nil))
  | .var name line, _, .load found => .cons (.load found) .nil
  | .var name line, _, .loadGlobal missing wanted => .cons (.loadGlobal missing wanted) .nil
  | .assign name value declares line, _, .assign lowered found => by
    simp only [Expr.nodes, Code.nodes, List.filterMap_append]
    exact List.rel_append (Lowered.nodes value lowered) (.cons (.assign lowered found) .nil)
  | .function none params body line, _, .function recorded => .cons (.function recorded) .nil
  | .function (some name) params body line, _, .named recorded wanted =>
    .cons (.named recorded wanted) .nil
  | .ret value line, _, .ret lowered => by
    simp only [Expr.nodes, Code.nodes, List.filterMap_append]
    exact List.rel_append (Lowered.nodes value lowered) (.cons (.ret lowered) .nil)
  | .cond condition (.mk yes yesLine) (.mk no noLine) line, _, .cond lowered first second => by
    simp only [Expr.nodes, Block.nodes, Code.nodes, List.filterMap_append]
    exact List.rel_append (Lowered.nodes condition lowered)
      (List.rel_append (LoweredAll.nodes yes first)
        (List.rel_append (LoweredAll.nodes no second) (.cons (.cond lowered first second) .nil)))
  | .object entries line, _, .object lowered => by
    simp only [Expr.nodes, Code.nodes, List.filterMap_append]
    exact List.rel_append (LoweredEntries.nodes entries lowered) (.cons (.object lowered) .nil)
  | .field receiver name line, _, .field lowered => by
    simp only [Expr.nodes, Code.nodes, List.filterMap_append]
    exact List.rel_append (Lowered.nodes receiver lowered) (.cons (.field lowered) .nil)
  | .setField receiver name value line, _, .setField first second => by
    simp only [Expr.nodes, Code.nodes, List.filterMap_append]
    exact List.rel_append (Lowered.nodes receiver first)
      (List.rel_append (Lowered.nodes value second) (.cons (.setField first second) .nil))
  | .method receiver name args line, _, .method first rest => by
    simp only [Expr.nodes, Code.nodes, List.filterMap_append]
    exact List.rel_append (Lowered.nodes receiver first)
      (List.rel_append (LoweredAll.nodes args rest) (.cons (.method first rest) .nil))

theorem LoweredAll.nodes : (es : List Expr) → {codes : List Code} →
    LoweredAll scope global E es codes →
    List.Forall₂ (Lowered scope global E) ((nodesAll es).filterMap Node.expr?) (codeNodes codes)
  | [], _, .nil => .nil
  | e :: es, _, .cons first rest => by
    simp only [nodesAll, codeNodes, List.filterMap_append]
    exact List.rel_append (Lowered.nodes e first) (LoweredAll.nodes es rest)

theorem LoweredEntries.nodes : (es : List (String × Expr)) → {codes : List (Code × FieldSite)} →
    LoweredEntries scope global E es codes →
    List.Forall₂ (Lowered scope global E) ((nodesEntries es).filterMap Node.expr?) (entryNodes codes)
  | [], _, .nil => .nil
  | (key, e) :: es, _, .cons first rest => by
    simp only [nodesEntries, entryNodes, List.filterMap_append, List.filterMap_cons, Node.expr?]
    exact List.rel_append (Lowered.nodes e first) (LoweredEntries.nodes es rest)

end

/-- The code of a call is a call, and nothing else is. -/
theorem Lowered.isSome_callSite? {e : Expr} {code : Code} (lowered : Lowered scope global E e code) :
    code.callSite?.isSome = (Node.expr e).call?.isSome := by
  cases lowered <;> rfl

theorem Lowered.isSome_record? {e : Expr} {code : Code} (lowered : Lowered scope global E e code) :
    code.record?.isSome = ((Node.expr e).literal? global).isSome := by
  cases lowered <;> rfl

end

/-- If items of one kind are numbered from the front, then the item at a place is found under the number
at this place. -/
theorem numbered_places {α β γ : Type} {f : α → Option γ} {g : β → Option Nat} {xs : List α}
    {ys : List β} (alike : List.Forall₂ (fun x y => (g y).isSome = (f x).isSome) xs ys)
    (before : List γ)
    (numbers : ys.filterMap g = List.range' before.length (xs.filterMap f).length) :
    List.Forall₂ (fun x y => (g y).bind ((before ++ xs.filterMap f)[·]?) = f x) xs ys := by
  induction alike generalizing before with
  | nil => exact .nil
  | @cons x y xs ys same _ ih =>
    cases item : f x with
    | none =>
      have number : g y = none := by simpa [item] using same
      rw [List.filterMap_cons_none item] at numbers ⊢
      rw [List.filterMap_cons_none number] at numbers
      exact .cons (by rw [number, item]; rfl) (ih before numbers)
    | some c =>
      obtain ⟨i, number⟩ : ∃ i, g y = some i := Option.isSome_iff_exists.mp (by simp [same, item])
      rw [List.filterMap_cons_some item] at numbers ⊢
      rw [List.filterMap_cons_some number, List.length_cons, List.range'_succ] at numbers
      obtain ⟨rfl, rest⟩ := List.cons.inj numbers
      have later := ih (before ++ [c]) (by simpa using rest)
      rw [List.append_assoc, List.singleton_append] at later
      exact .cons (by simp [number, item]) later

theorem Block.nodes_eq (b : Block) : b.nodes = nodesAll b.instrs := by
  cases b
  rw [Block.nodes, Block.instrs]

/-- A list with the number of each item in front of it. -/
theorem lookup_numbered {α : Type} (xs : List α) (start i : Nat) :
    ((xs.zipIdx start).map Prod.swap).lookup (start + i) = xs[i]? := by
  induction xs generalizing start i with
  | nil => simp
  | cons x xs ih =>
    cases i with
    | zero => simp
    | succ i =>
      have apart : (start + (i + 1) == start) = false := by simp
      simp only [List.zipIdx_cons, List.map_cons, Prod.swap_prod_mk, List.lookup_cons, apart,
        List.getElem?_cons_succ]
      rw [← ih (start + 1) i]
      congr 1
      omega

namespace FunctionDef

variable {f : FunctionDef} {cacheDepth : Nat} {u : CompiledUnit}

/-- A compiled unit holds what is emitted for the nodes of its body. -/
theorem compile_notes (done : f.compile cacheDepth = .ok u) :
    u.emission = Emission.notes (f.context cacheDepth) {} f.nodes ∧
      Numbered (f.context cacheDepth) {} f.nodes (codeNodes u.code) := by
  rw [compile_eq] at done
  cases lowered : lowerAll (f.context cacheDepth) f.body.instrs {} with
  | error e => simp [lowered] at done
  | ok r =>
    obtain ⟨emitted, numbered⟩ :=
      lowerAll_notes (f.context cacheDepth) f.body.instrs {} r.1 r.2 lowered
    rw [lowered] at done
    cases done
    rw [nodes, Block.nodes_eq]
    exact ⟨emitted, numbered⟩

theorem compile_calls (done : f.compile cacheDepth = .ok u) : u.sites.calls.toList =
    f.calls.map fun call => { argCount := call.argCount, maxDepth := cacheDepth } := by
  obtain ⟨emitted, -⟩ := compile_notes done
  have calls := Emission.notes_calls (f.context cacheDepth) (E := {}) f.nodes
  rw [← emitted] at calls
  rw [FunctionDef.calls, ← Node.filterMap_callSite?]
  simpa [CompiledUnit.emission, context] using calls

theorem compile_records (done : f.compile cacheDepth = .ok u) :
    u.registry.next = f.literals.length ∧
      u.registry.records = f.literals.zipIdx.map Prod.swap := by
  obtain ⟨emitted, -⟩ := compile_notes done
  have registry := Emission.notes_registry (f.context cacheDepth) (E := {}) f.nodes
  rw [← emitted] at registry
  simpa [CompiledUnit.emission, context, literals] using registry

/-- The number of a record is the place of its literal. -/
theorem compile_lookup (done : f.compile cacheDepth = .ok u) (id : Nat) :
    u.registry.records.lookup id = f.literals[id]? := by
  rw [(compile_records done).2]
  simpa using lookup_numbered f.literals 0 id

theorem compile_siteCount (done : f.compile cacheDepth = .ok u) :
    u.sites.size = f.siteCount := by
  obtain ⟨emitted, -⟩ := compile_notes done
  have size := Emission.notes_size (f.context cacheDepth) (E := {})
    (Scope.lookup_resolve_eq_none_iff f) f.nodes
  rw [← emitted] at size
  simpa [CompiledUnit.emission, SiteTable.size, siteCount] using size

theorem compile_constants (done : f.compile cacheDepth = .ok u) :
    u.sites.constants.Nodup ∧ u.sites.constants.length = f.texts.toFinset.card := by
  obtain ⟨emitted, -⟩ := compile_notes done
  obtain ⟨distinct, members⟩ :=
    Emission.notes_constants (f.context cacheDepth) (E := {}) f.nodes
  rw [← emitted] at distinct members
  have distinct : u.sites.constants.Nodup := distinct List.nodup_nil
  have same : u.sites.constants.toFinset = f.texts.toFinset := by
    ext s
    simpa [CompiledUnit.emission, texts] using members s
  exact ⟨distinct, by rw [← same, List.toFinset_card_of_nodup distinct]⟩

/-- In the code, calls and literals are numbered as in the tree. -/
theorem compile_numbered (done : f.compile cacheDepth = .ok u) :
    (codeNodes u.code).filterMap Code.callSite? = List.range f.calls.length ∧
      (codeNodes u.code).filterMap Code.record? = List.range f.literals.length := by
  obtain ⟨-, numbered⟩ := compile_notes done
  have count : (f.nodes.filterMap (Node.callSite? cacheDepth)).length = f.calls.length := by
    rw [Node.filterMap_callSite?, List.length_map, calls]
  rw [List.range_eq_range', List.range_eq_range', ← count]
  exact ⟨numbered.calls, numbered.literals⟩

theorem compile_nodes (done : f.compile cacheDepth = .ok u) :
    List.Forall₂ (Lowered u.scope f.global u.emission) (f.nodes.filterMap Node.expr?)
      (codeNodes u.code) := by
  obtain ⟨-, -, -, lowered⟩ := compile_ok done
  rw [nodes, Block.nodes_eq]
  exact LoweredAll.nodes _ lowered

/-- The number of a call is its place among the calls of the body. -/
theorem compile_call_places (done : f.compile cacheDepth = .ok u) :
    List.Forall₂ (fun e code => code.callSite?.bind (f.calls[·]?) = (Node.expr e).call?)
      (f.nodes.filterMap Node.expr?) (codeNodes u.code) := by
  have listed : (f.nodes.filterMap Node.expr?).filterMap (fun e => (Node.expr e).call?) =
      f.calls := by
    rw [List.filterMap_filterMap, calls]
    congr 1
    funext n
    cases n <;> rfl
  have places := numbered_places ((compile_nodes done).imp fun _ _ lowered => lowered.isSome_callSite?)
    [] (by rw [(compile_numbered done).1, listed, List.range_eq_range', List.length_nil])
  simpa only [listed, List.nil_append] using places

/-- The number of a literal is its place among the literals of the body. -/
theorem compile_literal_places (done : f.compile cacheDepth = .ok u) :
    List.Forall₂ (fun e code => code.record?.bind (f.literals[·]?) = (Node.expr e).literal? f.global)
      (f.nodes.filterMap Node.expr?) (codeNodes u.code) := by
  have listed : (f.nodes.filterMap Node.expr?).filterMap (fun e => (Node.expr e).literal? f.global) =
      f.literals := by
    rw [List.filterMap_filterMap, literals]
    congr 1
    funext n
    cases n <;> rfl
  have places := numbered_places ((compile_nodes done).imp fun _ _ lowered => lowered.isSome_record?)
    [] (by rw [(compile_numbered done).2, listed, List.range_eq_range', List.length_nil])
  simpa only [listed, List.nil_append] using places

end FunctionDef

end ScriptEngine
