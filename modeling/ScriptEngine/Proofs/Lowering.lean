import ScriptEngine.Proofs.Scope

/-!
# What lowering makes of a tree

Lowering only ever adds to what was emitted, so that a site keeps its number. The code of a body is its
tree with every local name replaced by its slot and every dynamic operation tied to a site made for it.
A body is lowered unless it assigns to a name that is not local, and the first such assignment is the
one reported.
-/

namespace ScriptEngine

namespace Emission

/-- What `e` holds is held by `e'` under the same numbers. -/
structure Extends (e e' : Emission) : Prop where
  lookups : ∀ (i : Nat) s, e.sites.lookups[i]? = some s → e'.sites.lookups[i]? = some s
  registrations : ∀ (i : Nat) s,
    e.sites.registrations[i]? = some s → e'.sites.registrations[i]? = some s
  calls : ∀ (i : Nat) s, e.sites.calls[i]? = some s → e'.sites.calls[i]? = some s
  literals : ∀ id f, e.registry.records.lookup id = some f → e'.registry.records.lookup id = some f

theorem Extends.refl (e : Emission) : e.Extends e :=
  ⟨fun _ _ => id, fun _ _ => id, fun _ _ => id, fun _ _ => id⟩

theorem Extends.trans {e₁ e₂ e₃ : Emission} (first : e₁.Extends e₂) (second : e₂.Extends e₃) :
    e₁.Extends e₃ where
  lookups i s found := second.lookups i s (first.lookups i s found)
  registrations i s found := second.registrations i s (first.registrations i s found)
  calls i s found := second.calls i s (first.calls i s found)
  literals id f found := second.literals id f (first.literals id f found)

/-- No site was used yet, and the records are numbered like the sites of their literals. -/
structure Fresh (e : Emission) : Prop where
  lookups : ∀ (i : Nat) s, e.sites.lookups[i]? = some s → s.bound = none
  registrations : ∀ (i : Nat) s, e.sites.registrations[i]? = some s → s.bound = none
  calls : ∀ (i : Nat) s, e.sites.calls[i]? = some s → s.strategy = .guarded []
  functions : ∀ i, i < e.registry.next → e.sites.functions[i]? = some { id := i }
  size : e.sites.functions.size = e.registry.next
  records : ∀ id f, (id, f) ∈ e.registry.records → id < e.registry.next

theorem fresh_empty : Fresh {} := by
  constructor <;> simp

theorem push_old {α : Type} {xs : Array α} {i : Nat} {x y : α} (found : xs[i]? = some x) :
    (xs.push y)[i]? = some x := by
  obtain ⟨inside, _⟩ := Array.getElem?_eq_some_iff.mp found
  rw [Array.getElem?_push, if_neg (Nat.ne_of_lt inside), found]

theorem push_cases {α : Type} {xs : Array α} {i : Nat} {x y : α}
    (found : (xs.push y)[i]? = some x) : xs[i]? = some x ∨ x = y := by
  rw [Array.getElem?_push] at found
  split at found
  · exact Or.inr (Option.some.inj found).symm
  · exact Or.inl found

theorem push_all {α : Type} {xs : Array α} {P : α → Prop} {y : α}
    (old : ∀ (i : Nat) x, xs[i]? = some x → P x) (new : P y) :
    ∀ (i : Nat) x, (xs.push y)[i]? = some x → P x := by
  intro i x found
  rcases push_cases found with held | rfl
  · exact old i x held
  · exact new

theorem lookup_missing {e : Emission} (fresh : e.Fresh) :
    e.registry.records.lookup e.registry.next = none := by
  cases found : e.registry.records.lookup e.registry.next with
  | none => rfl
  | some f =>
    obtain ⟨before, after, split, _⟩ := List.lookup_eq_some_iff.mp found
    have member : (e.registry.next, f) ∈ e.registry.records := by simp [split]
    exact absurd (fresh.records _ f member) (Nat.lt_irrefl _)

/-- One operation of emitting: it keeps what was there and leaves every site unused. -/
def Adds (e e' : Emission) : Prop := e.Fresh → e'.Fresh ∧ e.Extends e'

theorem addLookup_adds (e : Emission) (name : String) : e.Adds (e.addLookup name).2 := fun fresh =>
  ⟨{ fresh with lookups := push_all fresh.lookups rfl },
    { Extends.refl e with lookups := fun _ _ => push_old }⟩

theorem addRegistration_adds (e : Emission) (name : String) :
    e.Adds (e.addRegistration name).2 := fun fresh =>
  ⟨{ fresh with registrations := push_all fresh.registrations rfl },
    { Extends.refl e with registrations := fun _ _ => push_old }⟩

theorem addCall_adds (e : Emission) (argCount maxDepth : Nat) :
    e.Adds (e.addCall argCount maxDepth).2 := fun fresh =>
  ⟨{ fresh with calls := push_all fresh.calls rfl },
    { Extends.refl e with calls := fun _ _ => push_old }⟩

theorem addField_adds (e : Emission) (name : String) : e.Adds (e.addField name).2 := fun fresh =>
  ⟨{ fresh with }, { Extends.refl e with }⟩

theorem addMethod_adds (e : Emission) (name : String) (argCount : Nat) :
    e.Adds (e.addMethod name argCount).2 := fun fresh => ⟨{ fresh with }, { Extends.refl e with }⟩

theorem addConstant_adds (e : Emission) (s : String) : e.Adds (e.addConstant s).2 := by
  intro fresh
  by_cases known : s ∈ e.sites.constants
  · have same : (e.addConstant s).2 = e := by simp [addConstant, SiteTable.intern, known]
    rw [same]
    exact ⟨fresh, Extends.refl e⟩
  · have same : (e.addConstant s).2 =
        { e with sites := { e.sites with constants := e.sites.constants ++ [s] } } := by
      simp [addConstant, SiteTable.intern, known]
    rw [same]
    exact ⟨{ fresh with }, { Extends.refl e with }⟩

theorem addFunction_adds (e : Emission) (f : FunctionDef) : e.Adds (e.addFunction f).2 := by
  intro fresh
  refine ⟨{ fresh with functions := ?_, size := ?_, records := ?_ },
    { Extends.refl e with literals := ?_ }⟩
  · intro i below
    have below : i < e.registry.next + 1 := below
    by_cases last : i = e.registry.next
    · subst i
      change (e.sites.functions.push { id := e.registry.next })[e.registry.next]? = _
      rw [Array.getElem?_push, if_pos fresh.size.symm]
    · exact push_old (fresh.functions i (by omega))
  · simp [addFunction, Registry.register, fresh.size]
  · intro id g member
    simp only [addFunction, Registry.register, List.mem_append, List.mem_singleton,
      Prod.mk.injEq] at member ⊢
    rcases member with old | ⟨rfl, _⟩
    · exact Nat.lt_succ_of_lt (fresh.records id g old)
    · exact Nat.lt_succ_self _
  · intro id g found
    simp [addFunction, Registry.register, List.lookup_append, found]

theorem addFunction_literal {e : Emission} (fresh : e.Fresh) (f : FunctionDef) :
    (e.addFunction f).2.registry.records.lookup (e.addFunction f).1 = some f := by
  simp [addFunction, Registry.register, List.lookup_append, lookup_missing fresh]

end Emission

namespace Lowering

variable {α β : Type}

theorem bind_ok {x : Lowering α} {g : α → Lowering β} {e e'' : Emission} {b : β}
    (done : (x >>= g) e = .ok (b, e'')) : ∃ a e', x e = .ok (a, e') ∧ g a e' = .ok (b, e'') := by
  cases first : x e with
  | error err => simp [bind, StateT.bind, Except.bind, first] at done
  | ok pair =>
    refine ⟨pair.1, pair.2, rfl, ?_⟩
    simpa [bind, StateT.bind, Except.bind, first] using done

theorem pure_ok {a b : α} {e e' : Emission} (done : (pure a : Lowering α) e = .ok (b, e')) :
    a = b ∧ e = e' := by
  have both : (a, e) = (b, e') := Except.ok.inj done
  exact Prod.mk.inj both

theorem emit_ok {f : Emission → α × Emission} {e e' : Emission} {a : α}
    (done : emit f e = .ok (a, e')) : (f e).1 = a ∧ (f e).2 = e' := by
  have both : f e = (a, e') := Except.ok.inj done
  simp [both]

/-- Started from unused sites, the computation only adds unused ones, and `P` holds of its result
and of everything that may be emitted later. -/
def Makes (x : Lowering α) (P : Emission → α → Prop) : Prop :=
  ∀ e a e', e.Fresh → x e = .ok (a, e') →
    e'.Fresh ∧ e.Extends e' ∧ ∀ E, e'.Extends E → P E a

theorem makes_pure {a : α} {P : Emission → α → Prop} (holds : ∀ E, P E a) :
    Makes (pure a) P := by
  intro e b e' fresh done
  obtain ⟨rfl, rfl⟩ := pure_ok done
  exact ⟨fresh, .refl e, fun E _ => holds E⟩

theorem makes_throw (err : CompileError) (P : Emission → α → Prop) :
    Makes (throw err) P := by
  intro e a e' _ done
  cases done

theorem makes_emit {f : Emission → α × Emission} {P : Emission → α → Prop}
    (adds : ∀ e : Emission, e.Adds (f e).2)
    (holds : ∀ e : Emission, e.Fresh → ∀ E, (f e).2.Extends E → P E (f e).1) :
    Makes (emit f) P := by
  intro e a e' fresh done
  obtain ⟨rfl, rfl⟩ := emit_ok done
  obtain ⟨fresh', grows⟩ := adds e fresh
  exact ⟨fresh', grows, holds e fresh⟩

/-- What the first part has made is still there when the second part is done. -/
theorem makes_bind {x : Lowering α} {g : α → Lowering β} {P : Emission → α → Prop}
    {Q : Emission → β → Prop} (left : Makes x P)
    (right : ∀ a, Makes (g a) fun E b => P E a → Q E b) : Makes (x >>= g) Q := by
  intro e b e'' fresh done
  obtain ⟨a, e', doneLeft, doneRight⟩ := bind_ok done
  obtain ⟨fresh', grows', holds'⟩ := left e a e' fresh doneLeft
  -- `P` was promised for all that is emitted later, so it survives the second part
  obtain ⟨fresh'', grows'', holds''⟩ := right a e' b e'' fresh' doneRight
  exact ⟨fresh'', grows'.trans grows'', fun E later =>
    holds'' E later (holds' E (grows''.trans later))⟩

end Lowering

mutual

/-- `code` is the code of a node, where `E` holds the sites it is tied to. -/
inductive Lowered (scope : Scope) (global : ObjectId) (E : Emission) : Expr → Code → Prop
  | block {instrs line body} : LoweredAll scope global E instrs body →
      Lowered scope global E (.block (.mk instrs line)) (.block body)
  | int {n line} : Lowered scope global E (.literal (.int n) line) (.int n)
  | text {s line} : Lowered scope global E (.literal (.text s) line) (.text s)
  | call {callee args line code codes site s} : Lowered scope global E callee code →
      LoweredAll scope global E args codes → E.sites.calls[site]? = some s →
      s.argCount = args.length →
      Lowered scope global E (.call callee args line) (.call code codes site)
  | load {name line slot} : scope.lookup name = some slot →
      Lowered scope global E (.var name line) (.load slot)
  | loadGlobal {name line} {site : Nat} : scope.lookup name = none →
      E.sites.lookups[site]? = some { name } →
      Lowered scope global E (.var name line) (.loadGlobal name site)
  | assign {name value declares line slot code} : Lowered scope global E value code →
      scope.lookup name = some slot →
      Lowered scope global E (.assign name value declares line) (.store slot code)
  | function {params body line id} :
      E.registry.records.lookup id = some { name := none, params, body, global } →
      Lowered scope global E (.function none params body line) (.function id none)
  | named {name params body line id} {site : Nat} :
      E.registry.records.lookup id = some { name := some name, params, body, global } →
      E.sites.registrations[site]? = some { name } →
      Lowered scope global E (.function (some name) params body line)
        (.function id (some (name, site)))
  | ret {value line code} : Lowered scope global E value code →
      Lowered scope global E (.ret value line) (.ret code)
  | cond {condition yes no line yesLine noLine code yesCode noCode} :
      Lowered scope global E condition code → LoweredAll scope global E yes yesCode →
      LoweredAll scope global E no noCode →
      Lowered scope global E (.cond condition (.mk yes yesLine) (.mk no noLine) line)
        (.branch code yesCode noCode)
  | object {entries line codes} : LoweredEntries scope global E entries codes →
      Lowered scope global E (.object entries line) (.object codes)
  | field {receiver name line code} : Lowered scope global E receiver code →
      Lowered scope global E (.field receiver name line) (.getField code { name })
  | setField {receiver name value line code valueCode} : Lowered scope global E receiver code →
      Lowered scope global E value valueCode →
      Lowered scope global E (.setField receiver name value line)
        (.setField code valueCode { name })
  | method {receiver name args line code codes argCount} : Lowered scope global E receiver code →
      LoweredAll scope global E args codes →
      Lowered scope global E (.method receiver name args line)
        (.method code codes { name, argCount })

inductive LoweredAll (scope : Scope) (global : ObjectId) (E : Emission) :
    List Expr → List Code → Prop
  | nil : LoweredAll scope global E [] []
  | cons {e es code codes} : Lowered scope global E e code → LoweredAll scope global E es codes →
      LoweredAll scope global E (e :: es) (code :: codes)

inductive LoweredEntries (scope : Scope) (global : ObjectId) (E : Emission) :
    List (String × Expr) → List (Code × FieldSite) → Prop
  | nil : LoweredEntries scope global E [] []
  | cons {key e es code codes} : Lowered scope global E e code →
      LoweredEntries scope global E es codes →
      LoweredEntries scope global E ((key, e) :: es) ((code, { name := key }) :: codes)

end

theorem LoweredAll.length_eq {scope : Scope} {global : ObjectId} {E : Emission} {es : List Expr}
    {codes : List Code} (lowered : LoweredAll scope global E es codes) :
    codes.length = es.length := by
  induction es generalizing codes with
  | nil => cases lowered; rfl
  | cons e es ih =>
    cases lowered with
    | cons _ rest => simp [ih rest]

section
open Lowering

mutual

theorem lowerExpr_makes (ctx : LoweringContext) :
    (e : Expr) → Makes (lowerExpr ctx e) fun E code => Lowered ctx.scope ctx.global E e code
  | .block (.mk instrs line) => by
    rw [lowerExpr, lowerBlock]
    exact makes_bind (lowerAll_makes ctx instrs) fun _ => makes_pure fun _ body => .block body
  | .literal (.int n) line => by
    rw [lowerExpr]
    exact makes_pure fun _ => .int
  | .literal (.text s) line => by
    rw [lowerExpr]
    exact makes_bind (makes_emit (P := fun _ _ => True) (·.addConstant_adds s) (by simp))
      fun _ => makes_pure fun _ _ => .text
  | .call callee args line => by
    rw [lowerExpr]
    refine makes_bind (lowerExpr_makes ctx callee) fun _ =>
      makes_bind (lowerAll_makes ctx args) fun codes =>
        makes_bind (P := fun E site => ∃ s, E.sites.calls[site]? = some s ∧
          s.argCount = codes.length) (makes_emit (·.addCall_adds _ _) ?_) fun _ =>
          makes_pure ?_
    · intro e fresh E later
      exact ⟨{ argCount := codes.length, maxDepth := ctx.cacheDepth },
        later.calls _ _ (by simp [Emission.addCall]), rfl⟩
    · rintro E ⟨s, site, count⟩ args callee
      exact .call callee args site (count.trans args.length_eq)
  | .var name line => by
    rw [lowerExpr]
    split
    · rename_i slot found
      exact makes_pure fun _ => .load found
    · rename_i free
      refine makes_bind (P := fun E site => E.sites.lookups[site]? = some { name })
        (makes_emit (·.addLookup_adds name) ?_) fun _ => makes_pure fun _ => .loadGlobal free
      intro e fresh E later
      exact later.lookups _ _ (by simp [Emission.addLookup])
  | .assign name value declares line => by
    rw [lowerExpr]
    refine makes_bind (lowerExpr_makes ctx value) fun _ => ?_
    split
    · rename_i slot found
      exact makes_pure fun _ value => .assign value found
    · exact makes_throw _ _
  | .function none params body line => by
    rw [lowerExpr]
    refine makes_bind (makes_emit (·.addFunction_adds _) ?_) fun _ =>
      makes_pure fun _ => .function
    intro e fresh E later
    exact later.literals _ _ (Emission.addFunction_literal fresh _)
  | .function (some name) params body line => by
    rw [lowerExpr]
    refine makes_bind (P := fun E id =>
        E.registry.records.lookup id = some { name := some name, params, body, global := ctx.global })
      (makes_emit (·.addFunction_adds _) ?_) fun _ =>
      makes_bind (P := fun E site => E.sites.registrations[site]? = some { name })
        (makes_emit (·.addRegistration_adds name) ?_) fun _ =>
          makes_pure fun _ site literal => .named literal site
    · intro e fresh E later
      exact later.literals _ _ (Emission.addFunction_literal fresh _)
    · intro e fresh E later
      exact later.registrations _ _ (by simp [Emission.addRegistration])
  | .ret value line => by
    rw [lowerExpr]
    exact makes_bind (lowerExpr_makes ctx value) fun _ => makes_pure fun _ => .ret
  | .cond condition (.mk yes yesLine) (.mk no noLine) line => by
    rw [lowerExpr, lowerBlock, lowerBlock]
    exact makes_bind (lowerExpr_makes ctx condition) fun _ =>
      makes_bind (lowerAll_makes ctx yes) fun _ =>
        makes_bind (lowerAll_makes ctx no) fun _ =>
          makes_pure fun _ no yes condition => .cond condition yes no
  | .object entries line => by
    rw [lowerExpr]
    exact makes_bind (lowerEntries_makes ctx entries) fun _ => makes_pure fun _ => .object
  | .field receiver name line => by
    rw [lowerExpr]
    refine makes_bind (lowerExpr_makes ctx receiver) fun _ =>
      makes_bind (P := fun _ site => site = { name }) (makes_emit (·.addField_adds name) ?_)
        fun _ => makes_pure ?_
    · intro e fresh E later
      rfl
    · rintro E rfl receiver
      exact .field receiver
  | .setField receiver name value line => by
    rw [lowerExpr]
    refine makes_bind (lowerExpr_makes ctx receiver) fun _ =>
      makes_bind (lowerExpr_makes ctx value) fun _ =>
        makes_bind (P := fun _ site => site = { name }) (makes_emit (·.addField_adds name) ?_)
          fun _ => makes_pure ?_
    · intro e fresh E later
      rfl
    · rintro E rfl value receiver
      exact .setField receiver value
  | .method receiver name args line => by
    rw [lowerExpr]
    refine makes_bind (lowerExpr_makes ctx receiver) fun _ =>
      makes_bind (lowerAll_makes ctx args) fun codes =>
        makes_bind (P := fun _ site => site = { name, argCount := codes.length })
          (makes_emit (·.addMethod_adds name _) ?_) fun _ => makes_pure ?_
    · intro e fresh E later
      rfl
    · rintro E rfl args receiver
      exact .method receiver args

theorem lowerAll_makes (ctx : LoweringContext) :
    (es : List Expr) → Makes (lowerAll ctx es) fun E codes => LoweredAll ctx.scope ctx.global E es codes
  | [] => by
    rw [lowerAll]
    exact makes_pure fun _ => .nil
  | e :: es => by
    rw [lowerAll]
    exact makes_bind (lowerExpr_makes ctx e) fun _ =>
      makes_bind (lowerAll_makes ctx es) fun _ => makes_pure fun _ rest first => .cons first rest

theorem lowerEntries_makes (ctx : LoweringContext) :
    (es : List (String × Expr)) →
      Makes (lowerEntries ctx es) fun E codes => LoweredEntries ctx.scope ctx.global E es codes
  | [] => by
    rw [lowerEntries]
    exact makes_pure fun _ => .nil
  | (key, e) :: es => by
    rw [lowerEntries]
    refine makes_bind (lowerExpr_makes ctx e) fun _ =>
      makes_bind (P := fun _ site => site = { name := key })
        (makes_emit (·.addField_adds key) ?_) fun _ =>
        makes_bind (lowerEntries_makes ctx es) fun _ => makes_pure ?_
    · intro e fresh E later
      rfl
    · rintro E rest rfl first
      exact .cons first rest

end

end

/-- The first assignment to a name without a slot. -/
def Scope.fault (s : Scope) (assignments : List (String × UInt32)) : Option CompileError :=
  (assignments.find? fun a => (s.lookup a.1).isNone).map fun a => .unknownVariable a.1 a.2

theorem Scope.fault_append (s : Scope) (first second : List (String × UInt32)) :
    s.fault (first ++ second) = (s.fault first).or (s.fault second) := by
  simp only [Scope.fault, List.find?_append]
  cases first.find? fun a => (s.lookup a.1).isNone <;> simp

namespace Lowering

variable {α β : Type}

/-- Whatever was emitted before, the computation ends with the given fault, and well if there is
none. -/
def Fails (x : Lowering α) : Option CompileError → Prop
  | some err => ∀ e, x e = .error err
  | none => ∀ e, ∃ r, x e = .ok r

theorem fails_pure (a : α) : Fails (pure a) none := fun e => ⟨(a, e), rfl⟩

theorem fails_throw (err : CompileError) : Fails (throw err : Lowering α) (some err) := fun _ => rfl

theorem fails_emit (f : Emission → α × Emission) : Fails (emit f) none := fun e => ⟨f e, rfl⟩

theorem fails_bind {x : Lowering α} {g : α → Lowering β} {first second : Option CompileError}
    (left : Fails x first) (right : ∀ a, Fails (g a) second) :
    Fails (x >>= g) (first.or second) := by
  cases first with
  | some err =>
    intro e
    simp [bind, StateT.bind, Except.bind, left e]
  | none =>
    cases second with
    | some err =>
      intro e
      obtain ⟨r, done⟩ := left e
      simp [bind, StateT.bind, Except.bind, done, right r.1 r.2]
    | none =>
      intro e
      obtain ⟨r, done⟩ := left e
      obtain ⟨r', done'⟩ := right r.1 r.2
      exact ⟨r', by simp [bind, StateT.bind, Except.bind, done, done']⟩

/-- Only the first part can fail. -/
theorem fails_then {x : Lowering α} {g : α → Lowering β} {fault : Option CompileError}
    (left : Fails x fault) (right : ∀ a, Fails (g a) none) : Fails (x >>= g) fault := by
  have both := fails_bind left right
  rwa [Option.or_none] at both

end Lowering

section
open Lowering

mutual

theorem lowerExpr_fails (ctx : LoweringContext) :
    (e : Expr) → Fails (lowerExpr ctx e) (ctx.scope.fault e.assignments)
  | .block (.mk instrs line) => by
    rw [lowerExpr, lowerBlock, Expr.assignments, Block.assignments]
    exact fails_then (lowerAll_fails ctx instrs) fun _ => fails_pure _
  | .literal (.int n) line => by
    rw [lowerExpr, Expr.assignments]
    exact fails_pure _
  | .literal (.text s) line => by
    rw [lowerExpr, Expr.assignments]
    exact fails_then (fails_emit _) fun _ => fails_pure _
  | .call callee args line => by
    rw [lowerExpr, Expr.assignments, Scope.fault_append]
    exact fails_bind (lowerExpr_fails ctx callee) fun _ =>
      fails_then (lowerAll_fails ctx args) fun _ => fails_then (fails_emit _) fun _ => fails_pure _
  | .var name line => by
    rw [lowerExpr, Expr.assignments]
    split
    · exact fails_pure _
    · exact fails_then (fails_emit _) fun _ => fails_pure _
  | .assign name value declares line => by
    rw [lowerExpr, Expr.assignments, Scope.fault_append]
    refine fails_bind (lowerExpr_fails ctx value) fun _ => ?_
    cases found : ctx.scope.lookup name with
    | some slot =>
      have fine : ctx.scope.fault [(name, line)] = none := by simp [Scope.fault, found]
      rw [fine]
      exact fails_pure _
    | none =>
      have bad : ctx.scope.fault [(name, line)] = some (.unknownVariable name line) := by
        simp [Scope.fault, found]
      rw [bad]
      exact fails_throw _
  | .function name params body line => by
    rw [lowerExpr, Expr.assignments]
    refine fails_then (fails_emit _) fun _ => ?_
    split
    · exact fails_then (fails_emit _) fun _ => fails_pure _
    · exact fails_pure _
  | .ret value line => by
    rw [lowerExpr, Expr.assignments]
    exact fails_then (lowerExpr_fails ctx value) fun _ => fails_pure _
  | .cond condition (.mk yes yesLine) (.mk no noLine) line => by
    rw [lowerExpr, lowerBlock, lowerBlock, Expr.assignments, Block.assignments, Block.assignments,
      Scope.fault_append, Scope.fault_append]
    exact fails_bind (lowerExpr_fails ctx condition) fun _ =>
      fails_bind (lowerAll_fails ctx yes) fun _ =>
        fails_then (lowerAll_fails ctx no) fun _ => fails_pure _
  | .object entries line => by
    rw [lowerExpr, Expr.assignments]
    exact fails_then (lowerEntries_fails ctx entries) fun _ => fails_pure _
  | .field receiver name line => by
    rw [lowerExpr, Expr.assignments]
    exact fails_then (lowerExpr_fails ctx receiver) fun _ =>
      fails_then (fails_emit _) fun _ => fails_pure _
  | .setField receiver name value line => by
    rw [lowerExpr, Expr.assignments, Scope.fault_append]
    exact fails_bind (lowerExpr_fails ctx receiver) fun _ =>
      fails_then (lowerExpr_fails ctx value) fun _ =>
        fails_then (fails_emit _) fun _ => fails_pure _
  | .method receiver name args line => by
    rw [lowerExpr, Expr.assignments, Scope.fault_append]
    exact fails_bind (lowerExpr_fails ctx receiver) fun _ =>
      fails_then (lowerAll_fails ctx args) fun _ => fails_then (fails_emit _) fun _ => fails_pure _

theorem lowerAll_fails (ctx : LoweringContext) :
    (es : List Expr) → Fails (lowerAll ctx es) (ctx.scope.fault (assignmentsAll es))
  | [] => by
    rw [lowerAll, assignmentsAll]
    exact fails_pure _
  | e :: es => by
    rw [lowerAll, assignmentsAll, Scope.fault_append]
    exact fails_bind (lowerExpr_fails ctx e) fun _ =>
      fails_then (lowerAll_fails ctx es) fun _ => fails_pure _

theorem lowerEntries_fails (ctx : LoweringContext) :
    (es : List (String × Expr)) →
      Fails (lowerEntries ctx es) (ctx.scope.fault (assignmentsEntries es))
  | [] => by
    rw [lowerEntries, assignmentsEntries]
    exact fails_pure _
  | (key, e) :: es => by
    rw [lowerEntries, assignmentsEntries, Scope.fault_append]
    exact fails_bind (lowerExpr_fails ctx e) fun _ =>
      fails_bind (fails_emit _) fun _ =>
        fails_then (lowerEntries_fails ctx es) fun _ => fails_pure _

end

end

/-- What was emitted for a unit. -/
def CompiledUnit.emission (u : CompiledUnit) : Emission := { sites := u.sites, registry := u.registry }

theorem lowerBlock_eq (ctx : LoweringContext) (b : Block) :
    lowerBlock ctx b = lowerAll ctx b.instrs := by
  cases b
  rw [lowerBlock, Block.instrs]

theorem Block.assignments_eq (b : Block) : b.assignments = assignmentsAll b.instrs := by
  cases b
  rw [Block.assignments, Block.instrs]

namespace FunctionDef

/-- The context in which the body of a function is lowered. -/
def context (f : FunctionDef) (cacheDepth : Nat) : LoweringContext :=
  { scope := Scope.resolve f.params f.body, global := f.global, cacheDepth }

theorem compile_eq (f : FunctionDef) (cacheDepth : Nat) :
    f.compile cacheDepth =
      match lowerAll (f.context cacheDepth) f.body.instrs {} with
      | .error e => .error e
      | .ok (code, emitted) => .ok {
          definition := f, scope := Scope.resolve f.params f.body, code
          sites := emitted.sites, registry := emitted.registry } := by
  rw [← lowerBlock_eq]
  cases done : lowerBlock (f.context cacheDepth) f.body {} with
  | error e =>
    simp only [context] at done
    simp [compile, done, bind, Except.bind]
  | ok r =>
    simp only [context] at done
    simp [compile, done, bind, Except.bind, pure, Except.pure]

theorem check_eq (f : FunctionDef) :
    f.check = match (Scope.resolve f.params f.body).fault f.body.assignments with
      | some e => .error e
      | none => .ok () := by
  have same : (fun a : String × UInt32 => decide (a.1 ∉ f.locals)) =
      fun a => ((Scope.resolve f.params f.body).lookup a.1).isNone := by
    funext a
    have free := Scope.lookup_resolve_eq_none_iff f a.1
    rw [Bool.eq_iff_iff, decide_eq_true_iff, Option.isNone_iff_eq_none, free]
  simp only [check, Scope.fault, same]
  cases f.body.assignments.find? fun a => ((Scope.resolve f.params f.body).lookup a.1).isNone <;> rfl

/-- Compiling fails exactly as the check of the assignments does. -/
theorem compile_of_check_error {f : FunctionDef} {e : CompileError} (failed : f.check = .error e)
    (cacheDepth : Nat) : f.compile cacheDepth = .error e := by
  have fails := lowerAll_fails (f.context cacheDepth) f.body.instrs
  rw [← Block.assignments_eq] at fails
  rw [check_eq] at failed
  cases fault : (Scope.resolve f.params f.body).fault f.body.assignments with
  | none => simp [fault] at failed
  | some e' =>
    obtain rfl : e' = e := by simpa [fault] using failed
    simp only [context, fault] at fails
    rw [compile_eq, context, fails]

theorem compile_of_check_ok {f : FunctionDef} (passed : f.check = .ok ()) (cacheDepth : Nat) :
    ∃ u, f.compile cacheDepth = .ok u := by
  have fails := lowerAll_fails (f.context cacheDepth) f.body.instrs
  rw [← Block.assignments_eq] at fails
  rw [check_eq] at passed
  cases fault : (Scope.resolve f.params f.body).fault f.body.assignments with
  | some e => simp [fault] at passed
  | none =>
    simp only [context, fault] at fails
    obtain ⟨r, done⟩ := fails {}
    exact ⟨_, by rw [compile_eq, context, done]⟩

/-- A compiled unit: its scope is resolved, its code is the code of its body, its sites are unused. -/
theorem compile_ok {f : FunctionDef} {cacheDepth : Nat} {u : CompiledUnit}
    (done : f.compile cacheDepth = .ok u) :
    u.definition = f ∧ u.scope = Scope.resolve f.params f.body ∧ u.emission.Fresh ∧
      LoweredAll u.scope f.global u.emission f.body.instrs u.code := by
  rw [compile_eq] at done
  cases lowered : lowerAll (f.context cacheDepth) f.body.instrs {} with
  | error e => simp [lowered] at done
  | ok r =>
    obtain ⟨fresh, -, holds⟩ := lowerAll_makes (f.context cacheDepth) f.body.instrs {} r.1 r.2
      Emission.fresh_empty lowered
    rw [lowered] at done
    cases done
    exact ⟨rfl, rfl, fresh, holds r.2 (.refl r.2)⟩

end FunctionDef

end ScriptEngine
