import ScriptEngine.Code.Basic

/-!
# From trees to code

A body is lowered in evaluation order: a node's parts before the node, left to right. Sites, constants
and records of function literals are emitted on the way, also for code that can never run. An
assignment to a name without a slot can not be lowered.
-/

namespace ScriptEngine

/-- What is known about the function whose body is lowered. -/
structure LoweringContext where
  scope : Scope
  global : ObjectId
  /-- How many guards its call sites may hold. -/
  cacheDepth : Nat

/-- What was emitted so far. -/
structure Emission where
  sites : SiteTable := {}
  registry : Registry := {}

namespace Emission

def addLookup (e : Emission) (name : String) : Nat × Emission :=
  (e.sites.lookups.size,
    { e with sites := { e.sites with lookups := e.sites.lookups.push { name } } })

def addRegistration (e : Emission) (name : String) : Nat × Emission :=
  (e.sites.registrations.size,
    { e with sites := { e.sites with registrations := e.sites.registrations.push { name } } })

def addField (e : Emission) (name : String) : FieldSite × Emission :=
  ({ name }, { e with sites := { e.sites with fields := e.sites.fields.push { name } } })

def addMethod (e : Emission) (name : String) (argCount : Nat) : MethodSite × Emission :=
  ({ name, argCount },
    { e with sites := { e.sites with methods := e.sites.methods.push { name, argCount } } })

def addCall (e : Emission) (argCount maxDepth : Nat) : Nat × Emission :=
  (e.sites.calls.size,
    { e with sites := { e.sites with calls := e.sites.calls.push { argCount, maxDepth } } })

/-- Put a literal on record; its site has the number of the record. -/
def addFunction (e : Emission) (f : FunctionDef) : Nat × Emission :=
  let (id, registry) := e.registry.register f
  (id, { sites := { e.sites with functions := e.sites.functions.push { id } }, registry })

def addConstant (e : Emission) (s : String) : Unit × Emission :=
  ((), { e with sites := e.sites.intern s })

end Emission

abbrev Lowering := StateT Emission (Except CompileError)

/-- Emit something that can always be emitted. -/
def emit {α : Type} (f : Emission → α × Emission) : Lowering α := fun e => .ok (f e)

mutual

/-- The code of one node. -/
def lowerExpr (ctx : LoweringContext) : Expr → Lowering Code
  | .block body => do return .block (← lowerBlock ctx body)
  | .literal (.int n) _ => return .int n
  | .literal (.text s) _ => do
      emit (·.addConstant s)
      return .text s
  | .call callee args _ => do
      let callee ← lowerExpr ctx callee
      let args ← lowerAll ctx args
      return .call callee args (← emit (·.addCall args.length ctx.cacheDepth))
  | .var name _ =>
      match ctx.scope.lookup name with
      | some slot => return .load slot
      | none => do return .loadGlobal name (← emit (·.addLookup name))
  | .assign name value _ line => do
      let value ← lowerExpr ctx value
      match ctx.scope.lookup name with
      | some slot => return .store slot value
      | none => throw (.unknownVariable name line)
  | .function name params body _ => do
      let id ← emit (·.addFunction { name, params, body, global := ctx.global })
      match name with
      | some name => return .function id (some (name, ← emit (·.addRegistration name)))
      | none => return .function id none
  | .ret value _ => do return .ret (← lowerExpr ctx value)
  | .cond condition yes no _ => do
      let condition ← lowerExpr ctx condition
      let yes ← lowerBlock ctx yes
      let no ← lowerBlock ctx no
      return .branch condition yes no
  | .object entries _ => do return .object (← lowerEntries ctx entries)
  | .field receiver name _ => do
      let receiver ← lowerExpr ctx receiver
      return .getField receiver (← emit (·.addField name))
  | .setField receiver name value _ => do
      let receiver ← lowerExpr ctx receiver
      let value ← lowerExpr ctx value
      return .setField receiver value (← emit (·.addField name))
  | .method receiver name args _ => do
      let receiver ← lowerExpr ctx receiver
      let args ← lowerAll ctx args
      return .method receiver args (← emit (·.addMethod name args.length))

def lowerBlock (ctx : LoweringContext) : Block → Lowering (List Code)
  | .mk instrs _ => lowerAll ctx instrs

def lowerAll (ctx : LoweringContext) : List Expr → Lowering (List Code)
  | [] => return []
  | e :: es => do
      let code ← lowerExpr ctx e
      return code :: (← lowerAll ctx es)

def lowerEntries (ctx : LoweringContext) : List (String × Expr) → Lowering (List (Code × FieldSite))
  | [] => return []
  | (key, e) :: es => do
      let code ← lowerExpr ctx e
      let site ← emit (·.addField key)
      return (code, site) :: (← lowerEntries ctx es)

end

/-- Compile a function. -/
def FunctionDef.compile (f : FunctionDef) (cacheDepth : Nat) : Except CompileError CompiledUnit := do
  let scope := Scope.resolve f.params f.body
  let (code, emitted) ← lowerBlock { scope, global := f.global, cacheDepth } f.body {}
  return { definition := f, scope, code, sites := emitted.sites, registry := emitted.registry }

end ScriptEngine
