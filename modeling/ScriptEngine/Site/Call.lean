import ScriptEngine.Heap.Basic
import ScriptEngine.Event

/-!
# Call sites

A call site remembers the functions it has called. Each function it resolves for the first time is put
in front of a chain of guards; a later call of the same function finds its entry there and is checked
no further. When the chain is full the next new function makes the site give up its guards, and from
then on every call is resolved afresh.
-/

namespace ScriptEngine

/-- The entry of a callee that may be called with `argCount` arguments. -/
def Heap.resolveCallee (h : Heap) (callee : Value) (argCount : Nat) :
    Except RuntimeError (ObjectId × Callable) :=
  match callee with
  | .object id =>
      match h.callable? id with
      | some entry => do
          entry.arity.check argCount
          return (id, entry)
      | none => .error (.notCallable (h.nameOf id))
  | v => .error (.notCallable (h.describe v))

/-- The entry to use when the callee is one particular function. -/
structure Guard where
  expected : ObjectId
  target : Callable

/-- How a site finds its target. -/
inductive Strategy where
  /-- Try the guards, newest first; resolve and add a guard if none fits. -/
  | guarded (guards : List Guard)
  /-- Resolve on every call. -/
  | megamorphic

/-- How much a site has seen. -/
inductive Regime where
  | unlinked
  | monomorphic
  | polymorphic (guards : Nat)
  | megamorphic
  deriving DecidableEq, Repr

def Regime.name : Regime → String
  | .unlinked => "unlinked"
  | .monomorphic => "monomorphic"
  | .polymorphic n => s!"polymorphic({n})"
  | .megamorphic => "megamorphic"

structure CallSite where
  argCount : Nat
  /-- How many guards the site may hold. -/
  maxDepth : Nat
  strategy : Strategy := .guarded []
  /-- The number of guards. -/
  depth : Nat := 0

/-- A target, and what finding it leaves behind. -/
structure Dispatch where
  target : Callable
  site : CallSite
  event : Option Event

namespace CallSite

def regime (site : CallSite) : Regime :=
  match site.strategy with
  | .megamorphic => .megamorphic
  | .guarded [] => .unlinked
  | .guarded _ => if site.depth = 1 then .monomorphic else .polymorphic site.depth

/-- Resolve a callee that no guard knows. A callee that can not be resolved changes nothing. -/
def relink (site : CallSite) (h : Heap) (guards : List Guard) (callee : Value) :
    Except RuntimeError Dispatch := do
  let (expected, target) ← h.resolveCallee callee site.argCount
  if site.maxDepth ≤ site.depth then
    return {
      target
      site := { site with strategy := .megamorphic, depth := 0 }
      event := some (.wentMegamorphic site.depth (h.nameOf expected)) }
  else
    return {
      target
      site := { site with strategy := .guarded ({ expected, target } :: guards)
                          depth := site.depth + 1 }
      event := some (.installedGuard (site.depth + 1) (h.nameOf expected)) }

/-- Find the target of a call. -/
def dispatch (site : CallSite) (h : Heap) (callee : Value) : Except RuntimeError Dispatch :=
  match site.strategy with
  | .guarded guards =>
      match guards.find? fun g => callee = .object g.expected with
      | some g => .ok { target := g.target, site, event := none }
      | none => site.relink h guards callee
  | .megamorphic => do
      let (_, target) ← h.resolveCallee callee site.argCount
      return { target, site, event := none }

end CallSite

end ScriptEngine
