import ScriptEngine.Heap.Basic
import ScriptEngine.Registry
import ScriptEngine.Event

/-!
# Sites

Every dynamic operation of a compiled body has a site. Reads and registrations of global names bind
their global object on first use. A function site takes the definition of its literal out of the
registry on first use and keeps it. Field and method sites have a name and no state.
-/

namespace ScriptEngine

/-- A read or a registration of a global name. -/
structure GlobalSite where
  name : String
  /-- The global object, once bound. -/
  bound : Option ObjectId := none
  deriving DecidableEq, Repr

namespace GlobalSite

/-- The global object the site works on, where `global` is the one in force. -/
def target (site : GlobalSite) (global : ObjectId) : ObjectId := site.bound.getD global

/-- The site after a use. -/
def link (site : GlobalSite) (global : ObjectId) : GlobalSite :=
  { site with bound := some (site.target global) }

def isLinked (site : GlobalSite) : Bool := site.bound.isSome

end GlobalSite

/-- A read or a write of a property with a fixed name. -/
structure FieldSite where
  name : String
  deriving DecidableEq, Repr

namespace FieldSite

def get (site : FieldSite) (h : Heap) (receiver : Value) : Except RuntimeError Value :=
  match receiver with
  | .object id => .ok (h.lookup id site.name)
  | v => .error (.notAnObject ("read field " ++ site.name) (h.describe v))

def set (site : FieldSite) (h : Heap) (receiver value : Value) : Except RuntimeError Heap :=
  match receiver with
  | .object id => .ok (h.register id site.name value)
  | v => .error (.notAnObject ("write field " ++ site.name) (h.describe v))

end FieldSite

/-- A call of a method with a fixed name. -/
structure MethodSite where
  name : String
  argCount : Nat
  deriving DecidableEq, Repr

namespace MethodSite

/-- The method a receiver has under the site's name. -/
def resolve (site : MethodSite) (h : Heap) (receiver : Value) : Except RuntimeError ObjectId :=
  match receiver with
  | .object id =>
      match h.lookup id site.name with
      | .object method => .ok method
      | v => .error (.notCallable (h.describe v))
  | v => .error (.notAnObject ("call method " ++ site.name) (h.describe v))

end MethodSite

/-- The evaluation of a function literal. -/
structure FunctionSite where
  /-- The number of the literal's record. -/
  id : Nat
  /-- The record, once taken out of the registry. -/
  kept : Option FunctionDef := none

/-- What a function site has found, and what is left behind. -/
structure Taken where
  definition : Except CompileError FunctionDef
  site : FunctionSite
  registry : Registry
  event : Option Event

namespace FunctionSite

/-- The definition of the literal. Only a site that keeps none turns to the registry; a failed attempt
changes nothing. -/
def take (site : FunctionSite) (registry : Registry) : Taken :=
  match site.kept with
  | some f => { definition := .ok f, site, registry, event := none }
  | none =>
      let event := some (Event.consumingFunction site.id)
      match registry.consume site.id with
      | .ok (f, registry) =>
          { definition := .ok f, site := { site with kept := some f }, registry, event }
      | .error e => { definition := .error e, site, registry, event }

end FunctionSite

end ScriptEngine
