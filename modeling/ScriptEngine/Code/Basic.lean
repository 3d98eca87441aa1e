import ScriptEngine.Site.Basic
import ScriptEngine.Site.Call
import ScriptEngine.Scope

/-!
# Code

The body of a function in the form in which it runs: local names have become slots and every dynamic
operation has a site. Sites with state are numbered within the unit, by kind.
-/

namespace ScriptEngine

inductive Code where
  | int (n : Int32)
  | text (s : String)
  /-- Read a slot. -/
  | load (slot : Nat)
  /-- Write a slot. -/
  | store (slot : Nat) (value : Code)
  /-- Read a global name. -/
  | loadGlobal (name : String) (site : Nat)
  | block (body : List Code)
  | ret (value : Code)
  | branch (condition : Code) (yes no : List Code)
  /-- Make a function from the record `id`, whose site has the same number; register it under its name. -/
  | function (id : Nat) (registration : Option (String × Nat))
  | object (entries : List (Code × FieldSite))
  | getField (receiver : Code) (site : FieldSite)
  | setField (receiver value : Code) (site : FieldSite)
  | call (callee : Code) (args : List Code) (site : Nat)
  | method (receiver : Code) (args : List Code) (site : MethodSite)

/-- The sites and the constants of one unit. -/
structure SiteTable where
  lookups : Array GlobalSite := #[]
  registrations : Array GlobalSite := #[]
  fields : Array FieldSite := #[]
  functions : Array FunctionSite := #[]
  calls : Array CallSite := #[]
  methods : Array MethodSite := #[]
  /-- Distinct texts that occur as literals. -/
  constants : List String := []

namespace SiteTable

/-- The number of sites of all kinds. -/
def size (t : SiteTable) : Nat :=
  t.lookups.size + t.registrations.size + t.fields.size + t.functions.size + t.calls.size +
    t.methods.size

def intern (t : SiteTable) (s : String) : SiteTable :=
  if s ∈ t.constants then t else { t with constants := t.constants ++ [s] }

end SiteTable

/-- The name of a function that was given none. -/
def anonymousName : String := "lambda"

/-- A compiled function with the state of its sites and the literals in it not yet evaluated. -/
structure CompiledUnit where
  definition : FunctionDef
  scope : Scope
  code : List Code
  sites : SiteTable
  registry : Registry

namespace CompiledUnit

def name (u : CompiledUnit) : String := u.definition.name.getD anonymousName

def arity (u : CompiledUnit) : Nat := u.definition.params.length

/-- The global object of the unit. -/
def global (u : CompiledUnit) : ObjectId := u.definition.global

/-- The regimes of the call sites, in the order in which the sites were emitted. -/
def regimes (u : CompiledUnit) : List Regime := (u.sites.calls.map (·.regime)).toList

/-- The slots of a fresh invocation: everything undefined, then receiver and arguments stored in
order, so that of two parameters with one slot the later one counts. -/
def initialLocals (u : CompiledUnit) (receiver : Value) (args : List Value) : List Value :=
  (u.scope.parameterSlots.zip (receiver :: args)).foldl (fun locals (slot, v) => locals.set slot v)
    (List.replicate u.scope.slotCount .undefined)

end CompiledUnit

end ScriptEngine
