import ScriptEngine.Code.Lowering
import ScriptEngine.Roots

/-!
# The machine

The whole state of an engine: objects, compiled units with their sites, the roots of running code, the
text written so far and the events reported so far. The operations here are those that running code
asks for and that call no function.
-/

namespace ScriptEngine

/-- How the receiver of written text behaves. -/
inductive Sink where
  | accepting
  | refusesWrite
  /-- Takes the text and then fails. -/
  | refusesFlush
  deriving DecidableEq, Repr

/-- How many guards a call site may hold unless the host says otherwise. -/
def defaultCacheDepth : Nat := 3

structure Machine where
  heap : Heap := {}
  units : Array CompiledUnit := #[]
  roots : Roots := {}
  output : String := ""
  events : Array Event := #[]
  sink : Sink := .accepting
  /-- How many guards a call site may hold. -/
  cacheDepth : Nat := defaultCacheDepth

namespace Machine

def log (m : Machine) (event : Event) : Machine := { m with events := m.events.push event }

def log? (m : Machine) : Option Event → Machine
  | some event => m.log event
  | none => m

/-- Keep a value for the running invocation. -/
def root (m : Machine) (v : Value) : Machine := { m with roots := m.roots.root v }

def park (m : Machine) (error : RuntimeError) : Machine := { m with roots := m.roots.park error }

def release (m : Machine) (mark : Nat) : Machine := { m with roots := m.roots.release mark }

/-- Pick up the parked failure. -/
def takeParked (m : Machine) : RuntimeError × Machine :=
  let (error, roots) := m.roots.take
  (error, { m with roots })

def modifySites (m : Machine) (unit : UnitId) (f : SiteTable → SiteTable) : Machine :=
  { m with units := m.units.modify unit fun u => { u with sites := f u.sites } }

/-- Compile a function against its global object. A failure leaves no trace. -/
def compile (m : Machine) (f : FunctionDef) : Except CompileError (ObjectId × Machine) := do
  let u ← f.compile m.cacheDepth
  let m := m.log (.compiledUnit u.name u.arity u.scope.slotCount u.sites.size u.sites.constants.length)
  let (id, heap) := m.heap.newFunction u.name (.compiled m.units.size u.name u.arity)
  return (id, { m with heap, units := m.units.push u })

/-- Use a site that reads a global name, where `global` is the global object in force. -/
def lookupAt (m : Machine) (site : GlobalSite) (global : ObjectId) : Value × Machine :=
  let m := if site.isLinked then m else m.log (.linkedLookup site.name)
  (m.heap.lookup (site.target global) site.name, m)

/-- Use a site that registers a global name. -/
def registerAt (m : Machine) (site : GlobalSite) (global : ObjectId) (v : Value) : Machine :=
  let m := if site.isLinked then m else m.log (.linkedRegistration site.name)
  { m with heap := m.heap.register (site.target global) site.name v }

/-- Use a function site against the registry of a unit: a fresh function each time. -/
def materializeAt (m : Machine) (site : FunctionSite) (unit : UnitId) :
    (Except RuntimeError ObjectId × FunctionSite) × Machine :=
  let registry := ((m.units[unit]?).map (·.registry)).getD {}
  let taken := site.take registry
  let m := m.log? taken.event
  let m := { m with units := m.units.modify unit fun u => { u with registry := taken.registry } }
  match taken.definition with
  | .error e => ((.error (.compile e), taken.site), m)
  | .ok f =>
      match m.compile f with
      | .error e => ((.error (.compile e), taken.site), m)
      | .ok (id, m) => ((.ok id, taken.site), m)

/-- Use a call site: find the target, the state of the site and of the machine afterwards. -/
def dispatchAt (m : Machine) (site : CallSite) (callee : Value) :
    (Except RuntimeError Callable × CallSite) × Machine :=
  match site.dispatch m.heap callee with
  | .ok d => ((.ok d.target, d.site), m.log? d.event)
  | .error e => ((.error e, site), m)

def globalOf (m : Machine) (unit : UnitId) : ObjectId := ((m.units[unit]?).map (·.global)).getD 0

/-- Read a global name at a site of a unit. -/
def lookupGlobal (m : Machine) (unit : UnitId) (site : Nat) (name : String) : Value × Machine :=
  let global := m.globalOf unit
  let s := ((m.units[unit]?).bind (·.sites.lookups[site]?)).getD { name }
  let (v, m) := m.lookupAt s global
  (v, m.modifySites unit fun t => { t with lookups := t.lookups.setIfInBounds site (s.link global) })

/-- Register a function under its name at a site of a unit. -/
def registerGlobal (m : Machine) (unit : UnitId) (site : Nat) (name : String) (v : Value) : Machine :=
  let global := m.globalOf unit
  let s := ((m.units[unit]?).bind (·.sites.registrations[site]?)).getD { name }
  (m.registerAt s global v).modifySites unit fun t =>
    { t with registrations := t.registrations.setIfInBounds site (s.link global) }

/-- Evaluate the function literal with the record `id` of a unit. -/
def makeFunction (m : Machine) (unit : UnitId) (id : Nat) : Except RuntimeError Value × Machine :=
  let s := ((m.units[unit]?).bind (·.sites.functions[id]?)).getD { id }
  let ((function, s), m) := m.materializeAt s unit
  (function.map .object,
    m.modifySites unit fun t => { t with functions := t.functions.setIfInBounds id s })

/-- Find the target of a call at a site of a unit. -/
def dispatchCall (m : Machine) (unit : UnitId) (site argCount : Nat) (callee : Value) :
    Except RuntimeError Callable × Machine :=
  let s := ((m.units[unit]?).bind (·.sites.calls[site]?)).getD { argCount, maxDepth := m.cacheDepth }
  let ((target, s), m) := m.dispatchAt s callee
  (target, m.modifySites unit fun t => { t with calls := t.calls.setIfInBounds site s })

def newObject (m : Machine) : Value × Machine :=
  let (id, heap) := m.heap.newObject none
  (.object id, { m with heap })

def getField (m : Machine) (site : FieldSite) (receiver : Value) :
    Except RuntimeError Value × Machine :=
  (site.get m.heap receiver, m)

def setField (m : Machine) (site : FieldSite) (receiver value : Value) :
    Except RuntimeError Value × Machine :=
  match site.set m.heap receiver value with
  | .ok heap => (.ok .undefined, { m with heap })
  | .error e => (.error e, m)

end Machine

end ScriptEngine
