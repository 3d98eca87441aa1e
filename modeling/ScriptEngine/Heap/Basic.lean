import ScriptEngine.Heap.PropertyTable
import ScriptEngine.Heap.Callable
import ScriptEngine.Text.Quoted

/-!
# The heap of objects

An object has a diagnostic name, perhaps a prototype, perhaps a callable entry, its own properties and
a token. Name, prototype and entry never change. Tokens are words taken from one counter, and every
registration gives the object the next one. A prototype is always older than the objects that inherit
from it.
-/

namespace ScriptEngine

/-- The property under which a function object finds itself. -/
def applyKey : String := "apply"

structure Object where
  name : String
  proto : Option ObjectId := none
  callable : Option Callable := none
  properties : PropertyTable := {}
  token : UInt64

structure Heap where
  objects : Array Object := #[]
  /-- The next token to be issued. -/
  nextToken : UInt64 := 1

namespace Heap

/-- The number of objects. -/
def size (h : Heap) : Nat := h.objects.size

def object? (h : Heap) (id : ObjectId) : Option Object := h.objects[id]?

/-- The name of an object in messages. -/
def nameOf (h : Heap) (id : ObjectId) : String := ((h.object? id).map (·.name)).getD "object"

def proto? (h : Heap) (id : ObjectId) : Option ObjectId := (h.object? id).bind (·.proto)

def callable? (h : Heap) (id : ObjectId) : Option Callable := (h.object? id).bind (·.callable)

def properties (h : Heap) (id : ObjectId) : PropertyTable :=
  ((h.object? id).map (·.properties)).getD {}

def token (h : Heap) (id : ObjectId) : UInt64 := ((h.object? id).map (·.token)).getD 0

/-- Create an object with a fresh token. -/
def alloc (h : Heap) (name : String) (proto : Option ObjectId) (callable : Option Callable) :
    ObjectId × Heap :=
  (h.size,
    { objects := h.objects.push { name, proto, callable, token := h.nextToken }
      nextToken := h.nextToken + 1 })

/-- Store a slot under a key and issue a fresh token to the object. -/
def store (h : Heap) (id : ObjectId) (key : String) (slot : Slot) : Heap :=
  { objects := h.objects.modify id fun o =>
      { o with properties := o.properties.insert key slot, token := h.nextToken }
    nextToken := h.nextToken + 1 }

/-- A plain object. -/
def newObject (h : Heap) (proto : Option ObjectId) : ObjectId × Heap := h.alloc "object" proto none

/-- An environment, as used for global scopes. -/
def newEnv (h : Heap) (proto : Option ObjectId) : ObjectId × Heap := h.alloc "env" proto none

/-- A function object; it owns itself under the key `apply`. -/
def newFunction (h : Heap) (name : String) (callable : Callable) : ObjectId × Heap :=
  let (id, h) := h.alloc ("function " ++ name) none (some callable)
  (id, h.store id applyKey .owner)

def newNative (h : Heap) (name : String) (arity : Arity) (body : HostFunction) : ObjectId × Heap :=
  h.newFunction name (.native { name, arity, body })

/-- The value of a slot of the object `owner`. -/
def slotValue (owner : ObjectId) : Slot → Value
  | .value v => v
  | .owner => .object owner

/-- The value an object itself holds under a key. -/
def own? (h : Heap) (id : ObjectId) (key : String) : Option Value :=
  ((h.properties id).get? key).map (slotValue id)

/-- Look up a key along at most `steps` objects of the prototype chain. -/
def lookupWithin (h : Heap) (key : String) : (steps : Nat) → ObjectId → Value
  | 0, _ => .undefined
  | steps + 1, id =>
      match h.own? id key with
      | some v => v
      | none =>
          match h.proto? id with
          | some proto => lookupWithin h key steps proto
          | none => .undefined

/-- Look up a key on an object and along its prototypes; absence is `undefined`. No chain has more
objects than the heap. -/
def lookup (h : Heap) (id : ObjectId) (key : String) : Value := h.lookupWithin key h.size id

/-- Set an own property. -/
def register (h : Heap) (id : ObjectId) (key : String) (v : Value) : Heap :=
  h.store id key (.value v)

def keys (h : Heap) (id : ObjectId) : List String := (h.properties id).keys

/-- The number of own properties. -/
def length (h : Heap) (id : ObjectId) : Nat := (h.properties id).size

/-- Own keys and values in insertion order. -/
def entries (h : Heap) (id : ObjectId) : List (String × Value) :=
  (h.properties id).entries.map fun (key, slot) => (key, slotValue id slot)

/-- A fresh object without prototype that holds the image of every own value; `f` is also given the
place of the entry. -/
def mapEntries (h : Heap) (id : ObjectId) (f : Nat → Value → Value) : ObjectId × Heap :=
  let (copy, fresh) := h.newObject none
  (copy, (h.entries id).zipIdx.foldl (fun h ((key, v), i) => h.register copy key (f i v)) fresh)

/-- A short description for messages: texts are quoted and objects are named. -/
def describe (h : Heap) : Value → String
  | .undefined => "undefined"
  | .null => "null"
  | .bool b => toString b
  | .int n => decimal n
  | .text s => Text.quoted s
  | .object id => h.nameOf id

end Heap

end ScriptEngine
