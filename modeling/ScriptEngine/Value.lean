/-!
# Dynamic values

A program computes with six kinds of values. Texts are compared by content and objects by identity, so
equality of values is plain equality of this type.
-/

namespace ScriptEngine

/-- Objects are numbered in the order of their creation. -/
abbrev ObjectId := Nat

/-- Compiled units are numbered in the order of their compilation. -/
abbrev UnitId := Nat

inductive Value where
  | undefined
  | null
  | bool (b : Bool)
  | int (n : Int32)
  | text (s : String)
  | object (id : ObjectId)
  deriving DecidableEq, Repr, Inhabited

namespace Value

/-- False exactly for `undefined`, `null` and `false`. -/
def truth : Value → Bool
  | .undefined | .null | .bool false => false
  | _ => true

/-- Texts and objects live on the heap; the other values are immediate. -/
def isHeap : Value → Bool
  | .text _ | .object _ => true
  | _ => false

def isUndefined : Value → Bool
  | .undefined => true
  | _ => false

def object? : Value → Option ObjectId
  | .object id => some id
  | _ => none

def int? : Value → Option Int32
  | .int n => some n
  | _ => none

def text? : Value → Option String
  | .text s => some s
  | _ => none

end Value

/-- The decimal form of a 32-bit integer. -/
def decimal (n : Int32) : String := toString n.toInt

end ScriptEngine
