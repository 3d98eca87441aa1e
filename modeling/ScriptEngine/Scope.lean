import ScriptEngine.Index
import ScriptEngine.Program

/-!
# Variable slots

A function has one scope. Its receiver `this` holds slot 0, its parameters follow, and then every name
declared in statement position, in program order; a name that already has a slot keeps it. Blocks and
both arms of a conditional belong to the scope. Values are not searched for declarations, and nested
function literals have scopes of their own.
-/

namespace ScriptEngine

/-- The name of the receiver. -/
def receiverName : String := "this"

/-- The slots of one function: a name's slot is its place in `names`. -/
structure Scope where
  names : List String := []
  slots : List (String × Nat) := []
  indexed : Indexes slots names := by exact .nil
  /-- Slots of the receiver and of each parameter, in signature order. -/
  parameterSlots : List Nat := []
  deriving DecidableEq, Repr

namespace Scope

/-- The slot of a name, if it has one. -/
def lookup (s : Scope) (name : String) : Option Nat := s.slots.lookup name

def slotCount (s : Scope) : Nat := s.names.length

/-- Give `name` the next slot unless it has one; its slot comes first. Slots count the names and have no
bound here; a word of 32 bits holds those of up to `UInt32.size` names. -/
def place (s : Scope) (name : String) : Nat × Scope :=
  match free : s.slots.lookup name with
  | some slot => (slot, s)
  | none =>
      (s.names.length,
        { s with
          names := s.names ++ [name]
          slots := (name, s.names.length) :: s.slots
          indexed := s.indexed.add free })

def declare (s : Scope) (name : String) : Scope := (s.place name).2

/-- Declare a name that an argument is bound to. -/
def declareParameter (s : Scope) (name : String) : Scope :=
  let (slot, s) := s.place name
  { s with parameterSlots := s.parameterSlots ++ [slot] }

end Scope

mutual

/-- Declare what an instruction declares. -/
def Scope.visit : Scope → Expr → Scope
  | s, .block body => s.visitBlock body
  | s, .assign name _ true _ => s.declare name
  | s, .cond _ yes no _ => (s.visitBlock yes).visitBlock no
  | s, _ => s

def Scope.visitBlock : Scope → Block → Scope
  | s, .mk instrs _ => s.visitAll instrs

/-- Declare what instructions declare, in program order. -/
def Scope.visitAll : Scope → List Expr → Scope
  | s, [] => s
  | s, e :: es => (s.visit e).visitAll es

end

/-- The scope of a function with the given parameters and body. -/
def Scope.resolve (params : List String) (body : Block) : Scope :=
  ((receiverName :: params).foldl declareParameter {}).visitBlock body

end ScriptEngine
