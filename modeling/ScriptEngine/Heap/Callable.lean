import ScriptEngine.Registry

/-!
# Callable entries

A function object can be entered: it is a compiled unit or a function of the host. All that is known of a
function of the host is that it asks the engine for one thing after another, goes on with each answer and
ends at some time. What it asks for is data, and how it goes on may be any function of the answer.
-/

namespace ScriptEngine

/-- What a function of the host can ask the engine for. -/
inductive HostStep where
  /-- How a value is named in messages. -/
  | describe (v : Value)
  /-- How a value is shown. -/
  | display (v : Value)
  /-- The number of values kept for running code. -/
  | rooted
  /-- The own keys of an object. -/
  | keys (id : ObjectId)
  | lookup (id : ObjectId) (key : String)
  | register (id : ObjectId) (key : String) (v : Value)
  /-- A new object, perhaps with a prototype. -/
  | create (proto : Option ObjectId)
  /-- Write the arguments, separated by blanks, as one line. -/
  | print (args : List Value)
  | compile (f : FunctionDef)
  | invoke (id : ObjectId) (receiver : Value) (args : List Value)

/-- What the engine answers. -/
abbrev HostStep.Answer : HostStep → Type
  | .describe _ => String
  | .display _ => String
  | .rooted => Nat
  | .keys _ => List String
  | .lookup _ _ => Value
  | .register _ _ _ => Unit
  | .create _ => ObjectId
  | .print _ => Except Fault Value
  | .compile _ => Except CompileError ObjectId
  | .invoke _ _ _ => Except RuntimeError Value

/-- What a function of the host does from some point on. -/
inductive HostProgram where
  | done (result : Except HostError Value)
  | step (s : HostStep) (next : s.Answer → HostProgram)

namespace HostProgram

def give (v : Value) : HostProgram := .done (.ok v)

/-- Fail with a fault of the host. -/
def fail (fault : Fault) : HostProgram := .done (.error (.foreign fault))

/-- Fail with an error of the engine. -/
def raise (error : RuntimeError) : HostProgram := .done (.error (.known error))

end HostProgram

/-- A function of the host: what it does with a receiver and arguments. -/
structure HostFunction where
  onCall : Value → List Value → HostProgram

structure NativeFunction where
  name : String
  arity : Arity
  body : HostFunction

inductive Callable where
  | compiled (unit : UnitId) (name : String) (params : Nat)
  | native (f : NativeFunction)

namespace Callable

def arity : Callable → Arity
  | .compiled _ _ params => .fixed params
  | .native f => f.arity

def name : Callable → String
  | .compiled _ name _ => name
  | .native f => f.name

end Callable

end ScriptEngine
