/-!
# What can go wrong

Compiling a body fails for one of a few causes; running it fails for one of a few more. The causes are
data, and each has one wording. A fault raised by a host function keeps its own text and the texts of
the faults behind it.
-/

namespace ScriptEngine

/-- Why a function body could not be compiled. -/
inductive CompileError where
  | unknownVariable (name : String) (line : UInt32)
  | functionConsumed (id : Nat)
  | codegen (text : String)
  | unsupportedTarget (text : String)
  deriving DecidableEq, Repr

namespace CompileError

def message : CompileError → String
  | .unknownVariable name line => s!"unknown variable {name} at line {line}"
  | .functionConsumed id => s!"function #{id} was already consumed"
  | .codegen text => s!"codegen error: {text}"
  | .unsupportedTarget text => s!"unsupported target: {text}"

end CompileError

/-- A fault of a host function: its text, and the texts of the faults that caused it, nearest first. -/
structure Fault where
  text : String
  causes : List String := []
  deriving DecidableEq, Repr

/-- Why running a program failed. -/
inductive RuntimeError where
  | arityMismatch (expected actual : Nat)
  | notCallable (name : String)
  | notAnObject (action value : String)
  | invocationFailure (fault : Fault)
  | compile (error : CompileError)
  deriving DecidableEq, Repr

namespace RuntimeError

def message : RuntimeError → String
  | .arityMismatch expected actual =>
      s!"arguments doesn't match parameters count: expected {expected} but got {actual}"
  | .notCallable name => s!"{name} can not be invoked"
  | .notAnObject action value => s!"can not {action} on {value}"
  | .invocationFailure fault => s!"invocation failed: {fault.text}"
  | .compile error => error.message

/-- The texts behind an error, nearest first. -/
def chain : RuntimeError → List String
  | .invocationFailure fault => fault.text :: fault.causes
  | _ => []

/-- An invocation failure with a plain text and no further cause. -/
def failure (text : String) : RuntimeError := .invocationFailure { text }

end RuntimeError

/-- What a host function may fail with: an error of the engine, or a fault of its own. -/
inductive HostError where
  | known (error : RuntimeError)
  | foreign (fault : Fault)
  deriving DecidableEq, Repr

/-- Errors of the engine pass through a host function unchanged, faults of the host are wrapped. -/
def RuntimeError.ofHost : HostError → RuntimeError
  | .known error => error
  | .foreign fault => .invocationFailure fault

/-- How many arguments a callable takes, the receiver not counted. -/
inductive Arity where
  | fixed (count : Nat)
  | variadic
  deriving DecidableEq, Repr

namespace Arity

def accepts : Arity → Nat → Bool
  | .fixed n, count => n == count
  | .variadic, _ => true

def check : Arity → Nat → Except RuntimeError Unit
  | .fixed expected, actual =>
      if expected = actual then .ok () else .error (.arityMismatch expected actual)
  | .variadic, _ => .ok ()

end Arity

end ScriptEngine
