/-!
# Services

The operations that running code calls: how many words each takes, and whether it can fail. A result of
an operation that can fail has to be compared with the failure word.
-/

namespace ScriptEngine

inductive Service where
  | lookupGlobal
  | registerGlobal
  | makeFunction
  | newObject
  | getField
  | setField
  | call
  | methodCall
  deriving DecidableEq, Repr

namespace Service

def all : List Service :=
  [.lookupGlobal, .registerGlobal, .makeFunction, .newObject, .getField, .setField, .call, .methodCall]

def name : Service → String
  | .lookupGlobal => "LookupGlobal"
  | .registerGlobal => "RegisterGlobal"
  | .makeFunction => "MakeFunction"
  | .newObject => "NewObject"
  | .getField => "GetField"
  | .setField => "SetField"
  | .call => "Call"
  | .methodCall => "MethodCall"

/-- The name under which code is linked to the operation. -/
def symbol : Service → String
  | .lookupGlobal => "mica_lookup_global"
  | .registerGlobal => "mica_register_global"
  | .makeFunction => "mica_make_function"
  | .newObject => "mica_new_object"
  | .getField => "mica_get_field"
  | .setField => "mica_set_field"
  | .call => "mica_call"
  | .methodCall => "mica_method_call"

/-- The number of words the operation takes. -/
def paramCount : Service → Nat
  | .newObject => 0
  | .lookupGlobal | .makeFunction | .getField => 2
  | .registerGlobal | .setField | .methodCall => 3
  | .call => 4

def isFallible : Service → Bool
  | .lookupGlobal | .registerGlobal | .newObject => false
  | _ => true

end Service

/-- The number of words the code of a function takes: its receiver and its arguments. -/
def entryParamCount (arity : Nat) : Nat := arity + 1

/-- The number of words an invocation from outside takes: the place of the words for the code. -/
def invokerParamCount : Nat := 1

end ScriptEngine
