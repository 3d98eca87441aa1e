import ScriptEngine.Engine

/-!
# Looking inside

Structural descriptions of values, callables, units and objects, for diagnosis.
-/

namespace ScriptEngine

/-- The structure of a value; the content of an object is given by the caller. -/
def Value.inspect (object : ObjectId → String) : Value → String
  | .undefined => "Undefined"
  | .null => "Null"
  | .bool b => s!"Bool({b})"
  | .int n => s!"Int({decimal n})"
  | .text s => s!"String({Text.quoted s})"
  | .object id => s!"Object({object id})"

def Arity.inspect : Arity → String
  | .fixed n => s!"Fixed({n})"
  | .variadic => "Variadic"

/-- A structure with named fields. -/
def inspectFields (name : String) (fields : List (String × String)) : String :=
  let body := ", ".intercalate (fields.map fun (key, text) => key ++ ": " ++ text)
  name ++ " \x7b " ++ body ++ " \x7d"

def NativeFunction.inspect (f : NativeFunction) : String :=
  inspectFields "NativeFunction" [("name", Text.quoted f.name), ("arity", f.arity.inspect)]

def Callable.inspect : Callable → String
  | .compiled _ name _ => s!"Compiled({name})"
  | .native f => s!"Native({f.name})"

def CompiledUnit.inspect (u : CompiledUnit) : String :=
  inspectFields "CompiledUnit"
    [("name", Text.quoted u.name), ("arity", toString u.arity), ("sites", toString u.sites.size)]

/-- An object; its number is not shown. -/
def Heap.inspect (h : Heap) (id : ObjectId) : String :=
  inspectFields "Object"
    [("id", "_"), ("name", Text.quoted (h.nameOf id)), ("length", toString (h.length id))]

end ScriptEngine
