import ScriptEngine.Value
import ScriptEngine.Error
import ScriptEngine.Program

/-!
# Deferred functions

A function literal is not compiled with the body it stands in. Its definition is put on record under a
fresh number and taken out, at most once, when the literal is first evaluated.
-/

namespace ScriptEngine

/-- What is needed to compile a function: the global object its free names refer to comes with it. -/
structure FunctionDef where
  name : Option String
  params : List String
  body : Block
  global : ObjectId

structure Registry where
  /-- The number of the next record. -/
  next : Nat := 0
  records : List (Nat × FunctionDef) := []

namespace Registry

/-- Put a definition on record; its number was never used before. -/
def register (r : Registry) (f : FunctionDef) : Nat × Registry :=
  (r.next, { next := r.next + 1, records := r.records ++ [(r.next, f)] })

/-- Take out the record `id`. -/
def consume (r : Registry) (id : Nat) : Except CompileError (FunctionDef × Registry) :=
  match r.records.lookup id with
  | some f => .ok (f, { r with records := r.records.filter (·.1 != id) })
  | none => .error (.functionConsumed id)

def length (r : Registry) : Nat := r.records.length

def isEmpty (r : Registry) : Bool := r.records.isEmpty

end Registry

end ScriptEngine
