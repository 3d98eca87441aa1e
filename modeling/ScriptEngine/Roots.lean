import ScriptEngine.Value
import ScriptEngine.Error

/-!
# Roots of running code

Heap values handed to running code are kept in an arena until the invocation that received them is
over. An invocation remembers the length of the arena at its start and cuts the arena back to it at
its end. The failure of an operation is parked beside the arena until the invocation picks it up.
-/

namespace ScriptEngine

structure Roots where
  arena : Array Value := #[]
  parked : Option RuntimeError := none
  deriving Repr

namespace Roots

def count (r : Roots) : Nat := r.arena.size

/-- Keep a value; immediate values need no root. -/
def root (r : Roots) (v : Value) : Roots :=
  if v.isHeap then { r with arena := r.arena.push v } else r

/-- Cut the arena to a length remembered earlier. -/
def release (r : Roots) (mark : Nat) : Roots := { r with arena := r.arena.shrink mark }

def park (r : Roots) (error : RuntimeError) : Roots := { r with parked := some error }

/-- Pick up the parked failure. -/
def take (r : Roots) : RuntimeError × Roots :=
  (r.parked.getD (.failure "native code failed without an error"), { r with parked := none })

end Roots

end ScriptEngine
