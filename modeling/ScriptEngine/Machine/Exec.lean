import ScriptEngine.Machine.Basic

/-!
# Running code

Code runs on the slots of its invocation and on the machine. A node gives a value, or its invocation
returns at once, or a failure has been parked and the invocation is given up. How functions are entered
is a parameter here, so that code itself is run by recursion on its structure. `none` stands for a run
that needs more nested calls than it was allowed.
-/

namespace ScriptEngine

/-- A computation on the machine; `none` if it needs more nested calls than allowed. -/
abbrev Run := StateT Machine Option

/-- A way to enter callables with a receiver and arguments. -/
abbrev Enter := Callable → Value → List Value → Run (Except RuntimeError Value)

/-- How a node ends. -/
inductive Flow (α : Type) where
  | next (a : α) (locals : List Value)
  | returned (v : Value)
  | aborted
  deriving Repr

/-- A computation of running code: from the slots of the invocation and the machine. -/
def Exec (α : Type) : Type := List Value → Machine → Option (Flow α × Machine)

namespace Exec

def pure {α : Type} (a : α) : Exec α := fun locals m => some (.next a locals, m)

/-- Go on only after a value. -/
def bind {α β : Type} (x : Exec α) (f : α → Exec β) : Exec β := fun locals m =>
  match x locals m with
  | some (.next a locals, m) => f a locals m
  | some (.returned v, m) => some (.returned v, m)
  | some (.aborted, m) => some (.aborted, m)
  | none => none

instance : Monad Exec where
  pure := Exec.pure
  bind := Exec.bind

/-- Read a slot. -/
def load (slot : Nat) : Exec Value := fun locals m =>
  some (.next (locals[slot]?.getD .undefined) locals, m)

/-- Write a slot. -/
def store (slot : Nat) (v : Value) : Exec Unit := fun locals m =>
  some (.next () (locals.set slot v), m)

/-- End the invocation with a value. -/
def leave {α : Type} (v : Value) : Exec α := fun _ m => some (.returned v, m)

/-- An operation that can not fail and whose result needs no root. -/
def act (f : Machine → Machine) : Exec Unit := fun locals m => some (.next () locals, f m)

/-- An operation that can not fail; its result is kept for the invocation. -/
def fetch (f : Machine → Value × Machine) : Exec Value := fun locals m =>
  let (v, m) := f m
  some (.next v locals, m.root v)

/-- An operation that may fail: its result is kept, its failure is parked. -/
def attempt (r : Run (Except RuntimeError Value)) : Exec Value := fun locals m =>
  match r m with
  | some (.ok v, m) => some (.next v locals, m.root v)
  | some (.error e, m) => some (.aborted, m.park e)
  | none => none

end Exec

/-- Invoke an object: it has to be callable and to accept the number of arguments. -/
def invokeObject (enter : Enter) (id : ObjectId) (receiver : Value) (args : List Value) :
    Run (Except RuntimeError Value) := fun m =>
  match m.heap.callable? id with
  | none => some (.error (.notCallable (m.heap.nameOf id)), m)
  | some entry =>
      match entry.arity.check args.length with
      | .error e => some (.error e, m)
      | .ok () => enter entry receiver args m

/-- Call a value at a call site of a unit. -/
def callAt (enter : Enter) (unit : UnitId) (site : Nat) (callee receiver : Value)
    (args : List Value) : Run (Except RuntimeError Value) := fun m =>
  match m.dispatchCall unit site args.length callee with
  | (.ok target, m) => enter target receiver args m
  | (.error e, m) => some (.error e, m)

/-- Call a method of a receiver. -/
def callMethod (enter : Enter) (site : MethodSite) (receiver : Value) (args : List Value) :
    Run (Except RuntimeError Value) := fun m =>
  match site.resolve m.heap receiver with
  | .ok method => invokeObject enter method receiver args m
  | .error e => some (.error e, m)

mutual

/-- The value of a node. Statement forms have the value `undefined`. -/
def evalCode (enter : Enter) (unit : UnitId) : Code → Exec Value
  | .int n => return .int n
  | .text s => return .text s
  | .load slot => .load slot
  | .store slot value => do
      Exec.store slot (← evalCode enter unit value)
      return .undefined
  | .loadGlobal name site => .fetch (·.lookupGlobal unit site name)
  | .block body => do
      evalBody enter unit body
      return .undefined
  | .ret value => do Exec.leave (← evalCode enter unit value)
  | .branch condition yes no => do
      if (← evalCode enter unit condition).truth then evalBody enter unit yes
      else evalBody enter unit no
      return .undefined
  | .function id registration => do
      let function ← Exec.attempt fun m => some (m.makeFunction unit id)
      match registration with
      | some (name, site) => Exec.act (·.registerGlobal unit site name function)
      | none => pure ()
      return function
  | .object entries => do
      let object ← Exec.fetch (·.newObject)
      evalEntries enter unit object entries
      return object
  | .getField receiver site => do
      let receiver ← evalCode enter unit receiver
      Exec.attempt fun m => some (m.getField site receiver)
  | .setField receiver value site => do
      let receiver ← evalCode enter unit receiver
      let value ← evalCode enter unit value
      Exec.attempt fun m => some (m.setField site receiver value)
  | .call callee args site => do
      let callee ← evalCode enter unit callee
      let args ← evalArgs enter unit args
      Exec.attempt (callAt enter unit site callee .undefined args)
  | .method receiver args site => do
      let receiver ← evalCode enter unit receiver
      let args ← evalArgs enter unit args
      Exec.attempt (callMethod enter site receiver args)

/-- Run instructions in order and drop their values. -/
def evalBody (enter : Enter) (unit : UnitId) : List Code → Exec Unit
  | [] => return ()
  | c :: cs => do
      let _ ← evalCode enter unit c
      evalBody enter unit cs

/-- The values of arguments, left to right. -/
def evalArgs (enter : Enter) (unit : UnitId) : List Code → Exec (List Value)
  | [] => return []
  | c :: cs => do
      let v ← evalCode enter unit c
      return v :: (← evalArgs enter unit cs)

/-- Set the properties of a fresh object, left to right. -/
def evalEntries (enter : Enter) (unit : UnitId) (object : Value) :
    List (Code × FieldSite) → Exec Unit
  | [] => return ()
  | (c, site) :: rest => do
      let v ← evalCode enter unit c
      let _ ← Exec.attempt fun m => some (m.setField site object v)
      evalEntries enter unit object rest

end

/-- The end of an invocation that began when `mark` values were kept: what it kept is released, and a
parked failure becomes its error. -/
@[noinline] def endInvocation (mark : Nat) :
    Option (Flow Unit × Machine) → Option (Except RuntimeError Value × Machine)
  | none => none
  | some (.next () _, m) => some (.ok .undefined, m.release mark)
  | some (.returned v, m) => some (.ok v, m.release mark)
  | some (.aborted, m) =>
      let (e, m) := m.takeParked
      some (.error e, m.release mark)

/-- Invoke a compiled unit with exactly as many arguments as it has parameters. -/
def invokeUnit (enter : Enter) (unit : UnitId) (receiver : Value) (args : List Value) :
    Run (Except RuntimeError Value) := fun m =>
  match m.units[unit]? with
  | none => some (.error (.notCallable "function"), m)
  | some u =>
      if args.length ≠ u.arity then some (.error (.arityMismatch u.arity args.length), m)
      else
        endInvocation m.roots.count
          (evalBody enter unit u.code (u.initialLocals receiver args) m)

end ScriptEngine
