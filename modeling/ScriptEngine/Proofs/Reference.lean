import ScriptEngine.Engine

/-!
# Programs run as trees

A second meaning of programs, without code and without sites. The body of a function is evaluated as the
tree it is. Local names are kept in a map, every free name is looked up in the global object each time,
every call resolves its callee each time, and every evaluation of a function literal checks its body
anew. A failure is a value of the evaluation; it is not parked anywhere.
-/

namespace ScriptEngine.Reference

/-- The local names of an invocation with their values. -/
abbrev Env := String → Option Value

namespace Env

/-- All of `names`, with no value yet. -/
def declare (names : List String) : Env := fun x => if x ∈ names then some .undefined else none

def set (env : Env) (x : String) (v : Value) : Env := fun y => if y = x then some v else env y

/-- Bind names from left to right; a later binding of a name overwrites an earlier one. -/
def bindAll (env : Env) (bindings : List (String × Value)) : Env :=
  bindings.foldl (fun env (x, v) => env.set x v) env

end Env

end Reference

mutual

/-- The names an instruction declares, in program order. Values are not searched, and neither are
nested function literals. -/
def Expr.declared : Expr → List String
  | .block body => body.declared
  | .assign name _ true _ => [name]
  | .cond _ yes no _ => yes.declared ++ no.declared
  | _ => []

def Block.declared : Block → List String
  | .mk instrs _ => declaredAll instrs

def declaredAll : List Expr → List String
  | [] => []
  | e :: es => e.declared ++ declaredAll es

end

/-- The names an invocation keeps to itself: receiver, parameters and everything declared in
statement position. -/
def FunctionDef.locals (f : FunctionDef) : List String :=
  (receiverName :: f.params) ++ f.body.declared

/-- The local names at the start of an invocation. -/
def FunctionDef.initialEnv (f : FunctionDef) (receiver : Value) (args : List Value) :
    Reference.Env :=
  (Reference.Env.declare f.locals).bindAll ((receiverName :: f.params).zip (receiver :: args))

mutual

/-- The assignments of a node with their lines, those inside a value before the one that stores it.
Nested function literals are left out. -/
def Expr.assignments : Expr → List (String × UInt32)
  | .block body => body.assignments
  | .literal _ _ | .var _ _ | .function _ _ _ _ => []
  | .call callee args _ => callee.assignments ++ assignmentsAll args
  | .assign name value _ line => value.assignments ++ [(name, line)]
  | .ret value _ => value.assignments
  | .cond condition yes no _ => condition.assignments ++ (yes.assignments ++ no.assignments)
  | .object entries _ => assignmentsEntries entries
  | .field receiver _ _ => receiver.assignments
  | .setField receiver _ value _ => receiver.assignments ++ value.assignments
  | .method receiver _ args _ => receiver.assignments ++ assignmentsAll args

def Block.assignments : Block → List (String × UInt32)
  | .mk instrs _ => assignmentsAll instrs

def assignmentsAll : List Expr → List (String × UInt32)
  | [] => []
  | e :: es => e.assignments ++ assignmentsAll es

def assignmentsEntries : List (String × Expr) → List (String × UInt32)
  | [] => []
  | (_, e) :: es => e.assignments ++ assignmentsEntries es

end

/-- Whether a function can be compiled: the first assignment to a name that is not local is at fault. -/
def FunctionDef.check (f : FunctionDef) : Except CompileError Unit :=
  match f.body.assignments.find? fun a => a.1 ∉ f.locals with
  | some (name, line) => .error (.unknownVariable name line)
  | none => .ok ()

namespace Reference

/-- What can be observed of an engine, the text sink included. -/
structure World where
  heap : Heap := {}
  /-- The functions compiled so far. -/
  functions : Array FunctionDef := #[]
  /-- The heap values handed to active invocations. -/
  kept : Array Value := #[]
  output : String := ""
  sink : Sink := .accepting

/-- A computation on the world; `none` if it needs more nested calls than allowed. -/
abbrev Run := StateT World Option

/-- A way to enter callables with a receiver and arguments. -/
abbrev Enter := Callable → Value → List Value → Run (Except RuntimeError Value)

namespace World

def keep (w : World) (v : Value) : World :=
  if v.isHeap then { w with kept := w.kept.push v } else w

/-- Give up what was kept after the first `mark` values. -/
def release (w : World) (mark : Nat) : World := { w with kept := w.kept.shrink mark }

/-- A fresh function object. -/
def compile (w : World) (f : FunctionDef) : Except CompileError (ObjectId × World) := do
  f.check
  let name := f.name.getD anonymousName
  let (id, heap) := w.heap.newFunction name (.compiled w.functions.size name f.params.length)
  return (id, { w with heap, functions := w.functions.push f })

def makeFunction (w : World) (f : FunctionDef) : Except RuntimeError Value × World :=
  match w.compile f with
  | .error e => (.error (.compile e), w)
  | .ok (id, w) => (.ok (.object id), w)

def register (w : World) (id : ObjectId) (key : String) (v : Value) : World :=
  { w with heap := w.heap.register id key v }

def newObject (w : World) : Value × World :=
  let (id, heap) := w.heap.newObject none
  (.object id, { w with heap })

def setField (w : World) (name : String) (receiver value : Value) :
    Except RuntimeError Value × World :=
  match FieldSite.set { name } w.heap receiver value with
  | .ok heap => (.ok .undefined, { w with heap })
  | .error e => (.error e, w)

/-- Write a line to the sink. -/
def print (w : World) (args : List Value) : Except Fault Value × World :=
  let line := " ".intercalate (args.map w.heap.display) ++ "\n"
  match w.sink with
  | .accepting => (.ok .undefined, { w with output := w.output ++ line })
  | .refusesWrite => (.error { text := "sink refused write" }, w)
  | .refusesFlush => (.error { text := "sink refused flush" }, { w with output := w.output ++ line })

end World

/-- How a node ends. -/
inductive Outcome (α : Type) where
  | next (a : α) (env : Env)
  | returned (v : Value)
  | failed (e : RuntimeError)

def Eval (α : Type) : Type := Env → World → Option (Outcome α × World)

namespace Eval

def pure {α : Type} (a : α) : Eval α := fun env w => some (.next a env, w)

def bind {α β : Type} (x : Eval α) (f : α → Eval β) : Eval β := fun env w =>
  match x env w with
  | some (.next a env, w) => f a env w
  | some (.returned v, w) => some (.returned v, w)
  | some (.failed e, w) => some (.failed e, w)
  | none => none

instance : Monad Eval where
  pure := Eval.pure
  bind := Eval.bind

def leave {α : Type} (v : Value) : Eval α := fun _ w => some (.returned v, w)

def act (f : World → World) : Eval Unit := fun env w => some (.next () env, f w)

def fetch (f : World → Value × World) : Eval Value := fun env w =>
  let (v, w) := f w
  some (.next v env, w.keep v)

def attempt (r : Run (Except RuntimeError Value)) : Eval Value := fun env w =>
  match r w with
  | some (.ok v, w) => some (.next v env, w.keep v)
  | some (.error e, w) => some (.failed e, w)
  | none => none

/-- A local name has the value of the map; any other name is read from the global object. -/
def read (global : ObjectId) (x : String) : Eval Value := fun env w =>
  match env x with
  | some v => some (.next v env, w)
  | none => fetch (fun w => (w.heap.lookup global x, w)) env w

def assign (x : String) (v : Value) : Eval Unit := fun env w => some (.next () (env.set x v), w)

end Eval

/-- Invoke an object: it has to be callable and to accept the number of arguments. -/
def invokeObject (enter : Enter) (id : ObjectId) (receiver : Value) (args : List Value) :
    Run (Except RuntimeError Value) := fun w =>
  match w.heap.callable? id with
  | none => some (.error (.notCallable (w.heap.nameOf id)), w)
  | some entry =>
      match entry.arity.check args.length with
      | .error e => some (.error e, w)
      | .ok () => enter entry receiver args w

/-- Call a value: its entry is resolved on every call. -/
def callValue (enter : Enter) (callee receiver : Value) (args : List Value) :
    Run (Except RuntimeError Value) := fun w =>
  match w.heap.resolveCallee callee args.length with
  | .ok (_, target) => enter target receiver args w
  | .error e => some (.error e, w)

def callMethod (enter : Enter) (name : String) (receiver : Value) (args : List Value) :
    Run (Except RuntimeError Value) := fun w =>
  match MethodSite.resolve { name, argCount := args.length } w.heap receiver with
  | .ok method => invokeObject enter method receiver args w
  | .error e => some (.error e, w)

mutual

/-- The value of a node of a function with the given global object. -/
def evalExpr (enter : Enter) (global : ObjectId) : Expr → Eval Value
  | .block body => do
      evalBlock enter global body
      return .undefined
  | .literal (.int n) _ => return .int n
  | .literal (.text s) _ => return .text s
  | .call callee args _ => do
      let callee ← evalExpr enter global callee
      let args ← evalArgs enter global args
      Eval.attempt (callValue enter callee .undefined args)
  | .var name _ => Eval.read global name
  | .assign name value _ _ => do
      Eval.assign name (← evalExpr enter global value)
      return .undefined
  | .function name params body _ => do
      let function ← Eval.attempt fun w => some (w.makeFunction { name, params, body, global })
      match name with
      | some name => Eval.act (·.register global name function)
      | none => pure ()
      return function
  | .ret value _ => do Eval.leave (← evalExpr enter global value)
  | .cond condition yes no _ => do
      if (← evalExpr enter global condition).truth then evalBlock enter global yes
      else evalBlock enter global no
      return .undefined
  | .object entries _ => do
      let object ← Eval.fetch (·.newObject)
      evalEntries enter global object entries
      return object
  | .field receiver name _ => do
      let receiver ← evalExpr enter global receiver
      Eval.attempt fun w => some (FieldSite.get { name } w.heap receiver, w)
  | .setField receiver name value _ => do
      let receiver ← evalExpr enter global receiver
      let value ← evalExpr enter global value
      Eval.attempt fun w => some (w.setField name receiver value)
  | .method receiver name args _ => do
      let receiver ← evalExpr enter global receiver
      let args ← evalArgs enter global args
      Eval.attempt (callMethod enter name receiver args)

def evalBlock (enter : Enter) (global : ObjectId) : Block → Eval Unit
  | .mk instrs _ => evalInstrs enter global instrs

/-- Run instructions in order and drop their values. -/
def evalInstrs (enter : Enter) (global : ObjectId) : List Expr → Eval Unit
  | [] => return ()
  | e :: es => do
      let _ ← evalExpr enter global e
      evalInstrs enter global es

/-- The values of arguments, left to right. -/
def evalArgs (enter : Enter) (global : ObjectId) : List Expr → Eval (List Value)
  | [] => return []
  | e :: es => do
      let v ← evalExpr enter global e
      return v :: (← evalArgs enter global es)

/-- Set the properties of a fresh object, left to right. -/
def evalEntries (enter : Enter) (global : ObjectId) (object : Value) :
    List (String × Expr) → Eval Unit
  | [] => return ()
  | (key, e) :: rest => do
      let v ← evalExpr enter global e
      let _ ← Eval.attempt fun w => some (w.setField key object v)
      evalEntries enter global object rest

end

/-- The end of an invocation that began when `mark` values were kept. -/
def endInvocation (mark : Nat) :
    Option (Outcome Unit × World) → Option (Except RuntimeError Value × World)
  | none => none
  | some (.next () _, w) => some (.ok .undefined, w.release mark)
  | some (.returned v, w) => some (.ok v, w.release mark)
  | some (.failed e, w) => some (.error e, w.release mark)

/-- Run the body of a function on its local names. -/
def runBody (enter : Enter) (f : FunctionDef) (receiver : Value) (args : List Value) :
    Run (Except RuntimeError Value) := fun w =>
  endInvocation w.kept.size
    (evalBlock enter f.global f.body (f.initialEnv receiver args) w)

/-- Invoke a function with exactly as many arguments as it has parameters. -/
def invokeFunction (enter : Enter) (unit : UnitId) (receiver : Value) (args : List Value) :
    Run (Except RuntimeError Value) := fun w =>
  match w.functions[unit]? with
  | none => some (.error (.notCallable "function"), w)
  | some f =>
      if args.length ≠ f.params.length then
        some (.error (.arityMismatch f.params.length args.length), w)
      else runBody enter f receiver args w

/-- Do what a function of the host asks for. -/
def performStep (enter : Enter) : (s : HostStep) → Run s.Answer
  | .describe v => fun w => some (w.heap.describe v, w)
  | .display v => fun w => some (w.heap.display v, w)
  | .rooted => fun w => some (w.kept.size, w)
  | .keys id => fun w => some (w.heap.keys id, w)
  | .lookup id key => fun w => some (w.heap.lookup id key, w)
  | .register id key v => fun w => some ((), w.register id key v)
  | .create proto => fun w =>
      let (id, heap) := w.heap.newObject proto
      some (id, { w with heap })
  | .print args => fun w => some (w.print args)
  | .compile f => fun w =>
      match w.compile f with
      | .ok (id, w) => some (.ok id, w)
      | .error e => some (.error e, w)
  | .invoke id receiver args => invokeObject enter id receiver args

/-- Run a function of the host from some point on. -/
def runProgram (enter : Enter) : HostProgram → Run (Except HostError Value)
  | .done result => fun w => some (result, w)
  | .step s next => fun w =>
      match performStep enter s w with
      | some (answer, w) => runProgram enter (next answer) w
      | none => none

/-- What a function of the host does. -/
def runHost (enter : Enter) (f : HostFunction) (receiver : Value) (args : List Value) :
    Run (Except HostError Value) :=
  runProgram enter (f.onCall receiver args)

/-- Enter a callable, with at most `depth` calls open at once. -/
def enter : (depth : Nat) → Enter
  | 0, _, _, _ => fun _ => none
  | depth + 1, .compiled unit _ _, receiver, args => invokeFunction (enter depth) unit receiver args
  | depth + 1, .native f, receiver, args => fun w =>
      match runHost (enter depth) f.body receiver args w with
      | some (result, w) => some (result.mapError .ofHost, w)
      | none => none

end ScriptEngine.Reference
