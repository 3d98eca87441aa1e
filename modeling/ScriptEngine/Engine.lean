import ScriptEngine.Machine.Host
import ScriptEngine.Program.Document

/-!
# The engine

A fresh engine has a global environment with the operators and `print`. Programs are run as the body of
a function `main` without parameters, given as trees or as documents. Runs are bounded by the number of
calls that may be open at once.
-/

namespace ScriptEngine

/-- Enter a callable, with at most `depth` calls open at once. The number of arguments of a host
function is not checked here. -/
def enter : (depth : Nat) → Enter
  | 0, _, _, _ => fun _ => none
  | depth + 1, .compiled unit _ _, receiver, args => invokeUnit (enter depth) unit receiver args
  | depth + 1, .native f, receiver, args => fun m =>
      match runHost (enter depth) f.body receiver args m with
      | some (result, m) => some (result.mapError .ofHost, m)
      | none => none

/-- Invoke an object. -/
def invoke (depth : Nat) (id : ObjectId) (receiver : Value) (args : List Value) :
    Run (Except RuntimeError Value) :=
  invokeObject (enter depth) id receiver args

/-- Why a program gave no value. -/
inductive ExecError where
  | compile (error : CompileError)
  | runtime (error : RuntimeError)
  | document (error : DocumentError)
  deriving DecidableEq, Repr

namespace ExecError

/-- The wording of an error; documents that end too early or are malformed have none. -/
def message? : ExecError → Option String
  | .compile e => some ("Compile error: " ++ e.message)
  | .runtime e => some ("Runtime error: " ++ e.message)
  | .document (.shape e) => some ("Syntax error: " ++ e.message)
  | .document _ => none

/-- The texts behind an error, nearest first. -/
def chain : ExecError → List String
  | .compile e => [e.message]
  | .runtime e => e.message :: e.chain
  | .document _ => []

end ExecError

namespace Machine

/-- The global environment of an engine is its first object. -/
def global : ObjectId := 0

/-- Define a host function under its name. -/
def define (m : Machine) (owner : ObjectId) (name : String) (arity : Arity) (body : HostFunction) :
    ObjectId × Machine :=
  let (id, heap) := m.heap.newNative name arity body
  (id, { m with heap := heap.register owner name (.object id) })

/-- A fresh engine. -/
def boot (cacheDepth : Nat) (sink : Sink) : Machine :=
  let (_, heap) := ({} : Heap).newEnv none
  let m : Machine := { heap, cacheDepth, sink }
  let m := Operator.all.foldl
    (fun m op => (m.define global op.symbol (.fixed 2) (.operator op)).2) m
  (m.define global "print" .variadic .print).2

end Machine

/-- Call a value through a call site: the outcome, and the site afterwards. -/
def CallSite.invoke (site : CallSite) (depth : Nat) (callee receiver : Value) (args : List Value) :
    Run (Except RuntimeError Value × CallSite) := fun m =>
  match m.dispatchAt site callee with
  | ((.error e, site), m) => some ((.error e, site), m)
  | ((.ok target, site), m) =>
      match enter depth target receiver args m with
      | some (result, m) => some ((result, site), m)
      | none => none

/-- Call a method through a method site. -/
def MethodSite.invoke (site : MethodSite) (depth : Nat) (receiver : Value) (args : List Value) :
    Run (Except RuntimeError Value) :=
  callMethod (enter depth) site receiver args

/-- The compiled unit behind a function. -/
def Machine.unitOf? (m : Machine) (id : ObjectId) : Option UnitId :=
  match m.heap.callable? id with
  | some (.compiled unit _ _) => some unit
  | _ => none

/-- The name of the function that wraps a program. -/
def mainName : String := "main"

/-- The function that wraps a program. -/
def mainFunction (program : Block) : FunctionDef :=
  { name := some mainName, params := [], body := program, global := Machine.global }

/-- Run a program. -/
def execute (depth : Nat) (program : Block) : Run (Except ExecError Value) := fun m =>
  match m.compile (mainFunction program) with
  | .error e => some (.error (.compile e), m)
  | .ok (main, m) =>
      match invoke depth main .undefined [] (m.log (.executingProgram program.instrs.length)) with
      | some (result, m) => some (result.mapError .runtime, m)
      | none => none

/-- Read a program and run it. -/
def executeDocument (depth : Nat) (text : String) : Run (Except ExecError Value) := fun m =>
  match Block.parse text with
  | .error e => some (.error (.document e), m)
  | .ok program => execute depth program m

end ScriptEngine
