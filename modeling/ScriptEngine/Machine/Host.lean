import ScriptEngine.Machine.Exec
import ScriptEngine.Heap.Display

/-!
# Functions of the host

The machine performs the steps of a function of the host, one after another. The operators and `print` are
functions of the host. Arithmetic is exact or fails: a result that does not fit 32 bits is a fault. Sums
with a text join the texts of both operands. Only integers are ordered; any two values can be compared for
equality.
-/

namespace ScriptEngine

/-- Write a line to the sink. -/
def Machine.print (m : Machine) (args : List Value) : Except Fault Value × Machine :=
  let line := " ".intercalate (args.map m.heap.display) ++ "\n"
  match m.sink with
  | .accepting => (.ok .undefined, { m with output := m.output ++ line })
  | .refusesWrite => (.error { text := "sink refused write" }, m)
  | .refusesFlush => (.error { text := "sink refused flush" }, { m with output := m.output ++ line })

/-- Do what a function of the host asks for. -/
def HostStep.perform (enter : Enter) : (s : HostStep) → Run s.Answer
  | .describe v => fun m => some (m.heap.describe v, m)
  | .display v => fun m => some (m.heap.display v, m)
  | .rooted => fun m => some (m.roots.count, m)
  | .keys id => fun m => some (m.heap.keys id, m)
  | .lookup id key => fun m => some (m.heap.lookup id key, m)
  | .register id key v => fun m => some ((), { m with heap := m.heap.register id key v })
  | .create proto => fun m =>
      let (id, heap) := m.heap.newObject proto
      some (id, { m with heap })
  | .print args => fun m => some (m.print args)
  | .compile f => fun m =>
      match m.compile f with
      | .ok (id, m) => some (.ok id, m)
      | .error e => some (.error e, m)
  | .invoke id receiver args => invokeObject enter id receiver args

/-- Run a function of the host from some point on. -/
def HostProgram.run (enter : Enter) : HostProgram → Run (Except HostError Value)
  | .done result => fun m => some (result, m)
  | .step s next => fun m =>
      match s.perform enter m with
      | some (answer, m) => (next answer).run enter m
      | none => none

/-- What a function of the host does. -/
def runHost (enter : Enter) (f : HostFunction) (receiver : Value) (args : List Value) :
    Run (Except HostError Value) :=
  (f.onCall receiver args).run enter

/-- The operators of the global environment. -/
inductive Operator where
  | add
  | sub
  | mul
  | div
  | rem
  | eq
  | ne
  | lt
  | le
  | gt
  | ge
  deriving DecidableEq, Repr

namespace Operator

def symbol : Operator → String
  | .add => "+"
  | .sub => "-"
  | .mul => "*"
  | .div => "/"
  | .rem => "%"
  | .eq => "=="
  | .ne => "!="
  | .lt => "<"
  | .le => "<="
  | .gt => ">"
  | .ge => ">="

/-- The operators in the order of their registration. -/
def all : List Operator := [.add, .sub, .mul, .div, .rem, .eq, .ne, .lt, .le, .gt, .ge]

def overflow (op : Operator) : Fault := { text := "integer overflow in " ++ op.symbol }

def divisionByZero : Fault := { text := "division by zero" }

def fits (n : Int) : Bool := -0x80000000 ≤ n && n < 0x80000000

/-- An exact result, if it fits. -/
def exact (op : Operator) (n : Int) : Except Fault Value :=
  if fits n then .ok (.int (Int32.ofInt n)) else .error op.overflow

/-- The operators on integers. Division goes towards zero; a remainder fails with its quotient. -/
def onInts (op : Operator) (a b : Int) : Except Fault Value :=
  match op with
  | .add => op.exact (a + b)
  | .sub => op.exact (a - b)
  | .mul => op.exact (a * b)
  | .div => if b = 0 then .error divisionByZero else op.exact (a.tdiv b)
  | .rem =>
      if b = 0 then .error divisionByZero
      else if fits (a.tdiv b) then op.exact (a.tmod b) else .error op.overflow
  | .eq => .ok (.bool (a = b))
  | .ne => .ok (.bool (a ≠ b))
  | .lt => .ok (.bool (a < b))
  | .le => .ok (.bool (a ≤ b))
  | .gt => .ok (.bool (a > b))
  | .ge => .ok (.bool (a ≥ b))

/-- Fail with a message that describes both operands. -/
def refuse (a b : Value) (message : String → String → String) : HostProgram :=
  .step (.describe a) fun first => .step (.describe b) fun second =>
    .fail { text := message first second }

/-- An operator on two operands. -/
def apply (op : Operator) (a b : Value) : HostProgram :=
  match op with
  | .eq => .give (.bool (a = b))
  | .ne => .give (.bool (a ≠ b))
  | .add =>
      match a, b with
      | .int m, .int n => .done ((op.onInts m.toInt n.toInt).mapError .foreign)
      | .text s, b => .step (.display b) fun shown => .give (.text (s ++ shown))
      | a, .text s => .step (.display a) fun shown => .give (.text (shown ++ s))
      | a, b => refuse a b fun first second => s!"can not add {first} and {second}"
  | op =>
      match a, b with
      | .int m, .int n => .done ((op.onInts m.toInt n.toInt).mapError .foreign)
      | a, b => refuse a b fun first second =>
          s!"{op.symbol} expects integers, got {first} and {second}"

end Operator

/-- An argument; one that is missing reads as `undefined`. -/
def argument (args : List Value) (i : Nat) : Value := args[i]?.getD .undefined

namespace HostProgram

/-- Describe values, and go on with the descriptions. -/
def describeAll : List Value → (List String → HostProgram) → HostProgram
  | [], next => next []
  | v :: vs, next => .step (.describe v) fun text => describeAll vs fun texts => next (text :: texts)

/-- Invoke the first argument with the same receiver and the other arguments. -/
def applyFirst (who : String) (receiver : Value) (args : List Value)
    (next : Except RuntimeError Value → HostProgram) : HostProgram :=
  match args.headD .undefined with
  | .object id => .step (.invoke id receiver args.tail) next
  | v => .step (.describe v) fun text => .fail { text := s!"{who} needs an object, got {text}" }

end HostProgram

namespace HostFunction

def operator (op : Operator) : HostFunction where
  onCall _ args := op.apply (argument args 0) (argument args 1)

def print : HostFunction where
  onCall _ args := .step (.print args) fun result => .done (result.mapError .foreign)

def const (v : Value) : HostFunction where
  onCall _ _ := .give v

def arg (i : Nat) : HostFunction where
  onCall _ args := .give (argument args i)

def this : HostFunction where
  onCall receiver _ := .give receiver

/-- The number of arguments. -/
def count : HostFunction where
  onCall _ args := .give (.int (Int32.ofNat args.length))

def rooted : HostFunction where
  onCall _ _ := .step .rooted fun n => .give (.int (Int32.ofNat n))

/-- The descriptions of receiver and arguments as one text. -/
def join : HostFunction where
  onCall receiver args := .step (.describe receiver) fun self => .describeAll args fun texts =>
    .give (.text (self ++ "|" ++ ",".intercalate texts))

/-- Look up a key on the receiver. -/
def get (key : String) : HostFunction where
  onCall
    | .object id, _ => .step (.lookup id key) .give
    | _, _ => .give .undefined

/-- Register the first argument on the receiver. -/
def put (key : String) : HostFunction where
  onCall
    | .object id, args => .step (.register id key (argument args 0)) fun _ => .give (.object id)
    | receiver, _ => .give receiver

/-- Invoke the first argument with the other ones, and hand on what it ends with. -/
def apply : HostFunction where
  onCall receiver args := .applyFirst "apply" receiver args fun result =>
    .done (result.mapError .known)

/-- Invoke the first argument with the other ones, and turn a failure into a text. -/
def attempt : HostFunction where
  onCall receiver args := .applyFirst "attempt" receiver args fun
    | .ok v => .give v
    | .error e => .give (.text ("caught: " ++ e.message))

def fail (fault : Fault) : HostFunction where
  onCall _ _ := .fail fault

def raise (error : RuntimeError) : HostFunction where
  onCall _ _ := .raise error

end HostFunction

end ScriptEngine
