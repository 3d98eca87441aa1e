import ScriptEngine.Proofs.Moments
import ScriptEngine.Proofs.Session

/-!
# What a run does, in order

An account of a run lists, in the order in which they happen, the nodes that are evaluated and the
calls that are looked up at call sites, each with the machine on which it happens. It is read off the
run itself: the account of a sequence is the account of its first part, followed by that of the second
part on whatever the first part gave. A run that is cut short has an account up to there.
-/

namespace ScriptEngine

/-- Something that running code does, and the machine on which it does it. -/
inductive Act where
  /-- The evaluation of a node begins. -/
  | visit (unit : UnitId) (code : Code) (machine : Machine)
  /-- The callee and the arguments of a call are there, and its call site is asked for the target. -/
  | dispatch (unit : UnitId) (site : Nat) (callee : Value) (argCount : Nat) (machine : Machine)

namespace Act

def unit : Act → UnitId
  | .visit unit _ _ => unit
  | .dispatch unit _ _ _ _ => unit

def machine : Act → Machine
  | .visit _ _ m => m
  | .dispatch _ _ _ _ m => m

end Act

/-- The acts of running code, from the slots of the invocation and the machine. -/
abbrev Account := List Value → Machine → List Act

/-- The acts of an invocation. -/
abbrev EnterAccount := Callable → Value → List Value → Machine → List Act

namespace Account

variable {α : Type}

def silent : Account := fun _ _ => []

/-- A node is visited, and then `acts` happen on the same slots and machine. -/
def visiting (unit : UnitId) (code : Code) (acts : Account) : Account := fun locals m =>
  .visit unit code m :: acts locals m

/-- The acts of `x`, and then those of what follows if `x` gives a value. -/
def andThen (first : Account) (x : Exec α) (rest : α → Account) : Account := fun locals m =>
  first locals m ++
    match x locals m with
    | some (.next a locals', m') => rest a locals' m'
    | _ => []

theorem andThen_of_next {first : Account} {x : Exec α} {rest : α → Account}
    {locals locals' : List Value} {m m' : Machine} {a : α}
    (ran : x locals m = some (.next a locals', m')) :
    first.andThen x rest locals m = first locals m ++ rest a locals' m' := by
  simp only [andThen, ran]

end Account

/-- The acts of the invocation of an object, which has to be callable and to accept the number of
arguments. -/
def invokeActs (inner : EnterAccount) (id : ObjectId) (receiver : Value) (args : List Value)
    (m : Machine) : List Act :=
  match m.heap.callable? id with
  | none => []
  | some target =>
      match target.arity.check args.length with
      | .error _ => []
      | .ok () => inner target receiver args m

/-- The acts of a call at a call site, once callee and arguments are there. -/
def callActs (inner : EnterAccount) (unit : UnitId) (site : Nat) (callee receiver : Value)
    (args : List Value) (m : Machine) : List Act :=
  .dispatch unit site callee args.length m ::
    match m.dispatchCall unit site args.length callee with
    | (.ok target, m') => inner target receiver args m'
    | (.error _, _) => []

/-- The acts of a method call, once receiver and arguments are there. -/
def methodActs (inner : EnterAccount) (site : MethodSite) (receiver : Value) (args : List Value)
    (m : Machine) : List Act :=
  match site.resolve m.heap receiver with
  | .ok method => invokeActs inner method receiver args m
  | .error _ => []

section
variable (inner : EnterAccount) (enter : Enter) (unit : UnitId)

mutual

/-- The acts of a node. -/
def actsCode : Code → Account
  | .int n => .visiting unit (.int n) .silent
  | .text s => .visiting unit (.text s) .silent
  | .load slot => .visiting unit (.load slot) .silent
  | .store slot value => .visiting unit (.store slot value) (actsCode value)
  | .loadGlobal name site => .visiting unit (.loadGlobal name site) .silent
  | .block body => .visiting unit (.block body) (actsBody body)
  | .ret value => .visiting unit (.ret value) (actsCode value)
  | .branch condition yes no => .visiting unit (.branch condition yes no)
      ((actsCode condition).andThen (evalCode enter unit condition) fun v =>
        if v.truth then actsBody yes else actsBody no)
  | .function id registration => .visiting unit (.function id registration) .silent
  | .object entries => .visiting unit (.object entries)
      (Account.silent.andThen (Exec.fetch (·.newObject)) fun object => actsEntries object entries)
  | .getField receiver site => .visiting unit (.getField receiver site) (actsCode receiver)
  | .setField receiver value site => .visiting unit (.setField receiver value site)
      ((actsCode receiver).andThen (evalCode enter unit receiver) fun _ => actsCode value)
  | .call callee args site => .visiting unit (.call callee args site)
      ((actsCode callee).andThen (evalCode enter unit callee) fun f =>
        (actsArgs args).andThen (evalArgs enter unit args) fun vs _ =>
          callActs inner unit site f .undefined vs)
  | .method receiver args site => .visiting unit (.method receiver args site)
      ((actsCode receiver).andThen (evalCode enter unit receiver) fun r =>
        (actsArgs args).andThen (evalArgs enter unit args) fun vs _ => methodActs inner site r vs)

def actsBody : List Code → Account
  | [] => .silent
  | c :: cs => (actsCode c).andThen (evalCode enter unit c) fun _ => actsBody cs

def actsArgs : List Code → Account
  | [] => .silent
  | c :: cs => (actsCode c).andThen (evalCode enter unit c) fun _ => actsArgs cs

def actsEntries (object : Value) : List (Code × FieldSite) → Account
  | [] => .silent
  | (c, site) :: rest => (actsCode c).andThen (evalCode enter unit c) fun v =>
      Account.silent.andThen (Exec.attempt fun m => some (m.setField site object v)) fun _ =>
        actsEntries object rest

end

end

/-- The acts of a step of a host function. -/
def actsStep (inner : EnterAccount) : HostStep → Machine → List Act
  | .invoke id receiver args, m => invokeActs inner id receiver args m
  | _, _ => []

/-- The acts of a host function from some point on. -/
def actsProgram (inner : EnterAccount) (enter : Enter) : HostProgram → Machine → List Act
  | .done _, _ => []
  | .step s next, m => actsStep inner s m ++
      match s.perform enter m with
      | some (answer, m') => actsProgram inner enter (next answer) m'
      | none => []

theorem actsProgram_of_performed (inner : EnterAccount) {enter : Enter} {s : HostStep}
    {next : s.Answer → HostProgram} {answer : s.Answer} {m m' : Machine}
    (performed : s.perform enter m = some (answer, m')) :
    actsProgram inner enter (.step s next) m =
      actsStep inner s m ++ actsProgram inner enter (next answer) m' := by
  simp only [actsProgram, performed]

/-- The acts of entering a callable, with at most `depth` calls open at once. -/
def enterActs : (depth : Nat) → EnterAccount
  | 0, _, _, _, _ => []
  | depth + 1, .compiled unit _ _, receiver, args, m =>
      match m.units[unit]? with
      | none => []
      | some u =>
          if args.length ≠ u.arity then []
          else
            actsBody (enterActs depth) (enter depth) unit u.code (u.initialLocals receiver args) m
  | depth + 1, .native f, receiver, args, m =>
      actsProgram (enterActs depth) (enter depth) (f.body.onCall receiver args) m

/-- The acts of an activity. -/
def Activity.acts : Activity → List Act
  | .node depth unit p =>
      actsCode (enterActs depth) (enter depth) unit p.code p.locals p.machine
  | .entry depth target receiver args m => enterActs depth target receiver args m

/-- The acts of a program. -/
def executeActs (depth : Nat) (program : Block) (m : Machine) : List Act :=
  match m.compile (mainFunction program) with
  | .error _ => []
  | .ok (main, m') => invokeActs (enterActs depth) main .undefined []
      (m'.log (.executingProgram program.instrs.length))

/-- The acts of a request. -/
def serveActs (depth : Nat) (request : Request) (m : Machine) : List Act :=
  match request with
  | .execute program => executeActs depth program m
  | .document text =>
      match Block.parse text with
      | .error _ => []
      | .ok program => executeActs depth program m
  | .invoke id receiver args => invokeActs (enterActs depth) id receiver args m
  | .enter entry receiver args => enterActs depth entry receiver args m
  | .compile _ | .create _ | .define _ _ _ _ | .register _ _ _ => []

/-- The acts of a call through a site of the host. -/
def CallSite.invokeActs (site : CallSite) (depth : Nat) (callee receiver : Value)
    (args : List Value) (m : Machine) : List Act :=
  match site.dispatch m.heap callee with
  | .error _ => []
  | .ok d => enterActs depth d.target receiver args (m.log? d.event)

/-- A sequence that gives a value has done both of its parts. -/
theorem Exec.next_of_bind {α β : Type} {x : Exec α} {f : α → Exec β} {locals locals' : List Value}
    {m m' : Machine} {b : β} (ran : (x >>= f) locals m = some (.next b locals', m')) :
    ∃ a locals₁ m₁, x locals m = some (.next a locals₁, m₁) ∧
      f a locals₁ m₁ = some (.next b locals', m') := by
  change Exec.bind x f locals m = _ at ran
  cases first : x locals m with
  | none => simp [Exec.bind, first] at ran
  | some r =>
    obtain ⟨flow, m₁⟩ := r
    cases flow with
    | next a locals₁ =>
      simp only [Exec.bind, first] at ran
      exact ⟨a, locals₁, m₁, rfl, ran⟩
    | returned v => simp [Exec.bind, first] at ran
    | aborted => simp [Exec.bind, first] at ran

section
variable (inner : EnterAccount) {enter : Enter} {unit : UnitId}

theorem actsBody_append {first second : List Code} {locals locals' : List Value} {m m' : Machine}
    (ran : evalBody enter unit first locals m = some (.next () locals', m')) :
    actsBody inner enter unit (first ++ second) locals m =
      actsBody inner enter unit first locals m ++
        actsBody inner enter unit second locals' m' := by
  induction first generalizing locals m with
  | nil =>
    rw [evalBody] at ran
    cases ran
    rw [List.nil_append, actsBody]
    rfl
  | cons c rest ih =>
    rw [evalBody] at ran
    obtain ⟨v, locals₁, m₁, head, tail⟩ := Exec.next_of_bind ran
    rw [List.cons_append, actsBody, actsBody, Account.andThen_of_next head,
      Account.andThen_of_next head, ih tail, List.append_assoc]

theorem actsArgs_append {first second : List Code} {locals locals' : List Value} {m m' : Machine}
    {vs : List Value} (ran : evalArgs enter unit first locals m = some (.next vs locals', m')) :
    actsArgs inner enter unit (first ++ second) locals m =
      actsArgs inner enter unit first locals m ++
        actsArgs inner enter unit second locals' m' := by
  induction first generalizing locals m vs with
  | nil =>
    rw [evalArgs] at ran
    cases ran
    rw [List.nil_append, actsArgs]
    rfl
  | cons c rest ih =>
    rw [evalArgs] at ran
    obtain ⟨v, locals₁, m₁, head, tail⟩ := Exec.next_of_bind ran
    obtain ⟨ws, locals₂, m₂, rest_ran, last⟩ := Exec.next_of_bind tail
    cases last
    rw [List.cons_append, actsArgs, actsArgs, Account.andThen_of_next head,
      Account.andThen_of_next head, ih rest_ran, List.append_assoc]

theorem actsEntries_append {object : Value} {first second : List (Code × FieldSite)}
    {locals locals' : List Value} {m m' : Machine}
    (ran : evalEntries enter unit object first locals m = some (.next () locals', m')) :
    actsEntries inner enter unit object (first ++ second) locals m =
      actsEntries inner enter unit object first locals m ++
        actsEntries inner enter unit object second locals' m' := by
  induction first generalizing locals m with
  | nil =>
    rw [evalEntries] at ran
    cases ran
    rw [List.nil_append, actsEntries]
    rfl
  | cons entry rest ih =>
    obtain ⟨c, site⟩ := entry
    rw [evalEntries] at ran
    obtain ⟨v, locals₁, m₁, head, tail⟩ := Exec.next_of_bind ran
    obtain ⟨w, locals₂, m₂, written, last⟩ := Exec.next_of_bind tail
    rw [List.cons_append, actsEntries, actsEntries, Account.andThen_of_next head,
      Account.andThen_of_next head, Account.andThen_of_next written,
      Account.andThen_of_next written, ih last]
    simp only [List.append_assoc]

end

end ScriptEngine
