import ScriptEngine.Engine
import ScriptEngine.Proofs.HostProgram
import Mathlib.Logic.Relation

/-!
# The moments of a run

While a program runs, evaluations of nodes and invocations of functions are open inside each other. An
activity is one of them, together with the machine it begins on. Its parts are the activities it has to
wait for: the operands of a node, the functions that a node or a host function calls, the statements of
a body. What came before a part has ended, for code with a value, and what comes after it has not begun.
-/

namespace ScriptEngine

namespace Exec

variable {α β γ : Type}

theorem bind_eq_of_next {x : Exec α} {f : α → Exec β} {locals locals' : List Value} {m m' : Machine}
    {a : α} (ran : x locals m = some (.next a locals', m')) :
    (x >>= f) locals m = f a locals' m' := by
  change Exec.bind x f locals m = _
  simp only [Exec.bind, ran]

theorem bind_eq_of_aborted {x : Exec α} {f : α → Exec β} {locals : List Value} {m s : Machine}
    (ran : x locals m = some (.aborted, s)) : (x >>= f) locals m = some (.aborted, s) := by
  change Exec.bind x f locals m = _
  simp only [Exec.bind, ran]

/-- A sequence is given up in its first part, or after it in the second. -/
theorem aborted_of_bind {x : Exec α} {f : α → Exec β} {locals : List Value} {m s : Machine}
    (ran : (x >>= f) locals m = some (.aborted, s)) :
    x locals m = some (.aborted, s) ∨
      ∃ a locals' m', x locals m = some (.next a locals', m') ∧
        f a locals' m' = some (.aborted, s) := by
  change Exec.bind x f locals m = _ at ran
  cases first : x locals m with
  | none => simp [Exec.bind, first] at ran
  | some r =>
    obtain ⟨flow, m'⟩ := r
    cases flow with
    | next a locals' =>
      simp only [Exec.bind, first] at ran
      exact Or.inr ⟨a, locals', m', rfl, ran⟩
    | returned v => simp [Exec.bind, first] at ran
    | aborted =>
      simp only [Exec.bind, first] at ran
      cases ran
      exact Or.inl rfl

/-- A value is given where nothing is left to do. -/
theorem aborted_first {x : Exec α} {f : α → β} {locals : List Value} {m s : Machine}
    (ran : (x >>= fun a => Exec.pure (f a)) locals m = some (.aborted, s)) :
    x locals m = some (.aborted, s) := by
  rcases aborted_of_bind ran with first | ⟨_, _, _, _, second⟩
  · exact first
  · cases second

theorem fetch_eq (f : Machine → Value × Machine) (locals : List Value) (m : Machine) :
    Exec.fetch f locals m = some (.next (f m).1 locals, (f m).2.root (f m).1) := rfl

theorem attempt_of_error {r : Run (Except RuntimeError Value)} {locals : List Value} {m s : Machine}
    {e : RuntimeError} (failed : r m = some (.error e, s)) :
    Exec.attempt r locals m = some (.aborted, s.park e) := by
  simp only [Exec.attempt, failed]

theorem aborted_of_attempt {r : Run (Except RuntimeError Value)} {locals : List Value}
    {m s : Machine} (ran : Exec.attempt r locals m = some (.aborted, s)) :
    ∃ e s', r m = some (.error e, s') ∧ s = s'.park e := by
  cases tried : r m with
  | none => simp [Exec.attempt, tried] at ran
  | some result =>
    obtain ⟨outcome, s'⟩ := result
    cases outcome with
    | ok v => simp [Exec.attempt, tried] at ran
    | error e =>
      simp only [Exec.attempt, tried] at ran
      cases ran
      exact ⟨e, s', rfl, rfl⟩

end Exec

instance : LawfulMonad Exec := LawfulMonad.mk' Exec
  (by
    intro α x
    funext locals m
    change Exec.bind x (fun a => Exec.pure (id a)) locals m = x locals m
    cases ran : x locals m with
    | none => simp [Exec.bind, ran]
    | some r =>
      obtain ⟨flow, m'⟩ := r
      cases flow <;> simp [Exec.bind, ran, Exec.pure])
  (fun _ _ => rfl)
  (by
    intro α β γ x f g
    funext locals m
    change Exec.bind (Exec.bind x f) g locals m = Exec.bind x (fun a => Exec.bind (f a) g) locals m
    cases ran : x locals m with
    | none => simp [Exec.bind, ran]
    | some r =>
      obtain ⟨flow, m'⟩ := r
      cases flow <;> simp [Exec.bind, ran])

section
variable (enter : Enter) (unit : UnitId)

theorem evalBody_append (first second : List Code) :
    evalBody enter unit (first ++ second) =
      (do evalBody enter unit first; evalBody enter unit second) := by
  induction first with
  | nil => rw [List.nil_append, evalBody, pure_bind]
  | cons c rest ih =>
    rw [List.cons_append, evalBody, evalBody, ih, bind_assoc]

theorem evalArgs_append (first second : List Code) :
    evalArgs enter unit (first ++ second) = (do
      let vs ← evalArgs enter unit first
      let ws ← evalArgs enter unit second
      return vs ++ ws) := by
  induction first with
  | nil =>
    rw [List.nil_append, evalArgs, pure_bind]
    simp
  | cons c rest ih =>
    rw [List.cons_append, evalArgs, evalArgs, ih]
    simp

theorem evalEntries_append (object : Value) (first second : List (Code × FieldSite)) :
    evalEntries enter unit object (first ++ second) =
      (do evalEntries enter unit object first; evalEntries enter unit object second) := by
  induction first with
  | nil => rw [List.nil_append, evalEntries, pure_bind]
  | cons entry rest ih =>
    obtain ⟨c, site⟩ := entry
    rw [List.cons_append, evalEntries, evalEntries, ih]
    simp only [bind_assoc]

end

/-- A node that is about to be evaluated. -/
structure Spot where
  code : Code
  locals : List Value
  machine : Machine

/-- How the evaluation of the node ends. -/
def Spot.run (enter : Enter) (unit : UnitId) (p : Spot) : Option (Flow Value × Machine) :=
  evalCode enter unit p.code p.locals p.machine

section
variable (enter : Enter) (unit : UnitId)

/-- On the way through `p` the node `q` is evaluated, as a part of it and in the same invocation. -/
inductive Operand : Spot → Spot → Prop
  | assigned {slot : Nat} {value : Code} {locals : List Value} {m : Machine} :
      Operand ⟨.store slot value, locals, m⟩ ⟨value, locals, m⟩
  | returned {value : Code} {locals : List Value} {m : Machine} :
      Operand ⟨.ret value, locals, m⟩ ⟨value, locals, m⟩
  | statement {before after : List Code} {c : Code} {locals locals' : List Value} {m m' : Machine}
      (ran : evalBody enter unit before locals m = some (.next () locals', m')) :
      Operand ⟨.block (before ++ c :: after), locals, m⟩ ⟨c, locals', m'⟩
  | condition {condition : Code} {yes no : List Code} {locals : List Value} {m : Machine} :
      Operand ⟨.branch condition yes no, locals, m⟩ ⟨condition, locals, m⟩
  /-- A statement of the arm that was chosen. -/
  | arm {condition c : Code} {yes no before after : List Code} {v : Value}
      {locals locals₁ locals' : List Value} {m m₁ m' : Machine}
      (tested : evalCode enter unit condition locals m = some (.next v locals₁, m₁))
      (chosen : (if v.truth then yes else no) = before ++ c :: after)
      (ran : evalBody enter unit before locals₁ m₁ = some (.next () locals', m')) :
      Operand ⟨.branch condition yes no, locals, m⟩ ⟨c, locals', m'⟩
  /-- The value of an entry; the object exists already, with the entries before this one. -/
  | entry {before after : List (Code × FieldSite)} {c : Code} {site : FieldSite}
      {locals locals' : List Value} {m m' : Machine}
      (ran : evalEntries enter unit m.newObject.1 before locals
        (m.newObject.2.root m.newObject.1) = some (.next () locals', m')) :
      Operand ⟨.object (before ++ (c, site) :: after), locals, m⟩ ⟨c, locals', m'⟩
  | readFrom {receiver : Code} {site : FieldSite} {locals : List Value} {m : Machine} :
      Operand ⟨.getField receiver site, locals, m⟩ ⟨receiver, locals, m⟩
  | writtenTo {receiver value : Code} {site : FieldSite} {locals : List Value} {m : Machine} :
      Operand ⟨.setField receiver value site, locals, m⟩ ⟨receiver, locals, m⟩
  | written {receiver value : Code} {site : FieldSite} {r : Value} {locals locals' : List Value}
      {m m' : Machine} (into : evalCode enter unit receiver locals m = some (.next r locals', m')) :
      Operand ⟨.setField receiver value site, locals, m⟩ ⟨value, locals', m'⟩
  | callee {callee : Code} {args : List Code} {site : Nat} {locals : List Value} {m : Machine} :
      Operand ⟨.call callee args site, locals, m⟩ ⟨callee, locals, m⟩
  | argument {callee c : Code} {before after : List Code} {site : Nat} {f : Value} {vs : List Value}
      {locals locals₁ locals' : List Value} {m m₁ m' : Machine}
      (called : evalCode enter unit callee locals m = some (.next f locals₁, m₁))
      (ran : evalArgs enter unit before locals₁ m₁ = some (.next vs locals', m')) :
      Operand ⟨.call callee (before ++ c :: after) site, locals, m⟩ ⟨c, locals', m'⟩
  | receiver {receiver : Code} {args : List Code} {site : MethodSite} {locals : List Value}
      {m : Machine} : Operand ⟨.method receiver args site, locals, m⟩ ⟨receiver, locals, m⟩
  | methodArgument {receiver c : Code} {before after : List Code} {site : MethodSite} {r : Value}
      {vs : List Value} {locals locals₁ locals' : List Value} {m m₁ m' : Machine}
      (self : evalCode enter unit receiver locals m = some (.next r locals₁, m₁))
      (ran : evalArgs enter unit before locals₁ m₁ = some (.next vs locals', m')) :
      Operand ⟨.method receiver (before ++ c :: after) site, locals, m⟩ ⟨c, locals', m'⟩

/-- On the way through `p` the operation `helper`, which may fail, is asked for on the machine `m`. All
operands it needs have been evaluated by then. -/
inductive Asks : Spot → Run (Except RuntimeError Value) → Machine → Prop
  | function {id : Nat} {registration : Option (String × Nat)} {locals : List Value} {m : Machine} :
      Asks ⟨.function id registration, locals, m⟩ (fun m => some (m.makeFunction unit id)) m
  | entry {before after : List (Code × FieldSite)} {c : Code} {site : FieldSite} {v : Value}
      {locals locals₁ locals' : List Value} {m m₁ m' : Machine}
      (ran : evalEntries enter unit m.newObject.1 before locals
        (m.newObject.2.root m.newObject.1) = some (.next () locals₁, m₁))
      (given : evalCode enter unit c locals₁ m₁ = some (.next v locals', m')) :
      Asks ⟨.object (before ++ (c, site) :: after), locals, m⟩
        (fun m' => some (m'.setField site m.newObject.1 v)) m'
  | getField {receiver : Code} {site : FieldSite} {r : Value} {locals locals' : List Value}
      {m m' : Machine} (read : evalCode enter unit receiver locals m = some (.next r locals', m')) :
      Asks ⟨.getField receiver site, locals, m⟩ (fun m => some (m.getField site r)) m'
  | setField {receiver value : Code} {site : FieldSite} {r v : Value}
      {locals locals₁ locals' : List Value} {m m₁ m' : Machine}
      (into : evalCode enter unit receiver locals m = some (.next r locals₁, m₁))
      (given : evalCode enter unit value locals₁ m₁ = some (.next v locals', m')) :
      Asks ⟨.setField receiver value site, locals, m⟩ (fun m => some (m.setField site r v)) m'
  | call {callee : Code} {args : List Code} {site : Nat} {f : Value} {vs : List Value}
      {locals locals₁ locals' : List Value} {m m₁ m' : Machine}
      (called : evalCode enter unit callee locals m = some (.next f locals₁, m₁))
      (given : evalArgs enter unit args locals₁ m₁ = some (.next vs locals', m')) :
      Asks ⟨.call callee args site, locals, m⟩ (callAt enter unit site f .undefined vs) m'
  | method {receiver : Code} {args : List Code} {site : MethodSite} {r : Value} {vs : List Value}
      {locals locals₁ locals' : List Value} {m m₁ m' : Machine}
      (self : evalCode enter unit receiver locals m = some (.next r locals₁, m₁))
      (given : evalArgs enter unit args locals₁ m₁ = some (.next vs locals', m')) :
      Asks ⟨.method receiver args site, locals, m⟩ (callMethod enter site r vs) m'

end

section
variable {enter : Enter} {unit : UnitId}

/-- A branch runs one of its arms. -/
theorem evalCode_branch (condition : Code) (yes no : List Code) :
    evalCode enter unit (.branch condition yes no) = (do
      let v ← evalCode enter unit condition
      evalBody enter unit (if v.truth then yes else no)
      return .undefined) := by
  rw [evalCode]
  congr 1
  funext v
  split <;> rfl

/-- After an operand there is only one thing left to do, whatever the operand gives. -/
theorem Operand.continues {p q : Spot} (operand : Operand enter unit p q) :
    ∃ rest : Value → Exec Value,
      p.run enter unit = (evalCode enter unit q.code >>= rest) q.locals q.machine := by
  cases operand with
  | assigned =>
    rw [Spot.run, evalCode]
    exact ⟨_, rfl⟩
  | returned =>
    rw [Spot.run, evalCode]
    exact ⟨_, rfl⟩
  | statement ran =>
    rw [Spot.run, evalCode, evalBody_append, bind_assoc, Exec.bind_eq_of_next ran, evalBody, bind_assoc]
    exact ⟨_, rfl⟩
  | condition =>
    rw [Spot.run, evalCode]
    exact ⟨_, rfl⟩
  | arm tested chosen ran =>
    rw [Spot.run, evalCode_branch, Exec.bind_eq_of_next tested, chosen, evalBody_append, bind_assoc,
      Exec.bind_eq_of_next ran, evalBody, bind_assoc]
    exact ⟨_, rfl⟩
  | entry ran =>
    rw [Spot.run, evalCode, Exec.bind_eq_of_next (Exec.fetch_eq _ _ _), evalEntries_append, bind_assoc,
      Exec.bind_eq_of_next ran, evalEntries]
    simp only [bind_assoc]
    exact ⟨_, rfl⟩
  | readFrom =>
    rw [Spot.run, evalCode]
    exact ⟨_, rfl⟩
  | writtenTo =>
    rw [Spot.run, evalCode]
    exact ⟨_, rfl⟩
  | written into =>
    rw [Spot.run, evalCode, Exec.bind_eq_of_next into]
    exact ⟨_, rfl⟩
  | callee =>
    rw [Spot.run, evalCode]
    exact ⟨_, rfl⟩
  | argument called ran =>
    rw [Spot.run, evalCode, Exec.bind_eq_of_next called, evalArgs_append, bind_assoc,
      Exec.bind_eq_of_next ran, evalArgs]
    simp only [bind_assoc]
    exact ⟨_, rfl⟩
  | receiver =>
    rw [Spot.run, evalCode]
    exact ⟨_, rfl⟩
  | methodArgument self ran =>
    rw [Spot.run, evalCode, Exec.bind_eq_of_next self, evalArgs_append, bind_assoc,
      Exec.bind_eq_of_next ran, evalArgs]
    simp only [bind_assoc]
    exact ⟨_, rfl⟩

theorem Operand.aborts {p q : Spot} (operand : Operand enter unit p q) {s : Machine}
    (failed : q.run enter unit = some (.aborted, s)) : p.run enter unit = some (.aborted, s) := by
  obtain ⟨rest, continues⟩ := operand.continues
  rw [continues]
  exact Exec.bind_eq_of_aborted failed

/-- A node fails when an operation it asks for fails; the failure is parked. -/
theorem Asks.aborts {p : Spot} {helper : Run (Except RuntimeError Value)} {m s : Machine}
    (asks : Asks enter unit p helper m) {e : RuntimeError} (failed : helper m = some (.error e, s)) :
    p.run enter unit = some (.aborted, s.park e) := by
  cases asks with
  | function =>
    rw [Spot.run, evalCode]
    exact Exec.bind_eq_of_aborted (Exec.attempt_of_error failed)
  | entry ran given =>
    rw [Spot.run, evalCode, Exec.bind_eq_of_next (Exec.fetch_eq _ _ _), evalEntries_append, bind_assoc,
      Exec.bind_eq_of_next ran, evalEntries, bind_assoc, Exec.bind_eq_of_next given, bind_assoc]
    exact Exec.bind_eq_of_aborted (Exec.attempt_of_error failed)
  | getField read =>
    rw [Spot.run, evalCode, Exec.bind_eq_of_next read]
    exact Exec.attempt_of_error failed
  | setField into given =>
    rw [Spot.run, evalCode, Exec.bind_eq_of_next into, Exec.bind_eq_of_next given]
    exact Exec.attempt_of_error failed
  | call called given =>
    rw [Spot.run, evalCode, Exec.bind_eq_of_next called, Exec.bind_eq_of_next given]
    exact Exec.attempt_of_error failed
  | method self given =>
    rw [Spot.run, evalCode, Exec.bind_eq_of_next self, Exec.bind_eq_of_next given]
    exact Exec.attempt_of_error failed

/-- The first statement that fails. -/
theorem evalBody_aborted {codes : List Code} {locals : List Value} {m s : Machine}
    (failed : evalBody enter unit codes locals m = some (.aborted, s)) :
    ∃ before c after locals' m', codes = before ++ c :: after ∧
      evalBody enter unit before locals m = some (.next () locals', m') ∧
      evalCode enter unit c locals' m' = some (.aborted, s) := by
  induction codes generalizing locals m with
  | nil =>
    rw [evalBody] at failed
    cases failed
  | cons c rest ih =>
    rw [evalBody] at failed
    rcases Exec.aborted_of_bind failed with first | ⟨v, locals₁, m₁, first, later⟩
    · exact ⟨[], c, rest, locals, m, rfl, by rw [evalBody]; rfl, first⟩
    · obtain ⟨before, c', after, locals', m', rfl, ran, last⟩ := ih later
      exact ⟨c :: before, c', after, locals', m', rfl,
        by rw [evalBody, Exec.bind_eq_of_next first, ran], last⟩

/-- The first argument that fails. -/
theorem evalArgs_aborted {codes : List Code} {locals : List Value} {m s : Machine}
    (failed : evalArgs enter unit codes locals m = some (.aborted, s)) :
    ∃ before c after vs locals' m', codes = before ++ c :: after ∧
      evalArgs enter unit before locals m = some (.next vs locals', m') ∧
      evalCode enter unit c locals' m' = some (.aborted, s) := by
  induction codes generalizing locals m with
  | nil =>
    rw [evalArgs] at failed
    cases failed
  | cons c rest ih =>
    rw [evalArgs] at failed
    rcases Exec.aborted_of_bind failed with first | ⟨v, locals₁, m₁, first, later⟩
    · exact ⟨[], c, rest, [], locals, m, rfl, by rw [evalArgs]; rfl, first⟩
    · obtain ⟨before, c', after, vs, locals', m', rfl, ran, last⟩ := ih (Exec.aborted_first later)
      refine ⟨c :: before, c', after, v :: vs, locals', m', rfl, ?_, last⟩
      rw [evalArgs, Exec.bind_eq_of_next first, Exec.bind_eq_of_next ran]
      rfl

/-- The first entry that fails: its value, or the write of it. -/
theorem evalEntries_aborted {object : Value} {entries : List (Code × FieldSite)}
    {locals : List Value} {m s : Machine}
    (failed : evalEntries enter unit object entries locals m = some (.aborted, s)) :
    ∃ before c site after locals₁ m₁, entries = before ++ (c, site) :: after ∧
      evalEntries enter unit object before locals m = some (.next () locals₁, m₁) ∧
      (evalCode enter unit c locals₁ m₁ = some (.aborted, s) ∨
        ∃ v locals' m', evalCode enter unit c locals₁ m₁ = some (.next v locals', m') ∧
          Exec.attempt (fun m => some (m.setField site object v)) locals' m' =
            some (.aborted, s)) := by
  induction entries generalizing locals m with
  | nil =>
    rw [evalEntries] at failed
    cases failed
  | cons entry rest ih =>
    obtain ⟨c, site⟩ := entry
    rw [evalEntries] at failed
    rcases Exec.aborted_of_bind failed with first | ⟨v, locals₁, m₁, first, later⟩
    · exact ⟨[], c, site, rest, locals, m, rfl, by rw [evalEntries]; rfl, Or.inl first⟩
    · rcases Exec.aborted_of_bind later with write | ⟨w, locals₂, m₂, write, last⟩
      · exact ⟨[], c, site, rest, locals, m, rfl, by rw [evalEntries]; rfl,
          Or.inr ⟨v, locals₁, m₁, first, write⟩⟩
      · obtain ⟨before, c', site', after, locals', m', rfl, ran, why⟩ := ih last
        refine ⟨(c, site) :: before, c', site', after, locals', m', rfl, ?_, why⟩
        rw [evalEntries, Exec.bind_eq_of_next first, Exec.bind_eq_of_next write, ran]

/-- A node fails because one of its operands does, or because an operation it asks for does. -/
theorem Spot.aborted_cause {p : Spot} {s : Machine} (failed : p.run enter unit = some (.aborted, s)) :
    (∃ q, Operand enter unit p q ∧ q.run enter unit = some (.aborted, s)) ∨
      ∃ helper m e s', Asks enter unit p helper m ∧ helper m = some (.error e, s') ∧
        s = s'.park e := by
  obtain ⟨code, locals, m⟩ := p
  cases code with
  | int n | text t | load slot =>
    rw [Spot.run, evalCode] at failed
    cases failed
  | loadGlobal name site =>
    rw [Spot.run, evalCode] at failed
    cases failed
  | store slot value =>
    rw [Spot.run, evalCode] at failed
    rcases Exec.aborted_of_bind failed with first | ⟨_, _, _, _, later⟩
    · exact Or.inl ⟨_, .assigned, first⟩
    · cases later
  | block body =>
    rw [Spot.run, evalCode] at failed
    obtain ⟨before, c, after, locals', m', rfl, ran, last⟩ :=
      evalBody_aborted (Exec.aborted_first failed)
    exact Or.inl ⟨_, .statement ran, last⟩
  | ret value =>
    rw [Spot.run, evalCode] at failed
    rcases Exec.aborted_of_bind failed with first | ⟨_, _, _, _, later⟩
    · exact Or.inl ⟨_, .returned, first⟩
    · cases later
  | branch condition yes no =>
    rw [Spot.run, evalCode_branch] at failed
    rcases Exec.aborted_of_bind failed with first | ⟨v, locals₁, m₁, tested, later⟩
    · exact Or.inl ⟨_, .condition, first⟩
    · obtain ⟨before, c, after, locals', m', chosen, ran, last⟩ :=
        evalBody_aborted (Exec.aborted_first later)
      exact Or.inl ⟨_, .arm tested chosen ran, last⟩
  | function id registration =>
    rw [Spot.run, evalCode] at failed
    rcases Exec.aborted_of_bind failed with first | ⟨_, _, _, _, later⟩
    · obtain ⟨e, s', tried, rfl⟩ := Exec.aborted_of_attempt first
      exact Or.inr ⟨_, _, e, s', .function, tried, rfl⟩
    · cases registration <;> cases later
  | object entries =>
    rw [Spot.run, evalCode, Exec.bind_eq_of_next (Exec.fetch_eq _ _ _)] at failed
    obtain ⟨before, c, site, after, locals₁, m₁, rfl, ran, first | ⟨v, locals', m', given, write⟩⟩ :=
      evalEntries_aborted (Exec.aborted_first failed)
    · exact Or.inl ⟨_, .entry ran, first⟩
    · obtain ⟨e, s', tried, rfl⟩ := Exec.aborted_of_attempt write
      exact Or.inr ⟨_, _, e, s', .entry ran given, tried, rfl⟩
  | getField receiver site =>
    rw [Spot.run, evalCode] at failed
    rcases Exec.aborted_of_bind failed with first | ⟨r, locals', m', read, later⟩
    · exact Or.inl ⟨_, .readFrom, first⟩
    · obtain ⟨e, s', tried, rfl⟩ := Exec.aborted_of_attempt later
      exact Or.inr ⟨_, _, e, s', .getField read, tried, rfl⟩
  | setField receiver value site =>
    rw [Spot.run, evalCode] at failed
    rcases Exec.aborted_of_bind failed with first | ⟨r, locals₁, m₁, into, later⟩
    · exact Or.inl ⟨_, .writtenTo, first⟩
    · rcases Exec.aborted_of_bind later with second | ⟨v, locals', m', given, last⟩
      · exact Or.inl ⟨_, .written into, second⟩
      · obtain ⟨e, s', tried, rfl⟩ := Exec.aborted_of_attempt last
        exact Or.inr ⟨_, _, e, s', .setField into given, tried, rfl⟩
  | call callee args site =>
    rw [Spot.run, evalCode] at failed
    rcases Exec.aborted_of_bind failed with first | ⟨f, locals₁, m₁, called, later⟩
    · exact Or.inl ⟨_, .callee, first⟩
    · rcases Exec.aborted_of_bind later with second | ⟨vs, locals', m', given, last⟩
      · obtain ⟨before, c, after, vs, locals', m', rfl, ran, why⟩ := evalArgs_aborted second
        exact Or.inl ⟨_, .argument called ran, why⟩
      · obtain ⟨e, s', tried, rfl⟩ := Exec.aborted_of_attempt last
        exact Or.inr ⟨_, _, e, s', .call called given, tried, rfl⟩
  | method receiver args site =>
    rw [Spot.run, evalCode] at failed
    rcases Exec.aborted_of_bind failed with first | ⟨r, locals₁, m₁, self, later⟩
    · exact Or.inl ⟨_, .receiver, first⟩
    · rcases Exec.aborted_of_bind later with second | ⟨vs, locals', m', given, last⟩
      · obtain ⟨before, c, after, vs, locals', m', rfl, ran, why⟩ := evalArgs_aborted second
        exact Or.inl ⟨_, .methodArgument self ran, why⟩
      · obtain ⟨e, s', tried, rfl⟩ := Exec.aborted_of_attempt last
        exact Or.inr ⟨_, _, e, s', .method self given, tried, rfl⟩

/-- Operands stand inside their nodes. -/
theorem Operand.smaller {p q : Spot} (operand : Operand enter unit p q) :
    sizeOf q.code < sizeOf p.code := by
  have inside : ∀ (before after : List Code) (c : Code), sizeOf c < sizeOf (before ++ c :: after) :=
    fun before after c => List.sizeOf_lt_of_mem (by simp)
  cases operand with
  | statement => simpa using Nat.lt_add_left 1 (inside _ _ _)
  | @arm condition c yes no before after v locals locals₁ locals' m m₁ m' tested chosen ran =>
    have below := inside before after c
    rw [← chosen] at below
    simp only [Code.branch.sizeOf_spec]
    split at below <;> omega
  | @entry before after c site =>
    have pair : sizeOf (c, site) < sizeOf (before ++ (c, site) :: after) :=
      List.sizeOf_lt_of_mem (by simp)
    simp only [Prod.mk.sizeOf_spec] at pair
    simp only [Code.object.sizeOf_spec]
    omega
  | @argument callee c before after =>
    have below := inside before after c
    simp only [Code.call.sizeOf_spec]
    omega
  | @methodArgument receiver c before after =>
    have below := inside before after c
    simp only [Code.method.sizeOf_spec]
    omega
  | _ => simp <;> omega

/-- Nodes of one invocation, each a part of the one before. -/
abbrev Nested (enter : Enter) (unit : UnitId) : Spot → Spot → Prop :=
  Relation.ReflTransGen (Operand enter unit)

/-- Every failure of a node began as the failure of one operation. -/
theorem Spot.aborted_origin (p : Spot) {s : Machine} (failed : p.run enter unit = some (.aborted, s)) :
    ∃ q helper m e s', Nested enter unit p q ∧ Asks enter unit q helper m ∧
      helper m = some (.error e, s') ∧ s = s'.park e := by
  rcases p.aborted_cause failed with ⟨q, operand, failed'⟩ | ⟨helper, m, e, s', asks, tried, same⟩
  · have smaller := operand.smaller
    obtain ⟨q', helper, m, e, s', nested, cause⟩ := aborted_origin q failed'
    exact ⟨q', helper, m, e, s', .head operand nested, cause⟩
  · exact ⟨p, helper, m, e, s', .refl, asks, tried, same⟩
termination_by sizeOf p.code

end

/-- The evaluation of a node of a unit, or an invocation; at most `depth` further calls may be open
inside it at once, its own call included. -/
inductive Activity where
  | node (depth : Nat) (unit : UnitId) (spot : Spot)
  | entry (depth : Nat) (entry : Callable) (receiver : Value) (args : List Value) (machine : Machine)

namespace Activity

/-- The machine on which the activity begins. -/
def machine : Activity → Machine
  | .node _ _ spot => spot.machine
  | .entry _ _ _ _ m => m

/-- The machine that is left when the activity has ended, with a value or with a failure. -/
def last? : Activity → Option Machine
  | .node depth unit spot => (spot.run (enter depth) unit).map (·.2)
  | .entry depth target receiver args m => (enter depth target receiver args m).map (·.2)

/-- The machine can be seen at the beginning or at the end of the activity. -/
def Shows (a : Activity) (m : Machine) : Prop := m = a.machine ∨ a.last? = some m

end Activity

/-- The second activity is a part of the first. -/
inductive Part : Activity → Activity → Prop
  | operand {depth : Nat} {unit : UnitId} {p q : Spot} :
      Operand (enter depth) unit p q → Part (.node depth unit p) (.node depth unit q)
  /-- The function that a call site has found. -/
  | call {depth : Nat} {unit : UnitId} {callee : Code} {args : List Code} {site : Nat} {f : Value}
      {vs locals locals₁ locals' : List Value} {m m₁ m₂ m' : Machine} {target : Callable}
      (called : evalCode (enter depth) unit callee locals m = some (.next f locals₁, m₁))
      (given : evalArgs (enter depth) unit args locals₁ m₁ = some (.next vs locals', m₂))
      (found : m₂.dispatchCall unit site vs.length f = (.ok target, m')) :
      Part (.node depth unit ⟨.call callee args site, locals, m⟩)
        (.entry depth target .undefined vs m')
  | method {depth : Nat} {unit : UnitId} {receiver : Code} {args : List Code} {site : MethodSite}
      {r : Value} {vs locals locals₁ locals' : List Value} {m m₁ m' : Machine} {id : ObjectId}
      {target : Callable}
      (self : evalCode (enter depth) unit receiver locals m = some (.next r locals₁, m₁))
      (given : evalArgs (enter depth) unit args locals₁ m₁ = some (.next vs locals', m'))
      (resolved : site.resolve m'.heap r = .ok id) (found : m'.heap.callable? id = some target)
      (fits : target.arity.check vs.length = .ok ()) :
      Part (.node depth unit ⟨.method receiver args site, locals, m⟩) (.entry depth target r vs m')
  /-- A statement in the body of a compiled function. -/
  | body {depth : Nat} {unit : UnitId} {name : String} {params : Nat} {receiver : Value}
      {args locals' : List Value} {m m' : Machine} {u : CompiledUnit} {before after : List Code}
      {c : Code} (found : m.units[unit]? = some u) (count : args.length = u.arity)
      (split : u.code = before ++ c :: after)
      (ran : evalBody (enter depth) unit before (u.initialLocals receiver args) m =
        some (.next () locals', m')) :
      Part (.entry (depth + 1) (.compiled unit name params) receiver args m)
        (.node depth unit ⟨c, locals', m'⟩)
  /-- A function that a host function invokes. -/
  | host {depth : Nat} {f : NativeFunction} {receiver r : Value} {args vs : List Value}
      {m m' : Machine} {id : ObjectId} {next : Except RuntimeError Value → HostProgram}
      {target : Callable}
      (reaches : HostProgram.Reaches (enter depth) (f.body.onCall receiver args) m
        (.step (.invoke id r vs) next) m')
      (found : m'.heap.callable? id = some target) (fits : target.arity.check vs.length = .ok ()) :
      Part (.entry (depth + 1) (.native f) receiver args m) (.entry depth target r vs m')

/-- An invocation of a compiled function that is under way. -/
structure Frame where
  function : FunctionDef
  /-- How many values were kept when it began. -/
  mark : Nat

/-- The frame that an activity puts around its parts, if it is one of a compiled function. -/
def Activity.frames : Activity → List Frame
  | .entry _ (.compiled unit _ _) _ _ m =>
      match m.units[unit]? with
      | some u => [{ function := u.definition, mark := m.roots.count }]
      | none => []
  | _ => []

/-- On the way through `start` the activity is begun, inside the given frames, outermost first. -/
inductive Within (start : Activity) : List Frame → Activity → Prop
  | start : Within start [] start
  | part {frames : List Frame} {a b : Activity} (outer : Within start frames a) (part : Part a b) :
      Within start (frames ++ a.frames) b

/-- The nodes of one invocation are inside the same frames. -/
theorem Within.nested {start : Activity} {frames : List Frame} {depth : Nat} {unit : UnitId}
    {p q : Spot} (outer : Within start frames (.node depth unit p))
    (nested : Nested (enter depth) unit p q) : Within start frames (.node depth unit q) := by
  induction nested with
  | refl => exact outer
  | tail _ operand ih => simpa [Activity.frames] using ih.part (.operand operand)

end ScriptEngine
