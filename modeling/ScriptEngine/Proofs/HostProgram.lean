import ScriptEngine.Machine.Host

/-!
# Programs of the host

A function of the host may do whatever it likes between its steps, so a fact about it is shown for each step
that it can ask for and then for all steps by induction. Two things are asked of such functions elsewhere:
that they name only what they were given, and that they do not raise some error of their own accord.
-/

namespace ScriptEngine

namespace HostStep

/-- The values that a step names. -/
def named : HostStep → List Value
  | .describe v | .display v => [v]
  | .rooted => []
  | .keys id | .lookup id _ => [.object id]
  | .register id _ v => [.object id, v]
  | .create proto => (proto.map Value.object).toList
  | .print args => args
  | .compile f => [.object f.global]
  | .invoke id receiver args => .object id :: receiver :: args

/-- The values that an answer names. -/
def given : (s : HostStep) → s.Answer → List Value
  | .lookup _ _, v => [v]
  | .create _, id => [.object id]
  | .print _, .ok v => [v]
  | .compile _, .ok id => [.object id]
  | .invoke _ _ _, .ok v => [v]
  | _, _ => []

end HostStep

namespace HostProgram

section
variable {enter : Enter} {s : HostStep} {next : s.Answer → HostProgram} {m : Machine}

theorem run_of_performed {answer : s.Answer} {m' : Machine}
    (performed : s.perform enter m = some (answer, m')) :
    (HostProgram.step s next).run enter m = (next answer).run enter m' := by
  simp only [run, performed]

theorem run_of_stuck (stuck : s.perform enter m = none) :
    (HostProgram.step s next).run enter m = none := by
  simp only [run, stuck]

end

/-- On the way through the first program, the second one is what is left to do. -/
inductive Reaches (enter : Enter) : HostProgram → Machine → HostProgram → Machine → Prop
  | here {p : HostProgram} {m : Machine} : Reaches enter p m p m
  | step {s : HostStep} {next : s.Answer → HostProgram} {answer : s.Answer} {p : HostProgram}
      {m m₁ m' : Machine} (performed : s.perform enter m = some (answer, m₁))
      (later : Reaches enter (next answer) m₁ p m') : Reaches enter (.step s next) m p m'

theorem Reaches.run_eq {enter : Enter} {p q : HostProgram} {m m' : Machine}
    (reaches : Reaches enter p m q m') : p.run enter m = q.run enter m' := by
  induction reaches with
  | here => rfl
  | step performed _ ih => rw [run_of_performed performed, ih]

section
variable {W : Type} (fine : W → Value → Prop) (later : W → W → Prop)

/-- The program names only fine values from `w` on, if what it is given later on is fine then. -/
def Careful : HostProgram → W → Prop
  | .done result, w => ∀ v, result = .ok v → fine w v
  | .step s next, w => (∀ v ∈ s.named, fine w v) ∧
      ∀ w' answer, later w w' → (∀ v ∈ s.given answer, fine w' v) → Careful (next answer) w'

end

theorem careful_of_fine {W : Type} {fine : W → Value → Prop} {later : W → W → Prop}
    (all : ∀ w v, fine w v) (p : HostProgram) (w : W) : p.Careful fine later w := by
  induction p generalizing w with
  | done result => exact fun v _ => all w v
  | step s next ih => exact ⟨fun v _ => all w v, fun w' answer _ _ => ih answer w'⟩

/-- A program that is careful about what is seen of `w` is careful about `w`. -/
theorem Careful.comap {V W : Type} {fine : V → Value → Prop} {later : V → V → Prop}
    {later' : W → W → Prop} (view : W → V) (mono : ∀ w w', later' w w' → later (view w) (view w'))
    {p : HostProgram} {w : W} (careful : p.Careful fine later (view w)) :
    p.Careful (fun w v => fine (view w) v) later' w := by
  induction p generalizing w with
  | done result => exact careful
  | step s next ih =>
    exact ⟨careful.1, fun w' answer step given =>
      ih answer (careful.2 (view w') answer (mono w w' step) given)⟩

/-- A step that ends with the failure `e` of an invocation, after which the program ends with it at once. -/
def HandsOn (e : RuntimeError) : (s : HostStep) → s.Answer → HostProgram → Prop
  | .invoke _ _ _, answer, rest => answer = .error e ∧ rest = .raise e
  | _, _, _ => False

/-- The program ends with the error `e`, and not because it hands on the failure of an invocation. -/
inductive Raises (enter : Enter) (e : RuntimeError) : HostProgram → Machine → Prop
  | now {m : Machine} : Raises enter e (.raise e) m
  | step {s : HostStep} {next : s.Answer → HostProgram} {answer : s.Answer} {m m' : Machine}
      (performed : s.perform enter m = some (answer, m')) (own : ¬ HandsOn e s answer (next answer))
      (rest : Raises enter e (next answer) m') : Raises enter e (.step s next) m

/-- For some answers the program raises the error `e` of its own accord. -/
inductive MayRaise (e : RuntimeError) : HostProgram → Prop
  | now : MayRaise e (.raise e)
  | step {s : HostStep} {next : s.Answer → HostProgram} {answer : s.Answer}
      (own : ¬ HandsOn e s answer (next answer)) (rest : MayRaise e (next answer)) :
      MayRaise e (.step s next)

theorem Raises.mayRaise {enter : Enter} {e : RuntimeError} {p : HostProgram} {m : Machine}
    (raises : Raises enter e p m) : p.MayRaise e := by
  induction raises with
  | now => exact .now
  | step _ own _ ih => exact .step own ih

section
variable {e : RuntimeError}

@[simp] theorem mayRaise_done_iff {result : Except HostError Value} :
    (done result).MayRaise e ↔ result = .error (.known e) := by
  constructor
  · rintro ⟨⟩
    rfl
  · rintro rfl
    exact .now

@[simp] theorem mayRaise_step_iff {s : HostStep} {next : s.Answer → HostProgram} :
    (step s next).MayRaise e ↔
      ∃ answer, ¬ HandsOn e s answer (next answer) ∧ (next answer).MayRaise e := by
  constructor
  · rintro (_ | ⟨own, rest⟩)
    exact ⟨_, own, rest⟩
  · rintro ⟨answer, own, rest⟩
    exact .step own rest

@[simp] theorem not_mayRaise_give (v : Value) : ¬ (give v).MayRaise e := by simp [give]

@[simp] theorem not_mayRaise_fail (fault : Fault) : ¬ (fail fault).MayRaise e := by simp [fail]

@[simp] theorem foreign_ne_known (result : Except Fault Value) :
    result.mapError HostError.foreign ≠ .error (.known e) := by
  intro same
  cases result <;> cases same

theorem mayRaise_describeAll {vs : List Value} {next : List String → HostProgram}
    (may : (describeAll vs next).MayRaise e) : ∃ texts, (next texts).MayRaise e := by
  induction vs generalizing next with
  | nil => exact ⟨[], may⟩
  | cons v vs ih =>
    obtain ⟨text, -, rest⟩ := mayRaise_step_iff.mp may
    obtain ⟨texts, rest⟩ := ih rest
    exact ⟨text :: texts, rest⟩

theorem mayRaise_applyFirst {who : String} {receiver : Value} {args : List Value}
    {next : Except RuntimeError Value → HostProgram}
    (may : (applyFirst who receiver args next).MayRaise e) :
    ∃ answer, (answer = .error e → next answer ≠ .raise e) ∧ (next answer).MayRaise e := by
  rw [applyFirst.eq_def] at may
  split at may
  · obtain ⟨answer, own, rest⟩ := mayRaise_step_iff.mp may
    exact ⟨answer, fun failed hands => own ⟨failed, hands⟩, rest⟩
  · simp at may

theorem not_mayRaise_operator (op : Operator) (a b : Value) : ¬ (op.apply a b).MayRaise e := by
  rw [Operator.apply.eq_def]
  split
  · exact not_mayRaise_give _
  · exact not_mayRaise_give _
  · split <;> simp [Operator.refuse]
  · split <;> simp [Operator.refuse]

end

/-- A program fails with an error of the engine because it raises it, or because it hands on the failure of
an invocation. -/
theorem known_cause {enter : Enter} {e : RuntimeError} {p : HostProgram} {m s : Machine}
    (failed : p.run enter m = some (.error (.known e), s)) :
    Raises enter e p m ∨ ∃ id receiver args next m',
      Reaches enter p m (.step (.invoke id receiver args) next) m' ∧
        invokeObject enter id receiver args m' = some (.error e, s) ∧ next (.error e) = .raise e := by
  induction p generalizing m with
  | done result =>
    cases failed
    exact Or.inl .now
  | step step next ih =>
    cases performed : step.perform enter m with
    | none =>
      rw [run_of_stuck performed] at failed
      cases failed
    | some given =>
      obtain ⟨answer, m₁⟩ := given
      rw [run_of_performed performed] at failed
      rcases ih answer failed with raises | ⟨id, receiver, args, next', m', reaches, cause⟩
      · by_cases handed : HandsOn e step answer (next answer)
        · cases step with
          | invoke id receiver args =>
            obtain ⟨rfl, same⟩ := handed
            rw [same] at failed
            cases failed
            exact Or.inr ⟨id, receiver, args, next, m, .here, performed, same⟩
          | _ => cases handed
        · exact Or.inl (.step performed handed raises)
      · exact Or.inr ⟨id, receiver, args, next', m', .step performed reaches, cause⟩

end HostProgram

namespace HostFunction

section
variable {W : Type} (fine : W → Value → Prop) (later : W → W → Prop)

/-- Called with fine values from `w` on, the function names only fine values. -/
def Careful (f : HostFunction) (w : W) : Prop :=
  ∀ w' receiver args, later w w' → (∀ v ∈ receiver :: args, fine w' v) →
    (f.onCall receiver args).Careful fine later w'

end

/-- For some arguments and answers the function raises the error `e` of its own accord. -/
def MayRaise (f : HostFunction) (e : RuntimeError) : Prop :=
  ∃ receiver args, (f.onCall receiver args).MayRaise e

/-- Of the functions at hand, only `raise` fails with an error of the engine of its own accord. -/
theorem stock_mayRaise (e : RuntimeError) : (∀ op, ¬ (operator op).MayRaise e) ∧ ¬ print.MayRaise e ∧
    (∀ v, ¬ (const v).MayRaise e) ∧ (∀ i, ¬ (arg i).MayRaise e) ∧ ¬ this.MayRaise e ∧
    ¬ count.MayRaise e ∧ ¬ rooted.MayRaise e ∧ ¬ join.MayRaise e ∧
    (∀ key, ¬ (get key).MayRaise e) ∧ (∀ key, ¬ (put key).MayRaise e) ∧ ¬ apply.MayRaise e ∧
    ¬ attempt.MayRaise e ∧ (∀ fault, ¬ (fail fault).MayRaise e) ∧
    ∀ e', (raise e').MayRaise e ↔ e' = e := by
  refine ⟨fun op => ?_, ?_, fun v => ?_, fun i => ?_, ?_, ?_, ?_, ?_, fun key => ?_, fun key => ?_,
    ?_, ?_, fun fault => ?_, fun e' => ⟨?_, ?_⟩⟩
  case refine_15 =>
    rintro rfl
    exact ⟨.undefined, [], .now⟩
  all_goals rintro ⟨receiver, args, may⟩
  · exact HostProgram.not_mayRaise_operator op _ _ may
  · simp [print] at may
  · simp [const] at may
  · simp [arg] at may
  · simp [this] at may
  · simp [count] at may
  · simp [rooted] at may
  · obtain ⟨self, -, may⟩ := HostProgram.mayRaise_step_iff.mp may
    obtain ⟨texts, may⟩ := HostProgram.mayRaise_describeAll may
    simp at may
  · cases receiver <;> simp [get] at may
  · cases receiver <;> simp [put] at may
  · obtain ⟨answer, own, may⟩ := HostProgram.mayRaise_applyFirst may
    cases answer with
    | ok v => cases HostProgram.mayRaise_done_iff.mp may
    | error e' =>
      cases HostProgram.mayRaise_done_iff.mp may
      exact own rfl rfl
  · obtain ⟨answer, -, may⟩ := HostProgram.mayRaise_applyFirst may
    cases answer <;> simp at may
  · simp [fail] at may
  · simpa [raise, HostProgram.raise] using may

end HostFunction

end ScriptEngine
