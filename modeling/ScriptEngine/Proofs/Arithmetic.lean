import ScriptEngine.Proofs.Arity

/-!
# Arithmetic

The operators of a fresh engine stay what they are, whatever a host and its programs do afterwards. On two
integers they give the exact result or fail: sums, differences and products that no integer of 32 bits
has, divisions by zero, and the one quotient that is too large. Quotient and remainder make up the dividend
again, and no step of putting them together fails.
-/

namespace ScriptEngine

namespace Operator

/-- The function that an operator is in a fresh engine. -/
def builtin (op : Operator) : ObjectId := all.idxOf op + 1

/-- The operators that are exact wherever the result has 32 bits, with that result. -/
inductive Means : Operator → Int → Int → Int → Prop
  | add (a b : Int) : Means .add a b (a + b)
  | sub (a b : Int) : Means .sub a b (a - b)
  | mul (a b : Int) : Means .mul a b (a * b)

/-- The operators that divide, with the part of the dividend that they give. -/
inductive Splits : Operator → Int → Int → Int → Prop
  | quotient (a b : Int) : Splits .div a b (a.tdiv b)
  | remainder (a b : Int) : Splits .rem a b (a.tmod b)

theorem fits_iff (n : Int) : fits n = true ↔ -0x80000000 ≤ n ∧ n < 0x80000000 := by
  simp [fits]

theorem fits_toInt (k : Int32) : fits k.toInt = true := by
  have least := k.le_toInt
  have most := k.toInt_lt
  rw [fits_iff]
  omega

theorem toInt_ofInt {n : Int} (fit : fits n = true) : (Int32.ofInt n).toInt = n := by
  obtain ⟨least, most⟩ := (fits_iff n).mp fit
  exact Int32.toInt_ofInt_of_le (by omega) (by omega)

/-- What fits is the value of an integer of 32 bits, and nothing else is. -/
theorem exact_eq (op : Operator) (n : Int) :
    (∃ k : Int32, k.toInt = n ∧ op.exact n = .ok (.int k)) ∨
      (∀ k : Int32, k.toInt ≠ n) ∧ op.exact n = .error op.overflow := by
  by_cases fit : fits n = true
  · exact Or.inl ⟨Int32.ofInt n, toInt_ofInt fit, if_pos fit⟩
  · refine Or.inr ⟨?_, if_neg fit⟩
    rintro k rfl
    exact fit (fits_toInt k)

/-- The only quotient that does not fit. -/
theorem fits_tdiv {a b : Int} (dividend : fits a = true) (divisor : b ≠ 0) :
    fits (a.tdiv b) = true ↔ ¬ (a = -0x80000000 ∧ b = -1) := by
  have size : (a.tdiv b).natAbs = a.natAbs / b.natAbs := Int.natAbs_tdiv a b
  have smaller : a.natAbs / b.natAbs ≤ a.natAbs := Nat.div_le_self _ _
  rw [fits_iff] at dividend ⊢
  constructor
  · rintro range ⟨rfl, rfl⟩
    exact absurd range (by decide)
  · intro other
    by_cases least : a = -0x80000000
    · -- the size of the dividend itself does not fit, so the divisor has to make it smaller
      subst least
      by_cases same : b = 1
      · subst same
        exact dividend
      · have two : 2 ≤ b.natAbs := by omega
        have half : (-0x80000000 : Int).natAbs / b.natAbs ≤ 0x80000000 / 2 :=
          Nat.div_le_div_left two (by decide)
        omega
    · omega

/-- A remainder is smaller than the divisor, is no larger than the dividend and has its sign. -/
theorem tmod_spec (a : Int) {b : Int} (divisor : b ≠ 0) :
    (a.tmod b).natAbs < b.natAbs ∧ (a.tmod b).natAbs ≤ a.natAbs ∧
      (a.tmod b = 0 ∨ (a.tmod b).sign = a.sign) := by
  refine ⟨?_, ?_, ?_⟩
  · rw [Int.natAbs_tmod]
    exact Nat.mod_lt _ (by omega)
  · rw [Int.natAbs_tmod]
    exact Nat.mod_le _ _
  · rw [Int.sign_tmod]
    by_cases divides : b ∣ a
    · exact Or.inl (Int.tmod_eq_zero_of_dvd divides)
    · exact Or.inr (if_neg divides)

theorem fits_tmod (a : Int) {b : Int} (divisor : b ≠ 0) (range : fits b = true) :
    fits (a.tmod b) = true := by
  obtain ⟨smaller, -, -⟩ := tmod_spec a divisor
  rw [fits_iff] at range ⊢
  omega

/-- Taking the remainder off leaves a multiple of the divisor between zero and the dividend. -/
theorem fits_tdiv_mul {a b : Int} (dividend : fits a = true) (divisor : b ≠ 0) :
    fits (a.tdiv b * b) = true := by
  obtain ⟨-, least, sign⟩ := tmod_spec a divisor
  have whole : a.tmod b + a.tdiv b * b = a := Int.tmod_add_tdiv_mul a b
  rw [fits_iff] at dividend ⊢
  rcases sign with none_left | sign
  · omega
  · rcases Int.lt_trichotomy a 0 with negative | rfl | positive
    · rw [Int.sign_eq_neg_one_of_neg negative, Int.sign_eq_neg_one_iff_neg] at sign
      omega
    · simp
    · rw [Int.sign_eq_one_of_pos positive, Int.sign_eq_one_iff_pos] at sign
      omega

theorem Means.on_ints {op : Operator} {a b n : Int} (means : op.Means a b n) :
    op.onInts a b = op.exact n := by
  cases means <;> rfl

theorem eq_zero_iff (b : Int32) : b = 0 ↔ b.toInt = 0 := by
  rw [← Int32.toInt_inj]
  rfl

/-- The one pair of integers whose quotient is too large. -/
theorem least_iff (a b : Int32) :
    a = Int32.minValue ∧ b = -1 ↔ a.toInt = -0x80000000 ∧ b.toInt = -1 := by
  rw [← Int32.toInt_inj, ← Int32.toInt_inj]
  rfl

theorem Splits.on_ints {op : Operator} {a b : Int32} {n : Int}
    (splits : op.Splits a.toInt b.toInt n) :
    op.onInts a.toInt b.toInt =
      if b = 0 then .error divisionByZero
      else if a = Int32.minValue ∧ b = -1 then .error op.overflow
      else .ok (.int (Int32.ofInt n)) := by
  simp only [least_iff, eq_zero_iff]
  by_cases zero : b.toInt = 0
  · cases splits <;> simp [onInts, zero]
  · by_cases least : a.toInt = -0x80000000 ∧ b.toInt = -1
    · cases splits <;> simp [onInts, exact, least, fits]
    · have quotient := (fits_tdiv (fits_toInt a) zero).mpr least
      have remainder := fits_tmod a.toInt zero (fits_toInt b)
      cases splits <;> simp [onInts, exact, zero, least, quotient, remainder]

theorem Splits.ok {op : Operator} {a b : Int32} {n : Int} (splits : op.Splits a.toInt b.toInt n)
    {v : Value} (done : op.onInts a.toInt b.toInt = .ok v) :
    b ≠ 0 ∧ ¬ (a = Int32.minValue ∧ b = -1) ∧ v = .int (Int32.ofInt n) := by
  rw [splits.on_ints] at done
  by_cases zero : b = 0
  · rw [if_pos zero] at done
    cases done
  · by_cases least : a = Int32.minValue ∧ b = -1
    · rw [if_neg zero, if_pos least] at done
      cases done
    · rw [if_neg zero, if_neg least] at done
      cases done
      exact ⟨zero, least, rfl⟩

theorem Splits.fails_iff {op : Operator} {a b : Int32} {n : Int}
    (splits : op.Splits a.toInt b.toInt n) :
    (op.onInts a.toInt b.toInt = .error divisionByZero ↔ b = 0) ∧
      (op.onInts a.toInt b.toInt = .error op.overflow ↔ a = Int32.minValue ∧ b = -1) := by
  have apart : divisionByZero ≠ op.overflow := by cases splits <;> decide
  have zero_apart : (0 : Int32) ≠ -1 := by decide
  rw [splits.on_ints]
  by_cases zero : b = 0
  · simp [zero, zero_apart, apart]
  · by_cases least : a = Int32.minValue ∧ b = -1
    · simp [least, apart.symm]
    · simp [zero, least]

/-- Quotient and remainder, where they exist, as integers of 32 bits. -/
theorem split_values {a b : Int32} (divisor : b ≠ 0) (other : ¬ (a = Int32.minValue ∧ b = -1)) :
    (Int32.ofInt (a.toInt.tdiv b.toInt)).toInt = a.toInt.tdiv b.toInt ∧
      (Int32.ofInt (a.toInt.tmod b.toInt)).toInt = a.toInt.tmod b.toInt := by
  rw [least_iff] at other
  rw [ne_eq, eq_zero_iff] at divisor
  exact ⟨toInt_ofInt ((fits_tdiv (fits_toInt a) divisor).mpr other),
    toInt_ofInt (fits_tmod a.toInt divisor (fits_toInt b))⟩

/-- Quotient and remainder make up the dividend. -/
theorem divide {a b : Int32} (divisor : b ≠ 0) (other : ¬ (a = Int32.minValue ∧ b = -1)) :
    ∃ q r : Int32, div.onInts a.toInt b.toInt = .ok (.int q) ∧
      rem.onInts a.toInt b.toInt = .ok (.int r) ∧
      a.toInt = q.toInt * b.toInt + r.toInt ∧ r.toInt.natAbs < b.toInt.natAbs ∧
      (r = 0 ∨ r.toInt.sign = a.toInt.sign) := by
  obtain ⟨quotient, remainder⟩ := split_values divisor other
  rw [(Splits.quotient _ _).on_ints, (Splits.remainder _ _).on_ints]
  simp only [if_neg divisor, if_neg other]
  refine ⟨_, _, rfl, rfl, ?_⟩
  rw [ne_eq, eq_zero_iff] at divisor
  obtain ⟨smaller, -, sign⟩ := tmod_spec a.toInt divisor
  rw [eq_zero_iff, quotient, remainder]
  exact ⟨(Int.tdiv_mul_add_tmod a.toInt b.toInt).symm, smaller, sign⟩

/-- The product lies between zero and the dividend, and the sum is the dividend. -/
theorem recombine {a b : Int32} {q r : Value} (divided : div.onInts a.toInt b.toInt = .ok q)
    (left : rem.onInts a.toInt b.toInt = .ok r) :
    ∃ q' r' p : Int32, q = .int q' ∧ r = .int r' ∧ mul.onInts q'.toInt b.toInt = .ok (.int p) ∧
      add.onInts p.toInt r'.toInt = .ok (.int a) := by
  obtain ⟨divisor, other, rfl⟩ := (Splits.quotient _ _).ok divided
  obtain ⟨-, -, rfl⟩ := (Splits.remainder _ _).ok left
  obtain ⟨quotient, remainder⟩ := split_values divisor other
  rw [ne_eq, eq_zero_iff] at divisor
  have product := fits_tdiv_mul (fits_toInt a) divisor
  refine ⟨_, _, Int32.ofInt (a.toInt.tdiv b.toInt * b.toInt), rfl, rfl, ?_, ?_⟩
  · rw [(Means.mul _ _).on_ints, quotient]
    exact if_pos product
  · rw [(Means.add _ _).on_ints, toInt_ofInt product, remainder, Int.tdiv_mul_add_tmod, exact,
      if_pos (fits_toInt a), Int32.ofInt_toInt]

theorem apply_ints (op : Operator) (a b : Int32) :
    op.apply (.int a) (.int b) = .done ((op.onInts a.toInt b.toInt).mapError .foreign) := by
  cases op with
  | eq | ne => simp [apply, onInts, Int32.toInt_inj, Except.mapError, HostProgram.give]
  | _ => rfl

/-- An operator answers at once and leaves the machine as it is. A failure is a fault of its own. -/
theorem run_apply (op : Operator) (x y : Value) (enter : Enter) (m : Machine) :
    ∃ result : Except Fault Value,
      (op.apply x y).run enter m = some (result.mapError .foreign, m) := by
  have refused : ∀ message, ∃ result : Except Fault Value,
      (refuse x y message).run enter m = some (result.mapError .foreign, m) :=
    fun message => ⟨.error _, rfl⟩
  rw [apply.eq_def]
  split
  · exact ⟨.ok _, rfl⟩
  · exact ⟨.ok _, rfl⟩
  · split
    · exact ⟨_, rfl⟩
    · exact ⟨.ok _, rfl⟩
    · exact ⟨.ok _, rfl⟩
    · exact refused _
  · split
    · exact ⟨_, rfl⟩
    · exact refused _

end Operator

theorem RuntimeError.failure_overflow (op : Operator) :
    failure ("integer overflow in " ++ op.symbol) = .invocationFailure op.overflow := rfl

theorem RuntimeError.failure_division :
    failure "division by zero" = .invocationFailure Operator.divisionByZero := rfl

/-- An invoked operator of a fresh engine is the operator, whatever has happened since. -/
theorem Machine.Reachable.invoke_builtin {m : Machine} (reachable : m.Reachable) (op : Operator)
    (depth : Nat) (receiver x y : Value) {result : Except Fault Value}
    (ran : (op.apply x y).run (enter depth) m = some (result.mapError .foreign, m)) :
    invoke (depth + 1) op.builtin receiver [x, y] m =
      some (result.mapError .invocationFailure, m) := by
  have listed : Operator.all[Operator.all.idxOf op]? = some op := by cases op <;> rfl
  have entry := reachable.operator listed
  rw [← Operator.builtin] at entry
  have ran : runHost (enter depth) (.operator op) receiver [x, y] m =
      some (result.mapError .foreign, m) := ran
  simp only [invoke, invokeObject, entry, Callable.arity, Arity.check, List.length_cons,
    List.length_nil, if_true, enter, ran]
  cases result <;> rfl

theorem Machine.Reachable.invoke_on_ints {m : Machine} (reachable : m.Reachable) (op : Operator)
    (depth : Nat) (receiver : Value) (a b : Int32) :
    invoke (depth + 1) op.builtin receiver [.int a, .int b] m =
      some ((op.onInts a.toInt b.toInt).mapError .invocationFailure, m) :=
  reachable.invoke_builtin op depth receiver _ _ (by rw [op.apply_ints]; rfl)

/-- The operators of a fresh engine are found under their symbols. -/
theorem boot_builtin (cacheDepth : Nat) (sink : Sink) (op : Operator) :
    (Machine.boot cacheDepth sink).heap.lookup Machine.global op.symbol = .object op.builtin := by
  rw [Machine.boot_heap]
  cases op <;> decide +kernel

/-- The operators of a fresh engine, found under their symbols, answer at once and change nothing on the
machine. On integers of 32 bits the answer is the integer with the value of the result, or a failure if
there is none; quotient times divisor plus remainder is the dividend and never overflows. -/
theorem arithmetic_is_exact {m : Machine} (reachable : m.Reachable) (depth : Nat) (receiver : Value) :
    let call (op : Operator) (x y : Value) := invoke (depth + 1) op.builtin receiver [x, y] m
    (∀ cacheDepth sink (op : Operator),
      (Machine.boot cacheDepth sink).heap.lookup Machine.global op.symbol = .object op.builtin) ∧
    (∀ op x y, ∃ result, call op x y = some (result, m) ∧
      ∀ e, result = .error e → ∃ fault, e = .invocationFailure fault) ∧
    (∀ op (a b : Int32) n, op.Means a.toInt b.toInt n →
      (∀ k : Int32, call op (.int a) (.int b) = some (.ok (.int k), m) ↔ k.toInt = n) ∧
      ((∀ k : Int32, k.toInt ≠ n) ↔ call op (.int a) (.int b) =
        some (.error (.failure ("integer overflow in " ++ op.symbol)), m))) ∧
    (∀ a b : Int32,
      (∀ op ∈ [Operator.div, .rem],
        (b = 0 ↔ call op (.int a) (.int b) = some (.error (.failure "division by zero"), m)) ∧
        (a = Int32.minValue ∧ b = -1 ↔ call op (.int a) (.int b) =
          some (.error (.failure ("integer overflow in " ++ op.symbol)), m))) ∧
      (b ≠ 0 → ¬ (a = Int32.minValue ∧ b = -1) → ∃ q r : Int32,
        call .div (.int a) (.int b) = some (.ok (.int q), m) ∧
        call .rem (.int a) (.int b) = some (.ok (.int r), m) ∧
        a.toInt = q.toInt * b.toInt + r.toInt ∧ r.toInt.natAbs < b.toInt.natAbs ∧
        (r = 0 ∨ r.toInt.sign = a.toInt.sign)) ∧
      ∀ q r, call .div (.int a) (.int b) = some (.ok q, m) →
        call .rem (.int a) (.int b) = some (.ok r, m) →
        ∃ p, call .mul q (.int b) = some (.ok p, m) ∧ call .add p r = some (.ok (.int a), m)) := by
  intro call
  have ok : ∀ op (a b : Int32) v, call op (.int a) (.int b) = some (.ok v, m) ↔
      op.onInts a.toInt b.toInt = .ok v := by
    intro op a b v
    simp only [call, reachable.invoke_on_ints]
    cases op.onInts a.toInt b.toInt <;> simp [Except.mapError]
  have failed : ∀ op (a b : Int32) fault,
      call op (.int a) (.int b) = some (.error (.invocationFailure fault), m) ↔
        op.onInts a.toInt b.toInt = .error fault := by
    intro op a b fault
    simp only [call, reachable.invoke_on_ints]
    cases op.onInts a.toInt b.toInt <;> simp [Except.mapError]
  refine ⟨boot_builtin, ?_, ?_, ?_⟩
  · intro op x y
    obtain ⟨result, ran⟩ := op.run_apply x y (enter depth) m
    refine ⟨_, reachable.invoke_builtin op depth receiver x y ran, ?_⟩
    cases result with
    | ok v => rintro e ⟨⟩
    | error fault =>
      rintro e ⟨⟩
      exact ⟨fault, rfl⟩
  · intro op a b n means
    simp only [RuntimeError.failure_overflow, ok, failed, means.on_ints]
    rcases op.exact_eq n with ⟨k, value, exact⟩ | ⟨none_fits, overflows⟩
    · subst value
      simp [exact, Int32.toInt_inj, eq_comm]
    · simp [overflows, none_fits]
  · intro a b
    simp only [RuntimeError.failure_overflow, RuntimeError.failure_division, ok, failed]
    refine ⟨?_, Operator.divide, ?_⟩
    · intro op listed
      obtain ⟨n, splits⟩ : ∃ n, op.Splits a.toInt b.toInt n := by
        rcases List.mem_pair.mp listed with rfl | rfl
        · exact ⟨_, .quotient _ _⟩
        · exact ⟨_, .remainder _ _⟩
      obtain ⟨zero, least⟩ := splits.fails_iff
      exact ⟨zero.symm, least.symm⟩
    · intro q r divided left
      obtain ⟨q, r, p, rfl, rfl, product, sum⟩ := Operator.recombine divided left
      exact ⟨.int p, (ok _ _ _ _).mpr product, (ok _ _ _ _).mpr sum⟩

/-- At the ends of the integers: the least one divided by minus one has neither quotient nor remainder,
and divided by seven it has both. -/
theorem arithmetic_is_exact_at_least :
    let m := Machine.boot 3 .accepting
    let call (op : Operator) (x y : Value) := invoke 1 op.builtin .undefined [x, y] m
    m.Reachable ∧
      call .rem (.int Int32.minValue) (.int (-1)) =
        some (.error (.failure ("integer overflow in " ++ Operator.rem.symbol)), m) ∧
      call .sub (.int Int32.minValue) (.int Int32.maxValue) =
        some (.error (.failure ("integer overflow in " ++ Operator.sub.symbol)), m) ∧
      ∃ q r p, call .div (.int Int32.minValue) (.int 7) = some (.ok q, m) ∧
        call .rem (.int Int32.minValue) (.int 7) = some (.ok r, m) ∧
        call .mul q (.int 7) = some (.ok p, m) ∧
        call .add p r = some (.ok (.int Int32.minValue), m) := by
  intro m call
  have reachable : m.Reachable := .boot 3 .accepting
  obtain ⟨-, -, exact, divisions⟩ := arithmetic_is_exact reachable 0 .undefined
  refine ⟨reachable, ?_, ?_, ?_⟩
  · exact ((divisions Int32.minValue (-1)).1 .rem (by decide)).2.mp ⟨rfl, rfl⟩
  · refine (exact .sub Int32.minValue Int32.maxValue _ (.sub _ _)).2.mp fun k value => ?_
    have least := k.le_toInt
    have difference : Int32.minValue.toInt - Int32.maxValue.toInt = -4294967295 := by decide
    omega
  · obtain ⟨-, succeed, recombine⟩ := divisions Int32.minValue 7
    obtain ⟨q, r, divided, left, -⟩ := succeed (by decide) (by decide)
    obtain ⟨p, product, sum⟩ := recombine _ _ divided left
    exact ⟨.int q, .int r, p, divided, left, product, sum⟩

end ScriptEngine
