import ScriptEngine.Proofs.Session

/-!
# Exchanging functions

Two worlds may have compiled different functions, as long as these stand for each other one by one: a
relation between functions says which may take the place of which. If functions that may be exchanged
have the same name and the same number of parameters, are compiled or refused alike, and have bodies
that end alike wherever they run, then nothing a host asks for tells the worlds apart.
-/

namespace ScriptEngine

namespace Reference

/-- The worlds differ at most in their functions, and those stand for each other. -/
def World.Like (R : FunctionDef → FunctionDef → Prop) (w w' : World) : Prop :=
  ∃ functions : Array FunctionDef, w' = { w with functions } ∧
    List.Forall₂ R w.functions.toList functions.toList

/-- Two runs end alike: neither ends, or both end with the same result. -/
inductive SameEnd {α : Type} (R : FunctionDef → FunctionDef → Prop) :
    Option (α × World) → Option (α × World) → Prop
  | stuck : SameEnd R none none
  | ends {a : α} {w w' : World} (like : w.Like R w') : SameEnd R (some (a, w)) (some (a, w'))

/-- Computations that end alike in any two worlds that are alike. -/
def SameRun {α : Type} (R : FunctionDef → FunctionDef → Prop) (x x' : Run α) : Prop :=
  ∀ ⦃w w' : World⦄, w.Like R w' → SameEnd R (x w) (x' w')

def SameEnter (R : FunctionDef → FunctionDef → Prop) (enter enter' : Enter) : Prop :=
  ∀ entry receiver args, SameRun R (enter entry receiver args) (enter' entry receiver args)

/-- Two nodes end alike; local names that go on are related by `S`. -/
inductive SameOutcome {α : Type} (R : FunctionDef → FunctionDef → Prop) (S : Env → Env → Prop) :
    Option (Outcome α × World) → Option (Outcome α × World) → Prop
  | stuck : SameOutcome R S none none
  | next {a : α} {env env' : Env} {w w' : World} (names : S env env') (like : w.Like R w') :
      SameOutcome R S (some (.next a env, w)) (some (.next a env', w'))
  | returned {v : Value} {w w' : World} (like : w.Like R w') :
      SameOutcome R S (some (.returned v, w)) (some (.returned v, w'))
  | failed {e : RuntimeError} {w w' : World} (like : w.Like R w') :
      SameOutcome R S (some (.failed e, w)) (some (.failed e, w'))

def SameEval {α : Type} (R : FunctionDef → FunctionDef → Prop) (S : Env → Env → Prop)
    (x x' : Eval α) : Prop :=
  ∀ ⦃env env' : Env⦄ ⦃w w' : World⦄, S env env' → w.Like R w' →
    SameOutcome R S (x env w) (x' env' w')

/-- Related functions look the same until they are entered. -/
structure SameInterface (R : FunctionDef → FunctionDef → Prop) : Prop where
  name {f f' : FunctionDef} : R f f' → f'.name = f.name
  params {f f' : FunctionDef} : R f f' → f'.params.length = f.params.length
  check {f f' : FunctionDef} : R f f' → f'.check = f.check

/-- A relation under which functions may be exchanged. -/
structure Exchangeable (R : FunctionDef → FunctionDef → Prop) : Prop extends SameInterface R where
  refl (f : FunctionDef) : R f f
  body {f f' : FunctionDef} {enter enter' : Enter} : R f f' → SameEnter R enter enter' →
    ∀ receiver args, SameRun R (runBody enter f receiver args) (runBody enter' f' receiver args)

section
variable {R : FunctionDef → FunctionDef → Prop} {S : Env → Env → Prop} {α β : Type}

theorem SameEnd.map {r r' : Option (α × World)} (same : SameEnd R r r') (f : α → β) :
    SameEnd R (r.map fun (a, w) => (f a, w)) (r'.map fun (a, w) => (f a, w)) := by
  cases same with
  | stuck => exact .stuck
  | ends like => exact .ends like

theorem sameRun_pure (a : α) : SameRun R (pure a) (pure a) := fun _ _ like => .ends like

theorem sameRun_bind {x x' : Run α} {f f' : α → Run β} (first : SameRun R x x')
    (rest : ∀ a, SameRun R (f a) (f' a)) : SameRun R (x >>= f) (x' >>= f') := by
  intro w w' like
  have ran := first like
  change SameEnd R ((x w).bind fun (a, w) => f a w) ((x' w').bind fun (a, w) => f' a w)
  generalize x w = r, x' w' = r' at ran
  cases ran with
  | stuck => exact .stuck
  | @ends a w w' like => exact rest a like

namespace World

theorem Like.keep {w w' : World} (like : w.Like R w') (v : Value) :
    (w.keep v).Like R (w'.keep v) := by
  obtain ⟨functions, rfl, related⟩ := like
  unfold World.keep
  split <;> exact ⟨functions, rfl, related⟩

theorem Like.print {w w' : World} (like : w.Like R w') (args : List Value) :
    SameEnd R (some (w.print args)) (some (w'.print args)) := by
  obtain ⟨functions, rfl, related⟩ := like
  obtain ⟨heap, _, kept, output, sink⟩ := w
  cases sink <;> exact .ends ⟨functions, rfl, related⟩

theorem Like.setField {w w' : World} (like : w.Like R w') (name : String)
    (receiver value : Value) :
    SameEnd R (some (w.setField name receiver value)) (some (w'.setField name receiver value)) := by
  obtain ⟨functions, rfl, related⟩ := like
  unfold World.setField
  cases FieldSite.set { name } w.heap receiver value <;> exact .ends ⟨functions, rfl, related⟩

theorem Like.function {w w' : World} (like : w.Like R w') (unit : UnitId) :
    Option.Rel R w.functions[unit]? w'.functions[unit]? := by
  obtain ⟨functions, rfl, related⟩ := like
  rw [← Array.getElem?_toList, ← Array.getElem?_toList]
  generalize w.functions.toList = fs, functions.toList = fs' at related ⊢
  induction related generalizing unit with
  | nil => exact .none
  | cons first _ ih =>
    cases unit with
    | zero => exact .some first
    | succ unit => exact ih unit

theorem compile_of_check {f : FunctionDef} (checked : f.check = .ok ()) (w : World) :
    let name := f.name.getD anonymousName
    let made := w.heap.newFunction name (.compiled w.functions.size name f.params.length)
    w.compile f = .ok (made.1, { w with heap := made.2, functions := w.functions.push f }) := by
  simp only [World.compile, checked, bind, Except.bind, pure, Except.pure]

/-- Functions that stand for each other are refused alike or become the same object. -/
theorem Like.compile (interface : SameInterface R) {w w' : World} (like : w.Like R w')
    {f f' : FunctionDef} (related : R f f') :
    (∃ e, w.compile f = .error e ∧ w'.compile f' = .error e) ∨
      ∃ id made made', w.compile f = .ok (id, made) ∧ w'.compile f' = .ok (id, made') ∧
        made.Like R made' := by
  obtain ⟨functions, rfl, others⟩ := like
  have check := interface.check related
  have size : functions.size = w.functions.size := others.length_eq.symm
  cases checked : f.check with
  | error e =>
    exact Or.inl ⟨e, by simp [World.compile, checked, bind, Except.bind],
      by simp [World.compile, check, checked, bind, Except.bind]⟩
  | ok _ =>
    have second := compile_of_check (check.trans checked) { w with functions }
    simp only [interface.name related, interface.params related, size] at second
    refine Or.inr ⟨_, _, _, compile_of_check checked w, second, functions.push f', rfl, ?_⟩
    simpa using List.rel_append others (.cons related .nil)

theorem Like.makeFunction (interface : SameInterface R) {w w' : World} (like : w.Like R w')
    {f f' : FunctionDef} (related : R f f') :
    SameEnd R (some (w.makeFunction f)) (some (w'.makeFunction f')) := by
  rcases like.compile interface related with
    ⟨e, failed, failed'⟩ | ⟨id, made, made', done, done', like⟩
  · simp only [World.makeFunction, failed, failed']
    exact .ends like
  · simp only [World.makeFunction, done, done']
    exact .ends like

end World

theorem sameEval_pure (a : α) : SameEval R S (pure a) (pure a) :=
  fun _ _ _ _ names like => .next names like

theorem sameEval_bind {x x' : Eval α} {f f' : α → Eval β} (first : SameEval R S x x')
    (rest : ∀ a, SameEval R S (f a) (f' a)) : SameEval R S (x >>= f) (x' >>= f') := by
  intro env env' w w' names like
  have ran := first names like
  change SameOutcome R S (Eval.bind x f env w) (Eval.bind x' f' env' w')
  unfold Eval.bind
  generalize x env w = r, x' env' w' = r' at ran
  cases ran with
  | stuck => exact .stuck
  | next names like => exact rest _ names like
  | returned like => exact .returned like
  | failed like => exact .failed like

theorem sameEval_leave (v : Value) : SameEval R S (Eval.leave v : Eval α) (Eval.leave v) :=
  fun _ _ _ _ _ like => .returned like

theorem sameEval_register (id : ObjectId) (key : String) (v : Value) :
    SameEval R S (Eval.act (·.register id key v)) (Eval.act (·.register id key v)) := by
  rintro env env' w _ names ⟨functions, rfl, related⟩
  exact .next names ⟨functions, rfl, related⟩

theorem sameEval_newObject :
    SameEval R S (Eval.fetch (·.newObject)) (Eval.fetch (·.newObject)) := by
  rintro env env' w _ names ⟨functions, rfl, related⟩
  have like : w.newObject.2.Like R (World.newObject { w with functions }).2 :=
    ⟨functions, rfl, related⟩
  exact .next names (like.keep _)

theorem sameEval_attempt {r r' : Run (Except RuntimeError Value)} (same : SameRun R r r') :
    SameEval R S (Eval.attempt r) (Eval.attempt r') := by
  intro env env' w w' names like
  have ran := same like
  unfold Eval.attempt
  generalize r w = r, r' w' = r' at ran
  cases ran with
  | stuck => exact .stuck
  | @ends result w w' like =>
    cases result with
    | ok v => exact .next names (like.keep v)
    | error e => exact .failed like

/-- A name is read alike if it is local under both names or free under one. -/
theorem sameEval_read (global : ObjectId) {x x' : String}
    (names : ∀ {env env'}, S env env' → env' x' = env x ∧ (env x = none → x' = x)) :
    SameEval R S (Eval.read global x) (Eval.read global x') := by
  rintro env env' w _ related ⟨functions, rfl, others⟩
  obtain ⟨same, free⟩ := names related
  unfold Eval.read
  rw [same]
  cases found : env x with
  | some v => exact .next related ⟨functions, rfl, others⟩
  | none =>
    obtain rfl := free found
    exact .next related (World.Like.keep ⟨functions, rfl, others⟩ _)

theorem sameEval_assign {x x' : String}
    (names : ∀ {env env'} v, S env env' → S (env.set x v) (env'.set x' v)) (v : Value) :
    SameEval R S (Eval.assign x v) (Eval.assign x' v) :=
  fun _ _ _ _ related like => .next (names v related) like

theorem invokeObject_same {enter enter' : Enter} (enters : SameEnter R enter enter')
    (id : ObjectId) (receiver : Value) (args : List Value) :
    SameRun R (invokeObject enter id receiver args) (invokeObject enter' id receiver args) := by
  rintro w _ ⟨functions, rfl, related⟩
  have like : w.Like R { w with functions } := ⟨functions, rfl, related⟩
  unfold invokeObject
  cases w.heap.callable? id with
  | none => exact .ends like
  | some entry =>
    cases checked : entry.arity.check args.length with
    | error e => simpa only [checked] using .ends like
    | ok _ => simpa only [checked] using enters entry receiver args like

theorem callValue_same {enter enter' : Enter} (enters : SameEnter R enter enter')
    (callee receiver : Value) (args : List Value) :
    SameRun R (callValue enter callee receiver args) (callValue enter' callee receiver args) := by
  rintro w _ ⟨functions, rfl, related⟩
  have like : w.Like R { w with functions } := ⟨functions, rfl, related⟩
  unfold callValue
  cases w.heap.resolveCallee callee args.length with
  | error e => exact .ends like
  | ok found => exact enters found.2 receiver args like

theorem callMethod_same {enter enter' : Enter} (enters : SameEnter R enter enter')
    (name : String) (receiver : Value) (args : List Value) :
    SameRun R (callMethod enter name receiver args) (callMethod enter' name receiver args) := by
  rintro w _ ⟨functions, rfl, related⟩
  have like : w.Like R { w with functions } := ⟨functions, rfl, related⟩
  unfold callMethod
  cases MethodSite.resolve { name, argCount := args.length } w.heap receiver with
  | error e => exact .ends like
  | ok method => exact invokeObject_same enters method receiver args like

section
variable {enter enter' : Enter} {global : ObjectId} {callee callee' receiver receiver' value value' : Expr}
  {args args' es es' : List Expr} {entries entries' : List (String × Expr)} {line line' : UInt32}

theorem block_same {body body' : Block}
    (inner : SameEval R S (evalBlock enter global body) (evalBlock enter' global body')) :
    SameEval R S (evalExpr enter global (.block body)) (evalExpr enter' global (.block body')) :=
  sameEval_bind inner fun _ => sameEval_pure _

theorem literal_same (constant : Literal) :
    SameEval R S (evalExpr enter global (.literal constant line))
      (evalExpr enter' global (.literal constant line')) := by
  cases constant with
  | int n => exact sameEval_pure _
  | text s => exact sameEval_pure _

theorem call_same (enters : SameEnter R enter enter')
    (head : SameEval R S (evalExpr enter global callee) (evalExpr enter' global callee'))
    (tail : SameEval R S (evalArgs enter global args) (evalArgs enter' global args')) :
    SameEval R S (evalExpr enter global (.call callee args line))
      (evalExpr enter' global (.call callee' args' line')) :=
  sameEval_bind head fun callee => sameEval_bind tail fun args =>
    sameEval_attempt (callValue_same enters callee .undefined args)

/-- A value is stored alike under two names if it is the same to read on. -/
theorem assign_same {x x' : String} {declares declares' : Bool}
    (names : ∀ {env env'} v, S env env' → S (env.set x v) (env'.set x' v))
    (inner : SameEval R S (evalExpr enter global value) (evalExpr enter' global value')) :
    SameEval R S (evalExpr enter global (.assign x value declares line))
      (evalExpr enter' global (.assign x' value' declares' line')) :=
  sameEval_bind inner fun v => sameEval_bind (sameEval_assign names v) fun _ => sameEval_pure _

theorem function_same {name : Option String} {params params' : List String} {body body' : Block}
    (made : ∀ {w w' : World}, w.Like R w' →
      SameEnd R (some (w.makeFunction { name, params, body, global }))
        (some (w'.makeFunction { name, params := params', body := body', global }))) :
    SameEval R S (evalExpr enter global (.function name params body line))
      (evalExpr enter' global (.function name params' body' line')) :=
  sameEval_bind (sameEval_attempt fun _ _ like => made like) fun function => by
    cases name with
    | none => exact sameEval_pure function
    | some name =>
      exact sameEval_bind (sameEval_register global name function) fun _ => sameEval_pure _

theorem ret_same (inner : SameEval R S (evalExpr enter global value) (evalExpr enter' global value')) :
    SameEval R S (evalExpr enter global (.ret value line))
      (evalExpr enter' global (.ret value' line')) :=
  sameEval_bind inner fun v => sameEval_leave v

theorem cond_same {yes yes' no no' : Block}
    (head : SameEval R S (evalExpr enter global value) (evalExpr enter' global value'))
    (left : SameEval R S (evalBlock enter global yes) (evalBlock enter' global yes'))
    (right : SameEval R S (evalBlock enter global no) (evalBlock enter' global no')) :
    SameEval R S (evalExpr enter global (.cond value yes no line))
      (evalExpr enter' global (.cond value' yes' no' line')) :=
  sameEval_bind head fun v => by
    cases v.truth with
    | true => exact sameEval_bind left fun _ => sameEval_pure _
    | false => exact sameEval_bind right fun _ => sameEval_pure _

theorem object_same (inner : ∀ object, SameEval R S (evalEntries enter global object entries)
      (evalEntries enter' global object entries')) :
    SameEval R S (evalExpr enter global (.object entries line))
      (evalExpr enter' global (.object entries' line')) :=
  sameEval_bind sameEval_newObject fun object =>
    sameEval_bind (inner object) fun _ => sameEval_pure _

theorem field_same (name : String)
    (inner : SameEval R S (evalExpr enter global receiver) (evalExpr enter' global receiver')) :
    SameEval R S (evalExpr enter global (.field receiver name line))
      (evalExpr enter' global (.field receiver' name line')) :=
  sameEval_bind inner fun receiver =>
    sameEval_attempt (by
      rintro w _ ⟨functions, rfl, related⟩
      exact .ends ⟨functions, rfl, related⟩)

theorem setField_same (name : String)
    (head : SameEval R S (evalExpr enter global receiver) (evalExpr enter' global receiver'))
    (inner : SameEval R S (evalExpr enter global value) (evalExpr enter' global value')) :
    SameEval R S (evalExpr enter global (.setField receiver name value line))
      (evalExpr enter' global (.setField receiver' name value' line')) :=
  sameEval_bind head fun receiver => sameEval_bind inner fun value =>
    sameEval_attempt fun _ _ like => like.setField _ receiver value

theorem method_same (enters : SameEnter R enter enter') (name : String)
    (head : SameEval R S (evalExpr enter global receiver) (evalExpr enter' global receiver'))
    (tail : SameEval R S (evalArgs enter global args) (evalArgs enter' global args')) :
    SameEval R S (evalExpr enter global (.method receiver name args line))
      (evalExpr enter' global (.method receiver' name args' line')) :=
  sameEval_bind head fun receiver => sameEval_bind tail fun args =>
    sameEval_attempt (callMethod_same enters name receiver args)

theorem instrs_same (head : SameEval R S (evalExpr enter global value) (evalExpr enter' global value'))
    (tail : SameEval R S (evalInstrs enter global es) (evalInstrs enter' global es')) :
    SameEval R S (evalInstrs enter global (value :: es)) (evalInstrs enter' global (value' :: es')) :=
  sameEval_bind head fun _ => tail

theorem args_same (head : SameEval R S (evalExpr enter global value) (evalExpr enter' global value'))
    (tail : SameEval R S (evalArgs enter global es) (evalArgs enter' global es')) :
    SameEval R S (evalArgs enter global (value :: es)) (evalArgs enter' global (value' :: es')) :=
  sameEval_bind head fun v => sameEval_bind tail fun vs => sameEval_pure (v :: vs)

theorem entries_same (object : Value) (key : String)
    (head : SameEval R S (evalExpr enter global value) (evalExpr enter' global value'))
    (tail : SameEval R S (evalEntries enter global object entries)
      (evalEntries enter' global object entries')) :
    SameEval R S (evalEntries enter global object ((key, value) :: entries))
      (evalEntries enter' global object ((key, value') :: entries')) :=
  sameEval_bind head fun v =>
    sameEval_bind (sameEval_attempt fun _ _ like => like.setField _ object v) fun _ => tail

end

theorem SameOutcome.endInvocation {r r' : Option (Outcome Unit × World)}
    (same : SameOutcome R S r r') (mark : Nat) :
    SameEnd R (endInvocation mark r) (endInvocation mark r') := by
  have release : ∀ {w w' : World}, w.Like R w' → (w.release mark).Like R (w'.release mark) := by
    rintro w _ ⟨functions, rfl, related⟩
    exact ⟨functions, rfl, related⟩
  cases same with
  | stuck => exact .stuck
  | next _ like => exact .ends (release like)
  | returned like => exact .ends (release like)
  | failed like => exact .ends (release like)

theorem invokeFunction_same (exchange : Exchangeable R) {enter enter' : Enter}
    (enters : SameEnter R enter enter') (unit : UnitId) (receiver : Value) (args : List Value) :
    SameRun R (invokeFunction enter unit receiver args)
      (invokeFunction enter' unit receiver args) := by
  intro w w' like
  have found := like.function unit
  unfold invokeFunction
  generalize w.functions[unit]? = f, w'.functions[unit]? = f' at found
  cases found with
  | none => exact .ends like
  | @some f f' related =>
    by_cases count : args.length = f.params.length
    · simpa only [exchange.params related, count, ne_eq, not_true_eq_false, if_false] using
        exchange.body related enters receiver args like
    · simpa only [exchange.params related, count, ne_eq, not_false_eq_true, if_true] using .ends like

theorem performStep_same (exchange : Exchangeable R) {enter enter' : Enter}
    (enters : SameEnter R enter enter') (s : HostStep) :
    SameRun R (performStep enter s) (performStep enter' s) := by
  intro w w' like
  cases s with
  | print args => exact like.print args
  | compile f =>
    rcases like.compile exchange.toSameInterface (exchange.refl f) with
      ⟨e, failed, failed'⟩ | ⟨id, made, made', done, done', further⟩
    · simp only [performStep, failed, failed']
      exact .ends like
    · simp only [performStep, done, done']
      exact .ends further
  | invoke id receiver args => exact invokeObject_same enters id receiver args like
  | _ =>
    obtain ⟨functions, rfl, related⟩ := like
    exact .ends ⟨functions, rfl, related⟩

theorem runProgram_same (exchange : Exchangeable R) {enter enter' : Enter}
    (enters : SameEnter R enter enter') (p : HostProgram) :
    SameRun R (runProgram enter p) (runProgram enter' p) := by
  induction p with
  | done result => exact fun _ _ like => .ends like
  | step s next ih =>
    intro w w' like
    have performed := performStep_same exchange enters s like
    simp only [runProgram]
    generalize performStep enter s w = r, performStep enter' s w' = r' at performed
    cases performed with
    | stuck => exact .stuck
    | @ends answer w w' like => exact ih answer like

theorem enter_same (exchange : Exchangeable R) (depth : Nat) :
    SameEnter R (enter depth) (enter depth) := by
  induction depth with
  | zero => exact fun _ _ _ _ _ _ => .stuck
  | succ depth ih =>
    intro entry receiver args
    -- the bodies may call back, but only with a smaller bound, so `ih` covers what they enter
    cases entry with
    | compiled unit name params => exact invokeFunction_same exchange ih unit receiver args
    | native f =>
      intro w w' like
      have hosted := runProgram_same exchange ih (f.body.onCall receiver args) like
      simp only [enter, runHost]
      generalize runProgram (enter depth) (f.body.onCall receiver args) w = r,
        runProgram (enter depth) (f.body.onCall receiver args) w' = r' at hosted
      cases hosted with
      | stuck => exact .stuck
      | ends like => exact .ends like

end

end Reference

/-- Requests for the same thing, with functions in them that stand for each other. -/
inductive Request.Like (R : FunctionDef → FunctionDef → Prop) : Request → Request → Prop
  | same (request : Request) : Request.Like R request request
  | execute {program program' : Block} (related : R (mainFunction program) (mainFunction program')) :
      Request.Like R (.execute program) (.execute program')
  | compile {f f' : FunctionDef} (related : R f f') : Request.Like R (.compile f) (.compile f')

/-- Sessions that go on alike, request by request and with the same bounds. -/
def SessionsLike (R : FunctionDef → FunctionDef → Prop) : List (Nat × Request) →
    List (Nat × Request) → Prop :=
  List.Forall₂ fun a b => a.1 = b.1 ∧ a.2.Like R b.2

theorem sessionsLike_refl (R : FunctionDef → FunctionDef → Prop) (requests : List (Nat × Request)) :
    SessionsLike R requests requests :=
  List.forall₂_same.mpr fun _ _ => ⟨rfl, .same _⟩

namespace Reference

variable {R : FunctionDef → FunctionDef → Prop}

theorem execute_same (exchange : Exchangeable R) (depth : Nat) {program program' : Block}
    (related : R (mainFunction program) (mainFunction program')) :
    SameRun R (execute depth program) (execute depth program') := by
  intro w w' like
  unfold execute
  rcases like.compile exchange.toSameInterface related with
    ⟨e, failed, failed'⟩ | ⟨main, made, made', done, done', like'⟩
  · simp only [failed, failed']
    exact .ends like
  · simp only [done, done']
    exact (invokeObject_same (enter_same exchange depth) main .undefined [] like').map _

theorem compile_same (exchange : Exchangeable R) (depth : Nat) {f f' : FunctionDef}
    (related : R f f') : SameRun R (serve depth (.compile f)) (serve depth (.compile f')) := by
  intro w w' like
  unfold serve
  rcases like.compile exchange.toSameInterface related with
    ⟨e, failed, failed'⟩ | ⟨id, made, made', done, done', like'⟩
  · simp only [failed, failed']
    exact .ends like
  · simp only [done, done']
    exact .ends like'

theorem serve_same (exchange : Exchangeable R) (depth : Nat) {request request' : Request}
    (alike : request.Like R request') : SameRun R (serve depth request) (serve depth request') := by
  cases alike with
  | execute related => exact execute_same exchange depth related
  | compile related => exact compile_same exchange depth related
  | same =>
    intro w w' like
    cases request with
    | execute program => exact execute_same exchange depth (exchange.refl _) like
    | document text =>
      cases parsed : Block.parse text with
      | error e => simpa only [serve, parsed] using .ends like
      | ok program =>
        simpa only [serve, parsed] using execute_same exchange depth (exchange.refl _) like
    | compile f => exact compile_same exchange depth (exchange.refl f) like
    | invoke id receiver args =>
      exact (invokeObject_same (enter_same exchange depth) id receiver args like).map _
    | enter entry receiver args => exact (enter_same exchange depth entry receiver args like).map _
    | create proto =>
      obtain ⟨functions, rfl, related⟩ := like
      exact .ends ⟨functions, rfl, related⟩
    | define owner name arity body =>
      obtain ⟨functions, rfl, related⟩ := like
      exact .ends ⟨functions, rfl, related⟩
    | register id key v =>
      obtain ⟨functions, rfl, related⟩ := like
      exact .ends ⟨functions, rfl, related⟩

theorem session_same (exchange : Exchangeable R) {requests requests' : List (Nat × Request)}
    (alike : SessionsLike R requests requests') :
    SameRun R (session requests) (session requests') := by
  induction alike with
  | nil => exact sameRun_pure []
  | @cons head head' rest rest' first _ ih =>
    obtain ⟨depth, request⟩ := head
    obtain ⟨_, request'⟩ := head'
    obtain ⟨rfl, first⟩ := first
    exact sameRun_bind (serve_same exchange depth first) fun answer =>
      sameRun_bind ih fun answers => sameRun_pure (answer :: answers)

end Reference

/-- What a run comes to: its result, the heap, the values kept for active invocations and the text
written. -/
def effects {α : Type} (r : Option (α × Machine)) : Option (α × Heap × Array Value × String) :=
  r.map fun r => (r.1, r.2.heap, r.2.roots.arena, r.2.output)

namespace Reference

variable {R : FunctionDef → FunctionDef → Prop}

theorem SameEnd.effects_eq {α : Type} {r r' : Option (α × Machine)}
    (same : SameEnd R (observed r) (observed r')) : effects r = effects r' := by
  match r, r' with
  | none, none => rfl
  | some (a, m), none => cases same
  | none, some (a', m') => cases same
  | some (a, m), some (a', m') =>
    simp only [observed, Option.map_some] at same
    obtain ⟨rfl, like⟩ : a = a' ∧ m.observe.Like R m'.observe := by
      cases same with
      | ends like => exact ⟨rfl, like⟩
    obtain ⟨functions, observed, -⟩ := like
    have heap : m'.heap = m.heap := congrArg World.heap observed
    have kept : m'.roots.arena = m.roots.arena := congrArg World.kept observed
    have output : m'.output = m.output := congrArg World.output observed
    simp only [effects, Option.map_some, heap, kept, output]

/-- A host cannot tell machines apart whose functions stand for each other. -/
theorem session_effects (exchange : Exchangeable R) {m m' : Machine} (sound : m.Sound)
    (sound' : m'.Sound) (like : m.observe.Like R m'.observe)
    {requests requests' : List (Nat × Request)} (alike : SessionsLike R requests requests') :
    effects (ScriptEngine.session requests m) = effects (ScriptEngine.session requests' m') := by
  apply SameEnd.effects_eq (R := R)
  rw [(session_refines requests m sound).observed_eq,
    (session_refines requests' m' sound').observed_eq]
  exact session_same exchange alike like

theorem World.Like.refl (exchange : Exchangeable R) (w : World) : w.Like R w :=
  ⟨w.functions, rfl, List.forall₂_same.mpr fun f _ => exchange.refl f⟩

/-- To compile one function or the other makes the same object of two machines that are alike. -/
theorem compile_exchange (exchange : Exchangeable R) {m m₁ : Machine} (sound : m.Sound)
    {f f' : FunctionDef} (related : R f f') {id : ObjectId} (done : m.compile f = .ok (id, m₁)) :
    ∃ m₁', m.compile f' = .ok (id, m₁') ∧ m₁.observe.Like R m₁'.observe := by
  have seen : m.observe.compile f = .ok (id, m₁.observe) := by
    rcases sound.compile f with ⟨e, failed, -⟩ | ⟨_, _, done', seen, -⟩
    · rw [failed] at done
      cases done
    · rw [done'] at done
      cases done
      exact seen
  rcases (World.Like.refl exchange m.observe).compile exchange.toSameInterface related with
    ⟨e, failed, -⟩ | ⟨_, _, made', first, second, like⟩
  · rw [failed] at seen
    cases seen
  · rw [first] at seen
    cases seen
    rcases sound.compile f' with ⟨e, -, failed⟩ | ⟨_, m₁', done', seen', -⟩
    · rw [failed] at second
      cases second
    · rw [seen'] at second
      cases second
      exact ⟨m₁', done', like⟩

/-- From when one function or the other has been compiled, a host is served alike. -/
theorem served_alike (exchange : Exchangeable R) {m m₁ : Machine} (reachable : m.Reachable)
    {f f' : FunctionDef} (related : R f f') {id : ObjectId} (done : m.compile f = .ok (id, m₁)) :
    ∃ m₁', m.compile f' = .ok (id, m₁') ∧
      ∀ requests requests', SessionsLike R requests requests' →
        effects (ScriptEngine.session requests m₁) =
          effects (ScriptEngine.session requests' m₁') := by
  obtain ⟨m₁', done', like⟩ := compile_exchange exchange reachable.sound related done
  have after := reachable.serve (serve_compile done)
  have after' := reachable.serve (serve_compile done')
  exact ⟨m₁', done', fun _ _ => session_effects exchange after.sound after'.sound like⟩

end Reference

end ScriptEngine
