import ScriptEngine.Proofs.Literals

/-!
# The call sites of a unit

A unit has one call site for each call in its body, in the order of the body: after the sites of the calls
in its callee and its arguments. The state of a site is determined by the functions that were resolved at
this very node, in whatever invocation of the unit; nothing else that is called has any effect on it. The
number of sites and of constants is that of the body and never changes.
-/

namespace ScriptEngine

/-- Each call in the list stands right after the calls in its callee and in its arguments. -/
def CallsInOrder (ns : List Node) : Prop :=
  ∀ before after callee args line, ns.filterMap Node.call? =
      before ++ .call callee args line :: after →
    (callee.nodes ++ nodesAll args).filterMap Node.call? <:+ before

namespace CallsInOrder

theorem append {ns ns' : List Node} (first : CallsInOrder ns) (second : CallsInOrder ns') :
    CallsInOrder (ns ++ ns') := by
  intro before after callee args line split
  rw [List.filterMap_append] at split
  rcases List.append_eq_append_iff.mp split with ⟨rest, rfl, here⟩ | ⟨rest, here, tail⟩
  · exact (second rest after callee args line here).trans (List.suffix_append _ rest)
  · cases rest with
    | nil =>
      have none : (callee.nodes ++ nodesAll args).filterMap Node.call? <:+ [] :=
        second [] after callee args line tail.symm
      rw [List.suffix_nil.mp none]
      exact List.nil_suffix
    | cons c rest =>
      obtain ⟨rfl, -⟩ := List.cons.inj tail
      exact first before rest callee args line here

theorem nil : CallsInOrder [] := by
  intro before after callee args line split
  simp at split

theorem plain {n : Node} (other : n.call? = none) : CallsInOrder [n] := by
  intro before after callee args line split
  simp [other] at split

/-- A call after all calls inside it. -/
theorem call {callee : Expr} {args : List Expr} (first : CallsInOrder callee.nodes)
    (rest : CallsInOrder (nodesAll args)) (line : UInt32) :
    CallsInOrder (callee.nodes ++ (nodesAll args ++ [.expr (.call callee args line)])) := by
  rw [← List.append_assoc]
  intro before after callee' args' line' split
  rw [List.filterMap_append] at split
  rcases List.eq_nil_or_concat after with rfl | ⟨after, last, rfl⟩
  · obtain ⟨rfl, same⟩ := List.append_inj' split rfl
    cases same
    exact List.suffix_rfl
  · rw [List.concat_eq_append, ← List.cons_append, ← List.append_assoc] at split
    obtain ⟨inner, -⟩ := List.append_inj' split rfl
    exact first.append rest before after callee' args' line' inner

end CallsInOrder

mutual

theorem Expr.callsInOrder : (e : Expr) → CallsInOrder e.nodes
  | .block body => by
    rw [Expr.nodes]
    exact body.callsInOrder.append (.plain rfl)
  | .literal value line => .plain rfl
  | .call callee args line => by
    rw [Expr.nodes]
    exact .call callee.callsInOrder (nodesAll_callsInOrder args) line
  | .var name line => .plain rfl
  | .assign name value declares line => by
    rw [Expr.nodes]
    exact value.callsInOrder.append (.plain rfl)
  | .function name params body line => .plain rfl
  | .ret value line => by
    rw [Expr.nodes]
    exact value.callsInOrder.append (.plain rfl)
  | .cond condition yes no line => by
    rw [Expr.nodes]
    exact condition.callsInOrder.append
      (yes.callsInOrder.append (no.callsInOrder.append (.plain rfl)))
  | .object entries line => by
    rw [Expr.nodes]
    exact (nodesEntries_callsInOrder entries).append (.plain rfl)
  | .field receiver name line => by
    rw [Expr.nodes]
    exact receiver.callsInOrder.append (.plain rfl)
  | .setField receiver name value line => by
    rw [Expr.nodes]
    exact receiver.callsInOrder.append (value.callsInOrder.append (.plain rfl))
  | .method receiver name args line => by
    rw [Expr.nodes]
    exact receiver.callsInOrder.append ((nodesAll_callsInOrder args).append (.plain rfl))

theorem Block.callsInOrder : (b : Block) → CallsInOrder b.nodes
  | .mk instrs line => by
    rw [Block.nodes]
    exact nodesAll_callsInOrder instrs

theorem nodesAll_callsInOrder : (es : List Expr) → CallsInOrder (nodesAll es)
  | [] => .nil
  | e :: es => by
    rw [nodesAll]
    exact e.callsInOrder.append (nodesAll_callsInOrder es)

theorem nodesEntries_callsInOrder : (es : List (String × Expr)) → CallsInOrder (nodesEntries es)
  | [] => .nil
  | (key, e) :: es => by
    rw [nodesEntries]
    exact e.callsInOrder.append
      (CallsInOrder.append (.plain rfl) (nodesEntries_callsInOrder es))

end

/-- The calls inside a call come right before it. -/
theorem FunctionDef.calls_inside (f : FunctionDef) {i : Nat} {callee : Expr} {args : List Expr}
    {line : UInt32} (listed : f.calls[i]? = some (.call callee args line)) :
    (callee.nodes ++ nodesAll args).filterMap Node.call? <:+ f.calls.take i := by
  obtain ⟨inside, here⟩ := List.getElem?_eq_some_iff.mp listed
  apply f.body.callsInOrder (f.calls.take i) (f.calls.drop (i + 1)) callee args line
  rw [← here, ← List.drop_eq_getElem_cons inside, List.take_append_drop]
  rfl

namespace CompiledUnit.Follows

variable {h : List Act} {unit : UnitId} {u fresh : CompiledUnit} {heap : Heap} {cacheDepth : Nat}

theorem regimes_length (follows : u.Follows h unit fresh heap)
    (compiled : u.definition.compile cacheDepth = .ok fresh) :
    u.regimes.length = u.definition.calls.length := by
  have sizes : u.sites.calls.size = fresh.sites.calls.size := by
    have all := follows.sizes
    simp only [SiteTable.sizes, List.cons.injEq] at all
    exact all.2.2.2.2.1
  have listed := congrArg List.length (FunctionDef.compile_calls compiled)
  rw [List.length_map, Array.length_toList] at listed
  rw [CompiledUnit.regimes, Array.length_toList, Array.size_map, sizes, listed]

/-- A site is in the regime of the functions resolved at it. -/
theorem regime (follows : u.Follows h unit fresh heap)
    (compiled : u.definition.compile cacheDepth = .ok fresh) {i : Nat}
    (inside : i < u.definition.calls.length) :
    u.regimes[i]? =
      some (CallSite.regimeOf cacheDepth (resolvedAt h unit i).toFinset.card) := by
  have wanted : fresh.sites.calls[i]? = some
      { argCount := u.definition.calls[i].argCount, maxDepth := cacheDepth } := by
    rw [← Array.getElem?_toList, FunctionDef.compile_calls compiled, List.getElem?_map,
      List.getElem?_eq_getElem inside, Option.map_some]
  obtain ⟨used, held, events, valid⟩ := follows.calls i _ wanted
  have regime : used.regime = _ := valid.regime_eq
  rw [CompiledUnit.regimes, Array.getElem?_toList, Array.getElem?_map, held, Option.map_some, regime,
    CallSite.Life.count, List.toFinset_reverse]

end CompiledUnit.Follows

theorem Act.resolves?_eq_some_iff (act : Act) (unit : UnitId) (site : Nat) (id : ObjectId) :
    act.resolves? unit site = some id ↔ ∃ f argCount m target,
      act = .dispatch unit site f argCount m ∧ m.heap.resolveCallee f argCount = .ok (id, target) := by
  cases act with
  | visit u code m => simp [resolves?]
  | dispatch u i f argCount m =>
    by_cases here : u = unit ∧ i = site
    · obtain ⟨rfl, rfl⟩ := here
      cases resolved : m.heap.resolveCallee f argCount with
      | error e =>
        simp only [resolves?, and_self, if_true, resolved, Except.toOption, Option.map_none,
          reduceCtorEq, false_iff, not_exists, not_and]
        intro f' argCount' m' target same
        cases same
        simp [resolved]
      | ok pair =>
        simp only [resolves?, and_self, if_true, resolved, Except.toOption, Option.map_some,
          Option.some.injEq]
        constructor
        · rintro rfl
          exact ⟨f, argCount, m, pair.2, rfl, resolved⟩
        · rintro ⟨f', argCount', m', target, same, resolved'⟩
          cases same
          rw [resolved] at resolved'
          cases resolved'
          rfl
    · simp only [resolves?, here, if_false, reduceCtorEq, false_iff, not_exists, not_and]
      intro f' argCount' m' target same
      cases same
      exact absurd ⟨rfl, rfl⟩ here

/-- On the way through the activity the call with the number `site` in the unit resolves a function. -/
inductive Activity.Resolves (a : Activity) (unit : UnitId) (site : Nat) (id : ObjectId) : Prop
  | at_node {frames : List Frame} {depth : Nat} {callee : Code} {args : List Code} {f : Value}
      {vs locals locals₁ locals' : List Value} {m m₁ m₂ : Machine} {target : Callable}
      (within : Within a frames (.node depth unit ⟨.call callee args site, locals, m⟩))
      (called : evalCode (enter depth) unit callee locals m = some (.next f locals₁, m₁))
      (given : evalArgs (enter depth) unit args locals₁ m₁ = some (.next vs locals', m₂))
      (resolved : m₂.heap.resolveCallee f vs.length = .ok (id, target))

theorem mem_resolvedAt_iff {hosts : NativeFunction → Prop} {h : List Act} {a : Activity}
    (placed : a.Placed hosts h) (unit : UnitId) (site : Nat) (id : ObjectId) :
    id ∈ resolvedAt a.acts unit site ↔ a.Resolves unit site id := by
  simp only [resolvedAt, List.mem_filterMap, mem_acts_iff placed, Act.resolves?_eq_some_iff]
  constructor
  · rintro ⟨act, ⟨frames, b, within, does⟩, f, argCount, m, target, rfl, resolved⟩
    cases does with
    | dispatch called given => exact .at_node within called given resolved
  · rintro ⟨within, called, given, resolved⟩
    exact ⟨_, ⟨_, _, within, .dispatch called given⟩, _, _, _, _, rfl, resolved⟩

/-- What was called since leaves a site as it was, unless something new was resolved at its node. -/
theorem Machine.Chronicle.unit_later {hosts : NativeFunction → Prop} {h acts : List Act}
    {m m' : Machine} (before : m.Chronicle hosts h) (after : m'.Chronicle hosts (h ++ acts))
    (leads : m.Leads m') {unit : UnitId} {u : CompiledUnit} (found : m.units[unit]? = some u) :
    ∃ u', m'.units[unit]? = some u' ∧ u'.sites.size = u.sites.size ∧
      u'.sites.constants = u.sites.constants ∧
      ∀ i, (∀ id ∈ resolvedAt acts unit i, id ∈ resolvedAt h unit i) →
        u'.regimes[i]? = u.regimes[i]? := by
  obtain ⟨fresh, compiled, -, follows⟩ := before.unit_compiled found
  obtain ⟨u', found', same⟩ :=
    Option.map_eq_some_iff.mp (leads.units unit u.definition (by rw [found]; rfl))
  obtain ⟨fresh', compiled', -, follows'⟩ := after.unit_compiled found'
  rw [same, leads.cacheDepth, compiled] at compiled'
  obtain rfl := Except.ok.inj compiled'
  refine ⟨u', found', ?_, follows'.constants.trans follows.constants.symm, fun i known => ?_⟩
  · rw [SiteTable.size_eq, SiteTable.size_eq, follows'.sizes, follows.sizes]
  · by_cases inside : i < u.definition.calls.length
    · have set : (resolvedAt (h ++ acts) unit i).toFinset = (resolvedAt h unit i).toFinset := by
        rw [resolvedAt_append, List.toFinset_append, Finset.union_eq_left]
        intro id new
        exact List.mem_toFinset.mpr (known id (List.mem_toFinset.mp new))
      rw [follows.regime compiled inside, follows'.regime (by rw [same]; exact compiled)
        (by rw [same]; exact inside), set]
    · rw [List.getElem?_eq_none, List.getElem?_eq_none]
      · rw [follows.regimes_length compiled]
        exact Nat.le_of_not_lt inside
      · rw [follows'.regimes_length (by rw [same]; exact compiled), same]
        exact Nat.le_of_not_lt inside

/-- At every moment of every run the call sites of a unit are those of the calls in its body, in order, and
the regime of each is that of the number of different functions resolved at it so far. A request of the
host changes only the regimes of calls that resolve something new on the way. -/
theorem regimes_follow_calls {h : List Act} {m : Machine} (seen : m.Seen h) :
    (∀ unit u, m.units[unit]? = some u →
      u.regimes.length = u.definition.calls.length ∧
      (codeNodes u.code).filterMap Code.callSite? = List.range u.definition.calls.length ∧
      List.Forall₂ (fun e code =>
          code.callSite?.bind (u.definition.calls[·]?) = (Node.expr e).call?)
        (u.definition.nodes.filterMap Node.expr?) (codeNodes u.code) ∧
      (∀ i callee args line, u.definition.calls[i]? = some (.call callee args line) →
        (callee.nodes ++ nodesAll args).filterMap Node.call? <:+ u.definition.calls.take i) ∧
      (∀ i, i < u.definition.calls.length → u.regimes[i]? =
        some (CallSite.regimeOf m.cacheDepth (resolvedAt h unit i).toFinset.card)) ∧
      u.sites.size = u.definition.siteCount ∧
      u.sites.constants.length = u.definition.texts.toFinset.card) ∧
    (∀ start, m.Starts start → ∀ unit i id,
      id ∈ resolvedAt start.acts unit i ↔ start.Resolves unit i id) ∧
    (∀ unit u, m.units[unit]? = some u →
      (∀ depth request answer m', serve depth request m = some (answer, m') →
        ∃ u', m'.units[unit]? = some u' ∧ u'.sites.size = u.sites.size ∧
          u'.sites.constants = u.sites.constants ∧
          ∀ i, (∀ id ∈ resolvedAt (serveActs depth request m) unit i, id ∈ resolvedAt h unit i) →
            u'.regimes[i]? = u.regimes[i]?) ∧
      ∀ (site : CallSite) depth callee receiver args result site' m',
        site.invoke depth callee receiver args m = some ((result, site'), m') →
        ∃ u', m'.units[unit]? = some u' ∧ u'.sites.size = u.sites.size ∧
          u'.sites.constants = u.sites.constants ∧
          ∀ i, (∀ id ∈ resolvedAt (site.invokeActs depth callee receiver args m) unit i,
              id ∈ resolvedAt h unit i) →
            u'.regimes[i]? = u.regimes[i]?) := by
  have chronicle := seen.chronicle
  refine ⟨?_, ?_, ?_⟩
  · intro unit u found
    obtain ⟨fresh, compiled, code, follows⟩ := chronicle.unit_compiled found
    rw [code]
    refine ⟨follows.regimes_length compiled, (FunctionDef.compile_numbered compiled).1,
      FunctionDef.compile_call_places compiled, ?_, ?_, ?_, ?_⟩
    · intro i callee args line listed
      exact u.definition.calls_inside listed
    · intro i inside
      exact follows.regime compiled inside
    · rw [SiteTable.size_eq, follows.sizes, ← SiteTable.size_eq,
        FunctionDef.compile_siteCount compiled]
    · rw [follows.constants, (FunctionDef.compile_constants compiled).2]
  · intro start starts unit i id
    exact mem_resolvedAt_iff (starts.placed chronicle) unit i id
  · intro unit u found
    constructor
    · intro depth request answer m' served
      obtain ⟨after, leads⟩ :=
        (serve_told chronicle depth request).last m' (by rw [served]; rfl)
      exact chronicle.unit_later after leads found
    · intro site depth callee receiver args result site' m' called
      obtain ⟨after, leads⟩ := (CallSite.invoke_told chronicle site depth callee receiver args).last
        m' (by rw [called]; rfl)
      exact chronicle.unit_later after leads found

/-- A function with a call inside a call, and one more after it has returned. -/
def callInCall : FunctionDef where
  name := some "f"
  params := []
  body := .mk [.call (.var "print" 1)
      [.call (.var "+" 1) [.literal (.int 1) 1, .literal (.text "a") 1] 1] 1,
    .ret (.literal (.int 1) 2) 2,
    .call (.var "print" 3) [] 3] 1
  global := Machine.global

/-- After one run of it the inner call, the outer call and the dead call have their regimes in this
order. -/
theorem regimes_follow_calls_dead :
    let acts := serveActs 3 (.invoke 13 .undefined []) (bootWith callInCall)
    ∃ (m : Machine) (u : CompiledUnit), m.Recorded acts ∧ m.units[0]? = some u ∧
      u.regimes = [.monomorphic, .monomorphic, .unlinked] ∧ u.sites.size = 6 ∧
      u.sites.constants.length = 1 := by
  intro acts
  have resolved : resolvedAt acts 0 0 = [1] ∧ resolvedAt acts 0 1 = [12] ∧ resolvedAt acts 0 2 = [] := by
    decide +kernel
  have ends : (serve 3 (.invoke 13 .undefined []) (bootWith callInCall)).map (·.2.cacheDepth) =
      some 3 := by
    decide +kernel
  obtain ⟨⟨answer, m⟩, served, depth⟩ := Option.map_eq_some_iff.mp ends
  obtain ⟨recorded, u, found, definition⟩ := bootWith_serve (f := callInCall) rfl served
  have recorded : m.Recorded acts := recorded
  obtain ⟨units, -⟩ := regimes_follow_calls (.rest recorded)
  obtain ⟨count, -, -, -, regimes, sites, constants⟩ := units 0 u found
  have calls : u.definition.calls.length = 3 := by rw [definition]; rfl
  refine ⟨m, u, recorded, found, ?_, ?_, ?_⟩
  · have depth : m.cacheDepth = 3 := depth
    have first := regimes 0 (by omega)
    have second := regimes 1 (by omega)
    have third := regimes 2 (by omega)
    rw [resolved.1, depth] at first
    rw [resolved.2.1, depth] at second
    rw [resolved.2.2, depth] at third
    obtain ⟨a, b, c, three⟩ := List.length_eq_three.mp (count.trans calls)
    rw [three] at first second third ⊢
    rw [Option.some.inj first, Option.some.inj second, Option.some.inj third]
    rfl
  · rw [sites, definition]
    decide
  · rw [constants, definition]
    decide

end ScriptEngine
