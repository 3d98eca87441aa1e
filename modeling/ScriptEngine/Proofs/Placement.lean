import ScriptEngine.Proofs.Recording

/-!
# Activities and their accounts

The account of an activity and the activities inside it tell the same story. The acts of a part stand in
one piece in the account of the whole, and every visit in an account is the beginning of an activity
inside. On the way, every node that is begun is a node of the tree its unit was compiled from, and every
function that is entered has an entry that accepts the arguments.
-/

namespace ScriptEngine

section
variable {scope : Scope} {global : ObjectId} {E : Emission}

theorem LoweredAll.split {es : List Expr} {before after : List Code} {c : Code}
    (lowered : LoweredAll scope global E es (before ++ c :: after)) :
    ∃ first e, LoweredAll scope global E first before ∧ Lowered scope global E e c := by
  induction before generalizing es with
  | nil =>
    cases lowered with
    | cons head tail => exact ⟨[], _, .nil, head⟩
  | cons c' before ih =>
    cases lowered with
    | @cons e' _ _ _ head tail =>
      obtain ⟨first, e, lowered, here⟩ := ih tail
      exact ⟨e' :: first, e, .cons head lowered, here⟩

theorem LoweredEntries.split {es : List (String × Expr)} {before after : List (Code × FieldSite)}
    {c : Code} {site : FieldSite}
    (lowered : LoweredEntries scope global E es (before ++ (c, site) :: after)) :
    ∃ first e, LoweredEntries scope global E first before ∧ Lowered scope global E e c := by
  induction before generalizing es with
  | nil =>
    cases lowered with
    | cons head tail => exact ⟨[], _, .nil, head⟩
  | cons entry before ih =>
    cases lowered with
    | @cons key e' _ _ _ head tail =>
      obtain ⟨first, e, lowered, here⟩ := ih tail
      exact ⟨(key, e') :: first, e, .cons head lowered, here⟩

end

section
variable (inner : EnterAccount) {enter : Enter} {unit : UnitId}

theorem actsBody_leading {before after : List Code} {c : Code} {locals locals' : List Value}
    {m m' : Machine} (ran : evalBody enter unit before locals m = some (.next () locals', m')) :
    actsBody inner enter unit before locals m ++ actsCode inner enter unit c locals' m' <+:
      actsBody inner enter unit (before ++ c :: after) locals m := by
  rw [actsBody_append inner ran, actsBody]
  exact (List.prefix_append_right_inj _).mpr (List.prefix_append _ _)

theorem actsArgs_leading {before after : List Code} {c : Code} {locals locals' : List Value}
    {m m' : Machine} {vs : List Value}
    (ran : evalArgs enter unit before locals m = some (.next vs locals', m')) :
    actsArgs inner enter unit before locals m ++ actsCode inner enter unit c locals' m' <+:
      actsArgs inner enter unit (before ++ c :: after) locals m := by
  rw [actsArgs_append inner ran, actsArgs]
  exact (List.prefix_append_right_inj _).mpr (List.prefix_append _ _)

theorem actsEntries_leading {object : Value} {before after : List (Code × FieldSite)} {c : Code}
    {site : FieldSite} {locals locals' : List Value} {m m' : Machine}
    (ran : evalEntries enter unit object before locals m = some (.next () locals', m')) :
    actsEntries inner enter unit object before locals m ++ actsCode inner enter unit c locals' m' <+:
      actsEntries inner enter unit object (before ++ (c, site) :: after) locals m := by
  rw [actsEntries_append inner ran, actsEntries]
  exact (List.prefix_append_right_inj _).mpr (List.prefix_append _ _)

end

namespace Account

variable {α : Type} {first : Account} {x : Exec α} {rest : α → Account} {locals locals' : List Value}
  {m m' : Machine} {acts : List Act}

theorem prefix_andThen : first locals m <+: first.andThen x rest locals m := List.prefix_append _ _

theorem prefix_andThen_of_next {a : α} (ran : x locals m = some (.next a locals', m'))
    (inside : acts <+: rest a locals' m') :
    first locals m ++ acts <+: first.andThen x rest locals m := by
  rw [andThen_of_next ran]
  exact (List.prefix_append_right_inj _).mpr inside

end Account

/-- After the history `h`, the activity is one that may be begun: a node of a unit of the machine, or an
entry of one of its functions with as many arguments as it takes. -/
def Activity.Placed (hosts : NativeFunction → Prop) (h : List Act) : Activity → Prop
  | .node _ unit p => p.machine.Chronicle hosts h ∧ ∃ fresh e, p.machine.Holds unit fresh ∧
      Lowered fresh.scope fresh.global fresh.emission e p.code
  | .entry _ target _ args m => m.Chronicle hosts h ∧ target.Known hosts m ∧
      target.arity.check args.length = .ok ()

theorem Activity.Placed.chronicle {hosts : NativeFunction → Prop} {h : List Act} {a : Activity}
    (placed : a.Placed hosts h) : a.machine.Chronicle hosts h := by
  cases a with
  | node => exact placed.1
  | entry => exact placed.1

section
variable {hosts : NativeFunction → Prop} {h : List Act} {unit : UnitId} {fresh : CompiledUnit}

/-- The account of what ran to its end. -/
theorem Tells.next {α : Type} {x : Exec α} {account : Account} {locals locals' : List Value}
    {m m' : Machine} {a : α} (tells : Tells hosts unit fresh x account)
    (ran : x locals m = some (.next a locals', m')) (chronicle : m.Chronicle hosts h)
    (holds : m.Holds unit fresh) : Told hosts h m (account locals m) (some m') := by
  have told := tells h locals m chronicle holds
  rw [ran] at told
  exact told

theorem Told.holds {acts : List Act} {m m' : Machine} (told : Told hosts h m acts (some m'))
    (holds : m.Holds unit fresh) : m'.Chronicle hosts (h ++ acts) ∧ m'.Holds unit fresh := by
  obtain ⟨chronicle, leads⟩ := told.last m' rfl
  exact ⟨chronicle, leads.holds holds⟩

variable (hosts h unit fresh) in
/-- Among acts that begin on `m`, the node `q` of the unit is begun with its own acts. -/
def Begins (depth : Nat) (m : Machine) (acts : List Act) (q : Spot) : Prop :=
  ∃ before e, before ++ (Activity.node depth unit q).acts <+: acts ∧
    Told hosts h m before (some q.machine) ∧
    Lowered fresh.scope fresh.global fresh.emission e q.code

theorem begins_now {depth : Nat} {q : Spot} {e : Expr} {acts : List Act}
    (chronicle : q.machine.Chronicle hosts h)
    (inside : (Activity.node depth unit q).acts <+: acts)
    (lowered : Lowered fresh.scope fresh.global fresh.emission e q.code) :
    Begins hosts h unit fresh depth q.machine acts q :=
  ⟨[], e, inside, .still chronicle, lowered⟩

/-- A node is visited before its operands are begun. -/
theorem Begins.visiting {depth : Nat} {p q : Spot} {account : Account}
    (chronicle : p.machine.Chronicle hosts h) (holds : p.machine.Holds unit fresh)
    (plain : p.code.record? = none)
    (begins : p.machine.Chronicle hosts (h ++ [.visit unit p.code p.machine]) →
      Begins hosts (h ++ [.visit unit p.code p.machine]) unit fresh depth p.machine
        (account p.locals p.machine) q) :
    Begins hosts h unit fresh depth p.machine
      (Account.visiting unit p.code account p.locals p.machine) q := by
  obtain ⟨before, e, inside, told, lowered⟩ := begins (chronicle.visit holds.inside plain)
  refine ⟨.visit unit p.code p.machine :: before, e, ?_, .visit chronicle plain told, lowered⟩
  rw [List.cons_append, Account.visiting]
  exact List.cons_prefix_cons.mpr ⟨rfl, inside⟩

/-- An operand is begun among the acts of its node. -/
theorem Operand.begins {depth : Nat} {p q : Spot} (operand : Operand (enter depth) unit p q)
    (chronicle : p.machine.Chronicle hosts h) (holds : p.machine.Holds unit fresh) {e : Expr}
    (lowered : Lowered fresh.scope fresh.global fresh.emission e p.code) :
    Begins hosts h unit fresh depth p.machine (Activity.node depth unit p).acts q := by
  have enters := enter_tells hosts depth
  cases operand with
  | assigned =>
    cases lowered with
    | assign below found =>
      rw [Activity.acts, actsCode]
      refine Begins.visiting chronicle holds rfl fun visited => ?_
      exact begins_now visited List.prefix_rfl below
  | returned =>
    cases lowered with
    | ret below =>
      rw [Activity.acts, actsCode]
      refine Begins.visiting chronicle holds rfl fun visited => ?_
      exact begins_now visited List.prefix_rfl below
  | statement ran =>
    cases lowered with
    | block below =>
      obtain ⟨first, e', firsts, here⟩ := below.split
      rw [Activity.acts, actsCode]
      refine Begins.visiting chronicle holds rfl fun visited => ?_
      exact ⟨_, e', actsBody_leading _ ran,
        (evalBody_tells enters _ _ firsts).next ran visited holds, here⟩
  | condition =>
    cases lowered with
    | cond below first second =>
      rw [Activity.acts, actsCode]
      refine Begins.visiting chronicle holds rfl fun visited => ?_
      exact begins_now visited Account.prefix_andThen below
  | @arm condition c yes no before after v locals locals₁ locals' m m₁ m' tested chosen ran =>
    cases lowered with
    | cond below first second =>
      have arm : ∃ es, LoweredAll fresh.scope fresh.global fresh.emission es
          (before ++ c :: after) := by
        rw [← chosen]
        split
        · exact ⟨_, first⟩
        · exact ⟨_, second⟩
      obtain ⟨es, lowered⟩ := arm
      obtain ⟨before', e', firsts, here⟩ := lowered.split
      rw [Activity.acts, actsCode]
      refine Begins.visiting chronicle holds rfl fun visited => ?_
      have test := (evalCode_tells enters _ _ below).next tested visited holds
      have between := test.holds holds
      refine ⟨_, e', ?_, test.andThen
        ((evalBody_tells enters _ _ firsts).next ran between.1 between.2), here⟩
      rw [List.append_assoc]
      refine Account.prefix_andThen_of_next tested ?_
      have inside : _ <+: actsBody (enterActs depth) (enter depth) unit (before ++ c :: after)
          locals₁ m₁ := actsBody_leading _ ran
      rw [← chosen] at inside
      split at inside
      · rw [if_pos ‹_›]
        exact inside
      · rw [if_neg ‹_›]
        exact inside
  | @entry before after c site locals locals' m m' ran =>
    cases lowered with
    | object below =>
      obtain ⟨first, e', firsts, here⟩ := below.split
      rw [Activity.acts, actsCode]
      refine Begins.visiting chronicle holds rfl fun visited => ?_
      have create : Tells hosts unit fresh (Exec.fetch (·.newObject)) .silent :=
        tells_fetch fun h m chronicle _ => chronicle.newObject
      have made := create.next (Exec.fetch_eq (·.newObject) locals m) visited holds
      have between := made.holds holds
      refine ⟨_, e', ?_, made.andThen
        ((evalEntries_tells enters _ _ _ firsts).next ran between.1 between.2), here⟩
      rw [List.append_assoc]
      exact Account.prefix_andThen_of_next (Exec.fetch_eq (·.newObject) locals m)
        (actsEntries_leading _ ran)
  | readFrom =>
    cases lowered with
    | field below =>
      rw [Activity.acts, actsCode]
      refine Begins.visiting chronicle holds rfl fun visited => ?_
      exact begins_now visited List.prefix_rfl below
  | writtenTo =>
    cases lowered with
    | setField below other =>
      rw [Activity.acts, actsCode]
      refine Begins.visiting chronicle holds rfl fun visited => ?_
      exact begins_now visited Account.prefix_andThen below
  | written into =>
    cases lowered with
    | setField below other =>
      rw [Activity.acts, actsCode]
      refine Begins.visiting chronicle holds rfl fun visited => ?_
      exact ⟨_, _, Account.prefix_andThen_of_next into List.prefix_rfl,
        (evalCode_tells enters _ _ below).next into visited holds, other⟩
  | callee =>
    cases lowered with
    | call below rest wanted count =>
      rw [Activity.acts, actsCode]
      refine Begins.visiting chronicle holds rfl fun visited => ?_
      exact begins_now visited Account.prefix_andThen below
  | argument called ran =>
    cases lowered with
    | call below given wanted count =>
      obtain ⟨before', e', firsts, here⟩ := given.split
      rw [Activity.acts, actsCode]
      refine Begins.visiting chronicle holds rfl fun visited => ?_
      have first := (evalCode_tells enters _ _ below).next called visited holds
      have between := first.holds holds
      refine ⟨_, e', ?_, first.andThen
        ((evalArgs_tells enters _ _ firsts).next ran between.1 between.2), here⟩
      rw [List.append_assoc]
      exact Account.prefix_andThen_of_next called
        ((actsArgs_leading _ ran).trans Account.prefix_andThen)
  | receiver =>
    cases lowered with
    | method below rest =>
      rw [Activity.acts, actsCode]
      refine Begins.visiting chronicle holds rfl fun visited => ?_
      exact begins_now visited Account.prefix_andThen below
  | methodArgument self ran =>
    cases lowered with
    | method below given =>
      obtain ⟨before', e', firsts, here⟩ := given.split
      rw [Activity.acts, actsCode]
      refine Begins.visiting chronicle holds rfl fun visited => ?_
      have first := (evalCode_tells enters _ _ below).next self visited holds
      have between := first.holds holds
      refine ⟨_, e', ?_, first.andThen
        ((evalArgs_tells enters _ _ firsts).next ran between.1 between.2), here⟩
      rw [List.append_assoc]
      exact Account.prefix_andThen_of_next self
        ((actsArgs_leading _ ran).trans Account.prefix_andThen)

/-- A call site finds functions of the machine that take the arguments. -/
theorem Machine.Chronicle.dispatch_found {m m' : Machine} (chronicle : m.Chronicle hosts h)
    (holds : m.Holds unit fresh) {place : Nat} {site : CallSite}
    (wanted : fresh.sites.calls[place]? = some site) {callee : Value} {target : Callable}
    (found : m.dispatchCall unit place site.argCount callee = (.ok target, m')) :
    target.Known hosts m' ∧ target.arity.check site.argCount = .ok () := by
  obtain ⟨m'', dispatched, -, leads⟩ := chronicle.sound.dispatchCall holds wanted callee
  rw [found] at dispatched
  obtain ⟨result, rfl⟩ := Prod.mk.inj dispatched
  cases resolved : m.heap.resolveCallee callee site.argCount with
  | error e => simp [resolved, Except.map] at result
  | ok pair =>
    obtain ⟨id, entry⟩ := pair
    obtain rfl : target = entry := by simpa [resolved, Except.map] using result
    obtain ⟨-, callable, checked⟩ := (m.heap.resolveCallee_ok_iff _ _ _ _).mp resolved
    exact ⟨(chronicle.entries id target callable).leads leads, checked⟩

/-- When callee and arguments of a call are there, its site is one of the unit and meant for as many
arguments. -/
theorem call_ready {depth : Nat} {callee : Code} {args : List Code} {place : Nat} {f : Value}
    {vs locals locals₁ locals' : List Value} {m m₁ m₂ : Machine}
    (placed : (Activity.node depth unit ⟨.call callee args place, locals, m⟩).Placed hosts h)
    (called : evalCode (enter depth) unit callee locals m = some (.next f locals₁, m₁))
    (given : evalArgs (enter depth) unit args locals₁ m₁ = some (.next vs locals', m₂)) :
    ∃ acts fresh site, Told hosts h m acts (some m₂) ∧ m₂.Holds unit fresh ∧
      fresh.sites.calls[place]? = some site ∧ vs.length = site.argCount ∧
      ∀ rest, rest <+: callActs (enterActs depth) unit place f .undefined vs m₂ →
        acts ++ rest <+: (Activity.node depth unit ⟨.call callee args place, locals, m⟩).acts := by
  obtain ⟨chronicle, fresh, e, holds, lowered⟩ := placed
  have enters := enter_tells hosts depth
  cases lowered with
  | call below rest wanted count =>
    have visited := chronicle.visit holds.inside
      (show (Code.call callee args place).record? = none from rfl)
    have first := (evalCode_tells enters _ _ below).next called visited holds
    have between := first.holds holds
    have second := (evalArgs_tells enters _ _ rest).next given between.1 between.2
    have fits := evalArgs_yields (enter depth) unit args _ _ _ _ _ given
    refine ⟨_, fresh, _, .visit chronicle rfl (first.andThen second), (second.holds between.2).2,
      wanted, fits.trans (rest.length_eq.trans count.symm), fun acts inside => ?_⟩
    rw [Activity.acts, actsCode, Account.visiting, List.cons_append]
    refine List.cons_prefix_cons.mpr ⟨rfl, ?_⟩
    rw [List.append_assoc]
    exact Account.prefix_andThen_of_next called (Account.prefix_andThen_of_next given inside)

/-- What a host function has done on its way stands at the beginning of its acts. -/
theorem reaches_told {depth : Nat} {p q : HostProgram} {m m' : Machine}
    (reaches : HostProgram.Reaches (enter depth) p m q m') (chronicle : m.Chronicle hosts h) :
    ∃ before, before ++ actsProgram (enterActs depth) (enter depth) q m' <+:
        actsProgram (enterActs depth) (enter depth) p m ∧
      m'.Chronicle hosts (h ++ before) ∧ m.Leads m' := by
  induction reaches generalizing h with
  | here => exact ⟨[], List.prefix_rfl, by simpa using chronicle, chronicle.sound.refl⟩
  | @step s _ _ _ _ _ _ performed _ ih =>
    have told := perform_told (enter_tells hosts depth) chronicle s
    rw [performed] at told
    obtain ⟨chronicle₁, leads⟩ := told.last _ rfl
    obtain ⟨before, inside, chronicle', further⟩ := ih chronicle₁
    refine ⟨_ ++ before, ?_, by rwa [← List.append_assoc], leads.trans further⟩
    rw [actsProgram_of_performed _ performed, List.append_assoc]
    exact (List.prefix_append_right_inj _).mpr inside

/-- Whatever is a part of an activity in its place is in its place too, and its acts stand among those of
the whole. -/
theorem Part.told {a b : Activity} (part : Part a b) (placed : a.Placed hosts h) :
    ∃ before, before ++ b.acts <+: a.acts ∧ b.Placed hosts (h ++ before) ∧
      a.machine.Leads b.machine := by
  cases part with
  | operand operand =>
    obtain ⟨chronicle, fresh, e, holds, lowered⟩ := placed
    obtain ⟨before, e', inside, told, here⟩ := operand.begins chronicle holds lowered
    obtain ⟨chronicle', leads⟩ := told.last _ rfl
    exact ⟨before, inside, ⟨chronicle', fresh, e', leads.holds holds, here⟩, leads⟩
  | @call depth unit callee args place f vs locals locals₁ locals' m m₁ m₂ m' target called given
      found =>
    obtain ⟨acts, fresh, site, told, holds, wanted, fits, inside⟩ := call_ready placed called given
    obtain ⟨ready, -⟩ := told.last m₂ rfl
    have looked := dispatch_told ready holds wanted f fits
    obtain ⟨known, checked⟩ := ready.dispatch_found holds wanted (fits ▸ found)
    rw [found] at looked
    obtain ⟨chronicle, leads⟩ := (told.andThen looked).last m' rfl
    refine ⟨_, ?_, ⟨chronicle, known, fits ▸ checked⟩, leads⟩
    rw [List.append_assoc]
    apply inside
    simp only [callActs, found, Activity.acts]
    exact List.prefix_rfl
  | @method depth unit receiver args site r vs locals locals₁ locals' m m₁ m' id target self given
      resolved callable fits =>
    obtain ⟨chronicle, fresh, e, holds, lowered⟩ := placed
    have enters := enter_tells hosts depth
    cases lowered with
    | @method _ name _ _ _ _ argCount below rest =>
      have visited := chronicle.visit holds.inside
        (show (Code.method receiver args { name, argCount }).record? = none from rfl)
      have first := (evalCode_tells enters _ _ below).next self visited holds
      have between := first.holds holds
      have second := (evalArgs_tells enters _ _ rest).next given between.1 between.2
      have told := Told.visit chronicle rfl (first.andThen second)
      obtain ⟨chronicle', leads⟩ := told.last m' rfl
      refine ⟨_, ?_, ⟨chronicle', chronicle'.entries id target callable, fits⟩, leads⟩
      rw [Activity.acts, actsCode, Account.visiting, List.cons_append]
      refine List.cons_prefix_cons.mpr ⟨rfl, ?_⟩
      rw [List.append_assoc]
      refine Account.prefix_andThen_of_next self (Account.prefix_andThen_of_next given ?_)
      simp only [methodActs, resolved, invokeActs, callable, fits, Activity.acts]
      exact List.prefix_rfl
  | @body depth unit name params receiver args locals' m m' u before after c found count split ran =>
    obtain ⟨chronicle, -⟩ := placed
    obtain ⟨fresh, holds, -, lowered⟩ := chronicle.sound.holds found
    rw [split] at lowered
    obtain ⟨first, e, firsts, here⟩ := lowered.split
    have told := (evalBody_tells (enter_tells hosts depth) _ _ firsts).next ran chronicle holds
    obtain ⟨chronicle', leads⟩ := told.last m' rfl
    refine ⟨_, ?_, ⟨chronicle', fresh, e, leads.holds holds, here⟩, leads⟩
    simp only [Activity.acts, enterActs, found, count, ne_eq, not_true_eq_false, if_false, split]
    exact actsBody_leading _ ran
  | host reaches callable fits =>
    obtain ⟨chronicle, -⟩ := placed
    obtain ⟨before, inside, chronicle', leads⟩ := reaches_told reaches chronicle
    refine ⟨before, ?_, ⟨chronicle', chronicle'.entries _ _ callable, fits⟩, leads⟩
    refine List.IsPrefix.trans ?_ inside
    rw [List.prefix_append_right_inj, actsProgram]
    simp only [actsStep, invokeActs, callable, fits]
    exact List.prefix_append _ _

/-- Whatever is begun on the way is in its place, and its acts stand among those of the whole. -/
theorem Within.told {start a : Activity} {frames : List Frame} (within : Within start frames a)
    (placed : start.Placed hosts h) :
    ∃ before, before ++ a.acts <+: start.acts ∧ a.Placed hosts (h ++ before) ∧
      start.machine.Leads a.machine := by
  induction within with
  | start =>
    exact ⟨[], List.prefix_rfl, by simpa using placed, placed.chronicle.sound.refl⟩
  | part _ part ih =>
    obtain ⟨before, inside, placed', leads⟩ := ih
    obtain ⟨between, inside', placed'', further⟩ := part.told placed'
    refine ⟨before ++ between, ?_, by rwa [← List.append_assoc], leads.trans further⟩
    rw [List.append_assoc]
    exact ((List.prefix_append_right_inj before).mpr inside').trans inside

end

theorem Account.mem_andThen {α : Type} {first : Account} {x : Exec α} {rest : α → Account}
    {locals : List Value} {m : Machine} {act : Act} (member : act ∈ first.andThen x rest locals m) :
    act ∈ first locals m ∨ ∃ a locals' m', x locals m = some (.next a locals', m') ∧
      act ∈ rest a locals' m' := by
  rw [Account.andThen] at member
  rcases List.mem_append.mp member with here | later
  · exact Or.inl here
  · split at later
    · rename_i a locals' m' ran
      exact Or.inr ⟨a, locals', m', ran, later⟩
    · cases later

section
variable {inner : EnterAccount} {enter : Enter} {unit : UnitId} {act : Act} {m : Machine}

theorem mem_actsBody {codes : List Code} {locals : List Value}
    (member : act ∈ actsBody inner enter unit codes locals m) :
    ∃ before c after locals' m', codes = before ++ c :: after ∧
      evalBody enter unit before locals m = some (.next () locals', m') ∧
      act ∈ actsCode inner enter unit c locals' m' := by
  induction codes generalizing locals m with
  | nil =>
    rw [actsBody] at member
    cases member
  | cons c rest ih =>
    rw [actsBody] at member
    rcases Account.mem_andThen member with here | ⟨v, locals₁, m₁, first, later⟩
    · exact ⟨[], c, rest, locals, m, rfl, by rw [evalBody]; rfl, here⟩
    · obtain ⟨before, c', after, locals', m', rfl, ran, inside⟩ := ih later
      exact ⟨c :: before, c', after, locals', m', rfl,
        by rw [evalBody, Exec.bind_eq_of_next first, ran], inside⟩

theorem mem_actsArgs {codes : List Code} {locals : List Value}
    (member : act ∈ actsArgs inner enter unit codes locals m) :
    ∃ before c after vs locals' m', codes = before ++ c :: after ∧
      evalArgs enter unit before locals m = some (.next vs locals', m') ∧
      act ∈ actsCode inner enter unit c locals' m' := by
  induction codes generalizing locals m with
  | nil =>
    rw [actsArgs] at member
    cases member
  | cons c rest ih =>
    rw [actsArgs] at member
    rcases Account.mem_andThen member with here | ⟨v, locals₁, m₁, first, later⟩
    · exact ⟨[], c, rest, [], locals, m, rfl, by rw [evalArgs]; rfl, here⟩
    · obtain ⟨before, c', after, vs, locals', m', rfl, ran, inside⟩ := ih later
      refine ⟨c :: before, c', after, v :: vs, locals', m', rfl, ?_, inside⟩
      rw [evalArgs, Exec.bind_eq_of_next first, Exec.bind_eq_of_next ran]
      rfl

theorem mem_actsEntries {object : Value} {entries : List (Code × FieldSite)} {locals : List Value}
    (member : act ∈ actsEntries inner enter unit object entries locals m) :
    ∃ before c site after locals' m', entries = before ++ (c, site) :: after ∧
      evalEntries enter unit object before locals m = some (.next () locals', m') ∧
      act ∈ actsCode inner enter unit c locals' m' := by
  induction entries generalizing locals m with
  | nil =>
    rw [actsEntries] at member
    cases member
  | cons entry rest ih =>
    obtain ⟨c, site⟩ := entry
    rw [actsEntries] at member
    rcases Account.mem_andThen member with here | ⟨v, locals₁, m₁, first, later⟩
    · exact ⟨[], c, site, rest, locals, m, rfl, by rw [evalEntries]; rfl, here⟩
    · rcases Account.mem_andThen later with none | ⟨w, locals₂, m₂, write, last⟩
      · cases none
      · obtain ⟨before, c', site', after, locals', m', rfl, ran, inside⟩ := ih last
        refine ⟨(c, site) :: before, c', site', after, locals', m', rfl, ?_, inside⟩
        rw [evalEntries, Exec.bind_eq_of_next first, Exec.bind_eq_of_next write, ran]

end

theorem mem_invokeActs {inner : EnterAccount} {act : Act} {id : ObjectId} {receiver : Value}
    {args : List Value} {m : Machine} (member : act ∈ invokeActs inner id receiver args m) :
    ∃ target, m.heap.callable? id = some target ∧ target.arity.check args.length = .ok () ∧
      act ∈ inner target receiver args m := by
  rw [invokeActs] at member
  split at member
  · cases member
  · rename_i target found
    split at member
    · cases member
    · rename_i fits
      exact ⟨target, found, fits, member⟩

/-- An act of a host function is one of a function that it invokes. -/
theorem mem_actsProgram {inner : EnterAccount} {enter : Enter} {p : HostProgram} {m : Machine}
    {act : Act} (member : act ∈ actsProgram inner enter p m) :
    ∃ id r vs next m' target, HostProgram.Reaches enter p m (.step (.invoke id r vs) next) m' ∧
      m'.heap.callable? id = some target ∧ target.arity.check vs.length = .ok () ∧
      act ∈ inner target r vs m' := by
  induction p generalizing m with
  | done result => cases member
  | step s next ih =>
    rw [actsProgram] at member
    rcases List.mem_append.mp member with here | later
    · cases s with
      | invoke id r vs =>
        obtain ⟨target, found, fits, entered⟩ := mem_invokeActs here
        exact ⟨id, r, vs, next, m, target, .here, found, fits, entered⟩
      | _ => cases here
    · split at later
      · rename_i answer m₁ performed
        obtain ⟨id, r, vs, next', m', target, reaches, inside⟩ := ih answer later
        exact ⟨id, r, vs, next', m', target, .step performed reaches, inside⟩
      · cases later

/-- The act is one of the activity itself and not of its parts. -/
inductive Activity.Does : Activity → Act → Prop
  | visit {depth : Nat} {unit : UnitId} {code : Code} {locals : List Value} {m : Machine} :
      Does (.node depth unit ⟨code, locals, m⟩) (.visit unit code m)
  | dispatch {depth : Nat} {unit : UnitId} {callee : Code} {args : List Code} {site : Nat}
      {f : Value} {vs locals locals₁ locals' : List Value} {m m₁ m₂ : Machine}
      (called : evalCode (enter depth) unit callee locals m = some (.next f locals₁, m₁))
      (given : evalArgs (enter depth) unit args locals₁ m₁ = some (.next vs locals', m₂)) :
      Does (.node depth unit ⟨.call callee args site, locals, m⟩)
        (.dispatch unit site f vs.length m₂)

/-- An act of a node is its own or one of its parts. -/
theorem mem_actsCode {depth : Nat} {unit : UnitId} {p : Spot} {act : Act}
    (member : act ∈ (Activity.node depth unit p).acts) :
    (Activity.node depth unit p).Does act ∨
      ∃ b, Part (.node depth unit p) b ∧ act ∈ b.acts := by
  obtain ⟨start, locals, m₀⟩ := p
  -- the first act is the visit of the node, and nearly all others belong to parts
  have own : ∀ account : Account, act ∈ Account.visiting unit start account locals m₀ →
      (act ∈ account locals m₀ → (Activity.node depth unit ⟨start, locals, m₀⟩).Does act ∨
        ∃ b, Part (.node depth unit ⟨start, locals, m₀⟩) b ∧ act ∈ b.acts) →
      (Activity.node depth unit ⟨start, locals, m₀⟩).Does act ∨
        ∃ b, Part (.node depth unit ⟨start, locals, m₀⟩) b ∧ act ∈ b.acts := by
    intro account member others
    rcases List.mem_cons.mp member with first | later
    · exact Or.inl (first ▸ .visit)
    · exact others later
  rw [Activity.acts] at member
  cases start with
  | int | text | load | loadGlobal | function =>
    rw [actsCode] at member
    exact own _ member fun none => nomatch none
  | store slot value =>
    rw [actsCode] at member
    exact own _ member fun inside => Or.inr ⟨_, .operand .assigned, inside⟩
  | ret value =>
    rw [actsCode] at member
    exact own _ member fun inside => Or.inr ⟨_, .operand .returned, inside⟩
  | block body =>
    rw [actsCode] at member
    refine own _ member fun inside => ?_
    obtain ⟨before, c, after, locals', m', rfl, ran, here⟩ := mem_actsBody inside
    exact Or.inr ⟨_, .operand (.statement ran), here⟩
  | branch condition yes no =>
    rw [actsCode] at member
    refine own _ member fun inside => ?_
    rcases Account.mem_andThen inside with here | ⟨v, locals₁, m₁, tested, later⟩
    · exact Or.inr ⟨_, .operand .condition, here⟩
    · have chosen : act ∈ actsBody (enterActs depth) (enter depth) unit
          (if v.truth then yes else no) locals₁ m₁ := by
        split at later
        · rwa [if_pos ‹_›]
        · rwa [if_neg ‹_›]
      obtain ⟨before, c, after, locals', m', split, ran, here⟩ := mem_actsBody chosen
      exact Or.inr ⟨_, .operand (.arm tested split ran), here⟩
  | object entries =>
    rw [actsCode] at member
    refine own _ member fun inside => ?_
    rcases Account.mem_andThen inside with none | ⟨object, locals₁, m₁, made, later⟩
    · cases none
    · cases made
      obtain ⟨before, c, site, after, locals', m', rfl, ran, here⟩ := mem_actsEntries later
      exact Or.inr ⟨_, .operand (.entry ran), here⟩
  | getField receiver site =>
    rw [actsCode] at member
    exact own _ member fun inside => Or.inr ⟨_, .operand .readFrom, inside⟩
  | setField receiver value site =>
    rw [actsCode] at member
    refine own _ member fun inside => ?_
    rcases Account.mem_andThen inside with here | ⟨r, locals', m', into, later⟩
    · exact Or.inr ⟨_, .operand .writtenTo, here⟩
    · exact Or.inr ⟨_, .operand (.written into), later⟩
  | call callee args site =>
    rw [actsCode] at member
    refine own _ member fun inside => ?_
    rcases Account.mem_andThen inside with here | ⟨f, locals₁, m₁, called, later⟩
    · exact Or.inr ⟨_, .operand .callee, here⟩
    · rcases Account.mem_andThen later with given | ⟨vs, locals', m₂, given, last⟩
      · obtain ⟨before, c, after, vs, locals', m', rfl, ran, here⟩ := mem_actsArgs given
        exact Or.inr ⟨_, .operand (.argument called ran), here⟩
      · rw [callActs] at last
        rcases List.mem_cons.mp last with looked | entered
        · exact Or.inl (looked ▸ .dispatch called given)
        · split at entered
          · rename_i target m' found
            exact Or.inr ⟨_, .call called given found, entered⟩
          · cases entered
  | method receiver args site =>
    rw [actsCode] at member
    refine own _ member fun inside => ?_
    rcases Account.mem_andThen inside with here | ⟨r, locals₁, m₁, self, later⟩
    · exact Or.inr ⟨_, .operand .receiver, here⟩
    · rcases Account.mem_andThen later with given | ⟨vs, locals', m', given, last⟩
      · obtain ⟨before, c, after, vs, locals', m', rfl, ran, here⟩ := mem_actsArgs given
        exact Or.inr ⟨_, .operand (.methodArgument self ran), here⟩
      · rw [methodActs] at last
        split at last
        · rename_i method resolved
          obtain ⟨target, found, fits, entered⟩ := mem_invokeActs last
          exact Or.inr ⟨_, .method self given resolved found fits, entered⟩
        · cases last

/-- The acts of an invocation are those of a statement or of the function it calls. -/
theorem mem_enterActs {depth : Nat} {target : Callable} {receiver : Value} {args : List Value}
    {m₀ : Machine} {act : Act} (member : act ∈ (Activity.entry depth target receiver args m₀).acts) :
    ∃ b, Part (.entry depth target receiver args m₀) b ∧ act ∈ b.acts := by
  rw [Activity.acts] at member
  cases depth with
  | zero => cases member
  | succ depth =>
    cases target with
    | compiled unit name params =>
      rw [enterActs] at member
      split at member
      · cases member
      · rename_i u found
        split at member
        · cases member
        · rename_i count
          obtain ⟨before, c, after, locals', m', split, ran, here⟩ := mem_actsBody member
          exact ⟨_, .body found (not_not.mp count) split ran, here⟩
    | native f =>
      rw [enterActs] at member
      obtain ⟨id, r, vs, next, m', target, reaches, found, fits, entered⟩ := mem_actsProgram member
      exact ⟨_, .host reaches found fits, entered⟩

/-- How far an activity is from the end of all nesting. -/
noncomputable def Activity.rank : Activity → Nat × Nat
  | .node depth _ p => (2 * depth + 1, sizeOf p.code)
  | .entry depth _ _ _ _ => (2 * depth, 0)

theorem Part.rank_lt {a b : Activity} (part : Part a b) :
    Prod.Lex (· < ·) (· < ·) b.rank a.rank := by
  cases part with
  | operand operand => exact .right _ operand.smaller
  | call | method => exact .left _ _ (Nat.lt_succ_self _)
  | body | host => exact .left _ _ (by omega)

theorem Within.trans {start a b : Activity} {frames frames' : List Frame}
    (outer : Within start frames a) (within : Within a frames' b) :
    Within start (frames ++ frames') b := by
  induction within with
  | start => simpa using outer
  | part _ part ih =>
    rw [← List.append_assoc]
    exact ih.part part

/-- An act in the account of an activity is one of an activity that is begun on the way. -/
theorem Within.of_act {act : Act} (a : Activity) (member : act ∈ a.acts) :
    ∃ frames b, Within a frames b ∧ b.Does act := by
  have inside : a.Does act ∨ ∃ b, Part a b ∧ act ∈ b.acts := by
    cases a with
    | node => exact mem_actsCode member
    | entry => exact Or.inr (mem_enterActs member)
  rcases inside with own | ⟨b, part, member'⟩
  · exact ⟨[], a, .start, own⟩
  · obtain ⟨frames, c, within, does⟩ := of_act b member'
    exact ⟨_, c, (Within.start.part part).trans within, does⟩
termination_by a.rank
decreasing_by exact part.rank_lt

theorem Activity.Does.mem {a : Activity} {act : Act} (does : a.Does act) : act ∈ a.acts := by
  cases does with
  | @visit depth unit code locals m =>
    cases code <;> rw [Activity.acts, actsCode] <;> exact List.mem_cons_self
  | dispatch called given =>
    rw [Activity.acts, actsCode, Account.visiting, Account.andThen_of_next called,
      Account.andThen_of_next given, callActs]
    simp

/-- The account of an activity lists the acts of exactly those activities that are begun on the way. -/
theorem mem_acts_iff {hosts : NativeFunction → Prop} {h : List Act} {a : Activity}
    (placed : a.Placed hosts h) (act : Act) :
    act ∈ a.acts ↔ ∃ frames b, Within a frames b ∧ b.Does act := by
  constructor
  · exact Within.of_act a
  · rintro ⟨frames, b, within, does⟩
    obtain ⟨before, inside, -⟩ := within.told placed
    exact inside.subset (List.mem_append_right before does.mem)

end ScriptEngine
