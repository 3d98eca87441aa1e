import ScriptEngine.Proofs.Chronicle

/-!
# Every account is true

The account of a run agrees with what the run does to the machine: at each act, and at the end, the
machine is what the acts up to there have made of it. This is shown once for each operation and each kind
of node, and holds then for every invocation, every request of a host and every session.
-/

namespace ScriptEngine

/-- Each act happens on a machine that the acts before it have made. -/
def Orderly (hosts : NativeFunction → Prop) : List Act → List Act → Prop
  | _, [] => True
  | h, act :: acts => act.machine.Chronicle hosts h ∧ Orderly hosts (h ++ [act]) acts

theorem orderly_append {hosts : NativeFunction → Prop} {h acts acts' : List Act} :
    Orderly hosts h (acts ++ acts') ↔
      Orderly hosts h acts ∧ Orderly hosts (h ++ acts) acts' := by
  induction acts generalizing h with
  | nil => simp [Orderly]
  | cons act acts ih =>
    simp only [List.cons_append, Orderly, ih, and_assoc, List.append_assoc, List.nil_append]

/-- The machine once the act is done. A literal is evaluated as soon as it is visited. -/
def Act.next : Act → Machine
  | .visit unit (.function id _) m => (m.makeFunction unit id).2
  | act => act.machine

theorem Act.next_visit {code : Code} (plain : code.record? = none) (unit : UnitId) (m : Machine) :
    (Act.visit unit code m).next = m := by
  cases code with
  | function => cases plain
  | _ => rfl

/-- The act has been done before the machine is reached. -/
structure Act.Precedes (act : Act) (m : Machine) : Prop where
  begun : act.machine.Leads m
  done : act.next.Leads m

theorem Act.Precedes.trans {act : Act} {m m' : Machine} (precedes : act.Precedes m)
    (leads : m.Leads m') : act.Precedes m' :=
  ⟨precedes.begun.trans leads, precedes.done.trans leads⟩

/-- The acts come one after the other, after `m` and before the machine that is left. -/
structure Successive (m : Machine) (acts : List Act) (last? : Option Machine) : Prop where
  begins : ∀ act ∈ acts, m.Leads act.machine
  later : acts.Pairwise fun first second => first.Precedes second.machine
  ends : ∀ m', last? = some m' → ∀ act ∈ acts, act.Precedes m'

theorem successive_nil (m : Machine) (last? : Option Machine) : Successive m [] last? :=
  ⟨by simp, .nil, by simp⟩

theorem successive_single {m : Machine} {act : Act} (sound : m.Sound) (here : act.machine = m)
    {m' : Machine} (precedes : act.Precedes m') : Successive m [act] (some m') := by
  refine ⟨?_, List.pairwise_singleton _ _, ?_⟩
  · intro act' member
    rw [List.mem_singleton.mp member, here]
    exact sound.refl
  · rintro m'' ⟨⟩ act' member
    rw [List.mem_singleton.mp member]
    exact precedes

theorem Successive.andThen {m m' : Machine} {acts acts' : List Act} {last? : Option Machine}
    (first : Successive m acts (some m')) (leads : m.Leads m')
    (second : Successive m' acts' last?) (further : ∀ m'', last? = some m'' → m'.Leads m'') :
    Successive m (acts ++ acts') last? := by
  refine ⟨?_, ?_, ?_⟩
  · intro act member
    rcases List.mem_append.mp member with earlier | later
    · exact first.begins act earlier
    · exact leads.trans (second.begins act later)
  · refine List.pairwise_append.mpr ⟨first.later, second.later, ?_⟩
    intro act earlier act' later
    exact (first.ends m' rfl act earlier).trans (second.begins act' later)
  · intro m'' ended act member
    rcases List.mem_append.mp member with earlier | later
    · exact (first.ends m' rfl act earlier).trans (further m'' ended)
    · exact second.ends m'' ended act later

/-- After the history `h` the acts happen in order, beginning on `m`; the machine that is left, if the
run ends, is what all of them have made. -/
structure Told (hosts : NativeFunction → Prop) (h : List Act) (m : Machine) (acts : List Act)
    (last? : Option Machine) : Prop where
  orderly : Orderly hosts h acts
  last : ∀ m', last? = some m' → m'.Chronicle hosts (h ++ acts) ∧ m.Leads m'
  successive : Successive m acts last?

section
variable {hosts : NativeFunction → Prop} {h acts acts' : List Act} {m m' : Machine}
  {last? : Option Machine}

theorem Told.stuck : Told hosts h m [] none := ⟨trivial, by simp, successive_nil m none⟩

theorem Told.moved (chronicle : m'.Chronicle hosts h) (leads : m.Leads m') :
    Told hosts h m [] (some m') := by
  refine ⟨trivial, ?_, successive_nil m _⟩
  rintro m'' ⟨⟩
  rw [List.append_nil]
  exact ⟨chronicle, leads⟩

theorem Told.still (chronicle : m.Chronicle hosts h) : Told hosts h m [] (some m) :=
  .moved chronicle chronicle.sound.refl

theorem Told.at (told : Told hosts h m acts last?) {before after : List Act} {act : Act}
    (split : acts = before ++ act :: after) : act.machine.Chronicle hosts (h ++ before) := by
  have orderly := told.orderly
  rw [split] at orderly
  exact (orderly_append.mp orderly).2.1

/-- One account after the other. -/
theorem Told.andThen (first : Told hosts h m acts (some m'))
    (second : Told hosts (h ++ acts) m' acts' last?) : Told hosts h m (acts ++ acts') last? := by
  obtain ⟨-, leads⟩ := first.last m' rfl
  refine ⟨orderly_append.mpr ⟨first.orderly, second.orderly⟩, ?_,
    first.successive.andThen leads second.successive fun m'' ended => (second.last m'' ended).2⟩
  intro m'' ended
  obtain ⟨chronicle, further⟩ := second.last m'' ended
  rw [← List.append_assoc]
  exact ⟨chronicle, leads.trans further⟩

/-- What happens last is outside of the units and no act. -/
theorem Told.finally {f : Machine → Machine} (told : Told hosts h m acts last?)
    (quiet : ∀ m' h', m'.Chronicle hosts h' → (f m').Chronicle hosts h' ∧ m'.Leads (f m')) :
    Told hosts h m acts (last?.map f) := by
  refine ⟨told.orderly, ?_, told.successive.begins, told.successive.later, ?_⟩
  · intro m'' ended
    obtain ⟨m', ended', rfl⟩ := Option.map_eq_some_iff.mp ended
    obtain ⟨chronicle, leads⟩ := told.last m' ended'
    obtain ⟨chronicle', further⟩ := quiet m' _ chronicle
    exact ⟨chronicle', leads.trans further⟩
  · intro m'' ended act member
    obtain ⟨m', ended', rfl⟩ := Option.map_eq_some_iff.mp ended
    have further := (quiet m' _ (told.last m' ended').1).2
    exact (told.successive.ends m' ended' act member).trans further

/-- A node is visited, and the rest is told from there. -/
theorem Told.visit (chronicle : m.Chronicle hosts h) {unit : UnitId} {code : Code}
    (plain : code.record? = none) (told : Told hosts (h ++ [.visit unit code m]) m acts last?) :
    Told hosts h m (.visit unit code m :: acts) last? := by
  have first : Successive m [.visit unit code m] (some m) :=
    successive_single chronicle.sound rfl
      ⟨chronicle.sound.refl, by rw [Act.next_visit plain]; exact chronicle.sound.refl⟩
  refine ⟨⟨chronicle, told.orderly⟩, ?_, first.andThen chronicle.sound.refl told.successive
    fun m' ended => (told.last m' ended).2⟩
  intro m' ended
  have last := told.last m' ended
  rwa [List.append_assoc] at last

end

namespace Machine

variable {hosts : NativeFunction → Prop} {h : List Act} {m : Machine}

theorem Chronicle.root (chronicle : m.Chronicle hosts h) (v : Value) :
    (m.root v).Chronicle hosts h ∧ m.Leads (m.root v) :=
  have leads := chronicle.sound.root v
  ⟨chronicle.quiet leads rfl (.refl _), leads⟩

theorem Chronicle.park (chronicle : m.Chronicle hosts h) (e : RuntimeError) :
    (m.park e).Chronicle hosts h ∧ m.Leads (m.park e) :=
  have leads := chronicle.sound.park e
  ⟨chronicle.quiet leads rfl (.refl _), leads⟩

theorem Chronicle.release (chronicle : m.Chronicle hosts h) (mark : Nat) :
    (m.release mark).Chronicle hosts h ∧ m.Leads (m.release mark) :=
  have leads := chronicle.sound.release mark
  ⟨chronicle.quiet leads rfl (.refl _), leads⟩

theorem Chronicle.takeParked (chronicle : m.Chronicle hosts h) :
    m.takeParked.2.Chronicle hosts h ∧ m.Leads m.takeParked.2 :=
  have leads := chronicle.sound.takeParked
  ⟨chronicle.quiet leads rfl (.refl _), leads⟩

theorem Chronicle.log? (chronicle : m.Chronicle hosts h) (event : Option Event) :
    (m.log? event).Chronicle hosts h ∧ m.Leads (m.log? event) :=
  have leads := chronicle.sound.log? event
  ⟨chronicle.quiet leads (by simp) (by rw [log?_heap]; exact .refl _), leads⟩

theorem Chronicle.create (chronicle : m.Chronicle hosts h) (proto : Option ObjectId) :
    Chronicle hosts h { m with heap := (m.heap.newObject proto).2 } ∧
      m.Leads { m with heap := (m.heap.newObject proto).2 } :=
  have leads : m.Leads { m with heap := (m.heap.newObject proto).2 } :=
    chronicle.sound.leads_heap rfl (m.heap.newObject_grows proto) rfl
  ⟨chronicle.quiet leads rfl (m.heap.newObject_entries proto), leads⟩

theorem Chronicle.newObject (chronicle : m.Chronicle hosts h) :
    m.newObject.2.Chronicle hosts h ∧ m.Leads m.newObject.2 :=
  chronicle.create none

theorem Chronicle.register (chronicle : m.Chronicle hosts h) (id : ObjectId) (key : String)
    (v : Value) :
    Chronicle hosts h { m with heap := m.heap.register id key v } ∧
      m.Leads { m with heap := m.heap.register id key v } :=
  have leads := chronicle.sound.register id key v
  ⟨chronicle.quiet leads rfl (m.heap.register_entries id key v), leads⟩

theorem Chronicle.setField (chronicle : m.Chronicle hosts h) (site : FieldSite)
    (receiver value : Value) :
    (m.setField site receiver value).2.Chronicle hosts h ∧
      m.Leads (m.setField site receiver value).2 := by
  cases receiver with
  | object id => exact chronicle.register id site.name value
  | _ => exact ⟨chronicle, chronicle.sound.refl⟩

theorem Chronicle.print (chronicle : m.Chronicle hosts h) (args : List Value) :
    (m.print args).2.Chronicle hosts h ∧ m.Leads (m.print args).2 := by
  have leads : m.Leads (m.print args).2 := (chronicle.sound.print args).leads rfl
  refine ⟨chronicle.quiet leads ?_ ?_, leads⟩
  · rw [Machine.print]
    split <;> rfl
  · rw [Machine.print]
    split <;> exact .refl _

end Machine

/-- As part of the unit `unit` that was compiled to `fresh`, the code `x` does what the account says. -/
def Tells {α : Type} (hosts : NativeFunction → Prop) (unit : UnitId) (fresh : CompiledUnit)
    (x : Exec α) (account : Account) : Prop :=
  ∀ (h : List Act) (locals : List Value) (m : Machine), m.Chronicle hosts h → m.Holds unit fresh →
    Told hosts h m (account locals m) ((x locals m).map (·.2))

/-- Entering a callable does what the account says. -/
def EnterTells (hosts : NativeFunction → Prop) (enter : Enter) (inner : EnterAccount) : Prop :=
  ∀ (h : List Act) (m : Machine) (target : Callable) (receiver : Value) (args : List Value),
    m.Chronicle hosts h →
      Told hosts h m (inner target receiver args m) ((enter target receiver args m).map (·.2))

theorem Account.andThen_silent {α : Type} (first : Account) (x : Exec α) :
    (first.andThen x fun _ => .silent) = first := by
  funext locals m
  simp only [Account.andThen, Account.silent]
  split <;> exact List.append_nil _

section
variable {α β : Type} {hosts : NativeFunction → Prop} {unit : UnitId} {fresh : CompiledUnit}

theorem tells_pure (a : α) : Tells hosts unit fresh (pure a) .silent :=
  fun _ _ _ chronicle _ => .still chronicle

theorem tells_leave (v : Value) : Tells hosts unit fresh (Exec.leave v : Exec α) .silent :=
  fun _ _ _ chronicle _ => .still chronicle

theorem tells_load (slot : Nat) : Tells hosts unit fresh (Exec.load slot) .silent :=
  fun _ _ _ chronicle _ => .still chronicle

theorem tells_store (slot : Nat) (v : Value) :
    Tells hosts unit fresh (Exec.store slot v) .silent :=
  fun _ _ _ chronicle _ => .still chronicle

theorem tells_bind_yields {x : Exec α} {f : α → Exec β} {first : Account} {rest : α → Account}
    {P : α → Prop} (left : Tells hosts unit fresh x first) (yields : x.Yields P)
    (right : ∀ a, P a → Tells hosts unit fresh (f a) (rest a)) :
    Tells hosts unit fresh (x >>= f) (first.andThen x rest) := by
  intro h locals m chronicle holds
  have told := left h locals m chronicle holds
  change Told hosts h m _ ((Exec.bind x f locals m).map (·.2))
  cases ran : x locals m with
  | none =>
    rw [ran] at told
    simp only [Exec.bind, Account.andThen, ran, List.append_nil]
    exact told
  | some r =>
    obtain ⟨flow, m'⟩ := r
    rw [ran] at told
    cases flow with
    | next a locals' =>
      obtain ⟨chronicle', leads⟩ := told.last m' rfl
      simp only [Exec.bind, Account.andThen, ran]
      exact told.andThen
        (right a (yields locals m a locals' m' ran) _ locals' m' chronicle' (leads.holds holds))
    | returned v =>
      simp only [Exec.bind, Account.andThen, ran, List.append_nil]
      exact told
    | aborted =>
      simp only [Exec.bind, Account.andThen, ran, List.append_nil]
      exact told

theorem tells_bind {x : Exec α} {f : α → Exec β} {first : Account} {rest : α → Account}
    (left : Tells hosts unit fresh x first) (right : ∀ a, Tells hosts unit fresh (f a) (rest a)) :
    Tells hosts unit fresh (x >>= f) (first.andThen x rest) :=
  tells_bind_yields left (fun _ _ _ _ _ _ => trivial) fun a _ => right a

/-- No act happens after `x`. -/
theorem tells_then {x : Exec α} {f : α → Exec β} {account : Account}
    (left : Tells hosts unit fresh x account) (right : ∀ a, Tells hosts unit fresh (f a) .silent) :
    Tells hosts unit fresh (x >>= f) account := by
  rw [← account.andThen_silent x]
  exact tells_bind left right

theorem tells_visiting {x : Exec α} {account : Account} {code : Code} (plain : code.record? = none)
    (tells : Tells hosts unit fresh x account) :
    Tells hosts unit fresh x (.visiting unit code account) := by
  intro h locals m chronicle holds
  exact .visit chronicle plain (tells _ locals m (chronicle.visit holds.inside plain) holds)

theorem tells_fetch {f : Machine → Value × Machine}
    (works : ∀ (h : List Act) (m : Machine), m.Chronicle hosts h → m.Holds unit fresh →
      (f m).2.Chronicle hosts h ∧ m.Leads (f m).2) :
    Tells hosts unit fresh (Exec.fetch f) .silent := by
  intro h locals m chronicle holds
  obtain ⟨chronicle', leads⟩ := works h m chronicle holds
  obtain ⟨rooted, further⟩ := chronicle'.root (f m).1
  exact .moved rooted (leads.trans further)

theorem tells_act {f : Machine → Machine}
    (works : ∀ (h : List Act) (m : Machine), m.Chronicle hosts h → m.Holds unit fresh →
      (f m).Chronicle hosts h ∧ m.Leads (f m)) :
    Tells hosts unit fresh (Exec.act f) .silent := by
  intro h locals m chronicle holds
  obtain ⟨chronicle', leads⟩ := works h m chronicle holds
  exact .moved chronicle' leads

theorem tells_attempt {r : Run (Except RuntimeError Value)} {acts : Machine → List Act}
    (works : ∀ (h : List Act) (m : Machine), m.Chronicle hosts h → m.Holds unit fresh →
      Told hosts h m (acts m) ((r m).map (·.2))) :
    Tells hosts unit fresh (Exec.attempt r) fun _ m => acts m := by
  intro h locals m chronicle holds
  have told := works h m chronicle holds
  cases tried : r m with
  | none =>
    rw [tried] at told
    simp only [Exec.attempt, tried]
    exact told
  | some result =>
    obtain ⟨outcome, m'⟩ := result
    rw [tried] at told
    cases outcome with
    | ok v =>
      simp only [Exec.attempt, tried]
      exact told.finally (f := (·.root v)) fun m' h' chronicle => chronicle.root v
    | error e =>
      simp only [Exec.attempt, tried]
      exact told.finally (f := (·.park e)) fun m' h' chronicle => chronicle.park e

/-- An operation that calls no function. -/
theorem tells_attempt_silent {f : Machine → Except RuntimeError Value × Machine}
    (works : ∀ (h : List Act) (m : Machine), m.Chronicle hosts h → m.Holds unit fresh →
      (f m).2.Chronicle hosts h ∧ m.Leads (f m).2) :
    Tells hosts unit fresh (Exec.attempt fun m => some (f m)) .silent :=
  tells_attempt fun h m chronicle holds =>
    have done := works h m chronicle holds
    .moved done.1 done.2

/-- The visit of a literal is its evaluation. -/
theorem tells_makeFunction {id : Nat} {f : FunctionDef}
    (recorded : fresh.registry.records.lookup id = some f) (registration : Option (String × Nat)) :
    Tells hosts unit fresh (Exec.attempt fun m => some (m.makeFunction unit id))
      (.visiting unit (.function id registration) .silent) := by
  change Tells hosts unit fresh _ fun _ m => [Act.visit unit (.function id registration) m]
  refine tells_attempt fun h m chronicle holds => ?_
  obtain ⟨chronicle', leads⟩ := chronicle.makeFunction holds recorded registration
  refine ⟨⟨chronicle, trivial⟩, ?_,
    successive_single chronicle.sound rfl ⟨leads, chronicle'.sound.refl⟩⟩
  rintro m' ⟨⟩
  exact ⟨chronicle', leads⟩

end

section
variable {hosts : NativeFunction → Prop} {enter : Enter} {inner : EnterAccount} {h : List Act}
  {m : Machine}

theorem invokeObject_told (enters : EnterTells hosts enter inner) (chronicle : m.Chronicle hosts h)
    (id : ObjectId) (receiver : Value) (args : List Value) :
    Told hosts h m (invokeActs inner id receiver args m)
      ((invokeObject enter id receiver args m).map (·.2)) := by
  rw [invokeActs, invokeObject]
  cases found : m.heap.callable? id with
  | none => exact .still chronicle
  | some target =>
    dsimp only
    cases checked : target.arity.check args.length with
    | error e => exact .still chronicle
    | ok _ => exact enters h m target receiver args chronicle

theorem callMethod_told (enters : EnterTells hosts enter inner) (chronicle : m.Chronicle hosts h)
    (site : MethodSite) (receiver : Value) (args : List Value) :
    Told hosts h m (methodActs inner site receiver args m)
      ((callMethod enter site receiver args m).map (·.2)) := by
  rw [methodActs, callMethod]
  cases resolved : site.resolve m.heap receiver with
  | error e => exact .still chronicle
  | ok method => exact invokeObject_told enters chronicle method receiver args

/-- A call is looked up at a site of a unit. -/
theorem dispatch_told (chronicle : m.Chronicle hosts h) {unit : UnitId} {fresh : CompiledUnit}
    (holds : m.Holds unit fresh) {place : Nat} {site : CallSite}
    (wanted : fresh.sites.calls[place]? = some site) (callee : Value) {argCount : Nat}
    (fits : argCount = site.argCount) :
    Told hosts h m [.dispatch unit place callee argCount m]
      (some (m.dispatchCall unit place argCount callee).2) := by
  subst argCount
  have dispatched := chronicle.dispatchCall holds wanted callee
  refine ⟨⟨chronicle, trivial⟩, ?_,
    successive_single chronicle.sound rfl ⟨dispatched.2, dispatched.2⟩⟩
  rintro m' ⟨⟩
  exact dispatched

theorem callAt_told (enters : EnterTells hosts enter inner) (chronicle : m.Chronicle hosts h)
    {unit : UnitId} {fresh : CompiledUnit} (holds : m.Holds unit fresh) {place : Nat}
    {site : CallSite} (wanted : fresh.sites.calls[place]? = some site) (callee receiver : Value)
    {args : List Value} (fits : args.length = site.argCount) :
    Told hosts h m (callActs inner unit place callee receiver args m)
      ((callAt enter unit place callee receiver args m).map (·.2)) := by
  have looked := dispatch_told chronicle holds wanted callee fits
  rw [callActs, callAt]
  cases found : m.dispatchCall unit place args.length callee with
  | mk target m' =>
    rw [found] at looked
    cases target with
    | error e => exact looked
    | ok target => exact looked.andThen (enters _ m' target receiver args (looked.last m' rfl).1)

end

section
variable {hosts : NativeFunction → Prop} {enter : Enter} {inner : EnterAccount} {unit : UnitId}
  {fresh : CompiledUnit}

mutual

/-- Every node does what its account says. The induction is on the tree, one case for each kind of
node. -/
theorem evalCode_tells (enters : EnterTells hosts enter inner) : (e : Expr) → (code : Code) →
    Lowered fresh.scope fresh.global fresh.emission e code →
    Tells hosts unit fresh (evalCode enter unit code) (actsCode inner enter unit code)
  | .block (.mk instrs line), _, .block body => by
    rw [evalCode, actsCode]
    exact tells_visiting rfl (tells_then (evalBody_tells enters instrs _ body) fun _ => tells_pure _)
  | .literal (.int n) line, _, .int => by
    rw [evalCode, actsCode]
    exact tells_visiting rfl (tells_pure _)
  | .literal (.text s) line, _, .text => by
    rw [evalCode, actsCode]
    exact tells_visiting rfl (tells_pure _)
  | .call callee args line, .call code codes place, .call first rest wanted count => by
    rw [evalCode, actsCode]
    refine tells_visiting rfl (tells_bind (evalCode_tells enters callee _ first) fun f =>
      tells_bind_yields (evalArgs_tells enters args _ rest) (evalArgs_yields enter unit codes)
        fun vs length_eq => tells_attempt fun h m chronicle holds => ?_)
    exact callAt_told enters chronicle holds wanted f .undefined
      (length_eq.trans (rest.length_eq.trans count.symm))
  | .var name line, _, .load found => by
    rw [evalCode, actsCode]
    exact tells_visiting rfl (tells_load _)
  | .var name line, _, .loadGlobal free wanted => by
    rw [evalCode, actsCode]
    exact tells_visiting rfl
      (tells_fetch fun h m chronicle holds => chronicle.lookupGlobal holds wanted)
  | .assign name value declares line, _, .assign lowered found => by
    rw [evalCode, actsCode]
    exact tells_visiting rfl (tells_then (evalCode_tells enters value _ lowered) fun v =>
      tells_then (tells_store _ v) fun _ => tells_pure _)
  | .function none params body line, _, .function recorded => by
    rw [evalCode, actsCode]
    exact tells_then (tells_makeFunction recorded none) fun v => tells_pure _
  | .function (some name) params body line, _, .named recorded wanted => by
    rw [evalCode, actsCode]
    exact tells_then (tells_makeFunction recorded _) fun v =>
      tells_then (tells_act fun h m chronicle holds => chronicle.registerGlobal holds wanted v)
        fun _ => tells_pure _
  | .ret value line, _, .ret lowered => by
    rw [evalCode, actsCode]
    exact tells_visiting rfl
      (tells_then (evalCode_tells enters value _ lowered) fun v => tells_leave v)
  | .cond condition (.mk yes yesLine) (.mk no noLine) line, _, .cond lowered first second => by
    rw [evalCode, actsCode]
    refine tells_visiting rfl (tells_bind (evalCode_tells enters condition _ lowered) fun v => ?_)
    cases v.truth with
    | true => exact tells_then (evalBody_tells enters yes _ first) fun _ => tells_pure _
    | false => exact tells_then (evalBody_tells enters no _ second) fun _ => tells_pure _
  | .object entries line, _, .object lowered => by
    rw [evalCode, actsCode]
    exact tells_visiting rfl (tells_bind (tells_fetch fun h m chronicle _ => chronicle.newObject)
      fun object => tells_then (evalEntries_tells enters object entries _ lowered) fun _ =>
        tells_pure _)
  | .field receiver name line, _, .field lowered => by
    rw [evalCode, actsCode]
    exact tells_visiting rfl (tells_then (evalCode_tells enters receiver _ lowered) fun v =>
      tells_attempt_silent fun h m chronicle _ => ⟨chronicle, chronicle.sound.refl⟩)
  | .setField receiver name value line, _, .setField first second => by
    rw [evalCode, actsCode]
    exact tells_visiting rfl (tells_bind (evalCode_tells enters receiver _ first) fun v =>
      tells_then (evalCode_tells enters value _ second) fun v' =>
        tells_attempt_silent fun h m chronicle _ => chronicle.setField { name } v v')
  | .method receiver name args line, _, .method first rest => by
    rw [evalCode, actsCode]
    exact tells_visiting rfl (tells_bind (evalCode_tells enters receiver _ first) fun r =>
      tells_bind (evalArgs_tells enters args _ rest) fun vs =>
        tells_attempt fun h m chronicle _ => callMethod_told enters chronicle _ r vs)

theorem evalBody_tells (enters : EnterTells hosts enter inner) : (es : List Expr) →
    (codes : List Code) → LoweredAll fresh.scope fresh.global fresh.emission es codes →
    Tells hosts unit fresh (evalBody enter unit codes) (actsBody inner enter unit codes)
  | [], _, .nil => by
    rw [evalBody, actsBody]
    exact tells_pure _
  | e :: es, _, .cons first rest => by
    rw [evalBody, actsBody]
    exact tells_bind (evalCode_tells enters e _ first) fun _ => evalBody_tells enters es _ rest

theorem evalArgs_tells (enters : EnterTells hosts enter inner) : (es : List Expr) →
    (codes : List Code) → LoweredAll fresh.scope fresh.global fresh.emission es codes →
    Tells hosts unit fresh (evalArgs enter unit codes) (actsArgs inner enter unit codes)
  | [], _, .nil => by
    rw [evalArgs, actsArgs]
    exact tells_pure _
  | e :: es, _, .cons first rest => by
    rw [evalArgs, actsArgs]
    exact tells_bind (evalCode_tells enters e _ first) fun v =>
      tells_then (evalArgs_tells enters es _ rest) fun vs => tells_pure _

theorem evalEntries_tells (enters : EnterTells hosts enter inner) (object : Value) :
    (es : List (String × Expr)) → (codes : List (Code × FieldSite)) →
    LoweredEntries fresh.scope fresh.global fresh.emission es codes →
    Tells hosts unit fresh (evalEntries enter unit object codes)
      (actsEntries inner enter unit object codes)
  | [], _, .nil => by
    rw [evalEntries, actsEntries]
    exact tells_pure _
  | (key, e) :: es, _, .cons first rest => by
    rw [evalEntries, actsEntries]
    exact tells_bind (evalCode_tells enters e _ first) fun v =>
      tells_bind
        (tells_attempt_silent fun h m chronicle _ => chronicle.setField { name := key } object v)
        fun _ => evalEntries_tells enters object es _ rest

end

end

section
variable {hosts : NativeFunction → Prop} {h : List Act} {m : Machine}

theorem Machine.Sound.holds {m : Machine} (sound : m.Sound) {unit : UnitId} {u : CompiledUnit}
    (found : m.units[unit]? = some u) :
    ∃ fresh, m.Holds unit fresh ∧ u.Tracks fresh m.heap ∧
      LoweredAll fresh.scope fresh.global fresh.emission u.definition.body.instrs u.code := by
  obtain ⟨fresh, compiled, tracks⟩ := sound unit u found
  obtain ⟨definition, -, -, lowered⟩ := FunctionDef.compile_ok compiled
  have global : fresh.global = u.definition.global := congrArg FunctionDef.global definition
  rw [← global, ← tracks.code] at lowered
  refine ⟨fresh, ⟨?_, by rw [found, Option.map_some, definition]⟩, tracks, lowered⟩
  rw [definition]
  exact compiled

theorem body_told {enter : Enter} {inner : EnterAccount} (enters : EnterTells hosts enter inner)
    (chronicle : m.Chronicle hosts h) {unit : UnitId} {u : CompiledUnit}
    (found : m.units[unit]? = some u) (locals : List Value) :
    Told hosts h m (actsBody inner enter unit u.code locals m)
      ((evalBody enter unit u.code locals m).map (·.2)) := by
  obtain ⟨fresh, holds, -, lowered⟩ := chronicle.sound.holds found
  exact evalBody_tells enters _ _ lowered h locals m chronicle holds

theorem endInvocation_told {acts : List Act} (mark : Nat) {r : Option (Flow Unit × Machine)}
    (told : Told hosts h m acts (r.map (·.2))) :
    Told hosts h m acts ((endInvocation mark r).map (·.2)) := by
  cases r with
  | none => exact told
  | some result =>
    obtain ⟨flow, m'⟩ := result
    cases flow with
    | next a locals =>
      exact told.finally (f := (·.release mark)) fun m' h' chronicle => chronicle.release mark
    | returned v =>
      exact told.finally (f := (·.release mark)) fun m' h' chronicle => chronicle.release mark
    | aborted =>
      refine told.finally (f := fun m' => m'.takeParked.2.release mark) ?_
      intro m' h' chronicle
      obtain ⟨taken, leads⟩ := chronicle.takeParked
      obtain ⟨released, further⟩ := taken.release mark
      exact ⟨released, leads.trans further⟩

/-- A step of a host function does something in a unit only if it invokes something. -/
theorem perform_told {enter : Enter} {inner : EnterAccount} (enters : EnterTells hosts enter inner)
    (chronicle : m.Chronicle hosts h) (s : HostStep) :
    Told hosts h m (actsStep inner s m) ((s.perform enter m).map (·.2)) := by
  cases s with
  | register id key v =>
    obtain ⟨stored, leads⟩ := chronicle.register id key v
    exact .moved stored leads
  | create proto =>
    obtain ⟨created, leads⟩ := chronicle.create proto
    exact .moved created leads
  | print args =>
    obtain ⟨printed, leads⟩ := chronicle.print args
    exact .moved printed leads
  | compile f =>
    simp only [HostStep.perform]
    cases compiled : m.compile f with
    | error e => exact .still chronicle
    | ok made => exact .moved (chronicle.compile compiled) (chronicle.sound.compile_leads compiled)
  | invoke id receiver args => exact invokeObject_told enters chronicle id receiver args
  | _ => exact .still chronicle

theorem program_told {enter : Enter} {inner : EnterAccount} (enters : EnterTells hosts enter inner)
    (p : HostProgram) (chronicle : m.Chronicle hosts h) :
    Told hosts h m (actsProgram inner enter p m) ((p.run enter m).map (·.2)) := by
  induction p generalizing h m with
  | done result => exact .still chronicle
  | step s next ih =>
    have told := perform_told enters chronicle s
    cases performed : s.perform enter m with
    | none =>
      rw [performed] at told
      simp only [actsProgram, HostProgram.run, performed, List.append_nil]
      exact told
    | some given =>
      obtain ⟨answer, m'⟩ := given
      rw [performed] at told
      rw [actsProgram_of_performed inner performed, HostProgram.run_of_performed performed]
      exact told.andThen (ih answer (told.last m' rfl).1)

/-- Every invocation does what its account says, under every bound on the calls open at once. -/
theorem enter_tells (hosts : NativeFunction → Prop) (depth : Nat) :
    EnterTells hosts (enter depth) (enterActs depth) := by
  induction depth with
  | zero => exact fun _ _ _ _ _ _ => .stuck
  | succ depth ih =>
    intro h m target receiver args chronicle
    cases target with
    | compiled unit name params =>
      rw [enter, enterActs, invokeUnit]
      cases found : m.units[unit]? with
      | none => exact .still chronicle
      | some u =>
        dsimp only
        split
        · exact .still chronicle
        · exact endInvocation_told _ (body_told ih chronicle found _)
    | native f =>
      have told := program_told ih (f.body.onCall receiver args) chronicle
      simp only [enter, enterActs, runHost]
      cases ran : (f.body.onCall receiver args).run (enter depth) m with
      | none => rw [ran] at told; exact told
      | some r => rw [ran] at told; exact told

end

/-- The host may define any function. -/
def anyHost (_ : NativeFunction) : Prop := True

section
variable {h : List Act} {m : Machine}

theorem Machine.Chronicle.define (chronicle : m.Chronicle anyHost h) (owner : ObjectId)
    (name : String) (arity : Arity) (body : HostFunction) :
    (m.define owner name arity body).2.Chronicle anyHost h ∧
      m.Leads (m.define owner name arity body).2 := by
  have leads := chronicle.sound.define owner name arity body
  refine ⟨chronicle.outside leads rfl ?_, leads⟩
  intro id entry found
  rcases Heap.newFunction_entries (Heap.register_entries _ _ _ _ id entry found) with old | rfl
  · exact Or.inl old
  · exact Or.inr trivial

theorem execute_told (chronicle : m.Chronicle anyHost h) (depth : Nat) (program : Block) :
    Told anyHost h m (executeActs depth program m) ((execute depth program m).map (·.2)) := by
  rw [executeActs, execute]
  cases compiled : m.compile (mainFunction program) with
  | error e => exact .still chronicle
  | ok made =>
    obtain ⟨main, m'⟩ := made
    have leads := chronicle.sound.compile_leads compiled
    obtain ⟨logged, further⟩ :=
      (chronicle.compile compiled).log? (some (.executingProgram program.instrs.length))
    have told := invokeObject_told (enter_tells anyHost depth) logged main .undefined []
    dsimp only
    rw [← List.nil_append (invokeActs _ _ _ _ _)]
    refine (Told.moved logged (leads.trans further)).andThen ?_
    rw [List.append_nil]
    cases ran : invoke depth main .undefined []
        (m'.log (.executingProgram program.instrs.length)) with
    | none =>
      change invokeObject (enter depth) main .undefined [] _ = _ at ran
      rw [Machine.log?, ran] at told
      exact told
    | some r =>
      change invokeObject (enter depth) main .undefined [] _ = _ at ran
      rw [Machine.log?, ran] at told
      exact told

theorem serve_told (chronicle : m.Chronicle anyHost h) (depth : Nat) (request : Request) :
    Told anyHost h m (serveActs depth request m) ((serve depth request m).map (·.2)) := by
  cases request with
  | execute program => exact execute_told chronicle depth program
  | document text =>
    simp only [serveActs, serve, executeDocument]
    cases Block.parse text with
    | error e => exact .still chronicle
    | ok program => exact execute_told chronicle depth program
  | compile f =>
    simp only [serveActs, serve]
    cases compiled : m.compile f with
    | error e => exact .still chronicle
    | ok made => exact .moved (chronicle.compile compiled) (chronicle.sound.compile_leads compiled)
  | invoke id receiver args =>
    simp only [serveActs, serve, Option.map_map]
    exact invokeObject_told (enter_tells anyHost depth) chronicle id receiver args
  | enter entry receiver args =>
    simp only [serveActs, serve, Option.map_map]
    exact enter_tells anyHost depth h m entry receiver args chronicle
  | create proto =>
    obtain ⟨created, leads⟩ := chronicle.create proto
    exact .moved created leads
  | define owner name arity body =>
    obtain ⟨defined, leads⟩ := chronicle.define owner name arity body
    exact .moved defined leads
  | register id key v =>
    obtain ⟨stored, leads⟩ := chronicle.register id key v
    exact .moved stored leads

theorem CallSite.invoke_told (chronicle : m.Chronicle anyHost h) (site : CallSite) (depth : Nat)
    (callee receiver : Value) (args : List Value) :
    Told anyHost h m (site.invokeActs depth callee receiver args m)
      ((site.invoke depth callee receiver args m).map (·.2)) := by
  rw [CallSite.invokeActs, CallSite.invoke_eq]
  cases site.dispatch m.heap callee with
  | error e => exact .still chronicle
  | ok d =>
    obtain ⟨logged, leads⟩ := chronicle.log? d.event
    dsimp only
    rw [← List.nil_append (enterActs _ _ _ _ _), Option.map_map]
    refine (Told.moved logged leads).andThen ?_
    rw [List.append_nil]
    exact enter_tells anyHost depth h _ d.target receiver args logged

end

namespace Machine

/-- The machines a host can get to, each with all that has happened until then. -/
inductive Recorded : List Act → Machine → Prop
  | boot (cacheDepth : Nat) (sink : Sink) : Recorded [] (Machine.boot cacheDepth sink)
  | serve {h : List Act} {m m' : Machine} {depth : Nat} {request : Request} {answer : Answer} :
      Recorded h m → serve depth request m = some (answer, m') →
        Recorded (h ++ serveActs depth request m) m'
  | site {h : List Act} {m m' : Machine} {site site' : CallSite} {depth : Nat}
      {callee receiver : Value} {args : List Value} {result : Except RuntimeError Value} :
      Recorded h m → site.invoke depth callee receiver args m = some ((result, site'), m') →
        Recorded (h ++ site.invokeActs depth callee receiver args m) m'

/-- The machines there are at all: between the requests of a host, and at every act while one of them is
served, also if it never ends. -/
inductive Seen : List Act → Machine → Prop
  | rest {h : List Act} {m : Machine} : Recorded h m → Seen h m
  | serving {h before after : List Act} {m : Machine} {depth : Nat} {request : Request} {act : Act} :
      Recorded h m → serveActs depth request m = before ++ act :: after →
        Seen (h ++ before) act.machine
  | calling {h before after : List Act} {m : Machine} {site : CallSite} {depth : Nat}
      {callee receiver : Value} {args : List Value} {act : Act} :
      Recorded h m → site.invokeActs depth callee receiver args m = before ++ act :: after →
        Seen (h ++ before) act.machine

theorem Recorded.reachable {h : List Act} {m : Machine} (recorded : m.Recorded h) :
    m.Reachable := by
  induction recorded with
  | boot cacheDepth sink => exact .boot cacheDepth sink
  | serve _ served ih => exact ih.serve served
  | site _ called ih => exact ih.site called

/-- Every machine a host can get to has a past. -/
theorem Reachable.recorded {m : Machine} (reachable : m.Reachable) : ∃ h, m.Recorded h := by
  induction reachable with
  | boot cacheDepth sink => exact ⟨[], .boot cacheDepth sink⟩
  | serve _ served ih =>
    obtain ⟨h, recorded⟩ := ih
    exact ⟨_, recorded.serve served⟩
  | site _ called ih =>
    obtain ⟨h, recorded⟩ := ih
    exact ⟨_, recorded.site called⟩

theorem boot_chronicle (cacheDepth : Nat) (sink : Sink) :
    (Machine.boot cacheDepth sink).Chronicle anyHost [] := by
  have operators : ∀ (ops : List Operator) (m : Machine), m.Chronicle anyHost [] →
      (ops.foldl (fun m op => (m.define global op.symbol (.fixed 2) (.operator op)).2)
        m).Chronicle anyHost [] := by
    intro ops
    induction ops with
    | nil => exact fun m chronicle => chronicle
    | cons op ops ih => exact fun m chronicle => ih _ (chronicle.define _ _ _ _).1
  have empty : Chronicle anyHost [] { heap := (({} : Heap).newEnv none).2, cacheDepth, sink } := by
    constructor
    · intro i u found
      simp at found
    · intro i u found
      simp at found
    · simp
    · intro id entry found
      rw [Heap.newEnv, Heap.callable?, Heap.object?_alloc] at found
      split at found
      · cases found
      · simp [Heap.object?] at found
  rw [Machine.boot]
  exact ((operators _ _ empty).define _ _ _ _).1

theorem Recorded.chronicle {h : List Act} {m : Machine} (recorded : m.Recorded h) :
    m.Chronicle anyHost h := by
  induction recorded with
  | boot cacheDepth sink => exact boot_chronicle cacheDepth sink
  | serve _ served ih => exact ((serve_told ih _ _).last _ (by rw [served]; rfl)).1
  | site _ called ih => exact ((CallSite.invoke_told ih _ _ _ _ _).last _ (by rw [called]; rfl)).1

theorem Seen.chronicle {h : List Act} {m : Machine} (seen : m.Seen h) : m.Chronicle anyHost h := by
  cases seen with
  | rest recorded => exact recorded.chronicle
  | serving recorded split => exact (serve_told recorded.chronicle _ _).at split
  | calling recorded split => exact (CallSite.invoke_told recorded.chronicle _ _ _ _ _).at split

end Machine

end ScriptEngine
