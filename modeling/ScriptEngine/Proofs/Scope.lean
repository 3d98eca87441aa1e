import ScriptEngine.Proofs.Index
import ScriptEngine.Proofs.Reference
import Mathlib.Data.Set.Function
import Mathlib.Order.Interval.Set.Defs

/-!
# Slots and names

The names of a scope are the receiver, the parameters and the declared names in the order of their first
occurrences, and the slot of a name is its place among them. So no two names share a slot, and a vector
of slots is a map from names to values. Storing in a slot is binding its name, and the slots of a fresh
invocation are the map in which the local names are undefined and then receiver and parameters are bound
from left to right.
-/

namespace ScriptEngine

namespace Scope

open Reference

theorem lookup_eq_none_iff (s : Scope) (x : String) : s.lookup x = none ↔ x ∉ s.names :=
  s.indexed.lookup_eq_none_iff

theorem lookup_eq_some_iff {s : Scope} {x : String} {slot : Nat} :
    s.lookup x = some slot ↔ s.names[slot]? = some x :=
  s.indexed x slot

theorem exists_lookup {s : Scope} {x : String} (member : x ∈ s.names) :
    ∃ slot, s.lookup x = some slot := by
  obtain ⟨slot, here⟩ := List.mem_iff_getElem?.mp member
  exact ⟨slot, lookup_eq_some_iff.mpr here⟩

theorem lookup_lt {s : Scope} {x : String} {slot : Nat} (found : s.lookup x = some slot) :
    slot < s.slotCount :=
  (List.getElem?_eq_some_iff.mp (lookup_eq_some_iff.mp found)).1

theorem lookup_injective {s : Scope} {x y : String} {slot : Nat} (first : s.lookup x = some slot)
    (second : s.lookup y = some slot) : x = y :=
  Option.some.inj ((lookup_eq_some_iff.mp first).symm.trans (lookup_eq_some_iff.mp second))

/-- A name keeps its slot when more names are declared. -/
theorem lookup_of_start {s t : Scope} (grows : s.names <+: t.names) {x : String} {slot : Nat}
    (found : s.lookup x = some slot) : t.lookup x = some slot := by
  obtain ⟨more, names⟩ := grows
  rw [lookup_eq_some_iff, ← names, List.getElem?_append_left (lookup_lt found)]
  exact lookup_eq_some_iff.mp found

theorem place_of_known {s : Scope} {x : String} {slot : Nat} (known : s.lookup x = some slot) :
    s.place x = (slot, s) := by
  unfold place
  split
  · rename_i other found
    obtain rfl : other = slot := Option.some.inj (found.symm.trans known)
    rfl
  · rename_i free
    exact absurd (free.symm.trans known) (by simp)

theorem place_of_free {s : Scope} {x : String} (free : s.lookup x = none) :
    (s.place x).1 = s.slotCount ∧ (s.place x).2.names = s.names ++ [x] ∧
      (s.place x).2.parameterSlots = s.parameterSlots := by
  unfold place
  split
  · rename_i found
    exact absurd (free.symm.trans found) (by simp)
  · exact ⟨rfl, rfl, rfl⟩

/-- Placing a name gives the slot under which it is found afterwards. -/
theorem lookup_place (s : Scope) (x : String) : (s.place x).2.lookup x = some (s.place x).1 := by
  cases found : s.lookup x with
  | some slot => rw [place_of_known found, found]
  | none =>
    obtain ⟨slot, names, -⟩ := place_of_free found
    rw [lookup_eq_some_iff, names, slot]
    exact List.getElem?_concat_length

theorem names_declare (s : Scope) (x : String) :
    (s.declare x).names = if x ∈ s.names then s.names else s.names ++ [x] := by
  cases found : s.lookup x with
  | some slot =>
    have known : x ∈ s.names := List.mem_of_getElem? (lookup_eq_some_iff.mp found)
    rw [declare, place_of_known found, if_pos known]
  | none =>
    rw [declare, (place_of_free found).2.1, if_neg ((s.lookup_eq_none_iff x).mp found)]

theorem mem_declare (s : Scope) (x y : String) :
    x ∈ (s.declare y).names ↔ x ∈ s.names ∨ x = y := by
  rw [names_declare]
  split
  · rename_i known
    constructor
    · exact Or.inl
    · rintro (old | rfl)
      · exact old
      · exact known
  · simp

theorem declare_grows (s : Scope) (y : String) : s.names <+: (s.declare y).names := by
  rw [names_declare]
  split
  · exact List.prefix_rfl
  · exact List.prefix_append _ _

theorem declare_parameterSlots (s : Scope) (y : String) :
    (s.declare y).parameterSlots = s.parameterSlots := by
  cases found : s.lookup y with
  | some slot => rw [declare, place_of_known found]
  | none => exact (place_of_free found).2.2

theorem foldl_declare (s : Scope) (names : List String) :
    (∀ x, x ∈ (names.foldl declare s).names ↔ x ∈ s.names ∨ x ∈ names) ∧
    s.names <+: (names.foldl declare s).names ∧
    (names.foldl declare s).parameterSlots = s.parameterSlots := by
  induction names generalizing s with
  | nil => simp
  | cons y rest ih =>
    obtain ⟨members, grows, slots⟩ := ih (s.declare y)
    refine ⟨?_, (s.declare_grows y).trans grows, slots.trans (s.declare_parameterSlots y)⟩
    intro x
    rw [List.foldl_cons, members, mem_declare, List.mem_cons, or_assoc]

/-- What holds while the receiver and the parameters in `bound` have been declared. -/
structure Signature (bound : List String) (s : Scope) : Prop where
  names : ∀ x, x ∈ s.names ↔ x ∈ bound
  slots : s.parameterSlots.map some = bound.map s.lookup

theorem Signature.declareParameter {bound : List String} {s : Scope} (signature : s.Signature bound)
    (y : String) : (s.declareParameter y).Signature (bound ++ [y]) := by
  constructor
  · intro x
    rw [List.mem_append, List.mem_singleton, ← signature.names]
    exact s.mem_declare x y
  · have kept : bound.map (s.declareParameter y).lookup = bound.map s.lookup := by
      apply List.map_congr_left
      intro x member
      obtain ⟨old, found⟩ := exists_lookup ((signature.names x).mpr member)
      rw [found]
      exact lookup_of_start (s.declare_grows y) found
    have last : (s.declareParameter y).lookup y = some (s.place y).1 := s.lookup_place y
    have before : (s.place y).2.parameterSlots = s.parameterSlots := s.declare_parameterSlots y
    rw [List.map_append, kept, ← signature.slots, List.map_singleton, last]
    simp [Scope.declareParameter, before]

theorem Signature.foldl {bound : List String} {s : Scope} (signature : s.Signature bound)
    (params : List String) :
    (params.foldl Scope.declareParameter s).Signature (bound ++ params) := by
  induction params generalizing bound s with
  | nil => simpa using signature
  | cons y rest ih =>
    have tail := ih (signature.declareParameter y)
    simpa only [List.append_assoc, List.singleton_append, List.foldl_cons] using tail

theorem signature_resolve (params : List String) :
    ((receiverName :: params).foldl Scope.declareParameter {}).Signature
      (receiverName :: params) := by
  have empty : Signature [] {} := ⟨by simp, by simp⟩
  simpa using empty.foldl (receiverName :: params)

mutual

/-- Going through an instruction declares the names it lists. -/
theorem visit_eq : (s : Scope) → (e : Expr) → s.visit e = e.declared.foldl declare s
  | s, .block body => s.visitBlock_eq body
  | _, .assign _ _ true _ => rfl
  | s, .cond _ yes no _ => by
    rw [visit, visitBlock_eq s yes, visitBlock_eq _ no, Expr.declared, List.foldl_append]
  | _, .assign _ _ false _ | _, .literal _ _ | _, .call _ _ _ | _, .var _ _ | _, .function _ _ _ _
  | _, .ret _ _ | _, .object _ _ | _, .field _ _ _ | _, .setField _ _ _ _ | _, .method _ _ _ _ => rfl

theorem visitBlock_eq : (s : Scope) → (b : Block) → s.visitBlock b = b.declared.foldl declare s
  | s, .mk instrs _ => s.visitAll_eq instrs

theorem visitAll_eq : (s : Scope) → (es : List Expr) →
    s.visitAll es = (declaredAll es).foldl declare s
  | _, [] => rfl
  | s, e :: es => by
    rw [visitAll, visit_eq s e, visitAll_eq _ es, declaredAll, List.foldl_append]

end

theorem resolve_eq_foldl (params : List String) (body : Block) :
    resolve params body =
      body.declared.foldl declare ((receiverName :: params).foldl declareParameter {}) :=
  visitBlock_eq _ body

/-- The names with a slot are the receiver, the parameters and the declared names. -/
theorem mem_resolve (params : List String) (body : Block) (x : String) :
    x ∈ (resolve params body).names ↔ x ∈ (receiverName :: params) ++ body.declared := by
  rw [resolve_eq_foldl, (foldl_declare _ _).1, (signature_resolve params).names, List.mem_append]

/-- Receiver and parameters are bound to the slots of their names. -/
theorem parameterSlots_resolve (params : List String) (body : Block) :
    (resolve params body).parameterSlots.map some =
      (receiverName :: params).map (resolve params body).lookup := by
  have signature := signature_resolve params
  obtain ⟨_, grows, slots⟩ :=
    foldl_declare ((receiverName :: params).foldl Scope.declareParameter {}) body.declared
  rw [resolve_eq_foldl, slots, signature.slots]
  apply List.map_congr_left
  intro x member
  obtain ⟨slot, found⟩ := exists_lookup ((signature.names x).mpr member)
  rw [found]
  exact (lookup_of_start grows found).symm

theorem lookup_resolve_eq_none_iff (f : FunctionDef) (x : String) :
    (resolve f.params f.body).lookup x = none ↔ x ∉ f.locals := by
  rw [lookup_eq_none_iff, mem_resolve, FunctionDef.locals]

/-- Receiver, parameters and declared names come in the order of their first occurrences. -/
theorem names_resolve (params : List String) (body : Block) :
    (resolve params body).names = ((receiverName :: params) ++ body.declared).eraseDups := by
  have empty : ({} : Scope).names = ([] : List String).eraseDups := rfl
  have signature : ((receiverName :: params).foldl declareParameter {}).names =
      (receiverName :: params).eraseDups := by
    -- binding an argument to a name declares the name
    have bound := names_foldl Scope.names declareParameter id names_declare empty
      (receiverName :: params)
    rwa [List.map_id, List.nil_append] at bound
  have declared := names_foldl Scope.names declare id names_declare signature body.declared
  rwa [List.map_id, ← resolve_eq_foldl] at declared

theorem lookup_bijOn (s : Scope) :
    Set.BijOn s.lookup {x | x ∈ s.names} (some '' Set.Iio s.slotCount) := by
  refine ⟨?_, ?_, ?_⟩
  · intro x member
    obtain ⟨slot, found⟩ := exists_lookup member
    exact ⟨slot, lookup_lt found, found.symm⟩
  · intro x member y _ same
    obtain ⟨slot, found⟩ := exists_lookup member
    exact lookup_injective found (same.symm.trans found)
  · rintro _ ⟨slot, inside, rfl⟩
    have here : s.names[slot]? = some s.names[slot] := List.getElem?_eq_getElem inside
    exact ⟨s.names[slot], List.mem_of_getElem? here, lookup_eq_some_iff.mpr here⟩

theorem visitAll_append (s : Scope) (es more : List Expr) :
    s.visitAll (es ++ more) = (s.visitAll es).visitAll more := by
  induction es generalizing s with
  | nil => rw [List.nil_append, visitAll]
  | cons e es ih => rw [List.cons_append, visitAll, visitAll, ih]

/-- Instructions behind the others put their names behind the others. -/
theorem resolve_append_grows (params : List String) (body : Block) (more : List Expr)
    (line : UInt32) :
    (resolve params body).names <+: (resolve params (.mk (body.instrs ++ more) line)).names := by
  cases body with
  | mk instrs _ =>
    rw [resolve, resolve, visitBlock, visitBlock, Block.instrs, visitAll_append,
      visitAll_eq _ more]
    exact (foldl_declare _ _).2.1

/-- The map that a vector of slots stands for. -/
def view (s : Scope) (locals : List Value) : Env := fun x => (s.lookup x).bind (locals[·]?)

theorem view_of_lookup {s : Scope} {locals : List Value} (fits : locals.length = s.slotCount)
    {x : String} {slot : Nat} (found : s.lookup x = some slot) :
    s.view locals x = some (locals[slot]?.getD .undefined) := by
  have inside : slot < locals.length := fits ▸ lookup_lt found
  simp [view, found, inside]

theorem view_of_free {s : Scope} (locals : List Value) {x : String} (free : s.lookup x = none) :
    s.view locals x = none := by
  simp [view, free]

theorem view_set {s : Scope} {locals : List Value} (fits : locals.length = s.slotCount)
    {x : String} {slot : Nat} (found : s.lookup x = some slot) (v : Value) :
    s.view (locals.set slot v) = (s.view locals).set x v := by
  have inside : slot < locals.length := fits ▸ lookup_lt found
  funext y
  by_cases same : y = x
  · subst y
    simp [view, Env.set, found, inside]
  · cases other : s.lookup y with
    | none => simp [view, Env.set, same, other]
    | some slot' =>
      have apart : slot ≠ slot' := by
        rintro rfl
        exact same (lookup_injective other found)
      simp [view, Env.set, same, other, List.getElem?_set_ne apart]

theorem view_undefined (s : Scope) :
    s.view (List.replicate s.slotCount .undefined) = Env.declare s.names := by
  funext x
  cases found : s.lookup x with
  | none =>
    have absent := (s.lookup_eq_none_iff x).mp found
    simp [view, found, Env.declare, absent]
  | some slot =>
    have present : x ∈ s.names := List.mem_of_getElem? (lookup_eq_some_iff.mp found)
    simp [view, found, Env.declare, present, lookup_lt found]

/-- Storing values in slots from left to right is binding the names of the slots. -/
theorem view_bindAll (s : Scope) {slots : List Nat} {names : List String}
    (lined : slots.map some = names.map s.lookup) (values : List Value) {locals : List Value}
    (fits : locals.length = s.slotCount) :
    let stored := (slots.zip values).foldl (fun locals (slot, v) => locals.set slot v) locals
    stored.length = s.slotCount ∧ s.view stored = (s.view locals).bindAll (names.zip values) := by
  induction slots generalizing names values locals with
  | nil =>
    have none_left : names = [] := by simpa using lined.symm
    simp [none_left, fits, Env.bindAll]
  | cons slot slots ih =>
    cases names with
    | nil => simp at lined
    | cons x names =>
      obtain ⟨found, lined⟩ := List.cons.inj lined
      cases values with
      | nil => simp [fits, Env.bindAll]
      | cons v values =>
        have fits' : (locals.set slot v).length = s.slotCount := by simpa using fits
        have tail := ih lined values fits'
        rw [view_set fits found.symm] at tail
        simpa only [List.zip_cons_cons, List.foldl_cons, Env.bindAll] using tail

end Scope

open Scope in
/-- The slots of a fresh invocation are the local names, undefined at first, with receiver and
arguments bound. -/
theorem CompiledUnit.view_initialLocals {u : CompiledUnit}
    (resolved : u.scope = Scope.resolve u.definition.params u.definition.body) (receiver : Value)
    (args : List Value) :
    (u.initialLocals receiver args).length = u.scope.slotCount ∧
      u.scope.view (u.initialLocals receiver args) = u.definition.initialEnv receiver args := by
  have lined : u.scope.parameterSlots.map some =
      (receiverName :: u.definition.params).map u.scope.lookup := by
    rw [resolved]
    exact parameterSlots_resolve _ _
  obtain ⟨fits, bound⟩ := u.scope.view_bindAll lined (receiver :: args)
    (List.length_replicate (n := u.scope.slotCount) (a := Value.undefined))
  have names : Reference.Env.declare u.scope.names = Reference.Env.declare u.definition.locals := by
    funext x
    have members : x ∈ u.scope.names ↔ x ∈ u.definition.locals := by
      rw [resolved]
      exact mem_resolve _ _ x
    simp only [Reference.Env.declare, members]
  rw [view_undefined, names] at bound
  exact ⟨fits, bound⟩

/-- The table of a function lists the receiver, the parameters and the names declared in its body, each where
it occurs first, and the slot of a name is its place in this list. Instructions added behind the body
change no slot. -/
theorem slots_follow_first_occurrences (params : List String) (body : Block) :
    let s := Scope.resolve params body
    let listed := ((receiverName :: params) ++ body.declared).eraseDups
    s.names = listed ∧
    (∀ x, s.lookup x = listed.idxOf? x) ∧
    s.slotCount = listed.length ∧
    Set.BijOn s.lookup {x | x ∈ s.names} (some '' Set.Iio s.slotCount) ∧
    s.parameterSlots.map some = (receiverName :: params).map s.lookup ∧
    (s.slotCount ≤ UInt32.size → ∀ x slot, s.lookup x = some slot → (UInt32.ofNat slot).toNat = slot) ∧
    ∀ (more : List Expr) (line : UInt32) (x : String) (slot : Nat), s.lookup x = some slot →
      (Scope.resolve params (.mk (body.instrs ++ more) line)).lookup x = some slot := by
  intro s listed
  have names : s.names = listed := Scope.names_resolve params body
  refine ⟨names, ?_, congrArg List.length names, s.lookup_bijOn,
    Scope.parameterSlots_resolve params body, ?_, ?_⟩
  · intro x
    rw [← names]
    exact s.indexed.lookup_eq_idxOf? x
  · intro few x slot found
    have inside := Scope.lookup_lt found
    exact UInt32.toNat_ofNat_of_lt (by omega)
  · intro more line x slot found
    exact Scope.lookup_of_start (Scope.resolve_append_grows params body more line) found

/-- A body with declarations in both arms of a conditional, of a parameter, in a value and in a nested
function. -/
def scatteredDeclarations : Block :=
  .mk
    [.cond (.var "c" 0) (.mk [.assign "t" (.literal (.int 1) 0) true 0] 0)
      (.mk [.block (.mk [.assign "f" (.literal (.int 2) 0) true 0] 0)] 0) 0,
     .assign "a" (.literal (.int 3) 0) true 0,
     .function (some "g") ["q"] (.mk [.assign "inner" (.literal (.int 4) 0) true 0] 0) 0,
     .ret (.assign "value" (.literal (.int 5) 0) true 0) 0] 0

/-- Two parameters of one name share a slot, and a second declaration of `t` after a new name `z` finds
the old slot. -/
theorem slots_follow_first_occurrences_scattered :
    let s := Scope.resolve ["a", "a"] scatteredDeclarations
    s.names = ["this", "a", "t", "f"] ∧ s.lookup "inner" = none ∧ s.lookup "value" = none ∧
    s.parameterSlots = [0, 1, 1] ∧ s.lookup "t" = some 2 ∧
    (Scope.resolve ["a", "a"] (.mk (scatteredDeclarations.instrs ++
      [.assign "z" (.literal (.int 6) 0) true 0, .assign "t" (.literal (.int 7) 0) true 0])
        0)).lookup "t" = some 2 := by
  obtain ⟨names, places, -, -, bound, -, appended⟩ :=
    slots_follow_first_occurrences ["a", "a"] scatteredDeclarations
  have listed : ((receiverName :: ["a", "a"]) ++ scatteredDeclarations.declared).eraseDups =
      ["this", "a", "t", "f"] := by decide
  have slots : (Scope.resolve ["a", "a"] scatteredDeclarations).parameterSlots = [0, 1, 1] := by
    rw [listed] at places
    simp only [List.map_cons, places] at bound
    have mapped : List.map some _ = List.map some [0, 1, 1] := bound.trans (by decide)
    exact List.map_injective_iff.mpr (Option.some_injective Nat) mapped
  have found := places "t"
  rw [listed] at names places found
  exact ⟨names, places "inner", places "value", slots, found, appended _ _ _ _ found⟩

end ScriptEngine
