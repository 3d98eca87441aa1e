import ScriptEngine.Proofs.Lowering

/-!
# Positions in a body

A position is a path from a body to one of its nodes, part by part; nested functions are not entered.
Positions are put in the order in which nodes are lowered: a node after everything inside it, and the
parts of a node from left to right. The assignments of a body, and the names it declares, are described
by the positions at which they stand.
-/

namespace ScriptEngine

/-- A step from a node to one of its parts. -/
inductive Step where
  | instr (i : Nat)
  | callee
  | receiver
  | condition
  | value
  | yes (i : Nat)
  | no (i : Nat)
  | arg (i : Nat)
  | entry (i : Nat)
  deriving DecidableEq

namespace Step

/-- Instructions of blocks and of the arms of conditionals; all other parts stand for values. -/
def isStatement : Step → Bool
  | .instr _ | .yes _ | .no _ => true
  | _ => false

/-- Left to right: the condition before the arms and the first arm before the second, the callee or the
receiver before the arguments, and the receiver before the value. -/
inductive Before : Step → Step → Prop
  | instrs {i j : Nat} : i < j → Before (.instr i) (.instr j)
  | condition_yes {i : Nat} : Before .condition (.yes i)
  | condition_no {i : Nat} : Before .condition (.no i)
  | yes {i j : Nat} : i < j → Before (.yes i) (.yes j)
  | arms {i j : Nat} : Before (.yes i) (.no j)
  | no {i j : Nat} : i < j → Before (.no i) (.no j)
  | callee_arg {i : Nat} : Before .callee (.arg i)
  | receiver_arg {i : Nat} : Before .receiver (.arg i)
  | receiver_value : Before .receiver .value
  | args {i j : Nat} : i < j → Before (.arg i) (.arg j)
  | entries {i j : Nat} : i < j → Before (.entry i) (.entry j)

end Step

/-- Nodes of a list with the steps that lead to them. -/
def labelled (step : Nat → Step) (es : List Expr) : List (Step × Expr) :=
  es.mapIdx fun i e => (step i, e)

/-- The parts of a node from left to right. A function literal has none: its body is another function. -/
def Expr.parts : Expr → List (Step × Expr)
  | .block body => labelled .instr body.instrs
  | .call callee args _ => (.callee, callee) :: labelled .arg args
  | .assign _ value _ _ | .ret value _ => [(.value, value)]
  | .cond condition yes no _ =>
      (.condition, condition) :: (labelled .yes yes.instrs ++ labelled .no no.instrs)
  | .object entries _ => labelled .entry (entries.map (·.2))
  | .field receiver _ _ => [(.receiver, receiver)]
  | .setField receiver _ value _ => [(.receiver, receiver), (.value, value)]
  | .method receiver _ args _ => (.receiver, receiver) :: labelled .arg args
  | .literal .. | .var .. | .function .. => []

theorem mem_labelled {step : Nat → Step} {es : List Expr} {a : Step} {e : Expr}
    (member : (a, e) ∈ labelled step es) : (∃ i, a = step i) ∧ e ∈ es := by
  obtain ⟨i, inside, same⟩ := List.mem_mapIdx.mp member
  obtain ⟨rfl, rfl⟩ := Prod.mk.inj same
  exact ⟨⟨i, rfl⟩, List.getElem_mem inside⟩

theorem labelled_ordered {step : Nat → Step}
    (increases : ∀ i j, i < j → (step i).Before (step j)) (es : List Expr) :
    (labelled step es).Pairwise fun a b => a.1.Before b.1 := by
  rw [List.pairwise_iff_getElem]
  intro i j first second order
  simpa [labelled] using increases i j order

theorem flatMap_labelled {α : Type} (step : Nat → Step) (es : List Expr) (f : Expr → List α) :
    (labelled step es).flatMap (fun part => f part.2) = es.flatMap f := by
  have values : (labelled step es).map (·.2) = es := by
    apply List.ext_getElem (by simp [labelled])
    simp [labelled]
  rw [← List.flatMap_map, values]

/-- The parts of a node stand from left to right. -/
theorem Expr.parts_ordered (e : Expr) : e.parts.Pairwise fun a b => a.1.Before b.1 := by
  cases e with
  | block body => exact labelled_ordered (fun _ _ => .instrs) _
  | literal | var | function => exact .nil
  | call callee args line =>
    refine List.pairwise_cons.mpr ⟨?_, labelled_ordered (fun _ _ => .args) args⟩
    rintro ⟨a, e⟩ member
    obtain ⟨⟨i, rfl⟩, -⟩ := mem_labelled member
    exact .callee_arg
  | assign | ret | field => exact List.pairwise_singleton _ _
  | cond condition yes no line =>
    refine List.pairwise_cons.mpr ⟨?_, List.pairwise_append.mpr ⟨labelled_ordered (fun _ _ => .yes) _,
      labelled_ordered (fun _ _ => .no) _, ?_⟩⟩
    · rintro ⟨a, e⟩ member
      rcases List.mem_append.mp member with member | member
      · obtain ⟨⟨i, rfl⟩, -⟩ := mem_labelled member
        exact .condition_yes
      · obtain ⟨⟨i, rfl⟩, -⟩ := mem_labelled member
        exact .condition_no
    · rintro ⟨a, e⟩ first ⟨b, e'⟩ second
      obtain ⟨⟨i, rfl⟩, -⟩ := mem_labelled first
      obtain ⟨⟨j, rfl⟩, -⟩ := mem_labelled second
      exact .arms
  | object entries line => exact labelled_ordered (fun _ _ => .entries) _
  | setField receiver name value line =>
    exact List.pairwise_pair.mpr .receiver_value
  | method receiver name args line =>
    refine List.pairwise_cons.mpr ⟨?_, labelled_ordered (fun _ _ => .args) args⟩
    rintro ⟨a, e⟩ member
    obtain ⟨⟨i, rfl⟩, -⟩ := mem_labelled member
    exact .receiver_arg

theorem Block.sizeOf_instrs_lt (b : Block) : sizeOf b.instrs < sizeOf b := by
  cases b
  simp [Block.instrs]
  omega

theorem Expr.parts_smaller {e c : Expr} {a : Step} (part : (a, c) ∈ e.parts) :
    sizeOf c < sizeOf e := by
  have listed : ∀ {step : Nat → Step} {es : List Expr}, (a, c) ∈ labelled step es →
      sizeOf c < sizeOf es := fun member => List.sizeOf_lt_of_mem (mem_labelled member).2
  cases e with
  | block body =>
    have := listed part
    have := body.sizeOf_instrs_lt
    simp
    omega
  | literal | var | function => cases part
  | call callee args line =>
    rcases List.mem_cons.mp part with same | part
    · cases same
      simp
      omega
    · have := listed part
      simp
      omega
  | assign name value declares line | ret value line | field value name line =>
    cases List.mem_singleton.mp part
    simp
    omega
  | cond condition yes no line =>
    rcases List.mem_cons.mp part with same | part
    · cases same
      simp
      omega
    · rcases List.mem_append.mp part with part | part
      · have := listed part
        have := yes.sizeOf_instrs_lt
        simp
        omega
      · have := listed part
        have := no.sizeOf_instrs_lt
        simp
        omega
  | object entries line =>
    obtain ⟨entry, inside, rfl⟩ := List.mem_map.mp (mem_labelled part).2
    have := List.sizeOf_lt_of_mem inside
    cases entry
    simp at this ⊢
    omega
  | setField receiver name value line =>
    rcases List.mem_cons.mp part with same | part
    · cases same
      simp
      omega
    · cases List.mem_singleton.mp part
      simp
      omega
  | method receiver name args line =>
    rcases List.mem_cons.mp part with same | part
    · cases same
      simp
      omega
    · have := listed part
      simp
      omega

/-- What holds of a node if it holds of its parts holds of every node. -/
theorem Expr.parts_induction {P : Expr → Prop}
    (node : ∀ e : Expr, (∀ a c, (a, c) ∈ e.parts → P c) → P e) (e : Expr) : P e :=
  node e fun _ c part => have := Expr.parts_smaller part; Expr.parts_induction node c
termination_by sizeOf e

/-- At the end of the path from `e` stands the node `n`. -/
inductive Expr.At : Expr → List Step → Expr → Prop
  | here {e : Expr} : At e [] e
  | inside {e c n : Expr} {a : Step} {path : List Step} : (a, c) ∈ e.parts → At c path n →
      At e (a :: path) n

/-- At the end of the path from the body stands the node `n`. -/
def Block.At (body : Block) (path : List Step) (n : Expr) : Prop := (Expr.block body).At path n

/-- The path goes through blocks and the arms of conditionals only. -/
def StatementPath (path : List Step) : Prop := ∀ a ∈ path, a.isStatement = true

/-- The order of positions: what is inside a node comes before the node, and what is inside one part
comes before what is inside a part to its right. -/
inductive Precedes : List Step → List Step → Prop
  | inside {a : Step} {path : List Step} : Precedes (a :: path) []
  | apart {a b : Step} {path path' : List Step} : a.Before b → Precedes (a :: path) (b :: path')
  | within {a : Step} {path path' : List Step} : Precedes path path' →
      Precedes (a :: path) (a :: path')

theorem Step.Before.asymm {a b : Step} (before : a.Before b) : ¬ b.Before a := by
  intro after
  cases before <;> cases after <;> omega

theorem Precedes.asymm {path path' : List Step} (before : Precedes path path') :
    ¬ Precedes path' path := by
  intro after
  induction before with
  | inside => cases after
  | apart left =>
    cases after with
    | apart right => exact left.asymm right
    | within => exact left.asymm left
  | within _ ih =>
    cases after with
    | apart right => exact right.asymm right
    | within after => exact ih after

theorem Expr.part_unique {e c d : Expr} {a : Step} (first : (a, c) ∈ e.parts)
    (second : (a, d) ∈ e.parts) : c = d := by
  obtain ⟨i, inside, here⟩ := List.getElem_of_mem first
  obtain ⟨j, inside', here'⟩ := List.getElem_of_mem second
  have left := List.pairwise_iff_getElem.mp e.parts_ordered
  rcases Nat.lt_trichotomy i j with before | rfl | after
  · have again := left i j inside inside' before
    rw [here, here'] at again
    exact absurd again again.asymm
  · exact (Prod.mk.inj (here.symm.trans here')).2
  · have again := left j i inside' inside after
    rw [here, here'] at again
    exact absurd again again.asymm

/-- One node stands at the end of a path. -/
theorem Expr.At.unique {e n n' : Expr} {path : List Step} (stands : e.At path n)
    (stands' : e.At path n') : n = n' := by
  induction stands with
  | here =>
    cases stands'
    rfl
  | inside part _ ih =>
    cases stands' with
    | inside part' stands' =>
      cases part_unique part part'
      exact ih stands'

/-- The assignment that a node is, with its line. -/
def Expr.assigned : Expr → List (String × UInt32)
  | .assign name _ _ line => [(name, line)]
  | _ => []

theorem Expr.mem_assigned_iff {n : Expr} {x : String} {line : UInt32} :
    (x, line) ∈ n.assigned ↔ ∃ value declares, n = .assign x value declares line := by
  cases n <;> simp [assigned, and_comm, eq_comm]

theorem assignmentsAll_eq (es : List Expr) : assignmentsAll es = es.flatMap Expr.assignments := by
  induction es with
  | nil => rfl
  | cons e es ih => rw [assignmentsAll, ih, List.flatMap_cons]

theorem assignmentsEntries_eq (es : List (String × Expr)) :
    assignmentsEntries es = (es.map (·.2)).flatMap Expr.assignments := by
  induction es with
  | nil => rfl
  | cons e es ih => rw [assignmentsEntries, ih, List.map_cons, List.flatMap_cons]

/-- The assignments of a node are those of its parts, and then its own. -/
theorem Expr.assignments_eq (e : Expr) :
    e.assignments = e.parts.flatMap (fun part => part.2.assignments) ++ e.assigned := by
  cases e with
  | block body =>
    rw [Expr.assignments, Block.assignments_eq, assignmentsAll_eq, parts, flatMap_labelled]
    exact (List.append_nil _).symm
  | literal | var | function => rfl
  | call callee args line =>
    rw [Expr.assignments, assignmentsAll_eq, parts, List.flatMap_cons, flatMap_labelled]
    exact (List.append_nil _).symm
  | assign | ret | field => simp [Expr.assignments, parts, assigned]
  | cond condition yes no line =>
    rw [Expr.assignments, Block.assignments_eq, Block.assignments_eq, assignmentsAll_eq,
      assignmentsAll_eq, parts, List.flatMap_cons, List.flatMap_append, flatMap_labelled,
      flatMap_labelled]
    exact (List.append_nil _).symm
  | object entries line =>
    rw [Expr.assignments, assignmentsEntries_eq, parts, flatMap_labelled]
    exact (List.append_nil _).symm
  | setField receiver name value line => simp [Expr.assignments, parts, assigned]
  | method receiver name args line =>
    rw [Expr.assignments, assignmentsAll_eq, parts, List.flatMap_cons, flatMap_labelled]
    exact (List.append_nil _).symm

/-- The assignments at positions `places` are those of a tree, in the order of their positions. -/
structure Expr.Lists (e : Expr) (places : List (List Step × (String × UInt32))) : Prop where
  assignments : places.map (·.2) = e.assignments
  ordered : places.Pairwise fun x y => Precedes x.1 y.1
  members : ∀ path a, (path, a) ∈ places ↔ ∃ n, e.At path n ∧ a ∈ n.assigned

theorem lists_parts (parts : List (Step × Expr)) (order : parts.Pairwise fun a b => a.1.Before b.1)
    (listed : ∀ a c, (a, c) ∈ parts → ∃ places, c.Lists places) :
    ∃ places : List (List Step × (String × UInt32)),
      places.map (·.2) = parts.flatMap (fun part => part.2.assignments) ∧
      places.Pairwise (fun x y => Precedes x.1 y.1) ∧
      ∀ path x, (path, x) ∈ places ↔
        ∃ a c rest n, (a, c) ∈ parts ∧ path = a :: rest ∧ c.At rest n ∧ x ∈ n.assigned := by
  induction parts with
  | nil => exact ⟨[], by simp⟩
  | cons part parts ih =>
    obtain ⟨a, c⟩ := part
    obtain ⟨leftmost, order⟩ := List.pairwise_cons.mp order
    obtain ⟨here, found⟩ := listed a c List.mem_cons_self
    obtain ⟨later, same, ordered, members⟩ :=
      ih order fun b d member => listed b d (List.mem_cons_of_mem _ member)
    refine ⟨here.map (fun x => (a :: x.1, x.2)) ++ later, ?_, ?_, ?_⟩
    · rw [List.map_append, same, List.flatMap_cons, ← found.assignments, List.map_map]
      rfl
    · refine List.pairwise_append.mpr ⟨?_, ordered, ?_⟩
      · exact List.pairwise_map.mpr (found.ordered.imp .within)
      · rintro ⟨path, x⟩ first ⟨path', x'⟩ second
        obtain ⟨y, -, same⟩ := List.mem_map.mp first
        obtain ⟨rfl, rfl⟩ := Prod.mk.inj same
        obtain ⟨b, d, rest, n, member, rfl, -, -⟩ := (members path' x').mp second
        exact .apart (leftmost (b, d) member)
    · intro path x
      rw [List.mem_append, members, List.mem_map]
      constructor
      · rintro (⟨⟨rest, x'⟩, member, same⟩ | ⟨b, d, rest, n, member, further⟩)
        · obtain ⟨rfl, rfl⟩ := Prod.mk.inj same
          obtain ⟨n, stands, assigned⟩ := (found.members rest x').mp member
          exact ⟨a, c, rest, n, List.mem_cons_self, rfl, stands, assigned⟩
        · exact ⟨b, d, rest, n, List.mem_cons_of_mem _ member, further⟩
      · rintro ⟨b, d, rest, n, member, rfl, stands, assigned⟩
        rcases List.mem_cons.mp member with same | member
        · obtain ⟨rfl, rfl⟩ := Prod.mk.inj same
          exact Or.inl ⟨(rest, x), (found.members rest x).mpr ⟨n, stands, assigned⟩, rfl⟩
        · exact Or.inr ⟨b, d, rest, n, member, rfl, stands, assigned⟩

/-- The assignments of a tree are listed in the order of their positions. -/
theorem Expr.lists (e : Expr) : ∃ places, e.Lists places := by
  induction e using Expr.parts_induction with
  | node e ih =>
    obtain ⟨places, same, ordered, members⟩ := lists_parts e.parts e.parts_ordered ih
    refine ⟨places ++ e.assigned.map (fun x => ([], x)), ?_, ?_, ?_⟩
    · rw [List.map_append, same, e.assignments_eq, List.map_map]
      exact congrArg _ (List.map_id _)
    · refine List.pairwise_append.mpr ⟨ordered, ?_, ?_⟩
      · cases e <;> simp [assigned]
      · rintro ⟨path, x⟩ first ⟨path', x'⟩ second
        obtain ⟨a, c, rest, n, -, rfl, -, -⟩ := (members path x).mp first
        obtain ⟨y, -, same⟩ := List.mem_map.mp second
        obtain ⟨rfl, rfl⟩ := Prod.mk.inj same
        exact .inside
    · intro path x
      rw [List.mem_append, members, List.mem_map]
      constructor
      · rintro (⟨a, c, rest, n, part, rfl, stands, assigned⟩ | ⟨y, own, same⟩)
        · exact ⟨n, .inside part stands, assigned⟩
        · obtain ⟨rfl, rfl⟩ := Prod.mk.inj same
          exact ⟨e, .here, own⟩
      · rintro ⟨n, stands, assigned⟩
        cases stands with
        | here => exact Or.inr ⟨x, assigned, rfl⟩
        | inside part stands => exact Or.inl ⟨_, _, _, n, part, rfl, stands, assigned⟩

theorem declaredAll_eq (es : List Expr) : declaredAll es = es.flatMap Expr.declared := by
  induction es with
  | nil => rfl
  | cons e es ih => rw [declaredAll, ih, List.flatMap_cons]

theorem Block.declared_eq (b : Block) : b.declared = b.instrs.flatMap Expr.declared := by
  cases b
  rw [Block.declared, declaredAll_eq, Block.instrs]

/-- The name that a node declares itself. -/
def Expr.declares : Expr → List String
  | .assign name _ true _ => [name]
  | _ => []

/-- The parts that are instructions. -/
def Expr.instructions (e : Expr) : List (Step × Expr) := e.parts.filter (·.1.isStatement)

theorem filter_labelled {step : Nat → Step} (statement : ∀ i, (step i).isStatement = true)
    (es : List Expr) : (labelled step es).filter (·.1.isStatement) = labelled step es := by
  rw [List.filter_eq_self]
  rintro ⟨a, e⟩ member
  obtain ⟨⟨i, rfl⟩, -⟩ := mem_labelled member
  exact statement i

theorem filter_labelled_value {step : Nat → Step} (value : ∀ i, (step i).isStatement = false)
    (es : List Expr) : (labelled step es).filter (·.1.isStatement) = [] := by
  rw [List.filter_eq_nil_iff]
  rintro ⟨a, e⟩ member
  obtain ⟨⟨i, rfl⟩, -⟩ := mem_labelled member
  simp [value i]

/-- What a node declares is what its instructions declare, or what it declares itself. -/
theorem Expr.declared_eq (e : Expr) :
    e.declared = e.instructions.flatMap (fun part => part.2.declared) ++ e.declares := by
  cases e with
  | block body =>
    rw [Expr.declared, Block.declared_eq, instructions, parts, filter_labelled fun _ => rfl,
      flatMap_labelled]
    exact (List.append_nil _).symm
  | literal | var | function | ret | field | setField => rfl
  | assign name value declares line => cases declares <;> rfl
  | cond condition yes no line =>
    rw [Expr.declared, Block.declared_eq, Block.declared_eq, instructions, parts,
      List.filter_cons_of_neg (by simp [Step.isStatement]), List.filter_append,
      filter_labelled fun _ => rfl, filter_labelled fun _ => rfl, List.flatMap_append, flatMap_labelled,
      flatMap_labelled]
    exact (List.append_nil _).symm
  | object entries line =>
    rw [instructions, parts, filter_labelled_value fun _ => rfl]
    rfl
  | call callee args line =>
    rw [instructions, parts, List.filter_cons_of_neg (by simp [Step.isStatement]),
      filter_labelled_value fun _ => rfl]
    rfl
  | method receiver name args line =>
    rw [instructions, parts, List.filter_cons_of_neg (by simp [Step.isStatement]),
      filter_labelled_value fun _ => rfl]
    rfl

/-- A name is declared by a declaration that is reached through blocks and arms only. -/
theorem Expr.mem_declared_iff (e : Expr) (x : String) :
    x ∈ e.declared ↔
      ∃ path value line, e.At path (.assign x value true line) ∧ StatementPath path := by
  induction e using Expr.parts_induction with
  | node e ih =>
    rw [e.declared_eq, List.mem_append, List.mem_flatMap]
    constructor
    · rintro (⟨⟨a, c⟩, instruction, declared⟩ | own)
      · obtain ⟨part, statement⟩ := List.mem_filter.mp instruction
        obtain ⟨path, value, line, stands, through⟩ := (ih a c part).mp declared
        exact ⟨a :: path, value, line, .inside part stands, List.forall_mem_cons.mpr ⟨statement, through⟩⟩
      · cases e with
        | assign name value declares line =>
          cases declares with
          | false => cases own
          | true =>
            obtain rfl := List.mem_singleton.mp own
            exact ⟨[], value, line, .here, by simp [StatementPath]⟩
        | _ => cases own
    · rintro ⟨path, value, line, stands, through⟩
      cases stands with
      | here => exact Or.inr (List.mem_singleton_self x)
      | inside part stands =>
        obtain ⟨statement, further⟩ := List.forall_mem_cons.mp through
        have declared := (ih _ _ part).mpr ⟨_, value, line, stands, further⟩
        exact Or.inl ⟨_, List.mem_filter.mpr ⟨part, statement⟩, declared⟩

end ScriptEngine
