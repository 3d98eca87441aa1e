/-!
# Places of names

A table that keeps names in the order of their arrival keeps beside them an index that gives each name
its place. The two are changed together.
-/

namespace ScriptEngine

theorem lookup_cons_ite {α β : Type} [DecidableEq α] (key : α) (b : β) (rest : List (α × β)) (a : α) :
    ((key, b) :: rest).lookup a = if a = key then some b else rest.lookup a := by
  rw [List.lookup_cons]
  by_cases same : a = key
  · simp [same]
  · have apart : (a == key) = false := by simpa using same
    simp [same, apart]

/-- The index gives every name of the list its place there, and no other name a place. -/
def Indexes (index : List (String × Nat)) (names : List String) : Prop :=
  ∀ name place, index.lookup name = some place ↔ names[place]? = some name

namespace Indexes

variable {index : List (String × Nat)} {names : List String} {name : String}

theorem nil : Indexes [] [] := by
  intro name place
  simp

theorem lookup_eq_none_iff (indexes : Indexes index names) :
    index.lookup name = none ↔ name ∉ names := by
  constructor
  · intro absent member
    obtain ⟨place, found⟩ := List.mem_iff_getElem?.mp member
    rw [(indexes name place).mpr found] at absent
    cases absent
  · intro absent
    cases found : index.lookup name with
    | none => rfl
    | some place => exact absurd (List.mem_of_getElem? ((indexes name place).mp found)) absent

/-- A name that has no place yet gets the one after the last. -/
theorem add (indexes : Indexes index names) (absent : index.lookup name = none) :
    Indexes ((name, names.length) :: index) (names ++ [name]) := by
  intro other place
  rw [lookup_cons_ite, List.getElem?_append]
  by_cases same : other = name
  · subst other
    have missing : names[place]? ≠ some name := by
      rw [ne_eq, ← indexes, absent]
      simp
    by_cases inside : place < names.length
    · have earlier : names.length ≠ place := Nat.ne_of_gt inside
      simp only [inside, if_true, Option.some.injEq, missing, earlier]
    · have last : names.length = place ↔ place - names.length = 0 := by omega
      simp [inside, List.getElem?_singleton, last]
  · rw [if_neg same]
    by_cases inside : place < names.length
    · simpa [inside] using indexes other place
    · have past : index.lookup other ≠ some place := by
        rw [ne_eq, indexes, List.getElem?_eq_none (Nat.le_of_not_lt inside)]
        simp
      simp [inside, past, List.getElem?_singleton, Ne.symm same]

end Indexes

end ScriptEngine
