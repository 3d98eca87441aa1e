import ScriptEngine.Index
import Mathlib.Data.List.Basic

/-!
# What stands since

Something stands at the end of a past if some event began it and no event has ended it since. A table of
numbered things follows its past if it holds what was begun under a number and stands: a thing that is
put under a free number and a number that is left out keep it so.
-/

namespace ScriptEngine

variable {ε : Type}

/-- An event of the past `begins` something, which may depend on what was before it, and no later event
`ends` it. -/
def Since (begins : List ε → ε → Prop) (ends : ε → Prop) (past : List ε) : Prop :=
  ∃ before event later, past = before ++ event :: later ∧ begins before event ∧
    ∀ e ∈ later, ¬ ends e

theorem not_since_nil {begins : List ε → ε → Prop} {ends : ε → Prop} : ¬ Since begins ends [] := by
  rintro ⟨before, event, later, split, -⟩
  simp at split

/-- It begins now, or it stood before and does not end now. -/
theorem since_concat {begins : List ε → ε → Prop} {ends : ε → Prop} {past : List ε} (last : ε) :
    Since begins ends (past ++ [last]) ↔
      begins past last ∨ Since begins ends past ∧ ¬ ends last := by
  constructor
  · rintro ⟨before, event, later, split, begun, stands⟩
    rcases List.eq_nil_or_concat' later with rfl | ⟨rest, final, rfl⟩
    · obtain ⟨rfl, same⟩ := List.append_inj' split rfl
      obtain rfl := List.singleton_inj.mp same
      exact Or.inl begun
    · have split' : past ++ [last] = (before ++ event :: rest) ++ [final] := by simpa using split
      obtain ⟨rfl, same⟩ := List.append_inj' split' rfl
      obtain rfl := List.singleton_inj.mp same
      refine Or.inr ⟨⟨before, event, rest, rfl, begun, ?_⟩, stands last (by simp)⟩
      intro e member
      exact stands e (by simp [member])
  · rintro (begun | ⟨⟨before, event, later, rfl, begun, stands⟩, goes_on⟩)
    · exact ⟨past, last, [], rfl, begun, by simp⟩
    · refine ⟨before, event, later ++ [last], by simp, begun, ?_⟩
      intro e member
      rcases List.mem_append.mp member with old | new
      · exact stands e old
      · obtain rfl := List.mem_singleton.mp new
        exact goes_on

/-- Things are found by their number, also when others have been left out. -/
theorem lookup_filter_number {β : Type} (p : Nat → Bool) (table : List (Nat × β)) (n : Nat) :
    (table.filter fun entry => p entry.1).lookup n = if p n then table.lookup n else none := by
  induction table with
  | nil => simp
  | cons entry rest ih =>
    obtain ⟨number, b⟩ := entry
    by_cases same : n = number
    · subst number
      by_cases stays : p n <;> simp [stays, ih]
    · by_cases stays : p number <;> simp [stays, lookup_cons_ite, same, ih]

/-- The table holds under each number what was begun under it and stands. -/
def FollowsPast {β : Type} (begins : Nat → β → List ε → ε → Prop) (ends : Nat → ε → Prop)
    (past : List ε) (table : List (Nat × β)) : Prop :=
  ∀ n b, table.lookup n = some b ↔ Since (begins n b) (ends n) past

namespace FollowsPast

variable {β : Type} {begins : Nat → β → List ε → ε → Prop} {ends : Nat → ε → Prop} {past : List ε}
  {table : List (Nat × β)} {event : ε}

theorem nil : FollowsPast begins ends [] ([] : List (Nat × β)) := by
  intro n b
  simp [not_since_nil]

theorem idle (follows : FollowsPast begins ends past table) (starts : ∀ n b, ¬ begins n b past event)
    (stops : ∀ n, ¬ ends n event) : FollowsPast begins ends (past ++ [event]) table := by
  intro n b
  rw [since_concat, ← follows]
  simp [starts, stops]

/-- Something is put under a number that was free. -/
theorem put (follows : FollowsPast begins ends past table) {id : Nat} {new : β}
    (free : table.lookup id = none) (starts : ∀ n b, begins n b past event ↔ n = id ∧ b = new)
    (stops : ∀ n, ¬ ends n event) {table' : List (Nat × β)}
    (stored : ∀ n, table'.lookup n = if n = id then some new else table.lookup n) :
    FollowsPast begins ends (past ++ [event]) table' := by
  intro n b
  rw [since_concat, ← follows, starts, stored]
  by_cases same : n = id
  · subst same
    simp [free, eq_comm]
  · simp [same, stops]

/-- What has ended is left out. -/
theorem remove (follows : FollowsPast begins ends past table) {id : Nat}
    (starts : ∀ n b, ¬ begins n b past event) (stops : ∀ n, ends n event ↔ n = id) :
    FollowsPast begins ends (past ++ [event]) (table.filter (·.1 != id)) := by
  intro n b
  rw [since_concat, ← follows, lookup_filter_number (· != id)]
  by_cases same : n = id
  · simp [starts, stops, same]
  · simp [starts, stops, same]

end FollowsPast

end ScriptEngine
