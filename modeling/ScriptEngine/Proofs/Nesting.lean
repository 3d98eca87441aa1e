import ScriptEngine.Proofs.Written

/-!
# Nesting of a text

How many arrays and objects are nested in a text is found by counting its brackets and braces outside of
quotes. For a written tree that is the depth of the tree.
-/

namespace ScriptEngine.Json

/-- Where a scan of a text stands. -/
inductive Scan.Mode where
  | outside
  | quoted
  /-- After a backslash between quotes. -/
  | escaped

/-- A scan of a text: the brackets that are open, and the most that were open at once. -/
structure Scan where
  mode : Scan.Mode := .outside
  level : Nat := 0
  deepest : Nat := 0

namespace Scan

def step (s : Scan) (c : Char) : Scan :=
  match s.mode with
  | .escaped => { s with mode := .quoted }
  | .quoted =>
      if c = '\\' then { s with mode := .escaped }
      else if c = '"' then { s with mode := .outside }
      else s
  | .outside =>
      if c = '"' then { s with mode := .quoted }
      else if c = '[' ∨ c = '\x7b' then
        { s with level := s.level + 1, deepest := max s.deepest (s.level + 1) }
      else if c = ']' ∨ c = '\x7d' then { s with level := s.level - 1 }
      else s

def run (s : Scan) (cs : List Char) : Scan := cs.foldl step s

@[simp] theorem run_nil (s : Scan) : s.run [] = s := rfl

@[simp] theorem run_cons (s : Scan) (c : Char) (cs : List Char) :
    s.run (c :: cs) = (s.step c).run cs := rfl

@[simp] theorem run_append (s : Scan) (cs ds : List Char) : s.run (cs ++ ds) = (s.run cs).run ds :=
  List.foldl_append

/-- A character between quotes. -/
theorem run_escapeChar (level deepest : Nat) (c : Char) :
    run ⟨.quoted, level, deepest⟩ (escapeChar c) = ⟨.quoted, level, deepest⟩ := by
  rcases escapeChar_cases c with ⟨letter, written, -⟩ | ⟨control, written⟩ |
    ⟨-, quote, backslash, written⟩
  · simp [written, step]
  · have plain : ∀ d < 16, Nat.digitChar d ≠ '\\' ∧ Nat.digitChar d ≠ '"' := by decide
    have high := plain (c.toNat / 16) (by omega)
    have low := plain (c.toNat % 16) (by omega)
    simp [written, hexDigits_control control, step, high, low]
  · simp [written, step, quote, backslash]

theorem run_writeText (level deepest : Nat) (s : String) :
    run ⟨.outside, level, deepest⟩ (writeText s) = ⟨.outside, level, deepest⟩ := by
  have inside : ∀ ds : List Char,
      run ⟨.quoted, level, deepest⟩ (ds.flatMap escapeChar) = ⟨.quoted, level, deepest⟩ := by
    intro ds
    induction ds with
    | nil => rfl
    | cons d ds ih => rw [List.flatMap_cons, run_append, run_escapeChar, ih]
  have opening : step ⟨.outside, level, deepest⟩ '"' = ⟨.quoted, level, deepest⟩ := rfl
  have closing : step ⟨.quoted, level, deepest⟩ '"' = ⟨.outside, level, deepest⟩ := rfl
  rw [writeText, List.cons_append, run_cons, opening, run_append, inside, run_cons, closing, run_nil]

/-- Characters that have no part in nesting. -/
theorem run_plain (level deepest : Nat) {cs : List Char}
    (plain : ∀ c ∈ cs, c ≠ '"' ∧ c ≠ '[' ∧ c ≠ ']' ∧ c ≠ '\x7b' ∧ c ≠ '\x7d') :
    run ⟨.outside, level, deepest⟩ cs = ⟨.outside, level, deepest⟩ := by
  induction cs with
  | nil => rfl
  | cons c cs ih =>
    obtain ⟨quote, bracket, close, brace, end_⟩ := plain c List.mem_cons_self
    have same : step ⟨.outside, level, deepest⟩ c = ⟨.outside, level, deepest⟩ := by
      simp [step, quote, bracket, close, brace, end_]
    rw [run_cons, same]
    exact ih fun d member => plain d (List.mem_cons_of_mem _ member)

theorem run_digits (level deepest n : Nat) :
    run ⟨.outside, level, deepest⟩ (Nat.toDigits 10 n) = ⟨.outside, level, deepest⟩ := by
  refine run_plain level deepest fun c member => ?_
  have other : ∀ d, d.isDigit = false → c ≠ d := fun d => ne_of_isDigit (isDigit_toDigits n c member)
  exact ⟨other _ rfl, other _ rfl, other _ rfl, other _ rfl, other _ rfl⟩

/-- A value written at a level that was reached before. -/
def Passes (j : Json) : Prop :=
  ∀ level deepest : Nat, level ≤ deepest →
    run ⟨.outside, level, deepest⟩ j.write = ⟨.outside, level, max deepest (level + j.depth)⟩

theorem run_comma (level deepest : Nat) (cs : List Char) :
    run ⟨.outside, level, deepest⟩ (',' :: cs) = run ⟨.outside, level, deepest⟩ cs := rfl

theorem run_moreItems {items : List Json} (passes : ∀ j ∈ items, Passes j) {level deepest : Nat}
    (reached : level ≤ deepest) :
    run ⟨.outside, level, deepest⟩ (writeMoreItems items) =
      ⟨.outside, level, max deepest (level + depthItems items)⟩ := by
  induction items generalizing deepest with
  | nil =>
    have same : max deepest (level + depthItems []) = deepest := by
      rw [depthItems]
      omega
    rw [same]
    rfl
  | cons j js ih =>
    have deeper : max (max deepest (level + j.depth)) (level + depthItems js) =
        max deepest (level + depthItems (j :: js)) := by
      rw [depthItems]
      omega
    rw [writeMoreItems, List.flatMap_cons, run_append, run_comma,
      passes j List.mem_cons_self level deepest reached, ← deeper]
    exact ih (fun k member => passes k (List.mem_cons_of_mem _ member)) (by omega)

theorem run_items {items : List Json} (passes : ∀ j ∈ items, Passes j) {level deepest : Nat}
    (reached : level ≤ deepest) :
    run ⟨.outside, level, deepest⟩ (writeItems items) =
      ⟨.outside, level, max deepest (level + depthItems items)⟩ := by
  have more := run_moreItems passes reached
  cases items with
  | nil => exact more
  | cons j js =>
    rw [writeItems_cons]
    exact more

theorem run_member {m : String × Json} (passes : Passes m.2) {level deepest : Nat}
    (reached : level ≤ deepest) :
    run ⟨.outside, level, deepest⟩ (writeMember m) =
      ⟨.outside, level, max deepest (level + m.2.depth)⟩ := by
  have colon : step ⟨.outside, level, deepest⟩ ':' = ⟨.outside, level, deepest⟩ := rfl
  rw [writeMember, run_append, run_writeText, run_cons, colon]
  exact passes level deepest reached

theorem run_moreMembers {members : List (String × Json)} (passes : ∀ m ∈ members, Passes m.2)
    {level deepest : Nat} (reached : level ≤ deepest) :
    run ⟨.outside, level, deepest⟩ (writeMoreMembers members) =
      ⟨.outside, level, max deepest (level + depthMembers members)⟩ := by
  induction members generalizing deepest with
  | nil =>
    have same : max deepest (level + depthMembers []) = deepest := by
      rw [depthMembers]
      omega
    rw [same]
    rfl
  | cons m ms ih =>
    have deeper : max (max deepest (level + m.2.depth)) (level + depthMembers ms) =
        max deepest (level + depthMembers (m :: ms)) := by
      rw [depthMembers]
      omega
    rw [writeMoreMembers, List.flatMap_cons, run_append, run_comma,
      run_member (passes m List.mem_cons_self) reached, ← deeper]
    exact ih (fun k member => passes k (List.mem_cons_of_mem _ member)) (by omega)

theorem run_members {members : List (String × Json)} (passes : ∀ m ∈ members, Passes m.2)
    {level deepest : Nat} (reached : level ≤ deepest) :
    run ⟨.outside, level, deepest⟩ (writeMembers members) =
      ⟨.outside, level, max deepest (level + depthMembers members)⟩ := by
  have more := run_moreMembers passes reached
  cases members with
  | nil => exact more
  | cons m ms =>
    rw [writeMembers_cons]
    exact more

/-- What stands in brackets counts one level more. -/
theorem run_enclosed {cs : List Char} {opening closing : Char} {level deepest inner : Nat}
    (opens : opening = '[' ∨ opening = '\x7b') (closes : closing = ']' ∨ closing = '\x7d')
    (inside : run ⟨.outside, level + 1, max deepest (level + 1)⟩ cs =
      ⟨.outside, level + 1, max (max deepest (level + 1)) (level + 1 + inner)⟩) :
    run ⟨.outside, level, deepest⟩ (opening :: cs ++ [closing]) =
      ⟨.outside, level, max deepest (level + (inner + 1))⟩ := by
  have first : step ⟨.outside, level, deepest⟩ opening =
      ⟨.outside, level + 1, max deepest (level + 1)⟩ := by
    rcases opens with rfl | rfl <;> rfl
  have last : ∀ most, step ⟨.outside, level + 1, most⟩ closing = ⟨.outside, level, most⟩ := by
    intro most
    rcases closes with rfl | rfl <;> rfl
  have most : max (max deepest (level + 1)) (level + 1 + inner) =
      max deepest (level + (inner + 1)) := by
    omega
  rw [List.cons_append, run_cons, first, run_append, inside, run_cons, last, run_nil, most]

theorem passes_of_exact {j : Json} (exact : j.Exact) : Passes j := by
  have flat : ∀ {level deepest : Nat}, level ≤ deepest → max deepest (level + 0) = deepest := by
    intro level deepest reached
    omega
  induction exact with
  | null =>
    intro level deepest reached
    rw [depth, flat reached, write]
    · exact run_plain level deepest (by simp)
    all_goals simp
  | bool b =>
    intro level deepest reached
    rw [depth, flat reached]
    · cases b <;> exact run_plain level deepest (by simp [write])
    all_goals simp
  | @integer n least most =>
    intro level deepest reached
    have sign : step ⟨.outside, level, deepest⟩ '-' = ⟨.outside, level, deepest⟩ := rfl
    rw [depth, flat reached, write_integer]
    · split
      · rw [run_cons, sign, run_digits]
      · exact run_digits level deepest n.natAbs
    all_goals simp
  | text s =>
    intro level deepest reached
    rw [depth, flat reached, write]
    · exact run_writeText level deepest s
    all_goals simp
  | array each ih =>
    intro level deepest reached
    rw [write, depth]
    exact run_enclosed (Or.inl rfl) (Or.inl rfl) (run_items ih (by omega))
  | object each ih =>
    intro level deepest reached
    rw [write, depth]
    exact run_enclosed (Or.inr rfl) (Or.inr rfl) (run_members ih (by omega))

end Scan

/-- How many arrays and objects are nested in a text. -/
def nesting (text : String) : Nat := (Scan.run {} text.toList).deepest

theorem Exact.nesting_render {j : Json} (exact : j.Exact) : nesting j.render = j.depth := by
  have passed := Scan.passes_of_exact exact 0 0 (Nat.le_refl 0)
  have whole : nesting j.render = (Scan.run ⟨.outside, 0, 0⟩ j.write).deepest := by
    rw [nesting, render, String.toList_ofList]
  rw [whole, passed]
  exact (Nat.zero_max _).trans (Nat.zero_add _)

end ScriptEngine.Json
