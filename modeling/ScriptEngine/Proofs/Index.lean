import ScriptEngine.Index
import Mathlib.Data.List.Nodup

/-!
# Names in the order of their first arrival

An index that agrees with its names tells them apart: no name stands twice, and the place of a name is
where a search would find it. Whatever adds a name exactly if it is new lists the names it was given in
the order of their first occurrences.
-/

namespace ScriptEngine

namespace Indexes

variable {index : List (String × Nat)} {names : List String}

theorem nodup (indexes : Indexes index names) : names.Nodup := by
  rw [List.nodup_iff_getElem?_ne_getElem?]
  intro i j before inside same
  have found : names[i]? = some names[j] := by rw [same, List.getElem?_eq_getElem inside]
  have first := (indexes names[j] i).mpr found
  have second := (indexes names[j] j).mpr (List.getElem?_eq_getElem inside)
  have one : i = j := Option.some.inj (first.symm.trans second)
  omega

theorem lookup_eq_idxOf? (indexes : Indexes index names) (name : String) :
    index.lookup name = names.idxOf? name := by
  cases found : index.lookup name with
  | none => exact (List.idxOf?_eq_none_iff.mpr (indexes.lookup_eq_none_iff.mp found)).symm
  | some place =>
    obtain ⟨inside, same⟩ := List.getElem?_eq_some_iff.mp ((indexes name place).mp found)
    refine (List.idxOf?_eq_some_iff.mpr ⟨inside, same, ?_⟩).symm
    intro j before equal
    have again := (indexes name j).mpr (List.getElem?_eq_some_iff.mpr ⟨by omega, equal⟩)
    have one : j = place := Option.some.inj (again.symm.trans found)
    omega

end Indexes

theorem eraseDups_concat (names : List String) (name : String) :
    (names ++ [name]).eraseDups =
      if name ∈ names.eraseDups then names.eraseDups else names.eraseDups ++ [name] := by
  rw [List.eraseDups_append]
  by_cases known : name ∈ names
  · simp [List.removeAll, List.mem_eraseDups, known]
  · simp [List.removeAll, List.mem_eraseDups, known, List.eraseDups_cons]

/-- Items are taken in one after the other, and the name of an item is put behind the names known so far
unless it is among them. -/
theorem names_foldl {σ α : Type} (names : σ → List String) (step : σ → α → σ) (name : α → String)
    (adds : ∀ s a, names (step s a) = if name a ∈ names s then names s else names s ++ [name a])
    {s : σ} {before : List String} (start : names s = before.eraseDups) (items : List α) :
    names (items.foldl step s) = (before ++ items.map name).eraseDups := by
  induction items generalizing s before with
  | nil => simpa using start
  | cons a rest ih =>
    have next : names (step s a) = (before ++ [name a]).eraseDups := by
      rw [adds, start, eraseDups_concat]
    simpa using ih next

end ScriptEngine
