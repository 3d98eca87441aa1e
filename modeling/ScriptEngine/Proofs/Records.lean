import ScriptEngine.Proofs.Documents

/-!
# Records in documents

A document gives the fields of a record as members in any order, beside members of other names, or as
items in the order of the record. Here it is said what such parts hold, field by field, and that decoding
finds it. Conversely, whatever is decoded was found in some part, or stands for a field that was left out.
-/

namespace ScriptEngine.Json

/-- What a document may give for a field: trees that hold its value, or nothing at all if that value is
the one that stands for a field left out. -/
structure Holding where
  name : String
  holds : Json → Prop
  optional : Prop

/-- The values of the members with a name, in order. -/
def named (name : String) (members : List (String × Json)) : List Json :=
  (members.filter fun m => m.1 = name).map (·.2)

/-- The field is among the members once, or left out. Members of other names do not matter. -/
def Holding.InMembers (h : Holding) (members : List (String × Json)) : Prop :=
  (∃ v, named h.name members = [v] ∧ h.holds v) ∨ (named h.name members = [] ∧ h.optional)

/-- The items are the fields in order. Fields at the end may be left out. -/
inductive ItemsHold : List Holding → List Json → Prop
  | done : ItemsHold [] []
  | item {h : Holding} {hs : List Holding} {v : Json} {vs : List Json} (holds : h.holds v)
      (later : ItemsHold hs vs) : ItemsHold (h :: hs) (v :: vs)
  | left {h : Holding} {hs : List Holding} (optional : h.optional) (later : ItemsHold hs []) :
      ItemsHold (h :: hs) []

/-- The parts give the fields. -/
def Parts.Hold (hs : List Holding) : Parts → Prop
  | .members ms => ∀ h ∈ hs, h.InMembers ms
  | .items vs => ItemsHold hs vs

def Parts.depth : Parts → Nat
  | .members ms => depthMembers ms
  | .items vs => depthItems vs

theorem depth_le_depthItems {v : Json} {items : List Json} (member : v ∈ items) :
    v.depth ≤ depthItems items := by
  induction items with
  | nil => cases member
  | cons j js ih =>
    rw [depthItems]
    rcases List.mem_cons.mp member with rfl | later
    · omega
    · have deep := ih later
      omega

theorem depth_le_depthMembers {key : String} {v : Json} {members : List (String × Json)}
    (member : (key, v) ∈ members) : v.depth ≤ depthMembers members := by
  induction members with
  | nil => cases member
  | cons m ms ih =>
    obtain ⟨k, j⟩ := m
    rw [depthMembers]
    rcases List.mem_cons.mp member with same | later
    · cases same
      omega
    · have deep := ih later
      omega

theorem named_cons_same (name : String) (v : Json) (members : List (String × Json)) :
    named name ((name, v) :: members) = v :: named name members := by
  simp [named]

theorem named_cons_other {name key : String} (other : key ≠ name) (v : Json)
    (members : List (String × Json)) : named name ((key, v) :: members) = named name members := by
  simp [named, other]

theorem mem_of_mem_named {name : String} {v : Json} {members : List (String × Json)}
    (member : v ∈ named name members) : (name, v) ∈ members := by
  obtain ⟨m, kept, rfl⟩ := List.mem_map.mp member
  obtain ⟨inside, same⟩ := List.mem_filter.mp kept
  have key : m.1 = name := by simpa using same
  rw [← key]
  exact inside

theorem named_eq_nil_iff {name : String} {members : List (String × Json)} :
    named name members = [] ↔ name ∉ members.map (·.1) := by
  rw [named, List.map_eq_nil_iff, List.filter_eq_nil_iff, List.mem_map]
  constructor
  · rintro none_kept ⟨m, member, rfl⟩
    exact none_kept m member (by simp)
  · intro other m member same
    exact other ⟨m, member, by simpa using same⟩

@[simp] theorem decoded_bind {α β : Type} (a : α) (f : α → Decoding β) : (.ok a >>= f) = f a := rfl

theorem bind_eq_ok {ε α β : Type} {r : Except ε α} {f : α → Except ε β} {b : β}
    (done : (r >>= f) = .ok b) : ∃ a, r = .ok a ∧ f a = .ok b := by
  cases r with
  | error e => cases done
  | ok a => exact ⟨a, rfl, done⟩

namespace Row

/-- A name that belongs to no field. -/
theorem fill_other {αs : List Type} {row : Row αs} {key : String} (other : key ∉ row.names)
    (value : Json) (slots : Slots αs) : row.fill key value slots = .ok slots := by
  induction row with
  | done => rfl
  | field f rest ih =>
    obtain ⟨slot, slots⟩ := slots
    simp only [names, List.mem_cons, not_or] at other
    simp only [fill, ih other.2]
    exact if_neg other.1

theorem fillAll_done (members : List (String × Json)) : Row.done.fillAll members () = .ok () := by
  induction members with
  | nil => rfl
  | cons m ms ih => exact ih

/-- The only member with the name of a field fills its slot, wherever it stands. -/
theorem fillAll_single {α : Type} {αs : List Type} {f : FieldSpec α} {rest : Row αs}
    {members : List (String × Json)} {v : Json} {x : α} (single : named f.name members = [v])
    (read : f.read v = .ok x) (apart : f.name ∉ rest.names) {slots slots' : Slots αs}
    (filled : rest.fillAll members slots = .ok slots') :
    (Row.field f rest).fillAll members (none, slots) = .ok (some x, slots') := by
  induction members generalizing slots with
  | nil => cases single
  | cons m ms ih =>
    obtain ⟨key, value⟩ := m
    by_cases same : key = f.name
    · subst same
      rw [named_cons_same] at single
      obtain ⟨rfl, none_left⟩ := List.cons.inj single
      have taken : (Row.field f rest).fill f.name value (none, slots) = .ok (some x, slots) := by
        rw [fill, read]
        exact if_pos rfl
      simp only [fillAll, fill_other apart] at filled
      simp only [fillAll, taken]
      exact fillAll_other f rest (some x) (named_eq_nil_iff.mp none_left) filled
    · rw [named_cons_other same] at single
      simp only [fillAll] at filled
      cases first : rest.fill key value slots with
      | error e =>
        rw [first] at filled
        cases filled
      | ok next =>
        rw [first] at filled
        have kept : (Row.field f rest).fill key value (none, slots) = .ok (none, next) := by
          rw [fill, first]
          exact if_neg same
        simp only [fillAll, kept]
        exact ih single filled

/-- Each field of the row reads what the holding for it holds, in trees up to a depth, as `xs`. -/
inductive Meets (limit : Nat) : {αs : List Type} → Row αs → List Holding → Fields αs → Prop
  | done : Meets limit .done [] ()
  | field {α : Type} {αs : List Type} {f : FieldSpec α} {rest : Row αs} {h : Holding}
      {hs : List Holding} {x : α} {xs : Fields αs} (name : h.name = f.name)
      (read : ∀ v, h.holds v → v.depth ≤ limit → f.read v = .ok x)
      (absent : h.optional → f.absent = some x) (later : Meets limit rest hs xs) :
      Meets limit (.field f rest) (h :: hs) (x, xs)

theorem Meets.fillAll {limit : Nat} {αs : List Type} {row : Row αs} {hs : List Holding}
    {xs : Fields αs} (meets : row.Meets limit hs xs) (distinct : row.names.Nodup)
    {members : List (String × Json)} (hold : ∀ h ∈ hs, h.InMembers members)
    (fits : depthMembers members ≤ limit) :
    ∃ slots, row.fillAll members row.blank = .ok slots ∧ row.close slots = .ok xs := by
  induction meets with
  | done => exact ⟨(), fillAll_done members, rfl⟩
  | @field α αs f rest h hs x xs name read absent later ih =>
    obtain ⟨apart, distinct⟩ := List.nodup_cons.mp distinct
    obtain ⟨slots, filled, closed⟩ := ih distinct fun k member => hold k (List.mem_cons_of_mem _ member)
    rcases hold h List.mem_cons_self with ⟨v, single, holds⟩ | ⟨none_there, optional⟩
    · have deep : v.depth ≤ limit := by
        have inside := depth_le_depthMembers (mem_of_mem_named (v := v) (by rw [single]; simp))
        omega
      rw [name] at single
      refine ⟨(some x, slots), fillAll_single single (read v holds deep) apart filled, ?_⟩
      simp only [close, Option.some_or, closed]
      rfl
    · rw [name] at none_there
      refine ⟨(none, slots), fillAll_other f rest none (named_eq_nil_iff.mp none_there) filled, ?_⟩
      simp only [close, Option.none_or, absent optional, closed]
      rfl

theorem Meets.ofItems {limit : Nat} {αs : List Type} {row : Row αs} {hs : List Holding}
    {xs : Fields αs} (meets : row.Meets limit hs xs) {items : List Json} (hold : ItemsHold hs items)
    (fits : depthItems items ≤ limit) (expected : String) (index : Nat) :
    row.ofItems expected index items = .ok (xs, []) := by
  induction meets generalizing items index with
  | done =>
    cases hold
    rfl
  | @field α αs f rest h hs x xs name read absent later ih =>
    cases hold with
    | item holds tail =>
      rw [depthItems, Nat.max_le] at fits
      rw [Row.ofItems, read _ holds fits.1]
      simp only [decoded_bind, ih tail fits.2 (index + 1)]
      rfl
    | left optional tail =>
      rw [Row.ofItems, absent optional]
      simp only [ih tail fits (index + 1)]
      rfl

/-- A record is decoded from parts that hold its fields. -/
theorem Meets.decode {limit : Nat} {αs : List Type} {row : Row αs} {hs : List Holding}
    {xs : Fields αs} (meets : row.Meets limit hs xs) (distinct : row.names.Nodup) {parts : Parts}
    (hold : parts.Hold hs) (fits : parts.depth ≤ limit) (name : String) :
    row.decode name parts = .ok xs := by
  cases parts with
  | members members =>
    obtain ⟨slots, filled, closed⟩ := meets.fillAll distinct hold fits
    simp only [Row.decode, filled]
    exact closed
  | items items =>
    simp only [Row.decode, meets.ofItems hold fits]
    rfl

theorem Meets.decode_bind {limit : Nat} {αs : List Type} {row : Row αs} {hs : List Holding}
    {xs : Fields αs} {β : Type} {f : Fields αs → Decoding β} {b : β} {name : String}
    (meets : row.Meets limit hs xs) (distinct : row.names.Nodup) {parts : Parts}
    (hold : parts.Hold hs) (fits : parts.depth ≤ limit) (made : f xs = .ok b) :
    (row.decode name parts >>= f) = .ok b := by
  rw [meets.decode distinct hold fits name]
  exact made

/-- Each value was read from a tree that satisfies `P`, or stands for a field left out. -/
inductive Taken (P : Json → Prop) : {αs : List Type} → Row αs → Fields αs → Prop
  | done : Taken P .done ()
  | field {α : Type} {αs : List Type} {f : FieldSpec α} {rest : Row αs} {x : α} {xs : Fields αs}
      (source : (∃ v, P v ∧ f.read v = .ok x) ∨ f.absent = some x) (later : Taken P rest xs) :
      Taken P (.field f rest) (x, xs)

/-- The same of slots, which may be empty. -/
inductive Filled (P : Json → Prop) : {αs : List Type} → Row αs → Slots αs → Prop
  | done : Filled P .done ()
  | field {α : Type} {αs : List Type} {f : FieldSpec α} {rest : Row αs} {slot : Option α}
      {slots : Slots αs} (source : ∀ x, slot = some x → ∃ v, P v ∧ f.read v = .ok x)
      (later : Filled P rest slots) : Filled P (.field f rest) (slot, slots)

theorem filled_blank (P : Json → Prop) {αs : List Type} (row : Row αs) : Filled P row row.blank := by
  induction row with
  | done => exact .done
  | field f rest ih =>
    refine .field ?_ ih
    intro x none_there
    cases none_there

theorem Filled.fill {P : Json → Prop} {αs : List Type} {row : Row αs} {slots slots' : Slots αs}
    (filled : Filled P row slots) {key : String} {value : Json} (good : P value)
    (step : row.fill key value slots = .ok slots') : Filled P row slots' := by
  induction filled with
  | done => exact .done
  | @field α αs f rest slot slots source later ih =>
    by_cases same : key = f.name
    · cases slot with
      | some y =>
        have refused : (Row.field f rest).fill key value (some y, slots) =
            .error (.duplicateField f.name) := if_pos same
        rw [refused] at step
        cases step
      | none =>
        have taken : (Row.field f rest).fill key value (none, slots) =
            (f.read value >>= fun x => .ok (some x, slots)) := if_pos same
        rw [taken] at step
        obtain ⟨x, read, filled⟩ := bind_eq_ok step
        cases filled
        refine .field ?_ later
        intro y found
        cases found
        exact ⟨value, good, read⟩
    · have kept : (Row.field f rest).fill key value (slot, slots) =
          (rest.fill key value slots >>= fun next => .ok (slot, next)) := if_neg same
      rw [kept] at step
      obtain ⟨next, step', filled⟩ := bind_eq_ok step
      cases filled
      exact .field source (ih step')

theorem Filled.fillAll {P : Json → Prop} {αs : List Type} {row : Row αs}
    {members : List (String × Json)} (good : ∀ key v, (key, v) ∈ members → P v)
    {slots slots' : Slots αs} (filled : Filled P row slots)
    (done : row.fillAll members slots = .ok slots') : Filled P row slots' := by
  induction members generalizing slots with
  | nil =>
    cases done
    exact filled
  | cons m ms ih =>
    obtain ⟨key, value⟩ := m
    obtain ⟨next, step, rest⟩ := bind_eq_ok done
    exact ih (fun k v member => good k v (List.mem_cons_of_mem _ member))
      (filled.fill (good key value List.mem_cons_self) step) rest

theorem Filled.close {P : Json → Prop} {αs : List Type} {row : Row αs} {slots : Slots αs}
    {xs : Fields αs} (filled : Filled P row slots) (closed : row.close slots = .ok xs) :
    Taken P row xs := by
  induction filled with
  | done =>
    cases closed
    exact .done
  | @field α αs f rest slot slots source later ih =>
    rw [Row.close] at closed
    split at closed
    · rename_i x found
      obtain ⟨ys, closed', same⟩ := bind_eq_ok closed
      cases same
      refine .field ?_ (ih closed')
      rcases Option.or_eq_some_iff.mp found with there | ⟨-, absent⟩
      · exact Or.inl (source x there)
      · exact Or.inr absent
    · cases closed

theorem taken_of_ofItems {P : Json → Prop} {αs : List Type} {row : Row αs} {items rest : List Json}
    {xs : Fields αs} {expected : String} {index : Nat} (good : ∀ v ∈ items, P v)
    (done : row.ofItems expected index items = .ok (xs, rest)) : Taken P row xs := by
  induction row generalizing items index with
  | done =>
    cases done
    exact .done
  | field f row ih =>
    cases items with
    | nil =>
      rw [Row.ofItems] at done
      split at done
      · rename_i x absent
        obtain ⟨⟨ys, left⟩, done', same⟩ := bind_eq_ok done
        cases same
        exact .field (Or.inr absent) (ih good done')
      · cases done
    | cons v vs =>
      rw [Row.ofItems] at done
      obtain ⟨x, read, done⟩ := bind_eq_ok done
      obtain ⟨⟨ys, left⟩, done', same⟩ := bind_eq_ok done
      cases same
      exact .field (Or.inl ⟨v, good v List.mem_cons_self, read⟩)
        (ih (fun u member => good u (List.mem_cons_of_mem _ member)) done')

/-- What was decoded was among the parts, or left out. -/
theorem taken_of_decode {αs : List Type} {row : Row αs} {parts : Parts} {xs : Fields αs}
    {name : String} (done : row.decode name parts = .ok xs) :
    Taken (fun v => v.depth ≤ parts.depth) row xs := by
  cases parts with
  | members members =>
    obtain ⟨slots, filled, closed⟩ := bind_eq_ok done
    refine Filled.close ?_ closed
    exact (filled_blank _ row).fillAll (fun key v member => depth_le_depthMembers member) filled
  | items items =>
    obtain ⟨⟨ys, left⟩, done', last⟩ := bind_eq_ok done
    dsimp only at last
    split at last
    · cases last
      exact taken_of_ofItems (fun v member => depth_le_depthItems member) done'
    · cases last

end Row

end ScriptEngine.Json
