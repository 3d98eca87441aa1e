import ScriptEngine.Json.Fault

/-!
# Records

A record has named fields in a fixed order. A document gives them as the members of an object, in any
order and beside members of other names, or as the items of an array, in the fixed order. A field with
a stand-in may be left out; in an array only fields at the end can be.
-/

namespace ScriptEngine.Json

/-- Decoding yields a result or the way in which the shape is wrong. -/
abbrev Decoding := Except ShapeError

structure FieldSpec (α : Type) where
  name : String
  read : Json → Decoding α
  /-- What stands for a field that was left out. -/
  absent : Option α := none

/-- The fields of a record, one for each type. -/
inductive Row : List Type → Type 1 where
  | done : Row []
  | field {α : Type} {αs : List Type} (f : FieldSpec α) (rest : Row αs) : Row (α :: αs)

/-- Fields met so far. -/
def Slots : List Type → Type
  | [] => Unit
  | α :: αs => Option α × Slots αs

/-- A value for every field. -/
def Fields : List Type → Type
  | [] => Unit
  | α :: αs => α × Fields αs

/-- The parts of a record as a document gives them. -/
inductive Parts where
  | members (members : List (String × Json))
  | items (items : List Json)

namespace Row

def size {αs : List Type} : Row αs → Nat
  | .done => 0
  | .field _ rest => rest.size + 1

def blank {αs : List Type} : Row αs → Slots αs
  | .done => ()
  | .field _ rest => (none, rest.blank)

/-- Take in one member. A name that belongs to no field is passed over. -/
def fill {αs : List Type} (key : String) (value : Json) : Row αs → Slots αs → Decoding (Slots αs)
  | .done, () => .ok ()
  | .field f rest, (slot, slots) =>
      if key = f.name then
        match slot with
        | some _ => .error (.duplicateField f.name)
        | none => do return (some (← f.read value), slots)
      else do return (slot, ← rest.fill key value slots)

/-- Take in members in document order. -/
def fillAll {αs : List Type} (row : Row αs) : List (String × Json) → Slots αs → Decoding (Slots αs)
  | [], slots => .ok slots
  | (key, value) :: members, slots => do row.fillAll members (← row.fill key value slots)

/-- Every field needs a value or a stand-in. -/
def close {αs : List Type} : Row αs → Slots αs → Decoding (Fields αs)
  | .done, () => .ok ()
  | .field f rest, (slot, slots) =>
      match slot.or f.absent with
      | some x => do return (x, ← rest.close slots)
      | none => .error (.missingField f.name)

/-- Take the fields from the items of an array; the items left over come back. -/
def ofItems {αs : List Type} (expected : String) :
    Row αs → (index : Nat) → List Json → Decoding (Fields αs × List Json)
  | .done, _, items => .ok ((), items)
  | .field f rest, index, [] =>
      match f.absent with
      | some x => do
          let (xs, items) ← rest.ofItems expected (index + 1) []
          return ((x, xs), items)
      | none => .error (.invalidLength index expected)
  | .field f rest, index, item :: items => do
      let x ← f.read item
      let (xs, items) ← rest.ofItems expected (index + 1) items
      return ((x, xs), items)

/-- Decode the parts of the record called `name`. -/
def decode {αs : List Type} (row : Row αs) (name : String) : Parts → Decoding (Fields αs)
  | .members members => do row.close (← row.fillAll members row.blank)
  | .items items => do
      let (xs, rest) ← row.ofItems s!"struct {name} with {row.size} elements" 0 items
      if rest.isEmpty then return xs
      else .error (.invalidLength items.length s!"{row.size} elements in sequence")

end Row

def invalidType {α : Type} (j : Json) (expected : String) : Decoding α :=
  .error (.invalidType (.ofJson j) expected)

def asText : Json → Decoding String
  | .text s => .ok s
  | j => invalidType j "a string"

/-- A text, or none for `null`. -/
def asText? : Json → Decoding (Option String)
  | .null => .ok none
  | j => do return some (← asText j)

def asBool : Json → Decoding Bool
  | .bool b => .ok b
  | j => invalidType j "a boolean"

def asLine : Json → Decoding UInt32
  | .integer n =>
      if 0 ≤ n ∧ n < 0x100000000 then .ok (UInt32.ofNat n.toNat)
      else .error (.invalidValue (.integer n) "u32")
  | j => invalidType j "u32"

def asList {α : Type} (read : Json → Decoding α) : Json → Decoding (List α)
  | .array items => items.mapM read
  | j => invalidType j "a sequence"

/-- A pair is an array of exactly two items. -/
def asPair {α β : Type} (first : Json → Decoding α) (second : Json → Decoding β) :
    Json → Decoding (α × β)
  | .array [] => .error (.invalidLength 0 "a tuple of size 2")
  | .array [a] => do
      let _ ← first a
      .error (.invalidLength 1 "a tuple of size 2")
  | .array (a :: b :: rest) => do
      let x ← first a
      let y ← second b
      if rest.isEmpty then return (x, y)
      else .error (.invalidLength (rest.length + 2) "2 elements in sequence")
  | j => invalidType j "a tuple of size 2"

end ScriptEngine.Json
