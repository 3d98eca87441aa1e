import ScriptEngine.Json.Basic
import ScriptEngine.Text.Quoted

/-!
# Faulty documents

A document can end too early, be malformed, or hold well-formed JSON of the wrong shape. Only the
last kind has a wording.
-/

namespace ScriptEngine

/-- What stood in a place where something else was expected. -/
inductive Found where
  | null
  | bool (b : Bool)
  | integer (n : Int)
  | decimal (d : Decimal)
  | text (s : String)
  | sequence
  | map
  deriving DecidableEq, Repr

namespace Found

def ofJson : Json → Found
  | .null => .null
  | .bool b => .bool b
  | .integer n => .integer n
  | .decimal d => .decimal d
  | .text s => .text s
  | .array _ => .sequence
  | .object _ => .map

def describe : Found → String
  | .null => "null"
  | .bool b => s!"boolean `{b}`"
  | .integer n => s!"integer `{n}`"
  | .decimal d => s!"floating point `{d.text}`"
  | .text s => s!"string {Text.quoted s}"
  | .sequence => "sequence"
  | .map => "map"

end Found

/-- How a well-formed document differs from what was expected. -/
inductive ShapeError where
  | invalidType (found : Found) (expected : String)
  | invalidValue (found : Found) (expected : String)
  | invalidLength (length : Nat) (expected : String)
  | missingField (name : String)
  | duplicateField (name : String)
  | unknownVariant (name : String) (variants : List String)
  | noVariant (type : String)
  deriving DecidableEq, Repr

namespace ShapeError

def message : ShapeError → String
  | .invalidType found expected => s!"invalid type: {found.describe}, expected {expected}"
  | .invalidValue found expected => s!"invalid value: {found.describe}, expected {expected}"
  | .invalidLength length expected => s!"invalid length {length}, expected {expected}"
  | .missingField name => s!"missing field `{name}`"
  | .duplicateField name => s!"duplicate field `{name}`"
  | .unknownVariant name variants =>
      let known := ", ".intercalate (variants.map fun v => "`" ++ v ++ "`")
      s!"unknown variant `{name}`, expected one of {known}"
  | .noVariant type => s!"data did not match any variant of untagged enum {type}"

end ShapeError

/-- Why a document could not be read. -/
inductive DocumentError where
  /-- The text stops in the middle of something. -/
  | ended
  /-- The text is no JSON. -/
  | malformed
  | shape (error : ShapeError)
  deriving DecidableEq, Repr

end ScriptEngine
