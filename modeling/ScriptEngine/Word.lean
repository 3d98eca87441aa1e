import ScriptEngine.Value

/-!
# Words

Running code sees a value as one 64-bit word: a quiet not-a-number whose bits 48 to 50 name the kind of
value and whose low bits carry the payload. A heap value is carried as the 48-bit address of its
allocation. One kind is set aside for failures and encodes no value.
-/

namespace ScriptEngine.Word

/-- The bits every word has set. -/
def base : UInt64 := 0xFFF8000000000000

def tagMask : UInt64 := 0x0007000000000000
def objectTag : UInt64 := 0x0000000000000000
def intTag : UInt64 := 0x0001000000000000
def boolTag : UInt64 := 0x0002000000000000
def textTag : UInt64 := 0x0003000000000000
def undefinedTag : UInt64 := 0x0005000000000000
def nullTag : UInt64 := 0x0006000000000000
def failureTag : UInt64 := 0x0007000000000000

/-- The bits of a word that carry a payload. -/
def payloadMask : UInt64 := 0x0000FFFFFFFFFFFF

def undefined : UInt64 := base ||| undefinedTag
def null : UInt64 := base ||| nullTag
def falseWord : UInt64 := base ||| boolTag
def trueWord : UInt64 := base ||| boolTag ||| 1

/-- The word returned in place of a value after a failure. -/
def failure : UInt64 := base ||| failureTag

/-- An integer, its sign extended over the payload. -/
def ofInt (n : Int32) : UInt64 := base ||| intTag ||| (n.toInt64.toUInt64 &&& payloadMask)

/-- What every integer word has set. -/
def intBase : UInt64 := base ||| intTag

/-- The constant that stands in code for an integer literal. -/
def constant (n : Int32) : UInt64 := intBase ||| (n.toInt64.toUInt64 &&& payloadMask)

/-- The word of a value; `address` is where it is allocated, if it lives on the heap. -/
def encode (address : UInt64) : Value → UInt64
  | .undefined => undefined
  | .null => null
  | .bool false => falseWord
  | .bool true => trueWord
  | .int n => ofInt n
  | .text _ => base ||| textTag ||| (address &&& payloadMask)
  | .object _ => base ||| objectTag ||| (address &&& payloadMask)

/-- What is allocated at the addresses of the heap. -/
structure Memory where
  object : UInt64 → ObjectId
  text : UInt64 → String

/-- The value of a word. Integers take the low 32 bits and booleans the lowest bit; `null` is one word
only, and whatever encodes no value reads as `undefined`. -/
def decode (memory : Memory) (w : UInt64) : Value :=
  if w &&& base ≠ base then .undefined
  else if w &&& tagMask = objectTag then .object (memory.object (w &&& payloadMask))
  else if w &&& tagMask = intTag then .int w.toUInt32.toInt32
  else if w &&& tagMask = boolTag then .bool (w &&& 1 ≠ 0)
  else if w &&& tagMask = textTag then .text (memory.text (w &&& payloadMask))
  else if w = null then .null
  else .undefined

/-- A memory that holds one value at every address. -/
def Memory.holding (v : Value) : Memory where
  object := fun _ => v.object?.getD 0
  text := fun _ => v.text?.getD ""

/-- The truth of a value, read off its word. -/
def truth (w : UInt64) : Bool := !(w == null || w == undefined || w == falseWord)

/-- The flag that comes of comparing a word with a constant. -/
def equalFlag (w c : UInt64) : UInt8 := if w = c then 1 else 0

/-- The flag on which code branches: it is zero for the word of a value that is not true. -/
def truthFlag (w : UInt64) : UInt8 :=
  (equalFlag w null ||| equalFlag w undefined ||| equalFlag w falseWord) ^^^ 1

end ScriptEngine.Word
