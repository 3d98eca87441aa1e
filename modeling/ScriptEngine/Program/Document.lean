import ScriptEngine.Program.Decode
import ScriptEngine.Json.Skip

/-!
# Reading program documents

A document is read from front to back, and the first thing found wrong with it is reported. The
outermost block is decoded while it is read: its members one by one, its instructions one by one. An
instruction of it, or a document that is one expression, is first read to its end and then decoded;
only its kind is looked at as soon as it is met.
-/

namespace ScriptEngine

open Json (Reading readValue readItems readText readNumber readColon skipBlanks skipValue nextItem
  nextKey closeArray closeObject asLine fuelFor)

namespace Document

/-- How many arrays and objects a document may nest. -/
def maxDepth : Nat := 127

/-- Decoding a tree that was read. -/
def ofDecoding {α : Type} : Except ShapeError α → Reading α
  | .ok a => .ok a
  | .error e => .error (.shape e)

def shape {α : Type} (e : ShapeError) : Reading α := .error (.shape e)

/-- A value that can not be used here. Arrays and objects are not read to their end. -/
def wrongType {α : Type} (fuel : Nat) (expected : String) (cs : List Char) : Reading α :=
  match skipBlanks cs with
  | '[' :: _ => shape (.invalidType .sequence expected)
  | '\x7b' :: _ => shape (.invalidType .map expected)
  | cs => do
      let (j, _) ← readValue fuel 0 cs
      shape (.invalidType (.ofJson j) expected)

/-- A kind by its name. -/
def readKind (fuel : Nat) (cs : List Char) : Reading (Kind × List Char) :=
  match skipBlanks cs with
  | '"' :: cs => do
      let (s, cs) ← readText fuel cs
      return (← ofDecoding (Kind.ofText s), cs)
  | cs => wrongType fuel kindExpected cs

/-- The members of a node from here on, its kind apart, and the closing brace. -/
def readTagged : (fuel depth : Nat) → (first : Bool) → Option Kind → List Char →
    Reading ((Kind × List (String × Json)) × List Char)
  | 0, _, _, _, _ => .error .ended
  | fuel + 1, depth, first, kind, cs => do
      match ← nextKey first cs with
      | none =>
          match kind with
          | none => shape (.missingField kindKey)
          | some kind => return ((kind, []), ← closeObject cs)
      | some cs =>
          let (key, cs) ← readText fuel cs
          if key = kindKey then
            match kind with
            | some _ => shape (.duplicateField kindKey)
            | none =>
                let (kind, cs) ← readKind fuel (← readColon cs)
                readTagged fuel depth false (some kind) cs
          else
            let (value, cs) ← readValue fuel depth (← readColon cs)
            let ((kind, members), cs) ← readTagged fuel depth false kind cs
            return ((kind, (key, value) :: members), cs)

/-- One expression, read to its end and then decoded. -/
def readExpr (fuel depth : Nat) (cs : List Char) : Reading (Expr × List Char) :=
  match skipBlanks cs with
  | '[' :: cs =>
      match depth with
      | 0 => .error .malformed
      | depth + 1 => do
          match ← nextItem true cs with
          | none => shape (.missingField kindKey)
          | some cs =>
              let (kind, cs) ← readKind fuel cs
              let (items, cs) ← readItems fuel depth false cs
              return (← ofDecoding (decodeParts (decodeExpr depth) kind (.items items)), cs)
  | '\x7b' :: cs =>
      match depth with
      | 0 => .error .malformed
      | depth + 1 => do
          let ((kind, members), cs) ← readTagged fuel depth true none cs
          return (← ofDecoding (decodeParts (decodeExpr depth) kind (.members members)), cs)
  | cs => wrongType fuel nodeExpected cs

/-- The instructions of the outermost block from here on, and the closing bracket. -/
def readInstrs : (fuel depth : Nat) → (first : Bool) → List Char → Reading (List Expr × List Char)
  | 0, _, _, _ => .error .ended
  | fuel + 1, depth, first, cs => do
      match ← nextItem first cs with
      | none => return ([], ← closeArray cs)
      | some cs =>
          let (instr, cs) ← readExpr fuel depth cs
          let (instrs, cs) ← readInstrs fuel depth false cs
          return (instr :: instrs, cs)

/-- The list of instructions of the outermost block. -/
def readBody (fuel depth : Nat) (cs : List Char) : Reading (List Expr × List Char) :=
  match skipBlanks cs with
  | '[' :: cs =>
      match depth with
      | 0 => .error .malformed
      | depth + 1 => readInstrs fuel depth true cs
  | cs => wrongType fuel "a sequence" cs

/-- The line of the outermost block. -/
def readLine (fuel : Nat) (cs : List Char) : Reading (UInt32 × List Char) :=
  match skipBlanks cs with
  | '-' :: cs => do
      let (j, cs) ← readNumber true cs
      return (← ofDecoding (asLine j), cs)
  | c :: cs =>
      if c.isDigit then do
        let (j, cs) ← readNumber false (c :: cs)
        return (← ofDecoding (asLine j), cs)
      else wrongType fuel "u32" (c :: cs)
  | [] => .error .ended

/-- The members of the outermost block from here on, and the closing brace. Members of other names
are passed over. -/
def readBlockMembers : (fuel depth : Nat) → (first : Bool) → Option (List Expr) → Option UInt32 →
    List Char → Reading (Block × List Char)
  | 0, _, _, _, _, _ => .error .ended
  | fuel + 1, depth, first, instrs, line, cs => do
      match ← nextKey first cs with
      | none =>
          match instrs with
          | none => shape (.missingField "instrs")
          | some instrs => return (.mk instrs (line.getD 0), ← closeObject cs)
      | some cs =>
          let (key, cs) ← readText fuel cs
          if key = "instrs" then
            if instrs.isSome then shape (.duplicateField key)
            else
              let (instrs, cs) ← readBody fuel depth (← readColon cs)
              readBlockMembers fuel depth false (some instrs) line cs
          else if key = "line" then
            if line.isSome then shape (.duplicateField key)
            else
              let (line, cs) ← readLine fuel (← readColon cs)
              readBlockMembers fuel depth false instrs (some line) cs
          else
            let cs ← skipValue fuel (← readColon cs)
            readBlockMembers fuel depth false instrs line cs

/-- The outermost block given as an array, its bracket read. -/
def readBlockItems (fuel depth : Nat) (cs : List Char) : Reading (Block × List Char) := do
  match ← nextItem true cs with
  | none => shape (.invalidLength 0 "struct Block with 2 elements")
  | some cs =>
      let (instrs, cs) ← readBody fuel depth cs
      match ← nextItem false cs with
      | none => return (.mk instrs 0, ← closeArray cs)
      | some cs =>
          let (line, cs) ← readLine fuel cs
          return (.mk instrs line, ← closeArray cs)

/-- The outermost block. -/
def readBlock (fuel depth : Nat) (cs : List Char) : Reading (Block × List Char) :=
  match skipBlanks cs with
  | '[' :: cs =>
      match depth with
      | 0 => .error .malformed
      | depth + 1 => readBlockItems fuel depth cs
  | '\x7b' :: cs =>
      match depth with
      | 0 => .error .malformed
      | depth + 1 => readBlockMembers fuel depth true none none cs
  | cs => wrongType fuel "struct Block" cs

/-- Nothing but blanks may follow. -/
def finish {α : Type} : α × List Char → Reading α
  | (a, cs) => if (skipBlanks cs).isEmpty then .ok a else .error .malformed

end Document

/-- Read a document that is a block. -/
def Block.parse (text : String) : Reading Block := do
  let cs := text.toList
  Document.finish (← Document.readBlock (fuelFor cs) Document.maxDepth cs)

/-- Read a document that is one expression. -/
def Expr.parse (text : String) : Reading Expr := do
  let cs := text.toList
  Document.finish (← Document.readExpr (fuelFor cs) Document.maxDepth cs)

end ScriptEngine
