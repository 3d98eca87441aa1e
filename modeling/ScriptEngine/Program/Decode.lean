import ScriptEngine.Program.Kind
import ScriptEngine.Json.Record

/-!
# Programs from JSON trees

A node is an object with its kind among its members, or an array with its kind in front; the rest is
the record of its fields. Inside another node a kind may also be given by its place in the list of
kinds.
-/

namespace ScriptEngine

open Json (Decoding Parts FieldSpec Row Fields asText asText? asBool asLine asList asPair invalidType)

/-- The name of the member that holds a node's kind. -/
def kindKey : String := "kind"

/-- What a kind has to be. -/
def kindExpected : String := "variant identifier"

/-- What a node has to be. -/
def nodeExpected : String := "internally tagged enum Expr"

namespace Kind

def ofText (s : String) : Decoding Kind :=
  match ofName? s with
  | some kind => .ok kind
  | none => .error (.unknownVariant s (all.map name))

/-- A kind by its name or by its place. -/
def ofJson : Json → Decoding Kind
  | .text s => ofText s
  | .integer n =>
      if n < 0 then invalidType (.integer n) kindExpected
      else match all[n.toNat]? with
        | some kind => .ok kind
        | none => .error (.invalidValue (.integer n) "variant index 0 <= i < 12")
  | j => invalidType j kindExpected

end Kind

/-- An integer that fits 32 bits, or a text. -/
def Literal.ofJson : Json → Decoding Literal
  | .integer n =>
      if -0x80000000 ≤ n ∧ n < 0x80000000 then .ok (.int (Int32.ofInt n))
      else .error (.noVariant "LiteralValue")
  | .text s => .ok (.text s)
  | _ => .error (.noVariant "LiteralValue")

/-- The line a node stands at; nodes without one stand at line 0. -/
def lineField : FieldSpec UInt32 := { name := "line", read := asLine, absent := some 0 }

def nameField : FieldSpec String := { name := "name", read := asText }

def blockRow (expr : Json → Decoding Expr) : Row [List Expr, UInt32] :=
  .field { name := "instrs", read := asList expr } <| .field lineField .done

/-- A block, given how its instructions are decoded. -/
def decodeBlockWith (expr : Json → Decoding Expr) (j : Json) : Decoding Block :=
  match j with
  | .object members => do
      let (instrs, line, ()) ← (blockRow expr).decode "Block" (.members members)
      return .mk instrs line
  | .array items => do
      let (instrs, line, ()) ← (blockRow expr).decode "Block" (.items items)
      return .mk instrs line
  | j => invalidType j "struct Block"

/-- A node of a known kind from the parts of its record, given how the nodes in it are decoded. -/
def decodeParts (expr : Json → Decoding Expr) (kind : Kind) (parts : Parts) : Decoding Expr :=
  let block := decodeBlockWith expr
  match kind with
  | .block => do
      let (instrs, line, ()) ← (blockRow expr).decode kind.name parts
      return .block (.mk instrs line)
  | .literal => do
      let row : Row [Literal, UInt32] :=
        .field { name := "value", read := Literal.ofJson } <| .field lineField .done
      let (value, line, ()) ← row.decode kind.name parts
      return .literal value line
  | .call => do
      let row : Row [Expr, List Expr, UInt32] :=
        .field { name := "qualifier", read := expr } <|
        .field { name := "args", read := asList expr } <| .field lineField .done
      let (callee, args, line, ()) ← row.decode kind.name parts
      return .call callee args line
  | .var => do
      let row : Row [String, UInt32] := .field nameField <| .field lineField .done
      let (name, line, ()) ← row.decode kind.name parts
      return .var name line
  | .assign => do
      let row : Row [String, Expr, Bool, UInt32] :=
        .field nameField <| .field { name := "expr", read := expr } <|
        .field { name := "declaration", read := asBool } <| .field lineField .done
      let (name, value, declares, line, ()) ← row.decode kind.name parts
      return .assign name value declares line
  | .function => do
      let row : Row [Option String, List String, Block, UInt32] :=
        .field { name := "name", read := asText?, absent := some none } <|
        .field { name := "parameters", read := asList asText } <|
        .field { name := "body", read := block } <| .field lineField .done
      let (name, params, body, line, ()) ← row.decode kind.name parts
      return .function name params body line
  | .ret => do
      let row : Row [Expr, UInt32] :=
        .field { name := "expr", read := expr } <| .field lineField .done
      let (value, line, ()) ← row.decode kind.name parts
      return .ret value line
  | .cond => do
      let row : Row [Expr, Block, Block, UInt32] :=
        .field { name := "condition", read := expr } <|
        .field { name := "true_block", read := block } <|
        .field { name := "false_block", read := block, absent := some .empty } <|
        .field lineField .done
      let (condition, yes, no, line, ()) ← row.decode kind.name parts
      return .cond condition yes no line
  | .object => do
      let row : Row [List (String × Expr), UInt32] :=
        .field { name := "entries", read := asList (asPair asText expr) } <|
        .field lineField .done
      let (entries, line, ()) ← row.decode kind.name parts
      return .object entries line
  | .field => do
      let row : Row [Expr, String, UInt32] :=
        .field { name := "receiver", read := expr } <| .field nameField <| .field lineField .done
      let (receiver, name, line, ()) ← row.decode kind.name parts
      return .field receiver name line
  | .setField => do
      let row : Row [Expr, String, Expr, UInt32] :=
        .field { name := "receiver", read := expr } <| .field nameField <|
        .field { name := "expr", read := expr } <| .field lineField .done
      let (receiver, name, value, line, ()) ← row.decode kind.name parts
      return .setField receiver name value line
  | .method => do
      let row : Row [Expr, String, List Expr, UInt32] :=
        .field { name := "receiver", read := expr } <| .field nameField <|
        .field { name := "args", read := asList expr } <| .field lineField .done
      let (receiver, name, args, line, ()) ← row.decode kind.name parts
      return .method receiver name args line

/-- Split off the kind from the members of a node. -/
def splitKind : List (String × Json) → Option Kind → Decoding (Kind × List (String × Json))
  | [], some kind => .ok (kind, [])
  | [], none => .error (.missingField kindKey)
  | (key, value) :: members, kind => do
      if key = kindKey then
        match kind with
        | some _ => .error (.duplicateField kindKey)
        | none => splitKind members (some (← Kind.ofJson value))
      else
        let (kind, rest) ← splitKind members kind
        return (kind, (key, value) :: rest)

/-- A node inside a tree whose arrays and objects are nested at most `depth` deep. -/
def decodeExpr : (depth : Nat) → Json → Decoding Expr
  | depth + 1, .object members => do
      let (kind, rest) ← splitKind members none
      decodeParts (decodeExpr depth) kind (.members rest)
  | depth + 1, .array (kind :: items) => do
      decodeParts (decodeExpr depth) (← Kind.ofJson kind) (.items items)
  | _, .array _ => .error (.missingField kindKey)
  | _, j => invalidType j nodeExpected

/-- A block from a JSON tree. -/
def Block.ofJson (j : Json) : Decoding Block := decodeBlockWith (decodeExpr j.depth) j

/-- An expression from a JSON tree. -/
def Expr.ofJson (j : Json) : Decoding Expr := decodeExpr j.depth j

end ScriptEngine
