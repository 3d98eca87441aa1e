import ScriptEngine.Program.Kind
import ScriptEngine.Json.Writer

/-!
# Programs as documents

A node is an object: its kind first, then all its fields in a fixed order, those that hold a default
included. A block that is part of another node has no kind.
-/

namespace ScriptEngine

def Literal.toJson : Literal → Json
  | .int n => .integer n.toInt
  | .text s => .text s

namespace Json

def ofLine (line : UInt32) : Json := .integer line.toNat

def ofText? : Option String → Json
  | some s => .text s
  | none => .null

end Json

/-- A node: its kind, then its fields. -/
def Kind.node (kind : Kind) (fields : List (String × Json)) : Json :=
  .object (("kind", .text kind.name) :: fields)

mutual

def Expr.toJson : Expr → Json
  | .block body => Kind.block.node body.fields
  | .literal value line => Kind.literal.node [("value", value.toJson), ("line", .ofLine line)]
  | .call callee args line =>
      Kind.call.node [("qualifier", callee.toJson), ("args", .array (toJsonAll args)),
        ("line", .ofLine line)]
  | .var name line => Kind.var.node [("name", .text name), ("line", .ofLine line)]
  | .assign name value declares line =>
      Kind.assign.node [("name", .text name), ("expr", value.toJson),
        ("declaration", .bool declares), ("line", .ofLine line)]
  | .function name params body line =>
      Kind.function.node [("name", .ofText? name), ("parameters", .array (params.map .text)),
        ("body", .object body.fields), ("line", .ofLine line)]
  | .ret value line => Kind.ret.node [("expr", value.toJson), ("line", .ofLine line)]
  | .cond condition yes no line =>
      Kind.cond.node [("condition", condition.toJson), ("true_block", .object yes.fields),
        ("false_block", .object no.fields), ("line", .ofLine line)]
  | .object entries line =>
      Kind.object.node [("entries", .array (toJsonEntries entries)), ("line", .ofLine line)]
  | .field receiver name line =>
      Kind.field.node [("receiver", receiver.toJson), ("name", .text name),
        ("line", .ofLine line)]
  | .setField receiver name value line =>
      Kind.setField.node [("receiver", receiver.toJson), ("name", .text name),
        ("expr", value.toJson), ("line", .ofLine line)]
  | .method receiver name args line =>
      Kind.method.node [("receiver", receiver.toJson), ("name", .text name),
        ("args", .array (toJsonAll args)), ("line", .ofLine line)]

def Block.fields : Block → List (String × Json)
  | .mk instrs line => [("instrs", .array (toJsonAll instrs)), ("line", .ofLine line)]

def toJsonAll : List Expr → List Json
  | [] => []
  | e :: es => e.toJson :: toJsonAll es

def toJsonEntries : List (String × Expr) → List Json
  | [] => []
  | (key, e) :: es => .array [.text key, e.toJson] :: toJsonEntries es

end

def Block.toJson (b : Block) : Json := .object b.fields

/-- The document of an expression. -/
def Expr.render (e : Expr) : String := e.toJson.render

/-- The document of a block. -/
def Block.render (b : Block) : String := b.toJson.render

end ScriptEngine
