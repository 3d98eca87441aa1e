import ScriptEngine.Program

/-!
# Kinds of nodes

In a document every node names its kind.
-/

namespace ScriptEngine

inductive Kind where
  | block
  | literal
  | call
  | var
  | assign
  | function
  | ret
  | cond
  | object
  | field
  | setField
  | method
  deriving DecidableEq, Repr

namespace Kind

/-- The kinds in the order in which they are counted. -/
def all : List Kind :=
  [.block, .literal, .call, .var, .assign, .function, .ret, .cond, .object, .field, .setField,
    .method]

/-- The name of a kind in documents. -/
def name : Kind → String
  | .block => "Block"
  | .literal => "Literal"
  | .call => "FunctionCall"
  | .var => "LocalVarAccess"
  | .assign => "LocalVarAssignment"
  | .function => "FunctionLiteral"
  | .ret => "Return"
  | .cond => "If"
  | .object => "ObjectLiteral"
  | .field => "FieldAccess"
  | .setField => "FieldAssignment"
  | .method => "MethodCall"

def ofName? (s : String) : Option Kind := all.find? (·.name = s)

end Kind

def Expr.kind : Expr → Kind
  | .block _ => .block
  | .literal .. => .literal
  | .call .. => .call
  | .var .. => .var
  | .assign .. => .assign
  | .function .. => .function
  | .ret .. => .ret
  | .cond .. => .cond
  | .object .. => .object
  | .field .. => .field
  | .setField .. => .setField
  | .method .. => .method

end ScriptEngine
