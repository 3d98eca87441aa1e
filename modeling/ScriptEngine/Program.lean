/-!
# Program trees

A program is a block of instructions. Every node keeps the line it came from. Statement forms produce
no value of their own; where one stands in the place of a value, that value is `undefined`.
-/

namespace ScriptEngine

/-- A constant of a program. -/
inductive Literal where
  | int (n : Int32)
  | text (s : String)
  deriving DecidableEq, Repr, Inhabited

mutual

/-- An instruction or an expression. -/
inductive Expr where
  | block (body : Block)
  | literal (value : Literal) (line : UInt32)
  | call (callee : Expr) (args : List Expr) (line : UInt32)
  | var (name : String) (line : UInt32)
  | assign (name : String) (value : Expr) (declares : Bool) (line : UInt32)
  | function (name : Option String) (params : List String) (body : Block) (line : UInt32)
  | ret (value : Expr) (line : UInt32)
  | cond (condition : Expr) (yes no : Block) (line : UInt32)
  | object (entries : List (String × Expr)) (line : UInt32)
  | field (receiver : Expr) (name : String) (line : UInt32)
  | setField (receiver : Expr) (name : String) (value : Expr) (line : UInt32)
  | method (receiver : Expr) (name : String) (args : List Expr) (line : UInt32)

/-- Instructions in program order. -/
inductive Block where
  | mk (instrs : List Expr) (line : UInt32)

end

namespace Block

def instrs : Block → List Expr
  | .mk instrs _ => instrs

def line : Block → UInt32
  | .mk _ line => line

def empty : Block := .mk [] 0

instance : Inhabited Block := ⟨empty⟩

end Block

namespace Expr

instance : Inhabited Expr := ⟨.literal default 0⟩

def line : Expr → UInt32
  | .block body => body.line
  | .literal _ line | .call _ _ line | .var _ line | .assign _ _ _ line
  | .function _ _ _ line | .ret _ line | .cond _ _ _ line | .object _ line
  | .field _ _ line | .setField _ _ _ line | .method _ _ _ line => line

/-- The same node, standing at another line. -/
def atLine (e : Expr) (line : UInt32) : Expr :=
  match e with
  | .block body => .block (.mk body.instrs line)
  | .literal value _ => .literal value line
  | .call callee args _ => .call callee args line
  | .var name _ => .var name line
  | .assign name value declares _ => .assign name value declares line
  | .function name params body _ => .function name params body line
  | .ret value _ => .ret value line
  | .cond condition yes no _ => .cond condition yes no line
  | .object entries _ => .object entries line
  | .field receiver name _ => .field receiver name line
  | .setField receiver name value _ => .setField receiver name value line
  | .method receiver name args _ => .method receiver name args line

/-- Whether the node is a statement form. -/
def isStatement : Expr → Bool
  | .block _ | .assign .. | .setField .. | .ret .. | .cond .. => true
  | _ => false

end Expr

mutual

/-- Equality of trees, lines included. -/
def Expr.same : Expr → Expr → Bool
  | .block a, .block b => a.same b
  | .literal v l, .literal w k => v == w && l == k
  | .call f as l, .call g bs k => f.same g && sameAll as bs && l == k
  | .var x l, .var y k => x == y && l == k
  | .assign x e d l, .assign y f c k => x == y && e.same f && d == c && l == k
  | .function x ps a l, .function y qs b k => x == y && ps == qs && a.same b && l == k
  | .ret e l, .ret f k => e.same f && l == k
  | .cond e a c l, .cond f b d k => e.same f && a.same b && c.same d && l == k
  | .object as l, .object bs k => sameEntries as bs && l == k
  | .field e x l, .field f y k => e.same f && x == y && l == k
  | .setField e x v l, .setField f y w k => e.same f && x == y && v.same w && l == k
  | .method e x as l, .method f y bs k => e.same f && x == y && sameAll as bs && l == k
  | _, _ => false
termination_by structural x => x

def Block.same : Block → Block → Bool
  | .mk as l, .mk bs k => sameAll as bs && l == k
termination_by structural x => x

def sameAll : List Expr → List Expr → Bool
  | [], [] => true
  | a :: as, b :: bs => a.same b && sameAll as bs
  | _, _ => false
termination_by structural x => x

def sameEntries : List (String × Expr) → List (String × Expr) → Bool
  | [], [] => true
  | (x, a) :: as, (y, b) :: bs => x == y && a.same b && sameEntries as bs
  | _, _ => false
termination_by structural x => x

end

end ScriptEngine
