import ScriptEngine.Heap.Basic

/-!
# Showing values

A value is shown as a text; an object is shown with its own properties and its prototype. Objects that
were shown before, anywhere in the same text, are only named, so that the text is finite.
-/

namespace ScriptEngine.Heap

/-- A value that is no object. -/
def plainText : Value → String
  | .undefined => "undefined"
  | .null => "null"
  | .bool b => toString b
  | .int n => decimal n
  | .text s => s
  | .object _ => ""

/-- One line for every entry, given how objects are shown; the objects seen are handed on. -/
def renderEntries (render : List ObjectId → ObjectId → String × List ObjectId) :
    List ObjectId → List (String × Value) → String × List ObjectId
  | seen, [] => ("", seen)
  | seen, (key, v) :: rest =>
      let (text, seen) := match v with
        | .object id => render seen id
        | v => (plainText v, seen)
      let (body, seen) := renderEntries render seen rest
      ("  " ++ key ++ ": " ++ text ++ "\n" ++ body, seen)

/-- The text of an object, and the objects seen afterwards. At most `depth` objects are open at once;
one more than there are objects is always enough. -/
def renderObject (h : Heap) : (depth : Nat) → (seen : List ObjectId) → ObjectId →
    String × List ObjectId
  | 0, seen, id => ("... // " ++ h.nameOf id, seen)
  | depth + 1, seen, id =>
      if id ∈ seen then ("... // " ++ h.nameOf id, seen)
      else
        let (body, seen) := renderEntries (renderObject h depth) (id :: seen) (h.entries id)
        let (proto, seen) := match h.proto? id with
          | some proto => renderObject h depth seen proto
          | none => ("null", seen)
        ("\x7b // " ++ h.nameOf id ++ "\n" ++ body ++ "  proto: " ++ proto ++ "\n\x7d", seen)

/-- The text of a value. -/
def display (h : Heap) : Value → String
  | .object id => (renderObject h (h.size + 1) [] id).1
  | v => plainText v

end ScriptEngine.Heap
