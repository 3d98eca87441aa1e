import ScriptEngine.Json.Reader

/-!
# Passing over JSON

A value nobody asks for is passed over without being built. It has to be grammatical and no more: it may
be nested to any depth, its numbers may be of any size and its surrogate escapes need not be paired. A
number that is cut short is malformed here even at the end of the text.
-/

namespace ScriptEngine.Json

/-- Pass over the characters of a text, up to and including the closing quote. -/
def skipText : (fuel : Nat) → List Char → Reading (List Char)
  | 0, _ => .error .ended
  | _ + 1, [] => .error .ended
  | fuel + 1, c :: cs =>
      if c = '"' then .ok cs
      else if c = '\\' then
        match cs with
        | [] => .error .ended
        | 'u' :: cs => do
            let (_, cs) ← readHex4 cs
            skipText fuel cs
        | d :: cs => if (shortEscape? d).isSome then skipText fuel cs else .error .malformed
      else if c.toNat < 0x20 then .error .malformed
      else skipText fuel cs

/-- One digit or more. -/
def skipDigits : List Char → Reading (List Char)
  | [] => .error .malformed
  | c :: cs => if c.isDigit then .ok (cs.dropWhile Char.isDigit) else .error .malformed

def skipExponent : List Char → Reading (List Char)
  | 'e' :: '+' :: cs | 'E' :: '+' :: cs | 'e' :: '-' :: cs | 'E' :: '-' :: cs => skipDigits cs
  | 'e' :: cs | 'E' :: cs => skipDigits cs
  | cs => .ok cs

/-- A number, its sign already passed. -/
def skipNumber (cs : List Char) : Reading (List Char) := do
  let rest ← skipDigits cs
  if cs.head? = some '0' ∧ rest.length + 1 ≠ cs.length then .error .malformed
  else match rest with
    | '.' :: rest => skipExponent (← skipDigits rest)
    | rest => skipExponent rest

mutual

def skipValue : (fuel : Nat) → List Char → Reading (List Char)
  | 0, _ => .error .ended
  | fuel + 1, cs =>
      match skipBlanks cs with
      | [] => .error .ended
      | 'n' :: cs => readWord ['u', 'l', 'l'] cs
      | 't' :: cs => readWord ['r', 'u', 'e'] cs
      | 'f' :: cs => readWord ['a', 'l', 's', 'e'] cs
      | '"' :: cs => skipText fuel cs
      | '-' :: cs => skipNumber cs
      | '[' :: cs => skipItems fuel true cs
      | '\x7b' :: cs => skipMembers fuel true cs
      | c :: cs => if c.isDigit then skipNumber (c :: cs) else .error .malformed

def skipItems : (fuel : Nat) → (first : Bool) → List Char → Reading (List Char)
  | 0, _, _ => .error .ended
  | fuel + 1, first, cs => do
      match ← nextItem first cs with
      | none => closeArray cs
      | some cs => skipItems fuel false (← skipValue fuel cs)

def skipMembers : (fuel : Nat) → (first : Bool) → List Char → Reading (List Char)
  | 0, _, _ => .error .ended
  | fuel + 1, first, cs => do
      match ← nextKey first cs with
      | none => closeObject cs
      | some cs => skipMembers fuel false (← skipValue fuel (← readColon (← skipText fuel cs)))

end

end ScriptEngine.Json
