import ScriptEngine.Json.Fault

/-!
# Reading JSON

Strict reading of one value from the front of a text. Every reader returns what it read and the rest
of the text. `fuel` bounds the nesting of steps; twice the length of the text is enough, since no two
steps in a row leave the text as it was. `depth` is the number of arrays and objects that may still be
opened.
-/

namespace ScriptEngine.Json

/-- Reading yields a result or the reason why there is none. -/
abbrev Reading := Except DocumentError

def isBlank (c : Char) : Bool := c = ' ' || c = '\n' || c = '\t' || c = '\r'

def skipBlanks (cs : List Char) : List Char := cs.dropWhile isBlank

/-- Read the rest of a fixed word. -/
def readWord : List Char → List Char → Reading (List Char)
  | [], cs => .ok cs
  | _ :: _, [] => .error .ended
  | w :: ws, c :: cs => if c = w then readWord ws cs else .error .malformed

def hexValue? (c : Char) : Option Nat :=
  if c.isDigit then some (c.toNat - '0'.toNat)
  else if 'a' ≤ c ∧ c ≤ 'f' then some (c.toNat - 'a'.toNat + 10)
  else if 'A' ≤ c ∧ c ≤ 'F' then some (c.toNat - 'A'.toNat + 10)
  else none

/-- Four hexadecimal digits. A text with fewer than four bytes left has ended, whatever they are. -/
def readHex4 (cs : List Char) : Reading (Nat × List Char) :=
  match (cs.take 4).mapM hexValue? with
  | some [a, b, c, d] => .ok (((a * 16 + b) * 16 + c) * 16 + d, cs.drop 4)
  | _ =>
      if (String.ofList (cs.take 4)).utf8ByteSize < 4 then .error .ended else .error .malformed

def isHighSurrogate (n : Nat) : Bool := 0xD800 ≤ n && n ≤ 0xDBFF
def isLowSurrogate (n : Nat) : Bool := 0xDC00 ≤ n && n ≤ 0xDFFF

/-- The low surrogate that has to follow a high one. -/
def readLowSurrogate : List Char → Reading (Nat × List Char)
  | [] => .error .ended
  | '\\' :: [] => .error .ended
  | '\\' :: 'u' :: cs => do
      let (n, cs) ← readHex4 cs
      if isLowSurrogate n then .ok (n, cs) else .error .malformed
  | _ => .error .malformed

/-- A character given by its code, in one or two units of 16 bits. -/
def readCode (cs : List Char) : Reading (Char × List Char) := do
  let (n, cs) ← readHex4 cs
  if isLowSurrogate n then .error .malformed
  else if isHighSurrogate n then
    let (k, cs) ← readLowSurrogate cs
    return (Char.ofNat ((n - 0xD800) * 0x400 + (k - 0xDC00) + 0x10000), cs)
  else return (Char.ofNat n, cs)

/-- The character that a one-letter escape stands for. -/
def shortEscape? (c : Char) : Option Char :=
  if c = '"' ∨ c = '\\' ∨ c = '/' then some c
  else if c = 'b' then some '\x08'
  else if c = 'f' then some '\x0c'
  else if c = 'n' then some '\n'
  else if c = 'r' then some '\r'
  else if c = 't' then some '\t'
  else none

/-- What follows a backslash. -/
def readEscape : List Char → Reading (Char × List Char)
  | [] => .error .ended
  | c :: cs =>
      if c = 'u' then readCode cs
      else match shortEscape? c with
        | some d => .ok (d, cs)
        | none => .error .malformed

/-- The characters of a text, up to and including the closing quote. -/
def readChars : (fuel : Nat) → List Char → Reading (List Char × List Char)
  | 0, _ => .error .ended
  | _ + 1, [] => .error .ended
  | fuel + 1, c :: cs =>
      if c = '"' then .ok ([], cs)
      else if c = '\\' then do
        let (d, cs) ← readEscape cs
        let (ds, cs) ← readChars fuel cs
        return (d :: ds, cs)
      else if c.toNat < 0x20 then .error .malformed
      else do
        let (ds, cs) ← readChars fuel cs
        return (c :: ds, cs)

def readText (fuel : Nat) (cs : List Char) : Reading (String × List Char) := do
  let (ds, cs) ← readChars fuel cs
  return (String.ofList ds, cs)

/-- The largest significand that is kept exactly. -/
def maxSignificand : Nat := 0xFFFFFFFFFFFFFFFF

def digitValue (c : Char) : Nat := c.toNat - '0'.toNat

/-- Append digits to a significand while it stays in range; the digits left over come back. -/
def appendDigits : Nat → List Char → Nat × List Char
  | n, [] => (n, [])
  | n, c :: cs =>
      if n * 10 + digitValue c ≤ maxSignificand then appendDigits (n * 10 + digitValue c) cs
      else (n, c :: cs)

/-- The parts of a number that was not written as a plain integer. -/
def ofParts (negative : Bool) (whole fraction : List Char) (exponent : Int) : Decimal :=
  let (n, dropped) := appendDigits 0 whole
  let (significand, ignored) := appendDigits n fraction
  let shift : Int := (dropped.length : Int) - (fraction.length - ignored.length : Nat)
  { negative, significand, exponent := shift + exponent }

/-- A plain integer, exact if it fits 64 bits. The negative zero is no integer. -/
def ofInteger (negative : Bool) (whole : List Char) : Json :=
  match appendDigits 0 whole with
  | (n, []) =>
      if negative then
        if n = 0 ∨ 0x8000000000000000 < n then .decimal (ofParts negative whole [] 0)
        else .integer (-(n : Int))
      else .integer n
  | _ => .decimal (ofParts negative whole [] 0)

/-- A decimal beyond the finite doubles is no number. -/
def checked (d : Decimal) : Reading Json :=
  if d.toDouble?.isSome then .ok (.decimal d) else .error .malformed

/-- The digits of an exponent, after its mark. -/
def readExponent (cs : List Char) : Reading (Int × List Char) := do
  let (negative, cs) := match cs with
    | '+' :: cs => (false, cs)
    | '-' :: cs => (true, cs)
    | cs => (false, cs)
  match cs with
  | [] => .error .ended
  | c :: _ =>
      if c.isDigit then
        let n := (cs.takeWhile Char.isDigit).foldl (fun n c => n * 10 + digitValue c) 0
        return (if negative then -(n : Int) else n, cs.dropWhile Char.isDigit)
      else .error .malformed

/-- The end of a number whose digits before any exponent are known. -/
def finishNumber (negative : Bool) (whole fraction : List Char) (isInteger : Bool) :
    List Char → Reading (Json × List Char)
  | 'e' :: cs | 'E' :: cs => do
      let (exponent, cs) ← readExponent cs
      return (← checked (ofParts negative whole fraction exponent), cs)
  | cs =>
      if isInteger then
        match ofInteger negative whole with
        | .decimal d => do return (← checked d, cs)
        | j => .ok (j, cs)
      else do return (← checked (ofParts negative whole fraction 0), cs)

/-- A number, its sign already read. -/
def readNumber (negative : Bool) (cs : List Char) : Reading (Json × List Char) :=
  match cs with
  | [] => .error .ended
  | c :: _ =>
      if !c.isDigit then .error .malformed
      else
        let whole := cs.takeWhile Char.isDigit
        let rest := cs.dropWhile Char.isDigit
        if c = '0' ∧ whole.length ≠ 1 then .error .malformed
        else match rest with
          | '.' :: rest =>
              let fraction := rest.takeWhile Char.isDigit
              let rest := rest.dropWhile Char.isDigit
              if fraction.isEmpty then
                if rest.isEmpty then .error .ended else .error .malformed
              else finishNumber negative whole fraction false rest
          | rest => finishNumber negative whole [] true rest

/-- Enough fuel for a text. -/
def fuelFor (cs : List Char) : Nat := 2 * cs.length + 2

/-- The colon between a key and its value. -/
def readColon (cs : List Char) : Reading (List Char) :=
  match skipBlanks cs with
  | [] => .error .ended
  | ':' :: cs => .ok cs
  | _ => .error .malformed

/-- Step to the next item of an array: `none` before the closing bracket. -/
def nextItem (first : Bool) (cs : List Char) : Reading (Option (List Char)) :=
  match skipBlanks cs with
  | [] => .error .ended
  | ']' :: _ => .ok none
  | ',' :: cs =>
      if first then .error .malformed
      else match skipBlanks cs with
        | [] => .error .ended
        | ']' :: _ => .error .malformed
        | cs => .ok (some cs)
  | cs => if first then .ok (some cs) else .error .malformed

/-- Step to the next key of an object, its quote read: `none` before the closing brace. -/
def nextKey (first : Bool) (cs : List Char) : Reading (Option (List Char)) :=
  match skipBlanks cs with
  | [] => .error .ended
  | '\x7d' :: _ => .ok none
  | ',' :: cs =>
      if first then .error .malformed
      else match skipBlanks cs with
        | [] => .error .ended
        | '"' :: cs => .ok (some cs)
        | _ => .error .malformed
  | '"' :: cs => if first then .ok (some cs) else .error .malformed
  | _ => .error .malformed

/-- The bracket that has to close an array here. -/
def closeArray (cs : List Char) : Reading (List Char) :=
  match skipBlanks cs with
  | [] => .error .ended
  | ']' :: cs => .ok cs
  | _ => .error .malformed

/-- The brace that has to close an object here. -/
def closeObject (cs : List Char) : Reading (List Char) :=
  match skipBlanks cs with
  | [] => .error .ended
  | '\x7d' :: cs => .ok cs
  | _ => .error .malformed

mutual

def readValue : (fuel depth : Nat) → List Char → Reading (Json × List Char)
  | 0, _, _ => .error .ended
  | fuel + 1, depth, cs =>
      match skipBlanks cs with
      | [] => .error .ended
      | 'n' :: cs => do return (.null, ← readWord ['u', 'l', 'l'] cs)
      | 't' :: cs => do return (.bool true, ← readWord ['r', 'u', 'e'] cs)
      | 'f' :: cs => do return (.bool false, ← readWord ['a', 'l', 's', 'e'] cs)
      | '"' :: cs => do
          let (s, cs) ← readText fuel cs
          return (.text s, cs)
      | '-' :: cs => readNumber true cs
      | '[' :: cs =>
          match depth with
          | 0 => .error .malformed
          | depth + 1 => do
              let (items, cs) ← readItems fuel depth true cs
              return (.array items, cs)
      | '\x7b' :: cs =>
          match depth with
          | 0 => .error .malformed
          | depth + 1 => do
              let (members, cs) ← readMembers fuel depth true cs
              return (.object members, cs)
      | c :: cs => if c.isDigit then readNumber false (c :: cs) else .error .malformed

/-- The items of an array from here on, and its closing bracket. -/
def readItems : (fuel depth : Nat) → (first : Bool) → List Char → Reading (List Json × List Char)
  | 0, _, _, _ => .error .ended
  | fuel + 1, depth, first, cs => do
      match ← nextItem first cs with
      | none => return ([], ← closeArray cs)
      | some cs =>
          let (item, cs) ← readValue fuel depth cs
          let (items, cs) ← readItems fuel depth false cs
          return (item :: items, cs)

/-- The members of an object from here on, and its closing brace. -/
def readMembers : (fuel depth : Nat) → (first : Bool) → List Char → Reading (List (String × Json) × List Char)
  | 0, _, _, _ => .error .ended
  | fuel + 1, depth, first, cs => do
      match ← nextKey first cs with
      | none => return ([], ← closeObject cs)
      | some cs =>
          let (key, cs) ← readText fuel cs
          let (value, cs) ← readValue fuel depth (← readColon cs)
          let (members, cs) ← readMembers fuel depth false cs
          return ((key, value) :: members, cs)

end

end ScriptEngine.Json
