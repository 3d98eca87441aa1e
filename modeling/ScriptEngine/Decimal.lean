/-!
# Decimal numbers and the doubles they stand for

A document may hold numbers that are no plain integers. They are kept as they were written, sign,
digits and power of ten, and stand for a double: a mantissa of at most 53 bits times a power of two.
All rounding is done here on natural numbers, to the nearest double and from a tie to the even one.
A double is shown by the fewest digits that read back as the same double.
-/

namespace ScriptEngine

/-- The size of a double: `mantissa * 2 ^ exponent`. -/
structure Double where
  mantissa : Nat
  exponent : Int
  deriving DecidableEq, Repr

namespace Double

/-- The quotient to the nearest integer, from a tie to the even one. -/
def divNearest (num den : Nat) : Nat :=
  let q := num / den
  let r := num % den
  if 2 * r < den then q else if den < 2 * r then q + 1 else q + q % 2

/-- The power of two just below a positive ratio, as an exponent. -/
def floorLog2 (num den : Nat) : Int :=
  let guess : Int := (num.log2 : Int) - den.log2
  if num * Nat.pow 2 (-guess).toNat < den * Nat.pow 2 guess.toNat then guess - 1 else guess

/-- The double nearest to a ratio, were there no largest one. -/
def ofRatio (num den : Nat) : Double :=
  if num = 0 then { mantissa := 0, exponent := 0 }
  else
    let exponent := max (floorLog2 num den - 52) (-1074)
    let mantissa := divNearest (num * Nat.pow 2 (-exponent).toNat) (den * Nat.pow 2 exponent.toNat)
    if mantissa = Nat.pow 2 53 then { mantissa := Nat.pow 2 52, exponent := exponent + 1 }
    else { mantissa, exponent }

/-- Whether the double is below the largest power of two that doubles reach. -/
def isFinite (x : Double) : Bool := x.exponent ≤ 971

/-- The double nearest to a power of ten. -/
def powerOfTen (k : Nat) : Double := ofRatio (Nat.pow 10 k) 1

def mul (x y : Double) : Double :=
  let e := x.exponent + y.exponent
  ofRatio (x.mantissa * y.mantissa * Nat.pow 2 e.toNat) (Nat.pow 2 (-e).toNat)

def div (x y : Double) : Double :=
  let e := x.exponent - y.exponent
  ofRatio (x.mantissa * Nat.pow 2 e.toNat) (y.mantissa * Nat.pow 2 (-e).toNat)

/-- `x` times a power of ten, if the result is finite. Powers beyond the largest finite one are
divided out step by step; two steps take every significand to zero. -/
def scale (x : Double) (power : Int) : (steps : Nat) → Option Double
  | 0 => some { mantissa := 0, exponent := 0 }
  | steps + 1 =>
      if power.natAbs ≤ 308 then
        if 0 ≤ power then
          let y := x.mul (powerOfTen power.natAbs)
          if y.isFinite then some y else none
        else some (x.div (powerOfTen power.natAbs))
      else if x.mantissa = 0 then some x
      else if 0 ≤ power then none
      else scale (x.div (powerOfTen 308)) (power + 308) steps

/-- The double as a ratio. -/
def ratio (x : Double) : Nat × Nat :=
  (x.mantissa * Nat.pow 2 x.exponent.toNat, Nat.pow 2 (-x.exponent).toNat)

/-- Whether a ratio rounds to the double. -/
def roundsTo (x : Double) (num den : Nat) : Bool := num != 0 && ofRatio num den == x

/-- The power of ten just below a positive ratio, as an exponent. -/
def floorLog10 (num den : Nat) : Int :=
  let guess : Int := ((Nat.toDigits 10 num).length : Int) - (Nat.toDigits 10 den).length
  if num * Nat.pow 10 (-guess).toNat < den * Nat.pow 10 guess.toNat then guess - 1 else guess

/-- The decimal with `digits` digits that is nearest to the double, if it rounds back to it: a
significand and a power of ten. -/
def withDigits (x : Double) (digits : Nat) : Option (Nat × Int) :=
  let (num, den) := x.ratio
  let power := floorLog10 num den - digits + 1
  let unitUp := Nat.pow 10 power.toNat
  let unitDown := Nat.pow 10 (-power).toNat
  let below := num * unitDown / (den * unitUp)
  let above := below + 1
  let backBelow := x.roundsTo (below * unitUp) unitDown
  let backAbove := x.roundsTo (above * unitUp) unitDown
  let nearest := divNearest (num * unitDown) (den * unitUp)
  if backBelow && backAbove then some (nearest, power)
  else if backBelow then some (below, power)
  else if backAbove then some (above, power)
  else none

/-- Drop the zeros at the end of a significand. -/
def dropZeros : (fuel : Nat) → Nat × Int → Nat × Int
  | 0, d => d
  | fuel + 1, (significand, power) =>
      if significand ≠ 0 ∧ significand % 10 = 0 then dropZeros fuel (significand / 10, power + 1)
      else (significand, power)

/-- The shortest decimal that reads back as the double. Seventeen digits always do. -/
def shortest (x : Double) : Nat × Int :=
  let candidates := (List.range 17).filterMap fun n => x.withDigits (n + 1)
  dropZeros 17 (candidates.headD (0, 0))

/-- Digits are written out for sizes from 1e-5 up to 1e16, always with a point; other sizes have one
digit before the point and an exponent with its sign. -/
def text (x : Double) : String :=
  if x.mantissa = 0 then "0.0"
  else
    let (significand, power) := x.shortest
    let digits := Nat.toDigits 10 significand
    let point : Int := digits.length + power
    let zeros (n : Int) := List.replicate n.toNat '0'
    String.ofList <|
      if 0 ≤ power ∧ point ≤ 16 then digits ++ zeros power ++ ['.', '0']
      else if 0 < point ∧ point ≤ 16 then
        digits.take point.toNat ++ '.' :: digits.drop point.toNat
      else if -5 < point ∧ point ≤ 0 then '0' :: '.' :: zeros (-point) ++ digits
      else
        let fraction := if digits.length = 1 then [] else '.' :: digits.drop 1
        let sign := if 0 < point then '+' else '-'
        digits.take 1 ++ fraction ++ 'e' :: sign :: Nat.toDigits 10 (point - 1).natAbs

end Double

/-- A number as it was written. -/
structure Decimal where
  negative : Bool
  significand : Nat
  exponent : Int
  deriving DecidableEq, Repr

namespace Decimal

/-- The double a decimal stands for, its sign left out: the significand is rounded, then scaled. -/
def toDouble? (d : Decimal) : Option Double :=
  (Double.ofRatio d.significand 1).scale d.exponent 4

def text (d : Decimal) : String :=
  let size := match d.toDouble? with
    | some x => x.text
    | none => "inf"
  if d.negative then "-" ++ size else size

end Decimal

end ScriptEngine
