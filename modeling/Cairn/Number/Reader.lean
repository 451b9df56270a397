import Cairn.Number.Integer

/-!
# Numbers from text

The decimal grammar is: an optional sign, then `inf`, `infinity`, `nan` in any case, or digits with at
most one point among them and an optional exponent. Reading rounds to the nearest number.
-/

namespace Cairn.Number

/-- Positive infinity. -/
def infinity : Float := 1.0 / 0.0

/-- The number nearest to `significand · 10^exponent`. Beyond the range of exponents the answer is known. -/
def ofDecimal (significand : Nat) (exponent : Int) : Float :=
  if significand = 0 then 0.0
  else if 310 < exponent then infinity
  else if exponent < -(400 + significand.log2 : Int) then 0.0
  else Float.ofScientific significand (exponent < 0) exponent.natAbs

/-- The value of a digit in a radix of at most sixteen. -/
def digit? (radix : Nat) (c : Char) : Option Nat :=
  let value? :=
    if '0' ≤ c ∧ c ≤ '9' then some (c.toNat - '0'.toNat)
    else if 'a' ≤ c ∧ c ≤ 'f' then some (c.toNat - 'a'.toNat + 10)
    else if 'A' ≤ c ∧ c ≤ 'F' then some (c.toNat - 'A'.toNat + 10)
    else none
  value?.filter (· < radix)

/-- The natural number that digits spell, most significant first. -/
def ofDigits? (radix : Nat) (cs : List Char) : Option Nat :=
  cs.foldl (fun total? c => do return (← total?) * radix + (← digit? radix c)) (some 0)

/-- The value of a run of decimal digits, most significant first. -/
def ofDecimalDigits (cs : List Char) : Nat :=
  cs.foldl (fun total c => total * 10 + (c.toNat - '0'.toNat)) 0

/-- Splits a sign off the front; `true` for a minus. -/
def splitSign : List Char → Bool × List Char
  | '-' :: cs => (true, cs)
  | '+' :: cs => (false, cs)
  | cs => (false, cs)

/-- The exponent after the digits of a number: nothing, or `e`, an optional sign and digits up to the end. -/
def readExponent? : List Char → Option Int
  | [] => some 0
  | c :: cs =>
    if c == 'e' || c == 'E' then
      let (negative, digits) := splitSign cs
      if digits.isEmpty || !digits.all Char.isDigit then none
      else
        let n := ofDecimalDigits digits
        some (if negative then -(n : Int) else n)
    else none

/-- Digits before and after the point, then the exponent. At least one digit is needed. -/
def readMagnitude? (cs : List Char) : Option Float :=
  let whole := cs.takeWhile Char.isDigit
  let rest := cs.dropWhile Char.isDigit
  let (fraction, rest) :=
    match rest with
    | '.' :: more => (more.takeWhile Char.isDigit, more.dropWhile Char.isDigit)
    | _ => ([], rest)
  if whole.isEmpty && fraction.isEmpty then none
  else
    (readExponent? rest).map fun exponent =>
      ofDecimal (ofDecimalDigits (whole ++ fraction)) (exponent - fraction.length)

/-- The words that stand for numbers without digits. -/
def readWord? (cs : List Char) : Option Float :=
  match String.ofList (cs.map Char.toLower) with
  | "inf" => some infinity
  | "infinity" => some infinity
  | "nan" => some nan
  | _ => none

/-- Reads a number in decimal notation. -/
def read? (text : List Char) : Option Float :=
  let (negative, cs) := splitSign text
  let magnitude? := (readWord? cs).or (readMagnitude? cs)
  magnitude?.map fun x => if negative then -x else x

/-- Reads an optionally signed integer of the 64-bit range in `radix`. -/
def readIndex? (radix : Nat) (text : List Char) : Option Int := do
  let (negative, digits) := splitSign text
  if digits.isEmpty then none
  else
    let n ← ofDigits? radix digits
    let value : Int := if negative then -n else n
    if minIndex ≤ value ∧ value ≤ maxIndex then some value else none

end Cairn.Number
