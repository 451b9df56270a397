import Cairn.Number.Integer
import Cairn.Number.Shortest

/-!
# Numbers as text

Three ways to write a number: positional, positional with a point kept and exponents at both ends, and
the way values are shown, where whole numbers below `10^15` are integers.
-/

namespace Cairn.Number

/-- `n` zeros. -/
def zeros (n : Nat) : String :=
  String.ofList (List.replicate n '0')

namespace Decimal

/-- The digits with the point put in place and no exponent; `whole` follows a number without a fraction. -/
def positional (d : Decimal) (whole : String) : String :=
  let digits := Nat.toDigits 10 d.significand
  if 0 ≤ d.exponent then
    String.ofList digits ++ zeros d.exponent.toNat ++ whole
  else
    let places := (-d.exponent).toNat
    if digits.length ≤ places then
      "0." ++ zeros (places - digits.length) ++ String.ofList digits
    else
      let cut := digits.length - places
      String.ofList (digits.take cut) ++ "." ++ String.ofList (digits.drop cut)

/-- One digit before the point, the others after it, then the exponent. -/
def scientific (d : Decimal) : String :=
  let digits := Nat.toDigits 10 d.significand
  let exponent := d.exponent + digits.length - 1
  let fraction := digits.drop 1
  String.ofList (digits.take 1) ++ (if fraction.isEmpty then "" else "." ++ String.ofList fraction)
    ++ "e" ++ toString exponent

/-- Is `d` of an order of magnitude below `10^-4`, or of `10^16` and above? -/
def isExtreme (d : Decimal) : Bool :=
  let order := d.exponent + digitCount d.significand
  d.significand != 0 && (order ≤ -4 || 16 < order)

end Decimal

/-- A sign for negative numbers, zero included, then the magnitude written by `magnitude`. -/
def signed (magnitude : Decimal → String) (x : Float) : String :=
  match shape x with
  | .nan => "NaN"
  | .infinite negative => if negative then "-inf" else "inf"
  | .finite p => (if p.negative then "-" else "") ++ magnitude (shortest p.significand p.exponent)

/-- Positional notation at every size. -/
def plain : Float → String :=
  signed fun d => d.positional ""

/-- Whole numbers keep a `.0`; very small and very large ones take an exponent. -/
def pointed : Float → String :=
  signed fun d => if d.isExtreme then d.scientific else d.positional ".0"

/-- The text of a number value: integers below `10^15` plainly, with no negative zero. -/
def display (x : Float) : String :=
  match shape x with
  | .nan => "NaN"
  | .infinite negative => if negative then "-Infinity" else "Infinity"
  | .finite p => if p.isWhole && p.truncate.natAbs < Nat.pow 10 15 then toString p.truncate else plain x

end Cairn.Number
