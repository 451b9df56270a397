/-!
# Numbers taken apart

A double is not a number, infinite, or `±significand · 2^exponent`. Everything the language does with
the digits or the integer part of a number starts from these parts.
-/

namespace Cairn.Number

/-- A finite number `±significand · 2^exponent`. -/
structure Parts where
  negative : Bool
  significand : Nat
  exponent : Int
deriving DecidableEq, Repr

/-- What a double is. -/
inductive Shape where
  | nan
  | infinite (negative : Bool)
  | finite (parts : Parts)
deriving DecidableEq, Repr

/-- Reads the sign bit, the eleven exponent bits and the fifty-two fraction bits. -/
def shape (x : Float) : Shape :=
  let bits : Nat := x.toBits.toNat
  let negative := bits / Nat.pow 2 63 == 1
  let biased : Nat := bits / Nat.pow 2 52 % Nat.pow 2 11
  let fraction := bits % Nat.pow 2 52
  if biased = 2047 then
    if fraction = 0 then .infinite negative else .nan
  else if biased = 0 then
    .finite ⟨negative, fraction, -1074⟩
  else
    .finite ⟨negative, Nat.pow 2 52 + fraction, (biased : Int) - 1075⟩

namespace Parts

/-- The double with these parts, for a significand below `2^53` and an exponent of at least `-1074`. -/
def toFloat (p : Parts) : Float :=
  let sign := if p.negative then Nat.pow 2 63 else 0
  if p.significand = 0 then
    Float.ofBits (UInt64.ofNat sign)
  else
    let lift := min (52 - p.significand.log2) (p.exponent + 1074).toNat
    let fraction := p.significand * Nat.pow 2 lift
    let biased := if fraction < Nat.pow 2 52 then 0 else (p.exponent - lift + 1075).toNat
    Float.ofBits (UInt64.ofNat (sign + biased * Nat.pow 2 52 + fraction % Nat.pow 2 52))

/-- The integer part, toward zero. -/
def truncate (p : Parts) : Int :=
  let magnitude :=
    if 0 ≤ p.exponent then p.significand * Nat.pow 2 p.exponent.toNat
    else p.significand / Nat.pow 2 (-p.exponent).toNat
  if p.negative then -(magnitude : Int) else magnitude

/-- Is there nothing after the binary point? -/
def isWhole (p : Parts) : Bool :=
  0 ≤ p.exponent || p.significand % Nat.pow 2 (-p.exponent).toNat == 0

end Parts

end Cairn.Number
