import Cairn.Number.Parts

/-!
# Integers out of numbers

Indices saturate at the ends of the 64-bit range, bit operators work modulo `2^32`, and the remainder
is exact and carries the sign of the dividend.
-/

namespace Cairn.Number

/-- The least 64-bit integer. -/
def minIndex : Int := -Nat.pow 2 63

/-- The greatest 64-bit integer. -/
def maxIndex : Int := Nat.pow 2 63 - 1

/-- The integer part, held within the 64-bit range; not a number counts as zero. -/
def toIndex (x : Float) : Int :=
  match shape x with
  | .nan => 0
  | .infinite negative => if negative then minIndex else maxIndex
  | .finite p => max minIndex (min maxIndex p.truncate)

/-- The integer part modulo `2^32` as a signed word; anything not finite counts as zero. -/
def toWord (x : Float) : Int32 :=
  match shape x with
  | .finite p => Int32.ofInt p.truncate
  | _ => 0

/-- A signed word as a number. -/
def ofWord (w : Int32) : Float :=
  Float.ofInt w.toInt

/-- The number not a number. -/
def nan : Float := 0.0 / 0.0

/-- Is `x` finite without a fractional part? -/
def isWhole (x : Float) : Bool :=
  match shape x with
  | .finite p => p.isWhole
  | _ => false

/-- The exact remainder of `x` by `y`, with the sign of `x`. -/
def remainder (x y : Float) : Float :=
  match shape x, shape y with
  | .finite p, .finite q =>
    if q.significand = 0 then nan
    else
      let low := min p.exponent q.exponent
      let dividend := p.significand * Nat.pow 2 (p.exponent - low).toNat
      let divisor := q.significand * Nat.pow 2 (q.exponent - low).toNat
      Parts.toFloat ⟨p.negative, dividend % divisor, low⟩
  | .finite _, .infinite _ => x
  | _, _ => nan

/-- `x` held between `lo` and `hi`; not a number stays so. -/
def clamp (x lo hi : Float) : Float :=
  if x < lo then lo else if hi < x then hi else x

/-- The lesser of two numbers: a number is less than not a number, and of two equal ones, as zeros of both
signs are, the second is given. -/
def least (x y : Float) : Float :=
  if x.isNaN then y else if y.isNaN then x else if x < y then x else y

/-- The greater of two numbers: a number is greater than not a number, and of two equal ones, as zeros of
both signs are, the second is given. -/
def greatest (x y : Float) : Float :=
  if x.isNaN then y else if y.isNaN then x else if y < x then x else y

end Cairn.Number
