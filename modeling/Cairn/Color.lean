import Cairn.Number.Reader
import Cairn.Text.Class

/-!
# Colours

A colour has four parts between zero and one, kept in single precision. It is written as `#` with three,
six or eight hexadecimal digits, or by name.
-/

namespace Cairn

/-- Red, green, blue and opacity. -/
structure Color where
  r : Float32
  g : Float32
  b : Float32
  a : Float32

namespace Color

/-- An opaque colour. -/
def rgb (r g b : Float32) : Color := ⟨r, g, b, 1.0⟩

/-- Opaque white. -/
def white : Color := rgb 1.0 1.0 1.0

/-- Opaque black. -/
def black : Color := rgb 0.0 0.0 0.0

/-- The colours with a name. -/
def named? : String → Option Color
  | "white" => some white
  | "black" => some black
  | "red" => some (rgb 1.0 0.0 0.0)
  | "green" => some (rgb 0.0 0.5 0.0)
  | "lime" => some (rgb 0.0 1.0 0.0)
  | "blue" => some (rgb 0.0 0.0 1.0)
  | "yellow" => some (rgb 1.0 1.0 0.0)
  | "cyan" => some (rgb 0.0 1.0 1.0)
  | "magenta" => some (rgb 1.0 0.0 1.0)
  | "orange" => some (rgb 1.0 0.647 0.0)
  | "purple" => some (rgb 0.5 0.0 0.5)
  | "gray" => some (rgb 0.5 0.5 0.5)
  | "grey" => some (rgb 0.5 0.5 0.5)
  | "transparent" => some ⟨0.0, 0.0, 0.0, 0.0⟩
  | _ => none

/-- A number in hexadecimal digits, with a plus sign allowed in front of them. -/
def readPart? : List Char → Option Nat
  | '+' :: digits => if digits.isEmpty then none else Number.ofDigits? 16 digits
  | digits => if digits.isEmpty then none else Number.ofDigits? 16 digits

/-- A part out of 255. -/
def part (n : Nat) : Float32 := Float32.ofNat n / 255.0

/-- A part from two characters. -/
def pair? (c d : Char) : Option Float32 := (readPart? [c, d]).map part

/-- A part from one digit, which counts twice. -/
def single? (c : Char) : Option Float32 := (readPart? [c]).map fun n => part (n * 17)

/-- The digits after `#`: one or two for each part; opacity may be left out of the longer form. -/
def hexadecimal? : List Char → Option Color
  | [r, g, b] => do return rgb (← single? r) (← single? g) (← single? b)
  | [r, r', g, g', b, b'] => do return rgb (← pair? r r') (← pair? g g') (← pair? b b')
  | [r, r', g, g', b, b', a, a'] => do
    return ⟨← pair? r r', ← pair? g g', ← pair? b b', ← pair? a a'⟩
  | _ => none

/-- Reads a colour; the case of a name does not count. -/
def parse? (text : String) : Option Color :=
  match text.toList with
  | '#' :: digits => hexadecimal? digits
  | _ => named? (Text.lowercase text)

/-- `x` held between zero and one. -/
def unit (x : Float32) : Float32 :=
  if x < 0.0 then 0.0 else if 1.0 < x then 1.0 else x

/-- The colour with its opacity reduced to the share `alpha`. -/
def withAlpha (c : Color) (alpha : Float32) : Color :=
  { c with a := c.a * unit alpha }

/-- A part as a byte, to the nearest. -/
def byte (x : Float32) : UInt8 := (unit x * 255.0).round.toUInt8

/-- The colour in bytes. -/
structure Bytes where
  r : UInt8
  g : UInt8
  b : UInt8
  a : UInt8
deriving DecidableEq, Repr

/-- All parts as bytes. -/
def toBytes (c : Color) : Bytes := ⟨byte c.r, byte c.g, byte c.b, byte c.a⟩

end Color

end Cairn
