import Cairn.Number.Parts

/-!
# The fewest digits that read back

Of the decimals that read back as a given number, the shortest one is written, and of two equally short
ones the nearer; halfway between two, the greater.
-/

namespace Cairn.Number

/-- The decimal `significand · 10^exponent`. -/
structure Decimal where
  significand : Nat
  exponent : Int
deriving DecidableEq, Repr

/-- How many decimal digits `n` has; zero has one. -/
def digitCount (n : Nat) : Nat :=
  (Nat.toDigits 10 n).length

/-- The greatest `k` with `10^k ≤ num / den`, for positive `num` and `den`. -/
def decade (num den : Nat) : Int :=
  if den ≤ num then
    (digitCount (num / den) : Int) - 1
  else
    let d := digitCount (den / num)
    if den ≤ num * Nat.pow 10 (d - 1) then -((d : Int) - 1) else -(d : Int)

/-- The numbers that round to `significand · 2^exponent`, in quarters of a unit in the last place. -/
structure Interval where
  low : Nat
  value : Nat
  high : Nat
  /-- An even significand takes both ends in. -/
  closed : Bool

/-- Half a unit to both sides, but a quarter below a power of two whose lower neighbours are denser. -/
def interval (significand : Nat) (exponent : Int) : Interval where
  low := 4 * significand - (if significand = Nat.pow 2 52 ∧ -1074 < exponent then 1 else 2)
  value := 4 * significand
  high := 4 * significand + 2
  closed := significand % 2 == 0

/-- Both sides of a comparison between `a · 2^exponent / 4` and `b · 10^scale`, as factors of `a` and `b`. -/
def factors (exponent scale : Int) : Nat × Nat :=
  (Nat.pow 2 (exponent - 2).toNat * Nat.pow 10 (-scale).toNat,
    Nat.pow 2 (2 - exponent).toNat * Nat.pow 10 scale.toNat)

/-- Does the grid point `c · grid` read back, every bound being a multiple of `unit`? -/
def Interval.covers (i : Interval) (unit grid c : Nat) : Bool :=
  if i.closed then i.low * unit ≤ c * grid && c * grid ≤ i.high * unit
  else i.low * unit < c * grid && c * grid < i.high * unit

/-- The point of the grid `10^scale` that reads back and lies nearest, if there is one. -/
def onGrid? (significand : Nat) (exponent scale : Int) : Option Nat :=
  let i := interval significand exponent
  let (unit, grid) := factors exponent scale
  let below := i.value * unit / grid
  match i.covers unit grid below, i.covers unit grid (below + 1) with
  | true, true =>
    some (if 2 * (i.value * unit) < (2 * below + 1) * grid then below else below + 1)
  | true, false => some below
  | false, true => some (below + 1)
  | false, false => none

/-- The first grid, from `digits` digits on, with a point that reads back; `fuel` grids are tried. -/
def search (significand : Nat) (exponent top : Int) (digits : Nat) : (fuel : Nat) → Decimal
  | 0 => ⟨significand, 0⟩
  | fuel + 1 =>
    let scale := top - digits + 1
    match onGrid? significand exponent scale with
    | some c => ⟨c, scale⟩
    | none => search significand exponent top (digits + 1) fuel

/-- Moves zeros at the end of the significand into the exponent; `fuel` of them at most. -/
def Decimal.strip (d : Decimal) : (fuel : Nat) → Decimal
  | 0 => d
  | fuel + 1 =>
    if d.significand % 10 = 0 ∧ d.significand ≠ 0 then
      Decimal.strip ⟨d.significand / 10, d.exponent + 1⟩ fuel
    else d

/-- The shortest decimal that reads back as `significand · 2^exponent`; seventeen digits always do. -/
def shortest (significand : Nat) (exponent : Int) : Decimal :=
  if significand = 0 then ⟨0, 0⟩
  else
    let top := decade (significand * Nat.pow 2 exponent.toNat) (Nat.pow 2 (-exponent).toNat)
    (search significand exponent top 1 17).strip 17

end Cairn.Number
