import Cairn.Text.Class

/-!
# The grid of a source text

A text is a rectangle of characters, short lines being filled up with blanks. Its foundation is the
lowest row with a `#` outside of quotes.
-/

namespace Cairn

/-- One line of cells, left to right. -/
abbrev Row := List Char

/-- The cells of a text, top to bottom, and the row everything has to rest on. -/
structure Grid where
  rows : List Row
  width : Nat
  foundation : Option Nat
deriving DecidableEq, Repr

namespace Grid

/-- Is there a `#` outside of quotes? A quote opens or closes; `quoted` says which. -/
def hasAnchor (quoted : Bool) : Row → Bool
  | [] => false
  | c :: cs =>
    if c == '"' then hasAnchor (!quoted) cs
    else if c == '#' && !quoted then true
    else hasAnchor quoted cs

/-- The lowest row with an anchor; every row starts outside of quotes. -/
def foundationRow : List Row → Option Nat
  | [] => none
  | row :: rows =>
    match foundationRow rows with
    | some r => some (r + 1)
    | none => if hasAnchor false row then some 0 else none

/-- `row` filled up with blanks to `width` cells. -/
def pad (width : Nat) (row : Row) : Row :=
  row ++ List.replicate (width - row.length) ' '

@[simp] theorem length_pad (width : Nat) (row : Row) :
    (pad width row).length = max width row.length := by
  simp [pad]; omega

/-- The grid of a text. -/
def ofText (text : List Char) : Grid :=
  let lines := Text.lines text
  let width := (lines.map List.length).foldl max 0
  let rows := lines.map (pad width)
  { rows, width, foundation := foundationRow rows }

/-- The number of rows. -/
def height (g : Grid) : Nat := g.rows.length

/-- The character at row `r` and column `c`; a blank outside of the grid. -/
def get (g : Grid) (r c : Nat) : Char :=
  ((g.rows[r]?).bind (·[c]?)).getD ' '

/-- The text of the grid, without blanks at the ends of lines. -/
def render (g : Grid) : List Char :=
  Text.unlines (g.rows.map (Text.trimEnd Text.isBlank))

end Grid

end Cairn
