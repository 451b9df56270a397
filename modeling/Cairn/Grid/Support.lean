import Cairn.Grid.Basic

/-!
# Support

A cell is supported when a staircase of characters leads from it down to a `#` on the foundation, each
step going to the row below and at most one column aside. Support is worked out row by row from the
foundation upward, so each row is looked at once.
-/

namespace Cairn.Grid

/-- For every column: is it, or a column beside it, marked? `left` is the mark before the first. -/
def spread (left : Bool) : List Bool → List Bool
  | [] => []
  | [a] => [left || a]
  | a :: b :: marks => (left || a || b) :: spread a (b :: marks)

@[simp] theorem length_spread (left : Bool) (marks : List Bool) :
    (spread left marks).length = marks.length := by
  induction marks generalizing left with
  | nil => rfl
  | cons a marks ih =>
    cases marks with
    | nil => rfl
    | cons b marks => simp [spread, ih]

/-- The supported cells of a row above another one whose supported cells are known. -/
def raise (row : Row) (below : List Bool) : List Bool :=
  List.zipWith (fun c rests => !Text.isBlank c && rests) row (spread false below)

theorem length_raise (row : Row) (below : List Bool) :
    (raise row below).length = min row.length below.length := by
  simp [raise]

/-- The supported cells of every row, the last of `rows` being the foundation. -/
def supports : (rows : List Row) → List (List Bool)
  | [] => []
  | row :: rows =>
    match supports rows with
    | [] => [row.map (· == '#')]
    | below :: more => raise row below :: below :: more

@[simp] theorem length_supports (rows : List Row) : (supports rows).length = rows.length := by
  induction rows with
  | nil => rfl
  | cons row rows ih =>
    rw [supports]
    split
    next h => simp_all
    next h => simp_all

/-- The supported cells of the rows down to the foundation; none without a foundation. -/
def supportMap (g : Grid) : List (List Bool) :=
  match g.foundation with
  | none => []
  | some f => supports (g.rows.take (f + 1))

/-- Does the cell at row `r` and column `c` rest on the foundation? -/
def isSupported (g : Grid) (r c : Nat) : Bool :=
  ((g.supportMap[r]?).bind (·[c]?)).getD false

/-- The columns of the characters in `row` that carry no mark. -/
def unmarked (row : Row) (marks : List Bool) : List Nat :=
  (List.zip row marks).zipIdx.filterMap fun ((c, mark), column) =>
    if Text.isBlank c || mark then none else some column

/-- The characters that would fall, in reading order. Without a foundation that is every character. -/
def unsupported (g : Grid) : List (Nat × Nat) :=
  let marked : List (Row × List Bool) :=
    match g.foundation with
    | none => g.rows.map fun row => (row, row.map fun _ => false)
    | some f => List.zip (g.rows.take f) g.supportMap
  marked.zipIdx.flatMap fun ((row, marks), r) => (unmarked row marks).map (r, ·)

end Cairn.Grid
