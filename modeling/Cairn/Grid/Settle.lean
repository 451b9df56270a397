import Cairn.Grid.Support

/-!
# Falling

In one sweep the rows above the foundation are visited from the lowest to the highest. Every unsupported
character of a row falls straight down until a character stops it, or out of the grid. Sweeps go on until
one changes nothing.
-/

namespace Cairn.Grid

/-- What becomes of a cell when its row is visited. -/
inductive Fate where
  /-- Supported, blank, or stopped by the cell right below. -/
  | stays
  /-- `c` comes to rest `depth` rows below, counting the next row as zero. -/
  | lands (c : Char) (depth : Nat)
  /-- Nothing below stops the fall. -/
  | vanishes
deriving DecidableEq, Repr

/-- For every column, how many blanks lie on top of its first character; nothing for an empty column. -/
def surface (width : Nat) : (rows : List Row) → List (Option Nat)
  | [] => List.replicate width none
  | row :: rows =>
    List.zipWith (fun c depth? => if Text.isBlank c then depth?.map (· + 1) else some 0)
      row (surface width rows)

theorem length_surface (width : Nat) (rows : List Row) (h : ∀ row ∈ rows, row.length = width) :
    (surface width rows).length = width := by
  induction rows with
  | nil => simp [surface]
  | cons row rows ih => simp_all [surface]

/-- The fate of `c`, given its support and the blanks under it. -/
def fate (c : Char) (supported : Bool) (gap? : Option Nat) : Fate :=
  if Text.isBlank c || supported then .stays
  else
    match gap? with
    | none => .vanishes
    | some 0 => .stays
    | some (depth + 1) => .lands c depth

/-- The fates of a row, given its supported cells and the blanks under it. -/
def fates (row : Row) (supported : List Bool) (gaps : List (Option Nat)) : List Fate :=
  List.zipWith (fun (c, mark) gap? => fate c mark gap?) (List.zip row supported) gaps

/-- A row after its falling characters have left. -/
def depart (fates : List Fate) (row : Row) : Row :=
  List.zipWith (fun fate c => match fate with | .stays => c | _ => ' ') fates row

/-- The row `depth` rows below after the characters that land there have arrived. -/
def arrive (fates : List Fate) (row : Row) (depth : Nat) : Row :=
  List.zipWith
    (fun fate old =>
      match fate with
      | .lands c d => if d = depth then c else old
      | _ => old)
    fates row

/-- How many characters came to rest lower down, and how many fell out. -/
structure Moves where
  moved : Nat := 0
  dropped : Nat := 0
deriving DecidableEq, Repr

/-- Counts the fates of a row in. -/
def Moves.add (m : Moves) (fates : List Fate) : Moves where
  moved := m.moved + fates.countP fun fate => fate matches .lands _ _
  dropped := m.dropped + fates.countP fun fate => fate matches .vanishes

/-- Visits `above` from its last row to its first, over `ground`, whose first row is the foundation. -/
def sweep (width : Nat) (ground : List Row) : (above : List Row) → List Row × Moves
  | [] => (ground, {})
  | row :: above =>
    let (below, moves) := sweep width ground above
    let supported := (supports (row :: below.take (above.length + 1))).headD []
    let fates := fates row supported (surface width below)
    (depart fates row :: below.mapIdx (fun depth r => arrive fates r depth), moves.add fates)

/-- What settling did. -/
structure Report where
  sweeps : Nat := 0
  moved : Nat := 0
  dropped : Nat := 0
deriving DecidableEq, Repr

/-- Adds one sweep. -/
def Report.add (r : Report) (moves : Moves) : Report :=
  ⟨r.sweeps + 1, r.moved + moves.moved, r.dropped + moves.dropped⟩

/-- Sweeps until nothing changes, `limit` times at most. -/
def settleRows (width foundation : Nat) (rows : List Row) (report : Report) :
    (limit : Nat) → List Row × Report
  | 0 => (rows, report)
  | limit + 1 =>
    let (rows', moves) := sweep width (rows.drop foundation) (rows.take foundation)
    let report := report.add moves
    if moves.moved = 0 ∧ moves.dropped = 0 then (rows', report)
    else settleRows width foundation rows' report limit

/-- Lets everything fall. The foundation stays the row it is; without one nothing happens. -/
def settle (g : Grid) : Grid × Report :=
  match g.foundation with
  | none => (g, {})
  | some f =>
    let (rows, report) := settleRows g.width f g.rows {} (max (g.height * g.width) 1)
    ({ g with rows }, report)

end Cairn.Grid

namespace Cairn

/-- The text after its fall, and the report. A text without a foundation falls out as a whole. -/
def fall (text : List Char) : List Char × Grid.Report :=
  let g := Grid.ofText text
  match g.foundation with
  | none => ([], {})
  | some _ =>
    let (settled, report) := g.settle
    (settled.render, report)

end Cairn
