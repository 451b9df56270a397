import Cairn.Grid.Support

/-!
# Support by search

Whether one cell is supported can be found out from the cell downward: it is if one of the cells below it is. What is
found out on the way is noted in a memo, so that no cell is searched twice, and one memo serves for many questions.
-/

namespace Cairn.Grid

/-- What a search notes of a cell. -/
inductive Mark where
  /-- The search is below the cell and has not come back to it. -/
  | visiting
  | supported
  | unsupported
deriving DecidableEq, Repr

/-- The marks of all cells, row after row. -/
abbrev Memo := Array (Option Mark)

/-- A memo in which nothing is noted. -/
def emptyMemo (g : Grid) : Memo := Array.replicate (g.height * g.width) none

/-- Where the mark of a cell stands in the memo. -/
def slot (g : Grid) (r c : Nat) : Nat := r * g.width + c

/-- What is noted of a cell or, if nothing is, what `look` finds; that is noted then. -/
def remembered (g : Grid) (r c : Nat) (look : StateM Memo Bool) : StateM Memo Bool := do
  let memo ← MonadState.get
  match memo[g.slot r c]?.join with
  | some .supported => return true
  | some _ => return false
  | none =>
    MonadState.set (memo.setIfInBounds (g.slot r c) (some .visiting))
    let found ← look
    modify (·.setIfInBounds (g.slot r c) (some (if found then .supported else .unsupported)))
    return found

/-- The columns a step down from column `c` can lead to. -/
def columnsUnder (g : Grid) (c : Nat) : List Nat :=
  List.range' (c - 1) (min (c + 1) (g.width - 1) + 1 - (c - 1))

/-- Does the cell rest on the foundation `f`? -/
def search (g : Grid) (f r c : Nat) : StateM Memo Bool :=
  if Text.isBlank (g.get r c) then pure false
  else if r < f then g.remembered r c ((g.columnsUnder c).anyM fun d => search g f (r + 1) d)
  else pure (r == f && g.get r c == '#')
termination_by f - r

/-- Is the cell supported? Without a foundation none is. -/
def ask (g : Grid) (r c : Nat) : StateM Memo Bool :=
  match g.foundation with
  | none => pure false
  | some f => g.search f r c

/-- All places of the first `height` rows, in reading order. -/
def places (height width : Nat) : List (Nat × Nat) :=
  (List.range height).flatMap fun r => (List.range width).map (r, ·)

/-- The characters above the foundation that are not supported, all searched with one memo. -/
def survey (g : Grid) : StateM Memo (List (Nat × Nat)) :=
  (places (g.foundation.getD g.height) g.width).filterM fun p =>
    if Text.isBlank (g.get p.1 p.2) then pure false else (!·) <$> g.ask p.1 p.2

end Cairn.Grid
