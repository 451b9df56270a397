/-!
# Buttons

Presses and releases come at any time and are committed once a frame. A commit works out which buttons
went down, are down, and went up, so that a tap shorter than a frame is seen as both.
-/

namespace Cairn

/-- What can be asked about a button in a frame. -/
inductive Phase where
  /-- It went down. -/
  | pressed
  /-- It is down. -/
  | held
  /-- It went up. -/
  | released
deriving DecidableEq, Repr

/-- The state of all buttons of one kind. -/
structure Buttons (κ : Type) where
  /-- Down as of the latest event. -/
  down : List κ := []
  /-- Pressed since the last commit. -/
  tapped : List κ := []
  held : List κ := []
  pressed : List κ := []
  released : List κ := []
deriving Repr

namespace Buttons

variable {κ : Type} [DecidableEq κ]

/-- `b` goes down. -/
def press (s : Buttons κ) (b : κ) : Buttons κ :=
  { s with down := s.down.insert b, tapped := s.tapped.insert b }

/-- `b` goes up. -/
def release (s : Buttons κ) (b : κ) : Buttons κ :=
  { s with down := s.down.filter (· ≠ b) }

/-- Begins a frame with the events since the last one. -/
def commit (s : Buttons κ) : Buttons κ where
  down := s.down
  tapped := []
  held := s.down
  pressed := s.tapped.filter (· ∉ s.held)
  released := (s.held ++ s.tapped).filter (· ∉ s.down)

/-- How does `b` read in this frame? -/
def reads (s : Buttons κ) (b : κ) : Phase → Bool
  | .pressed => b ∈ s.pressed
  | .held => b ∈ s.held
  | .released => b ∈ s.released

@[simp] theorem mem_down_press (s : Buttons κ) (b b' : κ) :
    b' ∈ (s.press b).down ↔ b' = b ∨ b' ∈ s.down := by
  simp [press]

@[simp] theorem mem_down_release (s : Buttons κ) (b b' : κ) :
    b' ∈ (s.release b).down ↔ b' ∈ s.down ∧ b' ≠ b := by
  simp [release]

end Buttons

end Cairn
