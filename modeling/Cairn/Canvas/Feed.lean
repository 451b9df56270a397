import Cairn.Canvas.Paint
import Cairn.Device.Basic

/-!
# Window events

Events of the window become events of the input device. Positions are taken relative to the canvas. Keys
are passed over while a text field has the focus, and so are repeats. Which presses are repeats, and which
places lie on the canvas, is for the window to say.
-/

namespace Cairn.Canvas

/-- The buttons of a pointer. -/
inductive PointerButton where
  | primary | middle | secondary | extra1 | extra2
deriving DecidableEq, Repr

/-- The number of a button. -/
def PointerButton.number : PointerButton → Nat
  | .primary => 0
  | .middle => 1
  | .secondary => 2
  | .extra1 => 3
  | .extra2 => 4

/-- The stages of a touch. -/
inductive TouchStage where
  | start | move | stop | cancel
deriving DecidableEq, Repr

/-- What a window reports. -/
inductive WindowEvent where
  | key (name : String) (pressed repeated : Bool)
  | moved (spot : Spot)
  | button (spot : Spot) (which : PointerButton) (pressed : Bool)
  | touch (stage : TouchStage) (spot : Spot)
  /-- Anything that the canvas does not care about. -/
  | other

/-- A place relative to the canvas. -/
def localPoint (canvas : Area) (p : Spot) : Point :=
  ⟨(p.x - canvas.min.x).toFloat, (p.y - canvas.min.y).toFloat⟩

/-- The device event of a window event, if it has one. A press of a button counts on the canvas only, a
release everywhere. -/
def deviceEvent? (contains : Area → Spot → Bool) (canvas : Area) (typing : Bool) : WindowEvent → Option Device.Event
  | .key name pressed repeated =>
    if repeated || typing then none else some (if pressed then .keyDown name else .keyUp name)
  | .moved p => some (.mouseMove (localPoint canvas p))
  | .button p which pressed =>
    if contains canvas p || !pressed then
      some (if pressed then .mouseDown which.number else .mouseUp which.number)
    else none
  | .touch .start p => some (.touchStart (localPoint canvas p))
  | .touch .move p => some (.touchMove (localPoint canvas p))
  | .touch .stop _ | .touch .cancel _ => some .touchEnd
  | .other => none

/-- One window event. -/
def feedOne (contains : Area → Spot → Bool) (canvas : Area) (typing : Bool) (device : Device) (event : WindowEvent) :
    Device :=
  match deviceEvent? contains canvas typing event with
  | some e => device.handle e
  | none => device

/-- The window events of one frame. -/
def feed (contains : Area → Spot → Bool) (canvas : Area) (typing : Bool) (device : Device) (events : List WindowEvent) :
    Device :=
  events.foldl (feedOne contains canvas typing) device

end Cairn.Canvas
