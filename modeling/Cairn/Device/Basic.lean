import Cairn.Device.Buttons
import Cairn.Device.TimedBuffer
import Cairn.Number.Integer
import Cairn.Text.Class

/-!
# The input device

Keyboard, mouse, touch and pad. The host reports events; once a frame they are committed; programs ask
about buttons, positions, axes, and about actions bound to keys and pad buttons.
-/

namespace Cairn

/-- A place on the canvas or the screen. -/
structure Point where
  x : Float := 0.0
  y : Float := 0.0

/-- What an action is bound to. -/
inductive Binding where
  /-- A key, by its name in lower case. -/
  | key (name : String)
  | pad (button : Nat)
deriving DecidableEq, Repr

/-- The input device. -/
structure Device where
  bindings : Dict String (List Binding) := {}
  keys : Buttons String := {}
  mouse : Buttons Nat := {}
  pad : Buttons Nat := {}
  touch : Buttons Unit := {}
  mouseAt : Point := {}
  touchAt : Point := {}
  axes : Dict Nat Float := {}
  buffer : TimedBuffer := {}

namespace Device

/-! ## Bindings -/

/-- Adds bindings to an action. -/
def addBindings (d : Device) (action : String) (more : List Binding) : Device :=
  { d with bindings := d.bindings.insert action ((d.bindings.get? action).getD [] ++ more) }

/-- Binds keys to an action; the case of their names does not count. -/
def bind (d : Device) (action : String) (keys : List String) : Device :=
  d.addBindings action (keys.map fun k => .key (Text.lowercase k))

/-- Binds a pad button to an action. -/
def bindPad (d : Device) (action : String) (button : Nat) : Device :=
  d.addBindings action [.pad button]

/-- Takes all bindings of an action away. -/
def unbind (d : Device) (action : String) : Device :=
  { d with bindings := d.bindings.erase action }

/-- Arrow keys and WASD move, space and the first pad button jump, enter, `z` and the second act. -/
def standard : Device :=
  let d : Device := {}
  let d := d.bind "left" ["arrowleft", "a"]
  let d := d.bind "right" ["arrowright", "d"]
  let d := d.bind "up" ["arrowup", "w"]
  let d := d.bind "down" ["arrowdown", "s"]
  let d := d.bind "jump" ["space"]
  let d := d.bind "action" ["enter", "z"]
  let d := d.bindPad "jump" 0
  d.bindPad "action" 1

/-! ## Events -/

/-- What the host can report. -/
inductive Event where
  | keyDown (key : String)
  | keyUp (key : String)
  | mouseMove (place : Point)
  | mouseDown (button : Nat)
  | mouseUp (button : Nat)
  | touchStart (place : Point)
  | touchMove (place : Point)
  | touchEnd
  | padDown (button : Nat)
  | padUp (button : Nat)
  | padAxis (axis : Nat) (value : Float)

/-- The device after an event. Axes run from minus one to one. -/
def handle (d : Device) : Event → Device
  | .keyDown key => { d with keys := d.keys.press (Text.lowercase key) }
  | .keyUp key => { d with keys := d.keys.release (Text.lowercase key) }
  | .mouseMove p => { d with mouseAt := p }
  | .mouseDown button => { d with mouse := d.mouse.press button }
  | .mouseUp button => { d with mouse := d.mouse.release button }
  | .touchStart p => { d with touchAt := p, touch := d.touch.press () }
  | .touchMove p => { d with touchAt := p }
  | .touchEnd => { d with touch := d.touch.release () }
  | .padDown button => { d with pad := d.pad.press button }
  | .padUp button => { d with pad := d.pad.release button }
  | .padAxis axis value => { d with axes := d.axes.insert axis (Number.clamp value (-1.0) 1.0) }

/-- Begins a frame: commits all buttons and lets `dt` seconds pass in the buffer. -/
def update (d : Device) (dt : Float) : Device :=
  { d with
    keys := d.keys.commit
    mouse := d.mouse.commit
    pad := d.pad.commit
    touch := d.touch.commit
    buffer := d.buffer.age dt }

/-! ## Queries -/

/-- How does a key read? -/
def key (d : Device) (name : String) (phase : Phase) : Bool :=
  d.keys.reads (Text.lowercase name) phase

/-- How does a bound key or button read? -/
def binding (d : Device) (phase : Phase) : Binding → Bool
  | .key name => d.keys.reads name phase
  | .pad button => d.pad.reads button phase

/-- How does an action read? It is released only when nothing bound to it is held. -/
def action (d : Device) (name : String) (phase : Phase) : Bool :=
  let bindings := (d.bindings.get? name).getD []
  match phase with
  | .released => bindings.any (d.binding .released) && !bindings.any (d.binding .held)
  | phase => bindings.any (d.binding phase)

/-- The value of an axis; zero before it was ever set. -/
def axis (d : Device) (axis : Nat) : Float := (d.axes.get? axis).getD 0.0

/-- Arms an action in the buffer. -/
def arm (d : Device) (action : String) (seconds : Float) : Device :=
  { d with buffer := d.buffer.arm action seconds }

/-- Disarms an action in the buffer. -/
def disarm (d : Device) (action : String) : Device :=
  { d with buffer := d.buffer.disarm action }

/-- Was the action armed? It no longer is. -/
def consume (d : Device) (action : String) : Bool × Device :=
  (d.buffer.isArmed action, d.disarm action)

end Device

end Cairn
