import Cairn.Native.Basic

/-!
# Natives that ask for input

Questions about buttons are told by the end of their name, which gives the phase, and by what stands
before the last underscore, which gives the kind of button. A name without an underscore is a question
about an action.
-/

namespace Cairn.Native

/-- What can be asked of the input device. -/
inductive Input where
  | action (phase : Phase)
  | key (phase : Phase)
  | mouse (phase : Phase)
  | touch (phase : Phase)
  | pad (phase : Phase)
  | mouseX | mouseY | touchX | touchY
  | padAxis
  | buffer | buffered | consume | peekBuffer | clearBuffer
deriving DecidableEq, Repr

namespace Input

/-- Names and parameters, in the order of declaration. -/
def signatures : List Signature :=
  [⟨"pressed", ["action"], false⟩, ⟨"held", ["action"], false⟩, ⟨"released", ["action"], false⟩,
   ⟨"key_pressed", ["key"], false⟩, ⟨"key_held", ["key"], false⟩, ⟨"key_released", ["key"], false⟩,
   ⟨"mouse_x", [], false⟩, ⟨"mouse_y", [], false⟩,
   ⟨"mouse_pressed", ["button"], false⟩, ⟨"mouse_held", ["button"], false⟩,
   ⟨"mouse_released", ["button"], false⟩,
   ⟨"touch_x", [], false⟩, ⟨"touch_y", [], false⟩,
   ⟨"touch_pressed", [], false⟩, ⟨"touch_held", [], false⟩, ⟨"touch_released", [], false⟩,
   ⟨"pad_pressed", ["button"], false⟩, ⟨"pad_held", ["button"], false⟩,
   ⟨"pad_released", ["button"], false⟩,
   ⟨"pad_axis", ["axis"], false⟩,
   ⟨"buffer", ["action", "seconds"], false⟩, ⟨"buffered", ["action"], false⟩,
   ⟨"consume", ["action"], false⟩, ⟨"peek_buffer", ["action"], false⟩,
   ⟨"clear_buffer", ["action"], false⟩]

/-- Does `name` end in `ending`? -/
def endsIn (ending : String) (name : List Char) : Bool :=
  ending.toList.isSuffixOf name

/-- The phase that a name ends in. -/
def phase? (name : List Char) : Option Phase :=
  if endsIn "pressed" name then some .pressed
  else if endsIn "held" name then some .held
  else if endsIn "released" name then some .released
  else none

/-- What stands before the last underscore of a name that has one. -/
def beforeUnderscore? (name : List Char) : Option (List Char) :=
  if '_' ∈ name then some ((name.reverse.dropWhile (· ≠ '_')).drop 1).reverse else none

/-- The question about a button that a name asks in a phase. -/
def query? (name : List Char) (phase : Phase) : Option Input :=
  match beforeUnderscore? name with
  | none => some (.action phase)
  | some kind =>
    match String.ofList kind with
    | "key" => some (.key phase)
    | "mouse" => some (.mouse phase)
    | "touch" => some (.touch phase)
    | "pad" => some (.pad phase)
    | _ => none

/-- The native of a name. -/
def ofName? (name : String) : Option Input :=
  match phase? name.toList with
  | some phase => query? name.toList phase
  | none =>
    match name with
    | "mouse_x" => some .mouseX
    | "mouse_y" => some .mouseY
    | "touch_x" => some .touchX
    | "touch_y" => some .touchY
    | "pad_axis" => some .padAxis
    | "buffer" => some .buffer
    | "buffered" => some .buffered
    | "consume" => some .consume
    | "peek_buffer" => some .peekBuffer
    | "clear_buffer" => some .clearBuffer
    | _ => none

/-- What each native does. -/
def run (native : Input) (c : NativeCall) : Native := do
  let device := (← Deed.host).device
  match native with
  | .action phase => return .bool (device.action (← c.text 0) phase)
  | .key phase => return .bool (device.key (← c.text 0) phase)
  | .mouse phase => return .bool (device.mouse.reads (← c.index 0) phase)
  | .touch phase => return .bool (device.touch.reads () phase)
  | .pad phase => return .bool (device.pad.reads (← c.index 0) phase)
  | .mouseX => return .number device.mouseAt.x
  | .mouseY => return .number device.mouseAt.y
  | .touchX => return .number device.touchAt.x
  | .touchY => return .number device.touchAt.y
  | .padAxis => return .number (device.axis (← c.index 0))
  | .buffer =>
    let action ← c.text 0
    let seconds ← c.number 1
    Deed.modify ({ · with device := device.arm action seconds })
    return .null
  | .buffered => return .bool (device.buffer.isArmed (← c.text 0))
  | .consume =>
    let (armed, device) := device.consume (← c.text 0)
    Deed.modify ({ · with device })
    return .bool armed
  | .peekBuffer => return .number (device.buffer.remaining (← c.text 0))
  | .clearBuffer =>
    let action ← c.text 0
    Deed.modify ({ · with device := device.disarm action })
    return .null

/-- The group of these natives. -/
def group : NativeGroup where
  name := "input"
  signatures := signatures
  find? c := (ofName? c.name).map (·.run c)

end Input

end Cairn.Native
