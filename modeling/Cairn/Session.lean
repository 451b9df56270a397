import Cairn.Eval.Evaluator
import Cairn.Program.Compile

/-!
# Sessions

A session runs the top level of a program once and then one frame at a time: the device is brought up to
date, the update block runs, the draw block runs, and what they emitted is handed over.
-/

namespace Cairn

namespace Run

/-- Takes the pending output. -/
def takeOutput : Run Frame := step fun w =>
  .ok w.host.pending { w with host := { w.host with pending := {} } }

/-- Brings the device up to date. -/
def updateDevice (dt : Float) : Run Unit :=
  modify fun w => { w with host := { w.host with device := w.host.device.update dt } }

/-- One frame. After a fault the output made so far waits for the next frame. -/
def tick (fuel : Nat) (dt : Float) : Run Frame := do
  updateDevice dt
  updateBlock fuel dt
  drawBlock fuel
  takeOutput

/-- Forgets everything but the device and what chance is still to answer, and runs a program again. -/
def restart (fuel : Nat) (p : Program) : Run Unit := do
  modify World.reset
  let _ ← program fuel p
  return ()

end Run

/-- A program and the world it runs in. -/
structure Session where
  compiled : Compiled
  world : World

namespace Session

/-- Why a session cannot begin. -/
inductive StartError where
  | diagnostics (ds : List Diagnostic)
  | failure (f : Failure)

/-- The wording of the error, if there is an answer at all. -/
def StartError.message? : StartError → Option String
  | .diagnostics ds => some ("compile failed with " ++ toString ds.length ++ " error(s)")
  | .failure (.fault f) => some f.display
  | .failure (.abort _) => none

/-- Runs the top level of a program around a device, where chance gives the answers `chances`. -/
def start (fuel : Nat) (compiled : Compiled) (device : Device) (chances : Nat → Chance) : Except Failure Session :=
  match Run.program fuel compiled.program (World.start device chances) with
  | .ok _ world => .ok { compiled, world }
  | .fault f _ => .error (.fault f)
  | .abort why => .error (.abort why)

/-- Lets a text fall, reads it and runs its top level. -/
def ofText (fuel : Nat) (text : List Char) (device : Device) (chances : Nat → Chance) :
    Except StartError Session :=
  match compile text with
  | .error ds => .error (.diagnostics ds)
  | .ok compiled =>
    match start fuel compiled device chances with
    | .ok session => .ok session
    | .error f => .error (.failure f)

end Session

end Cairn
