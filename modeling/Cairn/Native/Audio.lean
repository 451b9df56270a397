import Cairn.Native.Basic

/-!
# Natives that play

Each call adds one audio command to the pending output. Volumes run from zero to ten.
-/

namespace Cairn.Native

/-- The natives of this group. -/
inductive Audio where
  | music | stopMusic | sound | volume
deriving DecidableEq, Repr

namespace Audio

/-- Every native, in the order of declaration. -/
def all : List Audio := [.music, .stopMusic, .sound, .volume]

/-- Names and parameters. -/
def signature : Audio → Signature
  | .music => ⟨"music", ["track"], false⟩
  | .stopMusic => ⟨"stop_music", [], false⟩
  | .sound => ⟨"sound", ["clip"], false⟩
  | .volume => ⟨"volume", ["channel", "level"], false⟩

/-- The native of a name. -/
def ofName? (name : String) : Option Audio :=
  all.find? (·.signature.name == name)

/-- The greatest volume. -/
def maxVolume : Float := 10.0

/-- The audio command that a call asks for. -/
def command (native : Audio) (c : NativeCall) : Except Failure AudioCommand := do
  match native with
  | .music => return .playMusic (← c.text 0)
  | .stopMusic => return .stopMusic
  | .sound => return .sound (← c.text 0)
  | .volume =>
    let channel ← c.text 0
    let level ← c.number 1
    return .volume channel (Number.clamp level 0.0 maxVolume)

/-- What each native does. -/
def run (native : Audio) (c : NativeCall) : Native := do
  let cmd ← native.command c
  Deed.modify (·.emitAudio cmd)
  return .null

/-- The group of these natives. -/
def group : NativeGroup where
  name := "audio"
  signatures := all.map signature
  find? c := (ofName? c.name).map (·.run c)

end Audio

end Cairn.Native
