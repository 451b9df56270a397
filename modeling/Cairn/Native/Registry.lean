import Cairn.Native.Audio
import Cairn.Native.Core
import Cairn.Native.Draw
import Cairn.Native.Input

/-!
# All natives

The groups in the order in which they are asked.
-/

namespace Cairn.Native

/-- Every group. -/
def groups : List NativeGroup := [Core.group, Draw.group, Audio.group, Input.group]

/-- The group of a name. -/
def group? (name : String) : Option NativeGroup := groups.find? (·.name == name)

/-- Every declared native. -/
def signatures : List Signature := groups.flatMap (·.signatures)

/-- The declared native of a name. -/
def signature? (name : String) : Option Signature := signatures.find? (·.name == name)

/-- The first group that knows the name of a call answers it. -/
def find? (c : NativeCall) : Option Native := groups.findSome? (·.find? c)

/-- The global names that every program starts with. -/
def globals : List (String × Value) :=
  signatures.map (fun sig => (sig.name, .native sig)) ++ Core.constants

end Cairn.Native
