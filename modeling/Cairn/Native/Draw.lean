import Cairn.Native.Basic

/-!
# Natives that draw

Each call adds one draw command to the pending output. Colours and sizes that are left out have defaults.
-/

namespace Cairn.Native

/-- The natives of this group. -/
inductive Draw where
  | clear | rect | circle | line | text | sprite
deriving DecidableEq, Repr

namespace Draw

/-- Every native, in the order of declaration. -/
def all : List Draw := [.clear, .rect, .circle, .line, .text, .sprite]

/-- Names and parameters. -/
def signature : Draw → Signature
  | .clear => ⟨"clear", ["color"], false⟩
  | .rect => ⟨"rect", ["x", "y", "w", "h", "color", "alpha"], false⟩
  | .circle => ⟨"circle", ["x", "y", "radius", "color", "alpha"], false⟩
  | .line => ⟨"line", ["x1", "y1", "x2", "y2", "color", "width"], false⟩
  | .text => ⟨"text", ["text", "x", "y", "size", "color"], false⟩
  | .sprite => ⟨"sprite", ["image", "sx", "sy", "sw", "sh", "x", "y", "w", "h"], false⟩

/-- The native of a name. -/
def ofName? (name : String) : Option Draw :=
  all.find? (·.signature.name == name)

/-- A colour argument with the share of opacity after it. -/
def fadedColor (c : NativeCall) (i : Nat) : Except Failure Color := do
  let color ← c.color i .white
  let alpha ← c.numberOr (i + 1) 1.0
  return color.withAlpha alpha.toFloat32

/-- The draw command that a call asks for. -/
def command (native : Draw) (c : NativeCall) (store : Store) : Except Failure DrawCommand := do
  match native with
  | .clear => return .clear (← c.color 0 .black)
  | .rect =>
    let box := ⟨← c.number 0, ← c.number 1, ← c.number 2, ← c.number 3⟩
    return .rect box (← fadedColor c 4)
  | .circle =>
    let x ← c.number 0
    let y ← c.number 1
    let radius ← c.number 2
    return .circle x y radius (← fadedColor c 3)
  | .line =>
    let x1 ← c.number 0
    let y1 ← c.number 1
    let x2 ← c.number 2
    let y2 ← c.number 3
    let color ← c.color 4 .white
    return .line x1 y1 x2 y2 color (← c.numberOr 5 1.0)
  | .text =>
    let text ← NativeCall.shown store (c.arg 0)
    let x ← c.number 1
    let y ← c.number 2
    let size ← c.numberOr 3 16.0
    return .text text x y size (← c.color 4 .white)
  | .sprite =>
    let source : Box := ⟨← c.number 1, ← c.number 2, ← c.number 3, ← c.number 4⟩
    let target := ⟨← c.number 5, ← c.number 6, ← c.numberOr 7 source.w, ← c.numberOr 8 source.h⟩
    return .sprite (← c.text 0) source target

/-- What each native does. -/
def run (native : Draw) (c : NativeCall) : Native := do
  let cmd ← native.command c (← Deed.host).store
  Deed.modify (·.emitDraw cmd)
  return .null

/-- The group of these natives. -/
def group : NativeGroup where
  name := "draw"
  signatures := all.map signature
  find? c := (ofName? c.name).map (·.run c)

end Draw

end Cairn.Native
