import Cairn.Frame

/-!
# Painting

Draw commands become shapes on a surface with an origin, in single precision. Nothing is clipped away or
rounded. How the surface multiplies the opacity of a colour into its other parts is for the surface to say.
-/

namespace Cairn.Canvas

/-- A place on the surface. -/
structure Spot where
  x : Float32
  y : Float32

/-- A rectangle on the surface, by two corners. -/
structure Area where
  min : Spot
  max : Spot

/-- The two fonts. -/
inductive Font where
  | proportional
  | monospace
deriving DecidableEq, Repr

/-- What is handed to the surface. Colours have their opacity multiplied in. -/
inductive Shape where
  | rect (area : Area) (fill : Color.Bytes) (strokeWidth : Float32) (stroke : Color.Bytes)
  | circle (center : Spot) (radius : Float32) (fill : Color.Bytes)
  | line (start stop : Spot) (width : Float32) (color : Color.Bytes)
  | text (corner : Spot) (text : String) (size : Float32) (font : Font) (color : Color.Bytes)

/-- No colour at all. -/
def invisible : Color.Bytes := ⟨0, 0, 0, 0⟩

/-- The place of canvas coordinates. -/
def spotAt (origin : Spot) (x y : Float) : Spot :=
  ⟨origin.x + x.toFloat32, origin.y + y.toFloat32⟩

/-- The place of a box in canvas coordinates. -/
def areaOf (origin : Spot) (box : Box) : Area :=
  let min := spotAt origin box.x box.y
  ⟨min, ⟨min.x + box.w.toFloat32, min.y + box.h.toFloat32⟩⟩

/-- The colour that stands for images. -/
def placeholder : Color.Bytes := ⟨200, 120, 220, 255⟩

/-- The shapes of a command. Clearing fills `clip`; an image is outlined and named. -/
def shapes (premultiply : Color.Bytes → Color.Bytes) (origin : Spot) (clip : Area) : DrawCommand → List Shape
  | .clear color => [.rect clip (premultiply color.toBytes) 0.0 invisible]
  | .rect box color => [.rect (areaOf origin box) (premultiply color.toBytes) 0.0 invisible]
  | .circle x y radius color => [.circle (spotAt origin x y) radius.toFloat32 (premultiply color.toBytes)]
  | .line x1 y1 x2 y2 color width =>
    [.line (spotAt origin x1 y1) (spotAt origin x2 y2) width.toFloat32 (premultiply color.toBytes)]
  | .text text x y size color =>
    [.text (spotAt origin x y) text size.toFloat32 .proportional (premultiply color.toBytes)]
  | .sprite image _ target =>
    let area := areaOf origin target
    [.rect area invisible 1.0 placeholder, .text area.min image 10.0 .monospace placeholder]

/-- The shapes of commands, in order. -/
def paint (premultiply : Color.Bytes → Color.Bytes) (origin : Spot) (clip : Area) (commands : List DrawCommand) :
    List Shape :=
  commands.flatMap (shapes premultiply origin clip)

end Cairn.Canvas
