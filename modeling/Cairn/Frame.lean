import Cairn.Color

/-!
# Output for the host

What a program asks the host to draw, to play and to print, in the order in which it asked.
-/

namespace Cairn

/-- A rectangle by its corner and its size. -/
structure Box where
  x : Float
  y : Float
  w : Float
  h : Float

/-- Something to draw. -/
inductive DrawCommand where
  | clear (color : Color)
  | rect (box : Box) (color : Color)
  | circle (x y radius : Float) (color : Color)
  | line (x1 y1 x2 y2 : Float) (color : Color) (width : Float)
  | text (text : String) (x y size : Float) (color : Color)
  /-- The region `source` of an image, drawn into `target`. -/
  | sprite (image : String) (source target : Box)

/-- Something to play. -/
inductive AudioCommand where
  /-- Starts a track over and over, in place of the one that plays. -/
  | playMusic (track : String)
  | stopMusic
  | sound (clip : String)
  | volume (channel : String) (level : Float)

/-- Everything emitted since the last frame was taken. -/
structure Frame where
  draw : Array DrawCommand := #[]
  audio : Array AudioCommand := #[]
  printed : Array String := #[]

end Cairn
