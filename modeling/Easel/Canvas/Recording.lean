import Easel.Canvas.Surface

/-!
# Recordings

A `Recording` is a surface that draws nothing. It keeps the fills it is given, in order and as they
are, so that two ways of drawing can be compared before any clipping.
-/

namespace Easel

/-- A list of fills, with a number to tell recordings apart. Its bounds are a field of their own and
are never applied to the fills. -/
structure Recording where
  id : Nat
  bounds : Rect
  /-- The fills so far, oldest first and unclipped. -/
  fills : Array (Rect × Color)
deriving DecidableEq

namespace Recording

/-- A recording without fills, as wide as a surface of a size. What is drawn to it can be drawn to
that surface later. -/
def ofSize (id : Nat) (size : Size) : Recording := ⟨id, .ofSize size, #[]⟩

/-- The recording with one more fill at its end. -/
def fill (recording : Recording) (rect : Rect) (color : Color) : Recording :=
  match recording with
  | ⟨id, bounds, fills⟩ => ⟨id, bounds, fills.push (rect, color)⟩

/-- A recording is a surface that remembers instead of drawing. -/
instance : Surface Recording := ⟨bounds, fill⟩

@[simp] theorem toList_fills_fill (recording : Recording) (rect : Rect) (color : Color) :
    (recording.fill rect color).fills.toList = recording.fills.toList ++ [(rect, color)] := by
  simp [fill]

end Recording

end Easel
