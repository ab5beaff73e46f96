import CurveArea.Plane.Window

/-!
# The canvas

A canvas maps a window to pixels. Abscissas grow to the right from the left edge; ordinates grow
upwards from the bottom line, which is one pixel above the height. Four ticks divide each axis in
five: those of the horizontal axis from left to right, those of the vertical axis from the top.

Sizes and positions in pixels are numbers of their own kind, which a point's coordinates are widened
from and narrowed to.
-/

namespace CurveArea

/-- A canvas that shows a window. -/
structure Canvas (α β : Type) [Scalar α] where
  /-- The window. -/
  window : Window α
  /-- The width in pixels. -/
  width : β
  /-- The height in pixels. -/
  height : β

/-- A mark on an axis. -/
structure Tick (α β : Type) where
  /-- Its distance from the left or upper edge. -/
  position : β
  /-- The coordinate that it marks. -/
  value : α
  deriving DecidableEq

/-- The count of intervals that the ticks divide an axis in. -/
def tickIntervals : Nat := 5

/-- The numbers of the ticks of an axis. -/
def tickNumbers : List Nat := [1, 2, 3, 4]

namespace Window

variable {α : Type} [Scalar α]

/-- The abscissa of tick number `i`, counted from the left. -/
def xTick (w : Window α) (i : Nat) : α :=
  w.xMin + Scalar.ofNat i * w.width / Scalar.ofNat tickIntervals

/-- The ordinate of tick number `i`, counted from the top. -/
def yTick (w : Window α) (i : Nat) : α :=
  w.yMax - Scalar.ofNat i * w.height / Scalar.ofNat tickIntervals

end Window

namespace Canvas

variable {α β : Type} [Scalar α] [Scalar β] [Pixel α β]

/-- The position of tick number `i` on an axis of a given size. -/
def tickPosition (size : β) (i : Nat) : β :=
  Scalar.ofNat i * size / Scalar.ofNat tickIntervals

/-- Where a point is drawn. The bottom line is the last of the canvas, so ordinates count down from
one less than the height (specification, section 14). -/
def place (c : Canvas α β) (x y : α) : β × β :=
  let w := c.window
  let width : α := Pixel.widen c.width
  let height : α := Pixel.widen c.height
  (Pixel.narrow ((x - w.xMin) * width / w.width),
    Pixel.narrow (height - Scalar.ofNat 1 - (y - w.yMin) * height / w.height))

/-- The ticks of the horizontal axis, from left to right (specification, section 14). -/
def xTicks (c : Canvas α β) : List (Tick α β) :=
  tickNumbers.map fun i => ⟨tickPosition c.width i, c.window.xTick i⟩

/-- The ticks of the vertical axis, from the top (specification, section 14). Their positions are
measured from the upper edge, without the pixel that `place` takes off the height. -/
def yTicks (c : Canvas α β) : List (Tick α β) :=
  tickNumbers.map fun i => ⟨tickPosition c.height i, c.window.yTick i⟩

end Canvas

end CurveArea
