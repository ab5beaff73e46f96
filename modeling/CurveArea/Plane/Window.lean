import CurveArea.Number.Scalar

/-!
# Windows

A window is the rectangle of the plane in which curves are drawn and areas are estimated. It is not
degenerate and its area is finite; both are part of the type, so every function of a window may rely
on them. Written with comparisons that hold, the conditions refuse undefined bounds as well.
-/

namespace CurveArea

/-- The rectangle of the points `(x, y)` with `xMin ≤ x ≤ xMax` and `yMin ≤ y ≤ yMax` (the domain of
the specification, section 3). -/
structure Window (α : Type) [Scalar α] where
  /-- The left bound. -/
  xMin : α
  /-- The right bound. -/
  xMax : α
  /-- The lower bound. -/
  yMin : α
  /-- The upper bound. -/
  yMax : α
  /-- The rectangle has a width. -/
  x_lt : xMin < xMax
  /-- The rectangle has a height. -/
  y_lt : yMin < yMax
  /-- Its area is a number. -/
  area_finite : Scalar.isFinite ((xMax - xMin) * (yMax - yMin)) = true

/-- Why four bounds are no window (specification, sections 7 and 11). -/
inductive WindowError (α : Type)
  /-- The left bound is not below the right one. -/
  | xBounds (min max : α)
  /-- The lower bound is not below the upper one. -/
  | yBounds (min max : α)
  /-- The area is infinite or undefined. -/
  | notFinite (width height : α)
  deriving DecidableEq

/-- The text of a window error. -/
def WindowError.message {α : Type} [Numeral α] : WindowError α → String
  | xBounds min max =>
    "domaine invalide: x min (" ++ Numeral.text min ++ ") doit être < x max (" ++
      Numeral.text max ++ ")"
  | yBounds min max =>
    "domaine invalide: y min (" ++ Numeral.text min ++ ") doit être < y max (" ++
      Numeral.text max ++ ")"
  | notFinite width height =>
    "domaine invalide: dimensions non finies (largeur " ++ Numeral.text width ++ ", hauteur " ++
      Numeral.text height ++ ")"

namespace Window

variable {α : Type} [Scalar α]

/-- The window with four given bounds. Faults are looked for in the order of the error's cases. -/
def make (xMin xMax yMin yMax : α) : Except (WindowError α) (Window α) :=
  if hx : xMin < xMax then
    if hy : yMin < yMax then
      if ha : Scalar.isFinite ((xMax - xMin) * (yMax - yMin)) = true then
        .ok ⟨xMin, xMax, yMin, yMax, hx, hy, ha⟩
      else .error (.notFinite (xMax - xMin) (yMax - yMin))
    else .error (.yBounds yMin yMax)
  else .error (.xBounds xMin xMax)

/-- The width of a window. -/
def width (w : Window α) : α := w.xMax - w.xMin

/-- The height of a window. -/
def height (w : Window α) : α := w.yMax - w.yMin

/-- The area of a window. -/
def area (w : Window α) : α := w.width * w.height

/-- Whether an ordinate is in the window, bounds included. -/
def shows (w : Window α) (y : α) : Bool :=
  w.yMin ≤ y && y ≤ w.yMax

/-- The bounds of a window make that window again. -/
theorem make_bounds (w : Window α) : make w.xMin w.xMax w.yMin w.yMax = .ok w := by
  simp [make, w.x_lt, w.y_lt, w.area_finite]

end Window

end CurveArea
