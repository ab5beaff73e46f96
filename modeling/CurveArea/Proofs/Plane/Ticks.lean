import CurveArea.Number.Binary32
import CurveArea.Plane.Canvas
import CurveArea.Proofs.Plane.Exact

/-!
# Ticks and the points that they mark

A tick has a position of its own, and its value has one as an ordinate or abscissa of a point. In
exact arithmetic both are the same on the horizontal axis. On the vertical one they are a pixel
apart, on every canvas: ticks are placed from the upper edge, but points from the bottom line, which
is one pixel above the height (`Exact.position_eq_place`).
-/

namespace CurveArea

/-- Exact positions are coordinates. -/
instance Pixel.exact : Pixel ℚ ℚ where
  widen := id
  narrow := id

namespace Exact

/-- A window has a height. -/
theorem height_pos (w : Window ℚ) : 0 < w.height := sub_pos.2 w.y_lt

/-! ## Each axis -/

section
variable (c : Canvas ℚ ℚ)

/-- Abscissas are counted from the left bound, in pixels. -/
theorem place_fst (x y : ℚ) :
    (c.place x y).1 = (x - c.window.xMin) * c.width / c.window.width := rfl

/-- Ordinates are counted from the lower bound, in pixels, and from the bottom line upwards. -/
theorem place_snd (x y : ℚ) : (c.place x y).2 =
    c.height - 1 - (y - c.window.yMin) * c.height / c.window.height := by
  have hone : (Scalar.ofNat 1 : ℚ) = 1 := Nat.cast_one
  rw [← hone]
  rfl

/-- Ticks divide a side in five. -/
theorem tickPosition_eq (size : ℚ) (i : ℕ) : Canvas.tickPosition size i = i * size / 5 := by
  have hfive : ((tickIntervals : ℕ) : ℚ) = 5 := rfl
  rw [← hfive]
  rfl

/-- The abscissa of a tick, counted from the left bound. -/
theorem xTick_sub_xMin (w : Window ℚ) (i : ℕ) : w.xTick i - w.xMin = i * w.width / 5 :=
  add_sub_cancel_left w.xMin (Canvas.tickPosition w.width i) |>.trans (tickPosition_eq w.width i)

/-- The ordinate of a tick, counted from the lower bound: ticks come down from the upper one. -/
theorem yTick_sub_yMin (w : Window ℚ) (i : ℕ) :
    w.yTick i - w.yMin = w.height - i * w.height / 5 := by
  have htick : w.yTick i = w.yMax - i * w.height / 5 :=
    congrArg (w.yMax - ·) (tickPosition_eq w.height i)
  have hheight : w.height = w.yMax - w.yMin := rfl
  rw [htick, sub_right_comm, ← hheight]

/-- A tick of the horizontal axis is where its value is drawn. -/
theorem tickPosition_width (i : ℕ) (y : ℚ) :
    Canvas.tickPosition c.width i = (c.place (c.window.xTick i) y).1 := by
  have hwidth := (width_pos c.window).ne'
  rw [place_fst, xTick_sub_xMin, tickPosition_eq]
  field_simp

/-- A tick of the vertical axis is a pixel below its value. -/
theorem tickPosition_height (i : ℕ) (x : ℚ) :
    Canvas.tickPosition c.height i = (c.place x (c.window.yTick i)).2 + 1 := by
  have hheight := (height_pos c.window).ne'
  rw [place_snd, yTick_sub_yMin, tickPosition_eq]
  field_simp
  ring

end

/-! ## Both axes -/

/-- **Ticks and their values.** Whatever window is shown, and at whatever size, a tick of the
horizontal axis is where all points with its value are drawn, and a tick of the vertical axis is one
pixel below all points with its value. -/
theorem position_eq_place (c : Canvas ℚ ℚ) :
    (∀ t ∈ c.xTicks, ∀ y, t.position = (c.place t.value y).1) ∧
    ∀ t ∈ c.yTicks, ∀ x, t.position = (c.place x t.value).2 + 1 := by
  constructor
  · intro t ht y
    obtain ⟨i, -, rfl⟩ := List.mem_map.1 ht
    exact tickPosition_width c i y
  · intro t ht x
    obtain ⟨i, -, rfl⟩ := List.mem_map.1 ht
    exact tickPosition_height c i x

/-- A window that is ten wide and ten high, on 500 pixels by 500. -/
def tenByTen : Canvas ℚ ℚ := ⟨⟨0, 10, -5, 5, by decide, by decide, rfl⟩, 500, 500⟩

/-- The same in binary64, with positions in binary32. -/
def roundedTenByTen : Canvas Float Float32 where
  window := ⟨Scalar.ofNat 0, Scalar.ofNat 10, -Scalar.ofNat 5, Scalar.ofNat 5, by decide +kernel,
    by decide +kernel, by decide +kernel⟩
  width := Scalar.ofNat 500
  height := Scalar.ofNat 500

/-- The first tick of the vertical axis marks the ordinate 3. It is at 100 pixels, and points with
that ordinate are drawn at 99. So it is as well when numbers are rounded. -/
theorem position_ne_place_tenByTen :
    (⟨100, 3⟩ ∈ tenByTen.yTicks ∧ tenByTen.place 0 3 = (0, 99)) ∧
    (⟨Scalar.ofNat 100, Scalar.ofNat 3⟩ ∈ roundedTenByTen.yTicks ∧
      roundedTenByTen.place (Scalar.ofNat 0) (Scalar.ofNat 3) =
        (Scalar.ofNat 0, Scalar.ofNat 99)) ∧
    ¬ ∀ c : Canvas ℚ ℚ, 0 < c.width → 0 < c.height →
      (∀ t ∈ c.xTicks, ∀ y, t.position = (c.place t.value y).1) ∧
      ∀ t ∈ c.yTicks, ∀ x, t.position = (c.place x t.value).2 := by
  have hmem : ⟨100, 3⟩ ∈ tenByTen.yTicks := by decide +kernel
  have hplace : tenByTen.place 0 3 = (0, 99) := by decide +kernel
  refine ⟨⟨hmem, hplace⟩, by decide +kernel, fun h => ?_⟩
  have hsame := (h tenByTen (by decide) (by decide)).2 ⟨100, 3⟩ hmem 0
  rw [hplace] at hsame
  exact absurd hsame (by decide)

end Exact

end CurveArea
