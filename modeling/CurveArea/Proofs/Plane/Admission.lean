import CurveArea.Proofs.Plane.Estimates

/-!
# Bounds that make a window

Four numbers are refused as the bounds of a window when they are out of order or undefined, and also
when they are too large for the width, the height and the area to be numbers (`Window.Refused`). One
test on the area finds all of the latter: it is a number only if all that it is made of are numbers
(`Window.area_isFinite_iff`). That the test never meets an infinity times zero, and that the sides
of a window are positive, is so because no difference of different numbers is rounded to zero.
-/

namespace CurveArea.Window

open CurveArea.Rounding
open CurveArea.Binary64 hiding nearest
open Float.Model (Format)

section
variable {xMin xMax yMin yMax : Float}

/-! ## Bounds that are too large -/

/-- Bounds in order are too large when one of them is infinite, or when the width, the height or the
area is rounded to a number that is out of range. -/
inductive TooLarge (xMin xMax yMin yMax : Float) : Prop
  /-- A bound is infinite. -/
  | bound (h : xMin.isInf = true ∨ xMax.isInf = true ∨ yMin.isInf = true ∨ yMax.isInf = true)
  /-- The width is out of range. -/
  | width (h : Overflows .binary64 (place xMax - place xMin))
  /-- The height is out of range. -/
  | height (h : Overflows .binary64 (place yMax - place yMin))
  /-- The area of the rounded sides is out of range. -/
  | area (h : Overflows .binary64 (nearest .binary64 (place xMax - place xMin) *
      nearest .binary64 (place yMax - place yMin)))

/-- **One test for all.** The area between bounds in order is a number unless they are too large. -/
theorem area_isFinite_iff (hx : xMin < xMax) (hy : yMin < yMax) :
    ((xMax - xMin) * (yMax - yMin)).isFinite = true ↔ ¬ TooLarge xMin xMax yMin yMax := by
  obtain ⟨hxMin, hxMax, -⟩ := lt_iff.1 hx
  obtain ⟨hyMin, hyMax, -⟩ := lt_iff.1 hy
  constructor
  · intro harea hlarge
    obtain ⟨⟨hwidth, hheight⟩, hproduct⟩ := isFinite_mul_iff.1 harea
    obtain ⟨⟨hright, hleft⟩, hspan⟩ := isFinite_sub_iff.1 hwidth
    obtain ⟨⟨hupper, hlower⟩, hrise⟩ := isFinite_sub_iff.1 hheight
    rw [place_sub hwidth, place_sub hheight] at hproduct
    cases hlarge with
    | bound h =>
      rcases h with h | h | h | h
      · exact (isFinite_iff_not_isInf hxMin).1 hleft h
      · exact (isFinite_iff_not_isInf hxMax).1 hright h
      · exact (isFinite_iff_not_isInf hyMin).1 hlower h
      · exact (isFinite_iff_not_isInf hyMax).1 hupper h
    | width h => exact hspan h
    | height h => exact hrise h
    | area h => exact hproduct h
  · intro hlarge
    have hbounds := mt TooLarge.bound hlarge
    simp only [not_or] at hbounds
    obtain ⟨hleft, hright, hlower, hupper⟩ := hbounds
    have hwidth : (xMax - xMin).isFinite = true := isFinite_sub_iff.2
      ⟨⟨(isFinite_iff_not_isInf hxMax).2 hright, (isFinite_iff_not_isInf hxMin).2 hleft⟩,
        mt .width hlarge⟩
    have hheight : (yMax - yMin).isFinite = true := isFinite_sub_iff.2
      ⟨⟨(isFinite_iff_not_isInf hyMax).2 hupper, (isFinite_iff_not_isInf hyMin).2 hlower⟩,
        mt .height hlarge⟩
    refine isFinite_mul_iff.2 ⟨⟨hwidth, hheight⟩, ?_⟩
    rw [place_sub hwidth, place_sub hheight]
    exact mt .area hlarge

/-! ## Refusals -/

/-- Why four numbers are refused as the bounds of a window. Faults are looked for in this order. -/
inductive Refused (xMin xMax yMin yMax : Float) : WindowError Float → Prop
  /-- The left bound is not below the right one. -/
  | xBounds (hx : ¬ xMin < xMax) : Refused xMin xMax yMin yMax (.xBounds xMin xMax)
  /-- The lower bound is not below the upper one. -/
  | yBounds (hx : xMin < xMax) (hy : ¬ yMin < yMax) :
    Refused xMin xMax yMin yMax (.yBounds yMin yMax)
  /-- The bounds are too large. -/
  | notFinite (hx : xMin < xMax) (hy : yMin < yMax) (h : TooLarge xMin xMax yMin yMax) :
    Refused xMin xMax yMin yMax (.notFinite (xMax - xMin) (yMax - yMin))

/-- Bounds of which no window is made are refused for the fault that is reported. -/
theorem refused_of_make {e : WindowError Float} (h : make xMin xMax yMin yMax = .error e) :
    Refused xMin xMax yMin yMax e := by
  unfold make at h
  split_ifs at h with hx hy harea
  · cases h
    refine .notFinite hx hy ?_
    by_contra hlarge
    exact harea ((area_isFinite_iff hx hy).2 hlarge)
  · cases h
    exact .yBounds hx hy
  · cases h
    exact .xBounds hx

/-- No window is made of bounds that are refused, and the fault is reported. -/
theorem make_of_refused {e : WindowError Float} (h : Refused xMin xMax yMin yMax e) :
    make xMin xMax yMin yMax = .error e := by
  cases h with
  | xBounds hx => rw [make, dif_neg hx]
  | yBounds hx hy => rw [make, dif_pos hx, dif_neg hy]
  | notFinite hx hy h =>
    have harea : ¬ Scalar.isFinite ((xMax - xMin) * (yMax - yMin)) = true := fun harea =>
      (area_isFinite_iff hx hy).1 harea h
    rw [make, dif_pos hx, dif_pos hy, dif_neg harea]

/-- The bounds of a window are those that it is made with. -/
theorem bounds_of_make {w : Window Float} (h : make xMin xMax yMin yMax = .ok w) :
    w.xMin = xMin ∧ w.xMax = xMax ∧ w.yMin = yMin ∧ w.yMax = yMax := by
  unfold make at h
  split_ifs at h
  cases h
  exact ⟨rfl, rfl, rfl, rfl⟩

/-! ## What a window guarantees -/

/-- A number is above zero when its place is. -/
theorem zero_lt_iff {v : Float} (hv : v.isFinite = true) : 0 < v ↔ 0 < place v := by
  have hzero : At (0 : Float) 0 := (at_natCast (n := 0) (by decide)).1
  rw [lt_iff, hzero.place_eq]
  exact ⟨fun h => h.2.2, fun h => ⟨hzero.defined, defined_of_isFinite hv, h⟩⟩

/-- **Bounds that make a window.** Numbers are refused as bounds for the reasons listed, with the
numbers of the reason, and for no other one. A window keeps the bounds that it is made with; they
are finite, its sides are finite and positive, and its area is finite and not negative. -/
theorem make_error_iff_refused (xMin xMax yMin yMax : Float) :
    (∀ e, make xMin xMax yMin yMax = .error e ↔ Refused xMin xMax yMin yMax e) ∧
    ∀ w, make xMin xMax yMin yMax = .ok w →
      (w.xMin = xMin ∧ w.xMax = xMax ∧ w.yMin = yMin ∧ w.yMax = yMax) ∧
      (xMin.isFinite = true ∧ xMax.isFinite = true ∧ yMin.isFinite = true ∧ yMax.isFinite = true) ∧
      (w.width.isFinite = true ∧ 0 < w.width) ∧ (w.height.isFinite = true ∧ 0 < w.height) ∧
      w.area.isFinite = true ∧ w.area.isNaN = false ∧ 0 ≤ w.area := by
  refine ⟨fun e => ⟨refused_of_make, make_of_refused⟩, fun w hw => ?_⟩
  obtain ⟨rfl, rfl, rfl, rfl⟩ := bounds_of_make hw
  obtain ⟨hyMax, hyMin⟩ := isFinite_of_sub w.height_isFinite
  have harea : Portion w.area w.area := ⟨w.area_finite, w.area_nonneg, le_rfl⟩
  exact ⟨⟨rfl, rfl, rfl, rfl⟩, ⟨w.xMin_isFinite, w.xMax_isFinite, hyMin, hyMax⟩,
    ⟨w.width_isFinite, (zero_lt_iff w.width_isFinite).2 w.width_pos⟩,
    ⟨w.height_isFinite, (zero_lt_iff w.height_isFinite).2 w.height_pos⟩,
    w.area_finite, defined_of_isFinite w.area_finite, (harea.bounds w.area_finite).2.1⟩

end

/-- The least positive number is above both zeros, and the area between them is finite. -/
theorem vanishing_bounds :
    Float.ofBits 0x8000000000000000 < Scalar.smallestPositive ∧
    (0 : Float) < Scalar.smallestPositive ∧
    Scalar.isFinite ((Scalar.smallestPositive - Float.ofBits 0x8000000000000000) *
      (Scalar.smallestPositive - 0)) = true := by
  decide +kernel

/-- A window with the least sides, at a left bound with a minus sign. -/
def vanishing : Window Float where
  xMin := Float.ofBits 0x8000000000000000
  xMax := Scalar.smallestPositive
  yMin := 0
  yMax := Scalar.smallestPositive
  x_lt := vanishing_bounds.1
  y_lt := vanishing_bounds.2.1
  area_finite := vanishing_bounds.2.2

/-- The area of that window is rounded to zero. From `-1e308` to `1e308` it is too far, though both
are numbers, and a bound that is infinite is refused. -/
theorem make_error_iff_refused_extreme :
    let w := vanishing
    let huge := Float.ofBits 0x7FE1CCF385EBC8A0
    let infinity : Float := 1 / 0
    (make w.xMin w.xMax w.yMin w.yMax = .ok w ∧
      (w.xMin.isFinite = true ∧ w.xMax.isFinite = true ∧ w.yMin.isFinite = true ∧
        w.yMax.isFinite = true) ∧
      (w.width.isFinite = true ∧ 0 < w.width) ∧ (w.height.isFinite = true ∧ 0 < w.height) ∧
      (w.area.isFinite = true ∧ w.area.isNaN = false ∧ 0 ≤ w.area) ∧ w.area = 0) ∧
    (make (-huge) huge 0 1 = .error (.notFinite infinity 1) ∧
      Refused (-huge) huge 0 1 (.notFinite infinity 1)) ∧
    make (-infinity) 1 0 1 = .error (.notFinite (1 - -infinity) (1 - 0)) := by
  intro w huge infinity
  obtain ⟨-, hfinite, hwidth, hheight, harea⟩ :=
    (make_error_iff_refused w.xMin w.xMax w.yMin w.yMax).2 w w.make_bounds
  have hzero : w.area = 0 := by decide +kernel
  have hfar : make (-huge) huge 0 1 = .error (.notFinite infinity 1) := by
    have hwidth : huge - -huge = infinity ∧ (1 : Float) - 0 = 1 := by decide +kernel
    rw [make, dif_pos (by decide +kernel), dif_pos (by decide +kernel), dif_neg (by decide +kernel),
      hwidth.1, hwidth.2]
  refine ⟨⟨w.make_bounds, hfinite, hwidth, hheight, harea, hzero⟩,
    ⟨hfar, ((make_error_iff_refused (-huge) huge 0 1).1 _).1 hfar⟩, ?_⟩
  exact ((make_error_iff_refused (-infinity) 1 0 1).1 _).2
    (.notFinite (by decide +kernel) (by decide +kernel) (.bound (.inl (by decide +kernel))))

end CurveArea.Window
