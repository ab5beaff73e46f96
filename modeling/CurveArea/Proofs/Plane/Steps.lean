import CurveArea.Proofs.Float.Arithmetic
import CurveArea.Proofs.Plane.Ending

/-!
# Steps in binary64

The first step of a trace is the width of a window divided by a constant, and the quotient can be
zero: that is so for the windows no wider than half as many least positive numbers
(`firstStep_pos_iff`). All abscissas of a pass at such a step are the left bound. At a positive step
they do reach the right bound, after a count of steps that the width is known to be no more of
(`Pace`); a step that is halved and used stays positive, and the count grows at most fourfold.
-/

namespace CurveArea.Window

open CurveArea.Rounding
open CurveArea.Binary64 hiding nearest
open Float.Model (Format)

section
variable {w : Window Float} {s : Float} {k n : Nat}

/-! ## Width and height -/

/-- The exact width of a window. -/
def span (w : Window Float) : ℚ := place w.xMax - place w.xMin

/-- The least positive number. -/
def least : ℚ := 2 ^ Format.binary64.minExponent

/-- The least number is positive. -/
theorem least_pos : 0 < least := two_zpow_pos _

/-- The width of a window is finite, since its area is. -/
theorem width_isFinite (w : Window Float) : w.width.isFinite = true :=
  (isFinite_of_mul w.area_finite).1

/-- The right bound is finite. -/
theorem xMax_isFinite (w : Window Float) : w.xMax.isFinite = true :=
  (isFinite_of_sub (width_isFinite w)).1

/-- The left bound is finite. -/
theorem xMin_isFinite (w : Window Float) : w.xMin.isFinite = true :=
  (isFinite_of_sub (width_isFinite w)).2

/-- The exact width is the least number or more. -/
theorem least_le_span (w : Window Float) : least ≤ span w :=
  zpow_minExponent_le_sub (representable_place (xMin_isFinite w))
    (representable_place (xMax_isFinite w)) (lt_iff.1 w.x_lt).2.2

/-- The width is the exact one, rounded. -/
theorem place_width (w : Window Float) : place w.width = nearest .binary64 (span w) :=
  place_sub (width_isFinite w)

/-- Rounding takes no more than half of the exact width. -/
theorem span_le (w : Window Float) : span w ≤ 2 * place w.width := by
  rw [place_width]
  exact le_two_mul_nearest (least_le_span w)

/-- The width is not rounded to zero. -/
theorem width_pos (w : Window Float) : 0 < place w.width :=
  place_sub_pos w.x_lt (width_isFinite w)

/-- The height of a window is finite, since its area is. -/
theorem height_isFinite (w : Window Float) : w.height.isFinite = true :=
  (isFinite_of_mul w.area_finite).2

/-- The height is not rounded to zero. -/
theorem height_pos (w : Window Float) : 0 < place w.height :=
  place_sub_pos w.y_lt (height_isFinite w)

/-- The width is in range. -/
theorem width_lt_limit (w : Window Float) : place w.width < limit .binary64 :=
  (le_abs_self _).trans_lt (isFinite_iff.1 (width_isFinite w)).2

/-- The limit is a number of the format, were there no limit. -/
theorem representable_limit : Representable .binary64 (limit .binary64) := by
  rw [limit_eq_zpow]
  exact representable_zpow (by decide)

/-- The exact width is in range. -/
theorem span_lt_limit (w : Window Float) : span w < limit .binary64 := by
  by_contra hge
  have hle := le_nearest representable_limit (not_lt.1 hge)
  rw [← place_width] at hle
  exact absurd (width_lt_limit w) (not_lt.2 hle)

/-! ## Parts of a step -/

/-- A step that is divided by a natural number. -/
structure Part (s t : Float) (n : Nat) : Prop where
  /-- The quotient is finite. -/
  isFinite : t.isFinite = true
  /-- It is rounded. -/
  place_eq : place t = nearest .binary64 (place s / n)
  /-- It is not negative. -/
  nonneg : 0 ≤ place t
  /-- It is not above what is divided. -/
  le : place t ≤ place s

/-- A number that is not negative, divided by a count, gives one of its parts. -/
theorem part_of_div (hs : s.isFinite = true) (h₀ : 0 ≤ place s) (hn : 1 ≤ n) (hn' : n ≤ 2 ^ 53) :
    Part s (s / Float.ofNat n) n := by
  obtain ⟨hnat, hfin⟩ := at_natCast hn'
  have hone : (1 : ℚ) ≤ n := by exact_mod_cast hn
  have hdiv := at_div hs hfin (by rw [hnat.place_eq]; linarith)
  rw [hnat.place_eq] at hdiv
  have hquot : 0 ≤ place s / n := by positivity
  have hportion := Portion.of_at hs hdiv hquot (div_le_self h₀ hone)
  exact ⟨hportion.isFinite, hdiv.place_eq_nearest hportion.isFinite, hportion.nonneg, hportion.le⟩

/-- The first step is a five-hundredth part of the width. -/
theorem part_firstStep (w : Window Float) : Part w.width w.firstStep 500 :=
  part_of_div (width_isFinite w) (width_pos w).le (by decide) (by decide)

/-- The steps of all passes are finite and not negative. -/
theorem stepOf_isFinite (w : Window Float) (k : Nat) :
    (w.stepOf k).isFinite = true ∧ 0 ≤ place (w.stepOf k) := by
  induction k with
  | zero => exact ⟨(part_firstStep w).isFinite, (part_firstStep w).nonneg⟩
  | succ k ih =>
    have hpart : Part (w.stepOf k) (w.stepOf (k + 1)) 2 :=
      part_of_div ih.1 ih.2 (by decide) (by decide)
    exact ⟨hpart.isFinite, hpart.nonneg⟩

/-- Each step is half of the one before. -/
theorem part_stepOf_succ (w : Window Float) (k : Nat) :
    Part (w.stepOf k) (w.stepOf (k + 1)) 2 :=
  part_of_div (stepOf_isFinite w k).1 (stepOf_isFinite w k).2 (by decide) (by decide)

/-- The first step is the exact one, rounded. -/
theorem place_firstStep (w : Window Float) :
    place w.firstStep = nearest .binary64 (place w.width / 500) := by
  have hplace := (part_firstStep w).place_eq
  rwa [Nat.cast_ofNat] at hplace

/-- Each half of a step is the exact one, rounded. -/
theorem place_stepOf_succ (w : Window Float) (k : Nat) :
    place (w.stepOf (k + 1)) = nearest .binary64 (place (w.stepOf k) / 2) := by
  have hplace := (part_stepOf_succ w k).place_eq
  rwa [Nat.cast_ofNat] at hplace

/-- **The first step.** It is positive when the width is more than half as many least numbers as it
is divided by. -/
theorem firstStep_pos_iff (w : Window Float) :
    0 < place w.firstStep ↔ 250 * least < place w.width := by
  have hhalf : least / 2 * 500 = 250 * least := by ring
  rw [place_firstStep, nearest_pos_iff, lt_div_iff₀ (by norm_num)]
  change least / 2 * 500 < _ ↔ _
  rw [hhalf]

/-! ## Reaching the right bound -/

/-- A step at which the width is covered by no more than so many steps. -/
structure Pace (w : Window Float) (s : Float) (n : Nat) : Prop where
  /-- The step is finite. -/
  isFinite : s.isFinite = true
  /-- The step is positive. -/
  pos : 0 < place s
  /-- So many steps are not less than the width. -/
  span_le : span w ≤ n * place s

/-- A first step that is not zero covers the width in 2000 steps, whatever is lost by rounding. -/
theorem pace_firstStep (h : 0 < place w.firstStep) : Pace w w.firstStep 2000 := by
  have hpart := part_firstStep w
  have hleast : least ≤ place w.firstStep :=
    zpow_minExponent_le (representable_place hpart.isFinite) h
  have hspan := span_le w
  refine ⟨hpart.isFinite, h, ?_⟩
  push_cast
  rcases le_or_gt least (place w.width / 500) with hle | hlt
  · have hhalf := le_two_mul_nearest hle
    rw [← place_firstStep] at hhalf
    linarith
  · linarith

/-- A multiple of the least number is exact. -/
theorem at_mul_smallestPositive (hn : n ≤ 2 ^ 53) :
    At (Scalar.ofNat n * Scalar.smallestPositive : Float) (n * least) := by
  obtain ⟨hnat, hfin⟩ := at_natCast hn
  have hleast : At (Scalar.smallestPositive : Float) least := at_smallestPositive
  have hpos := least_pos
  have hone : least ≤ 1 := zpow_le_one_of_nonpos₀ one_le_two (minExponent_nonpos _)
  have hrep : Representable .binary64 (n * least) := representable_mul_zpow hn le_rfl
  have hsmall : |n * least| < limit .binary64 := by
    rw [abs_of_nonneg (mul_nonneg n.cast_nonneg hpos.le)]
    refine lt_of_le_of_lt (mul_le_of_le_one_right n.cast_nonneg hone) ?_
    exact (le_abs_self _).trans_lt (natCast_lt_limit hn)
  have hfin' := hleast.isFinite (by
    rw [abs_of_pos hpos]
    exact hone.trans_lt one_lt_limit)
  have hmul := at_mul hfin hfin'
  rw [hnat.place_eq, hleast.place_eq, fit_of_representable hrep hsmall] at hmul
  exact hmul

/-- The floor of the steps is twice the least number. -/
theorem place_stepFloor : place (Trace.stepFloor : Float) = 2 * least :=
  (at_mul_smallestPositive (n := 2) (by decide)).place_eq

/-- A step that is halved so many times loses less than the least number, besides. -/
theorem place_firstStep_le (w : Window Float) (k : Nat) :
    place w.firstStep + least ≤ 2 ^ k * (place (w.stepOf k) + least) := by
  induction k with
  | zero =>
    rw [pow_zero, one_mul]
    exact le_rfl
  | succ k ih =>
    have hrep := representable_place (stepOf_isFinite w k).1
    have hloss : place (w.stepOf k) / 2 - place (w.stepOf (k + 1)) ≤ least / 2 := by
      rw [place_stepOf_succ]
      exact (abs_le.1 (abs_half_sub_nearest_le hrep)).2
    refine ih.trans ?_
    rw [pow_succ, mul_assoc]
    exact mul_le_mul_of_nonneg_left (by linarith) (by positivity)

/-- The pace of every step that is used. -/
theorem pace_stepOf (h : 0 < place w.firstStep) (hk : w.Used k) :
    Pace w (w.stepOf k) (3000 * 2 ^ k) := by
  have hfirst := pace_firstStep h
  have hpos := least_pos
  rcases hk with rfl | hfloor
  · refine ⟨hfirst.isFinite, h, hfirst.span_le.trans ?_⟩
    exact mul_le_mul_of_nonneg_right (by norm_num) h.le
  · have hplace := (lt_iff.1 hfloor).2.2
    have hle := place_firstStep_le w k
    rw [place_stepFloor] at hplace
    refine ⟨(stepOf_isFinite w k).1, by linarith, hfirst.span_le.trans ?_⟩
    have hpow : (2 : ℚ) ^ k * (place (w.stepOf k) + least) ≤
        2 ^ k * (3 / 2 * place (w.stepOf k)) :=
      mul_le_mul_of_nonneg_left (by linarith) (by positivity)
    push_cast
    linarith

/-- The middle of a step, counted in steps. -/
theorem counter_isFinite (hn : n ≤ 2 ^ 64) :
    (Scalar.ofNat n + Scalar.half : Float).isFinite = true ∧
      place (Scalar.ofNat n + Scalar.half : Float) =
        nearest .binary64 (nearest .binary64 n + 1 / 2) := by
  obtain ⟨hofNat, hfin⟩ := at_ofNat_word hn
  have hhalf : (Scalar.half : Float).isFinite = true :=
    at_half.isFinite (lt_trans (by norm_num) one_lt_limit)
  have hsum := at_add hfin hhalf
  rw [hofNat.place_eq, at_half.place_eq] at hsum
  have hcast : (n : ℚ) ≤ 2 ^ (64 : ℤ) := by exact_mod_cast hn
  have hle := nearest_le (F := .binary64) (representable_zpow (by decide)) hcast
  have hmiddle := abs_nearest_lt (q := nearest .binary64 n + 1 / 2) (r := 2 ^ (65 : ℤ))
    (add_nonneg (nearest_nonneg n.cast_nonneg) (by norm_num)) (by norm_num at hle ⊢; linarith)
    (representable_zpow (by decide)) (zpow_lt_limit (by decide))
  rw [fit_of_abs_lt hmiddle] at hsum
  exact ⟨hsum.isFinite hmiddle, hsum.place_eq⟩

/-- The counter of a pass is rounded to no less than half of itself. -/
theorem le_counter (hn : n ≤ 2 ^ 64) (hpos : 1 ≤ n) :
    (n : ℚ) ≤ 2 * place (Scalar.ofNat n + Scalar.half : Float) := by
  have hone : (1 : ℚ) ≤ n := by exact_mod_cast hpos
  have hleast : (2 : ℚ) ^ Format.binary64.minExponent ≤ n :=
    (zpow_le_one_of_nonpos₀ one_le_two (minExponent_nonpos _)).trans hone
  have hhalf := le_two_mul_nearest hleast
  have hmiddle := le_nearest (representable_nearest .binary64 n)
    (by linarith : nearest .binary64 (n : ℚ) ≤ nearest .binary64 n + 1 / 2)
  rw [(counter_isFinite hn).2]
  linarith

/-- **Reaching the right bound.** Four times as many steps as cover the width carry an abscissa to
the right bound, whatever is rounded on the way. -/
theorem Pace.reaches (h : Pace w s n) (hpos : 1 ≤ n) (hn : 4 * n ≤ 2 ^ 64) :
    ¬ w.abscissa s (4 * n) < w.xMax := by
  obtain ⟨hfin, -⟩ := counter_isFinite hn
  have hcount := le_counter hn (by omega)
  have hmul := at_mul hfin h.isFinite
  rw [Nat.cast_mul, Nat.cast_ofNat] at hcount
  have hspan := least_le_span w
  have hleast := least_pos
  have htwice : 2 * span w ≤ place (Scalar.ofNat (4 * n) + Scalar.half : Float) * place s :=
    calc 2 * span w ≤ 2 * (n * place s) := by linarith [h.span_le]
      _ = 2 * n * place s := by ring
      _ ≤ _ := mul_le_mul_of_nonneg_right (by linarith) h.pos.le
  have hbig : least ≤ place (Scalar.ofNat (4 * n) + Scalar.half : Float) * place s := by linarith
  have hhalf := le_two_mul_nearest hbig
  have hfar : span w ≤ place ((Scalar.ofNat (4 * n) + Scalar.half) * s) := by
    rw [hmul.place_eq]
    exact le_fit (span_lt_limit w).le (by linarith)
  have hmax := isFinite_iff.1 (xMax_isFinite w)
  have hsum := le_place_add (xMin_isFinite w) hmul.defined (by linarith)
    (representable_place (xMax_isFinite w)) hmax.2 (by unfold span at hfar; linarith)
  exact fun hlt => absurd (lt_iff.1 hlt).2.2 (not_lt.2 hsum.2)

/-- At a step that is zero all abscissas are the left bound. -/
theorem abscissa_lt_xMax (h : place w.firstStep = 0) (hn : n ≤ 2 ^ 64) :
    w.abscissa w.firstStep n < w.xMax := by
  obtain ⟨hfin, -⟩ := counter_isFinite hn
  have hmul := at_mul hfin (part_firstStep w).isFinite
  rw [h, mul_zero, fit_zero] at hmul
  have hsum := at_add (xMin_isFinite w) (hmul.isFinite (abs_zero.trans_lt (limit_pos .binary64)))
  rw [hmul.place_eq, add_zero, fit_place (xMin_isFinite w)] at hsum
  refine lt_iff.2 ⟨hsum.defined, (isFinite_iff.1 (xMax_isFinite w)).1, ?_⟩
  exact hsum.place_eq.trans_lt (lt_iff.1 w.x_lt).2.2

/-! ## Narrow windows -/

/-- The greatest width at which the first step is zero. -/
def narrow : Float := Scalar.ofNat 250 * Scalar.smallestPositive

/-- The first step is zero in the narrow windows only. -/
theorem width_le_narrow_iff (w : Window Float) : w.width ≤ narrow ↔ place w.firstStep = 0 := by
  have hnarrow : At narrow (250 * least) := at_mul_smallestPositive (n := 250) (by decide)
  have hnonneg := (part_firstStep w).nonneg
  have hdefined := defined_of_isFinite (width_isFinite w)
  calc w.width ≤ narrow ↔ place w.width ≤ 250 * least := by
        rw [le_iff, hnarrow.place_eq]
        exact ⟨fun h => h.2.2, fun h => ⟨hdefined, hnarrow.defined, h⟩⟩
    _ ↔ ¬ 0 < place w.firstStep := by rw [firstStep_pos_iff, not_lt]
    _ ↔ place w.firstStep = 0 :=
        ⟨fun h => le_antisymm (not_lt.1 h) hnonneg, fun h => h ▸ lt_irrefl _⟩

/-- In a narrow window no abscissa of the first pass reaches the right bound. -/
theorem abscissa_lt_xMax_of_narrow (h : w.width ≤ narrow) (hn : n < Trace.counterLimit) :
    w.abscissa w.firstStep n < w.xMax :=
  abscissa_lt_xMax ((width_le_narrow_iff w).1 h) hn.le

/-- In all other windows the first step is positive. -/
theorem firstStep_pos_of_not_narrow (h : ¬ w.width ≤ narrow) : 0 < place w.firstStep :=
  lt_of_le_of_ne (part_firstStep w).nonneg fun hzero =>
    h ((width_le_narrow_iff w).2 hzero.symm)

/-- In all other windows the steps that are used are positive. -/
theorem stepOf_pos (h : ¬ w.width ≤ narrow) (hk : w.Used k) :
    (Scalar.ofNat 0 : Float) < w.stepOf k := by
  obtain ⟨hzero, -⟩ := at_natCast (n := 0) (by decide)
  have hpace := pace_stepOf (firstStep_pos_of_not_narrow h) hk
  refine lt_iff.2 ⟨hzero.defined, defined_of_isFinite hpace.isFinite, ?_⟩
  exact (hzero.place_eq.trans Nat.cast_zero).trans_lt hpace.pos

/-- The passes at these steps reach the right bound while the counter lasts. -/
theorem exists_not_abscissa_lt (h : ¬ w.width ≤ narrow) (hk : w.Used k)
    (hcount : 12000 * 2 ^ k < Trace.counterLimit) :
    ∃ n ≤ 12000 * 2 ^ k, ¬ w.abscissa (w.stepOf k) n < w.xMax := by
  rw [Trace.counterLimit_eq] at hcount
  have hpace := pace_stepOf (firstStep_pos_of_not_narrow h) hk
  have hpos := Nat.two_pow_pos k
  exact ⟨4 * (3000 * 2 ^ k), by omega, hpace.reaches (by omega) (by omega)⟩

end

end CurveArea.Window
