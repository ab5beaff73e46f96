import CurveArea.Plane.Canvas
import CurveArea.Proofs.Float.Narrowing
import CurveArea.Proofs.Plane.Rectangle

/-!
# Points and ticks on the screen

On a screen of 500 pixels by 500, points are to be at finite positions from one edge to the other,
and ticks are to mark finite coordinates in the window, in order. For either axis that is so exactly
if the product that the position is divided from is finite: that of the side of the window and the
count of pixels, or of the number of the last tick and the side (`Window.shows_and_marks_iff`). A
window may have sides too long for these products, though not for its area.

Where the products are finite the edges are met exactly. A position is rounded twice in binary64,
and can be one place above the count of pixels (`Window.offset_bounds`), but binary32 has too few
places to tell that from the edge (`Rounding.fit_edge`).
-/

namespace CurveArea

/-! ## Rounded products and places -/

namespace Rounding

open Float.Model (Format)

section
variable {F : Format} {q d : ℚ} {m : Nat} {e k : ℤ}

/-- A multiple of the least number, however long, loses a part of it that is as small as the places
of the format are many. -/
theorem abs_sub_nearest_le_div (hq : q = k * 2 ^ F.minExponent) :
    |q - nearest F q| ≤ |q| / 2 ^ F.mantissaBits := by
  have hmantissa : (0 : ℚ) < 2 ^ F.mantissaBits := by positivity
  rcases (minExponent_le_unitExponent F q).eq_or_lt with hmin | hmin
  · -- The last place that is kept is the least one.
    have hexact := abs_sub_nearest_le_multiple F q k
    rw [← hmin, ← hq, sub_self, abs_zero] at hexact
    exact hexact.trans (by positivity)
  by_cases hzero : q = 0
  · rw [hzero, nearest_zero, sub_zero, abs_zero, zero_div]
  have hhalf := (nearestEven_spec (q / 2 ^ unitExponent F q)).dist_le
  have hlow := zpow_unitExponent_le_abs hzero hmin
  rw [zpow_sub_one₀ two_ne_zero, zpow_add_mantissaBits] at hlow
  rw [nearest, abs_div_zpow, le_div_iff₀ hmantissa]
  calc |q / 2 ^ unitExponent F q - nearestEven (q / 2 ^ unitExponent F q)| *
        2 ^ unitExponent F q * 2 ^ F.mantissaBits
      ≤ 1 / 2 * 2 ^ unitExponent F q * 2 ^ F.mantissaBits := by gcongr
    _ = 2 ^ F.mantissaBits * 2 ^ unitExponent F q * 2⁻¹ := by ring
    _ ≤ |q| := hlow

/-- Less than half of the last place is lost. -/
theorem fit_mantissa_add (h : Canonical F m e) (he : e < exponentLimit F) (hm : 0 < m)
    (h₀ : 0 ≤ d) (hd : d < 1 / 2) : fit F ((m + d) * 2 ^ e) = m * 2 ^ e := by
  have hnear : NearestEven (m + d) m := by
    left
    rwa [Int.cast_natCast, add_sub_cancel_left, abs_of_nonneg h₀]
  have heq := nearest_eq_of_near h hm hnear fun _ _ => by linarith
  rw [fit_of_abs_lt, heq]
  rw [heq, abs_of_pos (mul_pos (Nat.cast_pos.2 hm) (two_zpow_pos e))]
  exact worth_lt_limit h he

/-- What is one place of binary64 above an edge of the screen is at the edge in binary32. -/
theorem fit_edge :
    fit .binary32 (500 + 2 ^ (-44 : ℤ)) = 500 ∧ fit .binary32 (1 + 2 ^ (-44 : ℤ)) = 1 := by
  constructor
  · have hcanonical : Canonical .binary32 (500 * 2 ^ 15) (-15) :=
      ⟨by decide, by decide, .inr (by decide)⟩
    have h := fit_mantissa_add hcanonical (by decide) (by decide) (d := 2 ^ (-29 : ℤ))
      (by positivity) (by norm_num)
    norm_num at h ⊢
    exact h
  · have hcanonical : Canonical .binary32 (2 ^ 23) (-23) :=
      ⟨by decide, by decide, .inr (by decide)⟩
    have h := fit_mantissa_add hcanonical (by decide) (by decide) (d := 2 ^ (-21 : ℤ))
      (by positivity) (by norm_num)
    norm_num at h ⊢
    exact h

end

end Rounding

/-! ## Numbers between two others -/

/-- A number is finite and between two others. -/
def Between {α : Type} [Scalar α] (lo hi v : α) : Prop :=
  Scalar.isFinite v = true ∧ lo ≤ v ∧ v ≤ hi

namespace Binary64

open CurveArea.Rounding
open Float.Model (Format)

section
variable {a b x : Float} {q : ℚ}

/-- A result stays between numbers. -/
theorem between_of_at (ha : a.isFinite = true) (hb : b.isFinite = true)
    (hx : At x (fit Format.binary64 q)) (hlow : place a ≤ q) (hhigh : q ≤ place b) :
    Between a b x := by
  have hat {c : Float} (hc : c.isFinite = true) : At c (fit Format.binary64 (place c)) :=
    ⟨defined_of_isFinite hc, (fit_place hc).symm⟩
  have hax := le_of_at (hat ha) hx hlow
  have hxb := le_of_at hx (hat hb) hhigh
  exact ⟨isFinite_of_between ha hb hax hxb, hax, hxb⟩

end

end Binary64

namespace Binary32

open CurveArea.Rounding

/-- A finite position that a place is narrowed to. -/
structure Edge (p : Float32) (q : ℚ) : Prop where
  /-- The place is narrowed to it. -/
  at_fit : At p (fit .binary32 q)
  /-- It is finite. -/
  isFinite : p.isFinite = true

/-- A number between the places of two edges is narrowed to a position between the edges. -/
theorem between_narrow {v : Float} {lo hi : Float32} {q r : ℚ} (hv : v.isFinite = true)
    (hlo : Edge lo q) (hhi : Edge hi r) (hlow : q ≤ Binary64.place v)
    (hhigh : Binary64.place v ≤ r) : Between lo hi (narrow v) := by
  have hnarrow := at_narrow hv
  have hle := fit_mono (F := .binary32) hlow
  have hle' := fit_mono (F := .binary32) hhigh
  have hlimit := (abs_lt.1 (hlo.at_fit.isFinite_iff.1 hlo.isFinite)).1
  have hlimit' := (abs_lt.1 (hhi.at_fit.isFinite_iff.1 hhi.isFinite)).2
  exact ⟨hnarrow.isFinite_iff.2 (abs_lt.2 ⟨hlimit.trans_le hle, hle'.trans_lt hlimit'⟩),
    (hlo.at_fit.le_iff hnarrow).2 hle, (hnarrow.le_iff hhi.at_fit).2 hle'⟩

/-- The left edge of the screen. -/
theorem edge_left : Edge (Scalar.ofNat 0) 0 := by
  have hzero : At (Scalar.ofNat 0) 0 := at_of_unpack (u := .zero .positive) (by rfl) rfl
  exact ⟨(fit_zero .binary32).symm ▸ hzero, by decide +kernel⟩

/-- The right edge, which is met by what is beyond it by rounding. -/
theorem edge_right : Edge (Scalar.ofNat 500) (500 + 2 ^ (-44 : ℤ)) := by
  have hright := at_of_unpack (a := Scalar.ofNat 500)
    (u := .finite .positive (500 * 2 ^ 15) (-15) (by decide)) (by rfl) rfl
  norm_num [stand, worth, withSign] at hright
  exact ⟨fit_edge.1.symm ▸ hright, by decide +kernel⟩

/-- One pixel above the upper edge, which is met by what is beyond it by rounding. -/
theorem edge_above : Edge (-Scalar.ofNat 1) (-(1 + 2 ^ (-44 : ℤ))) := by
  have hone := at_of_unpack (a := Scalar.ofNat 1)
    (u := .finite .positive (2 ^ 23) (-23) (by decide)) (by rfl) rfl
  norm_num [stand, worth, withSign] at hone
  refine ⟨?_, by decide +kernel⟩
  rw [fit_neg, fit_edge.2]
  exact at_neg hone

/-- The bottom line. -/
theorem edge_bottom : Edge (Scalar.ofNat 499) 499 := by
  have hexact : fit .binary32 499 = 499 :=
    fit_of_representable ⟨499, 0, by decide, by decide, by norm_num⟩
      (by norm_num [limit, Float.Model.Format.binary32])
  have hbottom := at_of_unpack (a := Scalar.ofNat 499)
    (u := .finite .positive (499 * 2 ^ 15) (-15) (by decide)) (by rfl) rfl
  norm_num [stand, worth, withSign] at hbottom
  exact ⟨hexact.symm ▸ hbottom, by decide +kernel⟩

end Binary32

namespace Window

open CurveArea.Rounding
open CurveArea.Binary64 hiding nearest
open Float.Model (Format)

/-! ## Points -/

section
variable {lo hi v : Float}

/-- How many pixels of 500 a number is from the lower one of two bounds. -/
def offset (lo hi v : Float) : Float := (v - lo) * Scalar.ofNat 500 / (hi - lo)

/-- The side of the screen is an exact number. -/
theorem at_side : At (Scalar.ofNat 500) 500 ∧ (Scalar.ofNat 500 : Float).isFinite = true :=
  at_natCast (n := 500) (by decide)

/-- One place above a count of pixels is a number of binary64. -/
theorem representable_edge {n : ℕ} (hn : n ≤ 500) :
    Representable .binary64 (n + 2 ^ (-44 : ℤ)) ∧
      |(n : ℚ) + 2 ^ (-44 : ℤ)| < limit .binary64 := by
  have heq : (n : ℚ) + 2 ^ (-44 : ℤ) = ((n * 2 ^ 44 + 1 : ℕ) : ℚ) * 2 ^ (-44 : ℤ) := by
    push_cast
    norm_num
    ring
  have hcast : (n : ℚ) ≤ 500 := by exact_mod_cast hn
  have hplace : (500 : ℚ) + 2 ^ (-44 : ℤ) < 2 ^ (9 : ℤ) := by norm_num
  refine ⟨heq ▸ representable_mul_zpow (by omega) (by decide), ?_⟩
  rw [abs_of_pos (by positivity)]
  exact ((add_le_add_left hcast _).trans_lt hplace).trans (zpow_lt_limit (by decide))

/-- A side times 500, as it is rounded, is no more than the side times what is one place above
500. -/
theorem place_side_le (hfin : v.isFinite = true) (hpos : 0 < place v)
    (hside : (v * Scalar.ofNat 500).isFinite = true) :
    place (v * Scalar.ofNat 500) ≤ (500 + 2 ^ (-44 : ℤ)) * place v := by
  obtain ⟨k, hk⟩ := (representable_place hfin).exists_int
  have hmultiple : place v * 500 = (k * 500 : ℤ) * 2 ^ Format.binary64.minExponent := by
    rw [hk]
    push_cast
    ring
  have hmul := at_mul hfin at_side.2
  rw [at_side.1.place_eq] at hmul
  have herror := (abs_le.1 (abs_sub_nearest_le_div hmultiple)).1
  rw [← hmul.place_eq_nearest hside, abs_of_pos (by positivity)] at herror
  have hmantissa : (2 : ℚ) ^ Format.binary64.mantissaBits = 2 ^ 53 := rfl
  rw [hmantissa] at herror
  have hsmall : place v * 500 / 2 ^ 53 ≤ 2 ^ (-44 : ℤ) * place v := by
    have hplace : (500 : ℚ) / 2 ^ 53 ≤ 2 ^ (-44 : ℤ) := by norm_num
    calc place v * 500 / 2 ^ 53 = 500 / 2 ^ 53 * place v := by ring
      _ ≤ 2 ^ (-44 : ℤ) * place v := mul_le_mul_of_nonneg_right hplace hpos.le
  calc place (v * Scalar.ofNat 500) ≤ place v * 500 + place v * 500 / 2 ^ 53 := by linarith
    _ ≤ place v * 500 + 2 ^ (-44 : ℤ) * place v := add_le_add_right hsmall _
    _ = (500 + 2 ^ (-44 : ℤ)) * place v := by ring

/-- An offset is finite, and from zero to one place above 500. -/
theorem offset_bounds (hlt : lo < hi) (hside : ((hi - lo) * Scalar.ofNat 500).isFinite = true)
    (hlow : lo ≤ v) (hhigh : v ≤ hi) :
    (offset lo hi v).isFinite = true ∧ 0 ≤ place (offset lo hi v) ∧
      place (offset lo hi v) ≤ 500 + 2 ^ (-44 : ℤ) := by
  obtain ⟨hfin, -⟩ := isFinite_of_mul hside
  obtain ⟨hhi, hlo⟩ := isFinite_of_sub hfin
  have hv := isFinite_of_between hlo hhi hlow hhigh
  have hpos := place_sub_pos hlt hfin
  have hdifference : Portion (v - lo) (hi - lo) :=
    .of_le (at_sub hv hlo) (at_sub hhi hlo) hfin (sub_nonneg.2 (le_iff.1 hlow).2.2)
      (sub_le_sub_right (le_iff.1 hhigh).2.2 _)
  have hnonneg : 0 ≤ place (Scalar.ofNat 500) := by
    rw [at_side.1.place_eq]
    norm_num
  have hproduct : Portion ((v - lo) * Scalar.ofNat 500) ((hi - lo) * Scalar.ofNat 500) :=
    .of_le (at_mul hdifference.isFinite at_side.2) (at_mul hfin at_side.2) hside
      (mul_nonneg hdifference.nonneg hnonneg) (mul_le_mul_of_nonneg_right hdifference.le hnonneg)
  have hquotient := at_div hproduct.isFinite hfin hpos.ne'
  have hle := (div_le_iff₀ hpos).2 (hproduct.le.trans (place_side_le hfin hpos hside))
  have h₀ := div_nonneg hproduct.nonneg hpos.le
  exact bounds_of_at hquotient ⟨representable_zero _, abs_zero.trans_lt (limit_pos _)⟩
    (representable_edge le_rfl) h₀ hle

/-- An offset is narrowed to a position from the left edge to the right one. -/
theorem between_narrow_offset (hlt : lo < hi)
    (hside : ((hi - lo) * Scalar.ofNat 500).isFinite = true) (hlow : lo ≤ v) (hhigh : v ≤ hi) :
    Between (Scalar.ofNat 0) (Scalar.ofNat 500) (Binary32.narrow (offset lo hi v)) := by
  obtain ⟨hfin, h₀, hle⟩ := offset_bounds hlt hside hlow hhigh
  exact Binary32.between_narrow hfin Binary32.edge_left Binary32.edge_right h₀ hle

/-- What an offset leaves of the bottom line is narrowed to a position from one pixel above the
screen to the bottom line. -/
theorem between_narrow_sub_offset (hlt : lo < hi)
    (hside : ((hi - lo) * Scalar.ofNat 500).isFinite = true) (hlow : lo ≤ v) (hhigh : v ≤ hi) :
    Between (-Scalar.ofNat 1) (Scalar.ofNat 499)
      (Binary32.narrow (Scalar.ofNat 499 - offset lo hi v)) := by
  obtain ⟨hfin, h₀, hle⟩ := offset_bounds hlt hside hlow hhigh
  obtain ⟨hline, hlinefin⟩ := at_natCast (n := 499) (by decide)
  have hsub := at_sub hlinefin hfin
  rw [hline.place_eq] at hsub
  have hedge := representable_edge (n := 1) (by decide)
  rw [Nat.cast_one] at hedge
  have hlow : -(1 + 2 ^ (-44 : ℤ)) ≤ ((499 : ℕ) : ℚ) - place (offset lo hi v) := by
    push_cast
    linarith
  obtain ⟨hfinite, hbelow, habove⟩ := bounds_of_at hsub
    ⟨hedge.1.neg, (abs_neg _).trans_lt hedge.2⟩
    ⟨representable_natCast (by decide), natCast_lt_limit (by decide)⟩ hlow (sub_le_self _ h₀)
  exact Binary32.between_narrow hfinite Binary32.edge_above Binary32.edge_bottom hbelow habove

end

/-! ## Ticks -/

section
variable {lo hi w : Float} {i j : ℕ}

/-- The number of a tick is exact. -/
theorem at_tickNumber (hi : i ≤ 4) : At (Scalar.ofNat i) i ∧
    (Scalar.ofNat i : Float).isFinite = true :=
  at_natCast (hi.trans (by decide))

/-- So is the number of intervals. -/
theorem at_tickIntervals : At (Scalar.ofNat tickIntervals) 5 ∧
    (Scalar.ofNat tickIntervals : Float).isFinite = true :=
  at_natCast (n := 5) (by decide)

/-- The products that ticks are divided from are finite if the last of them is. -/
theorem portion_tickProduct (hlast : (Scalar.ofNat 4 * w).isFinite = true) (hpos : 0 ≤ place w)
    (hij : i ≤ j) (hj : j ≤ 4) : Portion (Scalar.ofNat i * w) (Scalar.ofNat j * w) := by
  obtain ⟨-, hw⟩ := isFinite_of_mul hlast
  have hproduct {n : ℕ} (hn : n ≤ 4) : At (Scalar.ofNat n * w) (fit .binary64 (n * place w)) := by
    have hmul := at_mul (at_tickNumber hn).2 hw
    rwa [(at_tickNumber hn).1.place_eq] at hmul
  have hle {m n : ℕ} (hmn : m ≤ n) : (m : ℚ) * place w ≤ n * place w :=
    mul_le_mul_of_nonneg_right (Nat.cast_le.2 hmn) hpos
  have hnonneg (n : ℕ) : (0 : ℚ) ≤ n * place w := mul_nonneg n.cast_nonneg hpos
  have hfin : (Scalar.ofNat j * w).isFinite = true :=
    (Portion.of_le (hproduct hj) (hproduct le_rfl) hlast (hnonneg j) (hle hj)).isFinite
  exact .of_le (hproduct (hij.trans hj)) (hproduct hj) hfin (hnonneg i) (hle hij)

/-- So are ticks, and they are in order. -/
theorem portion_tickPosition (hlast : (Scalar.ofNat 4 * w).isFinite = true) (hpos : 0 ≤ place w)
    (hij : i ≤ j) (hj : j ≤ 4) :
    Portion (Canvas.tickPosition w i) (Canvas.tickPosition w j) := by
  have hproduct := portion_tickProduct hlast hpos hij hj
  have hfin := (portion_tickProduct hlast hpos hj le_rfl).isFinite
  have hquotient {v : Float} (hv : v.isFinite = true) :
      At (v / Scalar.ofNat tickIntervals) (fit .binary64 (place v / 5)) := by
    have hdiv := at_div hv at_tickIntervals.2 (by rw [at_tickIntervals.1.place_eq]; norm_num)
    rwa [at_tickIntervals.1.place_eq] at hdiv
  have hfinite : (Canvas.tickPosition w j).isFinite = true :=
    (part_of_div hfin (hproduct.nonneg.trans hproduct.le) (by decide) (by decide)).isFinite
  have hfive : (0 : ℚ) ≤ 5 := by norm_num
  exact .of_le (hquotient hproduct.isFinite) (hquotient hfin) hfinite
    (div_nonneg hproduct.nonneg hfive) (div_le_div_of_nonneg_right hproduct.le hfive)

/-- No tick is further than the exact distance of the bounds, though that be rounded up. -/
theorem place_tickPosition_le (hlt : lo < hi)
    (hlast : (Scalar.ofNat 4 * (hi - lo)).isFinite = true) (hi4 : i ≤ 4) :
    place (Canvas.tickPosition (hi - lo) i) ≤ place hi - place lo := by
  obtain ⟨-, hfin⟩ := isFinite_of_mul hlast
  obtain ⟨hhi, hlo⟩ := isFinite_of_sub hfin
  have hpos := place_sub_pos hlt hfin
  have hmul := at_mul (at_tickNumber le_rfl).2 hfin
  -- The product with four is exact.
  have hexact : place (Scalar.ofNat 4 * (hi - lo)) = place (hi - lo) * 2 ^ 2 := by
    have hfour : ((4 : ℕ) : ℚ) * place (hi - lo) = place (hi - lo) * 2 ^ 2 := by
      push_cast
      ring
    rw [hmul.place_eq_nearest hlast, (at_tickNumber le_rfl).1.place_eq, hfour]
    exact nearest_of_representable ((representable_place hfin).mul_two_pow 2)
  have hpart := part_of_div (n := 5) hlast (by rw [hexact]; positivity) (by decide) (by decide)
  have hshare : place (Scalar.ofNat 4 * (hi - lo)) / (5 : ℕ) =
      4 / 5 * nearest .binary64 (place hi - place lo) := by
    rw [hexact, ← place_sub hfin]
    push_cast
    ring
  have hpath : (4 : ℚ) / 5 ≤ 1 - 1 / 2 ^ Format.binary64.mantissaBits := by
    have hmantissa : (2 : ℚ) ^ Format.binary64.mantissaBits = 2 ^ 53 := rfl
    rw [hmantissa]
    norm_num
  calc place (Canvas.tickPosition (hi - lo) i)
      ≤ place (Canvas.tickPosition (hi - lo) 4) :=
        (portion_tickPosition hlast hpos.le hi4 le_rfl).le
    _ = nearest .binary64 (4 / 5 * nearest .binary64 (place hi - place lo)) :=
        hpart.place_eq.trans (congrArg _ hshare)
    _ ≤ place hi - place lo :=
        nearest_mul_nearest_le (representable_place hlo) (representable_place hhi)
          (lt_iff.1 hlt).2.2 hpath

/-- Two distances in order, of which the greater one is not more than the exact distance of two
finite bounds. -/
structure Within (lo hi s t : Float) : Prop where
  /-- The bounds are finite. -/
  bounds : lo.isFinite = true ∧ hi.isFinite = true
  /-- The distances are in order. -/
  portion : Portion s t
  /-- The greater one is finite. -/
  isFinite : t.isFinite = true
  /-- It is not more than the exact distance of the bounds. -/
  le : place t ≤ place hi - place lo

/-- From the lower bound, distances lead to numbers between the bounds, in order. -/
theorem Within.add {s t : Float} (h : Within lo hi s t) :
    Between lo hi (lo + t) ∧ lo + s ≤ lo + t := by
  have hlower := at_add h.bounds.1 h.portion.isFinite
  have hupper := at_add h.bounds.1 h.isFinite
  have hle := h.le
  exact ⟨between_of_at h.bounds.1 h.bounds.2 hupper
      (le_add_of_nonneg_right (h.portion.nonneg.trans h.portion.le)) (by linarith),
    le_of_at hlower hupper (add_le_add_right h.portion.le _)⟩

/-- From the upper bound, they do so in the opposite order. -/
theorem Within.sub {s t : Float} (h : Within lo hi s t) :
    Between lo hi (hi - t) ∧ hi - t ≤ hi - s := by
  have hlower := at_sub h.bounds.2 h.portion.isFinite
  have hupper := at_sub h.bounds.2 h.isFinite
  have hle := h.le
  exact ⟨between_of_at h.bounds.1 h.bounds.2 hupper (by linarith)
      (sub_le_self _ (h.portion.nonneg.trans h.portion.le)),
    le_of_at hupper hlower (sub_le_sub_left h.portion.le _)⟩

/-- Ticks stand in order inside the window while the distance of the last one can be multiplied. -/
theorem within_tickPosition (hlt : lo < hi)
    (hlast : (Scalar.ofNat 4 * (hi - lo)).isFinite = true) (hij : i ≤ j) (hj : j ≤ 4) :
    Within lo hi (Canvas.tickPosition (hi - lo) i) (Canvas.tickPosition (hi - lo) j) := by
  obtain ⟨-, hfin⟩ := isFinite_of_mul hlast
  have hpos := (place_sub_pos hlt hfin).le
  exact ⟨(isFinite_of_sub hfin).symm, portion_tickPosition hlast hpos hij hj,
    (portion_tickPosition hlast hpos le_rfl hj).isFinite, place_tickPosition_le hlt hlast hj⟩

/-- The ticks of an axis are numbered in order, up to four. -/
theorem pairwise_tickNumbers {r : ℕ → ℕ → Prop} (h : ∀ i j, i ≤ j → j ≤ 4 → r i j) :
    tickNumbers.Pairwise r := by
  have hordered : tickNumbers.Pairwise fun i j => i ≤ j ∧ j ≤ 4 := by decide
  exact hordered.imp fun hij => h _ _ hij.1 hij.2

/-- There are four ticks on an axis. -/
theorem le_of_mem_tickNumbers : ∀ i ∈ tickNumbers, i ≤ 4 := by decide

end

/-! ## A window on the screen -/

/-- A window on the screen of 500 pixels by 500. -/
def onScreen (w : Window Float) : Canvas Float Float32 :=
  ⟨w, Scalar.ofNat 500, Scalar.ofNat 500⟩

section
variable (w : Window Float)

/-- The points of a window are drawn at finite positions from the left edge to the right one. -/
def ShowsAbscissas : Prop :=
  ∀ x y, w.Holds x y → Between (Scalar.ofNat 0) (Scalar.ofNat 500) (w.onScreen.place x y).1

/-- The points of a window are drawn at finite positions from one pixel above the upper edge to the
bottom line. -/
def ShowsOrdinates : Prop :=
  ∀ x y, w.Holds x y → Between (-Scalar.ofNat 1) (Scalar.ofNat 499) (w.onScreen.place x y).2

/-- The ticks of the horizontal axis mark finite abscissas of the window, from left to right. -/
def MarksAbscissas : Prop :=
  (∀ t ∈ w.onScreen.xTicks, Between w.xMin w.xMax t.value) ∧
    w.onScreen.xTicks.Pairwise fun s t => s.value ≤ t.value

/-- The ticks of the vertical axis mark finite ordinates of the window, from the top. -/
def MarksOrdinates : Prop :=
  (∀ t ∈ w.onScreen.yTicks, Between w.yMin w.yMax t.value) ∧
    w.onScreen.yTicks.Pairwise fun s t => t.value ≤ s.value

/-- Where a point is drawn: its distances from the bounds, counted in pixels and narrowed. -/
theorem place_onScreen (x y : Float) : w.onScreen.place x y =
    (Binary32.narrow (offset w.xMin w.xMax x),
      Binary32.narrow (Scalar.ofNat 499 - offset w.yMin w.yMax y)) := by
  have hside : (Pixel.widen (Scalar.ofNat 500 : Float32) : Float) = Scalar.ofNat 500 := by
    decide +kernel
  have hline : (Scalar.ofNat 500 - Scalar.ofNat 1 : Float) = Scalar.ofNat 499 := by
    decide +kernel
  simp only [Canvas.place, onScreen, hside, hline]
  rfl

/-- The corners of a window are in it. -/
theorem holds_corners : w.Holds w.xMax w.yMin ∧ w.Holds w.xMin w.yMax := by
  obtain ⟨hxMin, hxMax, hx⟩ := lt_iff.1 w.x_lt
  obtain ⟨hyMin, hyMax, hy⟩ := lt_iff.1 w.y_lt
  exact ⟨⟨⟨le_iff.2 ⟨hxMin, hxMax, hx.le⟩, le_iff.2 ⟨hxMax, hxMax, le_rfl⟩⟩,
      le_iff.2 ⟨hyMin, hyMin, le_rfl⟩, le_iff.2 ⟨hyMin, hyMax, hy.le⟩⟩,
    ⟨le_iff.2 ⟨hxMin, hxMin, le_rfl⟩, le_iff.2 ⟨hxMin, hxMax, hx.le⟩⟩,
      le_iff.2 ⟨hyMin, hyMax, hy.le⟩, le_iff.2 ⟨hyMax, hyMax, le_rfl⟩⟩

/-- All abscissas are drawn on the screen when the width, counted in pixels, is finite. -/
theorem showsAbscissas_iff :
    w.ShowsAbscissas ↔ (w.width * Scalar.ofNat 500).isFinite = true := by
  constructor
  · intro h
    have hright := (h w.xMax w.yMin w.holds_corners.1).1
    rw [place_onScreen] at hright
    exact isFinite_of_div (Binary32.isFinite_of_narrow hright)
  · intro hside x y hxy
    rw [place_onScreen]
    exact between_narrow_offset w.x_lt hside hxy.1.1 hxy.1.2

/-- All ordinates are drawn on the screen when the height, counted in pixels, is finite. -/
theorem showsOrdinates_iff :
    w.ShowsOrdinates ↔ (w.height * Scalar.ofNat 500).isFinite = true := by
  constructor
  · intro h
    have htop := (h w.xMin w.yMax w.holds_corners.2).1
    rw [place_onScreen] at htop
    exact isFinite_of_div (isFinite_of_sub (Binary32.isFinite_of_narrow htop)).2
  · intro hside x y hxy
    rw [place_onScreen]
    exact between_narrow_sub_offset w.y_lt hside hxy.2.1 hxy.2.2

/-- All ticks of the horizontal axis mark abscissas in order when four times the width is finite. -/
theorem marksAbscissas_iff :
    w.MarksAbscissas ↔ (Scalar.ofNat 4 * w.width).isFinite = true := by
  constructor
  · intro h
    have hlast := (h.1 _ (List.mem_map.2 ⟨4, by decide, rfl⟩)).1
    exact isFinite_of_div (isFinite_of_add hlast).2
  · intro hlast
    refine ⟨fun t ht => ?_, List.pairwise_map.2 (pairwise_tickNumbers fun i j hij hj => ?_)⟩
    · obtain ⟨i, hi, rfl⟩ := List.mem_map.1 ht
      exact (within_tickPosition w.x_lt hlast le_rfl (le_of_mem_tickNumbers i hi)).add.1
    · exact (within_tickPosition w.x_lt hlast hij hj).add.2

/-- All ticks of the vertical axis mark ordinates in order when four times the height is finite. -/
theorem marksOrdinates_iff :
    w.MarksOrdinates ↔ (Scalar.ofNat 4 * w.height).isFinite = true := by
  constructor
  · intro h
    have hlast := (h.1 _ (List.mem_map.2 ⟨4, by decide, rfl⟩)).1
    exact isFinite_of_div (isFinite_of_sub hlast).2
  · intro hlast
    refine ⟨fun t ht => ?_, List.pairwise_map.2 (pairwise_tickNumbers fun i j hij hj => ?_)⟩
    · obtain ⟨i, hi, rfl⟩ := List.mem_map.1 ht
      exact (within_tickPosition w.y_lt hlast le_rfl (le_of_mem_tickNumbers i hi)).sub.1
    · exact (within_tickPosition w.y_lt hlast hij hj).sub.2

/-- **Points and ticks on the screen.** Whatever window is shown, all of its points are drawn on the
screen if the products of its sides and the count of pixels are finite, and its ticks mark numbers
of it in order if the products of the sides and the number of the last tick are. Each of these
products is needed for its axis. -/
theorem shows_and_marks_iff :
    (w.ShowsAbscissas ↔ (w.width * Scalar.ofNat 500).isFinite = true) ∧
    (w.ShowsOrdinates ↔ (w.height * Scalar.ofNat 500).isFinite = true) ∧
    (w.MarksAbscissas ↔ (Scalar.ofNat 4 * w.width).isFinite = true) ∧
    (w.MarksOrdinates ↔ (Scalar.ofNat 4 * w.height).isFinite = true) :=
  ⟨w.showsAbscissas_iff, w.showsOrdinates_iff, w.marksAbscissas_iff, w.marksOrdinates_iff⟩

end

/-- The bounds `0` and `1e308`, and `0` and `1`, are in order, and their area is finite. -/
theorem wide_bounds : (0 : Float) < Float.ofBits 0x7FE1CCF385EBC8A0 ∧ (0 : Float) < 1 ∧
    Scalar.isFinite ((Float.ofBits 0x7FE1CCF385EBC8A0 - 0) * (1 - 0)) = true := by
  decide +kernel

/-- A window that is `1e308` wide and one high. -/
def wide : Window Float where
  xMin := 0
  xMax := Float.ofBits 0x7FE1CCF385EBC8A0
  yMin := 0
  yMax := 1
  x_lt := wide_bounds.1
  y_lt := wide_bounds.2.1
  area_finite := wide_bounds.2.2

/-- Its lower right corner is drawn at no finite position, and its second tick marks no finite
abscissa. So not every window is shown and marked. -/
theorem not_shows_and_marks_wide :
    wide.Holds wide.xMax wide.yMin ∧
    (wide.onScreen.place wide.xMax wide.yMin).1 = 1 / 0 ∧ wide.xTick 2 = 1 / 0 ∧
    ¬ wide.ShowsAbscissas ∧ ¬ wide.MarksAbscissas ∧
    ¬ ∀ w : Window Float,
      (w.ShowsAbscissas ∧ w.ShowsOrdinates) ∧ w.MarksAbscissas ∧ w.MarksOrdinates := by
  have hshows : ¬ wide.ShowsAbscissas := fun h =>
    absurd (h wide.xMax wide.yMin wide.holds_corners.1).1 (by decide +kernel)
  have hmem : ⟨Canvas.tickPosition (Scalar.ofNat 500) 2, wide.xTick 2⟩ ∈ wide.onScreen.xTicks :=
    List.mem_map.2 ⟨2, by decide, rfl⟩
  have hmarks : ¬ wide.MarksAbscissas := fun h =>
    absurd (h.1 _ hmem).1 (by decide +kernel)
  exact ⟨wide.holds_corners.1, by decide +kernel, by decide +kernel, hshows, hmarks,
    fun h => hshows (h wide).1.1⟩

end Window

end CurveArea
