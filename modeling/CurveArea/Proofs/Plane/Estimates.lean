import CurveArea.Proofs.Float.Roots
import CurveArea.Proofs.Plane.Draws
import CurveArea.Proofs.Plane.Steps

/-!
# Bounds of an estimate

In binary64 an estimate is made of a share of the draws by products, a difference, quotients and a
root, all of them rounded. What each makes of a share is between zero and one, and what it makes of
an area between zero and that area (`Binary64.Portion`), for any counts that words can hold, though
these themselves be rounded. So an estimate is a number, and neither it nor its deviation exceeds
the area of the window (`Estimate.bounds_of_outcome_ok`).
-/

namespace CurveArea

open CurveArea.Rounding
open CurveArea.Binary64 hiding nearest
open Float.Model (Format)

/-! ## Areas and counts -/

section
variable {w : Window Float} {k n : ℕ}

/-- The area of a window is a number without a minus sign. It can be rounded to zero. -/
theorem Window.area_unsigned (w : Window Float) : Unsigned w.area.toModel.unpack :=
  unsigned_mul w.width_isFinite w.height_isFinite w.width_pos w.height_pos w.area_finite

/-- The area of a window is not negative, though it may be rounded to zero. -/
theorem Window.area_nonneg (w : Window Float) : 0 ≤ place w.area := by
  have harea : At w.area _ := at_mul w.width_isFinite w.height_isFinite
  rw [harea.place_eq]
  exact le_fit (limit_pos _).le (nearest_nonneg (mul_nonneg w.width_pos.le w.height_pos.le))

/-- A count that is not above another one that a word holds is a portion of it. -/
theorem portion_ofNat (hk : k ≤ n) (hn : n < 2 ^ 64) :
    Portion (Float.ofNat k) (Float.ofNat n) := by
  obtain ⟨hatk, hfin⟩ := at_ofNat_word (hk.trans hn.le)
  obtain ⟨hatn, -⟩ := at_ofNat_word hn.le
  refine ⟨hfin, ?_, ?_⟩
  · rw [hatk.place_eq]
    exact nearest_nonneg k.cast_nonneg
  · rw [hatk.place_eq, hatn.place_eq]
    exact nearest_mono (Nat.cast_le.2 hk)

/-- A positive count is not rounded below one. -/
theorem one_le_place_ofNat (hpos : 1 ≤ n) (hn : n < 2 ^ 64) : 1 ≤ place (Float.ofNat n) := by
  rw [(at_ofNat_word hn.le).1.place_eq]
  have hone : Representable .binary64 1 := place_one ▸ representable_place one_isFinite
  exact le_nearest hone (by exact_mod_cast hpos)

/-- A positive count is not rounded to zero. -/
theorem place_ofNat_pos (hpos : 1 ≤ n) (hn : n < 2 ^ 64) : 0 < place (Float.ofNat n) :=
  one_pos.trans_le (one_le_place_ofNat hpos hn)

end

/-! ## Estimates -/

namespace Estimate

section
variable {w : Window Float} {k n : ℕ}

/-- The variance of a share of counts is a share itself. -/
theorem portion_variance {p : Float} (hp : Portion p 1) (hpos : 1 ≤ n) (hn : n < 2 ^ 64) :
    Portion (p * (1 - p) / Float.ofNat n) 1 := by
  have hrest := hp.one_sub
  have hproduct : Portion (p * (1 - p)) 1 := (hp.mul hrest.isFinite hrest.nonneg).trans hrest.le
  exact (hproduct.trans (place_one.trans_le (one_le_place_ofNat hpos hn))).div
    (at_ofNat_word hn.le).2 (place_ofNat_pos hpos hn)

/-- What is estimated from a count. -/
theorem portion_ofCount (w : Window Float) (hk : k ≤ n) (hpos : 1 ≤ n) (hn : n < 2 ^ 64) :
    Portion (ofCount w k n).proportion 1 ∧ Portion (ofCount w k n).area w.area ∧
      Portion (ofCount w k n).deviation w.area := by
  have hproportion : Portion (Float.ofNat k / Float.ofNat n) 1 :=
    (portion_ofNat hk hn).div (at_ofNat_word hn.le).2 (place_ofNat_pos hpos hn)
  exact ⟨hproportion, hproportion.mul w.area_finite w.area_nonneg,
    (portion_variance hproportion hpos hn).sqrt.mul_right w.area_finite w.area_nonneg⟩

/-- A share without a variance has no deviation. -/
theorem deviation_eq_zero (w : Window Float) {p : Float} (hp : p * (1 - p) = 0) (hpos : 1 ≤ n)
    (hn : n < 2 ^ 64) : w.area * Float.sqrt (p * (1 - p) / Float.ofNat n) = 0 := by
  have hsqrt : Float.sqrt 0 = 0 := by decide +kernel
  rw [hp, zero_div_of_pos (at_ofNat_word hn.le).2 (place_ofNat_pos hpos hn), hsqrt]
  exact (mul_zero_of_unsigned w.area_unsigned).1

/-- When no draw is inside, the area and its deviation are zero. -/
theorem ofCount_zero (w : Window Float) (hpos : 1 ≤ n) (hn : n < 2 ^ 64) :
    (ofCount w 0 n).area = 0 ∧ (ofCount w 0 n).deviation = 0 := by
  have hproportion : Float.ofNat 0 / Float.ofNat n = 0 :=
    zero_div_of_pos (at_ofNat_word hn.le).2 (place_ofNat_pos hpos hn)
  have hvariance : (0 : Float) * (1 - 0) = 0 := by decide +kernel
  refine ⟨?_, ?_⟩
  · change Float.ofNat 0 / Float.ofNat n * w.area = 0
    rw [hproportion]
    exact (mul_zero_of_unsigned w.area_unsigned).2
  · exact deviation_eq_zero w (hproportion.symm ▸ hvariance) hpos hn

/-- When all draws are inside, the area is that of the window and the deviation is zero. -/
theorem ofCount_self (w : Window Float) (hpos : 1 ≤ n) (hn : n < 2 ^ 64) :
    (ofCount w n n).area = w.area ∧ (ofCount w n n).deviation = 0 := by
  have hproportion : Float.ofNat n / Float.ofNat n = 1 := by
    have hfin := (at_ofNat_word hn.le).2
    have hne := (place_ofNat_pos hpos hn).ne'
    have hdiv := at_div hfin hfin hne
    rw [div_self hne, fit_one] at hdiv
    exact hdiv.unique at_one one_ne_zero
  have hvariance : (1 : Float) * (1 - 1) = 0 := by decide +kernel
  refine ⟨?_, ?_⟩
  · change Float.ofNat n / Float.ofNat n * w.area = w.area
    rw [hproportion]
    exact one_mul_of_isFinite w.area_finite
  · exact deviation_eq_zero w (hproportion.symm ▸ hvariance) hpos hn

end

section
variable {σ : Type} [WordSource σ]

/-- **Bounds of an estimate.** Whatever values the curves have, undefined ones included, an estimate
and its deviation are numbers from zero to the area of the window, and its proportion is one from
zero to one. If no draw is between the curves the area is zero, and if all are it is that of the
window; the deviation is zero then. -/
theorem bounds_of_outcome_ok (f g : Curve Float) (w : Window Float) (n : ℕ) (hn : n < 2 ^ 64)
    (source : σ) (e : Estimate Float) (h : (withDraws f g w n source).outcome = .ok e) :
    (e.area.isFinite = true ∧ 0 ≤ e.area ∧ e.area ≤ w.area) ∧
    (e.deviation.isFinite = true ∧ 0 ≤ e.deviation ∧ e.deviation ≤ w.area) ∧
    (e.proportion.isFinite = true ∧ 0 ≤ e.proportion ∧ e.proportion ≤ 1) ∧
    (e.inside = 0 → e.area = 0 ∧ e.deviation = 0) ∧
    (e.inside = e.total → e.area = w.area ∧ e.deviation = 0) := by
  obtain ⟨hne, ds, -, hlen, -, rfl⟩ := withDraws_eq_append h
  have hpos : 1 ≤ n := Nat.one_le_iff_ne_zero.2 hne
  have hcount : ds.countP (·.inside) ≤ n := hlen ▸ List.countP_le_length
  generalize ds.countP (·.inside) = k at hcount
  obtain ⟨hproportion, harea, hdeviation⟩ := portion_ofCount w hcount hpos hn
  refine ⟨harea.bounds w.area_finite, hdeviation.bounds w.area_finite,
    hproportion.bounds one_isFinite, fun hnone => ?_, fun hall => ?_⟩
  · obtain rfl : k = 0 := hnone
    exact ofCount_zero w hpos hn
  · obtain rfl : k = n := hall
    exact ofCount_self w hpos hn

/-- Two draws between the diagonal and a curve that is undefined, of which none is between them. -/
theorem bounds_of_outcome_ok_undefined :
    let p : Program Float := ⟨[.load], 0⟩
    let q : Program Float := ⟨[.push (0 / 0)], 0⟩
    let w := Window.unit
    let source := Cycle.ofList [2 ^ 63, 2 ^ 62, 2 ^ 62, 2 ^ 63]
    ∃ e, (withDraws p.evaluate q.evaluate w 2 source).outcome = .ok e ∧ e.inside = 0 ∧
      (e.area.isFinite = true ∧ 0 ≤ e.area ∧ e.area ≤ w.area) ∧
      (e.deviation.isFinite = true ∧ 0 ≤ e.deviation ∧ e.deviation ≤ w.area) ∧
      (e.proportion.isFinite = true ∧ 0 ≤ e.proportion ∧ e.proportion ≤ 1) ∧
      (e.inside = 0 → e.area = 0 ∧ e.deviation = 0) ∧
      (e.inside = e.total → e.area = w.area ∧ e.deviation = 0) := by
  intro p q w source
  obtain ⟨e, he⟩ := (withDraws_ok_iff p q w 2 source).2 ⟨by decide, rfl, rfl⟩
  have hinside : (withDraws p.evaluate q.evaluate w 2 source).outcome.toOption.map
      (·.inside) = some 0 := by
    decide +kernel
  rw [he] at hinside
  exact ⟨e, he, Option.some_injective _ hinside,
    bounds_of_outcome_ok p.evaluate q.evaluate w 2 (by decide) source e he⟩

end

end Estimate

end CurveArea
