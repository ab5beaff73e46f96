import CurveArea.Proofs.Plane.Draws
import CurveArea.Proofs.Plane.Steps

/-!
# Where points are drawn at random

A point is drawn at a fraction of the width of its window, and at one of its height. In binary64
these are rounded, and can be more than the distance of the bounds, and their products with the
fractions and the sums with the bounds are rounded again. Points are in the window nevertheless
(`Window.holds_drawn`): the greatest fraction is so far below one that its product with a width that
was rounded up is never rounded up to that width again (`Rounding.nearest_mul_nearest_le`).
-/

namespace CurveArea

/-! ## Fractions of a rounded difference -/

namespace Rounding

open Float.Model (Format)

variable {F : Format} {a b q u : ℚ}

/-- A difference of two numbers of the format is a number of the format, if it is small. -/
theorem representable_sub (ha : Representable F a) (hb : Representable F b)
    (h : |b - a| ≤ 2 ^ (F.minExponent + F.mantissaBits)) : Representable F (b - a) := by
  obtain ⟨i, rfl⟩ := ha.exists_int
  obtain ⟨j, rfl⟩ := hb.exists_int
  have hpos := two_zpow_pos F.minExponent
  rw [← sub_mul, ← Int.cast_sub] at h ⊢
  refine representable_of_abs_le ?_ le_rfl
  rw [abs_mul, abs_of_pos hpos, zpow_add₀ two_ne_zero, mul_comm, zpow_natCast] at h
  exact_mod_cast le_of_mul_le_mul_left h hpos

/-- A number of the format that has all its places, and is more than the least one of them, has a
number of the format below it, closer than it is to zero by as many places as the format has. -/
theorem exists_representable_sub (hq : Representable F q)
    (h : 2 ^ (F.minExponent + F.mantissaBits) ≤ q) :
    ∃ gap, 0 < gap ∧ Representable F (q - gap) ∧ gap * 2 ^ F.mantissaBits < 2 * q := by
  have hpos : 0 < q := (two_zpow_pos _).trans_le h
  have hvalue := nearest_of_representable hq
  have hhigh := abs_lt_zpow_unitExponent F q
  have hlow := zpow_unitExponent_le_abs (F := F) hpos.ne'
  rw [nearest] at hvalue
  rw [abs_of_pos hpos] at hhigh hlow
  generalize unitExponent F q = E at hvalue hhigh hlow
  generalize nearestEven (q / 2 ^ E) = n at hvalue
  have hmin : F.minExponent < E := by
    have hlt := (zpow_lt_zpow_iff_right₀ one_lt_two).1 (h.trans_lt hhigh)
    omega
  have hplaces (e : ℤ) : (2 : ℚ) ^ e * 2 ^ F.mantissaBits = 2 ^ (e + F.mantissaBits) := by
    rw [zpow_add₀ two_ne_zero, zpow_natCast]
  rcases (hlow hmin).eq_or_lt with hpow | hlt
  -- Below a power of two the next number is at half the distance.
  · have hexp : E + F.mantissaBits - 1 = E - 1 + F.mantissaBits := by ring
    rw [hexp, ← hplaces] at hpow
    refine ⟨2 ^ (E - 1), two_zpow_pos _, ?_, by linarith⟩
    have hrep : Representable F (((2 ^ F.mantissaBits - 1 : ℤ) : ℚ) * 2 ^ (E - 1)) := by
      have hone : (1 : ℤ) ≤ 2 ^ F.mantissaBits := one_le_pow₀ one_le_two
      exact representable_of_abs_le (abs_le.2 ⟨by omega, by omega⟩) (by omega)
    convert hrep using 1
    push_cast
    linarith
  · have hdouble : (2 : ℚ) ^ (E + F.mantissaBits) = 2 * 2 ^ (E + F.mantissaBits - 1) := by
      rw [zpow_sub_one₀ two_ne_zero]
      ring
    refine ⟨2 ^ E, two_zpow_pos E, ?_, by rw [hplaces]; linarith⟩
    have hn : 0 < n := by
      rw [← hvalue] at hpos
      exact_mod_cast pos_of_mul_pos_left hpos (two_zpow_pos E).le
    have hn' : n < 2 ^ F.mantissaBits := by
      rw [← hvalue, ← hplaces, mul_comm] at hhigh
      exact_mod_cast lt_of_mul_lt_mul_left hhigh (two_zpow_pos E).le
    have hrep : Representable F (((n - 1 : ℤ) : ℚ) * 2 ^ E) :=
      representable_of_abs_le (abs_le.2 ⟨by omega, by omega⟩) hmin.le
    convert hrep using 1
    push_cast
    linarith

/-- A number that is a fraction of `q`, but not too great a fraction, is not rounded to `q`. -/
theorem nearest_mul_ne (hq : Representable F q) (h : 2 ^ (F.minExponent + F.mantissaBits) ≤ q)
    (hu : u ≤ 1 - 1 / 2 ^ F.mantissaBits) : nearest F (u * q) ≠ q := by
  intro hnear
  obtain ⟨gap, hgap, hrep, hclose⟩ := exists_representable_sub hq h
  have hpos : 0 < q := (two_zpow_pos _).trans_le h
  have hscale : (0 : ℚ) < 2 ^ F.mantissaBits := by positivity
  have hrest : gap < 2 * (q - u * q) := by
    have hfraction : (1 : ℚ) / 2 ^ F.mantissaBits * q ≤ (1 - u) * q :=
      mul_le_mul_of_nonneg_right (by linarith) hpos.le
    calc gap < 2 * q / 2 ^ F.mantissaBits := (lt_div_iff₀ hscale).2 hclose
      _ = 2 * (1 / 2 ^ F.mantissaBits * q) := by ring
      _ ≤ 2 * (q - u * q) := by linarith
  -- So the number below `q` is nearer.
  have hnearest := abs_sub_nearest_le (u * q) hrep
  rw [hnear, abs_of_neg (by linarith)] at hnearest
  have hnearer : |u * q - (q - gap)| < q - u * q := abs_lt.2 ⟨by linarith, by linarith⟩
  linarith

/-- **Fractions of a rounded difference.** However a difference was rounded, a fraction of it,
rounded again, is not more than the exact difference, unless the fraction is closer to one than the
format has places. -/
theorem nearest_mul_nearest_le (ha : Representable F a) (hb : Representable F b) (hab : a < b)
    (hu : u ≤ 1 - 1 / 2 ^ F.mantissaBits) :
    nearest F (u * nearest F (b - a)) ≤ b - a := by
  have hpos : 0 < b - a := sub_pos.2 hab
  have hone : u ≤ 1 := hu.trans (sub_le_self 1 (by positivity))
  have hwidth := representable_nearest F (b - a)
  have hle : nearest F (u * nearest F (b - a)) ≤ nearest F (b - a) :=
    nearest_le hwidth (mul_le_of_le_one_left (nearest_nonneg hpos.le) hone)
  rcases le_or_gt (nearest F (b - a)) (b - a) with hdown | hup
  · exact hle.trans hdown
  by_contra habove
  -- No number of the format is between the difference and what it was rounded to.
  have hclosest := abs_sub_nearest_le (b - a) (representable_nearest F (u * nearest F (b - a)))
  rw [abs_of_neg (by linarith), abs_of_neg (by linarith)] at hclosest
  refine nearest_mul_ne hwidth ?_ hu (le_antisymm hle (by linarith))
  by_contra hsmall
  have hexact := nearest_of_representable (representable_sub ha hb (by
    rw [abs_of_pos hpos]
    linarith))
  linarith

end Rounding

/-! ## Series that may be cut short -/

/-- However a series of trials ends, the draws that it adds are those of its source, in order. -/
theorem Trials.exists_draws_extend {α σ : Type} [Scalar α] [WordSource σ] (f g : Curve α)
    (w : Window α) (n : Nat) (t : Trials α σ) :
    ∃ ds, (extend f g w n t).1.draws.toList = t.draws.toList ++ ds ∧
      ∀ i d, ds[i]? = some d → Drawn f g w t.source i d := by
  induction n generalizing t with
  | zero => exact ⟨[], (List.append_nil _).symm, nofun⟩
  | succ n ih =>
    simp only [extend]
    split
    case h_1 e herror => exact ⟨[], (List.append_nil _).symm, nofun⟩
    case h_2 inside hok =>
      let d : Draw α := ⟨w.drawnX t.source 0, w.drawnY t.source 0, inside⟩
      let t' : Trials α σ := ⟨WordSource.after 2 t.source, t.draws.push d,
        if inside then t.inside + 1 else t.inside⟩
      obtain ⟨ds, hdraws, hds⟩ := ih t'
      refine ⟨d :: ds, ?_, ?_⟩
      · rw [List.append_cons, ← Array.toList_push]
        exact hdraws
      · intro i d' hd
        cases i with
        | zero =>
          cases hd
          exact ⟨rfl, rfl, classify_eq_ok_iff.1 hok⟩
        | succ i => exact (hds i d' hd).of_after

/-- The draws of an estimate are those of its series, whatever the estimate comes to. -/
theorem Estimate.trials_withDraws {α σ : Type} [Number α] [WordSource σ] (f g : Curve α)
    (w : Window α) (n : Nat) (source : σ) :
    (withDraws f g w n source).trials = ((Trials.start source).extend f g w n).1 := by
  unfold withDraws
  split
  case isTrue hzero =>
    subst hzero
    rfl
  case isFalse hpos => split <;> simp only [*]

/-! ## Draws in binary64 -/

namespace Window

open CurveArea.Rounding
open CurveArea.Binary64 hiding nearest
open Float.Model (Format)

/-- A number is one of those that words stand for: so many parts of one, of `2 ^ 53` parts. -/
def Fraction (u : Float) : Prop := ∃ k : ℕ, k < 2 ^ 53 ∧ At u (k / 2 ^ 53)

/-- A point is in the rectangle, its sides included. -/
def Holds (w : Window Float) (x y : Float) : Prop :=
  (w.xMin ≤ x ∧ x ≤ w.xMax) ∧ w.yMin ≤ y ∧ y ≤ w.yMax

/-- A word stands for a multiple of `2 ^ (-53)` below one. -/
theorem fraction_unitOfWord (word : UInt64) : Fraction (unitOfWord word) := by
  have hword : (word >>> 11).toNat < 2 ^ 53 := by
    have hlt := word.toNat_lt
    have hshift : (word >>> 11).toNat = word.toNat / 2 ^ 11 := by
      rw [UInt64.toNat_shiftRight, Nat.shiftRight_eq_div_pow]
      rfl
    omega
  obtain ⟨hnum, hnumfin⟩ := at_natCast hword.le
  obtain ⟨hden, hdenfin⟩ := at_natCast (n := Nat.pow 2 53) le_rfl
  have hcast : ((Nat.pow 2 53 : ℕ) : ℚ) = 2 ^ 53 := Nat.cast_pow 2 53
  have hrep : Representable .binary64 ((word >>> 11).toNat / 2 ^ 53) := by
    have hmul := representable_mul_zpow hword.le (e := -53) (by decide)
    rwa [zpow_neg, ← div_eq_mul_inv] at hmul
  have hone : ((word >>> 11).toNat : ℚ) / 2 ^ 53 ≤ 1 :=
    div_le_one_of_le₀ (by exact_mod_cast hword.le) (by positivity)
  have hsmall : |((word >>> 11).toNat : ℚ) / 2 ^ 53| < limit .binary64 := by
    rw [abs_of_nonneg (by positivity)]
    exact hone.trans_lt one_lt_limit
  have hdiv := at_div hnumfin hdenfin (by rw [hden.place_eq, hcast]; positivity)
  rw [hnum.place_eq, hden.place_eq, hcast, fit_of_representable hrep hsmall] at hdiv
  exact ⟨_, hword, hdiv⟩

section
variable {lo hi u : Float}

/-- Such a number is a portion of one, and below one by that unit at least. -/
theorem Fraction.bounds (hu : Fraction u) :
    Portion u 1 ∧ place u ≤ 1 - 1 / 2 ^ 53 := by
  obtain ⟨k, hk, hu⟩ := hu
  have hcast : (k : ℚ) + 1 ≤ 2 ^ 53 := by exact_mod_cast hk
  have hnonneg : (0 : ℚ) ≤ k / 2 ^ 53 := by positivity
  have hle : (k : ℚ) / 2 ^ 53 ≤ 1 - 1 / 2 ^ 53 := by
    rw [div_le_iff₀ (by positivity), sub_mul, div_mul_cancel₀ _ (by positivity)]
    linarith
  have hone : (k : ℚ) / 2 ^ 53 ≤ 1 := hle.trans (sub_le_self 1 (by positivity))
  rw [← hu.place_eq] at hnonneg hle hone
  have hfin : u.isFinite = true := isFinite_iff.2 ⟨hu.defined, by
    rw [abs_of_nonneg hnonneg]
    exact hone.trans_lt one_lt_limit⟩
  exact ⟨⟨hfin, hnonneg, hone.trans_eq place_one.symm⟩, hle⟩

/-- A number at a fraction of the way between two bounds is between them. -/
theorem between_bounds (hlt : lo < hi) (hfin : (hi - lo).isFinite = true) (hu : Fraction u) :
    lo ≤ u * (hi - lo) + lo ∧ u * (hi - lo) + lo ≤ hi := by
  obtain ⟨hhi, hlo⟩ := isFinite_of_sub hfin
  obtain ⟨hportion, hfraction⟩ := hu.bounds
  have hway := hportion.mul hfin (place_sub_pos hlt hfin).le
  have hle : place (u * (hi - lo)) ≤ place hi - place lo := by
    rw [(at_mul hportion.isFinite hfin).place_eq_nearest hway.isFinite, place_sub hfin]
    exact nearest_mul_nearest_le (representable_place hlo) (representable_place hhi)
      (lt_iff.1 hlt).2.2 hfraction
  have hnonneg := hway.nonneg
  have hsum := at_add hway.isFinite hlo
  refine ⟨le_iff.2 ⟨defined_of_isFinite hlo, hsum.defined, ?_⟩,
    le_iff.2 ⟨hsum.defined, defined_of_isFinite hhi, ?_⟩⟩
  · rw [hsum.place_eq]
    exact (fit_place hlo).symm.trans_le (fit_mono (by linarith))
  · rw [hsum.place_eq]
    exact (fit_mono (by linarith)).trans_eq (fit_place hhi)

end

/-- A point at a fraction of the width and at one of the height is in the rectangle. -/
theorem holds_of_fraction (w : Window Float) {u v : Float} (hu : Fraction u) (hv : Fraction v) :
    w.Holds (u * w.width + w.xMin) (v * w.height + w.yMin) :=
  ⟨between_bounds w.x_lt w.width_isFinite hu, between_bounds w.y_lt w.height_isFinite hv⟩

/-- **Draws are in the window.** A point at a fraction of the width and at one of the height of a
window is in it, as are all the points that a source gives. So are those that are drawn for an
estimate, whether or not it is complete. -/
theorem holds_drawn (w : Window Float) :
    (∀ u v, Fraction u → Fraction v →
      w.Holds (u * w.width + w.xMin) (v * w.height + w.yMin)) ∧
    ∀ {σ : Type} [WordSource σ] (source : σ),
      (∀ i, w.Holds (w.drawnX source i) (w.drawnY source i)) ∧
      ∀ f g n, ∀ d ∈ (Estimate.withDraws f g w n source).trials.draws.toList, w.Holds d.x d.y := by
  refine ⟨fun u v hu hv => w.holds_of_fraction hu hv, fun {σ} _ source => ?_⟩
  have hdrawn (i : ℕ) : w.Holds (w.drawnX source i) (w.drawnY source i) :=
    w.holds_of_fraction (fraction_unitOfWord _) (fraction_unitOfWord _)
  refine ⟨hdrawn, fun f g n d hd => ?_⟩
  obtain ⟨ds, hdraws, hds⟩ := Trials.exists_draws_extend f g w n (Trials.start source)
  have hstart : (Trials.start source : Trials Float σ).draws.toList = [] := rfl
  rw [hstart, List.nil_append] at hdraws
  rw [Estimate.trials_withDraws, hdraws] at hd
  obtain ⟨i, hi⟩ := List.mem_iff_getElem?.1 hd
  rw [(hds i d hi).x_eq, (hds i d hi).y_eq]
  exact hdrawn i

/-- The bounds `-1` and `3 * 2 ^ -54`, and `1` and `1 + 2 ^ -52`, are in order, and the area between
them is finite. -/
theorem roundedUp_bounds :
    Float.ofBits 0xBFF0000000000000 < Float.ofBits 0x3CA8000000000000 ∧
    Float.ofBits 0x3FF0000000000000 < Float.ofBits 0x3FF0000000000001 ∧
    Scalar.isFinite ((Float.ofBits 0x3CA8000000000000 - Float.ofBits 0xBFF0000000000000) *
      (Float.ofBits 0x3FF0000000000001 - Float.ofBits 0x3FF0000000000000)) = true := by
  decide +kernel

/-- A window whose width is rounded up, between numbers that are the last place of one apart. -/
def roundedUp : Window Float where
  xMin := Float.ofBits 0xBFF0000000000000
  xMax := Float.ofBits 0x3CA8000000000000
  yMin := Float.ofBits 0x3FF0000000000000
  yMax := Float.ofBits 0x3FF0000000000001
  x_lt := roundedUp_bounds.1
  y_lt := roundedUp_bounds.2.1
  area_finite := roundedUp_bounds.2.2

/-- In this window the left bound and the width come to more than the right bound. The point at the
greatest fractions is in it, at the upper bound. -/
theorem holds_drawn_roundedUp :
    let w := roundedUp
    let u : Float := unitOfWord (2 ^ 64 - 1)
    w.xMax < w.width + w.xMin ∧ w.Holds (u * w.width + w.xMin) (u * w.height + w.yMin) ∧
      u * w.height + w.yMin = w.yMax := by
  intro w u
  have hu : Fraction u := fraction_unitOfWord _
  exact ⟨by decide +kernel, (holds_drawn w).1 u u hu hu, by decide +kernel⟩

end Window

end CurveArea
