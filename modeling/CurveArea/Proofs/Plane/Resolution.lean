import CurveArea.Proofs.Float.Bits
import CurveArea.Proofs.Plane.Exact
import CurveArea.Proofs.Plane.Traces

/-!
# Pixels of subnormal height

What a trace without a gap is meant to tell is that no two visible neighbours of its last pass are
further apart than two pixels (`Window.KeepsToPixels`). But the height of a pixel is held at the
smallest normal number, so in a window that is not high two neighbours can be many pixels apart
without leaving a gap. For which ordinates this can happen is told by `Window.keepsToPixels_iff`.

It does happen in a window so far to the right that there are only two abscissas in it, the columns
(`Window.toColumns`). A formula can have any two values there (`Program.atColumns`), and no pass
leaves a gap unless the two values do.
-/

namespace CurveArea

open CurveArea.Rounding CurveArea.Binary64
open Float.Model (Format)

/-! ## Two columns -/

/-- The abscissa of the left column, above which numbers are as far apart as integers. -/
def leftColumn : Float := Scalar.ofNat 4503599627370496

/-- The abscissa of the right column. -/
def rightColumn : Float := Scalar.ofNat 4503599627370497

/-- The right bound of the columns. -/
def columnBound : Float := Scalar.ofNat 4503599627370498

/-- The left column is at a power of two. -/
theorem at_leftColumn : At leftColumn (2 ^ 52) ∧ leftColumn.isFinite = true := by
  have h := at_natCast (n := 4503599627370496) (by norm_num)
  norm_num at h ⊢
  exact h

/-- The right column is at the next integer, which is the next number. -/
theorem at_rightColumn : At rightColumn (2 ^ 52 + 1) ∧ rightColumn.isFinite = true := by
  have h := at_natCast (n := 4503599627370497) (by norm_num)
  norm_num at h ⊢
  exact h

/-- The right bound is at the integer after that. -/
theorem at_columnBound : At columnBound (2 ^ 52 + 2) ∧ columnBound.isFinite = true := by
  have h := at_natCast (n := 4503599627370498) (by norm_num)
  norm_num at h ⊢
  exact h

/-- A formula with given values in both columns. -/
def Program.atColumns (a b : Float) : Program Float where
  code := [.push a, .push rightColumn, .load, .apply .minus, .apply .times,
    .push b, .load, .push leftColumn, .apply .minus, .apply .times, .apply .plus]
  unclosed := 0

/-- What the formula is worth: in each column one of the products is zero. -/
theorem evaluate_atColumns (a b x : Float) : (Program.atColumns a b).evaluate x =
    .ok (a * (rightColumn - x) + b * (x - leftColumn)) := rfl

/-- The distances of the columns and of their bound. -/
theorem sub_columns : rightColumn - leftColumn = Scalar.ofNat 1 ∧
    leftColumn - leftColumn = Scalar.ofNat 0 ∧ rightColumn - rightColumn = Scalar.ofNat 0 ∧
    columnBound - leftColumn = Scalar.ofNat 2 := by
  decide +kernel

section
variable {a b : Float}

/-- The values of the formula are the given ones. -/
theorem at_atColumns (ha : a.isFinite = true) (hb : b.isFinite = true) :
    At (a * (rightColumn - leftColumn) + b * (leftColumn - leftColumn)) (place a) ∧
      At (a * (rightColumn - rightColumn) + b * (rightColumn - leftColumn)) (place b) := by
  obtain ⟨hdist, hsame, hsame', -⟩ := sub_columns
  have hone : At (Scalar.ofNat 1) 1 := at_one
  have hzero : At (Scalar.ofNat 0) 0 := (at_natCast (n := 0) (by decide)).1
  rw [hdist, hsame, hsame']
  have ha₁ := at_mul_of_one ha hone
  have hb₀ := at_mul_of_zero hb hzero
  have ha₀ := at_mul_of_zero ha hzero
  have hb₁ := at_mul_of_one hb hone
  have hleft := at_add (ha₁.isFinite_of_place ha) hb₀.isFinite_of_zero
  have hright := at_add ha₀.isFinite_of_zero (hb₁.isFinite_of_place hb)
  rw [ha₁.place_eq, hb₀.place_eq, add_zero, fit_place ha] at hleft
  rw [ha₀.place_eq, hb₁.place_eq, zero_add, fit_place hb] at hright
  exact ⟨hleft, hright⟩

end

namespace Window

/-- The area of the window stays finite when the window becomes as wide as both columns. -/
def FitsColumns (w : Window Float) : Prop :=
  Scalar.isFinite ((columnBound - leftColumn) * w.height) = true

/-- The window with the same ordinates and with room for the columns only. -/
def toColumns (w : Window Float) (h : w.FitsColumns) : Window Float :=
  { w with xMin := leftColumn, xMax := columnBound, x_lt := by decide +kernel, area_finite := h }

section
variable {w : Window Float}

/-- Only the columns are between the bounds of that window. -/
theorem eq_column_of_lt {x : Float} (hge : leftColumn ≤ x) (hlt : x < columnBound) :
    x = leftColumn ∨ x = rightColumn := by
  obtain ⟨hleft, hleftfin⟩ := at_leftColumn
  obtain ⟨hbound, hboundfin⟩ := at_columnBound
  obtain ⟨hdefined, -, hhigh⟩ := lt_iff.1 hlt
  obtain ⟨-, -, hlow⟩ := le_iff.1 hge
  have hfin : x.isFinite = true := isFinite_of_between hleftfin hboundfin hge
    (le_iff.2 ⟨hdefined, hbound.defined, hhigh.le⟩)
  rw [hbound.place_eq] at hhigh
  rw [hleft.place_eq] at hlow
  obtain ⟨k, hk⟩ := (representable_place hfin).exists_int_of_le hlow
  rw [hk] at hlow hhigh
  have hlow' : 2 ^ 52 ≤ k := by exact_mod_cast hlow
  have hhigh' : k < 2 ^ 52 + 2 := by exact_mod_cast hhigh
  rcases (by omega : k = 2 ^ 52 ∨ k = 2 ^ 52 + 1) with rfl | rfl
  · exact .inl (At.unique ⟨hdefined, hk.trans (by norm_num)⟩ hleft (by norm_num))
  · exact .inr (At.unique ⟨hdefined, hk.trans (by norm_num)⟩ at_rightColumn.1 (by norm_num))

/-- The step of the first pass in that window. -/
def columnStep : Float := (columnBound - leftColumn) / Scalar.ofNat subdivisions

/-- The pass goes over to the right column after its abscissa number 124, and it has no more than
500 abscissas. -/
theorem abscissa_columns :
    leftColumn + (Scalar.ofNat 124 + Scalar.half) * columnStep = leftColumn ∧
      leftColumn + (Scalar.ofNat 125 + Scalar.half) * columnStep = rightColumn ∧
      ¬ leftColumn + (Scalar.ofNat 500 + Scalar.half) * columnStep < columnBound := by
  decide +kernel

/-- The first step in such a window does not depend on its ordinates. -/
theorem stepOf_toColumns (h : w.FitsColumns) : (w.toColumns h).stepOf 0 = columnStep := rfl

/-- Nor do the abscissas. -/
theorem abscissa_toColumns (h : w.FitsColumns) (s : Float) (i : Nat) :
    (w.toColumns h).abscissa s i = leftColumn + (Scalar.ofNat i + Scalar.half) * s := rfl

/-- Such a window is not too narrow for a step. -/
theorem not_narrow_toColumns (h : w.FitsColumns) : ¬ (w.toColumns h).width ≤ narrow := by
  have hwidth : ¬ columnBound - leftColumn ≤ narrow := by decide +kernel
  exact hwidth

variable {a b : Float} {ps : List (Point Float)} {p : Point Float} {hfits : w.FitsColumns}

/-- The samples of the first pass are enough to come to the right column, and no more than 500. -/
theorem length_samples_toColumns {f : Curve Float}
    (h : Samples f (w.toColumns hfits) columnStep 0 ps) : 125 < ps.length ∧ ps.length ≤ 500 := by
  obtain ⟨hstep, hnonneg⟩ := stepOf_isFinite (w.toColumns hfits) 0
  obtain ⟨-, hright, hend⟩ := abscissa_columns
  have hle := h.length_le (Nat.zero_le 500) (by rwa [abscissa_toColumns])
  have hnot := h.not_abscissa_lt
  rw [Nat.zero_add] at hle hnot
  refine ⟨?_, hle⟩
  by_contra hshort
  have hmono : (w.toColumns hfits).abscissa columnStep ps.length ≤ rightColumn := by
    rw [← hright, ← abscissa_toColumns hfits]
    exact abscissa_mono hstep hnonneg (not_lt.1 hshort) (by decide)
  obtain ⟨hdefined, -, hplaces⟩ := le_iff.1 hmono
  have hbound : At (w.toColumns hfits).xMax (2 ^ 52 + 2) := at_columnBound.1
  refine hnot (lt_iff.2 ⟨hdefined, hbound.defined, hplaces.trans_lt ?_⟩)
  rw [at_rightColumn.1.place_eq, hbound.place_eq]
  norm_num

/-- A sample of the formula has one of the given values, that of its column. -/
theorem at_sample_columns (ha : a.isFinite = true) (hb : b.isFinite = true)
    (hp : (Program.atColumns a b).evaluate p.x = .ok p.y) :
    (p.x = leftColumn → At p.y (place a)) ∧ (p.x = rightColumn → At p.y (place b)) := by
  rw [evaluate_atColumns] at hp
  have hy := (Except.ok.inj hp).symm
  obtain ⟨hleft, hright⟩ := at_atColumns ha hb
  constructor
  · intro hx
    rw [hy, hx]
    exact hleft
  · intro hx
    rw [hy, hx]
    exact hright

/-- All samples of the first pass have one of the given values, and two neighbours have both. -/
theorem samples_toColumns (ha : a.isFinite = true) (hb : b.isFinite = true)
    (h : Samples (Program.atColumns a b).evaluate (w.toColumns hfits) columnStep 0 ps) :
    (∀ p ∈ ps, At p.y (place a) ∨ At p.y (place b)) ∧
      ∃ s t, [s, t] <:+: ps ∧ At s.y (place a) ∧ At t.y (place b) := by
  obtain ⟨hstep, hnonneg⟩ := stepOf_isFinite (w.toColumns hfits) 0
  obtain ⟨hleft, hright, -⟩ := abscissa_columns
  obtain ⟨hlonger, hlength⟩ := length_samples_toColumns h
  have hsample (i : Nat) (hi : i < ps.length) :
      ps[i].x = leftColumn + (Scalar.ofNat i + Scalar.half) * columnStep ∧
        (w.toColumns hfits).xMin ≤ ps[i].x ∧ ps[i].x < (w.toColumns hfits).xMax ∧
          (Program.atColumns a b).evaluate ps[i].x = .ok ps[i].y := by
    obtain ⟨hx, hlt, hy⟩ := h.visits i ps[i] (List.getElem?_eq_getElem hi)
    rw [Nat.zero_add] at hx
    refine ⟨hx, ?_, hlt, hy⟩
    rw [hx]
    exact xMin_le_abscissa hstep hnonneg (by omega)
  constructor
  · intro p hp
    obtain ⟨i, hi, rfl⟩ := List.getElem_of_mem hp
    obtain ⟨-, hge, hlt, hy⟩ := hsample i hi
    obtain ⟨hfirst, hsecond⟩ := at_sample_columns ha hb hy
    exact (eq_column_of_lt hge hlt).imp hfirst hsecond
  · refine ⟨ps[124], ps[125], pair_infix_iff.2 ⟨124, List.getElem?_eq_getElem _,
      List.getElem?_eq_getElem _⟩, ?_, ?_⟩
    · obtain ⟨hx, -, -, hy⟩ := hsample 124 (by omega)
      exact (at_sample_columns ha hb hy).1 (hx.trans hleft)
    · obtain ⟨hx, -, -, hy⟩ := hsample 125 (by omega)
      exact (at_sample_columns ha hb hy).2 (hx.trans hright)

/-! ## Gaps that are left or not -/

/-- The height of a pixel before it is held: a part of the height of the window. -/
def part (w : Window Float) : Float := w.height / Scalar.ofNat subdivisions

/-- What a trace without a gap is meant to tell: no two visible neighbours of its last pass are
further apart than two pixels. -/
def KeepsToPixels (w : Window Float) : Prop :=
  ∀ (p : Program Float) (bound : Option Nat) (r : Report Float) (ps : List (Point Float)),
    (Trace.ofCurve p.evaluate w bound).outcome = .ok r → r.gap = false →
    Samples p.evaluate w r.finalStep 0 ps → ∀ s t, [s, t] <:+: ps →
      w.shows s.y = true → w.shows t.y = true →
      ¬ Scalar.ofNat 2 * w.part < Scalar.abs (t.y - s.y)

/-- Values that are one of two are not further apart than these, so they leave no gap unless these
do. -/
theorem not_gapped_of_at (ha : a.isFinite = true) (hb : b.isFinite = true)
    (hclose : ¬ w.gapHeight < Scalar.abs (b - a))
    (hps : ∀ p ∈ ps, At p.y (place a) ∨ At p.y (place b)) : ¬ Gapped w ps := by
  rintro ⟨s, t, hst, -, -, hfar⟩
  have hfin (p : Point Float) (hp : p ∈ ps) : p.y.isFinite = true :=
    (hps p hp).elim (fun h => h.isFinite_of_place ha) fun h => h.isFinite_of_place hb
  have hs : s ∈ ps := hst.subset (by simp)
  have ht : t ∈ ps := hst.subset (by simp)
  obtain ⟨hdefined, hfar⟩ := (lt_abs_sub_iff (hfin s hs) (hfin t ht)).1 hfar
  have hle : |fit Format.binary64 (place b - place a)| ≤ place w.gapHeight :=
    not_lt.1 fun hlt => hclose ((lt_abs_sub_iff ha hb).2 ⟨hdefined, hlt⟩)
  have hnonneg := (abs_nonneg _).trans hle
  -- Equal values are at no distance, and the two orders of different ones have the same distance.
  rcases hps s hs with hsy | hsy <;> rcases hps t ht with hty | hty <;>
    rw [hsy.place_eq, hty.place_eq] at hfar
  · rw [sub_self, fit_zero, abs_zero] at hfar
    exact absurd hfar (not_lt.2 hnonneg)
  · exact absurd hfar (not_lt.2 hle)
  · rw [← neg_sub, fit_neg, abs_neg] at hfar
    exact absurd hfar (not_lt.2 hle)
  · rw [sub_self, fit_zero, abs_zero] at hfar
    exact absurd hfar (not_lt.2 hnonneg)

/-- **A trace of two columns.** It makes one pass, without a gap, if the two values are not further
apart than what leaves one. -/
theorem exists_report_columns (hfits : w.FitsColumns) (ha : a.isFinite = true)
    (hb : b.isFinite = true) (hclose : ¬ w.gapHeight < Scalar.abs (b - a)) :
    ∃ r ps s t, (Trace.ofCurve (Program.atColumns a b).evaluate (w.toColumns hfits)
        (some 1)).outcome = .ok r ∧ r.gap = false ∧
      Samples (Program.atColumns a b).evaluate (w.toColumns hfits) r.finalStep 0 ps ∧
      [s, t] <:+: ps ∧ At s.y (place a) ∧ At t.y (place b) := by
  obtain ⟨r, hr⟩ := exists_report (f := (Program.atColumns a b).evaluate) (total_evaluate rfl)
    (not_narrow_toColumns hfits) (by decide : 1 ≤ 50)
  obtain ⟨samples, htraced⟩ := Trace.traced_of_ofCurve hr
  -- The bound allows one pass, so the samples of the last pass are those of the first.
  have hone : r.passes = 1 := le_antisymm (htraced.passes_le 1 rfl) htraced.passes_pos
  have hlength : 0 < samples.length := by
    rw [← htraced.passes_eq, hone]
    exact Nat.one_pos
  have hfirst : samples[r.passes - 1]? = some samples[0] := by
    rw [hone]
    exact List.getElem?_eq_getElem hlength
  have hsamples := htraced.samples_of_pass _ _ hfirst
  rw [← htraced.finalStep_eq] at hsamples
  have hstep : r.finalStep = columnStep := by
    rw [htraced.finalStep_eq, hone, Nat.sub_self, stepOf_toColumns]
  obtain ⟨hvalues, s, t, hst, hs, ht⟩ := samples_toColumns ha hb (hstep ▸ hsamples)
  refine ⟨r, samples[0], s, t, hr, ?_, hsamples, hst, hs, ht⟩
  by_contra hgap
  obtain ⟨ps, hps, hgapped⟩ := htraced.gap_iff.1 (Bool.not_eq_false _ ▸ hgap)
  cases hfirst.symm.trans hps
  exact not_gapped_of_at ha hb hclose hvalues hgapped

/-! ## Which ordinates are told apart -/

/-- A value at the place of a visible one is visible. -/
theorem shows_of_at {y : Float} (ha : w.shows a = true) (hy : At y (place a)) :
    w.shows y = true := by
  obtain ⟨hlow, hhigh⟩ := (w.shows_iff a).1 ha
  obtain ⟨hmin, -, hle⟩ := le_iff.1 hlow
  obtain ⟨-, hmax, hle'⟩ := le_iff.1 hhigh
  exact (w.shows_iff y).2 ⟨le_iff.2 ⟨hmin, hy.defined, hle.trans_eq hy.place_eq.symm⟩,
    le_iff.2 ⟨hy.defined, hmax, hy.place_eq.trans_le hle'⟩⟩

/-- A visible ordinate is finite. -/
theorem isFinite_of_shows (ha : w.shows a = true) : a.isFinite = true := by
  obtain ⟨hlow, hhigh⟩ := (w.shows_iff a).1 ha
  obtain ⟨hmax, hmin⟩ := isFinite_of_sub (height_isFinite w)
  exact isFinite_of_between hmin hmax hlow hhigh

/-- The height of a pixel before it is held is a five-hundredth part of the height, rounded. -/
theorem part_height (w : Window Float) : Part w.height w.part 500 :=
  part_of_div (height_isFinite w) (height_pos w).le (by decide) (by decide)

/-- A pixel is as high as its part of the window unless that is subnormal. -/
theorem pixelHeight_eq_iff (w : Window Float) :
    w.pixelHeight = w.part ↔ Scalar.smallestNormal ≤ w.part := by
  have hdefined := defined_of_isFinite (part_height w).isFinite
  have hpixel : w.pixelHeight =
      if w.part < Scalar.smallestNormal then Scalar.smallestNormal else w.part := rfl
  rw [hpixel]
  split
  case isTrue hlt =>
    have hnot : ¬ Scalar.smallestNormal ≤ w.part := fun hle =>
      absurd (lt_iff.1 hlt).2.2 (not_lt.2 (le_iff.1 hle).2.2)
    refine iff_of_false (fun heq => ?_) hnot
    rw [← heq] at hlt
    exact lt_irrefl _ (lt_iff.1 hlt).2.2
  case isFalse hge =>
    refine iff_of_true rfl (le_iff.2 ⟨at_smallestNormal.defined, hdefined, not_lt.1 fun hlt => ?_⟩)
    exact hge (lt_iff.2 ⟨hdefined, at_smallestNormal.defined, hlt⟩)

/-- A window whose part is subnormal is not high, so it can be as wide as the columns. -/
theorem fitsColumns_of_part (h : ¬ Scalar.smallestNormal ≤ w.part) : w.FitsColumns := by
  have hlow : place w.height < 500 := by
    by_contra hhigh
    have hone : (2 : ℚ) ^ (-1022 : ℤ) ≤ place w.height / 500 :=
      (zpow_le_one_of_nonpos₀ one_le_two (by decide)).trans
        ((one_le_div (by norm_num)).2 (not_lt.1 hhigh))
    have hpart := part_height w
    have hle := le_nearest (F := .binary64) (representable_zpow (by decide)) hone
    rw [← Nat.cast_ofNat (R := ℚ) (n := 500), ← hpart.place_eq] at hle
    exact h (le_iff.2 ⟨at_smallestNormal.defined, defined_of_isFinite hpart.isFinite,
      at_smallestNormal.place_eq.trans_le hle⟩)
  obtain ⟨htwo, htwofin⟩ := at_natCast (n := 2) (by decide)
  have hpos := height_pos w
  have harea := at_mul htwofin (height_isFinite w)
  rw [htwo.place_eq] at harea
  rw [FitsColumns, sub_columns.2.2.2]
  exact (bounds_of_at harea ⟨representable_zero _, abs_zero.trans_lt (limit_pos _)⟩
    ⟨representable_natCast (n := 1000) (by decide), natCast_lt_limit (by decide)⟩
    (by positivity) (by push_cast; linarith)).1

/-- If all visible ordinates further apart than two pixels leave a gap, then a trace without a gap
keeps to the pixels. -/
theorem keepsToPixels_of_gapHeight_lt
    (h : ∀ a b, w.shows a = true → w.shows b = true →
      Scalar.ofNat 2 * w.part < Scalar.abs (b - a) → w.gapHeight < Scalar.abs (b - a)) :
    w.KeepsToPixels := by
  intro p bound r ps hr hgap hps s t hst hs ht hfar
  obtain ⟨samples, htraced⟩ := Trace.traced_of_ofCurve hr
  have hlast : r.passes - 1 < samples.length := by
    have hpos := htraced.passes_pos
    have heq := htraced.passes_eq
    omega
  have hqs := htraced.samples_of_pass _ _ (List.getElem?_eq_getElem hlast)
  rw [← htraced.finalStep_eq] at hqs
  have hgapped : Gapped w samples[r.passes - 1] := by
    rw [← hps.unique hqs]
    exact ⟨s, t, hst, (w.shows_iff _).1 hs, (w.shows_iff _).1 ht, h s.y t.y hs ht hfar⟩
  have hleft : r.gap = true := htraced.gap_iff.2 ⟨_, List.getElem?_eq_getElem hlast, hgapped⟩
  rw [hgap] at hleft
  cases hleft

/-- Two visible ordinates that are further apart than two pixels, but leave no gap, are those of
neighbours in a trace without a gap. -/
theorem exists_neighbours_columns (hfits : w.FitsColumns) (ha : w.shows a = true)
    (hb : w.shows b = true)
    (hfar : Scalar.ofNat 2 * w.part < Scalar.abs (b - a))
    (hclose : ¬ w.gapHeight < Scalar.abs (b - a)) :
    ∃ r ps s t, (Trace.ofCurve (Program.atColumns a b).evaluate (w.toColumns hfits)
        (some 1)).outcome = .ok r ∧ r.gap = false ∧
      Samples (Program.atColumns a b).evaluate (w.toColumns hfits) r.finalStep 0 ps ∧
      [s, t] <:+: ps ∧ w.shows s.y = true ∧ w.shows t.y = true ∧
      Scalar.ofNat 2 * w.part < Scalar.abs (t.y - s.y) := by
  have hafin := isFinite_of_shows ha
  have hbfin := isFinite_of_shows hb
  obtain ⟨r, ps, s, t, hr, hgap, hps, hst, hs, ht⟩ := exists_report_columns hfits hafin hbfin hclose
  have hsy := shows_of_at ha hs
  have hty := shows_of_at hb ht
  refine ⟨r, ps, s, t, hr, hgap, hps, hst, hsy, hty, ?_⟩
  rw [lt_abs_sub_iff hafin hbfin] at hfar
  rw [lt_abs_sub_iff (isFinite_of_shows hsy) (isFinite_of_shows hty), hs.place_eq, ht.place_eq]
  exact hfar

/-- **Pixels that are kept to.** A pixel has its part of the height of the window unless this part
is below the smallest normal number, and when it is not, then every trace without a gap keeps to the
pixels. For some ordinates, every such trace in every window of these ordinates does exactly when
any two of them that are further apart than two pixels are so far apart that they leave a gap. -/
theorem keepsToPixels_iff (w : Window Float) :
    (w.pixelHeight = w.height / Scalar.ofNat 500 ↔
      Scalar.smallestNormal ≤ w.height / Scalar.ofNat 500) ∧
    (Scalar.smallestNormal ≤ w.height / Scalar.ofNat 500 → w.KeepsToPixels) ∧
    ((∀ v : Window Float, v.yMin = w.yMin → v.yMax = w.yMax → v.KeepsToPixels) ↔
      ∀ a b, w.shows a = true → w.shows b = true →
        Scalar.ofNat 2 * (w.height / Scalar.ofNat 500) < Scalar.abs (b - a) →
          w.gapHeight < Scalar.abs (b - a)) := by
  have hpixel := pixelHeight_eq_iff w
  refine ⟨hpixel, fun hnormal => ?_, fun hkeeps a b ha hb hfar => ?_, fun h v hmin hmax => ?_⟩
  · refine keepsToPixels_of_gapHeight_lt fun a b _ _ hfar => ?_
    rwa [gapHeight, hpixel.2 hnormal]
  · by_contra hclose
    have hnormal : ¬ Scalar.smallestNormal ≤ w.part := fun hnormal => by
      rw [gapHeight, hpixel.2 hnormal] at hclose
      exact hclose hfar
    obtain ⟨r, ps, s, t, hr, hgap, hps, hst, hs, ht, hapart⟩ :=
      exists_neighbours_columns (fitsColumns_of_part hnormal) ha hb hfar hclose
    exact hkeeps (w.toColumns (fitsColumns_of_part hnormal)) rfl rfl _ _ r ps hr hgap hps s t hst
      hs ht hapart
  · have hheight : v.height = w.height := by rw [height, height, hmin, hmax]
    have hgap : v.gapHeight = w.gapHeight := by simp only [gapHeight, pixelHeight, hheight]
    refine keepsToPixels_of_gapHeight_lt fun a b ha hb hfar => ?_
    rw [shows, hmin, hmax] at ha hb
    rw [part, hheight] at hfar
    rw [hgap]
    exact h a b ha hb hfar

/-- The columns in a window that is as high as 1012 least numbers. -/
def shallow : Window Float where
  xMin := leftColumn
  xMax := columnBound
  yMin := Scalar.ofNat 0
  yMax := 5e-321
  x_lt := by decide +kernel
  y_lt := by decide +kernel
  area_finite := by decide +kernel

/-- A formula that goes from the bottom of this window to its top between two neighbours. Its trace
reports no gap, though two pixels are no more than four least numbers high. -/
theorem not_keepsToPixels_shallow :
    (Scalar.ofNat 0 : Float) < shallow.height / Scalar.ofNat 500 ∧
    ∃ p, Program.compile "0 * ( 4503599627370497 - x ) + 5e-321 * ( x - 4503599627370496 )" =
        .ok p ∧
      ∃ r ps s t, (Trace.ofCurve p.evaluate shallow (some 1)).outcome = .ok r ∧ r.gap = false ∧
        Samples p.evaluate shallow r.finalStep 0 ps ∧ [s, t] <:+: ps ∧
        shallow.shows s.y = true ∧ shallow.shows t.y = true ∧
        Scalar.ofNat 2 * (shallow.height / Scalar.ofNat 500) < Scalar.abs (t.y - s.y) := by
  refine ⟨by decide +kernel, Program.atColumns (Scalar.ofNat 0) 5e-321, by rfl, ?_⟩
  have hfar : Scalar.ofNat 2 * shallow.part < Scalar.abs (5e-321 - Scalar.ofNat 0) := by
    decide +kernel
  have hclose : ¬ shallow.gapHeight < Scalar.abs (5e-321 - Scalar.ofNat 0) := by decide +kernel
  exact exists_neighbours_columns shallow.area_finite (by decide +kernel)
    (by decide +kernel) hfar hclose

end

end Window

end CurveArea
