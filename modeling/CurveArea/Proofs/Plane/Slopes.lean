import CurveArea.Proofs.Plane.Bounds
import CurveArea.Proofs.Plane.Work

/-!
# Curves of bounded slope

In exact arithmetic a curve with a slope of at most `L` leaves no gap in a pass at whose step it
rises by no more than the heights of two pixels. So a trace of such a curve ends without a gap, with
the first pass of this kind or before it, unless it is kept from making so many passes
(`Exact.gapless_of_slope`). A line of this slope leaves a gap in every pass before that one, if two
neighbours of it are visible there, and takes exactly so many passes.
-/

namespace CurveArea

/-! ## A pass without a gap -/

section
variable {α : Type} [Scalar α] {f : Curve α} {w : Window α} {bound : Option ℕ} {K limit : ℕ}

/-- A bounded trace that ends with a gap, though its steps are above the floor, has made all passes
that it may. -/
theorem Traced.passes_eq_of_gap {samples : List (List (Point α))} {points : List (Point α)}
    {r : Report α} (h : Traced f w (some (K + 1)) samples points r) (hgap : r.gap = true)
    (hfloor : ∀ j ≤ K, Trace.stepFloor < w.stepOf j) : r.passes = K + 1 := by
  have hpasses := h.passes_le (K + 1) rfl
  rcases h.gives_up hgap with ⟨b, hb, hmet⟩ | hstop
  · cases hb
    omega
  · by_contra hless
    obtain ⟨n, hn⟩ := Nat.exists_eq_add_of_le' h.passes_pos
    rw [h.finalStep_eq, hn, Nat.add_sub_cancel] at hstop
    exact hstop (hfloor (n + 1) (by omega))

/-- **A pass without a gap.** A trace ends without a gap if one of its passes leaves none when it
comes to be made; it ends with this pass or before it. -/
theorem Trace.exists_report_of_gapless (hf : Total f) (hreach : ∀ j ≤ K, w.Reaches limit j)
    (hgapless : K < (within limit f w bound).passes.size →
      ∀ ps, Samples f w (w.stepOf K) 0 ps → ¬ Gapped w ps)
    (hfloor : ∀ j ≤ K, stepFloor < w.stepOf j) (hbound : ∀ b, bound = some b → K + 1 ≤ b)
    (hlimit : K < limit) : ∃ r, (within limit f w bound).outcome = .ok r ∧ r.gap = false ∧
      r.passes ≤ K + 1 := by
  have hone : max 1 (K + 1) = K + 1 := Nat.max_eq_right (Nat.le_add_left 1 K)
  have hsize : (#[] : Array (Pass α)).size < K + 1 := Nat.succ_pos K
  -- The trace with the tightest bound ends, and looser ones make no difference.
  obtain ⟨r, hr⟩ : ∃ r, (within limit f w (some (K + 1))).outcome = .ok r :=
    refine_ends hf (fun j hj _ => hreach j (by omega))
      (by rw [hone, Array.size_empty, Nat.zero_add]; exact hlimit) (by rwa [hone]) rfl (.inl rfl)
  obtain ⟨samples, htraced⟩ := traced_of_within hr
  have htruncates : Truncates (K + 1) (within limit f w (some (K + 1))) (within limit f w bound) :=
    truncates_refine hbound hsize
  have hgap : r.gap = false := by
    by_contra hgap
    rw [Bool.not_eq_false] at hgap
    have hall := htraced.passes_eq_of_gap hgap hfloor
    have hmade := htruncates.passes_prefix.length_le
    have hcount : r.passes = (within limit f w (some (K + 1))).passes.size := passes_eq_of_refine hr
    rw [Array.length_toList, Array.length_toList, ← hcount, hall] at hmade
    obtain ⟨ps, hps, hgapped⟩ := htraced.gap_iff.1 hgap
    rw [hall, Nat.add_sub_cancel] at hps
    exact hgapless hmade ps (htraced.samples_of_pass K ps hps) hgapped
  refine ⟨r, ?_, hgap, htraced.passes_le (K + 1) rfl⟩
  rw [htruncates.eq_of_report hr (.inl hgap), hr]

end

namespace Exact

variable {f : Curve ℚ} {w : Window ℚ} {L a b : ℚ} {j k limit : ℕ} {bound : Option ℕ}
  {ps : List (Point ℚ)}

/-! ## Gaps of lines and of other curves -/

/-- Visible neighbours among the samples of pass number `k` differ by no more than `L` times their
distance. -/
def SlopeAtMost (f : Curve ℚ) (w : Window ℚ) (k : ℕ) (L : ℚ) : Prop :=
  ∀ ps, Samples f w (w.stepOf k) 0 ps → ∀ p q, [p, q] <:+: ps →
    w.shows p.y = true → w.shows q.y = true → |q.y - p.y| ≤ L * |q.x - p.x|

/-- Two neighbouring samples of pass number `k` are visible. -/
def ShowsPair (f : Curve ℚ) (w : Window ℚ) (k : ℕ) : Prop :=
  ∃ ps p q, Samples f w (w.stepOf k) 0 ps ∧ [p, q] <:+: ps ∧
    w.shows p.y = true ∧ w.shows q.y = true

/-- The height of a gap is that of two pixels, each of which is held at the least normal number. -/
theorem gapHeight_eq (w : Window ℚ) :
    w.gapHeight = 2 * max (w.height / 500) Scalar.smallestNormal := by
  change 2 * (if w.height / 500 < Scalar.smallestNormal then Scalar.smallestNormal
    else w.height / 500) = _
  split
  case isTrue h => rw [max_eq_right h.le]
  case isFalse h => rw [max_eq_left (not_lt.1 h)]

/-- Neighbouring samples are a step apart. -/
theorem abs_sub_of_neighbours {p q : Point ℚ} (h : Samples f w (w.stepOf k) 0 ps)
    (hpq : [p, q] <:+: ps) : |q.x - p.x| = w.width / (500 * 2 ^ k) := by
  have hspaced := (spread_of_samples h).spaced p q hpq
  push_cast at hspaced
  rw [hspaced, ← stepOf_eq, abs_of_pos (stepOf_pos w k)]

/-- A pass leaves no gap when the slope bounds what neighbours differ by, and this is no more than
two pixels. -/
theorem not_gapped_of_slope (hL : SlopeAtMost f w k L)
    (hk : L * w.width / (500 * 2 ^ k) ≤ 2 * w.height / 500)
    (h : Samples f w (w.stepOf k) 0 ps) : ¬ Gapped w ps := by
  rintro ⟨p, q, hpq, hp, hq, hfar⟩
  have hfar' : w.gapHeight < |q.y - p.y| := hfar
  have hrise := hL ps h p q hpq ((w.shows_iff _).2 hp) ((w.shows_iff _).2 hq)
  have hpixels := le_max_left (w.height / 500) Scalar.smallestNormal
  rw [abs_sub_of_neighbours h hpq, ← mul_div_assoc] at hrise
  rw [gapHeight_eq] at hfar'
  linarith

/-- A line rises between neighbouring samples by its slope times their distance. -/
theorem rise_of_line {p q : Point ℚ} (hf : ∀ x, f x = .ok (a * x + b))
    (h : Samples f w (w.stepOf k) 0 ps) (hpq : [p, q] <:+: ps) :
    |q.y - p.y| = |a| * |q.x - p.x| := by
  have hy (p : Point ℚ) (hp : f p.x = .ok p.y) : p.y = a * p.x + b :=
    Except.ok.inj (hp.symm.trans (hf p.x))
  obtain ⟨i, hi, hi'⟩ := pair_infix_iff.1 hpq
  rw [hy p (h.visits i p hi).2.2, hy q (h.visits (i + 1) q hi').2.2, ← abs_mul]
  congr 1
  ring

/-- The slope of a line bounds what neighbours differ by. -/
theorem slopeAtMost_of_line (hf : ∀ x, f x = .ok (a * x + b)) (w : Window ℚ) (k : ℕ) :
    SlopeAtMost f w k |a| :=
  fun _ h _ _ hpq _ _ => (rise_of_line hf h hpq).le

/-- A pass over a line leaves a gap when neighbours differ by more than two pixels and two of them
are visible. -/
theorem gapped_of_line (hf : ∀ x, f x = .ok (a * x + b))
    (hk : 2 * w.height / 500 < |a| * w.width / (500 * 2 ^ k))
    (hnormal : Scalar.smallestNormal ≤ w.height / 500) (hpair : ShowsPair f w k)
    (h : Samples f w (w.stepOf k) 0 ps) : Gapped w ps := by
  obtain ⟨qs, p, q, hqs, hpq, hp, hq⟩ := hpair
  obtain rfl := h.unique hqs
  refine ⟨p, q, hpq, (w.shows_iff _).1 hp, (w.shows_iff _).1 hq, ?_⟩
  change w.gapHeight < |q.y - p.y|
  rw [gapHeight_eq, max_eq_left hnormal, rise_of_line hf h hpq, abs_sub_of_neighbours h hpq,
    ← mul_div_assoc, ← mul_div_assoc]
  exact hk

/-! ## Refinement -/

/-- Steps grow shorter, so all steps up to one above the floor are above it. -/
theorem stepFloor_lt (h : Trace.stepFloor < w.stepOf k) (hjk : j ≤ k) :
    Trace.stepFloor < w.stepOf j := by
  have hwidth := width_pos w
  have hle : w.stepOf k ≤ w.stepOf j := by
    rw [stepOf_eq, stepOf_eq]
    gcongr
    exact one_le_two
  exact lt_of_lt_of_le h hle

/-- **Refinement.** Let `k` be the least count of passes whose last step times `L` is no more than
the heights of two pixels. If so many passes are allowed, and their step is above the floor, and the
counter reaches the end of such a pass (`Trace.ofCurve` has one of 64 bits), then every curve that
has a slope of at most `L` in the passes that are made is traced without a gap in at most `k`
passes. A line of slope `L` takes `k` of them if two neighbours of it are visible in every pass that
is made before that, and the height of a pixel is represented to full precision. -/
theorem gapless_of_slope (w : Window ℚ) {L : ℚ} {k limit : ℕ} {bound : Option ℕ}
    (hk : IsLeast {n | 1 ≤ n ∧ L * w.width / (500 * 2 ^ (n - 1)) ≤ 2 * w.height / 500} k)
    (hbound : ∀ b, bound = some b → k ≤ b)
    (hfloor : Trace.stepFloor < w.width / (500 * 2 ^ (k - 1)))
    (hlimit : 500 * 2 ^ (k - 1) < limit) :
    (∀ f, Total f → (∀ j < (Trace.within limit f w bound).passes.size, SlopeAtMost f w j L) →
      ∃ r, (Trace.within limit f w bound).outcome = .ok r ∧ r.gap = false ∧ r.passes ≤ k) ∧
    (Scalar.smallestNormal ≤ w.height / 500 → ∀ a b f, |a| = L → (∀ x, f x = .ok (a * x + b)) →
      (∀ j < (Trace.within limit f w bound).passes.size, j + 1 < k → ShowsPair f w j) →
      ∃ r, (Trace.within limit f w bound).outcome = .ok r ∧ r.gap = false ∧ r.passes = k) := by
  obtain ⟨⟨hone, hflat⟩, hleast⟩ := hk
  obtain ⟨K, rfl⟩ := Nat.exists_eq_add_of_le' hone
  rw [Nat.add_sub_cancel] at hflat hfloor hlimit
  have hsteps (j : ℕ) (hj : j ≤ K) : Trace.stepFloor < w.stepOf j :=
    stepFloor_lt (stepOf_eq w K ▸ hfloor) hj
  have hreach (j : ℕ) (hj : j ≤ K) : w.Reaches limit j := by
    have hpow : 2 ^ j ≤ 2 ^ K := Nat.pow_le_pow_right two_pos hj
    exact reaches (by omega)
  have hcount : K < limit := by
    have hpow : K < 2 ^ K := Nat.lt_two_pow_self
    omega
  have hends (f : Curve ℚ) (hf : Total f)
      (hL : ∀ j < (Trace.within limit f w bound).passes.size, SlopeAtMost f w j L) :=
    Trace.exists_report_of_gapless hf hreach
      (fun hmade ps hps => not_gapped_of_slope (hL K hmade) hflat hps) hsteps hbound hcount
  refine ⟨hends, ?_⟩
  intro hnormal a b f ha hf hpairs
  have htotal : Total f := fun x => ⟨_, hf x⟩
  obtain ⟨r, hr, hgap, hpasses⟩ := hends f htotal fun j _ => ha ▸ slopeAtMost_of_line hf w j
  refine ⟨r, hr, hgap, le_antisymm hpasses ?_⟩
  by_contra hearly
  -- The last pass is one before pass `k`, where the line still leaves a gap.
  obtain ⟨samples, htraced⟩ := Trace.traced_of_within hr
  have hpos := htraced.passes_pos
  have hlast : r.passes - 1 < samples.length := by
    have heq := htraced.passes_eq
    omega
  have hmade : r.passes - 1 < (Trace.within limit f w bound).passes.size := by
    have heq : r.passes = (Trace.within limit f w bound).passes.size :=
      Trace.passes_eq_of_refine hr
    omega
  have hsteep : 2 * w.height / 500 < |a| * w.width / (500 * 2 ^ (r.passes - 1)) := by
    rw [ha]
    exact not_le.1 fun hle => hearly (hleast ⟨hpos, hle⟩)
  have hps := List.getElem?_eq_getElem hlast
  have hgapped := gapped_of_line hf hsteep hnormal (hpairs _ hmade (by omega))
    (htraced.samples_of_pass _ _ hps)
  have hleft : r.gap = true := htraced.gap_iff.2 ⟨_, hps, hgapped⟩
  rw [hgap] at hleft
  cases hleft

/-- Two neighbouring abscissas of a pass at which a curve is visible. -/
theorem showsPair_of_lt {n : ℕ} (hf : Total f) (hn : n + 1 < 500 * 2 ^ k)
    (hshows : ∀ i y, n ≤ i → i ≤ n + 1 → f (w.abscissa (w.stepOf k) i) = .ok y →
      w.shows y = true) : ShowsPair f w k := by
  obtain ⟨ps, hps, -⟩ := exists_samples hf w (Nat.lt_succ_self (500 * 2 ^ k)) (Walk.start #[])
  have hlength := (spread_of_samples hps).length_eq
  have hvisit (i : ℕ) (hi : i < ps.length) (hlow : n ≤ i) (hhigh : i ≤ n + 1) :
      w.shows ps[i].y = true := by
    obtain ⟨hx, -, hy⟩ := hps.visits i ps[i] (List.getElem?_eq_getElem hi)
    rw [Nat.zero_add] at hx
    exact hshows i _ hlow hhigh (hx ▸ hy)
  refine ⟨ps, ps[n], ps[n + 1], hps, pair_infix_iff.2 ⟨n, ?_, ?_⟩, ?_, ?_⟩
  · exact List.getElem?_eq_getElem _
  · exact List.getElem?_eq_getElem _
  · exact hvisit n (by omega) le_rfl (Nat.le_succ n)
  · exact hvisit (n + 1) (by omega) (Nat.le_succ n) le_rfl

/-- A line of slope ten takes four passes through the unit square. -/
theorem gapless_of_slope_ten :
    let f : Curve ℚ := fun x => .ok (10 * x + -9 / 2)
    (∃ r, (Trace.ofCurve f unit none).outcome = .ok r ∧ r.gap = false ∧ r.passes ≤ 4) ∧
      ∃ r, (Trace.ofCurve f unit none).outcome = .ok r ∧ r.gap = false ∧ r.passes = 4 := by
  intro f
  have hf (x : ℚ) : f x = .ok (10 * x + -9 / 2) := rfl
  have htotal : Total f := fun x => ⟨_, hf x⟩
  have hwidth : unit.width = 1 := by norm_num [unit, Window.width]
  have hheight : unit.height = 1 := by norm_num [unit, Window.height]
  have hleast : IsLeast {n | 1 ≤ n ∧
      10 * unit.width / (500 * 2 ^ (n - 1)) ≤ 2 * unit.height / 500} 4 := by
    rw [hwidth, hheight]
    refine ⟨⟨by decide, by norm_num⟩, ?_⟩
    rintro n ⟨hone, hn⟩
    by_contra hless
    interval_cases n <;> norm_num at hn
  have hfloor : Trace.stepFloor < unit.width / (500 * 2 ^ (4 - 1)) := by
    have hsmall : (2 : ℚ) ^ (-1074 : ℤ) ≤ 2 ^ (-20 : ℤ) := Rounding.two_zpow_le (by decide)
    rw [hwidth]
    calc Trace.stepFloor (α := ℚ) = 2 * 2 ^ (-1074 : ℤ) := rfl
      _ ≤ 2 * 2 ^ (-20 : ℤ) := mul_le_mul_of_nonneg_left hsmall zero_le_two
      _ < 1 / (500 * 2 ^ (4 - 1)) := by norm_num
  have hpairs (j : ℕ) (hj : j < 3) : ShowsPair f unit j := by
    -- Half-way through the window the line is half-way up.
    have hshows (i : ℕ) (hi : i = 250 * 2 ^ j ∨ i = 250 * 2 ^ j + 1) :
        unit.shows (10 * unit.abscissa (unit.stepOf j) i + -9 / 2) = true := by
      rcases hi with rfl | rfl <;> interval_cases j <;> decide +kernel
    refine showsPair_of_lt (n := 250 * 2 ^ j) htotal ?_ fun i y hlow hhigh hy => ?_
    · have hpow := Nat.two_pow_pos j
      omega
    · cases hy
      exact hshows i (by omega)
  have hbound (b : ℕ) (hb : none = some b) : 4 ≤ b := by cases hb
  have hlimit : 500 * 2 ^ (4 - 1) < Trace.counterLimit := by decide
  obtain ⟨hcurves, hlines⟩ := gapless_of_slope unit hleast hbound hfloor hlimit
  refine ⟨hcurves f htotal fun j _ => ?_,
    hlines ?_ 10 (-9 / 2) f ?_ hf fun j _ hj => hpairs j (by omega)⟩
  · have hslope := slopeAtMost_of_line hf unit j
    rwa [abs_of_pos (by norm_num)] at hslope
  · rw [hheight]
    calc Scalar.smallestNormal (α := ℚ) = 2 ^ (-1022 : ℤ) := rfl
      _ ≤ 2 ^ (-20 : ℤ) := Rounding.two_zpow_le (by decide)
      _ ≤ 1 / 500 := by norm_num
  · norm_num

end Exact

end CurveArea
