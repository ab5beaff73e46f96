import CurveArea.Proofs.Plane.Exact
import CurveArea.Proofs.Plane.Traces

/-!
# The work of a trace

How often a trace evaluates its curve, in exact arithmetic: a complete pass has twice as many
samples as the one before, and no abscissa comes twice (`Exact.work_of_trace`). The counter of a
pass would do for many more passes than sessions ask for: as far as it goes in the first twenty, in
exact arithmetic or in binary64, binary64 holds it without rounding (`Binary64.ExactCounter`).
-/

namespace CurveArea

/-! ## Counters -/

namespace Binary64

/-- A counter that binary64 holds exactly, and in the middle of its step as well. -/
structure ExactCounter (i : ℕ) : Prop where
  /-- It is not too long. -/
  lt : i < 2 ^ 53
  /-- It is converted exactly. -/
  at_count : At (Scalar.ofNat i) i
  /-- One half is added exactly. -/
  at_middle : At (Scalar.ofNat i + Scalar.half) (i + 1 / 2)

/-- Counters that leave room for one more place are exact. -/
theorem exactCounter_of_lt {i : ℕ} (h : i < 2 ^ 52) : ExactCounter i := by
  have hlt : i < 2 ^ 53 := h.trans (by decide)
  obtain ⟨hcount, hfin⟩ := at_natCast hlt.le
  have hlimit : (2 : ℚ) ^ (53 : ℤ) < Rounding.limit .binary64 := zpow_lt_limit (by decide)
  have hhalf : (Scalar.half : Float).isFinite = true :=
    at_half.isFinite (lt_trans (by norm_num) one_lt_limit)
  have hmiddle : (i : ℚ) + 1 / 2 = (2 * i + 1 : ℕ) * 2 ^ (-1 : ℤ) := by
    rw [zpow_neg_one]
    push_cast
    ring
  have hrep : Rounding.Representable .binary64 ((i : ℚ) + 1 / 2) := by
    rw [hmiddle]
    exact representable_mul_zpow (by omega) (by decide)
  have hsmall : |(i : ℚ) + 1 / 2| < Rounding.limit .binary64 := by
    have hcast : (i : ℚ) + 1 ≤ 2 ^ (53 : ℤ) := by exact_mod_cast hlt
    rw [abs_of_nonneg (add_nonneg i.cast_nonneg one_half_pos.le)]
    linarith
  have hsum := at_add hfin hhalf
  rw [hcount.place_eq, at_half.place_eq, Rounding.fit_of_representable hrep hsmall] at hsum
  exact ⟨hlt, hcount, hsum⟩

/-- The counters of the first twenty passes in binary64 are exact. -/
theorem exactCounter_of_samples {f : Curve Float} {w : Window Float} {k i : ℕ}
    {ps : List (Point Float)} (hw : ¬ w.width ≤ Window.narrow) (hused : w.Used k) (hk : k < 20)
    (h : Samples f w (w.stepOf k) 0 ps) (hi : i ≤ ps.length) : ExactCounter i := by
  have hpow : 2 ^ k ≤ 2 ^ 19 := Nat.pow_le_pow_right two_pos (by omega)
  have hcount := Trace.mul_two_pow_lt_counterLimit (hk.trans (by decide))
  obtain ⟨n, hn, hx⟩ := Window.exists_not_abscissa_lt hw hused hcount
  have hle := h.length_le (Nat.zero_le n) hx
  exact exactCounter_of_lt (by omega)

end Binary64

/-! ## Traces -/

/-- A complete trace with any limit is what `Traced` says. -/
theorem Trace.traced_of_within {α : Type} [Scalar α] {f : Curve α} {w : Window α}
    {bound : Option ℕ} {limit : ℕ} {r : Report α} (h : (within limit f w bound).outcome = .ok r) :
    ∃ samples, Traced f w bound samples (within limit f w bound).points.toList r :=
  traced_of_refine (underway_start f w bound) rfl h

namespace Exact

/-- A pass along a curve with values everywhere has gone over all its samples, if its counter
reaches that far. -/
theorem exists_samples {f : Curve ℚ} (hf : Total f) (w : Window ℚ) {k limit : ℕ}
    (h : 500 * 2 ^ k < limit) (s : Walk ℚ) : ∃ ps, Samples f w (w.stepOf k) 0 ps ∧
      Walk.follow f w (w.stepOf k) limit 0 s = (s.after w ps, .ok ()) := by
  obtain ⟨n, hn, hx⟩ := reaches (w := w) h
  obtain ⟨t, ht⟩ := Walk.follow_ends hf hn (i := 0) (by rwa [Nat.zero_add]) s
  obtain ⟨ps, hps, rfl⟩ := Walk.follow_ok ht
  exact ⟨ps, hps, ht⟩

/-- What is drawn are samples. -/
theorem size_points_le {f : Curve ℚ} {w : Window ℚ} {bound : Option ℕ}
    {samples : List (List (Point ℚ))} {points : List (Point ℚ)} {r : Report ℚ}
    (h : Traced f w bound samples points r) : points.length ≤ samples.flatten.length := by
  have hvisible : points = w.visible samples.flatten := by
    rw [h.points_eq, Window.visible, List.filter_flatten]
    rfl
  rw [hvisible]
  exact List.length_filter_le _ _

/-- **The work of a trace**, in exact arithmetic. Pass number `k`, counted from zero, evaluates the
curve at `500 * 2 ^ k` abscissas spread evenly over the window, and comes to its end if the curve
has values and the counter reaches that far. A trace of `n` passes, whatever its bound and the limit
of its counter, makes `500 * (2 ^ n - 1)` evaluations at different abscissas, and draws no more
points. The counters of twenty passes are exact in binary64, as far as they go in exact arithmetic
and as far as they go in binary64. -/
theorem work_of_trace (f : Curve ℚ) (w : Window ℚ) :
    (∀ k, w.stepOf k = w.width / (500 * 2 ^ k) ∧
      ∀ ps, Samples f w (w.stepOf k) 0 ps → Spread w (500 * 2 ^ k) ps) ∧
    (Total f → ∀ k limit s, 500 * 2 ^ k < limit → ∃ ps, Samples f w (w.stepOf k) 0 ps ∧
      Walk.follow f w (w.stepOf k) limit 0 s = (s.after w ps, .ok ())) ∧
    (∀ limit bound r, (Trace.within limit f w bound).outcome = .ok r → ∃ samples,
      Traced f w bound samples (Trace.within limit f w bound).points.toList r ∧
      samples.flatten.length = 500 * (2 ^ r.passes - 1) ∧
      (samples.flatten.map (·.x)).Nodup ∧
      (Trace.within limit f w bound).points.size ≤ 500 * (2 ^ r.passes - 1)) ∧
    ∀ k < 20, (∀ i ≤ 500 * 2 ^ k, Binary64.ExactCounter i) ∧
      ∀ (g : Curve Float) (v : Window Float) ps, ¬ v.width ≤ Window.narrow → v.Used k →
        Samples g v (v.stepOf k) 0 ps → ∀ i ≤ ps.length, Binary64.ExactCounter i := by
  refine ⟨?_, ?_, ?_, ?_⟩
  · intro k
    exact ⟨stepOf_eq w k, fun ps hps => spread_of_samples hps⟩
  · intro hf k limit s hlimit
    exact exists_samples hf w hlimit s
  · intro limit bound r hr
    obtain ⟨samples, htraced⟩ := Trace.traced_of_within hr
    have hlength := length_flatten htraced.samples_of_pass
    rw [← htraced.passes_eq] at hlength
    have hsize := size_points_le htraced
    rw [hlength, Array.length_toList] at hsize
    exact ⟨samples, htraced, hlength, nodup_flatten htraced.samples_of_pass, hsize⟩
  · intro k hk
    have hpow : 2 ^ k ≤ 2 ^ 19 := Nat.pow_le_pow_right two_pos (by omega)
    exact ⟨fun i hi => Binary64.exactCounter_of_lt (by omega),
      fun g v ps hv hused hps i hi => Binary64.exactCounter_of_samples hv hused hk hps hi⟩

/-- The unit square, in exact numbers. -/
def unit : Window ℚ := ⟨0, 1, 0, 1, zero_lt_one, zero_lt_one, rfl⟩

/-- A trace of the diagonal in three passes: the third one ends half a step inside the unit square,
and the passes that were made had different abscissas. In binary64 the counter of the first pass is
exact. -/
theorem work_of_trace_diagonal :
    let f : Curve ℚ := fun x => .ok x
    let g : Curve Float := fun x => .ok x
    (∃ ps, Samples f unit (unit.stepOf 2) 0 ps ∧ ps.length = 2000 ∧
      (∀ p, ps.getLast? = some p → p.x = 1 - 1 / 4000)) ∧
    (∃ r samples, (Trace.ofCurve f unit (some 3)).outcome = .ok r ∧
      samples.flatten.length = 500 * (2 ^ r.passes - 1) ∧
      (samples.flatten.map (·.x)).Nodup ∧
      Traced f unit (some 3) samples (Trace.ofCurve f unit (some 3)).points.toList r) ∧
    ∃ ps, Samples g Window.unit (Window.unit.stepOf 0) 0 ps ∧
      ∀ i ≤ ps.length, Binary64.ExactCounter i := by
  intro f g
  have hf : Total f := fun x => ⟨x, rfl⟩
  have hg : Total g := fun x => ⟨x, rfl⟩
  obtain ⟨hpass, hends, htrace, hcounter⟩ := work_of_trace f unit
  refine ⟨?_, ?_, ?_⟩
  · obtain ⟨ps, hps, -⟩ := hends hf 2 2001 (Walk.start #[]) (by decide)
    have hspread := (hpass 2).2 ps hps
    refine ⟨ps, hps, hspread.length_eq, fun p hp => ?_⟩
    rw [hspread.last p hp]
    norm_num [unit, Window.width]
  · obtain ⟨r, hr⟩ := Trace.ofCurve_ends (w := unit) (b := 3) hf (by decide) fun k hk _ =>
      reaches (by
        have hpow : 2 ^ k ≤ 2 ^ 2 := Nat.pow_le_pow_right two_pos (Nat.le_of_lt_succ hk)
        rw [Trace.counterLimit_eq]
        omega)
    obtain ⟨samples, htraced, hlength, hnodup, -⟩ := htrace _ (some 3) r hr
    exact ⟨r, samples, hr, hlength, hnodup, htraced⟩
  · have hwide : ¬ Window.unit.width ≤ Window.narrow := by decide +kernel
    obtain ⟨n, hn, hx⟩ := Window.exists_not_abscissa_lt hwide (.inl rfl : Window.unit.Used 0)
      (by decide)
    obtain ⟨t, ht⟩ := Walk.follow_ends hg (Nat.lt_succ_of_le hn) (i := 0)
      (by rwa [Nat.zero_add]) (Walk.start #[])
    obtain ⟨ps, hps, -⟩ := Walk.follow_ok ht
    exact ⟨ps, hps, (hcounter 0 (by decide)).2 g Window.unit ps hwide (.inl rfl) hps⟩

end Exact

end CurveArea
