import CurveArea.Proofs.Plane.Steps

/-!
# Traces in binary64

A trace whose passes are bounded ends with a report unless the window is narrow
(`ofCurve_endless_iff`), and a trace with a report is what `Traced` says (`traced_of_outcome_ok`).
Comparisons with an undefined number fail, so undefined samples are as good as invisible: they are
not drawn and leave no gap.
-/

namespace CurveArea

open CurveArea.Binary64 (le_iff)

section
variable {f : Curve Float} {w : Window Float} {b : Nat}

/-! ## Ends -/

/-- The counter goes as far as the passes that sessions ask for. -/
theorem Trace.mul_two_pow_lt_counterLimit {k : Nat} (hk : k < 50) :
    12000 * 2 ^ k < counterLimit := by
  have hpow : 2 ^ k ≤ 2 ^ 50 := Nat.pow_le_pow_right two_pos hk.le
  rw [counterLimit_eq]
  omega

/-- A bounded trace of a curve with values everywhere comes to its end in a window that is not
narrow. -/
theorem exists_report (hf : Total f) (hw : ¬ w.width ≤ Window.narrow) (hb : b ≤ 50) :
    ∃ r, (Trace.ofCurve f w (some b)).outcome = .ok r := by
  refine Trace.ofCurve_ends hf (by rw [Trace.counterLimit_eq]; omega) fun k hk hused => ?_
  have hcount := Trace.mul_two_pow_lt_counterLimit (k := k) (by omega)
  obtain ⟨n, hn, hx⟩ := Window.exists_not_abscissa_lt hw hused hcount
  exact ⟨n, hn.trans_lt hcount, hx⟩

/-- A trace of a curve that has values goes on for ever in the narrow windows only, when so few
passes are allowed that no step comes down to zero by halving. -/
theorem ofCurve_endless_iff (hf : Total f) (w : Window Float) (hb : b ≤ 50) :
    (Trace.ofCurve f w (some b)).outcome = .error .endless ↔ w.width ≤ Window.narrow := by
  constructor
  · intro hendless
    by_contra hwide
    obtain ⟨r, hr⟩ := exists_report hf hwide hb
    rw [hr] at hendless
    cases hendless
  · intro hnarrow
    exact Trace.ofCurve_endless hf (fun i hi => Window.abscissa_lt_xMax_of_narrow hnarrow hi) _

/-! ## What is drawn -/

/-- What is drawn is visible. -/
theorem Traced.visible {α : Type} [Scalar α] {f : Curve α} {w : Window α} {bound : Option Nat}
    {samples : List (List (Point α))} {points : List (Point α)} {r : Report α}
    (h : Traced f w bound samples points r) {p : Point α} (hp : p ∈ points) :
    w.yMin ≤ p.y ∧ p.y ≤ w.yMax := by
  rw [h.points_eq] at hp
  obtain ⟨qs, hqs, hp⟩ := List.mem_flatten.1 hp
  obtain ⟨ps, -, rfl⟩ := List.mem_map.1 hqs
  exact (w.shows_iff p.y).1 (List.mem_filter.1 hp).2

/-- An undefined ordinate is not in a window. -/
theorem not_visible_of_isNaN {y : Float} (hy : y.isNaN = true) : ¬ (w.yMin ≤ y ∧ y ≤ w.yMax) :=
  fun h => Bool.noConfusion (hy.symm.trans (le_iff.1 h.1).2.1)

/-- **Complete traces.** A trace with a report is what `Traced` says, and no ordinate that is
undefined or out of the window is drawn or leaves a gap. -/
theorem traced_of_outcome_ok (f : Curve Float) (w : Window Float) (bound : Option Nat)
    (r : Report Float) (h : (Trace.ofCurve f w bound).outcome = .ok r) :
    (∃ samples, Traced f w bound samples (Trace.ofCurve f w bound).points.toList r) ∧
      ∀ y : Float, y.isNaN = true ∨ ¬ (w.yMin ≤ y ∧ y ≤ w.yMax) →
        (∀ p ∈ (Trace.ofCurve f w bound).points.toList, p.y ≠ y) ∧
          ∀ z, ¬ w.Apart y z ∧ ¬ w.Apart z y := by
  obtain ⟨samples, htraced⟩ := Trace.traced_of_ofCurve h
  refine ⟨⟨samples, htraced⟩, fun y hy => ?_⟩
  have hout : ¬ (w.yMin ≤ y ∧ y ≤ w.yMax) := hy.elim not_visible_of_isNaN id
  refine ⟨?_, fun z => ⟨fun hgap => hout hgap.1, fun hgap => hout hgap.2.1⟩⟩
  rintro p hp rfl
  exact hout (htraced.visible hp)

/-- The diagonal in the unit square, traced with at most three passes. -/
theorem traced_of_outcome_ok_diagonal :
    let f := (⟨[.load], 0⟩ : Program Float).evaluate
    let w : Window Float := ⟨Scalar.ofNat 0, Scalar.ofNat 1, Scalar.ofNat 0, Scalar.ofNat 1,
      by decide +kernel, by decide +kernel, by decide +kernel⟩
    ∃ r, (Trace.ofCurve f w (some 3)).outcome = .ok r ∧
      (∃ samples, Traced f w (some 3) samples (Trace.ofCurve f w (some 3)).points.toList r) ∧
        ∀ y : Float, y.isNaN = true ∨ ¬ (w.yMin ≤ y ∧ y ≤ w.yMax) →
          (∀ p ∈ (Trace.ofCurve f w (some 3)).points.toList, p.y ≠ y) ∧
            ∀ z, ¬ w.Apart y z ∧ ¬ w.Apart z y := by
  intro f w
  have hwide : ¬ w.width ≤ Window.narrow := by decide +kernel
  obtain ⟨r, hr⟩ := exists_report (f := f) (total_evaluate rfl) hwide (by decide : 3 ≤ 50)
  exact ⟨r, hr, traced_of_outcome_ok f w (some 3) r hr⟩

end

end CurveArea
