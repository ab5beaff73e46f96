import CurveArea.Proofs.Plane.Draws
import CurveArea.Proofs.Plane.Steps

/-!
# Where points are drawn

A trace that fails or never ends has drawn points too. Each of its passes, the last one complete or
not, has gone over the samples of an initial part of its grid (`Visits`), and the visible ones of
these have been drawn (`Trace.course_of_refine`). That is so in any arithmetic.

In binary64 all of them lie inside the window (`inside_of_mem_points`). The upper and lower bounds
and the right one are tested, but the left bound is not: that no abscissa is below it, and that the
abscissas of a pass do not decrease, is due to roundings that keep the order
(`Window.abscissa_mono`, `Window.xMin_le_abscissa`).
-/

namespace CurveArea

section
variable {α : Type} [Scalar α] {f : Curve α} {w : Window α} {step : α} {bound : Option Nat}
  {limit count i : Nat}

/-! ## Passes that may be cut short -/

/-- The points of a list are those of the curve at the abscissas from number `i` on, and all of them
are below the right bound. -/
def Visits (f : Curve α) (w : Window α) (step : α) (i : Nat) (ps : List (Point α)) : Prop :=
  ∀ j p, ps[j]? = some p → p.x = w.abscissa step (i + j) ∧ p.x < w.xMax ∧ f p.x = .ok p.y

/-- A pass that has gone over nothing yet has visited nothing wrong. -/
theorem visits_nil : Visits f w step i [] := by
  intro j p hj
  cases hj

/-- A point of the curve at the next abscissa, and then those that follow. -/
theorem Visits.cons {y : α} {ps : List (Point α)} (hx : w.abscissa step i < w.xMax)
    (hy : f (w.abscissa step i) = .ok y) (h : Visits f w step (i + 1) ps) :
    Visits f w step i (⟨w.abscissa step i, y⟩ :: ps) := by
  intro j p hj
  cases j with
  | zero =>
    cases hj
    exact ⟨rfl, hx, hy⟩
  | succ j =>
    have hlater := h j p hj
    rwa [Nat.add_assoc, Nat.add_comm 1] at hlater

/-- **Any pass.** However a pass ends, it has gone over some samples of its grid, in order. -/
theorem Walk.visits_of_follow {s t : Walk α} {outcome : Except (Stop EvalError) Unit}
    (h : follow f w step limit i s = (t, outcome)) :
    ∃ ps, Visits f w step i ps ∧ ps.length ≤ limit ∧ t = s.after w ps := by
  induction limit generalizing i s with
  | zero =>
    cases h
    exact ⟨[], visits_nil, Nat.le_refl 0, rfl⟩
  | succ limit ih =>
    rw [follow] at h
    by_cases hx : w.abscissa step i < w.xMax
    · rw [if_pos hx] at h
      cases hy : f (w.abscissa step i) with
      | error e =>
        rw [hy] at h
        cases h
        exact ⟨[], visits_nil, Nat.zero_le _, rfl⟩
      | ok y =>
        rw [hy] at h
        obtain ⟨ps, hps, hlen, hafter⟩ := ih h
        exact ⟨_, hps.cons hx hy, Nat.succ_le_succ hlen, hafter⟩
    · rw [if_neg hx] at h
      cases h
      exact ⟨[], visits_nil, Nat.zero_le _, rfl⟩

/-- A pass keeps what was drawn before it. -/
theorem Walk.points_prefix_of_follow {s t : Walk α} {outcome : Except (Stop EvalError) Unit}
    (h : follow f w step limit i s = (t, outcome)) : s.points.toList <+: t.points.toList := by
  obtain ⟨ps, -, -, rfl⟩ := visits_of_follow h
  rw [points_after]
  exact List.prefix_append _ _

/-! ## Traces that may be cut short -/

/-- A trace keeps what was drawn before it, and the passes that were made. -/
theorem Trace.prefix_refine (points : Array (Point α)) (passes : Array (Pass α)) :
    points.toList <+: (refine f w bound limit count step points passes).points.toList ∧
      passes.toList <+: (refine f w bound limit count step points passes).passes.toList := by
  induction count generalizing step points passes with
  | zero => exact ⟨List.prefix_rfl, List.prefix_rfl⟩
  | succ count ih =>
    rw [refine]
    rcases hwalk : Walk.follow f w step limit 0 (Walk.start points) with ⟨t, stop | _⟩
    · exact ⟨Walk.points_prefix_of_follow hwalk, List.prefix_rfl⟩
    · have hdrawn : points.toList <+: t.points.toList := Walk.points_prefix_of_follow hwalk
      have hmade : passes.toList <+: (passes.push ⟨step, t.gap⟩).toList := by
        rw [Array.toList_push]
        exact List.prefix_append _ _
      simp only
      split
      case isTrue hgo =>
        obtain ⟨hlater, hlater'⟩ := ih t.points (passes.push ⟨step, t.gap⟩)
        exact ⟨hdrawn.trans hlater, hmade.trans hlater'⟩
      case isFalse hstop => exact ⟨hdrawn, hmade⟩

/-- What the passes of a trace have gone over and drawn, the last one of them complete or not. -/
structure Course (f : Curve α) (w : Window α) (limit : Nat) (samples : List (List (Point α)))
    (points : List (Point α)) : Prop where
  /-- Each pass has gone over samples of its grid. -/
  visits : ∀ k ps, samples[k]? = some ps → Visits f w (w.stepOf k) 0 ps
  /-- It has not gone over more of them than there may be. -/
  length_le : ∀ ps ∈ samples, ps.length ≤ limit
  /-- What is drawn are the visible samples, pass after pass. -/
  points_eq : points = (samples.map w.visible).flatten

namespace Course

variable {samples : List (List (Point α))} {points : List (Point α)}

/-- Before the first pass nothing is drawn. -/
theorem start (f : Curve α) (w : Window α) (limit : Nat) : Course f w limit [] [] :=
  ⟨nofun, nofun, rfl⟩

/-- One pass more. -/
theorem next {ps : List (Point α)} (h : Course f w limit samples points)
    (hps : Visits f w (w.stepOf samples.length) 0 ps) (hlen : ps.length ≤ limit) :
    Course f w limit (samples ++ [ps]) (points ++ w.visible ps) where
  visits := forall_getElem?_concat h.visits hps
  length_le := List.forall_mem_append.2 ⟨h.length_le, List.forall_mem_singleton.2 hlen⟩
  points_eq := by simp [h.points_eq]

end Course

/-- **Any trace.** However a trace ends, it has drawn the visible samples of its passes: of those
that are complete, and of the one that is cut short, if there is one. -/
theorem Trace.course_of_refine {points : Array (Point α)} {passes : Array (Pass α)}
    {samples : List (List (Point α))} {trace : Trace α}
    (h : Course f w limit samples points.toList) (hpasses : passes.size = samples.length)
    (htrace : refine f w bound limit count (w.stepOf samples.length) points passes = trace) :
    ∃ all, Course f w limit all trace.points.toList ∧
      (all.length = trace.passes.size ∨ all.length = trace.passes.size + 1) := by
  induction count generalizing points passes samples with
  | zero =>
    subst htrace
    exact ⟨samples, h, .inl hpasses.symm⟩
  | succ count ih =>
    rw [refine] at htrace
    rcases hwalk : Walk.follow f w (w.stepOf samples.length) limit 0 (Walk.start points) with
      ⟨t, outcome⟩
    obtain ⟨ps, hps, hlen, rfl⟩ := Walk.visits_of_follow hwalk
    have hpoints : ((Walk.start points).after w ps).points.toList =
        points.toList ++ w.visible ps := Walk.points_after (Walk.start points) ps
    have hnext := h.next hps hlen
    rw [← hpoints] at hnext
    have hlength : (samples ++ [ps]).length = samples.length + 1 := List.length_append
    cases outcome with
    | error stop =>
      -- The pass that is cut short has drawn its samples and is not among the complete ones.
      simp only [hwalk] at htrace
      subst htrace
      exact ⟨_, hnext, .inr (by rw [hlength, hpasses])⟩
    | ok =>
      simp only [hwalk] at htrace
      split at htrace
      case isTrue hgo =>
        have hstep : w.stepOf samples.length / Scalar.ofNat 2 =
            w.stepOf (samples ++ [ps]).length := by rw [hlength, Window.stepOf]
        rw [hstep] at htrace
        exact ih hnext (by simp [hpasses]) htrace
      case isFalse hstop =>
        subst htrace
        exact ⟨_, hnext, .inl (by simp [hpasses])⟩

/-- The first sample of a trace is drawn if it is visible, whatever the trace comes to. -/
theorem Trace.first_mem_points {y : α} (hx : w.abscissa w.firstStep 0 < w.xMax)
    (hy : f (w.abscissa w.firstStep 0) = .ok y) (hshows : w.shows y = true) (bound : Option Nat) :
    ⟨w.abscissa w.firstStep 0, y⟩ ∈ (ofCurve f w bound).points.toList := by
  obtain ⟨n, hn⟩ : ∃ n, counterLimit = n + 1 := ⟨2 ^ 64 - 1, rfl⟩
  rw [ofCurve, within, hn, refine]
  rcases hwalk : Walk.follow f w w.firstStep (n + 1) 0 (Walk.start #[]) with ⟨t, outcome⟩
  rw [Walk.follow] at hwalk
  simp only [if_pos hx, hy] at hwalk
  have hpass := Walk.points_prefix_of_follow hwalk
  have hdrawn : ⟨w.abscissa w.firstStep 0, y⟩ ∈ t.points.toList :=
    hpass.subset (by simp [Walk.next, Walk.start, hshows])
  cases outcome with
  | error stop => exact hdrawn
  | ok =>
    simp only
    split
    · exact (prefix_refine _ _).1.subset hdrawn
    · exact hdrawn

/-- Whatever becomes of a trace, its points are visible samples of its passes, of which the last one
may not have been completed. -/
theorem Trace.course_of_ofCurve (f : Curve α) (w : Window α) (bound : Option Nat) :
    ∃ samples, Course f w counterLimit samples (ofCurve f w bound).points.toList ∧
      (samples.length = (ofCurve f w bound).passes.size ∨
        samples.length = (ofCurve f w bound).passes.size + 1) :=
  course_of_refine (.start f w counterLimit) rfl rfl

end

/-! ## Abscissas in binary64 -/

namespace Window

open CurveArea.Rounding
open CurveArea.Binary64 hiding nearest
open Float.Model (Format)

section
variable {w : Window Float} {s : Float} {m n : Nat}

/-- How many steps a pass has made at an abscissa does not decrease. -/
theorem counter_mono (h : m ≤ n) (hn : n ≤ 2 ^ 64) :
    0 ≤ place (Scalar.ofNat m + Scalar.half : Float) ∧
      place (Scalar.ofNat m + Scalar.half : Float) ≤
        place (Scalar.ofNat n + Scalar.half : Float) := by
  rw [(counter_isFinite (h.trans hn)).2, (counter_isFinite hn).2]
  have hcast : nearest .binary64 (m : ℚ) ≤ nearest .binary64 n :=
    nearest_mono (Nat.cast_le.2 h)
  have hnonneg : 0 ≤ nearest .binary64 (m : ℚ) := nearest_nonneg m.cast_nonneg
  exact ⟨nearest_nonneg (by linarith), nearest_mono (by linarith)⟩

/-- Nor does the way from the left bound, which is not negative. -/
theorem way_mono (hs : s.isFinite = true) (h₀ : 0 ≤ place s) (h : m ≤ n) (hn : n ≤ 2 ^ 64) :
    0 ≤ place ((Scalar.ofNat m + Scalar.half) * s) ∧
      (Scalar.ofNat m + Scalar.half) * s ≤ (Scalar.ofNat n + Scalar.half) * s := by
  obtain ⟨hnonneg, hle⟩ := counter_mono h hn
  have hway := at_mul (counter_isFinite (h.trans hn)).1 hs
  have hway' := at_mul (counter_isFinite hn).1 hs
  have hfit := fit_mono (F := .binary64) (mul_nonneg hnonneg h₀)
  rw [fit_zero] at hfit
  refine ⟨hway.place_eq ▸ hfit, le_iff.2 ⟨hway.defined, hway'.defined, ?_⟩⟩
  rw [hway.place_eq, hway'.place_eq]
  exact fit_mono (mul_le_mul_of_nonneg_right hle h₀)

/-- **Abscissas do not decrease.** -/
theorem abscissa_mono (hs : s.isFinite = true) (h₀ : 0 ≤ place s) (h : m ≤ n) (hn : n ≤ 2 ^ 64) :
    w.abscissa s m ≤ w.abscissa s n := by
  obtain ⟨hnonneg, hle⟩ := way_mono hs h₀ h hn
  exact add_le_add_of_nonneg (xMin_isFinite w) hnonneg hle

/-- **No abscissa is below the left bound.** -/
theorem xMin_le_abscissa (hs : s.isFinite = true) (h₀ : 0 ≤ place s) (hn : n ≤ 2 ^ 64) :
    w.xMin ≤ w.abscissa s n := by
  obtain ⟨hnonneg, hle⟩ := way_mono hs h₀ le_rfl hn
  exact le_add_of_nonneg (xMin_isFinite w) (le_iff.1 hle).1 hnonneg

/-- Samples of a pass are at or to the right of the left bound, and their abscissas do not
decrease. -/
theorem ordered_of_visits {f : Curve Float} {ps : List (Point Float)} (hs : s.isFinite = true)
    (h₀ : 0 ≤ place s) (h : Visits f w s 0 ps) (hlen : ps.length ≤ Trace.counterLimit) :
    (∀ p ∈ ps, w.xMin ≤ p.x) ∧ ps.Pairwise fun p q => p.x ≤ q.x := by
  have hx (i : Nat) (hi : i < ps.length) : ps[i].x = w.abscissa s i := by
    have hvisit := (h i ps[i] (List.getElem?_eq_getElem hi)).1
    rwa [Nat.zero_add] at hvisit
  have hcount (i : Nat) (hi : i < ps.length) : i ≤ 2 ^ 64 := (hi.trans_le hlen).le
  constructor
  · intro p hp
    obtain ⟨i, hi, rfl⟩ := List.getElem_of_mem hp
    rw [hx i hi]
    exact xMin_le_abscissa hs h₀ (hcount i hi)
  · rw [List.pairwise_iff_getElem]
    intro i j hi hj hij
    rw [hx i hi, hx j hj]
    exact abscissa_mono hs h₀ hij.le (hcount j hj)

end

end Window

/-! ## What is drawn -/

/-- **Points inside the window.** Whatever a trace comes to, all points that it draws are points of
the curve inside the window, and to the left of the right bound. They are the visible ones among
the samples of its passes, each of them at the abscissas of its grid in order; so the abscissas that
a pass draws at do not decrease. -/
theorem inside_of_mem_points (f : Curve Float) (w : Window Float) (bound : Option Nat) :
    let trace := Trace.ofCurve f w bound
    (∀ p ∈ trace.points.toList, (w.xMin ≤ p.x ∧ p.x < w.xMax) ∧
      (w.yMin ≤ p.y ∧ p.y ≤ w.yMax) ∧ p.y.isNaN = false ∧ f p.x = .ok p.y) ∧
    ∃ samples : List (List (Point Float)),
      (samples.length = trace.passes.size ∨ samples.length = trace.passes.size + 1) ∧
      trace.points.toList = (samples.map w.visible).flatten ∧
      ∀ k ps, samples[k]? = some ps → Visits f w (w.stepOf k) 0 ps ∧
        (w.visible ps).Pairwise fun p q => p.x ≤ q.x := by
  intro trace
  obtain ⟨samples, hcourse, hlength⟩ := Trace.course_of_ofCurve f w bound
  have hordered (k : Nat) (ps : List (Point Float)) (hk : samples[k]? = some ps) :
      (∀ p ∈ ps, w.xMin ≤ p.x) ∧ ps.Pairwise fun p q => p.x ≤ q.x := by
    obtain ⟨hs, h₀⟩ := w.stepOf_isFinite k
    exact Window.ordered_of_visits hs h₀ (hcourse.visits k ps hk)
      (hcourse.length_le ps (List.mem_of_getElem? hk))
  refine ⟨?_, samples, hlength, hcourse.points_eq, ?_⟩
  · intro p hp
    have hdrawn : p ∈ (samples.map w.visible).flatten := hcourse.points_eq ▸ hp
    obtain ⟨qs, hqs, hpqs⟩ := List.mem_flatten.1 hdrawn
    obtain ⟨ps, hps, rfl⟩ := List.mem_map.1 hqs
    obtain ⟨hmem, hshows⟩ := List.mem_filter.1 hpqs
    obtain ⟨k, hk⟩ := List.mem_iff_getElem?.1 hps
    obtain ⟨j, hj⟩ := List.mem_iff_getElem?.1 hmem
    obtain ⟨-, hright, hvalue⟩ := hcourse.visits k ps hk j p hj
    have hvisible := (w.shows_iff p.y).1 hshows
    exact ⟨⟨(hordered k ps hk).1 p hmem, hright⟩, hvisible, (Binary64.le_iff.1 hvisible.1).2.1,
      hvalue⟩
  · intro k ps hk
    exact ⟨hcourse.visits k ps hk, (hordered k ps hk).2.sublist List.filter_sublist⟩

/-- Zero is below the least positive number, and there is a finite area between them in a height
of one. -/
theorem Window.thin_bounds : (Scalar.ofNat 0 : Float) < Scalar.smallestPositive ∧
    Scalar.isFinite (((Scalar.smallestPositive : Float) - Scalar.ofNat 0) *
      (Scalar.ofNat 1 - Scalar.ofNat 0)) = true := by
  decide +kernel

/-- The part of the unit square to the left of the least positive number. -/
def Window.thin : Window Float :=
  { Window.unit with
    xMax := Scalar.smallestPositive
    x_lt := thin_bounds.1
    area_finite := thin_bounds.2 }

/-- The trace of the diagonal in this window, which is too narrow for a step, never ends. What it
has drawn is in the window nevertheless. -/
theorem inside_of_mem_points_endless :
    let f := (⟨[.load], 0⟩ : Program Float).evaluate
    let w := Window.thin
    (Trace.ofCurve f w none).outcome = .error .endless ∧
      ∃ p ∈ (Trace.ofCurve f w none).points.toList, (w.xMin ≤ p.x ∧ p.x < w.xMax) ∧
        (w.yMin ≤ p.y ∧ p.y ≤ w.yMax) ∧ p.y.isNaN = false ∧ f p.x = .ok p.y := by
  intro f w
  have hnarrow : w.width ≤ Window.narrow := by decide +kernel
  have hright (i : Nat) (hi : i < Trace.counterLimit) : w.abscissa w.firstStep i < w.xMax :=
    Window.abscissa_lt_xMax_of_narrow hnarrow hi
  have hfirst : w.abscissa w.firstStep 0 < w.xMax := hright 0 (Nat.two_pow_pos 64)
  have hvalue : f (w.abscissa w.firstStep 0) = .ok (w.abscissa w.firstStep 0) := rfl
  have hshows : w.shows (w.abscissa w.firstStep 0) = true := by decide +kernel
  have hdrawn := Trace.first_mem_points hfirst hvalue hshows none
  have hendless := Trace.ofCurve_endless (total_evaluate rfl : Total f) hright none
  exact ⟨hendless, _, hdrawn, (inside_of_mem_points f w none).1 _ hdrawn⟩

end CurveArea
