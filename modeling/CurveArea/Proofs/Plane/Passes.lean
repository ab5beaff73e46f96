import CurveArea.Plane.Trace

/-!
# What a complete trace is

A pass draws the visible ones of its samples, the points of the curve at the abscissas of a grid
(`Samples`), and leaves a gap where two neighbouring samples are apart (`Gapped`). A trace is a
sequence of such passes, each at half the step of the one before. `Traced` says this of a complete
trace without the loops that make it: which passes there are, why the last one is the last, and what
has been drawn. Every trace with a report is `Traced` (`Trace.traced_of_ofCurve`), whatever the
arithmetic.
-/

namespace CurveArea

section
variable {α : Type} [Scalar α] {f : Curve α} {w : Window α} {step : α} {bound : Option Nat}

/-! ## Samples and gaps -/

namespace Window

/-- The step of pass number `k`, counted from zero: each is half of the one before. -/
def stepOf (w : Window α) : (k : Nat) → α
  | 0 => w.width / Scalar.ofNat subdivisions
  | k + 1 => w.stepOf k / Scalar.ofNat 2

/-- Two ordinates are apart when both are in the window and they differ by more than the heights of
two pixels. -/
def Apart (w : Window α) (y₁ y₂ : α) : Prop :=
  (w.yMin ≤ y₁ ∧ y₁ ≤ w.yMax) ∧ (w.yMin ≤ y₂ ∧ y₂ ≤ w.yMax) ∧ w.gapHeight < Scalar.abs (y₂ - y₁)

/-- An ordinate is visible when it is between the bounds, or on one. -/
theorem shows_iff (w : Window α) (y : α) : w.shows y = true ↔ w.yMin ≤ y ∧ y ≤ w.yMax := by
  simp [shows]

/-- Two ordinates leave a gap when they are apart. -/
theorem leavesGap_iff (w : Window α) (y₁ y₂ : α) : w.leavesGap y₁ y₂ = true ↔ w.Apart y₁ y₂ := by
  simp [leavesGap, Apart, shows_iff, and_assoc]

/-- The points that are in the window, in their order. -/
def visible (w : Window α) (ps : List (Point α)) : List (Point α) := ps.filter fun p => w.shows p.y

end Window

/-- The samples of a curve from abscissa number `i` on: those of the abscissas up to the first one
that is not below the right bound, at all of which the curve has a value. -/
inductive Samples (f : Curve α) (w : Window α) (step : α) : (i : Nat) → List (Point α) → Prop
  /-- The abscissa is not below the right bound. -/
  | stop {i : Nat} (hx : ¬ w.abscissa step i < w.xMax) : Samples f w step i []
  /-- The abscissa is below the right bound, and the curve has a value there. -/
  | point {i : Nat} {y : α} {ps : List (Point α)} (hx : w.abscissa step i < w.xMax)
      (hy : f (w.abscissa step i) = .ok y) (hps : Samples f w step (i + 1) ps) :
      Samples f w step i (⟨w.abscissa step i, y⟩ :: ps)

/-- Some two neighbours of a list of points are apart. -/
def Gapped (w : Window α) (ps : List (Point α)) : Prop :=
  ∃ p q, [p, q] <:+: ps ∧ w.Apart p.y q.y

/-- A single point leaves no gap. -/
theorem not_gapped_singleton (w : Window α) (p : Point α) : ¬ Gapped w [p] := by
  rintro ⟨a, b, hab, -⟩
  have hlen := hab.length_le
  simp at hlen

/-- A list leaves a gap at its head or in its tail. -/
theorem gapped_cons_cons (w : Window α) (p q : Point α) (ps : List (Point α)) :
    Gapped w (p :: q :: ps) ↔ w.Apart p.y q.y ∨ Gapped w (q :: ps) := by
  constructor
  · rintro ⟨a, b, hab, hgap⟩
    rcases List.infix_cons_iff.1 hab with hpre | hinf
    · obtain ⟨hp, htail⟩ := List.cons_prefix_cons.1 hpre
      obtain ⟨hq, -⟩ := List.cons_prefix_cons.1 htail
      exact .inl (hp ▸ hq ▸ hgap)
    · exact .inr ⟨a, b, hinf, hgap⟩
  · rintro (hgap | ⟨a, b, hab, hgap⟩)
    · exact ⟨p, q, ⟨[], ps, rfl⟩, hgap⟩
    · exact ⟨a, b, List.infix_cons_iff.2 (.inr hab), hgap⟩

/-- Samples leave a gap if the first two of them are apart. -/
theorem Samples.gapped_of_apart {y z : α} {i : Nat} {ps : List (Point α)}
    (h : Samples f w step i ps) (hx : w.abscissa step i < w.xMax)
    (hx' : w.abscissa step (i + 1) < w.xMax) (hy : f (w.abscissa step i) = .ok y)
    (hz : f (w.abscissa step (i + 1)) = .ok z) (hgap : w.Apart y z) : Gapped w ps := by
  cases h with
  | stop hstop => exact absurd hx hstop
  | point _ hy' hrest =>
    cases hy.symm.trans hy'
    cases hrest with
    | stop hstop => exact absurd hx' hstop
    | point _ hz' _ =>
      cases hz.symm.trans hz'
      exact (gapped_cons_cons ..).2 (.inl hgap)

/-! ## One pass -/

namespace Walk

/-- The state after a list of points of the curve. -/
def after (w : Window α) (s : Walk α) (ps : List (Point α)) : Walk α :=
  ps.foldl (fun s p => s.next w p.x p.y) s

@[simp] theorem after_nil (s : Walk α) : s.after w [] = s := rfl

@[simp] theorem after_cons (s : Walk α) (p : Point α) (ps : List (Point α)) :
    s.after w (p :: ps) = (s.next w p.x p.y).after w ps := rfl

/-- **One pass.** A pass that comes to its end has gone over the samples of its grid. -/
theorem follow_ok {limit i : Nat} {s t : Walk α} (h : follow f w step limit i s = (t, .ok ())) :
    ∃ ps, Samples f w step i ps ∧ t = s.after w ps := by
  induction limit generalizing i s with
  | zero => simp [follow] at h
  | succ limit ih =>
    rw [follow] at h
    by_cases hx : w.abscissa step i < w.xMax
    · rw [if_pos hx] at h
      cases hy : f (w.abscissa step i) with
      | error e => simp [hy] at h
      | ok y =>
        rw [hy] at h
        obtain ⟨ps, hps, ht⟩ := ih h
        exact ⟨_, .point hx hy hps, ht⟩
    · rw [if_neg hx] at h
      cases h
      exact ⟨[], .stop hx, rfl⟩

/-- A pass draws the visible points, after those that were drawn before it. -/
theorem points_after (s : Walk α) (ps : List (Point α)) :
    (s.after w ps).points.toList = s.points.toList ++ w.visible ps := by
  induction ps generalizing s with
  | nil => simp [Window.visible]
  | cons p ps ih =>
    rw [after_cons, ih]
    cases hp : w.shows p.y <;> simp [next, Window.visible, hp]

/-- A gap that is left stays, and a new one is left by a point apart from its predecessor, which may
be the point before the list. -/
theorem gap_after (s : Walk α) (p : Point α) (ps : List (Point α)) (hs : s.previous = some p.y) :
    (s.after w ps).gap = true ↔ s.gap = true ∨ Gapped w (p :: ps) := by
  induction ps generalizing s p with
  | nil => simp [not_gapped_singleton]
  | cons q ps ih =>
    have hgap : (s.next w q.x q.y).gap = true ↔ s.gap = true ∨ w.Apart p.y q.y := by
      simp [next, hs, Window.leavesGap_iff]
    rw [after_cons, ih (s.next w q.x q.y) q rfl, hgap, gapped_cons_cons, or_assoc]

/-- A pass leaves a gap exactly when some two neighbours of its points are apart. -/
theorem gap_start_after (points : Array (Point α)) (ps : List (Point α)) :
    ((start points).after w ps).gap = true ↔ Gapped w ps := by
  cases ps with
  | nil => simp [start, Gapped]
  | cons p ps =>
    rw [after_cons, gap_after ((start points).next w p.x p.y) p ps rfl]
    simp [next, start]

end Walk

/-! ## All passes -/

/-- What a complete trace is: the samples of its passes, what has been drawn, and the report. -/
structure Traced (f : Curve α) (w : Window α) (bound : Option Nat)
    (samples : List (List (Point α))) (points : List (Point α)) (r : Report α) : Prop where
  /-- There are as many passes as reported. -/
  passes_eq : r.passes = samples.length
  /-- There is a pass. -/
  passes_pos : 1 ≤ r.passes
  /-- There are no more passes than the bound allows. -/
  passes_le : ∀ b, bound = some b → r.passes ≤ max 1 b
  /-- The samples of each pass are those of its grid. -/
  samples_of_pass : ∀ k ps, samples[k]? = some ps → Samples f w (w.stepOf k) 0 ps
  /-- Every pass before the last one leaves a gap. -/
  gapped_of_lt : ∀ k ps, samples[k]? = some ps → k + 1 < r.passes → Gapped w ps
  /-- The step of the last pass is reported. -/
  finalStep_eq : r.finalStep = w.stepOf (r.passes - 1)
  /-- It is reported whether the last pass leaves a gap. -/
  gap_iff : r.gap = true ↔ ∃ ps, samples[r.passes - 1]? = some ps ∧ Gapped w ps
  /-- A gap remains only when the bound is met or the step can hardly be halved. -/
  gives_up : r.gap = true → (∃ b, bound = some b ∧ r.passes = max 1 b) ∨
    ¬ Scalar.ofNat 2 * Scalar.smallestPositive < r.finalStep / Scalar.ofNat 2
  /-- What is drawn are the visible samples, pass after pass. -/
  points_eq : points = (samples.map w.visible).flatten

/-- A trace with complete passes behind it and one more to come: each has left a gap, and they are
fewer than the bound allows. -/
structure Underway (f : Curve α) (w : Window α) (bound : Option Nat)
    (samples : List (List (Point α))) (points : List (Point α)) : Prop where
  /-- The samples of each pass are those of its grid. -/
  samples_of_pass : ∀ k ps, samples[k]? = some ps → Samples f w (w.stepOf k) 0 ps
  /-- Every pass leaves a gap. -/
  gapped : ∀ ps ∈ samples, Gapped w ps
  /-- The bound allows one more pass. -/
  length_lt : ∀ b, bound = some b → samples.length < max 1 b
  /-- What is drawn are the visible samples, pass after pass. -/
  points_eq : points = (samples.map w.visible).flatten

/-- Before the first pass, no pass has left a gap and the bound allows one. -/
theorem underway_start (f : Curve α) (w : Window α) (bound : Option Nat) :
    Underway f w bound [] [] :=
  ⟨nofun, nofun, fun b _ => Nat.lt_of_lt_of_le Nat.one_pos (Nat.le_max_left 1 b), rfl⟩

/-- A trace gives up when as many passes have been made as the bound allows, or when half of the
step is no longer above twice the least positive number. -/
theorem Trace.givesUp_iff (bound : Option Nat) (n : Nat) (step : α) :
    givesUp bound n step = true ↔ (∃ b, bound = some b ∧ b ≤ n) ∨
      ¬ Scalar.ofNat 2 * Scalar.smallestPositive < step / Scalar.ofNat 2 := by
  rw [givesUp, stepFloor, Bool.or_eq_true, Option.any_eq_true, Bool.not_eq_true',
    decide_eq_false_iff_not]
  simp only [decide_eq_true_eq]

/-- What holds of every element of a list and its index, and of one more element, holds of the list
with this element at its end. -/
theorem forall_getElem?_concat {β : Type} {P : Nat → β → Prop} {xs : List β} {x : β}
    (h : ∀ k y, xs[k]? = some y → P k y) (hx : P xs.length x) (k : Nat) (y : β)
    (hk : (xs ++ [x])[k]? = some y) : P k y := by
  rcases Nat.lt_or_ge k xs.length with hlt | hge
  · rw [List.getElem?_append_left hlt] at hk
    exact h k y hk
  · rw [List.getElem?_append_right hge, List.getElem?_singleton] at hk
    obtain ⟨hzero, hy⟩ := Option.ite_none_right_eq_some.1 hk
    cases hy
    rw [show k = xs.length by omega]
    exact hx

namespace Underway

variable {samples : List (List (Point α))} {points : List (Point α)} {ps : List (Point α)}

/-- A trace goes on after a pass that leaves a gap, unless it gives up. -/
theorem next (h : Underway f w bound samples points)
    (hps : Samples f w (w.stepOf samples.length) 0 ps) (hgap : Gapped w ps)
    (hbound : ∀ b, bound = some b → ¬ b ≤ samples.length + 1) :
    Underway f w bound (samples ++ [ps]) (points ++ w.visible ps) where
  samples_of_pass := forall_getElem?_concat h.samples_of_pass hps
  gapped := List.forall_mem_append.2 ⟨h.gapped, List.forall_mem_singleton.2 hgap⟩
  length_lt b hb := by
    have hlt := hbound b hb
    rw [List.length_append, List.length_singleton]
    omega
  points_eq := by simp [h.points_eq]

/-- A trace ends with a pass that leaves no gap, or gives up after one that does. -/
theorem last {r : Report α} (h : Underway f w bound samples points)
    (hps : Samples f w (w.stepOf samples.length) 0 ps) (hpasses : r.passes = samples.length + 1)
    (hstep : r.finalStep = w.stepOf samples.length) (hgap : r.gap = true ↔ Gapped w ps)
    (hup : r.gap = true → Trace.givesUp bound r.passes r.finalStep = true) :
    Traced f w bound (samples ++ [ps]) (points ++ w.visible ps) r where
  passes_eq := by simp [hpasses]
  passes_pos := by omega
  passes_le b hb := by
    have hlt := h.length_lt b hb
    omega
  samples_of_pass := forall_getElem?_concat h.samples_of_pass hps
  gapped_of_lt k qs hk hlt := by
    rw [List.getElem?_append_left (by omega)] at hk
    exact h.gapped qs (List.mem_of_getElem? hk)
  finalStep_eq := by rw [hpasses, hstep, Nat.add_sub_cancel]
  gap_iff := by simp [hpasses, hgap]
  gives_up hr := by
    rcases (Trace.givesUp_iff ..).1 (hup hr) with ⟨b, hb, hle⟩ | hfloor
    · have hlt := h.length_lt b hb
      exact .inl ⟨b, hb, by omega⟩
    · exact .inr hfloor
  points_eq := by simp [h.points_eq]

end Underway

/-- **All passes.** A trace that is underway and comes to its end is traced. -/
theorem Trace.traced_of_refine {limit count : Nat} {points : Array (Point α)}
    {passes : Array (Pass α)} {samples : List (List (Point α))} {r : Report α}
    (h : Underway f w bound samples points.toList) (hpasses : passes.size = samples.length)
    (hr : (refine f w bound limit count (w.stepOf samples.length) points passes).outcome = .ok r) :
    ∃ all, Traced f w bound all
      (refine f w bound limit count (w.stepOf samples.length) points passes).points.toList r := by
  induction count generalizing points passes samples with
  | zero => simp [refine] at hr
  | succ count ih =>
    rw [refine] at hr ⊢
    match hwalk : Walk.follow f w (w.stepOf samples.length) limit 0 (Walk.start points) with
    | (t, .error stop) => simp [hwalk] at hr
    | (t, .ok ()) =>
      obtain ⟨ps, hps, rfl⟩ := Walk.follow_ok hwalk
      have hgap := Walk.gap_start_after (w := w) points ps
      have hpoints : ((Walk.start points).after w ps).points.toList =
          points.toList ++ w.visible ps := Walk.points_after (Walk.start points) ps
      simp only [hwalk, Array.size_push, hpasses] at hr ⊢
      split at hr
      case isTrue hgo =>
        obtain ⟨hleft, hon⟩ := Bool.and_eq_true_iff.1 hgo
        rw [Bool.not_eq_true', ← Bool.not_eq_true, Trace.givesUp_iff] at hon
        have hnext := h.next hps (hgap.1 hleft) fun b hb hle => hon (.inl ⟨b, hb, hle⟩)
        have hlen : (samples ++ [ps]).length = samples.length + 1 := List.length_append
        have hsize :
            (passes.push ⟨w.stepOf samples.length, ((Walk.start points).after w ps).gap⟩).size =
              (samples ++ [ps]).length := by simp [hpasses]
        rw [if_pos hgo]
        rw [← hpoints] at hnext
        have hall := ih hnext hsize (by rw [hlen]; exact hr)
        rw [hlen] at hall
        exact hall
      case isFalse hstop =>
        rw [if_neg hstop]
        cases hr
        rw [hpoints]
        refine ⟨samples ++ [ps], h.last hps rfl rfl hgap fun hleft => ?_⟩
        have hgapped : ((Walk.start points).after w ps).gap = true := hleft
        simpa [hgapped] using hstop

/-- **What a complete trace is.** -/
theorem Trace.traced_of_ofCurve {r : Report α} (h : (ofCurve f w bound).outcome = .ok r) :
    ∃ samples, Traced f w bound samples (ofCurve f w bound).points.toList r :=
  traced_of_refine (underway_start f w bound) rfl h

end

end CurveArea
