import CurveArea.Proofs.Formula.Run
import CurveArea.Proofs.Plane.Passes
import Mathlib

/-!
# Where traces end

A pass comes to its end when an abscissa that its counter can number is not below the right bound,
and goes on for ever when there is none. So a bounded trace of a curve that has values everywhere
ends if each pass that it can make has such an abscissa (`Trace.ofCurve_ends`), and never ends if
the first pass has none (`Trace.ofCurve_endless`). Which windows have them is a matter of the
arithmetic.
-/

namespace CurveArea

/-- A curve has a value at every abscissa. -/
def Total {α : Type} (f : Curve α) : Prop := ∀ x, ∃ y, f x = .ok y

/-- A program that has a value at one abscissa has one at all of them. -/
theorem total_evaluate {α : Type} [Operations α] {p : Program α} (h : p.verdict = .ok ()) :
    Total p.evaluate := fun x => (p.evaluate_ok_iff x).2 h

section
variable {α : Type} [Scalar α] {f : Curve α} {w : Window α}

namespace Window

/-- A pass at the step of number `k` reaches the right bound in fewer than `limit` abscissas. -/
def Reaches (w : Window α) (limit k : Nat) : Prop :=
  ∃ n < limit, ¬ w.abscissa (w.stepOf k) n < w.xMax

/-- The steps that passes are made at: the first one, and those above the floor. -/
def Used (w : Window α) (k : Nat) : Prop := k = 0 ∨ Trace.stepFloor < w.stepOf k

end Window

namespace Walk

variable {step : α} {n limit i : Nat}

/-- A pass ends when an abscissa before the limit is not below the right bound. -/
theorem follow_ends (hf : Total f) (hn : n < limit)
    (hx : ¬ w.abscissa step (i + n) < w.xMax) (s : Walk α) :
    ∃ t, follow f w step limit i s = (t, .ok ()) := by
  induction limit generalizing n i s with
  | zero => omega
  | succ limit ih =>
    by_cases hin : w.abscissa step i < w.xMax
    · obtain ⟨y, hy⟩ := hf (w.abscissa step i)
      match n with
      | 0 => exact absurd hin hx
      | n + 1 =>
        rw [← Nat.add_assoc, Nat.add_right_comm] at hx
        obtain ⟨t, ht⟩ := ih (Nat.lt_of_succ_lt_succ hn) hx (s.next w (w.abscissa step i) y)
        exact ⟨t, by rw [follow, if_pos hin, hy]; exact ht⟩
    · exact ⟨s, by rw [follow, if_neg hin]⟩

/-- A pass goes on for ever when no abscissa before the limit reaches the right bound. -/
theorem follow_endless (hf : Total f) (hx : ∀ j < limit, w.abscissa step (i + j) < w.xMax)
    (s : Walk α) : ∃ t, follow f w step limit i s = (t, .error .endless) := by
  induction limit generalizing i s with
  | zero => exact ⟨s, rfl⟩
  | succ limit ih =>
    have hin : w.abscissa step i < w.xMax := hx 0 (Nat.succ_pos limit)
    obtain ⟨y, hy⟩ := hf (w.abscissa step i)
    obtain ⟨t, ht⟩ := ih (i := i + 1)
      (fun j hj => by
        have hnext := hx (j + 1) (Nat.succ_lt_succ hj)
        rwa [← Nat.add_assoc, Nat.add_right_comm] at hnext)
      (s.next w (w.abscissa step i) y)
    exact ⟨t, by rw [follow, if_pos hin, hy]; exact ht⟩

end Walk

namespace Trace

/-- The counter of a pass is one word. -/
theorem counterLimit_eq : counterLimit = 2 ^ 64 := rfl

/-- A trace within its bound comes to its end when all passes that it can make do. -/
theorem refine_ends (hf : Total f) {b limit count : Nat} {step : α} {points : Array (Point α)}
    {passes : Array (Pass α)} (hreach : ∀ k < max 1 b, w.Used k → w.Reaches limit k)
    (hcount : max 1 b ≤ passes.size + count) (hsize : passes.size < max 1 b)
    (hstep : step = w.stepOf passes.size) (hused : w.Used passes.size) :
    ∃ r, (refine f w (some b) limit count step points passes).outcome = .ok r := by
  induction count generalizing step points passes with
  | zero => omega
  | succ count ih =>
    obtain ⟨n, hn, hx⟩ := hreach _ hsize hused
    rw [← hstep] at hx
    obtain ⟨t, ht⟩ := Walk.follow_ends hf hn (i := 0) (by rwa [Nat.zero_add]) (Walk.start points)
    have hpush : (passes.push ⟨step, t.gap⟩).size = passes.size + 1 := Array.size_push ..
    simp only [refine, ht]
    split
    case isTrue hgo =>
      obtain ⟨-, hon⟩ := Bool.and_eq_true_iff.1 hgo
      rw [Bool.not_eq_true', ← Bool.not_eq_true, givesUp_iff, hpush] at hon
      have hlt : passes.size + 1 < b := by
        by_contra hle
        exact hon (.inl ⟨b, rfl, by omega⟩)
      have hnext : step / Scalar.ofNat 2 = w.stepOf (passes.push ⟨step, t.gap⟩).size := by
        rw [hpush, hstep]
        rfl
      have hfloor : w.Used (passes.push ⟨step, t.gap⟩).size := by
        by_contra hnot
        exact hon (.inr fun h => hnot (.inr (hnext ▸ h)))
      exact ih (by omega) (by omega) hnext hfloor
    case isFalse hstop => exact ⟨_, rfl⟩

/-- A trace ends when each of the passes it may make reaches the right bound. -/
theorem ofCurve_ends (hf : Total f) {b : Nat} (hb : max 1 b ≤ counterLimit)
    (hreach : ∀ k < max 1 b, w.Used k → w.Reaches counterLimit k) :
    ∃ r, (ofCurve f w (some b)).outcome = .ok r := by
  have hcount : max 1 b ≤ (#[] : Array (Pass α)).size + counterLimit := by
    rw [Array.size_empty, Nat.zero_add]
    exact hb
  have hsize : (#[] : Array (Pass α)).size < max 1 b := by
    rw [Array.size_empty]
    omega
  exact refine_ends hf hreach hcount hsize rfl (.inl rfl)

/-- A trace goes on for ever when its next pass does. -/
theorem refine_endless {step : α} {limit : Nat} {points : Array (Point α)} {t : Walk α}
    (h : Walk.follow f w step limit 0 (Walk.start points) = (t, .error .endless))
    (bound : Option Nat) (count : Nat) (passes : Array (Pass α)) :
    (refine f w bound limit count step points passes).outcome = .error .endless := by
  cases count with
  | zero => rfl
  | succ count => simp only [refine, h]

/-- A trace whose first pass never reaches the right bound never ends, whatever bounds the
passes. -/
theorem ofCurve_endless (hf : Total f)
    (hx : ∀ i < counterLimit, w.abscissa w.firstStep i < w.xMax) (bound : Option Nat) :
    (ofCurve f w bound).outcome = .error .endless := by
  obtain ⟨t, ht⟩ := Walk.follow_endless hf (i := 0)
    (fun j hj => by rw [Nat.zero_add]; exact hx j hj) (Walk.start #[])
  exact refine_endless ht bound counterLimit #[]

end Trace

end

end CurveArea
