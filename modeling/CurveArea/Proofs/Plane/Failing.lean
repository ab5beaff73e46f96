import CurveArea.Proofs.Plane.Draws

/-!
# What fails draws nothing

A program has values at all abscissas, or it fails at all of them in the same way
(`total_or_fails`), so an estimate or a trace can only fail at the first abscissa that it asks for.
Nothing has been drawn by then (`nothing_drawn_of_error`): a failing estimate has taken the two
words of its first trial, or none if there is no trial to make, and a failing trace has not drawn a
point.
-/

namespace CurveArea

/-- A curve fails at every abscissa, in the same way. -/
def Fails {α : Type} (f : Curve α) (e : EvalError) : Prop := ∀ x, f x = .error e

/-- One abscissa tells for all of them whether a program has a value. -/
theorem total_or_fails {α : Type} [Operations α] (p : Program α) :
    Total p.evaluate ∨ ∃ e, Fails p.evaluate e := by
  cases hverdict : p.verdict with
  | ok => exact .inl (total_evaluate hverdict)
  | error e => exact .inr ⟨e, fun x => (p.evaluate_error_iff x e).2 hverdict⟩

section
variable {α : Type} [Scalar α] {f g : Curve α} {w : Window α}

/-! ## Traces -/

namespace Walk

variable {step : α} {limit i : Nat} {e : EvalError}

/-- A pass along a curve with values everywhere does not fail. -/
theorem follow_ne_failure (hf : Total f) (s : Walk α) :
    (follow f w step limit i s).2 ≠ .error (.failure e) := by
  induction limit generalizing i s with
  | zero => simp [follow]
  | succ limit ih =>
    rw [follow]
    split
    case isTrue hin =>
      obtain ⟨y, hy⟩ := hf (w.abscissa step i)
      rw [hy]
      exact ih _
    case isFalse hout => simp

/-- A pass along a curve that fails leaves its state as it was: it ends where it begins. -/
theorem follow_of_fails (hf : Fails f e) (s : Walk α) : (follow f w step limit i s).1 = s := by
  cases limit with
  | zero => rfl
  | succ limit =>
    rw [follow]
    split
    case isTrue hin => rw [hf]
    case isFalse hout => rfl

end Walk

namespace Trace

variable {bound : Option Nat} {limit count : Nat} {step : α} {points : Array (Point α)}
  {passes : Array (Pass α)} {e : EvalError}

/-- A trace of a curve with values everywhere does not fail. -/
theorem refine_ne_failure (hf : Total f) :
    (refine f w bound limit count step points passes).outcome ≠ .error (.failure e) := by
  induction count generalizing step points passes with
  | zero => simp [refine]
  | succ count ih =>
    have hpass : (Walk.follow f w step limit 0 (Walk.start points)).2 ≠ .error (.failure e) :=
      Walk.follow_ne_failure hf _
    rw [refine]
    split
    case h_1 s stop hstop =>
      rw [hstop] at hpass
      exact fun h => hpass (by simpa using h)
    case h_2 s hok =>
      simp only
      split
      · exact ih
      · simp

/-- A trace of a curve that fails makes one pass at most, whatever bounds it: without samples there
is no gap, so the first pass is the last one. -/
theorem refine_succ_of_fails (hf : Fails f e) (bound : Option Nat) (count : Nat) :
    refine f w bound limit (count + 1) step points passes =
      match (Walk.follow f w step limit 0 (Walk.start points)).2 with
      | .error stop => ⟨points, passes, .error stop⟩
      | .ok () => ⟨points, passes.push ⟨step, false⟩,
          .ok ⟨(passes.push ⟨step, false⟩).size, step, false⟩⟩ := by
  have hpass : (Walk.follow f w step limit 0 (Walk.start points)).1 = Walk.start points :=
    Walk.follow_of_fails hf _
  rw [refine]
  rcases hwalk : Walk.follow f w step limit 0 (Walk.start points) with ⟨s, stop | _⟩
  all_goals
    rw [hwalk] at hpass
    obtain rfl : s = Walk.start points := hpass
    rfl

/-- A trace of a curve that fails draws nothing. -/
theorem points_refine_of_fails (hf : Fails f e) :
    (refine f w bound limit count step points passes).points = points := by
  cases count with
  | zero => rfl
  | succ count =>
    rw [refine_succ_of_fails hf]
    split <;> rfl

end Trace

/-! ## Estimates -/

namespace Trials

variable {σ : Type} [WordSource σ]

/-- Trials of which none can be classified end with the first one, which has taken its words. -/
theorem extend_of_error {e : EvalError} (h : ∀ x y, classify f g x y = .error e) (n : Nat)
    (t : Trials α σ) :
    extend f g w (n + 1) t = ({ t with source := WordSource.after 2 t.source }, .error e) := by
  simp only [extend, h]
  rfl

end Trials

end

section
variable {α σ : Type} [Number α] [WordSource σ]

/-- Nothing can be classified when the first curve fails. -/
theorem Trials.classify_of_fails {f g : Curve α} {e : EvalError} (hf : Fails f e) (x y : α) :
    classify f g x y = .error e := by
  rw [classify, hf]
  rfl

/-- Nothing can be classified when the second curve fails and the first one does not. -/
theorem Trials.classify_of_total_of_fails {f g : Curve α} {e : EvalError} (hf : Total f)
    (hg : Fails g e) (x y : α) : classify f g x y = .error e := by
  obtain ⟨a, ha⟩ := hf x
  rw [classify, ha, hg]
  rfl

/-- No point can be classified when one of two programs fails. -/
theorem Trials.exists_classify_eq_error {p q : Program α}
    (h : ¬ (Total p.evaluate ∧ Total q.evaluate)) :
    ∃ e, ∀ x y, classify p.evaluate q.evaluate x y = .error e := by
  rcases total_or_fails p with hp | ⟨e, hp⟩
  · rcases total_or_fails q with hq | ⟨e, hq⟩
    · exact absurd ⟨hp, hq⟩ h
    · exact ⟨e, classify_of_total_of_fails hp hq⟩
  · exact ⟨e, classify_of_fails hp⟩

/-- An estimate fails with the error of its first trial when no point can be classified. -/
theorem Estimate.outcome_withDraws_of_error {f g : Curve α} {e : EvalError}
    (h : ∀ x y, Trials.classify f g x y = .error e) (w : Window α) {n : Nat} (hn : n ≠ 0)
    (source : σ) : (withDraws f g w n source).outcome = .error (.evaluate e) := by
  obtain ⟨n, rfl⟩ := Nat.exists_eq_succ_of_ne_zero hn
  rw [withDraws, if_neg hn, Trials.extend_of_error h]

/-- A failing estimate is one of no draw, or of programs that fail at the first one. -/
theorem Estimate.withDraws_error {p q : Program α} {w : Window α} {n : Nat} {source : σ}
    {failure : Failure α}
    (h : (withDraws p.evaluate q.evaluate w n source).outcome = .error failure) :
    failure = .noPoints ∧ n = 0 ∧
        (withDraws p.evaluate q.evaluate w n source).trials = .start source ∨
      (∃ e, failure = .evaluate e) ∧ n ≠ 0 ∧
        (withDraws p.evaluate q.evaluate w n source).trials =
          .start (WordSource.after 2 source) := by
  cases n with
  | zero =>
    cases h
    exact .inl ⟨rfl, rfl, rfl⟩
  | succ n =>
    right
    by_cases htotal : Total p.evaluate ∧ Total q.evaluate
    · obtain ⟨t, ht⟩ := Trials.extend_ok (w := w) htotal.1 htotal.2 (n + 1) (.start source)
      simp [withDraws, ht] at h
    · obtain ⟨e, he⟩ := Trials.exists_classify_eq_error htotal
      have hfirst := Trials.extend_of_error (w := w) he n (.start source)
      simp only [withDraws, hfirst] at h ⊢
      cases h
      exact ⟨⟨e, rfl⟩, n.succ_ne_zero, rfl⟩

/-- **Nothing is drawn by what fails.** A failing estimate of two programs has made no draw; it has
taken no word if no draw is asked for, and two words if a program has no value. A failing trace of
a program has drawn no point, whether its passes are bounded or not. -/
theorem nothing_drawn_of_error (p q : Program α) (w : Window α) (n : Nat) (source : σ) :
    (∀ failure, (Estimate.withDraws p.evaluate q.evaluate w n source).outcome = .error failure →
      (Estimate.withDraws p.evaluate q.evaluate w n source).trials.draws = #[] ∧
      (failure = .noPoints ∧ n = 0 ∧
          (Estimate.withDraws p.evaluate q.evaluate w n source).trials.source = source ∨
        (∃ e, failure = .evaluate e) ∧ n ≠ 0 ∧
          (Estimate.withDraws p.evaluate q.evaluate w n source).trials.source =
            WordSource.after 2 source)) ∧
    ∀ bound e, (Trace.ofCurve p.evaluate w bound).outcome = .error (.failure e) →
      (Trace.ofCurve p.evaluate w bound).points = #[] := by
  refine ⟨fun failure h => ?_, fun bound e h => ?_⟩
  · rcases Estimate.withDraws_error h with ⟨hfailure, hn, htrials⟩ | ⟨hfailure, hn, htrials⟩
    · rw [htrials]
      exact ⟨rfl, .inl ⟨hfailure, hn, rfl⟩⟩
    · rw [htrials]
      exact ⟨rfl, .inr ⟨hfailure, hn, rfl⟩⟩
  · rcases total_or_fails p with htotal | ⟨e', hfails⟩
    · exact absurd h (Trace.refine_ne_failure htotal)
    · exact Trace.points_refine_of_fails hfails

/-- A formula with an open parenthesis in the unit square: its estimate fails after two words, its
trace at once, and neither draws. -/
theorem nothing_drawn_of_error_open :
    let p : Program Float := ⟨[.load], 1⟩
    let q : Program Float := ⟨[.push (Scalar.ofNat 0)], 0⟩
    let w := Window.unit
    let source := Cycle.ofList [1, 2, 3]
    let estimation := Estimate.withDraws q.evaluate p.evaluate w 5 source
    let trace := Trace.ofCurve p.evaluate w none
    estimation.outcome = .error (.evaluate (.unclosed 1)) ∧ estimation.trials.draws = #[] ∧
      estimation.trials.source = WordSource.after 2 source ∧
      trace.outcome = .error (.failure (.unclosed 1)) ∧ trace.points = #[] := by
  intro p q w source estimation trace
  have hestimation : estimation.outcome = .error (.evaluate (.unclosed 1)) := by rfl
  have htrace : trace.outcome = .error (.failure (.unclosed 1)) := by decide +kernel
  obtain ⟨hdraws, hsource⟩ := (nothing_drawn_of_error q p w 5 source).1 _ hestimation
  have hpoints := (nothing_drawn_of_error p q w 5 source).2 none _ htrace
  refine ⟨hestimation, hdraws, ?_, htrace, hpoints⟩
  rcases hsource with ⟨hfailure, -⟩ | ⟨-, -, hsource⟩
  · cases hfailure
  · exact hsource

end

end CurveArea
