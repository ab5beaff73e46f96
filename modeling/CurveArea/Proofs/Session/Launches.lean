import CurveArea.Proofs.Plane.Failing
import CurveArea.Proofs.Session.Endless

/-!
# What launches come to

A launch that has a result is told by its steps (`launch_ok_iff`), and one that fails by the first
step at fault (`Settings.FirstFault`): whenever there is a fault the launch fails in the way of the
first one, and otherwise it has a result or goes on for ever (`firstFault_or_sound`). No fault is
found in a trace, because the estimate before it has evaluated both programs, and one abscissa
tells for all of them whether a program has a value.
-/

namespace CurveArea

section
variable {α : Type} [Number α] {s : Settings α}

/-! ## Launches with a result -/

/-- What a launch with a result has gone through, given the programs of both formulas. -/
structure Launched (s : Settings α) (p q : Program α) (r : Result α) (x : Explanation) : Prop where
  /-- The first formula has its program. -/
  first_eq : Program.compile s.first = .ok p
  /-- The second formula has its program. -/
  second_eq : Program.compile s.second = .ok q
  /-- The bounds make the window. -/
  window_eq : Window.make s.xMin s.xMax s.yMin s.yMax = .ok r.window
  /-- The estimate is that of the stream of the seed. -/
  estimate_eq : (Estimate.withDraws p.evaluate q.evaluate r.window s.points
    (ChaCha.ofSeed s.seed)).outcome = .ok r.estimate
  /-- The draws are those of the estimate. -/
  draws_eq : r.draws = (Estimate.withDraws p.evaluate q.evaluate r.window s.points
    (ChaCha.ofSeed s.seed)).trials.draws
  /-- The first report is that of a trace of the first program. -/
  firstReport_eq : (Trace.ofCurve p.evaluate r.window (some s.passBound)).outcome =
    .ok r.firstReport
  /-- The first points are those of the same trace. -/
  firstPoints_eq : r.firstPoints = (Trace.ofCurve p.evaluate r.window (some s.passBound)).points
  /-- The second report is that of a trace of the second program. -/
  secondReport_eq : (Trace.ofCurve q.evaluate r.window (some s.passBound)).outcome =
    .ok r.secondReport
  /-- The second points are those of the same trace. -/
  secondPoints_eq : r.secondPoints = (Trace.ofCurve q.evaluate r.window (some s.passBound)).points
  /-- The explanation shows both programs and the counts. -/
  explanation_eq : x = ⟨p.write, q.write,
    Explanation.noteOf r.estimate.total r.firstReport.passes r.secondReport.passes⟩

/-- **Launches with a result.** -/
theorem launch_ok_iff {r : Result α} {x : Explanation} :
    s.launch.outcome = .ok (r, x) ↔ ∃ p q, Launched s p q r x := by
  simp only [Settings.launch, Recorded.bind_ok_iff, Recorded.outcome_compile,
    Recorded.outcome_window, Recorded.outcome_estimate, Recorded.mapError_eq_ok_iff,
    Recorded.report_ok_iff, Recorded.outcome_pure]
  constructor
  · rintro ⟨p, hp, q, hq, w, hw, e, he, r₁, hr₁, r₂, hr₂, ⟨⟩⟩
    exact ⟨p, q, hp, hq, hw, he, rfl, hr₁, rfl, hr₂, rfl, rfl⟩
  · rintro ⟨p, q, h⟩
    refine ⟨p, h.first_eq, q, h.second_eq, r.window, h.window_eq, r.estimate, h.estimate_eq,
      r.firstReport, h.firstReport_eq, r.secondReport, h.secondReport_eq, ?_⟩
    rw [h.explanation_eq, ← h.draws_eq, ← h.firstPoints_eq, ← h.secondPoints_eq]

/-! ## Faults -/

/-- The failure of the first step of a launch that is at fault. In their order, the steps are the
compilation of both formulas, the window, the count of draws, and the values of both programs. -/
inductive Settings.FirstFault (s : Settings α) : Failure α → Prop
  /-- The first formula has no program. -/
  | first {e : CompileError} (h : Program.compile (α := α) s.first = .error e) :
      FirstFault s (.compile e)
  /-- The second formula has no program. -/
  | second {p : Program α} {e : CompileError} (hp : Program.compile s.first = .ok p)
      (h : Program.compile (α := α) s.second = .error e) : FirstFault s (.compile e)
  /-- The bounds are no window. -/
  | window {p q : Program α} {e : WindowError α} (hp : Program.compile s.first = .ok p)
      (hq : Program.compile s.second = .ok q)
      (h : Window.make s.xMin s.xMax s.yMin s.yMax = .error e) : FirstFault s (.window e)
  /-- There is no draw to make. -/
  | points {p q : Program α} {w : Window α} (hp : Program.compile s.first = .ok p)
      (hq : Program.compile s.second = .ok q)
      (hw : Window.make s.xMin s.xMax s.yMin s.yMax = .ok w) (h : s.points = 0) :
      FirstFault s .noPoints
  /-- The first program has no value, at any abscissa. -/
  | firstValue {p q : Program α} {w : Window α} {e : EvalError}
      (hp : Program.compile s.first = .ok p) (hq : Program.compile s.second = .ok q)
      (hw : Window.make s.xMin s.xMax s.yMin s.yMax = .ok w) (hn : s.points ≠ 0)
      (h : Fails p.evaluate e) : FirstFault s (.evaluate e)
  /-- The second program has no value, at any abscissa. -/
  | secondValue {p q : Program α} {w : Window α} {e : EvalError}
      (hp : Program.compile s.first = .ok p) (hq : Program.compile s.second = .ok q)
      (hw : Window.make s.xMin s.xMax s.yMin s.yMax = .ok w) (hn : s.points ≠ 0)
      (hf : Total p.evaluate) (h : Fails q.evaluate e) : FirstFault s (.evaluate e)

/-- Settings without a fault: both formulas have programs with values everywhere, the bounds make a
window, and there are draws to make. -/
structure Settings.Sound (s : Settings α) (p q : Program α) (w : Window α) : Prop where
  /-- The first formula has its program. -/
  first_eq : Program.compile s.first = .ok p
  /-- The second formula has its program. -/
  second_eq : Program.compile s.second = .ok q
  /-- The bounds make the window. -/
  window_eq : Window.make s.xMin s.xMax s.yMin s.yMax = .ok w
  /-- There are draws to make. -/
  points_ne : s.points ≠ 0
  /-- The first program has values everywhere. -/
  first_total : Total p.evaluate
  /-- The second program has values everywhere. -/
  second_total : Total q.evaluate

/-- Settings have a fault, or none. -/
theorem firstFault_or_sound (s : Settings α) :
    (∃ failure, s.FirstFault failure) ∨ ∃ p q w, s.Sound p q w := by
  cases hp : Program.compile (α := α) s.first with
  | error e => exact .inl ⟨_, .first hp⟩
  | ok p =>
    cases hq : Program.compile (α := α) s.second with
    | error e => exact .inl ⟨_, .second hp hq⟩
    | ok q =>
      cases hw : Window.make s.xMin s.xMax s.yMin s.yMax with
      | error e => exact .inl ⟨_, .window hp hq hw⟩
      | ok w =>
        by_cases hn : s.points = 0
        · exact .inl ⟨_, .points hp hq hw hn⟩
        · rcases total_or_fails p with hpt | ⟨e, hpf⟩
          · rcases total_or_fails q with hqt | ⟨e, hqf⟩
            · exact .inr ⟨p, q, w, hp, hq, hw, hn, hpt, hqt⟩
            · exact .inl ⟨_, .secondValue hp hq hw hn hpt hqf⟩
          · exact .inl ⟨_, .firstValue hp hq hw hn hpf⟩

/-- A launch fails with its estimate. -/
theorem outcome_launch_of_estimate_error {p q : Program α} {w : Window α} {failure : Failure α}
    (hp : Program.compile s.first = .ok p) (hq : Program.compile s.second = .ok q)
    (hw : Window.make s.xMin s.xMax s.yMin s.yMax = .ok w)
    (he : (Estimate.withDraws p.evaluate q.evaluate w s.points (ChaCha.ofSeed s.seed)).outcome =
      .error failure) : s.launch.outcome = .error (.failure failure) := by
  simp only [Settings.launch, Recorded.outcome_bind, Recorded.outcome_compile,
    Recorded.outcome_window, Recorded.outcome_estimate, hp, hq, hw, he, Except.mapError,
    Except.bind]

/-- **Faults.** A launch with a fault fails, in the way of the first one. -/
theorem Settings.FirstFault.outcome_launch {failure : Failure α} (h : s.FirstFault failure) :
    s.launch.outcome = .error (.failure failure) := by
  cases h with
  | first h =>
    simp only [launch, Recorded.outcome_bind, Recorded.outcome_compile, h]
    rfl
  | second hp h =>
    simp only [launch, Recorded.outcome_bind, Recorded.outcome_compile, hp, h]
    rfl
  | window hp hq h =>
    simp only [launch, Recorded.outcome_bind, Recorded.outcome_compile, Recorded.outcome_window,
      hp, hq, h]
    rfl
  | points hp hq hw h =>
    refine outcome_launch_of_estimate_error hp hq hw ?_
    rw [h]
    rfl
  | firstValue hp hq hw hn h =>
    exact outcome_launch_of_estimate_error hp hq hw
      (Estimate.outcome_withDraws_of_error (Trials.classify_of_fails h) _ hn _)
  | secondValue hp hq hw hn hf h =>
    exact outcome_launch_of_estimate_error hp hq hw
      (Estimate.outcome_withDraws_of_error (Trials.classify_of_total_of_fails hf h) _ hn _)

/-- A trace of a program with values everywhere can only go on for ever or have a report. -/
theorem Trace.endless_or_report {f : Curve α} (hf : Total f) (w : Window α) (bound : Option Nat) :
    (ofCurve f w bound).outcome = .error .endless ∨
      ∃ r, (ofCurve f w bound).outcome = .ok r := by
  match houtcome : (ofCurve f w bound).outcome with
  | .ok r => exact .inr ⟨r, rfl⟩
  | .error .endless => exact .inl rfl
  | .error (.failure e) => exact absurd houtcome (refine_ne_failure hf)

/-- **No fault.** A launch without a fault has a result unless it goes on for ever. -/
theorem Settings.Sound.exists_answer {p q : Program α} {w : Window α} (h : s.Sound p q w)
    (hreturns : s.launch.outcome ≠ .error .endless) : ∃ answer, s.launch.outcome = .ok answer := by
  obtain ⟨e, he⟩ := (withDraws_ok_iff p q w s.points (ChaCha.ofSeed s.seed)).2
    ⟨h.points_ne, (total_evaluate_iff p).1 h.first_total, (total_evaluate_iff q).1 h.second_total⟩
  have hendless := fun htraces => hreturns ((launch_endless_iff s).2
    ⟨p, q, w, e, h.first_eq, h.second_eq, h.window_eq, he, htraces⟩)
  rcases Trace.endless_or_report h.first_total w (some s.passBound) with hfirst | ⟨r₁, hr₁⟩
  · exact absurd (.inl hfirst) hendless
  · rcases Trace.endless_or_report h.second_total w (some s.passBound) with hsecond | ⟨r₂, hr₂⟩
    · exact absurd (.inr ⟨⟨r₁, hr₁⟩, hsecond⟩) hendless
    · exact exists_launch_ok h.first_eq h.second_eq h.window_eq he hr₁ hr₂

/-- A launch with a result had no fault. -/
theorem Launched.sound {p q : Program α} {r : Result α} {x : Explanation}
    (h : Launched s p q r x) : s.Sound p q r.window := by
  obtain ⟨hn, hp, hq⟩ := (withDraws_ok_iff p q r.window s.points (ChaCha.ofSeed s.seed)).1
    ⟨r.estimate, h.estimate_eq⟩
  exact ⟨h.first_eq, h.second_eq, h.window_eq, hn, total_evaluate hp, total_evaluate hq⟩

/-! ## Every launch -/

/-- A launch that does not go on for ever fails with the first fault of its settings. -/
theorem outcome_launch_iff_firstFault (hreturns : s.launch.outcome ≠ .error .endless)
    (failure : Failure α) :
    s.launch.outcome = .error (.failure failure) ↔ s.FirstFault failure := by
  constructor
  · intro hfailure
    rcases firstFault_or_sound s with ⟨failure', hfault⟩ | ⟨p, q, w, hsound⟩
    · cases hfailure.symm.trans hfault.outcome_launch
      exact hfault
    · obtain ⟨answer, hanswer⟩ := hsound.exists_answer hreturns
      cases hfailure.symm.trans hanswer
  · exact Settings.FirstFault.outcome_launch

/-- A launch that does not go on for ever has a result when its settings have no fault. -/
theorem launch_ok_iff_no_fault (hreturns : s.launch.outcome ≠ .error .endless) :
    (∃ answer, s.launch.outcome = .ok answer) ↔ ∀ failure, ¬ s.FirstFault failure := by
  constructor
  · rintro ⟨answer, hanswer⟩ failure hfault
    cases hanswer.symm.trans hfault.outcome_launch
  · intro hnone
    rcases firstFault_or_sound s with ⟨failure, hfault⟩ | ⟨p, q, w, hsound⟩
    · exact absurd hfault (hnone failure)
    · exact hsound.exists_answer hreturns

/-- The first fault of two formulas does not depend on the rest of the settings, as long as both
bounds make windows and there are draws to make. -/
theorem Settings.FirstFault.congr {t : Settings α} {failure : Failure α}
    (hfirst : t.first = s.first) (hsecond : t.second = s.second)
    (hs : ∃ w, Window.make s.xMin s.xMax s.yMin s.yMax = .ok w)
    (ht : ∃ w, Window.make t.xMin t.xMax t.yMin t.yMax = .ok w)
    (hsn : 1 ≤ s.points) (htn : 1 ≤ t.points) (h : s.FirstFault failure) :
    t.FirstFault failure := by
  obtain ⟨w, hw⟩ := hs
  obtain ⟨w', hw'⟩ := ht
  have htn : t.points ≠ 0 := Nat.ne_of_gt htn
  cases h with
  | first h => exact .first (hfirst ▸ h)
  | second hp h => exact .second (hfirst ▸ hp) (hsecond ▸ h)
  | window hp hq h => cases hw.symm.trans h
  | points hp hq _ h => exact absurd h (Nat.ne_of_gt hsn)
  | firstValue hp hq _ _ h => exact .firstValue (hfirst ▸ hp) (hsecond ▸ hq) hw' htn h
  | secondValue hp hq _ _ hf h => exact .secondValue (hfirst ▸ hp) (hsecond ▸ hq) hw' htn hf h

/-- **What launches come to.** A launch that returns fails in the way of its first step at fault,
and has a result when there is none. A program that fails at one abscissa fails at all of them in
the same way, so no trace fails after an estimate that has succeeded. Two launches of the same
formulas that return both have a result or both fail in the same way, whatever the windows, the
draws, the seeds and the bounds on the passes. -/
theorem launch_outcome_of_ne_endless (s t : Settings α)
    (hs : s.launch.outcome ≠ .error .endless) (ht : t.launch.outcome ≠ .error .endless) :
    (∀ failure, s.launch.outcome = .error (.failure failure) ↔ s.FirstFault failure) ∧
    ((∃ answer, s.launch.outcome = .ok answer) ↔ ∀ failure, ¬ s.FirstFault failure) ∧
    (∀ (p : Program α) (x : α) (e : EvalError), p.evaluate x = .error e → Fails p.evaluate e) ∧
    (∀ (p q : Program α) (w : Window α) (n : Nat) (source : ChaCha) (e : Estimate α),
      (Estimate.withDraws p.evaluate q.evaluate w n source).outcome = .ok e → ∀ bound error,
        (Trace.ofCurve p.evaluate w bound).outcome ≠ .error (.failure error) ∧
        (Trace.ofCurve q.evaluate w bound).outcome ≠ .error (.failure error)) ∧
    (t.first = s.first → t.second = s.second →
      (∃ w, Window.make s.xMin s.xMax s.yMin s.yMax = .ok w) →
      (∃ w, Window.make t.xMin t.xMax t.yMin t.yMax = .ok w) → 1 ≤ s.points → 1 ≤ t.points →
      (∃ answer, s.launch.outcome = .ok answer) ∧ (∃ answer, t.launch.outcome = .ok answer) ∨
        ∃ failure, s.launch.outcome = .error (.failure failure) ∧
          t.launch.outcome = .error (.failure failure)) := by
  refine ⟨outcome_launch_iff_firstFault hs, launch_ok_iff_no_fault hs, ?_, ?_, ?_⟩
  · intro p x e hx y
    exact (p.evaluate_error_iff y e).2 ((p.evaluate_error_iff x e).1 hx)
  · intro p q w n source e he bound error
    obtain ⟨-, hp, hq⟩ := (withDraws_ok_iff p q w n source).1 ⟨e, he⟩
    exact ⟨Trace.refine_ne_failure (total_evaluate hp), Trace.refine_ne_failure (total_evaluate hq)⟩
  · intro hfirst hsecond hws hwt hsn htn
    -- With good windows and some draws, faults are those of the formulas, which both have.
    by_cases hfault : ∃ failure, s.FirstFault failure
    · obtain ⟨failure, hfault⟩ := hfault
      exact .inr ⟨failure, hfault.outcome_launch,
        (hfault.congr hfirst hsecond hws hwt hsn htn).outcome_launch⟩
    · refine .inl ⟨(launch_ok_iff_no_fault hs).2 fun failure h => hfault ⟨failure, h⟩,
        (launch_ok_iff_no_fault ht).2 fun failure h => hfault ⟨failure, ?_⟩⟩
      exact h.congr hfirst.symm hsecond.symm hwt hws htn hsn

end

/-- The formulas `x` and `x x` in the unit square. The second one leaves two numbers. -/
def leftoverSettings : Settings Float :=
  { Settings.default with first := "x", second := "x x" }

/-- The same formulas in a window in which no trace would end, with one draw from another seed. -/
def leftoverLeastSettings : Settings Float :=
  { leastSettings with second := "x x", seed := 7 }

/-- Both launches fail after the compilations, with the error of the second program. -/
theorem launch_outcome_of_ne_endless_leftover :
    let s := leftoverSettings
    let t := leftoverLeastSettings
    s.FirstFault (.evaluate (.leftover 2)) ∧ s.launch.outcome ≠ .error .endless ∧
      t.launch.outcome ≠ .error .endless ∧
      (∃ failure, s.launch.outcome = .error (.failure failure) ∧
        t.launch.outcome = .error (.failure failure)) := by
  intro s t
  have hload : Program.compile "x" = .ok (⟨[.load], 0⟩ : Program Float) := by rfl
  have htwo : Program.compile "x x" = .ok (⟨[.load, .load], 0⟩ : Program Float) := by rfl
  have htotal : Total (⟨[.load], 0⟩ : Program Float).evaluate := total_evaluate rfl
  have hfails : Fails (⟨[.load, .load], 0⟩ : Program Float).evaluate (.leftover 2) := fun _ => rfl
  have hs : s.FirstFault (.evaluate (.leftover 2)) :=
    .secondValue hload htwo Window.unit.make_bounds (by decide) htotal hfails
  have ht : t.FirstFault (.evaluate (.leftover 2)) :=
    .secondValue hload htwo leastWindow.make_bounds (by decide) htotal hfails
  have hsreturns : s.launch.outcome ≠ .error .endless := by
    rw [hs.outcome_launch]
    simp
  have htreturns : t.launch.outcome ≠ .error .endless := by
    rw [ht.outcome_launch]
    simp
  obtain ⟨-, hok, -, -, hsame⟩ := launch_outcome_of_ne_endless s t hsreturns htreturns
  refine ⟨hs, hsreturns, htreturns, ?_⟩
  rcases hsame rfl rfl ⟨_, Window.unit.make_bounds⟩ ⟨_, leastWindow.make_bounds⟩ (by decide)
    (by decide) with ⟨hanswer, -⟩ | hfailure
  · exact absurd hs (hok.1 hanswer _)
  · exact hfailure

end CurveArea
