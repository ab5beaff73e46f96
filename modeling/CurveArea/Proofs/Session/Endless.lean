import CurveArea.Proofs.Plane.Draws
import CurveArea.Proofs.Plane.Traces
import CurveArea.Session.Launch

/-!
# Launches that never end

A launch goes on for ever only in one of its traces, so only after everything before them has
succeeded (`launch_endless_iff`). Both curves then have values everywhere. In binary64, with the
passes bounded as clamped settings bound them, a trace of such a curve never ends exactly when the
window is too narrow for a positive step (`launch_clamped_endless_iff`).
-/

namespace CurveArea

/-! ## Outcomes of recorded computations -/

namespace Recorded

variable {α β γ : Type}

/-- One answer after another: the second is not asked for if the first fails. -/
theorem outcome_bind (m : Recorded α β) (k : β → Recorded α γ) :
    (m >>= k).outcome = m.outcome.bind fun b => (k b).outcome := by
  obtain ⟨es, outcome⟩ := m
  cases outcome <;> rfl

/-- A computation goes on for ever when one of its steps does. -/
theorem bind_endless_iff (m : Recorded α β) (k : β → Recorded α γ) :
    (m >>= k).outcome = .error .endless ↔
      m.outcome = .error .endless ∨ ∃ b, m.outcome = .ok b ∧ (k b).outcome = .error .endless := by
  rw [outcome_bind]
  cases m.outcome <;> simp [Except.bind]

/-- A computation has an answer when its steps have one after the other. -/
theorem bind_ok_iff (m : Recorded α β) (k : β → Recorded α γ) (c : γ) :
    (m >>= k).outcome = .ok c ↔ ∃ b, m.outcome = .ok b ∧ (k b).outcome = .ok c := by
  rw [outcome_bind]
  cases m.outcome <;> simp [Except.bind]

/-- A step that can only fail comes to its result or to its failure. -/
theorem outcome_ofExcept (e : Except (Failure α) β) :
    (ofExcept e).outcome = e.mapError .failure := rfl

/-- What compiling comes to does not depend on what is recorded. -/
theorem outcome_compile [Numeral α] (text : String) :
    (compile (α := α) .standard text).outcome =
      (Program.compile text).mapError fun e => .failure (.compile e) := by
  simp only [compile, Program.compile, Program.compileWith, outcome_bind, outcome_ofExcept, write]
  cases Token.read (α := α) text with
  | error e => rfl
  | ok tokens =>
    change _ = (Program.ofTokens .standard tokens).mapError _
    cases hprogram : Program.ofTokens .standard tokens <;>
      simp [Except.mapError, Except.bind, hprogram]

/-- What becomes of the bounds, with their fault as a failure. -/
theorem outcome_window [Scalar α] (xMin xMax yMin yMax : α) :
    (window xMin xMax yMin yMax).outcome =
      (Window.make xMin xMax yMin yMax).mapError fun e => .failure (.window e) := by
  cases hmake : Window.make xMin xMax yMin yMax <;> simp [window, ofExcept, Except.mapError, hmake]

/-- What an estimate comes to does not depend on what is recorded. -/
theorem outcome_estimate {σ : Type} (e : Estimation α σ) :
    (estimate e).outcome = e.outcome.mapError .failure := by
  cases houtcome : e.outcome <;>
    simp [estimate, outcome_bind, outcome_ofExcept, write, Except.mapError, Except.bind, houtcome]

/-- What can only fail does not go on for ever. -/
theorem mapError_ne_endless {ε : Type} (e : Except ε β) {g : ε → Stop (Failure α)}
    (hg : ∀ x, g x ≠ .endless) : e.mapError g ≠ .error .endless := by
  cases e <;> simp [Except.mapError, hg]

/-- Translating the errors does not change what succeeds. -/
theorem mapError_eq_ok_iff {ε δ : Type} (e : Except ε β) (g : ε → δ) (b : β) :
    e.mapError g = .ok b ↔ e = .ok b := by
  cases e <;> simp [Except.mapError]

/-- Recording a trace does not make it end. -/
theorem report_endless_iff (p : Program α) (t : Trace α) :
    (report p t).outcome = .error .endless ↔ t.outcome = .error .endless := by
  match houtcome : t.outcome with
  | .ok r => simp [report, houtcome]
  | .error (.failure e) => simp [report, houtcome]
  | .error .endless => simp [report, houtcome]

/-- Recording a trace does not change its report. -/
theorem report_ok_iff (p : Program α) (t : Trace α) (r : Report α) :
    (report p t).outcome = .ok r ↔ t.outcome = .ok r := by
  match houtcome : t.outcome with
  | .ok r => simp [report, houtcome]
  | .error (.failure e) => simp [report, houtcome]
  | .error .endless => simp [report, houtcome]

end Recorded

section
variable {α : Type} [Number α]

/-- **Endless launches.** A launch goes on for ever when everything before its traces succeeds, and
the first trace does or, after it, the second one. -/
theorem launch_endless_iff (s : Settings α) :
    s.launch.outcome = .error .endless ↔ ∃ (p q : Program α) (w : Window α) (e : Estimate α),
      Program.compile s.first = .ok p ∧ Program.compile s.second = .ok q ∧
      Window.make s.xMin s.xMax s.yMin s.yMax = .ok w ∧
      (Estimate.withDraws p.evaluate q.evaluate w s.points (ChaCha.ofSeed s.seed)).outcome = .ok e ∧
      ((Trace.ofCurve p.evaluate w (some s.passBound)).outcome = .error .endless ∨
        (∃ r, (Trace.ofCurve p.evaluate w (some s.passBound)).outcome = .ok r) ∧
          (Trace.ofCurve q.evaluate w (some s.passBound)).outcome = .error .endless) := by
  simp only [Settings.launch, Recorded.bind_endless_iff, Recorded.outcome_compile,
    Recorded.outcome_window, Recorded.outcome_estimate, Recorded.mapError_eq_ok_iff,
    Recorded.report_endless_iff, Recorded.report_ok_iff, Recorded.outcome_pure,
    Recorded.mapError_ne_endless, ne_eq, reduceCtorEq, not_false_eq_true, implies_true, false_or,
    and_false, exists_false, or_false]
  constructor
  · rintro ⟨p, hp, q, hq, w, hw, e, he, hfirst | ⟨r, hr, hsecond⟩⟩
    · exact ⟨p, q, w, e, hp, hq, hw, he, .inl hfirst⟩
    · exact ⟨p, q, w, e, hp, hq, hw, he, .inr ⟨⟨r, hr⟩, hsecond⟩⟩
  · rintro ⟨p, q, w, e, hp, hq, hw, he, hfirst | ⟨⟨r, hr⟩, hsecond⟩⟩
    · exact ⟨p, hp, q, hq, w, hw, e, he, .inl hfirst⟩
    · exact ⟨p, hp, q, hq, w, hw, e, he, .inr ⟨r, hr, hsecond⟩⟩

/-- A launch has a result when each of its steps has one. -/
theorem exists_launch_ok {s : Settings α} {p q : Program α} {w : Window α} {e : Estimate α}
    {r₁ r₂ : Report α} (hp : Program.compile s.first = .ok p)
    (hq : Program.compile s.second = .ok q)
    (hw : Window.make s.xMin s.xMax s.yMin s.yMax = .ok w)
    (he : (Estimate.withDraws p.evaluate q.evaluate w s.points (ChaCha.ofSeed s.seed)).outcome =
      .ok e)
    (hr₁ : (Trace.ofCurve p.evaluate w (some s.passBound)).outcome = .ok r₁)
    (hr₂ : (Trace.ofCurve q.evaluate w (some s.passBound)).outcome = .ok r₂) :
    ∃ answer, s.launch.outcome = .ok answer := by
  simp only [Settings.launch, Recorded.bind_ok_iff, Recorded.outcome_compile,
    Recorded.outcome_window, Recorded.outcome_estimate, Recorded.mapError_eq_ok_iff,
    Recorded.report_ok_iff, Recorded.outcome_pure]
  exact ⟨_, p, hp, q, hq, w, hw, e, he, r₁, hr₁, r₂, hr₂, rfl⟩

end

/-! ## Narrow windows -/

/-- The counts of clamped settings are neither too small nor too large for a launch to end. -/
theorem Settings.clamped_counts {α : Type} (s : Settings α) :
    s.clamped.points ≠ 0 ∧ s.clamped.passBound ≤ 50 := by
  simp only [clamped, clampNat, mostPasses]
  omega

/-- A launch of clamped settings goes on for ever when both formulas have values and the window is
narrow. -/
theorem launch_clamped_endless_iff (s : Settings Float) :
    s.clamped.launch.outcome = .error .endless ↔
      ∃ (p q : Program Float) (w : Window Float),
        Program.compile s.first = .ok p ∧ Program.compile s.second = .ok q ∧
        Window.make s.xMin s.xMax s.yMin s.yMax = .ok w ∧
        Total p.evaluate ∧ Total q.evaluate ∧ w.width ≤ Window.narrow := by
  obtain ⟨hpoints, hbound⟩ := s.clamped_counts
  rw [launch_endless_iff]
  constructor
  · rintro ⟨p, q, w, e, hp, hq, hw, he, htrace⟩
    obtain ⟨-, hpv, hqv⟩ := (withDraws_ok_iff p q w _ _).1 ⟨e, he⟩
    have hpt := total_evaluate hpv
    have hqt := total_evaluate hqv
    refine ⟨p, q, w, hp, hq, hw, hpt, hqt, ?_⟩
    rcases htrace with hfirst | ⟨-, hsecond⟩
    · exact (ofCurve_endless_iff hpt w hbound).1 hfirst
    · exact (ofCurve_endless_iff hqt w hbound).1 hsecond
  · rintro ⟨p, q, w, hp, hq, hw, hpt, hqt, hnarrow⟩
    obtain ⟨e, he⟩ := (withDraws_ok_iff p q w s.clamped.points (ChaCha.ofSeed s.seed)).2
      ⟨hpoints, (total_evaluate_iff p).1 hpt, (total_evaluate_iff q).1 hqt⟩
    exact ⟨p, q, w, e, hp, hq, hw, he, .inl ((ofCurve_endless_iff hpt w hbound).2 hnarrow)⟩

/-- In every other window such a launch has a result. -/
theorem exists_launch_clamped_ok {s : Settings Float} {p q : Program Float} {w : Window Float}
    (hp : Program.compile s.first = .ok p) (hq : Program.compile s.second = .ok q)
    (hw : Window.make s.xMin s.xMax s.yMin s.yMax = .ok w) (hpv : p.verdict = .ok ())
    (hqv : q.verdict = .ok ()) (hwide : ¬ w.width ≤ Window.narrow) :
    ∃ answer, s.clamped.launch.outcome = .ok answer := by
  obtain ⟨hpoints, hbound⟩ := s.clamped_counts
  obtain ⟨e, he⟩ := (withDraws_ok_iff p q w s.clamped.points (ChaCha.ofSeed s.seed)).2
    ⟨hpoints, hpv, hqv⟩
  obtain ⟨r₁, hr₁⟩ := exists_report (total_evaluate hpv) hwide hbound
  obtain ⟨r₂, hr₂⟩ := exists_report (total_evaluate hqv) hwide hbound
  exact exists_launch_ok hp hq hw he hr₁ hr₂

/-- **Launches and passes that never end.** A launch of clamped settings goes on for ever exactly
when both formulas have values everywhere and the window is narrow. In a narrow window no abscissa
of the first pass reaches the right bound. In every other window all steps that are used are
positive, and each pass reaches the right bound in a count of abscissas that doubles with the
passes, while the counter can number them. -/
theorem endless_iff_narrow (s : Settings Float) :
    (s.clamped.launch.outcome = .error .endless ↔
      ∃ (p q : Program Float) (w : Window Float),
        Program.compile s.first = .ok p ∧ Program.compile s.second = .ok q ∧
        Window.make s.xMin s.xMax s.yMin s.yMax = .ok w ∧
        Total p.evaluate ∧ Total q.evaluate ∧ w.width ≤ Window.narrow) ∧
    ∀ w : Window Float,
      (w.width ≤ Window.narrow → ∀ i < Trace.counterLimit,
        w.abscissa w.firstStep i < w.xMax) ∧
      (¬ w.width ≤ Window.narrow → ∀ k, w.Used k →
        (Scalar.ofNat 0 : Float) < w.stepOf k ∧
          (12000 * 2 ^ k < Trace.counterLimit →
            ∃ n ≤ 12000 * 2 ^ k, ¬ w.abscissa (w.stepOf k) n < w.xMax)) := by
  refine ⟨launch_clamped_endless_iff s, fun w => ⟨?_, ?_⟩⟩
  · intro hnarrow i hi
    exact Window.abscissa_lt_xMax_of_narrow hnarrow hi
  · intro hwide k hk
    exact ⟨Window.stepOf_pos hwide hk, Window.exists_not_abscissa_lt hwide hk⟩

/-- The window between zero and the least positive number, above the diagonal. -/
def leastWindow : Window Float where
  xMin := Scalar.ofNat 0
  xMax := Scalar.smallestPositive
  yMin := Scalar.ofNat 1
  yMax := Scalar.ofNat 2
  x_lt := by decide +kernel
  y_lt := by decide +kernel
  area_finite := by decide +kernel

/-- One draw and one pass between two diagonals in that window. -/
def leastSettings : Settings Float :=
  { Settings.default with
    first := "x"
    second := "x"
    xMax := Scalar.smallestPositive
    yMin := Scalar.ofNat 1
    yMax := Scalar.ofNat 2
    points := 1
    passBound := 1 }

/-- The launch of these settings, clamped as they are, goes on for ever. -/
theorem launch_leastSettings :
    leastSettings.clamped = leastSettings ∧ leastSettings.launch.outcome = .error .endless := by
  have hclamped : leastSettings.clamped = leastSettings := rfl
  have hcompile : Program.compile "x" = .ok (⟨[.load], 0⟩ : Program Float) := by rfl
  have htotal : Total (⟨[.load], 0⟩ : Program Float).evaluate := total_evaluate rfl
  have hnarrow : leastWindow.width ≤ Window.narrow := by decide +kernel
  refine ⟨hclamped, ?_⟩
  rw [← hclamped]
  exact (launch_clamped_endless_iff leastSettings).2
    ⟨_, _, leastWindow, hcompile, hcompile, leastWindow.make_bounds, htotal, htotal, hnarrow⟩

end CurveArea
