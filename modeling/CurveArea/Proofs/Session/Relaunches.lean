import CurveArea.Proofs.Session.Histories
import CurveArea.Proofs.Session.Launches

/-!
# Launches after different histories

A launch starts from the settings alone, and what it comes to takes the place of all that was shown
before (`perform_of_launched`). So it does not matter what two sessions have gone through: if they
have the same settings, then the same launch leaves them alike (`perform_launch_alike`).
-/

namespace CurveArea

namespace Session

variable {α : Type} [Number α] {s s' : Session α} {a : Action α} {q : Settings α}

/-- Two sessions have the same settings and the same to show. -/
structure Alike (s s' : Session α) : Prop where
  /-- The settings are the same. -/
  settings_eq : s.settings = s'.settings
  /-- The error is the same. -/
  error_eq : s.error = s'.error
  /-- The result is the same. -/
  result_eq : s.result = s'.result
  /-- The explanation is the same. -/
  explanation_eq : s.explanation = s'.explanation

/-- The session with what a launch has come to, given the settings of the launch. -/
def showing (s : Session α) (q : Settings α) :
    Except (Stop (Failure α)) (Result α × Explanation) → Option (Session α)
  | .ok (r, x) => some ({ s with settings := q }.withResult r x)
  | .error (.failure e) => some ({ s with settings := q }.withError e.message)
  | .error .endless => none

/-- All that a session had to show before is replaced. -/
theorem showing_showing {outcome : Except (Stop (Failure α)) (Result α × Explanation)}
    (h : s.showing q outcome = some s') : s'.showing q outcome = some s' := by
  match outcome with
  | .ok (r, x) | .error (.failure e) =>
    cases h
    rfl
  | .error .endless => cases h

/-- What a launch shows comes with its settings. -/
theorem settings_of_showing {outcome : Except (Stop (Failure α)) (Result α × Explanation)}
    (h : s.showing q outcome = some s') : s'.settings = q := by
  match outcome with
  | .ok (r, x) | .error (.failure e) =>
    cases h
    rfl
  | .error .endless => cases h

/-- What a launch shows does not depend on what was shown before. -/
theorem showing_alike (s s' : Session α) (q : Settings α)
    (outcome : Except (Stop (Failure α)) (Result α × Explanation)) :
    (s.showing q outcome = none ∧ s'.showing q outcome = none) ∨
      ∃ t t', s.showing q outcome = some t ∧ s'.showing q outcome = some t' ∧ t.Alike t' := by
  match outcome with
  | .ok (r, x) | .error (.failure e) => exact .inr ⟨_, _, rfl, rfl, rfl, rfl, rfl, rfl⟩
  | .error .endless => exact .inl ⟨rfl, rfl⟩

/-! ## Actions that launch -/

/-- The settings of a launch are clamped. -/
theorem clamped_of_launched (h : s.launched? a = some q) : q.clamped = q := by
  cases a <;> cases h <;> exact Settings.clamped_clamped _

/-- Only the settings matter to whether and with which settings an action launches. -/
theorem launched?_congr (h : s.settings = s'.settings) (a : Action α) :
    s.launched? a = s'.launched? a := by
  cases a <;> simp only [launched?, h]

/-- An action that has launched with some settings would do so again. -/
theorem launched?_of_launched (h : s.launched? a = some q) (hs' : s'.settings = q) :
    s'.launched? a = some q := by
  have hclamped := clamped_of_launched h
  cases a with
  | launch => rw [launched?, hs', hclamped]
  | enterFirst text | enterSecond text =>
    cases h
    simp only [launched?, hs']
    exact congrArg some hclamped
  | _ => cases h

/-- A launch shows what its settings come to. -/
theorem map_drawn_launch (s : Session α) :
    s.launch.2.map drawn = s.showing s.settings.clamped s.settings.clamped.launch.outcome := by
  have hclamped := Settings.clamped_clamped s.settings
  simp only [launch]
  cases s.settings.clamped.launch.outcome with
  | ok answer => simp only [Option.map_some, drawn, showing, withResult, hclamped]
  | error stop =>
    cases stop with
    | failure e => simp only [Option.map_some, drawn, showing, withError, hclamped]
    | endless => rfl

/-- **Launches.** An action that launches shows what its settings come to. -/
theorem perform_of_launched (h : s.launched? a = some q) :
    (s.perform a).2 = s.showing q q.launch.outcome := by
  cases a with
  | launch =>
    cases h
    exact map_drawn_launch s
  | enterFirst text =>
    cases h
    exact map_drawn_launch { s with settings := { s.settings with first := text } }
  | enterSecond text =>
    cases h
    exact map_drawn_launch { s with settings := { s.settings with second := text } }
  | _ => cases h

/-- **Histories do not matter.** In two sessions with the same settings, whatever else they hold, an
action that launches goes on for ever in both, or it leaves both with the same settings and the same
to show. Done twice it leaves what it leaves when it is done once. And a launch that fails leaves
the text of its failure, no result and nothing to explain, and the settings that it started with. -/
theorem perform_launch_alike (s s' : Session α) (hs : s.settings = s'.settings) (a : Action α)
    (q : Settings α) (ha : s.launched? a = some q) :
    (((s.perform a).2 = none ∧ (s'.perform a).2 = none) ∨
      ∃ t t', (s.perform a).2 = some t ∧ (s'.perform a).2 = some t' ∧ t.Alike t') ∧
    (∀ t, (s.perform a).2 = some t → (t.perform a).2 = some t) ∧
    ∀ e, q.launch.outcome = .error (.failure e) → ∃ t, (s.perform a).2 = some t ∧
      t.error = e.message ∧ t.result = none ∧ t.explanation = .empty ∧ t.settings = q := by
  have ha' : s'.launched? a = some q := launched?_congr hs a ▸ ha
  rw [perform_of_launched ha, perform_of_launched ha']
  refine ⟨showing_alike s s' q _, fun t ht => ?_, fun e he => ?_⟩
  · rw [perform_of_launched (launched?_of_launched ha (settings_of_showing ht))]
    exact showing_showing ht
  · rw [he]
    exact ⟨_, rfl, rfl, rfl, rfl, rfl⟩

/-- A session that shows an error and a new one with the same settings: typing a parenthesis that
opens nothing as the first formula leaves them alike, with what is wrong with the formula. -/
theorem perform_launch_alike_parenthesis :
    (ofSettings Settings.default : Session Float).settings =
        ((ofSettings Settings.default : Session Float).withError "boum").settings ∧
      ∃ t t' : Session Float,
        ((ofSettings Settings.default : Session Float).perform (.enterFirst ")")).2 = some t ∧
        (((ofSettings Settings.default : Session Float).withError "boum").perform
          (.enterFirst ")")).2 = some t' ∧ t.Alike t' ∧ (t.perform (.enterFirst ")")).2 = some t ∧
        t.result = none ∧ t.explanation = .empty := by
  obtain ⟨halike, htwice, hfailed⟩ :=
    perform_launch_alike (ofSettings Settings.default : Session Float)
      ((ofSettings Settings.default : Session Float).withError "boum") rfl (.enterFirst ")") _ rfl
  obtain ⟨t, ht, -, hresult, hexplanation, -⟩ := hfailed _ rfl
  obtain ⟨hnone, -⟩ | ⟨u, u', hu, hu', halike⟩ := halike
  · rw [hnone] at ht
    cases ht
  · obtain rfl : t = u := Option.some.inj (ht.symm.trans hu)
    exact ⟨rfl, t, u', ht, hu', halike, htwice t ht, hresult, hexplanation⟩

end Session

end CurveArea
