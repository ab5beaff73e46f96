import CurveArea.Proofs.Session.Endless
import CurveArea.Session.State

/-!
# What a session goes through

A history is a session on its way from its start by actions, with the settings of the latest launch
remembered besides (`History.after`). Whatever the actions, what the session shows belongs together
(`Session.Coherent`): a result stands with the explanation that the latest launch gave for it and
without an error, and without a result there is nothing to explain. Every action keeps this, since
each operation of a session writes all three fields or none. The counts of the settings are in range
whenever a frame has been drawn (`Settings.clamped_eq_iff`).
-/

namespace CurveArea

/-! ## Histories -/

section
variable {α : Type} [Number α]

/-- The settings that an action launches with, clamped as a launch clamps them, if it is one that
starts a launch. -/
def Session.launched? (s : Session α) : Action α → Option (Settings α)
  | .launch => some s.settings.clamped
  | .enterFirst text => some { s.settings with first := text }.clamped
  | .enterSecond text => some { s.settings with second := text }.clamped
  | _ => none

/-- A session on its way. -/
structure History (α : Type) [Scalar α] where
  /-- The session as it is. -/
  session : Session α
  /-- The settings of its latest launch, if there was one. -/
  latest : Option (Settings α)

namespace History

/-- The history of a new session. -/
def start (stored : Option String) : History α := ⟨(Session.start stored).2, none⟩

/-- The history with one more action, unless that is a launch that goes on for ever. -/
def next (h : History α) (a : Action α) : Option (History α) :=
  (h.session.perform a).2.map fun s => ⟨s, (h.session.launched? a).or h.latest⟩

/-- The history of a session that starts from a stored text, or from none, after some actions. -/
def after (stored : Option String) (actions : List (Action α)) : Option (History α) :=
  actions.foldlM next (start stored)

/-- What holds at the start and is kept by every action holds after all actions. -/
theorem of_after {P : History α → Prop} {stored : Option String} (hstart : P (start stored))
    (hnext : ∀ (h h' : History α) (a : Action α), P h → h.next a = some h' → P h')
    {actions : List (Action α)} {h : History α} (hafter : after stored actions = some h) : P h := by
  have hfold : actions.foldlM next (start stored) = some h := hafter
  clear hafter
  generalize start (α := α) stored = h₀ at hstart hfold
  induction actions generalizing h₀ with
  | nil =>
    cases hfold
    exact hstart
  | cons a actions ih =>
    rw [List.foldlM_cons] at hfold
    obtain ⟨h₁, hfirst, hrest⟩ := Option.bind_eq_some_iff.1 hfold
    exact ih h₁ (hnext h₀ h₁ a hstart hfirst) hrest

end History

/-! ## What is shown belongs together -/

/-- What a session shows belongs together, given the settings of the latest launch. -/
structure Session.Coherent (s : Session α) (latest : Option (Settings α)) : Prop where
  /-- A result is shown without an error. -/
  error_eq : ∀ r, s.result = some r → s.error = ""
  /-- A result and its explanation are those of the latest launch. -/
  launched : ∀ r, s.result = some r →
    ∃ q, latest = some q ∧ q.launch.outcome = .ok (r, s.explanation)
  /-- Without a result there is nothing to explain. -/
  explanation_eq : s.result = none → s.explanation = .empty

namespace Session

variable {s s' : Session α} {latest : Option (Settings α)}

/-- Without result and explanation nothing is out of place. -/
theorem coherent_of_eq_none (hresult : s.result = none) (hexplanation : s.explanation = .empty) :
    s.Coherent latest where
  error_eq r hr := by
    rw [hresult] at hr
    cases hr
  launched r hr := by
    rw [hresult] at hr
    cases hr
  explanation_eq _ := hexplanation

/-- Nothing but the three fields matters. -/
theorem Coherent.congr (h : s.Coherent latest) (hresult : s'.result = s.result)
    (herror : s'.error = s.error) (hexplanation : s'.explanation = s.explanation) :
    s'.Coherent latest where
  error_eq r hr := herror.trans (h.error_eq r (hresult.symm.trans hr))
  launched r hr := by
    rw [hexplanation]
    exact h.launched r (hresult.symm.trans hr)
  explanation_eq hr := hexplanation.trans (h.explanation_eq (hresult.symm.trans hr))

/-- A launch leaves what it has come to, or nothing. -/
theorem coherent_launch (h : s.launch.2 = some s') : s'.Coherent (some s.settings.clamped) := by
  simp only [launch] at h
  split at h
  case h_1 result explanation hok =>
    cases h
    exact ⟨fun r _ => rfl, fun r hr => by cases hr; exact ⟨_, rfl, hok⟩, nofun⟩
  case h_2 e hfailure =>
    cases h
    exact coherent_of_eq_none rfl rfl
  case h_3 hendless => cases h

/-- A launch that comes to a result shows it. -/
theorem launch_of_ok {r : Result α} {x : Explanation}
    (h : s.settings.clamped.launch.outcome = .ok (r, x)) :
    s.launch.2 = some (({ s with settings := s.settings.clamped } : Session α).withResult r x) := by
  simp only [launch, h]

/-- Every action keeps what is shown together. -/
theorem Coherent.act (h : s.Coherent latest) {a : Action α} (hact : (s.act a).2 = some s') :
    s'.Coherent ((s.launched? a).or latest) := by
  cases a with
  | launch => exact coherent_launch hact
  | enterFirst text => exact coherent_launch (s := { s with settings := _ }) hact
  | enterSecond text => exact coherent_launch (s := { s with settings := _ }) hact
  | edit c | toggle | store | draw =>
    cases hact
    exact h.congr rfl rfl rfl
  | clear | reset | report text | restore stored =>
    cases hact
    exact coherent_of_eq_none rfl rfl

/-- Every action but storing is followed by a frame. -/
theorem perform_of_ne_store {a : Action α} (ha : a ≠ .store) :
    (s.perform a).2 = (s.act a).2.map drawn := by
  cases a with
  | store => exact absurd rfl ha
  | _ => rfl

/-- An action is followed by a frame, or it leaves the session as it is. -/
theorem perform_cases {a : Action α} (h : (s.perform a).2 = some s') :
    ∃ s₁, (s.act a).2 = some s₁ ∧ (s' = s₁.drawn ∨ s' = s₁ ∧ s₁ = s) := by
  by_cases ha : a = .store
  · subst ha
    cases h
    exact ⟨s, rfl, .inr ⟨rfl, rfl⟩⟩
  · rw [perform_of_ne_store ha] at h
    obtain ⟨s₁, hact, rfl⟩ := Option.map_eq_some_iff.1 h
    exact ⟨s₁, hact, .inl rfl⟩

/-- An action keeps together what is shown, with the settings of the launch it may start as the
latest. -/
theorem Coherent.perform (h : s.Coherent latest) {a : Action α}
    (hperform : (s.perform a).2 = some s') : s'.Coherent ((s.launched? a).or latest) := by
  obtain ⟨s₁, hact, rfl | ⟨rfl, -⟩⟩ := perform_cases hperform
  · exact (h.act hact).congr rfl rfl rfl
  · exact h.act hact

/-! ## Counts in range -/

/-- An action keeps settings within their scales. -/
theorem clamped_of_perform {a : Action α} (h : s.settings.clamped = s.settings)
    (hperform : (s.perform a).2 = some s') : s'.settings.clamped = s'.settings := by
  obtain ⟨s₁, -, rfl | ⟨rfl, rfl⟩⟩ := perform_cases hperform
  · exact Settings.clamped_clamped _
  · exact h

end Session

/-- Settings are clamped when their counts are in range. -/
theorem Settings.clamped_eq_iff {α : Type} (s : Settings α) :
    s.clamped = s ↔
      (1 ≤ s.points ∧ s.points ≤ 200000) ∧ 1 ≤ s.passBound ∧ s.passBound ≤ 20 := by
  obtain ⟨first, second, xMin, xMax, yMin, yMax, points, seed, passBound⟩ := s
  simp only [clamped, clampNat, mostPoints, mostPasses, Settings.mk.injEq, true_and]
  omega

/-! ## Every history -/

namespace History

/-- **Every history.** A session that has been reached shows what belongs together, and its counts
are in range. -/
theorem sound_of_after {stored : Option String} {actions : List (Action α)} {h : History α}
    (hafter : after stored actions = some h) :
    h.session.Coherent h.latest ∧ h.session.settings.clamped = h.session.settings := by
  refine of_after (P := fun h => h.session.Coherent h.latest ∧
    h.session.settings.clamped = h.session.settings) ?_ ?_ hafter
  · exact ⟨Session.coherent_of_eq_none rfl rfl, Settings.clamped_clamped _⟩
  · rintro h h' a ⟨hcoherent, hclamped⟩ hnext
    obtain ⟨s, hperform, rfl⟩ := Option.map_eq_some_iff.1 hnext
    exact ⟨hcoherent.perform hperform, Session.clamped_of_perform hclamped hperform⟩

/-- **What a session shows.** Whatever a session starts from and whatever is done to it, a result is
shown without an error, and it and its explanation are what the latest launch came to; without a
result there is nothing to explain; and both counts are in range. -/
theorem shown_of_after (stored : Option String) (actions : List (Action α)) (h : History α)
    (hafter : after stored actions = some h) :
    (∀ r, h.session.result = some r → h.session.error = "" ∧
      ∃ q, h.latest = some q ∧ q.launch.outcome = .ok (r, h.session.explanation)) ∧
    (h.session.result = none → h.session.explanation.first = "" ∧
      h.session.explanation.second = "" ∧ h.session.explanation.note = "") ∧
    (1 ≤ h.session.settings.points ∧ h.session.settings.points ≤ 200000) ∧
    1 ≤ h.session.settings.passBound ∧ h.session.settings.passBound ≤ 20 := by
  obtain ⟨hcoherent, hclamped⟩ := sound_of_after hafter
  refine ⟨fun r hr => ⟨hcoherent.error_eq r hr, hcoherent.launched r hr⟩, fun hr => ?_,
    (Settings.clamped_eq_iff _).1 hclamped⟩
  rw [hcoherent.explanation_eq hr]
  exact ⟨rfl, rfl, rfl⟩

/-- The diagonal is typed for both formulas, and a launch started. -/
def diagonals : List (Action Float) :=
  [.edit { first := some "x", second := some "x" }, .launch]

/-- After that there is a result. -/
theorem exists_after_diagonals :
    ∃ h, after none diagonals = some h ∧ h.session.result ≠ none := by
  let typed : Settings Float := { Settings.default with first := "x", second := "x" }
  let unit : Window Float := ⟨Scalar.ofNat 0, Scalar.ofNat 1, Scalar.ofNat 0, Scalar.ofNat 1,
    by decide +kernel, by decide +kernel, by decide +kernel⟩
  have hcompile : Program.compile "x" = .ok (⟨[.load], 0⟩ : Program Float) := by rfl
  have hwide : ¬ unit.width ≤ Window.narrow := by decide +kernel
  obtain ⟨⟨r, x⟩, hanswer⟩ := exists_launch_clamped_ok (s := typed) hcompile hcompile
    unit.make_bounds rfl rfl hwide
  have hlaunch : (Session.ofSettings typed).launch.2 =
      some ((Session.ofSettings typed).withResult r x) :=
    Session.launch_of_ok (s := Session.ofSettings typed) hanswer
  have hedit : (start none).next (.edit { first := some "x", second := some "x" }) =
      some ⟨Session.ofSettings typed, none⟩ := rfl
  have hnext : next ⟨Session.ofSettings typed, none⟩ .launch =
      some ⟨((Session.ofSettings typed).withResult r x).drawn, some typed⟩ := by
    rw [next, Session.perform_of_ne_store (a := .launch) (by simp), Session.act, hlaunch]
    rfl
  have hafter : after none diagonals =
      some ⟨((Session.ofSettings typed).withResult r x).drawn, some typed⟩ := by
    rw [after, diagonals, List.foldlM_cons, hedit, Option.bind_eq_bind, Option.bind_some,
      List.foldlM_cons, hnext]
    rfl
  exact ⟨_, hafter, Option.some_ne_none _⟩

/-- The result is shown without an error. -/
theorem shown_of_after_diagonals :
    ∃ h, after none diagonals = some h ∧ h.session.result ≠ none ∧
      (∀ r, h.session.result = some r → h.session.error = "" ∧
        ∃ q, h.latest = some q ∧ q.launch.outcome = .ok (r, h.session.explanation)) ∧
      (h.session.result = none → h.session.explanation.first = "" ∧
        h.session.explanation.second = "" ∧ h.session.explanation.note = "") ∧
      (1 ≤ h.session.settings.points ∧ h.session.settings.points ≤ 200000) ∧
      1 ≤ h.session.settings.passBound ∧ h.session.settings.passBound ≤ 20 := by
  obtain ⟨h, hafter, hresult⟩ := exists_after_diagonals
  exact ⟨h, hafter, hresult, shown_of_after none diagonals h hafter⟩

end History

end

end CurveArea
