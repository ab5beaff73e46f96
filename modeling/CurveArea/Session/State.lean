import CurveArea.Session.Launch
import CurveArea.Session.Restored

/-!
# Sessions

A session holds the settings, the latest result or the latest error, and the explanation of the
result. Editing the settings leaves a result as it is; an error takes the result away, because what
it shows would no longer belong to what is reported.

Every action but storing ends with a drawn frame. Drawing holds the two counts in range and every
number that has just been given on the scale. A launch may go on for ever; then the action has no
state after it.
-/

namespace CurveArea

/-- The state of a session. -/
structure Session (α : Type) [Scalar α] where
  /-- The settings. -/
  settings : Settings α
  /-- The latest result, unless it was cleared. -/
  result : Option (Result α)
  /-- The text of the latest error, empty if there is none. -/
  error : String
  /-- How the result was obtained. -/
  explanation : Explanation
  /-- Whether the explanation is shown. -/
  explains : Bool

/-- An action of the user. -/
inductive Action (α : Type)
  /-- Type values into the settings. -/
  | edit (c : Change α)
  /-- Start a launch. -/
  | launch
  /-- Clear the result. -/
  | clear
  /-- Clear the result and take the default settings. -/
  | reset
  /-- Type the first formula and start a launch. -/
  | enterFirst (text : String)
  /-- Type the second formula and start a launch. -/
  | enterSecond (text : String)
  /-- Show or hide the explanation. -/
  | toggle
  /-- Report an error. -/
  | report (text : String)
  /-- Store the settings. -/
  | store
  /-- Start anew from a stored text, or from none. -/
  | restore (stored : Option String)
  /-- Draw a frame. -/
  | draw

namespace Session

variable {α : Type} [Number α]

/-- A new session with given settings. -/
def ofSettings (settings : Settings α) : Session α :=
  ⟨settings, none, "", .empty, false⟩

/-- A session that starts from a stored text, or from none, and what it records: the settings as
they are stored. What it shows of them is on the scale. -/
def start (stored : Option String) : List (Entry α) × Session α :=
  let c := Restored.changeOf stored
  ([.restored (Settings.default.change c).clamped],
    ofSettings (Settings.default.change c.onScale).clamped)

/-- The session without result, error and explanation. -/
def cleared (s : Session α) : Session α :=
  { s with result := none, error := "", explanation := .empty }

/-- The session with the default settings and without result, error and explanation. -/
def reset (s : Session α) : Session α :=
  { s with settings := .default }.cleared

/-- The session with an error, which leaves no result and nothing to explain (specification, section
13). -/
def withError (s : Session α) (text : String) : Session α :=
  { s with result := none, error := text, explanation := .empty }

/-- The session with a result and its explanation, and without error. -/
def withResult (s : Session α) (result : Result α) (explanation : Explanation) : Session α :=
  { s with result := some result, error := "", explanation }

/-- Launches with the clamped settings and shows the result or the failure. -/
def launch (s : Session α) : List (Entry α) × Option (Session α) :=
  let s := { s with settings := s.settings.clamped }
  let run := s.settings.launch
  match run.outcome with
  | .ok (result, explanation) =>
    (.launched s.settings :: run.entries, some (s.withResult result explanation))
  | .error (.failure e) =>
    (.launched s.settings :: (run.entries ++ [.failed e]), some (s.withError e.message))
  | .error .endless => (.launched s.settings :: run.entries, none)

/-- The session after a frame has been drawn. -/
def drawn (s : Session α) : Session α :=
  { s with settings := s.settings.clamped }

/-- What an action does before the next frame. -/
def act (s : Session α) : Action α → List (Entry α) × Option (Session α)
  | .edit c => ([], some { s with settings := s.settings.change c.onScale })
  | .launch => s.launch
  | .clear => ([], some s.cleared)
  | .reset => ([], some s.reset)
  | .enterFirst text => { s with settings := { s.settings with first := text } }.launch
  | .enterSecond text => { s with settings := { s.settings with second := text } }.launch
  | .toggle => ([], some { s with explains := !s.explains })
  | .report text => ([], some (s.withError text))
  | .store => ([], some s)
  | .restore stored =>
    let (entries, fresh) := start stored
    (entries, some { fresh with explains := s.explains })
  | .draw => ([], some s)

/-- The state after an action and what it records; there is no state after a launch that goes on for
ever. -/
def perform (s : Session α) (a : Action α) : List (Entry α) × Option (Session α) :=
  match a with
  | .store => s.act .store
  | a => let (entries, after) := s.act a; (entries, after.map drawn)

end Session

end CurveArea
