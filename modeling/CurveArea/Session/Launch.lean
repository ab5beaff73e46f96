import CurveArea.Random.ChaCha
import CurveArea.Session.Journal

/-!
# Launches

A launch goes from settings to a result: both formulas are compiled, the window is made, the area
is estimated and both curves are traced, in this order. The first step that fails is the failure of
the launch, and nothing is drawn before the formulas and the window are known to be good.
-/

namespace CurveArea

/-- What a launch produces. -/
structure Result (α : Type) [Scalar α] where
  /-- The window. -/
  window : Window α
  /-- The estimated area. -/
  estimate : Estimate α
  /-- The points drawn at random. -/
  draws : Array (Draw α)
  /-- The points of the first curve. -/
  firstPoints : Array (Point α)
  /-- The points of the second curve. -/
  secondPoints : Array (Point α)
  /-- What the trace of the first curve came to. -/
  firstReport : Report α
  /-- What the trace of the second curve came to. -/
  secondReport : Report α

/-- How a result was obtained: what the explaining panel of the specification, section 14, shows. -/
structure Explanation where
  /-- The program of the first formula. -/
  first : String
  /-- The program of the second formula. -/
  second : String
  /-- The steps of the launch in one line. -/
  note : String
  deriving DecidableEq

namespace Explanation

/-- Nothing to explain. -/
def empty : Explanation := ⟨"", "", ""⟩

/-- The steps of a launch with the given counts of draws and passes. -/
def noteOf (total passes₁ passes₂ : Nat) : String :=
  s!"Pipeline: jetons → RPN → tirages ({total}) → aire = dedans/N × aire du rectangle ; " ++
    s!"tracé: {passes₁} + {passes₂} passes."

end Explanation

/-- Carries out a launch with the given settings. A formula or bounds that are refused end it before
a point is drawn (specification, sections 7 and 13). -/
def Settings.launch {α : Type} [Number α] (s : Settings α) :
    Recorded α (Result α × Explanation) := do
  let first ← Recorded.compile .standard s.first
  let second ← Recorded.compile .standard s.second
  let window ← Recorded.window s.xMin s.xMax s.yMin s.yMax
  let estimation :=
    Estimate.withDraws first.evaluate second.evaluate window s.points (ChaCha.ofSeed s.seed)
  let estimate ← Recorded.estimate estimation
  let firstTrace := Trace.ofCurve first.evaluate window (some s.passBound)
  let firstReport ← Recorded.report first firstTrace
  let secondTrace := Trace.ofCurve second.evaluate window (some s.passBound)
  let secondReport ← Recorded.report second secondTrace
  let result := {
    window, estimate, firstReport, secondReport
    draws := estimation.trials.draws
    firstPoints := firstTrace.points
    secondPoints := secondTrace.points }
  let explanation := {
    first := first.write
    second := second.write
    note := Explanation.noteOf estimate.total firstReport.passes secondReport.passes }
  return (result, explanation)

end CurveArea
