import CurveArea.Formula.Token
import CurveArea.Plane.Window

/-!
# Failures

All the ways in which an estimate or a trace can fail, each with the text that is shown for it.
-/

namespace CurveArea

/-- Why a launch or a part of it fails: the taxonomy of the specification, sections 7 and 11. -/
inductive Failure (α : Type)
  /-- A formula has no program. -/
  | compile (e : CompileError)
  /-- A program has no value. -/
  | evaluate (e : EvalError)
  /-- The bounds are no window. -/
  | window (e : WindowError α)
  /-- No point is to be drawn. -/
  | noPoints
  deriving DecidableEq

/-- The text of a failure, as it is shown to the user (specification, section 11). -/
def Failure.message {α : Type} [Numeral α] : Failure α → String
  | compile e => e.message
  | evaluate e => e.message
  | window e => e.message
  | noPoints => "il faut au moins un point"

end CurveArea
