import CurveArea.Plane.Canvas
import CurveArea.Session.State

/-!
# What a frame shows

A frame shows texts, in a fixed order, and one mark for every point of the result: draws between the
curves, draws outside, and the points of either curve.
-/

namespace CurveArea

/-- How many marks of each kind a frame shows. -/
structure Marks where
  /-- Draws between the curves. -/
  inside : Nat
  /-- Draws outside. -/
  outside : Nat
  /-- Points of the first curve. -/
  first : Nat
  /-- Points of the second curve. -/
  second : Nat
  deriving DecidableEq

/-- What a frame shows. -/
structure Sheet where
  /-- The texts, in order. -/
  texts : List String
  /-- The marks. -/
  marks : Marks
  deriving DecidableEq

namespace Result

variable {α : Type} [Number α]

/-- The line on a trace that left a gap. -/
def gapLine (curve : String) (r : Report α) : List String :=
  if r.gap then [s!"{curve} : tracé incomplet après {r.passes} passes"] else []

/-- The lines on a result. -/
def lines (r : Result α) : List String :=
  let e := r.estimate
  [ "aire ≈ " ++ Numeral.fixed 6 e.area,
    "± " ++ Numeral.fixed 6 e.deviation ++ " (1 écart-type)",
    s!"{e.inside}/{e.total} points dedans (" ++
      Numeral.fixed 2 (Scalar.ofNat 100 * e.proportion) ++ " %)" ] ++
    gapLine "f1" r.firstReport ++ gapLine "f2" r.secondReport

/-- The labels of both axes (specification, section 14). -/
def labels (r : Result α) : List String :=
  tickNumbers.map (fun i => Numeral.label (r.window.xTick i)) ++
    tickNumbers.map (fun i => Numeral.label (r.window.yTick i))

/-- The marks of a result. Draws of the two kinds are painted apart (specification, section 14). -/
def marks (r : Result α) : Marks where
  inside := r.draws.countP (·.inside)
  outside := r.draws.countP (!·.inside)
  first := r.firstPoints.size
  second := r.secondPoints.size

end Result

/-- The lines of an explanation. -/
def Explanation.lines (e : Explanation) : List String :=
  ["RPN f1 :", e.first, "RPN f2 :", e.second, "Note :", e.note]

/-- What a frame of a session shows. -/
def Session.sheet {α : Type} [Number α] (s : Session α) : Sheet where
  texts :=
    (if s.error.isEmpty then [] else [s.error]) ++
    ("Estimation :" :: (s.result.map Result.lines).getD ["indisponible"]) ++
    ("Démarche" :: if s.explains then s.explanation.lines else []) ++
    (s.result.map Result.labels).getD []
  marks := (s.result.map Result.marks).getD ⟨0, 0, 0, 0⟩

end CurveArea
