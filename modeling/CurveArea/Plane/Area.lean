import CurveArea.Failure
import CurveArea.Plane.Trace
import CurveArea.Random.Words

/-!
# The area between two curves

The area is estimated by drawing points at random in a window and counting those that lie strictly
between the curves, whichever is the upper one. A point where a curve is undefined is not between.
Each trial takes two words of the source, the first for the abscissa, and evaluates the first curve
before the second.
-/

namespace CurveArea

/-- A point drawn at random, with its class (specification, section 14). -/
structure Draw (α : Type) where
  /-- The abscissa. -/
  x : α
  /-- The ordinate. -/
  y : α
  /-- Whether it lies between the curves. -/
  inside : Bool
  deriving DecidableEq

/-- An estimate of an area, with its standard error (specification, section 14). -/
structure Estimate (α : Type) where
  /-- The estimated area. -/
  area : α
  /-- The count of draws between the curves. -/
  inside : Nat
  /-- The count of all draws. -/
  total : Nat
  /-- The standard deviation of the estimate. -/
  deviation : α
  deriving DecidableEq

/-- Whether `y` lies strictly between `a` and `b`, whichever of the two is above (specification,
section 4.3). It is false when one of the three is undefined (section 7). -/
def between {α : Type} [Scalar α] (a b y : α) : Bool :=
  (b < a && b < y && y < a) || (a < b && a < y && y < b)

/-- A series of trials. -/
structure Trials (α σ : Type) where
  /-- The source after them. -/
  source : σ
  /-- The points drawn, in order. -/
  draws : Array (Draw α)
  /-- How many of them lie between the curves. -/
  inside : Nat

namespace Trials

variable {α σ : Type} [Scalar α] [WordSource σ]

/-- The series before the first trial. -/
def start (source : σ) : Trials α σ := ⟨source, #[], 0⟩

/-- Whether a point lies between two curves. -/
def classify (f g : Curve α) (x y : α) : Except EvalError Bool := do
  let a ← f x
  let b ← g x
  return between a b y

/-- Adds `n` trials to a series, or those before the first that fails (specification, section 4.3).
A trial that fails has taken its words. -/
def extend (f g : Curve α) (w : Window α) :
    (n : Nat) → Trials α σ → Trials α σ × Except EvalError Unit
  | 0, t => (t, .ok ())
  | n + 1, t =>
    let (first, source) := WordSource.next t.source
    let (second, source) := WordSource.next source
    let x := unitOfWord first * w.width + w.xMin
    let y := unitOfWord second * w.height + w.yMin
    match classify f g x y with
    | .error e => ({ t with source }, .error e)
    | .ok inside =>
      extend f g w n {
        source
        draws := t.draws.push ⟨x, y, inside⟩
        inside := if inside then t.inside + 1 else t.inside }

end Trials

/-- What an estimation comes to. -/
structure Estimation (α σ : Type) where
  /-- The series of its trials. -/
  trials : Trials α σ
  /-- The estimate, or why there is none. -/
  outcome : Except (Failure α) (Estimate α)

namespace Estimate

variable {α σ : Type} [Number α] [WordSource σ]

/-- The share of the draws that lie between the curves. -/
def proportion (e : Estimate α) : α := Scalar.ofNat e.inside / Scalar.ofNat e.total

/-- The estimate that a count of draws gives for a window: the share of its area, with the deviation
of a binomial share (specification, sections 4.3 and 14). -/
def ofCount (w : Window α) (inside total : Nat) : Estimate α :=
  let p : α := Scalar.ofNat inside / Scalar.ofNat total
  { area := p * w.area
    inside
    total
    deviation :=
      w.area * Number.sqrt (p * (Scalar.ofNat 1 - p) / Scalar.ofNat total) }

/-- Estimates the area between two curves with `total` draws, and keeps the draws. -/
def withDraws (f g : Curve α) (w : Window α) (total : Nat) (source : σ) : Estimation α σ :=
  if total = 0 then ⟨.start source, .error .noPoints⟩
  else
    match (Trials.start source).extend f g w total with
    | (trials, .error e) => ⟨trials, .error (.evaluate e)⟩
    | (trials, .ok ()) => ⟨trials, .ok (ofCount w trials.inside total)⟩

/-- Estimates the area between two curves with `total` draws. -/
def ofCurves (f g : Curve α) (w : Window α) (total : Nat) (source : σ) :
    Except (Failure α) (Estimate α) :=
  (withDraws f g w total source).outcome

/-- The estimated area between two curves. -/
def areaBetween (f g : Curve α) (w : Window α) (total : Nat) (source : σ) : Except (Failure α) α :=
  (ofCurves f g w total source).map Estimate.area

end Estimate

end CurveArea
