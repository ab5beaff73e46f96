import CurveArea.Formula.Program
import CurveArea.Plane.Window

/-!
# Tracing a curve

A curve is drawn by points at equal steps, the first half a step inside the window. Two neighbouring
points that are both visible leave a gap when they are further apart than two pixels of a window 500
pixels high. A pass with a gap is followed by a whole pass at half the step, until a pass leaves no
gap, a bound on the passes is met, or the step can hardly be halved any more.

The abscissas of a pass are numbered by a counter. Nothing in the arithmetic promises that they ever
reach the right bound, so a pass is given a limit of steps, and one that exhausts it is `endless`.
All points drawn before are kept, whatever ends the trace.
-/

namespace CurveArea

/-- What a formula is worth at each abscissa, if it is worth anything. -/
abbrev Curve (α : Type) := α → Except EvalError α

/-- A point of the plane. -/
structure Point (α : Type) where
  /-- The abscissa. -/
  x : α
  /-- The ordinate. -/
  y : α
  deriving DecidableEq

/-- Why a computation has no answer. -/
inductive Stop (ε : Type)
  /-- It fails. -/
  | failure (e : ε)
  /-- It goes on for ever. -/
  | endless
  deriving DecidableEq

/-- What a whole trace comes to (specification, section 14). -/
structure Report (α : Type) where
  /-- The count of passes. -/
  passes : Nat
  /-- The step of the last pass. -/
  finalStep : α
  /-- Whether the last pass left a gap. -/
  gap : Bool
  deriving DecidableEq

/-- One complete pass of a trace. -/
structure Pass (α : Type) where
  /-- The step between its abscissas. -/
  step : α
  /-- Whether it left a gap. -/
  gap : Bool
  deriving DecidableEq

/-- A trace. -/
structure Trace (α : Type) where
  /-- The points drawn in all passes, in the order of drawing. -/
  points : Array (Point α)
  /-- The complete passes, in order. -/
  passes : Array (Pass α)
  /-- How the trace ended. -/
  outcome : Except (Stop EvalError) (Report α)

namespace Window

variable {α : Type} [Scalar α]

/-- The pixels along each side of the window for which curves are traced. -/
def subdivisions : Nat := 500

/-- The height of a pixel (specification, section 4.4), held above the numbers that are not
represented to full precision. -/
def pixelHeight (w : Window α) : α :=
  let unit := w.height / Scalar.ofNat subdivisions
  if unit < Scalar.smallestNormal then Scalar.smallestNormal else unit

/-- The distance of ordinates above which two neighbouring points leave a gap (specification,
section 4.4). -/
def gapHeight (w : Window α) : α := Scalar.ofNat 2 * w.pixelHeight

/-- The step of the first pass: the width of a pixel (specification, section 4.4). -/
def firstStep (w : Window α) : α := w.width / Scalar.ofNat subdivisions

/-- The abscissa number `i` at a given step, in the middle of its step. It is computed from its
number, so that no error accumulates (specification, section 15). -/
def abscissa (w : Window α) (step : α) (i : Nat) : α :=
  w.xMin + (Scalar.ofNat i + Scalar.half) * step

/-- Whether two ordinates of neighbouring points leave a gap; both must be visible (specification,
sections 4.4 and 15). -/
def leavesGap (w : Window α) (y₁ y₂ : α) : Bool :=
  w.shows y₁ && w.shows y₂ && w.gapHeight < Scalar.abs (y₂ - y₁)

end Window

/-- The state of a pass. -/
structure Walk (α : Type) where
  /-- The points drawn so far, those of former passes included. -/
  points : Array (Point α)
  /-- The ordinate before, visible or not. -/
  previous : Option α
  /-- Whether a gap was left. -/
  gap : Bool

namespace Walk

variable {α : Type} [Scalar α]

/-- The state before the first abscissa of a pass. -/
def start (points : Array (Point α)) : Walk α := ⟨points, none, false⟩

/-- The state after the next point of the curve. -/
def next (w : Window α) (s : Walk α) (x y : α) : Walk α :=
  let gap := s.gap || s.previous.any fun before => w.leavesGap before y
  { points := if w.shows y then s.points.push ⟨x, y⟩ else s.points, previous := some y, gap }

/-- Follows the curve from the abscissa number `i` on, for at most `limit` abscissas. -/
def follow (f : Curve α) (w : Window α) (step : α) :
    (limit i : Nat) → Walk α → Walk α × Except (Stop EvalError) Unit
  | 0, _, s => (s, .error .endless)
  | limit + 1, i, s =>
    let x := w.abscissa step i
    if x < w.xMax then
      match f x with
      | .error e => (s, .error (.failure e))
      | .ok y => follow f w step limit (i + 1) (s.next w x y)
    else (s, .ok ())

end Walk

namespace Trace

variable {α : Type} [Scalar α]

/-- The step from which on none is halved: the half of a step that is used must be above it
(specification, section 4.4). -/
def stepFloor : α := Scalar.ofNat 2 * Scalar.smallestPositive

/-- Whether a trace ends after `passes` passes although the last one, at the given step, left a
gap: `bound` bounds the passes, if there is a bound. -/
def givesUp (bound : Option Nat) (passes : Nat) (step : α) : Bool :=
  bound.any (· ≤ passes) || !(stepFloor < step / Scalar.ofNat 2)

/-- Adds passes to a trace, the next one at the given step; `count` bounds the passes and `limit`
the abscissas of each. A pass with a gap is done again from scratch (specification, section 4.4). -/
def refine (f : Curve α) (w : Window α) (bound : Option Nat) (limit : Nat) :
    (count : Nat) → (step : α) → Array (Point α) → Array (Pass α) → Trace α
  | 0, _, points, passes => ⟨points, passes, .error .endless⟩
  | count + 1, step, points, passes =>
    match Walk.follow f w step limit 0 (Walk.start points) with
    | (s, .error stop) => ⟨s.points, passes, .error stop⟩
    | (s, .ok ()) =>
      let passes := passes.push ⟨step, s.gap⟩
      if s.gap && !givesUp bound passes.size step then
        refine f w bound limit count (step / Scalar.ofNat 2) s.points passes
      else ⟨s.points, passes, .ok ⟨passes.size, step, s.gap⟩⟩

/-- The trace of a curve in a window, with at most `limit` passes of at most `limit` abscissas. -/
def within (limit : Nat) (f : Curve α) (w : Window α) (bound : Option Nat) : Trace α :=
  refine f w bound limit limit w.firstStep #[] #[]

/-- How far the counter of a pass goes: it is a word of 64 bits. -/
def counterLimit : Nat := Nat.pow 2 64

/-- The trace of a curve in a window, the passes bounded by `bound` if there is a bound
(specification, section 14). A bound of zero is one of one pass. -/
def ofCurve (f : Curve α) (w : Window α) (bound : Option Nat) : Trace α :=
  within counterLimit f w bound

end Trace

end CurveArea
