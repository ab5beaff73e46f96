import CurveArea.Decimal.Rounding

/-!
# The fewest digits that read back

Reading a decimal rounds it to the nearest number that is represented, so each represented number
stands for an interval of reals. Its shortest decimal is the one of that interval with the fewest
digits, and of those the nearest to the number; of two that are equally near, the greater.

Grids are tried from the coarsest to the finest. If any point of a grid lies in the interval, then
so does one of the two neighbours of the number on that grid, so no more than these are looked at.
-/

namespace CurveArea.Decimal

/-- A decimal `coefficient * 10 ^ place`. -/
structure Figures where
  /-- The digits, read as a natural number. -/
  coefficient : Nat
  /-- The place of the last digit. -/
  place : Int
  deriving DecidableEq

/-- The reals that are read as one number: those from `low / den` to `high / den`. -/
structure Interval where
  /-- The lower end, times `den`. -/
  low : Nat
  /-- The number itself, times `den`. -/
  value : Nat
  /-- The upper end, times `den`. -/
  high : Nat
  /-- What the three are divided by. -/
  den : Nat
  /-- Whether the ends belong to the interval. -/
  closed : Bool

namespace Interval

/-- Whether `n` units belong to the interval, where `unit` of its dividends make `scale` units. -/
def holds (i : Interval) (scale unit n : Nat) : Bool :=
  if i.closed then i.low * scale ≤ n * unit && n * unit ≤ i.high * scale
  else i.low * scale < n * unit && n * unit < i.high * scale

/-- The nearest multiple of `10 ^ place` in the interval, as a count of that unit, if one of the
neighbours of the number is there. -/
def nearest? (i : Interval) (place : Int) : Option Nat :=
  let (scale, unit) := match place with
    | .ofNat k => (1, i.den * Nat.pow 10 k)
    | .negSucc k => (Nat.pow 10 (k + 1), i.den)
  let below := i.value * scale / unit
  match i.holds scale unit below, i.holds scale unit (below + 1) with
  | true, true => if 2 * (i.value * scale % unit) < unit then some below else some (below + 1)
  | true, false => some below
  | false, true => some (below + 1)
  | false, false => none

/-- The shortest decimal of a positive number, given the interval that is read as it. Seventeen
digits always suffice for binary64. On the coarsest grid the upper neighbour may be ten, which is a
one in the place above. -/
def shortest (i : Interval) : Figures :=
  let lead := (Ratio.mk i.value i.den).leadingPlace
  let found := (List.range 17).findSome? fun (n : Nat) =>
    (i.nearest? (lead - n)).map fun c => Figures.mk c (lead - n)
  match found with
  | some ⟨10, place⟩ => ⟨1, place + 1⟩
  | some figures => figures
  | none => ⟨((Ratio.mk i.value i.den).inUnits (lead - 16)).round, lead - 16⟩

end Interval

end CurveArea.Decimal
