import CurveArea.Decimal.Layout
import CurveArea.Decimal.Literal
import CurveArea.Number.Binary
import CurveArea.Number.Scalar

/-!
# Binary64

The numbers that sessions are held in. Their texts are made from the exact magnitude of a number,
and reading a text rounds it once, to the nearest number with ties to even.
-/

namespace CurveArea.Binary64

open Decimal Binary

/-- Takes a number apart. -/
def parts (v : Float) : Parts := binary64.parts v.toBits.toNat

/-- A text with a minus sign if `negative`. -/
def signed (negative : Bool) (cs : List Char) : String :=
  String.ofList (if negative then '-' :: cs else cs)

/-- The text of a number, given how a finite magnitude is written. -/
def write (finite : Nat → Int → List Char) (v : Float) : String :=
  match parts v with
  | .nan => "NaN"
  | .infinite negative => signed negative ['i', 'n', 'f']
  | .finite negative mantissa exponent => signed negative (finite mantissa exponent)

/-- The tagged layout: positional with at least one decimal, or scientific below `10 ^ -4` and from
`10 ^ 16` up. -/
def taggedLayout (f : Figures) : List Char :=
  if f.coefficient ≠ 0 && (f.exponent < -4 || 16 ≤ f.exponent) then f.scientific
  else
    let cs := f.positional
    if cs.contains '.' then cs else cs ++ ['.', '0']

/-- The number nearest to `coefficient * 10 ^ exponent`. Decimals far outside the range are told by
their leading place before any power of ten is computed. -/
def nearest (coefficient : Nat) (exponent : Int) : Float :=
  let place := Literal.leadingPlace coefficient exponent
  if coefficient = 0 || place < -330 then 0.0
  else if 310 < place then 1.0 / 0.0
  else match exponent with
    | .ofNat k => Float.ofScientific coefficient false k
    | .negSucc k => Float.ofScientific coefficient true (k + 1)

/-- The number nearest to a literal. -/
def ofLiteral : Literal → Float
  | .nan _ => 0.0 / 0.0
  | .infinity negative => if negative then -1.0 / 0.0 else 1.0 / 0.0
  | .finite negative coefficient exponent =>
    if negative then -nearest coefficient exponent else nearest coefficient exponent

instance : Operations Float where
  power := Float.pow

instance : Scalar Float where
  decideLT := fun a b => Float.decLt a b
  decideLE := fun a b => Float.decLe a b
  ofNat := Float.ofNat
  abs := Float.abs
  isFinite := Float.isFinite
  half := 0.5
  smallestNormal := Float.ofBits 0x0010000000000000
  smallestPositive := Float.ofBits 1

instance : Numeral Float where
  read? s := (Literal.read? s).map ofLiteral
  readOnScale? s := (Literal.read? s).map fun l => ofLiteral l.onScale
  text := write fun m e => (binary64.figures m e).positional
  scientific := write fun m e => (binary64.figures m e).scientific
  tagged := write fun m e => taggedLayout (binary64.figures m e)
  fixed places := write fun m e => (ratio m e).fixed places
  label := write fun m e => (ratio m e).label

instance : Number Float where
  sqrt := Float.sqrt

end CurveArea.Binary64
