import CurveArea.Number.Binary64

/-!
# Binary32

The numbers that positions on the screen are kept in. Between the two formats a number goes by its
exact decimal, so widening loses nothing and narrowing rounds once.
-/

namespace CurveArea.Binary32

open Decimal Binary

/-- Takes a number apart. -/
def parts (v : Float32) : Parts := binary32.parts v.toBits.toNat

/-- The number nearest to `coefficient * 10 ^ exponent`. Decimals far outside the range are told by
their leading place before any power of ten is computed. -/
def nearest (coefficient : Nat) (exponent : Int) : Float32 :=
  let place := Literal.leadingPlace coefficient exponent
  if coefficient = 0 || place < -60 then 0.0
  else if 50 < place then 1.0 / 0.0
  else match exponent with
    | .ofNat k => Float32.ofScientific coefficient false k
    | .negSucc k => Float32.ofScientific coefficient true (k + 1)

/-- The number nearest to a literal. -/
def ofLiteral : Literal → Float32
  | .nan _ => 0.0 / 0.0
  | .infinity negative => if negative then -1.0 / 0.0 else 1.0 / 0.0
  | .finite negative coefficient exponent =>
    if negative then -nearest coefficient exponent else nearest coefficient exponent

/-- The number of 32 bits that is nearest to one of 64. -/
def narrow (v : Float) : Float32 := ofLiteral (Binary64.parts v).literal

/-- A number of 32 bits as one of 64. -/
def widen (v : Float32) : Float := Binary64.ofLiteral (parts v).literal

instance : Scalar Float32 where
  decideLT := fun a b => Float32.decLt a b
  decideLE := fun a b => Float32.decLe a b
  ofNat := Float32.ofNat
  abs := Float32.abs
  isFinite := Float32.isFinite
  half := 0.5
  smallestNormal := Float32.ofBits 0x00800000
  smallestPositive := Float32.ofBits 1

instance : Pixel Float Float32 where
  widen := widen
  narrow := narrow

end CurveArea.Binary32
