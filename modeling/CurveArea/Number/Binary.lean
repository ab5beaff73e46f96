import CurveArea.Decimal.Literal
import CurveArea.Decimal.Shortest

/-!
# Binary formats

A number of a binary format is told by its bits: a sign, an exponent and a fraction. This module
takes the bits apart into a sign and an exact magnitude `mantissa * 2 ^ exponent`, and gives the
reals that the magnitude stands for.
-/

namespace CurveArea.Binary

open Decimal

/-- A binary format, by the widths of its fields. -/
structure Format where
  /-- The bits of the fraction. -/
  fraction : Nat
  /-- The bits of the exponent. -/
  exponent : Nat

/-- The format of 64 bits. -/
def binary64 : Format := ⟨52, 11⟩

/-- The format of 32 bits. -/
def binary32 : Format := ⟨23, 8⟩

/-- What the bits of a number say. -/
inductive Parts
  /-- No number. -/
  | nan
  /-- One of the two infinities. -/
  | infinite (negative : Bool)
  /-- The number `mantissa * 2 ^ exponent` or its opposite. -/
  | finite (negative : Bool) (mantissa : Nat) (exponent : Int)
  deriving DecidableEq

namespace Format

/-- The least exponent of a mantissa: that of the numbers below the smallest normal one. -/
def leastExponent (f : Format) : Int := 2 - Nat.pow 2 (f.exponent - 1) - f.fraction

/-- Takes bits apart. -/
def parts (f : Format) (bits : Nat) : Parts :=
  let negative := bits / Nat.pow 2 (f.fraction + f.exponent) = 1
  let biased := bits / Nat.pow 2 f.fraction % Nat.pow 2 f.exponent
  let fraction := bits % Nat.pow 2 f.fraction
  if biased = Nat.pow 2 f.exponent - 1 then
    if fraction = 0 then .infinite negative else .nan
  else if biased = 0 then .finite negative fraction f.leastExponent
  else .finite negative (Nat.pow 2 f.fraction + fraction) (f.leastExponent + (biased - 1 : Nat))

end Format

/-- The quotient `mantissa * 2 ^ exponent`. -/
def ratio (mantissa : Nat) : Int → Ratio
  | .ofNat k => ⟨mantissa * Nat.pow 2 k, 1⟩
  | .negSucc k => ⟨mantissa, Nat.pow 2 (k + 1)⟩

/-- A magnitude as a decimal literal, without loss: a half is five tenths. -/
def Parts.literal : Parts → Literal
  | .nan => .nan false
  | .infinite negative => .infinity negative
  | .finite negative mantissa (.ofNat k) => .finite negative (mantissa * Nat.pow 2 k) 0
  | .finite negative mantissa (.negSucc k) =>
    .finite negative (mantissa * Nat.pow 5 (k + 1)) (.negSucc k)

/-- The reals that are read as `mantissa * 2 ^ exponent`. They reach half a unit to either side, or
a quarter below a power of two, where the numbers lie twice as dense; the ends belong to it when the
mantissa is even. -/
def Format.interval (f : Format) (mantissa : Nat) (exponent : Int) : Interval :=
  let quarter := ratio 1 (exponent - 2)
  let below := if mantissa = Nat.pow 2 f.fraction && f.leastExponent < exponent then 1 else 2
  { low := (4 * mantissa - below) * quarter.num
    value := 4 * mantissa * quarter.num
    high := (4 * mantissa + 2) * quarter.num
    den := quarter.den
    closed := mantissa % 2 = 0 }

/-- The shortest decimal of a magnitude. -/
def Format.figures (f : Format) (mantissa : Nat) (exponent : Int) : Figures :=
  if mantissa = 0 then ⟨0, 0⟩ else (f.interval mantissa exponent).shortest

end CurveArea.Binary
