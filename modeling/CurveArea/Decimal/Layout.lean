import CurveArea.Decimal.Shortest

/-!
# Layouts of a decimal

Digits are laid out in three ways: positional, with zeros up to the point on either side;
scientific, with one digit before the point and an exponent; and with a fixed count of decimals.
-/

namespace CurveArea.Decimal

/-- The decimal digits of a natural number. -/
def digits (n : Nat) : List Char := Nat.toDigits 10 n

/-- An integer in digits, with a minus sign if it is negative. -/
def signedDigits : Int → List Char
  | .ofNat n => digits n
  | .negSucc n => '-' :: digits (n + 1)

/-- Digits with a point before the last `places` of them, and zeros to have one before it. -/
def pointed (ds : List Char) (places : Nat) : List Char :=
  if places = 0 then ds
  else
    let padded := List.replicate (places + 1 - ds.length) '0' ++ ds
    padded.take (padded.length - places) ++ '.' :: padded.drop (padded.length - places)

namespace Figures

/-- The positional layout. -/
def positional (f : Figures) : List Char :=
  match f.place with
  | .ofNat k => digits f.coefficient ++ List.replicate k '0'
  | .negSucc k => pointed (digits f.coefficient) (k + 1)

/-- The exponent of the first digit. -/
def exponent (f : Figures) : Int :=
  f.place + ((digits f.coefficient).length - 1 : Nat)

/-- The digits with a point after the first, if others follow it. -/
def significand (f : Figures) : List Char :=
  match digits f.coefficient with
  | d :: e :: ds => d :: '.' :: e :: ds
  | ds => ds

/-- The scientific layout, the exponent written as an integer. -/
def scientific (f : Figures) : List Char :=
  f.significand ++ 'e' :: signedDigits f.exponent

end Figures

/-- An exponent with its sign and at least two digits. -/
def paddedExponent (e : Int) : List Char :=
  let ds := digits e.natAbs
  (if e < 0 then '-' else '+') :: (List.replicate (2 - ds.length) '0' ++ ds)

namespace Ratio

/-- A quotient rounded to a fixed count of decimals. -/
def fixed (places : Nat) (r : Ratio) : List Char :=
  pointed (digits (r.inUnits (-places)).round) places

/-- A quotient rounded to three digits. Rounding up to the next power of ten moves the leading
place. -/
def threeFigures (r : Ratio) : Figures :=
  if r.num = 0 then ⟨0, -2⟩
  else
    let lead := r.leadingPlace
    let n := (r.inUnits (lead - 2)).round
    if n = 1000 then ⟨100, lead - 1⟩ else ⟨n, lead - 2⟩

/-- A quotient with one digit before the point, two after it, and an exponent of at least two
digits: the label of a tick (specification, section 14). -/
def label (r : Ratio) : List Char :=
  let f := r.threeFigures
  pointed (digits f.coefficient) 2 ++ 'e' :: paddedExponent (f.place + 2)

end Ratio

end CurveArea.Decimal
