import CurveArea.Decimal.Rounding

/-!
# Number literals

A literal is an optional sign followed by `inf`, `infinity` or `nan` in any case, or by digits with
an optional point among or beside them and an optional exponent. At least one digit must stand
before or after the point, and at least one in an exponent.
-/

namespace CurveArea.Decimal

/-- What a literal denotes. -/
inductive Literal
  /-- No number; it has a sign all the same. -/
  | nan (negative : Bool)
  /-- One of the two infinities. -/
  | infinity (negative : Bool)
  /-- The number `coefficient * 10 ^ exponent` or its opposite. -/
  | finite (negative : Bool) (coefficient : Nat) (exponent : Int)
  deriving DecidableEq

namespace Literal

/-- The value of a digit. -/
def digitValue (c : Char) : Nat := c.toNat - '0'.toNat

/-- The value of a list of digits that follow a number already read. -/
def valueFrom (n : Nat) (ds : List Char) : Nat :=
  ds.foldl (fun n d => 10 * n + digitValue d) n

/-- The leading digits of a text, and what follows them. -/
def spanDigits (cs : List Char) : List Char × List Char :=
  (cs.takeWhile Char.isDigit, cs.dropWhile Char.isDigit)

/-- Takes a sign off a text. -/
def spanSign : List Char → Bool × List Char
  | '+' :: cs => (false, cs)
  | '-' :: cs => (true, cs)
  | cs => (false, cs)

/-- The exponent that a text writes; none written is zero. -/
def exponent? : List Char → Option Int
  | [] => some 0
  | e :: cs =>
    if e = 'e' || e = 'E' then
      let (negative, cs) := spanSign cs
      let (ds, rest) := spanDigits cs
      if ds.isEmpty || !rest.isEmpty then none
      else
        let n : Int := valueFrom 0 ds
        some (if negative then -n else n)
    else none

/-- The literal of unsigned digits. -/
def unsigned? (negative : Bool) (cs : List Char) : Option Literal :=
  let (whole, rest) := spanDigits cs
  let (decimals, rest) := match rest with
    | '.' :: rest => spanDigits rest
    | rest => ([], rest)
  if whole.isEmpty && decimals.isEmpty then none
  else (exponent? rest).map fun e =>
    .finite negative (valueFrom (valueFrom 0 whole) decimals) (e - decimals.length)

/-- The literal that a text writes, if it writes one. -/
def ofChars? (cs : List Char) : Option Literal :=
  let (negative, cs) := spanSign cs
  let lower := String.ofList (cs.map Char.toLower)
  if lower = "inf" || lower = "infinity" then some (.infinity negative)
  else if lower = "nan" then some (.nan negative)
  else unsigned? negative cs

/-- The literal that a text writes, if it writes one. -/
def read? (s : String) : Option Literal := ofChars? s.toList

/-- The literal on the scale from one infinity to the other that stands for a literal: what is no
number stands at the end that its sign points to. -/
def onScale : Literal → Literal
  | nan negative => infinity negative
  | l => l

/-- The place of the first digit of `coefficient * 10 ^ exponent`, counted from the point, if the
coefficient is not zero. It tells how large the number is without computing a power of ten. -/
def leadingPlace (coefficient : Nat) (exponent : Int) : Int :=
  digitCount coefficient + exponent

end Literal

end CurveArea.Decimal
