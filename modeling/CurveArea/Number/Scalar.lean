/-!
# Numbers

The library computes in binary64, but nothing in it depends on that: each part names the operations
it needs by one of the classes below. Formulas need five operations (`Operations`), windows, curves
and areas need arithmetic with comparisons (`Scalar`), texts need the written forms of a number
(`Numeral`), and a whole session needs all of them (`Number`). Exact rational numbers are a `Scalar`
as well as binary64 is, so a statement about a definition here can be made of either.
-/

namespace CurveArea

/-- The five operations a formula is built from. Nothing is assumed of them. -/
class Operations (α : Type) extends Add α, Sub α, Mul α, Div α where
  /-- `power a b` is the worth of `a ^ b`, for any exponent (specification, section 4.2). -/
  power : α → α → α

/-- Numbers that measure the plane: the four operations of arithmetic, two comparisons, and the few
constants that a drawing is made with. -/
class Scalar (α : Type) extends Add α, Sub α, Mul α, Div α, LT α, LE α where
  /-- Which of two numbers is below the other can be decided. -/
  decideLT : DecidableLT α
  /-- Whether a number is at most another can be decided. -/
  decideLE : DecidableLE α
  /-- The number nearest to a natural number. -/
  ofNat : Nat → α
  /-- The distance of a number from zero. -/
  abs : α → α
  /-- Whether a number is neither infinite nor undefined. -/
  isFinite : α → Bool
  /-- One half. -/
  half : α
  /-- The smallest positive number that is represented to full precision. -/
  smallestNormal : α
  /-- The smallest positive number. -/
  smallestPositive : α

instance Scalar.decidableLT {α : Type} [Scalar α] : DecidableLT α := Scalar.decideLT

instance Scalar.decidableLE {α : Type} [Scalar α] : DecidableLE α := Scalar.decideLE

/-- Numbers `β` that positions on a screen are kept in, for coordinates `α`. -/
class Pixel (α : Type) (β : outParam Type) [Scalar α] [Scalar β] where
  /-- A size or position as a coordinate. -/
  widen : β → α
  /-- The position nearest to a coordinate. -/
  narrow : α → β

/-- The written forms of a number. -/
class Numeral (α : Type) where
  /-- The number that a text denotes, if it denotes one. -/
  read? : String → Option α
  /-- The same number, but an infinity of the text's sign where the text says that it is none. -/
  readOnScale? : String → Option α
  /-- The plain form: all digits needed to read the number back, and never an exponent. -/
  text : α → String
  /-- The scientific form: as many digits, one of them before the point, and an exponent. -/
  scientific : α → String
  /-- The tagged form: told from a count by its point or its exponent. -/
  tagged : α → String
  /-- The plain form with a given count of decimals. -/
  fixed : Nat → α → String
  /-- The form of an axis label: two decimals and a signed exponent of two digits or more. -/
  label : α → String

/-- Numbers that a whole session can be held in. -/
class Number (α : Type) extends Operations α, Scalar α, Numeral α where
  /-- The square root. -/
  sqrt : α → α

end CurveArea
