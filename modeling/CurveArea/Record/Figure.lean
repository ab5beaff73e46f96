import CurveArea.Decimal.Literal
import CurveArea.Record.Lexeme

/-!
# Numbers of a record

Whole numbers are written in one of four bases, other numbers by their literal; both may have low
lines between their digits, and may name the kind of number that they are at the end.
-/

namespace CurveArea.Record

/-! ## Whole numbers -/

/-- A kind of whole numbers. -/
structure WholeKind where
  /-- Whether it has negative numbers. -/
  signed : Bool
  /-- How many bits its numbers have. -/
  bits : Nat
  deriving DecidableEq

namespace WholeKind

/-- The kinds that can be named. -/
def all : List WholeKind :=
  [true, false].flatMap fun signed => [8, 16, 32, 64, 128].map fun bits => ⟨signed, bits⟩

/-- How a kind is named. -/
def name (k : WholeKind) : String := (if k.signed then "i" else "u") ++ toString k.bits

/-- Whether a kind has the number of a given sign and magnitude. -/
def holds (k : WholeKind) (negative : Bool) (magnitude : Nat) : Bool :=
  match k.signed, negative with
  | true, true => magnitude ≤ Nat.pow 2 (k.bits - 1)
  | true, false => magnitude < Nat.pow 2 (k.bits - 1)
  | false, true => magnitude = 0
  | false, false => magnitude < Nat.pow 2 k.bits

/-- The counts of 32 bits. -/
def count32 : WholeKind := ⟨false, 32⟩

/-- The counts of 64 bits. -/
def count64 : WholeKind := ⟨false, 64⟩

end WholeKind

/-- A whole number as it is written. -/
structure Whole where
  /-- Whether it has a minus sign. -/
  negative : Bool
  /-- The value of its digits. -/
  magnitude : Nat
  /-- The kind that it names. -/
  kind : Option WholeKind

/-- Whether a character may stand among the digits of a whole number: a digit of any base or a low
line. -/
def isWholeChar (c : Char) : Bool := (hexDigit? c).isSome || c = '_'

/-- The value of digits with low lines among them. -/
def wholeValue (base : Nat) (ds : List Char) : Option Nat :=
  ds.foldlM (fun n c =>
    if c = '_' then some n
    else (hexDigit? c).bind fun d => if d < base then some (base * n + d) else none) 0

/-- Splits the mark of a base from the digits. -/
def wholeBase : List Char → Nat × List Char
  | '0' :: 'x' :: cs => (16, cs)
  | '0' :: 'o' :: cs => (8, cs)
  | '0' :: 'b' :: cs => (2, cs)
  | cs => (10, cs)

/-- Reads the digits of a whole number. They may not begin with a low line. -/
def magnitude (cs : List Char) : Option (Nat × List Char) :=
  let (base, cs) := wholeBase cs
  let ds := cs.takeWhile isWholeChar
  if ds.isEmpty || ds.head? = some '_' then none
  else (wholeValue base ds).map fun n => (n, cs.dropWhile isWholeChar)

/-- Reads a whole number. A name of a kind is looked for where the characters end that may be digits
of any base, so no name follows the mark of base 8 or 16. -/
def whole (cs : List Char) : Option (Whole × List Char) :=
  let (negative, cs) := Decimal.Literal.spanSign cs
  let afterDigits := cs.dropWhile isWholeChar
  let named := WholeKind.all.findSome? fun k => (word k.name afterDigits).map fun rest => (k, rest)
  (magnitude cs).map fun (n, rest) =>
    match named with
    | some (k, afterName) => (⟨negative, n, some k⟩, afterName)
    | none => (⟨negative, n, none⟩, rest)

/-- Reads a number of a given kind. If it names a kind, then it must be that one. -/
def wholeOf (k : WholeKind) (cs : List Char) : Option (Nat × List Char) :=
  (whole cs).bind fun (w, rest) =>
    if (w.kind.all fun named => named = k) && k.holds w.negative w.magnitude then
      some (w.magnitude, rest)
    else none

/-- Passes over a whole number of the kind that it names, or of 128 bits. -/
def passWhole (cs : List Char) : Option (List Char) :=
  (whole cs).bind fun (w, rest) =>
    if (w.kind.getD ⟨w.negative, 128⟩).holds w.negative w.magnitude then some rest else none

/-! ## Other numbers -/

/-- Whether a character may stand in a number. -/
def isNumberChar (c : Char) : Bool :=
  c.isDigit || c = '.' || c = 'e' || c = 'E' || c = '+' || c = '-' || c = '_'

/-- A number without its low lines. They may follow a digit or an exponent mark, with a sign or
another low line between, but not a point; `allowed` tells whether one may come next. -/
def withoutLines (allowed : Bool) : List Char → Option (List Char)
  | [] => some []
  | '_' :: cs => if allowed then withoutLines allowed cs else none
  | c :: cs =>
    let next := if c = '.' then false else allowed || !(c = '+' || c = '-')
    (withoutLines next cs).map (c :: ·)

/-- The numbers that have a name. -/
def numberNames : List String := ["inf", "+inf", "-inf", "NaN", "+NaN", "-NaN"]

/-- Reads a number: its literal, and the count of bits that it names, if it names one. -/
def figure (cs : List Char) : Option ((String × Option Nat) × List Char) :=
  let named := numberNames.findSome? fun name =>
    [("", none), ("f32", some 32), ("f64", some 64)].findSome? fun (suffix, bits) =>
      (word (name ++ suffix) cs).map fun rest => ((name, bits), rest)
  match named with
  | some found => some found
  | none => do
    let literal ← withoutLines false (cs.takeWhile isNumberChar)
    let rest := cs.dropWhile isNumberChar
    let _ ← Decimal.Literal.ofChars? literal
    let literal := String.ofList literal
    match word "f32" rest, word "f64" rest with
    | some rest, _ => some ((literal, some 32), rest)
    | none, some rest => some ((literal, some 64), rest)
    | none, none => some ((literal, none), rest)

/-- Reads the literal of a number of 64 bits. If it names a count of bits, then it must be this. -/
def number (cs : List Char) : Option (String × List Char) :=
  (figure cs).bind fun ((literal, bits), rest) =>
    if bits.all (· = 64) then some (literal, rest) else none

/-- Passes over a number of any kind. What has a part that no whole number has is not read as one;
what is too large for one is read as another number. -/
def passNumber (cs : List Char) : Option (List Char) :=
  let unsigned := (Decimal.Literal.spanSign cs).2
  if (unsigned.takeWhile isWholeChar).length < (unsigned.takeWhile isNumberChar).length then
    (figure cs).map (·.2)
  else (passWhole cs).or ((figure cs).map (·.2))

end CurveArea.Record
