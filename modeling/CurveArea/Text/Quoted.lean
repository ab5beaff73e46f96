import CurveArea.Text.Extender
import CurveArea.Text.Unprintable

/-!
# Quoted texts

A text is quoted by escaping its characters one by one. Quotation marks and backslashes get a
backslash, four controls have a letter, and every other character that would not be seen by itself
is named by its code point. Two kinds of quotation differ in whether an apostrophe is escaped too.
-/

namespace CurveArea.Text

/-- What a quotation escapes besides what every quotation does. -/
structure Quotation where
  /-- Whether an apostrophe is escaped. -/
  apostrophe : Bool

/-- The quotation of texts that are shown. -/
def shown : Quotation := ⟨false⟩

/-- The quotation of texts that are stored. -/
def stored : Quotation := ⟨true⟩

/-- A character named by its code point in hexadecimal digits. -/
def codePoint (c : Char) : List Char :=
  ['\\', 'u', '\x7b'] ++ Nat.toDigits 16 c.toNat ++ ['\x7d']

namespace Quotation

/-- How a character is quoted. -/
def escape (q : Quotation) (c : Char) : List Char :=
  match c with
  | '\x00' => ['\\', '0']
  | '\t' => ['\\', 't']
  | '\r' => ['\\', 'r']
  | '\n' => ['\\', 'n']
  | '\\' => ['\\', '\\']
  | '"' => ['\\', '"']
  | '\'' => if q.apostrophe then ['\\', '\''] else ['\'']
  | c => if isExtender c || isUnprintable c then codePoint c else [c]

/-- A text in quotation marks. -/
def quote (q : Quotation) (s : String) : String :=
  String.ofList ('"' :: (s.toList.flatMap q.escape ++ ['"']))

end Quotation

end CurveArea.Text
