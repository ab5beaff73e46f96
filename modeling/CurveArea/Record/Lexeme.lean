import CurveArea.Text.Identifier

/-!
# Blanks, names and texts of a record

A stored record is read from a list of characters. Each reader here takes the characters that are
left and returns what it read with those that are left then, or nothing if it cannot read; a reader
that passes over something returns only those that are left.
-/

namespace CurveArea.Record

/-! ## Blanks and comments -/

/-- The blanks of a record: those of the Unicode property `Pattern_White_Space`. -/
def isBlank (c : Char) : Bool :=
  let n := c.toNat
  (9 ≤ n && n ≤ 13) || n == 0x20 || n == 0x85 || n == 0x200E || n == 0x200F || n == 0x2028 ||
    n == 0x2029

/-- Where a reader of blanks is. -/
inductive Gap
  /-- Between comments. -/
  | outside
  /-- In a comment that ends with its line. -/
  | line
  /-- In a comment with an end mark, inside `depth` others. -/
  | block (depth : Nat)

/-- Passes over blanks and comments. A slash must begin a comment, and a comment with an end mark
must have one. -/
def skipFrom : Gap → List Char → Option (List Char)
  | .outside, '/' :: '/' :: cs => skipFrom .line cs
  | .outside, '/' :: '*' :: cs => skipFrom (.block 0) cs
  | .outside, '/' :: _ => none
  | .outside, c :: cs => if isBlank c then skipFrom .outside cs else some (c :: cs)
  | .outside, [] => some []
  | .line, c :: cs => if c = '\n' then skipFrom .outside cs else skipFrom .line cs
  | .line, [] => some []
  | .block depth, '/' :: '*' :: cs => skipFrom (.block (depth + 1)) cs
  | .block 0, '*' :: '/' :: cs => skipFrom .outside cs
  | .block (depth + 1), '*' :: '/' :: cs => skipFrom (.block depth) cs
  | .block depth, _ :: cs => skipFrom (.block depth) cs
  | .block _, [] => none

/-- Passes over blanks and comments. -/
def skip (cs : List Char) : Option (List Char) := skipFrom .outside cs

/-- Passes over given characters. -/
def expect (word : String) (cs : List Char) : Option (List Char) :=
  if word.toList.isPrefixOf cs then some (cs.drop word.length) else none

/-- Passes over given characters and the blanks after them. -/
def mark (word : String) (cs : List Char) : Option (List Char) := (expect word cs).bind skip

/-! ## Names -/

/-- Whether the next character goes on with a name. -/
def goesOn (cs : List Char) : Bool := cs.head?.any Text.isNameChar

/-- Passes over a given word that no character of a name follows. -/
def word (w : String) (cs : List Char) : Option (List Char) :=
  (expect w cs).bind fun rest => if goesOn rest then none else some rest

/-- Whether a character may stand in a marked name. -/
def isMarkedChar (c : Char) : Bool := Text.isNameChar c || c = '.' || c = '+' || c = '-'

/-- Whether characters begin a text or a byte, although a name could begin with the same letter. -/
def beginsText (cs : List Char) : Bool :=
  ["b\"", "b'", "br#", "br\"", "r\"", "r#\"", "r##"].any fun w => w.toList.isPrefixOf cs

/-- The longest name at the beginning: an ordinary one, or one marked by `r#`, which may also have
points and signs. -/
def longestName (cs : List Char) : Option (List Char × List Char) :=
  if beginsText cs then none
  else match cs with
    | 'r' :: '#' :: cs =>
      let name := cs.takeWhile isMarkedChar
      if name.isEmpty then none else some (name, cs.dropWhile isMarkedChar)
    | c :: cs =>
      if Text.isNameStart c then
        some (c :: cs.takeWhile Text.isNameChar, cs.dropWhile Text.isNameChar)
      else none
    | [] => none

/-- Reads a name. No character that only a marked name may have can follow it. -/
def name (cs : List Char) : Option (String × List Char) :=
  (longestName cs).bind fun (name, rest) =>
    if rest.head?.any isMarkedChar then none else some (String.ofList name, rest)

/-! ## Texts -/

/-- The value of a hexadecimal digit. -/
def hexDigit? (c : Char) : Option Nat :=
  if '0' ≤ c && c ≤ '9' then some (c.toNat - '0'.toNat)
  else if 'a' ≤ c && c ≤ 'f' then some (c.toNat - 'a'.toNat + 10)
  else if 'A' ≤ c && c ≤ 'F' then some (c.toNat - 'A'.toNat + 10)
  else none

/-- The byte that two hexadecimal digits write. -/
def hexByte? (c d : Char) : Option UInt8 := do
  return UInt8.ofNat (16 * (← hexDigit? c) + (← hexDigit? d))

/-- The character with a given code point, if there is one. -/
def charOfCode? (n : Nat) : Option Char :=
  if n.isValidChar then some (Char.ofNat n) else none

/-- The character that some bytes encode in UTF-8, if they encode one. -/
def charOfBytes? (bytes : List UInt8) : Option Char :=
  (ByteArray.mk bytes.toArray).utf8DecodeChar? 0

/-- The character that a letter stands for after a backslash. -/
def escaped? : Char → Option Char
  | '0' => some '\x00'
  | 't' => some '\t'
  | 'r' => some '\r'
  | 'n' => some '\n'
  | '\\' => some '\\'
  | '"' => some '"'
  | '\'' => some '\''
  | _ => none

/-- Where a reader of quoted characters is. -/
inductive Quoting
  /-- At an ordinary character. -/
  | plain
  /-- After a backslash. -/
  | backslash
  /-- Before the brace of a code point. -/
  | brace
  /-- In the digits of a code point, of which `digits` with the value `n` are read. -/
  | code (n digits : Nat)
  /-- In the bytes of one character, after `bytes`: before the backslash of the next one. -/
  | bytes (bytes : List UInt8)

/-- Reads quoted characters up to the quotation mark; `text` is what has been read, reversed. A
character may be written byte by byte. In quoted bytes (`binary`) each byte stands for itself, and
what is read is of no use but to find the end. -/
def unquoteFrom (binary : Bool) : Quoting → (text : List Char) → List Char →
    Option (List Char × List Char)
  | .plain, text, '"' :: cs => some (text.reverse, cs)
  | .plain, text, '\\' :: cs => unquoteFrom binary .backslash text cs
  | .plain, text, c :: cs => unquoteFrom binary .plain (c :: text) cs
  | .backslash, text, 'x' :: c :: d :: cs =>
    match hexByte? c d with
    | none => none
    | some b =>
      if binary then unquoteFrom binary .plain text cs
      else match charOfBytes? [b] with
        | some e => unquoteFrom binary .plain (e :: text) cs
        | none => unquoteFrom binary (.bytes [b]) text cs
  | .backslash, text, 'u' :: cs => unquoteFrom binary .brace text cs
  | .backslash, text, c :: cs =>
    match escaped? c with
    | some d => unquoteFrom binary .plain (d :: text) cs
    | none => none
  | .brace, text, '\x7b' :: cs => unquoteFrom binary (.code 0 0) text cs
  | .code n digits, text, c :: cs =>
    if c = '\x7d' && digits ≠ 0 then
      match charOfCode? n with
      | some d => unquoteFrom binary .plain (d :: text) cs
      | none => none
    else match hexDigit? c with
      | some d =>
        if digits < 6 then unquoteFrom binary (.code (16 * n + d) (digits + 1)) text cs else none
      | none => none
  | .bytes bs, text, '\\' :: 'x' :: c :: d :: cs =>
    match hexByte? c d with
    | none => none
    | some b =>
      match charOfBytes? (bs ++ [b]) with
      | some e => unquoteFrom binary .plain (e :: text) cs
      | none => if bs.length < 3 then unquoteFrom binary (.bytes (bs ++ [b])) text cs else none
  | _, _, _ => none

/-- Reads characters as they stand, up to a quotation mark and as many hashes as `hashes`. -/
def rawFrom (hashes : List Char) : (text : List Char) → List Char → Option (List Char × List Char)
  | _, [] => none
  | text, c :: cs =>
    if c = '"' && hashes.isPrefixOf cs then some (text.reverse, cs.drop hashes.length)
    else rawFrom hashes (c :: text) cs

/-- Reads characters as they stand, between marks with any count of hashes. -/
def raw (cs : List Char) : Option (List Char × List Char) :=
  match cs.dropWhile (· = '#') with
  | '"' :: rest => rawFrom (cs.takeWhile (· = '#')) [] rest
  | _ => none

/-- Reads a text: quoted, or as it stands after an `r`. -/
def text : List Char → Option (String × List Char)
  | '"' :: cs => (unquoteFrom false .plain [] cs).map fun (t, rest) => (String.ofList t, rest)
  | 'r' :: cs => (raw cs).map fun (t, rest) => (String.ofList t, rest)
  | _ => none

/-- Passes over quoted bytes, or bytes as they stand after an `r`. -/
def passBytes : List Char → Option (List Char)
  | 'b' :: '"' :: cs => (unquoteFrom true .plain [] cs).map (·.2)
  | 'b' :: 'r' :: cs => (raw cs).map (·.2)
  | _ => none

/-- Passes over a character in apostrophes. It may not be written by a byte above 127. -/
def passChar : List Char → Option (List Char)
  | '\'' :: '\\' :: 'x' :: c :: d :: '\'' :: cs =>
    (hexByte? c d).bind fun b => if b < 128 then some cs else none
  | '\'' :: '\\' :: 'u' :: '\x7b' :: cs =>
    (unquoteFrom false (.code 0 0) [] (cs.takeWhile (· ≠ '\'') ++ ['"'])).bind fun (t, rest) =>
      if t.length = 1 && rest.isEmpty then expect "'" (cs.dropWhile (· ≠ '\'')) else none
  | '\'' :: '\\' :: c :: '\'' :: cs => (escaped? c).map fun _ => cs
  | '\'' :: c :: '\'' :: cs => if c = '\\' then none else some cs
  | _ => none

/-- Passes over a byte in apostrophes: an ASCII character or an escaped byte. -/
def passByte : List Char → Option (List Char)
  | 'b' :: '\'' :: '\\' :: 'x' :: c :: d :: '\'' :: cs => (hexByte? c d).map fun _ => cs
  | 'b' :: '\'' :: '\\' :: c :: '\'' :: cs => (escaped? c).map fun _ => cs
  | 'b' :: '\'' :: c :: '\'' :: cs => if c = '\\' || 128 ≤ c.toNat then none else some cs
  | _ => none

end CurveArea.Record
