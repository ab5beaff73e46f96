/-!
# Blanks and words

A text is read as a sequence of words: its maximal runs of characters that are not blank. A blank is
a character with the Unicode property `White_Space`.
-/

namespace CurveArea.Text

/-- The characters of the Unicode property `White_Space`. -/
def isBlank (c : Char) : Bool :=
  let n := c.toNat
  (9 ≤ n && n ≤ 13) || n == 0x20 || n == 0x85 || n == 0xA0 || n == 0x1680 ||
    (0x2000 ≤ n && n ≤ 0x200A) || n == 0x2028 || n == 0x2029 || n == 0x202F || n == 0x205F ||
    n == 0x3000

/-- The words of a text that follow `word`, the reversed beginning of a word that may be empty. -/
def wordsFrom (word : List Char) : List Char → List String
  | [] => if word.isEmpty then [] else [String.ofList word.reverse]
  | c :: cs =>
    if isBlank c then
      if word.isEmpty then wordsFrom [] cs else String.ofList word.reverse :: wordsFrom [] cs
    else wordsFrom (c :: word) cs

/-- The words of a text, in order. Any run of blanks stands between two of them (specification,
section 15). -/
def words (s : String) : List String :=
  wordsFrom [] s.toList

end CurveArea.Text
