import CurveArea.Number.Scalar

/-!
# Random words

Estimates draw from a source of words of 64 bits. A word becomes a number of the unit interval, one
excluded, by its 53 upper bits; they are all a binary64 can hold, so nothing is rounded.
-/

namespace CurveArea

/-- A source of words. An estimate accepts any (specification, section 14). -/
class WordSource (σ : Type) where
  /-- The next word, and the source after it. -/
  next : σ → UInt64 × σ

/-- The number of the unit interval that a word stands for. -/
def unitOfWord {α : Type} [Scalar α] (word : UInt64) : α :=
  Scalar.ofNat (word >>> 11).toNat / Scalar.ofNat (Nat.pow 2 53)

/-- A source that gives the words of a list in turn, over and over; an empty list gives zeros. -/
structure Cycle where
  /-- The words of the whole list. -/
  all : List UInt64
  /-- Those that come before the list starts over. -/
  ahead : List UInt64

namespace Cycle

/-- The source at the beginning of a list. -/
def ofList (words : List UInt64) : Cycle := ⟨words, words⟩

instance : WordSource Cycle where
  next s := match s.ahead, s.all with
    | word :: rest, _ => (word, { s with ahead := rest })
    | [], word :: rest => (word, { s with ahead := rest })
    | [], [] => (0, s)

end Cycle

end CurveArea
