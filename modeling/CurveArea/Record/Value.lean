import CurveArea.Record.Figure
import CurveArea.Record.Wrapped

/-!
# Passing over values of a record

A field with an unknown name may have a value of any form. It is read only to find its end, but it
must be well formed: a number, a text, a character or bytes; a name with or without parts; parts in
parentheses, in brackets or in braces. Values may stand one in another up to a certain depth.
-/

namespace CurveArea.Record

/-- How a value may stand after the word `Some`. -/
structure Wrapping where
  /-- It need not stand in parentheses. -/
  bare : Bool
  /-- Its own parentheses may be left out where those of the word stand, and a value without parts
  may be left out with them. -/
  unwraps : Bool

/-- The words that are values by themselves. -/
def valueWords : List String :=
  ["true", "false", "None", "inf", "inff32", "inff64", "NaN", "NaNf32", "NaNf64"]

mutual

/-- Passes over a value. `room` is how much deeper a value may lie: parts take one level, and each
of them another. `fuel` bounds the calls. -/
def passValue (w : Wrapping) : (fuel room : Nat) → List Char → Option (List Char)
  | 0, _, _ => none
  | fuel + 1, room, cs =>
    match valueWords.findSome? fun name => word name cs with
    | some rest => some rest
    | none =>
      match word "Some" cs with
      | some rest => passOption w fuel room rest
      | none =>
        match expect "()" cs with
        | some rest => some rest
        | none =>
          match longestName cs with
          | some (_, rest) => do
            let rest ← skip rest
            match rest with
            | '(' :: inner => passInside w fuel room inner
            | rest => some rest
          | none =>
            match cs with
            | '(' :: inner => passInside w fuel room inner
            | '[' :: inner => do passParts w fuel room .values ']' (← skip inner)
            | '\x7b' :: inner => do passParts w fuel room .entries '\x7d' (← skip inner)
            | '"' :: _ => (text cs).map (·.2)
            | 'r' :: _ => (text cs).map (·.2)
            | '\'' :: _ => passChar cs
            | 'b' :: '\'' :: _ => passByte cs
            | 'b' :: _ => passBytes cs
            | cs => passNumber cs

/-- Passes over what follows the word `Some`: a value in parentheses, with a comma after it or
none. -/
def passOption (w : Wrapping) : (fuel room : Nat) → List Char → Option (List Char)
  | 0, _, _ => none
  | _, 0, _ => none
  | fuel + 1, room + 1, cs => do
    let cs ← skip cs
    match cs with
    | '(' :: inner => do
      let inner ← skip inner
      if w.unwraps then
        if inner.head? = some ')' then expect ")" inner
        else match ← unwrapped inner with
          | some parts => passParts w fuel room parts ')' inner
          | none => passWrapped w fuel room inner
      else passWrapped w fuel room inner
    | cs => if w.bare then passValue w fuel room cs else none

/-- Passes over a value, a comma or none, and the closing parenthesis. -/
def passWrapped (w : Wrapping) : (fuel room : Nat) → List Char → Option (List Char)
  | 0, _, _ => none
  | fuel + 1, room, cs => do
    let rest ← passValue w fuel room cs
    let rest ← skip rest
    let rest ← match rest with
      | ',' :: rest => skip rest
      | rest => some rest
    expect ")" rest

/-- Passes over parts up to the closing parenthesis. -/
def passInside (w : Wrapping) : (fuel room : Nat) → List Char → Option (List Char)
  | 0, _, _ => none
  | fuel + 1, room, cs => do
    let cs ← skip cs
    passParts w fuel room (partsIn cs) ')' cs

/-- Passes over parts up to a closing bracket. -/
def passParts (w : Wrapping) :
    (fuel room : Nat) → Parts → (close : Char) → List Char → Option (List Char)
  | 0, _, _, _, _ => none
  | _, 0, _, _, _ => none
  | _, _ + 1, _, _, [] => none
  | fuel + 1, room + 1, parts, close, c :: cs =>
    if c = close then some cs
    else
      match room with
      | 0 => none
      | below + 1 => do
        let rest ← match parts with
          | .fields => (name (c :: cs)).map (·.2)
          | _ => passValue w fuel below (c :: cs)
        let rest ← skip rest
        let rest ← match parts with
          | .values => some rest
          | _ => do
            let rest ← passValue w fuel below (← mark ":" rest)
            skip rest
        match rest with
        | ',' :: rest => do passParts w fuel (room + 1) parts close (← skip rest)
        | c :: rest => if c = close then some rest else none
        | [] => none

end

end CurveArea.Record
