import CurveArea.Record.Lexeme

/-!
# What stands in parentheses

Whether parentheses hold names with their values is told by their first two lexemes. Whether they
hold one value or several is told by a comma at their own level that is not the last of them: a scan
looks for it without reading the values. It passes over texts, bytes and characters as a whole, so
that no bracket or comma in them counts.
-/

namespace CurveArea.Record

/-- The parts that stand between brackets. -/
inductive Parts
  /-- Values. -/
  | values
  /-- Names with their values. -/
  | fields
  /-- Values with their values. -/
  | entries
  deriving DecidableEq

/-- The parts that stand in parentheses: fields if there is a name and a colon, else values. -/
def partsIn (cs : List Char) : Parts :=
  match (longestName cs).bind fun (_, rest) => skip rest with
  | some (':' :: _) => .fields
  | _ => .values

/-! ## Texts without an end -/

/-- Whether quoted characters go on to the end of all characters. What comes after the last
quotation mark cannot change that, and a mark put there would be the one that ends them. -/
def quotedUnended (binary : Bool) (cs : List Char) : Bool :=
  let upToLast := (cs.reverse.dropWhile (· ≠ '"')).reverse
  match unquoteFrom binary .plain [] (upToLast ++ ['"']) with
  | some (_, rest) => rest.isEmpty
  | none => false

/-- Whether a text, or bytes after their first letter, begin but have no end. -/
def unended (binary : Bool) : List Char → Bool
  | '"' :: cs => quotedUnended binary cs
  | 'r' :: cs => (cs.dropWhile (· = '#')).head? = some '"' && (raw cs).isNone
  | _ => false

/-- Passes over a text if one begins. It must have an end. -/
def passAnyText (cs : List Char) : Option (List Char) :=
  if unended false cs then none else some (((text cs).map (·.2)).getD cs)

/-- Passes over bytes if some begin. They must have an end. -/
def passAnyBytes : List Char → Option (List Char)
  | 'b' :: cs => if unended true cs then none else some ((passBytes ('b' :: cs)).getD ('b' :: cs))
  | cs => some cs

/-! ## The scan -/

/-- Whether parentheses hold more than one value. The scan is inside `depth` brackets within the
parentheses; `fuel` bounds its steps. There is no answer if the parentheses have no end. -/
def severalFrom : (fuel depth : Nat) → List Char → Option Bool
  | 0, _, _ => none
  | fuel + 1, depth, cs => do
    let cs ← skip cs
    let cs ← passAnyText ((passChar cs).getD cs)
    let cs ← passAnyBytes cs
    match cs with
    | [] => none
    | c :: cs =>
      if c = '(' || c = '[' || c = '\x7b' then severalFrom fuel (depth + 1) cs
      else if c = ')' || c = ']' || c = '\x7d' then
        match depth with
        | 0 => some false
        | depth + 1 => severalFrom fuel depth cs
      else if c = ',' && depth = 0 then (skip cs).map fun rest => rest.head? ≠ some ')'
      else severalFrom fuel depth cs

/-- The parts of the one value that parentheses hold, if they hold its parts and not the value
itself: fields, or more than one value. There is no answer if the parentheses have no end. -/
def unwrapped (cs : List Char) : Option (Option Parts) :=
  match partsIn cs with
  | .fields => some (some .fields)
  | _ =>
    (severalFrom (cs.length + 1) 0 cs).map fun several => if several then some .values else none

end CurveArea.Record
