import CurveArea.Record.Value
import CurveArea.Session.Stored

/-!
# Reading stored settings

A stored record gives any of the settings, in any order: `(name: value, …)`, with blanks and
comments between any two parts and possibly a comma at the end. Attributes may come first, and then
the name of the record. A field with an unknown name is passed over, whatever value it has. A known
field must have a value of its kind and range and may be given only once. A text with any fault
gives nothing at all, so that settings are never restored in part.
-/

namespace CurveArea.Restored

open Record

/-! ## Attributes -/

/-- What the attributes of a record ask for. -/
structure Options extends Wrapping where
  /-- The name of the record must be given. -/
  named : Bool

/-- What is asked for without attributes: nothing. -/
def Options.plain : Options := ⟨⟨false, false⟩, false⟩

/-- The options with one more, given by its name. One name asks for nothing that settings have. -/
def Options.add? (o : Options) : String → Option Options
  | "explicit_struct_names" => some { o with named := true }
  | "implicit_some" => some { o with bare := true }
  | "unwrap_newtypes" => some o
  | "unwrap_variant_newtypes" => some { o with unwraps := true }
  | _ => none

/-- Reads names of options with commas between them; `fuel` bounds their count. -/
def optionNames : (fuel : Nat) → Options → List Char → Option (Options × List Char)
  | 0, _, _ => none
  | fuel + 1, o, cs => do
    let (found, cs) ← name cs
    let o ← o.add? found
    let cs ← skip cs
    match cs with
    | ',' :: cs => do
      let cs ← skip cs
      if goesOn cs then optionNames fuel o cs else some (o, cs)
    | cs => some (o, cs)

/-- Reads the attributes before a record; `fuel` bounds their count. -/
def attributes : (fuel : Nat) → Options → List Char → Option (Options × List Char)
  | 0, _, _ => none
  | fuel + 1, o, cs =>
    if cs.head? = some '#' then do
      let cs ← ["#", "!", "[", "enable", "("].foldlM (fun cs w => mark w cs) cs
      let (o, cs) ← optionNames cs.length o cs
      let cs ← [")", "]"].foldlM (fun cs w => mark w cs) cs
      attributes fuel o cs
    else some (o, cs)

/-- Passes over the name of a record, which may be left out unless it is asked for. -/
def recordName (o : Options) (cs : List Char) : Option (List Char) :=
  if goesOn cs then (name cs).bind fun (found, rest) =>
    if found = Settings.recordName then skip rest else none
  else if o.named then none
  else some cs

/-! ## Fields -/

variable {α : Type} [Numeral α]

/-- How deep a value may lie in a record. -/
def depth : Nat := 128

/-- Reads a number for a setting. -/
def given (cs : List Char) : Option (Given α × List Char) := do
  let (literal, rest) ← number cs
  return (← Given.read? literal, rest)

/-- Gives a setting that must not be given yet. -/
def once {β γ : Type} (before : Option β) (read : Option (β × List Char))
    (give : Option β → γ) : Option (γ × List Char) :=
  if before.isSome then none else read.map fun (v, rest) => (give (some v), rest)

/-- Reads the value of a field and adds it to the change. A field is one level below the record and
its value another one. -/
def fieldValue (o : Options) (name : String) (c : Change α) (cs : List Char) :
    Option (Change α × List Char) :=
  match name with
  | "f1" => once c.first (text cs) fun v => { c with first := v }
  | "f2" => once c.second (text cs) fun v => { c with second := v }
  | "x_min" => once c.xMin (given cs) fun v => { c with xMin := v }
  | "x_max" => once c.xMax (given cs) fun v => { c with xMax := v }
  | "y_min" => once c.yMin (given cs) fun v => { c with yMin := v }
  | "y_max" => once c.yMax (given cs) fun v => { c with yMax := v }
  | "points" => once c.points (wholeOf .count64 cs) fun v => { c with points := v }
  | "graine" =>
    once c.seed ((wholeOf .count64 cs).map fun (n, rest) => (UInt64.ofNat n, rest)) fun v =>
      { c with seed := v }
  | "passes_max" => once c.passBound (wholeOf .count32 cs) fun v => { c with passBound := v }
  | _ => (passValue o.toWrapping (4 * cs.length + 4) (depth - 2) cs).map fun rest => (c, rest)

/-- Reads fields up to the closing parenthesis; `fuel` bounds their count. -/
def fields (o : Options) : (fuel : Nat) → Change α → List Char → Option (Change α × List Char)
  | 0, _, _ => none
  | fuel + 1, c, cs =>
    match cs with
    | ')' :: rest => some (c, rest)
    | cs => do
      let (field, cs) ← name cs
      let cs ← skip cs
      let cs ← mark ":" cs
      let (c, cs) ← fieldValue o field c cs
      let cs ← skip cs
      match cs with
      | ',' :: cs => do fields o fuel c (← skip cs)
      | ')' :: cs => some (c, cs)
      | _ => none

/-- The change that a stored text describes, if the whole of it is well formed. -/
def read? (stored : String) : Option (Change α) := do
  let cs ← skip stored.toList
  let (o, cs) ← attributes (cs.length + 1) .plain cs
  let cs ← recordName o cs
  let cs ← mark "(" cs
  let (c, cs) ← fields o (cs.length + 1) {} cs
  let cs ← skip cs
  if cs.isEmpty then some c else none

/-- The change that a stored text describes; none at all if it is not well formed or there is no
text. The settings that it leaves out have their defaults (specification, section 13). -/
def changeOf (stored : Option String) : Change α := (stored.bind read?).getD {}

end CurveArea.Restored
