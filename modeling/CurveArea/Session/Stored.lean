import CurveArea.Session.Settings

/-!
# Writing settings to be stored

Settings are stored as a record: their fields in order, each with its name, in parentheses. Texts
are quoted, and numbers are written so that they cannot be taken for counts.
-/

namespace CurveArea

/-- A number as it is stored: in its plain form, with a decimal when it would have none. -/
def storedNumber {α : Type} [Numeral α] (v : α) : String :=
  let text := Numeral.text v
  if text.toList.all fun c => c.isDigit || c = '-' then text ++ ".0" else text

/-- The text that settings are stored as, between one session and the next (specification, section
13). -/
def Settings.stored {α : Type} [Numeral α] (s : Settings α) : String :=
  let fields := (s.fields Text.stored.quote storedNumber).map fun (name, value) =>
    name ++ ":" ++ value
  "(" ++ ",".intercalate fields ++ ")"

end CurveArea
