import CurveArea.Number.Scalar
import CurveArea.Text.Quoted

/-!
# Settings

What a launch starts from: two formulas, the bounds of the window, the count of draws with their
seed, and the bound on the passes of a trace. Settings are changed by giving some of their fields,
whether they are typed or read from a stored text, and are clamped before they are used.
-/

namespace CurveArea

/-- The settings of a launch (specification, section 13). -/
structure Settings (α : Type) where
  /-- The first formula. -/
  first : String
  /-- The second formula. -/
  second : String
  /-- The left bound of the window. -/
  xMin : α
  /-- The right bound of the window. -/
  xMax : α
  /-- The lower bound of the window. -/
  yMin : α
  /-- The upper bound of the window. -/
  yMax : α
  /-- The count of draws. -/
  points : Nat
  /-- The seed of the draws. -/
  seed : UInt64
  /-- The bound on the passes of a trace. -/
  passBound : Nat
  deriving DecidableEq

/-- A number as it is given in a text. What is typed or stored need not be a number at all; on the
scale of the fields in which it is shown it is held at the end that its sign points to. -/
structure Given (α : Type) where
  /-- The number that the text denotes. -/
  value : α
  /-- The number that is shown for it. -/
  onScale : α
  deriving DecidableEq

/-- The number that a text gives. -/
def Given.read? {α : Type} [Numeral α] (text : String) : Option (Given α) := do
  return ⟨← Numeral.read? text, ← Numeral.readOnScale? text⟩

/-- Values for some of the settings. -/
structure Change (α : Type) where
  /-- The first formula. -/
  first : Option String := none
  /-- The second formula. -/
  second : Option String := none
  /-- The left bound of the window. -/
  xMin : Option (Given α) := none
  /-- The right bound of the window. -/
  xMax : Option (Given α) := none
  /-- The lower bound of the window. -/
  yMin : Option (Given α) := none
  /-- The upper bound of the window. -/
  yMax : Option (Given α) := none
  /-- The count of draws. -/
  points : Option Nat := none
  /-- The seed of the draws. -/
  seed : Option UInt64 := none
  /-- The bound on the passes of a trace. -/
  passBound : Option Nat := none
  deriving DecidableEq

/-- The change with every number held on the scale. -/
def Change.onScale {α : Type} (c : Change α) : Change α :=
  let hold := Option.map fun (g : Given α) => ⟨g.onScale, g.onScale⟩
  { c with xMin := hold c.xMin, xMax := hold c.xMax, yMin := hold c.yMin, yMax := hold c.yMax }

namespace Settings

variable {α : Type}

/-- The most draws that a launch makes. -/
def mostPoints : Nat := 200000

/-- The most passes that a trace makes. -/
def mostPasses : Nat := 20

/-- The settings of a new session: the area under a parabola in the unit square (specification,
section 13). -/
def default [Scalar α] : Settings α where
  first := "x ^ 2"
  second := "0"
  xMin := Scalar.ofNat 0
  xMax := Scalar.ofNat 1
  yMin := Scalar.ofNat 0
  yMax := Scalar.ofNat 1
  points := 10000
  seed := 42
  passBound := 16

/-- The number of an interval of natural numbers that is nearest to a given one. -/
def clampNat (low high n : Nat) : Nat := max low (min n high)

/-- The settings with their counts held in range. -/
def clamped (s : Settings α) : Settings α :=
  { s with
    points := clampNat 1 mostPoints s.points
    passBound := clampNat 1 mostPasses s.passBound }

/-- Clamped settings stay as they are. -/
@[simp] theorem clamped_clamped (s : Settings α) : s.clamped.clamped = s.clamped := by
  simp only [clamped, clampNat, mostPoints, mostPasses, Settings.mk.injEq, true_and]
  omega

/-- Overwrites the settings that a change gives. -/
def change (s : Settings α) (c : Change α) : Settings α where
  first := c.first.getD s.first
  second := c.second.getD s.second
  xMin := (c.xMin.map Given.value).getD s.xMin
  xMax := (c.xMax.map Given.value).getD s.xMax
  yMin := (c.yMin.map Given.value).getD s.yMin
  yMax := (c.yMax.map Given.value).getD s.yMax
  points := c.points.getD s.points
  seed := c.seed.getD s.seed
  passBound := c.passBound.getD s.passBound

/-- The name under which a record of settings is written. -/
def recordName : String := "Parametres"

/-- The fields of settings with their written values, given how texts and numbers are written. -/
def fields (s : Settings α) (text : String → String) (number : α → String) :
    List (String × String) :=
  [("f1", text s.first),
    ("f2", text s.second),
    ("x_min", number s.xMin),
    ("x_max", number s.xMax),
    ("y_min", number s.yMin),
    ("y_max", number s.yMax),
    ("points", toString s.points),
    ("graine", toString s.seed.toNat),
    ("passes_max", toString s.passBound)]

/-- The settings as the journal shows them. -/
def shown [Numeral α] (s : Settings α) : String :=
  let fields := (s.fields Text.shown.quote Numeral.tagged).map fun (name, value) =>
    name ++ ": " ++ value
  recordName ++ " \x7b " ++ ", ".intercalate fields ++ " \x7d"

end Settings

end CurveArea
