import CurveArea.Number.Scalar

/-!
# Operators

The five binary operators of a formula, the character each is written with, and what each is worth
under an interpretation of the five operations.
-/

namespace CurveArea

/-- A binary operator (specification, section 3). -/
inductive Operator
  | power
  | times
  | per
  | plus
  | minus
  deriving DecidableEq, Inhabited

namespace Operator

/-- All the operators, those that bind tightest by custom first. -/
def all : List Operator := [power, times, per, plus, minus]

/-- How an operator is written. -/
def symbol : Operator → String
  | power => "^"
  | times => "*"
  | per => "/"
  | plus => "+"
  | minus => "-"

/-- The operator that a text writes, if it writes one. -/
def ofSymbol? : String → Option Operator
  | "^" => some power
  | "*" => some times
  | "/" => some per
  | "+" => some plus
  | "-" => some minus
  | _ => none

/-- An operator is found by its symbol. -/
theorem ofSymbol?_symbol (o : Operator) : ofSymbol? o.symbol = some o := by
  cases o <;> rfl

/-- The worth of an operator between two operands. No division is trapped (specification, section
4.2). -/
def apply {α : Type} [Operations α] : Operator → α → α → α
  | power => Operations.power
  | times => (· * ·)
  | per => (· / ·)
  | plus => (· + ·)
  | minus => (· - ·)

end Operator

end CurveArea
