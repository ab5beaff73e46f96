import CurveArea.Formula.Operator

/-!
# Programs

A formula is compiled once into a program and the program is run for every abscissa. A program is
a list of instructions for a stack of numbers: operands are pushed, and an operator replaces the two
topmost numbers by its worth. `Program.evaluate` runs it from the empty stack and asks for exactly
one number in the end. Zero divisors, infinities and undefined results are ordinary numbers.
-/

namespace CurveArea

/-- An instruction of a program. -/
inductive Instr (α : Type)
  /-- Push a number. -/
  | push (v : α)
  /-- Push the value of the variable. -/
  | load
  /-- Replace the two topmost numbers by the worth of an operator between them. -/
  | apply (o : Operator)
  deriving DecidableEq

/-- A compiled formula (specification, section 3). Its parentheses are gone, but the count of those
that were never closed stays with it (section 15). -/
structure Program (α : Type) where
  /-- The instructions, in the order in which they are run. -/
  code : List (Instr α)
  /-- How many opening parentheses of the formula were never closed. -/
  unclosed : Nat
  deriving DecidableEq

/-- Why a program has no value (specification, sections 7 and 11). -/
inductive EvalError
  /-- An operator found fewer than two numbers on the stack. -/
  | missingOperand (o : Operator) (position : Nat)
  /-- The program left another count of numbers than one. -/
  | leftover (count : Nat)
  /-- The formula has parentheses that were never closed. -/
  | unclosed (count : Nat)
  deriving DecidableEq

/-- The text of an evaluation error. -/
def EvalError.message : EvalError → String
  | missingOperand o position => s!"pile insuffisante pour '{o.symbol}' (position {position})"
  | leftover count => s!"expression invalide: {count} valeur(s) en fin d'évaluation"
  | unclosed count => s!"parenthèses non fermées ({count})"

namespace Program

variable {α : Type} [Operations α]

/-- Runs instructions on a stack, the topmost number first; `position` is the index of the next
instruction in the whole program. Of the two operands of an operator the topmost is the right one
(specification, section 4.2). -/
def run (x : α) (position : Nat) : List (Instr α) → List α → Except EvalError (List α)
  | [], stack => .ok stack
  | .push v :: code, stack => run x (position + 1) code (v :: stack)
  | .load :: code, stack => run x (position + 1) code (x :: stack)
  | .apply o :: code, b :: a :: stack => run x (position + 1) code (o.apply a b :: stack)
  | .apply o :: _, _ => .error (.missingOperand o position)

/-- The value of a program where the variable is worth `x` (specification, section 4.2). That every
parenthesis was closed is asked for first (section 15). -/
def evaluate (p : Program α) (x : α) : Except EvalError α :=
  if p.unclosed > 0 then
    .error (.unclosed p.unclosed)
  else
    match run x 0 p.code [] with
    | .ok [v] => .ok v
    | .ok stack => .error (.leftover stack.length)
    | .error e => .error e

end Program

end CurveArea
