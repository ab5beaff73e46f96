import CurveArea.Formula.Precedence
import CurveArea.Formula.Token

/-!
# From infix to postfix

Tokens are compiled in one pass. Operands go to the program at once; operators wait on a stack
until an operator that binds no tighter, a closing parenthesis or the end releases them. An opening
parenthesis raises a floor on that stack, below which nothing is released before it is closed. Since
equal ranks release, every operator associates to the left.

An opening parenthesis that is never closed is no error here: the program counts it and has no
value.
-/

namespace CurveArea

/-- The state in which some tokens have been compiled (specification, section 4.1). -/
structure Scan (α : Type) where
  /-- The instructions put out so far. -/
  code : Array (Instr α)
  /-- The operators that wait, the latest first. -/
  operators : List Operator
  /-- How many operators wait below each open scope, the innermost scope first. The outermost scope
  is the formula itself, so the list ends with zero. -/
  floors : List Nat
  /-- How many tokens have been read. -/
  position : Nat

namespace Scan

variable {α : Type}

/-- The state before the first token. -/
def start : Scan α := ⟨#[], [], [0], 0⟩

/-- The number of operators below the innermost scope. -/
def floor (s : Scan α) : Nat := s.floors.headD 0

/-- The rank of an operator, which it must have. -/
def rank (prec : Precedence) (o : Operator) : Except CompileError Nat :=
  match prec.rank? o with
  | some r => .ok r
  | none => .error (.unranked o)

/-- Splits the waiting operators in those that an incoming operator of rank `r` releases and those
that stay: the latest ones go while they are above the floor and bind at least as tightly. The
comparison is `≤` for powers too, which therefore associate to the left (specification, sections 4.1
and 9). -/
def release (prec : Precedence) (r floor : Nat) :
    List Operator → Except CompileError (List Operator × List Operator)
  | [] => .ok ([], [])
  | o :: waiting =>
    if waiting.length < floor then .ok ([], o :: waiting)
    else do
      if (← rank prec o) ≤ r then
        let (released, rest) ← release prec r floor waiting
        return (o :: released, rest)
      else return ([], o :: waiting)

/-- The state with instructions for the given operators put out. -/
def emit (s : Scan α) (released : List Operator) : Array (Instr α) :=
  s.code ++ released.map fun o => (Instr.apply o : Instr α)

/-- Reads one token: one case of the algorithm of the specification, section 4.1, for each class of
tokens. -/
def step (prec : Precedence) (s : Scan α) : Token α → Except CompileError (Scan α)
  | .number v => .ok { s with code := s.code.push (.push v), position := s.position + 1 }
  | .var => .ok { s with code := s.code.push .load, position := s.position + 1 }
  | .lparen =>
    .ok { s with floors := s.operators.length :: s.floors, position := s.position + 1 }
  | .rparen =>
    match s.floors with
    | floor :: outer :: floors =>
      let inside := s.operators.length - floor
      .ok {
        code := s.emit (s.operators.take inside)
        operators := s.operators.drop inside
        floors := outer :: floors
        position := s.position + 1 }
    | _ => .error (.unopened s.position)
  | .op o => do
    let r ← rank prec o
    let (released, waiting) ← release prec r s.floor s.operators
    return { s with
      code := s.emit released
      operators := o :: waiting
      position := s.position + 1 }

/-- Reads tokens in order. -/
def steps (prec : Precedence) : Scan α → List (Token α) → Except CompileError (Scan α)
  | s, [] => .ok s
  | s, t :: ts => do (← s.step prec t).steps prec ts

/-- The program of a finished scan: what still waits is released, and the scopes that are open
besides the outermost one are counted. An open scope is no error before the program is run
(specification, sections 4.1 and 15). -/
def finish (s : Scan α) : Program α :=
  ⟨(s.emit s.operators).toList, s.floors.length - 1⟩

end Scan

namespace Program

variable {α : Type}

/-- The program of a list of tokens. -/
def ofTokens (prec : Precedence) (ts : List (Token α)) : Except CompileError (Program α) :=
  (Scan.start.steps prec ts).map Scan.finish

/-- The program of a formula text under a precedence. -/
def compileWith [Numeral α] (prec : Precedence) (text : String) :
    Except CompileError (Program α) := do
  ofTokens prec (← Token.read text)

/-- The program of a formula text under the customary precedence. -/
def compile [Numeral α] (text : String) : Except CompileError (Program α) :=
  compileWith .standard text

end Program

end CurveArea
