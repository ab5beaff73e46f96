import CurveArea.Text.Blank
import CurveArea.Formula.Program

/-!
# Tokens

A formula is written in words, one word for each token: a parenthesis, the variable `x`, an
operator, or else a number. The classes are tried in that order, so a lone `-` is an operator and
`-3` is a number. Writing tokens puts one space between two of them.
-/

namespace CurveArea

/-- A token of a formula (specification, section 3). -/
inductive Token (α : Type)
  | number (v : α)
  | var
  | op (o : Operator)
  | lparen
  | rparen
  deriving DecidableEq

/-- Why a formula text has no program (specification, sections 7 and 11). -/
inductive CompileError
  /-- The text has no word. -/
  | empty
  /-- A word is no token; `position` counts words. -/
  | unknownWord (word : String) (position : Nat)
  /-- An operator has no rank. -/
  | unranked (o : Operator)
  /-- A closing parenthesis closes nothing; `position` counts tokens. -/
  | unopened (position : Nat)
  deriving DecidableEq

/-- The text of a compilation error. -/
def CompileError.message : CompileError → String
  | empty => "Entrée vide"
  | unknownWord word position => s!"jeton inconnu '{word}' (position {position})"
  | unranked o => s!"opérateur sans priorité: '{o.symbol}'"
  | unopened position => s!"parenthèse fermante sans ouvrante (position {position})"

namespace Token

variable {α : Type} [Numeral α]

/-- The token that a word is, if it is one. Every text that is read as a number is a number, so `-3`
and `inf` are (specification, section 15). -/
def ofWord? (word : String) : Option (Token α) :=
  if word = "(" then some .lparen
  else if word = ")" then some .rparen
  else if word = "x" then some .var
  else match Operator.ofSymbol? word with
    | some o => some (.op o)
    | none => (Numeral.read? word).map .number

/-- The tokens of a list of words, the first of which has the index `position`. -/
def ofWords (position : Nat) : List String → Except CompileError (List (Token α))
  | [] => .ok []
  | word :: words =>
    match ofWord? word with
    | none => .error (.unknownWord word position)
    | some t => (ofWords (position + 1) words).map (t :: ·)

/-- The tokens of a formula text, split on blanks of any kind and length (specification, section
15). An unknown word is reported before an empty text is. -/
def read (text : String) : Except CompileError (List (Token α)) :=
  match ofWords 0 (Text.words text) with
  | .ok [] => .error .empty
  | outcome => outcome

/-- How a token is written. -/
def write : Token α → String
  | number v => Numeral.text v
  | var => "x"
  | op o => o.symbol
  | lparen => "("
  | rparen => ")"

/-- How a list of tokens is written. -/
def writeAll (ts : List (Token α)) : String :=
  " ".intercalate (ts.map write)

end Token

/-- The token that an instruction comes from. -/
def Instr.token {α : Type} : Instr α → Token α
  | push v => .number v
  | load => .var
  | apply o => .op o

/-- The instructions of a program as tokens. -/
def Program.tokens {α : Type} (p : Program α) : List (Token α) :=
  p.code.map Instr.token

/-- How a program is written. -/
def Program.write {α : Type} [Numeral α] (p : Program α) : String :=
  Token.writeAll p.tokens

end CurveArea
