import CurveArea.Number.Binary64
import CurveArea.Proofs.Formula.Run
import CurveArea.Proofs.Formula.Scopes

/-!
# Substitution

A formula can be put in parentheses in place of the variable of another one. The program of the
whole is then the program of the outer formula with the inner program in place of each instruction
that loads the variable (`ofTokens_substitute`), since parentheses isolate what stands in them; and
it comes to what the outer program comes to at the value of the inner one
(`Program.evaluate_substitute`), since the inner program runs above any stack and leaves one number
there. Neither formula need be derived by a grammar. Only the places at which errors are found move.
-/

namespace CurveArea

/-- An error without the place at which it was found. -/
def EvalError.unplaced : EvalError → EvalError
  | missingOperand o _ => missingOperand o 0
  | e => e

section
variable {α : Type} {prec : Precedence}

/-! ## Replacing the variable -/

/-- The tokens that stand for a token when a formula is put in place of the variable. -/
def Token.replace (g : List (Token α)) : Token α → List (Token α)
  | var => .lparen :: g ++ [.rparen]
  | t => [t]

/-- The tokens of a formula with another one, in parentheses, in place of the variable. -/
def Token.substitute (g ts : List (Token α)) : List (Token α) := ts.flatMap (Token.replace g)

/-- The instructions that stand for an instruction when code is put in place of loading the
variable. -/
def Instr.replace (c : List (Instr α)) : Instr α → List (Instr α)
  | load => c
  | i => [i]

/-- Code with other code in place of loading the variable. -/
def Instr.substitute (c code : List (Instr α)) : List (Instr α) := code.flatMap (Instr.replace c)

/-- A program with the code of another one in place of loading the variable. -/
def Program.substitute (q p : Program α) : Program α :=
  ⟨Instr.substitute q.code p.code, p.unclosed⟩

/-- Code is replaced stretch by stretch. -/
theorem Instr.substitute_append (c c₁ c₂ : List (Instr α)) :
    substitute c (c₁ ++ c₂) = substitute c c₁ ++ substitute c c₂ := List.flatMap_append

/-- A single instruction is replaced by what stands for it. -/
theorem Instr.substitute_singleton (c : List (Instr α)) (i : Instr α) :
    substitute c [i] = i.replace c := List.flatMap_singleton ..

/-- Operators stay as they are. -/
theorem Instr.substitute_released (c : List (Instr α)) (ops : List Operator) :
    substitute c (Scan.released ops) = Scan.released ops := by
  induction ops with
  | nil => rfl
  | cons o ops ih => exact congrArg (Instr.apply o :: ·) ih

/-! ## Compiling -/

namespace Scan

variable {s s' : Scan α} {c : List (Instr α)} {n : Nat}

/-- A scan with code put in place of loading the variable, after so many tokens. -/
def replaced (c : List (Instr α)) (n : Nat) (s : Scan α) : Scan α :=
  ⟨(Instr.substitute c s.code.toList).toArray, s.operators, s.floors, n⟩

/-- Operators that are put out are not replaced. -/
theorem emit_replaced (ops : List Operator) :
    (s.replaced c n).emit ops = (Instr.substitute c (s.emit ops).toList).toArray := by
  refine Array.ext' ?_
  rw [toList_emit, toList_emit, Instr.substitute_append, Instr.substitute_released]
  rfl

/-- **Reading with a formula in place of the variable.** What stands for a token is read when the
token is: the same operators wait, the same scopes are open, and the program of the formula has been
put out wherever the variable was loaded. -/
theorem steps_replace {g : List (Token α)} {q : Program α} {t : Token α} (hs : s.Open)
    (hq : Program.ofTokens prec g = .ok q) (hclosed : q.unclosed = 0)
    (h : s.step prec t = .ok s') (n : Nat) :
    ∃ m, (s.replaced q.code n).steps prec (t.replace g) = .ok (s'.replaced q.code m) := by
  cases t with
  | var =>
    cases h
    -- The parentheses around the formula keep its operators apart from those that wait.
    obtain ⟨k, hk⟩ := steps_closed (s := s.replaced q.code n) hs.floors_ne hq hclosed
    refine ⟨n + k, hk.trans ?_⟩
    simp [after, replaced, Instr.substitute_append, Instr.substitute_singleton, Instr.replace]
  | number v =>
    cases h
    refine ⟨n + 1, steps_cons_of_step ?_⟩
    simp [step, replaced, Instr.substitute_append, Instr.substitute_singleton, Instr.replace]
  | lparen =>
    cases h
    exact ⟨n + 1, rfl⟩
  | rparen =>
    obtain ⟨floor, outer, floors, hfl, rfl⟩ := step_rparen_eq_ok_iff.1 h
    refine ⟨n + 1, steps_cons_of_step (step_rparen_eq_ok_iff.2 ⟨floor, outer, floors, hfl, ?_⟩)⟩
    rw [emit_replaced]
    rfl
  | op o =>
    obtain ⟨r, released, rest, hr, hrel, rfl⟩ := step_op_eq_ok_iff.1 h
    refine ⟨n + 1, steps_cons_of_step (step_op_eq_ok_iff.2 ⟨r, released, rest, hr, hrel, ?_⟩)⟩
    rw [emit_replaced]
    rfl

/-- Reading tokens with a formula in place of the variable leaves what reading them leaves, with the
code of the formula in place of loading the variable. -/
theorem steps_substitute {g ts : List (Token α)} {q : Program α} (hs : s.Open)
    (hq : Program.ofTokens prec g = .ok q) (hclosed : q.unclosed = 0)
    (h : s.steps prec ts = .ok s') (n : Nat) :
    ∃ m, (s.replaced q.code n).steps prec (Token.substitute g ts) =
      .ok (s'.replaced q.code m) := by
  induction ts generalizing s n with
  | nil =>
    cases h
    exact ⟨n, rfl⟩
  | cons t ts ih =>
    obtain ⟨s₁, hstep, hsteps⟩ := steps_cons_eq_ok_iff.1 h
    obtain ⟨k, hk⟩ := steps_replace hs hq hclosed hstep n
    obtain ⟨m, hm⟩ := ih (hs.step hstep) hsteps k
    refine ⟨m, ?_⟩
    rw [Token.substitute, List.flatMap_cons, steps_append_of_steps hk]
    exact hm

end Scan

/-- The program of a formula with another one in place of the variable. -/
theorem ofTokens_substitute {g e : List (Token α)} {p q : Program α}
    (hp : Program.ofTokens prec e = .ok p) (hq : Program.ofTokens prec g = .ok q)
    (hclosed : q.unclosed = 0) :
    Program.ofTokens prec (Token.substitute g e) = .ok (q.substitute p) := by
  obtain ⟨s, hs, rfl⟩ := Scan.ofTokens_eq_ok_iff.1 hp
  obtain ⟨m, hm⟩ := Scan.steps_substitute Scan.open_start hq hclosed hs 0
  refine Scan.ofTokens_eq_ok_iff.2 ⟨_, hm, ?_⟩
  have hemit := Scan.emit_replaced (s := s) (c := q.code) (n := m) s.operators
  exact congrArg (Program.mk · _) (congrArg Array.toList hemit).symm

end

/-! ## Evaluating -/

section
variable {α : Type} [Operations α]

namespace Program

/-- A run of code with other code in place of loading the variable, where the other code puts one
number on any stack, is a run at that number. Only the places of errors are others. -/
theorem run_substitute {c : List (Instr α)} {v w : α}
    (hc : ∀ position stack, run v position c stack = .ok (w :: stack))
    (position position' : Nat) (code : List (Instr α)) (stack : List α) :
    (run v position' (Instr.substitute c code) stack).mapError EvalError.unplaced =
      (run w position code stack).mapError EvalError.unplaced := by
  fun_induction run w position code stack generalizing position' with
  | case1 => rfl
  | case2 position u code stack ih => exact ih (position' + 1)
  | case3 position code stack ih =>
    have hload : run v position' (c ++ Instr.substitute c code) stack =
        run v (position' + c.length) (Instr.substitute c code) (w :: stack) := by
      rw [run_append, hc]
      rfl
    exact (congrArg _ hload).trans (ih _)
  | case4 position o code b a stack ih => exact ih (position' + 1)
  | case5 position o code stack hstack =>
    obtain _ | ⟨b, _ | ⟨a, stack⟩⟩ := stack
    · rfl
    · rfl
    · exact absurd rfl (hstack b a stack)

/-- A program that has a value puts it on any stack. -/
theorem run_of_evaluate {q : Program α} {v w : α} (h : q.evaluate v = .ok w) (position : Nat)
    (stack : List α) : run v position q.code stack = .ok (w :: stack) :=
  run_above (evaluate_eq_ok_iff.1 h).2 position stack

/-- The value of a program is put in place of the variable, or its code is: it comes to the same. -/
theorem evaluate_substitute {q : Program α} {v w : α} (h : q.evaluate v = .ok w) (p : Program α) :
    ((q.substitute p).evaluate v).mapError EvalError.unplaced =
      (p.evaluate w).mapError EvalError.unplaced := by
  have hrun : (run v 0 (q.substitute p).code []).mapError EvalError.unplaced =
      (run w 0 p.code []).mapError EvalError.unplaced :=
    run_substitute (run_of_evaluate h) 0 0 p.code []
  have hunclosed : (q.substitute p).unclosed > 0 ↔ p.unclosed > 0 := Iff.rfl
  rw [evaluate, evaluate]
  by_cases hopen : p.unclosed > 0
  · rw [if_pos hopen, if_pos (hunclosed.2 hopen)]
    rfl
  · rw [if_neg hopen, if_neg (mt hunclosed.1 hopen)]
    generalize run v 0 (q.substitute p).code [] = inner at hrun ⊢
    generalize run w 0 p.code [] = outer at hrun ⊢
    cases inner with
    | ok out =>
      cases outer with
      | ok => cases hrun; rfl
      | error => cases hrun
    | error e =>
      cases outer with
      | ok => cases hrun
      | error e' => exact congrArg Except.error (Except.error.inj hrun)

end Program

/-- **Substitution.** Let a list of tokens have a program, and let another one have a program that
is worth `w` at `v`. With the other list in parentheses in place of the variable the tokens still
have a program, as many parentheses of which are never closed; and at `v` it comes to what the
program before comes to at `w`: to the same value, or else to the same error, found at some other
place at most. -/
theorem exists_ofTokens_substitute {prec : Precedence} {e g : List (Token α)} {p q : Program α}
    {v w : α} (hp : Program.ofTokens prec e = .ok p) (hq : Program.ofTokens prec g = .ok q)
    (hw : q.evaluate v = .ok w) :
    ∃ p', Program.ofTokens prec (Token.substitute g e) = .ok p' ∧ p'.unclosed = p.unclosed ∧
      (p'.evaluate v).mapError EvalError.unplaced =
        (p.evaluate w).mapError EvalError.unplaced :=
  ⟨q.substitute p, ofTokens_substitute hp hq (Program.evaluate_eq_ok_iff.1 hw).1, rfl,
    Program.evaluate_substitute hw p⟩

/-- In `x * ( 3 - x ) ^`, which no grammar derives and which misses an operand, the words `x 1 +`
are put in place of the variable. They are no infix formula either, but worth `3` at `2`. -/
theorem exists_ofTokens_substitute_postfix :
    let e : List (Token Float) :=
      [.var, .op .times, .lparen, .number 3.0, .op .minus, .var, .rparen, .op .power]
    let g : List (Token Float) := [.var, .number 1.0, .op .plus]
    let p : Program Float :=
      ⟨[.load, .push 3.0, .load, .apply .minus, .apply .power, .apply .times], 0⟩
    let q : Program Float := ⟨[.load, .push 1.0, .apply .plus], 0⟩
    Program.ofTokens .standard e = .ok p ∧ Program.ofTokens .standard g = .ok q ∧
      q.evaluate 2.0 = .ok (2.0 + 1.0) ∧
      ∃ p', Program.ofTokens .standard (Token.substitute g e) = .ok p' ∧
        p'.unclosed = p.unclosed ∧
        (p'.evaluate 2.0).mapError EvalError.unplaced =
          (p.evaluate (2.0 + 1.0)).mapError EvalError.unplaced := by
  intro e g p q
  have hp : Program.ofTokens .standard e = .ok p := by rfl
  have hq : Program.ofTokens .standard g = .ok q := by rfl
  have hw : q.evaluate 2.0 = .ok (2.0 + 1.0) := by rfl
  exact ⟨hp, hq, hw, exists_ofTokens_substitute hp hq hw⟩

end

end CurveArea
