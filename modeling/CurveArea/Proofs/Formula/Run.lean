import CurveArea.Proofs.Formula.Tree

/-!
# Runs of a program

A run depends on its numbers only through its answer: whether it fails, where, and how many numbers
it leaves is told by the heights of the stack alone (`depth`, `Program.verdict`). So one abscissa
decides for all of them whether a program has a value. The code of a tree runs to the value of the
tree whatever the five operations are (`run_code`).
-/

namespace CurveArea

namespace Program

/-! ## Heights -/

section
variable {α : Type}

/-- The height of the stack after a run from a stack of height `n`. -/
def depth (position : Nat) : List (Instr α) → (n : Nat) → Except EvalError Nat
  | [], n => .ok n
  | .push _ :: code, n => depth (position + 1) code (n + 1)
  | .load :: code, n => depth (position + 1) code (n + 1)
  | .apply _ :: code, n + 2 => depth (position + 1) code (n + 1)
  | .apply o :: _, _ => .error (.missingOperand o position)

/-- Whether a program has a value, and why not. -/
def verdict (p : Program α) : Except EvalError Unit :=
  if p.unclosed > 0 then .error (.unclosed p.unclosed)
  else match depth 0 p.code 0 with
    | .ok 1 => .ok ()
    | .ok n => .error (.leftover n)
    | .error e => .error e

end

end Program

section
variable {α : Type} [Operations α]

namespace Program

/-- A run of two stretches of code is a run of one after the other. -/
theorem run_append (x : α) (position : Nat) (c₁ c₂ : List (Instr α)) (stack : List α) :
    run x position (c₁ ++ c₂) stack =
      (run x position c₁ stack).bind (run x (position + c₁.length) c₂) := by
  fun_induction run x position c₁ stack with
  | case1 => rfl
  | case2 position v code stack ih => simp [run, ih, Nat.add_assoc, Nat.add_comm 1]
  | case3 position code stack ih => simp [run, ih, Nat.add_assoc, Nat.add_comm 1]
  | case4 position o code b a stack ih => simp [run, ih, Nat.add_assoc, Nat.add_comm 1]
  | case5 position o code stack hstack => simp [run, Except.bind]

/-- A run that ends goes the same way at any place of a program and above any stack. -/
theorem run_above {x : α} {position : Nat} {code : List (Instr α)} {stack out : List α}
    (h : run x position code stack = .ok out) (position' : Nat) (below : List α) :
    run x position' code (stack ++ below) = .ok (out ++ below) := by
  fun_induction run x position code stack generalizing position' with
  | case1 =>
    cases h
    rfl
  | case2 position v code stack ih => exact ih h (position' + 1)
  | case3 position code stack ih => exact ih h (position' + 1)
  | case4 position o code b a stack ih => exact ih h (position' + 1)
  | case5 => cases h

/-- The numbers of a run do not matter to its height. -/
theorem map_length_run (x : α) (position : Nat) (code : List (Instr α)) (stack : List α) :
    (run x position code stack).map List.length = depth position code stack.length := by
  fun_induction run x position code stack with
  | case1 => rfl
  | case2 position v code stack ih => exact ih
  | case3 position code stack ih => exact ih
  | case4 position o code b a stack ih => exact ih
  | case5 position o code stack hstack =>
    match stack with
    | [] => rfl
    | [b] => rfl
    | b :: a :: stack => exact absurd rfl (hstack b a stack)

/-- A program has a value when its parentheses are closed and its run leaves that value alone. -/
theorem evaluate_eq_ok_iff {p : Program α} {x v : α} :
    p.evaluate x = .ok v ↔ p.unclosed = 0 ∧ run x 0 p.code [] = .ok [v] := by
  rw [evaluate]
  by_cases hopen : p.unclosed > 0
  · simp [hopen, Nat.ne_of_gt hopen]
  · rw [if_neg hopen]
    match run x 0 p.code [] with
    | .error e => simp
    | .ok [] => simp
    | .ok [u] => simp [Nat.eq_zero_of_not_pos hopen]
    | .ok (b :: a :: stack) => simp

/-- Every abscissa gives a program the same verdict. -/
theorem map_evaluate (p : Program α) (x : α) :
    (p.evaluate x).map (fun _ => ()) = p.verdict := by
  rw [evaluate, verdict, ← List.length_nil (α := α), ← map_length_run x]
  split
  · rfl
  · match run x 0 p.code [] with
    | .error e => rfl
    | .ok [] => rfl
    | .ok [v] => rfl
    | .ok (b :: a :: stack) => rfl

/-- A program that the verdict passes has a value everywhere. -/
theorem evaluate_ok_iff (p : Program α) (x : α) :
    (∃ v, p.evaluate x = .ok v) ↔ p.verdict = .ok () := by
  rw [← map_evaluate p x]
  cases p.evaluate x <;> simp [Except.map]

/-- A program that the verdict refuses fails everywhere in the same way. -/
theorem evaluate_error_iff (p : Program α) (x : α) (e : EvalError) :
    p.evaluate x = .error e ↔ p.verdict = .error e := by
  rw [← map_evaluate p x]
  cases p.evaluate x <;> simp [Except.map]

end Program

/-! ## Trees -/

/-- The value of a tree where the variable is worth `x`. -/
def Tree.value (x : α) : Tree α → α
  | number v => v
  | var => x
  | node o l r => o.apply (l.value x) (r.value x)

namespace Program

/-- The code of a tree puts the tree's value on the stack. -/
theorem run_code (x : α) (t : Tree α) (position : Nat) (stack : List α) :
    run x position t.code stack = .ok (t.value x :: stack) := by
  induction t generalizing position stack with
  | number v => rfl
  | var => rfl
  | node o l r ihl ihr =>
    rw [Tree.code, run_append, run_append, ihl]
    simp only [Except.bind, ihr]
    rfl

/-- The code of a tree is worth the value of the tree. -/
theorem evaluate_code (x : α) (t : Tree α) :
    (⟨t.code, 0⟩ : Program α).evaluate x = .ok (t.value x) := by
  simp [evaluate, run_code]

end Program

end

end CurveArea
