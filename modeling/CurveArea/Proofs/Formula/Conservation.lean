import CurveArea.Number.Binary64
import CurveArea.Proofs.Formula.Scan

/-!
# What a program is made of

A program holds the tokens of its formula except for the parentheses, each of them once: operands in
their order, and every operator after all the operands that come before it in the formula
(`conserved_of_ofTokens`). To tell equal tokens apart, a token is taken together with its index.

While a scan reads, the tokens read so far are either put out or wait (`Accounts`). Operators leave
the stack in three places, and all three put out the latest ones that wait (`Accounts.emit`).
-/

namespace CurveArea

section
variable {α : Type}

namespace Token

/-- Whether a token is a number or the variable. -/
def isOperand : Token α → Bool
  | number _ => true
  | var => true
  | _ => false

/-- Whether a token is an operator. -/
def isOperator : Token α → Bool
  | op _ => true
  | _ => false

/-- Whether a token is a parenthesis. -/
def isParenthesis : Token α → Bool
  | lparen => true
  | rparen => true
  | _ => false

/-- A last token has the number of those before it as its index. -/
theorem zipIdx_concat (ts : List (Token α)) (t : Token α) :
    (ts ++ [t]).zipIdx = ts.zipIdx ++ [(t, ts.length)] := by
  simp [List.zipIdx_append]

/-- Tokens may be chosen before or after their indices are dropped. -/
theorem filter_map_fst (p : Token α → Bool) (out : List (Token α × Nat)) :
    (out.map Prod.fst).filter p = (out.filter fun a => p a.1).map Prod.fst := List.filter_map

end Token

/-! ## Tokens that are put out and tokens that wait -/

/-- Where the instructions and the operators that wait come from: `out` and `waiting` are tokens of
the formula, each with its index. -/
structure Accounts (ts : List (Token α)) (code : List (Instr α)) (operators : List Operator)
    (out waiting : List (Token α × Nat)) : Prop where
  /-- The instructions are those of `out`. -/
  out_eq : out.map Prod.fst = code.map Instr.token
  /-- The operators that wait are those of `waiting`. -/
  waiting_eq : waiting.map Prod.fst = operators.map .op
  /-- Operands are put out at once. -/
  operands_eq : out.filter (·.1.isOperand) = ts.zipIdx.filter (·.1.isOperand)
  /-- Nothing is lost and nothing is made up. -/
  perm : (out ++ waiting).Perm (ts.zipIdx.filter fun a => !a.1.isParenthesis)
  /-- An operator that is put out before an operand also comes before it. -/
  late : out.Pairwise fun a b => a.1.isOperator = true → b.1.isOperand = true → a.2 < b.2

namespace Accounts

variable {ts : List (Token α)} {code : List (Instr α)} {operators tight rest : List Operator}
  {out waiting : List (Token α × Nat)}

/-- Before the first token there is nothing to account for. -/
theorem start : Accounts ([] : List (Token α)) [] [] [] [] := ⟨rfl, rfl, rfl, .refl _, .nil⟩

/-- What is put out has been read. -/
theorem lt_length (h : Accounts ts code operators out waiting) : ∀ a ∈ out, a.2 < ts.length := by
  intro a ha
  have hmem := h.perm.mem_iff.1 (List.mem_append_left waiting ha)
  exact List.snd_lt_of_mem_zipIdx (List.mem_filter.1 hmem).1

/-- One token more is put out or waits. -/
theorem perm_concat (h : Accounts ts code operators out waiting) {t : Token α}
    (ht : t.isParenthesis = false) :
    (out ++ (t, ts.length) :: waiting).Perm
      ((ts ++ [t]).zipIdx.filter fun a => !a.1.isParenthesis) := by
  have hconcat : (ts ++ [t]).zipIdx.filter (fun a => !a.1.isParenthesis) =
      ts.zipIdx.filter (fun a => !a.1.isParenthesis) ++ [(t, ts.length)] := by
    simp [Token.zipIdx_concat, ht]
  rw [hconcat]
  exact List.perm_middle.trans ((List.perm_append_singleton _ _).symm.trans (h.perm.append_right _))

/-- An operand is put out. -/
theorem operand (h : Accounts ts code operators out waiting) (i : Instr α)
    (hi : i.token.isOperand = true) :
    Accounts (ts ++ [i.token]) (code ++ [i]) operators (out ++ [(i.token, ts.length)]) waiting := by
  have hparen : i.token.isParenthesis = false := by cases i <;> rfl
  refine ⟨by simp [h.out_eq], h.waiting_eq, ?_, ?_, ?_⟩
  · simp [Token.zipIdx_concat, h.operands_eq, hi]
  · rw [List.append_assoc]
    exact h.perm_concat hparen
  · refine List.pairwise_append.2 ⟨h.late, List.pairwise_singleton _ _, ?_⟩
    intro a ha b hb _ _
    rw [List.mem_singleton.1 hb]
    exact h.lt_length a ha

/-- An operator waits. -/
theorem operator (h : Accounts ts code operators out waiting) (o : Operator) :
    Accounts (ts ++ [.op o]) code (o :: operators) out ((.op o, ts.length) :: waiting) := by
  have hoperand : (Token.op o : Token α).isOperand = false := rfl
  refine ⟨h.out_eq, by simp [h.waiting_eq], ?_, h.perm_concat rfl, h.late⟩
  simp [Token.zipIdx_concat, h.operands_eq, hoperand]

/-- A parenthesis is neither put out nor waits. -/
theorem parenthesis (h : Accounts ts code operators out waiting) {t : Token α}
    (hoperand : t.isOperand = false) (ht : t.isParenthesis = true) :
    Accounts (ts ++ [t]) code operators out waiting := by
  refine ⟨h.out_eq, h.waiting_eq, ?_, ?_, h.late⟩
  · simp [Token.zipIdx_concat, h.operands_eq, hoperand]
  · simpa [Token.zipIdx_concat, ht] using h.perm

/-- **Releasing.** The latest operators that wait are put out. -/
theorem emit (h : Accounts ts code (tight ++ rest) out waiting) :
    ∃ released kept, Accounts ts (code ++ Scan.released tight) rest (out ++ released) kept := by
  have hwaiting := h.waiting_eq
  rw [List.map_append, List.map_eq_append_iff] at hwaiting
  obtain ⟨released, kept, rfl, hreleased, hkept⟩ := hwaiting
  have hoperand : ∀ a ∈ released, a.1.isOperand = false := by
    intro a ha
    have hmem : a.1 ∈ tight.map Token.op := hreleased ▸ List.mem_map_of_mem ha
    obtain ⟨o, -, ho⟩ := List.mem_map.1 hmem
    rw [← ho]
    rfl
  have hlate : ∀ a : Token α × Nat, ∀ b ∈ released,
      a.1.isOperator = true → b.1.isOperand = true → a.2 < b.2 := by
    intro a b hb _ hb'
    rw [hoperand b hb] at hb'
    cases hb'
  refine ⟨released, kept, ?_, hkept, ?_, ?_, ?_⟩
  · rw [List.map_append, List.map_append, h.out_eq, hreleased, Scan.released, List.map_map]
    rfl
  · have hnone : released.filter (·.1.isOperand) = [] :=
      List.filter_eq_nil_iff.2 fun a ha => Bool.eq_false_iff.1 (hoperand a ha)
    rw [List.filter_append, h.operands_eq, hnone, List.append_nil]
  · rw [List.append_assoc]
    exact h.perm
  · refine List.pairwise_append.2 ⟨h.late, ?_, fun a _ => hlate a⟩
    exact List.pairwise_iff_forall_sublist.2 fun hab => hlate _ _ (hab.subset (by simp))

end Accounts

namespace Scan

variable {prec : Precedence} {s s' : Scan α} {ts : List (Token α)}
  {out waiting : List (Token α × Nat)}

/-- **One token more.** -/
theorem accounts_step {t : Token α}
    (h : Accounts ts s.code.toList s.operators out waiting) (hstep : s.step prec t = .ok s') :
    ∃ out' waiting', Accounts (ts ++ [t]) s'.code.toList s'.operators out' waiting' := by
  cases t with
  | number v =>
    cases hstep
    rw [Array.toList_push]
    exact ⟨_, _, h.operand (.push v) rfl⟩
  | var =>
    cases hstep
    rw [Array.toList_push]
    exact ⟨_, _, h.operand .load rfl⟩
  | lparen =>
    cases hstep
    exact ⟨out, waiting, h.parenthesis rfl rfl⟩
  | rparen =>
    -- The operators above the floor are the latest that wait.
    obtain ⟨floor, outer, floors, -, rfl⟩ := step_rparen_eq_ok_iff.1 hstep
    rw [← List.take_append_drop (s.operators.length - floor) s.operators] at h
    obtain ⟨released, kept, hemit⟩ := h.emit
    refine ⟨out ++ released, kept, ?_⟩
    rw [toList_emit]
    exact hemit.parenthesis rfl rfl
  | op o =>
    obtain ⟨r, tight, rest, -, hrel, rfl⟩ := step_op_eq_ok_iff.1 hstep
    rw [append_of_release hrel] at h
    obtain ⟨released, kept, hemit⟩ := h.emit
    refine ⟨out ++ released, (.op o, ts.length) :: kept, ?_⟩
    rw [toList_emit]
    exact hemit.operator o

/-- Any number of tokens. -/
theorem accounts_steps (h : start.steps prec ts = .ok s) :
    ∃ out waiting, Accounts ts s.code.toList s.operators out waiting := by
  refine steps_induction (motive := fun ts s => ∃ out waiting,
    Accounts ts s.code.toList s.operators out waiting) h ⟨[], [], .start⟩ ?_
  rintro ts t s₁ s₂ ⟨out, waiting, haccounts⟩ hstep
  exact accounts_step haccounts hstep

end Scan

/-- Where the instructions of a program come from: in the end nothing waits. -/
theorem Program.exists_accounts {prec : Precedence} {ts : List (Token α)} {p : Program α}
    (h : ofTokens prec ts = .ok p) : ∃ out, Accounts ts p.code [] out [] := by
  obtain ⟨s, hsteps, rfl⟩ := Scan.ofTokens_eq_ok_iff.1 h
  obtain ⟨out, waiting, haccounts⟩ := Scan.accounts_steps hsteps
  rw [← List.append_nil s.operators] at haccounts
  obtain ⟨released, kept, hemit⟩ := haccounts.emit
  obtain rfl : kept = [] := List.map_eq_nil_iff.1 hemit.waiting_eq
  refine ⟨out ++ released, ?_⟩
  rw [Scan.finish, Scan.toList_emit]
  exact hemit

/-- **Conservation.** A program has no parenthesis; its operands are those of its formula, in the
same order; its operators are those of its formula, in some order. There is a way to tell which
token of the formula each instruction is: every token but the parentheses is one instruction, the
operands in their order, and an operator that is put out before an operand also comes before it in
the formula. -/
theorem conserved_of_ofTokens {prec : Precedence} {ts : List (Token α)} {p : Program α}
    (h : Program.ofTokens prec ts = .ok p) :
    (∀ t ∈ p.tokens, t.isParenthesis = false) ∧
      p.tokens.filter Token.isOperand = ts.filter Token.isOperand ∧
      (p.tokens.filter Token.isOperator).Perm (ts.filter Token.isOperator) ∧
      ∃ out : List (Token α × Nat), out.map Prod.fst = p.tokens ∧
        out.Perm (ts.zipIdx.filter fun a => !a.1.isParenthesis) ∧
        out.filter (·.1.isOperand) = ts.zipIdx.filter (·.1.isOperand) ∧
        out.Pairwise fun a b => a.1.isOperator = true → b.1.isOperand = true → a.2 < b.2 := by
  obtain ⟨out, hout⟩ := Program.exists_accounts h
  have htokens : out.map Prod.fst = p.tokens := hout.out_eq
  have hperm := hout.perm
  rw [List.append_nil] at hperm
  refine ⟨?_, ?_, ?_, out, htokens, hperm, hout.operands_eq, hout.late⟩
  · intro t ht
    obtain ⟨i, -, rfl⟩ := List.mem_map.1 ht
    cases i <;> rfl
  · rw [← htokens, Token.filter_map_fst, hout.operands_eq, ← Token.filter_map_fst,
      List.zipIdx_map_fst]
  · have hoperator : ∀ t : Token α, (t.isOperator && !t.isParenthesis) = t.isOperator := by
      intro t
      cases t <;> rfl
    have hoperators := (hperm.filter (·.1.isOperator)).map Prod.fst
    simp only [List.filter_filter, hoperator] at hoperators
    rwa [← Token.filter_map_fst, ← Token.filter_map_fst, htokens, List.zipIdx_map_fst]
      at hoperators

/-- In `x + x * ( - 2 x ) + (`, which no grammar derives, both sums are put out at the end, and the
difference between them and the operands that it stands before. -/
theorem conserved_of_ofTokens_underived :
    let ts : List (Token Float) :=
      [.var, .op .plus, .var, .op .times, .lparen, .op .minus, .number 2.0, .var, .rparen,
        .op .plus, .lparen]
    let p : Program Float :=
      ⟨[.load, .load, .push 2.0, .load, .apply .minus, .apply .times, .apply .plus,
        .apply .plus], 1⟩
    Program.ofTokens .standard ts = .ok p ∧
      (∀ t ∈ p.tokens, t.isParenthesis = false) ∧
      p.tokens.filter Token.isOperand = ts.filter Token.isOperand ∧
      (p.tokens.filter Token.isOperator).Perm (ts.filter Token.isOperator) ∧
      ∃ out : List (Token Float × Nat), out.map Prod.fst = p.tokens ∧
        out.Perm (ts.zipIdx.filter fun a => !a.1.isParenthesis) ∧
        out.filter (·.1.isOperand) = ts.zipIdx.filter (·.1.isOperand) ∧
        out.Pairwise fun a b => a.1.isOperator = true → b.1.isOperand = true → a.2 < b.2 := by
  intro ts p
  have hp : Program.ofTokens .standard ts = .ok p := by rfl
  exact ⟨hp, conserved_of_ofTokens hp⟩

end

end CurveArea
