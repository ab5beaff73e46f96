import CurveArea.Number.Binary64
import CurveArea.Proofs.Formula.Conservation
import CurveArea.Proofs.Formula.Faults
import CurveArea.Proofs.Formula.Scopes

/-!
# Parentheses

Two laws of parentheses, in formulas that may be malformed elsewhere.

A formula whose parentheses are all closed (`Token.Balanced`) may stand in parentheses where a
number may stand (`ofTokens_block`). Either leaves the operators that wait and the open scopes as it
finds them, and what follows is read in the same way after either, since a scan looks neither at the
instructions that it has put out nor, but to tell an error, at the count of tokens read
(`Scan.steps_later`).

Parentheses that were never closed may be closed at the end (`ofTokens_append_closing`). Scope by
scope that releases what the end of the formula releases at once (`Scan.finish_of_step_rparen`).
-/

namespace CurveArea

/-- The error that is found when so many more tokens come before. -/
def CompileError.later (n : Nat) : CompileError → CompileError
  | unopened position => unopened (n + position)
  | e => e

/-- The error that is found when `n` more tokens stand in the place of token number `i`: what comes
after that token is found so much later. -/
def CompileError.widen (i n : Nat) : CompileError → CompileError
  | unopened position => unopened (if i < position then position + n else position)
  | e => e

section
variable {α : Type} {prec : Precedence} {s s' : Scan α} {ts b : List (Token α)} {p q : Program α}

/-! ## What a scan does not look at -/

namespace Scan

variable {c : Array (Instr α)} {n : Nat}

/-- A scan with more instructions put out, and more tokens read, before. -/
def later (c : Array (Instr α)) (n : Nat) (s : Scan α) : Scan α :=
  ⟨c ++ s.code, s.operators, s.floors, n + s.position⟩

/-- Instructions that come before stay before what is put out. -/
theorem emit_later (released : List Operator) :
    (s.later c n).emit released = c ++ s.emit released :=
  Array.ext' (by simp [emit, later])

/-- A token is read in the same way whatever came before. -/
theorem step_later (h : s.Ranked prec) (t : Token α) :
    (s.later c n).step prec t =
      ((s.step prec t).map (later c n)).mapError (CompileError.later n) := by
  cases t with
  | number v | var | lparen =>
    simp [step, later, Except.map, Except.mapError, Nat.add_assoc]
  | rparen =>
    have hfloors : (s.later c n).floors = s.floors := rfl
    rcases hfl : s.floors with _ | ⟨floor, _ | ⟨outer, floors⟩⟩
    case nil | cons.nil =>
      simp only [step, hfloors, hfl]
      rfl
    case cons.cons =>
      have hstep : s.step prec .rparen = .ok _ :=
        step_rparen_eq_ok_iff.2 ⟨floor, outer, floors, hfl, rfl⟩
      rw [hstep]
      refine step_rparen_eq_ok_iff.2 ⟨floor, outer, floors, hfl, ?_⟩
      rw [emit_later]
      rfl
  | op o =>
    have hlater : (s.later c n).Ranked prec := h
    cases hstep : s.step prec (.op o) with
    | error e =>
      obtain ⟨hrank, rfl⟩ := h.step_op.1 hstep
      exact hlater.step_op.2 ⟨hrank, rfl⟩
    | ok s' =>
      obtain ⟨r, released, rest, hr, hrel, rfl⟩ := step_op_eq_ok_iff.1 hstep
      refine step_op_eq_ok_iff.2 ⟨r, released, rest, hr, hrel, ?_⟩
      rw [emit_later]
      rfl

/-- **What comes before.** Tokens are read in the same way whatever was put out before, and fail so
many tokens later. -/
theorem steps_later (h : s.Ranked prec) (ts : List (Token α)) :
    (s.later c n).steps prec ts =
      ((s.steps prec ts).map (later c n)).mapError (CompileError.later n) := by
  induction ts generalizing s with
  | nil => rfl
  | cons t ts ih =>
    rw [steps_cons, steps_cons, step_later h]
    cases hstep : s.step prec t with
    | error e => rfl
    | ok s₁ => exact ih (h.step hstep)

/-- The program of a scan after other tokens begins with what they put out. -/
theorem finish_later (s : Scan α) :
    (s.later c n).finish = ⟨c.toList ++ s.finish.code, s.finish.unclosed⟩ := by
  have hcode : ((s.later c n).emit s.operators).toList =
      c.toList ++ (s.emit s.operators).toList := by
    rw [emit_later, Array.toList_append]
  exact congrArg (Program.mk · _) hcode

end Scan

/-! ## Blocks -/

namespace Token

/-- All parentheses of a list of tokens are closed in it. -/
structure Balanced (ts : List (Token α)) : Prop where
  /-- Nothing is closed before it is opened. -/
  closing_le (i : Nat) : (ts.take i).countP isClosing ≤ (ts.take i).countP isOpening
  /-- What is opened is closed. -/
  closing_eq : ts.countP isClosing = ts.countP isOpening

/-- Every operator among some tokens has a rank. -/
def Ranked (prec : Precedence) (ts : List (Token α)) : Prop :=
  ∀ o, .op o ∈ ts → ∃ r, prec.rank? o = some r

/-- No token of a block is at fault. -/
theorem Balanced.not_faultAt (h : Balanced b) (hranked : Ranked prec b) (i : Nat)
    (e : CompileError) : ¬ FaultAt prec b i e := by
  intro hfault
  cases hfault with
  | unranked htoken hrank =>
    obtain ⟨r, hr⟩ := hranked _ (List.mem_of_getElem? htoken)
    rw [hrank] at hr
    cases hr
  | unopened htoken hcount =>
    -- The closing parenthesis at fault is one more than those before it, and still opened.
    have hnext := h.closing_le (i + 1)
    rw [List.take_add_one, htoken] at hnext
    simp [List.countP_append, isOpening, isClosing] at hnext
    omega

end Token

/-- A block has a program, which closes its parentheses. -/
theorem Token.Balanced.exists_ofTokens (h : Balanced b) (hranked : Ranked prec b) :
    ∃ q, Program.ofTokens prec b = .ok q ∧ q.unclosed = 0 := by
  obtain ⟨q, hq⟩ := Program.exists_ofTokens (h.not_faultAt hranked)
  have hcount := Program.unclosed_of_ofTokens hq
  have hclosed := h.closing_eq
  exact ⟨q, hq, by omega⟩

/-- What comes after the token is found so much later. -/
theorem CompileError.widen_later (e : CompileError) (i n : Nat) :
    (e.later (i + 1)).widen i n = e.later (i + 1 + n) := by
  cases e with
  | unopened position =>
    have hlt : i < i + 1 + position := by omega
    rw [later, widen, if_pos hlt, later, Nat.add_right_comm]
  | empty | unknownWord word position | unranked o => rfl

/-- A fault is found among the tokens that have it. -/
theorem FirstFault.widen_eq {e : CompileError} (h : FirstFault prec ts e) (n : Nat) :
    e.widen ts.length n = e := by
  obtain ⟨i, -, hfault⟩ := h
  have hi := hfault.lt_length
  cases hfault with
  | unranked htoken hrank => rfl
  | unopened htoken hcount => rw [CompileError.widen, if_neg (by omega)]

/-- What comes of a formula with a number after the tokens `before`, and what comes of it with code
in the place of that number and `n` more tokens. -/
inductive InPlace (before : List (Token α)) (v : α) (code : List (Instr α)) (n : Nat) :
    Except CompileError (Program α) → Except CompileError (Program α) → Prop
  /-- Both have a program, and the code stands where the number was pushed: after the operands that
  come before it. As many parentheses are never closed. -/
  | program {c₁ c₂ : List (Instr α)} {k : Nat}
      (hoperands : (c₁.map Instr.token).filter Token.isOperand = before.filter Token.isOperand) :
      InPlace before v code n (.ok ⟨c₁ ++ .push v :: c₂, k⟩) (.ok ⟨c₁ ++ code ++ c₂, k⟩)
  /-- Both fail in the same way, but for the place of what comes after the number. -/
  | failure (e : CompileError) :
      InPlace before v code n (.error e) (.error (e.widen before.length n))

namespace Scan

/-- What was put out has the operands of the tokens that were read. -/
theorem operands_of_steps (h : start.steps prec ts = .ok s) :
    (s.code.toList.map Instr.token).filter Token.isOperand = ts.filter Token.isOperand := by
  obtain ⟨out, waiting, haccounts⟩ := accounts_steps h
  rw [← haccounts.out_eq, Token.filter_map_fst, haccounts.operands_eq, ← Token.filter_map_fst,
    List.zipIdx_map_fst]

/-- What comes of the tokens after a stretch that leaves nothing waiting. -/
theorem ofTokens_of_steps {c : List (Instr α)} {n : Nat} (hs : s.Ranked prec)
    (h : start.steps prec ts = .ok (s.after c [] n)) (us : List (Token α)) :
    Program.ofTokens prec (ts ++ us) =
      ((steps prec ⟨#[], s.operators, s.floors, 0⟩ us).map fun s' =>
        ⟨s.code.toList ++ c ++ s'.finish.code, s'.finish.unclosed⟩).mapError
          (CompileError.later (s.position + n)) := by
  let rest : Scan α := ⟨#[], s.operators, s.floors, 0⟩
  have hrest : rest.Ranked prec := hs
  have hafter : s.after c [] n = rest.later (s.code ++ c) (s.position + n) := by
    simp [after, later, rest]
  rw [Program.ofTokens, steps_append_of_steps h, hafter, steps_later hrest]
  cases steps prec rest us with
  | error e => rfl
  | ok s' =>
    show Except.ok (later _ _ s').finish = Except.ok _
    rw [finish_later]
    simp

end Scan

/-- A formula whose parentheses are all closed has the same program in parentheses. -/
theorem ofTokens_parens (hq : Program.ofTokens prec b = .ok q) (hclosed : q.unclosed = 0) :
    Program.ofTokens prec (.lparen :: b ++ [.rparen]) = .ok q := by
  obtain ⟨n, hn⟩ := Scan.steps_closed Scan.open_start.floors_ne hq hclosed
  refine Scan.ofTokens_eq_ok_iff.2 ⟨_, hn, ?_⟩
  rw [Scan.finish_start_after, Scan.released_nil, List.append_nil, ← hclosed]

/-- So it has in any number of parentheses. -/
theorem ofTokens_replicate_parens (hq : Program.ofTokens prec b = .ok q) (hclosed : q.unclosed = 0)
    (n : Nat) :
    Program.ofTokens prec
      (List.replicate n Token.lparen ++ b ++ List.replicate n Token.rparen) = .ok q := by
  induction n with
  | zero => simpa using hq
  | succ n ih =>
    have hparens := ofTokens_parens ih hclosed
    rw [List.replicate_succ, List.replicate_succ']
    simpa using hparens

/-- A block is read in the place of a number. -/
theorem Scan.steps_number_block {before : List (Token α)} (hq : Program.ofTokens prec b = .ok q)
    (hclosed : q.unclosed = 0) (hbefore : start.steps prec before = .ok s) (v : α) :
    start.steps prec (before ++ [.number v]) = .ok (s.after [.push v] [] 1) ∧
      start.steps prec (before ++ (.lparen :: b ++ [.rparen])) =
        .ok (s.after q.code [] (1 + (b.length + 1))) := by
  obtain ⟨n, hn⟩ := steps_closed (s := s) (Tally.of_steps hbefore).floors_ne hq hclosed
  have hblock : start.steps prec (before ++ (.lparen :: b ++ [.rparen])) =
      .ok (s.after q.code [] n) := by
    rw [steps_append_of_steps hbefore, hn]
  -- The count of the tokens of the block is told by the positions before and after it.
  have hposition : s.position + n = (before ++ (Token.lparen :: b ++ [Token.rparen])).length :=
    (Tally.of_steps hblock).position_eq
  have hlength : n = 1 + (b.length + 1) := by
    simp [(Tally.of_steps hbefore).position_eq] at hposition
    omega
  rw [hlength] at hblock
  refine ⟨?_, hblock⟩
  rw [steps_append_of_steps hbefore, steps_number]

/-- **In the place of a number.** A formula whose parentheses are all closed may stand in
parentheses where a number may, between any other tokens. -/
theorem inPlace_of_ofTokens (hq : Program.ofTokens prec b = .ok q) (hclosed : q.unclosed = 0)
    (before after : List (Token α)) (v : α) :
    InPlace before v q.code (b.length + 1)
      (Program.ofTokens prec (before ++ [.number v] ++ after))
      (Program.ofTokens prec (before ++ (.lparen :: b ++ [.rparen]) ++ after)) := by
  cases hbefore : (Scan.start : Scan α).steps prec before with
  | error e =>
    have hfault : FirstFault prec before e := Scan.steps_start_eq_error_iff.1 hbefore
    have hfails (us : List (Token α)) : Program.ofTokens prec (before ++ us) = .error e :=
      Program.ofTokens_eq_error_iff.2 hfault.append
    rw [List.append_assoc, List.append_assoc, hfails, hfails]
    have hfailure : InPlace before v q.code (b.length + 1) (.error e)
        (.error (e.widen before.length (b.length + 1))) := .failure e
    rwa [hfault.widen_eq] at hfailure
  | ok s =>
    have htally := Scan.Tally.of_steps hbefore
    obtain ⟨hnumber, hblock⟩ := Scan.steps_number_block hq hclosed hbefore v
    rw [Scan.ofTokens_of_steps htally.ranked hnumber, Scan.ofTokens_of_steps htally.ranked hblock,
      ← Nat.add_assoc, htally.position_eq]
    cases Scan.steps prec ⟨#[], s.operators, s.floors, 0⟩ after with
    | error e =>
      have hfailure : InPlace before v q.code (b.length + 1) (.error (e.later (before.length + 1)))
          (.error ((e.later (before.length + 1)).widen before.length (b.length + 1))) := .failure _
      rwa [CompileError.widen_later] at hfailure
    | ok s' =>
      have hprogram : InPlace before v q.code (b.length + 1)
          (.ok ⟨s.code.toList ++ .push v :: s'.finish.code, s'.finish.unclosed⟩)
          (.ok ⟨s.code.toList ++ q.code ++ s'.finish.code, s'.finish.unclosed⟩) :=
        .program (Scan.operands_of_steps hbefore)
      rwa [List.append_cons] at hprogram

/-- **Blocks.** Let the parentheses of a list of tokens be closed in it, and its operators have
ranks. It has a program. In parentheses it may stand where a number may, between any other tokens:
either both formulas have a program, and the program of the list stands where the number is
pushed, or both fail in the same way. In parentheses, however many, it has the same program. -/
theorem ofTokens_block (hb : Token.Balanced b) (hranked : Token.Ranked prec b)
    (before after : List (Token α)) (v : α) :
    ∃ q, Program.ofTokens prec b = .ok q ∧ q.unclosed = 0 ∧
      InPlace before v q.code (b.length + 1)
        (Program.ofTokens prec (before ++ [.number v] ++ after))
        (Program.ofTokens prec (before ++ (.lparen :: b ++ [.rparen]) ++ after)) ∧
      ∀ n, Program.ofTokens prec
        (List.replicate n Token.lparen ++ b ++ List.replicate n Token.rparen) = .ok q := by
  obtain ⟨q, hq, hclosed⟩ := hb.exists_ofTokens hranked
  exact ⟨q, hq, hclosed, inPlace_of_ofTokens hq hclosed before after v,
    ofTokens_replicate_parens hq hclosed⟩

/-- Between `x ^ ( *` and `- 3 ) +`, neither of which is a formula, `x - ( x / 2 )` stands in
parentheses where a number may stand. -/
theorem ofTokens_block_malformed :
    let b : List (Token Float) :=
      [.var, .op .minus, .lparen, .var, .op .per, .number 2.0, .rparen]
    let before : List (Token Float) := [.var, .op .power, .lparen, .op .times]
    let after : List (Token Float) := [.op .minus, .number 3.0, .rparen, .op .plus]
    let v : Float := 7.0
    Token.Balanced b ∧ Token.Ranked .standard b ∧
    ∃ q, Program.ofTokens .standard b = .ok q ∧ q.unclosed = 0 ∧
      InPlace before v q.code (b.length + 1)
        (Program.ofTokens .standard (before ++ [.number v] ++ after))
        (Program.ofTokens .standard (before ++ (.lparen :: b ++ [.rparen]) ++ after)) ∧
      ∀ n, Program.ofTokens .standard
        (List.replicate n Token.lparen ++ b ++ List.replicate n Token.rparen) = .ok q := by
  intro b before after v
  have hb : Token.Balanced b := by
    refine ⟨?_, rfl⟩
    intro i
    rcases i with _ | _ | _ | _ | _ | _ | _ | i <;> simp [b, Token.isOpening, Token.isClosing]
  have hranked : Token.Ranked .standard b := by
    intro o _
    cases o <;> exact ⟨_, rfl⟩
  exact ⟨hb, hranked, ofTokens_block hb hranked before after v⟩

/-! ## Closing what was left open -/

namespace Scan

/-- **One closing parenthesis.** It releases what the end of the formula releases first. -/
theorem finish_of_step_rparen (h : s.step prec .rparen = .ok s') :
    s'.finish.code = s.finish.code ∧ s.finish.unclosed = s'.finish.unclosed + 1 := by
  obtain ⟨floor, outer, floors, hfl, rfl⟩ := step_rparen_eq_ok_iff.1 h
  constructor
  · rw [finish, finish]
    simp only [toList_emit]
    rw [List.append_assoc, ← released_append, List.take_append_drop]
  · rw [finish, finish, hfl]
    rfl

/-- A closing parenthesis is read while a scope besides the outermost one is open. -/
theorem exists_step_rparen (h : 0 < s.finish.unclosed) : ∃ s', s.step prec .rparen = .ok s' := by
  have hlen : 0 < s.floors.length - 1 := h
  match hfl : s.floors with
  | [] | [_] => simp [hfl] at hlen
  | floor :: outer :: floors =>
    exact ⟨_, step_rparen_eq_ok_iff.2 ⟨floor, outer, floors, hfl, rfl⟩⟩

/-- It is not read when the outermost scope is the only one. -/
theorem step_rparen_of_closed (hs : s.floors ≠ []) (h : s.finish.unclosed = 0) :
    s.step prec .rparen = .error (.unopened s.position) := by
  have hlen : s.floors.length - 1 = 0 := h
  match hfl : s.floors with
  | [] => exact absurd hfl hs
  | [_] => simp [step, hfl]
  | floor :: outer :: floors => simp [hfl] at hlen

end Scan

/-- One closing parenthesis at the end of a formula. -/
theorem ofTokens_append_rparen (h : Program.ofTokens prec ts = .ok p) (hopen : 0 < p.unclosed) :
    Program.ofTokens prec (ts ++ [.rparen]) = .ok ⟨p.code, p.unclosed - 1⟩ := by
  obtain ⟨s, hsteps, rfl⟩ := Scan.ofTokens_eq_ok_iff.1 h
  obtain ⟨s', hstep⟩ : ∃ s', s.step prec .rparen = .ok s' := Scan.exists_step_rparen hopen
  obtain ⟨hcode, hunclosed⟩ := Scan.finish_of_step_rparen hstep
  refine Scan.ofTokens_eq_ok_iff.2 ⟨s', ?_, ?_⟩
  · rw [Scan.steps_append_of_steps hsteps, Scan.steps_cons_of_step hstep, Scan.steps_nil]
  · rw [← hcode, hunclosed, Nat.add_sub_cancel]

/-- As many closing parentheses as are missing, or fewer. -/
theorem ofTokens_append_replicate (h : Program.ofTokens prec ts = .ok p) {j : Nat}
    (hj : j ≤ p.unclosed) :
    Program.ofTokens prec (ts ++ List.replicate j .rparen) = .ok ⟨p.code, p.unclosed - j⟩ := by
  induction j with
  | zero => simpa using h
  | succ j ih =>
    have hbefore := ih (Nat.le_of_succ_le hj)
    have hnext := ofTokens_append_rparen hbefore (Nat.sub_pos_of_lt hj)
    rw [List.replicate_succ', ← List.append_assoc]
    exact hnext

/-- One closing parenthesis too many. -/
theorem ofTokens_append_rparen_of_closed (h : Program.ofTokens prec ts = .ok p)
    (hclosed : p.unclosed = 0) :
    Program.ofTokens prec (ts ++ [.rparen]) = .error (.unopened ts.length) := by
  obtain ⟨s, hsteps, rfl⟩ := Scan.ofTokens_eq_ok_iff.1 h
  have htally := Scan.Tally.of_steps hsteps
  have hstep : s.step prec .rparen = .error (.unopened s.position) :=
    Scan.step_rparen_of_closed htally.floors_ne hclosed
  rw [Program.ofTokens, Scan.steps_append_of_steps hsteps, Scan.steps_cons, hstep,
    htally.position_eq]
  rfl

/-- **Closing what was left open.** Closing parentheses at the end of a formula do not change the
instructions of its program, as long as there are parentheses that were never closed, which become
fewer. One closing parenthesis more closes nothing. -/
theorem ofTokens_append_closing (h : Program.ofTokens prec ts = .ok p) :
    (∀ j ≤ p.unclosed, Program.ofTokens prec (ts ++ List.replicate j .rparen) =
      .ok ⟨p.code, p.unclosed - j⟩) ∧
    Program.ofTokens prec (ts ++ List.replicate (p.unclosed + 1) .rparen) =
      .error (.unopened (ts.length + p.unclosed)) := by
  refine ⟨?_, ?_⟩
  · intro j hj
    exact ofTokens_append_replicate h hj
  · have hall := ofTokens_append_replicate h le_rfl
    have hnext := ofTokens_append_rparen_of_closed hall (Nat.sub_self _)
    rw [List.replicate_succ', ← List.append_assoc, hnext, List.length_append,
      List.length_replicate]

/-- In `( x + ( x * ( - 2`, which no grammar derives, an operator waits in each scope, and three
parentheses are missing at the end. -/
theorem ofTokens_append_closing_underived :
    let ts : List (Token Float) :=
      [.lparen, .var, .op .plus, .lparen, .var, .op .times, .lparen, .op .minus, .number 2.0]
    let p : Program Float :=
      ⟨[.load, .load, .push 2.0, .apply .minus, .apply .times, .apply .plus], 3⟩
    Program.ofTokens .standard ts = .ok p ∧
      (∀ j ≤ p.unclosed, Program.ofTokens .standard (ts ++ List.replicate j .rparen) =
        .ok ⟨p.code, p.unclosed - j⟩) ∧
      Program.ofTokens .standard (ts ++ List.replicate (p.unclosed + 1) .rparen) =
        .error (.unopened (ts.length + p.unclosed)) := by
  intro ts p
  have hp : Program.ofTokens .standard ts = .ok p := by rfl
  exact ⟨hp, ofTokens_append_closing hp⟩

end

end CurveArea
