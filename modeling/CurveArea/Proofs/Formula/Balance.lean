import CurveArea.Number.Binary64
import CurveArea.Proofs.Formula.Acceptance
import CurveArea.Proofs.Formula.Faults

/-!
# What comes of a program

The program of a formula is refused when parentheses of the formula were never closed. Otherwise it
fails at its first operator before which there are fewer than two operands more than operators
(`FirstShort`); if there is no such operator, it has a value when the formula has one operand more
than operators, and leaves another count of numbers when it has not. `EvalOutcome` says so, and
`evaluate_outcome_iff` that nothing else happens, at any abscissa and whatever the numbers are.
-/

namespace CurveArea

section
variable {α : Type}

/-! ## Operators that find too few numbers -/

namespace Program

/-- The operands less the operators among the first instructions. -/
def balance (code : List (Instr α)) (j : Nat) : Int := ((code.take j).map Instr.net).sum

/-- The instruction of an index is an operator that finds fewer than two numbers, when there were
`n` of them to begin with. -/
def ShortAt (n : Int) (code : List (Instr α)) (j : Nat) (o : Operator) : Prop :=
  code[j]? = some (.apply o) ∧ n + balance code j < 2

/-- The operator of the least index that finds fewer than two numbers. -/
def FirstShort (n : Int) (code : List (Instr α)) (j : Nat) (o : Operator) : Prop :=
  IsLeast {i | ∃ o, ShortAt n code i o} j ∧ ShortAt n code j o

variable {n : Int} {i : Instr α} {code : List (Instr α)} {o o' : Operator} {j k : Nat}

/-- There is one first operator that finds fewer than two numbers. -/
theorem FirstShort.unique (h : FirstShort n code j o) (h' : FirstShort n code k o') :
    j = k ∧ o = o' := by
  obtain rfl := h.1.unique h'.1
  have htoken := h.2.1.symm.trans h'.2.1
  cases htoken
  exact ⟨rfl, rfl⟩

/-- The first instruction is at fault when it is an operator and there are fewer than two
numbers. -/
theorem shortAt_zero : ShortAt n (i :: code) 0 o ↔ i = .apply o ∧ n < 2 := by
  simp [ShortAt, balance]

/-- A later instruction is at fault when it is from the stack that the first one leaves. -/
theorem shortAt_succ : ShortAt n (i :: code) (j + 1) o ↔ ShortAt (n + i.net) code j o := by
  simp [ShortAt, balance, Int.add_assoc]

/-- The first operator that finds too few numbers is so after an instruction that does not. -/
theorem FirstShort.cons (h : FirstShort (n + i.net) code j o)
    (hi : ∀ o, ¬ ShortAt n (i :: code) 0 o) : FirstShort n (i :: code) (j + 1) o := by
  obtain ⟨⟨hmem, hleast⟩, hshort⟩ := h
  refine ⟨⟨⟨o, shortAt_succ.2 hshort⟩, ?_⟩, shortAt_succ.2 hshort⟩
  rintro (_ | k) ⟨o', hk⟩
  · exact absurd hk (hi o')
  · exact Nat.succ_le_succ (hleast ⟨o', shortAt_succ.1 hk⟩)

/-- No number is missing to an operand, nor to an operator if there are two. -/
theorem not_shortAt_zero (h : ∀ o, i = .apply o → 2 ≤ n) (o : Operator) :
    ¬ ShortAt n (i :: code) 0 o := by
  intro hshort
  obtain ⟨hi, hlt⟩ := shortAt_zero.1 hshort
  have hle := h o hi
  omega

/-- An operator takes two numbers and leaves one. -/
theorem add_net_apply (n : Nat) (o : Operator) :
    ((n + 2 : Nat) : Int) + (Instr.apply o : Instr α).net = (n + 1 : Nat) := by
  rw [Instr.net]
  omega

/-- A run that ends finds two numbers for each operator. -/
theorem not_shortAt_of_depth {position n m : Nat} (h : depth position code n = .ok m) :
    ∀ j o, ¬ ShortAt n code j o := by
  fun_induction depth position code n with
  | case1 => simp [ShortAt]
  | case2 position v code n ih | case3 position code n ih =>
    rintro (_ | j) o hshort
    · exact not_shortAt_zero (by simp) o hshort
    · exact ih h j o (shortAt_succ.1 hshort)
  | case4 position o code n ih =>
    rintro (_ | j) o' hshort
    · exact not_shortAt_zero (fun _ _ => by omega) o' hshort
    · rw [shortAt_succ, add_net_apply] at hshort
      exact ih h j o' hshort
  | case5 => cases h

/-- A run that fails does so at the first operator that finds too few numbers. -/
theorem exists_firstShort {position n : Nat} {e : EvalError}
    (h : depth position code n = .error e) :
    ∃ j o, FirstShort n code j o ∧ e = .missingOperand o (position + j) := by
  fun_induction depth position code n with
  | case1 => cases h
  | case2 position v code n ih | case3 position code n ih =>
    obtain ⟨j, o, hfirst, rfl⟩ := ih h
    exact ⟨j + 1, o, hfirst.cons (not_shortAt_zero (by simp)),
      by rw [Nat.add_assoc, Nat.add_comm 1]⟩
  | case4 position o code n ih =>
    obtain ⟨j, o', hfirst, rfl⟩ := ih h
    rw [← add_net_apply n o] at hfirst
    exact ⟨j + 1, o', hfirst.cons (not_shortAt_zero fun _ _ => by omega),
      by rw [Nat.add_assoc, Nat.add_comm 1]⟩
  | case5 position n o code hn =>
    cases h
    have hshort : ShortAt n (.apply o :: code) 0 o := by
      refine shortAt_zero.2 ⟨rfl, ?_⟩
      rcases n with _ | _ | n
      · decide
      · decide
      · exact absurd rfl (hn n)
    exact ⟨0, o, ⟨⟨⟨o, hshort⟩, fun k _ => Nat.zero_le k⟩, hshort⟩, rfl⟩

/-- **The first operator that finds too few numbers** is reported. -/
theorem depth_of_firstShort {position n : Nat} (h : FirstShort n code j o) :
    depth position code n = .error (.missingOperand o (position + j)) := by
  cases hdepth : depth position code n with
  | ok m => exact absurd h.2 (not_shortAt_of_depth hdepth j o)
  | error e =>
    obtain ⟨k, o', hfirst, rfl⟩ := exists_firstShort hdepth
    obtain ⟨rfl, rfl⟩ := hfirst.unique h
    rfl

/-- A run in which every operator finds two numbers ends, and adds the balance of its code. -/
theorem exists_depth {position n : Nat} (h : ∀ j o, ¬ ShortAt n code j o) :
    ∃ m : Nat, depth position code n = .ok m ∧ (m : Int) = n + (code.map Instr.net).sum := by
  cases hdepth : depth position code n with
  | ok m => exact ⟨m, rfl, depth_net hdepth⟩
  | error e =>
    obtain ⟨j, o, hfirst, -⟩ := exists_firstShort hdepth
    exact absurd hfirst.2 (h j o)

end Program

/-! ## Outcomes -/

/-- What comes of the program of some tokens, the value apart. -/
inductive EvalOutcome (ts : List (Token α)) (p : Program α) : Except EvalError Unit → Prop
  /-- Some parentheses were never closed. -/
  | unclosed {k : Nat} (hpos : 0 < k)
      (hcount : k + ts.countP Token.isClosing = ts.countP Token.isOpening) :
      EvalOutcome ts p (.error (.unclosed k))
  /-- All parentheses were closed, and some operator finds fewer than two numbers; the first such
  operator is reported. -/
  | missingOperand {j : Nat} {o : Operator}
      (hclosed : ts.countP Token.isOpening = ts.countP Token.isClosing)
      (h : Program.FirstShort 0 p.code j o) : EvalOutcome ts p (.error (.missingOperand o j))
  /-- All parentheses were closed and every operator finds two numbers, but the tokens do not have
  one operand more than operators. -/
  | leftover {n : Nat} (hclosed : ts.countP Token.isOpening = ts.countP Token.isClosing)
      (henough : ∀ j o, ¬ Program.ShortAt 0 p.code j o)
      (hcount : (n : Int) = (ts.map Token.net).sum) (hne : n ≠ 1) :
      EvalOutcome ts p (.error (.leftover n))
  /-- All parentheses were closed, every operator finds two numbers, and the tokens have one operand
  more than operators. -/
  | value (hclosed : ts.countP Token.isOpening = ts.countP Token.isClosing)
      (henough : ∀ j o, ¬ Program.ShortAt 0 p.code j o) (hcount : (ts.map Token.net).sum = 1) :
      EvalOutcome ts p (.ok ())

section
variable {prec : Precedence} {ts : List (Token α)} {p q : Program α}

/-- No parenthesis is left open when as many are closed as are opened. -/
theorem Program.unclosed_eq_zero_iff (hp : ofTokens prec ts = .ok p) :
    p.unclosed = 0 ↔ ts.countP Token.isOpening = ts.countP Token.isClosing := by
  have hcount := unclosed_of_ofTokens hp
  omega

/-- A run of a program that finds numbers for all its operators leaves the balance of the tokens. -/
theorem Program.exists_depth_of_ofTokens (hp : ofTokens prec ts = .ok p)
    (h : ∀ j o, ¬ ShortAt 0 p.code j o) :
    ∃ m : Nat, depth 0 p.code 0 = .ok m ∧ (m : Int) = (ts.map Token.net).sum := by
  have hdepth : ∃ m : Nat, depth 0 p.code 0 = .ok m ∧ (m : Int) = (0 : Nat) +
      (p.code.map Instr.net).sum := exists_depth h
  obtain ⟨m, hm, hnet⟩ := hdepth
  rw [Scan.net_of_ofTokens hp] at hnet
  exact ⟨m, hm, hnet.trans (Int.zero_add _)⟩

/-- Something comes of every program. -/
theorem Program.exists_evalOutcome (hp : ofTokens prec ts = .ok p) : ∃ r, EvalOutcome ts p r := by
  rcases Nat.eq_zero_or_pos p.unclosed with hzero | hpos
  · have hclosed := (unclosed_eq_zero_iff hp).1 hzero
    cases hdepth : depth 0 p.code 0 with
    | error e =>
      obtain ⟨j, o, hfirst, -⟩ := exists_firstShort hdepth
      exact ⟨_, .missingOperand hclosed hfirst⟩
    | ok m =>
      have henough : ∀ j o, ¬ ShortAt 0 p.code j o := not_shortAt_of_depth hdepth
      obtain ⟨n, -, hnet⟩ := exists_depth_of_ofTokens hp henough
      by_cases hone : n = 1
      · subst hone
        exact ⟨_, .value hclosed henough hnet.symm⟩
      · exact ⟨_, .leftover hclosed henough hnet hone⟩
  · exact ⟨_, .unclosed hpos (unclosed_of_ofTokens hp)⟩

/-- What is said to come of a program does. -/
theorem EvalOutcome.verdict_eq {r : Except EvalError Unit} (hp : Program.ofTokens prec ts = .ok p)
    (h : EvalOutcome ts p r) : p.verdict = r := by
  cases h with
  | @unclosed k hpos hcount =>
    have hk : p.unclosed = k := by
      have hunclosed := Program.unclosed_of_ofTokens hp
      omega
    rw [Program.verdict, hk, if_pos hpos]
  | @missingOperand j o hclosed h =>
    have hzero := (Program.unclosed_eq_zero_iff hp).2 hclosed
    have hdepth : Program.depth 0 p.code 0 = .error (.missingOperand o (0 + j)) :=
      Program.depth_of_firstShort h
    rw [Nat.zero_add] at hdepth
    simp [Program.verdict, hzero, hdepth]
  | @leftover n hclosed henough hcount hne =>
    have hzero := (Program.unclosed_eq_zero_iff hp).2 hclosed
    obtain ⟨m, hdepth, hnet⟩ := Program.exists_depth_of_ofTokens hp henough
    obtain rfl : m = n := by omega
    simp [Program.verdict, hzero, hdepth]
  | value hclosed henough hcount =>
    have hzero := (Program.unclosed_eq_zero_iff hp).2 hclosed
    obtain ⟨m, hdepth, hnet⟩ := Program.exists_depth_of_ofTokens hp henough
    obtain rfl : m = 1 := by omega
    simp [Program.verdict, hzero, hdepth]

/-! ## Numbers -/

/-- An instruction without its number. -/
def Instr.shape : Instr α → Instr Unit
  | push _ => .push ()
  | load => .load
  | apply o => .apply o

/-- The numbers of code do not matter to the height of the stack. -/
theorem Program.depth_shape (position : Nat) (code : List (Instr α)) (n : Nat) :
    depth position (code.map Instr.shape) n = depth position code n := by
  fun_induction depth position code n with
  | case1 => rfl
  | case2 position v code n ih | case3 position code n ih | case4 position o code n ih => exact ih
  | case5 position n o code hn =>
    rcases n with _ | _ | n
    · rfl
    · rfl
    · exact absurd rfl (hn n)

/-- Programs of one shape have one verdict. -/
theorem Program.verdict_congr (hcode : q.code.map Instr.shape = p.code.map Instr.shape)
    (hunclosed : q.unclosed = p.unclosed) : q.verdict = p.verdict := by
  rw [verdict, verdict, ← depth_shape, hcode, depth_shape, hunclosed]

/-- **What comes of a program.** The outcomes at any abscissa are those of `EvalOutcome`, and
programs that differ in their numbers at most have the same outcome at all abscissas: all have
values, or all fail in the same way. -/
theorem evaluate_outcome_iff [Operations α] (hp : Program.ofTokens prec ts = .ok p) (x : α) :
    (∀ r, (p.evaluate x).map (fun _ => ()) = r ↔ EvalOutcome ts p r) ∧
      ∀ (q : Program α) (y : α), q.code.map Instr.shape = p.code.map Instr.shape →
        q.unclosed = p.unclosed →
        (q.evaluate y).map (fun _ => ()) = (p.evaluate x).map fun _ => () := by
  refine ⟨fun r => ?_, fun q y hcode hunclosed => ?_⟩
  · rw [Program.map_evaluate]
    refine ⟨?_, fun h => h.verdict_eq hp⟩
    rintro rfl
    obtain ⟨r, h⟩ := Program.exists_evalOutcome hp
    rwa [h.verdict_eq hp]
  · rw [Program.map_evaluate, Program.map_evaluate, Program.verdict_congr hcode hunclosed]

/-- In `x - ( * 2 ) + x` the product finds the first operand, which is not its own, and the
difference finds one number; so it is with `7` for `2`, at another abscissa. -/
theorem evaluate_outcome_iff_difference :
    let ts : List (Token Float) :=
      [.var, .op .minus, .lparen, .op .times, .number 2.0, .rparen, .op .plus, .var]
    let p : Program Float :=
      ⟨[.load, .push 2.0, .apply .times, .apply .minus, .load, .apply .plus], 0⟩
    let q : Program Float :=
      ⟨[.load, .push 7.0, .apply .times, .apply .minus, .load, .apply .plus], 0⟩
    Program.ofTokens .standard ts = .ok p ∧
      (p.evaluate 0.5).map (fun _ => ()) = .error (.missingOperand .minus 3) ∧
      EvalOutcome ts p (.error (.missingOperand .minus 3)) ∧
      q.code.map Instr.shape = p.code.map Instr.shape ∧ q.unclosed = p.unclosed ∧
      (q.evaluate 3.0).map (fun _ => ()) = (p.evaluate 0.5).map fun _ => () := by
  intro ts p q
  have hp : Program.ofTokens .standard ts = .ok p := by rfl
  have hfails : (p.evaluate 0.5).map (fun _ => ()) = .error (.missingOperand .minus 3) := by rfl
  have hcode : q.code.map Instr.shape = p.code.map Instr.shape := by simp [p, q, Instr.shape]
  have hunclosed : q.unclosed = p.unclosed := by rfl
  obtain ⟨houtcome, hshape⟩ := evaluate_outcome_iff hp (0.5 : Float)
  exact ⟨hp, hfails, (houtcome _).1 hfails, hcode, hunclosed, hshape q 3.0 hcode hunclosed⟩

end

end

end CurveArea
