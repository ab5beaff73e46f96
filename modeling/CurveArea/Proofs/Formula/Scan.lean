import CurveArea.Formula.Infix
import Mathlib.Data.List.Induction

/-!
# Steps of a scan

What `Scan.step` does to each kind of token, as equations that later proofs rewrite with. A scan is
read relative to the state it starts from: `Scan.after` says what a stretch of tokens added, the
instructions it put out and the operators it left waiting, and leaves the floors as they were. The
stretch is one whose parentheses are closed again; `steps_parens` is the step that closes them.
-/

namespace CurveArea

/-- Whether an operator that waits yields to one of rank `r`: it has a rank, which is no greater. -/
def Precedence.yields (prec : Precedence) (r : Nat) (o : Operator) : Bool :=
  (prec.rank? o).any (· ≤ r)

section
variable {α : Type} {prec : Precedence} {s s' : Scan α}

namespace Scan

/-! ## Stretches of tokens -/

/-- The state after a stretch of `n` tokens that puts out `code` and leaves `pending` waiting. -/
def after (s : Scan α) (code : List (Instr α)) (pending : List Operator) (n : Nat) : Scan α :=
  ⟨s.code ++ code, pending ++ s.operators, s.floors, s.position + n⟩

/-- Instructions are put out one stretch after the other. -/
theorem code_append_append (code : Array (Instr α)) (c₁ c₂ : List (Instr α)) :
    code ++ c₁ ++ c₂ = code ++ (c₁ ++ c₂) := Array.ext' (by simp)

/-- Two stretches are one. -/
theorem after_after (c₁ c₂ : List (Instr α)) (p₁ p₂ : List Operator) (n₁ n₂ : Nat) :
    (s.after c₁ p₁ n₁).after c₂ p₂ n₂ = s.after (c₁ ++ c₂) (p₂ ++ p₁) (n₁ + n₂) := by
  simp [after, code_append_append, Nat.add_assoc]

/-- The instructions of operators that are released in the given order. -/
def released (ops : List Operator) : List (Instr α) := ops.map .apply

@[simp] theorem released_nil : released [] = ([] : List (Instr α)) := rfl

@[simp] theorem released_append (p q : List Operator) :
    (released (p ++ q) : List (Instr α)) = released p ++ released q := List.map_append

/-- Released operators are put out behind the instructions. -/
theorem toList_emit (ops : List Operator) :
    (s.emit ops).toList = s.code.toList ++ released ops := by
  simp [emit, released]

/-- After a stretch, operators are put out behind what the stretch puts out. -/
theorem emit_after (c : List (Instr α)) (p : List Operator) (n : Nat) (ops : List Operator) :
    (s.after c p n).emit ops = s.code ++ (c ++ released ops) :=
  code_append_append ..

/-- A scan whose operators and floors belong together, as far as a stretch can tell: there is an
innermost scope, and its floor is not above the operators. -/
structure Grounded (s : Scan α) : Prop where
  floors_ne : s.floors ≠ []
  floor_le : s.floor ≤ s.operators.length

/-- At the beginning there is the outermost scope, with nothing in it. -/
theorem grounded_start : (start : Scan α).Grounded := ⟨by simp [start], by simp [start, floor]⟩

/-- A stretch keeps a scan grounded. -/
theorem Grounded.after (h : s.Grounded) (c : List (Instr α)) (p : List Operator) (n : Nat) :
    (s.after c p n).Grounded := by
  refine ⟨h.floors_ne, ?_⟩
  have := h.floor_le
  simp only [Scan.after, List.length_append, floor] at this ⊢
  omega

/-! ## Reading several tokens -/

@[simp] theorem steps_nil : s.steps prec [] = .ok s := rfl

/-- The first token is read first, and none after it if it fails. -/
theorem steps_cons (t : Token α) (ts : List (Token α)) :
    s.steps prec (t :: ts) = (s.step prec t).bind (·.steps prec ts) := rfl

/-- A token that is read is read off the front. -/
theorem steps_cons_of_step {t : Token α} {ts : List (Token α)} {s' : Scan α}
    (h : s.step prec t = .ok s') : s.steps prec (t :: ts) = s'.steps prec ts := by
  rw [steps_cons, h]
  rfl

/-- Tokens are read when the first one and then the others are. -/
theorem steps_cons_eq_ok_iff {t : Token α} {ts : List (Token α)} :
    s.steps prec (t :: ts) = .ok s' ↔
      ∃ s₁, s.step prec t = .ok s₁ ∧ s₁.steps prec ts = .ok s' := by
  rw [steps_cons]
  cases s.step prec t <;> simp [Except.bind]

/-- Tokens are read one list after the other. -/
theorem steps_append (ts us : List (Token α)) :
    s.steps prec (ts ++ us) = (s.steps prec ts).bind (·.steps prec us) := by
  induction ts generalizing s with
  | nil => rfl
  | cons t ts ih =>
    rw [List.cons_append, steps_cons, steps_cons]
    cases s.step prec t with
    | error e => rfl
    | ok s' => exact ih

/-- Tokens are read in the state that those before them leave. -/
theorem steps_append_of_steps {ts us : List (Token α)} {s' : Scan α}
    (h : s.steps prec ts = .ok s') : s.steps prec (ts ++ us) = s'.steps prec us := by
  rw [steps_append, h]
  rfl

/-- Tokens are read when those of one list and then those of the other are. -/
theorem steps_append_eq_ok_iff {ts us : List (Token α)} :
    s.steps prec (ts ++ us) = .ok s' ↔
      ∃ s₁, s.steps prec ts = .ok s₁ ∧ s₁.steps prec us = .ok s' := by
  rw [steps_append]
  cases s.steps prec ts <;> simp [Except.bind]

/-- **What each token keeps.** If a property of a state and the tokens read up to it holds before
the first token, and one token more keeps it, then it holds after any number of tokens. -/
theorem steps_induction {ts : List (Token α)} {motive : List (Token α) → Scan α → Prop}
    (hsteps : s.steps prec ts = .ok s') (start : motive [] s)
    (step : ∀ {ts t s₁ s₂}, motive ts s₁ → s₁.step prec t = .ok s₂ → motive (ts ++ [t]) s₂) :
    motive ts s' := by
  induction ts using List.reverseRecOn generalizing s' with
  | nil =>
    cases hsteps
    exact start
  | append_singleton ts t ih =>
    obtain ⟨s₁, hbefore, hlast⟩ := steps_append_eq_ok_iff.1 hsteps
    obtain ⟨s₂, hstep, hnil⟩ := steps_cons_eq_ok_iff.1 hlast
    cases hnil
    exact step (ih hbefore) hstep

/-! ## What a step does -/

/-- A closing parenthesis is read when a scope besides the outermost one is open. It releases what
waits above the floor of the innermost one. -/
theorem step_rparen_eq_ok_iff :
    s.step prec .rparen = .ok s' ↔ ∃ floor outer floors, s.floors = floor :: outer :: floors ∧
      s' = ⟨s.emit (s.operators.take (s.operators.length - floor)),
        s.operators.drop (s.operators.length - floor), outer :: floors, s.position + 1⟩ := by
  match hfl : s.floors with
  | [] | [_] => simp [step, hfl]
  | floor :: outer :: floors =>
    simp only [step, hfl, Except.ok.injEq, List.cons.injEq]
    constructor
    · rintro rfl
      exact ⟨floor, outer, floors, ⟨rfl, rfl, rfl⟩, rfl⟩
    · rintro ⟨_, _, _, ⟨rfl, rfl, rfl⟩, rfl⟩
      rfl

/-- An operator is read when it has a rank and so have those that it is compared with. -/
theorem step_op_eq_ok_iff {o : Operator} :
    s.step prec (.op o) = .ok s' ↔ ∃ r released rest, prec.rank? o = some r ∧
      release prec r s.floor s.operators = .ok (released, rest) ∧
      s' = ⟨s.emit released, o :: rest, s.floors, s.position + 1⟩ := by
  rw [step, rank]
  cases hr : prec.rank? o with
  | none => simp [bind, Except.bind]
  | some r =>
    cases hrel : release prec r s.floor s.operators with
    | error e => simp [bind, Except.bind, hrel]
    | ok p =>
      obtain ⟨released, rest⟩ := p
      simp only [bind, Except.bind, pure, Except.pure, hrel]
      constructor
      · rintro ⟨⟩
        exact ⟨r, released, rest, rfl, hrel, rfl⟩
      · rintro ⟨r', released', rest', ⟨⟩, hrel', rfl⟩
        rw [hrel] at hrel'
        cases hrel'
        rfl

/-! ## Operands -/

/-- A number puts out the instruction that pushes it. -/
theorem steps_number (v : α) : s.steps prec [.number v] = .ok (s.after [.push v] [] 1) := by
  simp [steps_cons, step, after, Except.bind]

/-- The variable puts out the instruction that loads it. -/
theorem steps_var : s.steps prec [.var] = .ok (s.after [.load] [] 1) := by
  simp [steps_cons, step, after, Except.bind]

/-! ## Operators -/

/-- Whether an operator of rank `r` releases none of the waiting operators: the latest one is below
the floor or has a greater rank. -/
def Holds (prec : Precedence) (r floor : Nat) : List Operator → Prop
  | [] => True
  | o :: waiting => floor ≤ waiting.length → ∃ k, prec.rank? o = some k ∧ r < k

/-- Operators up to the floor are held whatever comes. -/
theorem holds_of_le {r floor : Nat} {ops : List Operator} (h : ops.length ≤ floor) :
    Holds prec r floor ops := by
  cases ops with
  | nil => trivial
  | cons o waiting =>
    intro hf
    simp only [List.length_cons] at h
    omega

/-- What holds against an operator holds against one that binds tighter. -/
theorem Holds.mono {r r' floor : Nat} {ops : List Operator} (h : Holds prec r floor ops)
    (hr : r' ≤ r) : Holds prec r' floor ops := by
  cases ops with
  | nil => trivial
  | cons o waiting =>
    intro hf
    obtain ⟨k, hk, hlt⟩ := h hf
    exact ⟨k, hk, by omega⟩

/-- Nothing is released where the latest operator holds. -/
theorem release_of_holds {r floor : Nat} {ops : List Operator} (h : Holds prec r floor ops) :
    release prec r floor ops = .ok ([], ops) := by
  cases ops with
  | nil => rfl
  | cons o waiting =>
    by_cases hf : waiting.length < floor
    · rw [release, if_pos hf]
    · obtain ⟨k, hk, hlt⟩ := h (by omega)
      rw [release, if_neg hf]
      simp only [rank, hk, bind, Except.bind, pure, Except.pure, if_neg (Nat.not_le.2 hlt)]

/-- An operator splits those that wait in those that it releases and those that stay. -/
theorem append_of_release {r floor : Nat} {ops tight rest : List Operator}
    (h : release prec r floor ops = .ok (tight, rest)) : ops = tight ++ rest := by
  induction ops generalizing tight with
  | nil =>
    cases h
    rfl
  | cons o ops ih =>
    rw [release] at h
    split at h
    · cases h
      rfl
    · cases hr : rank prec o with
      | error e =>
        rw [hr] at h
        cases h
      | ok k =>
        simp only [hr, bind, Except.bind, pure, Except.pure] at h
        split at h
        · cases hrel : release prec r floor ops with
          | error e =>
            rw [hrel] at h
            cases h
          | ok p =>
            rw [hrel] at h
            cases h
            rw [ih hrel]
            rfl
        · cases h
          rfl

/-- Operators that have ranks can be compared: of those above the floor, the latest that yield are
released. -/
theorem release_of_ranked {r floor : Nat} {ops : List Operator}
    (h : ∀ o ∈ ops, ∃ k, prec.rank? o = some k) :
    release prec r floor ops =
      .ok ((ops.take (ops.length - floor)).takeWhile (prec.yields r),
        (ops.take (ops.length - floor)).dropWhile (prec.yields r) ++
          ops.drop (ops.length - floor)) := by
  induction ops with
  | nil => simp [release]
  | cons o ops ih =>
    obtain ⟨⟨k, hk⟩, hops⟩ := List.forall_mem_cons.1 h
    rw [release, List.length_cons]
    by_cases hf : ops.length < floor
    · have hnone : ops.length + 1 - floor = 0 := by omega
      simp [hf, hnone]
    · have hsucc : ops.length + 1 - floor = (ops.length - floor) + 1 := by omega
      rw [if_neg hf, hsucc, ih hops]
      by_cases hle : k ≤ r <;>
        simp [rank, hk, hle, Precedence.yields, bind, Except.bind, pure, Except.pure]

/-- So it is when the operators of the innermost scope are told apart from those below it. -/
theorem release_inside {r : Nat} {inside below : List Operator}
    (h : ∀ o ∈ inside ++ below, ∃ k, prec.rank? o = some k) :
    release prec r below.length (inside ++ below) =
      .ok (inside.takeWhile (prec.yields r), inside.dropWhile (prec.yields r) ++ below) := by
  rw [release_of_ranked h]
  simp

/-- An operator releases those above the floor that bind at least as tightly, down to the first
one that holds. -/
theorem release_append {r floor : Nat} {tight ops : List Operator}
    (ht : ∀ o ∈ tight, ∃ k, prec.rank? o = some k ∧ k ≤ r) (hf : floor ≤ ops.length)
    (h : Holds prec r floor ops) : release prec r floor (tight ++ ops) = .ok (tight, ops) := by
  induction tight with
  | nil => exact release_of_holds h
  | cons o tight ih =>
    obtain ⟨k, hk, hle⟩ := ht o List.mem_cons_self
    have hlen : ¬ (tight ++ ops).length < floor := by
      rw [List.length_append]
      omega
    rw [List.cons_append, release, if_neg hlen]
    simp only [rank, hk, bind, Except.bind, pure, Except.pure, if_pos hle,
      ih fun o' ho' => ht o' (List.mem_cons_of_mem _ ho')]

/-- An operator after a stretch releases what the stretch left waiting if all of it binds at least
as tightly and what was there before holds, and then waits itself. -/
theorem step_op {o : Operator} {r n : Nat} {c : List (Instr α)} {p : List Operator}
    (hs : s.Grounded) (ho : prec.rank? o = some r)
    (hp : ∀ o' ∈ p, ∃ k, prec.rank? o' = some k ∧ k ≤ r) (h : Holds prec r s.floor s.operators) :
    (s.after c p n).step prec (.op o) = .ok (s.after (c ++ released p) [o] (n + 1)) := by
  have hrel : release prec r (s.after c p n).floor (s.after c p n).operators =
      .ok (p, s.operators) := release_append hp hs.floor_le h
  simp only [step, rank, ho, hrel, bind, Except.bind, pure, Except.pure, emit_after]
  rfl

/-- Every operator that waits has a rank. -/
def Ranked (prec : Precedence) (s : Scan α) : Prop := ∀ o ∈ s.operators, ∃ k, prec.rank? o = some k

/-- At the beginning no operator waits. -/
theorem ranked_start : (start : Scan α).Ranked prec := nofun

/-- An operator waits only if it has a rank. -/
theorem Ranked.step {t : Token α} (h : s.Ranked prec) (hstep : s.step prec t = .ok s') :
    s'.Ranked prec := by
  cases t with
  | number v | var | lparen =>
    cases hstep
    exact h
  | rparen =>
    obtain ⟨floor, outer, floors, -, rfl⟩ := step_rparen_eq_ok_iff.1 hstep
    exact fun o ho => h o (List.mem_of_mem_drop ho)
  | op o =>
    obtain ⟨r, tight, rest, hr, hrel, rfl⟩ := step_op_eq_ok_iff.1 hstep
    rw [Ranked, append_of_release hrel] at h
    exact List.forall_mem_cons.2 ⟨⟨r, hr⟩, fun o' ho' => h o' (List.mem_append_right _ ho')⟩

/-! ## Parentheses -/

/-- A state that has just entered a scope. -/
def enter (s : Scan α) : Scan α :=
  { s with floors := s.operators.length :: s.floors, position := s.position + 1 }

@[simp] theorem floor_enter : s.enter.floor = s.operators.length := rfl

@[simp] theorem operators_enter : s.enter.operators = s.operators := rfl

/-- A scope that has just been entered begins above all operators. -/
theorem grounded_enter : s.enter.Grounded := ⟨by simp [enter], by simp⟩

/-- Nothing outside a scope is released from inside it. -/
theorem holds_enter (r : Nat) : Holds prec r s.enter.floor s.enter.operators :=
  holds_of_le (by simp)

/-- A closing parenthesis releases what the stretch inside left waiting, and nothing else. -/
theorem step_rparen {n : Nat} {c : List (Instr α)} {p : List Operator} (hs : s.floors ≠ []) :
    (s.enter.after c p n).step prec .rparen = .ok (s.after (c ++ released p) [] (n + 2)) := by
  obtain ⟨outer, floors, hfl⟩ := List.exists_cons_of_ne_nil hs
  have hf : (s.enter.after c p n).floors = s.operators.length :: outer :: floors := by
    simp [after, enter, hfl]
  have hp : (s.enter.after c p n).operators = p ++ s.operators := rfl
  simp only [step, hf, hp, emit_after]
  simp [after, enter, hfl]
  omega

/-- A stretch in parentheses leaves nothing waiting. -/
theorem steps_parens {ts : List (Token α)} {n : Nat} {c : List (Instr α)} {p : List Operator}
    (hs : s.floors ≠ []) (h : s.enter.steps prec ts = .ok (s.enter.after c p n)) :
    s.steps prec (.lparen :: ts ++ [.rparen]) = .ok (s.after (c ++ released p) [] (n + 2)) := by
  have hin : s.step prec .lparen = .ok s.enter := rfl
  rw [List.cons_append, steps_cons_of_step hin, steps_append_of_steps h,
    steps_cons_of_step (step_rparen hs), steps_nil]

/-! ## The end -/

/-- A list of tokens has a program when a scan reads it from the start. -/
theorem ofTokens_eq_ok_iff {ts : List (Token α)} {p : Program α} :
    Program.ofTokens prec ts = .ok p ↔
      ∃ s : Scan α, start.steps prec ts = .ok s ∧ p = s.finish := by
  rw [Program.ofTokens]
  cases (start : Scan α).steps prec ts <;> simp [Except.map, eq_comm]

/-- A formula whose parentheses are all closed: what still waits is released at the end. -/
theorem finish_start_after (c : List (Instr α)) (p : List Operator) (n : Nat) :
    (start.after c p n).finish = ⟨c ++ released p, 0⟩ := by
  simp [finish, after, start, emit, released]

end Scan

end

end CurveArea
