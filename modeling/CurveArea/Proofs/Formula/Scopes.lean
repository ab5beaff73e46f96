import CurveArea.Proofs.Formula.Scan

/-!
# Scans inside a scope

A scan that has just entered a scope reads tokens as a scan from the start does, on top of what the
enclosing scopes have put out and left waiting (`Scan.above`, `steps_above`): no token reaches below
the floor of the scope, as long as the tokens alone close no more parentheses than they open. Hence
a formula whose parentheses are all closed may stand in parentheses anywhere; there it puts out its
program and leaves nothing waiting (`steps_closed`).
-/

namespace CurveArea

section
variable {α : Type} {prec : Precedence} {s s' : Scan α}

namespace Scan

/-! ## The outermost scope -/

/-- The outermost scope is open, with no operator below it. -/
def Open (s : Scan α) : Prop := s.floors.getLast? = some 0

/-- At the beginning the outermost scope is open. -/
theorem open_start : (start : Scan α).Open := rfl

/-- While the outermost scope is open there is a scope. -/
theorem Open.floors_ne (h : s.Open) : s.floors ≠ [] := by
  intro hnil
  rw [Open, hnil] at h
  cases h

/-- No token closes the outermost scope. -/
theorem Open.step {t : Token α} (h : s.Open) (hstep : s.step prec t = .ok s') : s'.Open := by
  cases t with
  | number v | var =>
    cases hstep
    exact h
  | lparen =>
    cases hstep
    obtain ⟨floor, floors, hfl⟩ := List.exists_cons_of_ne_nil h.floors_ne
    simp only [Open, hfl] at h ⊢
    exact h
  | rparen =>
    obtain ⟨floor, outer, floors, hfl, rfl⟩ := step_rparen_eq_ok_iff.1 hstep
    rwa [Open, hfl, List.getLast?_cons_cons] at h
  | op o =>
    obtain ⟨r, released, rest, -, -, rfl⟩ := step_op_eq_ok_iff.1 hstep
    exact h

/-- When nothing else is open, the outermost scope is the only one. -/
theorem Open.floors_eq (h : s.Open) (hclosed : s.finish.unclosed = 0) : s.floors = [0] := by
  have hlen : s.floors.length - 1 = 0 := hclosed
  match hfl : s.floors with
  | [] => exact absurd hfl h.floors_ne
  | [floor] =>
    rw [Open, hfl] at h
    cases h
    rfl
  | _ :: _ :: _ =>
    rw [hfl] at hlen
    cases hlen

/-! ## One scan on top of another -/

/-- A scan on top of another one, in a scope of its own. The parenthesis that opens the scope is a
token too. -/
def above (s base : Scan α) : Scan α where
  code := base.code ++ s.code
  operators := s.operators ++ base.operators
  floors := s.floors.map (· + base.operators.length) ++ base.floors
  position := base.position + 1 + s.position

/-- A scan that has read nothing, on top of another one, has just entered a scope of this one. -/
theorem start_above (base : Scan α) : start.above base = base.enter := by
  simp [above, start, enter]

/-- On top of another scan the innermost scope begins as much higher as operators wait below. -/
theorem floor_above (base : Scan α) (hs : s.floors ≠ []) :
    (s.above base).floor = s.floor + base.operators.length := by
  obtain ⟨floor, floors, hfl⟩ := List.exists_cons_of_ne_nil hs
  simp [Scan.floor, above, hfl]

/-- On top of another scan, operators are put out behind the instructions of both. -/
theorem emit_above (base : Scan α) (released : List Operator) :
    (s.above base).emit released = base.code ++ s.emit released :=
  Array.ext' (by simp [emit, above])

/-- What waits below a scope is not released from inside it, nor does it keep back what waits
inside. -/
theorem release_above (r floor : Nat) (ops below : List Operator) :
    release prec r (floor + below.length) (ops ++ below) =
      (release prec r floor ops).map fun (released, rest) => (released, rest ++ below) := by
  induction ops with
  | nil => exact release_of_holds (holds_of_le (Nat.le_add_left _ _))
  | cons o ops ih =>
    have hfloor : (ops ++ below).length < floor + below.length ↔ ops.length < floor := by
      rw [List.length_append]
      omega
    rw [List.cons_append, release, release, ih]
    by_cases hlt : ops.length < floor
    · rw [if_pos hlt, if_pos (hfloor.2 hlt)]
      rfl
    · rw [if_neg hlt, if_neg (mt hfloor.1 hlt)]
      cases rank prec o with
      | error e => rfl
      | ok k =>
        simp only [bind, Except.bind, pure, Except.pure]
        split
        · cases release prec r floor ops <;> rfl
        · rfl

/-- A token that a scan reads on its own is read in the same way inside a scope. -/
theorem step_above {t : Token α} (base : Scan α) (hs : s.floors ≠ [])
    (h : s.step prec t = .ok s') :
    (s.above base).step prec t = .ok (s'.above base) := by
  cases t with
  | number v | var | lparen =>
    cases h
    simp [step, above, Nat.add_assoc]
  | rparen =>
    obtain ⟨floor, outer, floors, hfl, rfl⟩ := step_rparen_eq_ok_iff.1 h
    have hinside : (s.operators ++ base.operators).length - (floor + base.operators.length) =
        s.operators.length - floor := by
      rw [List.length_append]
      omega
    have hle : s.operators.length - floor ≤ s.operators.length := Nat.sub_le _ _
    refine step_rparen_eq_ok_iff.2 ⟨floor + base.operators.length,
      outer + base.operators.length, floors.map (· + base.operators.length) ++ base.floors,
      by simp [above, hfl], ?_⟩
    rw [emit_above]
    simp only [above, hinside, List.take_append_of_le_length hle, List.drop_append_of_le_length hle]
    rfl
  | op o =>
    obtain ⟨r, released, rest, hr, hrel, rfl⟩ := step_op_eq_ok_iff.1 h
    refine step_op_eq_ok_iff.2 ⟨r, released, rest ++ base.operators, hr, ?_, ?_⟩
    · rw [floor_above base hs]
      exact (release_above ..).trans (by rw [hrel]; rfl)
    · rw [emit_above]
      rfl

/-- **A scope isolates.** Tokens that a scan reads on its own are read in the same way inside a
scope. The induction needs that the outermost scope of the tokens alone stays open. -/
theorem steps_above {ts : List (Token α)} (base : Scan α) (hs : s.Open)
    (h : s.steps prec ts = .ok s') :
    (s.above base).steps prec ts = .ok (s'.above base) ∧ s'.Open := by
  induction ts generalizing s with
  | nil =>
    cases h
    exact ⟨rfl, hs⟩
  | cons t ts ih =>
    obtain ⟨s₁, hstep, hsteps⟩ := steps_cons_eq_ok_iff.1 h
    rw [steps_cons_of_step (step_above base hs.floors_ne hstep)]
    exact ih (hs.step hstep) hsteps

/-! ## Formulas in parentheses -/

/-- A formula whose parentheses are all closed puts out its program when it stands in parentheses,
and leaves nothing waiting. -/
theorem steps_closed {g : List (Token α)} {q : Program α} (hs : s.floors ≠ [])
    (hq : Program.ofTokens prec g = .ok q) (hclosed : q.unclosed = 0) :
    ∃ n, s.steps prec (.lparen :: g ++ [.rparen]) = .ok (s.after q.code [] n) := by
  obtain ⟨inner, hinner, rfl⟩ := ofTokens_eq_ok_iff.1 hq
  obtain ⟨habove, hopen⟩ := steps_above s open_start hinner
  have hfl : inner.floors = [0] := hopen.floors_eq hclosed
  have hcode : s.code ++ inner.code = s.code ++ inner.code.toList := Array.ext' (by simp)
  have hafter :
      inner.above s = s.enter.after inner.code.toList inner.operators inner.position := by
    simp [above, after, enter, hfl, hcode]
  rw [start_above, hafter] at habove
  have hfinish : inner.finish.code = inner.code.toList ++ released inner.operators :=
    toList_emit inner.operators
  rw [hfinish]
  exact ⟨_, steps_parens hs habove⟩

end Scan

end

end CurveArea
