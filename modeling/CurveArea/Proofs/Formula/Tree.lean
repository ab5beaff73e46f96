import CurveArea.Proofs.Formula.Scan

/-!
# Trees and their printed forms

An expression tree is printed with the parentheses that a precedence asks for, and any others
besides (`Printed`). `steps_printed` reads such a text back: every incoming operator releases what
its left operand left waiting and nothing of the context, so what is put out, followed by what waits
in the end, is the tree in postorder. The precedence is arbitrary, so ranks may be equal or go
against custom.
-/

namespace CurveArea

/-- An expression. -/
inductive Tree (α : Type)
  | number (v : α)
  | var
  | node (o : Operator) (left right : Tree α)

section
variable {α : Type} {prec : Precedence}

namespace Tree

/-- The tokens in postorder. -/
def postorder : Tree α → List (Token α)
  | number v => [.number v]
  | var => [.var]
  | node o l r => l.postorder ++ r.postorder ++ [.op o]

/-- The instructions in postorder. -/
def code : Tree α → List (Instr α)
  | number v => [.push v]
  | var => [.load]
  | node o l r => l.code ++ r.code ++ [.apply o]

/-- The instructions of a tree stand for its tokens in postorder. -/
theorem map_token_code (t : Tree α) : t.code.map Instr.token = t.postorder := by
  induction t with
  | number v => rfl
  | var => rfl
  | node o l r ihl ihr => simp [code, postorder, ihl, ihr, Instr.token]

/-- Whether a precedence ranks all the operators. -/
def Ranked (prec : Precedence) : Tree α → Prop
  | number _ => True
  | var => True
  | node o l r => (prec.rank? o).isSome ∧ l.Ranked prec ∧ r.Ranked prec

/-- The rank of the operator at the root, if there is one and it has one. -/
def rank? (prec : Precedence) : Tree α → Option Nat
  | number _ => none
  | var => none
  | node o _ _ => prec.rank? o

/-- Whether the root has a greater rank than an operator. -/
def LooserThan (prec : Precedence) (t : Tree α) (o : Operator) : Prop :=
  ∃ k kt, prec.rank? o = some k ∧ t.rank? prec = some kt ∧ k < kt

/-- Whether the root has at least the rank of an operator. -/
def NoTighterThan (prec : Precedence) (t : Tree α) (o : Operator) : Prop :=
  ∃ k kt, prec.rank? o = some k ∧ t.rank? prec = some kt ∧ k ≤ kt

end Tree

/-- The printed forms of a tree; the truth value says whether the whole is in parentheses. A left
operand that binds looser than its operator must be in parentheses, and so must a right operand that
does not bind tighter; any other part may be, any number of times. -/
inductive Printed (prec : Precedence) : Bool → Tree α → List (Token α) → Prop
  | number (v : α) : Printed prec false (.number v) [.number v]
  | var : Printed prec false .var [.var]
  | node {a b : Bool} {o : Operator} {l r : Tree α} {ls rs : List (Token α)} :
      Printed prec a l ls → Printed prec b r rs →
      (l.LooserThan prec o → a = true) → (r.NoTighterThan prec o → b = true) →
      Printed prec false (.node o l r) (ls ++ .op o :: rs)
  | parens {a : Bool} {t : Tree α} {ts : List (Token α)} :
      Printed prec a t ts → Printed prec true t (.lparen :: ts ++ [.rparen])

/-- A printed form has a token. -/
theorem Printed.ne_nil {a : Bool} {t : Tree α} {ts : List (Token α)} (h : Printed prec a t ts) :
    ts ≠ [] := by
  cases h <;> simp

/-! ## Reading a printed form -/

/-- What a stretch of tokens that prints a tree does to a scan: what it puts out and leaves waiting
is the tree's code, and what waits binds at least as tightly as the root. Nothing waits after a
stretch in parentheses. -/
structure ReadAs (prec : Precedence) (closed : Bool) (t : Tree α) (c : List (Instr α))
    (p : List Operator) : Prop where
  code_eq : c ++ Scan.released p = t.code
  pending_eq : closed = true → p = []
  pending_le : ∀ o ∈ p, ∃ k kt, prec.rank? o = some k ∧ t.rank? prec = some kt ∧ k ≤ kt

/-- A left operand leaves only operators that its parent releases. -/
theorem ReadAs.released_by {a : Bool} {l : Tree α} {c : List (Instr α)} {p : List Operator}
    {o : Operator} {k : Nat} (h : ReadAs prec a l c p) (ho : prec.rank? o = some k)
    (ha : l.LooserThan prec o → a = true) :
    ∀ o' ∈ p, ∃ k', prec.rank? o' = some k' ∧ k' ≤ k := by
  intro o' ho'
  obtain ⟨k', kl, hk', hkl, hle⟩ := h.pending_le o' ho'
  refine ⟨k', hk', Nat.le_of_not_lt fun hgt => ?_⟩
  rw [h.pending_eq (ha ⟨k, kl, ho, hkl, by omega⟩)] at ho'
  cases ho'

/-- The case of a node: the operator has released the left operand's operators, and waits below what
the right operand leaves. -/
theorem ReadAs.node {b : Bool} {o : Operator} {l r : Tree α} {c : List (Instr α)}
    {p : List Operator} {k : Nat} (h : ReadAs prec b r c p) (ho : prec.rank? o = some k)
    (hb : r.NoTighterThan prec o → b = true) :
    ReadAs prec false (.node o l r) (l.code ++ c) (p ++ [o]) where
  code_eq := by
    have := h.code_eq
    simp [Tree.code, ← this, Scan.released]
  pending_eq := nofun
  pending_le := by
    intro o' ho'
    rcases List.mem_append.1 ho' with hp | hp
    · obtain ⟨k', kr, hk', hkr, hle⟩ := h.pending_le o' hp
      refine ⟨k', k, hk', ho, Nat.le_of_not_lt fun hgt => ?_⟩
      rw [h.pending_eq (hb ⟨k, kr, ho, hkr, by omega⟩)] at hp
      cases hp
    · rw [List.mem_singleton.1 hp]
      exact ⟨k, k, ho, ho, Nat.le_refl k⟩

/-- **A printed form is read as its tree.** The induction is on the printed form; it needs that the
operators that wait already hold against the root, unless the whole is in parentheses. -/
theorem steps_printed {a : Bool} {t : Tree α} {ts : List (Token α)} (h : Printed prec a t ts)
    (hr : t.Ranked prec) {s : Scan α} (hs : s.Grounded)
    (hold : a = false → ∀ k, t.rank? prec = some k → Scan.Holds prec k s.floor s.operators) :
    ∃ c p, s.steps prec ts = .ok (s.after c p ts.length) ∧ ReadAs prec a t c p := by
  induction h generalizing s with
  | number v => exact ⟨[.push v], [], Scan.steps_number v, by simp [Tree.code], nofun, nofun⟩
  | var => exact ⟨[.load], [], Scan.steps_var, by simp [Tree.code], nofun, nofun⟩
  | @node a b o l r ls rs hl hrs ha hb ihl ihr =>
    obtain ⟨ho, hrl, hrr⟩ := hr
    obtain ⟨k, ho⟩ := Option.isSome_iff_exists.1 ho
    have hs₀ : Scan.Holds prec k s.floor s.operators := hold rfl k ho
    -- the left operand holds whatever its parent holds, since it binds no looser
    obtain ⟨cl, pl, hstepl, hreadl⟩ := ihl hrl hs fun hbare kl hkl =>
      hs₀.mono <| Nat.le_of_not_lt fun hgt => by
        rw [ha ⟨k, kl, ho, hkl, hgt⟩] at hbare
        cases hbare
    have hop := Scan.step_op (n := ls.length) (c := cl) hs ho (hreadl.released_by ho ha) hs₀
    rw [hreadl.code_eq] at hop
    -- the operator itself now holds against the right operand, which binds tighter
    obtain ⟨cr, pr, hstepr, hreadr⟩ := ihr hrr (hs.after l.code [o] (ls.length + 1))
      fun hbare kr hkr _ => ⟨k, ho, Nat.lt_of_not_le fun hle => by
        rw [hb ⟨k, kr, ho, hkr, hle⟩] at hbare
        cases hbare⟩
    refine ⟨l.code ++ cr, pr ++ [o], ?_, hreadr.node ho hb⟩
    rw [Scan.steps_append_of_steps hstepl, Scan.steps_cons_of_step hop, hstepr, Scan.after_after]
    simp [Nat.add_assoc, Nat.add_comm 1]
  | @parens a t ts ht ih =>
    obtain ⟨c, p, hstep, hread⟩ := ih hr Scan.grounded_enter fun _ k _ => Scan.holds_enter k
    refine ⟨t.code, [], ?_, by simp, fun _ => rfl, nofun⟩
    rw [Scan.steps_parens hs.floors_ne hstep, hread.code_eq]
    simp

/-- The program of a printed form is the tree in postorder, with every parenthesis closed. -/
theorem ofTokens_of_printed {a : Bool} {t : Tree α} {ts : List (Token α)}
    (h : Printed prec a t ts) (hr : t.Ranked prec) :
    Program.ofTokens prec ts = .ok ⟨t.code, 0⟩ := by
  obtain ⟨c, p, hstep, hread⟩ := steps_printed h hr Scan.grounded_start fun _ _ _ => trivial
  rw [Program.ofTokens, hstep, ← hread.code_eq, ← Scan.finish_start_after]
  rfl

/-- **Translation inverts printing, under every precedence.** -/
theorem tokens_ofTokens_printed {a : Bool} {t : Tree α} {ts : List (Token α)}
    (hr : t.Ranked prec) (h : Printed prec a t ts) :
    ∃ p, Program.ofTokens prec ts = .ok p ∧ p.unclosed = 0 ∧ p.tokens = t.postorder :=
  ⟨_, ofTokens_of_printed h hr, rfl, t.map_token_code⟩

/-- Sums bind tighter than powers, and those tighter than the rest, which all tie. -/
def Precedence.sumsFirst : Precedence where
  rank?
    | .plus => some 1
    | .power => some 2
    | .times => some 3
    | .per => some 3
    | .minus => some 3

/-- The product `( 2 + x ) * ( ( 3 * x ) )`: the parentheses on the left are superfluous when sums
bind tighter, and of those on the right one pair is needed. -/
theorem tokens_ofTokens_printed_sumsFirst :
    let t : Tree Nat :=
      .node .times (.node .plus (.number 2) .var) (.node .times (.number 3) .var)
    let ts : List (Token Nat) :=
      [.lparen, .number 2, .op .plus, .var, .rparen, .op .times,
        .lparen, .lparen, .number 3, .op .times, .var, .rparen, .rparen]
    t.Ranked .sumsFirst ∧ Printed .sumsFirst false t ts ∧
      ∃ p, Program.ofTokens .sumsFirst ts = .ok p ∧ p.unclosed = 0 ∧ p.tokens = t.postorder := by
  intro t ts
  have hr : t.Ranked .sumsFirst := ⟨rfl, ⟨rfl, trivial, trivial⟩, rfl, trivial, trivial⟩
  have hl : Printed .sumsFirst true (.node .plus (.number 2) .var)
      [.lparen, .number 2, .op .plus, .var, .rparen] :=
    .parens (.node (.number 2) .var (by rintro ⟨_, _, _, ⟨⟩, _⟩) (by rintro ⟨_, _, _, ⟨⟩, _⟩))
  have hrs : Printed .sumsFirst true (.node .times (.number 3) .var)
      [.lparen, .lparen, .number 3, .op .times, .var, .rparen, .rparen] :=
    .parens (.parens
      (.node (.number 3) .var (by rintro ⟨_, _, _, ⟨⟩, _⟩) (by rintro ⟨_, _, _, ⟨⟩, _⟩)))
  have hp : Printed .sumsFirst false t ts := .node hl hrs (fun _ => rfl) (fun _ => rfl)
  exact ⟨hr, hp, tokens_ofTokens_printed hr hp⟩

end

end CurveArea
