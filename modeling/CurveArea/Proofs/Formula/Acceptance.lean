import Mathlib
import CurveArea.Number.Binary64
import CurveArea.Proofs.Formula.Run
import CurveArea.Proofs.Formula.Scopes

/-!
# Formulas that have a value

A formula has a value when it has a program and the program has a value. `Phrase` is the grammar in
which formulas are meant: operands with an operator between any two of them. All its formulas have a
value (`Phrase.scanned`), but others do too, since operators and operands are only counted: in
`x x +` the operator waits for operands that have already come (`value_of_side_by_side`).

What is counted is the `net` of operands over operators. A scan keeps it, so a formula with a value
has one operand more than operators. If besides no operand directly follows another one, then each
stretch of it has one operand more than operators at most, and it has that many only if operands and
operators alternate (`alternates_of_net`). What alternates, and closes all parentheses that it
opens, is a formula of the grammar (`phrase_of_alternates`).
-/

namespace CurveArea

section
variable {α : Type} {prec : Precedence}

/-! ## The grammar -/

/-- The parts of a formula. -/
inductive Part
  /-- What an operator joins. -/
  | operand
  /-- Operands with operators between them. -/
  | formula

/-- The tokens of a part of a formula: a formula is an operand, followed by any number of operators
with an operand each; an operand is a number, the variable or a formula in parentheses. -/
inductive Phrase : Part → List (Token α) → Prop
  | number (v : α) : Phrase .operand [.number v]
  | var : Phrase .operand [.var]
  | parens {ts : List (Token α)} : Phrase .formula ts →
      Phrase .operand (.lparen :: ts ++ [.rparen])
  | single {ts : List (Token α)} : Phrase .operand ts → Phrase .formula ts
  | chain {ts us : List (Token α)} (o : Operator) : Phrase .formula ts → Phrase .operand us →
      Phrase .formula (ts ++ .op o :: us)

namespace Token

/-- Whether an operand begins with a token. -/
def beginsOperand : Token α → Bool
  | number _ => true
  | var => true
  | lparen => true
  | _ => false

/-- Whether an operand ends with a token. -/
def endsOperand : Token α → Bool
  | number _ => true
  | var => true
  | rparen => true
  | _ => false

/-- Somewhere an operand directly follows another one. -/
def SideBySide (ts : List (Token α)) : Prop :=
  ∃ before a b after, ts = before ++ a :: b :: after ∧ a.endsOperand = true ∧
    b.beginsOperand = true

/-- How many operands a token adds, an operator taking one away. -/
def net : Token α → Int
  | number _ => 1
  | var => 1
  | op _ => -1
  | _ => 0

/-- Whether tokens close `depth` parentheses and all those that they open. -/
def Closes : (depth : Nat) → List (Token α) → Prop
  | depth, [] => depth = 0
  | depth, .lparen :: ts => Closes (depth + 1) ts
  | 0, .rparen :: _ => False
  | depth + 1, .rparen :: ts => Closes depth ts
  | depth, .number _ :: ts => Closes depth ts
  | depth, .var :: ts => Closes depth ts
  | depth, .op _ :: ts => Closes depth ts

/-- Whether operands and operators alternate up to a last operand, `after` an operand or not. A
formula in parentheses is an operand, in which they alternate from the start again. -/
def Alternates : (after : Bool) → List (Token α) → Prop
  | after, [] => after = true
  | after, t :: ts => t.beginsOperand = !after ∧ Alternates t.endsOperand ts

end Token

/-! ## What a scan keeps -/

namespace Instr

/-- How many numbers an instruction adds to the stack. -/
def net : Instr α → Int
  | push _ => 1
  | load => 1
  | apply _ => -1

end Instr

/-- A run that ends adds as many numbers as its instructions do. -/
theorem Program.depth_net {position n m : Nat} {code : List (Instr α)}
    (h : depth position code n = .ok m) : (m : Int) = n + (code.map Instr.net).sum := by
  fun_induction depth position code n with
  | case1 =>
    cases h
    simp
  | case2 position v code n ih | case3 position code n ih | case4 position o code n ih =>
    have hrest := ih h
    simp only [List.map_cons, List.sum_cons, Instr.net]
    omega
  | case5 => cases h

namespace Scan

variable {s s' : Scan α}

/-- How many numbers the program of a scan adds so far, with the operators that wait. -/
def net (s : Scan α) : Int := (s.code.toList.map Instr.net).sum - s.operators.length

/-- Every operator that is released takes a number away. -/
theorem net_released (ops : List Operator) :
    ((released ops : List (Instr α)).map Instr.net).sum = -(ops.length : Int) := by
  induction ops with
  | nil => rfl
  | cons o ops ih =>
    have hcons : (released (o :: ops) : List (Instr α)) = .apply o :: released ops := rfl
    simp only [hcons, List.map_cons, List.sum_cons, ih, Instr.net, List.length_cons]
    omega

/-- The operators that are put out take a number away each. -/
theorem net_emit (ops : List Operator) :
    ((s.emit ops).toList.map Instr.net).sum =
      (s.code.toList.map Instr.net).sum - ops.length := by
  rw [toList_emit, List.map_append, List.sum_append, net_released]
  omega

/-- A token adds its net. -/
theorem net_step {t : Token α} (h : s.step prec t = .ok s') : s'.net = s.net + t.net := by
  cases t with
  | number v | var =>
    cases h
    simp only [net, Array.toList_push, List.map_append, List.sum_append, List.map_cons,
      List.map_nil, List.sum_cons, List.sum_nil, Instr.net, Token.net]
    omega
  | lparen =>
    cases h
    simp [net, Token.net]
  | rparen =>
    obtain ⟨floor, outer, floors, -, rfl⟩ := step_rparen_eq_ok_iff.1 h
    simp only [net, net_emit, Token.net, List.length_take, List.length_drop]
    omega
  | op o =>
    obtain ⟨r, tight, rest, -, hrel, rfl⟩ := step_op_eq_ok_iff.1 h
    have hlen := congrArg List.length (append_of_release hrel)
    rw [List.length_append] at hlen
    simp only [net, net_emit, Token.net, List.length_cons]
    omega

/-- Tokens add their nets. -/
theorem net_steps {ts : List (Token α)} (h : s.steps prec ts = .ok s') :
    s'.net = s.net + (ts.map Token.net).sum := by
  refine steps_induction (motive := fun ts s' => s'.net = s.net + (ts.map Token.net).sum) h
    (by simp) ?_
  intro ts t s₁ s₂ hnet hstep
  rw [net_step hstep, hnet, List.map_append, List.sum_append, List.map_singleton,
    List.sum_singleton, Int.add_assoc]

/-- The program of a scan adds as many numbers as the scan has counted. -/
theorem net_finish (s : Scan α) : (s.finish.code.map Instr.net).sum = s.net := by
  rw [finish, net_emit, net]

/-- A program adds as many numbers as its tokens do. -/
theorem net_of_ofTokens {ts : List (Token α)} {p : Program α}
    (h : Program.ofTokens prec ts = .ok p) :
    (p.code.map Instr.net).sum = (ts.map Token.net).sum := by
  obtain ⟨s, hsteps, rfl⟩ := ofTokens_eq_ok_iff.1 h
  have hstart : (start : Scan α).net = 0 := rfl
  rw [net_finish, net_steps hsteps, hstart, Int.zero_add]

/-- Tokens that leave the outermost scope open alone close what was open. -/
theorem closes_of_steps {ts : List (Token α)} {depth : Nat} (hs : s.floors.length = depth + 1)
    (h : s.steps prec ts = .ok s') (hs' : s'.floors.length = 1) : Token.Closes depth ts := by
  induction ts generalizing s depth with
  | nil =>
    cases h
    show depth = 0
    omega
  | cons t ts ih =>
    obtain ⟨s₁, hstep, hsteps⟩ := steps_cons_eq_ok_iff.1 h
    cases t with
    | number v | var =>
      cases hstep
      refine ih ?_ hsteps
      exact hs
    | lparen =>
      cases hstep
      have henter : s.enter.floors.length = depth + 1 + 1 := by
        rw [← hs]
        rfl
      exact ih henter hsteps
    | rparen =>
      obtain ⟨floor, outer, floors, hfl, rfl⟩ := step_rparen_eq_ok_iff.1 hstep
      rw [hfl, List.length_cons, List.length_cons] at hs
      obtain ⟨depth, rfl⟩ : ∃ n, depth = n + 1 := ⟨floors.length, by omega⟩
      refine ih ?_ hsteps
      rw [List.length_cons]
      omega
    | op o =>
      obtain ⟨r, tight, rest, -, -, rfl⟩ := step_op_eq_ok_iff.1 hstep
      refine ih ?_ hsteps
      exact hs

end Scan

/-- What is counted of a formula with a value: all parentheses are closed, and there is one operand
more than operators. -/
theorem counts_of_value [Operations α] {ts : List (Token α)} {p : Program α} {x v : α}
    (hp : Program.ofTokens prec ts = .ok p) (hv : p.evaluate x = .ok v) :
    Token.Closes 0 ts ∧ (ts.map Token.net).sum = 1 := by
  have hcode := Scan.net_of_ofTokens hp
  obtain ⟨s, hsteps, rfl⟩ := Scan.ofTokens_eq_ok_iff.1 hp
  obtain ⟨hclosed, hrun⟩ := Program.evaluate_eq_ok_iff.1 hv
  have hopen : s.Open := (Scan.steps_above .start Scan.open_start hsteps).2
  refine ⟨Scan.closes_of_steps rfl hsteps (by rw [hopen.floors_eq hclosed]; rfl), ?_⟩
  have hdepth : Program.depth 0 s.finish.code 0 = .ok 1 := by
    have hlength := Program.map_length_run x 0 s.finish.code []
    rw [hrun] at hlength
    exact hlength.symm
  have hnet := Program.depth_net hdepth
  omega

/-! ## Alternation -/

/-- Operands that stand side by side do so after one token more. -/
theorem Token.SideBySide.cons {ts : List (Token α)} (h : SideBySide ts) (t : Token α) :
    SideBySide (t :: ts) := by
  obtain ⟨before, a, b, after, rfl, ha, hb⟩ := h
  exact ⟨t :: before, a, b, after, rfl, ha, hb⟩

/-- Where no operand directly follows another one, none follows the first token if an operand ends
with it. -/
theorem Token.head_of_not_sideBySide {t : Token α} {ts : List (Token α)}
    (h : ¬ SideBySide (t :: ts)) (ht : t.endsOperand = true) :
    ∀ u ∈ ts.head?, u.beginsOperand = false := by
  intro u hu
  obtain ⟨us, rfl⟩ := List.head?_eq_some_iff.1 hu
  exact Bool.eq_false_iff.2 fun hbegins => h ⟨[], t, u, us, rfl, ht, hbegins⟩

/-- **Alternation.** Where no operand directly follows another one there are never too many of them,
and if there are enough, then operands and operators alternate. A token that breaks the alternation
is an operator or a closing parenthesis without an operand before it, and each costs an operand that
nothing can make up for. -/
theorem alternates_of_net {after : Bool} {ts : List (Token α)} (h : ¬ Token.SideBySide ts)
    (hafter : after = true → ∀ u ∈ ts.head?, u.beginsOperand = false) :
    (ts.map Token.net).sum ≤ (if after then 0 else 1) ∧
      ((ts.map Token.net).sum = (if after then 0 else 1) → Token.Alternates after ts) := by
  induction ts generalizing after with
  | nil => cases after <;> simp [Token.Alternates]
  | cons t ts ih =>
    obtain ⟨hle, heq⟩ := ih (fun hside => h (hside.cons t)) (Token.head_of_not_sideBySide h)
    rw [List.map_cons, List.sum_cons]
    cases t with
    | number v | var | lparen =>
      cases after with
      | true => cases hafter rfl _ rfl
      | false =>
        simp only [Token.net, Token.endsOperand, if_true, Bool.false_eq_true, if_false] at hle heq ⊢
        exact ⟨by omega, fun hsum => ⟨rfl, heq (by omega)⟩⟩
    | rparen | op o =>
      simp only [Token.net, Token.endsOperand, if_true, Bool.false_eq_true, if_false] at hle heq ⊢
      cases after with
      | true =>
        simp only [if_true]
        exact ⟨by omega, fun hsum => ⟨rfl, heq (by omega)⟩⟩
      | false =>
        simp only [Bool.false_eq_true, if_false]
        exact ⟨by omega, fun hsum => by omega⟩

/-! ## From alternation to the grammar -/

/-- What has been read of a formula: all of it so far, or a formula and an operator, or nothing. -/
inductive Begun : (after : Bool) → List (Token α) → Prop
  | nothing : Begun false []
  | operator {ts : List (Token α)} (o : Operator) : Phrase .formula ts → Begun false (ts ++ [.op o])
  | operand {ts : List (Token α)} : Phrase .formula ts → Begun true ts

/-- An operand goes on with a formula. -/
theorem Begun.snoc {ts us : List (Token α)} (h : Begun false ts) (hus : Phrase .operand us) :
    Begun true (ts ++ us) := by
  cases h with
  | nothing => exact .operand (.single hus)
  | operator o hts =>
    rw [List.append_assoc, List.singleton_append]
    exact .operand (.chain o hts hus)

/-- All that has been read when formulas are begun in one another, the innermost one last. -/
def enclosed (inner : List (Token α)) : List (List (Token α)) → List (Token α)
  | [] => inner
  | outer :: scopes => enclosed (outer ++ .lparen :: inner) scopes

/-- What follows the innermost formula follows all that has been read. -/
theorem enclosed_append (inner ts : List (Token α)) (scopes : List (List (Token α))) :
    enclosed (inner ++ ts) scopes = enclosed inner scopes ++ ts := by
  induction scopes generalizing inner with
  | nil => rfl
  | cons outer scopes ih =>
    rw [enclosed, enclosed, ← ih, List.append_assoc, List.cons_append]

/-- **Alternation is enough.** Tokens that alternate and close what is open complete the formulas
that are begun. -/
theorem phrase_of_alternates {after : Bool} {ts inner : List (Token α)}
    {scopes : List (List (Token α))} (halt : Token.Alternates after ts)
    (hcloses : Token.Closes scopes.length ts) (hinner : Begun after inner)
    (hscopes : ∀ outer ∈ scopes, Begun false outer) :
    Phrase .formula (enclosed inner scopes ++ ts) := by
  -- The innermost scope takes the tokens one by one, so `inner` and `scopes` are free.
  induction ts generalizing after inner scopes with
  | nil =>
    cases halt
    obtain rfl := List.length_eq_zero_iff.1 hcloses
    cases hinner with
    | operand h => rwa [List.append_nil]
  | cons t ts ih =>
    have hshift : ∀ us : List (Token α), enclosed inner scopes ++ t :: us =
        enclosed (inner ++ [t]) scopes ++ us := fun us => by
      rw [enclosed_append, List.append_assoc, List.singleton_append]
    obtain ⟨hbegins, hrest⟩ := halt
    cases t with
    | number v | var =>
      cases after with
      | true => cases hbegins
      | false =>
        rw [hshift]
        refine ih hrest hcloses (hinner.snoc ?_) hscopes
        constructor
    | op o =>
      cases hinner with
      | nothing | operator => cases hbegins
      | operand h =>
        rw [hshift]
        exact ih hrest hcloses (.operator o h) hscopes
    | lparen =>
      cases after with
      | true => cases hbegins
      | false =>
        rw [hshift]
        have hnested : ∀ outer ∈ inner :: scopes, Begun false outer :=
          List.forall_mem_cons.2 ⟨hinner, hscopes⟩
        have hphrase : Phrase .formula (enclosed [] (inner :: scopes) ++ ts) :=
          ih hrest hcloses .nothing hnested
        exact hphrase
    | rparen =>
      cases hinner with
      | nothing | operator => cases hbegins
      | operand h =>
        cases scopes with
        | nil => cases hcloses
        | cons outer scopes =>
          -- What is closed is a whole formula, and so an operand of the scope outside.
          obtain ⟨houter, hscopes⟩ := List.forall_mem_cons.1 hscopes
          have hparens := houter.snoc (.parens h)
          rw [← List.append_assoc] at hparens
          rw [hshift, enclosed, ← List.cons_append, ← List.append_assoc]
          exact ih hrest hcloses hparens hscopes

/-! ## From the grammar to a value -/

/-- Code that adds `k` numbers to every stack and needs none. -/
def Adds (code : List (Instr α)) (k : Nat) : Prop :=
  ∀ position n, Program.depth position code n = .ok (n + k)

/-- Code runs after other code, from the height that this leaves and at the positions after it. -/
theorem Program.depth_append (position : Nat) (c₁ c₂ : List (Instr α)) (n : Nat) :
    depth position (c₁ ++ c₂) n = (depth position c₁ n).bind (depth (position + c₁.length) c₂) := by
  fun_induction depth position c₁ n with
  | case1 => rfl
  | case2 position v code n ih | case3 position code n ih | case4 position o code n ih =>
    simp [depth, ih, Nat.add_assoc, Nat.add_comm 1]
  | case5 position o code n hn => simp [depth, Except.bind]

/-- Operators leave one of the numbers above a stack when they are one fewer. -/
theorem Scan.depth_released (ops : List Operator) (position n : Nat) :
    Program.depth position (released ops : List (Instr α)) (n + 1 + ops.length) = .ok (n + 1) := by
  induction ops generalizing position with
  | nil => rfl
  | cons o ops ih =>
    have htwo : n + 1 + (o :: ops).length = n + ops.length + 2 := by
      rw [List.length_cons]
      omega
    have hone : n + ops.length + 1 = n + 1 + ops.length := by omega
    rw [htwo]
    show Program.depth (position + 1) (released ops) (n + ops.length + 1) = .ok (n + 1)
    rw [hone, ih]

/-- Code that adds a number for each operator of two lists and one more adds them still when those
of the first list are put out. -/
theorem Adds.released {code : List (Instr α)} (tight rest : List Operator)
    (h : Adds code ((tight ++ rest).length + 1)) :
    Adds (code ++ Scan.released tight) (rest.length + 1) := by
  intro position n
  have hsplit : n + ((tight ++ rest).length + 1) = n + rest.length + 1 + tight.length := by
    rw [List.length_append]
    omega
  rw [Program.depth_append, h, hsplit]
  exact Scan.depth_released tight _ _

/-- Code after code adds what both add. -/
theorem Adds.append {c₁ c₂ : List (Instr α)} {k l : Nat} (h₁ : Adds c₁ k) (h₂ : Adds c₂ l) :
    Adds (c₁ ++ c₂) (k + l) := by
  intro position n
  rw [Program.depth_append, h₁, ← Nat.add_assoc]
  exact h₂ _ _

namespace Scan

/-- An operator after a stretch that began with a scope: some of what the stretch left waiting is
put out, and the operator waits above what stays. -/
theorem exists_step_op {s : Scan α} (hprec : ∀ o, ∃ r, prec.rank? o = some r)
    (hfloor : s.floor = s.operators.length) (o : Operator) (c : List (Instr α))
    (p : List Operator) (n : Nat) :
    ∃ tight rest, p = tight ++ rest ∧ (s.after c p n).step prec (.op o) =
      .ok (s.after (c ++ released tight) (o :: rest) (n + 1)) := by
  obtain ⟨r, hr⟩ := hprec o
  obtain ⟨tight, rest, hrel⟩ : ∃ tight rest, release prec r 0 p = .ok (tight, rest) :=
    ⟨_, _, release_of_ranked fun o _ => hprec o⟩
  refine ⟨tight, rest, append_of_release hrel, step_op_eq_ok_iff.2 ⟨r, tight, rest ++ s.operators,
    hr, ?_, ?_⟩⟩
  · have habove : release prec r (0 + s.operators.length) (p ++ s.operators) = _ :=
      release_above r 0 p s.operators
    rw [hrel, Nat.zero_add, ← hfloor] at habove
    exact habove
  · rw [emit_after]
    rfl

end Scan

/-- How a scan reads a phrase: an operand puts out code that adds a number, in any scope; a formula
at the beginning of a scope may leave operators waiting, and adds a number more than those. -/
def Scanned (prec : Precedence) : Part → List (Token α) → Prop
  | .operand, ts => ∀ s : Scan α, s.floors ≠ [] →
      ∃ c n, s.steps prec ts = .ok (s.after c [] n) ∧ Adds c 1
  | .formula, ts => ∀ s : Scan α, s.floors ≠ [] → s.floor = s.operators.length →
      ∃ c p n, s.steps prec ts = .ok (s.after c p n) ∧ Adds c (p.length + 1)

/-- **Phrases are read.** When every operator has a rank, a scan reads every phrase. -/
theorem Phrase.scanned (hprec : ∀ o, ∃ r, prec.rank? o = some r) {part : Part}
    {ts : List (Token α)} (h : Phrase part ts) : Scanned prec part ts := by
  induction h with
  | number v => exact fun s _ => ⟨_, _, Scan.steps_number v, fun _ _ => rfl⟩
  | var => exact fun s _ => ⟨_, _, Scan.steps_var, fun _ _ => rfl⟩
  | @parens ts _ ih =>
    intro s hs
    obtain ⟨c, p, n, hsteps, hadds⟩ := ih s.enter (by simp [Scan.enter]) (by simp)
    refine ⟨c ++ Scan.released p, n + 2, Scan.steps_parens hs hsteps, ?_⟩
    exact Adds.released p [] (by simpa using hadds)
  | single _ ih =>
    intro s hs hfloor
    obtain ⟨c, n, hsteps, hadds⟩ := ih s hs
    exact ⟨c, [], n, hsteps, hadds⟩
  | @chain ts us o _ _ ih ih' =>
    intro s hs hfloor
    obtain ⟨c, p, n, hsteps, hadds⟩ := ih s hs hfloor
    obtain ⟨tight, rest, rfl, hstep⟩ := Scan.exists_step_op hprec hfloor o c p n
    obtain ⟨c', n', hsteps', hadds'⟩ :=
      ih' (s.after (c ++ Scan.released tight) (o :: rest) (n + 1)) hs
    refine ⟨c ++ Scan.released tight ++ c', o :: rest, n + 1 + n', ?_, ?_⟩
    · rw [Scan.steps_append_of_steps hsteps, Scan.steps_cons_of_step hstep, hsteps',
        Scan.after_after]
      rfl
    · exact (hadds.released tight rest).append hadds'

/-- A formula of the grammar has a program, and the program has a value everywhere. -/
theorem Phrase.exists_value [Operations α] (hprec : ∀ o, ∃ r, prec.rank? o = some r)
    {ts : List (Token α)} (h : Phrase .formula ts) (x : α) :
    ∃ p v, Program.ofTokens prec ts = .ok p ∧ p.evaluate x = .ok v := by
  obtain ⟨c, ops, n, hsteps, hadds⟩ := h.scanned hprec .start (by simp [Scan.start]) rfl
  have hfinish := Scan.finish_start_after c ops n
  have hdepth : Program.depth 0 (c ++ Scan.released ops) 0 = .ok 1 :=
    Adds.released ops [] (by simpa using hadds) 0 0
  have hverdict : (⟨c ++ Scan.released ops, 0⟩ : Program α).verdict = .ok () := by
    simp [Program.verdict, hdepth]
  obtain ⟨v, hv⟩ := (Program.evaluate_ok_iff _ x).2 hverdict
  exact ⟨_, v, Scan.ofTokens_eq_ok_iff.2 ⟨_, hsteps, rfl⟩, by rwa [hfinish]⟩

/-- In a phrase operands and operators alternate, up to what follows it. -/
theorem Phrase.alternates {part : Part} {ts : List (Token α)} (h : Phrase part ts)
    {us : List (Token α)} (hus : Token.Alternates true us) : Token.Alternates false (ts ++ us) := by
  induction h generalizing us with
  | number v | var => exact ⟨rfl, hus⟩
  | parens _ ih =>
    rw [List.append_assoc]
    have hclosing : Token.Alternates true ([.rparen] ++ us) := ⟨rfl, hus⟩
    exact ⟨rfl, ih hclosing⟩
  | single _ ih => exact ih hus
  | chain o _ _ ih ih' =>
    rw [List.append_assoc]
    have hchain : Token.Alternates true (.op o :: _ ++ _) := ⟨rfl, ih' hus⟩
    exact ih hchain

/-- Where operands and operators alternate, no operand directly follows another one. -/
theorem Token.Alternates.not_sideBySide {after : Bool} {ts : List (Token α)}
    (h : Alternates after ts) : ¬ SideBySide ts := by
  rintro ⟨before, a, b, rest, rfl, ha, hb⟩
  induction before generalizing after with
  | nil =>
    have hbegins : b.beginsOperand = !a.endsOperand := h.2.1
    rw [ha, hb] at hbegins
    cases hbegins
  | cons t before ih => exact ih h.2

/-- In a formula no operand directly follows another one. -/
theorem Phrase.not_sideBySide {ts : List (Token α)} (h : Phrase .formula ts) :
    ¬ Token.SideBySide ts := by
  have halt : Token.Alternates false (ts ++ []) := h.alternates rfl
  rw [List.append_nil] at halt
  exact halt.not_sideBySide

/-! ## Formula texts -/

/-- A text has a program when it can be read and its tokens have this program. -/
theorem Program.compile_eq_ok_iff [Numeral α] {text : String} {p : Program α} :
    compile text = .ok p ↔
      ∃ ts, Token.read text = .ok ts ∧ ofTokens .standard ts = .ok p := by
  rw [compile, compileWith]
  cases (Token.read text : Except CompileError (List (Token α))) <;> simp [bind, Except.bind]

/-- The customary precedence ranks all operators. -/
theorem Precedence.exists_rank_standard (o : Operator) : ∃ r, standard.rank? o = some r := by
  cases o <;> exact ⟨_, rfl⟩

/-- **Formulas with a value.** A formula that has a value closes all its parentheses, has one
operand more than operators, and is one of the grammar unless an operand directly follows another
one in it. All formulas of the grammar have values, and in none of them an operand directly follows
another one. -/
theorem phrase_of_value [Numeral α] [Operations α] (text : String) (x : α) :
    (∀ (p : Program α) (v : α), Program.compile text = .ok p → p.evaluate x = .ok v →
      ∃ ts : List (Token α), Token.read text = .ok ts ∧ Token.Closes 0 ts ∧
        (ts.map Token.net).sum = 1 ∧ (Phrase .formula ts ∨ Token.SideBySide ts)) ∧
    ∀ ts : List (Token α), Token.read text = .ok ts → Phrase .formula ts →
      ¬ Token.SideBySide ts ∧
        ∃ (p : Program α) (v : α), Program.compile text = .ok p ∧ p.evaluate x = .ok v := by
  constructor
  · intro p v hp hv
    obtain ⟨ts, hread, hcompile⟩ := Program.compile_eq_ok_iff.1 hp
    obtain ⟨hcloses, hnet⟩ := counts_of_value hcompile hv
    refine ⟨ts, hread, hcloses, hnet, ?_⟩
    by_cases hside : Token.SideBySide ts
    · exact .inr hside
    · have hfirst : false = true → ∀ u ∈ ts.head?, u.beginsOperand = false := nofun
      have halt : Token.Alternates false ts := (alternates_of_net hside hfirst).2 hnet
      have hphrase : Phrase .formula (enclosed [] [] ++ ts) :=
        phrase_of_alternates halt hcloses .nothing nofun
      exact .inl hphrase
  · intro ts hread hphrase
    obtain ⟨p, v, hp, hv⟩ := hphrase.exists_value Precedence.exists_rank_standard x
    exact ⟨hphrase.not_sideBySide, p, v, Program.compile_eq_ok_iff.2 ⟨ts, hread, hp⟩, hv⟩

/-- Of `( x + x ) * x`, which is in the grammar, and of `x x +`, which is not, both have a value:
in the second one an operand directly follows another one. -/
theorem phrase_of_value_sum :
    (∃ (p : Program Float) (v : Float),
      Program.compile "( x + x ) * x" = .ok p ∧ p.evaluate 0.5 = .ok v) ∧
      ∃ ts : List (Token Float), Token.read "x x +" = .ok ts ∧ Token.Closes 0 ts ∧
        (ts.map Token.net).sum = 1 ∧ (Phrase .formula ts ∨ Token.SideBySide ts) := by
  have hphrase : Phrase .formula
      [.lparen, .var, .op .plus, .var, .rparen, .op .times, (.var : Token Float)] :=
    .chain .times (.single (.parens (.chain .plus (.single .var) .var))) .var
  exact ⟨((phrase_of_value "( x + x ) * x" (0.5 : Float)).2 _ rfl hphrase).2,
    (phrase_of_value "x x +" (0.5 : Float)).1 ⟨[.load, .load, .apply .plus], 0⟩ _ rfl rfl⟩

/-- The words `x x +` have a value although the grammar does not derive them. -/
theorem value_of_side_by_side :
    Program.compile "x x +" = .ok (⟨[.load, .load, .apply .plus], 0⟩ : Program Float) ∧
      (⟨[.load, .load, .apply .plus], 0⟩ : Program Float).evaluate 1.0 = .ok (1.0 + 1.0) ∧
      Token.read "x x +" = .ok [.var, .var, (.op .plus : Token Float)] ∧
      ¬ Phrase .formula [.var, .var, (.op .plus : Token Float)] := by
  refine ⟨rfl, rfl, rfl, fun h => h.not_sideBySide ?_⟩
  exact ⟨[], .var, .var, [.op .plus], rfl, rfl, rfl⟩

end

end CurveArea
