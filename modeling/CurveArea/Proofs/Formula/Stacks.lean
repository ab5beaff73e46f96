import CurveArea.Number.Binary64
import CurveArea.Proofs.Formula.Faults

/-!
# The stack of a scan

The floors of a scan cut the operators that wait into scopes. An operator that comes in releases
those of its scope that bind at least as tightly, down to the first one that does not, so that in
each scope the ranks decrease strictly from the bottom of the stack to its top. Parentheses only add
a scope or take one away. `Tiered` says so of operators and floors; every token keeps it
(`Tiered.step`).

What follows from it for the floors and for the stretches of the stack between them, counted from
the bottom, is `Scan.Orderly`. In particular a closing parenthesis never cuts below the bottom, and
some floor is always left (`orderly_of_steps`).
-/

namespace CurveArea

/-- Both operators have a rank, and the first one binds tighter. -/
def Precedence.Tighter (prec : Precedence) (o o' : Operator) : Prop :=
  ∃ k k', prec.rank? o = some k ∧ prec.rank? o' = some k' ∧ k < k'

section
variable {prec : Precedence} {o o₁ o₂ o₃ : Operator}

/-- Binding tighter is transitive. -/
theorem Precedence.Tighter.trans (h : prec.Tighter o₁ o₂) (h' : prec.Tighter o₂ o₃) :
    prec.Tighter o₁ o₃ := by
  obtain ⟨k₁, k₂, hk₁, hk₂, hlt⟩ := h
  obtain ⟨k₂', k₃, hk₂', hk₃, hlt'⟩ := h'
  rw [hk₂, Option.some.injEq] at hk₂'
  exact ⟨k₁, k₃, hk₁, hk₃, by omega⟩

/-- An operator binds tighter than one that does not yield to it. -/
theorem Precedence.tighter_of_not_yields {r k : Nat} (hr : prec.rank? o₁ = some r)
    (hk : prec.rank? o₂ = some k) (h : ¬ prec.yields r o₂ = true) : prec.Tighter o₁ o₂ := by
  refine ⟨r, k, hr, hk, ?_⟩
  simpa [yields, hk] using h

/-! ## Scopes with their operators -/

/-- Operators that wait, the latest first, and the floors of the scopes that are open, the innermost
first. In each scope an operator binds tighter than those that have waited longer. -/
inductive Tiered (prec : Precedence) : (operators : List Operator) → (floors : List Nat) → Prop
  /-- Outside all parentheses. -/
  | outermost {operators : List Operator} (h : operators.Pairwise prec.Tighter) :
      Tiered prec operators [0]
  /-- Operators of a scope wait above those that its floor counts. -/
  | scope {inside below : List Operator} {floors : List Nat} (h : inside.Pairwise prec.Tighter) :
      Tiered prec below floors → Tiered prec (inside ++ below) (below.length :: floors)

/-- An operator that comes in binds tighter than what it leaves waiting in its scope. -/
theorem pairwise_cons_dropWhile {inside : List Operator} {r : Nat}
    (h : inside.Pairwise prec.Tighter) (hranked : ∀ o ∈ inside, ∃ k, prec.rank? o = some k)
    (hr : prec.rank? o = some r) :
    (o :: inside.dropWhile (prec.yields r)).Pairwise prec.Tighter := by
  induction inside with
  | nil => exact List.pairwise_singleton _ _
  | cons o' inside ih =>
    obtain ⟨hfirst, hrest⟩ := List.pairwise_cons.1 h
    obtain ⟨⟨k, hk⟩, hranked⟩ := List.forall_mem_cons.1 hranked
    by_cases hyields : prec.yields r o' = true
    · rw [List.dropWhile_cons_of_pos hyields]
      exact ih hrest hranked
    -- The new operator is compared with the first one that stays, and no other. Those below that
    -- one bind less tightly still.
    · rw [List.dropWhile_cons_of_neg hyields]
      have htighter := Precedence.tighter_of_not_yields hr hk hyields
      refine List.pairwise_cons.2 ⟨List.forall_mem_cons.2 ⟨htighter, fun o'' ho'' => ?_⟩, h⟩
      exact htighter.trans (hfirst o'' ho'')

/-- Entries that follow one another in a list are its last two, or both stand before the last. -/
theorem pair_infix_concat_iff {β : Type} {a b x y : β} {xs : List β} :
    [a, b] <:+: xs ++ [x, y] ↔ [a, b] <:+: xs ++ [x] ∨ a = x ∧ b = y := by
  have hsplit : xs ++ [x, y] = xs ++ [x] ++ [y] := by simp
  have hsuffix : [a, b] <:+ xs ++ [x] ++ [y] ↔ a = x ∧ b = y := by
    rw [← List.reverse_prefix]
    simp [List.cons_prefix_cons, and_comm]
  rw [hsplit, List.infix_concat_iff, hsuffix, or_comm]

namespace Tiered

variable {α : Type} {s s' : Scan α} {operators : List Operator} {floors : List Nat}

/-- The operators of the innermost scope, which could be any others in order. -/
theorem innermost (h : Tiered prec operators floors) :
    ∃ inside below, operators = inside ++ below ∧ floors.headD 0 = below.length ∧
      inside.Pairwise prec.Tighter ∧
      ∀ inside' : List Operator, inside'.Pairwise prec.Tighter →
        Tiered prec (inside' ++ below) floors := by
  cases h with
  | outermost h =>
    refine ⟨operators, [], by simp, rfl, h, fun inside' h' => ?_⟩
    rw [List.append_nil]
    exact .outermost h'
  | @scope inside below floors h hbelow =>
    exact ⟨inside, below, rfl, rfl, h, fun inside' h' => .scope h' hbelow⟩

/-- When the innermost scope is taken away, the floor tells how many operators are left. -/
theorem drop_innermost {floor outer : Nat} (h : Tiered prec operators (floor :: outer :: floors)) :
    floor ≤ operators.length ∧
      Tiered prec (operators.drop (operators.length - floor)) (outer :: floors) := by
  cases h with
  | scope _ hbelow =>
    rw [List.length_append, Nat.add_sub_cancel, List.drop_left]
    exact ⟨Nat.le_add_left _ _, hbelow⟩

/-- The outermost floor is the bottom of the stack. -/
theorem getLast?_floors (h : Tiered prec operators floors) : floors.getLast? = some 0 := by
  induction h with
  | outermost => rfl
  | @scope inside below floors h hbelow ih =>
    rw [List.getLast?_cons, ih]
    rfl

/-- No floor is above the stack. -/
theorem le_length (h : Tiered prec operators floors) :
    ∀ floor ∈ floors, floor ≤ operators.length := by
  induction h with
  | outermost => simp
  | @scope inside below floors h hbelow ih =>
    rw [List.length_append]
    exact List.forall_mem_cons.2
      ⟨Nat.le_add_left _ _, fun floor hfloor => Nat.le_add_left_of_le (ih floor hfloor)⟩

/-- No floor is above a later one. -/
theorem pairwise_floors (h : Tiered prec operators floors) : floors.Pairwise (· ≥ ·) := by
  induction h with
  | outermost => exact List.pairwise_singleton _ _
  | scope h hbelow ih => exact List.pairwise_cons.2 ⟨hbelow.le_length, ih⟩

/-- From a floor up to the next one, or to the top, operators bind ever tighter. The stretch up to
the top is the innermost scope, and the others are as they were below it. -/
theorem pairwise_between (h : Tiered prec operators floors) {low high : Nat}
    (hpair : [low, high] <:+: floors.reverse ++ [operators.length]) :
    ((operators.reverse.take high).drop low).Pairwise fun o o' => prec.Tighter o' o := by
  induction h with
  | @outermost operators h =>
    have hnone : ¬ [low, high] <:+: [0] := fun hinfix => by simpa using hinfix.length_le
    have hpair' : [low, high] <:+: [] ++ [0, operators.length] := hpair
    obtain ⟨rfl, rfl⟩ := (pair_infix_concat_iff.1 hpair').resolve_left hnone
    rw [List.drop_zero, ← List.length_reverse, List.take_length]
    exact List.pairwise_reverse.2 h
  | @scope inside below floors h hbelow ih =>
    rw [List.reverse_cons, List.append_assoc] at hpair
    rcases pair_infix_concat_iff.1 hpair with hinfix | ⟨rfl, rfl⟩
    -- A stretch below the new scope ends at its floor at the latest.
    · have hle : high ≤ below.reverse.length := by
        rw [List.length_reverse]
        have hmem : high ∈ floors.reverse ++ [below.length] := hinfix.subset (by simp)
        rcases List.mem_append.1 hmem with hfloor | hlast
        · exact hbelow.le_length high (List.mem_reverse.1 hfloor)
        · exact (List.mem_singleton.1 hlast).le
      rw [List.reverse_append, List.take_append_of_le_length hle]
      exact ih hinfix
    · have htop : ((inside ++ below).reverse.take (inside ++ below).length).drop below.length =
          inside.reverse := by
        rw [List.take_of_length_le List.length_reverse.le, List.reverse_append]
        exact List.drop_left' (by simp)
      rw [htop]
      exact List.pairwise_reverse.2 h

/-- **One token more.** -/
theorem step {t : Token α} (h : Tiered prec s.operators s.floors)
    (hranked : s.Ranked prec) (hstep : s.step prec t = .ok s') :
    Tiered prec s'.operators s'.floors := by
  cases t with
  | number v | var =>
    cases hstep
    exact h
  | lparen =>
    cases hstep
    exact .scope .nil h
  | rparen =>
    obtain ⟨floor, outer, floors, hfl, rfl⟩ := Scan.step_rparen_eq_ok_iff.1 hstep
    rw [hfl] at h
    exact h.drop_innermost.2
  | op o =>
    obtain ⟨r, tight, rest, hr, hrel, rfl⟩ := Scan.step_op_eq_ok_iff.1 hstep
    obtain ⟨inside, below, hops, hfloor, hinside, hothers⟩ := h.innermost
    -- Only operators of the innermost scope are released, whose ranks are known.
    have hrelease : Scan.release prec r s.floor s.operators =
        .ok (inside.takeWhile (prec.yields r), inside.dropWhile (prec.yields r) ++ below) := by
      rw [Scan.floor, hfloor, hops]
      exact Scan.release_inside (hops ▸ hranked)
    rw [hrelease] at hrel
    cases hrel
    have hranked' : ∀ o ∈ inside, ∃ k, prec.rank? o = some k := fun o ho =>
      hranked o (hops ▸ List.mem_append_left below ho)
    exact hothers _ (pairwise_cons_dropWhile hinside hranked' hr)

/-- A closing parenthesis puts out the operators above the last floor. -/
theorem step_rparen (h : Tiered prec s.operators s.floors)
    (hstep : s.step prec .rparen = .ok s') : ∃ released,
      s.floors = s'.operators.length :: s'.floors ∧ s.operators = released ++ s'.operators ∧
        s'.code = s.emit released ∧ s'.floors ≠ [] := by
  obtain ⟨floor, outer, floors, hfl, rfl⟩ := Scan.step_rparen_eq_ok_iff.1 hstep
  rw [hfl] at h
  obtain ⟨hle, -⟩ := h.drop_innermost
  refine ⟨s.operators.take (s.operators.length - floor), ?_, ?_, rfl, List.cons_ne_nil _ _⟩
  · rw [hfl, List.length_drop, Nat.sub_sub_self hle]
  · exact (List.take_append_drop _ _).symm

/-- Any number of tokens. -/
theorem of_steps {ts : List (Token α)} (h : Scan.start.steps prec ts = .ok s) :
    Tiered prec s.operators s.floors := by
  have hboth : s.Ranked prec ∧ Tiered prec s.operators s.floors :=
    Scan.steps_induction
      (motive := fun _ s => s.Ranked prec ∧ Tiered prec s.operators s.floors) h
      ⟨Scan.ranked_start, .outermost .nil⟩
      fun ⟨hranked, htiered⟩ hstep => ⟨hranked.step hstep, htiered.step hranked hstep⟩
  exact hboth.2

end Tiered

/-! ## The stack from its bottom -/

namespace Scan

variable {α : Type} {s s' : Scan α} {ts : List (Token α)}

/-- Where the scopes begin on the stack, counted from its bottom, the outermost one first; and where
the last one ends, which is the height of the stack. -/
def heights (s : Scan α) : List Nat := s.floors.reverse ++ [s.operators.length]

/-- The operators from one height of the stack to another, the lowest one first. -/
def between (s : Scan α) (low high : Nat) : List Operator :=
  (s.operators.reverse.take high).drop low

/-- What holds of the operators that wait and of the floors, the outermost one first, when some
tokens have been read. -/
structure Orderly (prec : Precedence) (s : Scan α) (ts : List (Token α)) : Prop where
  /-- The first floor is the bottom. -/
  head?_floors : s.floors.reverse.head? = some 0
  /-- No floor is below an earlier one. -/
  floors_le : s.floors.reverse.Pairwise (· ≤ ·)
  /-- Besides the first one there is a floor for each parenthesis that is still open. -/
  length_floors : s.floors.length + ts.countP Token.isClosing = 1 + ts.countP Token.isOpening
  /-- The last floor is not above the stack. -/
  getLast?_floors_le : ∀ floor ∈ s.floors.reverse.getLast?, floor ≤ s.operators.length
  /-- Every operator has a rank. -/
  ranked : ∀ o ∈ s.operators, ∃ k, prec.rank? o = some k
  /-- Between two floors that follow one another, and above the last one, the ranks decrease from
  the bottom to the top. -/
  decreasing : ∀ low high, [low, high] <:+: s.heights →
    (s.between low high).Pairwise fun o o' => prec.Tighter o' o

/-- Operators in tiers, with what a scan knows of its tokens, are in order scope by scope. -/
theorem Orderly.of_tiered (htally : s.Tally prec ts) (h : Tiered prec s.operators s.floors) :
    s.Orderly prec ts where
  head?_floors := by
    rw [List.head?_reverse]
    exact h.getLast?_floors
  floors_le := List.pairwise_reverse.2 h.pairwise_floors
  length_floors := by rw [htally.length_floors, Nat.add_comm]
  getLast?_floors_le := by
    intro floor hfloor
    rw [List.getLast?_reverse] at hfloor
    exact h.le_length floor (List.mem_of_mem_head? hfloor)
  ranked := htally.ranked
  decreasing := fun low high => h.pairwise_between

/-- **The stack of a scan.** Whatever tokens have been read, and whether one that follows fails or
not, the floors and the operators that wait are in order. So there is always a floor left, a program
counts as unclosed all scopes but one, and what a closing parenthesis puts out are the operators
above the last floor, which is not above the stack. -/
theorem orderly_of_steps (h : start.steps prec ts = .ok s) :
    s.Orderly prec ts ∧ s.floors ≠ [] ∧ s.finish.unclosed + 1 = s.floors.length ∧
      ∀ s', s.step prec .rparen = .ok s' → ∃ released, s.floors = s'.operators.length :: s'.floors ∧
        s.operators = released ++ s'.operators ∧ s'.code = s.emit released ∧ s'.floors ≠ [] := by
  have htally := Tally.of_steps h
  have htiered := Tiered.of_steps h
  have hpos := List.length_pos_iff.2 htally.floors_ne
  exact ⟨.of_tiered htally htiered, htally.floors_ne, Nat.sub_add_cancel hpos,
    fun s' hstep => htiered.step_rparen hstep⟩

/-- When `1 - x * ( 2 + 3 ^ ( 4` has been read, the scopes begin at the heights 0, 2 and 4, and
nothing waits in the last one. -/
theorem orderly_of_steps_nested :
    let ts : List (Token Float) :=
      [.number 1.0, .op .minus, .var, .op .times, .lparen, .number 2.0, .op .plus, .number 3.0,
        .op .power, .lparen, .number 4.0]
    let s : Scan Float :=
      ⟨#[.push 1.0, .load, .push 2.0, .push 3.0, .push 4.0], [.power, .plus, .times, .minus],
        [4, 2, 0], 11⟩
    Scan.start.steps .standard ts = .ok s ∧
    s.Orderly .standard ts ∧ s.floors ≠ [] ∧ s.finish.unclosed + 1 = s.floors.length ∧
      ∀ s', s.step .standard .rparen = .ok s' → ∃ released,
        s.floors = s'.operators.length :: s'.floors ∧
        s.operators = released ++ s'.operators ∧ s'.code = s.emit released ∧ s'.floors ≠ [] := by
  intro ts s
  have hsteps : Scan.start.steps .standard ts = .ok s := by rfl
  exact ⟨hsteps, orderly_of_steps hsteps⟩

end Scan

end

end CurveArea
