import CurveArea.Proofs.Formula.Run

/-!
# The grammar of formulas

Formulas are derived on four levels. Level `0` has the atoms: numbers, the variable and formulas in
parentheses. A phrase of level `n + 1` is one of level `n`, followed by any number of operators of
level `n`, each with a phrase of level `n`; level `3` is that of whole formulas. `Derives` builds
the tree along with the words, every level associating to the left.

The words of a derived phrase are tokens that print its tree under the customary precedence
(`printed_of_derives`), so the program of a derived formula is its tree in postorder
(`compile_of_derives`).
-/

namespace CurveArea

/-- The operators that join phrases of a level. -/
def levelOperators : Nat → List Operator
  | 0 => [.power]
  | 1 => [.times, .per]
  | 2 => [.plus, .minus]
  | _ => []

/-- The words that are no numbers, whatever numbers look like. -/
def reserved : List String := "(" :: ")" :: "x" :: Operator.all.map Operator.symbol

/-! ## Operators and their levels -/

/-- Different operators have different symbols. -/
theorem Operator.symbol_injective {o o' : Operator} (h : o.symbol = o'.symbol) : o = o' := by
  have := congrArg Operator.ofSymbol? h
  rw [Operator.ofSymbol?_symbol, Operator.ofSymbol?_symbol] at this
  exact Option.some.inj this

/-- The levels are the customary ranks. -/
theorem mem_levelOperators {n : Nat} {o : Operator} (h : o ∈ levelOperators n) :
    Precedence.standard.rank? o = some (n + 1) := by
  match n with
  | 0 | 1 | 2 => cases o <;> simp_all [levelOperators, Precedence.standard]
  | n + 3 => cases h

/-- The customary precedence ranks the operators of every tree. -/
theorem ranked_standard {α : Type} (t : Tree α) : t.Ranked .standard := by
  induction t with
  | number v => trivial
  | var => trivial
  | node o l r ihl ihr => exact ⟨by cases o <;> rfl, ihl, ihr⟩

/-! ## Derivations -/

section
variable {α : Type} [Numeral α]

/-- The words of a phrase of a level, with the tree that they derive. -/
inductive Derives : Nat → List String → Tree α → Prop
  | number {w : String} {v : α} :
      w ∉ reserved → Numeral.read? w = some v → Derives 0 [w] (.number v)
  | var : Derives 0 ["x"] .var
  | parens {ws : List String} {t : Tree α} : Derives 3 ws t → Derives 0 ("(" :: ws ++ [")"]) t
  | single {n : Nat} {ws : List String} {t : Tree α} : Derives n ws t → Derives (n + 1) ws t
  | chain {n : Nat} {ws ws' : List String} {t t' : Tree α} {o : Operator} :
      Derives (n + 1) ws t → o ∈ levelOperators n → Derives n ws' t' →
      Derives (n + 1) (ws ++ o.symbol :: ws') (.node o t t')

/-! ## From words to tokens -/

/-- Words are read one by one. -/
theorem ofWords_of_map {ws : List String} {ts : List (Token α)}
    (h : ws.map Token.ofWord? = ts.map some) (k : Nat) : Token.ofWords k ws = .ok ts := by
  induction ws generalizing ts k with
  | nil =>
    cases ts with
    | nil => rfl
    | cons t ts => cases h
  | cons w ws ih =>
    cases ts with
    | nil => cases h
    | cons t ts =>
      obtain ⟨hw, hws⟩ := List.cons.inj h
      rw [Token.ofWords, hw, ih hws]
      rfl

/-- The symbol of an operator is a token. -/
theorem ofWord?_symbol (o : Operator) :
    (Token.ofWord? o.symbol : Option (Token α)) = some (.op o) := by
  cases o <;> rfl

/-- A word that is not reserved is a number, or no token. -/
theorem ofWord?_of_not_reserved {w : String} (hw : w ∉ reserved) :
    (Token.ofWord? w : Option (Token α)) = (Numeral.read? w).map .number := by
  simp only [reserved, List.mem_cons, not_or] at hw
  obtain ⟨hl, hr, hx, hops⟩ := hw
  have hop : Operator.ofSymbol? w = none := by
    unfold Operator.ofSymbol?
    split
    case h_6 => rfl
    all_goals exact absurd (by decide) hops
  rw [Token.ofWord?, if_neg hl, if_neg hr, if_neg hx, hop]

/-- A word that is not reserved is a token when it is a number. -/
theorem ofWord?_number {w : String} {v : α} (hw : w ∉ reserved) (hv : Numeral.read? w = some v) :
    Token.ofWord? w = some (.number v) := by
  rw [ofWord?_of_not_reserved hw, hv]
  rfl

/-- A derived phrase prints its tree under the customary precedence. Unless it is in parentheses as
a whole, its root has at most the rank of its level. -/
theorem printed_of_derives {n : Nat} {ws : List String} {t : Tree α} (h : Derives n ws t) :
    ∃ ts b, ws.map Token.ofWord? = ts.map some ∧ Printed .standard b t ts ∧
      (b = false → ∀ k, t.rank? .standard = some k → k ≤ n) := by
  induction h with
  | number hw hv => exact ⟨[.number _], false, by simp [ofWord?_number hw hv], .number _, nofun⟩
  | var => exact ⟨[.var], false, rfl, .var, nofun⟩
  | @parens ws t _ ih =>
    obtain ⟨ts, b, hts, hp, -⟩ := ih
    refine ⟨.lparen :: ts ++ [.rparen], true, ?_, .parens hp, nofun⟩
    rw [List.map_append, List.map_append, List.map_cons, List.map_cons, hts]
    rfl
  | single _ ih =>
    obtain ⟨ts, b, hts, hp, hk⟩ := ih
    exact ⟨ts, b, hts, hp, fun hb k ht => Nat.le_succ_of_le (hk hb k ht)⟩
  | @chain n ws ws' t t' o _ ho _ ih ih' =>
    obtain ⟨ts, a, hts, hp, hk⟩ := ih
    obtain ⟨ts', b, hts', hp', hk'⟩ := ih'
    have hr := mem_levelOperators ho
    refine ⟨ts ++ .op o :: ts', false, by simp [hts, hts', ofWord?_symbol], ?_, ?_⟩
    · refine .node hp hp' ?_ ?_
      · rintro ⟨k, kt, hko, hkt, hlt⟩
        rw [hr] at hko
        cases hko
        exact eq_true_of_ne_false fun ha => Nat.not_le_of_lt hlt (hk ha kt hkt)
      · rintro ⟨k, kt, hko, hkt, hle⟩
        rw [hr] at hko
        cases hko
        exact eq_true_of_ne_false fun hb => Nat.not_le_of_lt hle (hk' hb kt hkt)
    · rintro - k hko
      rw [Tree.rank?, hr] at hko
      cases hko
      exact Nat.le_refl _

/-- The program of a derived formula is its tree in postorder. -/
theorem compile_of_derives {text : String} {t : Tree α} (h : Derives 3 (Text.words text) t) :
    Program.compile text = .ok ⟨t.code, 0⟩ := by
  obtain ⟨ts, b, hts, hp, -⟩ := printed_of_derives h
  have hread : Token.read text = .ok ts := by
    rw [Token.read, ofWords_of_map hts]
    cases ts with
    | nil => exact absurd rfl hp.ne_nil
    | cons => rfl
  rw [Program.compile, Program.compileWith, hread]
  exact ofTokens_of_printed hp (ranked_standard t)

end

end CurveArea
