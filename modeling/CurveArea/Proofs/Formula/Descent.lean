import CurveArea.Number.Binary64
import CurveArea.Proofs.Formula.Grammar

/-!
# Evaluation by recursive descent

An evaluator of formulas that builds no program: it goes down the levels of the grammar, from a
phrase to its operands, and applies the operators of a level from left to right as it meets them.
On a derived formula it comes to the value of the derived tree (`Descent.value_of_derives`), and so
does the program of the formula (`evaluate_compile_eq_descent`), whatever the five operations are.
-/

namespace CurveArea

namespace Descent

/-! ## Where a phrase ends -/

/-- Whether no operator of a level below `n` comes next. -/
def Stops (n : Nat) (rest : List String) : Prop :=
  ∀ w ws, rest = w :: ws → ∀ m < n, ∀ o ∈ levelOperators m, o.symbol ≠ w

/-- Where no operator of some levels comes next, none of fewer levels does. -/
theorem Stops.mono {n m : Nat} {rest : List String} (h : Stops n rest) (hm : m ≤ n) :
    Stops m rest :=
  fun w ws hw k hk => h w ws hw k (Nat.lt_of_lt_of_le hk hm)

/-- No operator comes next at the end. -/
theorem stops_nil (n : Nat) : Stops n [] := nofun

/-- A closing parenthesis ends a phrase of any level. -/
theorem stops_rparen (n : Nat) (rest : List String) : Stops n (")" :: rest) := by
  rintro _ _ ⟨⟩ m - o -
  cases o <;> decide

/-- An operator ends the phrases below its level. -/
theorem stops_symbol {n : Nat} {o : Operator} (ho : o ∈ levelOperators n) (rest : List String) :
    Stops n (o.symbol :: rest) := by
  rintro _ _ ⟨⟩ m hm o' ho' h
  have h₁ := mem_levelOperators ho
  have h₂ := mem_levelOperators ho'
  rw [Operator.symbol_injective h, h₁] at h₂
  cases h₂
  omega

/-- An operator of a level is found by its symbol among those of the level. -/
theorem find?_symbol {n : Nat} {o : Operator} (ho : o ∈ levelOperators n) :
    (levelOperators n).find? (·.symbol = o.symbol) = some o := by
  cases hf : (levelOperators n).find? (·.symbol = o.symbol) with
  | none =>
    have := List.find?_eq_none.1 hf o ho
    simp at this
  | some o' =>
    have := List.find?_some hf
    rw [Operator.symbol_injective (of_decide_eq_true this)]

/-! ## The evaluator -/

/-- Reads a phrase off the front of the words: its value and the words after it. -/
abbrev Reader (α : Type) := List String → Option (α × List String)

section
variable {α : Type} [Operations α]

/-- Applies operators to a value and the operands that follow, from left to right, for as long as
one of the given operators comes next; `count` bounds how many there are. -/
def fold (ops : List Operator) (operand : Reader α) : (count : Nat) → α → Reader α
  | count + 1, v, w :: ws =>
    match ops.find? (·.symbol = w) with
    | some o =>
      match operand ws with
      | some (d, rest) => fold ops operand count (o.apply v d) rest
      | none => none
    | none => some (v, w :: ws)
  | _, v, ws => some (v, ws)

/-- No operator is applied when none of the level comes next. -/
theorem fold_of_stops {n : Nat} {rest : List String} (h : Stops (n + 1) rest) (operand : Reader α)
    (count : Nat) (v : α) : fold (levelOperators n) operand count v rest = some (v, rest) := by
  match count, rest with
  | 0, rest => simp [fold]
  | count + 1, [] => rfl
  | count + 1, w :: ws =>
    have hn : (levelOperators n).find? (·.symbol = w) = none :=
      List.find?_eq_none.2 fun o ho => by simpa using h w ws rfl n (Nat.lt_succ_self n) o ho
    rw [fold, hn]

variable [Numeral α]

/-- An atom; `inner` reads what stands in parentheses. -/
def atom (x : α) (inner : Reader α) : Reader α
  | [] => none
  | w :: ws =>
    if w = "(" then
      match inner ws with
      | some (v, w' :: rest) => if w' = ")" then some (v, rest) else none
      | _ => none
    else if w = "x" then some (x, ws)
    else (Numeral.read? w).map (·, ws)

/-- A phrase of a level. -/
def phrase (x : α) (inner : Reader α) : (level : Nat) → Reader α
  | 0 => atom x inner
  | n + 1 => fun ws =>
    match phrase x inner n ws with
    | some (v, rest) => fold (levelOperators n) (phrase x inner n) rest.length v rest
    | none => none

/-- A formula in which parentheses are nested less than `nesting` deep. -/
def formula (x : α) : (nesting : Nat) → Reader α
  | 0 => fun _ => none
  | nesting + 1 => phrase x (formula x nesting) 3

/-- The value of a formula, given by its words. -/
def value (x : α) (ws : List String) : Option α :=
  match formula x (ws.length + 1) ws with
  | some (v, []) => some v
  | _ => none

/-! ## Reading what is derived -/

/-- What reading comes to behind a phrase of level `n` that is worth `v`: an atom is done, and a
phrase of a higher level goes on with the operators of its level. -/
def Resumes (x : α) (inner : Reader α) (v : α) (rest : List String) (r : Option (α × List String)) :
    (n : Nat) → Prop
  | 0 => r = some (v, rest)
  | n + 1 => ∃ count ≥ rest.length,
      r = fold (levelOperators n) (phrase x inner n) count v rest

/-- What is read is the phrase alone when no operator that goes on with it comes next. -/
theorem Resumes.eq_some {x v : α} {inner : Reader α} {rest : List String}
    {r : Option (α × List String)} {n : Nat} (h : Resumes x inner v rest r n) (hs : Stops n rest) :
    r = some (v, rest) := by
  match n with
  | 0 => exact h
  | n + 1 =>
    obtain ⟨count, -, rfl⟩ := h
    exact fold_of_stops hs ..

/-- **A derived phrase is read to the end,** and no further than the operators of its level. The
induction is on the derivation, with the depth of nesting free. -/
theorem phrase_of_derives (x : α) {n : Nat} {ws : List String} {t : Tree α} (h : Derives n ws t) :
    ∀ nesting, ws.length ≤ nesting → ∀ rest, Stops (n - 1) rest →
      Resumes x (formula x nesting) (t.value x) rest
        (phrase x (formula x nesting) n (ws ++ rest)) n := by
  induction h with
  | @number w v hw hv =>
    intro nesting _ rest _
    simp only [reserved, List.mem_cons, not_or] at hw
    simp [Resumes, phrase, atom, hw.1, hw.2.2.1, hv, Tree.value]
  | var =>
    intro nesting _ rest _
    rfl
  | @parens ws t _ ih =>
    intro nesting hlen rest _
    -- What is between the parentheses is shorter, so one level of nesting less is enough.
    obtain ⟨nesting, rfl⟩ : ∃ m, nesting = m + 1 :=
      ⟨nesting - 1, by simp only [List.length_append, List.length_cons] at hlen; omega⟩
    have hin := (ih nesting
      (by simp only [List.length_append, List.length_cons] at hlen; omega)
      _ (stops_rparen 2 rest)).eq_some (stops_rparen 3 rest)
    have hws : ws ++ [")"] ++ rest = ws ++ ")" :: rest := by simp
    show atom x (formula x (nesting + 1)) ("(" :: (ws ++ [")"] ++ rest)) = _
    simp [atom, formula, hws, hin]
  | @single n ws t _ ih =>
    intro nesting hlen rest hs
    have hread := (ih nesting hlen rest (hs.mono (Nat.sub_le n 1))).eq_some hs
    exact ⟨rest.length, Nat.le_refl _, by simp only [phrase, hread]⟩
  | @chain n ws ws' t t' o _ ho _ ih ih' =>
    intro nesting hlen rest hs
    -- The left phrase stops before the operator, and the fold goes on from its value.
    simp only [List.length_append, List.length_cons] at hlen
    obtain ⟨count, hcount, hread⟩ := ih nesting (by omega) _ (stops_symbol ho (ws' ++ rest))
    have hread' := (ih' nesting (by omega) rest (hs.mono (Nat.sub_le n 1))).eq_some hs
    simp only [List.length_cons, List.length_append] at hcount
    obtain ⟨count, rfl⟩ : ∃ m, count = m + 1 := ⟨count - 1, by omega⟩
    refine ⟨count, by omega, ?_⟩
    rw [List.append_assoc, List.cons_append, hread, fold, find?_symbol ho]
    simp only [hread']
    rfl

/-- The value of a derived formula is that of its tree. -/
theorem value_of_derives (x : α) {ws : List String} {t : Tree α} (h : Derives 3 ws t) :
    value x ws = some (t.value x) := by
  have hread := (phrase_of_derives x h _ (Nat.le_refl _) _ (stops_nil 2)).eq_some (stops_nil 3)
  rw [List.append_nil] at hread
  simp only [value, formula, hread]

end

end Descent

/-- **Programs agree with recursive descent.** A formula that the grammar derives compiles with all
parentheses closed, and its program has the value that the descent computes and that the derived
tree has, under every interpretation of the operations. -/
theorem evaluate_compile_eq_descent {α : Type} [Numeral α] {text : String} {t : Tree α}
    (h : Derives 3 (Text.words text) t) :
    ∃ p : Program α, Program.compile text = .ok p ∧ p.unclosed = 0 ∧
      ∀ (_ : Operations α) (x : α), p.evaluate x = .ok (t.value x) ∧
        Descent.value x (Text.words text) = some (t.value x) :=
  ⟨_, compile_of_derives h, rfl, fun _ x =>
    ⟨Program.evaluate_code x t, Descent.value_of_derives x h⟩⟩

/-- The formula `2 ^ 3 ^ x - ( x - -1 )`, in binary64: powers and differences fold from the left,
and `-1` is a number. -/
theorem evaluate_compile_eq_descent_powers :
    let text := "2 ^ 3 ^ x - ( x - -1 )"
    let t : Tree Float :=
      .node .minus (.node .power (.node .power (.number 2.0) (.number 3.0)) .var)
        (.node .minus .var (.number (-1.0)))
    Derives 3 (Text.words text) t ∧
      ∃ p : Program Float, Program.compile text = .ok p ∧ p.unclosed = 0 ∧
        ∀ (_ : Operations Float) (x : Float), p.evaluate x = .ok (t.value x) ∧
          Descent.value x (Text.words text) = some (t.value x) := by
  intro text t
  have h₂ : Derives 0 ["2"] (.number 2.0 : Tree Float) := .number (by decide) (by decide +kernel)
  have h₃ : Derives 0 ["3"] (.number 3.0 : Tree Float) := .number (by decide) (by decide +kernel)
  have h₁ : Derives 0 ["-1"] (.number (-1.0) : Tree Float) :=
    .number (by decide) (by decide +kernel)
  have hpow : Derives 2 ["2", "^", "3", "^", "x"]
      (.node .power (.node .power (.number 2.0) (.number 3.0)) .var : Tree Float) :=
    .single (.chain (o := .power) (.chain (o := .power) (.single h₂) (by decide) h₃)
      (by decide) .var)
  have hinner : Derives 3 ["x", "-", "-1"] (.node .minus .var (.number (-1.0)) : Tree Float) :=
    .chain (o := .minus) (.single (.single (.single .var))) (by decide) (.single (.single h₁))
  have h : Derives 3 (Text.words text) t := by
    have hws : Text.words text =
        ["2", "^", "3", "^", "x"] ++ "-" :: ("(" :: ["x", "-", "-1"] ++ [")"]) := by
      decide
    rw [hws]
    exact .chain (o := .minus) (.single hpow) (by decide) (.single (.single (.parens hinner)))
  exact ⟨h, evaluate_compile_eq_descent h⟩

end CurveArea
