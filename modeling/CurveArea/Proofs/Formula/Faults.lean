import CurveArea.Number.Binary64
import CurveArea.Proofs.Formula.Grammar
import Mathlib.Order.Bounds.Basic

/-!
# Formulas that have no program

A token is at fault when it is an operator without a rank, or a closing parenthesis with no more
opening than closing ones before it (`FaultAt`). A list of tokens has a program unless one of its
tokens is at fault, and otherwise fails in the way of the first one (`steps_start_eq_error_iff`).

That the scan finds just these faults rests on what it keeps (`Scan.Tally`): the scopes that it
holds are counted by the parentheses read, and every operator that waits has a rank, so that no
comparison with an operator that waits can fail.

For a text all words are tried before any token is read. `CompileOutcome` says what comes of that.
-/

namespace CurveArea

section
variable {α : Type} {prec : Precedence} {ts us : List (Token α)} {e e' : CompileError}

/-! ## Faults -/

namespace Token

/-- Whether a token is an opening parenthesis. -/
def isOpening : Token α → Bool
  | lparen => true
  | _ => false

/-- Whether a token is a closing parenthesis. -/
def isClosing : Token α → Bool
  | rparen => true
  | _ => false

end Token

/-- The token of an index is at fault. -/
inductive FaultAt (prec : Precedence) (ts : List (Token α)) (i : Nat) : CompileError → Prop
  /-- It is an operator without a rank. -/
  | unranked {o : Operator} (htoken : ts[i]? = some (.op o)) (hrank : prec.rank? o = none) :
      FaultAt prec ts i (.unranked o)
  /-- It is a closing parenthesis, and the tokens before it have no more opening than closing
  ones. -/
  | unopened (htoken : ts[i]? = some .rparen)
      (hcount : (ts.take i).countP Token.isOpening ≤ (ts.take i).countP Token.isClosing) :
      FaultAt prec ts i (.unopened i)

/-- The fault of the least index that has one. -/
def FirstFault (prec : Precedence) (ts : List (Token α)) (e : CompileError) : Prop :=
  ∃ i, IsLeast {j | ∃ e, FaultAt prec ts j e} i ∧ FaultAt prec ts i e

/-- A token that is at fault is one of the tokens. -/
theorem FaultAt.lt_length {i : Nat} (h : FaultAt prec ts i e) : i < ts.length := by
  cases h with
  | unranked htoken _ | unopened htoken _ => exact (List.getElem?_eq_some_iff.1 htoken).1

/-- A token has one fault at most. -/
theorem FaultAt.unique {i : Nat} (h : FaultAt prec ts i e) (h' : FaultAt prec ts i e') :
    e = e' := by
  cases h with
  | unranked htoken _ =>
    cases h' with
    | unranked htoken' _ =>
      rw [htoken] at htoken'
      cases htoken'
      rfl
    | unopened htoken' _ =>
      rw [htoken] at htoken'
      cases htoken'
  | unopened htoken _ =>
    cases h' with
    | unranked htoken' _ =>
      rw [htoken] at htoken'
      cases htoken'
    | unopened _ _ => rfl

/-- There is one first fault. -/
theorem FirstFault.unique (h : FirstFault prec ts e) (h' : FirstFault prec ts e') : e = e' := by
  obtain ⟨i, hleast, hfault⟩ := h
  obtain ⟨j, hleast', hfault'⟩ := h'
  rw [hleast.unique hleast'] at hfault
  exact hfault.unique hfault'

/-- A fault is a matter of the token and of those before it. -/
theorem FaultAt.congr {i : Nat} (hget : ts[i]? = us[i]?) (htake : ts.take i = us.take i)
    (h : FaultAt prec ts i e) : FaultAt prec us i e := by
  cases h with
  | unranked htoken hrank => exact .unranked (hget ▸ htoken) hrank
  | unopened htoken hcount => exact .unopened (hget ▸ htoken) (htake ▸ hcount)

/-- Tokens that follow change nothing about a fault. -/
theorem faultAt_append_iff {i : Nat} (hi : i < ts.length) :
    FaultAt prec (ts ++ us) i e ↔ FaultAt prec ts i e := by
  have hget : (ts ++ us)[i]? = ts[i]? := List.getElem?_append_left hi
  have htake : (ts ++ us).take i = ts.take i := List.take_append_of_le_length hi.le
  exact ⟨.congr hget htake, .congr hget.symm htake.symm⟩

/-- Tokens that follow do not change the first fault. -/
theorem FirstFault.append (h : FirstFault prec ts e) : FirstFault prec (ts ++ us) e := by
  obtain ⟨i, ⟨-, hleast⟩, hfault⟩ := h
  have hi := hfault.lt_length
  refine ⟨i, ⟨⟨e, (faultAt_append_iff hi).2 hfault⟩, ?_⟩, (faultAt_append_iff hi).2 hfault⟩
  rintro j ⟨e', hj⟩
  rcases Nat.lt_or_ge j i with hlt | hge
  · exact hleast ⟨e', (faultAt_append_iff (hlt.trans hi)).1 hj⟩
  · exact hge

/-! ## What a scan keeps -/

namespace Scan

variable {s s' : Scan α}

/-- What a scan that has read some tokens knows of them. -/
structure Tally (prec : Precedence) (s : Scan α) (ts : List (Token α)) : Prop where
  /-- It has counted them. -/
  position_eq : s.position = ts.length
  /-- The outermost scope is open, and those opened and not closed are. -/
  length_floors : s.floors.length + ts.countP Token.isClosing = ts.countP Token.isOpening + 1
  /-- The outermost scope is never closed. -/
  floors_ne : s.floors ≠ []
  /-- Every operator that waits has a rank. -/
  ranked : s.Ranked prec

/-- Before the first token there is nothing to know. -/
theorem tally_start : (start : Scan α).Tally prec [] := ⟨rfl, rfl, nofun, ranked_start⟩

/-- **One token more.** -/
theorem Tally.step {t : Token α} (h : s.Tally prec ts) (hstep : s.step prec t = .ok s') :
    s'.Tally prec (ts ++ [t]) := by
  have hlen := h.length_floors
  have hranked := h.ranked.step hstep
  cases t with
  | number v | var =>
    cases hstep
    refine ⟨by simp [h.position_eq], ?_, h.floors_ne, hranked⟩
    simpa [List.countP_append, Token.isOpening, Token.isClosing] using hlen
  | lparen =>
    cases hstep
    refine ⟨by simp [h.position_eq], ?_, by simp, hranked⟩
    simp [List.countP_append, Token.isOpening, Token.isClosing]
    omega
  | rparen =>
    obtain ⟨floor, outer, floors, hfl, rfl⟩ := step_rparen_eq_ok_iff.1 hstep
    refine ⟨by simp [h.position_eq], ?_, by simp, hranked⟩
    rw [hfl] at hlen
    simp [List.countP_append, Token.isOpening, Token.isClosing] at hlen ⊢
    omega
  | op o =>
    obtain ⟨r, tight, rest, -, -, rfl⟩ := step_op_eq_ok_iff.1 hstep
    refine ⟨by simp [h.position_eq], ?_, h.floors_ne, hranked⟩
    simpa [List.countP_append, Token.isOpening, Token.isClosing] using hlen

/-- Any number of tokens. -/
theorem Tally.of_steps (h : start.steps prec ts = .ok s) : s.Tally prec ts :=
  steps_induction (motive := fun ts s => s.Tally prec ts) h tally_start .step

/-! ## Where a scan fails -/

/-- A scan that can compare all that waits reads every operator that has a rank. -/
theorem Ranked.step_op {o : Operator} (h : s.Ranked prec) :
    s.step prec (.op o) = .error e ↔ prec.rank? o = none ∧ e = .unranked o := by
  rw [Scan.step, rank]
  cases hr : prec.rank? o with
  | none => simp [bind, Except.bind, eq_comm]
  | some r => simp [bind, Except.bind, pure, Except.pure, release_of_ranked h]

/-- **A token that is not read is at fault**, whatever follows it. -/
theorem Tally.step_eq_error_iff {t : Token α} (h : s.Tally prec ts) :
    s.step prec t = .error e ↔ FaultAt prec (ts ++ t :: us) ts.length e := by
  have hget : (ts ++ t :: us)[ts.length]? = some t := by simp
  have htake : (ts ++ t :: us).take ts.length = ts := by simp
  have hlen := h.length_floors
  constructor
  · intro hstep
    cases t with
    | number v | var | lparen => cases hstep
    | op o =>
      obtain ⟨hrank, rfl⟩ := h.ranked.step_op.1 hstep
      exact .unranked hget hrank
    | rparen =>
      match hfl : s.floors with
      | [] => exact absurd hfl h.floors_ne
      | [floor] =>
        -- Only the formula itself is open, so as many scopes have been closed as opened.
        simp only [Scan.step, hfl, Except.error.injEq] at hstep
        subst hstep
        rw [h.position_eq]
        refine .unopened hget ?_
        rw [htake]
        rw [hfl, List.length_singleton] at hlen
        omega
      | floor :: outer :: floors => simp [Scan.step, hfl] at hstep
  · intro hfault
    cases hfault with
    | unranked htoken hrank =>
      rw [hget] at htoken
      cases htoken
      exact h.ranked.step_op.2 ⟨hrank, rfl⟩
    | unopened htoken hcount =>
      rw [hget] at htoken
      cases htoken
      rw [htake] at hcount
      match hfl : s.floors with
      | [] => exact absurd hfl h.floors_ne
      | [floor] => simp [Scan.step, hfl, h.position_eq]
      | floor :: outer :: floors =>
        simp only [hfl, List.length_cons] at hlen
        omega

/-- A scan that fails has read the tokens before one that it does not read. -/
theorem steps_eq_error_iff :
    s.steps prec ts = .error e ↔ ∃ before t after s', ts = before ++ t :: after ∧
      s.steps prec before = .ok s' ∧ s'.step prec t = .error e := by
  constructor
  · intro h
    induction ts generalizing s with
    | nil => cases h
    | cons t ts ih =>
      cases hstep : s.step prec t with
      | error e' =>
        rw [steps_cons, hstep] at h
        cases h
        exact ⟨[], t, ts, s, rfl, rfl, hstep⟩
      | ok s₁ =>
        rw [steps_cons_of_step hstep] at h
        obtain ⟨before, u, after, s', rfl, hbefore, hu⟩ := ih h
        exact ⟨t :: before, u, after, s', rfl, steps_cons_eq_ok_iff.2 ⟨s₁, hstep, hbefore⟩, hu⟩
  · rintro ⟨before, t, after, s', rfl, hbefore, ht⟩
    rw [steps_append_of_steps hbefore, steps_cons, ht]
    rfl

/-- No token that is read is at fault. -/
theorem not_faultAt_of_steps (h : start.steps prec ts = .ok s) (i : Nat) :
    ¬ FaultAt prec ts i e := by
  intro hfault
  have hi := hfault.lt_length
  obtain ⟨before, t, after, rfl, rfl⟩ :
      ∃ before t after, ts = before ++ t :: after ∧ before.length = i :=
    ⟨ts.take i, ts[i], ts.drop (i + 1), by simp, List.length_take_of_le hi.le⟩
  obtain ⟨s₁, hbefore, hrest⟩ := steps_append_eq_ok_iff.1 h
  obtain ⟨s₂, hstep, -⟩ := steps_cons_eq_ok_iff.1 hrest
  rw [(Tally.of_steps hbefore).step_eq_error_iff.2 hfault] at hstep
  cases hstep

/-- **The first fault.** A scan from the start fails just when a token is at fault, and in the way
of the first one that is. -/
theorem steps_start_eq_error_iff : start.steps prec ts = .error e ↔ FirstFault prec ts e := by
  have hfirst : ∀ {e}, start.steps prec ts = .error e → FirstFault prec ts e := by
    intro e h
    obtain ⟨before, t, after, s, rfl, hbefore, ht⟩ := steps_eq_error_iff.1 h
    have hfault : FaultAt prec (before ++ t :: after) before.length e :=
      (Tally.of_steps hbefore).step_eq_error_iff.1 ht
    refine ⟨before.length, ⟨⟨e, hfault⟩, ?_⟩, hfault⟩
    rintro j ⟨e', hj⟩
    refine Nat.le_of_not_lt fun hlt => ?_
    exact not_faultAt_of_steps hbefore j ((faultAt_append_iff hlt).1 hj)
  constructor
  · exact hfirst
  · intro hfault
    cases hsteps : (start : Scan α).steps prec ts with
    | error e' => rw [(hfirst hsteps).unique hfault]
    | ok s =>
      obtain ⟨i, -, hi⟩ := hfault
      exact absurd hi (not_faultAt_of_steps hsteps i)

end Scan

/-- Tokens have no program when one of them is at fault, and the error is the first fault. -/
theorem Program.ofTokens_eq_error_iff : ofTokens prec ts = .error e ↔ FirstFault prec ts e := by
  rw [ofTokens, ← Scan.steps_start_eq_error_iff]
  cases (Scan.start : Scan α).steps prec ts <;> simp [Except.map]

/-- Without a fault there is a program, which counts the parentheses that are never closed. -/
theorem Program.exists_ofTokens (h : ∀ i e, ¬ FaultAt prec ts i e) :
    ∃ p, ofTokens prec ts = .ok p := by
  cases hp : ofTokens prec ts with
  | ok p => exact ⟨p, rfl⟩
  | error e =>
    obtain ⟨i, -, hi⟩ := ofTokens_eq_error_iff.1 hp
    exact absurd hi (h i e)

/-- The parentheses that are not closed are those opened less those closed. -/
theorem Program.unclosed_of_ofTokens {p : Program α} (h : ofTokens prec ts = .ok p) :
    p.unclosed + ts.countP Token.isClosing = ts.countP Token.isOpening := by
  obtain ⟨s, hsteps, rfl⟩ := Scan.ofTokens_eq_ok_iff.1 h
  have htally := Scan.Tally.of_steps hsteps
  have hpos := List.length_pos_iff.2 htally.floors_ne
  have hlen := htally.length_floors
  show s.floors.length - 1 + _ = _
  omega

end

/-! ## Words -/

/-- There is no word when none is begun and all characters are blank. -/
theorem Text.wordsFrom_eq_nil_iff {word cs : List Char} :
    wordsFrom word cs = [] ↔ word = [] ∧ ∀ c ∈ cs, isBlank c = true := by
  induction cs generalizing word with
  | nil => cases word <;> simp [wordsFrom]
  | cons c cs ih =>
    rw [wordsFrom, List.forall_mem_cons]
    by_cases hc : isBlank c = true
    · cases word <;> simp [hc, ih]
    · simp [hc, ih]

/-- A text without words is blank. -/
theorem Text.words_eq_nil_iff {text : String} :
    words text = [] ↔ ∀ c ∈ text.toList, isBlank c = true := by
  simp [words, wordsFrom_eq_nil_iff]

section
variable (α : Type) [Numeral α]

/-- A word that is neither reserved nor a number. -/
def UnknownWord (w : String) : Prop := w ∉ reserved ∧ (Numeral.read? w : Option α) = none

/-- The unknown word of the least index that has one. -/
def FirstUnknown (ws : List String) (i : Nat) (w : String) : Prop :=
  IsLeast {j | ∃ w, ws[j]? = some w ∧ UnknownWord α w} i ∧ ws[i]? = some w

end

section
variable {α : Type} [Numeral α] {prec : Precedence} {ws : List String} {ts : List (Token α)}
  {e : CompileError}

/-- There is one first unknown word. -/
theorem FirstUnknown.unique {i j : Nat} {w w' : String} (h : FirstUnknown α ws i w)
    (h' : FirstUnknown α ws j w') : i = j ∧ w = w' := by
  obtain rfl := h.1.unique h'.1
  exact ⟨rfl, Option.some.inj (h.2.symm.trans h'.2)⟩

/-- An unknown word is no token. -/
theorem Token.ofWord?_eq_none_iff {w : String} :
    (ofWord? w : Option (Token α)) = none ↔ UnknownWord α w := by
  by_cases hw : w ∈ reserved
  · have hsome : (ofWord? w : Option (Token α)) ≠ none := by
      simp only [reserved, Operator.all, List.map_cons, List.map_nil, List.mem_cons,
        List.not_mem_nil, or_false] at hw
      rcases hw with rfl | rfl | rfl | rfl | rfl | rfl | rfl | rfl <;> exact Option.some_ne_none _
    exact iff_of_false hsome fun h => h.1 hw
  · rw [ofWord?_of_not_reserved hw, Option.map_eq_none_iff]
    exact (and_iff_right hw).symm

/-- Words are read when all of them are tokens. -/
theorem Token.ofWords_eq_ok_iff {k : Nat} :
    ofWords k ws = .ok ts ↔ ws.map ofWord? = ts.map some := by
  refine ⟨fun h => ?_, fun h => ofWords_of_map h k⟩
  induction ws generalizing k ts with
  | nil =>
    cases h
    rfl
  | cons w ws ih =>
    rw [ofWords] at h
    split at h
    · cases h
    · next t hw =>
      cases hws : (ofWords (k + 1) ws : Except CompileError (List (Token α))) with
      | error e =>
        rw [hws] at h
        cases h
      | ok us =>
        rw [hws] at h
        cases h
        rw [List.map_cons, List.map_cons, hw, ih hws]

/-- Words that are not read have an unknown one among them. -/
theorem Token.exists_firstUnknown {k : Nat}
    (h : (ofWords k ws : Except CompileError (List (Token α))) = .error e) :
    ∃ i w, FirstUnknown α ws i w ∧ e = .unknownWord w (k + i) := by
  induction ws generalizing k with
  | nil => cases h
  | cons w ws ih =>
    rw [ofWords] at h
    split at h
    · next hw =>
      cases h
      have hunknown := ofWord?_eq_none_iff.1 hw
      exact ⟨0, w, ⟨⟨⟨w, rfl, hunknown⟩, fun j _ => Nat.zero_le j⟩, rfl⟩, rfl⟩
    · next t hw =>
      cases hws : (ofWords (k + 1) ws : Except CompileError (List (Token α))) with
      | ok us =>
        rw [hws] at h
        cases h
      | error e' =>
        rw [hws] at h
        cases h
        obtain ⟨i, v, ⟨⟨hmem, hleast⟩, hv⟩, rfl⟩ := ih hws
        refine ⟨i + 1, v, ⟨⟨hmem, ?_⟩, hv⟩, by rw [Nat.add_assoc, Nat.add_comm 1]⟩
        rintro (_ | j) ⟨u, hu, hunknown⟩
        · cases hu
          rw [ofWord?_eq_none_iff.2 hunknown] at hw
          cases hw
        · exact Nat.succ_le_succ (hleast ⟨u, hu, hunknown⟩)

/-- **The first unknown word** is reported. -/
theorem Token.ofWords_of_firstUnknown {i k : Nat} {w : String} (h : FirstUnknown α ws i w) :
    (ofWords k ws : Except CompileError (List (Token α))) = .error (.unknownWord w (k + i)) := by
  cases hws : (ofWords k ws : Except CompileError (List (Token α))) with
  | error e =>
    obtain ⟨j, v, hfirst, rfl⟩ := exists_firstUnknown hws
    obtain ⟨rfl, rfl⟩ := hfirst.unique h
    rfl
  | ok ts =>
    obtain ⟨v, hv, hunknown⟩ := h.1.1
    have hget := congrArg (·[i]?) (ofWords_eq_ok_iff.1 hws)
    simp only [List.getElem?_map, hv, Option.map_some, ofWord?_eq_none_iff.2 hunknown] at hget
    generalize ts[i]? = t at hget
    cases t <;> cases hget

/-- A text whose words are tokens, one at least, is read as these. -/
theorem Token.read_of_ne_nil {text : String} (hne : ts ≠ [])
    (h : (Text.words text).map ofWord? = ts.map some) : read text = .ok ts := by
  rw [read, ofWords_of_map h]
  cases ts with
  | nil => exact absurd rfl hne
  | cons => rfl

/-! ## Texts -/

/-- What comes of compiling a text: an error, or so many parentheses that are never closed. -/
inductive CompileOutcome (α : Type) [Numeral α] (prec : Precedence) (text : String) :
    Except CompileError Nat → Prop
  /-- The text is blank. -/
  | empty (h : ∀ c ∈ text.toList, Text.isBlank c = true) :
      CompileOutcome α prec text (.error .empty)
  /-- Some word is unknown; the first such word is reported. -/
  | unknownWord {i : Nat} {w : String} (h : FirstUnknown α (Text.words text) i w) :
      CompileOutcome α prec text (.error (.unknownWord w i))
  /-- All words are tokens, and some token is at fault; the first fault is reported. -/
  | fault {ts : List (Token α)} {e : CompileError}
      (hwords : (Text.words text).map Token.ofWord? = ts.map some) (h : FirstFault prec ts e) :
      CompileOutcome α prec text (.error e)
  /-- There are words, all of them are tokens, and no token is at fault. -/
  | sound {ts : List (Token α)} {n : Nat} (hne : ts ≠ [])
      (hwords : (Text.words text).map Token.ofWord? = ts.map some)
      (h : ∀ i e, ¬ FaultAt prec ts i e)
      (hcount : n + ts.countP Token.isClosing = ts.countP Token.isOpening) :
      CompileOutcome α prec text (.ok n)

/-- Something comes of every text. -/
theorem exists_compileOutcome (prec : Precedence) (text : String) :
    ∃ r, CompileOutcome α prec text r := by
  cases hws : (Token.ofWords 0 (Text.words text) : Except CompileError (List (Token α))) with
  | error e =>
    obtain ⟨i, w, hfirst, -⟩ := Token.exists_firstUnknown hws
    exact ⟨_, .unknownWord hfirst⟩
  | ok ts =>
    have hwords := Token.ofWords_eq_ok_iff.1 hws
    by_cases hne : ts = []
    · subst hne
      exact ⟨_, .empty (Text.words_eq_nil_iff.1 (List.map_eq_nil_iff.1 hwords))⟩
    · cases hp : Program.ofTokens prec ts with
      | error e => exact ⟨_, .fault hwords (Program.ofTokens_eq_error_iff.1 hp)⟩
      | ok p =>
        obtain ⟨s, hsteps, -⟩ := Scan.ofTokens_eq_ok_iff.1 hp
        exact ⟨_, .sound hne hwords (fun i _ => Scan.not_faultAt_of_steps hsteps i)
          (Program.unclosed_of_ofTokens hp)⟩

/-- A text is compiled by reading it and then compiling its tokens. -/
theorem Program.compileWith_of_read {text : String} (h : Token.read text = .ok ts) :
    compileWith prec text = ofTokens prec ts := by
  rw [compileWith, h]
  rfl

/-- What is said to come of compiling a text does. -/
theorem CompileOutcome.unclosed_compileWith {text : String} {r : Except CompileError Nat}
    (h : CompileOutcome α prec text r) :
    (Program.compileWith (α := α) prec text).map Program.unclosed = r := by
  cases h with
  | empty h =>
    rw [Program.compileWith, Token.read, Text.words_eq_nil_iff.2 h]
    rfl
  | unknownWord h =>
    rw [Program.compileWith, Token.read, Token.ofWords_of_firstUnknown h, Nat.zero_add]
    rfl
  | @fault ts e hwords h =>
    have hne : ts ≠ [] := by
      rintro rfl
      obtain ⟨i, -, hi⟩ := h
      exact absurd hi.lt_length i.not_lt_zero
    rw [Program.compileWith_of_read (Token.read_of_ne_nil hne hwords),
      Program.ofTokens_eq_error_iff.2 h]
    rfl
  | @sound ts n hne hwords h hcount =>
    obtain ⟨p, hp⟩ := Program.exists_ofTokens h
    have hunclosed := Program.unclosed_of_ofTokens hp
    rw [Program.compileWith_of_read (Token.read_of_ne_nil hne hwords), hp]
    exact congrArg Except.ok (by omega)

/-- **When and how compilation fails.** The outcomes are those of `CompileOutcome`: a blank text is
empty; of other texts the first unknown word is reported before anything else, then the first token
at fault; all other texts have a program, with as many unclosed parentheses as there are more
opening than closing ones. An operator that waits in a scan always has the rank that it is compared
by, and tokens that follow do not change a failure. -/
theorem compileWith_outcome_iff (prec : Precedence) (text : String) :
    (∀ r, (Program.compileWith (α := α) prec text).map Program.unclosed = r ↔
      CompileOutcome α prec text r) ∧
    (∀ (ts : List (Token α)) (s : Scan α), Scan.start.steps prec ts = .ok s →
      ∀ o ∈ s.operators, ∃ k, Scan.rank prec o = .ok k) ∧
    ∀ (ts us : List (Token α)) (e : CompileError), Program.ofTokens prec ts = .error e →
      Program.ofTokens prec (ts ++ us) = .error e := by
  refine ⟨fun r => ⟨?_, fun h => h.unclosed_compileWith⟩, ?_, ?_⟩
  · rintro rfl
    obtain ⟨r, h⟩ := exists_compileOutcome (α := α) prec text
    rwa [h.unclosed_compileWith]
  · intro ts s hsteps o ho
    obtain ⟨k, hk⟩ := (Scan.Tally.of_steps hsteps).ranked o ho
    exact ⟨k, by rw [Scan.rank, hk]⟩
  · intro ts us e h
    exact Program.ofTokens_eq_error_iff.2 (Program.ofTokens_eq_error_iff.1 h).append

/-- The customary precedence without quotients. -/
def Precedence.withoutQuotients : Precedence where
  rank?
    | .per => none
    | o => standard.rank? o

/-- Without quotients, `( x - x ) / x )` fails at the quotient, before the parenthesis that closes
nothing; while `- x` is being read the difference waits with its rank; and `x /` fails as it does
when `)` follows. -/
theorem compileWith_outcome_iff_quotient :
    let prec : Precedence := .withoutQuotients
    let ts : List (Token Float) := [.lparen, .var, .op .minus, .var]
    let s : Scan Float := ⟨#[.load, .load], [.minus], [0, 0], 4⟩
    (Program.compileWith (α := Float) prec "( x - x ) / x )").map Program.unclosed =
        .error (.unranked .per) ∧
      CompileOutcome Float prec "( x - x ) / x )" (.error (.unranked .per)) ∧
      Scan.start.steps prec ts = .ok s ∧ .minus ∈ s.operators ∧
      (∃ k, Scan.rank prec .minus = .ok k) ∧
      Program.ofTokens prec [(.var : Token Float), .op .per] = .error (.unranked .per) ∧
      Program.ofTokens prec [(.var : Token Float), .op .per, .rparen] =
        .error (.unranked .per) := by
  intro prec ts s
  obtain ⟨houtcome, hranked, happend⟩ :=
    compileWith_outcome_iff (α := Float) prec "( x - x ) / x )"
  have hfails : (Program.compileWith (α := Float) prec "( x - x ) / x )").map Program.unclosed =
      .error (.unranked .per) := by rfl
  have hsteps : Scan.start.steps prec ts = .ok s := by rfl
  have hshort : Program.ofTokens prec [(.var : Token Float), .op .per] =
      .error (.unranked .per) := by rfl
  have hwaits : .minus ∈ s.operators := List.mem_singleton.2 rfl
  exact ⟨hfails, (houtcome _).1 hfails, hsteps, hwaits, hranked ts s hsteps .minus hwaits, hshort,
    happend _ [.rparen] _ hshort⟩

end

end CurveArea
