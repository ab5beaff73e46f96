import CurveArea.Proofs.Decimal.Shortest

/-!
# Labels of axes

A label is a number in scientific notation: a sign if it is negative, one digit before the point and
two after it, and an exponent with a sign and two digits or more (`Label`). The label of a quotient
shows its three leading figures. They differ from it by half a unit of the last one at most, also
where rounding moves the leading place (`threeFigures_spec`), and so does the label
(`Ratio.exists_label`).

The exponent is first written as an integer (`Ratio.twoDecimals`) and then given its sign and its
second digit (`padExponent`). Both texts are read as the same literal (`ofChars?_padExponent`).
-/

namespace CurveArea.Decimal

open Literal (valueFrom)

/-! ## Three figures -/

namespace Ratio

variable {r : Ratio}

/-- What the three leading figures of a quotient are. -/
structure ThreeFigures (r : Ratio) (f : Figures) : Prop where
  /-- There are no more than three. -/
  lt : f.coefficient < 1000
  /-- There are three, unless the quotient is zero. -/
  le : r.num ≠ 0 → 100 ≤ f.coefficient
  /-- Those of zero are zeros, the first one before the point. -/
  zero : r.num = 0 → f = ⟨0, -2⟩
  /-- They are the nearest ones. -/
  near : |f.worth - r.worth| ≤ 10 ^ f.place / 2

/-- In units of the second place after the leading one, a positive quotient is rounded to three
figures, or to a thousand. -/
theorem round_bounds (hnum : 0 < r.num) (hden : 0 < r.den) :
    100 ≤ (r.inUnits (r.leadingPlace - 2)).round ∧
      (r.inUnits (r.leadingPlace - 2)).round ≤ 1000 := by
  have hpow : (0 : ℚ) < 10 ^ (r.leadingPlace - 2) := by positivity
  have hlow : (100 : ℚ) ≤ (r.inUnits (r.leadingPlace - 2)).worth := by
    have hlead : (10 : ℚ) ^ r.leadingPlace = 100 * 10 ^ (r.leadingPlace - 2) := by
      rw [zpow_sub₀ (by norm_num)]
      norm_num
      ring
    rw [worth_inUnits, le_div_iff₀ hpow, ← hlead]
    exact pow_leadingPlace_le hnum hden
  have hhigh : (r.inUnits (r.leadingPlace - 2)).worth < 1000 := by
    have hnext : (10 : ℚ) ^ (r.leadingPlace + 1) = 1000 * 10 ^ (r.leadingPlace - 2) := by
      rw [zpow_sub₀ (by norm_num), zpow_add_one₀ (by norm_num)]
      norm_num
      ring
    rw [worth_inUnits, div_lt_iff₀ hpow, ← hnext]
    exact lt_pow_leadingPlace_add_one hnum hden
  obtain ⟨hbelow, habove⟩ := abs_le.1 (abs_round_sub_le (den_inUnits_pos hden (r.leadingPlace - 2)))
  generalize (r.inUnits (r.leadingPlace - 2)).round = n at hbelow habove ⊢
  have hlt : (99 : ℚ) < n := by linarith
  have hlt' : (n : ℚ) < 1001 := by linarith
  exact ⟨by exact_mod_cast hlt, Nat.lt_succ_iff.1 (by exact_mod_cast hlt')⟩

/-- **Three figures.** A thousand units are a hundred of the next place, which are further apart. -/
theorem threeFigures_spec (hden : 0 < r.den) : r.ThreeFigures r.threeFigures := by
  unfold threeFigures
  split
  case isTrue hnum =>
    refine ⟨by decide, absurd hnum, fun _ => rfl, ?_⟩
    simp [Figures.worth, worth, hnum]
    positivity
  case isFalse hnum =>
    obtain ⟨hlow, hhigh⟩ := round_bounds (Nat.pos_of_ne_zero hnum) hden
    have hnear := abs_round_mul_sub_le hden (r.leadingPlace - 2)
    dsimp only
    split
    case isTrue hthousand =>
      have hpow : (0 : ℚ) < 10 ^ (r.leadingPlace - 2) := by positivity
      have hnext : (10 : ℚ) ^ (r.leadingPlace - 1) = 10 * 10 ^ (r.leadingPlace - 2) := by
        rw [← zpow_one_add₀ (by norm_num)]
        congr 1
        ring
      have hworth : Figures.worth ⟨100, r.leadingPlace - 1⟩ =
          (r.inUnits (r.leadingPlace - 2)).round * 10 ^ (r.leadingPlace - 2) := by
        rw [Figures.worth, hthousand, hnext]
        push_cast
        ring
      refine ⟨by norm_num, fun _ => le_rfl, fun h => absurd h hnum, ?_⟩
      rw [hworth, hnext]
      linarith
    case isFalse hne =>
      exact ⟨lt_of_le_of_ne hhigh hne, fun _ => hlow, fun h => absurd h hnum, hnear⟩

end Ratio

/-! ## Labels -/

/-- A number in scientific notation with two decimals. -/
structure Label where
  /-- Whether a minus sign stands before it. -/
  negative : Bool
  /-- The digit before the point. -/
  units : Char
  /-- The first digit after the point. -/
  tenths : Char
  /-- The second one. -/
  hundredths : Char
  /-- Whether the sign of the exponent is a minus sign, and not a plus sign. -/
  exponentNegative : Bool
  /-- The digits of the exponent. -/
  exponentDigits : List Char
  /-- All digits are digits. -/
  isDigit : ∀ d ∈ units :: tenths :: hundredths :: exponentDigits, d.isDigit = true
  /-- The exponent has two of them or more. -/
  two_le_length : 2 ≤ exponentDigits.length
  /-- If it has more than two, then the first one is no zero. -/
  head?_ne : 2 < exponentDigits.length → exponentDigits.head? ≠ some '0'

namespace Label

/-- How a label is written. -/
def toList (l : Label) : List Char :=
  (if l.negative then ['-'] else []) ++
    [l.units, '.', l.tenths, l.hundredths, 'e', if l.exponentNegative then '-' else '+'] ++
      l.exponentDigits

/-- The exponent. -/
def exponent (l : Label) : ℤ :=
  if l.exponentNegative then -valueFrom 0 l.exponentDigits else valueFrom 0 l.exponentDigits

/-- A unit of the second decimal. -/
def unit (l : Label) : ℚ := 10 ^ (l.exponent - 2)

/-- The number that a label denotes, but for its sign. -/
def magnitude (l : Label) : ℚ := valueFrom 0 [l.units, l.tenths, l.hundredths] * l.unit

/-- The number that a label denotes. -/
def worth (l : Label) : ℚ := if l.negative then -l.magnitude else l.magnitude

/-- A label shows a number if it begins with another digit than zero, or with the exponent zero if
the number is zero, and differs from the number by half a unit of its second decimal at most. -/
structure Shows (l : Label) (q : ℚ) : Prop where
  /-- The digit before the point is a leading figure. -/
  units_ne : q ≠ 0 → l.units ≠ '0'
  /-- Zero has the exponent zero, with a plus sign and two digits. -/
  exponent_zero : q = 0 → l.exponentNegative = false ∧ l.exponentDigits = ['0', '0']
  /-- The label is near to the number. -/
  near : |l.worth - q| ≤ l.unit / 2

end Label

/-- The digits of a padded exponent. -/
def exponentDigits (e : ℤ) : List Char :=
  List.replicate (2 - (digits e.natAbs).length) '0' ++ digits e.natAbs

/-- An exponent is written with its sign, whichever it is. -/
theorem paddedExponent_eq (e : ℤ) :
    paddedExponent e = (if e < 0 then '-' else '+') :: exponentDigits e := rfl

/-- The digits of an exponent are digits. -/
theorem isDigit_of_mem_exponentDigits {e : ℤ} : ∀ d ∈ exponentDigits e, d.isDigit = true := by
  intro d hd
  rcases List.mem_append.1 hd with hzero | hd
  · rw [List.eq_of_mem_replicate hzero]
    rfl
  · exact isDigit_of_mem_digits hd

/-- An exponent has two digits or more. -/
theorem two_le_length_exponentDigits (e : ℤ) : 2 ≤ (exponentDigits e).length := by
  rw [exponentDigits, List.length_append, List.length_replicate]
  omega

/-- An exponent of more than two digits does not begin with a zero. -/
theorem head?_exponentDigits_ne {e : ℤ} (h : 2 < (exponentDigits e).length) :
    (exponentDigits e).head? ≠ some '0' := by
  rw [exponentDigits, List.length_append, List.length_replicate] at h
  have hnone : 2 - (digits e.natAbs).length = 0 := by omega
  rw [exponentDigits, hnone]
  exact head?_digits_ne (by omega)

/-- The digits of an exponent have its value, whatever they are padded with. -/
theorem valueFrom_exponentDigits (e : ℤ) : valueFrom 0 (exponentDigits e) = e.natAbs := by
  simp [exponentDigits]

/-- Three digits are written with a point after the first; zeros stand before fewer ones. -/
theorem exists_pointed {n : Nat} (h : n < 1000) : ∃ a b c, pointed (digits n) 2 = [a, '.', b, c] ∧
    (∀ d ∈ [a, b, c], d.isDigit = true) ∧ valueFrom 0 [a, b, c] = n ∧ (100 ≤ n → a ≠ '0') := by
  have hdigits : ∀ d ∈ digits n, d.isDigit = true := fun d => isDigit_of_mem_digits
  have hvalue := Literal.valueFrom_digits n
  have hhead := head?_digits_ne (n := n)
  have hhigh : (digits n).length ≤ 3 :=
    (Nat.length_toDigits_le_iff (by decide) (by decide)).2 h
  have hlow : 100 ≤ n → ¬ (digits n).length ≤ 2 := fun hle hlen =>
    absurd ((Nat.length_toDigits_le_iff (by decide) (by decide)).1 hlen) (Nat.not_lt.2 hle)
  -- One case for each count of digits. With one or two the number is less than a hundred, and with
  -- four it is a thousand or more.
  match hds : digits n with
  | [] => exact absurd hds (digits_ne_nil n)
  | [c] =>
    rw [hds] at hdigits hvalue hlow
    exact ⟨'0', '0', c, rfl, by simpa using hdigits c, hvalue,
      fun hle => absurd (hlow hle) (by simp)⟩
  | [b, c] =>
    rw [hds] at hdigits hvalue hlow
    exact ⟨'0', b, c, rfl, by simpa using hdigits, hvalue, fun hle => absurd (hlow hle) (by simp)⟩
  | [a, b, c] =>
    rw [hds] at hdigits hvalue hhead
    refine ⟨a, b, c, rfl, hdigits, hvalue, fun _ hzero => ?_⟩
    exact hhead (by simp) (congrArg some hzero)
  | _ :: _ :: _ :: _ :: _ =>
    rw [hds] at hhigh
    simp only [List.length_cons] at hhigh
    omega

namespace Label

/-- The label with given digits and exponent. -/
def ofDigits (negative : Bool) (a b c : Char) (h : ∀ d ∈ [a, b, c], d.isDigit = true) (e : ℤ) :
    Label where
  negative := negative
  units := a
  tenths := b
  hundredths := c
  exponentNegative := e < 0
  exponentDigits := Decimal.exponentDigits e
  isDigit := by
    intro d hd
    rcases List.mem_append.1 (show d ∈ [a, b, c] ++ Decimal.exponentDigits e from hd) with hd | hd
    · exact h d hd
    · exact isDigit_of_mem_exponentDigits d hd
  two_le_length := two_le_length_exponentDigits e
  head?_ne := head?_exponentDigits_ne

variable {negative : Bool} {a b c : Char} {h : ∀ d ∈ [a, b, c], d.isDigit = true} {e : ℤ}

/-- The characters of a label that is made of digits and an exponent. -/
theorem toList_ofDigits : (ofDigits negative a b c h e).toList =
    if negative then '-' :: ([a, '.', b, c] ++ 'e' :: paddedExponent e)
    else [a, '.', b, c] ++ 'e' :: paddedExponent e := by
  have hsign : (if decide (e < 0) = true then '-' else '+') = if e < 0 then '-' else '+' := by
    simp only [decide_eq_true_eq]
  rw [toList, ofDigits, paddedExponent_eq, ← hsign]
  cases negative <;> rfl

/-- A label that is made with an exponent has it. -/
theorem exponent_ofDigits : (ofDigits negative a b c h e).exponent = e := by
  simp only [exponent, ofDigits, decide_eq_true_eq, valueFrom_exponentDigits]
  split <;> omega

/-- The second decimal of such a label counts in hundredths of the power of ten. -/
theorem unit_ofDigits : (ofDigits negative a b c h e).unit = 10 ^ (e - 2) := by
  rw [unit, exponent_ofDigits]

end Label

/-! ## Exponents -/

/-- Gives the exponent of a text its sign and at least two digits. A text without an exponent stays
as it is. -/
def padExponent (cs : List Char) : List Char :=
  match cs.dropWhile (· != 'e') with
  | [] => cs
  | _ :: '-' :: ds =>
    cs.takeWhile (· != 'e') ++ 'e' :: '-' :: (List.replicate (2 - ds.length) '0' ++ ds)
  | _ :: ds =>
    cs.takeWhile (· != 'e') ++ 'e' :: '+' :: (List.replicate (2 - ds.length) '0' ++ ds)

/-- A padded exponent is that of the integer. -/
theorem padExponent_append {cs : List Char} (hcs : ∀ c ∈ cs, (c != 'e') = true) (e : ℤ) :
    padExponent (cs ++ 'e' :: signedDigits e) = cs ++ 'e' :: paddedExponent e := by
  rw [padExponent, takeWhile_append_of_stop hcs rfl, dropWhile_append_of_stop hcs rfl]
  match e with
  | .ofNat n =>
    -- The first digit is no minus sign, so the exponent gets a plus sign.
    obtain ⟨d, ds, hds, hd⟩ := exists_digits_eq_cons n
    have hminus : d ≠ '-' := by
      rintro rfl
      exact absurd hd (by decide)
    simp [signedDigits, paddedExponent, hds, hminus]
  | .negSucc n => simp [signedDigits, paddedExponent]

/-- An exponent is read as the integer that its digits and its sign write. -/
theorem exponent?_eq {cs ds : List Char} {negative : Bool}
    (hsign : Literal.spanSign cs = (negative, ds)) (hds : ∀ d ∈ ds, d.isDigit = true)
    (hne : ds ≠ []) : Literal.exponent? ('e' :: cs) =
      some (if negative then -(valueFrom 0 ds : ℤ) else valueFrom 0 ds) := by
  simp [Literal.exponent?, hsign, Plain.spanDigits_eq hds, hne]

/-- An exponent as it is written first is read back. -/
theorem exponent?_signedDigits (e : ℤ) : Literal.exponent? ('e' :: signedDigits e) = some e := by
  match e with
  | .ofNat n =>
    have hsign : Literal.spanSign (digits n) = (false, digits n) := by
      obtain ⟨d, ds, hds, hd⟩ := exists_digits_eq_cons n
      rw [hds]
      exact Literal.spanSign_cons hd ds
    rw [signedDigits, exponent?_eq hsign (fun d => isDigit_of_mem_digits) (digits_ne_nil n),
      Literal.valueFrom_digits]
    rfl
  | .negSucc n =>
    have hsign : Literal.spanSign ('-' :: digits (n + 1)) = (true, digits (n + 1)) := rfl
    rw [signedDigits, exponent?_eq hsign (fun d => isDigit_of_mem_digits) (digits_ne_nil (n + 1)),
      Literal.valueFrom_digits]
    rfl

/-- An exponent with a sign and padding is read back. -/
theorem exponent?_paddedExponent (e : ℤ) :
    Literal.exponent? ('e' :: paddedExponent e) = some e := by
  have hne : exponentDigits e ≠ [] :=
    List.ne_nil_of_length_pos (lt_of_lt_of_le two_pos (two_le_length_exponentDigits e))
  have hsign : Literal.spanSign (paddedExponent e) = (decide (e < 0), exponentDigits e) := by
    rw [paddedExponent_eq]
    split <;> simp [Literal.spanSign, *]
  rw [exponent?_eq hsign isDigit_of_mem_exponentDigits hne, valueFrom_exponentDigits]
  simp only [decide_eq_true_eq, Option.some.injEq]
  split <;> omega

/-- What a literal denotes, if that is a number. -/
def Literal.worth? : Literal → Option ℚ
  | .finite negative c x => some (if negative then -(c * 10 ^ x) else c * 10 ^ x)
  | _ => none

section
variable {cs : List Char} {q : ℚ}

/-- The exponent after a plain text is padded. -/
theorem Plain.padExponent_eq (h : Plain cs q) (negative : Bool) (e : ℤ) :
    padExponent ((if negative then '-' :: cs else cs) ++ 'e' :: signedDigits e) =
      (if negative then '-' :: cs else cs) ++ 'e' :: paddedExponent e := by
  have hcs : ∀ d ∈ cs, (d != 'e') = true := by
    intro d hd
    rcases h.isDigit_or_eq hd with hdigit | rfl
    · rw [bne_iff_ne]
      rintro rfl
      exact absurd hdigit (by decide)
    · rfl
  refine padExponent_append ?_ e
  cases negative with
  | true => exact List.forall_mem_cons.2 ⟨rfl, hcs⟩
  | false => exact hcs

/-- **Exponents.** A plain text with an exponent is read as the same literal when the exponent is
padded, and the literal is the number of the plain text times the power of ten. -/
theorem Plain.ofChars?_padExponent (h : Plain cs q) (negative : Bool) (e : ℤ) : ∃ l : Literal,
    Literal.ofChars? ((if negative then '-' :: cs else cs) ++ 'e' :: signedDigits e) = some l ∧
    Literal.ofChars? (padExponent ((if negative then '-' :: cs else cs) ++
      'e' :: signedDigits e)) = some l ∧
    l.worth? = some (if negative then -(q * 10 ^ e) else q * 10 ^ e) := by
  obtain ⟨c, k, hworth, hread⟩ := h.exists_ofChars?
  have hscale : (c : ℚ) * 10 ^ (e - k) = q * 10 ^ e := by
    rw [← hworth, sub_eq_add_neg, zpow_add₀ (by norm_num)]
    ring
  refine ⟨.finite negative c (e - k), ?_, ?_, by rw [Literal.worth?, hscale]⟩
  · rw [hread _ _ rfl, exponent?_signedDigits, Option.map_some]
  · rw [h.padExponent_eq, hread _ _ rfl, exponent?_paddedExponent, Option.map_some]

end

/-! ## Labels of quotients -/

namespace Ratio

variable {r : Ratio}

/-- A quotient with one digit before the point and two after it, and its exponent as an integer. -/
def twoDecimals (r : Ratio) : List Char :=
  pointed (digits r.threeFigures.coefficient) 2 ++ 'e' :: signedDigits (r.threeFigures.place + 2)

/-- **Labels.** What is written for the label of a quotient, with a minus sign or without, is a
label that shows the quotient. It denotes the three figures of the quotient. -/
theorem exists_label (hden : 0 < r.den) (negative : Bool) :
    ∃ l : Label, l.negative = negative ∧
      l.toList = (if negative then '-' :: r.label else r.label) ∧
      l.Shows (if negative then -r.worth else r.worth) ∧ l.magnitude = r.threeFigures.worth := by
  obtain ⟨hlt, hle, hzero, hnear⟩ := threeFigures_spec hden
  obtain ⟨a, b, c, hpointed, hdigits, hvalue, hunits⟩ := exists_pointed hlt
  have hunit : (10 : ℚ) ^ (r.threeFigures.place + 2 - 2) = 10 ^ r.threeFigures.place := by
    rw [add_sub_cancel_right]
  have hmagnitude : (Label.ofDigits negative a b c hdigits (r.threeFigures.place + 2)).magnitude =
      r.threeFigures.worth := by
    rw [Label.magnitude, Label.unit_ofDigits, hunit, Figures.worth, ← hvalue]
    rfl
  have hnum : (if negative then -r.worth else r.worth) = 0 ↔ r.num = 0 := by
    have hden' : (r.den : ℚ) ≠ 0 := by exact_mod_cast hden.ne'
    cases negative <;> simp [worth, hden']
  refine ⟨.ofDigits negative a b c hdigits (r.threeFigures.place + 2), rfl, ?_,
    ⟨fun h => ?_, fun h => ?_, ?_⟩, hmagnitude⟩
  · rw [Label.toList_ofDigits, label, hpointed]
  · exact hunits (hle (mt hnum.2 h))
  · rw [hzero (hnum.1 h)]
    exact ⟨rfl, rfl⟩
  · rw [Label.unit_ofDigits, hunit, Label.worth, hmagnitude]
    cases negative with
    | true =>
      have hneg : |-r.threeFigures.worth - -r.worth| ≤ (10 : ℚ) ^ r.threeFigures.place / 2 := by
        rw [neg_sub_neg, abs_sub_comm]
        exact hnear
      exact hneg
    | false => exact hnear

/-- **Padding.** The label of a quotient is written by padding an exponent, which changes nothing of
what is read. -/
theorem ofChars?_label (r : Ratio) (negative : Bool) :
    padExponent (if negative then '-' :: r.twoDecimals else r.twoDecimals) =
      (if negative then '-' :: r.label else r.label) ∧
    ∃ literal : Literal,
      Literal.ofChars? (if negative then '-' :: r.twoDecimals else r.twoDecimals) = some literal ∧
      Literal.ofChars? (if negative then '-' :: r.label else r.label) = some literal ∧
      literal.worth? =
        some (if negative then -r.threeFigures.worth else r.threeFigures.worth) := by
  have hdigits : ∀ d ∈ digits r.threeFigures.coefficient, d.isDigit = true :=
    fun d => isDigit_of_mem_digits
  have hplain := plain_pointed hdigits two_ne_zero
  have happend : ∀ cs rest : List Char, (if negative then '-' :: (cs ++ rest) else cs ++ rest) =
      (if negative then '-' :: cs else cs) ++ rest := by
    intro cs rest
    cases negative <;> rfl
  have hpad := hplain.padExponent_eq negative (r.threeFigures.place + 2)
  obtain ⟨literal, htext, hlabel, hworth⟩ :=
    hplain.ofChars?_padExponent negative (r.threeFigures.place + 2)
  rw [hpad] at hlabel
  have hfigures : (valueFrom 0 (digits r.threeFigures.coefficient) : ℚ) * 10 ^ (-(2 : ℕ) : ℤ) *
      10 ^ (r.threeFigures.place + 2) = r.threeFigures.worth := by
    rw [Literal.valueFrom_digits, mul_assoc, ← zpow_add₀ (by norm_num), Figures.worth]
    congr 2
    push_cast
    ring
  rw [hfigures] at hworth
  rw [twoDecimals, label, happend, happend]
  exact ⟨hpad, literal, htext, hlabel, hworth⟩

end Ratio

end CurveArea.Decimal
