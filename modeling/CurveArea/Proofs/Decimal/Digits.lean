import CurveArea.Decimal.Layout
import CurveArea.Decimal.Literal
import Mathlib.Algebra.Order.Field.Power
import Mathlib.Tactic.FieldSimp
import Mathlib.Tactic.Positivity
import Mathlib.Tactic.Ring

/-!
# Digits and the numbers they denote

The positional layout of a decimal is made of digits with a point among them or none. Such
characters denote a rational number (`Plain`), and the literal that is read from them denotes the
same one, with either sign before them (`Plain.ofChars?_eq`). So a layout and the reader of literals
agree on every decimal (`plain_positional`).
-/

namespace CurveArea.Decimal

/-! ## Digits -/

section
variable {β : Type} {p : β → Bool} {xs rest : List β}

/-- What has a property is taken up to the first that has it not. -/
theorem takeWhile_append_of_stop (hxs : ∀ x ∈ xs, p x = true) (hrest : rest.head?.any p = false) :
    (xs ++ rest).takeWhile p = xs := by
  rw [List.takeWhile_append_of_pos hxs]
  cases rest <;> simp_all

/-- What is left behind the longest beginning with a property, when what follows does not go on with
it. -/
theorem dropWhile_append_of_stop (hxs : ∀ x ∈ xs, p x = true) (hrest : rest.head?.any p = false) :
    (xs ++ rest).dropWhile p = rest := by
  rw [List.dropWhile_append_of_pos hxs]
  cases rest <;> simp_all

end

/-- The digits of a number are digits. -/
theorem isDigit_of_mem_digits {n : Nat} {c : Char} (h : c ∈ digits n) : c.isDigit = true :=
  Nat.isDigit_of_mem_toDigits (by decide) (by decide) h

/-- A number has a digit. -/
theorem digits_ne_nil (n : Nat) : digits n ≠ [] := Nat.toDigits_ne_nil

/-- A number begins with a digit. -/
theorem exists_digits_eq_cons (n : Nat) : ∃ d ds, digits n = d :: ds ∧ d.isDigit = true := by
  obtain ⟨d, ds, hds⟩ := List.exists_cons_of_ne_nil (digits_ne_nil n)
  exact ⟨d, ds, hds, isDigit_of_mem_digits (n := n) (by simp [hds])⟩

/-- A number has digits enough to be written with. -/
theorem lt_pow_digitCount (n : Nat) : n < 10 ^ digitCount n := by
  unfold digitCount
  split
  case isTrue h => simp [h]
  case isFalse h => exact (Nat.length_toDigits_le_iff (by decide) Nat.length_toDigits_pos).1 le_rfl

/-- It has no more digits than it needs. -/
theorem pow_digitCount_le {n : Nat} (h : n ≠ 0) : 10 ^ digitCount n ≤ 10 * n := by
  rw [digitCount, if_neg h]
  generalize hlen : (Nat.toDigits 10 n).length = k
  match k with
  | 0 => exact absurd hlen Nat.length_toDigits_pos.ne'
  | 1 => omega
  | k + 2 =>
    have hnot : ¬ (Nat.toDigits 10 n).length ≤ k + 1 := by omega
    rw [Nat.length_toDigits_le_iff (by decide) k.succ_pos, not_lt] at hnot
    rw [pow_succ, Nat.mul_comm]
    exact Nat.mul_le_mul_left 10 hnot

namespace Literal

/-- A digit is no sign. -/
theorem spanSign_cons {d : Char} (hd : d.isDigit = true) (cs : List Char) :
    spanSign (d :: cs) = (false, d :: cs) := by
  have hplus : d ≠ '+' := by rintro rfl; exact absurd hd (by decide)
  have hminus : d ≠ '-' := by rintro rfl; exact absurd hd (by decide)
  simp [spanSign, hplus, hminus]

/-- A digit is worth less than ten. -/
theorem digitValue_lt_ten {d : Char} (hd : d.isDigit = true) : digitValue d < 10 := by
  have hrange : '0'.val ≤ d.val ∧ d.val ≤ '9'.val := by simpa [Char.isDigit] using hd
  have hvalue : d.toNat ≤ '9'.toNat := hrange.2
  have hzero : '0'.toNat = 48 := rfl
  have hnine : '9'.toNat = 57 := rfl
  rw [digitValue]
  omega

@[simp] theorem valueFrom_append (n : Nat) (ds es : List Char) :
    valueFrom n (ds ++ es) = valueFrom (valueFrom n ds) es :=
  List.foldl_append

@[simp] theorem valueFrom_digits (n : Nat) : valueFrom 0 (digits n) = n :=
  Nat.ofDigitChars_ten_toDigits

@[simp] theorem valueFrom_replicate_zero (n k : Nat) :
    valueFrom n (List.replicate k '0') = 10 ^ k * n :=
  Nat.ofDigitChars_replicate_zero

/-- The value of digits has no more digits than they are. -/
theorem valueFrom_lt_pow {ds : List Char} (hds : ∀ d ∈ ds, d.isDigit = true) :
    valueFrom 0 ds < 10 ^ ds.length := by
  induction ds using List.reverseRecOn with
  | nil => exact one_pos
  | append_singleton ds d ih =>
    have hprefix := ih fun d' hd' => hds d' (List.mem_append_left _ hd')
    have hlast := digitValue_lt_ten (hds d (by simp))
    have hstep : valueFrom 0 (ds ++ [d]) = 10 * valueFrom 0 ds + digitValue d := by
      simp [valueFrom]
    rw [hstep, List.length_append, List.length_singleton, pow_succ]
    omega

end Literal

/-- Digits begin with a zero only where there is no other one. -/
theorem head?_digits_ne {n : Nat} (h : 1 < (digits n).length) : (digits n).head? ≠ some '0' := by
  intro hzero
  obtain ⟨ds, hds⟩ := List.head?_eq_some_iff.1 hzero
  have hlt : n < 10 ^ ds.length := by
    have hvalue : Literal.valueFrom 0 ds = n := by
      rw [← Literal.valueFrom_digits n, hds]
      rfl
    rw [← hvalue]
    refine Literal.valueFrom_lt_pow fun d hd => isDigit_of_mem_digits (n := n) ?_
    rw [hds]
    exact List.mem_cons_of_mem _ hd
  rw [hds, List.length_cons] at h
  have hle : (digits n).length ≤ ds.length :=
    (Nat.length_toDigits_le_iff (by decide) (by omega)).2 hlt
  rw [hds, List.length_cons] at hle
  omega

/-! ## Plain texts -/

open Literal (valueFrom)

/-- The number that a decimal denotes. -/
def Figures.worth (f : Figures) : ℚ := f.coefficient * 10 ^ f.place

/-- Characters that are digits, with a point among them or none, and the number that they denote. -/
inductive Plain : List Char → ℚ → Prop
  /-- Digits by themselves. -/
  | whole {ds : List Char} (hne : ds ≠ []) (hds : ∀ d ∈ ds, d.isDigit = true) :
    Plain ds (valueFrom 0 ds)
  /-- Digits with decimals. -/
  | pointed {ds es : List Char} (hds : ds ≠ []) (hes : es ≠ [])
    (hdigits : ∀ d ∈ ds ++ es, d.isDigit = true) :
    Plain (ds ++ '.' :: es) (valueFrom 0 (ds ++ es) * 10 ^ (-es.length : ℤ))

/-- Zeros before the digits make room for a point, so that there is one digit before it at least. -/
theorem plain_pointed {ds : List Char} (hds : ∀ d ∈ ds, d.isDigit = true) {k : Nat} (hk : k ≠ 0) :
    Plain (pointed ds k) (valueFrom 0 ds * 10 ^ (-k : ℤ)) := by
  rw [pointed, if_neg hk]
  generalize hpadded : List.replicate (k + 1 - ds.length) '0' ++ ds = padded
  have hlen : k + 1 ≤ padded.length := by
    rw [← hpadded, List.length_append, List.length_replicate]
    omega
  have hvalue : valueFrom 0 ds = valueFrom 0 padded := by
    simp [← hpadded]
  have hdigits : ∀ d ∈ padded, d.isDigit = true := by
    rw [← hpadded]
    intro d hd
    rcases List.mem_append.1 hd with hzero | hd
    · rw [List.eq_of_mem_replicate hzero]
      rfl
    · exact hds d hd
  have hsplit := List.take_append_drop (padded.length - k) padded
  have hdecimals : (padded.drop (padded.length - k)).length = k := by
    rw [List.length_drop]
    omega
  have hwhole : padded.take (padded.length - k) ≠ [] :=
    List.ne_nil_of_length_pos (by rw [List.length_take]; omega)
  have hpart : padded.drop (padded.length - k) ≠ [] :=
    List.ne_nil_of_length_pos (by rw [hdecimals]; omega)
  have hplain := Plain.pointed hwhole hpart (by rwa [hsplit])
  rwa [hsplit, hdecimals, ← hvalue] at hplain

/-- **Positional layouts.** The positional layout of a decimal denotes the decimal. -/
theorem plain_positional (f : Figures) : Plain f.positional f.worth := by
  rw [Figures.positional, Figures.worth]
  match f.place with
  | .ofNat k =>
    have hdigits : ∀ d ∈ digits f.coefficient ++ List.replicate k '0', d.isDigit = true := by
      intro d hd
      rcases List.mem_append.1 hd with hd | hzero
      · exact isDigit_of_mem_digits hd
      · rw [List.eq_of_mem_replicate hzero]
        rfl
    have hplain := Plain.whole (List.append_ne_nil_of_left_ne_nil (digits_ne_nil _) _) hdigits
    have hworth : ((valueFrom 0 (digits f.coefficient ++ List.replicate k '0') : ℕ) : ℚ) =
        f.coefficient * 10 ^ (Int.ofNat k) := by
      simp [mul_comm]
    rwa [hworth] at hplain
  | .negSucc k =>
    have hdigits : ∀ d ∈ digits f.coefficient, d.isDigit = true := fun d => isDigit_of_mem_digits
    have hplain := plain_pointed hdigits k.succ_ne_zero
    rwa [Literal.valueFrom_digits, Nat.cast_succ, ← Int.negSucc_eq] at hplain

namespace Plain

variable {cs : List Char} {q : ℚ}

/-- A decimal that is zero can be added to digits by themselves. -/
theorem append_zero (h : Plain cs q) (hdigits : ∀ d ∈ cs, d.isDigit = true) :
    Plain (cs ++ ['.', '0']) q := by
  cases h with
  | whole hne hds =>
    have hdigits' : ∀ d ∈ cs ++ ['0'], d.isDigit = true := by
      intro d hd
      rcases List.mem_append.1 hd with hd | hzero
      · exact hds d hd
      · rw [List.mem_singleton.1 hzero]
        rfl
    have hplain := Plain.pointed hne (List.cons_ne_nil '0' []) hdigits'
    have hvalue : valueFrom 0 (cs ++ ['0']) = 10 * valueFrom 0 cs := by simp [valueFrom]; rfl
    have hworth : ((valueFrom 0 (cs ++ ['0']) : ℕ) : ℚ) * 10 ^ (-(['0'].length : ℕ) : ℤ) =
        valueFrom 0 cs := by
      rw [hvalue]
      push_cast
      norm_num
      ring
    rwa [hworth] at hplain
  | pointed => exact absurd (hdigits '.' (by simp)) (by decide)

/-- There are only digits and points. -/
theorem isDigit_or_eq (h : Plain cs q) {c : Char} (hc : c ∈ cs) : c.isDigit = true ∨ c = '.' := by
  cases h with
  | whole hne hds => exact .inl (hds c hc)
  | pointed hds hes hdigits =>
    rcases List.mem_append.1 hc with hc | hc
    · exact .inl (hdigits c (List.mem_append_left _ hc))
    · rcases List.mem_cons.1 hc with rfl | hc
      · exact .inr rfl
      · exact .inl (hdigits c (List.mem_append_right _ hc))

/-- The first character is a digit. -/
theorem exists_cons (h : Plain cs q) : ∃ d rest, cs = d :: rest ∧ d.isDigit = true := by
  cases h with
  | whole hne hds =>
    obtain ⟨d, rest, rfl⟩ := List.exists_cons_of_ne_nil hne
    exact ⟨d, rest, rfl, hds d List.mem_cons_self⟩
  | pointed hne hes hdigits =>
    obtain ⟨d, rest, rfl⟩ := List.exists_cons_of_ne_nil hne
    exact ⟨d, _, rfl, hdigits d List.mem_cons_self⟩

/-! ## Reading -/

/-- Digits are taken off a text up to a character that is none. -/
theorem spanDigits_append {ds rest : List Char} (hds : ∀ d ∈ ds, d.isDigit = true)
    (hrest : rest.head?.any Char.isDigit = false) :
    Literal.spanDigits (ds ++ rest) = (ds, rest) := by
  rw [Literal.spanDigits, takeWhile_append_of_stop hds hrest, dropWhile_append_of_stop hds hrest]

/-- All digits are taken off when there is nothing else. -/
theorem spanDigits_eq {ds : List Char} (hds : ∀ d ∈ ds, d.isDigit = true) :
    Literal.spanDigits ds = (ds, []) := by
  rw [← spanDigits_append hds rfl, List.append_nil]

/-- Plain characters are read as the number that they denote, times the power of ten that an
exponent after them writes. -/
theorem exists_unsigned? (h : Plain cs q) : ∃ c k : ℕ, (c : ℚ) * 10 ^ (-k : ℤ) = q ∧
    ∀ negative rest, rest.head?.any (fun d => d.isDigit || d == '.') = false →
      Literal.unsigned? negative (cs ++ rest) =
        (Literal.exponent? rest).map fun e => .finite negative c (e - k) := by
  have hstop : ∀ {rest : List Char}, rest.head?.any (fun d => d.isDigit || d == '.') = false →
      rest.head?.any Char.isDigit = false := by
    intro rest hrest
    cases rest <;> simp_all
  cases h with
  | @whole ds hne hds =>
    refine ⟨valueFrom 0 cs, 0, by simp, fun negative rest hrest => ?_⟩
    rw [Literal.unsigned?, spanDigits_append hds (hstop hrest)]
    rcases rest with _ | ⟨d, es⟩
    · simp [hne, valueFrom]
    · have hpoint : d ≠ '.' := by
        rintro rfl
        cases hrest
      simp [hpoint, hne, valueFrom]
  | @pointed ds es hne hes hdigits =>
    refine ⟨valueFrom 0 (ds ++ es), es.length, rfl, fun negative rest hrest => ?_⟩
    have hspan : Literal.spanDigits (ds ++ '.' :: (es ++ rest)) = (ds, '.' :: (es ++ rest)) :=
      spanDigits_append (fun d hd => hdigits d (List.mem_append_left _ hd)) rfl
    have hspan' : Literal.spanDigits (es ++ rest) = (es, rest) :=
      spanDigits_append (fun d hd => hdigits d (List.mem_append_right _ hd)) (hstop hrest)
    rw [List.append_assoc, List.cons_append]
    simp [Literal.unsigned?, hspan, hspan', hne]

/-- A sign is taken off a text that begins with plain characters. -/
theorem spanSign_append (h : Plain cs q) (negative : Bool) (rest : List Char) :
    Literal.spanSign ((if negative then '-' :: cs else cs) ++ rest) = (negative, cs ++ rest) := by
  obtain ⟨d, ds, rfl, hd⟩ := h.exists_cons
  cases negative with
  | true => rfl
  | false => exact Literal.spanSign_cons hd (ds ++ rest)

/-- A text that begins with plain characters is no word of letters. -/
theorem lower_ne (h : Plain cs q) {w : String} (hw : w.toList.head?.any Char.isDigit = false)
    (rest : List Char) : String.ofList ((cs ++ rest).map Char.toLower) ≠ w := by
  obtain ⟨d, ds, rfl, hd⟩ := h.exists_cons
  rintro rfl
  have hlower : d.toLower = d := by
    have hnine : d.val ≤ '9'.val := (by simpa [Char.isDigit] using hd : _ ∧ _).2
    exact dif_neg fun hupper =>
      absurd (UInt32.le_trans hupper.1 hnine) (by decide : ¬ 'A'.val ≤ '9'.val)
  simp [hlower, hd] at hw

/-- So they are with a sign before them. -/
theorem exists_ofChars? (h : Plain cs q) : ∃ c k : ℕ, (c : ℚ) * 10 ^ (-k : ℤ) = q ∧
    ∀ negative rest, rest.head?.any (fun d => d.isDigit || d == '.') = false →
      Literal.ofChars? ((if negative then '-' :: cs else cs) ++ rest) =
        (Literal.exponent? rest).map fun e => .finite negative c (e - k) := by
  obtain ⟨c, k, hworth, hread⟩ := h.exists_unsigned?
  refine ⟨c, k, hworth, fun negative rest hrest => ?_⟩
  rw [← hread negative rest hrest, Literal.ofChars?]
  simp only [h.spanSign_append, Bool.or_eq_true, decide_eq_true_eq]
  rw [if_neg (not_or.2 ⟨h.lower_ne (by rfl) rest, h.lower_ne (by rfl) rest⟩),
    if_neg (h.lower_ne (by rfl) rest)]

/-- **Reading layouts.** Plain characters by themselves, with a sign or without, are read as the
number that they denote. -/
theorem ofChars?_eq (h : Plain cs q) (negative : Bool) : ∃ (c : ℕ) (x : ℤ),
    Literal.ofChars? (if negative then '-' :: cs else cs) = some (.finite negative c x) ∧
      (c : ℚ) * 10 ^ x = q := by
  obtain ⟨c, k, hworth, hread⟩ := h.exists_ofChars?
  have hplain := hread negative [] rfl
  rw [List.append_nil] at hplain
  exact ⟨c, 0 - k, hplain, by rwa [Int.zero_sub]⟩

end Plain

end CurveArea.Decimal
