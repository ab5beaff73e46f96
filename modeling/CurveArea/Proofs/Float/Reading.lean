import CurveArea.Proofs.Decimal.Shortest
import CurveArea.Proofs.Float.Bits

/-!
# Reading and writing in binary64

Reading a decimal rounds it to the nearest number, whatever its digits and exponent (`at_nearest`).
So the reals that are read as a number are those of its interval (`nearest_eq_of_holds`), and the
decimal that a number is written with is one of them. What is written for a number is read as that
number again, bit for bit (`Written.reads`).
-/

namespace CurveArea.Rounding

open CurveArea.Decimal
open Float.Model (Format UnpackedFloat)

/-! ## The reals that are rounded to a number -/

section
variable {F : Format} {m : Nat} {e : ℤ} {t : ℚ}

/-- What a mantissa with all its places reaches, as a product. -/
theorem zpow_add_mantissaBits (F : Format) (e : ℤ) :
    (2 : ℚ) ^ (e + F.mantissaBits) = 2 ^ F.mantissaBits * 2 ^ e := by
  rw [zpow_add₀ two_ne_zero, zpow_natCast, mul_comm]

/-- What the first place of such a mantissa is worth, as a product. -/
theorem zpow_add_mantissaBits_sub_one (F : Format) (e : ℤ) :
    (2 : ℚ) ^ (e + F.mantissaBits - 1) = 2 ^ (F.mantissaBits - 1) * 2 ^ e := by
  have hbits : ((F.mantissaBits - 1 : ℕ) : ℤ) = F.mantissaBits - 1 := by
    have := mantissaBits_pos F
    omega
  rw [add_sub_assoc, ← hbits, zpow_add₀ two_ne_zero, zpow_natCast, mul_comm]

/-- What is rounded to a mantissa and still below all numbers with its exponent is below the least
of them, and the mantissa is that one. -/
theorem eq_of_near_of_lt (h : Canonical F m e) (hnear : NearestEven t m)
    (hne : e ≠ F.minExponent) (hbelow : t < 2 ^ (F.mantissaBits - 1)) :
    m = 2 ^ (F.mantissaBits - 1) := by
  have hhigh := (abs_le.1 hnear.dist_le).1
  rw [Int.cast_natCast] at hhigh
  have hlt : (m : ℚ) < 2 ^ (F.mantissaBits - 1) + 1 := by linarith
  have hlt' : m < 2 ^ (F.mantissaBits - 1) + 1 := by exact_mod_cast hlt
  exact le_antisymm (Nat.lt_succ_iff.1 hlt') (h.full.resolve_left hne)

/-- Just below a power of two the places are half as wide, so that what is rounded to it must be
twice as near. -/
theorem nearest_eq_of_edge (hm : m = 2 ^ (F.mantissaBits - 1)) (hmin : F.minExponent < e)
    (hnear : (m : ℚ) - 1 / 4 ≤ t) (hbelow : t < m) : nearest F (t * 2 ^ e) = m * 2 ^ e := by
  have hpow := two_zpow_pos e
  have hone : (1 : ℚ) ≤ m := by
    rw [hm]
    exact_mod_cast Nat.one_le_two_pow
  have ht : 0 < t * 2 ^ e := mul_pos (by linarith) hpow
  have hhalf : (2 : ℚ) ^ (e - 1 + F.mantissaBits) = m * 2 ^ e := by
    rw [sub_add_eq_add_sub, zpow_add_mantissaBits_sub_one, hm]
    push_cast
    rfl
  have hunit : unitExponent F (t * 2 ^ e) = e - 1 := by
    refine unitExponent_eq ht.ne' (by omega) ?_ (.inr ?_)
    · rw [abs_of_pos ht, hhalf]
      exact mul_lt_mul_of_pos_right hbelow hpow
    · rw [abs_of_pos ht, zpow_sub_one₀ two_ne_zero, hhalf, mul_right_comm]
      exact mul_le_mul_of_nonneg_right (by linarith) hpow.le
  have hdouble : t * 2 ^ e / 2 ^ (e - 1) = 2 * t := by
    rw [zpow_sub_one₀ two_ne_zero]
    field_simp
  have heven : NearestEven (2 * t) (2 * m : ℤ) := by
    have hdist : |2 * t - ((2 * m : ℤ) : ℚ)| ≤ 1 / 2 := by
      push_cast
      exact abs_le.2 ⟨by linarith, by linarith⟩
    rcases hdist.lt_or_eq with hlt | hmid
    · exact .inl hlt
    · exact .inr ⟨hmid, even_two_mul _⟩
  rw [nearest, hunit, hdouble, heven.eq, zpow_sub_one₀ two_ne_zero]
  push_cast
  ring

/-- What is nearest to a mantissa is rounded to it, with the exception of `nearest_eq_of_edge`. -/
theorem nearest_eq_of_near (h : Canonical F m e) (hm : 0 < m) (hnear : NearestEven t m)
    (hedge : m = 2 ^ (F.mantissaBits - 1) → F.minExponent < e → (m : ℚ) - 1 / 4 ≤ t) :
    nearest F (t * 2 ^ e) = m * 2 ^ e := by
  obtain ⟨hlow, hhigh⟩ := abs_le.1 hnear.dist_le
  rw [Int.cast_natCast] at hlow hhigh
  have hpow := two_zpow_pos e
  have hone : (1 : ℚ) ≤ m := by exact_mod_cast hm
  have hlt : (m : ℚ) + 1 ≤ 2 ^ F.mantissaBits := by exact_mod_cast h.lt
  have ht : 0 < t * 2 ^ e := mul_pos (by linarith) hpow
  by_cases hfull : e = F.minExponent ∨ 2 ^ (e + F.mantissaBits - 1) ≤ |t * 2 ^ e|
  · have hunit : unitExponent F (t * 2 ^ e) = e := by
      refine unitExponent_eq ht.ne' h.le ?_ hfull
      rw [abs_of_pos ht, zpow_add_mantissaBits]
      exact mul_lt_mul_of_pos_right (by linarith) hpow
    rw [nearest, hunit, mul_div_cancel_right₀ _ hpow.ne', hnear.eq, Int.cast_natCast]
  · obtain ⟨hne, hbelow⟩ := not_or.1 hfull
    rw [abs_of_pos ht, zpow_add_mantissaBits_sub_one, not_le, mul_lt_mul_iff_left₀ hpow] at hbelow
    have hmin : F.minExponent < e := lt_of_le_of_ne h.le (Ne.symm hne)
    have heq := eq_of_near_of_lt h hnear hne hbelow
    refine nearest_eq_of_edge heq hmin (hedge heq hmin) ?_
    rw [heq]
    exact_mod_cast hbelow

end

/-! ## Decimals far outside the range -/

section
variable {F : Format} {c : Nat} {x low high : ℤ}

/-- The leading place of a decimal tells how large it is. -/
theorem lt_pow_leadingPlace (c : Nat) (x : ℤ) :
    (c : ℚ) * 10 ^ x < 10 ^ Literal.leadingPlace c x := by
  have hlt : (c : ℚ) < 10 ^ digitCount c := by exact_mod_cast lt_pow_digitCount c
  rw [Literal.leadingPlace, zpow_add₀ (by norm_num), zpow_natCast]
  exact mul_lt_mul_of_pos_right hlt (by positivity)

/-- A decimal is not below the power of ten of its first digit. -/
theorem pow_leadingPlace_le (hc : c ≠ 0) :
    (10 : ℚ) ^ (Literal.leadingPlace c x - 1) ≤ c * 10 ^ x := by
  have hle : (10 : ℚ) ^ digitCount c ≤ 10 * c := by exact_mod_cast pow_digitCount_le hc
  rw [Literal.leadingPlace, zpow_sub_one₀ (by norm_num), zpow_add₀ (by norm_num), zpow_natCast,
    mul_right_comm]
  exact mul_le_mul_of_nonneg_right (by linarith) (by positivity)

/-- Decimals are lost when their leading place is below the one number, and out of range when it is
above the other. -/
structure Covers (F : Format) (low high : ℤ) : Prop where
  /-- What is below is not as much as half of the least number. -/
  pow_ten_le_half : (10 : ℚ) ^ low ≤ 2 ^ F.minExponent / 2
  /-- What is above is out of range. -/
  limit_le_pow_ten : limit F ≤ 10 ^ high

/-- The two numbers of a format by comparisons of powers. -/
theorem covers_of_le {k l n : ℕ} (hmin : F.minExponent = -k) (hlow : 2 ^ (k + 1) ≤ 10 ^ l)
    (hhigh : 2 ^ 2 ^ (F.exponentBits - 1) ≤ 10 ^ n) : Covers F (-l) n := by
  have hpow : (2 : ℚ) ^ (k + 1) ≤ 10 ^ l := by exact_mod_cast hlow
  refine ⟨?_, ?_⟩
  · calc (10 : ℚ) ^ (-l : ℤ) = (10 ^ l)⁻¹ := by rw [zpow_neg, zpow_natCast]
      _ ≤ (2 ^ (k + 1))⁻¹ := inv_anti₀ (pow_pos two_pos _) hpow
      _ = 2 ^ F.minExponent / 2 := by
        rw [hmin, zpow_neg, zpow_natCast, pow_succ, mul_inv, div_eq_mul_inv]
  · rw [limit, zpow_natCast]
    exact_mod_cast hhigh

/-- An exponent by its sign and magnitude. -/
theorem signed_natAbs (x : ℤ) :
    (if decide (x < 0) = true then -(x.natAbs : ℤ) else x.natAbs) = x := by
  rcases lt_or_ge x 0 with hneg | hpos
  · rw [if_pos (decide_eq_true hneg)]
    omega
  · rw [if_neg (by simpa using hpos)]
    omega

/-- What is far below the least number is lost. -/
theorem Covers.fit_of_lt (hF : Covers F low high) (h : Literal.leadingPlace c x < low) :
    fit F (c * 10 ^ x) = 0 := by
  refine fit_of_le_half (by positivity) ?_
  calc (c : ℚ) * 10 ^ x ≤ 10 ^ Literal.leadingPlace c x := (lt_pow_leadingPlace c x).le
    _ ≤ 10 ^ low := zpow_le_zpow_right₀ (by norm_num) h.le
    _ ≤ 2 ^ F.minExponent / 2 := hF.pow_ten_le_half

/-- What is far above the greatest number is out of range. -/
theorem Covers.fit_of_gt (hF : Covers F low high) (hc : c ≠ 0)
    (h : high < Literal.leadingPlace c x) : fit F (c * 10 ^ x) = limit F := by
  refine fit_of_limit_le ?_
  calc limit F ≤ 10 ^ high := hF.limit_le_pow_ten
    _ ≤ 10 ^ (Literal.leadingPlace c x - 1) := zpow_le_zpow_right₀ (by norm_num) (by omega)
    _ ≤ c * 10 ^ x := pow_leadingPlace_le hc

/-- **Reading decimals.** Only decimals that are neither lost nor out of range have to be rounded to
be read. -/
theorem Covers.stands_nearest {u : UnpackedFloat} (hF : Covers F low high)
    (hread : c ≠ 0 → Stands F u (fit F (c * 10 ^ x))) :
    Stands F (if c = 0 ∨ Literal.leadingPlace c x < low then .zero .positive
      else if high < Literal.leadingPlace c x then .infinity .positive else u)
      (fit F (c * 10 ^ x)) := by
  split_ifs with hlow hhigh
  · have hzero : fit F (c * 10 ^ x) = 0 := by
      rcases hlow with rfl | hlow
      · rw [Nat.cast_zero, zero_mul, fit_zero]
      · exact hF.fit_of_lt hlow
    rw [hzero]
    exact stands_zero F
  · rw [hF.fit_of_gt (not_or.1 hlow).1 hhigh]
    exact stands_infinity F
  · exact hread (not_or.1 hlow).1

end

end CurveArea.Rounding

namespace CurveArea.Binary64

open CurveArea.Decimal CurveArea.Rounding
open Float.Model (Format UnpackedFloat)
open Float.Model.UnpackedFloat

/-! ## Intervals -/

section
variable {m : Nat} {e : ℤ} {q : ℚ}

/-- The quotient of a mantissa and an exponent is worth what they are. -/
theorem worth_ratio (m : Nat) (e : ℤ) : (Binary.ratio m e).worth = m * 2 ^ e := by
  match e with
  | .ofNat k => simp [Ratio.worth, Binary.ratio]
  | .negSucc k =>
    rw [Ratio.worth, Binary.ratio, Nat.pow_eq, zpow_negSucc, div_eq_mul_inv]
    push_cast
    rfl

/-- Such a quotient has a positive denominator. -/
theorem den_ratio_pos (m : Nat) (e : ℤ) : 0 < (Binary.ratio m e).den := by
  match e with
  | .ofNat k => exact one_pos
  | .negSucc k => exact Nat.pow_pos two_pos

/-- It has a positive numerator when the mantissa is positive. -/
theorem num_ratio_pos (hm : 0 < m) (e : ℤ) : 0 < (Binary.ratio m e).num := by
  match e with
  | .ofNat k => exact Nat.mul_pos hm (Nat.pow_pos two_pos)
  | .negSucc k => exact hm

/-- How many quarters of the last place the interval of a number reaches down. -/
def quartersBelow (m : Nat) (e : ℤ) : Nat :=
  if m = 2 ^ 52 ∧ Format.binary64.minExponent < e then 1 else 2

/-- The interval of a number over one denominator: two quarters of a place on either side, and only
one below the first mantissa with all its places. -/
theorem interval_eq (m : Nat) (e : ℤ) : Binary.binary64.interval m e =
    { low := (4 * m - quartersBelow m e) * (Binary.ratio 1 (e - 2)).num
      value := 4 * m * (Binary.ratio 1 (e - 2)).num
      high := (4 * m + 2) * (Binary.ratio 1 (e - 2)).num
      den := (Binary.ratio 1 (e - 2)).den
      closed := m % 2 = 0 } := by
  have hbelow : quartersBelow m e =
      if m = Nat.pow 2 52 && Binary.binary64.leastExponent < e then 1 else 2 := by
    simp only [quartersBelow, Bool.and_eq_true, decide_eq_true_eq]
    rfl
  rw [hbelow]
  rfl

/-- What is counted in quarters of the last place. -/
theorem quarters_div (n : Nat) (e : ℤ) :
    ((n * (Binary.ratio 1 (e - 2)).num : ℕ) : ℚ) / (Binary.ratio 1 (e - 2)).den =
      n / 4 * 2 ^ e := by
  have hworth := worth_ratio 1 (e - 2)
  rw [Ratio.worth] at hworth
  rw [Nat.cast_mul, mul_div_assoc, hworth, zpow_sub₀ two_ne_zero]
  push_cast
  ring

/-- The interval of a number, in units of its last place. -/
theorem holds_interval_iff (hm : 0 < m) : (Binary.binary64.interval m e).Holds q ↔
    if m % 2 = 0 then (m : ℚ) - quartersBelow m e / 4 ≤ q / 2 ^ e ∧ q / 2 ^ e ≤ m + 1 / 2
    else (m : ℚ) - quartersBelow m e / 4 < q / 2 ^ e ∧ q / 2 ^ e < m + 1 / 2 := by
  have hpow := two_zpow_pos e
  have hle : quartersBelow m e ≤ 4 * m := by
    unfold quartersBelow
    split <;> omega
  have hlow : ((4 * m - quartersBelow m e : ℕ) : ℚ) / 4 = m - quartersBelow m e / 4 := by
    push_cast [hle]
    ring
  have hhigh : ((4 * m + 2 : ℕ) : ℚ) / 4 = m + 1 / 2 := by
    push_cast
    ring
  rw [interval_eq, Interval.Holds]
  simp only [quarters_div, hlow, hhigh, decide_eq_true_eq, le_div_iff₀ hpow, div_le_iff₀ hpow,
    lt_div_iff₀ hpow, div_lt_iff₀ hpow]

/-- The interval of a number is not empty, and the number is inside. -/
theorem wide_interval (h : Canonical Format.binary64 m e) (hm : 0 < m) :
    (Binary.binary64.interval m e).Wide := by
  have hnum := num_ratio_pos one_pos (e - 2)
  have hden := den_ratio_pos 1 (e - 2)
  have hlt : m < 2 ^ 53 := h.lt
  have hbelow : 4 * m < 2 * 10 ^ 16 * quartersBelow m e ∧ quartersBelow m e ≤ 4 * m := by
    unfold quartersBelow
    split <;> omega
  rw [interval_eq]
  generalize (Binary.ratio 1 (e - 2)).num = n at hnum ⊢
  refine ⟨hden, by positivity, ?_, ?_⟩
  · show 4 * m * n < 2 * 10 ^ 16 * (4 * m * n - (4 * m - quartersBelow m e) * n)
    rw [← Nat.sub_mul, Nat.sub_sub_self hbelow.2, ← Nat.mul_assoc]
    exact Nat.mul_lt_mul_of_pos_right hbelow.1 hnum
  · show 4 * m * n < 2 * 10 ^ 16 * ((4 * m + 2) * n - 4 * m * n)
    rw [← Nat.sub_mul, Nat.add_sub_cancel_left, ← Nat.mul_assoc]
    exact Nat.mul_lt_mul_of_pos_right (by omega) hnum

/-- **Intervals.** The reals of the interval of a number are rounded to it. -/
theorem nearest_eq_of_holds (h : Canonical Format.binary64 m e) (hm : 0 < m)
    (hq : (Binary.binary64.interval m e).Holds q) :
    Rounding.nearest Format.binary64 q = m * 2 ^ e := by
  rw [holds_interval_iff hm] at hq
  have hquarters : (quartersBelow m e : ℚ) ≤ 2 := by
    unfold quartersBelow
    split <;> norm_num
  have hscale : q / 2 ^ e * 2 ^ e = q := div_mul_cancel₀ _ (two_zpow_pos e).ne'
  rw [← hscale]
  refine nearest_eq_of_near h hm ?_ ?_
  · rw [NearestEven, Int.cast_natCast]
    split at hq
    case isTrue heven =>
      have hdist : |q / 2 ^ e - m| ≤ 1 / 2 := abs_le.2 ⟨by linarith [hq.1], by linarith [hq.2]⟩
      rcases hdist.lt_or_eq with hlt | hmid
      · exact .inl hlt
      · exact .inr ⟨hmid, by exact_mod_cast Nat.even_iff.2 heven⟩
    case isFalse hodd =>
      exact .inl (abs_lt.2 ⟨by linarith [hq.1], by linarith [hq.2]⟩)
  · intro hedge hmin
    have hone : quartersBelow m e = 1 := if_pos ⟨hedge, hmin⟩
    rw [hone, Nat.cast_one] at hq
    split at hq
    · exact hq.1
    · exact hq.1.le

/-- The shortest decimal of a magnitude is rounded to it. -/
theorem nearest_worth_figures (h : m ≠ 0 → Canonical Format.binary64 m e) :
    Rounding.nearest Format.binary64 (Binary.binary64.figures m e).worth = m * 2 ^ e := by
  unfold Binary.Format.figures
  split
  case isTrue hzero => simp [Figures.worth, hzero, nearest_zero]
  case isFalse hm =>
    have hpos := Nat.pos_of_ne_zero hm
    exact nearest_eq_of_holds (h hm) hpos (Interval.holds_shortest (wide_interval (h hm) hpos))

end

/-! ## Reading -/

section
variable {q : ℚ} {c : Nat} {x : ℤ}

/-- The leading places between which decimals are rounded. -/
theorem covers_binary64 : Covers Format.binary64 (-330) 310 :=
  covers_of_le (k := 1074) rfl (by decide +kernel) (by decide +kernel)

/-- A decimal that is neither lost nor out of range is read with its exponent. -/
theorem nearest_eq (c : Nat) (x : ℤ) : nearest c x =
    if c = 0 ∨ Literal.leadingPlace c x < -330 then 0.0
    else if 310 < Literal.leadingPlace c x then 1.0 / 0.0
    else Float.ofScientific c (decide (x < 0)) x.natAbs := by
  simp only [nearest, Bool.or_eq_true, decide_eq_true_eq]
  cases x with
  | ofNat k => rfl
  | negSucc k =>
    rw [decide_eq_true (Int.negSucc_lt_zero k)]
    rfl

/-- **Reading decimals.** A decimal is read as the number nearest to it. -/
theorem at_nearest (c : Nat) (x : ℤ) : At (nearest c x) (fit Format.binary64 (c * 10 ^ x)) := by
  have hread := at_ofScientific c (decide (x < 0)) x.natAbs
  rw [signed_natAbs] at hread
  have hunpack : (nearest c x).toModel.unpack =
      if c = 0 ∨ Literal.leadingPlace c x < -330 then .zero .positive
      else if 310 < Literal.leadingPlace c x then .infinity .positive
      else (Float.ofScientific c (decide (x < 0)) x.natAbs).toModel.unpack := by
    rw [nearest_eq]
    split_ifs <;> rfl
  rw [at_iff, hunpack]
  exact covers_binary64.stands_nearest fun _ => at_iff.1 hread

end

/-! ## Writing -/

/-- Characters that a number may be written with: a minus sign if it has one, and then the word for
infinity or a plain text of its decimal. -/
inductive Written (v : Float) : List Char → Prop
  /-- An infinity. -/
  | infinite {negative : Bool} (h : parts v = .infinite negative) :
    Written v (if negative then ['-', 'i', 'n', 'f'] else ['i', 'n', 'f'])
  /-- A finite number. -/
  | finite {negative : Bool} {m : Nat} {e : ℤ} (h : parts v = .finite negative m e)
    {cs : List Char} (hcs : Plain cs (Binary.binary64.figures m e).worth) :
    Written v (if negative then '-' :: cs else cs)

section
variable {v : Float} {cs : List Char}

/-- The text of a number is such characters. -/
theorem written_text (hv : v.isNaN = false) : Written v (Numeral.text v).toList := by
  have htext : Numeral.text v =
    write (fun m e => (Binary.binary64.figures m e).positional) v := rfl
  rw [htext, write]
  match hparts : parts v with
  | .nan =>
    rw [isNaN_eq] at hv
    rw [parts_eq] at hparts
    cases hunpack : v.toModel.unpack <;>
      simp_all [partsOf, UnpackedFloat.isNaN]
  | .infinite negative =>
    have hwritten := Written.infinite hparts
    cases negative <;> exact hwritten
  | .finite negative m e =>
    have hwritten := Written.finite hparts (plain_positional _)
    cases negative <;> simpa [signed] using hwritten

/-- The magnitude of a finite number and its sign. -/
theorem unpack_of_parts {negative : Bool} {m : Nat} {e : ℤ} (h : parts v = .finite negative m e) :
    ∃ s, isMinus s = negative ∧
      (m = 0 ∧ v.toModel.unpack = .zero s ∨ ∃ hm, v.toModel.unpack = .finite s m e hm) := by
  rw [parts_eq] at h
  match hunpack : v.toModel.unpack with
  | .notANumber | .infinity _ => simp [hunpack, partsOf] at h
  | .zero s =>
    rw [hunpack, partsOf, Binary.Parts.finite.injEq] at h
    exact ⟨s, h.1, .inl ⟨h.2.1.symm, rfl⟩⟩
  | .finite s m' e' hm =>
    rw [hunpack, partsOf, Binary.Parts.finite.injEq] at h
    obtain ⟨hs, rfl, rfl⟩ := h
    exact ⟨s, hs, .inr ⟨hm, rfl⟩⟩

/-- Zero is read as zero. -/
theorem ofLiteral_zero (negative : Bool) (x : ℤ) :
    (ofLiteral (.finite negative 0 x)).toModel.unpack =
      .zero (if negative then .negative else .positive) := by
  have hzero : nearest 0 x = 0.0 := by simp [nearest]
  have hunpack : (0.0 : Float).toModel.unpack = .zero .positive := by rfl
  rw [ofLiteral, hzero]
  cases negative with
  | true =>
    have hdefined : (0.0 : Float).isNaN = false := by rfl
    rw [if_pos rfl, unpack_neg hdefined, hunpack]
    rfl
  | false => exact hunpack

/-- An infinity is read as an infinity. -/
theorem ofLiteral_infinity (negative : Bool) :
    (ofLiteral (.infinity negative)).toModel.unpack =
      .infinity (if negative then .negative else .positive) := by
  cases negative <;> rfl

/-- A decimal that is rounded to a magnitude is read as that magnitude, with the sign before it. -/
theorem at_ofLiteral {negative : Bool} {c : Nat} {x : ℤ} {q : ℚ}
    (h : fit Format.binary64 (c * 10 ^ x) = q) :
    At (ofLiteral (.finite negative c x)) (if negative then -q else q) := by
  have hnear := at_nearest c x
  rw [h] at hnear
  cases negative with
  | true => exact at_neg hnear
  | false => exact hnear

/-- Figures that denote zero are those of a coefficient zero. -/
theorem reads_zero {s : UnpackedFloat.Sign} {c : ℕ} {x e : ℤ} (hunpack : v.toModel.unpack = .zero s)
    (hworth : (c : ℚ) * 10 ^ x = (Binary.binary64.figures 0 e).worth) :
    ofLiteral (.finite (isMinus s) c x) = v := by
  have hzero : (Binary.binary64.figures 0 e).worth = 0 := by
    simp [Binary.Format.figures, Figures.worth]
  have hc : c = 0 := by
    rw [hzero] at hworth
    exact_mod_cast (mul_eq_zero.1 hworth).resolve_right (by positivity)
  refine eq_of_unpack_eq ?_
  rw [hc, ofLiteral_zero, hunpack]
  cases s <;> rfl

/-- Figures that denote the decimal of a number are rounded to the number. -/
theorem reads_finite {s : UnpackedFloat.Sign} {m c : ℕ} {x e : ℤ} {hm : 0 < m}
    (hunpack : v.toModel.unpack = .finite s m e hm)
    (hworth : (c : ℚ) * 10 ^ x = (Binary.binary64.figures m e).worth) :
    ofLiteral (.finite (isMinus s) c x) = v := by
  have hdefined : v.isNaN = false := by
    rw [isNaN_eq, hunpack]
    rfl
  have hproper := proper_of_defined hdefined
  rw [hunpack] at hproper
  have hpos : (0 : ℚ) < m * 2 ^ e := mul_pos (by exact_mod_cast hm) (two_zpow_pos e)
  have hnear := nearest_worth_figures (m := m) (e := e) fun _ => hproper.1
  have hfit : fit Format.binary64 (c * 10 ^ x) = m * 2 ^ e := by
    rw [hworth, fit_of_abs_lt, hnear]
    rw [hnear, abs_of_pos hpos]
    exact worth_lt_limit hproper.1 hproper.2
  have hv : At v (withSign s (m * 2 ^ e)) := at_of_unpack hunpack
  have hread : At (ofLiteral (.finite (isMinus s) c x)) _ := at_ofLiteral hfit
  cases s with
  | negative => exact hread.unique hv (neg_ne_zero.2 hpos.ne')
  | positive => exact hread.unique hv hpos.ne'

/-- **Reading back.** What is written for a number is read as that number, on the scale or not. -/
theorem Written.reads (h : Written v cs) :
    ∃ l, Literal.ofChars? cs = some l ∧ l.onScale = l ∧ ofLiteral l = v := by
  cases h with
  | @infinite negative h =>
    refine ⟨.infinity negative, by cases negative <;> rfl, rfl, eq_of_unpack_eq ?_⟩
    rw [ofLiteral_infinity]
    rw [parts_eq] at h
    match hunpack : v.toModel.unpack with
    | .infinity s =>
      rw [hunpack, partsOf, Binary.Parts.infinite.injEq] at h
      rw [← h]
      cases s <;> rfl
    | .notANumber | .zero _ | .finite .. => simp [hunpack, partsOf] at h
  | @finite negative m e h cs hcs =>
    obtain ⟨c, x, hread, hworth⟩ := hcs.ofChars?_eq negative
    refine ⟨_, hread, rfl, ?_⟩
    obtain ⟨s, rfl, ⟨rfl, hunpack⟩ | ⟨hm, hunpack⟩⟩ := unpack_of_parts h
    · exact reads_zero hunpack hworth
    · exact reads_finite hunpack hworth

/-- **The text of a number.** A number that is defined is read back from its text. -/
theorem read?_text (hv : v.isNaN = false) : Numeral.read? (Numeral.text v) = some v := by
  obtain ⟨l, hread, -, hl⟩ := (written_text hv).reads
  have hcs : Literal.read? (Numeral.text v) = some l := hread
  show (Literal.read? (Numeral.text v)).map ofLiteral = some v
  rw [hcs, Option.map_some, hl]

end

end CurveArea.Binary64
