import CurveArea.Proofs.Float.Rounding

/-!
# Unpacked numbers

An unpacked number is a sign, a mantissa and an exponent, or one of the special numbers. The four
operations of arithmetic compute a mantissa with two bits that tell how much was cut off, and round
by these bits. Their results are the exact ones, rounded (`nearest`): `rounded_add`, `rounded_sub`,
`rounded_mul`, `rounded_div`. A result may have any exponent; the bound on it comes with packing.
-/

namespace CurveArea.Rounding

open Float.Model (Format UnpackedFloat totalExponent)
open Float.Model.UnpackedFloat

/-! ## Mantissas with what was cut off -/

/-- Where a number lies that a mantissa with its two bits stands for. -/
def Lies (em : ExtendedMantissa) (t : ℚ) : Prop :=
  match em.roundBit, em.stickyBit with
  | false, false => t = em.mantissa
  | false, true => em.mantissa < t ∧ t < em.mantissa + 1 / 2
  | true, false => t = em.mantissa + 1 / 2
  | true, true => em.mantissa + 1 / 2 < t ∧ t < em.mantissa + 1

namespace Lies

variable {em : ExtendedMantissa} {t : ℚ}

/-- A mantissa from which nothing was cut off is the number itself. -/
theorem exact (m : Nat) : Lies (.ofMantissaAndAccuracy m .exact) m := rfl

/-- The mantissa of a quotient, with the accuracy of what remains. -/
theorem quotient (a : Nat) {b : Nat} (hb : 0 < b) :
    Lies (.ofMantissaAndAccuracy (a / b) (accuracyOfFraction (a % b) b)) (a / b) := by
  have hbpos : (0 : ℚ) < b := by exact_mod_cast hb
  have hsplit : (a : ℚ) / b = (a / b : ℕ) + (a % b : ℕ) / b := by
    have hcast : (a : ℚ) = b * (a / b : ℕ) + (a % b : ℕ) := by
      exact_mod_cast (Nat.div_add_mod a b).symm
    rw [div_eq_iff hbpos.ne', add_mul, div_mul_cancel₀ _ hbpos.ne', mul_comm]
    exact hcast
  rw [hsplit]
  have hrest : a % b < b := Nat.mod_lt a hb
  generalize a % b = r at *
  have hlt : (r : ℚ) / b < 1 := (div_lt_one hbpos).2 (by exact_mod_cast hrest)
  unfold accuracyOfFraction
  split_ifs with hzero
  · simp [Lies, ExtendedMantissa.ofMantissaAndAccuracy, hzero]
  have hpos : (0 : ℚ) < r / b := div_pos (by exact_mod_cast Nat.pos_of_ne_zero hzero) hbpos
  rcases hcmp : compare (2 * r) b with _ | _ | _ <;>
    simp only [Lies, ExtendedMantissa.ofMantissaAndAccuracy]
  · have hhalf : (r : ℚ) / b < 1 / 2 := by
      rw [div_lt_div_iff₀ hbpos two_pos]
      exact_mod_cast (by rw [Nat.compare_eq_lt] at hcmp; omega : r * 2 < 1 * b)
    exact ⟨by linarith, by linarith⟩
  · have hhalf : (r : ℚ) / b = 1 / 2 := by
      rw [div_eq_div_iff hbpos.ne' two_ne_zero]
      exact_mod_cast (by rw [Nat.compare_eq_eq] at hcmp; omega : r * 2 = 1 * b)
    rw [hhalf]
  · have hhalf : 1 / 2 < (r : ℚ) / b := by
      rw [div_lt_div_iff₀ two_pos hbpos]
      exact_mod_cast (by rw [Nat.compare_eq_gt] at hcmp; omega : 1 * b < r * 2)
    exact ⟨by linarith, by linarith⟩

/-- A mantissa is what is left when the number is cut off. -/
theorem bounds (h : Lies em t) : (em.mantissa : ℚ) ≤ t ∧ t < em.mantissa + 1 := by
  obtain ⟨m, r, s⟩ := em
  cases r <;> cases s <;> simp only [Lies] at h ⊢
  · exact ⟨h.ge, by linarith⟩
  · exact ⟨h.1.le, by linarith [h.2]⟩
  · exact ⟨by linarith, by linarith⟩
  · exact ⟨by linarith [h.1], h.2⟩

/-- Shifting a mantissa by one place halves the number, and the two bits keep track of it. -/
theorem shiftRightOne (h : Lies em t) : Lies em.shiftRightOne (t / 2) := by
  obtain ⟨m, r, s⟩ := em
  obtain ⟨k, rfl | rfl⟩ : ∃ k, m = 2 * k ∨ m = 2 * k + 1 := ⟨m / 2, by omega⟩
  · have hhalf : 2 * k / 2 = k := by omega
    cases r <;> cases s <;>
      simp only [Lies, ExtendedMantissa.shiftRightOne, hhalf, Nat.mul_mod_right, bne_self_eq_false,
        Bool.or_self, Bool.or_true, Bool.or_false] at h ⊢ <;>
      push_cast at h
    · linarith
    · constructor <;> linarith
    · constructor <;> linarith
    · constructor <;> linarith
  · have hhalf : (2 * k + 1) / 2 = k := by omega
    have hodd : ((2 * k + 1) % 2 != 0) = true := by simp
    cases r <;> cases s <;>
      simp only [Lies, ExtendedMantissa.shiftRightOne, hhalf, hodd,
        Bool.or_self, Bool.or_true, Bool.or_false] at h ⊢ <;>
      push_cast at h
    · linarith
    · constructor <;> linarith
    · constructor <;> linarith
    · constructor <;> linarith

/-- Shifting a mantissa by some places divides the number by the power of two. -/
theorem shiftRight (h : Lies em t) (n : Nat) : Lies (em >>> n) (t / 2 ^ n) := by
  change Lies (n.repeat ExtendedMantissa.shiftRightOne em) _
  induction n with
  | zero => simpa [Nat.repeat] using h
  | succ n ih =>
    rw [pow_succ, ← div_div]
    exact ih.shiftRightOne

/-- The two bits tell which integer is nearest. -/
theorem nearestEven_roundedMantissa (h : Lies em t) : NearestEven t em.roundedMantissa := by
  obtain ⟨m, r, s⟩ := em
  cases r <;> cases s <;> simp only [Lies] at h <;>
    simp only [ExtendedMantissa.roundedMantissa, ExtendedMantissa.accuracy,
      Accuracy.roundToNearestEven]
  · left
    rw [h]
    simp
  · left
    rw [Int.cast_natCast, abs_of_pos (by linarith)]
    linarith
  · have hdist : |t - m| = 1 / 2 := by
      rw [h]
      norm_num
    have hdist' : |t - ((m + 1 : ℕ) : ℚ)| = 1 / 2 := by
      rw [h]
      push_cast
      norm_num
    right
    rcases Nat.mod_two_eq_zero_or_one m with hpar | hpar
    · rw [hpar, Nat.add_zero]
      exact ⟨hdist, Int.even_iff.2 (by omega)⟩
    · rw [hpar]
      exact ⟨hdist', Int.even_iff.2 (by omega)⟩
  · left
    push_cast
    rw [abs_of_neg (by linarith)]
    linarith

end Lies

/-! ## Rounding by the two bits -/

/-- A rational number with a sign. -/
def withSign : Sign → ℚ → ℚ
  | .negative, q => -q
  | .positive, q => q

/-- What an unpacked number is worth, if it is finite. -/
def worth : UnpackedFloat → ℚ
  | .finite s m e _ => withSign s (m * 2 ^ e)
  | _ => 0

/-- A mantissa and an exponent are in the form of a format: with all its places, or with the least
exponent. -/
structure Canonical (F : Format) (m : Nat) (e : ℤ) : Prop where
  /-- There are not too many places. -/
  lt : m < 2 ^ F.mantissaBits
  /-- The exponent is not too low. -/
  le : F.minExponent ≤ e
  /-- Places are missing only at the least exponent. -/
  full : e = F.minExponent ∨ 2 ^ (F.mantissaBits - 1) ≤ m

/-- An unpacked number is finite and in the form of a format. -/
def Regular (F : Format) : UnpackedFloat → Prop
  | .zero _ => True
  | .finite _ m e _ => Canonical F m e
  | _ => False

/-- An unpacked number is a rational number, rounded to a format. -/
structure Rounded (F : Format) (u : UnpackedFloat) (q : ℚ) : Prop where
  /-- It is in the form of the format. -/
  regular : Regular F u
  /-- Its worth is the nearest. -/
  worth_eq : worth u = nearest F q

section
variable {F : Format}

/-- Rounding leaves the sign alone. -/
theorem nearest_withSign (s : Sign) (q : ℚ) :
    nearest F (withSign s q) = withSign s (nearest F q) := by
  cases s
  · exact nearest_neg F q
  · rfl

/-- A number in the form of a format is worth a number of the format. -/
theorem Regular.representable {u : UnpackedFloat} (h : Regular F u) :
    Representable F (worth u) := by
  cases u with
  | zero s => exact representable_zero F
  | finite s m e hm =>
    have hlt : |(m : ℤ)| < 2 ^ F.mantissaBits := by
      rw [Nat.abs_cast]
      exact_mod_cast h.lt
    cases s
    · refine ⟨-m, e, by rwa [abs_neg], h.le, ?_⟩
      simp [worth, withSign]
    · exact ⟨m, e, hlt, h.le, by simp [worth, withSign]⟩
  | _ => exact h.elim

/-- A number in the form of the format is itself, rounded. -/
theorem Regular.rounded {u : UnpackedFloat} (h : Regular F u) : Rounded F u (worth u) :=
  ⟨h, (nearest_of_representable h.representable).symm⟩

/-- A mantissa that is not shorter than what is to be kept is shifted just by the difference of the
exponents. -/
theorem shiftToTargetExponent_of_le {m : Nat} {e : ℤ} {acc : Accuracy}
    (he : e ≤ F.targetExponent (totalExponent m e)) :
    shiftToTargetExponent F m e acc =
      (ExtendedMantissa.ofMantissaAndAccuracy m acc >>>
          (F.targetExponent (totalExponent m e) - e).toNat,
        F.targetExponent (totalExponent m e)) := by
  simp only [shiftToTargetExponent, shiftToExponent, Prod.mk.injEq, true_and]
  omega

/-- The exponent that a mantissa is shifted to is that of the last place to be kept. -/
theorem targetExponent_eq_unitExponent {m : Nat} {e : ℤ} {t : ℚ} (ht : 0 < t) (hm : (m : ℚ) ≤ t)
    (hm' : t < m + 1) (he : e ≤ F.targetExponent (totalExponent m e)) :
    F.targetExponent (totalExponent m e) = unitExponent F (t * 2 ^ e) := by
  have hpos := mul_pos ht (two_zpow_pos e)
  have htarget : F.targetExponent (totalExponent m e) =
    max (m.log2 + 1 + e - F.mantissaBits) F.minExponent := rfl
  rw [htarget] at he ⊢
  refine (unitExponent_eq hpos.ne' (le_max_right _ _) ?_ ?_).symm
  · have hpow : (m : ℚ) + 1 ≤ 2 ^ (m.log2 + 1) := by exact_mod_cast Nat.lt_log2_self (n := m)
    rw [abs_of_pos hpos]
    calc t * 2 ^ e < 2 ^ (m.log2 + 1) * 2 ^ e :=
          mul_lt_mul_of_pos_right (hm'.trans_le hpow) (two_zpow_pos e)
      _ = 2 ^ (((m.log2 + 1 : ℕ) : ℤ) + e) := by rw [zpow_add₀ two_ne_zero, zpow_natCast]
      _ ≤ _ := two_zpow_le (by omega)
  · rw [abs_of_pos hpos]
    refine or_iff_not_imp_left.2 fun hne => ?_
    have hbits := F.hm
    have hm₀ : m ≠ 0 := by
      rintro rfl
      simp only [Nat.log2_zero, Format.mantissaBits] at he hne
      omega
    have hpow : (2 : ℚ) ^ m.log2 ≤ m := by exact_mod_cast Nat.log2_self_le hm₀
    calc _ ≤ (2 : ℚ) ^ ((m.log2 : ℤ) + e) := two_zpow_le (by omega)
      _ = 2 ^ m.log2 * 2 ^ e := by rw [zpow_add₀ two_ne_zero, zpow_natCast]
      _ ≤ t * 2 ^ e := mul_le_mul_of_nonneg_right (hpow.trans hm) (two_zpow_pos e).le

/-- The second shift drops nothing: a mantissa that rounding has made one place too long ends in
zeros. -/
theorem shiftToTargetExponent_exact {n : Nat} {E : ℤ} (hn : n ≤ 2 ^ F.mantissaBits)
    (hE : F.minExponent ≤ E) (hfull : E = F.minExponent ∨ 2 ^ (F.mantissaBits - 1) ≤ n) :
    Canonical F (shiftToTargetExponent F n E .exact).1.mantissa
        (shiftToTargetExponent F n E .exact).2 ∧
      ((shiftToTargetExponent F n E .exact).1.mantissa : ℚ) *
        2 ^ (shiftToTargetExponent F n E .exact).2 = n * 2 ^ E := by
  have htarget : F.targetExponent (totalExponent n E) =
    max (n.log2 + 1 + E - F.mantissaBits) F.minExponent := rfl
  have hbits := mantissaBits_pos F
  simp only [shiftToTargetExponent, shiftToExponent, htarget]
  rcases lt_or_eq_of_le hn with hlt | rfl
  · have hlog : n.log2 < F.mantissaBits := by
      rcases Nat.eq_zero_or_pos n with rfl | hpos
      · rwa [Nat.log2_zero]
      · exact (Nat.log2_lt hpos.ne').2 hlt
    have hzero : (max (n.log2 + 1 + E - F.mantissaBits) F.minExponent - E).toNat = 0 := by omega
    rw [hzero]
    refine ⟨⟨hlt, by omega, ?_⟩, ?_⟩
    · exact hfull.imp_left fun h => by omega
    · simp only [Nat.cast_zero, add_zero]
      rfl
  · have hone : (max ((2 ^ F.mantissaBits).log2 + 1 + E - F.mantissaBits) F.minExponent - E).toNat
        = 1 := by
      rw [Nat.log2_two_pow]
      omega
    have hmantissa :
        (ExtendedMantissa.ofMantissaAndAccuracy (2 ^ F.mantissaBits) .exact >>> 1).mantissa =
          2 ^ (F.mantissaBits - 1) := by
      change 2 ^ F.mantissaBits / 2 = _
      rw [← Nat.pow_pred_mul hbits]
      simp
    rw [hone, hmantissa]
    refine ⟨⟨Nat.pow_lt_pow_right one_lt_two (by omega), by omega, .inr le_rfl⟩, ?_⟩
    push_cast
    rw [← zpow_natCast, ← zpow_natCast, ← zpow_add₀ two_ne_zero, ← zpow_add₀ two_ne_zero]
    congr 1
    omega

/-- The mantissa that the first shift and the two bits come to. -/
theorem roundedMantissa_shift {m : Nat} {e : ℤ} {acc : Accuracy} {t : ℚ} {n : Nat} {E : ℤ}
    (h : Lies (.ofMantissaAndAccuracy m acc) t)
    (hE : F.targetExponent (totalExponent m e) = E) (he : e ≤ E)
    (hn : (ExtendedMantissa.ofMantissaAndAccuracy m acc >>> (E - e).toNat).roundedMantissa = n) :
    n ≤ 2 ^ F.mantissaBits ∧ (E = F.minExponent ∨ 2 ^ (F.mantissaBits - 1) ≤ n) ∧
      (n : ℚ) * 2 ^ E = nearest F (t * 2 ^ e) := by
  have hbounds : (m : ℚ) ≤ t ∧ t < m + 1 := by
    cases acc with
    | exact => exact h.bounds
    | inexact o => cases o <;> exact h.bounds
  have hquot : t / 2 ^ (E - e).toNat = t * 2 ^ e / 2 ^ E := by
    rw [← zpow_natCast, Int.toNat_of_nonneg (by omega), zpow_sub₀ two_ne_zero]
    field_simp
  have hnear := (h.shiftRight (E - e).toNat).nearestEven_roundedMantissa
  rw [hn, hquot] at hnear
  rcases (m.cast_nonneg.trans hbounds.1).eq_or_lt with rfl | ht
  · have hzero : NearestEven 0 0 := .inl (by norm_num)
    rw [zero_mul, zero_div] at hnear
    obtain rfl : n = 0 := by exact_mod_cast hnear.unique hzero
    obtain rfl : m = 0 := by exact_mod_cast le_antisymm hbounds.1 m.cast_nonneg
    have hleast : E = F.minExponent := by
      have hbits := F.hm
      have htarget : F.targetExponent (totalExponent 0 e) =
        max (1 + e - F.mantissaBits) F.minExponent := by
          simp [Format.targetExponent, totalExponent]
      simp only [Format.mantissaBits] at htarget
      omega
    exact ⟨Nat.zero_le _, .inl hleast, by rw [zero_mul, nearest_zero, Nat.cast_zero, zero_mul]⟩
  · have hunit : E = unitExponent F (t * 2 ^ e) :=
      hE ▸ targetExponent_eq_unitExponent ht hbounds.1 hbounds.2 (hE ▸ he)
    have hpos := mul_pos ht (two_zpow_pos e)
    rw [hunit] at hnear
    refine ⟨?_, ?_, by rw [hunit, nearest, hnear.eq, Int.cast_natCast]⟩
    · have hlt := (abs_lt.1 (abs_div_zpow_unitExponent_lt F (t * 2 ^ e))).2
      have hle := hnear.ge_of_ge (k := 2 ^ F.mantissaBits) (by exact_mod_cast hlt.le)
      exact_mod_cast hle
    · refine or_iff_not_imp_left.2 fun hne => ?_
      have hfull := zpow_unitExponent_le_abs hpos.ne'
        (lt_of_le_of_ne (minExponent_le_unitExponent F _) (hunit ▸ Ne.symm hne))
      have hle := hnear.le_of_le (k := 2 ^ (F.mantissaBits - 1)) ?_
      · exact_mod_cast hle
      rw [le_div_iff₀ (two_zpow_pos _)]
      refine le_trans (le_of_eq ?_) (hfull.trans_eq (abs_of_pos hpos))
      have hbits := mantissaBits_pos F
      push_cast
      rw [← zpow_natCast, ← zpow_add₀ two_ne_zero]
      congr 1
      omega

/-- **Rounding by the two bits.** A mantissa that is not shorter than what is to be kept is rounded
to the nearest number. -/
theorem rounded_roundWithAccuracy {s : Sign} {m : Nat} {e : ℤ} {acc : Accuracy} {t : ℚ}
    (h : Lies (.ofMantissaAndAccuracy m acc) t)
    (he : e ≤ F.targetExponent (totalExponent m e)) :
    Rounded F (roundWithAccuracy F s m e acc) (withSign s (t * 2 ^ e)) := by
  obtain ⟨hn, hfull, hnear⟩ := roundedMantissa_shift h rfl he rfl
  have hleast : F.minExponent ≤ F.targetExponent (totalExponent m e) := le_max_right _ _
  obtain ⟨hcan, hworth⟩ := shiftToTargetExponent_exact hn hleast hfull
  simp only [roundWithAccuracy, shiftToTargetExponent_of_le he]
  rw [hnear] at hworth
  split_ifs with hzero
  · refine ⟨trivial, ?_⟩
    rw [nearest_withSign, ← hworth, hzero, Nat.cast_zero, zero_mul]
    cases s <;> simp [worth, withSign]
  · refine ⟨hcan, ?_⟩
    rw [nearest_withSign, ← hworth]
    rfl

/-! ## The four operations -/

/-- A number brought to another exponent is worth the same. -/
theorem decreaseExponent_worth (m : Nat) (e E : ℤ) :
    ((decreaseExponent m e E).1 : ℚ) * 2 ^ (decreaseExponent m e E).2 = m * 2 ^ e := by
  simp only [decreaseExponent, Nat.shiftLeft_eq]
  push_cast
  rw [mul_assoc, ← zpow_natCast, ← zpow_add₀ two_ne_zero, add_sub_cancel]

/-- A number is brought to the lower one of its own exponent and the other. -/
theorem decreaseExponent_snd (m : Nat) (e E : ℤ) : (decreaseExponent m e E).2 = min e E := by
  simp only [decreaseExponent]
  omega

/-- A mantissa has one place more for each place that it is shifted. -/
theorem log2_shiftLeft {m : Nat} (hm : m ≠ 0) (k : Nat) : (m <<< k).log2 = m.log2 + k := by
  have hpos : 0 < 2 ^ k := Nat.two_pow_pos k
  rw [Nat.shiftLeft_eq, Nat.log2_eq_iff (Nat.mul_ne_zero hm hpos.ne'), pow_add, Nat.add_right_comm,
    pow_add]
  exact ⟨Nat.mul_le_mul_right _ (Nat.log2_self_le hm),
    Nat.mul_lt_mul_of_pos_right Nat.lt_log2_self hpos⟩

/-- A number brought to another exponent has its first place where it was. -/
theorem totalExponent_decreaseExponent {m : Nat} (hm : m ≠ 0) (e E : ℤ) :
    totalExponent (decreaseExponent m e E).1 (decreaseExponent m e E).2 = totalExponent m e := by
  simp only [decreaseExponent, totalExponent, log2_shiftLeft hm]
  omega

/-- A mantissa with an exponent, as short as it may be, is rounded to the nearest number. -/
theorem rounded_round (s : Sign) {m : Nat} (hm : m ≠ 0) (e : ℤ) :
    Rounded F (UnpackedFloat.round F s m e) (withSign s (m * 2 ^ e)) := by
  simp only [UnpackedFloat.round]
  rw [← decreaseExponent_worth m e (F.targetExponent (totalExponent m e))]
  refine rounded_roundWithAccuracy (.exact _) ?_
  rw [totalExponent_decreaseExponent hm, decreaseExponent_snd]
  exact min_le_right _ _

/-- An integer with an exponent is rounded, whatever its sign; zero gets the sign it is given. -/
theorem rounded_normalize (m e : ℤ) (s : Sign) :
    Rounded F (UnpackedFloat.normalize F m e s) (m * 2 ^ e) := by
  unfold UnpackedFloat.normalize
  rcases lt_trichotomy m 0 with h | rfl | h
  · have habs : (((-m).toNat : ℤ) : ℚ) = ((-m : ℤ) : ℚ) := by rw [Int.toNat_of_nonneg (by omega)]
    have hround := rounded_round (F := F) .negative (m := (-m).toNat) (by omega) e
    rw [← Int.cast_natCast, habs, Int.cast_neg, neg_mul, withSign, neg_neg] at hround
    rw [compare_lt_iff_lt.2 h]
    exact hround
  · refine ⟨trivial, ?_⟩
    rw [Int.cast_zero, zero_mul, nearest_zero]
    rfl
  · have habs : ((m.toNat : ℤ) : ℚ) = m := by rw [Int.toNat_of_nonneg h.le]
    have hround := rounded_round (F := F) .positive (m := m.toNat) (by omega) e
    rw [← Int.cast_natCast, habs] at hround
    rw [compare_gt_iff_gt.2 h]
    exact hround

/-- A number brought to a lower exponent, as an integer with a sign. -/
theorem apply_decreaseExponent (s : Sign) (m : Nat) {e E : ℤ} (h : E ≤ e) :
    ((s.apply (decreaseExponent m e E).1 : ℤ) : ℚ) * 2 ^ E = withSign s (m * 2 ^ e) := by
  have hworth := decreaseExponent_worth m e E
  rw [decreaseExponent_snd, min_eq_right h] at hworth
  rw [← hworth]
  cases s <;> simp [Sign.apply, withSign]

/-- Zero is rounded already, with either sign. -/
theorem rounded_zero (F : Format) (s : Sign) : Rounded F (.zero s) 0 :=
  ⟨trivial, (nearest_zero F).symm⟩

section
variable {a b : UnpackedFloat}

/-- A sum is the exact one, rounded. -/
theorem rounded_add (ha : Regular F a) (hb : Regular F b) :
    Rounded F (UnpackedFloat.add F a b) (worth a + worth b) := by
  cases a with
  | zero s₁ =>
    cases b with
    | zero s₂ =>
      have hzero : (0 : ℚ) + 0 = 0 := add_zero 0
      simp only [UnpackedFloat.add, worth, hzero]
      split_ifs
      · exact rounded_zero F _
      · exact rounded_zero F _
    | finite s₂ m₂ e₂ h₂ =>
      have h := hb.rounded
      rwa [← zero_add (worth _)] at h
    | _ => exact hb.elim
  | finite s₁ m₁ e₁ h₁ =>
    cases b with
    | zero s₂ =>
      have h := ha.rounded
      rwa [← add_zero (worth _)] at h
    | finite s₂ m₂ e₂ h₂ =>
      have h := rounded_normalize (F := F) (s₁.apply (decreaseExponent m₁ e₁ (min e₁ e₂)).1 +
        s₂.apply (decreaseExponent m₂ e₂ (min e₁ e₂)).1) (min e₁ e₂) .positive
      rwa [Int.cast_add, add_mul, apply_decreaseExponent s₁ m₁ (min_le_left e₁ e₂),
        apply_decreaseExponent s₂ m₂ (min_le_right e₁ e₂)] at h
    | _ => exact hb.elim
  | _ => exact ha.elim

/-- The opposite of an unpacked number is worth the opposite. -/
theorem worth_neg (u : UnpackedFloat) : worth u.neg = -worth u := by
  cases u with
  | finite s m e hm =>
    cases s
    · exact (neg_neg _).symm
    · rfl
  | _ => exact neg_zero.symm

/-- The opposite of a number in the form of a format is in that form. -/
theorem Regular.neg (h : Regular F a) : Regular F a.neg := by
  cases a with
  | zero s => trivial
  | finite s m e hm => exact h
  | _ => exact h.elim

/-- Subtracting is adding the opposite, with the same zeros and the same infinities. -/
theorem sub_eq_add (F : Format) (a b : UnpackedFloat) :
    UnpackedFloat.sub F a b = UnpackedFloat.add F a b.neg := by
  cases a with
  | finite s₁ m₁ e₁ h₁ =>
    cases b with
    | finite s₂ m₂ e₂ h₂ =>
      have happly : ∀ n : ℤ, s₁.apply (decreaseExponent m₁ e₁ (min e₁ e₂)).1 - s₂.apply n =
          s₁.apply (decreaseExponent m₁ e₁ (min e₁ e₂)).1 + (-s₂).apply n := fun n => by
        rw [sub_eq_add_neg]
        cases s₂
        · exact congrArg _ (neg_neg n)
        · rfl
      exact congrArg (UnpackedFloat.normalize F · (min e₁ e₂) .positive) (happly _)
    | _ => rfl
  | _ => cases b <;> rfl

/-- A difference is the exact one, rounded. -/
theorem rounded_sub (ha : Regular F a) (hb : Regular F b) :
    Rounded F (UnpackedFloat.sub F a b) (worth a - worth b) := by
  rw [sub_eq_add, sub_eq_add_neg, ← worth_neg]
  exact rounded_add ha hb.neg

/-- One is a multiple of the least place of every format. -/
theorem minExponent_nonpos (F : Format) : F.minExponent ≤ 0 := by
  have hbits := F.hm
  have hpow : (1 : ℤ) ≤ 2 ^ (F.exponentBits - 1) := one_le_pow₀ one_le_two
  simp only [Format.minExponent, Format.mantissaBits]
  push_cast
  omega

/-- The signs of a product are multiplied apart from the numbers. -/
theorem withSign_mul (s₁ s₂ : Sign) (q r : ℚ) :
    withSign (s₁ * s₂) (q * r) = withSign s₁ q * withSign s₂ r := by
  cases s₁ <;> cases s₂
  · exact (neg_mul_neg q r).symm
  · exact (neg_mul q r).symm
  · exact (mul_neg q r).symm
  · rfl

/-- The signs of a quotient are divided apart from the numbers. -/
theorem withSign_div (s₁ s₂ : Sign) (q r : ℚ) :
    withSign (s₁ / s₂) (q / r) = withSign s₁ q / withSign s₂ r := by
  cases s₁ <;> cases s₂
  · exact (neg_div_neg_eq q r).symm
  · exact (neg_div r q).symm
  · exact (div_neg q).symm
  · rfl

/-- A product of mantissas is not shorter than what is to be kept of it. -/
theorem le_targetExponent_mul {m₁ m₂ : Nat} {e₁ e₂ : ℤ} (h₁ : Canonical F m₁ e₁)
    (h₂ : Canonical F m₂ e₂) (hm₁ : 0 < m₁) (hm₂ : 0 < m₂) :
    e₁ + e₂ ≤ F.targetExponent (totalExponent (m₁ * m₂) (e₁ + e₂)) := by
  have hbits := mantissaBits_pos F
  have hleast := minExponent_nonpos F
  have htarget : F.targetExponent (totalExponent (m₁ * m₂) (e₁ + e₂)) =
    max ((m₁ * m₂).log2 + 1 + (e₁ + e₂) - F.mantissaBits) F.minExponent := rfl
  have hlog : ∀ h : 2 ^ (F.mantissaBits - 1) ≤ m₁ * m₂, F.mantissaBits - 1 ≤ (m₁ * m₂).log2 :=
    (Nat.le_log2 (Nat.mul_pos hm₁ hm₂).ne').2
  rcases h₁.full with he₁ | hfull
  · rcases h₂.full with he₂ | hfull
    · omega
    · have hle := hlog (hfull.trans (Nat.le_mul_of_pos_left m₂ hm₁))
      omega
  · have hle := hlog (hfull.trans (Nat.le_mul_of_pos_right m₁ hm₂))
    omega

/-- A product is rounded when it has no fewer places than are to be kept of it. -/
theorem rounded_mul_finite {s₁ s₂ : Sign} {m₁ m₂ : Nat} {e₁ e₂ : ℤ} {h₁ : 0 < m₁} {h₂ : 0 < m₂}
    (he : e₁ + e₂ ≤ F.targetExponent (totalExponent (m₁ * m₂) (e₁ + e₂))) :
    Rounded F (UnpackedFloat.mul F (.finite s₁ m₁ e₁ h₁) (.finite s₂ m₂ e₂ h₂))
      (worth (.finite s₁ m₁ e₁ h₁) * worth (.finite s₂ m₂ e₂ h₂)) := by
  have h := rounded_roundWithAccuracy (s := s₁ * s₂) (.exact (m₁ * m₂)) he
  have hworth : ((m₁ * m₂ : ℕ) : ℚ) * 2 ^ (e₁ + e₂) = m₁ * 2 ^ e₁ * (m₂ * 2 ^ e₂) := by
    push_cast
    rw [zpow_add₀ two_ne_zero]
    ring
  rwa [hworth, withSign_mul] at h

/-- A product is the exact one, rounded. -/
theorem rounded_mul (ha : Regular F a) (hb : Regular F b) :
    Rounded F (UnpackedFloat.mul F a b) (worth a * worth b) := by
  cases a with
  | zero s₁ =>
    cases b with
    | zero s₂ => exact (mul_zero (0 : ℚ)).symm ▸ rounded_zero F _
    | finite s₂ m₂ e₂ h₂ => exact (zero_mul (worth (.finite s₂ m₂ e₂ h₂))).symm ▸ rounded_zero F _
    | _ => exact hb.elim
  | finite s₁ m₁ e₁ h₁ =>
    cases b with
    | zero s₂ => exact (mul_zero (worth (.finite s₁ m₁ e₁ h₁))).symm ▸ rounded_zero F _
    | finite s₂ m₂ e₂ h₂ => exact rounded_mul_finite (le_targetExponent_mul ha hb h₁ h₂)
    | _ => exact hb.elim
  | _ => exact ha.elim

/-- A quotient of mantissas is computed with no fewer places than are to be kept of it. -/
theorem le_targetExponent_div {m₁ m₂ : Nat} {e₁ e₂ e : ℤ} (hm₁ : 0 < m₁) (hm₂ : 0 < m₂)
    (he : e = min (e₁ - e₂) (F.targetExponent (totalExponent m₁ e₁ - totalExponent m₂ e₂))) :
    e ≤ F.targetExponent (totalExponent (m₁ <<< (e₁ - e₂ - e).toNat / m₂) e) := by
  have htarget : F.targetExponent (totalExponent m₁ e₁ - totalExponent m₂ e₂) =
    max (m₁.log2 + 1 + e₁ - (m₂.log2 + 1 + e₂) - F.mantissaBits) F.minExponent := rfl
  have htarget' : F.targetExponent (totalExponent (m₁ <<< (e₁ - e₂ - e).toNat / m₂) e) =
    max ((m₁ <<< (e₁ - e₂ - e).toNat / m₂).log2 + 1 + e - F.mantissaBits) F.minExponent := rfl
  have hbits := mantissaBits_pos F
  rw [htarget] at he
  rw [htarget']
  rcases le_or_gt e F.minExponent with hle | hlt
  · omega
  -- The quotient has all its places, since the divisor has fewer than the dividend lacks.
  have hshift : m₂.log2 + 1 + (F.mantissaBits - 1) ≤ m₁.log2 + (e₁ - e₂ - e).toNat := by omega
  have hquot : 2 ^ (F.mantissaBits - 1) ≤ m₁ <<< (e₁ - e₂ - e).toNat / m₂ := by
    rw [Nat.le_div_iff_mul_le hm₂, Nat.shiftLeft_eq]
    calc 2 ^ (F.mantissaBits - 1) * m₂
        ≤ 2 ^ (F.mantissaBits - 1) * 2 ^ (m₂.log2 + 1) :=
          Nat.mul_le_mul_left _ Nat.lt_log2_self.le
      _ = 2 ^ (m₂.log2 + 1 + (F.mantissaBits - 1)) := by rw [← pow_add, Nat.add_comm]
      _ ≤ 2 ^ (m₁.log2 + (e₁ - e₂ - e).toNat) := Nat.pow_le_pow_right two_pos hshift
      _ = 2 ^ m₁.log2 * 2 ^ (e₁ - e₂ - e).toNat := pow_add ..
      _ ≤ m₁ * 2 ^ (e₁ - e₂ - e).toNat := Nat.mul_le_mul_right _ (Nat.log2_self_le hm₁.ne')
  have hpos := (Nat.two_pow_pos _).trans_le hquot
  have hlog := (Nat.le_log2 hpos.ne').2 hquot
  omega

/-- A quotient of two numbers that are not zero is the exact one, rounded. -/
theorem rounded_div_finite (s₁ s₂ : Sign) {m₁ m₂ : Nat} (e₁ e₂ : ℤ) (h₁ : 0 < m₁) (h₂ : 0 < m₂) :
    Rounded F (UnpackedFloat.div F (.finite s₁ m₁ e₁ h₁) (.finite s₂ m₂ e₂ h₂))
      (worth (.finite s₁ m₁ e₁ h₁) / worth (.finite s₂ m₂ e₂ h₂)) := by
  simp only [UnpackedFloat.div, divCore]
  generalize he :
    min (e₁ - e₂) (F.targetExponent (totalExponent m₁ e₁ - totalExponent m₂ e₂)) = e
  have h := rounded_roundWithAccuracy (s := s₁ / s₂)
    (.quotient (m₁ <<< (e₁ - e₂ - e).toNat) h₂) (le_targetExponent_div h₁ h₂ he.symm)
  have hle : e ≤ e₁ - e₂ := he ▸ min_le_left _ _
  have hworth : ((m₁ <<< (e₁ - e₂ - e).toNat : ℕ) : ℚ) / m₂ * 2 ^ e =
      m₁ * 2 ^ e₁ / (m₂ * 2 ^ e₂) := by
    rw [Nat.shiftLeft_eq, Nat.cast_mul, Nat.cast_pow, Nat.cast_two, ← zpow_natCast,
      Int.toNat_of_nonneg (by omega), zpow_sub₀ two_ne_zero, zpow_sub₀ two_ne_zero]
    have hm₂ : (m₂ : ℚ) ≠ 0 := by exact_mod_cast h₂.ne'
    field_simp
  rwa [hworth, withSign_div] at h

/-- A quotient is the exact one, rounded, unless the divisor is zero. -/
theorem rounded_div (ha : Regular F a) (hb : Regular F b) (hne : worth b ≠ 0) :
    Rounded F (UnpackedFloat.div F a b) (worth a / worth b) := by
  cases b with
  | zero s₂ => exact absurd rfl hne
  | finite s₂ m₂ e₂ h₂ =>
    cases a with
    | zero s₁ => exact (zero_div (worth (.finite s₂ m₂ e₂ h₂))).symm ▸ rounded_zero F _
    | finite s₁ m₁ e₁ h₁ => exact rounded_div_finite s₁ s₂ e₁ e₂ h₁ h₂
    | _ => exact ha.elim
  | _ => exact hb.elim

end

/-! ## Decimals -/

/-- How a decimal is computed when its exponent is not negative: as a product with the power of ten,
after as many places were added as are to be kept. -/
theorem mul_powerOfTen {e : ℤ} (he : 0 ≤ e) (m k : ℕ) :
    ((m <<< k : ℕ) : ℚ) * 2 ^ (-(k : ℤ)) * (((10 ^ e.toNat : ℕ) : ℚ) * 2 ^ (0 : ℤ)) =
      m * 10 ^ e := by
  obtain ⟨n, rfl⟩ := Int.eq_ofNat_of_zero_le he
  rw [Nat.shiftLeft_eq, zpow_neg]
  push_cast
  field_simp
  simp

/-- How a decimal is computed when its exponent is not positive: as a quotient by the power of
ten. -/
theorem div_powerOfTen {e : ℤ} (he : e ≤ 0) (m : ℕ) :
    (m : ℚ) * 2 ^ (0 : ℤ) / (((10 ^ (-e).toNat : ℕ) : ℚ) * 2 ^ (0 : ℤ)) = m * 10 ^ e := by
  obtain ⟨n, rfl⟩ := Int.exists_eq_neg_ofNat he
  rw [neg_neg, Int.toNat_natCast, zpow_neg]
  push_cast
  field_simp
  simp

/-- A decimal whose exponent is neither too high nor too low to compute its power of ten is
rounded. -/
theorem rounded_ofScientific {m : Nat} {e : ℤ} (hm : m ≠ 0) (hhigh : e ≤ 2 ^ F.exponentBits)
    (hlow : -((2 : ℤ) ^ F.exponentBits + m.log2) ≤ e) :
    Rounded F (UnpackedFloat.ofScientific F m e) (m * 10 ^ e) := by
  rw [UnpackedFloat.ofScientific, dif_neg hm, if_neg hhigh.not_gt, if_neg hlow.not_gt]
  split
  case isTrue he =>
    -- The mantissa is filled up with as many zeros as are to be kept of the product.
    have hpos : 0 < m <<< F.mantissaBits * 10 ^ e.toNat := by
      rw [Nat.shiftLeft_eq]
      positivity
    have hlog : F.mantissaBits ≤ (m <<< F.mantissaBits * 10 ^ e.toNat).log2 := by
      rw [Nat.le_log2 hpos.ne', Nat.shiftLeft_eq]
      calc 2 ^ F.mantissaBits ≤ m * 2 ^ F.mantissaBits := Nat.le_mul_of_pos_left _ (by omega)
        _ ≤ m * 2 ^ F.mantissaBits * 10 ^ e.toNat := Nat.le_mul_of_pos_right _ (by positivity)
    have htarget : -(F.mantissaBits : ℤ) + 0 ≤ F.targetExponent
        (totalExponent (m <<< F.mantissaBits * 10 ^ e.toNat) (-F.mantissaBits + 0)) := by
      simp only [Format.targetExponent, totalExponent]
      omega
    have hmantissa : 0 < m <<< F.mantissaBits := by
      rw [Nat.shiftLeft_eq]
      positivity
    have hpower : 0 < 10 ^ e.toNat := by positivity
    have hround : Rounded F ((UnpackedFloat.finite .positive (m <<< F.mantissaBits)
        (-F.mantissaBits) hmantissa).mul F (.finite .positive (10 ^ e.toNat) 0 hpower)) _ :=
      rounded_mul_finite htarget
    rw [← mul_powerOfTen he m F.mantissaBits]
    exact hround
  case isFalse he =>
    have hround := rounded_div_finite (F := F) .positive .positive 0 0 (Nat.pos_of_ne_zero hm)
      (Nat.pow_pos (n := (-e).toNat) (by decide : 0 < 10))
    rw [← div_powerOfTen (by omega : e ≤ 0) m]
    exact hround

end

end CurveArea.Rounding
