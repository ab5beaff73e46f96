import Mathlib

/-!
# Rounding to a binary format

The numbers of a format are the multiples of powers of two that have no more than so many binary
places and no exponent below the least one; there is no largest one here. `nearest` rounds a
rational number to the nearest of them, ties to even. What is proved of it rests on two facts: it is
the nearest (`abs_sub_nearest_le`), and it is a function. Together they make it monotone, whatever
happens to ties.
-/

namespace CurveArea.Rounding

open Float.Model (Format)

/-! ## Integers -/

/-- An integer is nearest to a number, and even if another one is as near. -/
def NearestEven (q : ℚ) (n : ℤ) : Prop := |q - n| < 1 / 2 ∨ |q - n| = 1 / 2 ∧ Even n

/-- The integer nearest to a number, the even one of two. -/
def nearestEven (q : ℚ) : ℤ :=
  if Int.fract q < 1 / 2 then ⌊q⌋ else if 1 / 2 < Int.fract q then ⌊q⌋ + 1 else ⌊q⌋ + ⌊q⌋ % 2

namespace NearestEven

variable {q : ℚ} {m n : ℤ}

/-- The nearest integer is half a unit away, or less. -/
theorem dist_le (h : NearestEven q n) : |q - n| ≤ 1 / 2 := by
  rcases h with h | ⟨h, -⟩
  · exact h.le
  · exact h.le

/-- Of two neighbours only one is even, and it alone is nearest to the number half-way. -/
theorem not_succ (h : NearestEven q n) : ¬ NearestEven q (n + 1) := by
  intro h'
  obtain ⟨-, hle⟩ := abs_le.1 h.dist_le
  obtain ⟨hge, -⟩ := abs_le.1 h'.dist_le
  push_cast at hge
  have hmid : q - n = 1 / 2 := by linarith
  have hmid' : q - ((n + 1 : ℤ) : ℚ) = -(1 / 2) := by
    push_cast
    linarith
  rcases h with h | ⟨-, heven⟩
  · rw [hmid] at h
    norm_num at h
  rcases h' with h' | ⟨-, heven'⟩
  · rw [hmid'] at h'
    norm_num at h'
  exact Int.even_add_one.1 heven' heven

/-- Only one integer is nearest. -/
theorem unique (hm : NearestEven q m) (hn : NearestEven q n) : m = n := by
  obtain ⟨hm₁, hm₂⟩ := abs_le.1 hm.dist_le
  obtain ⟨hn₁, hn₂⟩ := abs_le.1 hn.dist_le
  have hmn : m ≤ n + 1 := by
    have hcast : (m : ℚ) ≤ ((n + 1 : ℤ) : ℚ) := by
      push_cast
      linarith
    exact_mod_cast hcast
  have hnm : n ≤ m + 1 := by
    have hcast : (n : ℚ) ≤ ((m + 1 : ℤ) : ℚ) := by
      push_cast
      linarith
    exact_mod_cast hcast
  rcases (by omega : m = n ∨ m = n + 1 ∨ n = m + 1) with h | h | h
  · exact h
  · exact absurd (h ▸ hm) hn.not_succ
  · exact absurd (h ▸ hn) hm.not_succ

/-- The integer nearest to the opposite is the opposite of the nearest one. -/
theorem neg (h : NearestEven q n) : NearestEven (-q) (-n) := by
  have hneg : |-q - ((-n : ℤ) : ℚ)| = |q - n| := by
    rw [← abs_neg]
    congr 1
    push_cast
    ring
  unfold NearestEven
  rw [hneg, even_neg]
  exact h

/-- No integer is nearer. -/
theorem dist_le_dist (h : NearestEven q n) (k : ℤ) : |q - n| ≤ |q - k| := by
  obtain ⟨h₁, h₂⟩ := abs_le.1 h.dist_le
  rcases lt_trichotomy k n with hk | rfl | hk
  · have hcast : (k : ℚ) + 1 ≤ n := by exact_mod_cast hk
    have hfar : q - k ≤ |q - k| := le_abs_self _
    exact h.dist_le.trans (by linarith)
  · rfl
  · have hcast : (n : ℚ) + 1 ≤ k := by exact_mod_cast hk
    have hfar : -(q - k) ≤ |q - k| := neg_le_abs _
    exact h.dist_le.trans (by linarith)

end NearestEven

/-- `nearestEven` finds the nearest integer. -/
theorem nearestEven_spec (q : ℚ) : NearestEven q (nearestEven q) := by
  have hsplit : q - ⌊q⌋ = Int.fract q := rfl
  have h₀ := Int.fract_nonneg q
  have h₁ := Int.fract_lt_one q
  unfold nearestEven
  split_ifs with hlt hgt
  · left
    rw [hsplit, abs_of_nonneg h₀]
    exact hlt
  · left
    have hnext : q - ((⌊q⌋ + 1 : ℤ) : ℚ) = -(1 - Int.fract q) := by
      push_cast
      linarith
    rw [hnext, abs_neg, abs_of_nonneg (by linarith)]
    linarith
  · right
    have hhalf : Int.fract q = 1 / 2 := le_antisymm (not_lt.1 hgt) (not_lt.1 hlt)
    rcases Int.emod_two_eq_zero_or_one ⌊q⌋ with hpar | hpar
    · rw [hpar, add_zero, hsplit, hhalf]
      exact ⟨by norm_num, Int.even_iff.2 hpar⟩
    · have hnext : q - ((⌊q⌋ + 1 : ℤ) : ℚ) = -(1 / 2) := by
        push_cast
        linarith
      rw [hpar, hnext]
      exact ⟨by norm_num, Int.even_iff.2 (by omega)⟩

/-- The nearest integer is the one that `nearestEven` finds. -/
theorem NearestEven.eq {q : ℚ} {n : ℤ} (h : NearestEven q n) : nearestEven q = n :=
  (nearestEven_spec q).unique h

/-- An integer that bounds a number from below bounds the nearest one. -/
theorem NearestEven.le_of_le {q : ℚ} {n k : ℤ} (h : NearestEven q n) (hk : (k : ℚ) ≤ q) :
    k ≤ n := by
  obtain ⟨-, hq⟩ := abs_le.1 h.dist_le
  have hcast : (k : ℚ) < ((n + 1 : ℤ) : ℚ) := by
    push_cast
    linarith
  exact Int.lt_add_one_iff.1 (by exact_mod_cast hcast)

/-- An integer that bounds a number from above bounds the nearest one. -/
theorem NearestEven.ge_of_ge {q : ℚ} {n k : ℤ} (h : NearestEven q n) (hk : q ≤ k) : n ≤ k := by
  have hneg := h.neg.le_of_le (k := -k) (by push_cast; linarith)
  omega

/-! ## Numbers of a format -/

/-- A number of a format, however large. -/
def Representable (F : Format) (v : ℚ) : Prop :=
  ∃ m e : ℤ, |m| < 2 ^ F.mantissaBits ∧ F.minExponent ≤ e ∧ v = m * 2 ^ e

/-- The exponent of the last place that is kept of a number. -/
def unitExponent (F : Format) (q : ℚ) : ℤ := F.targetExponent (Int.log 2 |q| + 1)

/-- The number of a format nearest to a rational number, ties to even. -/
def nearest (F : Format) (q : ℚ) : ℚ :=
  nearestEven (q / 2 ^ unitExponent F q) * 2 ^ unitExponent F q

section
variable {F : Format} {q r v : ℚ} {m e E : ℤ}

/-- Powers of two are positive. -/
theorem two_zpow_pos (e : ℤ) : (0 : ℚ) < 2 ^ e := zpow_pos two_pos e

/-- Powers of two grow with the exponent. -/
theorem two_zpow_le (h : e ≤ E) : (2 : ℚ) ^ e ≤ 2 ^ E := zpow_le_zpow_right₀ one_le_two h

/-- A number of a format has a place. -/
theorem mantissaBits_pos (F : Format) : 0 < F.mantissaBits := by
  unfold Format.mantissaBits
  omega

/-- One more multiple of a place is a number of the format, of the next place. -/
theorem representable_of_abs_le (hm : |m| ≤ 2 ^ F.mantissaBits) (he : F.minExponent ≤ e) :
    Representable F (m * 2 ^ e) := by
  rcases lt_or_eq_of_le hm with hlt | heq
  · exact ⟨m, e, hlt, he, rfl⟩
  obtain ⟨k, hk⟩ : ∃ k, F.mantissaBits = k + 1 :=
    ⟨_, (Nat.succ_pred_eq_of_pos (mantissaBits_pos F)).symm⟩
  have hpow : (2 : ℤ) ^ F.mantissaBits = 2 ^ k * 2 := by rw [hk, pow_succ]
  have hkpos : (0 : ℤ) < 2 ^ k := by positivity
  have hexp : (2 : ℚ) ^ (e + 1) = 2 ^ e * 2 := zpow_add_one₀ two_ne_zero e
  rcases abs_choice m with habs | habs
  · have hval : m = 2 ^ k * 2 := by omega
    refine ⟨2 ^ k, e + 1, by rw [abs_of_pos hkpos]; omega, by omega, ?_⟩
    rw [hval, hexp]
    push_cast
    ring
  · have hval : m = -(2 ^ k * 2) := by omega
    refine ⟨-2 ^ k, e + 1, by rw [abs_neg, abs_of_pos hkpos]; omega, by omega, ?_⟩
    rw [hval, hexp]
    push_cast
    ring

/-- The powers of two are numbers of the format, from the least place on. -/
theorem representable_zpow (he : F.minExponent ≤ e) : Representable F (2 ^ e) := by
  have hone : |(1 : ℤ)| ≤ 2 ^ F.mantissaBits := one_le_pow₀ one_le_two
  have h := representable_of_abs_le hone he
  rwa [Int.cast_one, one_mul] at h

/-- Zero is a number of every format. -/
theorem representable_zero (F : Format) : Representable F 0 :=
  ⟨0, F.minExponent, by simp, le_rfl, by simp⟩

/-- The opposite of a number of the format is one. -/
theorem Representable.neg (hq : Representable F q) : Representable F (-q) := by
  obtain ⟨m, e, hm, he, rfl⟩ := hq
  exact ⟨-m, e, by rwa [abs_neg], he, by rw [Int.cast_neg, neg_mul]⟩

/-- A number of the format is one when it is doubled, however often. -/
theorem Representable.mul_two_pow (hq : Representable F q) (n : ℕ) :
    Representable F (q * 2 ^ n) := by
  obtain ⟨m, e, hm, he, rfl⟩ := hq
  refine ⟨m, e + n, hm, he.trans (le_add_of_nonneg_right n.cast_nonneg), ?_⟩
  rw [zpow_add₀ two_ne_zero, zpow_natCast, mul_assoc]

/-- The numbers of a format are multiples of the least place. -/
theorem Representable.exists_int (h : Representable F v) : ∃ k : ℤ, v = k * 2 ^ F.minExponent := by
  obtain ⟨m, e, -, he, rfl⟩ := h
  refine ⟨m * 2 ^ (e - F.minExponent).toNat, ?_⟩
  push_cast
  rw [mul_assoc, ← zpow_natCast, Int.toNat_of_nonneg (by omega), ← zpow_add₀ two_ne_zero,
    sub_add_cancel]

/-- A number of a format has no places after the point if it has all that it can have before it. -/
theorem Representable.exists_int_of_le (h : Representable F v)
    (hle : 2 ^ (F.mantissaBits - 1) ≤ v) : ∃ k : ℤ, v = k := by
  obtain ⟨m, e, hm, -, rfl⟩ := h
  have hcast : (m : ℚ) < 2 ^ F.mantissaBits := by exact_mod_cast (le_abs_self m).trans_lt hm
  have he : 0 ≤ e := by
    by_contra hneg
    have hlt : (2 : ℚ) ^ (F.mantissaBits - 1) < 2 ^ (F.mantissaBits - 1) :=
      calc (2 : ℚ) ^ (F.mantissaBits - 1) ≤ m * 2 ^ e := hle
        _ < 2 ^ F.mantissaBits * 2 ^ e := mul_lt_mul_of_pos_right hcast (two_zpow_pos e)
        _ ≤ 2 ^ F.mantissaBits * 2 ^ (-1 : ℤ) :=
            mul_le_mul_of_nonneg_left (two_zpow_le (by omega)) (by positivity)
        _ = 2 ^ (F.mantissaBits - 1) := by
            rw [zpow_neg_one, ← pow_sub_one_mul (mantissaBits_pos F).ne',
              mul_inv_cancel_right₀ two_ne_zero]
    exact lt_irrefl _ hlt
  refine ⟨m * 2 ^ e.toNat, ?_⟩
  push_cast
  rw [← zpow_natCast, Int.toNat_of_nonneg he]

/-- Different numbers of a format are the least place apart, or more. -/
theorem zpow_minExponent_le_sub (hq : Representable F q) (hr : Representable F r) (h : q < r) :
    2 ^ F.minExponent ≤ r - q := by
  obtain ⟨j, rfl⟩ := hq.exists_int
  obtain ⟨k, rfl⟩ := hr.exists_int
  have hpos := two_zpow_pos F.minExponent
  have hlt : j < k := by exact_mod_cast lt_of_mul_lt_mul_right h hpos.le
  have hcast : (1 : ℚ) ≤ (k : ℚ) - j := by
    have hle : (j : ℚ) + 1 ≤ k := by exact_mod_cast hlt
    linarith
  rw [← sub_mul]
  exact le_mul_of_one_le_left hpos.le hcast

/-- No positive number of the format is below the least place. -/
theorem zpow_minExponent_le (hv : Representable F v) (h : 0 < v) : 2 ^ F.minExponent ≤ v := by
  have hle := zpow_minExponent_le_sub (representable_zero F) hv h
  rwa [sub_zero] at hle

/-- No place below the least one is kept. -/
theorem minExponent_le_unitExponent (F : Format) (q : ℚ) : F.minExponent ≤ unitExponent F q :=
  le_max_right _ _

/-- No more places are kept of a number than the format has. -/
theorem abs_lt_zpow_unitExponent (F : Format) (q : ℚ) :
    |q| < 2 ^ (unitExponent F q + F.mantissaBits) := by
  have hlog : |q| < 2 ^ (Int.log 2 |q| + 1) := Int.lt_zpow_succ_log_self one_lt_two |q|
  have hle : Int.log 2 |q| + 1 - F.mantissaBits ≤ unitExponent F q := le_max_left _ _
  exact hlog.trans_le (two_zpow_le (by omega))

/-- No fewer places are kept either, unless the last one is the least place. -/
theorem zpow_unitExponent_le_abs (hq : q ≠ 0) (h : F.minExponent < unitExponent F q) :
    2 ^ (unitExponent F q + F.mantissaBits - 1) ≤ |q| := by
  have hlog : (2 : ℚ) ^ Int.log 2 |q| ≤ |q| := Int.zpow_log_le_self one_lt_two (abs_pos.2 hq)
  refine le_trans (two_zpow_le ?_) hlog
  unfold unitExponent Format.targetExponent at h ⊢
  omega

/-- The last place that is kept is told by the bounds of its numbers. -/
theorem unitExponent_eq (hq : q ≠ 0) (he : F.minExponent ≤ E)
    (hlt : |q| < 2 ^ (E + F.mantissaBits))
    (hge : E = F.minExponent ∨ 2 ^ (E + F.mantissaBits - 1) ≤ |q|) : unitExponent F q = E := by
  have hpos := abs_pos.2 hq
  have hlog : Int.log 2 |q| < E + F.mantissaBits := (Int.lt_zpow_iff_log_lt one_lt_two hpos).1 hlt
  have hle : E = F.minExponent ∨ E + F.mantissaBits - 1 ≤ Int.log 2 |q| :=
    hge.imp_right (Int.zpow_le_iff_le_log one_lt_two hpos).1
  unfold unitExponent Format.targetExponent
  omega

/-! ## The nearest number -/

/-- Zero is not rounded. -/
theorem nearest_zero (F : Format) : nearest F 0 = 0 := by
  have h : NearestEven 0 0 := .inl (by norm_num)
  rw [nearest, zero_div, h.eq, Int.cast_zero, zero_mul]

/-- The number nearest to the opposite is the opposite of the nearest one. -/
theorem nearest_neg (F : Format) (q : ℚ) : nearest F (-q) = -nearest F q := by
  rw [nearest, nearest, unitExponent, abs_neg, neg_div, (nearestEven_spec _).neg.eq, Int.cast_neg,
    neg_mul]
  rfl

/-- How far a multiple of a place is from a number, counted in this place. -/
theorem abs_div_zpow (q : ℚ) (n : ℤ) (E : ℤ) : |q - n * 2 ^ E| = |q / 2 ^ E - n| * 2 ^ E := by
  have hE := two_zpow_pos E
  rw [← abs_of_pos hE, ← abs_mul, abs_of_pos hE, sub_mul, div_mul_cancel₀ q hE.ne']

/-- No multiple of the last place that is kept is nearer. -/
theorem abs_sub_nearest_le_multiple (F : Format) (q : ℚ) (n : ℤ) :
    |q - nearest F q| ≤ |q - n * 2 ^ unitExponent F q| := by
  rw [nearest, abs_div_zpow, abs_div_zpow]
  exact mul_le_mul_of_nonneg_right ((nearestEven_spec _).dist_le_dist n) (two_zpow_pos _).le

/-- Counted in its last place, a number is below what a mantissa can be. -/
theorem abs_div_zpow_unitExponent_lt (F : Format) (q : ℚ) :
    |q / 2 ^ unitExponent F q| < 2 ^ F.mantissaBits := by
  rw [abs_div, abs_of_pos (two_zpow_pos _), div_lt_iff₀ (two_zpow_pos _), ← zpow_natCast,
    ← zpow_add₀ two_ne_zero, add_comm]
  exact abs_lt_zpow_unitExponent F q

/-- The nearest number is one of the format. -/
theorem representable_nearest (F : Format) (q : ℚ) : Representable F (nearest F q) := by
  refine representable_of_abs_le (abs_le.2 ⟨?_, ?_⟩) (minExponent_le_unitExponent F q)
  · refine (nearestEven_spec _).le_of_le ?_
    push_cast
    exact (abs_lt.1 (abs_div_zpow_unitExponent_lt F q)).1.le
  · refine (nearestEven_spec _).ge_of_ge ?_
    push_cast
    exact (abs_lt.1 (abs_div_zpow_unitExponent_lt F q)).2.le

/-- A number of a lower place is below every one that has all its places. -/
theorem abs_lt_zpow_pred (hm : |m| < 2 ^ F.mantissaBits) (he : e < E) :
    |(m : ℚ) * 2 ^ e| < 2 ^ (E + F.mantissaBits - 1) := by
  have hcast : |(m : ℚ)| < 2 ^ F.mantissaBits := by exact_mod_cast hm
  calc |(m : ℚ) * 2 ^ e| = |(m : ℚ)| * 2 ^ e := by rw [abs_mul, abs_of_pos (two_zpow_pos e)]
    _ < 2 ^ F.mantissaBits * 2 ^ e := mul_lt_mul_of_pos_right hcast (two_zpow_pos e)
    _ = 2 ^ (F.mantissaBits + e) := by rw [zpow_add₀ two_ne_zero, zpow_natCast]
    _ ≤ 2 ^ (E + F.mantissaBits - 1) := two_zpow_le (by omega)

/-- **The nearest number.** No number of the format is nearer. -/
theorem abs_sub_nearest_le (q : ℚ) (hv : Representable F v) : |q - nearest F q| ≤ |q - v| := by
  obtain ⟨m, e, hm, he, rfl⟩ := hv
  rcases le_or_gt (unitExponent F q) e with hle | hlt
  · have hpow : (2 : ℚ) ^ e = (2 ^ (e - unitExponent F q).toNat : ℤ) * 2 ^ unitExponent F q := by
      push_cast
      rw [← zpow_natCast, Int.toNat_of_nonneg (by omega), ← zpow_add₀ two_ne_zero, sub_add_cancel]
    have h := abs_sub_nearest_le_multiple F q (m * 2 ^ (e - unitExponent F q).toNat)
    rwa [Int.cast_mul, mul_assoc, ← hpow] at h
  by_cases hq : q = 0
  · rw [hq, nearest_zero, sub_zero, abs_zero]
    exact abs_nonneg _
  have hbig := zpow_unitExponent_le_abs hq (he.trans_lt hlt)
  have hsmall := abs_lt_zpow_pred hm hlt
  have hmult : ((2 ^ (F.mantissaBits - 1) : ℤ) : ℚ) * 2 ^ unitExponent F q =
      2 ^ (unitExponent F q + F.mantissaBits - 1) := by
    have hbits := mantissaBits_pos F
    push_cast
    rw [← zpow_natCast, ← zpow_add₀ two_ne_zero]
    congr 1
    omega
  -- The least multiple with all places stands between the two numbers.
  rcases lt_or_gt_of_ne hq with hneg | hpos
  · have h := abs_sub_nearest_le_multiple F q (-2 ^ (F.mantissaBits - 1))
    rw [Int.cast_neg, neg_mul, hmult, sub_neg_eq_add] at h
    rw [abs_of_neg hneg] at hbig
    refine h.trans (le_trans ?_ (neg_le_abs _))
    rw [abs_of_nonpos (by linarith)]
    linarith [(abs_lt.1 hsmall).1]
  · have h := abs_sub_nearest_le_multiple F q (2 ^ (F.mantissaBits - 1))
    rw [hmult] at h
    rw [abs_of_pos hpos] at hbig
    refine h.trans (le_trans ?_ (le_abs_self _))
    rw [abs_of_nonneg (by linarith)]
    linarith [(abs_lt.1 hsmall).2]

/-- A number of the format is not rounded. -/
theorem nearest_of_representable (hq : Representable F q) : nearest F q = q := by
  have h := abs_sub_nearest_le q hq
  rw [sub_self, abs_zero] at h
  exact (sub_eq_zero.1 (abs_nonpos_iff.1 h)).symm

/-- Rounding is monotone: were two results in the wrong order, both would be as near to both
numbers, which then are one. -/
theorem nearest_mono (h : q ≤ r) : nearest F q ≤ nearest F r := by
  by_contra hnot
  have hlt := not_le.1 hnot
  have hq := abs_sub_nearest_le q (representable_nearest F r)
  have hr := abs_sub_nearest_le r (representable_nearest F q)
  have hqr : r ≤ q := by
    have hq' := sq_le_sq.2 hq
    have hr' := sq_le_sq.2 hr
    nlinarith
  rw [le_antisymm h hqr] at hlt
  exact lt_irrefl _ hlt

/-- Rounding does not make a number negative. -/
theorem nearest_nonneg (hq : 0 ≤ q) : 0 ≤ nearest F q := by
  have h := nearest_mono (F := F) hq
  rwa [nearest_zero] at h

/-- A number of the format that bounds a number from below bounds the nearest one. -/
theorem le_nearest (hv : Representable F v) (h : v ≤ q) : v ≤ nearest F q :=
  (nearest_of_representable hv).symm.le.trans (nearest_mono h)

/-- A number of the format that bounds a number from above bounds the nearest one. -/
theorem nearest_le (hv : Representable F v) (h : q ≤ v) : nearest F q ≤ v :=
  (nearest_mono h).trans (nearest_of_representable hv).le

/-- A number that is not below the least one loses at most half of itself. -/
theorem le_two_mul_nearest (h : 2 ^ F.minExponent ≤ q) : q ≤ 2 * nearest F q := by
  have hpos : 0 < q := (two_zpow_pos _).trans_le h
  have hlog : (2 : ℚ) ^ Int.log 2 q ≤ q := Int.zpow_log_le_self one_lt_two hpos
  have hlt : q < 2 ^ (Int.log 2 q + 1) := Int.lt_zpow_succ_log_self one_lt_two q
  have hmin : F.minExponent ≤ Int.log 2 q := (Int.zpow_le_iff_le_log one_lt_two hpos).1 h
  have hle := le_nearest (representable_zpow hmin) hlog
  rw [zpow_add_one₀ two_ne_zero] at hlt
  linarith

/-- Halving a number of the format loses at most half of the least one. -/
theorem abs_half_sub_nearest_le (hq : Representable F q) :
    |q / 2 - nearest F (q / 2)| ≤ 2 ^ F.minExponent / 2 := by
  obtain ⟨m, e, hm, he, rfl⟩ := hq
  have hpos := two_zpow_pos F.minExponent
  rcases he.eq_or_lt with rfl | hlt
  · have hsmall : |m / 2| ≤ 2 ^ F.mantissaBits := by
      rw [abs_lt] at hm
      exact abs_le.2 ⟨by omega, by omega⟩
    refine (abs_sub_nearest_le _ (representable_of_abs_le hsmall le_rfl)).trans ?_
    have hrest : (m : ℚ) * 2 ^ F.minExponent / 2 - ((m / 2 : ℤ) : ℚ) * 2 ^ F.minExponent =
        ((m % 2 : ℤ) : ℚ) * (2 ^ F.minExponent / 2) := by
      have hsplit : (m : ℚ) = ((2 * (m / 2) + m % 2 : ℤ) : ℚ) := by rw [Int.mul_ediv_add_emod]
      push_cast at hsplit
      nth_rewrite 1 [hsplit]
      ring
    rw [hrest, abs_mul, abs_of_pos (half_pos hpos)]
    refine mul_le_of_le_one_left (half_pos hpos).le ?_
    rcases Int.emod_two_eq_zero_or_one m with h | h <;> simp [h]
  · have hhalf : Representable F (m * 2 ^ e / 2) :=
      ⟨m, e - 1, hm, by omega, by rw [zpow_sub_one₀ two_ne_zero, mul_div_assoc, div_eq_mul_inv]⟩
    rw [nearest_of_representable hhalf, sub_self, abs_zero]
    exact (half_pos hpos).le

/-- Half of the least number is rounded to zero. -/
theorem nearest_half_least (F : Format) : nearest F (2 ^ F.minExponent / 2) = 0 := by
  have hpos := two_zpow_pos F.minExponent
  have hunit : unitExponent F (2 ^ F.minExponent / 2) = F.minExponent := by
    refine unitExponent_eq (by positivity) le_rfl ?_ (.inl rfl)
    rw [abs_of_pos (by positivity)]
    refine (half_lt_self hpos).trans_le (two_zpow_le ?_)
    omega
  have heven : NearestEven (1 / 2) 0 := .inr ⟨by norm_num, Even.zero⟩
  rw [nearest, hunit, div_right_comm, div_self hpos.ne', heven.eq, Int.cast_zero, zero_mul]

/-- What is rounded to a positive number is what is above half of the least one. -/
theorem nearest_pos_iff : 0 < nearest F q ↔ 2 ^ F.minExponent / 2 < q := by
  have hpos := two_zpow_pos F.minExponent
  constructor
  · intro h
    by_contra hle
    have hmono := nearest_mono (F := F) (not_lt.1 hle)
    rw [nearest_half_least] at hmono
    linarith
  · intro h
    by_contra hle
    have hnear := abs_sub_nearest_le q (representable_zpow (le_refl F.minExponent))
    have hfar : q ≤ |q - nearest F q| := (by linarith : q ≤ q - nearest F q).trans (le_abs_self _)
    have hclose : |q - 2 ^ F.minExponent| < q := abs_sub_lt_iff.2 ⟨by linarith, by linarith⟩
    linarith

end

end CurveArea.Rounding
