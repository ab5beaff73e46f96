import CurveArea.Proofs.Float.Bits

/-!
# Square roots and signs in binary64

A square root is computed as that of an integer, cut off, with what remains of the integer. What
remains tells on which side of the middle of two integers the root is, and that decides the
rounding. The root of a rational number need not be rational, so that it is rounded is said by
comparing: a rational number whose square is not above the number is not above the root, and then,
rounded, it is not above the root that is computed (`RootOf`, `rootOf_sqrt`).

Places do not tell the two zeros apart. Where a result that can be zero has no minus sign, that is
said apart (`Unsigned`).
-/

namespace CurveArea.Rounding

open Float.Model (Format UnpackedFloat totalExponent)
open Float.Model.UnpackedFloat

/-! ## Roots of integers -/

/-- What remains of an integer above the square of its root tells the accuracy of the root. -/
def rootAccuracy (m : ℕ) : Accuracy :=
  if m - m.sqrt * m.sqrt = 0 then .exact
  else .inexact (if m - m.sqrt * m.sqrt ≤ m.sqrt then .lt else .gt)

/-- Around the root of a number there is another one in any interval, on the side of the root that
a given number is on. -/
theorem exists_between_of_sq {a b m r : ℚ} (h₀ : 0 ≤ a) (ha : a ^ 2 < m) (hb : m < b ^ 2)
    (hlt : a < b) (hr : 0 ≤ r) :
    ∃ t, (a < t ∧ t < b) ∧ (r ^ 2 ≤ m → r ≤ t) ∧ (m ≤ r ^ 2 → t ≤ r) := by
  have hmid : a < (a + b) / 2 ∧ (a + b) / 2 < b := ⟨by linarith, by linarith⟩
  rcases le_or_gt r a with hlow | hlow
  · have hsq : r ^ 2 ≤ a ^ 2 := pow_le_pow_left₀ hr hlow 2
    exact ⟨_, hmid, fun _ => by linarith, fun h => by linarith⟩
  rcases le_or_gt b r with hhigh | hhigh
  · have hsq : b ^ 2 ≤ r ^ 2 := pow_le_pow_left₀ (h₀.trans hlt.le) hhigh 2
    exact ⟨_, hmid, fun h => by linarith, fun _ => by linarith⟩
  · exact ⟨r, ⟨hlow, hhigh⟩, fun _ => le_rfl, fun _ => le_rfl⟩

/-- Among the numbers that the root of an integer stands for, with its accuracy, there is one on the
side of the root that a given number is on. -/
theorem Lies.exists_root (m : ℕ) {r : ℚ} (hr : 0 ≤ r) :
    ∃ t, Lies (.ofMantissaAndAccuracy m.sqrt (rootAccuracy m)) t ∧
      (r ^ 2 ≤ m → r ≤ t) ∧ (m ≤ r ^ 2 → t ≤ r) := by
  have hle := Nat.sqrt_le m
  have hlt := Nat.lt_succ_sqrt m
  unfold rootAccuracy
  generalize m.sqrt = k at *
  have hk : (0 : ℚ) ≤ k := k.cast_nonneg
  rw [Nat.succ_mul_succ] at hlt
  split_ifs with hzero hhalf
  · obtain rfl : m = k * k := by omega
    refine ⟨k, rfl, fun h => ?_, fun h => ?_⟩
    · push_cast at h
      exact le_of_sq_le_sq (by linarith) hk
    · push_cast at h
      exact le_of_sq_le_sq (by linarith) hr
  · have hlow : ((k * k + 1 : ℕ) : ℚ) ≤ m := by exact_mod_cast (by omega : k * k + 1 ≤ m)
    have hhigh : (m : ℚ) ≤ ((k * k + k : ℕ) : ℚ) := by exact_mod_cast (by omega : m ≤ k * k + k)
    push_cast at hlow hhigh
    exact exists_between_of_sq (a := k) (b := k + 1 / 2) hk (by linarith) (by linarith)
      (by linarith) hr
  · have hlow : ((k * k + k + 1 : ℕ) : ℚ) ≤ m := by
      exact_mod_cast (by omega : k * k + k + 1 ≤ m)
    have hhigh : (m : ℚ) < ((k * k + k + k + 1 : ℕ) : ℚ) := by exact_mod_cast (by omega)
    push_cast at hlow hhigh
    exact exists_between_of_sq (a := k + 1 / 2) (b := k + 1) (by linarith) (by linarith)
      (by linarith) (by linarith) hr

/-! ## Rounded roots -/

section
variable {F : Format}

/-- An unpacked number is the root of a rational number, rounded to a format. -/
structure RootOf (F : Format) (u : UnpackedFloat) (q : ℚ) : Prop where
  /-- It is in the form of the format. -/
  regular : Regular F u
  /-- What is not above the root is not above it when it is rounded. -/
  nearest_le : ∀ r, 0 ≤ r → r ^ 2 ≤ q → nearest F r ≤ worth u
  /-- What is not below the root is not below it when it is rounded. -/
  le_nearest : ∀ r, 0 ≤ r → q ≤ r ^ 2 → worth u ≤ nearest F r

/-- A root is computed with no fewer places than are to be kept of it. -/
theorem le_targetExponent_sqrt {m : ℕ} {e E : ℤ} (hm : 0 < m)
    (hE : E = min (e / 2) (F.targetExponent ((totalExponent m e + 1) / 2))) :
    E ≤ F.targetExponent (totalExponent (m <<< (e - 2 * E).toNat).sqrt E) := by
  have htarget : F.targetExponent ((totalExponent m e + 1) / 2) =
    max ((m.log2 + 1 + e + 1) / 2 - F.mantissaBits) F.minExponent := rfl
  have htarget' : F.targetExponent (totalExponent (m <<< (e - 2 * E).toNat).sqrt E) =
    max ((m <<< (e - 2 * E).toNat).sqrt.log2 + 1 + E - F.mantissaBits) F.minExponent := rfl
  have hbits := mantissaBits_pos F
  rw [htarget] at hE
  rw [htarget']
  rcases le_or_gt E F.minExponent with hle | hlt
  · omega
  -- The shifted mantissa has twice as many places as are to be kept of its root.
  have hshift : 2 * (F.mantissaBits - 1) ≤ m.log2 + (e - 2 * E).toNat := by omega
  have hroot : 2 ^ (F.mantissaBits - 1) ≤ (m <<< (e - 2 * E).toNat).sqrt := by
    rw [Nat.le_sqrt, ← pow_add, ← two_mul, Nat.shiftLeft_eq]
    calc 2 ^ (2 * (F.mantissaBits - 1)) ≤ 2 ^ (m.log2 + (e - 2 * E).toNat) :=
          Nat.pow_le_pow_right two_pos hshift
      _ = 2 ^ m.log2 * 2 ^ (e - 2 * E).toNat := pow_add ..
      _ ≤ m * 2 ^ (e - 2 * E).toNat := Nat.mul_le_mul_right _ (Nat.log2_self_le hm.ne')
  have hpos := (Nat.two_pow_pos _).trans_le hroot
  have hlog := (Nat.le_log2 hpos.ne').2 hroot
  omega

/-- The root of a positive number. -/
theorem rootOf_sqrt_finite {m : ℕ} (e : ℤ) (hm : 0 < m) :
    RootOf F (UnpackedFloat.sqrt F (.finite .positive m e hm)) (m * 2 ^ e) := by
  obtain ⟨E, hE⟩ : ∃ E, E = min (e / 2) (F.targetExponent ((totalExponent m e + 1) / 2)) :=
    ⟨_, rfl⟩
  have hsqrt : UnpackedFloat.sqrt F (.finite .positive m e hm) =
      roundWithAccuracy F .positive (m <<< (e - 2 * E).toNat).sqrt E
        (rootAccuracy (m <<< (e - 2 * E).toNat)) := by
    subst hE
    rfl
  have htarget := le_targetExponent_sqrt hm hE
  have hdouble : (2 : ℚ) ^ (2 * E) = (2 ^ E) ^ 2 := by rw [mul_comm, zpow_mul, zpow_ofNat]
  have hscaled : (m : ℚ) * 2 ^ e = ((m <<< (e - 2 * E).toNat : ℕ) : ℚ) * (2 ^ E) ^ 2 := by
    rw [Nat.shiftLeft_eq, Nat.cast_mul, Nat.cast_pow, Nat.cast_two, ← zpow_natCast, mul_assoc,
      ← hdouble, ← zpow_add₀ two_ne_zero]
    congr 2
    omega
  rw [hsqrt, hscaled]
  generalize m <<< (e - 2 * E).toNat = k at *
  have hpos := two_zpow_pos E
  -- Rounding one number in place of another that is rounded alike does not matter.
  have hround (r : ℚ) (hr : 0 ≤ r) : ∃ t,
      Rounded F (roundWithAccuracy F .positive k.sqrt E (rootAccuracy k)) t ∧
        (r ^ 2 ≤ k * (2 ^ E) ^ 2 → r ≤ t) ∧ (k * (2 ^ E) ^ 2 ≤ r ^ 2 → t ≤ r) := by
    obtain ⟨t, ht, hle, hge⟩ := Lies.exists_root k (div_nonneg hr hpos.le)
    rw [div_pow, div_le_iff₀ (by positivity), div_le_iff₀ hpos] at hle
    rw [div_pow, le_div_iff₀ (by positivity), le_div_iff₀ hpos] at hge
    exact ⟨t * 2 ^ E, rounded_roundWithAccuracy ht htarget, hle, hge⟩
  constructor
  · obtain ⟨t, ht, -⟩ := hround 0 le_rfl
    exact ht.regular
  · intro r hr hsq
    obtain ⟨t, ht, hle, -⟩ := hround r hr
    rw [ht.worth_eq]
    exact nearest_mono (hle hsq)
  · intro r hr hsq
    obtain ⟨t, ht, -, hge⟩ := hround r hr
    rw [ht.worth_eq]
    exact nearest_mono (hge hsq)

/-- **Square roots.** The root of a number that is not negative is rounded. -/
theorem rootOf_sqrt {a : UnpackedFloat} (ha : Regular F a) (h₀ : 0 ≤ worth a) :
    RootOf F (UnpackedFloat.sqrt F a) (worth a) := by
  cases a with
  | zero s =>
    refine ⟨trivial, fun r hr hsq => ?_, fun r hr _ => nearest_nonneg hr⟩
    have hzero : r = 0 := pow_eq_zero_iff two_ne_zero |>.1 (le_antisymm hsq (sq_nonneg r))
    rw [hzero, nearest_zero]
    rfl
  | finite s m e hm =>
    cases s with
    | negative =>
      have hpos : (0 : ℚ) < m * 2 ^ e := mul_pos (by exact_mod_cast hm) (two_zpow_pos e)
      exact absurd h₀ (not_le.2 (neg_lt_zero.2 hpos))
    | positive => exact rootOf_sqrt_finite e hm
  | _ => exact ha.elim

/-- What is rounded already comes to the same. -/
theorem fit_nearest (q : ℚ) : fit F (nearest F q) = fit F q := by
  rw [fit, fit, nearest_of_representable (representable_nearest F q)]

/-! ## Signs of results -/

/-- A rounded result has the sign that it was given. -/
theorem roundWithAccuracy_sign (F : Format) (s : Sign) (m : ℕ) (e : ℤ) (acc : Accuracy) :
    roundWithAccuracy F s m e acc = .zero s ∨
      ∃ n E hn, roundWithAccuracy F s m e acc = .finite s n E hn := by
  simp only [roundWithAccuracy]
  split_ifs with hzero
  · exact .inl rfl
  · exact .inr ⟨_, _, Nat.pos_of_ne_zero hzero, rfl⟩

end

end CurveArea.Rounding

namespace CurveArea.Binary64

open CurveArea.Rounding hiding nearest
open Float.Model (Format UnpackedFloat)
open Float.Model.UnpackedFloat

section
variable {a b : Float}

/-- The root of a number is on the same side of a number, rounded, as the exact root is of it. -/
theorem place_sqrt (ha : a.isFinite = true) (h₀ : 0 ≤ place a) :
    a.sqrt.isNaN = false ∧
      (∀ r, 0 ≤ r → r ^ 2 ≤ place a → fit Format.binary64 r ≤ place a.sqrt) ∧
      ∀ r, 0 ≤ r → place a ≤ r ^ 2 → place a.sqrt ≤ fit Format.binary64 r := by
  rw [← worth_of_isFinite ha] at h₀ ⊢
  have hroot := rootOf_sqrt (regular_of_isFinite ha) h₀
  have hsqrt : At a.sqrt _ := at_of_rounded rfl hroot.regular.rounded
  rw [hsqrt.place_eq]
  refine ⟨hsqrt.defined, fun r hr hsq => ?_, fun r hr hsq => ?_⟩
  · rw [← fit_nearest]
    exact fit_mono (hroot.nearest_le r hr hsq)
  · rw [← fit_nearest r]
    exact fit_mono (hroot.le_nearest r hr hsq)

/-- The root of a number from zero to one is there. -/
theorem Portion.sqrt (ha : Portion a 1) : Portion a.sqrt 1 := by
  obtain ⟨hdefined, hge, hle⟩ := place_sqrt ha.isFinite ha.nonneg
  have hlow := hge 0 le_rfl (by rw [zero_pow two_ne_zero]; exact ha.nonneg)
  have hhigh := hle 1 zero_le_one (by rw [one_pow]; exact ha.le_one)
  rw [fit_zero] at hlow
  rw [fit_one] at hhigh
  refine ⟨isFinite_iff.2 ⟨hdefined, ?_⟩, hlow, hhigh.trans_eq place_one.symm⟩
  rw [abs_of_nonneg hlow]
  exact hhigh.trans_lt one_lt_limit

/-! ## Numbers without a minus sign -/

/-- An unpacked number is finite and has no minus sign. -/
def Unsigned (u : UnpackedFloat) : Prop :=
  u = .zero .positive ∨ ∃ m e hm, u = .finite .positive m e hm

/-- The numeral `0` is the positive zero. -/
theorem unpack_zero : (0 : Float).toModel.unpack = .zero .positive := by rfl

/-- A positive number has no minus sign. -/
theorem unpack_of_pos (ha : a.isFinite = true) (hpos : 0 < place a) :
    ∃ m e hm, a.toModel.unpack = .finite .positive m e hm := by
  have hreg := regular_of_isFinite ha
  rw [← worth_of_isFinite ha] at hpos
  match hunpack : a.toModel.unpack with
  | .zero s =>
    rw [hunpack] at hpos
    exact absurd hpos (lt_irrefl 0)
  | .finite .positive m e hm => exact ⟨m, e, hm, rfl⟩
  | .finite .negative m e hm =>
    rw [hunpack] at hpos
    have hmag : (0 : ℚ) < m * 2 ^ e := mul_pos (by exact_mod_cast hm) (two_zpow_pos e)
    exact absurd hpos (not_lt.2 (neg_lt_zero.2 hmag).le)
  | .notANumber => exact (hunpack ▸ hreg).elim
  | .infinity _ => exact (hunpack ▸ hreg).elim

/-- A product of positive numbers has no minus sign, though it be rounded to zero. -/
theorem unsigned_mul (ha : a.isFinite = true) (hb : b.isFinite = true) (hapos : 0 < place a)
    (hbpos : 0 < place b) (hfin : (a * b).isFinite = true) :
    Unsigned (a * b).toModel.unpack := by
  have hreg := (rounded_mul (regular_of_isFinite ha) (regular_of_isFinite hb)).regular
  obtain ⟨m₁, e₁, h₁, hua⟩ := unpack_of_pos ha hapos
  obtain ⟨m₂, e₂, h₂, hub⟩ := unpack_of_pos hb hbpos
  have hunpack : (a * b).toModel.unpack = unpack .binary64 (pack .binary64
      (UnpackedFloat.mul .binary64 a.toModel.unpack b.toModel.unpack)) := rfl
  rw [hua, hub] at hreg hunpack
  rw [isFinite_eq] at hfin
  rcases roundWithAccuracy_sign .binary64 (.positive * .positive) (m₁ * m₂) (e₁ + e₂) .exact with
    hmul | ⟨m, e, hm, hmul⟩
  all_goals
    have hproduct : UnpackedFloat.mul .binary64 (.finite .positive m₁ e₁ h₁)
      (.finite .positive m₂ e₂ h₂) = _ := hmul
    rw [hproduct] at hreg hunpack
  · rw [unpack_pack_zero] at hunpack
    exact .inl hunpack
  · rcases lt_or_ge e (exponentLimit .binary64) with he | he
    · rw [unpack_pack_finite hm hreg he] at hunpack
      exact .inr ⟨m, e, hm, hunpack⟩
    · rw [unpack_pack_overflow hm hreg.le he] at hunpack
      rw [hunpack] at hfin
      cases hfin

/-- What is packed from zero is zero. -/
theorem eq_zero_of_pack (h : a.toModel = Float.Model.pack (.zero .positive)) : a = 0 := by
  apply eq_of_unpack_eq
  rw [h, unpack_zero]
  exact unpack_pack_zero .positive

/-- A number without a minus sign, times zero, is zero, in either order. -/
theorem mul_zero_of_unsigned (ha : Unsigned a.toModel.unpack) : a * 0 = 0 ∧ 0 * a = 0 := by
  have hmul : UnpackedFloat.mul .binary64 a.toModel.unpack (0 : Float).toModel.unpack =
        .zero .positive ∧
      UnpackedFloat.mul .binary64 (0 : Float).toModel.unpack a.toModel.unpack =
        .zero .positive := by
    rw [unpack_zero]
    rcases ha with hu | ⟨m, e, hm, hu⟩
    · rw [hu]
      exact ⟨rfl, rfl⟩
    · rw [hu]
      exact ⟨rfl, rfl⟩
  exact ⟨eq_zero_of_pack (congrArg Float.Model.pack hmul.1),
    eq_zero_of_pack (congrArg Float.Model.pack hmul.2)⟩

/-- Zero divided by a positive number is zero. -/
theorem zero_div_of_pos (ha : a.isFinite = true) (hpos : 0 < place a) : 0 / a = 0 := by
  obtain ⟨m, e, hm, hu⟩ := unpack_of_pos ha hpos
  have hdiv : UnpackedFloat.div .binary64 (0 : Float).toModel.unpack a.toModel.unpack =
      .zero .positive := by
    rw [unpack_zero, hu]
    rfl
  exact eq_zero_of_pack (congrArg Float.Model.pack hdiv)

/-- One times a finite number is the number itself, its sign included. -/
theorem one_mul_of_isFinite (ha : a.isFinite = true) : 1 * a = a := by
  have hreg := regular_of_isFinite ha
  match hunpack : a.toModel.unpack with
  | .zero s =>
    obtain ⟨m, e, hm, hu⟩ := unpack_of_pos one_isFinite (place_one ▸ one_pos)
    apply eq_of_unpack_eq
    change unpack .binary64 (pack .binary64 (UnpackedFloat.mul .binary64 _ _)) = _
    rw [hu, hunpack]
    cases s <;> exact unpack_pack_zero _
  | .finite s m e hm =>
    have hne : place a ≠ 0 := by
      rw [(at_of_unpack hunpack).place_eq, ← abs_pos, abs_withSign s (by positivity)]
      exact mul_pos (by exact_mod_cast hm) (two_zpow_pos e)
    have hmul := at_mul one_isFinite ha
    rw [place_one, one_mul, fit_place ha] at hmul
    exact hmul.unique ⟨defined_of_isFinite ha, rfl⟩ hne
  | .notANumber => exact (hunpack ▸ hreg).elim
  | .infinity _ => exact (hunpack ▸ hreg).elim

end

end CurveArea.Binary64
