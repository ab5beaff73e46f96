import CurveArea.Proofs.Float.Unpacked

/-!
# Packed numbers

Packing a rounded number keeps it, unless its exponent is out of range, when it becomes infinite. So
the numbers of a format, its infinities included, stand in a row on the line: `stand` puts an
infinity at the first power of two that is out of range. What an operation comes to is then one
monotone function of its exact result (`fit`), and a comparison of two numbers is one of their
places.
-/

namespace CurveArea.Rounding

open Float.Model (Format UnpackedFloat)
open Float.Model.UnpackedFloat

/-! ## Bits -/

section
variable {F : Format}

/-- The sign is read from where it was packed, as a bit. -/
theorem unpackSign_packComponents_eq (s : Sign) (e : BitVec F.exponentBits)
    (m : BitVec F.mantissaBitsWithoutImplicit) :
    unpackSign (packComponents F s e m) = s.toBitVec := by
  ext i hi
  obtain rfl : i = 0 := by omega
  simp [unpackSign, packComponents, BitVec.getLsbD_append, BitVec.getElem_append]

/-- The sign is read back. -/
theorem unpackSign_packComponents (s : Sign) (e : BitVec F.exponentBits)
    (m : BitVec F.mantissaBitsWithoutImplicit) :
    Sign.ofBitVec (unpackSign (packComponents F s e m)) = s := by
  rw [unpackSign_packComponents_eq]
  cases s <;> rfl

/-- The mantissa of a number with all its places, of which the first is not written. -/
theorem toNat_one_append {n : Nat} (b : BitVec n) : (1#1 ++ b).toNat = 2 ^ n + b.toNat := by
  rw [BitVec.toNat_append, ← Nat.shiftLeft_add_eq_or_of_lt b.isLt, Nat.shiftLeft_eq]
  simp

/-- The exponents of a format are those below this one. -/
def exponentLimit (F : Format) : ℤ := 2 ^ (F.exponentBits - 1) - F.mantissaBitsWithoutImplicit

/-- Half of the exponents that can be written are the bias and one more. -/
theorem two_pow_pred (F : Format) : (2 : ℤ) ^ (F.exponentBits - 1) = F.exponentBias + 1 := by
  unfold Format.exponentBias
  exact_mod_cast (Nat.sub_add_cancel (Nat.two_pow_pos (F.exponentBits - 1))).symm

/-- How many exponents can be written, by the bias. -/
theorem two_pow_exponentBits (F : Format) : 2 ^ F.exponentBits = 2 * (F.exponentBias + 1) := by
  rw [Format.exponentBias, Nat.sub_add_cancel (Nat.two_pow_pos _), mul_comm, Nat.pow_pred_mul F.he]

/-- The first exponent that is out of range, by the bias. -/
theorem exponentLimit_eq (F : Format) :
    exponentLimit F = F.exponentBias + 1 - F.mantissaBitsWithoutImplicit := by
  rw [exponentLimit, two_pow_pred]

/-- The least exponent, by the bias. -/
theorem minExponent_eq (F : Format) :
    F.minExponent = 1 - (F.exponentBias + F.mantissaBitsWithoutImplicit) := by
  rw [Format.minExponent, Format.mantissaBits, two_pow_pred]
  omega

/-- The exponent as it is written, one or more. -/
theorem exponent_add_bias {e : ℤ} (h : F.minExponent ≤ e) :
    1 ≤ e + F.exponentBias + F.mantissaBitsWithoutImplicit ∧
      (2 ^ F.exponentBits ≤ (e + F.exponentBias + F.mantissaBitsWithoutImplicit).toNat + 1 ↔
        exponentLimit F ≤ e) := by
  rw [minExponent_eq] at h
  rw [exponentLimit_eq, two_pow_exponentBits]
  omega

/-- A zero is read back, with its sign. -/
theorem unpack_pack_zero (s : Sign) : unpack F (pack F (.zero s)) = .zero s := by
  simp [pack, packedZero, unpack, F.he.ne']

/-- An infinity is read back, with its sign. -/
theorem unpack_pack_infinity (s : Sign) : unpack F (pack F (.infinity s)) = .infinity s := by
  simp [pack, packedInfinity, unpack]

/-- What is no number is read back as none: its mantissa is not zero. -/
theorem unpack_pack_nan : unpack F (pack F .notANumber) = .notANumber := by
  have hbit : 1#F.mantissaBitsWithoutImplicit <<< (F.mantissaBitsWithoutImplicit - 1) ≠ 0#_ := by
    intro heq
    have htoNat := congrArg BitVec.toNat heq
    have hlow := F.hm
    rw [BitVec.toNat_shiftLeft, BitVec.toNat_one hlow, Nat.one_shiftLeft,
      Nat.mod_eq_of_lt (Nat.pow_lt_pow_right one_lt_two (by omega)), BitVec.toNat_zero] at htoNat
    exact (Nat.two_pow_pos _).ne' htoNat
  simp only [pack, packedNaN, unpack, unpackExponent_packComponents, unpackMantissa_packComponents,
    if_true, if_neg hbit]

/-- An exponent that is in range is not written with ones only, as an infinity is. -/
theorem ofNat_ne_neg_one {n k : Nat} (h : ¬ 2 ^ n ≤ k + 1) : BitVec.ofNat n k ≠ -1#n := by
  intro heq
  have htoNat := congrArg BitVec.toNat heq
  rw [BitVec.toNat_ofNat, Nat.mod_eq_of_lt (by omega), BitVec.neg_one_eq_allOnes,
    BitVec.toNat_allOnes] at htoNat
  omega

/-- What is positive and in range is not written with zeros only. -/
theorem ofNat_ne_zero {n k : Nat} (h : k < 2 ^ n) (hk : 0 < k) : BitVec.ofNat n k ≠ 0#n := by
  intro heq
  have htoNat := congrArg BitVec.toNat heq
  rw [BitVec.toNat_ofNat, Nat.mod_eq_of_lt h] at htoNat
  simp at htoNat
  omega

/-- A number with all its bits is kept, with its highest bit left out. -/
theorem unpack_pack_normal {s : Sign} {m : Nat} {e : ℤ} (hm : 0 < m) (h : Canonical F m e)
    (he : e < exponentLimit F) (hfull : m.log2 + 1 = F.mantissaBits) :
    unpack F (pack F (.finite s m e hm)) = .finite s m e hm := by
  obtain ⟨hone, hbound⟩ := exponent_add_bias h.le
  have hin := mt hbound.1 (not_le.2 he)
  have hlt := h.lt
  have hbits : F.mantissaBits = 1 + F.mantissaBitsWithoutImplicit := rfl
  have hpow : 2 ^ F.mantissaBits = 2 * 2 ^ F.mantissaBitsWithoutImplicit := by
    rw [hbits, pow_add, pow_one]
  have hge : 2 ^ F.mantissaBitsWithoutImplicit ≤ m := by
    rw [← Nat.le_log2 hm.ne']
    omega
  have hmantissa : (1#1 ++ BitVec.ofNat F.mantissaBitsWithoutImplicit m).toNat = m := by
    rw [toNat_one_append, BitVec.toNat_ofNat, Nat.mod_eq_sub_mod hge, Nat.mod_eq_of_lt (by omega)]
    omega
  have hzero : BitVec.ofNat F.exponentBits
      (e + F.exponentBias + F.mantissaBitsWithoutImplicit).toNat ≠ 0#_ :=
    ofNat_ne_zero (by omega) (by omega)
  have hexponent : ((BitVec.ofNat F.exponentBits
      (e + F.exponentBias + F.mantissaBitsWithoutImplicit).toNat).toNat : ℤ) -
        (F.exponentBias + F.mantissaBitsWithoutImplicit) = e := by
    rw [BitVec.toNat_ofNat, Nat.mod_eq_of_lt (by omega)]
    omega
  simp only [pack, if_neg hin, if_pos hfull, unpack, unpackExponent_packComponents,
    unpackMantissa_packComponents, unpackSign_packComponents, if_neg (ofNat_ne_neg_one hin),
    if_neg hzero, hmantissa, hexponent]

/-- A number with fewer bits is kept, with the exponent zero. -/
theorem unpack_pack_subnormal {s : Sign} {m : Nat} {e : ℤ} (hm : 0 < m) (h : Canonical F m e)
    (he : e < exponentLimit F) (hnormal : ¬ m.log2 + 1 = F.mantissaBits) :
    unpack F (pack F (.finite s m e hm)) = .finite s m e hm := by
  obtain ⟨hone, hbound⟩ := exponent_add_bias h.le
  have hin := mt hbound.1 (not_le.2 he)
  have hlt := h.lt
  have hbits : F.mantissaBits = 1 + F.mantissaBitsWithoutImplicit := rfl
  have hlow : m < 2 ^ F.mantissaBitsWithoutImplicit := by
    by_contra hge
    refine hnormal ?_
    rw [hbits, Nat.add_comm, (Nat.log2_eq_iff hm.ne').2 ⟨not_lt.1 hge, ?_⟩]
    rwa [Nat.add_comm, ← hbits]
  have hleast : e = F.minExponent := h.full.resolve_right fun hfull => by
    rw [hbits, Nat.add_sub_cancel_left] at hfull
    omega
  have hexponent : ((0#F.exponentBits).toNat : ℤ) -
      (F.exponentBias + F.mantissaBitsWithoutImplicit) + 1 = e := by
    rw [hleast, minExponent_eq, BitVec.toNat_zero]
    omega
  have hmantissa : (BitVec.ofNat F.mantissaBitsWithoutImplicit m).toNat = m := by
    rw [BitVec.toNat_ofNat, Nat.mod_eq_of_lt hlow]
  have hzero : 0#F.exponentBits ≠ -1#F.exponentBits := ofNat_ne_neg_one (k := 0) (by omega)
  simp only [pack, if_neg hin, if_neg hnormal, unpack, unpackExponent_packComponents,
    unpackMantissa_packComponents, unpackSign_packComponents, if_neg hzero, if_true,
    dif_neg (ofNat_ne_zero hlow hm), hmantissa, hexponent]

/-- A number of the format whose exponent is in range is kept. -/
theorem unpack_pack_finite {s : Sign} {m : Nat} {e : ℤ} (hm : 0 < m) (h : Canonical F m e)
    (he : e < exponentLimit F) :
    unpack F (pack F (.finite s m e hm)) = .finite s m e hm := by
  by_cases hfull : m.log2 + 1 = F.mantissaBits
  case pos => exact unpack_pack_normal hm h he hfull
  case neg => exact unpack_pack_subnormal hm h he hfull

/-- A number whose exponent is out of range becomes infinite. -/
theorem unpack_pack_overflow {s : Sign} {m : Nat} {e : ℤ} (hm : 0 < m) (h : F.minExponent ≤ e)
    (he : exponentLimit F ≤ e) : unpack F (pack F (.finite s m e hm)) = .infinity s := by
  have hbound := (exponent_add_bias h).2.2 he
  have hpack : pack F (.finite s m e hm) = pack F (.infinity s) := by
    simp only [pack, if_pos hbound]
  rw [hpack, unpack_pack_infinity]

/-- The least exponent is in range. -/
theorem minExponent_lt_exponentLimit (hF : 1 < F.exponentBits) :
    F.minExponent < exponentLimit F := by
  have htwo : 2 ^ 1 ≤ 2 ^ (F.exponentBits - 1) := Nat.pow_le_pow_right two_pos (by omega)
  have hbias : 1 ≤ F.exponentBias := Nat.le_sub_of_add_le htwo
  rw [minExponent_eq, exponentLimit_eq]
  omega

/-- An unpacked number is one that a format has: infinite, or finite with an exponent in range. -/
def Proper (F : Format) : UnpackedFloat → Prop
  | .notANumber => False
  | .infinity _ => True
  | .zero _ => True
  | .finite _ m e _ => Canonical F m e ∧ e < exponentLimit F

/-- Every pattern of bits is a number of the format or none at all. -/
theorem proper_unpack (hF : 1 < F.exponentBits) (b : BitVec F.numBits) :
    unpack F b = .notANumber ∨ Proper F (unpack F b) := by
  have hmantissa : F.mantissaBits = F.mantissaBitsWithoutImplicit + 1 := Nat.add_comm ..
  have hpow : 2 ^ F.mantissaBits = 2 * 2 ^ F.mantissaBitsWithoutImplicit := by
    rw [hmantissa, pow_succ, mul_comm]
  have hexpPow := two_pow_exponentBits F
  have hlt := (unpackMantissa b).isLt
  unfold unpack
  simp only
  -- The bits are infinite, undefined, zero, subnormal or normal, in this order.
  split_ifs with hall hinf hnone hzero
  · exact .inr trivial
  · exact .inl rfl
  · exact .inr trivial
  · have hexp : ((unpackExponent b).toNat : ℤ) -
        (F.exponentBias + F.mantissaBitsWithoutImplicit) + 1 = F.minExponent := by
      rw [hnone, minExponent_eq, BitVec.toNat_zero]
      omega
    exact .inr ⟨⟨by omega, hexp.ge, .inl hexp⟩, hexp.trans_lt (minExponent_lt_exponentLimit hF)⟩
  · have hpos : 0 < (unpackExponent b).toNat := by
      rw [BitVec.toNat_pos, BitVec.pos_iff_ne_zero]
      exact hnone
    have hbelow : (unpackExponent b).toNat ≠ 2 ^ F.exponentBits - 1 := fun htop =>
      hall (BitVec.eq_of_toNat_eq (by
        rw [BitVec.neg_one_eq_allOnes, BitVec.toNat_allOnes, htop]))
    have hexp := (unpackExponent b).isLt
    refine .inr ⟨⟨?_, ?_, .inr ?_⟩, ?_⟩
    · rw [toNat_one_append]
      omega
    · rw [minExponent_eq]
      omega
    · rw [toNat_one_append, hmantissa, Nat.add_sub_cancel]
      omega
    · rw [exponentLimit_eq]
      omega

end

/-! ## Places on the line -/

/-- The first power of two that is out of the range of a format. -/
def limit (F : Format) : ℚ := 2 ^ 2 ^ (F.exponentBits - 1)

/-- Where a number stands on the line. -/
def stand (F : Format) : UnpackedFloat → ℚ
  | .infinity s => withSign s (limit F)
  | u => worth u

/-- A rational number brought into the range of a format. -/
def clip (F : Format) (q : ℚ) : ℚ := max (-limit F) (min (limit F) q)

/-- Where the number of a format stands that a rational number is rounded to. -/
def fit (F : Format) (q : ℚ) : ℚ := clip F (nearest F q)

section
variable {F : Format} {q r : ℚ}

/-- The limit is positive. -/
theorem limit_pos (F : Format) : 0 < limit F := pow_pos two_pos _

/-- What numbers come to is in the same order. -/
theorem fit_mono (h : q ≤ r) : fit F q ≤ fit F r :=
  max_le_max le_rfl (min_le_min le_rfl (nearest_mono h))

/-- The limit is what a mantissa with all its places would reach at the first exponent that is out
of range. -/
theorem limit_eq_zpow (F : Format) :
    limit F = 2 ^ (exponentLimit F + F.mantissaBitsWithoutImplicit) := by
  have hcast : (2 : ℤ) ^ (F.exponentBits - 1) = (2 ^ (F.exponentBits - 1) : ℕ) := by push_cast; rfl
  rw [limit, exponentLimit, hcast, sub_add_cancel, zpow_natCast]

/-- A number whose exponent is in range is below the limit. -/
theorem worth_lt_limit {m : Nat} {e : ℤ} (h : Canonical F m e) (he : e < exponentLimit F) :
    (m : ℚ) * 2 ^ e < limit F := by
  have hlt : (m : ℚ) < 2 ^ F.mantissaBits := by exact_mod_cast h.lt
  have hbits : F.mantissaBits = 1 + F.mantissaBitsWithoutImplicit := rfl
  calc (m : ℚ) * 2 ^ e < 2 ^ F.mantissaBits * 2 ^ e := mul_lt_mul_of_pos_right hlt (two_zpow_pos e)
    _ = 2 ^ (F.mantissaBits + e) := by rw [zpow_add₀ two_ne_zero, zpow_natCast]
    _ ≤ limit F := by
      rw [limit_eq_zpow]
      exact two_zpow_le (by omega)

/-- A number whose exponent is out of range is at the limit or beyond it: it has all its places. -/
theorem limit_le_worth (hF : 1 < F.exponentBits) {m : Nat} {e : ℤ} (h : Canonical F m e)
    (he : exponentLimit F ≤ e) : limit F ≤ (m : ℚ) * 2 ^ e := by
  have hmin := minExponent_lt_exponentLimit hF
  have hfull := h.full.resolve_left (by omega)
  have hbits : F.mantissaBits = 1 + F.mantissaBitsWithoutImplicit := rfl
  rw [hbits, Nat.add_sub_cancel_left] at hfull
  have hge : (2 : ℚ) ^ F.mantissaBitsWithoutImplicit ≤ m := by exact_mod_cast hfull
  calc limit F ≤ 2 ^ (F.mantissaBitsWithoutImplicit + e) := by
        rw [limit_eq_zpow]
        exact two_zpow_le (by omega)
    _ = 2 ^ F.mantissaBitsWithoutImplicit * 2 ^ e := by rw [zpow_add₀ two_ne_zero, zpow_natCast]
    _ ≤ m * 2 ^ e := mul_le_mul_of_nonneg_right hge (two_zpow_pos e).le

/-- A number below the limit is kept, with its sign. -/
theorem clip_withSign_of_lt {s : Sign} (h₀ : 0 ≤ q) (h : q < limit F) :
    clip F (withSign s q) = withSign s q := by
  have hpos := limit_pos F
  cases s
  · rw [withSign, clip, min_eq_right (by linarith), max_eq_right (by linarith)]
  · rw [withSign, clip, min_eq_right h.le, max_eq_right (by linarith)]

/-- A number that is not below the limit is put there, with its sign. -/
theorem clip_withSign_of_le {s : Sign} (h : limit F ≤ q) :
    clip F (withSign s q) = withSign s (limit F) := by
  have hpos := limit_pos F
  cases s
  · rw [withSign, clip, withSign, min_eq_right (by linarith), max_eq_left (by linarith)]
  · rw [withSign, clip, withSign, min_eq_left h, max_eq_right (by linarith)]

/-- What comes out finite is the nearest number. -/
theorem fit_eq_nearest (h : |fit F q| < limit F) : fit F q = nearest F q := by
  obtain ⟨hlow, hhigh⟩ := abs_lt.1 h
  unfold fit clip at hlow hhigh ⊢
  rcases le_total (limit F) (nearest F q) with hle | hle
  · rw [min_eq_left hle] at hhigh
    exact absurd ((le_max_right _ _).trans_lt hhigh) (lt_irrefl _)
  · rw [min_eq_right hle] at hlow ⊢
    exact max_eq_right ((lt_max_iff.1 hlow).resolve_left (lt_irrefl _)).le

/-- A bound on the nearest number is one on what a number comes to, up to the limit. -/
theorem le_fit (hr : r ≤ limit F) (h : r ≤ nearest F q) : r ≤ fit F q :=
  le_max_of_le_right (le_min hr h)

/-- A number that is rounded below the limit comes to the nearest one. -/
theorem fit_of_abs_lt (h : |nearest F q| < limit F) : fit F q = nearest F q := by
  obtain ⟨hlow, hhigh⟩ := abs_lt.1 h
  rw [fit, clip, min_eq_right hhigh.le, max_eq_right hlow.le]

/-- A number with a bound that is in range is rounded in range. -/
theorem abs_nearest_lt (h₀ : 0 ≤ q) (hle : q ≤ r) (hr : Representable F r) (hlt : r < limit F) :
    |nearest F q| < limit F := by
  rw [abs_of_nonneg (nearest_nonneg h₀)]
  exact (nearest_le hr hle).trans_lt hlt

/-- A number is rounded to one that is out of the range of a format. -/
def Overflows (F : Format) (q : ℚ) : Prop := limit F ≤ |nearest F q|

/-- A number comes out finite when it does not overflow. -/
theorem abs_fit_lt_iff : |fit F q| < limit F ↔ ¬ Overflows F q := by
  rw [Overflows, not_le]
  constructor
  · intro h
    rwa [← fit_eq_nearest h]
  · intro h
    rwa [fit_of_abs_lt h]

/-- A number of the format below the limit comes to itself. -/
theorem fit_of_representable (hq : Representable F q) (h : |q| < limit F) : fit F q = q := by
  have hnear := nearest_of_representable hq
  rw [fit_of_abs_lt (hnear.symm ▸ h), hnear]

/-- Zero comes to itself. -/
theorem fit_zero (F : Format) : fit F 0 = 0 :=
  fit_of_representable (representable_zero F) (abs_zero.trans_lt (limit_pos F))

/-- The opposite of a number comes to the opposite. -/
theorem fit_neg (F : Format) (q : ℚ) : fit F (-q) = -fit F q := by
  have hpos := limit_pos F
  have hends : max (-limit F) (limit F) = limit F := max_eq_right (by linarith)
  rw [fit, fit, clip, clip, nearest_neg, max_min_distrib_left, hends, ← min_neg_neg,
    ← max_neg_neg, neg_neg]

/-- What is out of range is brought to the end of it. -/
theorem fit_of_limit_le (h : limit F ≤ q) : fit F q = limit F := by
  have hrep : Representable F (limit F) := by
    have hpow : limit F = 2 ^ ((2 ^ (F.exponentBits - 1) : ℕ) : ℤ) := (zpow_natCast 2 _).symm
    rw [hpow]
    exact representable_zpow ((minExponent_nonpos F).trans (Int.natCast_nonneg _))
  have hpos := limit_pos F
  refine le_antisymm (max_le (by linarith) (min_le_left _ _)) ?_
  exact le_fit le_rfl (le_nearest hrep h)

/-- What is not above half of the least positive number is lost. -/
theorem fit_of_le_half (h₀ : 0 ≤ q) (h : q ≤ 2 ^ F.minExponent / 2) : fit F q = 0 := by
  have hzero : nearest F q = 0 :=
    le_antisymm (not_lt.1 fun hpos => absurd (nearest_pos_iff.1 hpos) h.not_gt) (nearest_nonneg h₀)
  rw [fit_of_abs_lt (by rw [hzero, abs_zero]; exact limit_pos F), hzero]

/-- An unpacked number is defined, has a form of the format, and stands at a place. -/
structure Stands (F : Format) (u : UnpackedFloat) (q : ℚ) : Prop where
  /-- It is defined and has a form of the format. -/
  proper : Proper F u
  /-- It stands there. -/
  stand_eq : stand F u = q

/-- Zero stands at zero. -/
theorem stands_zero (F : Format) : Stands F (.zero .positive) 0 := ⟨trivial, rfl⟩

/-- The infinity stands at the limit. -/
theorem stands_infinity (F : Format) : Stands F (.infinity .positive) (limit F) := ⟨trivial, rfl⟩

/-- What is unpacked from bits stands somewhere unless it is undefined. -/
theorem stands_unpack (hF : 1 < F.exponentBits) {b : BitVec F.numBits} {u : UnpackedFloat}
    (h : unpack F b = u) (hu : u.isNaN = false) : Stands F u (stand F u) := by
  have hproper := proper_unpack hF b
  rw [h] at hproper
  refine ⟨hproper.resolve_left fun hnan => ?_, rfl⟩
  rw [hnan] at hu
  cases hu

/-- **Packing.** A rational number that is rounded and packed stands where it fits in. -/
theorem stands_unpack_pack (hF : 1 < F.exponentBits) {u : UnpackedFloat} (h : Rounded F u q) :
    Stands F (unpack F (pack F u)) (fit F q) := by
  obtain ⟨hreg, hworth⟩ := h
  rw [fit, ← hworth]
  cases u with
  | zero s =>
    rw [unpack_pack_zero]
    exact ⟨trivial, (clip_withSign_of_lt (s := .positive) le_rfl (limit_pos F)).symm⟩
  | finite s m e hm =>
    have hnonneg : (0 : ℚ) ≤ m * 2 ^ e := mul_nonneg m.cast_nonneg (two_zpow_pos e).le
    rcases lt_or_ge e (exponentLimit F) with he | he
    · rw [unpack_pack_finite hm hreg he]
      exact ⟨⟨hreg, he⟩, (clip_withSign_of_lt hnonneg (worth_lt_limit hreg he)).symm⟩
    · rw [unpack_pack_overflow hm hreg.le he]
      exact ⟨trivial, (clip_withSign_of_le (limit_le_worth hF hreg he)).symm⟩
  | _ => exact hreg.elim

/-- Numbers with an exponent that is too high to be computed with are out of range. -/
theorem limit_le_of_high {m : ℕ} {e : ℤ} (hm : 0 < m) (he : 2 ^ F.exponentBits < e) :
    limit F ≤ m * 10 ^ e := by
  have hone : (1 : ℚ) ≤ m := by exact_mod_cast hm
  have hexp : ((2 ^ (F.exponentBits - 1) : ℕ) : ℤ) ≤ 2 ^ F.exponentBits := by
    exact_mod_cast Nat.pow_le_pow_right two_pos (Nat.sub_le _ 1)
  have hpos := pow_nonneg (zero_le_two (α := ℤ)) F.exponentBits
  calc limit F = 2 ^ ((2 ^ (F.exponentBits - 1) : ℕ) : ℤ) := (zpow_natCast 2 _).symm
    _ ≤ 2 ^ e := two_zpow_le (hexp.trans he.le)
    _ ≤ 10 ^ e := zpow_le_zpow_left₀ (hpos.trans he.le) two_pos.le (by norm_num)
    _ ≤ m * 10 ^ e := le_mul_of_one_le_left (by positivity) hone

/-- Numbers with an exponent that is too low to be computed with are lost. -/
theorem le_half_of_low (hF : -2 ^ F.exponentBits < F.minExponent) {m : ℕ} {e : ℤ}
    (he : e < -(2 ^ F.exponentBits + m.log2)) : (m : ℚ) * 10 ^ e ≤ 2 ^ F.minExponent / 2 := by
  have hm : (m : ℚ) ≤ 2 ^ (m.log2 + 1 : ℤ) := by
    exact_mod_cast Nat.lt_log2_self.le
  have hpos := pow_nonneg (zero_le_two (α := ℤ)) F.exponentBits
  have hten : (10 : ℚ) ^ e ≤ 2 ^ e := by
    obtain ⟨k, rfl⟩ := Int.exists_eq_neg_ofNat (by omega : e ≤ 0)
    rw [zpow_neg, zpow_neg]
    exact inv_anti₀ (two_zpow_pos _)
      (zpow_le_zpow_left₀ k.cast_nonneg two_pos.le (by norm_num))
  calc (m : ℚ) * 10 ^ e ≤ 2 ^ (m.log2 + 1 : ℤ) * 2 ^ e :=
        mul_le_mul hm hten (by positivity) (by positivity)
    _ = 2 ^ (m.log2 + 1 + e : ℤ) := (zpow_add₀ two_ne_zero _ _).symm
    _ ≤ 2 ^ (F.minExponent - 1) := two_zpow_le (by omega)
    _ = 2 ^ F.minExponent / 2 := by rw [zpow_sub_one₀ two_ne_zero, div_eq_mul_inv]

/-- **Decimals.** However high or low its exponent, a decimal that is rounded and packed stands
where it fits in. -/
theorem stands_unpack_ofScientific (hF : 1 < F.exponentBits)
    (hmin : -2 ^ F.exponentBits < F.minExponent) (m : ℕ) (e : ℤ) :
    Stands F (unpack F (pack F (UnpackedFloat.ofScientific F m e))) (fit F (m * 10 ^ e)) := by
  by_cases hm : m = 0
  · subst hm
    rw [UnpackedFloat.ofScientific, dif_pos rfl, unpack_pack_zero, Nat.cast_zero, zero_mul,
      fit_zero]
    exact ⟨trivial, rfl⟩
  by_cases hhigh : (2 : ℤ) ^ F.exponentBits < e
  · rw [UnpackedFloat.ofScientific, dif_neg hm, if_pos hhigh, unpack_pack_infinity,
      fit_of_limit_le (limit_le_of_high (Nat.pos_of_ne_zero hm) hhigh)]
    exact ⟨trivial, rfl⟩
  by_cases hlow : e < -((2 : ℤ) ^ F.exponentBits + m.log2)
  · rw [UnpackedFloat.ofScientific, dif_neg hm, if_neg hhigh, if_pos hlow, unpack_pack_zero,
      fit_of_le_half (by positivity) (le_half_of_low hmin hlow)]
    exact ⟨trivial, rfl⟩
  exact stands_unpack_pack hF (rounded_ofScientific hm (not_lt.1 hhigh) (not_lt.1 hlow))

/-- A sign does not change how large a number is. -/
theorem abs_withSign (s : Sign) (hq : 0 ≤ q) : |withSign s q| = q := by
  cases s
  · rw [withSign, abs_neg, abs_of_nonneg hq]
  · rw [withSign, abs_of_nonneg hq]

/-- The infinities stand at the limits, and all other numbers between them. -/
theorem abs_stand {u : UnpackedFloat} (h : Proper F u) :
    u.isFinite = true ∧ |stand F u| < limit F ∨ u.isFinite = false ∧ |stand F u| = limit F := by
  have hpos := limit_pos F
  cases u with
  | notANumber => exact h.elim
  | infinity s => exact .inr ⟨rfl, abs_withSign s hpos.le⟩
  | zero s => exact .inl ⟨rfl, by simpa [stand, worth] using hpos⟩
  | finite s m e hm =>
    refine .inl ⟨rfl, ?_⟩
    rw [stand, worth, abs_withSign s (mul_nonneg m.cast_nonneg (two_zpow_pos e).le)]
    · exact worth_lt_limit h.1 h.2
    · simp

/-- Only the infinities stand at the limit. -/
theorem abs_stand_lt_iff {u : UnpackedFloat} (h : Proper F u) :
    |stand F u| < limit F ↔ u.isFinite = true := by
  rcases abs_stand h with ⟨hfin, hlt⟩ | ⟨hinf, heq⟩
  · exact ⟨fun _ => hfin, fun _ => hlt⟩
  · simp [hinf, heq]

/-- No number stands beyond the limit. -/
theorem abs_stand_le {u : UnpackedFloat} (h : Proper F u) : |stand F u| ≤ limit F := by
  rcases abs_stand h with ⟨-, hlt⟩ | ⟨-, heq⟩
  · exact hlt.le
  · exact heq.le

/-- A number is finite when its place is below the limit. -/
theorem Stands.isFinite_iff {u : UnpackedFloat} (h : Stands F u q) :
    u.isFinite = true ↔ |q| < limit F := by
  rw [← h.stand_eq]
  exact (abs_stand_lt_iff h.proper).symm

/-! ## Comparisons -/

/-- A higher exponent makes a greater number. -/
theorem worth_lt_of_exponent_lt {m₁ m₂ : Nat} {e₁ e₂ : ℤ} (h₁ : Canonical F m₁ e₁)
    (h₂ : Canonical F m₂ e₂) (h : e₁ < e₂) : (m₁ : ℚ) * 2 ^ e₁ < m₂ * 2 ^ e₂ := by
  have hle := h₁.le
  have hbits := mantissaBits_pos F
  have hfull : (2 : ℚ) ^ (F.mantissaBits - 1) ≤ m₂ := by
    exact_mod_cast h₂.full.resolve_left (by omega)
  have hlt : |(m₁ : ℤ)| < 2 ^ F.mantissaBits := by
    rw [Nat.abs_cast]
    exact_mod_cast h₁.lt
  have hlow := (le_abs_self _).trans_lt (abs_lt_zpow_pred hlt h)
  rw [Int.cast_natCast] at hlow
  calc (m₁ : ℚ) * 2 ^ e₁ < 2 ^ (e₂ + F.mantissaBits - 1) := hlow
    _ = 2 ^ (F.mantissaBits - 1) * 2 ^ e₂ := by
      rw [← zpow_natCast, ← zpow_add₀ two_ne_zero]
      congr 1
      omega
    _ ≤ m₂ * 2 ^ e₂ := mul_le_mul_of_nonneg_right hfull (two_zpow_pos e₂).le

/-- Numbers in the form of the format are compared by their exponents first. -/
theorem compare_canonical {m₁ m₂ : Nat} {e₁ e₂ : ℤ} (h₁ : Canonical F m₁ e₁)
    (h₂ : Canonical F m₂ e₂) :
    (compare e₁ e₂).then (compare m₁ m₂) = compare ((m₁ : ℚ) * 2 ^ e₁) (m₂ * 2 ^ e₂) := by
  rcases lt_trichotomy e₁ e₂ with h | rfl | h
  · rw [compare_lt_iff_lt.2 h, compare_lt_iff_lt.2 (worth_lt_of_exponent_lt h₁ h₂ h)]
    rfl
  · have hpos := two_zpow_pos e₁
    rw [compare_eq_iff_eq.2 rfl]
    rcases lt_trichotomy m₁ m₂ with h | rfl | h
    · have hcast : (m₁ : ℚ) < m₂ := by exact_mod_cast h
      rw [compare_lt_iff_lt.2 h, compare_lt_iff_lt.2 (mul_lt_mul_of_pos_right hcast hpos)]
      rfl
    · rw [compare_eq_iff_eq.2 rfl, compare_eq_iff_eq.2 rfl]
      rfl
    · have hcast : (m₂ : ℚ) < m₁ := by exact_mod_cast h
      rw [compare_gt_iff_gt.2 h, compare_gt_iff_gt.2 (mul_lt_mul_of_pos_right hcast hpos)]
      rfl
  · rw [compare_gt_iff_gt.2 h, compare_gt_iff_gt.2 (worth_lt_of_exponent_lt h₂ h₁ h)]
    rfl

/-- The opposites of two numbers are in the opposite order. -/
theorem swap_compare_neg (q r : ℚ) : (compare q r).swap = compare (-q) (-r) := by
  rcases lt_trichotomy q r with h | rfl | h
  · rw [compare_lt_iff_lt.2 h, compare_gt_iff_gt.2 (neg_lt_neg h)]
    rfl
  · rw [compare_eq_iff_eq.2 rfl, compare_eq_iff_eq.2 rfl]
    rfl
  · rw [compare_gt_iff_gt.2 h, compare_lt_iff_lt.2 (neg_lt_neg h)]
    rfl

/-- Comparing a number with a larger one. -/
theorem some_lt (h : q < r) : some Ordering.lt = some (compare q r) :=
  congrArg some (compare_lt_iff_lt.2 h).symm

/-- Comparing a number with a smaller one. -/
theorem some_gt (h : r < q) : some Ordering.gt = some (compare q r) :=
  congrArg some (compare_gt_iff_gt.2 h).symm

/-- Comparing a number with itself. -/
theorem some_eq (q : ℚ) : some Ordering.eq = some (compare q q) :=
  congrArg some (compare_eq_iff_eq.2 rfl).symm

section
variable {u v : UnpackedFloat}

/-- An infinity is beyond all numbers but itself. -/
theorem compare_infinity (s : Sign) (hv : Proper F v) :
    UnpackedFloat.compare (.infinity s) v = some (compare (withSign s (limit F)) (stand F v)) := by
  have hpos := limit_pos F
  have hsigns : -limit F < limit F := by linarith
  cases v with
  | notANumber => exact hv.elim
  | infinity s₂ =>
    cases s <;> cases s₂
    · exact some_eq _
    · exact some_lt hsigns
    · exact some_gt hsigns
    · exact some_eq _
  | _ =>
    obtain ⟨hlow, hhigh⟩ := abs_lt.1 ((abs_stand_lt_iff hv).2 rfl)
    cases s
    · exact some_lt hlow
    · exact some_gt hhigh

/-- A finite number compares with an infinity as their places do. -/
theorem compare_infinity_right (s : Sign) (hu : Proper F u) (hfin : u.isFinite = true) :
    u.compare (.infinity s) = some (compare (stand F u) (withSign s (limit F))) := by
  obtain ⟨hlow, hhigh⟩ := abs_lt.1 ((abs_stand_lt_iff hu).2 hfin)
  cases u with
  | notANumber => exact hu.elim
  | infinity s₁ => cases hfin
  | _ =>
    cases s
    · exact some_gt hlow
    · exact some_lt hhigh

/-- **Comparing.** Numbers are compared by where they stand. -/
theorem compare_eq (hu : Proper F u) (hv : Proper F v) :
    u.compare v = some (compare (stand F u) (stand F v)) := by
  have hpos : ∀ {m : Nat} {e : ℤ}, 0 < m → 0 < (m : ℚ) * 2 ^ e := fun hm =>
    mul_pos (by exact_mod_cast hm) (two_zpow_pos _)
  cases u with
  | notANumber => exact hu.elim
  | infinity s₁ => exact compare_infinity s₁ hv
  | zero s₁ =>
    cases v with
    | notANumber => exact hv.elim
    | infinity s₂ => exact compare_infinity_right s₂ hu rfl
    | zero s₂ => exact some_eq 0
    | finite s₂ m₂ e₂ h₂ =>
      cases s₂
      · exact some_gt (neg_lt_zero.2 (hpos h₂))
      · exact some_lt (hpos h₂)
  | finite s₁ m₁ e₁ h₁ =>
    cases v with
    | notANumber => exact hv.elim
    | infinity s₂ => exact compare_infinity_right s₂ hu rfl
    | zero s₂ =>
      cases s₁
      · exact some_lt (neg_lt_zero.2 (hpos h₁))
      · exact some_gt (hpos h₁)
    | finite s₂ m₂ e₂ h₂ =>
      -- With one sign the magnitudes decide, and they are compared as they are canonical.
      have hcanonical := compare_canonical hu.1 hv.1
      have hsigns : -((m₁ : ℚ) * 2 ^ e₁) < m₂ * 2 ^ e₂ := (neg_lt_zero.2 (hpos h₁)).trans (hpos h₂)
      have hsigns' : -((m₂ : ℚ) * 2 ^ e₂) < m₁ * 2 ^ e₁ := (neg_lt_zero.2 (hpos h₂)).trans (hpos h₁)
      cases s₁ <;> cases s₂
      · simp only [UnpackedFloat.compare, hcanonical, swap_compare_neg]
        rfl
      · exact some_lt hsigns
      · exact some_gt hsigns'
      · simp only [UnpackedFloat.compare, hcanonical]
        rfl

/-- Numbers are in order when they stand in order. -/
theorem Stands.le_iff (hu : Stands F u q) (hv : Stands F v r) : u.le v = true ↔ q ≤ r := by
  rw [UnpackedFloat.le, compare_eq hu.proper hv.proper, hu.stand_eq, hv.stand_eq, Option.any_some,
    Ordering.isLE_iff_ne_gt]
  exact compare_le_iff_le

end

end

end CurveArea.Rounding
