import CurveArea.Proofs.Float.Arithmetic

/-!
# The bits of a number

A number is told by its bits. Bits of a number are those that it is packed to (`pack_unpack`), so
numbers that are unpacked alike are the same; and apart from the two zeros, a number is told by its
place on the line (`At.unique`). Taking bits apart by division gives the same sign, mantissa and
exponent as unpacking them (`parts_eq`).
-/

namespace CurveArea.Rounding

open Float.Model (Format UnpackedFloat)
open Float.Model.UnpackedFloat

section
variable {F : Format}

/-! ## Fields -/

/-- The mantissa is in the lowest bits. -/
theorem toNat_unpackMantissa (b : BitVec F.numBits) :
    (unpackMantissa b).toNat = b.toNat % 2 ^ F.mantissaBitsWithoutImplicit := by
  have hm := F.hm
  rw [unpackMantissa, BitVec.toNat_cast, BitVec.extractLsb_toNat, Nat.shiftRight_zero]
  congr 2
  omega

/-- The exponent is in the bits above the mantissa. -/
theorem toNat_unpackExponent (b : BitVec F.numBits) :
    (unpackExponent b).toNat =
      b.toNat / 2 ^ F.mantissaBitsWithoutImplicit % 2 ^ F.exponentBits := by
  have he := F.he
  rw [unpackExponent, BitVec.toNat_cast, BitVec.extractLsb_toNat, Nat.shiftRight_eq_div_pow]
  congr 2
  omega

/-- The sign is the highest bit. -/
theorem toNat_unpackSign (b : BitVec F.numBits) :
    (unpackSign b).toNat = b.toNat / 2 ^ (F.mantissaBitsWithoutImplicit + F.exponentBits) := by
  have hlt : b.toNat < 2 * 2 ^ (F.mantissaBitsWithoutImplicit + F.exponentBits) := by
    rw [← pow_succ', Nat.add_comm _ 1, Nat.add_comm F.mantissaBitsWithoutImplicit, ← Nat.add_assoc]
    exact b.isLt
  rw [unpackSign, BitVec.toNat_cast, BitVec.extractLsb_toNat, Nat.shiftRight_eq_div_pow,
    Nat.sub_self, Nat.zero_add, pow_one]
  exact Nat.mod_eq_of_lt (Nat.div_lt_of_lt_mul (by rwa [Nat.mul_comm]))

/-- Bits are told by their three fields. -/
theorem eq_of_fields {b c : BitVec F.numBits} (hs : unpackSign b = unpackSign c)
    (he : unpackExponent b = unpackExponent c) (hm : unpackMantissa b = unpackMantissa c) :
    b = c := by
  have hs' := congrArg BitVec.toNat hs
  have he' := congrArg BitVec.toNat he
  have hm' := congrArg BitVec.toNat hm
  rw [toNat_unpackSign, toNat_unpackSign, pow_add, ← Nat.div_div_eq_div_mul,
    ← Nat.div_div_eq_div_mul] at hs'
  rw [toNat_unpackExponent, toNat_unpackExponent] at he'
  rw [toNat_unpackMantissa, toNat_unpackMantissa] at hm'
  have hhigh : b.toNat / 2 ^ F.mantissaBitsWithoutImplicit =
      c.toNat / 2 ^ F.mantissaBitsWithoutImplicit := by
    rw [← Nat.div_add_mod (b.toNat / _) (2 ^ F.exponentBits), hs', he', Nat.div_add_mod]
  apply BitVec.eq_of_toNat_eq
  rw [← Nat.div_add_mod b.toNat (2 ^ F.mantissaBitsWithoutImplicit), hhigh, hm', Nat.div_add_mod]

/-- The three parts of a pattern make the pattern again. -/
theorem packComponents_unpack (b : BitVec F.numBits) :
    packComponents F (Sign.ofBitVec (unpackSign b)) (unpackExponent b) (unpackMantissa b) = b := by
  refine eq_of_fields ?_ unpackExponent_packComponents unpackMantissa_packComponents
  rw [unpackSign_packComponents_eq]
  exact (by decide : ∀ s : BitVec 1, (Sign.ofBitVec s).toBitVec = s) _

/-- A mantissa with the bit that is left out has all places. -/
theorem log2_one_append (m : BitVec F.mantissaBitsWithoutImplicit) :
    (1#1 ++ m).toNat.log2 + 1 = F.mantissaBits := by
  have hlt := m.isLt
  rw [toNat_one_append, Format.mantissaBits, Nat.add_comm 1, (Nat.log2_eq_iff (by omega)).2]
  rw [pow_succ]
  omega

/-- A mantissa without it has fewer. -/
theorem log2_toNat_ne {m : BitVec F.mantissaBitsWithoutImplicit} (h : m ≠ 0#_) :
    ¬ m.toNat.log2 + 1 = F.mantissaBits := by
  have hpos : m.toNat ≠ 0 := fun hm => h (BitVec.eq_of_toNat_eq hm)
  have hlog := (Nat.log2_lt hpos).2 m.isLt
  rw [Format.mantissaBits]
  omega

/-- The first place of a mantissa is lost when it is cut to the bits that are written. -/
theorem ofNat_one_append (m : BitVec F.mantissaBitsWithoutImplicit) :
    BitVec.ofNat F.mantissaBitsWithoutImplicit (1#1 ++ m).toNat = m := by
  apply BitVec.eq_of_toNat_eq
  rw [toNat_one_append, BitVec.toNat_ofNat, Nat.add_mod_left, Nat.mod_eq_of_lt m.isLt]

/-- **Packing again.** Bits of a number are those that it is packed to. -/
theorem pack_unpack (hF : 1 < F.exponentBits) {b : BitVec F.numBits} (h : F.Valid b) :
    pack F (unpack F b) = b := by
  have hsplit := packComponents_unpack b
  have hpow := two_pow_exponentBits F
  have hexponent := (unpackExponent b).isLt
  unfold unpack
  simp only
  -- The bits are infinite, undefined, zero, subnormal or normal, in this order.
  split_ifs with hall hinf hnone hzero
  · rw [pack, packedInfinity, ← hall]
    rw [hinf] at hsplit
    exact hsplit
  · exact (h.eq_packedNaN hall hinf).symm
  · rw [pack, packedZero]
    rw [hnone, hzero] at hsplit
    exact hsplit
  · have hone : ((((unpackExponent b).toNat : ℤ) -
        (F.exponentBias + F.mantissaBitsWithoutImplicit) + 1) + F.exponentBias +
          F.mantissaBitsWithoutImplicit).toNat = 1 := by
      rw [hnone, BitVec.toNat_zero]
      omega
    have htwo : 2 ^ 2 ≤ 2 ^ F.exponentBits := Nat.pow_le_pow_right two_pos hF
    simp only [pack, hone]
    rw [if_neg (by omega), if_neg (log2_toNat_ne hzero), BitVec.ofNat_toNat, BitVec.setWidth_eq,
      ← hnone]
    exact hsplit
  · have hexp : ((((unpackExponent b).toNat : ℤ) -
        (F.exponentBias + F.mantissaBitsWithoutImplicit)) + F.exponentBias +
          F.mantissaBitsWithoutImplicit).toNat = (unpackExponent b).toNat := by
      omega
    have hbelow : ¬ 2 ^ F.exponentBits ≤ (unpackExponent b).toNat + 1 := fun htop =>
      hall (BitVec.eq_of_toNat_eq (by
        rw [BitVec.neg_one_eq_allOnes, BitVec.toNat_allOnes]
        omega))
    simp only [pack, hexp]
    rw [if_neg hbelow, if_pos (log2_one_append _), ofNat_one_append, BitVec.ofNat_toNat,
      BitVec.setWidth_eq]
    exact hsplit

/-! ## Numbers and places -/

/-- Every number of a format is read back. -/
theorem unpack_pack_of_proper {u : UnpackedFloat} (h : Proper F u) : unpack F (pack F u) = u := by
  cases u with
  | notANumber => exact h.elim
  | infinity s => exact unpack_pack_infinity s
  | zero s => exact unpack_pack_zero s
  | finite s m e hm => exact unpack_pack_finite hm h.1 h.2

/-- A positive number with a sign tells both. -/
theorem withSign_inj {s t : Sign} {q r : ℚ} (hq : 0 < q) (hr : 0 < r)
    (h : withSign s q = withSign t r) : s = t ∧ q = r := by
  cases s <;> cases t <;> simp only [withSign] at h
  · exact ⟨rfl, neg_injective h⟩
  · linarith
  · linarith
  · exact ⟨rfl, h⟩

/-- Only the two zeros stand at the same place. -/
theorem eq_of_stand_eq {u v : UnpackedFloat} (hu : Proper F u) (hv : Proper F v)
    (hne : stand F u ≠ 0) (h : stand F u = stand F v) : u = v := by
  have hfinite : u.isFinite = v.isFinite := by
    rw [Bool.eq_iff_iff, ← abs_stand_lt_iff hu, ← abs_stand_lt_iff hv, h]
  have hpow : ∀ e : ℤ, (0 : ℚ) < 2 ^ e := two_zpow_pos
  match u, v with
  | .zero _, _ => exact absurd rfl hne
  | _, .zero _ => exact absurd h hne
  | .infinity s, .infinity t =>
    obtain ⟨rfl, -⟩ := withSign_inj (limit_pos F) (limit_pos F) h
    rfl
  | .finite s m₁ e₁ h₁, .finite t m₂ e₂ h₂ =>
    have hpos₁ : (0 : ℚ) < m₁ * 2 ^ e₁ := mul_pos (by exact_mod_cast h₁) (hpow e₁)
    have hpos₂ : (0 : ℚ) < m₂ * 2 ^ e₂ := mul_pos (by exact_mod_cast h₂) (hpow e₂)
    obtain ⟨rfl, hworth⟩ := withSign_inj hpos₁ hpos₂ h
    have hcompare := compare_canonical hu.1 hv.1
    rw [hworth, compare_eq_iff_eq.2 rfl, Ordering.then_eq_eq, compare_eq_iff_eq,
      compare_eq_iff_eq] at hcompare
    obtain ⟨rfl, rfl⟩ := hcompare
    rfl
  | .infinity _, .finite .. => cases hfinite
  | .finite .., .infinity _ => cases hfinite

/-- The opposite of a number stands at the opposite place. -/
theorem stand_neg (u : UnpackedFloat) : stand F u.neg = -stand F u := by
  cases u with
  | infinity s => cases s <;> simp [UnpackedFloat.neg, stand, withSign]
  | notANumber => exact worth_neg .notANumber
  | zero s => exact worth_neg (.zero s)
  | finite s m e hm => exact worth_neg (.finite s m e hm)

/-- The opposite of a number of the format is one. -/
theorem Proper.neg {u : UnpackedFloat} (h : Proper F u) : Proper F u.neg := by
  cases u <;> exact h

/-- The number without its sign stands at the place without its sign. -/
theorem stand_abs (u : UnpackedFloat) : stand F u.abs = |stand F u| := by
  cases u with
  | infinity s => exact (abs_withSign s (limit_pos F).le).symm
  | notANumber => exact abs_zero.symm
  | zero s => exact abs_zero.symm
  | finite s m e hm =>
    exact (abs_withSign s (mul_nonneg m.cast_nonneg (two_zpow_pos e).le)).symm

/-- A number of the format without its sign is one. -/
theorem Proper.abs {u : UnpackedFloat} (h : Proper F u) : Proper F u.abs := by
  cases u <;> exact h

/-- What is negated and packed stands on the other side of zero. -/
theorem Stands.neg {u : UnpackedFloat} {q : ℚ} (h : Stands F u q) :
    Stands F (unpack F (pack F u.neg)) (-q) := by
  rw [unpack_pack_of_proper h.proper.neg]
  exact ⟨h.proper.neg, by rw [stand_neg, h.stand_eq]⟩

/-- What has its sign removed and is packed stands at the distance from zero. -/
theorem Stands.abs {u : UnpackedFloat} {q : ℚ} (h : Stands F u q) :
    Stands F (unpack F (pack F u.abs)) |q| := by
  rw [unpack_pack_of_proper h.proper.abs]
  exact ⟨h.proper.abs, by rw [stand_abs, h.stand_eq]⟩

end

end CurveArea.Rounding

namespace CurveArea.Binary64

open CurveArea.Rounding CurveArea.Binary
open Float.Model (UnpackedFloat)
open Float.Model.UnpackedFloat

/-- Whether a sign is the minus sign. -/
def isMinus : Sign → Bool
  | .negative => true
  | .positive => false

/-- What the bits of an unpacked number say. -/
def partsOf : UnpackedFloat → Parts
  | .notANumber => .nan
  | .infinity s => .infinite (isMinus s)
  | .zero s => .finite (isMinus s) 0 binary64.leastExponent
  | .finite s m e _ => .finite (isMinus s) m e

/-- Bits are taken apart as they are unpacked. -/
theorem parts_toNat (b : BitVec Float.Model.Format.binary64.numBits) :
    binary64.parts b.toNat = partsOf (unpack .binary64 b) := by
  have hm : b.toNat % Nat.pow 2 52 = (unpackMantissa b).toNat := (toNat_unpackMantissa b).symm
  have he : b.toNat / Nat.pow 2 52 % Nat.pow 2 11 = (unpackExponent b).toNat :=
    (toNat_unpackExponent b).symm
  have hs : b.toNat / Nat.pow 2 (52 + 11) = (unpackSign b).toNat := (toNat_unpackSign b).symm
  have hsign : decide ((unpackSign b).toNat = 1) = isMinus (Sign.ofBitVec (unpackSign b)) := by
    generalize unpackSign b = s
    revert s
    decide
  have hall : unpackExponent b = -1#_ ↔ (unpackExponent b).toNat = Nat.pow 2 11 - 1 := by
    rw [← BitVec.toNat_inj]
    rfl
  have hnone : unpackExponent b = 0#_ ↔ (unpackExponent b).toNat = 0 := by
    rw [← BitVec.toNat_inj]
    rfl
  have hzero : unpackMantissa b = 0#_ ↔ (unpackMantissa b).toNat = 0 := by
    rw [← BitVec.toNat_inj]
    rfl
  have hbias : ((Float.Model.Format.binary64.exponentBias : ℤ) +
      Float.Model.Format.binary64.mantissaBitsWithoutImplicit) = 1075 := rfl
  -- The two sides now test the same fields and differ in how they write the exponent.
  simp only [Format.parts, binary64, hm, he, hs, hsign]
  unfold unpack
  simp only [hall, hnone, hzero, hbias]
  split_ifs with h₁ h₂ h₃ h₄
  · rfl
  · rfl
  · rw [h₄]
    rfl
  · rw [partsOf, h₃]
    rfl
  · have hexp : Format.leastExponent ⟨52, 11⟩ + (((unpackExponent b).toNat - 1 : ℕ) : ℤ) =
        (unpackExponent b).toNat - 1075 := by
      rw [show Format.leastExponent ⟨52, 11⟩ = -1074 from rfl]
      omega
    rw [partsOf, toNat_one_append, hexp]
    rfl

/-- A number is taken apart as it is unpacked. -/
theorem parts_eq (v : Float) : parts v = partsOf v.toModel.unpack :=
  parts_toNat v.toModel.toBits.toBitVec

/-! ## Numbers -/

section
variable {a b : Float} {q : ℚ}

/-- Numbers that are unpacked alike are the same. -/
theorem eq_of_unpack_eq (h : a.toModel.unpack = b.toModel.unpack) : a = b := by
  have hbits : ∀ v : Float.Model,
      pack .binary64 v.unpack = (v.toBits.toBitVec : BitVec Float.Model.Format.binary64.numBits) :=
    fun v => pack_unpack (F := .binary64) (by decide) v.valid
  have heq := (hbits a.toModel).symm.trans ((congrArg (pack .binary64) h).trans (hbits b.toModel))
  obtain ⟨⟨⟨x⟩, hx⟩⟩ := a
  obtain ⟨⟨⟨y⟩, hy⟩⟩ := b
  have hxy : x = y := heq
  subst hxy
  rfl

/-- **One number at a place.** No two numbers stand at one place other than zero. -/
theorem At.unique (ha : At a q) (hb : At b q) (hq : q ≠ 0) : a = b := by
  refine eq_of_unpack_eq (eq_of_stand_eq (F := .binary64) (proper_of_defined ha.defined)
    (proper_of_defined hb.defined) ?_ (ha.place_eq.trans hb.place_eq.symm))
  exact fun h => hq (ha.place_eq.symm.trans h)

/-- The opposite of a float is that of its unpacked number. -/
theorem unpack_neg (ha : a.isNaN = false) : (-a).toModel.unpack = a.toModel.unpack.neg :=
  unpack_pack_of_proper (proper_of_defined ha).neg

/-- The negation of a number stands on the other side of zero. -/
theorem at_neg (ha : At a q) : At (-a) (-q) := at_iff.2 (at_iff.1 ha).neg

/-- The magnitude of a number stands at its distance from zero. -/
theorem at_abs (ha : At a q) : At (Scalar.abs a) |q| := at_iff.2 (at_iff.1 ha).abs

/-- The distance of two numbers is above a third one. -/
theorem lt_abs_sub_iff {c : Float} (ha : a.isFinite = true) (hb : b.isFinite = true) :
    c < Scalar.abs (b - a) ↔
      c.isNaN = false ∧ place c < |fit .binary64 (place b - place a)| := by
  have hdist := at_abs (at_sub hb ha)
  rw [lt_iff, hdist.place_eq]
  exact ⟨fun h => ⟨h.1, h.2.2⟩, fun h => ⟨h.1, hdist.defined, h.2⟩⟩

end

end CurveArea.Binary64
