import CurveArea.Number.Binary32
import CurveArea.Proofs.Float.Reading

/-!
# Narrowing to binary32

A number of binary64 is narrowed by way of its exact decimal, which is rounded once: what comes of a
finite number stands where that number fits in (`Binary32.at_narrow`), and nothing finite comes of
another (`Binary32.isFinite_of_narrow`). The decimal is never one of the few that are read by a
product or a quotient of exact numbers, since a normal number has too many digits for that, and the
exponent of another is too low.
-/

namespace CurveArea.Binary32

open CurveArea.Decimal CurveArea.Rounding
open Float.Model (Format UnpackedFloat)
open Float.Model.UnpackedFloat

/-- A number is defined and stands at a place on the line. -/
def At (a : Float32) (q : ℚ) : Prop := Stands Format.binary32 a.toModel.unpack q

section
variable {a b : Float32} {q r : ℚ}

/-- A number is finite when its place is below the limit. -/
theorem At.isFinite_iff (h : At a q) : a.isFinite = true ↔ |q| < limit Format.binary32 :=
  Stands.isFinite_iff h

/-- Numbers are in order when their places are. -/
theorem At.le_iff (ha : At a q) (hb : At b r) : a ≤ b ↔ q ≤ r := by
  rw [← Stands.le_iff ha hb]
  change decide (a.toModel.unpack.le b.toModel.unpack = true) = true ↔ _
  rw [decide_eq_true_eq]

/-- The negation of a number stands on the other side of zero. -/
theorem at_neg (ha : At a q) : At (-a) (-q) := Stands.neg ha

/-- A number is told by its bits. -/
theorem at_of_unpack {u : UnpackedFloat} (h : a.toModel.unpack = u) (hu : u.isNaN = false) :
    At a (stand Format.binary32 u) := by
  have hstands := stands_unpack (F := .binary32) (by decide) (b := a.toModel.toBits.toBitVec) h hu
  rwa [← h] at hstands ⊢

end

/-! ## Reading -/

section
variable {c : Nat} {x : ℤ}

/-- The leading places between which decimals are rounded. -/
theorem covers_binary32 : Covers Format.binary32 (-60) 50 :=
  covers_of_le (k := 149) rfl (by decide +kernel) (by decide +kernel)

/-- A decimal is too long to be read by a product or a quotient of exact numbers: its coefficient
has too many digits or its exponent is too far from zero. -/
def Long (c : Nat) (x : ℤ) : Prop := 2 ^ 23 ≤ c ∨ 10 < x.natAbs

/-- A long decimal with an exponent of either sign is rounded. -/
theorem at_ofScientific (negative : Bool) {k : Nat} (h : 2 ^ 23 ≤ c ∨ 10 < k) :
    At (Float32.ofScientific c negative k)
      (fit Format.binary32 (c * 10 ^ (if negative then -k else k : ℤ))) := by
  have hslow (e : ℤ) : At (.ofModel (Float32.Model.ofScientific c e))
      (fit Format.binary32 (c * 10 ^ e)) :=
    stands_unpack_ofScientific (F := .binary32) (by decide) (by decide) c e
  rw [Float32.ofScientific, dif_neg (by omega)]
  cases negative with
  | true =>
    have hneg := hslow (-k)
    rwa [if_pos rfl]
  | false => exact hslow k

/-- A decimal that is neither lost nor out of range is read with its exponent. -/
theorem nearest_eq (c : Nat) (x : ℤ) : nearest c x =
    if c = 0 ∨ Literal.leadingPlace c x < -60 then 0.0
    else if 50 < Literal.leadingPlace c x then 1.0 / 0.0
    else Float32.ofScientific c (decide (x < 0)) x.natAbs := by
  simp only [nearest, Bool.or_eq_true, decide_eq_true_eq]
  cases x with
  | ofNat k => rfl
  | negSucc k =>
    rw [decide_eq_true (Int.negSucc_lt_zero k)]
    rfl

/-- **Reading decimals.** A decimal that is zero or long is read as the number nearest to it. -/
theorem at_nearest (h : c = 0 ∨ Long c x) :
    At (nearest c x) (fit Format.binary32 (c * 10 ^ x)) := by
  have hunpack : (nearest c x).toModel.unpack =
      if c = 0 ∨ Literal.leadingPlace c x < -60 then .zero .positive
      else if 50 < Literal.leadingPlace c x then .infinity .positive
      else (Float32.ofScientific c (decide (x < 0)) x.natAbs).toModel.unpack := by
    rw [nearest_eq]
    split_ifs <;> rfl
  rw [At, hunpack]
  refine covers_binary32.stands_nearest fun hc => ?_
  have hread := at_ofScientific (decide (x < 0)) (h.resolve_left hc)
  rwa [signed_natAbs] at hread

end

/-! ## Narrowing -/

section
variable {v : Float} {m : Nat} {e : ℤ}

/-- The exact decimal of a magnitude. -/
theorem exists_literal (negative : Bool) (m : Nat) (e : ℤ) :
    ∃ c x, (Binary.Parts.finite negative m e).literal = .finite negative c x ∧
      (c : ℚ) * 10 ^ x = m * 2 ^ e ∧ m ≤ c ∧ x = min e 0 := by
  match e with
  | .ofNat k =>
    refine ⟨m * 2 ^ k, 0, rfl, ?_, Nat.le_mul_of_pos_right m (Nat.two_pow_pos k), ?_⟩
    · rw [zpow_zero, mul_one, Int.ofNat_eq_natCast, zpow_natCast]
      push_cast
      rfl
    · exact (min_eq_right (Int.natCast_nonneg k)).symm
  | .negSucc k =>
    refine ⟨m * 5 ^ (k + 1), .negSucc k, rfl, ?_, Nat.le_mul_of_pos_right m (by positivity), ?_⟩
    · have hten : (10 : ℚ) ^ (k + 1) = 2 ^ (k + 1) * 5 ^ (k + 1) := by
        rw [← mul_pow]
        norm_num
      rw [zpow_negSucc, zpow_negSucc, hten]
      push_cast
      field_simp
    · exact (min_eq_left (Int.negSucc_lt_zero k).le).symm

/-- It is long, since the mantissa of a number has all its places or the exponent is the least. -/
theorem long_of_canonical {c : Nat} {x : ℤ} (h : Canonical Format.binary64 m e) (hc : m ≤ c)
    (hx : x = min e 0) : Long c x := by
  rcases h.full with he | hm
  · have hmin : Format.binary64.minExponent = -1074 := rfl
    exact .inr (by omega)
  · exact .inl ((by decide : 2 ^ 23 ≤ 2 ^ 52).trans (hm.trans hc))

/-- A magnitude is narrowed to the number nearest to it. -/
theorem at_ofLiteral_literal (negative : Bool) (h : m ≠ 0 → Canonical Format.binary64 m e) :
    At (ofLiteral (Binary.Parts.finite negative m e).literal)
      (if negative then -fit Format.binary32 (m * 2 ^ e) else fit Format.binary32 (m * 2 ^ e)) := by
  obtain ⟨c, x, hliteral, hworth, hc, hx⟩ := exists_literal negative m e
  have hlong : c = 0 ∨ Long c x := by
    by_cases hm : m = 0
    · left
      rw [hm, Nat.cast_zero, zero_mul] at hworth
      exact_mod_cast (mul_eq_zero.1 hworth).resolve_right (by positivity)
    · exact .inr (long_of_canonical (h hm) hc hx)
  have hnear := at_nearest hlong
  rw [hworth] at hnear
  rw [hliteral]
  cases negative with
  | true => exact at_neg hnear
  | false => exact hnear

/-- **Narrowing.** A finite number is narrowed to one that stands where it fits in. -/
theorem at_narrow (hv : v.isFinite = true) :
    At (narrow v) (fit Format.binary32 (Binary64.place v)) := by
  have hreg := Binary64.regular_of_isFinite hv
  rw [narrow, Binary64.parts_eq, ← Binary64.worth_of_isFinite hv]
  match v.toModel.unpack, hreg with
  | .zero s, _ =>
    have hzero := at_ofLiteral_literal (m := 0) (e := Binary.binary64.leastExponent)
      (Binary64.isMinus s) fun h => absurd rfl h
    rw [Nat.cast_zero, zero_mul, fit_zero, neg_zero, ite_self] at hzero
    have hworth : worth (.zero s) = 0 := rfl
    rw [hworth, fit_zero]
    exact hzero
  | .finite s m e hm, hreg =>
    have hfinite := at_ofLiteral_literal (Binary64.isMinus s) fun _ => hreg
    cases s with
    | negative =>
      rw [worth, withSign, fit_neg]
      exact hfinite
    | positive => exact hfinite

/-- Only a finite number is narrowed to a finite one. -/
theorem isFinite_of_narrow (h : (narrow v).isFinite = true) : v.isFinite = true := by
  rw [narrow, Binary64.parts_eq] at h
  rw [Binary64.isFinite_eq]
  match hunpack : v.toModel.unpack with
  | .notANumber =>
    rw [hunpack] at h
    exact absurd h (by decide +kernel)
  | .infinity s =>
    rw [hunpack] at h
    cases s <;> exact absurd h (by decide +kernel)
  | .zero _ => rfl
  | .finite .. => rfl

end

end CurveArea.Binary32
