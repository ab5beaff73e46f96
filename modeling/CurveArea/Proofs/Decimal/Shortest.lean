import CurveArea.Proofs.Decimal.Digits
import Mathlib.Tactic.Linarith

/-!
# Where the shortest decimal lies

The shortest decimal of a number is read as the number: it lies in the interval of the reals that
are (`Interval.holds_shortest`). Those that are found on a grid were looked for there. The decimal
of seventeen digits that is left when none is found is near enough to the number, provided that the
interval reaches far enough to both sides.
-/

namespace CurveArea.Decimal

/-! ## Quotients -/

namespace Ratio

/-- The rational number that a quotient is. -/
def worth (r : Ratio) : ℚ := r.num / r.den

variable {r : Ratio}

/-- The place of the leading digit is not too high. -/
theorem pow_leadingPlace_le (hnum : 0 < r.num) (hden : 0 < r.den) :
    (10 : ℚ) ^ r.leadingPlace ≤ r.worth := by
  have hden' : (0 : ℚ) < r.den := by exact_mod_cast hden
  rw [worth, le_div_iff₀ hden', leadingPlace]
  split
  case isTrue hle =>
    have hquot : r.num / r.den ≠ 0 := (Nat.div_pos hle hden).ne'
    have hcount : 10 ^ digitCount (r.num / r.den) * r.den ≤ 10 * r.num :=
      calc 10 ^ digitCount (r.num / r.den) * r.den
          ≤ 10 * (r.num / r.den) * r.den := Nat.mul_le_mul_right _ (pow_digitCount_le hquot)
        _ = 10 * (r.num / r.den * r.den) := Nat.mul_assoc ..
        _ ≤ 10 * r.num := Nat.mul_le_mul_left 10 (Nat.div_mul_le_self ..)
    have hcast : (10 : ℚ) ^ digitCount (r.num / r.den) * r.den ≤ 10 * r.num := by
      exact_mod_cast hcount
    rw [zpow_sub_one₀ (by norm_num), zpow_natCast]
    linarith
  case isFalse hlt =>
    have hcount : r.den ≤ r.num * 10 ^ digitCount ((r.den - 1) / r.num) := by
      have hlt := (Nat.div_lt_iff_lt_mul hnum).1 (lt_pow_digitCount ((r.den - 1) / r.num))
      rw [Nat.mul_comm] at hlt
      omega
    have hcast : (r.den : ℚ) ≤ r.num * 10 ^ digitCount ((r.den - 1) / r.num) := by
      exact_mod_cast hcount
    rw [zpow_neg, zpow_natCast, inv_mul_le_iff₀ (by positivity)]
    linarith

/-- Nor is it too low. -/
theorem lt_pow_leadingPlace_add_one (hnum : 0 < r.num) (hden : 0 < r.den) :
    r.worth < 10 ^ (r.leadingPlace + 1) := by
  have hden' : (0 : ℚ) < r.den := by exact_mod_cast hden
  rw [worth, div_lt_iff₀ hden', leadingPlace]
  split
  case isTrue hle =>
    have hcount : r.num < 10 ^ digitCount (r.num / r.den) * r.den :=
      (Nat.div_lt_iff_lt_mul hden).1 (lt_pow_digitCount _)
    rw [sub_add_cancel, zpow_natCast]
    exact_mod_cast hcount
  case isFalse hlt =>
    have hquot : (r.den - 1) / r.num ≠ 0 := (Nat.div_pos (by omega) hnum).ne'
    have hcount : 10 ^ digitCount ((r.den - 1) / r.num) * r.num < 10 * r.den :=
      calc 10 ^ digitCount ((r.den - 1) / r.num) * r.num
          ≤ 10 * ((r.den - 1) / r.num) * r.num := Nat.mul_le_mul_right _ (pow_digitCount_le hquot)
        _ = 10 * ((r.den - 1) / r.num * r.num) := Nat.mul_assoc ..
        _ ≤ 10 * (r.den - 1) := Nat.mul_le_mul_left 10 (Nat.div_mul_le_self ..)
        _ < 10 * r.den := by omega
    have hcast : (10 : ℚ) ^ digitCount ((r.den - 1) / r.num) * r.num < 10 * r.den := by
      exact_mod_cast hcount
    rw [zpow_add_one₀ (by norm_num), zpow_neg, zpow_natCast, mul_assoc,
      lt_inv_mul_iff₀ (by positivity)]
    exact hcast

/-- Units are changed by moving the point. -/
theorem worth_inUnits (r : Ratio) (place : ℤ) :
    (r.inUnits place).worth = r.worth / 10 ^ place := by
  match place with
  | .ofNat k => simp [worth, inUnits, div_div]
  | .negSucc k =>
    rw [zpow_negSucc, div_inv_eq_mul, worth, worth, inUnits, Nat.pow_eq]
    push_cast
    ring

/-- Counted in units of any place, a quotient has a positive denominator. -/
theorem den_inUnits_pos (hden : 0 < r.den) (place : ℤ) : 0 < (r.inUnits place).den := by
  match place with
  | .ofNat k => exact Nat.mul_pos hden (Nat.pow_pos (by decide))
  | .negSucc k => exact hden

/-- Rounding moves a quotient by half a unit at most. -/
theorem abs_round_sub_le (hden : 0 < r.den) : |(r.round : ℚ) - r.worth| ≤ 1 / 2 := by
  obtain ⟨hlow, hhigh⟩ := r.round_near hden
  have hden' : (0 : ℚ) < r.den := by exact_mod_cast hden
  have hlow' : (2 : ℚ) * (r.round * r.den) ≤ 2 * r.num + r.den := by exact_mod_cast hlow
  have hhigh' : (2 : ℚ) * r.num ≤ 2 * (r.round * r.den) + r.den := by exact_mod_cast hhigh
  have hworth : r.worth * r.den = r.num := div_mul_cancel₀ _ hden'.ne'
  rw [abs_le]
  constructor <;> nlinarith

/-- So what is rounded in units of a place differs by half of such a unit at most. -/
theorem abs_round_mul_sub_le (hden : 0 < r.den) (place : ℤ) :
    |(r.inUnits place).round * 10 ^ place - r.worth| ≤ (10 : ℚ) ^ place / 2 := by
  have hpow : (0 : ℚ) < 10 ^ place := by positivity
  have hround := abs_round_sub_le (den_inUnits_pos hden place)
  rw [worth_inUnits] at hround
  have hscaled : (r.inUnits place).round * 10 ^ place - r.worth =
      ((r.inUnits place).round - r.worth / 10 ^ place) * 10 ^ place := by field_simp
  rw [hscaled, abs_mul, abs_of_pos hpow]
  linarith [mul_le_mul_of_nonneg_right hround hpow.le]

end Ratio

/-! ## Intervals -/

namespace Interval

/-- A rational number lies in an interval. -/
def Holds (i : Interval) (q : ℚ) : Prop :=
  if i.closed then (i.low : ℚ) / i.den ≤ q ∧ q ≤ (i.high : ℚ) / i.den
  else (i.low : ℚ) / i.den < q ∧ q < (i.high : ℚ) / i.den

variable {i : Interval} {q : ℚ}

/-- What is strictly between the bounds is in the interval, whether they are or not. -/
theorem holds_of_lt_of_lt (hlow : (i.low : ℚ) / i.den < q) (hhigh : q < (i.high : ℚ) / i.den) :
    i.Holds q := by
  unfold Holds
  split
  · exact ⟨hlow.le, hhigh.le⟩
  · exact ⟨hlow, hhigh⟩

/-- The test of a multiple of a unit tells whether it lies in the interval. -/
theorem holds_iff {scale unit n : Nat} {place : ℤ} (hden : 0 < i.den) (hscale : 0 < scale)
    (hunit : (unit : ℚ) = i.den * scale * 10 ^ place) :
    i.holds scale unit n = true ↔ i.Holds (n * 10 ^ place) := by
  have hden' : (0 : ℚ) < i.den := by exact_mod_cast hden
  have hscale' : (0 : ℚ) < scale := by exact_mod_cast hscale
  have hmul : ((n * unit : ℕ) : ℚ) = n * 10 ^ place * i.den * scale := by
    push_cast
    rw [hunit]
    ring
  have hbelow : ∀ m : ℕ, m * scale ≤ n * unit ↔ (m : ℚ) / i.den ≤ n * 10 ^ place := fun m => by
    rw [← Nat.cast_le (α := ℚ), hmul, Nat.cast_mul, mul_le_mul_iff_left₀ hscale',
      div_le_iff₀ hden']
  have habove : ∀ m : ℕ, n * unit ≤ m * scale ↔ n * 10 ^ place ≤ (m : ℚ) / i.den := fun m => by
    rw [← Nat.cast_le (α := ℚ), hmul, Nat.cast_mul, mul_le_mul_iff_left₀ hscale',
      le_div_iff₀ hden']
  unfold holds Holds
  split
  · simp [hbelow, habove]
  · simp [← not_le, hbelow, habove]

/-- The neighbour that is chosen has passed the test. -/
theorem holds_of_choice {scale unit below c : Nat} {p : Prop} [Decidable p]
    (h : (match i.holds scale unit below, i.holds scale unit (below + 1) with
      | true, true => if p then some below else some (below + 1)
      | true, false => some below
      | false, true => some (below + 1)
      | false, false => none) = some c) : i.holds scale unit c = true := by
  split at h
  case h_1 hbelow habove =>
    split at h <;> cases h <;> assumption
  case h_2 hbelow habove =>
    cases h
    exact hbelow
  case h_3 hbelow habove =>
    cases h
    exact habove
  case h_4 => cases h

/-- A decimal that is chosen at a place is in the interval. -/
theorem holds_nearest? {place : ℤ} {c : Nat} (hden : 0 < i.den)
    (h : i.nearest? place = some c) : i.Holds (c * 10 ^ place) := by
  unfold nearest? at h
  match place with
  | .ofNat k =>
    refine (holds_iff hden one_pos ?_).1 (holds_of_choice h)
    simp
  | .negSucc k =>
    refine (holds_iff hden (Nat.pow_pos (by decide)) ?_).1 (holds_of_choice h)
    rw [zpow_negSucc]
    push_cast
    field_simp

/-- The interval reaches so far to both sides that decimals of seventeen digits cannot miss it. -/
structure Wide (i : Interval) : Prop where
  /-- There is something to divide by. -/
  den_pos : 0 < i.den
  /-- The number is positive. -/
  value_pos : 0 < i.value
  /-- It reaches far down. -/
  low_lt : i.value < 2 * 10 ^ 16 * (i.value - i.low)
  /-- It reaches far up. -/
  high_lt : i.value < 2 * 10 ^ 16 * (i.high - i.value)

/-- A decimal that is rounded to the sixteenth place after the leading one lies in the interval. -/
theorem Wide.holds_round (h : i.Wide) {lead : ℤ} (hlead : (10 : ℚ) ^ lead ≤ i.value / i.den) :
    i.Holds (((Ratio.mk i.value i.den).inUnits (lead - 16)).round * 10 ^ (lead - 16)) := by
  have hden : (0 : ℚ) < i.den := by exact_mod_cast h.den_pos
  have hsmall : (10 : ℚ) ^ (lead - 16) * 10 ^ 16 ≤ i.value / i.den := by
    rw [← zpow_natCast, ← zpow_add₀ (by norm_num)]
    simpa using hlead
  have hnear := Ratio.abs_round_mul_sub_le (r := Ratio.mk i.value i.den) h.den_pos (lead - 16)
  rw [Ratio.worth] at hnear
  generalize (((Ratio.mk i.value i.den).inUnits (lead - 16)).round : ℚ) = n at hnear ⊢
  generalize hu : (10 : ℚ) ^ (lead - 16) = u at *
  have hvalue : (i.value : ℚ) / i.den * i.den = i.value := div_mul_cancel₀ _ hden.ne'
  have hlow : (i.value : ℚ) < 2 * 10 ^ 16 * (i.value - i.low) := by
    have hle : i.low ≤ i.value := by have := h.low_lt; omega
    exact_mod_cast (Nat.cast_lt (α := ℚ)).2 h.low_lt
  have hhigh : (i.value : ℚ) < 2 * 10 ^ 16 * (i.high - i.value) := by
    have hle : i.value ≤ i.high := by have := h.high_lt; omega
    exact_mod_cast (Nat.cast_lt (α := ℚ)).2 h.high_lt
  obtain ⟨hleft, hright⟩ := abs_le.1 hnear
  apply holds_of_lt_of_lt
  · rw [div_lt_iff₀ hden]
    nlinarith
  · rw [lt_div_iff₀ hden]
    nlinarith

/-- **Shortest decimals.** The shortest decimal of a number lies in the interval of the number. -/
theorem holds_shortest (h : i.Wide) : i.Holds i.shortest.worth := by
  have hfound : ∀ {lead : ℤ} {f : Figures},
      ((List.range 17).findSome? fun (n : Nat) =>
        (i.nearest? (lead - n)).map fun c => Figures.mk c (lead - n)) = some f →
      i.Holds f.worth := by
    intro lead f hf
    obtain ⟨n, -, hn⟩ := List.exists_of_findSome?_eq_some hf
    obtain ⟨c, hc, rfl⟩ := Option.map_eq_some_iff.1 hn
    exact holds_nearest? h.den_pos hc
  unfold shortest
  dsimp only
  split
  case h_1 place hten =>
    have hworth : Figures.worth ⟨1, place + 1⟩ = Figures.worth ⟨10, place⟩ := by
      simp [Figures.worth, zpow_add_one₀, mul_comm]
    rw [hworth]
    exact hfound hten
  case h_2 f hf => exact hfound hf
  case h_3 =>
    exact h.holds_round (Ratio.pow_leadingPlace_le h.value_pos h.den_pos)

end Interval

end CurveArea.Decimal
