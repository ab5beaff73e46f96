import CurveArea.Proofs.Decimal.Labels
import CurveArea.Proofs.Float.Reading

/-!
# Labels of numbers in binary64

Every finite number is written as a label that shows it, with a minus sign just when its sign bit is
set (`exists_label_of_isFinite`). That holds of the two zeros as well, and of the numbers that
rounding takes to the next power of ten.
-/

namespace CurveArea.Binary64

open CurveArea.Decimal CurveArea.Rounding
open Float.Model (UnpackedFloat)
open Float.Model.UnpackedFloat

section
variable {v : Float} {negative : Bool} {m : Nat} {e : ℤ}

/-- The sign of a finite number is its highest bit. -/
theorem testBit_of_parts (h : parts v = .finite negative m e) :
    v.toBits.toNat.testBit 63 = negative := by
  have hlt : v.toBits.toNat / 2 ^ 63 < 2 := Nat.div_lt_of_lt_mul v.toBits.toNat_lt
  have hsign : decide (v.toBits.toNat / Nat.pow 2 (52 + 11) = 1) = negative := by
    rw [parts, Binary.Format.parts] at h
    split at h
    case isTrue => split at h <;> cases h
    case isFalse => split at h <;> exact (Binary.Parts.finite.inj h).1
  rw [Nat.testBit_eq_decide_div_mod_eq, Nat.mod_eq_of_lt hlt]
  exact hsign

/-- A finite number has a magnitude. -/
theorem exists_parts_of_isFinite (hv : v.isFinite = true) :
    ∃ negative m e, parts v = .finite negative m e := by
  rw [isFinite_eq] at hv
  rw [parts_eq]
  match v.toModel.unpack, hv with
  | .zero s, _ => exact ⟨isMinus s, 0, _, rfl⟩
  | .finite s m e _, _ => exact ⟨isMinus s, m, e, rfl⟩

/-- The magnitude of a number and its sign tell where it stands. -/
theorem place_of_parts (h : parts v = .finite negative m e) :
    place v = if negative then -((Binary.ratio m e).worth) else (Binary.ratio m e).worth := by
  rw [worth_ratio]
  obtain ⟨s, rfl, ⟨rfl, hunpack⟩ | ⟨hm, hunpack⟩⟩ := unpack_of_parts h
  · have hzero : place v = 0 := by
      rw [place, hunpack]
      rfl
    simp [hzero]
  · rw [(at_of_unpack hunpack).place_eq]
    cases s <;> rfl

/-- What is written for a finite number is what is written for its magnitude, with its sign. -/
theorem toList_write (h : parts v = .finite negative m e) (finite : Nat → ℤ → List Char) :
    (write finite v).toList = if negative then '-' :: finite m e else finite m e := by
  rw [write, h]
  exact String.toList_ofList

/-- A number with one digit before the point and two after it, and its exponent as an integer. -/
def twoDecimals : Float → String := write fun m e => (Binary.ratio m e).twoDecimals

/-- **Labels.** What is written for the label of a finite number has the form of a label. It begins
with a minus sign just when the sign bit of the number is set, and shows the number: a digit other
than zero comes first unless the number is zero, whose exponent is `+00`, and what the label denotes
differs from the number by half a unit of the second decimal at most. It is written by padding the
exponent of a text with two decimals, and both texts are read as the number that the label
denotes. -/
theorem exists_label_of_isFinite (hv : v.isFinite = true) :
    ∃ l : Label, (Numeral.label v).toList = l.toList ∧
      l.negative = v.toBits.toNat.testBit 63 ∧ l.Shows (place v) ∧
      (Numeral.label v).toList = padExponent (twoDecimals v).toList ∧
      ∃ literal : Literal, Literal.read? (twoDecimals v) = some literal ∧
        Literal.read? (Numeral.label v) = some literal ∧ literal.worth? = some l.worth := by
  obtain ⟨negative, m, e, hparts⟩ := exists_parts_of_isFinite hv
  have hlabel : (Numeral.label v).toList =
      if negative then '-' :: (Binary.ratio m e).label else (Binary.ratio m e).label :=
    toList_write hparts _
  have htext : (twoDecimals v).toList =
      if negative then '-' :: (Binary.ratio m e).twoDecimals else (Binary.ratio m e).twoDecimals :=
    toList_write hparts _
  obtain ⟨l, rfl, hlist, hshows, hmagnitude⟩ :=
    (Binary.ratio m e).exists_label (den_ratio_pos m e) negative
  obtain ⟨hpad, literal, hreadText, hreadLabel, hworth⟩ :=
    (Binary.ratio m e).ofChars?_label l.negative
  refine ⟨l, hlabel.trans hlist.symm, (testBit_of_parts hparts).symm, ?_, ?_, literal, ?_, ?_, ?_⟩
  · rwa [place_of_parts hparts]
  · rw [hlabel, htext, hpad]
  · rw [Literal.read?, htext, hreadText]
  · rw [Literal.read?, hlabel, hreadLabel]
  · rw [hworth, Label.worth, hmagnitude]

/-- The label of `-0.00009996`, which rounding takes to the next power of ten. -/
theorem exists_label_of_isFinite_carried :
    let v : Float := -0.00009996
    v.isFinite = true ∧ Numeral.label v = "-1.00e-04" ∧ twoDecimals v = "-1.00e-4" ∧
    ∃ l : Label, (Numeral.label v).toList = l.toList ∧
      l.negative = v.toBits.toNat.testBit 63 ∧ l.Shows (place v) ∧
      (Numeral.label v).toList = padExponent (twoDecimals v).toList ∧
      ∃ literal : Literal, Literal.read? (twoDecimals v) = some literal ∧
        Literal.read? (Numeral.label v) = some literal ∧ literal.worth? = some l.worth := by
  intro v
  have hv : v.isFinite = true := by decide +kernel
  exact ⟨hv, by decide +kernel, by decide +kernel, exists_label_of_isFinite hv⟩

end

end CurveArea.Binary64
