import CurveArea.Proofs.Record.Quotes
import CurveArea.Text.Quoted

/-!
# Texts as they are stored

A text is stored between quotation marks, and what it is quoted as writes it, whatever its
characters (`isText_quote`). A character is quoted by a letter, by its code point or as it stands,
and each of these is one of the ways in which it can be written (`Quotes.escape`).
-/

namespace CurveArea.Record

open CurveArea.Text (codePoint stored)

variable {t s : List Char}

/-- The digits that are written are read back. -/
theorem hexDigit?_digitChar : ∀ d < 16, hexDigit? d.digitChar = some d := by
  decide

/-- A number has the value of its hexadecimal digits. -/
theorem digitsValue_toDigits (n : Nat) : digitsValue 16 (Nat.toDigits 16 n) = n ∧
    ∀ d ∈ Nat.toDigits 16 n, (hexDigit? d).isSome = true := by
  induction n using Nat.strongRecOn with
  | _ n ih =>
    rw [Nat.toDigits_eq_if (by decide)]
    split
    case isTrue hlt => simp [digitsValue, hexDigit?_digitChar n hlt]
    case isFalse hge =>
      have hdigit := hexDigit?_digitChar (n % 16) (Nat.mod_lt n (by decide))
      obtain ⟨hvalue, hdigits⟩ := ih (n / 16) (by omega)
      refine ⟨by rw [digitsValue_concat hdigit, hvalue, Nat.div_add_mod], fun d hd => ?_⟩
      rcases List.mem_append.1 hd with hd | hd
      · exact hdigits d hd
      · rw [List.mem_singleton.1 hd, hdigit]
        rfl

/-- Six digits name every character. -/
theorem length_toDigits_toNat (c : Char) : (Nat.toDigits 16 c.toNat).length ≤ 6 := by
  have hvalid : c.toNat < 0xd800 ∨ 0xdfff < c.toNat ∧ c.toNat < 0x110000 := c.valid
  rw [Nat.length_toDigits_le_iff (by decide) (by decide)]
  omega

/-- A character can be written by its code point. -/
theorem Quotes.codePoint (c : Char) (h : Quotes t s) : Quotes (c :: t) (codePoint c ++ s) := by
  obtain ⟨hvalue, hdigits⟩ := digitsValue_toDigits c.toNat
  have hne : Nat.toDigits 16 c.toNat ≠ [] := Nat.toDigits_ne_nil
  have hwritten := Quotes.code hne (length_toDigits_toNat c) hdigits hvalue h
  simpa [Text.codePoint] using hwritten

/-- **One character.** What a character is quoted as writes it, before what writes the others. -/
theorem Quotes.escape (c : Char) (h : Quotes t s) : Quotes (c :: t) (stored.escape c ++ s) := by
  unfold Text.Quotation.escape
  split
  case h_8 _ _ _ _ _ hslash hquote _ =>
    split
    · exact h.codePoint c
    · exact .plain hquote hslash h
  all_goals exact .letter rfl h

/-- **Quoted texts.** What a text is quoted as writes it. -/
theorem isText_quote (t : String) : IsText t (stored.quote t).toList := by
  have hquotes : ∀ cs : List Char, Quotes cs (cs.flatMap stored.escape) := fun cs => by
    induction cs with
    | nil => exact .nil
    | cons c cs ih => exact ih.escape c
  have htext := IsText.quoted (hquotes t.toList)
  rw [String.ofList_toList] at htext
  simpa [Text.Quotation.quote] using htext

end CurveArea.Record
