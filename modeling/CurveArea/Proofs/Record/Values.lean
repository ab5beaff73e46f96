import CurveArea.Proofs.Record.Figures

/-!
# Values as they are stored

What is stored for a count or a number is one of the ways in which it can be written
(`isCount_digits`, `isNumber_plain`, `isNumber_infinity`).
-/

namespace CurveArea.Record

open CurveArea.Decimal

variable {cs : List Char}

/-! ## Counts -/

/-- A decimal digit has the same value as a hexadecimal one, and is no low line. -/
theorem hexDigit?_of_isDigit {d : Char} (h : d.isDigit = true) :
    hexDigit? d = some (Literal.digitValue d) ∧ Literal.digitValue d < 10 ∧ d ≠ '_' := by
  have hrange : '0'.val ≤ d.val ∧ d.val ≤ '9'.val := by simpa [Char.isDigit] using h
  refine ⟨?_, Literal.digitValue_lt_ten h, ?_⟩
  · have hdigit : ('0' ≤ d && d ≤ '9') = true := by simpa [Char.le_def] using hrange
    rw [hexDigit?, if_pos hdigit]
    rfl
  · rintro rfl
    exact absurd h (by decide)

/-- Decimal digits have the value that they are written for. -/
theorem wholeValue_digits {ds : List Char} (hds : ∀ d ∈ ds, d.isDigit = true) :
    wholeValue 10 ds = some (Literal.valueFrom 0 ds) := by
  unfold wholeValue Literal.valueFrom
  generalize 0 = n
  induction ds generalizing n with
  | nil => rfl
  | cons d ds ih =>
    obtain ⟨hdigit, hlt, hline⟩ := hexDigit?_of_isDigit (hds d List.mem_cons_self)
    rw [List.foldlM_cons, if_neg hline, hdigit, Option.bind_some, if_pos hlt]
    exact ih (fun d hd => hds d (List.mem_cons_of_mem _ hd)) _

/-- **Counts.** The digits of a count write it when it is one of its kind. -/
theorem isCount_digits {k : WholeKind} {n : Nat} (hk : k.holds false n = true) :
    IsCount k n (digits n) := by
  have hdigits : ∀ d ∈ digits n, d.isDigit = true := fun d => isDigit_of_mem_digits
  obtain ⟨hdigit, hvalue⟩ := wholeValue_eq_some_iff.1 (wholeValue_digits hdigits)
  rw [Literal.valueFrom_digits] at hvalue
  obtain ⟨d, ds, hcons⟩ := List.exists_cons_of_ne_nil (digits_ne_nil n)
  have hline : d ≠ '_' := (hexDigit?_of_isDigit (hdigits d (hcons ▸ List.mem_cons_self))).2.2
  have hcount : IsCount k (digitsValue 10 (digits n)) ([] ++ ([] ++ (digits n ++ []))) :=
    .mk .none .ten ⟨⟨d, ds, hcons, hline⟩, hdigit⟩ (.inl rfl) (hvalue ▸ hk)
  rwa [← hvalue, List.append_nil] at hcount

/-! ## Numbers -/

/-- **Numbers.** A plain text writes a number, with a minus sign or without. -/
theorem isNumber_plain {q : ℚ} (h : Plain cs q) (negative : Bool) :
    IsNumber (String.ofList (if negative then '-' :: cs else cs))
      (if negative then '-' :: cs else cs) := by
  obtain ⟨c, x, hread, -⟩ := h.ofChars?_eq negative
  have hdigit : ∀ d ∈ cs, isNumberChar d = true ∧ d ≠ '_' := by
    intro d hd
    rcases h.isDigit_or_eq hd with hd | rfl
    · exact ⟨by simp [isNumberChar, hd], (hexDigit?_of_isDigit hd).2.2⟩
    · exact ⟨rfl, by decide⟩
  generalize hds : (if negative then '-' :: cs else cs) = ds at hread ⊢
  have hchars : ∀ d ∈ ds, isNumberChar d = true ∧ d ≠ '_' := by
    subst hds
    cases negative with
    | true => exact List.forall_mem_cons.2 ⟨⟨rfl, by decide⟩, hdigit⟩
    | false => exact hdigit
  have hfilter : ds.filter (· ≠ '_') = ds :=
    List.filter_eq_self.2 fun d hd => decide_eq_true (hchars d hd).2
  have hnumber : IsNumber (String.ofList (ds.filter (· ≠ '_'))) (ds ++ "".toList) := by
    refine .literal (fun d hd => (hchars d hd).1) (fun as bs heq => ?_) ?_ List.mem_cons_self
    · exact absurd rfl (hchars '_' (by rw [heq]; simp)).2
    · rw [hfilter, hread]
      rfl
  rwa [hfilter, String.toList_empty, List.append_nil] at hnumber

/-- The word for infinity writes a number, with a minus sign or without. -/
theorem isNumber_infinity (negative : Bool) :
    IsNumber (String.ofList (if negative then ['-', 'i', 'n', 'f'] else ['i', 'n', 'f']))
      (if negative then ['-', 'i', 'n', 'f'] else ['i', 'n', 'f']) := by
  have hnamed : ∀ name ∈ numberNames, IsNumber name (name.toList ++ "".toList) := fun name hname =>
    .named hname List.mem_cons_self
  cases negative with
  | true => exact hnamed "-inf" (by decide)
  | false => exact hnamed "inf" (by decide)

end CurveArea.Record
