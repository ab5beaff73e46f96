import Mathlib
import CurveArea.Proofs.Record.Quotes
import CurveArea.Record.Figure

/-!
# Counts and numbers as they are written

A count is written in one of four bases, a number by its literal or its name; both may have low
lines between their digits and may name their kind at the end. `IsCount` and `IsNumber` tell which
characters write one, and where a value may end, the readers read exactly those
(`wholeOf_eq_some_iff`, `number_eq_some_iff`).
-/

namespace CurveArea.Record

open CurveArea.Decimal

variable {c : Char} {k : WholeKind} {base n : Nat} {cs ds rest : List Char}

/-! ## Where values end -/

/-- A comma or a closing parenthesis comes next, with a gap before it or none. -/
def Followed (cs : List Char) : Prop :=
  ∃ c rest, Spaced cs (c :: rest) ∧ (c = ',' ∨ c = ')')

/-- Where values end, nothing goes on. -/
theorem Followed.any_eq_false (h : Followed cs) {p : Char → Bool}
    (hp : (',' :: ')' :: '/' :: blanks).all (fun c => !p c) = true) : cs.head?.any p = false := by
  have hfalse : ∀ c ∈ ',' :: ')' :: '/' :: blanks, p c = false := fun c hc => by
    simpa using List.all_eq_true.1 hp c hc
  obtain ⟨c, rest, hspaced, hc⟩ := h
  refine hspaced.any_eq_false (hfalse c ?_) fun d hd => hfalse d ?_
  · rcases hc with rfl | rfl <;> simp
  · exact List.mem_cons_of_mem _ (List.mem_cons_of_mem _ hd)

/-- No character of a name comes where a value ends. -/
theorem Followed.goesOn_eq (h : Followed cs) : goesOn cs = false :=
  h.any_eq_false (by decide +kernel)

/-! ## Words -/

/-- No word begins with a gap or with one of the marks after a value. -/
theorem Followed.word_eq_none (h : Followed rest) {w : String} (hw : w.toList = c :: ds)
    (hc : c ∉ ',' :: ')' :: '/' :: blanks) : word w rest = none := by
  refine Record.word_eq_none fun hprefix => ?_
  have hhead : rest.head?.any (· = c) = false := h.any_eq_false <| List.all_eq_true.2 fun d hd => by
    simpa using fun heq : d = c => hc (heq ▸ hd)
  obtain ⟨rest', rfl⟩ := hprefix
  rw [hw] at hhead
  simp at hhead

/-- Two words that stand at the same place are the same when neither goes on. -/
theorem word_unique {w w' : String} {rest' : List Char}
    (hw : w ≠ "" ∧ ∀ c ∈ w.toList.tail, Text.isNameChar c = true)
    (hw' : w' ≠ "" ∧ ∀ c ∈ w'.toList.tail, Text.isNameChar c = true)
    (h : word w cs = some rest) (h' : word w' cs = some rest') : w = w' ∧ rest = rest' := by
  obtain ⟨rfl, hstop⟩ := word_eq_some_iff.1 h
  obtain ⟨heq, hstop'⟩ := word_eq_some_iff.1 h'
  -- Where one word would end, the other one cannot go on.
  have hnil : ∀ {v v' : String} {as r : List Char}, v ≠ "" →
      (∀ c ∈ v'.toList.tail, Text.isNameChar c = true) → v'.toList = v.toList ++ as →
      goesOn (as ++ r) = false → as = [] := by
    intro v v' as r hv hv' happend hgoes
    cases as with
    | nil => rfl
    | cons c as =>
      obtain ⟨d, ds, hcons⟩ := List.exists_cons_of_ne_nil (mt String.toList_eq_nil_iff.1 hv)
      have hc : c ∈ v'.toList.tail := by simp [happend, hcons]
      have hgoes' : Text.isNameChar c = false := hgoes
      rw [hv' c hc] at hgoes'
      cases hgoes'
  rcases List.append_eq_append_iff.1 heq with ⟨as, happend, rfl⟩ | ⟨as, happend, rfl⟩
  · obtain rfl := hnil hw.1 hw'.2 happend hstop
    exact ⟨String.toList_inj.1 (by simpa using happend.symm), rfl⟩
  · obtain rfl := hnil hw'.1 hw.2 happend hstop'
    exact ⟨String.toList_inj.1 (by simpa using happend), rfl⟩

/-- What is found first is what is found at all if nothing else is found. -/
theorem findSome?_eq_of_unique {β γ : Type} {f : β → Option γ} {l : List β} {a : β} {b : γ}
    (ha : a ∈ l) (hb : f a = some b) (hunique : ∀ a' ∈ l, ∀ b', f a' = some b' → b' = b) :
    l.findSome? f = some b := by
  have hsome : (l.findSome? f).isSome = true :=
    List.findSome?_isSome_iff.2 ⟨a, ha, by rw [hb]; rfl⟩
  obtain ⟨b', hb'⟩ := Option.isSome_iff_exists.1 hsome
  obtain ⟨a', ha', hfound⟩ := List.exists_of_findSome?_eq_some hb'
  rw [hb', hunique a' ha' b' hfound]

/-! ## Counts -/

/-- A sign, and whether it makes a number negative. -/
inductive Sign : Bool → List Char → Prop
  | none : Sign false []
  | plus : Sign false ['+']
  | minus : Sign true ['-']

/-- The mark of a base. -/
inductive BaseMark : Nat → List Char → Prop
  | ten : BaseMark 10 []
  | sixteen : BaseMark 16 ['0', 'x']
  | eight : BaseMark 8 ['0', 'o']
  | two : BaseMark 2 ['0', 'b']

/-- Digits of a base with low lines among them, none of which is the first. -/
structure Digits (base : Nat) (ds : List Char) : Prop where
  /-- There is a first digit. -/
  first : ∃ d ds', ds = d :: ds' ∧ d ≠ '_'
  /-- Each character is a low line or a digit of the base. -/
  digit : ∀ d ∈ ds, d = '_' ∨ ∃ n < base, hexDigit? d = some n

/-- Characters write a count of a kind. Its kind may be named, but not after the mark of base 8 or
16. -/
inductive IsCount (k : WholeKind) : Nat → List Char → Prop
  | mk {negative : Bool} {sign mark ds suffix : List Char} {base : Nat} : Sign negative sign →
      BaseMark base mark → Digits base ds →
      suffix = [] ∨ (suffix = k.name.toList ∧ (base = 10 ∨ base = 2)) →
      k.holds negative (digitsValue base ds) = true →
      IsCount k (digitsValue base ds) (sign ++ (mark ++ (ds ++ suffix)))

/-- The value of digits with one character more: a low line adds nothing, and a digit of the base
adds itself. -/
theorem wholeValue_concat (c : Char) : wholeValue base (ds ++ [c]) = (wholeValue base ds).bind
    fun n => if c = '_' then some n
      else (hexDigit? c).bind fun d => if d < base then some (base * n + d) else none := by
  simp [wholeValue, List.foldlM_append]

/-- Digits and low lines have a value when all digits are of the base. -/
theorem wholeValue_eq_some_iff : wholeValue base ds = some n ↔
    (∀ d ∈ ds, d = '_' ∨ ∃ m < base, hexDigit? d = some m) ∧ n = digitsValue base ds := by
  induction ds using List.reverseRecOn generalizing n with
  | nil => simp [wholeValue, digitsValue, eq_comm]
  | append_singleton ds c ih =>
    rw [wholeValue_concat, Option.bind_eq_some_iff]
    simp only [ih, List.mem_append, List.mem_singleton, or_imp, forall_and, forall_eq]
    by_cases hline : c = '_'
    · subst hline
      have hnone : hexDigit? '_' = none := rfl
      rw [digitsValue_concat_of_none hnone]
      constructor
      · rintro ⟨m, ⟨hds, rfl⟩, h⟩
        exact ⟨⟨hds, .inl rfl⟩, by simpa using h.symm⟩
      · rintro ⟨⟨hds, -⟩, rfl⟩
        exact ⟨_, ⟨hds, rfl⟩, rfl⟩
    · constructor
      · rintro ⟨m, ⟨hds, rfl⟩, h⟩
        rw [if_neg hline, Option.bind_eq_some_iff] at h
        obtain ⟨d, hd, h⟩ := h
        split at h
        case isTrue hlt =>
          cases h
          exact ⟨⟨hds, .inr ⟨d, hlt, hd⟩⟩, (digitsValue_concat hd).symm⟩
        case isFalse => cases h
      · rintro ⟨⟨hds, hc⟩, rfl⟩
        obtain ⟨d, hlt, hd⟩ := hc.resolve_left hline
        refine ⟨_, ⟨hds, rfl⟩, ?_⟩
        rw [if_neg hline, hd, Option.bind_some, if_pos hlt, digitsValue_concat hd]

/-- The reader of magnitudes reads the digits of a base as far as they go. -/
theorem magnitude_eq_some_iff : magnitude cs = some (n, rest) ↔
    ∃ base ds, wholeBase cs = (base, ds ++ rest) ∧ Digits base ds ∧
      rest.head?.any isWholeChar = false ∧ n = digitsValue base ds := by
  rw [magnitude]
  generalize wholeBase cs = b
  obtain ⟨base, ds⟩ := b
  obtain ⟨hsplit, hall, hstop⟩ := span_spec isWholeChar ds
  dsimp only
  constructor
  · intro h
    split at h
    case isTrue => cases h
    case isFalse hfirst =>
      obtain ⟨m, hvalue, heq⟩ := Option.map_eq_some_iff.1 h
      cases heq
      obtain ⟨hdigit, rfl⟩ := wholeValue_eq_some_iff.1 hvalue
      refine ⟨base, ds.takeWhile isWholeChar, by rw [← hsplit], ⟨?_, hdigit⟩, hstop, rfl⟩
      cases htake : ds.takeWhile isWholeChar with
      | nil => simp [htake] at hfirst
      | cons d ds' => exact ⟨d, ds', rfl, by simpa [htake] using hfirst⟩
  · rintro ⟨base', ds', heq, hdigits, hrest, rfl⟩
    cases heq
    have hall : ∀ d ∈ ds', isWholeChar d = true := fun d hd => by
      rcases hdigits.digit d hd with rfl | ⟨m, -, hm⟩
      · rfl
      · rw [isWholeChar, hm]
        rfl
    obtain ⟨d, ds, rfl, hd⟩ := hdigits.first
    rw [takeWhile_append_of_stop hall hrest, dropWhile_append_of_stop hall hrest,
      wholeValue_eq_some_iff.2 ⟨hdigits.digit, rfl⟩]
    simp [hd]

/-- What stands before a number is its sign, which may be missing. -/
theorem sign_of_spanSign (cs : List Char) :
    ∃ sign, Sign (Literal.spanSign cs).1 sign ∧ cs = sign ++ (Literal.spanSign cs).2 := by
  unfold Literal.spanSign
  split
  · exact ⟨_, .plus, rfl⟩
  · exact ⟨_, .minus, rfl⟩
  · exact ⟨_, .none, rfl⟩

/-- A sign is read when no other one follows it. -/
theorem Sign.spanSign_append {negative : Bool} {sign : List Char} (h : Sign negative sign)
    (hcs : cs.head?.any (fun c => c = '+' || c = '-') = false) :
    Literal.spanSign (sign ++ cs) = (negative, cs) := by
  cases h with
  | none =>
    unfold Literal.spanSign
    split <;> simp_all
  | plus | minus => rfl

/-- What stands before the digits is the mark of their base, which is missing for ten. -/
theorem baseMark_of_wholeBase (cs : List Char) :
    ∃ mark, BaseMark (wholeBase cs).1 mark ∧ cs = mark ++ (wholeBase cs).2 := by
  unfold wholeBase
  split
  · exact ⟨_, .sixteen, rfl⟩
  · exact ⟨_, .eight, rfl⟩
  · exact ⟨_, .two, rfl⟩
  · exact ⟨_, .ten, rfl⟩

/-- Without a mark the base is ten, and all characters are left. -/
theorem wholeBase_cons {d : Char}
    (h : cs.head?.any (fun c => c = 'x' || c = 'o' || c = 'b') = false) :
    wholeBase (d :: cs) = (10, d :: cs) := by
  unfold wholeBase
  split <;> simp_all

/-- No mark of a base stands at the beginning of decimal digits. -/
theorem Digits.wholeBase_append (h : Digits 10 ds)
    (hcs : cs.head?.any (fun c => c = 'x' || c = 'o' || c = 'b') = false) :
    wholeBase (ds ++ cs) = (10, ds ++ cs) := by
  obtain ⟨d, ds, rfl, -⟩ := h.first
  rw [List.cons_append]
  refine wholeBase_cons ?_
  cases ds with
  | nil => exact hcs
  | cons e ds =>
    have he := h.digit e (by simp)
    show (e = 'x' || e = 'o' || e = 'b') = false
    rw [Bool.or_eq_false_iff, Bool.or_eq_false_iff, decide_eq_false_iff_not,
      decide_eq_false_iff_not, decide_eq_false_iff_not]
    refine ⟨⟨?_, ?_⟩, ?_⟩ <;> (rintro rfl; exact absurd he (by decide))

/-- The mark of a base is read when digits of the base follow it and no mark of another base could
be meant. -/
theorem BaseMark.wholeBase_append {mark : List Char} (h : BaseMark base mark) (hds : Digits base ds)
    (hcs : cs.head?.any (fun c => c = 'x' || c = 'o' || c = 'b') = false) :
    wholeBase (mark ++ (ds ++ cs)) = (base, ds ++ cs) := by
  cases h with
  | ten => exact hds.wholeBase_append hcs
  | sixteen | eight | two => rfl

/-! ### Names of kinds -/

/-- The kind that is named at the beginning. -/
def kindNamed? (cs : List Char) : Option (WholeKind × List Char) :=
  WholeKind.all.findSome? fun k => (word k.name cs).map fun rest => (k, rest)

/-- The kinds of whole numbers have names: none is empty, their characters may go on with a name,
and the first is `i` or `u`. -/
theorem name_spec : ∀ k ∈ WholeKind.all, k.name ≠ "" ∧
    (∀ c ∈ k.name.toList.tail, Text.isNameChar c = true) ∧
    k.name.toList.head?.any (fun c => c = 'i' || c = 'u') = true := by
  have hall : (WholeKind.all.all fun k => k.name ≠ "" && k.name.toList.tail.all Text.isNameChar &&
      k.name.toList.head?.any fun c => c = 'i' || c = 'u') = true := by
    decide +kernel
  simpa [and_assoc] using hall

/-- Different kinds have different names. -/
theorem name_injective : ∀ k ∈ WholeKind.all, ∀ k' ∈ WholeKind.all, k.name = k'.name → k = k' := by
  decide +kernel

/-- The kind that is found is named at the beginning. -/
theorem of_kindNamed?_eq_some (h : kindNamed? cs = some (k, rest)) :
    k ∈ WholeKind.all ∧ cs = k.name.toList ++ rest := by
  obtain ⟨k', hk', hfound⟩ := List.exists_of_findSome?_eq_some h
  obtain ⟨rest', hword, heq⟩ := Option.map_eq_some_iff.1 hfound
  cases heq
  exact ⟨hk', (word_eq_some_iff.1 hword).1⟩

/-- No kind is named where the next character is neither `i` nor `u`. -/
theorem kindNamed?_eq_none (h : cs.head?.any (fun c => c = 'i' || c = 'u') = false) :
    kindNamed? cs = none := by
  refine Option.eq_none_iff_forall_ne_some.2 fun (k, rest) hnamed => ?_
  obtain ⟨hk, rfl⟩ := of_kindNamed?_eq_some hnamed
  obtain ⟨hne, -, hhead⟩ := name_spec k hk
  obtain ⟨d, ds, hcons⟩ := List.exists_cons_of_ne_nil (mt String.toList_eq_nil_iff.1 hne)
  rw [hcons] at h hhead
  exact absurd (h.symm.trans hhead) (by decide)

/-- The kind that is named is found when its name is not the beginning of a longer one. -/
theorem kindNamed?_append (hk : k ∈ WholeKind.all) (hrest : goesOn rest = false) :
    kindNamed? (k.name.toList ++ rest) = some (k, rest) := by
  have hword : word k.name (k.name.toList ++ rest) = some rest :=
    word_eq_some_iff.2 ⟨rfl, hrest⟩
  refine findSome?_eq_of_unique hk (by rw [hword]; rfl) fun k' hk' b hb => ?_
  obtain ⟨rest', hword', rfl⟩ := Option.map_eq_some_iff.1 hb
  obtain ⟨hne, htail, -⟩ := name_spec k hk
  obtain ⟨hne', htail', -⟩ := name_spec k' hk'
  obtain ⟨hname, rfl⟩ := word_unique ⟨hne, htail⟩ ⟨hne', htail'⟩ hword hword'
  rw [name_injective k hk k' hk' hname]

/-- No name of a kind begins with a character that has a property of neither `i` nor `u`. -/
theorem any_name_append (hk : k ∈ WholeKind.all) {p : Char → Bool} (hi : p 'i' = false)
    (hu : p 'u' = false) (cs : List Char) : (k.name.toList ++ cs).head?.any p = false := by
  obtain ⟨hne, -, hhead⟩ := name_spec k hk
  obtain ⟨d, ds, hcons⟩ := List.exists_cons_of_ne_nil (mt String.toList_eq_nil_iff.1 hne)
  rw [hcons] at hhead ⊢
  have hd : d = 'i' ∨ d = 'u' := by simpa using hhead
  rcases hd with rfl | rfl
  · exact hi
  · exact hu

/-- No sign comes after the sign of a count. -/
theorem BaseMark.unsigned {mark : List Char} (h : BaseMark base mark) (hds : Digits base ds)
    (cs : List Char) :
    (mark ++ (ds ++ cs)).head?.any (fun c => c = '+' || c = '-') = false := by
  cases h with
  | sixteen | eight | two => rfl
  | ten =>
    obtain ⟨d, ds, rfl, hline⟩ := hds.first
    obtain ⟨m, -, hm⟩ := (hds.digit d List.mem_cons_self).resolve_left hline
    show (d = '+' || d = '-') = false
    rw [Bool.or_eq_false_iff, decide_eq_false_iff_not, decide_eq_false_iff_not]
    constructor <;> (rintro rfl; cases hm)

/-- The name of a kind is looked for where the digits end, except after the marks of the bases 8
and 16. -/
theorem BaseMark.dropWhile_eq {mark : List Char} (h : BaseMark base mark) (hds : Digits base ds)
    (hcs : cs.head?.any isWholeChar = false) :
    ((base = 10 ∨ base = 2) ∧ (mark ++ (ds ++ cs)).dropWhile isWholeChar = cs) ∨
      (¬ (base = 10 ∨ base = 2) ∧
        kindNamed? ((mark ++ (ds ++ cs)).dropWhile isWholeChar) = none) := by
  have hall : ∀ d ∈ ds, isWholeChar d = true := fun d hd => by
    rcases hds.digit d hd with rfl | ⟨m, -, hm⟩
    · rfl
    · rw [isWholeChar, hm]
      rfl
  cases h with
  | ten => exact .inl ⟨.inl rfl, dropWhile_append_of_stop hall hcs⟩
  | two => exact .inl ⟨.inr rfl, dropWhile_append_of_stop hall hcs⟩
  | sixteen | eight => exact .inr ⟨by decide, kindNamed?_eq_none rfl⟩

/-- A whole number is its digits, and the kind that is named after them. -/
theorem whole_eq (cs : List Char) : whole cs =
    (magnitude (Literal.spanSign cs).2).map fun (n, rest) =>
      match kindNamed? ((Literal.spanSign cs).2.dropWhile isWholeChar) with
      | some (k, afterName) => (⟨(Literal.spanSign cs).1, n, some k⟩, afterName)
      | none => (⟨(Literal.spanSign cs).1, n, none⟩, rest) := rfl

/-- A count has digits, and the kind that is named after them, if one is, is its own. -/
theorem wholeOf_eq_some : wholeOf k cs = some (n, rest) ↔
    ∃ mid, magnitude (Literal.spanSign cs).2 = some (n, mid) ∧
      k.holds (Literal.spanSign cs).1 n = true ∧
      (kindNamed? ((Literal.spanSign cs).2.dropWhile isWholeChar) = some (k, rest) ∨
        kindNamed? ((Literal.spanSign cs).2.dropWhile isWholeChar) = none ∧ mid = rest) := by
  rw [wholeOf, whole_eq]
  cases magnitude (Literal.spanSign cs).2 with
  | none => simp
  | some m =>
    obtain ⟨m, mid⟩ := m
    cases kindNamed? ((Literal.spanSign cs).2.dropWhile isWholeChar) with
    | none =>
      simp
      grind
    | some named =>
      obtain ⟨k', afterName⟩ := named
      simp
      grind

/-- The reader of counts reads nothing but counts. -/
theorem isCount_of_wholeOf (h : wholeOf k cs = some (n, rest)) :
    ∃ s, cs = s ++ rest ∧ IsCount k n s := by
  obtain ⟨mid, hmagnitude, hholds, hnamed⟩ := wholeOf_eq_some.1 h
  obtain ⟨base, ds, hbase, hds, hmid, rfl⟩ := magnitude_eq_some_iff.1 hmagnitude
  obtain ⟨sign, hsign, hcs⟩ := sign_of_spanSign cs
  obtain ⟨mark, hmark, hcs'⟩ := baseMark_of_wholeBase (Literal.spanSign cs).2
  rw [hbase] at hmark hcs'
  rw [hcs'] at hcs hnamed
  rcases hnamed with hnamed | ⟨-, rfl⟩
  · obtain ⟨-, hname⟩ := of_kindNamed?_eq_some hnamed
    rcases hmark.dropWhile_eq hds hmid with ⟨hbase, hdrop⟩ | ⟨-, hnone⟩
    · rw [hdrop] at hname
      refine ⟨_, ?_, .mk hsign hmark hds (.inr ⟨rfl, hbase⟩) hholds⟩
      rw [hcs, hname]
      simp
    · rw [hnone] at hnamed
      cases hnamed
  · refine ⟨_, ?_, .mk hsign hmark hds (.inl rfl) hholds⟩
    rw [hcs]
    simp

/-- **Counts.** Where a value may end, the reader of counts reads what the characters before the
rest write. -/
theorem wholeOf_eq_some_iff (hk : k ∈ WholeKind.all) (hrest : Followed rest) :
    wholeOf k cs = some (n, rest) ↔ ∃ s, cs = s ++ rest ∧ IsCount k n s := by
  refine ⟨isCount_of_wholeOf, ?_⟩
  rintro ⟨s, rfl, @⟨negative, sign, mark, ds, suffix, base, hsign, hmark, hds, hsuffix, hholds⟩⟩
  rw [wholeOf_eq_some]
  have hsign := hsign.spanSign_append (hmark.unsigned hds (suffix ++ rest))
  have hchars : sign ++ (mark ++ (ds ++ suffix)) ++ rest =
      sign ++ (mark ++ (ds ++ (suffix ++ rest))) := by simp
  rw [hchars, hsign]
  rcases hsuffix with rfl | ⟨rfl, hbase⟩
  · have hstop : rest.head?.any isWholeChar = false := hrest.any_eq_false rfl
    have hmagnitude := magnitude_eq_some_iff.2 ⟨base, ds,
      hmark.wholeBase_append hds (hrest.any_eq_false rfl), hds, hstop, rfl⟩
    refine ⟨rest, hmagnitude, hholds, .inr ⟨?_, rfl⟩⟩
    rcases hmark.dropWhile_eq hds hstop with ⟨-, hdrop⟩ | ⟨-, hnone⟩
    · rw [List.nil_append, hdrop]
      exact kindNamed?_eq_none (hrest.any_eq_false rfl)
    · exact hnone
  · have hstop := any_name_append (p := isWholeChar) hk rfl rfl rest
    have hmagnitude := magnitude_eq_some_iff.2 ⟨base, ds,
      hmark.wholeBase_append hds (any_name_append hk rfl rfl rest), hds, hstop, rfl⟩
    refine ⟨k.name.toList ++ rest, hmagnitude, hholds, .inl ?_⟩
    rcases hmark.dropWhile_eq hds hstop with ⟨-, hdrop⟩ | ⟨hbase', -⟩
    · rw [hdrop]
      exact kindNamed?_append hk hrest.goesOn_eq
    · exact absurd hbase hbase'

/-! ## Numbers -/

/-- A low line may come after characters of a number: after a digit or an exponent mark, with
nothing but signs and low lines between. -/
def AllowsLine (before : List Char) : Prop :=
  ∃ as c bs, before = as ++ c :: bs ∧ c ∉ ['.', '+', '-', '_'] ∧ ∀ d ∈ bs, d ∈ ['+', '-', '_']

/-- Characters write the literal of a number of 64 bits: by a name, or by what is left without the
low lines, each of which is allowed where it stands. The kind may be named. -/
inductive IsNumber : String → List Char → Prop
  | named {name suffix : String} : name ∈ numberNames → suffix ∈ ["", "f64"] →
      IsNumber name (name.toList ++ suffix.toList)
  | literal {ds : List Char} {suffix : String} : (∀ d ∈ ds, isNumberChar d = true) →
      (∀ as bs, ds = as ++ '_' :: bs → AllowsLine as) →
      (Literal.ofChars? (ds.filter (· ≠ '_'))).isSome = true → suffix ∈ ["", "f64"] →
      IsNumber (String.ofList (ds.filter (· ≠ '_'))) (ds ++ suffix.toList)

/-- Whether a low line may come next is told by the last character, or by those before a sign or a
low line. -/
theorem allowsLine_concat {before : List Char} : AllowsLine (before ++ [c]) ↔
    c ≠ '.' ∧ (AllowsLine before ∨ c ∉ ['+', '-', '_']) := by
  constructor
  · rintro ⟨as, d, bs, heq, hd, hbs⟩
    rcases List.eq_nil_or_concat bs with rfl | ⟨bs, e, rfl⟩
    · obtain ⟨rfl, hcd⟩ := List.append_inj' heq rfl
      obtain rfl : c = d := by simpa using hcd
      exact ⟨fun h => hd (by simp [h]), .inr fun h => hd (List.mem_cons_of_mem _ h)⟩
    · rw [List.concat_eq_append, ← List.cons_append, ← List.append_assoc] at heq
      obtain ⟨rfl, hce⟩ := List.append_inj' heq rfl
      obtain rfl : c = e := by simpa using hce
      refine ⟨?_, .inl ⟨as, d, bs, rfl, hd, fun e he => hbs e (by simp [he])⟩⟩
      rintro rfl
      exact absurd (hbs '.' (by simp)) (by decide)
  · rintro ⟨hpoint, h⟩
    by_cases hc : c ∈ ['+', '-', '_']
    · obtain ⟨as, d, bs, rfl, hd, hbs⟩ := h.resolve_right (not_not.2 hc)
      refine ⟨as, d, bs ++ [c], by simp, hd, fun e he => ?_⟩
      rcases List.mem_append.1 he with he | he
      · exact hbs e he
      · rwa [List.mem_singleton.1 he]
    · refine ⟨before, c, [], rfl, fun h => ?_, nofun⟩
      rcases List.mem_cons.1 h with h | h
      · exact hpoint h
      · exact hc h

/-- Past its first character a number is asked about after one character more. -/
theorem allowsLine_cons_iff {before : List Char} :
    (∀ as bs, c :: ds = as ++ '_' :: bs → AllowsLine (before ++ as)) ↔
      (c = '_' → AllowsLine before) ∧
        ∀ as bs, ds = as ++ '_' :: bs → AllowsLine (before ++ [c] ++ as) := by
  constructor
  · intro h
    refine ⟨fun hc => ?_, fun as bs hds => ?_⟩
    · have hfirst := h [] ds (by rw [hc]; rfl)
      rwa [List.append_nil] at hfirst
    · rw [List.append_assoc]
      exact h (c :: as) bs (by rw [hds]; rfl)
  · rintro ⟨hfirst, h⟩ as bs heq
    cases as with
    | nil =>
      rw [List.append_nil]
      exact hfirst (List.cons.inj heq).1
    | cons d as =>
      obtain ⟨rfl, hds⟩ := List.cons.inj heq
      rw [← List.singleton_append, ← List.append_assoc]
      exact h as bs hds

/-- A number is left without its low lines when each of them is allowed. -/
theorem withoutLines_eq_some_iff {before literal : List Char} {allowed : Bool}
    (hallowed : allowed = true ↔ AllowsLine before) :
    withoutLines allowed ds = some literal ↔ literal = ds.filter (· ≠ '_') ∧
      ∀ as bs, ds = as ++ '_' :: bs → AllowsLine (before ++ as) := by
  induction ds generalizing before literal allowed with
  | nil => simp [withoutLines, eq_comm]
  | cons c ds ih =>
    rw [allowsLine_cons_iff]
    by_cases hc : c = '_'
    · subst hc
      have hnext : allowed = true ↔ AllowsLine (before ++ ['_']) := by
        rw [hallowed, allowsLine_concat]
        simp
      rw [withoutLines]
      cases allowed with
      | true => simp [ih hnext, hallowed.1 rfl]
      | false => simp [mt hallowed.2 Bool.false_ne_true]
    · have hnext : (if c = '.' then false else allowed || !(c = '+' || c = '-')) = true ↔
          AllowsLine (before ++ [c]) := by
        rw [allowsLine_concat, ← hallowed]
        by_cases hpoint : c = '.' <;> simp [hpoint, hc]
      rw [withoutLines]
      · simp only [Option.map_eq_some_iff, ih hnext]
        constructor
        · rintro ⟨literal, ⟨rfl, h⟩, rfl⟩
          exact ⟨by simp [hc], fun h => absurd h hc, h⟩
        · rintro ⟨rfl, -, h⟩
          exact ⟨_, ⟨rfl, h⟩, by simp [hc]⟩
      · exact fun h => hc h

/-- The number that is named at the beginning, if one of `names` stands there, with the count of
bits that it names. -/
def named? (names : List String) (cs : List Char) :
    Option ((String × Option Nat) × List Char) :=
  names.findSome? fun name =>
    [("", none), ("f32", some 32), ("f64", some 64)].findSome? fun (suffix, bits) =>
      (word (name ++ suffix) cs).map fun rest => ((name, bits), rest)

/-- No number is named where none of the names stands. -/
theorem named?_eq_none {names : List String} (h : ∀ name ∈ names, ¬ name.toList <+: cs) :
    named? names cs = none := by
  refine List.findSome?_eq_none_iff.2 fun name hname => ?_
  refine List.findSome?_eq_none_iff.2 fun (suffix, bits) _ => ?_
  have hword : word (name ++ suffix) cs = none := word_eq_none fun hprefix => by
    rw [String.toList_append] at hprefix
    exact h name hname ((List.prefix_append _ _).trans hprefix)
  simp only [hword, Option.map_none]

/-- How the kind of a number may be named, with the count of its bits. -/
def numberSuffixes : List (String × Option Nat) := [("", none), ("f32", some 32), ("f64", some 64)]

/-- The names of numbers with their suffixes are names: none is empty, and their characters may go
on with a name. -/
theorem numberName_spec : ∀ name ∈ numberNames, ∀ p ∈ numberSuffixes,
    name ++ p.1 ≠ "" ∧ ∀ c ∈ (name ++ p.1).toList.tail, Text.isNameChar c = true := by
  have hall : (numberNames.all fun name => numberSuffixes.all fun p =>
      name ++ p.1 ≠ "" && (name ++ p.1).toList.tail.all Text.isNameChar) = true := by
    decide +kernel
  simp only [List.all_eq_true, Bool.and_eq_true, decide_eq_true_eq] at hall
  exact hall

/-- No two numbers are named alike, whatever the suffixes. -/
theorem numberName_injective : ∀ name ∈ numberNames, ∀ p ∈ numberSuffixes, ∀ name' ∈ numberNames,
    ∀ p' ∈ numberSuffixes, name ++ p.1 = name' ++ p'.1 → name = name' ∧ p = p' := by
  decide +kernel

/-- The number that is named at the beginning is the only one. -/
theorem named?_eq_some_iff {name : String} {bits : Option Nat} :
    named? numberNames cs = some ((name, bits), rest) ↔ name ∈ numberNames ∧
      ∃ suffix, (suffix, bits) ∈ numberSuffixes ∧ word (name ++ suffix) cs = some rest := by
  constructor
  · intro h
    obtain ⟨name', hname, h⟩ := List.exists_of_findSome?_eq_some h
    obtain ⟨⟨suffix, bits'⟩, hsuffix, h⟩ := List.exists_of_findSome?_eq_some h
    obtain ⟨rest', hword, heq⟩ := Option.map_eq_some_iff.1 h
    cases heq
    exact ⟨hname, suffix, hsuffix, hword⟩
  · rintro ⟨hname, suffix, hsuffix, hword⟩
    have hunique : ∀ name' ∈ numberNames, ∀ p ∈ numberSuffixes, ∀ rest',
        word (name' ++ p.1) cs = some rest' → name' = name ∧ p = (suffix, bits) ∧ rest' = rest := by
      intro name' hname' p hp rest' hword'
      obtain ⟨heq, rfl⟩ := word_unique (numberName_spec _ hname' _ hp)
        (numberName_spec _ hname _ hsuffix) hword' hword
      obtain ⟨rfl, rfl⟩ := numberName_injective _ hname' _ hp _ hname _ hsuffix heq
      exact ⟨rfl, rfl, rfl⟩
    refine findSome?_eq_of_unique hname (findSome?_eq_of_unique hsuffix (by simp [hword]) ?_) ?_
    · intro p hp b hb
      obtain ⟨rest', hword', rfl⟩ := Option.map_eq_some_iff.1 hb
      obtain ⟨-, rfl, rfl⟩ := hunique name hname p hp rest' hword'
      rfl
    · intro name' hname' b hb
      obtain ⟨p, hp, hb⟩ := List.exists_of_findSome?_eq_some hb
      obtain ⟨rest', hword', rfl⟩ := Option.map_eq_some_iff.1 hb
      obtain ⟨rfl, rfl, rfl⟩ := hunique name' hname' p hp rest' hword'
      rfl

/-- A number that is named is read by its name, before anything else is tried. -/
theorem figure_of_named {f : String × Option Nat} (h : named? numberNames cs = some (f, rest)) :
    figure cs = some (f, rest) := by
  unfold named? at h
  simp [figure, h]

/-- What has no name is read as a literal. -/
theorem figure_of_unnamed (h : named? numberNames cs = none) : figure cs =
    (withoutLines false (cs.takeWhile isNumberChar)).bind fun literal =>
      (Literal.ofChars? literal).bind fun _ =>
        match word "f32" (cs.dropWhile isNumberChar), word "f64" (cs.dropWhile isNumberChar) with
        | some rest, _ => some ((String.ofList literal, some 32), rest)
        | none, some rest => some ((String.ofList literal, some 64), rest)
        | none, none => some ((String.ofList literal, none), cs.dropWhile isNumberChar) := by
  unfold named? at h
  simp only [figure, h]
  rfl

/-- The characters of a literal do not begin with the name of a number. -/
theorem not_name_of_literal (hds : ∀ d ∈ ds, isNumberChar d = true)
    (hliteral : (Literal.ofChars? (ds.filter (· ≠ '_'))).isSome = true) :
    ∀ name ∈ numberNames, ¬ name.toList <+: ds ++ cs := by
  have hi : isNumberChar 'i' = false := rfl
  have hN : isNumberChar 'N' = false := rfl
  cases ds with
  | nil => cases hliteral
  | cons d ds =>
    have hd : d ≠ 'i' ∧ d ≠ 'N' := by
      have hd := hds d List.mem_cons_self
      constructor <;> (rintro rfl; simp_all)
    cases ds with
    | nil =>
      have hsign : d ≠ '+' ∧ d ≠ '-' := by
        constructor <;> (rintro rfl; cases hliteral)
      simp [numberNames, Ne.symm hd.1, Ne.symm hd.2, Ne.symm hsign.1, Ne.symm hsign.2]
    | cons e ds =>
      have he : e ≠ 'i' ∧ e ≠ 'N' := by
        have he := hds e (List.mem_cons_of_mem _ List.mem_cons_self)
        constructor <;> (rintro rfl; simp_all)
      simp [numberNames, Ne.symm hd.1, Ne.symm hd.2, Ne.symm he.1, Ne.symm he.2]

/-- No low line comes first. -/
theorem allowsLine_nil : false = true ↔ AllowsLine [] :=
  ⟨nofun, fun ⟨as, c, bs, heq, _⟩ => by cases as <;> cases heq⟩

/-- The suffix that a number of 64 bits may have. -/
theorem mem_suffixes_iff {suffix : String} :
    (∃ bits, (suffix, bits) ∈ numberSuffixes ∧ bits.all (· = 64) = true) ↔
      suffix ∈ ["", "f64"] := by
  simp [numberSuffixes, or_and_right, exists_or]

/-- The name of a number is read with its suffix. -/
theorem number_named {name suffix : String} (hname : name ∈ numberNames)
    (hsuffix : suffix ∈ ["", "f64"]) (hrest : goesOn rest = false) :
    number (name.toList ++ suffix.toList ++ rest) = some (name, rest) := by
  obtain ⟨bits, hsuffix, hbits⟩ := mem_suffixes_iff.2 hsuffix
  have hword : word (name ++ suffix) (name.toList ++ suffix.toList ++ rest) = some rest :=
    word_eq_some_iff.2 ⟨by rw [String.toList_append], hrest⟩
  have hnamed := named?_eq_some_iff.2 ⟨hname, suffix, hsuffix, hword⟩
  simp only [number, figure_of_named hnamed, Option.bind_some, hbits, if_true]

/-- A literal is read with its suffix. -/
theorem number_literal {suffix : String} (hds : ∀ d ∈ ds, isNumberChar d = true)
    (hlines : ∀ as bs, ds = as ++ '_' :: bs → AllowsLine as)
    (hliteral : (Literal.ofChars? (ds.filter (· ≠ '_'))).isSome = true)
    (hsuffix : suffix ∈ ["", "f64"]) (hrest : Followed rest) :
    number (ds ++ suffix.toList ++ rest) = some (String.ofList (ds.filter (· ≠ '_')), rest) := by
  obtain ⟨l, hl⟩ := Option.isSome_iff_exists.1 hliteral
  rw [List.append_assoc]
  have hnamed : named? numberNames (ds ++ (suffix.toList ++ rest)) = none :=
    named?_eq_none (not_name_of_literal hds hliteral)
  have hstop : (suffix.toList ++ rest).head?.any isNumberChar = false := by
    rcases List.mem_cons.1 hsuffix with rfl | hsuffix
    · exact hrest.any_eq_false rfl
    · rw [List.mem_singleton.1 hsuffix]
      rfl
  have hwithout := (withoutLines_eq_some_iff allowsLine_nil).2 ⟨rfl, hlines⟩
  rw [number, figure_of_unnamed hnamed, takeWhile_append_of_stop hds hstop,
    dropWhile_append_of_stop hds hstop, hwithout, Option.bind_some, hl, Option.bind_some]
  rcases List.mem_cons.1 hsuffix with rfl | hsuffix
  · have hf32 : word "f32" ("".toList ++ rest) = none := hrest.word_eq_none rfl (by decide)
    have hf64 : word "f64" ("".toList ++ rest) = none := hrest.word_eq_none rfl (by decide)
    rw [hf32, hf64]
    rfl
  · obtain rfl := List.mem_singleton.1 hsuffix
    have hf32 : word "f32" ("f64".toList ++ rest) = none := word_eq_none (by simp)
    rw [hf32, word_eq_some_iff.2 ⟨rfl, hrest.goesOn_eq⟩]
    rfl

/-- The reader of numbers reads nothing but numbers. -/
theorem isNumber_of_number {literal : String} (h : number cs = some (literal, rest)) :
    ∃ s, cs = s ++ rest ∧ IsNumber literal s := by
  obtain ⟨⟨⟨literal', bits⟩, rest'⟩, hfigure, h⟩ := Option.bind_eq_some_iff.1 h
  dsimp only at h
  split at h
  case isFalse => cases h
  case isTrue hbits =>
    cases h
    cases hnamed : named? numberNames cs with
    | some f =>
      obtain ⟨f, rest'⟩ := f
      cases hfigure.symm.trans (figure_of_named hnamed)
      obtain ⟨hname, suffix, hsuffix, hword⟩ := named?_eq_some_iff.1 hnamed
      refine ⟨_, ?_, .named hname (mem_suffixes_iff.1 ⟨bits, hsuffix, hbits⟩)⟩
      rw [← String.toList_append]
      exact (word_eq_some_iff.1 hword).1
    | none =>
      rw [figure_of_unnamed hnamed] at hfigure
      obtain ⟨hsplit, hall, -⟩ := span_spec isNumberChar cs
      obtain ⟨lit, hlines, hfigure⟩ := Option.bind_eq_some_iff.1 hfigure
      obtain ⟨l, hl, hfigure⟩ := Option.bind_eq_some_iff.1 hfigure
      obtain ⟨rfl, hallowed⟩ := (withoutLines_eq_some_iff allowsLine_nil).1 hlines
      have hsome :
          (Literal.ofChars? ((cs.takeWhile isNumberChar).filter (· ≠ '_'))).isSome = true := by
        rw [hl]
        rfl
      split at hfigure
      case h_1 =>
        cases hfigure
        cases hbits
      case h_2 rest' _ hword =>
        cases hfigure
        refine ⟨_, ?_, .literal hall hallowed hsome (List.mem_cons_of_mem _ List.mem_cons_self)⟩
        rw [List.append_assoc, ← (word_eq_some_iff.1 hword).1, ← hsplit]
      case h_3 =>
        cases hfigure
        exact ⟨_, by simp, .literal hall hallowed hsome List.mem_cons_self⟩

/-- **Numbers.** Where a value may end, the reader of numbers reads what the characters before the
rest write. -/
theorem number_eq_some_iff {literal : String} (hrest : Followed rest) :
    number cs = some (literal, rest) ↔ ∃ s, cs = s ++ rest ∧ IsNumber literal s := by
  refine ⟨isNumber_of_number, ?_⟩
  rintro ⟨s, rfl, hs⟩
  cases hs with
  | named hname hsuffix => exact number_named hname hsuffix hrest.goesOn_eq
  | literal hds hlines hliteral hsuffix => exact number_literal hds hlines hliteral hsuffix hrest

end CurveArea.Record
