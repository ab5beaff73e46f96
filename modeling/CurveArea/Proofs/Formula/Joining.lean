import CurveArea.Proofs.Formula.Faults

/-!
# Texts joined by blanks

A blank ends a word and belongs to none, so the words of two texts with blanks between them are the
words of the first text and then those of the second (`Text.words_append`). What is read is told by
the words alone: tokens when all of them are tokens (`Token.reads_iff`), and otherwise the first
unknown one with its index. So reading goes text by text (`Token.read_joined`), and neither how many
blanks there are nor which ones makes a difference.
-/

namespace CurveArea

/-! ## Words -/

namespace Text

/-- A text has no other characters than blanks. -/
def AllBlank (s : String) : Prop := ∀ c ∈ s.toList, isBlank c = true

instance (s : String) : Decidable (AllBlank s) :=
  decidable_of_iff (s.toList.all isBlank = true) List.all_eq_true

/-- Blanks before a text are passed over. -/
theorem wordsFrom_nil_append {bs : List Char} (hbs : ∀ b ∈ bs, isBlank b = true)
    (cs : List Char) : wordsFrom [] (bs ++ cs) = wordsFrom [] cs := by
  induction bs with
  | nil => rfl
  | cons b bs ih =>
    obtain ⟨hb, hbs⟩ := List.forall_mem_cons.1 hbs
    rw [List.cons_append, wordsFrom, if_pos hb]
    exact ih hbs

/-- **Words are split at a blank.** -/
theorem wordsFrom_append_cons {b : Char} (hb : isBlank b = true) (word cs ds : List Char) :
    wordsFrom word (cs ++ b :: ds) = wordsFrom word cs ++ wordsFrom [] ds := by
  induction cs generalizing word with
  | nil => cases word <;> simp [wordsFrom, hb]
  | cons c cs ih =>
    rw [List.cons_append, wordsFrom, wordsFrom]
    by_cases hc : isBlank c = true
    · cases word <;> simp [hc, ih]
    · simp [hc, ih]

variable {s t w : String}

/-- **Joined texts.** The words of texts that are joined by blanks are those of one and then those
of the other. -/
theorem words_append (hne : w ≠ "") (hblank : AllBlank w) (s t : String) :
    words (s ++ w ++ t) = words s ++ words t := by
  obtain ⟨b, bs, hw⟩ := List.exists_cons_of_ne_nil fun h => hne (String.toList_eq_nil_iff.1 h)
  have hchars : ∀ c ∈ b :: bs, isBlank c = true := hw ▸ hblank
  obtain ⟨hb, hbs⟩ := List.forall_mem_cons.1 hchars
  rw [words, String.toList_append, String.toList_append, hw, List.append_assoc, List.cons_append,
    wordsFrom_append_cons hb, wordsFrom_nil_append hbs]
  rfl

/-- A blank text has no words. -/
theorem words_of_allBlank (h : AllBlank s) : words s = [] := words_eq_nil_iff.2 h

/-- Blanks before a text and after it make no difference to its words. -/
theorem words_padded (h : AllBlank w) (s : String) : words (w ++ s) = words s ∧
    words (s ++ w) = words s := by
  by_cases hne : w = ""
  · simp [hne]
  · have hbefore := words_append hne h "" s
    have hafter := words_append hne h s ""
    have hempty : words "" = [] := rfl
    rw [String.empty_append, hempty, List.nil_append] at hbefore
    rw [String.append_empty, hempty, List.append_nil] at hafter
    exact ⟨hbefore, hafter⟩

end Text

/-! ## Unknown words -/

section
variable {α : Type} [Numeral α] {ws vs : List String} {ts us : List (Token α)} {i : Nat}
  {v : String}

/-- Words that follow change nothing about the first unknown word. -/
theorem FirstUnknown.append (h : FirstUnknown α ws i v) : FirstUnknown α (ws ++ vs) i v := by
  obtain ⟨⟨⟨u, hu, hunknown⟩, hleast⟩, hv⟩ := h
  have hlt : i < ws.length := (List.getElem?_eq_some_iff.1 hv).1
  have hget {j : Nat} (hj : j < ws.length) : (ws ++ vs)[j]? = ws[j]? :=
    List.getElem?_append_left hj
  refine ⟨⟨⟨u, (hget hlt).trans hu, hunknown⟩, ?_⟩, (hget hlt).trans hv⟩
  rintro j ⟨u', hu', hunknown'⟩
  rcases Nat.lt_or_ge j i with hless | hge
  · exact hleast ⟨u', (hget (hless.trans hlt)).symm.trans hu', hunknown'⟩
  · exact hge

/-- Words that are tokens go before the first unknown word and are counted. -/
theorem FirstUnknown.append_left (hws : ws.map Token.ofWord? = ts.map some)
    (h : FirstUnknown α vs i v) : FirstUnknown α (ws ++ vs) (ws.length + i) v := by
  obtain ⟨⟨⟨u, hu, hunknown⟩, hleast⟩, hv⟩ := h
  have hget (j : Nat) : (ws ++ vs)[ws.length + j]? = vs[j]? := by
    rw [List.getElem?_append_right (Nat.le_add_right _ _), Nat.add_sub_cancel_left]
  refine ⟨⟨⟨u, (hget i).trans hu, hunknown⟩, ?_⟩, (hget i).trans hv⟩
  rintro j ⟨u', hu', hunknown'⟩
  rcases Nat.lt_or_ge j ws.length with hlt | hge
  · -- Among the words before it there is none that is unknown.
    rw [List.getElem?_append_left hlt] at hu'
    have hword := congrArg (·[j]?) hws
    simp only [List.getElem?_map, hu', Option.map_some, Token.ofWord?_eq_none_iff.2 hunknown']
      at hword
    cases ht : ts[j]? <;> simp [ht] at hword
  · obtain ⟨k, rfl⟩ := Nat.exists_eq_add_of_le hge
    exact Nat.add_le_add_left (hleast ⟨u', (hget k).symm.trans hu', hunknown'⟩) _

end

/-! ## Reading -/

namespace Token

section
variable {α : Type} [Numeral α]

/-- The tokens that are read from a text; a blank text counts as one of no tokens. -/
inductive Reads (s : String) : List (Token α) → Prop
  /-- There are tokens. -/
  | tokens {ts : List (Token α)} (h : read s = .ok ts) : Reads s ts
  /-- The text is blank. -/
  | blank (h : read (α := α) s = .error .empty) : Reads s []

variable {s t w : String} {ts us : List (Token α)} {i : Nat} {v : String}

/-- A text has no words, or all of its words are tokens, or there is a first one that is unknown. -/
theorem read_cases (s : String) :
    Text.words s = [] ∧ read (α := α) s = .error .empty ∨
      (∃ ts : List (Token α), ts ≠ [] ∧ (Text.words s).map ofWord? = ts.map some ∧
        read s = .ok ts) ∨
      ∃ i v, FirstUnknown α (Text.words s) i v ∧ read (α := α) s = .error (.unknownWord v i) := by
  cases hwords : (ofWords 0 (Text.words s) : Except CompileError (List (Token α))) with
  | error e =>
    obtain ⟨i, v, hfirst, rfl⟩ := exists_firstUnknown hwords
    exact .inr (.inr ⟨i, v, hfirst, by rw [read, hwords, Nat.zero_add]⟩)
  | ok ts =>
    have hmap := ofWords_eq_ok_iff.1 hwords
    cases ts with
    | nil => exact .inl ⟨List.map_eq_nil_iff.1 hmap, by rw [read, hwords]⟩
    | cons t ts =>
      have hne := List.cons_ne_nil t ts
      exact .inr (.inl ⟨_, hne, hmap, read_of_ne_nil hne hmap⟩)

/-- A text is refused for a word when this is the first unknown one. -/
theorem read_eq_unknownWord_iff :
    read (α := α) s = .error (.unknownWord v i) ↔ FirstUnknown α (Text.words s) i v := by
  constructor
  · intro h
    rcases read_cases (α := α) s with ⟨-, hread⟩ | ⟨ts, -, -, hread⟩ | ⟨j, u, hfirst, hread⟩
    all_goals cases h.symm.trans hread
    exact hfirst
  · intro h
    rw [read, ofWords_of_firstUnknown h, Nat.zero_add]

/-- A text is refused as empty when it is blank. -/
theorem read_eq_empty_iff : read (α := α) s = .error .empty ↔ Text.AllBlank s := by
  rw [Text.AllBlank, ← Text.words_eq_nil_iff]
  constructor
  · intro h
    rcases read_cases (α := α) s with ⟨hwords, -⟩ | ⟨ts, -, -, hread⟩ | ⟨j, u, -, hread⟩
    · exact hwords
    all_goals cases h.symm.trans hread
  · intro h
    rw [read, h]
    rfl

/-- A text is read when all of its words are tokens. -/
theorem reads_iff : Reads s ts ↔ (Text.words s).map ofWord? = ts.map some := by
  constructor
  · intro h
    cases h with
    | tokens h =>
      rcases read_cases (α := α) s with ⟨-, hread⟩ | ⟨ts, -, hmap, hread⟩ | ⟨j, u, -, hread⟩
      all_goals cases h.symm.trans hread
      exact hmap
    | blank h => rw [Text.words_of_allBlank (read_eq_empty_iff.1 h), List.map_nil, List.map_nil]
  · intro h
    cases ts with
    | nil =>
      have hwords := List.map_eq_nil_iff.1 h
      exact .blank (read_eq_empty_iff.2 (Text.words_eq_nil_iff.1 hwords))
    | cons t ts => exact .tokens (read_of_ne_nil (List.cons_ne_nil t ts) h)

/-- No two lists of tokens are read from one text. -/
theorem Reads.unique (hts : Reads s ts) (hus : Reads s us) : ts = us :=
  (List.map_inj_right fun _ _ h => Option.some.inj h).1
    ((reads_iff.1 hts).symm.trans (reads_iff.1 hus))

/-- A text is read, or it has an unknown word. -/
theorem reads_or_unknownWord (s : String) :
    (∃ ts : List (Token α), Reads s ts) ∨
      ∃ v i, read (α := α) s = .error (.unknownWord v i) := by
  rcases read_cases (α := α) s with ⟨-, hread⟩ | ⟨ts, -, -, hread⟩ | ⟨i, v, -, hread⟩
  · exact .inl ⟨[], .blank hread⟩
  · exact .inl ⟨ts, .tokens hread⟩
  · exact .inr ⟨v, i, hread⟩

/-- Texts with the same words are read alike. -/
theorem read_congr (h : Text.words s = Text.words t) : read (α := α) s = read t := by
  rw [read, read, h]

/-- **Reading joined texts.** Let two texts be joined by blanks. An unknown word of the first text
is reported as for that text alone; else one of the second text is, counted from the beginning; and
else the tokens are those of the first text and then those of the second, a blank text counting as
one of no tokens. These are all the cases there are, and what is joined is empty when both texts are
blank. So blanks at either end make no difference, and nor do other blanks in place of some. -/
theorem read_joined (s w t : String) (hne : w ≠ "") (hblank : Text.AllBlank w) :
    (∀ v i, read (α := α) s = .error (.unknownWord v i) →
      read (α := α) (s ++ w ++ t) = .error (.unknownWord v i)) ∧
    (∀ v i, (∀ u j, read (α := α) s ≠ .error (.unknownWord u j)) →
      read (α := α) t = .error (.unknownWord v i) →
      read (α := α) (s ++ w ++ t) = .error (.unknownWord v ((Text.words s).length + i))) ∧
    ((∀ v i, read (α := α) s ≠ .error (.unknownWord v i)) →
      (∀ v i, read (α := α) t ≠ .error (.unknownWord v i)) →
      ∃ ts us : List (Token α), Reads s ts ∧ Reads t us ∧ Reads (s ++ w ++ t) (ts ++ us)) ∧
    (read (α := α) (s ++ w ++ t) = .error .empty ↔ Text.AllBlank s ∧ Text.AllBlank t) ∧
    (read (α := α) (w ++ s) = read s ∧ read (α := α) (s ++ w) = read s ∧
      ∀ w', w' ≠ "" → Text.AllBlank w' →
        read (α := α) (s ++ w' ++ t) = read (s ++ w ++ t)) := by
  have hwords := Text.words_append hne hblank s t
  have hreads (hs : ∀ v i, read (α := α) s ≠ .error (.unknownWord v i)) :
      ∃ ts : List (Token α), Reads s ts :=
    (reads_or_unknownWord s).resolve_right fun ⟨v, i, h⟩ => hs v i h
  refine ⟨fun v i hs => ?_, fun v i hs ht => ?_, fun hs ht => ?_, ?_, ?_⟩
  · rw [read_eq_unknownWord_iff, hwords]
    exact (read_eq_unknownWord_iff.1 hs).append
  · obtain ⟨ts, hts⟩ := hreads hs
    rw [read_eq_unknownWord_iff, hwords]
    exact (read_eq_unknownWord_iff.1 ht).append_left (reads_iff.1 hts)
  · obtain ⟨ts, hts⟩ := hreads hs
    obtain ⟨us, hus⟩ : ∃ us : List (Token α), Reads t us :=
      (reads_or_unknownWord t).resolve_right fun ⟨v, i, h⟩ => ht v i h
    refine ⟨ts, us, hts, hus, reads_iff.2 ?_⟩
    rw [hwords, List.map_append, List.map_append, reads_iff.1 hts, reads_iff.1 hus]
  · rw [read_eq_empty_iff, Text.AllBlank, ← Text.words_eq_nil_iff, hwords, List.append_eq_nil_iff,
      Text.words_eq_nil_iff, Text.words_eq_nil_iff]
    rfl
  · obtain ⟨hbefore, hafter⟩ := Text.words_padded hblank s
    refine ⟨read_congr hbefore, read_congr hafter, fun w' hne' hblank' => read_congr ?_⟩
    rw [Text.words_append hne' hblank', hwords]

end

/-- The unknown word of `% x` is counted after the two words of `x +`, whatever blanks are between
the texts; after `%` it is not reached. With `x` instead, three tokens are read. -/
theorem read_joined_percent :
    let w := "\u00a0\t"
    read (α := Float) ("x +" ++ w ++ "% x") = .error (.unknownWord "%" 2) ∧
      read (α := Float) ("x +" ++ "  " ++ "% x") = .error (.unknownWord "%" 2) ∧
      read (α := Float) ("% x" ++ w ++ "% x") = .error (.unknownWord "%" 0) ∧
      Reads ("x +" ++ w ++ "x") [.var, .op .plus, (.var : Token Float)] := by
  intro w
  have hne : w ≠ "" := by decide
  have hblank : Text.AllBlank w := by decide +kernel
  have hsum : read "x +" = .ok [(.var : Token Float), .op .plus] := by rfl
  have hx : read "x" = .ok [(.var : Token Float)] := by rfl
  have hpercent : read (α := Float) "% x" = .error (.unknownWord "%" 0) := by rfl
  have hknown : ∀ v i, read (α := Float) "x +" ≠ .error (.unknownWord v i) := by
    intro v i h
    cases hsum.symm.trans h
  have hcount : (Text.words "x +").length = 2 := by rfl
  obtain ⟨-, hsecond, -, -, -, -, hblanks⟩ := read_joined (α := Float) "x +" w "% x" hne hblank
  have hjoined := hsecond "%" 0 hknown hpercent
  rw [hcount] at hjoined
  refine ⟨hjoined, ?_, (read_joined "% x" w "% x" hne hblank).1 "%" 0 hpercent, ?_⟩
  · rw [hblanks "  " (by decide) (by decide +kernel)]
    exact hjoined
  · obtain ⟨ts, us, hts, hus, hall⟩ := (read_joined "x +" w "x" hne hblank).2.2.1 hknown
      fun v i h => by cases hx.symm.trans h
    obtain rfl := hts.unique (.tokens hsum)
    obtain rfl := hus.unique (.tokens hx)
    exact hall

end Token

end CurveArea
