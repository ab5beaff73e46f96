import CurveArea.Proofs.Float.Reading
import CurveArea.Proofs.Formula.Joining

/-!
# What is written for tokens

Every token is written as one word, and the word is read as that token (`Token.isWord_write`,
`Token.ofWord?_write`). That asks for something only where the token is a number: its text is made
of digits, a point, a minus sign and the letters of two words (`Binary64.text_chars`), so it has no
blank, and it is none of the words that are reserved. So tokens are read back from what is written
for them (`Token.read_writeAll`). There is only one undefined number, so that holds for all numbers.
-/

namespace CurveArea

/-! ## Words -/

namespace Text

/-- A text is a word by itself. -/
structure IsWord (s : String) : Prop where
  /-- It is not empty. -/
  ne_empty : s ≠ ""
  /-- It has no blank. -/
  not_blank : ∀ c ∈ s.toList, isBlank c = false

instance (s : String) : Decidable (IsWord s) :=
  decidable_of_iff (s ≠ "" ∧ s.toList.all (fun c => !isBlank c) = true)
    ⟨fun h => ⟨h.1, by simpa using h.2⟩, fun h => ⟨h.1, by simpa using h.2⟩⟩

/-- A word that is begun goes on as long as no blank comes. -/
theorem wordsFrom_cons {cs : List Char} (hcs : ∀ c ∈ cs, isBlank c = false) (d : Char)
    (word : List Char) :
    wordsFrom (d :: word) cs = [String.ofList ((d :: word).reverse ++ cs)] := by
  induction cs generalizing d word with
  | nil => simp [wordsFrom]
  | cons c cs ih =>
    obtain ⟨hc, hcs⟩ := List.forall_mem_cons.1 hcs
    rw [wordsFrom, hc, if_neg Bool.false_ne_true, ih hcs]
    simp

/-- A text that is a word has this one word. -/
theorem words_of_isWord {s : String} (h : IsWord s) : words s = [s] := by
  obtain ⟨c, cs, hs⟩ := List.exists_cons_of_ne_nil fun hnil =>
    h.ne_empty (String.toList_eq_nil_iff.1 hnil)
  have hchars := h.not_blank
  rw [hs] at hchars
  obtain ⟨hc, hcs⟩ := List.forall_mem_cons.1 hchars
  rw [words, hs, wordsFrom, hc, if_neg Bool.false_ne_true, wordsFrom_cons hcs]
  rw [List.reverse_singleton, List.singleton_append, ← hs, String.ofList_toList]

/-- **Words with spaces between them** are read apart again. -/
theorem words_intercalate {ws : List String} (h : ∀ w ∈ ws, IsWord w) :
    words (" ".intercalate ws) = ws := by
  induction ws with
  | nil => rfl
  | cons w ws ih =>
    obtain ⟨hw, hws⟩ := List.forall_mem_cons.1 h
    cases ws with
    | nil => exact words_of_isWord hw
    | cons v vs =>
      rw [String.intercalate_cons_cons, words_append (by decide) (by decide +kernel),
        words_of_isWord hw, ih hws, List.singleton_append]

/-- No digit is a blank. -/
theorem isBlank_of_isDigit {c : Char} (h : c.isDigit = true) : isBlank c = false := by
  have hrange : '0'.val ≤ c.val ∧ c.val ≤ '9'.val := by simpa [Char.isDigit] using h
  have hlow : 48 ≤ c.toNat := hrange.1
  have hhigh : c.toNat ≤ 57 := hrange.2
  simp [isBlank]
  omega

end Text

/-! ## Numbers -/

namespace Binary64

/-- The characters besides digits that numbers are written with. -/
def numberMarks : List Char := ['-', '.', 'i', 'n', 'f', 'N', 'a']

section
variable {v : Float} {cs : List Char}

/-- An undefined number is written as a word of its own. -/
theorem text_of_undefined (hv : v.isNaN = true) : Numeral.text v = "NaN" := by
  have htext : Numeral.text v =
    write (fun m e => (Binary.binary64.figures m e).positional) v := rfl
  rw [htext, write, parts_eq, unpack_of_undefined hv]
  rfl

/-- **Reading back any number.** -/
theorem read?_text_of_any (v : Float) : Numeral.read? (Numeral.text v) = some v := by
  cases hv : v.isNaN with
  | false => exact read?_text hv
  | true =>
    rw [text_of_undefined hv]
    have hread : Numeral.read? "NaN" = some (0.0 / 0.0 : Float) := by rfl
    rw [hread, eq_of_unpack_eq (a := 0.0 / 0.0) (b := v)]
    rw [unpack_of_undefined hv]
    rfl

/-- A number is written with digits and these marks, and not with signs and points alone. -/
theorem Written.chars (h : Written v cs) :
    (∀ c ∈ cs, c.isDigit = true ∨ c ∈ numberMarks) ∧ ∃ c ∈ cs, c.isDigit = true ∨ c = 'n' := by
  cases h with
  | @infinite negative h => cases negative <;> simp [numberMarks]
  | @finite negative m e h cs hcs =>
    obtain ⟨d, rest, rfl, hd⟩ := hcs.exists_cons
    have hplain : ∀ c ∈ d :: rest, c.isDigit = true ∨ c ∈ numberMarks := by
      intro c hc
      rcases hcs.isDigit_or_eq hc with hdigit | rfl
      · exact .inl hdigit
      · exact .inr (by decide)
    cases negative with
    | true => exact ⟨List.forall_mem_cons.2 ⟨.inr (by decide), hplain⟩, d, by simp, .inl hd⟩
    | false => exact ⟨hplain, d, by simp, .inl hd⟩

/-- A number is written with digits and a few marks, and has a digit or is known by a letter. -/
theorem text_chars (v : Float) :
    (∀ c ∈ (Numeral.text v).toList, c.isDigit = true ∨ c ∈ numberMarks) ∧
      ∃ c ∈ (Numeral.text v).toList, c.isDigit = true ∨ c = 'n' ∨ c = 'N' := by
  cases hv : v.isNaN with
  | true =>
    rw [text_of_undefined hv]
    exact ⟨by simp [numberMarks], 'N', by simp, by simp⟩
  | false =>
    obtain ⟨hall, c, hc, hkind⟩ := (written_text hv).chars
    exact ⟨hall, c, hc, hkind.imp_right .inl⟩

/-- The text of a number is a word, and not one that is reserved. -/
theorem isWord_text (v : Float) : Text.IsWord (Numeral.text v) ∧ Numeral.text v ∉ reserved := by
  obtain ⟨hall, d, hd, hkind⟩ := text_chars v
  have hreserved : ∀ w ∈ reserved, ∀ c ∈ w.toList,
      ¬ (c.isDigit = true ∨ c = 'n' ∨ c = 'N') := by
    simp [reserved, Operator.all, Operator.symbol]
  have hmarks : ∀ c ∈ numberMarks, Text.isBlank c = false := by simp [numberMarks, Text.isBlank]
  refine ⟨⟨fun hempty => ?_, fun c hc => ?_⟩, fun hmem => hreserved _ hmem d hd hkind⟩
  · rw [hempty] at hd
    cases hd
  · rcases hall c hc with hdigit | hmark
    · exact Text.isBlank_of_isDigit hdigit
    · exact hmarks c hmark

end

end Binary64

/-! ## Tokens -/

namespace Token

/-- Every token is written as one word. -/
theorem isWord_write (t : Token Float) : Text.IsWord t.write := by
  cases t with
  | number v => exact (Binary64.isWord_text v).1
  | op o => cases o <;> decide +kernel
  | var | lparen | rparen => decide +kernel

/-- **The word of a token** is read as that token. -/
theorem ofWord?_write (t : Token Float) : ofWord? t.write = some t := by
  cases t with
  | number v => exact ofWord?_number (Binary64.isWord_text v).2 (Binary64.read?_text_of_any v)
  | op o => exact ofWord?_symbol o
  | var | lparen | rparen => rfl

/-- The words of written tokens are the tokens, each written. -/
theorem words_writeAll (ts : List (Token Float)) :
    Text.words (writeAll ts) = ts.map write :=
  Text.words_intercalate (List.forall_mem_map.2 fun t _ => isWord_write t)

/-- Written tokens are read back. -/
theorem reads_writeAll (ts : List (Token Float)) : Reads (writeAll ts) ts := by
  rw [reads_iff, words_writeAll, List.map_map]
  exact List.map_congr_left fun t _ => ofWord?_write t

/-- The tokens of a text, written anew. -/
def normalize (α : Type) [Numeral α] (text : String) : Except CompileError String :=
  (read (α := α) text).map writeAll

/-- A text is written anew as the tokens that are read from it, when there are some. -/
theorem normalize_eq_ok_iff {text written : String} : normalize Float text = .ok written ↔
    ∃ ts, ts ≠ [] ∧ read (α := Float) text = .ok ts ∧ writeAll ts = written := by
  rw [normalize]
  rcases read_cases (α := Float) text with ⟨-, hread⟩ | ⟨ts, hne, -, hread⟩ | ⟨i, v, -, hread⟩
  · simp [hread, Except.map]
  · simp [hread, Except.map, hne]
  · simp [hread, Except.map]

/-- **Tokens are read back** from what is written for them, if there are any; undefined numbers are
all the same. So a text that has tokens can be replaced by what is written for these: it compiles to
the same program or the same error under every precedence, and to write it anew changes no more. -/
theorem read_writeAll :
    (∀ ts : List (Token Float), ts ≠ [] → read (writeAll ts) = .ok ts) ∧
    ∀ text written, normalize Float text = .ok written →
      (∀ prec, Program.compileWith (α := Float) prec written = Program.compileWith prec text) ∧
        normalize Float written = .ok written := by
  have hback (ts : List (Token Float)) (hne : ts ≠ []) : read (writeAll ts) = .ok ts := by
    cases reads_writeAll ts with
    | tokens h => exact h
    | blank h => exact absurd rfl hne
  refine ⟨hback, fun text written h => ?_⟩
  obtain ⟨ts, hne, hread, rfl⟩ := normalize_eq_ok_iff.1 h
  refine ⟨fun prec => ?_, normalize_eq_ok_iff.2 ⟨ts, hne, hback ts hne, rfl⟩⟩
  rw [Program.compileWith_of_read (hback ts hne), Program.compileWith_of_read hread]

/-- A negative zero, an infinity and an undefined number are read back among signs that stand alone.
A text with other blanks and digits than are written has the same programs as its tokens, written
anew. -/
theorem read_writeAll_signs :
    let ts : List (Token Float) :=
      [.op .minus, .number (-0.0), .op .plus, .number (-1.0 / 0.0), .var, .number (0.0 / 0.0)]
    writeAll ts = "- -0 + -inf x NaN" ∧ read (writeAll ts) = .ok ts ∧
      normalize Float "\tx  -\n-03.50 " = .ok "x - -3.5" ∧
      (∀ prec, Program.compileWith (α := Float) prec "x - -3.5" =
        Program.compileWith prec "\tx  -\n-03.50 ") ∧
      normalize Float "x - -3.5" = .ok "x - -3.5" := by
  intro ts
  have hwritten : writeAll ts = "- -0 + -inf x NaN" := by decide +kernel
  have hnormal : normalize Float "\tx  -\n-03.50 " = .ok "x - -3.5" := by decide +kernel
  obtain ⟨hprograms, hagain⟩ := read_writeAll.2 _ _ hnormal
  exact ⟨hwritten, read_writeAll.1 ts (List.cons_ne_nil _ _), hnormal, hprograms, hagain⟩

end Token

end CurveArea
