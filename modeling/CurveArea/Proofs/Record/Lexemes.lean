import CurveArea.Proofs.Decimal.Digits
import CurveArea.Record.Lexeme

/-!
# Gaps, marks and names

What a record may have between two of its parts, and what a name is, each told by a relation between
the characters that are left before and after it. The readers decide these relations: blanks and
comments are `Spaced` (`skip_eq_some_iff`), names are `Named` (`name_eq_some_iff`).
-/

namespace CurveArea.Record

open CurveArea.Decimal (takeWhile_append_of_stop dropWhile_append_of_stop)

variable {c : Char} {cs mid rest : List Char} {w : String}

/-! ## Blanks and comments -/

/-- A comment that has begun goes on, inside `depth` others, up to its end mark. Comments within it
are complete. -/
inductive Commented : (depth : Nat) → List Char → List Char → Prop
  | close (rest : List Char) : Commented 0 ('*' :: '/' :: rest) rest
  | leave {depth : Nat} {cs rest : List Char} : Commented depth cs rest →
      Commented (depth + 1) ('*' :: '/' :: cs) rest
  | enter {depth : Nat} {cs rest : List Char} : Commented (depth + 1) cs rest →
      Commented depth ('/' :: '*' :: cs) rest
  | char {depth : Nat} {c : Char} {cs rest : List Char} : (∀ ds, c = '/' → cs ≠ '*' :: ds) →
      (∀ ds, c = '*' → cs ≠ '/' :: ds) → Commented depth cs rest → Commented depth (c :: cs) rest

/-- Any number of blanks and comments stand before what is left. A comment that ends with its line
may be the end of all. -/
inductive Spaced : List Char → List Char → Prop
  | done {rest : List Char} : (∀ c ∈ rest.head?, isBlank c = false ∧ c ≠ '/') → Spaced rest rest
  | blank {c : Char} {cs rest : List Char} : isBlank c = true → Spaced cs rest →
      Spaced (c :: cs) rest
  | line {ds cs rest : List Char} : '\n' ∉ ds → Spaced cs rest →
      Spaced ('/' :: '/' :: (ds ++ '\n' :: cs)) rest
  | lastLine {ds : List Char} : '\n' ∉ ds → Spaced ('/' :: '/' :: ds) []
  | comment {cs mid rest : List Char} : Commented 0 cs mid → Spaced mid rest →
      Spaced ('/' :: '*' :: cs) rest

/-- What a reader of blanks has before it, wherever it is. -/
def Gap.Left : Gap → List Char → List Char → Prop
  | .outside, cs, rest => Spaced cs rest
  | .line, cs, rest => Spaced ('/' :: '/' :: cs) rest
  | .block depth, cs, rest => ∃ mid, Commented depth cs mid ∧ Spaced mid rest

/-- A line goes on with every character but the one that ends it. -/
theorem Spaced.line_cons (hc : c ≠ '\n') (h : Spaced ('/' :: '/' :: cs) rest) :
    Spaced ('/' :: '/' :: c :: cs) rest := by
  have hmem : ∀ ds, '\n' ∉ ds → '\n' ∉ c :: ds := fun ds hds h =>
    (List.mem_cons.1 h).elim (fun h => hc h.symm) hds
  cases h with
  | done hsolid => exact absurd rfl (hsolid '/' rfl).2
  | blank hblank => cases hblank
  | line hds h => exact .line (hmem _ hds) h
  | lastLine hds => exact .lastLine (hmem _ hds)

/-- What the reader of blanks passes over, wherever it begins, are blanks and comments. -/
theorem left_of_skipFrom {g : Gap} (h : skipFrom g cs = some rest) : g.Left cs rest := by
  fun_induction skipFrom g cs with
  | case1 cs ih => exact ih h
  | case2 cs ih =>
    obtain ⟨mid, hcomment, hspaced⟩ := ih h
    exact .comment hcomment hspaced
  | case3 => cases h
  | case4 c cs hline hcomment hslash hblank ih => exact .blank hblank (ih h)
  | case5 c cs hline hcomment hslash hblank =>
    cases h
    refine .done fun d hd => ?_
    cases hd
    exact ⟨by simpa using hblank, hslash⟩
  | case6 =>
    cases h
    exact .done nofun
  | case7 cs ih => exact .line List.not_mem_nil (ih h)
  | case8 c cs hc ih => exact (ih h).line_cons hc
  | case9 =>
    cases h
    exact .lastLine nofun
  | case10 depth cs ih =>
    obtain ⟨mid, hcomment, hspaced⟩ := ih h
    exact ⟨mid, .enter hcomment, hspaced⟩
  | case11 cs ih => exact ⟨cs, .close cs, ih h⟩
  | case12 depth cs ih =>
    obtain ⟨mid, hcomment, hspaced⟩ := ih h
    exact ⟨mid, .leave hcomment, hspaced⟩
  | case13 depth c cs hopen hclose hleave ih =>
    obtain ⟨mid, hcomment, hspaced⟩ := ih h
    refine ⟨mid, .char hopen (fun ds hc hcs => ?_) hcomment, hspaced⟩
    cases depth with
    | zero => exact hclose ds rfl hc hcs
    | succ depth => exact hleave depth ds rfl hc hcs
  | case14 => cases h

/-- The reader passes over a comment up to its end mark, with the comments in it. -/
theorem Commented.skipFrom_eq {depth : Nat} (h : Commented depth cs rest) :
    skipFrom (.block depth) cs = skipFrom .outside rest := by
  induction h with
  | close rest => rw [skipFrom]
  | leave _ ih => rw [skipFrom, ih]
  | enter _ ih => rw [skipFrom, ih]
  | char hopen hclose _ ih =>
    rw [skipFrom, ih]
    · exact hopen
    · exact fun ds _ => hclose ds
    · exact fun _ ds _ => hclose ds

/-- The reader passes over a line up to its end, or to the end of all. -/
theorem skipFrom_line (hline : '\n' ∉ cs) :
    skipFrom .line (cs ++ '\n' :: rest) = skipFrom .outside rest ∧ skipFrom .line cs = some [] := by
  induction cs with
  | nil => exact ⟨rfl, rfl⟩
  | cons c cs ih =>
    obtain ⟨hc, hcs⟩ := not_or.1 (mt List.mem_cons.2 hline)
    simp only [List.cons_append, skipFrom, if_neg (Ne.symm hc), ih hcs, and_self]

/-- Nothing is passed over before a character that is neither a blank nor a slash. -/
theorem skip_cons (hblank : isBlank c = false) (hslash : c ≠ '/') :
    skip (c :: cs) = some (c :: cs) := by
  rw [skip, skipFrom] <;> simp_all

/-- Nothing is passed over where neither a blank nor a slash comes first. -/
theorem skip_of_solid (h : ∀ c ∈ rest.head?, isBlank c = false ∧ c ≠ '/') :
    skip rest = some rest := by
  cases rest with
  | nil => rfl
  | cons c cs => exact skip_cons (h c rfl).1 (h c rfl).2

/-- The reader passes over blanks and comments. -/
theorem Spaced.skip_eq (h : Spaced cs rest) : skip cs = some rest := by
  unfold skip
  induction h with
  | done hsolid => exact skip_of_solid hsolid
  | @blank c cs rest hblank _ ih =>
    have hslash : c ≠ '/' := by
      rintro rfl
      cases hblank
    rw [skipFrom, if_pos hblank, ih] <;> simp [hslash]
  | line hds _ ih => rw [skipFrom, (skipFrom_line hds).1, ih]
  | @lastLine ds hds => rw [skipFrom, (@skipFrom_line ds [] hds).2]
  | comment hcomment _ ih => rw [skipFrom, hcomment.skipFrom_eq, ih]

/-- **Gaps.** The reader of blanks passes over the blanks and comments that stand before what is
left. -/
theorem skip_eq_some_iff : skip cs = some rest ↔ Spaced cs rest :=
  ⟨left_of_skipFrom (g := .outside), Spaced.skip_eq⟩

/-- A gap goes up to one place only. -/
theorem Spaced.unique (h : Spaced cs rest) (h' : Spaced cs mid) : rest = mid :=
  Option.some.inj (h.skip_eq.symm.trans h'.skip_eq)

/-- No more characters are left behind a comment than before it. -/
theorem Commented.length_le {depth : Nat} (h : Commented depth cs rest) :
    rest.length ≤ cs.length := by
  induction h with
  | close | leave _ ih | enter _ ih | char _ _ _ ih =>
    simp only [List.length_cons]
    omega

/-- No more characters are left behind a gap than before it. -/
theorem Spaced.length_le (h : Spaced cs rest) : rest.length ≤ cs.length := by
  induction h with
  | done => exact Nat.le_refl _
  | lastLine => exact Nat.zero_le _
  | blank _ _ ih | line _ _ ih =>
    simp only [List.length_cons, List.length_append]
    omega
  | comment hcomment _ ih =>
    have hle := hcomment.length_le
    simp only [List.length_cons]
    omega

/-- All blanks. -/
def blanks : List Char :=
  ['\t', '\n', '\x0b', '\x0c', '\r', ' ', '\u0085', '\u200e', '\u200f', '\u2028', '\u2029']

/-- The list of blanks is complete. -/
theorem mem_blanks (h : isBlank c = true) : c ∈ blanks := by
  have hcode : c.toNat ∈ blanks.map Char.toNat := by
    simp only [isBlank, Bool.or_eq_true, Bool.and_eq_true, decide_eq_true_eq, beq_iff_eq] at h
    simp only [blanks, List.map_cons, List.map_nil, List.mem_cons, List.not_mem_nil, or_false,
      Char.reduceToNat]
    omega
  obtain ⟨d, hd, heq⟩ := List.mem_map.1 hcode
  rwa [← Char.toNat_inj.1 heq]

/-- What stands before a gap goes on with no character that neither a blank nor a slash nor the
character behind the gap is. -/
theorem Spaced.any_eq_false (h : Spaced cs (c :: rest)) {p : Char → Bool} (hc : p c = false)
    (hgap : ∀ d ∈ '/' :: blanks, p d = false) : cs.head?.any p = false := by
  cases h with
  | done => exact hc
  | blank hblank _ => exact hgap _ (List.mem_cons_of_mem _ (mem_blanks hblank))
  | line | comment => exact hgap _ List.mem_cons_self

/-! ## Marks and words -/

/-- Given characters are passed over when they stand at the beginning. -/
theorem expect_eq_some_iff : expect w cs = some rest ↔ cs = w.toList ++ rest := by
  rw [expect]
  constructor
  · intro h
    split at h
    case isTrue hprefix =>
      obtain ⟨rest', rfl⟩ := List.isPrefixOf_iff_prefix.1 hprefix
      rw [← String.length_toList, List.drop_left] at h
      rw [Option.some.inj h]
    case isFalse => cases h
  · rintro rfl
    rw [if_pos (List.isPrefixOf_iff_prefix.2 (List.prefix_append _ _)), ← String.length_toList,
      List.drop_left]

/-- A mark is passed over with the gap behind it. -/
theorem mark_eq_some_iff :
    mark w cs = some rest ↔ ∃ mid, cs = w.toList ++ mid ∧ Spaced mid rest := by
  simp [mark, Option.bind_eq_some_iff, expect_eq_some_iff, skip_eq_some_iff]

/-- A word stands at the beginning, and no character of a name follows it. -/
def Word (w : String) (cs rest : List Char) : Prop := cs = w.toList ++ rest ∧ goesOn rest = false

/-- A word is passed over when it stands at the beginning and no longer name does. -/
theorem word_eq_some_iff : word w cs = some rest ↔ Word w cs rest := by
  rw [word, Option.bind_eq_some_iff]
  constructor
  · rintro ⟨rest', hexpect, h⟩
    split at h
    case isTrue => cases h
    case isFalse hgoes =>
      cases h
      exact ⟨expect_eq_some_iff.1 hexpect, Bool.eq_false_iff.2 hgoes⟩
  · rintro ⟨hcs, hgoes⟩
    exact ⟨rest, expect_eq_some_iff.2 hcs, by rw [hgoes, if_neg Bool.false_ne_true]⟩

/-- A word is not passed over where its characters do not stand. -/
theorem word_eq_none (h : ¬ w.toList <+: cs) : word w cs = none := by
  rw [word, expect, if_neg (mt List.isPrefixOf_iff_prefix.1 h)]
  rfl

/-! ## Names -/

/-- No text begins with another letter than `b` and `r` or a quotation mark. -/
theorem beginsText_eq_false (hb : c ≠ 'b') (hr : c ≠ 'r') : beginsText (c :: cs) = false := by
  simp [beginsText, List.isPrefixOf, Ne.symm hb, Ne.symm hr]

/-- The longest name at the beginning of some characters. -/
inductive LongestName : (name cs rest : List Char) → Prop
  | plain {c : Char} {ds rest : List Char} : Text.isNameStart c = true →
      (∀ d ∈ ds, Text.isNameChar d = true) → goesOn rest = false →
      beginsText (c :: ds ++ rest) = false → (∀ es, c :: ds ++ rest ≠ 'r' :: '#' :: es) →
      LongestName (c :: ds) (c :: ds ++ rest) rest
  | marked {ds rest : List Char} : ds ≠ [] → (∀ d ∈ ds, isMarkedChar d = true) →
      rest.head?.any isMarkedChar = false → LongestName ds ('r' :: '#' :: ds ++ rest) rest

/-- A character that may begin a name may go on with one. -/
theorem isNameChar_of_isNameStart (h : Text.isNameStart c = true) : Text.isNameChar c = true := by
  rw [Text.isNameStart, Bool.or_eq_true, decide_eq_true_eq] at h
  rcases h with rfl | h
  · decide +kernel
  · rw [Text.isNameChar, h, Bool.true_or]

/-- The marks that records have. -/
def marks : List Char := ['(', ')', '[', ']', '\x7b', '\x7d', '"', '\'', ',', ':', '/']

/-- No name has a mark. -/
theorem isNameChar_of_mem_marks (hc : c ∈ marks) : Text.isNameChar c = false := by
  have hall : marks.all (fun c => !Text.isNameChar c) = true := by decide +kernel
  simpa using List.all_eq_true.1 hall c hc

/-- No name goes on with a mark. -/
theorem goesOn_of_mem_marks (hc : c ∈ marks) : goesOn (c :: cs) = false := by
  rw [goesOn, List.head?_cons, Option.any_some, isNameChar_of_mem_marks hc]

/-- No name begins with a mark. -/
theorem isNameStart_of_mem_marks (hc : c ∈ marks) : Text.isNameStart c = false := by
  refine Bool.eq_false_iff.2 fun hstart => ?_
  have hchar := isNameChar_of_isNameStart hstart
  rw [isNameChar_of_mem_marks hc] at hchar
  cases hchar

/-- A name may begin with the letters with which the words of records begin. -/
theorem isNameStart_of_mem_letters (hc : c ∈ ['S', 't', 'f', 'N', 'i', 'r', 'b']) :
    Text.isNameStart c = true := by
  have hall : ['S', 't', 'f', 'N', 'i', 'r', 'b'].all Text.isNameStart = true := by decide +kernel
  exact List.all_eq_true.1 hall c hc

/-- What a span of characters takes has the property, and what is left does not begin with it. -/
theorem span_spec (p : Char → Bool) (cs : List Char) :
    cs = cs.takeWhile p ++ cs.dropWhile p ∧ (∀ c ∈ cs.takeWhile p, p c = true) ∧
      (cs.dropWhile p).head?.any p = false := by
  refine ⟨List.takeWhile_append_dropWhile.symm, List.all_eq_true.1 List.all_takeWhile, ?_⟩
  have hhead := List.head?_dropWhile_not p cs
  cases hd : (cs.dropWhile p).head? with
  | none => rfl
  | some d =>
    rw [hd] at hhead
    exact hhead

/-- What the reader takes as a name is the longest one. -/
theorem longestName_sound {n : List Char} (h : longestName cs = some (n, rest)) :
    LongestName n cs rest := by
  unfold longestName at h
  split at h
  case isTrue => cases h
  case isFalse hbegins =>
    split at h
    case h_1 cs =>
      obtain ⟨hsplit, hall, hstop⟩ := span_spec isMarkedChar cs
      dsimp only at h
      split at h
      case isTrue => cases h
      case isFalse hne =>
        cases h
        have hmarked := LongestName.marked (by simpa using hne) hall hstop
        rwa [List.cons_append, List.cons_append, ← hsplit] at hmarked
    case h_2 c cs hmark =>
      obtain ⟨hsplit, hall, hstop⟩ := span_spec Text.isNameChar cs
      split at h
      case isTrue hstart =>
        cases h
        have hcs : c :: cs.takeWhile Text.isNameChar ++ cs.dropWhile Text.isNameChar = c :: cs := by
          rw [List.cons_append, ← hsplit]
        have hplain := LongestName.plain hstart hall hstop
          (by rw [hcs]; exact Bool.eq_false_iff.2 hbegins)
          (by rw [hcs]; exact fun es heq => hmark es (List.cons.inj heq).1 (List.cons.inj heq).2)
        rwa [hcs] at hplain
      case isFalse => cases h
    case h_3 => cases h

/-- The reader takes the longest name. -/
theorem LongestName.longestName_eq {n : List Char} (h : LongestName n cs rest) :
    longestName cs = some (n, rest) := by
  cases h with
  | @plain c ds rest hstart hds hstop hbegins hmark =>
    rw [List.cons_append] at hbegins ⊢
    rw [longestName, if_neg (by rw [hbegins]; decide), if_pos hstart,
      takeWhile_append_of_stop hds hstop, dropWhile_append_of_stop hds hstop]
    exact fun es hc hes => hmark es (by rw [List.cons_append, hc, hes])
  | @marked ds rest hne hds hstop =>
    obtain ⟨d, ds, rfl⟩ := List.exists_cons_of_ne_nil hne
    have hd : d ≠ '"' ∧ d ≠ '#' := by
      constructor <;>
      · rintro rfl
        exact absurd (hds _ List.mem_cons_self) (by decide +kernel)
    have hbegins : beginsText ('r' :: '#' :: (d :: ds ++ rest)) = false := by
      simp [beginsText, List.isPrefixOf, Ne.symm hd.1, Ne.symm hd.2]
    rw [List.cons_append, List.cons_append, longestName, if_neg (by rw [hbegins]; decide)]
    simp only [takeWhile_append_of_stop hds hstop, dropWhile_append_of_stop hds hstop,
      List.isEmpty_cons, Bool.false_eq_true, if_false]

/-- The reader takes the longest name, and nothing else. -/
theorem longestName_eq_some_iff {n : List Char} :
    longestName cs = some (n, rest) ↔ LongestName n cs rest :=
  ⟨longestName_sound, LongestName.longestName_eq⟩

/-- A name that a field can have: the longest one, and no character that only a marked name may have
follows it. -/
def Named (n : String) (cs rest : List Char) : Prop :=
  LongestName n.toList cs rest ∧ rest.head?.any isMarkedChar = false

/-- **Names.** The reader of names reads the name that stands at the beginning. -/
theorem name_eq_some_iff {n : String} : name cs = some (n, rest) ↔ Named n cs rest := by
  rw [name, Option.bind_eq_some_iff, Named]
  constructor
  · rintro ⟨⟨ds, rest'⟩, hlongest, h⟩
    dsimp only at h
    split at h
    case isTrue => cases h
    case isFalse hstop =>
      cases h
      rw [String.toList_ofList]
      exact ⟨longestName_eq_some_iff.1 hlongest, Bool.eq_false_iff.2 hstop⟩
  · rintro ⟨hlongest, hstop⟩
    refine ⟨(n.toList, rest), longestName_eq_some_iff.2 hlongest, ?_⟩
    simp [hstop]

/-- Only one name stands at a place. -/
theorem Named.unique {n n' : String} (h : Named n cs rest) (h' : Named n' cs mid) :
    n = n' ∧ rest = mid := by
  have heq := (name_eq_some_iff.2 h).symm.trans (name_eq_some_iff.2 h')
  exact Prod.mk.inj (Option.some.inj heq)

/-- A name begins with a character that may begin one. -/
theorem LongestName.exists_start {n : List Char} (h : LongestName n cs rest) :
    ∃ c ds, cs = c :: ds ∧ Text.isNameStart c = true := by
  cases h with
  | plain hstart => exact ⟨_, _, rfl, hstart⟩
  | marked => exact ⟨_, _, rfl, isNameStart_of_mem_letters (by simp)⟩

/-- Where a name stands, there is no mark. -/
theorem LongestName.ne_cons {n : List Char} (h : LongestName n cs rest) (hc : c ∈ marks)
    (ds : List Char) : cs ≠ c :: ds := by
  rintro rfl
  obtain ⟨d, ds, heq, hd⟩ := h.exists_start
  obtain rfl : c = d := (List.cons.inj heq).1
  rw [isNameStart_of_mem_marks hc] at hd
  cases hd

/-- A name has a character. -/
theorem LongestName.length_lt {n : List Char} (h : LongestName n cs rest) :
    rest.length < cs.length := by
  cases h with
  | plain | marked =>
    simp only [List.cons_append, List.length_cons, List.length_append]
    omega

end CurveArea.Record
