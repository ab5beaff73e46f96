import Mathlib
import CurveArea.Proofs.Record.Lexemes

/-!
# Texts as they are written

A text can be written in many ways: its characters stand for themselves, are named by a letter or by
their code point after a backslash, or are written byte by byte; or all of them stand as they are
between marks that do not occur among them. `IsText` tells which characters write a text, and the
reader of texts reads exactly those (`text_eq_some_iff`).
-/

namespace CurveArea.Record

open CurveArea.Decimal (takeWhile_append_of_stop dropWhile_append_of_stop)

variable {c : Char} {bs : List UInt8} {t s cs rest text : List Char}

/-! ## Bytes of characters -/

/-- Bytes encode a character if its encoding stands at their beginning. -/
theorem charOfBytes?_eq_some_iff : charOfBytes? bs = some c ↔ String.utf8EncodeChar c <+: bs := by
  have hbytes : ByteArray.mk bs.toArray = bs.toByteArray := by
    ext1
    simp
  rw [charOfBytes?, hbytes]
  constructor
  · intro h
    have hsome : (bs.toByteArray.utf8DecodeChar? 0).isSome = true := by
      rw [h]
      rfl
    have hc : bs.toByteArray.utf8DecodeChar 0 hsome = c := by simp [ByteArray.utf8DecodeChar, h]
    have hencode := ByteArray.utf8EncodeChar_utf8DecodeChar (h := hsome)
    rw [hc] at hencode
    have htake : String.utf8EncodeChar c = bs.take c.utf8Size := by
      simpa [ByteArray.data_extract] using congrArg (fun b => b.data.toList) hencode
    rw [htake]
    exact List.take_prefix _ _
  · rintro ⟨bs', rfl⟩
    rw [List.toByteArray_append]
    exact ByteArray.utf8DecodeChar?_utf8EncodeChar_append

/-- When bytes that encode no character encode one with a byte more, they are all of its bytes. -/
theorem utf8EncodeChar_of_charOfBytes? {b : UInt8} (hbefore : charOfBytes? bs = none)
    (h : charOfBytes? (bs ++ [b]) = some c) : String.utf8EncodeChar c = bs ++ [b] := by
  refine (List.prefix_concat_iff.1 (charOfBytes?_eq_some_iff.1 h)).resolve_right fun hprefix => ?_
  rw [charOfBytes?_eq_some_iff.2 hprefix] at hbefore
  cases hbefore

/-- Part of the bytes of a character encodes no character. -/
theorem charOfBytes?_of_append {bs' : List UInt8} (h : String.utf8EncodeChar c = bs ++ bs')
    (hne : bs' ≠ []) : charOfBytes? bs = none := by
  refine Option.eq_none_iff_forall_ne_some.2 fun d hd => ?_
  have hprefix := charOfBytes?_eq_some_iff.1 hd
  have hall : charOfBytes? (String.utf8EncodeChar c) = some c :=
    charOfBytes?_eq_some_iff.2 (List.prefix_refl _)
  have hd' : charOfBytes? (String.utf8EncodeChar c) = some d :=
    charOfBytes?_eq_some_iff.2 (h ▸ hprefix.trans (List.prefix_append _ _))
  obtain rfl : c = d := Option.some.inj (hall.symm.trans hd')
  have hle := hprefix.length_le
  rw [h, List.length_append] at hle
  exact hne (List.length_eq_zero_iff.1 (by omega))

/-! ## Digits -/

/-- The number that digits write in a base, the first one the highest. What is no digit does not
count. -/
def digitsValue (base : Nat) (ds : List Char) : Nat :=
  Nat.ofDigits base (ds.filterMap hexDigit?).reverse

/-- One digit more multiplies what was written by the base. -/
theorem digitsValue_concat {base d : Nat} {ds : List Char} (h : hexDigit? c = some d) :
    digitsValue base (ds ++ [c]) = base * digitsValue base ds + d := by
  simp [digitsValue, List.filterMap_append, h, Nat.ofDigits_cons, Nat.add_comm]

/-- A character that is no digit does not count. -/
theorem digitsValue_concat_of_none {base : Nat} {ds : List Char} (h : hexDigit? c = none) :
    digitsValue base (ds ++ [c]) = digitsValue base ds := by
  simp [digitsValue, List.filterMap_append, h]

/-- A character is found by its code point. -/
theorem charOfCode?_toNat (c : Char) : charOfCode? c.toNat = some c := by
  have hvalid : c.toNat.isValidChar := c.valid
  rw [charOfCode?, if_pos hvalid, Char.ofNat_toNat]

/-- The character that is found has the code point. -/
theorem charOfCode?_eq_some_iff {n : Nat} : charOfCode? n = some c ↔ n = c.toNat := by
  constructor
  · intro h
    rw [charOfCode?] at h
    split at h
    case isTrue hvalid =>
      cases h
      rw [Char.toNat_ofNat, if_pos hvalid]
    case isFalse => cases h
  · rintro rfl
    exact charOfCode?_toNat c

/-! ## Characters between quotation marks -/

/-- Bytes are written by two hexadecimal digits each. -/
inductive ByteCodes : List UInt8 → List Char → Prop
  | nil : ByteCodes [] []
  | cons {c d : Char} {b : UInt8} {bs : List UInt8} {s : List Char} : hexByte? c d = some b →
      ByteCodes bs s → ByteCodes (b :: bs) ('\\' :: 'x' :: c :: d :: s)

/-- Characters between quotation marks write a text. -/
inductive Quotes : (text : List Char) → List Char → Prop
  | nil : Quotes [] []
  | plain {c : Char} {t s : List Char} : c ≠ '"' → c ≠ '\\' → Quotes t s → Quotes (c :: t) (c :: s)
  | letter {c d : Char} {t s : List Char} : escaped? d = some c → Quotes t s →
      Quotes (c :: t) ('\\' :: d :: s)
  | code {c : Char} {ds t s : List Char} : ds ≠ [] → ds.length ≤ 6 →
      (∀ d ∈ ds, (hexDigit? d).isSome = true) → digitsValue 16 ds = c.toNat → Quotes t s →
      Quotes (c :: t) ('\\' :: 'u' :: '\x7b' :: ds ++ '\x7d' :: s)
  | bytes {c : Char} {e t s : List Char} : ByteCodes (String.utf8EncodeChar c) e → Quotes t s →
      Quotes (c :: t) (e ++ s)

/-- One byte more may be written behind some bytes. -/
theorem ByteCodes.concat {b : UInt8} {d : Char} (h : ByteCodes bs s) (hb : hexByte? c d = some b) :
    ByteCodes (bs ++ [b]) (s ++ ['\\', 'x', c, d]) := by
  induction h with
  | nil => exact .cons hb .nil
  | cons hb' _ ih => exact .cons hb' ih

/-! ## What the reader of quoted characters accepts -/

/-- What a reader of quoted characters has read since the last complete character. -/
def Quoting.Begun : Quoting → List Char → Prop
  | .plain, begun => begun = []
  | .backslash, begun => begun = ['\\']
  | .brace, begun => begun = ['\\', 'u']
  | .code n digits, begun => ∃ ds, begun = '\\' :: 'u' :: '\x7b' :: ds ∧ ds.length = digits ∧
      digits ≤ 6 ∧ (∀ d ∈ ds, (hexDigit? d).isSome = true) ∧ digitsValue 16 ds = n
  | .bytes bs, begun => ByteCodes bs begun ∧ charOfBytes? bs = none

/-- What has begun goes on to a quotation mark, and writes what a reader adds to the text. -/
def Completes (begun text cs t rest : List Char) : Prop :=
  ∃ u s, t = text.reverse ++ u ∧ cs = s ++ '"' :: rest ∧ Quotes u (begun ++ s)

/-- A character that is read belongs to what has begun. -/
theorem Completes.cons {begun : List Char} (h : Completes (begun ++ [c]) text cs t rest) :
    Completes begun text (c :: cs) t rest := by
  obtain ⟨u, s, rfl, rfl, hquotes⟩ := h
  rw [List.append_assoc] at hquotes
  exact ⟨u, c :: s, rfl, rfl, hquotes⟩

/-- A character is complete. -/
theorem Completes.next {begun : List Char} (h : Completes [] (c :: text) cs t rest)
    (hchar : ∀ u s, Quotes u s → Quotes (c :: u) (begun ++ s)) :
    Completes begun text cs t rest := by
  obtain ⟨u, s, rfl, rfl, hquotes⟩ := h
  exact ⟨c :: u, s, by simp, rfl, hchar u s hquotes⟩

/-- What has begun goes on to a quotation mark, wherever the reader is in it. -/
theorem completes_of_unquoteFrom {q : Quoting} {begun : List Char} (hbegun : q.Begun begun)
    (h : unquoteFrom false q text cs = some (t, rest)) : Completes begun text cs t rest := by
  fun_induction unquoteFrom false q text cs generalizing begun with
  | case1 text cs =>
    cases h
    subst hbegun
    exact ⟨[], [], by simp, rfl, .nil⟩
  | case2 text cs ih =>
    subst hbegun
    exact (ih rfl h).cons
  | case3 text c cs hquote hslash ih =>
    subst hbegun
    exact ((ih rfl h).next fun u s hus => Quotes.plain hquote hslash hus).cons
  | case4 | case10 | case13 | case15 | case16 | case17 | case20 | case21 => cases h
  | case5 text c d cs b hb hfalse => cases hfalse
  | case6 text c d cs b hb _ e he ih =>
    subst hbegun
    have hempty : charOfBytes? [] = none := rfl
    have hencode : String.utf8EncodeChar e = [b] := utf8EncodeChar_of_charOfBytes? hempty he
    exact ((ih rfl h).next fun u s hus => Quotes.bytes (hencode ▸ .cons hb .nil) hus).cons.cons.cons
  | case7 text c d cs b hb _ hnone ih =>
    subst hbegun
    exact (ih ⟨.cons hb .nil, hnone⟩ h).cons.cons.cons
  | case8 text cs ih =>
    subst hbegun
    exact (ih rfl h).cons
  | case9 text c cs hx hu d hd ih =>
    subst hbegun
    exact ((ih rfl h).next fun u s hus => Quotes.letter hd hus).cons
  | case11 text cs ih =>
    subst hbegun
    exact (ih ⟨[], rfl, rfl, by decide, nofun, rfl⟩ h).cons
  | case12 n digits text c cs hclose e he ih =>
    obtain ⟨ds, rfl, rfl, hle, hdigits, rfl⟩ := hbegun
    obtain ⟨rfl, hne⟩ : c = '\x7d' ∧ ds.length ≠ 0 := by simpa using hclose
    refine ((ih rfl h).next fun u s hus => ?_).cons
    have hcode := Quotes.code (mt List.length_eq_zero_iff.2 hne) hle hdigits
      (charOfCode?_eq_some_iff.1 he) hus
    simpa using hcode
  | case14 n digits text c cs hclose d hd hlt ih =>
    obtain ⟨ds, rfl, rfl, hle, hdigits, rfl⟩ := hbegun
    refine (ih ⟨ds ++ [c], by simp, by simp, hlt, fun e he => ?_, digitsValue_concat hd⟩ h).cons
    rcases List.mem_append.1 he with he | he
    · exact hdigits e he
    · rw [List.mem_singleton.1 he, hd]
      rfl
  | case18 bs text c d cs b hb e he ih =>
    obtain ⟨hbytes, hnone⟩ := hbegun
    have hencode := utf8EncodeChar_of_charOfBytes? hnone he
    refine Completes.cons (.cons (.cons (.cons ((ih rfl h).next fun u s hus => ?_))))
    have hwritten := Quotes.bytes (hencode ▸ hbytes.concat hb) hus
    simpa using hwritten
  | case19 bs text c d cs b hb hnone hlt ih =>
    refine Completes.cons (.cons (.cons (.cons (ih ⟨?_, hnone⟩ h))))
    simpa using hbegun.1.concat hb

/-! ## What is written is read -/

/-- A character that is not escaped stands for itself. -/
theorem unquoteFrom_plain (hquote : c ≠ '"') (hslash : c ≠ '\\') :
    unquoteFrom false .plain text (c :: cs) = unquoteFrom false .plain (c :: text) cs := by
  rw [unquoteFrom]
  · exact hquote
  · exact hslash

/-- The digits of a code point are read one by one, up to six of them. -/
theorem unquoteFrom_code {ds₁ ds₂ : List Char} (hlength : ds₁.length + ds₂.length ≤ 6)
    (hdigits : ∀ d ∈ ds₂, (hexDigit? d).isSome = true) :
    unquoteFrom false (.code (digitsValue 16 ds₁) ds₁.length) text (ds₂ ++ cs) =
      unquoteFrom false (.code (digitsValue 16 (ds₁ ++ ds₂)) (ds₁ ++ ds₂).length) text cs := by
  induction ds₂ generalizing ds₁ with
  | nil => rw [List.append_nil, List.nil_append]
  | cons c ds₂ ih =>
    obtain ⟨d, hd⟩ := Option.isSome_iff_exists.1 (hdigits c List.mem_cons_self)
    have hbrace : c ≠ '\x7d' := by
      rintro rfl
      cases hd
    rw [List.length_cons] at hlength
    have hlength' : (ds₁ ++ [c]).length + ds₂.length ≤ 6 := by
      rw [List.length_append, List.length_singleton]
      omega
    have hnext := ih hlength' fun e he => hdigits e (List.mem_cons_of_mem _ he)
    rw [List.append_assoc, List.singleton_append, digitsValue_concat hd, List.length_append,
      List.length_singleton] at hnext
    have hlt : ds₁.length < 6 := by omega
    rw [← hnext]
    simp [unquoteFrom, hbrace, hd, hlt]

/-- The other bytes of a character are read up to the last, with which it is complete. -/
theorem unquoteFrom_bytes {bs' : List UInt8} {e : List Char}
    (hencode : String.utf8EncodeChar c = bs ++ bs') (hne : bs ≠ []) (hne' : bs' ≠ [])
    (he : ByteCodes bs' e) : unquoteFrom false (.bytes bs) text (e ++ cs) =
      unquoteFrom false .plain (c :: text) cs := by
  induction he generalizing bs with
  | nil => exact absurd rfl hne'
  | @cons d d' b bs' s hb hbs' ih =>
    have hencode' : String.utf8EncodeChar c = bs ++ [b] ++ bs' := by simp [hencode]
    by_cases hlast : bs' = []
    · subst hlast
      cases hbs'
      rw [List.append_nil] at hencode'
      have hc : charOfBytes? (bs ++ [b]) = some c := by
        rw [charOfBytes?_eq_some_iff, hencode']
      simp [unquoteFrom, hb, hc]
    · have hnone := charOfBytes?_of_append hencode' hlast
      have hlength : bs.length < 3 := by
        have hsize := congrArg List.length hencode'
        have hle := c.utf8Size_le_four
        have hpos := List.length_pos_iff.2 hlast
        simp only [String.length_utf8EncodeChar, List.length_append, List.length_singleton] at hsize
        omega
      rw [← ih hencode' (by simp) hlast]
      simp [unquoteFrom, hb, hnone, hlength]

/-- All bytes of a character are read as it. -/
theorem unquoteFrom_byteCodes {e : List Char} (he : ByteCodes (String.utf8EncodeChar c) e) :
    unquoteFrom false .plain text (e ++ cs) = unquoteFrom false .plain (c :: text) cs := by
  generalize hencode : String.utf8EncodeChar c = bs at he
  cases he with
  | nil =>
    have hsize := congrArg List.length hencode
    rw [String.length_utf8EncodeChar] at hsize
    exact absurd hsize c.utf8Size_pos.ne'
  | @cons d d' b bs s hb hbs =>
    by_cases hlast : bs = []
    · subst hlast
      cases hbs
      have hc : charOfBytes? [b] = some c := by rw [charOfBytes?_eq_some_iff, hencode]
      simp [unquoteFrom, hb, hc]
    · have hone : String.utf8EncodeChar c = [b] ++ bs := hencode
      have hnone := charOfBytes?_of_append hone hlast
      rw [← unquoteFrom_bytes hone (by simp) hlast hbs]
      simp [unquoteFrom, hb, hnone]

/-- A code point is read as its character. -/
theorem unquoteFrom_codeDigits {ds : List Char} (hne : ds ≠ []) (hle : ds.length ≤ 6)
    (hdigits : ∀ d ∈ ds, (hexDigit? d).isSome = true) (hvalue : digitsValue 16 ds = c.toNat) :
    unquoteFrom false .plain text ('\\' :: 'u' :: '\x7b' :: ds ++ '\x7d' :: cs) =
      unquoteFrom false .plain (c :: text) cs := by
  have hempty : ([] : List Char).length + ds.length ≤ 6 := by simpa using hle
  have hcode : unquoteFrom false (.code 0 0) text (ds ++ '\x7d' :: cs) =
      unquoteFrom false (.code (digitsValue 16 ds) ds.length) text ('\x7d' :: cs) :=
    unquoteFrom_code hempty hdigits
  rw [hvalue] at hcode
  calc unquoteFrom false .plain text ('\\' :: 'u' :: '\x7b' :: ds ++ '\x7d' :: cs)
      = unquoteFrom false (.code 0 0) text (ds ++ '\x7d' :: cs) := by simp [unquoteFrom]
    _ = unquoteFrom false (.code c.toNat ds.length) text ('\x7d' :: cs) := hcode
    _ = unquoteFrom false .plain (c :: text) cs := by
      simp [unquoteFrom, hne, charOfCode?_toNat]

/-- Characters that write a text are read as it, up to the quotation mark. -/
theorem Quotes.unquoteFrom_eq (h : Quotes t s) :
    unquoteFrom false .plain text (s ++ '"' :: rest) = some (text.reverse ++ t, rest) := by
  induction h generalizing text with
  | nil => simp [unquoteFrom]
  | @plain c t s hquote hslash _ ih =>
    rw [List.cons_append, unquoteFrom_plain hquote hslash, ih]
    simp
  | @letter c d t s hd _ ih =>
    have hx : d ≠ 'x' := by
      rintro rfl
      cases hd
    have hu : d ≠ 'u' := by
      rintro rfl
      cases hd
    have hletter : unquoteFrom false .backslash text (d :: (s ++ '"' :: rest)) =
        unquoteFrom false .plain (c :: text) (s ++ '"' :: rest) := by
      rw [unquoteFrom, hd]
      · exact fun _ _ _ h => absurd h hx
      · exact hu
    rw [List.cons_append, List.cons_append, unquoteFrom, hletter, ih]
    simp
  | @code c ds t s hne hle hdigits hvalue _ ih =>
    have hassoc : '\\' :: 'u' :: '\x7b' :: ds ++ '\x7d' :: s ++ '"' :: rest =
        '\\' :: 'u' :: '\x7b' :: ds ++ '\x7d' :: (s ++ '"' :: rest) := by simp
    rw [hassoc, unquoteFrom_codeDigits hne hle hdigits hvalue, ih]
    simp
  | @bytes c e t s he _ ih =>
    rw [List.append_assoc, unquoteFrom_byteCodes he, ih]
    simp

/-! ## Texts -/

/-- Characters write a text: between quotation marks, or as they stand between marks with the same
count of hashes, the second of which does not occur among them. -/
inductive IsText : String → List Char → Prop
  | quoted {t s : List Char} : Quotes t s → IsText (String.ofList t) ('"' :: s ++ ['"'])
  | raw {t : List Char} (n : Nat) : ¬ '"' :: List.replicate n '#' <:+: t →
      IsText (String.ofList t)
        ('r' :: List.replicate n '#' ++ '"' :: t ++ '"' :: List.replicate n '#')

/-- Hashes stand before a quotation mark as far as they go. -/
theorem hashes_of_append {n : Nat} (h : List.replicate n '#' <+: s ++ '"' :: cs) :
    List.replicate n '#' <+: s := by
  induction n generalizing s with
  | zero => exact List.nil_prefix
  | succ n ih =>
    cases s with
    | nil =>
      rw [List.replicate_succ, List.nil_append, List.cons_prefix_cons] at h
      exact absurd h.1 (by decide)
    | cons c s =>
      rw [List.replicate_succ, List.cons_append, List.cons_prefix_cons] at h
      rw [List.replicate_succ, List.cons_prefix_cons]
      exact ⟨h.1, ih h.2⟩

/-- A raw text ends at the first quotation mark with as many number signs behind it as stand before
it. -/
theorem rawFrom_eq_some_iff {n : Nat} :
    rawFrom (List.replicate n '#') text cs = some (t, rest) ↔
      ∃ u, t = text.reverse ++ u ∧ cs = u ++ '"' :: (List.replicate n '#' ++ rest) ∧
        ¬ '"' :: List.replicate n '#' <:+: u := by
  induction cs generalizing text with
  | nil => simp [rawFrom]
  | cons c cs ih =>
    rw [rawFrom]
    split
    case isTrue hclose =>
      obtain ⟨rfl, hprefix⟩ : c = '"' ∧ List.replicate n '#' <+: cs := by simpa using hclose
      obtain ⟨cs, rfl⟩ := hprefix
      rw [List.drop_left]
      constructor
      · intro h
        cases h
        exact ⟨[], by simp, rfl, by simp⟩
      · rintro ⟨u, rfl, heq, hnot⟩
        cases u with
        | nil =>
          obtain rfl : cs = rest := by simpa using heq
          simp
        | cons d u =>
          -- A longer text would contain the marks that end it.
          obtain rfl : '"' = d := (List.cons.inj heq).1
          have hhashes : List.replicate n '#' <+: u :=
            hashes_of_append ⟨cs, (List.cons.inj heq).2⟩
          exact absurd (List.cons_prefix_cons.2 ⟨rfl, hhashes⟩).isInfix hnot
    case isFalse hopen =>
      have hopen : ¬ (c = '"' ∧ List.replicate n '#' <+: cs) := by simpa using hopen
      rw [ih]
      constructor
      · rintro ⟨u, rfl, rfl, hnot⟩
        refine ⟨c :: u, by simp, rfl, fun hinfix => ?_⟩
        rcases List.infix_cons_iff.1 hinfix with hprefix | hinfix
        · obtain ⟨rfl, hhashes⟩ := List.cons_prefix_cons.1 hprefix
          exact hopen ⟨rfl, hhashes.trans (List.prefix_append _ _)⟩
        · exact hnot hinfix
      · rintro ⟨u, rfl, heq, hnot⟩
        cases u with
        | nil =>
          obtain ⟨rfl, rfl⟩ := List.cons.inj heq
          exact absurd ⟨rfl, List.prefix_append _ _⟩ hopen
        | cons d u =>
          obtain ⟨rfl, rfl⟩ := List.cons.inj heq
          exact ⟨u, by simp, rfl, fun hinfix => hnot (List.infix_cons_iff.2 (.inr hinfix))⟩

/-- The marks of characters that stand as they are have the same count of hashes. -/
theorem raw_eq_some_iff : raw cs = some (t, rest) ↔
    ∃ n, cs = List.replicate n '#' ++ '"' :: (t ++ '"' :: (List.replicate n '#' ++ rest)) ∧
      ¬ '"' :: List.replicate n '#' <:+: t := by
  obtain ⟨hsplit, hall, -⟩ := span_spec (· = '#') cs
  constructor
  · intro h
    rw [raw] at h
    split at h
    case h_1 cs' hdrop =>
      obtain ⟨n, hhashes⟩ : ∃ n, cs.takeWhile (· = '#') = List.replicate n '#' :=
        ⟨_, List.eq_replicate_of_mem fun c hc => by simpa using hall c hc⟩
      rw [hhashes] at h
      obtain ⟨u, rfl, rfl, hnot⟩ := rawFrom_eq_some_iff.1 h
      rw [hhashes, hdrop] at hsplit
      exact ⟨n, hsplit, hnot⟩
    case h_2 => cases h
  · rintro ⟨n, rfl, hnot⟩
    have hmem : ∀ c ∈ List.replicate n '#', decide (c = '#') = true := fun c hc =>
      decide_eq_true (List.eq_of_mem_replicate hc)
    rw [raw, takeWhile_append_of_stop hmem rfl, dropWhile_append_of_stop hmem rfl]
    exact rawFrom_eq_some_iff.2 ⟨t, rfl, rfl, hnot⟩

/-- **Texts.** The reader of texts reads what the characters before the rest write. -/
theorem text_eq_some_iff {t : String} :
    Record.text cs = some (t, rest) ↔ ∃ s, cs = s ++ rest ∧ IsText t s := by
  constructor
  · intro h
    unfold Record.text at h
    split at h
    case h_1 cs =>
      obtain ⟨⟨t, rest⟩, hread, heq⟩ := Option.map_eq_some_iff.1 h
      cases heq
      obtain ⟨u, s, rfl, rfl, hquotes⟩ := completes_of_unquoteFrom (q := .plain) rfl hread
      exact ⟨_, by simp, .quoted hquotes⟩
    case h_2 cs =>
      obtain ⟨⟨t, rest⟩, hread, heq⟩ := Option.map_eq_some_iff.1 h
      cases heq
      obtain ⟨n, rfl, hnot⟩ := raw_eq_some_iff.1 hread
      exact ⟨_, by simp, .raw n hnot⟩
    case h_3 => cases h
  · rintro ⟨s, rfl, hs⟩
    cases hs with
    | @quoted t s hquotes =>
      have hread : unquoteFrom false .plain [] (s ++ '"' :: rest) = some (t, rest) :=
        hquotes.unquoteFrom_eq
      simp [Record.text, hread]
    | @raw t n hnot =>
      have hread :
          raw (List.replicate n '#' ++ '"' :: (t ++ '"' :: (List.replicate n '#' ++ rest))) =
            some (t, rest) := raw_eq_some_iff.2 ⟨n, rfl, hnot⟩
      simp [Record.text, hread]

end CurveArea.Record
