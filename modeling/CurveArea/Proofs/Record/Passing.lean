import CurveArea.Proofs.Record.Figures
import CurveArea.Record.Value

/-!
# Values that are passed over

The value of an unknown field has to be well formed, whatever it is. `Passes` tells which values
are, form by form, with no bound on the steps; the reader finds the end of exactly those
(`passValue_eq_some_iff`), since it has more fuel than it can use: four steps for each character.
-/

namespace CurveArea.Record

variable {w : Wrapping} {c : Char} {cs inner mid rest : List Char}

/-! ## Well-formed values -/

/-- What is passed over. -/
inductive Form
  /-- A value. -/
  | value
  /-- What follows the word `Some`. -/
  | option
  /-- A value and the parenthesis that closes it. -/
  | wrapped
  /-- Parts up to a closing bracket. -/
  | parts (p : Parts) (close : Char)
  /-- One of the parts, with the gap after it. -/
  | part (p : Parts)

/-- A name stands at the beginning that is none of the words with a meaning of their own. -/
def NewName (cs rest : List Char) : Prop :=
  (∃ n, LongestName n cs rest) ∧ ∀ v ∈ "Some" :: valueWords, ∀ rest', ¬ Word v cs rest'

/-- A form stands at the beginning of some characters, and the rest follows it. `room` is how much
deeper a value may lie. -/
inductive Passes (w : Wrapping) : Form → (room : Nat) → (cs rest : List Char) → Prop
  -- values
  | word {room : Nat} {v : String} {cs rest : List Char} : v ∈ valueWords → Word v cs rest →
      Passes w .value room cs rest
  | some {room : Nat} {cs mid rest : List Char} : Word "Some" cs mid →
      Passes w .option room mid rest → Passes w .value room cs rest
  | unit {room : Nat} {rest : List Char} : Passes w .value room ('(' :: ')' :: rest) rest
  | name {room : Nat} {cs mid rest : List Char} : NewName cs mid → Spaced mid rest →
      rest.head? ≠ some '(' → Passes w .value room cs rest
  | named {room : Nat} {cs mid inner ds rest : List Char} : NewName cs mid →
      Spaced mid ('(' :: inner) → Spaced inner ds →
      Passes w (.parts (partsIn ds) ')') room ds rest → Passes w .value room cs rest
  | parens {room : Nat} {inner ds rest : List Char} : inner.head? ≠ some ')' → Spaced inner ds →
      Passes w (.parts (partsIn ds) ')') room ds rest → Passes w .value room ('(' :: inner) rest
  | brackets {room : Nat} {inner ds rest : List Char} : Spaced inner ds →
      Passes w (.parts .values ']') room ds rest → Passes w .value room ('[' :: inner) rest
  | braces {room : Nat} {inner ds rest : List Char} : Spaced inner ds →
      Passes w (.parts .entries '\x7d') room ds rest → Passes w .value room ('\x7b' :: inner) rest
  | text {room : Nat} {t : String} {s rest : List Char} : IsText t s →
      Passes w .value room (s ++ rest) rest
  | char {room : Nat} {cs rest : List Char} : passChar cs = some rest →
      Passes w .value room cs rest
  | byte {room : Nat} {cs rest : List Char} : passByte cs = some rest →
      Passes w .value room cs rest
  | bytes {room : Nat} {cs rest : List Char} : passBytes cs = some rest →
      Passes w .value room cs rest
  | number {room : Nat} {c : Char} {cs rest : List Char} : Text.isNameStart c = false →
      c ∉ ['(', '[', '\x7b', '"', '\''] → passNumber (c :: cs) = some rest →
      Passes w .value room (c :: cs) rest
  -- what follows the word `Some`
  | bare {room : Nat} {cs ds rest : List Char} : w.bare = true → Spaced cs ds →
      ds.head? ≠ some '(' → Passes w .value room ds rest → Passes w .option (room + 1) cs rest
  | wrap {room : Nat} {cs inner ds rest : List Char} : Spaced cs ('(' :: inner) → Spaced inner ds →
      (w.unwraps = true → ds.head? ≠ some ')' ∧ unwrapped ds = some none) →
      Passes w .wrapped room ds rest → Passes w .option (room + 1) cs rest
  | unwrapEmpty {room : Nat} {cs inner rest : List Char} : w.unwraps = true →
      Spaced cs ('(' :: inner) → Spaced inner (')' :: rest) → Passes w .option (room + 1) cs rest
  | unwrap {room : Nat} {p : Parts} {cs inner ds rest : List Char} : w.unwraps = true →
      Spaced cs ('(' :: inner) → Spaced inner ds → ds.head? ≠ some ')' →
      unwrapped ds = some (some p) → Passes w (.parts p ')') room ds rest →
      Passes w .option (room + 1) cs rest
  | wrapped {room : Nat} {cs mid rest : List Char} : Passes w .value room cs mid →
      Spaced mid (')' :: rest) → Passes w .wrapped room cs rest
  | wrappedComma {room : Nat} {cs mid ds rest : List Char} : Passes w .value room cs mid →
      Spaced mid (',' :: ds) → Spaced ds (')' :: rest) → Passes w .wrapped room cs rest
  -- parts
  | close {room : Nat} {p : Parts} {close : Char} {rest : List Char} :
      Passes w (.parts p close) (room + 1) (close :: rest) rest
  | last {room : Nat} {p : Parts} {close : Char} {cs rest : List Char} : cs.head? ≠ some close →
      close ≠ ',' → Passes w (.part p) room cs (close :: rest) →
      Passes w (.parts p close) (room + 2) cs rest
  | more {room : Nat} {p : Parts} {close : Char} {cs mid ds rest : List Char} :
      cs.head? ≠ some close → Passes w (.part p) room cs (',' :: mid) → Spaced mid ds →
      Passes w (.parts p close) (room + 2) ds rest → Passes w (.parts p close) (room + 2) cs rest
  | one {room : Nat} {cs mid rest : List Char} : Passes w .value room cs mid → Spaced mid rest →
      Passes w (.part .values) room cs rest
  | field {room : Nat} {n : String} {cs ds es fs mid rest : List Char} : Named n cs ds →
      Spaced ds (':' :: es) → Spaced es fs → Passes w .value room fs mid → Spaced mid rest →
      Passes w (.part .fields) room cs rest
  | entry {room : Nat} {cs ds es fs mid rest : List Char} : Passes w .value room cs ds →
      Spaced ds (':' :: es) → Spaced es fs → Passes w .value room fs mid → Spaced mid rest →
      Passes w (.part .entries) room cs rest

/-! ## Parts -/

/-- Passes over one of some parts and the gap after it. -/
def passPart (w : Wrapping) (fuel room : Nat) (cs : List Char) : Parts → Option (List Char)
  | .values => (passValue w fuel room cs).bind skip
  | .fields => (name cs).bind fun (_, rest) => (skip rest).bind fun rest =>
      (mark ":" rest).bind fun rest => (passValue w fuel room rest).bind skip
  | .entries => (passValue w fuel room cs).bind fun rest => (skip rest).bind fun rest =>
      (mark ":" rest).bind fun rest => (passValue w fuel room rest).bind skip

/-- After a part there is a comma, or the bracket that closes the parts. -/
theorem passParts_cons (w : Wrapping) (fuel room : Nat) (p : Parts) (close : Char) (c : Char)
    (cs : List Char) : passParts w (fuel + 1) (room + 2) p close (c :: cs) =
      if c = close then some cs
      else (passPart w fuel room (c :: cs) p).bind fun rest =>
        match rest with
        | ',' :: rest => (skip rest).bind fun rest => passParts w fuel (room + 2) p close rest
        | c :: rest => if c = close then some rest else none
        | [] => none := by
  rw [passParts]
  cases p <;> simp only [passPart, Option.bind_eq_bind, Option.bind_map, Option.bind_assoc] <;> rfl

/-- There may be no part: the closing bracket comes at once. -/
theorem passParts_close (fuel room : Nat) (p : Parts) (close : Char) :
    passParts w (fuel + 1) (room + 1) p close (close :: rest) = some rest := by
  unfold passParts
  exact if_pos rfl

/-- Before the closing bracket there is a part. -/
theorem passParts_of_open {close : Char} (hhead : cs.head? ≠ some close) (hne : cs ≠ [])
    (fuel room : Nat) (p : Parts) : passParts w (fuel + 1) (room + 2) p close cs =
      (passPart w fuel room cs p).bind fun rest =>
        match rest with
        | ',' :: rest => (skip rest).bind fun rest => passParts w fuel (room + 2) p close rest
        | c :: rest => if c = close then some rest else none
        | [] => none := by
  obtain ⟨c, cs, rfl⟩ := List.exists_cons_of_ne_nil hne
  have hc : c ≠ close := by simpa using hhead
  rw [passParts_cons, if_neg hc]

/-- The last part has the closing bracket behind it, which no comma may be. -/
theorem passParts_last {fuel room : Nat} {p : Parts} {close : Char} (hhead : cs.head? ≠ some close)
    (hne : cs ≠ []) (hclose : close ≠ ',') (h : passPart w fuel room cs p = some (close :: rest)) :
    passParts w (fuel + 1) (room + 2) p close cs = some rest := by
  rw [passParts_of_open hhead hne, h, Option.bind_some]
  split
  case h_1 heq => exact absurd (List.cons.inj heq).1 hclose
  case h_2 heq =>
    cases heq
    exact if_pos rfl
  case h_3 heq => cases heq

/-- After a part with a comma behind it the reader goes on with the others, at the same depth. -/
theorem passParts_more {fuel room : Nat} {p : Parts} {close : Char} {ds : List Char}
    (hhead : cs.head? ≠ some close) (hne : cs ≠ [])
    (h : passPart w fuel room cs p = some (',' :: mid)) (hspaced : Spaced mid ds) :
    passParts w (fuel + 1) (room + 2) p close cs = passParts w fuel (room + 2) p close ds := by
  rw [passParts_of_open hhead hne, h, Option.bind_some]
  show (skip mid).bind _ = _
  rw [skip_eq_some_iff.2 hspaced, Option.bind_some]

/-! ## Values without a word -/

/-- Passes over what follows a name: a gap and, perhaps, parts in parentheses. -/
def passNamed (w : Wrapping) (fuel room : Nat) (cs : List Char) : Option (List Char) :=
  (skip cs).bind fun rest =>
    match rest with
    | '(' :: inner => passInside w fuel room inner
    | rest => some rest

/-- Passes over a value that begins with no name. -/
def passMarked (w : Wrapping) (fuel room : Nat) (cs : List Char) : Option (List Char) :=
  match cs with
  | '(' :: inner => passInside w fuel room inner
  | '[' :: inner => (skip inner).bind (passParts w fuel room .values ']')
  | '\x7b' :: inner => (skip inner).bind (passParts w fuel room .entries '\x7d')
  | '"' :: _ => (text cs).map (·.2)
  | 'r' :: _ => (text cs).map (·.2)
  | '\'' :: _ => passChar cs
  | 'b' :: '\'' :: _ => passByte cs
  | 'b' :: _ => passBytes cs
  | cs => passNumber cs

/-- Where no word stands, there is the unit, a name, or what a mark or a figure begins. -/
theorem passValue_of_wordless (h : ∀ v ∈ "Some" :: valueWords, word v cs = none)
    (fuel room : Nat) : passValue w (fuel + 1) room cs =
      match expect "()" cs with
      | some rest => some rest
      | none =>
        match longestName cs with
        | some (_, rest) => passNamed w fuel room rest
        | none => passMarked w fuel room cs := by
  have hwords : (valueWords.findSome? fun v => word v cs) = none :=
    List.findSome?_eq_none_iff.2 fun v hv => h v (List.mem_cons_of_mem _ hv)
  unfold passValue
  rw [hwords, h "Some" List.mem_cons_self]
  rfl

/-! ## What the reader accepts -/

/-- With some fuel, the reader accepts well-formed values only. -/
structure Sound (w : Wrapping) (fuel : Nat) : Prop where
  /-- Values are. -/
  value {room : Nat} {cs rest : List Char} : passValue w fuel room cs = some rest →
    Passes w .value room cs rest
  /-- What follows the word `Some` is. -/
  option {room : Nat} {cs rest : List Char} : passOption w fuel room cs = some rest →
    Passes w .option room cs rest
  /-- Values with the parenthesis after them are. -/
  wrapped {room : Nat} {cs rest : List Char} : passWrapped w fuel room cs = some rest →
    Passes w .wrapped room cs rest
  /-- Parts in parentheses are. -/
  inside {room : Nat} {cs rest : List Char} : passInside w fuel room cs = some rest →
    ∃ ds, Spaced cs ds ∧ Passes w (.parts (partsIn ds) ')') room ds rest
  /-- Parts up to a closing bracket are. -/
  parts {room : Nat} {p : Parts} {close : Char} {cs rest : List Char} :
    passParts w fuel room p close cs = some rest → Passes w (.parts p close) room cs rest

/-- Two parentheses with nothing between them are passed over as one mark. -/
theorem expect_unit (cs : List Char) : expect "()" ('(' :: ')' :: cs) = some cs :=
  expect_eq_some_iff.2 rfl

/-- Where no name begins, none could begin. -/
theorem isNameStart_eq_false (h : longestName (c :: cs) = none) (hb : c ≠ 'b') (hr : c ≠ 'r') :
    Text.isNameStart c = false := by
  rw [longestName, beginsText_eq_false hb hr] at h
  · simpa using h
  · exact fun _ hc _ => hr hc

/-- Behind a new name there are parts in parentheses, or the value is the name alone. -/
theorem Sound.named {fuel room : Nat} (ih : Sound w fuel) (hnew : NewName cs mid)
    (h : passNamed w fuel room mid = some rest) : Passes w .value room cs rest := by
  obtain ⟨ds, hskip, h⟩ := Option.bind_eq_some_iff.1 h
  have hspaced := skip_eq_some_iff.1 hskip
  split at h
  case h_1 inner =>
    obtain ⟨es, hinner, hparts⟩ := ih.inside h
    exact .named hnew hspaced hinner hparts
  case h_2 ds hopen =>
    cases h
    refine .name hnew hspaced fun hhead => ?_
    obtain ⟨es, rfl⟩ := List.head?_eq_some_iff.1 hhead
    exact hopen es rfl

/-- A value that begins with no name is known by its first character. -/
theorem Sound.marked {fuel room : Nat} (ih : Sound w fuel) (hname : longestName cs = none)
    (hunit : expect "()" cs = none) (h : passMarked w fuel room cs = some rest) :
    Passes w .value room cs rest := by
  unfold passMarked at h
  split at h
  case h_1 inner =>
    obtain ⟨ds, hinner, hparts⟩ := ih.inside h
    refine .parens (fun hhead => ?_) hinner hparts
    obtain ⟨es, rfl⟩ := List.head?_eq_some_iff.1 hhead
    rw [expect_unit] at hunit
    cases hunit
  case h_2 inner =>
    obtain ⟨ds, hskip, h⟩ := Option.bind_eq_some_iff.1 h
    exact .brackets (skip_eq_some_iff.1 hskip) (ih.parts h)
  case h_3 inner =>
    obtain ⟨ds, hskip, h⟩ := Option.bind_eq_some_iff.1 h
    exact .braces (skip_eq_some_iff.1 hskip) (ih.parts h)
  case h_4 | h_5 =>
    obtain ⟨⟨t, rest'⟩, htext, rfl⟩ := Option.map_eq_some_iff.1 h
    obtain ⟨s, hs, ht⟩ := text_eq_some_iff.1 htext
    rw [hs]
    exact .text ht
  case h_6 => exact .char h
  case h_7 => exact .byte h
  case h_8 => exact .bytes h
  case h_9 hparen hbracket hbrace hquote hr hchar _ hb =>
    cases cs with
    | nil => cases h
    | cons c cs =>
      have hne : ∀ d : Char, (∀ ds, c :: cs = d :: ds → False) → c ≠ d := fun d hd hc =>
        hd cs (by rw [hc])
      refine .number (isNameStart_eq_false hname (hne _ hb) (hne _ hr)) ?_ h
      simp [hne _ hparen, hne _ hbracket, hne _ hbrace, hne _ hquote, hne _ hchar]

/-- A value is a word with a meaning, what follows `Some`, the empty value, one that begins with a
new name, or one known by its first character. -/
theorem Sound.value_succ {fuel room : Nat} (ih : Sound w fuel)
    (h : passValue w (fuel + 1) room cs = some rest) : Passes w .value room cs rest := by
  by_cases hwords : ∀ v ∈ "Some" :: valueWords, word v cs = none
  case pos =>
    rw [passValue_of_wordless hwords] at h
    split at h
    case h_1 rest' hunit =>
      cases h
      rw [expect_eq_some_iff.1 hunit]
      exact .unit
    case h_2 hunit =>
      split at h
      case h_1 n mid hname =>
        refine ih.named ⟨⟨n, longestName_eq_some_iff.1 hname⟩, fun v hv rest' hword => ?_⟩ h
        have hword := word_eq_some_iff.2 hword
        rw [hwords v hv] at hword
        cases hword
      case h_2 hname => exact ih.marked hname hunit h
  case neg =>
    unfold passValue at h
    split at h
    case h_1 rest' hword =>
      cases h
      obtain ⟨v, hv, hword⟩ := List.exists_of_findSome?_eq_some hword
      exact .word hv (word_eq_some_iff.1 hword)
    case h_2 hnone =>
      split at h
      case h_1 mid hword => exact .some (word_eq_some_iff.1 hword) (ih.option h)
      case h_2 hsome =>
        have hall : ∀ v ∈ "Some" :: valueWords, word v cs = none :=
          List.forall_mem_cons.2 ⟨hsome, List.findSome?_eq_none_iff.1 hnone⟩
        exact absurd hall hwords

/-- Behind the word `Some` stands a bare value, a value in parentheses, or its parts in these same
parentheses: each only where the record allows it, and one level deeper. -/
theorem Sound.option_succ {fuel room : Nat} (ih : Sound w fuel)
    (h : passOption w (fuel + 1) room cs = some rest) : Passes w .option room cs rest := by
  cases room with
  | zero =>
    unfold passOption at h
    cases h
  | succ room =>
    unfold passOption at h
    obtain ⟨ds, hskip, h⟩ := Option.bind_eq_some_iff.1 h
    have hspaced := skip_eq_some_iff.1 hskip
    split at h
    case h_1 inner =>
      obtain ⟨es, hskip, h⟩ := Option.bind_eq_some_iff.1 h
      have hinner := skip_eq_some_iff.1 hskip
      split at h
      case isTrue hunwraps =>
        split at h
        case isTrue hempty =>
          rw [expect_eq_some_iff.1 h] at hinner
          exact .unwrapEmpty hunwraps hspaced hinner
        case isFalse hne =>
          obtain ⟨p, hunwrapped, h⟩ := Option.bind_eq_some_iff.1 h
          cases p with
          | some p => exact .unwrap hunwraps hspaced hinner hne hunwrapped (ih.parts h)
          | none => exact .wrap hspaced hinner (fun _ => ⟨hne, hunwrapped⟩) (ih.wrapped h)
      case isFalse hunwraps =>
        exact .wrap hspaced hinner (fun h => absurd h hunwraps) (ih.wrapped h)
    case h_2 hopen =>
      split at h
      case isTrue hbare =>
        refine .bare hbare hspaced (fun hhead => ?_) (ih.value h)
        obtain ⟨es, rfl⟩ := List.head?_eq_some_iff.1 hhead
        exact hopen es rfl
      case isFalse => cases h

/-- A value in parentheses may have a comma behind it. -/
theorem Sound.wrapped_succ {fuel room : Nat} (ih : Sound w fuel)
    (h : passWrapped w (fuel + 1) room cs = some rest) : Passes w .wrapped room cs rest := by
  unfold passWrapped at h
  obtain ⟨mid, hvalue, h⟩ := Option.bind_eq_some_iff.1 h
  obtain ⟨ds, hskip, h⟩ := Option.bind_eq_some_iff.1 h
  have hspaced := skip_eq_some_iff.1 hskip
  split at h
  case h_1 es =>
    obtain ⟨fs, hskip, h⟩ := Option.bind_eq_some_iff.1 h
    have hspaced' := skip_eq_some_iff.1 hskip
    rw [expect_eq_some_iff.1 h] at hspaced'
    exact .wrappedComma (ih.value hvalue) hspaced hspaced'
  case h_2 =>
    obtain ⟨fs, heq, h⟩ := Option.bind_eq_some_iff.1 h
    cases heq
    rw [expect_eq_some_iff.1 h] at hspaced
    exact .wrapped (ih.value hvalue) hspaced

/-- In parentheses, the blanks are passed over before one tells which parts follow. -/
theorem Sound.inside_succ {fuel room : Nat} (ih : Sound w fuel)
    (h : passInside w (fuel + 1) room cs = some rest) :
    ∃ ds, Spaced cs ds ∧ Passes w (.parts (partsIn ds) ')') room ds rest := by
  unfold passInside at h
  obtain ⟨ds, hskip, h⟩ := Option.bind_eq_some_iff.1 h
  exact ⟨ds, skip_eq_some_iff.1 hskip, ih.parts h⟩

/-- A part is a value, a field, or an entry with its key, and the blanks after it. -/
theorem Sound.part {fuel room : Nat} {p : Parts} (ih : Sound w fuel)
    (h : passPart w fuel room cs p = some rest) : Passes w (.part p) room cs rest := by
  cases p with
  | values =>
    obtain ⟨mid, hvalue, hskip⟩ := Option.bind_eq_some_iff.1 h
    exact .one (ih.value hvalue) (skip_eq_some_iff.1 hskip)
  | fields =>
    obtain ⟨⟨n, ds⟩, hname, h⟩ := Option.bind_eq_some_iff.1 h
    obtain ⟨es, hskip, h⟩ := Option.bind_eq_some_iff.1 h
    obtain ⟨fs, hmark, h⟩ := Option.bind_eq_some_iff.1 h
    obtain ⟨mid, hvalue, hend⟩ := Option.bind_eq_some_iff.1 h
    obtain ⟨es, rfl, hspaced⟩ := mark_eq_some_iff.1 hmark
    exact .field (name_eq_some_iff.1 hname) (skip_eq_some_iff.1 hskip) hspaced (ih.value hvalue)
      (skip_eq_some_iff.1 hend)
  | entries =>
    obtain ⟨ds, hkey, h⟩ := Option.bind_eq_some_iff.1 h
    obtain ⟨es, hskip, h⟩ := Option.bind_eq_some_iff.1 h
    obtain ⟨fs, hmark, h⟩ := Option.bind_eq_some_iff.1 h
    obtain ⟨mid, hvalue, hend⟩ := Option.bind_eq_some_iff.1 h
    obtain ⟨es, rfl, hspaced⟩ := mark_eq_some_iff.1 hmark
    exact .entry (ih.value hkey) (skip_eq_some_iff.1 hskip) hspaced (ih.value hvalue)
      (skip_eq_some_iff.1 hend)

/-- Parts end at once, after the last of them, or go on after a comma. -/
theorem Sound.parts_succ {fuel room : Nat} {p : Parts} {close : Char} (ih : Sound w fuel)
    (h : passParts w (fuel + 1) room p close cs = some rest) :
    Passes w (.parts p close) room cs rest := by
  match room, cs with
  | 0, cs => simp [passParts] at h
  | room + 1, [] => simp [passParts] at h
  | 1, c :: cs =>
    rw [passParts] at h
    split at h
    case isTrue hclose =>
      cases h
      rw [hclose]
      exact .close
    case isFalse => cases h
  | room + 2, c :: cs =>
    rw [passParts_cons] at h
    split at h
    case isTrue hclose =>
      cases h
      rw [hclose]
      exact .close
    case isFalse hopen =>
      have hhead : (c :: cs).head? ≠ some close := by simpa using hopen
      obtain ⟨mid, hpart, h⟩ := Option.bind_eq_some_iff.1 h
      have hpart := ih.part hpart
      split at h
      case h_1 mid =>
        obtain ⟨ds, hskip, h⟩ := Option.bind_eq_some_iff.1 h
        exact .more hhead hpart (skip_eq_some_iff.1 hskip) (ih.parts h)
      case h_2 d _ hcomma _ =>
        split at h
        case isTrue hclose =>
          cases h
          subst hclose
          exact .last hhead hcomma hpart
        case isFalse => cases h
      case h_3 => cases h

/-- The reader accepts well-formed values only, whatever the fuel. -/
theorem sound (w : Wrapping) (fuel : Nat) : Sound w fuel := by
  induction fuel with
  | zero =>
    constructor
    case value => exact fun h => by unfold passValue at h; cases h
    case option => exact fun h => by unfold passOption at h; cases h
    case wrapped => exact fun h => by unfold passWrapped at h; cases h
    case inside => exact fun h => by unfold passInside at h; cases h
    case parts => exact fun h => by unfold passParts at h; cases h
  | succ fuel ih =>
    exact ⟨ih.value_succ, ih.option_succ, ih.wrapped_succ, ih.inside_succ, ih.parts_succ⟩

/-! ## Lengths -/

/-- The reader of quoted characters leaves no more than it is given, wherever it is. -/
theorem length_le_of_unquoteFrom {binary : Bool} {q : Quoting} {text t : List Char}
    (h : unquoteFrom binary q text cs = some (t, rest)) : rest.length ≤ cs.length := by
  fun_induction unquoteFrom binary q text cs
  case case1 =>
    cases h
    exact Nat.le_succ _
  case case4 | case10 | case13 | case15 | case16 | case17 | case20 | case21 => cases h
  all_goals
    rename_i ih
    have hle := ih h
    simp only [List.length_cons]
    omega

/-- No more characters are left behind a raw text than before it. -/
theorem length_le_of_raw {t : List Char} (h : raw cs = some (t, rest)) :
    rest.length ≤ cs.length := by
  obtain ⟨n, rfl, -⟩ := raw_eq_some_iff.1 h
  simp only [List.length_append, List.length_cons]
  omega

/-- No more characters are left behind quoted bytes than before them. -/
theorem length_le_of_passBytes (h : passBytes cs = some rest) : rest.length ≤ cs.length := by
  unfold passBytes at h
  split at h
  case h_1 =>
    obtain ⟨⟨t, rest'⟩, hread, rfl⟩ := Option.map_eq_some_iff.1 h
    have hle := length_le_of_unquoteFrom hread
    simp only [List.length_cons]
    omega
  case h_2 =>
    obtain ⟨⟨t, rest'⟩, hread, rfl⟩ := Option.map_eq_some_iff.1 h
    have hle := length_le_of_raw hread
    simp only [List.length_cons]
    omega
  case h_3 => cases h

/-- No more characters are left behind a character than before it. -/
theorem length_le_of_passChar (h : passChar cs = some rest) : rest.length ≤ cs.length := by
  unfold passChar at h
  split at h
  case h_1 =>
    obtain ⟨b, -, h⟩ := Option.bind_eq_some_iff.1 h
    split at h
    case isTrue =>
      cases h
      simp only [List.length_cons]
      omega
    case isFalse => cases h
  case h_2 cs =>
    obtain ⟨⟨t, ds⟩, -, h⟩ := Option.bind_eq_some_iff.1 h
    dsimp only at h
    split at h
    case isTrue =>
      have hlength := congrArg List.length (expect_eq_some_iff.1 h)
      have hdrop := (List.dropWhile_sublist (p := (· ≠ '\'')) (l := cs)).length_le
      rw [List.length_append] at hlength
      simp only [List.length_cons]
      omega
    case isFalse => cases h
  case h_3 =>
    obtain ⟨d, -, rfl⟩ := Option.map_eq_some_iff.1 h
    simp only [List.length_cons]
    omega
  case h_4 =>
    split at h
    case isTrue => cases h
    case isFalse =>
      cases h
      simp only [List.length_cons]
      omega
  case h_5 => cases h

/-- No more characters are left behind a byte than before it. -/
theorem length_le_of_passByte (h : passByte cs = some rest) : rest.length ≤ cs.length := by
  unfold passByte at h
  split at h
  case h_1 | h_2 =>
    obtain ⟨d, -, rfl⟩ := Option.map_eq_some_iff.1 h
    simp only [List.length_cons]
    omega
  case h_3 =>
    split at h
    case isTrue => cases h
    case isFalse =>
      cases h
      simp only [List.length_cons]
      omega
  case h_4 => cases h

/-- No more characters are left behind a word than before it. -/
theorem Word.length_le {v : String} (h : Word v cs rest) : rest.length ≤ cs.length := by
  rw [h.1, List.length_append]
  omega

/-- A sign is a character that is taken, or there is none. -/
theorem length_spanSign_le (cs : List Char) :
    (Decimal.Literal.spanSign cs).2.length ≤ cs.length := by
  obtain ⟨sign, -, hcs⟩ := sign_of_spanSign cs
  have hlength := congrArg List.length hcs
  rw [List.length_append] at hlength
  omega

/-- No more characters are left behind a whole number than before it, its type included. -/
theorem length_le_of_whole {n : Whole} (h : whole cs = some (n, rest)) :
    rest.length ≤ cs.length := by
  rw [whole_eq] at h
  obtain ⟨⟨m, mid⟩, hmagnitude, h⟩ := Option.map_eq_some_iff.1 h
  have hsign := length_spanSign_le cs
  dsimp only at h
  split at h
  case h_1 k afterName hnamed =>
    cases h
    have hdrop := (List.dropWhile_sublist (p := isWholeChar)
      (l := (Decimal.Literal.spanSign cs).2)).length_le
    rw [(of_kindNamed?_eq_some hnamed).2, List.length_append] at hdrop
    omega
  case h_2 =>
    cases h
    obtain ⟨base, ds, hbase, -, -, -⟩ := magnitude_eq_some_iff.1 hmagnitude
    obtain ⟨mark, -, hcs⟩ := baseMark_of_wholeBase (Decimal.Literal.spanSign cs).2
    have hlength := congrArg List.length hcs
    rw [hbase, List.length_append, List.length_append] at hlength
    omega

/-- No more characters are left behind a figure than before it, its type included. -/
theorem length_le_of_figure {f : String × Option Nat} (h : figure cs = some (f, rest)) :
    rest.length ≤ cs.length := by
  cases hnamed : named? numberNames cs with
  | some g =>
    obtain ⟨g, rest'⟩ := g
    cases h.symm.trans (figure_of_named hnamed)
    obtain ⟨-, suffix, -, hword⟩ := named?_eq_some_iff.1 hnamed
    exact (word_eq_some_iff.1 hword).length_le
  | none =>
    rw [figure_of_unnamed hnamed] at h
    have hdrop := (List.dropWhile_sublist (p := isNumberChar) (l := cs)).length_le
    obtain ⟨lit, -, h⟩ := Option.bind_eq_some_iff.1 h
    obtain ⟨l, -, h⟩ := Option.bind_eq_some_iff.1 h
    split at h
    case h_1 hword =>
      cases h
      exact (word_eq_some_iff.1 hword).length_le.trans hdrop
    case h_2 hword =>
      cases h
      exact (word_eq_some_iff.1 hword).length_le.trans hdrop
    case h_3 =>
      cases h
      exact hdrop

/-- No more characters are left behind a number that is passed over than before it. -/
theorem length_le_of_passNumber (h : passNumber cs = some rest) : rest.length ≤ cs.length := by
  have hfigure : ∀ rest, (figure cs).map (·.2) = some rest → rest.length ≤ cs.length := by
    intro rest h
    obtain ⟨f, hfigure, rfl⟩ := Option.map_eq_some_iff.1 h
    exact length_le_of_figure hfigure
  rw [passNumber] at h
  split at h
  case isTrue => exact hfigure rest h
  case isFalse =>
    rcases Option.or_eq_some_iff.1 h with h | ⟨-, h⟩
    · obtain ⟨⟨n, rest'⟩, hwhole, h⟩ := Option.bind_eq_some_iff.1 h
      dsimp only at h
      split at h
      case isTrue =>
        cases h
        exact length_le_of_whole hwhole
      case isFalse => cases h
    · exact hfigure rest h

/-- A new name has a character. -/
theorem NewName.length_lt (h : NewName cs rest) : rest.length < cs.length := by
  obtain ⟨⟨n, hname⟩, -⟩ := h
  exact hname.length_lt

/-- What is left is no longer than what there was. -/
theorem Passes.length_le {f : Form} {room : Nat} (h : Passes w f room cs rest) :
    rest.length ≤ cs.length := by
  induction h with
  | word _ hword => exact hword.length_le
  | some hword _ ih => exact ih.trans hword.length_le
  | unit | close =>
    simp only [List.length_cons]
    omega
  | name hname hspaced => exact hspaced.length_le.trans hname.length_lt.le
  | named hname hspaced hinner _ ih =>
    have hlt := hname.length_lt
    have hle' := hspaced.length_le
    have hle'' := hinner.length_le
    simp only [List.length_cons] at hle'
    omega
  | parens _ hinner _ ih | brackets hinner _ ih | braces hinner _ ih =>
    have hle := hinner.length_le
    simp only [List.length_cons]
    omega
  | text =>
    simp only [List.length_append]
    omega
  | char h => exact length_le_of_passChar h
  | byte h => exact length_le_of_passByte h
  | bytes h => exact length_le_of_passBytes h
  | number _ _ h => exact length_le_of_passNumber h
  | bare _ hspaced _ _ ih => exact ih.trans hspaced.length_le
  | wrap hspaced hinner _ _ ih | unwrap _ hspaced hinner _ _ _ ih =>
    have hle := hspaced.length_le
    have hle' := hinner.length_le
    simp only [List.length_cons] at hle
    omega
  | unwrapEmpty _ hspaced hinner =>
    have hle := hspaced.length_le
    have hle' := hinner.length_le
    simp only [List.length_cons] at hle hle'
    omega
  | wrapped _ hspaced ih =>
    have hle := hspaced.length_le
    simp only [List.length_cons] at hle
    omega
  | wrappedComma _ hspaced hspaced' ih =>
    have hle := hspaced.length_le
    have hle' := hspaced'.length_le
    simp only [List.length_cons] at hle hle'
    omega
  | last _ _ _ ih =>
    simp only [List.length_cons] at ih
    omega
  | more _ _ hspaced _ ih ih' =>
    have hle := hspaced.length_le
    simp only [List.length_cons] at ih
    omega
  | one _ hspaced ih => exact hspaced.length_le.trans ih
  | field hname hspaced hspaced' _ hend ih =>
    have hle := hname.1.length_lt
    have hle' := hspaced.length_le
    have hle'' := hspaced'.length_le
    have hle''' := hend.length_le
    simp only [List.length_cons] at hle'
    omega
  | entry _ hspaced hspaced' _ hend ih ih' =>
    have hle' := hspaced.length_le
    have hle'' := hspaced'.length_le
    have hle''' := hend.length_le
    simp only [List.length_cons] at hle'
    omega

/-- A form that leaves a character is read from some. -/
theorem Passes.ne_nil {f : Form} {room : Nat} (h : Passes w f room cs (c :: rest)) : cs ≠ [] := by
  rintro rfl
  exact absurd h.length_le (by simp)

/-! ## What is well formed is accepted -/

/-- The words with a meaning are names: none is empty, and all their characters but the first may go
on with a name. -/
theorem valueWord_spec : ∀ v ∈ "Some" :: valueWords,
    v ≠ "" ∧ ∀ c ∈ v.toList.tail, Text.isNameChar c = true := by
  have hall : (("Some" :: valueWords).all fun v => v ≠ "" && v.toList.tail.all Text.isNameChar) =
      true := by
    decide +kernel
  simp only [List.all_eq_true, Bool.and_eq_true, decide_eq_true_eq] at hall
  exact hall

/-- No other word stands where one does. -/
theorem Word.unique {v v' : String} {rest' : List Char} (hv : v ∈ "Some" :: valueWords)
    (hv' : v' ∈ "Some" :: valueWords) (h : Word v cs rest) (h' : Word v' cs rest') :
    v = v' ∧ rest = rest' :=
  word_unique (valueWord_spec v hv) (valueWord_spec v' hv') (word_eq_some_iff.2 h)
    (word_eq_some_iff.2 h')

/-- Neither a word with a meaning of its own nor a name stands at the beginning. -/
structure Nameless (cs : List Char) : Prop where
  /-- There is no word. -/
  words : ∀ v ∈ "Some" :: valueWords, word v cs = none
  /-- There is no name. -/
  name : longestName cs = none

/-- Each word with a meaning begins with one of five letters. -/
theorem word_eq_none_of_head {v : String} (hv : v ∈ "Some" :: valueWords)
    (hc : c ∉ ['S', 't', 'f', 'N', 'i']) : word v (c :: cs) = none := by
  have hall : (("Some" :: valueWords).all fun v =>
      v.toList.head?.any fun d => d ∈ ['S', 't', 'f', 'N', 'i']) = true := by
    decide +kernel
  have hhead := List.all_eq_true.1 hall v hv
  refine word_eq_none fun hprefix => hc ?_
  cases hv : v.toList with
  | nil =>
    rw [hv] at hhead
    cases hhead
  | cons d ds =>
    rw [hv] at hprefix hhead
    rw [← (List.cons_prefix_cons.1 hprefix).1]
    simpa using hhead

/-- A character that begins no name begins neither a name nor a word with a meaning. -/
theorem nameless_of_not_start (hc : Text.isNameStart c = false) : Nameless (c :: cs) := by
  have hletter : c ∉ ['S', 't', 'f', 'N', 'i', 'r', 'b'] := fun h => by
    rw [isNameStart_of_mem_letters h] at hc
    cases hc
  refine ⟨fun v hv => word_eq_none_of_head hv fun h => hletter ?_, ?_⟩
  · exact List.mem_append_left ['r', 'b'] h
  · have hr : c ≠ 'r' := fun h => hletter (by simp [h])
    have hb : c ≠ 'b' := fun h => hletter (by simp [h])
    rw [longestName, beginsText_eq_false hb hr]
    · simp [hc]
    · exact fun _ h _ => hr h

/-- No name begins with a bracket or a quotation mark. -/
theorem nameless_of_mem_marks (hc : c ∈ marks) : Nameless (c :: cs) :=
  nameless_of_not_start (isNameStart_of_mem_marks hc)

/-- The letter that begins a text or a byte begins no name. -/
theorem nameless_of_beginsText (h : beginsText (c :: cs) = true) : Nameless (c :: cs) := by
  have hc : c = 'b' ∨ c = 'r' := by
    by_contra hne
    obtain ⟨hb, hr⟩ := not_or.1 hne
    rw [beginsText_eq_false hb hr] at h
    cases h
  refine ⟨fun v hv => word_eq_none_of_head hv ?_, ?_⟩
  · rcases hc with rfl | rfl <;> decide
  · unfold longestName
    rw [if_pos h]

/-- A value that begins with no name, and is not the empty one, is known by its first character. -/
theorem passValue_of_nameless (h : Nameless cs) (hunit : ∀ ds, cs ≠ '(' :: ')' :: ds)
    (fuel room : Nat) : passValue w (fuel + 1) room cs = passMarked w fuel room cs := by
  have hexpect : expect "()" cs = none := by
    refine Option.eq_none_iff_forall_ne_some.2 fun ds hds => hunit ds ?_
    exact expect_eq_some_iff.1 hds
  rw [passValue_of_wordless h.words, hexpect, h.name]

/-- A word with a meaning is passed over as it stands. -/
theorem passValue_word {v : String} (hv : v ∈ valueWords) (h : Word v cs rest) (fuel room : Nat) :
    passValue w (fuel + 1) room cs = some rest := by
  have hfound : (valueWords.findSome? fun v => word v cs) = some rest := by
    refine findSome?_eq_of_unique hv (word_eq_some_iff.2 h) fun v' hv' rest' h' => ?_
    exact (Word.unique (List.mem_cons_of_mem _ hv') (List.mem_cons_of_mem _ hv)
      (word_eq_some_iff.1 h') h).2
  unfold passValue
  rw [hfound]

/-- The word `Some` is passed over together with what follows it. -/
theorem passValue_some (h : Word "Some" cs rest) (fuel room : Nat) :
    passValue w (fuel + 1) room cs = passOption w fuel room rest := by
  have hwords : (valueWords.findSome? fun v => word v cs) = none := by
    refine List.findSome?_eq_none_iff.2 fun v hv => ?_
    refine Option.eq_none_iff_forall_ne_some.2 fun rest' h' => ?_
    obtain ⟨rfl, -⟩ := Word.unique (List.mem_cons_of_mem _ hv) List.mem_cons_self
      (word_eq_some_iff.1 h') h
    exact absurd hv (by decide)
  unfold passValue
  rw [hwords, word_eq_some_iff.2 h]

/-- A new name is passed over together with the parts that may follow it. -/
theorem passValue_newName (h : NewName cs mid) (fuel room : Nat) :
    passValue w (fuel + 1) room cs = passNamed w fuel room mid := by
  obtain ⟨⟨n, hname⟩, hnew⟩ := h
  have hwords : ∀ v ∈ "Some" :: valueWords, word v cs = none := fun v hv =>
    Option.eq_none_iff_forall_ne_some.2 fun rest' h' => hnew v hv rest' (word_eq_some_iff.1 h')
  have hexpect : expect "()" cs = none := by
    refine Option.eq_none_iff_forall_ne_some.2 fun ds hds => ?_
    have hcs : cs = '(' :: ')' :: ds := expect_eq_some_iff.1 hds
    exact hname.ne_cons (by simp [marks]) _ hcs
  rw [passValue_of_wordless hwords, hexpect, longestName_eq_some_iff.2 hname]

/-- When parentheses follow a new name, the parts in them belong to the value. -/
theorem passValue_named (h : NewName cs mid) (hspaced : Spaced mid ('(' :: inner))
    (fuel room : Nat) : passValue w (fuel + 1) room cs = passInside w fuel room inner := by
  rw [passValue_newName h, passNamed, skip_eq_some_iff.2 hspaced, Option.bind_some]
  rfl

/-- When no parentheses follow a new name, the name is the whole value and the blanks after it are
passed over too. -/
theorem passValue_name (h : NewName cs mid) (hspaced : Spaced mid rest)
    (hopen : rest.head? ≠ some '(') (fuel room : Nat) :
    passValue w (fuel + 1) room cs = some rest := by
  rw [passValue_newName h, passNamed, skip_eq_some_iff.2 hspaced, Option.bind_some]
  split
  case h_1 => exact absurd rfl hopen
  case h_2 => rfl

/-- In parentheses the blanks are passed over and then parts, of the kind that is seen there. -/
theorem passInside_succ (h : Spaced cs rest) (fuel room : Nat) :
    passInside w (fuel + 1) room cs = passParts w fuel room (partsIn rest) ')' rest := by
  unfold passInside
  rw [skip_eq_some_iff.2 h]
  rfl

/-- The letter, the number signs and the quotation mark of a raw text show that it is one. -/
theorem beginsText_raw (n : Nat) (cs : List Char) :
    beginsText ('r' :: (List.replicate n '#' ++ '"' :: cs)) = true := by
  match n with
  | 0 => rfl
  | 1 => rfl
  | n + 2 => rfl

/-- A text is passed over whole, whether quoted or raw. -/
theorem passValue_text {t : String} {s : List Char} (h : IsText t s) (fuel room : Nat) :
    passValue w (fuel + 1) room (s ++ rest) = some rest := by
  have hread : Record.text (s ++ rest) = some (t, rest) := text_eq_some_iff.2 ⟨s, rfl, h⟩
  cases h with
  | quoted =>
    rw [List.append_assoc, List.cons_append] at hread ⊢
    rw [passValue_of_nameless (nameless_of_mem_marks (by simp [marks])) (by simp), passMarked,
      hread]
    rfl
  | @raw t n hnot =>
    have hbegins : beginsText ('r' :: (List.replicate n '#' ++ '"' :: (t ++ '"' ::
        (List.replicate n '#' ++ rest)))) = true := beginsText_raw n _
    have hchars : 'r' :: List.replicate n '#' ++ '"' :: t ++ '"' :: List.replicate n '#' ++ rest =
        'r' :: (List.replicate n '#' ++ '"' :: (t ++ '"' :: (List.replicate n '#' ++ rest))) := by
      simp
    rw [hchars] at hread ⊢
    rw [passValue_of_nameless (nameless_of_beginsText hbegins) (by simp), passMarked, hread]
    rfl

/-- A quoted character is passed over. -/
theorem passValue_char (h : passChar cs = some rest) (fuel room : Nat) :
    passValue w (fuel + 1) room cs = some rest := by
  obtain ⟨ds, rfl⟩ : ∃ ds, cs = '\'' :: ds := by
    unfold passChar at h
    split at h <;> first | exact ⟨_, rfl⟩ | cases h
  rw [passValue_of_nameless (nameless_of_mem_marks (by simp [marks])) (by simp), passMarked, h]

/-- A quoted byte is passed over. -/
theorem passValue_byte (h : passByte cs = some rest) (fuel room : Nat) :
    passValue w (fuel + 1) room cs = some rest := by
  obtain ⟨ds, rfl⟩ : ∃ ds, cs = 'b' :: '\'' :: ds := by
    unfold passByte at h
    split at h <;> first | exact ⟨_, rfl⟩ | cases h
  rw [passValue_of_nameless (nameless_of_beginsText rfl) (by simp), passMarked, h]

/-- Quoted bytes are passed over, whether raw or not. -/
theorem passValue_bytes (h : passBytes cs = some rest) (fuel room : Nat) :
    passValue w (fuel + 1) room cs = some rest := by
  have hread := h
  unfold passBytes at h
  split at h
  case h_1 =>
    rw [passValue_of_nameless (nameless_of_beginsText rfl) (by simp), passMarked, hread]
    simp
  case h_2 ds =>
    obtain ⟨⟨t, rest⟩, hraw, rfl⟩ := Option.map_eq_some_iff.1 h
    obtain ⟨n, rfl, -⟩ := raw_eq_some_iff.1 hraw
    have hbegins : ∀ cs, beginsText ('b' :: 'r' :: (List.replicate n '#' ++ '"' :: cs)) = true := by
      intro cs
      cases n with
      | zero => rfl
      | succ n => rfl
    rw [passValue_of_nameless (nameless_of_beginsText (hbegins _)) (by simp), passMarked, hread]
    simp
  case h_3 => cases h

/-- A number is passed over when its first character could begin nothing else. -/
theorem passValue_number (hc : Text.isNameStart c = false)
    (hmark : c ∉ ['(', '[', '\x7b', '"', '\'']) (h : passNumber (c :: cs) = some rest)
    (fuel room : Nat) : passValue w (fuel + 1) room (c :: cs) = some rest := by
  simp only [List.mem_cons, List.not_mem_nil, or_false, not_or] at hmark
  obtain ⟨hparen, hbracket, hbrace, hquote, hchar⟩ := hmark
  have hletter : c ≠ 'r' ∧ c ≠ 'b' := by
    constructor <;>
    · rintro rfl
      rw [isNameStart_of_mem_letters (by simp)] at hc
      cases hc
  obtain ⟨hr, hb⟩ := hletter
  rw [passValue_of_nameless (nameless_of_not_start hc) (by simp [hparen]), passMarked, h]
  all_goals simp_all

/-- The empty value is passed over. -/
theorem passValue_unit (fuel room : Nat) :
    passValue w (fuel + 1) room ('(' :: ')' :: rest) = some rest := by
  have hnameless : Nameless ('(' :: ')' :: rest) := nameless_of_mem_marks (by simp [marks])
  rw [passValue_of_wordless hnameless.words, expect_unit]

/-- Parentheses that are not empty hold parts. -/
theorem passValue_parens (hopen : inner.head? ≠ some ')') (fuel room : Nat) :
    passValue w (fuel + 1) room ('(' :: inner) = passInside w fuel room inner := by
  have hunit : ∀ ds, '(' :: inner ≠ '(' :: ')' :: ds := by
    rintro ds h
    rw [(List.cons.inj h).2] at hopen
    exact hopen rfl
  rw [passValue_of_nameless (nameless_of_mem_marks (by simp [marks])) hunit]
  rfl

/-- Square brackets hold values. -/
theorem passValue_brackets (h : Spaced inner rest) (fuel room : Nat) :
    passValue w (fuel + 1) room ('[' :: inner) = passParts w fuel room .values ']' rest := by
  rw [passValue_of_nameless (nameless_of_mem_marks (by simp [marks])) (by simp), passMarked,
    skip_eq_some_iff.2 h, Option.bind_some]

/-- Braces hold entries. -/
theorem passValue_braces (h : Spaced inner rest) (fuel room : Nat) :
    passValue w (fuel + 1) room ('\x7b' :: inner) = passParts w fuel room .entries '\x7d' rest := by
  rw [passValue_of_nameless (nameless_of_mem_marks (by simp [marks])) (by simp), passMarked,
    skip_eq_some_iff.2 h, Option.bind_some]

/-- Where a record allows it, a value may follow the word `Some` without parentheses of its own. -/
theorem passOption_bare (hbare : w.bare = true) (h : Spaced cs rest) (hopen : rest.head? ≠ some '(')
    (fuel room : Nat) : passOption w (fuel + 1) (room + 1) cs = passValue w fuel room rest := by
  unfold passOption
  rw [skip_eq_some_iff.2 h, Option.bind_eq_bind, Option.bind_some]
  split
  case h_1 => exact absurd rfl hopen
  case h_2 => rw [if_pos hbare]

/-- Behind `Some(` stands a value. Where a record lets its own parentheses be left out, what is seen
tells whether it is nothing, the parts of one, or a value as elsewhere. -/
theorem passOption_parens {ds : List Char} (h : Spaced cs ('(' :: inner)) (hinner : Spaced inner ds)
    (fuel room : Nat) : passOption w (fuel + 1) (room + 1) cs =
      if w.unwraps then
        if ds.head? = some ')' then expect ")" ds
        else (unwrapped ds).bind fun p =>
          p.elim (passWrapped w fuel room ds) fun p => passParts w fuel room p ')' ds
      else passWrapped w fuel room ds := by
  unfold passOption
  simp only [skip_eq_some_iff.2 h, skip_eq_some_iff.2 hinner, Option.bind_eq_bind, Option.bind_some]
  cases unwrapped ds with
  | none => rfl
  | some p => cases p <;> rfl

/-- An option in parentheses is a value in them, unless it is to be unwrapped. -/
theorem passOption_wrap {ds : List Char} {fuel room : Nat} (h : Spaced cs ('(' :: inner))
    (hinner : Spaced inner ds)
    (hwrap : w.unwraps = true → ds.head? ≠ some ')' ∧ unwrapped ds = some none)
    (hvalue : passWrapped w fuel room ds = some rest) :
    passOption w (fuel + 1) (room + 1) cs = some rest := by
  rw [passOption_parens h hinner]
  split
  case isTrue hunwraps =>
    obtain ⟨hne, hunwrapped⟩ := hwrap hunwraps
    rw [if_neg hne, hunwrapped]
    exact hvalue
  case isFalse => exact hvalue

/-- An option that is unwrapped may have nothing in its parentheses. -/
theorem passOption_unwrapEmpty (hunwraps : w.unwraps = true) (h : Spaced cs ('(' :: inner))
    (hinner : Spaced inner (')' :: rest)) (fuel room : Nat) :
    passOption w (fuel + 1) (room + 1) cs = some rest := by
  rw [passOption_parens h hinner, if_pos hunwraps, if_pos List.head?_cons]
  exact expect_eq_some_iff.2 rfl

/-- An option that is unwrapped has parts in its parentheses. -/
theorem passOption_unwrap {p : Parts} {ds : List Char} (hunwraps : w.unwraps = true)
    (h : Spaced cs ('(' :: inner)) (hinner : Spaced inner ds) (hne : ds.head? ≠ some ')')
    (hunwrapped : unwrapped ds = some (some p)) (fuel room : Nat) :
    passOption w (fuel + 1) (room + 1) cs = passParts w fuel room p ')' ds := by
  rw [passOption_parens h hinner, if_pos hunwraps, if_neg hne, hunwrapped]
  rfl

/-- A value in parentheses ends with the parenthesis behind it. -/
theorem passWrapped_close (h : Spaced mid (')' :: rest)) {fuel room : Nat}
    (hvalue : passValue w fuel room cs = some mid) :
    passWrapped w (fuel + 1) room cs = some rest := by
  unfold passWrapped
  simp only [hvalue, skip_eq_some_iff.2 h, Option.bind_eq_bind, Option.bind_some]
  exact expect_eq_some_iff.2 rfl

/-- A value in parentheses may end with a comma and the parenthesis behind that. -/
theorem passWrapped_comma {ds : List Char} (h : Spaced mid (',' :: ds))
    (h' : Spaced ds (')' :: rest)) {fuel room : Nat}
    (hvalue : passValue w fuel room cs = some mid) :
    passWrapped w (fuel + 1) room cs = some rest := by
  unfold passWrapped
  simp only [hvalue, skip_eq_some_iff.2 h, skip_eq_some_iff.2 h', Option.bind_eq_bind,
    Option.bind_some]
  exact expect_eq_some_iff.2 rfl

/-- A field is a name, a colon and a value, with gaps between them. -/
theorem passPart_field {n : String} {ds es fs : List Char} {fuel room : Nat} (hname : Named n cs ds)
    (hspaced : Spaced ds (':' :: es)) (hspaced' : Spaced es fs)
    (hvalue : passValue w fuel room fs = some mid) (hend : Spaced mid rest) :
    passPart w fuel room cs .fields = some rest := by
  have hmark : mark ":" (':' :: es) = some fs := mark_eq_some_iff.2 ⟨_, rfl, hspaced'⟩
  simp only [passPart, name_eq_some_iff.2 hname, skip_eq_some_iff.2 hspaced, hmark, hvalue,
    Option.bind_some]
  exact skip_eq_some_iff.2 hend

/-- An entry is a value, a colon and a value, with gaps between them. -/
theorem passPart_entry {ds es fs : List Char} {fuel room : Nat}
    (hkey : passValue w fuel room cs = some ds) (hspaced : Spaced ds (':' :: es))
    (hspaced' : Spaced es fs) (hvalue : passValue w fuel room fs = some mid)
    (hend : Spaced mid rest) : passPart w fuel room cs .entries = some rest := by
  have hmark : mark ":" (':' :: es) = some fs := mark_eq_some_iff.2 ⟨_, rfl, hspaced'⟩
  simp only [passPart, hkey, skip_eq_some_iff.2 hspaced, hmark, hvalue, Option.bind_some]
  exact skip_eq_some_iff.2 hend

/-- With some fuel, the reader accepts what is well formed and short enough: it takes four steps for
each character at most, and up to three more. -/
structure Complete (w : Wrapping) (fuel : Nat) : Prop where
  /-- Values are accepted. -/
  value {room : Nat} {cs rest : List Char} : Passes w .value room cs rest →
    4 * cs.length + 1 ≤ fuel → passValue w fuel room cs = some rest
  /-- What follows the word `Some` is. -/
  option {room : Nat} {cs rest : List Char} : Passes w .option room cs rest →
    4 * cs.length + 2 ≤ fuel → passOption w fuel room cs = some rest
  /-- Values with the parenthesis after them are. -/
  wrapped {room : Nat} {cs rest : List Char} : Passes w .wrapped room cs rest →
    4 * cs.length + 2 ≤ fuel → passWrapped w fuel room cs = some rest
  /-- Parts in parentheses are. -/
  inside {room : Nat} {cs ds rest : List Char} : Spaced cs ds →
    Passes w (.parts (partsIn ds) ')') room ds rest → 4 * cs.length + 3 ≤ fuel →
      passInside w fuel room cs = some rest
  /-- Parts up to a closing bracket are. -/
  parts {room : Nat} {p : Parts} {close : Char} {cs rest : List Char} :
    Passes w (.parts p close) room cs rest → 4 * cs.length + 2 ≤ fuel →
      passParts w fuel room p close cs = some rest

/-- A value needs one step more than what stands in it, and each of its forms is recognised. -/
theorem Complete.value_succ {fuel room : Nat} (ih : Complete w fuel)
    (h : Passes w .value room cs rest) (hfuel : 4 * cs.length + 1 ≤ fuel + 1) :
    passValue w (fuel + 1) room cs = some rest := by
  cases h with
  | word hv hword => exact passValue_word hv hword fuel room
  | some hword hoption =>
    have hlength := congrArg List.length hword.1
    have hsome : "Some".length = 4 := rfl
    simp only [List.length_append, String.length_toList] at hlength
    exact (passValue_some hword fuel room).trans (ih.option hoption (by omega))
  | unit => exact passValue_unit fuel room
  | name hname hspaced hopen => exact passValue_name hname hspaced hopen fuel room
  | named hname hspaced hinner hparts =>
    have hlt := hname.length_lt
    have hle := hspaced.length_le
    simp only [List.length_cons] at hle
    exact (passValue_named hname hspaced fuel room).trans (ih.inside hinner hparts (by omega))
  | parens hopen hinner hparts =>
    simp only [List.length_cons] at hfuel
    exact (passValue_parens hopen fuel room).trans (ih.inside hinner hparts (by omega))
  | brackets hinner hparts =>
    have hle := hinner.length_le
    simp only [List.length_cons] at hfuel
    exact (passValue_brackets hinner fuel room).trans (ih.parts hparts (by omega))
  | braces hinner hparts =>
    have hle := hinner.length_le
    simp only [List.length_cons] at hfuel
    exact (passValue_braces hinner fuel room).trans (ih.parts hparts (by omega))
  | text h => exact passValue_text h fuel room
  | char h => exact passValue_char h fuel room
  | byte h => exact passValue_byte h fuel room
  | bytes h => exact passValue_bytes h fuel room
  | number hc hmark h => exact passValue_number hc hmark h fuel room

/-- What follows `Some` is passed over when the values in it are. -/
theorem Complete.option_succ {fuel room : Nat} (ih : Complete w fuel)
    (h : Passes w .option room cs rest) (hfuel : 4 * cs.length + 2 ≤ fuel + 1) :
    passOption w (fuel + 1) room cs = some rest := by
  cases h with
  | bare hbare hspaced hopen hvalue =>
    have hle := hspaced.length_le
    exact (passOption_bare hbare hspaced hopen fuel _).trans (ih.value hvalue (by omega))
  | wrap hspaced hinner hwrap hvalue =>
    have hle := hspaced.length_le
    have hle' := hinner.length_le
    simp only [List.length_cons] at hle
    exact passOption_wrap hspaced hinner hwrap (ih.wrapped hvalue (by omega))
  | unwrapEmpty hunwraps hspaced hinner =>
    exact passOption_unwrapEmpty hunwraps hspaced hinner fuel _
  | unwrap hunwraps hspaced hinner hne hunwrapped hparts =>
    have hle := hspaced.length_le
    have hle' := hinner.length_le
    simp only [List.length_cons] at hle
    exact (passOption_unwrap hunwraps hspaced hinner hne hunwrapped fuel _).trans
      (ih.parts hparts (by omega))

/-- A value in parentheses is passed over when the value is. -/
theorem Complete.wrapped_succ {fuel room : Nat} (ih : Complete w fuel)
    (h : Passes w .wrapped room cs rest) (hfuel : 4 * cs.length + 2 ≤ fuel + 1) :
    passWrapped w (fuel + 1) room cs = some rest := by
  cases h with
  | wrapped hvalue hspaced => exact passWrapped_close hspaced (ih.value hvalue (by omega))
  | wrappedComma hvalue hspaced hspaced' =>
    exact passWrapped_comma hspaced hspaced' (ih.value hvalue (by omega))

/-- Parts in parentheses are passed over when the parts are. -/
theorem Complete.inside_succ {fuel room : Nat} {ds : List Char} (ih : Complete w fuel)
    (hspaced : Spaced cs ds) (h : Passes w (.parts (partsIn ds) ')') room ds rest)
    (hfuel : 4 * cs.length + 3 ≤ fuel + 1) : passInside w (fuel + 1) room cs = some rest := by
  have hle := hspaced.length_le
  exact (passInside_succ hspaced fuel room).trans (ih.parts h (by omega))

/-- One part is passed over when the values in it are. -/
theorem Complete.part {fuel room : Nat} {p : Parts} (ih : Complete w fuel)
    (h : Passes w (.part p) room cs rest) (hfuel : 4 * cs.length + 1 ≤ fuel) :
    passPart w fuel room cs p = some rest := by
  cases h with
  | one hvalue hspaced =>
    exact Option.bind_eq_some_iff.2 ⟨_, ih.value hvalue hfuel, skip_eq_some_iff.2 hspaced⟩
  | field hname hspaced hspaced' hvalue hend =>
    have hlt := hname.1.length_lt
    have hle := hspaced.length_le
    have hle' := hspaced'.length_le
    simp only [List.length_cons] at hle
    exact passPart_field hname hspaced hspaced' (ih.value hvalue (by omega)) hend
  | entry hkey hspaced hspaced' hvalue hend =>
    have hle := hkey.length_le
    have hle' := hspaced.length_le
    have hle'' := hspaced'.length_le
    simp only [List.length_cons] at hle'
    exact passPart_entry (ih.value hkey hfuel) hspaced hspaced' (ih.value hvalue (by omega)) hend

/-- Parts are passed over when the first and then the others are: the others have fewer characters,
and so need fewer steps. -/
theorem Complete.parts_succ {fuel room : Nat} {p : Parts} {close : Char} (ih : Complete w fuel)
    (h : Passes w (.parts p close) room cs rest) (hfuel : 4 * cs.length + 2 ≤ fuel + 1) :
    passParts w (fuel + 1) room p close cs = some rest := by
  cases h with
  | close => exact passParts_close fuel _ p close
  | last hhead hclose hpart =>
    exact passParts_last hhead hpart.ne_nil hclose (ih.part hpart (by omega))
  | more hhead hpart hspaced hparts =>
    have hle := hpart.length_le
    have hle' := hspaced.length_le
    simp only [List.length_cons] at hle
    exact (passParts_more hhead hpart.ne_nil (ih.part hpart (by omega)) hspaced).trans
      (ih.parts hparts (by omega))

/-- The reader accepts all that is well formed and short enough, whatever the fuel. -/
theorem complete (w : Wrapping) (fuel : Nat) : Complete w fuel := by
  induction fuel with
  | zero =>
    constructor <;>
    · intros
      omega
  | succ fuel ih =>
    exact ⟨ih.value_succ, ih.option_succ, ih.wrapped_succ, ih.inside_succ, ih.parts_succ⟩

/-- **Passing over values.** With four steps for each character, the reader passes over a value when
the value is well formed. -/
theorem passValue_eq_some_iff {fuel room : Nat} (hfuel : 4 * cs.length + 1 ≤ fuel) :
    passValue w fuel room cs = some rest ↔ Passes w .value room cs rest :=
  ⟨(sound w fuel).value, fun h => (complete w fuel).value h hfuel⟩

end CurveArea.Record
