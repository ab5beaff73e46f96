import CurveArea.Number.Binary64
import CurveArea.Proofs.Session.Items
import CurveArea.Session.State

/-!
# Records of settings

A stored text is a record when it is nothing but a record: attributes or none, the name or none, and
items in parentheses (`IsRecord`). A session that starts from a record in which no field is given
twice has what the record gives, and the defaults for all else; which items come first does not
matter. A session that starts from any other text has the defaults throughout, whatever the text
gives before its fault (`start_of_record`).
-/

namespace CurveArea

namespace Restored

open Record
open Settings (Field)

/-! ## Attributes and names -/

/-- Marks stand one after another, with the gaps after them. -/
inductive Marks : List String → (cs rest : List Char) → Prop
  | nil {rest : List Char} : Marks [] rest rest
  | cons {w : String} {ws : List String} {cs ds rest : List Char} : Spaced cs ds →
      Marks ws ds rest → Marks (w :: ws) (w.toList ++ cs) rest

/-- Names of options stand at the beginning, with commas between them and possibly at the end, and
the parenthesis after them. `o` is asked for before them and `o'` after them. -/
inductive OptionNames : (o o' : Options) → (cs rest : List Char) → Prop
  | last {o o' : Options} {n : String} {cs ds rest : List Char} : Named n cs ds →
      o.add? n = some o' → Spaced ds (')' :: rest) → OptionNames o o' cs rest
  | lastComma {o o' : Options} {n : String} {cs ds es rest : List Char} : Named n cs ds →
      o.add? n = some o' → Spaced ds (',' :: es) → Spaced es (')' :: rest) →
      OptionNames o o' cs rest
  | more {o o' o'' : Options} {n : String} {cs ds es fs rest : List Char} : Named n cs ds →
      o.add? n = some o' → Spaced ds (',' :: es) → Spaced es fs → OptionNames o' o'' fs rest →
      OptionNames o o'' cs rest

/-- Attributes stand at the beginning. `o` is asked for before them and `o'` after them. -/
inductive Attributes : (o o' : Options) → (cs rest : List Char) → Prop
  | none {o : Options} {rest : List Char} : rest.head? ≠ some '#' → Attributes o o rest rest
  | more {o o' o'' : Options} {cs ds es fs gs rest : List Char} :
      Marks ["#", "!", "[", "enable", "("] cs ds → OptionNames o o' ds es → Spaced es (']' :: fs) →
      Spaced fs gs → Attributes o' o'' gs rest → Attributes o o'' cs rest

/-- The name of a record stands at the beginning, or it is left out. -/
inductive RecordName (o : Options) : (cs rest : List Char) → Prop
  | given {cs ds rest : List Char} : Named Settings.recordName cs ds → Spaced ds rest →
      RecordName o cs rest
  | leftOut {rest : List Char} : o.named = false → RecordName o rest rest

/-- A record is opened: attributes, the name and a parenthesis stand at the beginning, with gaps
between them. -/
def Opened (o : Options) (cs rest : List Char) : Prop :=
  ∃ ds es fs gs, Spaced cs ds ∧ Attributes .plain o ds es ∧ RecordName o es fs ∧ fs = '(' :: gs ∧
    Spaced gs rest

variable {α : Type} [Numeral α] {o o' : Options} {cs ds rest : List Char} {ws : List String}

/-- Characters are a record with some items and nothing else. -/
def IsRecord (cs : List Char) (items : List (Item α)) : Prop :=
  ∃ o ds rest, Opened o cs ds ∧ AllItems o items ds rest ∧ Spaced rest []

/-- Marks are read one after another. -/
theorem marks_iff : ws.foldlM (fun cs w => mark w cs) cs = some rest ↔ Marks ws cs rest := by
  induction ws generalizing cs with
  | nil =>
    constructor
    · intro h
      cases h
      exact .nil
    · rintro ⟨⟩
      rfl
  | cons w ws ih =>
    rw [List.foldlM_cons, Option.bind_eq_bind, Option.bind_eq_some_iff]
    constructor
    · rintro ⟨ds, hmark, h⟩
      obtain ⟨es, rfl, hspaced⟩ := mark_eq_some_iff.1 hmark
      exact .cons hspaced (ih.1 h)
    · rintro (- | ⟨hspaced, h⟩)
      exact ⟨_, mark_eq_some_iff.2 ⟨_, rfl, hspaced⟩, ih.2 h⟩

/-- What is read as the names of options are such names. -/
theorem optionNames_of_eq_some {fuel : Nat} (h : optionNames fuel o cs = some (o', ')' :: rest)) :
    OptionNames o o' cs rest := by
  induction fuel generalizing o cs with
  | zero => cases h
  | succ fuel ih =>
    obtain ⟨⟨n, ds⟩, hname, h⟩ := Option.bind_eq_some_iff.1 h
    obtain ⟨o₁, hadd, h⟩ := Option.bind_eq_some_iff.1 h
    obtain ⟨es, hskip, h⟩ := Option.bind_eq_some_iff.1 h
    have hname := name_eq_some_iff.1 hname
    have hspaced := skip_eq_some_iff.1 hskip
    split at h
    case h_1 fs =>
      obtain ⟨gs, hskip', h⟩ := Option.bind_eq_some_iff.1 h
      have hspaced' := skip_eq_some_iff.1 hskip'
      split at h
      case isTrue => exact .more hname hadd hspaced hspaced' (ih h)
      case isFalse =>
        cases h
        exact .lastComma hname hadd hspaced hspaced'
    case h_2 =>
      cases h
      exact .last hname hadd hspaced

/-- The names of options have a character. -/
theorem OptionNames.length_lt (h : OptionNames o o' cs rest) : rest.length < cs.length := by
  induction h with
  | last hname _ hspaced =>
    have hlt := hname.1.length_lt
    have hle := hspaced.length_le
    simp only [List.length_cons] at hle
    omega
  | lastComma hname _ hspaced hspaced' =>
    have hlt := hname.1.length_lt
    have hle := hspaced.length_le
    have hle' := hspaced'.length_le
    simp only [List.length_cons] at hle hle'
    omega
  | more hname _ hspaced hspaced' _ ih =>
    have hlt := hname.1.length_lt
    have hle := hspaced.length_le
    have hle' := hspaced'.length_le
    simp only [List.length_cons] at hle
    omega

/-- A name begins with a character that names go on with. -/
theorem goesOn_of_named {n : String} (h : Named n cs rest) : goesOn cs = true := by
  obtain ⟨c, ds, rfl, hc⟩ := h.1.exists_start
  exact isNameChar_of_isNameStart hc

/-- So do the names of options. -/
theorem OptionNames.goesOn_eq (h : OptionNames o o' cs rest) : goesOn cs = true := by
  cases h with
  | last hname | lastComma hname | more hname => exact goesOn_of_named hname

/-- The names of options are read when there is a step for every character. -/
theorem OptionNames.eq_some (h : OptionNames o o' cs rest) {fuel : Nat} (hfuel : cs.length ≤ fuel) :
    optionNames fuel o cs = some (o', ')' :: rest) := by
  induction h generalizing fuel with
  | last hname hadd hspaced =>
    have hlt := hname.1.length_lt
    obtain ⟨fuel, rfl⟩ := Nat.exists_eq_add_one.2 (by omega : 0 < fuel)
    simp [optionNames, name_eq_some_iff.2 hname, hadd, skip_eq_some_iff.2 hspaced]
  | @lastComma _ _ _ _ _ _ rest hname hadd hspaced hspaced' =>
    have hlt := hname.1.length_lt
    obtain ⟨fuel, rfl⟩ := Nat.exists_eq_add_one.2 (by omega : 0 < fuel)
    have hend : goesOn (')' :: rest) = false := goesOn_of_mem_marks (by simp [marks])
    simp [optionNames, name_eq_some_iff.2 hname, hadd, skip_eq_some_iff.2 hspaced,
      skip_eq_some_iff.2 hspaced', hend]
  | more hname hadd hspaced hspaced' h ih =>
    have hlt := hname.1.length_lt
    have hle := hspaced.length_le
    have hle' := hspaced'.length_le
    simp only [List.length_cons] at hle
    obtain ⟨fuel, rfl⟩ := Nat.exists_eq_add_one.2 (by omega : 0 < fuel)
    have hmore := ih (by omega : _ ≤ fuel)
    simp [optionNames, name_eq_some_iff.2 hname, hadd, skip_eq_some_iff.2 hspaced,
      skip_eq_some_iff.2 hspaced', h.goesOn_eq, hmore]

/-- No more characters are left behind marks than before them. -/
theorem Marks.length_le (h : Marks ws cs rest) : rest.length ≤ cs.length := by
  induction h with
  | nil => exact Nat.le_refl _
  | cons hspaced _ ih =>
    have hle := hspaced.length_le
    rw [List.length_append]
    omega

/-- The marks after names of options are a parenthesis and a bracket. -/
theorem marks_close_iff : Marks [")", "]"] cs rest ↔
    ∃ ds es, cs = ')' :: ds ∧ Spaced ds (']' :: es) ∧ Spaced es rest := by
  constructor
  · rintro (- | ⟨hspaced, h⟩)
    obtain - | ⟨hspaced', h⟩ := h
    cases h
    exact ⟨_, _, rfl, hspaced, hspaced'⟩
  · rintro ⟨ds, es, rfl, hspaced, hspaced'⟩
    have hlast : Marks ["]"] (']' :: es) rest := .cons hspaced' .nil
    exact .cons hspaced hlast

/-- What is read as attributes are attributes. -/
theorem attributes_of_eq_some {fuel : Nat} (h : attributes fuel o cs = some (o', rest)) :
    Attributes o o' cs rest := by
  induction fuel generalizing o cs with
  | zero => cases h
  | succ fuel ih =>
    rw [attributes] at h
    split at h
    case isTrue =>
      obtain ⟨ds, hopen, h⟩ := Option.bind_eq_some_iff.1 h
      obtain ⟨⟨o₁, es⟩, hnames, h⟩ := Option.bind_eq_some_iff.1 h
      obtain ⟨fs, hclose, hmore⟩ := Option.bind_eq_some_iff.1 h
      obtain ⟨es, gs, rfl, hspaced, hspaced'⟩ := marks_close_iff.1 (marks_iff.1 hclose)
      exact .more (marks_iff.1 hopen) (optionNames_of_eq_some hnames) hspaced hspaced' (ih hmore)
    case isFalse hnone =>
      cases h
      exact .none hnone

/-- Attributes are read when there are more steps than characters. -/
theorem Attributes.eq_some (h : Attributes o o' cs rest) {fuel : Nat} (hfuel : cs.length < fuel) :
    attributes fuel o cs = some (o', rest) := by
  induction h generalizing fuel with
  | none hnone =>
    obtain ⟨fuel, rfl⟩ := Nat.exists_eq_add_one.2 (by omega : 0 < fuel)
    rw [attributes, if_neg hnone]
  | @more o o₁ o₂ cs ds es fs gs rest hopen hnames hspaced hspaced' _ ih =>
    have hclose : Marks [")", "]"] (')' :: es) gs :=
      marks_close_iff.2 ⟨es, fs, rfl, hspaced, hspaced'⟩
    have hhead : cs.head? = some '#' := by
      cases hopen
      rfl
    have hlt : gs.length < cs.length := by
      have h₁ := hopen.length_le
      have h₂ := hnames.length_lt
      have h₃ := hspaced.length_le
      have h₄ := hspaced'.length_le
      simp only [List.length_cons] at h₃
      omega
    obtain ⟨fuel, rfl⟩ := Nat.exists_eq_add_one.2 (by omega : 0 < fuel)
    simp only [attributes, if_pos hhead, marks_iff.2 hopen, hnames.eq_some (Nat.le_refl _),
      marks_iff.2 hclose, ih (by omega : gs.length < fuel), Option.bind_eq_bind, Option.bind_some]

/-- Before a parenthesis, the name of a record is read or left out as the options allow. -/
theorem recordName_eq_some_iff :
    recordName o cs = some ('(' :: rest) ↔ RecordName o cs ('(' :: rest) := by
  rw [recordName]
  constructor
  · intro h
    split at h
    case isTrue =>
      obtain ⟨⟨found, ds⟩, hname, h⟩ := Option.bind_eq_some_iff.1 h
      dsimp only at h
      split at h
      case isTrue hfound =>
        subst hfound
        exact .given (name_eq_some_iff.1 hname) (skip_eq_some_iff.1 h)
      case isFalse => cases h
    case isFalse =>
      split at h
      case isTrue => cases h
      case isFalse hnamed =>
        cases h
        exact .leftOut (Bool.eq_false_iff.2 hnamed)
  · intro h
    cases h with
    | given hname hspaced =>
      rw [if_pos (goesOn_of_named hname), name_eq_some_iff.2 hname, Option.bind_some]
      exact (if_pos rfl).trans (skip_eq_some_iff.2 hspaced)
    | leftOut hnamed =>
      rw [goesOn_of_mem_marks (by simp [marks]), hnamed]
      rfl

/-- Reads what opens a record. -/
def opening (cs : List Char) : Option (Options × List Char) :=
  (skip cs).bind fun cs => (attributes (cs.length + 1) .plain cs).bind fun (o, cs) =>
    (recordName o cs).bind fun cs => (mark "(" cs).map fun cs => (o, cs)

/-- What opens a record is read. -/
theorem opening_eq_some_iff : opening cs = some (o, rest) ↔ Opened o cs rest := by
  constructor
  · intro h
    obtain ⟨ds, hskip, h⟩ := Option.bind_eq_some_iff.1 h
    obtain ⟨⟨o', es⟩, hattributes, h⟩ := Option.bind_eq_some_iff.1 h
    obtain ⟨fs, hname, h⟩ := Option.bind_eq_some_iff.1 h
    obtain ⟨rest', hmark, heq⟩ := Option.map_eq_some_iff.1 h
    cases heq
    obtain ⟨gs, rfl, hspaced⟩ := mark_eq_some_iff.1 hmark
    exact ⟨ds, es, _, gs, skip_eq_some_iff.1 hskip, attributes_of_eq_some hattributes,
      recordName_eq_some_iff.1 hname, rfl, hspaced⟩
  · rintro ⟨ds, es, -, gs, hspaced, hattributes, hname, rfl, hspaced'⟩
    have hmark : mark "(" ('(' :: gs) = some rest := mark_eq_some_iff.2 ⟨gs, rfl, hspaced'⟩
    simp only [opening, skip_eq_some_iff.2 hspaced, hattributes.eq_some (Nat.lt_succ_self _),
      recordName_eq_some_iff.2 hname, hmark, Option.bind_some, Option.map_some]

/-- A record begins with its parenthesis. -/
theorem opened_of_toList {stored : String} {cs : List Char}
    (h : stored.toList = '(' :: cs ∧ skip cs = some cs) : Opened .plain stored.toList cs := by
  obtain ⟨hstored, hskip⟩ := h
  rw [hstored]
  exact ⟨_, _, _, cs, .done (by simp [isBlank]), .none (by simp), .leftOut rfl, rfl,
    skip_eq_some_iff.1 hskip⟩

/-! ## Reading records -/

variable {stored : String} {items : List (Item α)} {c : Change α} {k : Field}

/-- A record is read in three parts: what opens it, its fields, and the gap at the end of all. -/
theorem read?_eq (stored : String) : (read? stored : Option (Change α)) =
    (opening stored.toList).bind fun (o, cs) => (fields o (cs.length + 1) {} cs).bind fun (c, cs) =>
      (skip cs).bind fun cs => if cs.isEmpty then some c else none := by
  simp only [read?, opening, Option.bind_eq_bind, Option.bind_assoc, Option.map_eq_bind,
    Option.bind_some, Function.comp_apply]

/-- **Records are read**: all of their items are added to nothing. -/
theorem read?_of_isRecord (h : IsRecord stored.toList items) : read? stored = addAll {} items := by
  obtain ⟨o, ds, rest, hopened, hitems, hend⟩ := h
  have hfuel : items.length < ds.length + 1 := by
    have hlt := hitems.length_le
    omega
  rw [read?_eq, opening_eq_some_iff.2 hopened, Option.bind_some]
  dsimp only
  rw [fields_of_allItems hitems hfuel]
  cases addAll ({} : Change α) items with
  | none => rfl
  | some c => simp [skip_eq_some_iff.2 hend]

/-- **Nothing else is read.** -/
theorem isRecord_of_read? (h : read? stored = some c) :
    ∃ items, IsRecord stored.toList items ∧ addAll {} items = some c := by
  rw [read?_eq] at h
  obtain ⟨⟨o, ds⟩, hopening, h⟩ := Option.bind_eq_some_iff.1 h
  obtain ⟨⟨c', rest⟩, hfields, h⟩ := Option.bind_eq_some_iff.1 h
  obtain ⟨es, hskip, h⟩ := Option.bind_eq_some_iff.1 h
  obtain ⟨items, hitems, hadd⟩ := allItems_of_fields hfields
  split at h
  case isTrue hempty =>
    cases h
    rw [List.isEmpty_iff.1 hempty] at hskip
    exact ⟨items, ⟨o, ds, rest, opening_eq_some_iff.1 hopening, hitems, skip_eq_some_iff.1 hskip⟩,
      hadd⟩
  case isFalse => cases h

/-- **Reading.** A change is read from a record that gives no field twice, and it gives what the
record gives. -/
theorem read?_eq_some_iff : read? stored = some c ↔
    ∃ items, IsRecord stored.toList items ∧ (fieldsOf items).Nodup ∧
      ∀ k v, c.get k = some v ↔ .field k v ∈ items := by
  have hadd : ∀ items : List (Item α), addAll {} items = some c ↔
      (fieldsOf items).Nodup ∧ ∀ k v, c.get k = some v ↔ .field k v ∈ items := fun items => by
    simp [addAll_eq_some]
  constructor
  · intro h
    obtain ⟨items, hrecord, hc⟩ := isRecord_of_read? h
    exact ⟨items, hrecord, (hadd items).1 hc⟩
  · rintro ⟨items, hrecord, hc⟩
    rw [read?_of_isRecord hrecord, hadd]
    exact hc

/-- **A fault in a value.** A text gives nothing when the name of a field is followed by no value
that the field can have, whatever stands before it and after it. -/
theorem read?_of_fault {es fs gs : List Char} (hopened : Opened o stored.toList cs)
    (hitems : Items o items cs ds) (hname : Named k.name ds es) (hspaced : Spaced es (':' :: fs))
    (hspaced' : Spaced fs gs)
    (hfault : ∀ (v : k.Value α) s rest, gs = s ++ rest → Writes k v s → ¬Followed rest) :
    (read? stored : Option (Change α)) = none := by
  rw [read?_eq, opening_eq_some_iff.2 hopened, Option.bind_some]
  dsimp only
  -- The items before the fault are added, and the reader comes to its name.
  obtain ⟨fuel, hfuel⟩ : ∃ fuel, cs.length + 1 = fuel + items.length :=
    ⟨cs.length + 1 - items.length, by have hle := hitems.length_le; omega⟩
  rw [hfuel, fields_of_items hitems]
  cases addAll ({} : Change α) items with
  | none => rfl
  | some c =>
    have hnone : fields o fuel c ds = none := by
      refine Option.eq_none_iff_forall_ne_some.2 fun ⟨c', rest⟩ hfields => ?_
      obtain ⟨items', hitems', -⟩ := allItems_of_fields hfields
      obtain ⟨i, mid, hi, hmid⟩ := hitems'.exists_first hname
      obtain ⟨v, s, rfl, hs⟩ := hi.exists_writes hname hspaced hspaced'
      exact hfault v s mid rfl hs hmid
    rw [Option.bind_some, hnone]
    rfl

end Restored

/-! ## Starting from records -/

namespace Session

open Record Restored
open Settings (Field)

variable {α : Type} [Number α]

/-- What a start has and records when nothing is given to any field. -/
def fresh : List (Entry α) × Session α := ([.restored .default], ofSettings .default)

/-- A start at which nothing is given is fresh. -/
theorem start_of_changeOf {stored : Option String} (h : changeOf stored = ({} : Change α)) :
    start stored = (fresh : List (Entry α) × Session α) := by
  rw [start, h]
  rfl

/-- **Starting from a record.** When a text is a record and gives no field twice, a session that
starts from it has the defaults with exactly the given fields overwritten, and then its counts are
held in range; so it depends on neither the order of the items, nor the gaps, nor the items with
other names. When a text gives a field twice, when it is no record, or when a field in it has no
value of its kind and range, the session has the defaults, whatever else the text gives. -/
theorem start_of_record :
    (∀ (stored : String) (items : List (Item α)), IsRecord stored.toList items →
      (fieldsOf items).Nodup → ∃ c : Change α, (∀ k v, c.get k = some v ↔ .field k v ∈ items) ∧
        start (some stored) = ([.restored (Settings.default.change c).clamped],
          ofSettings (Settings.default.change c.onScale).clamped)) ∧
    (∀ (stored stored' : String) (items items' : List (Item α)), IsRecord stored.toList items →
      IsRecord stored'.toList items' → (fieldsOf items).Nodup → (fieldsOf items').Nodup →
      (∀ k v, Item.field k v ∈ items ↔ Item.field k v ∈ items') →
      start (some stored) = (start (some stored') : List (Entry α) × Session α)) ∧
    (∀ (stored : String) (items : List (Item α)), IsRecord stored.toList items →
      ¬(fieldsOf items).Nodup → start (some stored) = (fresh : List (Entry α) × Session α)) ∧
    (∀ stored : String, (∀ items : List (Item α), ¬IsRecord stored.toList items) →
      start (some stored) = (fresh : List (Entry α) × Session α)) ∧
    ∀ (stored : String) (o : Options) (items : List (Item α)) (k : Field)
      (cs ds es fs gs : List Char), Opened o stored.toList cs → Items o items cs ds →
      Named k.name ds es → Spaced es (':' :: fs) → Spaced fs gs →
      (∀ (v : k.Value α) s rest, gs = s ++ rest → Writes k v s → ¬Followed rest) →
      start (some stored) = (fresh : List (Entry α) × Session α) := by
  have hgiven : ∀ (stored : String) (items : List (Item α)), IsRecord stored.toList items →
      (fieldsOf items).Nodup → ∃ c : Change α, (∀ k v, c.get k = some v ↔ .field k v ∈ items) ∧
        changeOf (some stored) = c := fun stored items hrecord hnodup => by
    obtain ⟨c, hc⟩ := exists_addAll hnodup (c := {}) fun k _ => Change.get_empty k
    have hget : ∀ k v, c.get k = some v ↔ .field k v ∈ items := by simp [addAll_eq_some.1 hc]
    refine ⟨c, hget, ?_⟩
    rw [changeOf, Option.bind_some, read?_eq_some_iff.2 ⟨items, hrecord, hnodup, hget⟩,
      Option.getD_some]
  have hnothing : ∀ stored : String, (∀ c : Change α, read? stored ≠ some c) →
      start (some stored) = (fresh : List (Entry α) × Session α) := fun stored h => by
    refine start_of_changeOf ?_
    rw [changeOf, Option.bind_some, Option.eq_none_iff_forall_ne_some.2 h, Option.getD_none]
  refine ⟨fun stored items hrecord hnodup => ?_, fun stored stored' items items' hrecord hrecord'
    hnodup hnodup' hsame => ?_, fun stored items hrecord htwice => hnothing stored fun c hc => ?_,
    fun stored hnone => hnothing stored fun c hc => ?_, fun stored o items k cs ds es fs gs hopened
    hitems hname hspaced hspaced' hfault => hnothing stored fun c hc => ?_⟩
  case refine_1 =>
    obtain ⟨c, hget, hc⟩ := hgiven stored items hrecord hnodup
    exact ⟨c, hget, by rw [start, hc]⟩
  case refine_2 =>
    obtain ⟨c, hget, hc⟩ := hgiven stored items hrecord hnodup
    obtain ⟨c', hget', hc'⟩ := hgiven stored' items' hrecord' hnodup'
    obtain rfl : c = c' := Change.ext_get fun k => Option.ext fun v => by rw [hget, hget', hsame]
    rw [start, start, hc, hc']
  case refine_3 => exact htwice (addAll_eq_some.1 ((read?_of_isRecord hrecord).symm.trans hc)).1
  case refine_4 =>
    obtain ⟨items, hrecord, -⟩ := read?_eq_some_iff.1 hc
    exact hnone items hrecord
  case refine_5 =>
    rw [read?_of_fault hopened hitems hname hspaced hspaced' hfault] at hc
    cases hc

/-- A record with blanks, comments, a name that no setting has, a count out of range and a comma at
the end. -/
def scattered : String := "( f1: \"x\",u:(),//\n points/**/:0,)"

/-- The same fields in another order. -/
def gathered : String := "(points:0,f1:\"x\")"

/-- What both records give. -/
def scatteredChange : Change Float := { first := some "x", points := some 0 }

/-- The count of draws is given twice. -/
def repeated : String := "(points:1,points:2)"

/-- A number is given where a text is needed. -/
def mistaken : String := "(points:1,f2:0)"

/-- The count of draws stands at the beginning. -/
theorem isItem_points (ds : List Char) {cs rest : List Char} {n : Nat}
    (hread : name cs = some ("points", ':' :: ds) ∧ skip (':' :: ds) = some (':' :: ds) ∧
      skip ds = some ds ∧ wholeOf .count64 ds = some (n, rest))
    (hrest : Followed rest) : IsItem .plain (.field .points n : Item Float) cs rest := by
  obtain ⟨hname, hcolon, hgap, hcount⟩ := hread
  obtain ⟨s, rfl, hs⟩ := (wholeOf_eq_some_iff (by decide) hrest).1 hcount
  exact .field (k := .points) (name_eq_some_iff.1 hname) (skip_eq_some_iff.1 hcolon)
    (skip_eq_some_iff.1 hgap) hs

/-- Both records are read alike. A record with a repeated field, one with a field of the wrong kind
and a text that begins within a record give nothing, not even the count of draws. -/
theorem start_of_record_scattered :
    start (some scattered) =
        ([.restored { Settings.default with first := "x", points := 1 }],
          (ofSettings { Settings.default with first := "x", points := 1 } : Session Float)) ∧
      start (some gathered) = (start (some scattered) : List (Entry Float) × Session Float) ∧
      start (some repeated) = (fresh : List (Entry Float) × Session Float) ∧
      start (some "points:1)") = (fresh : List (Entry Float) × Session Float) ∧
      start (some mistaken) = (fresh : List (Entry Float) × Session Float) := by
  obtain ⟨hgiven, hsame, hrepeated, hnone, hfault⟩ := start_of_record (α := Float)
  have hread : read? scattered = some scatteredChange := by decide +kernel
  have hread' : read? gathered = some scatteredChange := by decide +kernel
  obtain ⟨items, hrecord, hnodup, hitems⟩ := read?_eq_some_iff.1 hread
  obtain ⟨items', hrecord', hnodup', hitems'⟩ := read?_eq_some_iff.1 hread'
  have hcomma : ∀ cs, Spaced (',' :: cs) (',' :: cs) := fun cs => .done (by simp [isBlank])
  have hclose : Spaced [')'] [')'] := .done (by simp [isBlank])
  refine ⟨?_, hsame gathered scattered items' items hrecord' hrecord hnodup' hnodup fun k v => ?_,
    hrepeated repeated [.field .points (1 : Nat), .field .points (2 : Nat)] ?_ (by decide),
    hnone _ ?_, ?_⟩
  case refine_1 =>
    obtain ⟨c, hc, hstart⟩ := hgiven scattered items hrecord hnodup
    obtain rfl : c = scatteredChange := Change.ext_get fun k => Option.ext fun v => by
      rw [hc, hitems]
    rw [hstart]
    rfl
  case refine_2 => rw [← hitems, ← hitems']
  case refine_3 =>
    have hfirst : IsItem .plain (.field .points (1 : Nat) : Item Float)
        "points:1,points:2)".toList ",points:2)".toList :=
      isItem_points "1,points:2)".toList (by decide +kernel) ⟨_, _, hcomma _, .inl rfl⟩
    have hsecond : IsItem .plain (.field .points (2 : Nat) : Item Float) "points:2)".toList
        ")".toList :=
      isItem_points "2)".toList (by decide +kernel) ⟨_, _, hclose, .inr rfl⟩
    have hlast : AllItems .plain ([] ++ [_]) "points:2)".toList [] := .noComma .nil hsecond hclose
    exact ⟨.plain, "points:1,points:2)".toList, [], opened_of_toList (by decide +kernel),
      .cons hfirst (hcomma _) (skip_eq_some_iff.1 (by decide +kernel)) hlast, .done nofun⟩
  case refine_4 =>
    rintro items ⟨o, ds, rest, hopened, -⟩
    have hopening : opening "points:1)".toList = none := by decide +kernel
    rw [opening_eq_some_iff.2 hopened] at hopening
    cases hopening
  case refine_5 =>
    have hitem : IsItem .plain (.field .points (1 : Nat) : Item Float) "points:1,f2:0)".toList
        ",f2:0)".toList :=
      isItem_points "1,f2:0)".toList (by decide +kernel) ⟨_, _, hcomma _, .inl rfl⟩
    refine hfault mistaken .plain [_] .second _ "f2:0)".toList ":0)".toList "0)".toList "0)".toList
      (opened_of_toList (by decide +kernel))
      (.cons hitem (hcomma _) (skip_eq_some_iff.1 (by decide +kernel)) .nil)
      (name_eq_some_iff.1 (by decide +kernel)) (skip_eq_some_iff.1 (by decide +kernel))
      (skip_eq_some_iff.1 (by decide +kernel)) fun v s rest hs hwrites _ => ?_
    have htext : text "0)".toList = none := by decide +kernel
    exact absurd ((text_eq_some_iff.2 ⟨s, hs, hwrites⟩).symm.trans htext) nofun

end Session

end CurveArea
