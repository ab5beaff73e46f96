import CurveArea.Proofs.Record.Passing
import CurveArea.Session.Restored

/-!
# The items of a record of settings

Each setting has a field. The items of a record are fields with their values and other names with
values that are passed over, in any order (`AllItems`). When they are read, each is added to a
change, and nothing else is read (`fields_of_allItems`, `allItems_of_fields`). Items can be added
when no field is given twice, and then the change gives each field what the items give it, in
whatever order they stand (`addAll_eq_some`).
-/

namespace CurveArea

/-! ## Fields -/

/-- The fields of settings. -/
inductive Settings.Field
  | first
  | second
  | xMin
  | xMax
  | yMin
  | yMax
  | points
  | seed
  | passBound
  deriving DecidableEq

namespace Settings.Field

/-- The name under which a field is written. -/
def name : Field → String
  | first => "f1"
  | second => "f2"
  | xMin => "x_min"
  | xMax => "x_max"
  | yMin => "y_min"
  | yMax => "y_max"
  | points => "points"
  | seed => "graine"
  | passBound => "passes_max"

/-- Different fields have different names. -/
theorem name_injective {k k' : Field} (h : k.name = k'.name) : k = k' := by
  cases k <;> cases k' <;> first | rfl | exact absurd h (by decide)

/-- What a field can be given. -/
def Value (α : Type) : Field → Type
  | first => String
  | second => String
  | xMin => Given α
  | xMax => Given α
  | yMin => Given α
  | yMax => Given α
  | points => Nat
  | seed => UInt64
  | passBound => Nat

end Settings.Field

namespace Change

open Settings (Field)

variable {α : Type} {k k' : Field} {c c' : Change α}

/-- What a change gives a field. -/
def get (c : Change α) : (k : Field) → Option (k.Value α)
  | .first => c.first
  | .second => c.second
  | .xMin => c.xMin
  | .xMax => c.xMax
  | .yMin => c.yMin
  | .yMax => c.yMax
  | .points => c.points
  | .seed => c.seed
  | .passBound => c.passBound

/-- The change that gives a field something else, or nothing. -/
def give (c : Change α) : (k : Field) → Option (k.Value α) → Change α
  | .first, v => { c with first := v }
  | .second, v => { c with second := v }
  | .xMin, v => { c with xMin := v }
  | .xMax, v => { c with xMax := v }
  | .yMin, v => { c with yMin := v }
  | .yMax, v => { c with yMax := v }
  | .points, v => { c with points := v }
  | .seed, v => { c with seed := v }
  | .passBound, v => { c with passBound := v }

@[simp] theorem get_give (c : Change α) (k : Field) (v : Option (k.Value α)) :
    (c.give k v).get k = v := by
  cases k <;> rfl

/-- Giving one field something leaves the others as they are. -/
theorem get_give_of_ne (c : Change α) (h : k ≠ k') (v : Option (k.Value α)) :
    (c.give k v).get k' = c.get k' := by
  cases k <;> cases k' <;> first | rfl | exact absurd rfl h

@[simp] theorem get_empty (k : Field) : ({} : Change α).get k = none := by
  cases k <;> rfl

/-- A change is what it gives to all fields. -/
theorem ext_get (h : ∀ k, c.get k = c'.get k) : c = c' := by
  obtain ⟨_, _, _, _, _, _, _, _, _⟩ := c
  obtain ⟨_, _, _, _, _, _, _, _, _⟩ := c'
  obtain rfl := h .first
  obtain rfl := h .second
  obtain rfl := h .xMin
  obtain rfl := h .xMax
  obtain rfl := h .yMin
  obtain rfl := h .yMax
  obtain rfl := h .points
  obtain rfl := h .seed
  obtain rfl := h .passBound
  rfl

end Change

namespace Restored

open Record
open Settings (Field)

/-! ## Items -/

section
variable {α : Type} {k : Field} {c c' : Change α}

/-- An item of a record: a field with its value, or another name. -/
inductive Item (α : Type)
  | field (k : Field) (v : k.Value α)
  | other (name : String)

/-- The field of an item. -/
def Item.field? : Item α → Option Field
  | field k _ => some k
  | other _ => none

/-- The fields of items, in their order. -/
def fieldsOf (items : List (Item α)) : List Field := items.filterMap Item.field?

/-- Adds an item to a change, unless its field is given already. -/
def addTo (c : Change α) : Item α → Option (Change α)
  | .field k v => if (c.get k).isSome then none else some (c.give k (some v))
  | .other _ => some c

/-- Adds items to a change, each field of which is given for the first time. -/
def addAll (c : Change α) (items : List (Item α)) : Option (Change α) := items.foldlM addTo c

/-- The first item is added before the others. -/
theorem addAll_cons (c : Change α) (i : Item α) (items : List (Item α)) :
    addAll c (i :: items) = (addTo c i).bind fun c => addAll c items := rfl

/-- The last item is added after the others. -/
theorem addAll_concat (c : Change α) (items : List (Item α)) (i : Item α) :
    addAll c (items ++ [i]) = (addAll c items).bind fun c => addTo c i := by
  simp [addAll]

/-- What a change gives once a field has been added. -/
theorem get_give_eq_some {v : k.Value α} (hfresh : c.get k = none) (k' : Field) (v' : k'.Value α) :
    (c.give k (some v)).get k' = some v' ↔
      c.get k' = some v' ∨ Item.field k' v' = Item.field k v := by
  by_cases h : k = k'
  · subst h
    rw [Change.get_give, hfresh]
    simp [eq_comm]
  · rw [Change.get_give_of_ne c h]
    have hne : Item.field k' v' ≠ Item.field k v := fun heq => by
      cases heq
      exact h rfl
    simp [hne]

/-- Fields are still to be given once a field has been given that is none of them. -/
theorem fresh_give_iff {v : k.Value α} {ks : List Field} :
    (∀ k' ∈ ks, (c.give k (some v)).get k' = none) ↔ k ∉ ks ∧ ∀ k' ∈ ks, c.get k' = none := by
  constructor
  · intro h
    have hk : k ∉ ks := fun hk => by
      have hnone := h k hk
      rw [Change.get_give] at hnone
      cases hnone
    refine ⟨hk, fun k' hk' => ?_⟩
    have hne : k ≠ k' := by
      rintro rfl
      exact hk hk'
    rw [← h k' hk', Change.get_give_of_ne c hne]
  · rintro ⟨hk, h⟩ k' hk'
    have hne : k ≠ k' := by
      rintro rfl
      exact hk hk'
    rw [Change.get_give_of_ne c hne, h k' hk']

/-- **Items.** They can be added when no field is given twice, and then the change gives in addition
what they give. -/
theorem addAll_eq_some {items : List (Item α)} : addAll c items = some c' ↔
    (fieldsOf items).Nodup ∧ (∀ k ∈ fieldsOf items, c.get k = none) ∧
      ∀ k v, c'.get k = some v ↔ c.get k = some v ∨ .field k v ∈ items := by
  induction items generalizing c with
  | nil =>
    have hall : (∀ k v, c'.get k = some v ↔ c.get k = some v) ↔ c = c' :=
      ⟨fun h => Change.ext_get fun k => Option.ext fun v => (h k v).symm, by rintro rfl; simp⟩
    simp [addAll, fieldsOf, hall, eq_comm]
  | cons i items ih =>
    rw [addAll_cons]
    cases i with
    | other name =>
      have hfields : fieldsOf (.other name :: items) = fieldsOf items := rfl
      simp [addTo, ih, hfields]
    | field k v =>
      have hfields : fieldsOf (.field k v :: items) = k :: fieldsOf items := rfl
      rw [addTo, hfields, List.nodup_cons, List.forall_mem_cons]
      cases hk : c.get k with
      | some v' => simp
      | none =>
        rw [Option.isSome_none, if_neg Bool.false_ne_true, Option.bind_some, ih, fresh_give_iff]
        simp only [get_give_eq_some hk, List.mem_cons, or_assoc]
        tauto

/-- Items can be added when no field is given twice, be it by them or before them. -/
theorem exists_addAll {items : List (Item α)} (hnodup : (fieldsOf items).Nodup)
    (hfresh : ∀ k ∈ fieldsOf items, c.get k = none) : ∃ c', addAll c items = some c' := by
  induction items generalizing c with
  | nil => exact ⟨c, rfl⟩
  | cons i items ih =>
    cases i with
    | other name => exact ih hnodup hfresh
    | field k v =>
      obtain ⟨hk, hnodup⟩ := List.nodup_cons.1 hnodup
      obtain ⟨hfirst, hfresh⟩ := List.forall_mem_cons.1 hfresh
      obtain ⟨c', hc'⟩ := ih hnodup (fresh_give_iff.2 ⟨hk, hfresh⟩)
      refine ⟨c', ?_⟩
      rw [addAll_cons, addTo, hfirst]
      exact hc'

end

/-! ## Written items -/

section
variable {α : Type} [Numeral α] {k : Field} {cs rest : List Char}

/-- Characters write a value of a field. -/
def Writes : (k : Field) → k.Value α → List Char → Prop
  | .first, v, s => IsText v s
  | .second, v, s => IsText v s
  | .xMin, v, s => ∃ literal, IsNumber literal s ∧ Given.read? literal = some v
  | .xMax, v, s => ∃ literal, IsNumber literal s ∧ Given.read? literal = some v
  | .yMin, v, s => ∃ literal, IsNumber literal s ∧ Given.read? literal = some v
  | .yMax, v, s => ∃ literal, IsNumber literal s ∧ Given.read? literal = some v
  | .points, v, s => IsCount .count64 v s
  | .seed, v, s => IsCount .count64 v.toNat s
  | .passBound, v, s => IsCount .count32 v s

/-- The reader of the values of a field. -/
def readValue : (k : Field) → List Char → Option (k.Value α × List Char)
  | .first => text
  | .second => text
  | .xMin => given
  | .xMax => given
  | .yMin => given
  | .yMax => given
  | .points => wholeOf .count64
  | .seed => fun cs => (wholeOf .count64 cs).map fun (n, rest) => (UInt64.ofNat n, rest)
  | .passBound => wholeOf .count32

/-- A field is read by its own reader, if it is not given already. -/
theorem fieldValue_name (o : Options) (k : Field) (c : Change α) (cs : List Char) :
    fieldValue o k.name c cs = once (c.get k) (readValue k cs) (c.give k) := by
  cases k <;> rfl

/-- The value of another name is passed over. -/
theorem fieldValue_other (o : Options) {name : String} (h : ∀ k : Field, name ≠ k.name)
    (c : Change α) (cs : List Char) : fieldValue o name c cs =
      (passValue o.toWrapping (4 * cs.length + 4) (depth - 2) cs).map fun rest => (c, rest) := by
  unfold fieldValue
  split
  case h_1 => exact absurd rfl (h .first)
  case h_2 => exact absurd rfl (h .second)
  case h_3 => exact absurd rfl (h .xMin)
  case h_4 => exact absurd rfl (h .xMax)
  case h_5 => exact absurd rfl (h .yMin)
  case h_6 => exact absurd rfl (h .yMax)
  case h_7 => exact absurd rfl (h .points)
  case h_8 => exact absurd rfl (h .seed)
  case h_9 => exact absurd rfl (h .passBound)
  case h_10 => rfl

/-- The reader of bounds reads the literals of numbers. -/
theorem given_eq_some_iff {v : Given α} (hrest : Followed rest) : given cs = some (v, rest) ↔
    ∃ s, cs = s ++ rest ∧ ∃ literal, IsNumber literal s ∧ Given.read? literal = some v := by
  simp only [given, Option.bind_eq_bind, Option.pure_def, Option.bind_eq_some_iff]
  constructor
  · rintro ⟨⟨literal, rest'⟩, hnumber, v', hv, heq⟩
    cases heq
    obtain ⟨s, hs, hliteral⟩ := (number_eq_some_iff hrest).1 hnumber
    exact ⟨s, hs, literal, hliteral, hv⟩
  · rintro ⟨s, hs, literal, hliteral, hv⟩
    exact ⟨(literal, rest), (number_eq_some_iff hrest).2 ⟨s, hs, hliteral⟩, v, hv, rfl⟩

/-- A count of 64 bits is less than two to this power. -/
theorem lt_of_isCount64 {n : Nat} {s : List Char} (h : IsCount .count64 n s) : n < 2 ^ 64 := by
  obtain @⟨negative, sign, mark, ds, suffix, base, -, -, -, -, hholds⟩ := h
  cases negative with
  | false => exact of_decide_eq_true hholds
  | true =>
    have hzero := of_decide_eq_true hholds
    omega

/-- The seed is written as a count. -/
theorem seed_eq_some_iff {v : UInt64} (hrest : Followed rest) :
    ((wholeOf .count64 cs).map fun (n, rest) => (UInt64.ofNat n, rest)) = some (v, rest) ↔
      ∃ s, cs = s ++ rest ∧ IsCount .count64 v.toNat s := by
  rw [← wholeOf_eq_some_iff (by decide) hrest, Option.map_eq_some_iff]
  constructor
  · rintro ⟨⟨n, rest'⟩, hcount, heq⟩
    cases heq
    obtain ⟨s, -, hs⟩ := (wholeOf_eq_some_iff (by decide) hrest).1 hcount
    rwa [UInt64.toNat_ofNat_of_lt' (lt_of_isCount64 hs)]
  · intro hcount
    exact ⟨_, hcount, by simp⟩

/-- **Values.** Where a value may end, the reader of a field reads what the characters before the
rest write. -/
theorem readValue_eq_some_iff {v : k.Value α} (hrest : Followed rest) :
    readValue k cs = some (v, rest) ↔ ∃ s, cs = s ++ rest ∧ Writes k v s := by
  cases k with
  | first | second => exact text_eq_some_iff
  | xMin | xMax | yMin | yMax => exact given_eq_some_iff hrest
  | points | passBound => exact wholeOf_eq_some_iff (by decide) hrest
  | seed => exact seed_eq_some_iff hrest

/-! ## Reading items -/

/-- An item stands at the beginning of some characters: a field with its value, or another name with
a value that can be passed over. -/
inductive IsItem (o : Options) : Item α → (cs rest : List Char) → Prop
  | field {k : Field} {v : k.Value α} {cs ds es s rest : List Char} : Named k.name cs ds →
      Spaced ds (':' :: es) → Spaced es (s ++ rest) → Writes k v s → IsItem o (.field k v) cs rest
  | other {name : String} {cs ds es fs rest : List Char} : Named name cs ds →
      (∀ k : Field, name ≠ k.name) → Spaced ds (':' :: es) → Spaced es fs →
      Passes o.toWrapping .value (depth - 2) fs rest → IsItem o (.other name) cs rest

/-- Reads an item and adds it to a change. -/
def readItem (o : Options) (c : Change α) (cs : List Char) : Option (Change α × List Char) :=
  (name cs).bind fun (field, cs) => (skip cs).bind fun cs => (mark ":" cs).bind fun cs =>
    fieldValue o field c cs

/-- Reads what stands after an item: a comma and more items, or the parenthesis that closes the
record. -/
def fieldsAfter (o : Options) (fuel : Nat) (c : Change α) :
    List Char → Option (Change α × List Char)
  | ',' :: cs => (skip cs).bind fun cs => fields o fuel c cs
  | ')' :: cs => some (c, cs)
  | _ => none

/-- Items are read one by one, each with the mark behind it. -/
theorem fields_succ (o : Options) (fuel : Nat) (c : Change α) (hclose : cs.head? ≠ some ')') :
    fields o (fuel + 1) c cs =
      (readItem o c cs).bind fun (c, cs) => (skip cs).bind (fieldsAfter o fuel c) := by
  rw [fields]
  · simp only [readItem, Option.bind_eq_bind, Option.bind_assoc]
    rfl
  · rintro ds rfl
    exact hclose rfl

/-- An item is read and added. -/
theorem readItem_of_isItem {o : Options} {i : Item α} (h : IsItem o i cs rest)
    (hrest : Followed rest) (c : Change α) :
    readItem o c cs = (addTo c i).map fun c => (c, rest) := by
  cases h with
  | @field k v _ ds es s _ hname hspaced hspaced' hs =>
    have hmark : mark ":" (':' :: es) = some (s ++ rest) := mark_eq_some_iff.2 ⟨es, rfl, hspaced'⟩
    have hvalue := (readValue_eq_some_iff hrest).2 ⟨s, rfl, hs⟩
    simp only [readItem, name_eq_some_iff.2 hname, skip_eq_some_iff.2 hspaced, hmark,
      Option.bind_some]
    rw [fieldValue_name, hvalue, once, addTo]
    cases (c.get k).isSome <;> rfl
  | @other name _ ds es fs _ hname hother hspaced hspaced' hvalue =>
    have hmark : mark ":" (':' :: es) = some fs := mark_eq_some_iff.2 ⟨es, rfl, hspaced'⟩
    have hpass : passValue o.toWrapping (4 * fs.length + 4) (depth - 2) fs = some rest :=
      (passValue_eq_some_iff (by omega)).2 hvalue
    simp only [readItem, name_eq_some_iff.2 hname, skip_eq_some_iff.2 hspaced, hmark,
      Option.bind_some]
    rw [fieldValue_other o hother, hpass]
    rfl

/-- What is read and added is an item. -/
theorem isItem_of_readItem {o : Options} {c c' : Change α} (h : readItem o c cs = some (c', rest))
    (hrest : Followed rest) : ∃ i, IsItem o i cs rest ∧ addTo c i = some c' := by
  obtain ⟨⟨n, ds⟩, hname, h⟩ := Option.bind_eq_some_iff.1 h
  obtain ⟨es, hskip, h⟩ := Option.bind_eq_some_iff.1 h
  obtain ⟨fs, hmark, hvalue⟩ := Option.bind_eq_some_iff.1 h
  have hname := name_eq_some_iff.1 hname
  have hspaced := skip_eq_some_iff.1 hskip
  obtain ⟨es, rfl, hspaced'⟩ := mark_eq_some_iff.1 hmark
  by_cases hfield : ∃ k : Field, n = k.name
  · obtain ⟨k, rfl⟩ := hfield
    rw [fieldValue_name, once] at hvalue
    split at hvalue
    case isTrue => cases hvalue
    case isFalse hfresh =>
      obtain ⟨⟨v, rest'⟩, hread, heq⟩ := Option.map_eq_some_iff.1 hvalue
      cases heq
      obtain ⟨s, rfl, hs⟩ := (readValue_eq_some_iff hrest).1 hread
      exact ⟨.field k v, .field hname hspaced hspaced' hs, if_neg hfresh⟩
  · have hother : ∀ k : Field, n ≠ k.name := fun k hk => hfield ⟨k, hk⟩
    rw [fieldValue_other o hother] at hvalue
    obtain ⟨rest', hpass, heq⟩ := Option.map_eq_some_iff.1 hvalue
    cases heq
    have hpasses := (passValue_eq_some_iff (by omega)).1 hpass
    exact ⟨.other n, .other hname hother hspaced hspaced' hpasses, rfl⟩

/-- Items stand at the beginning of some characters, with a comma after each of them. -/
inductive Items (o : Options) : List (Item α) → (cs rest : List Char) → Prop
  | nil {rest : List Char} : Items o [] rest rest
  | cons {i : Item α} {items : List (Item α)} {cs ds es fs rest : List Char} : IsItem o i cs ds →
      Spaced ds (',' :: es) → Spaced es fs → Items o items fs rest → Items o (i :: items) cs rest

/-- All items of a record stand at the beginning of some characters, and the parenthesis that closes
it. After the last item there may be a comma. -/
inductive AllItems (o : Options) : List (Item α) → (cs rest : List Char) → Prop
  | comma {items : List (Item α)} {cs rest : List Char} : Items o items cs (')' :: rest) →
      AllItems o items cs rest
  | noComma {items : List (Item α)} {i : Item α} {cs ds es rest : List Char} : Items o items cs ds →
      IsItem o i ds es → Spaced es (')' :: rest) → AllItems o (items ++ [i]) cs rest

variable {o : Options} {i : Item α} {items : List (Item α)} {c c' : Change α}
  {ds es mid : List Char}

/-- An item begins with its name. -/
theorem IsItem.head_ne (h : IsItem o i cs rest) : cs.head? ≠ some ')' := by
  intro hhead
  obtain ⟨ds, rfl⟩ := List.head?_eq_some_iff.1 hhead
  cases h with
  | field hname | other hname => exact hname.1.ne_cons (by simp [marks]) ds rfl

/-- An item has a character. -/
theorem IsItem.length_lt (h : IsItem o i cs rest) : rest.length < cs.length := by
  cases h with
  | field hname hspaced hspaced' =>
    have hlt := hname.1.length_lt
    have hle := hspaced.length_le
    have hle' := hspaced'.length_le
    simp only [List.length_cons, List.length_append] at hle hle'
    omega
  | other hname _ hspaced hspaced' hvalue =>
    have hlt := hname.1.length_lt
    have hle := hspaced.length_le
    have hle' := hspaced'.length_le
    have hle'' := hvalue.length_le
    simp only [List.length_cons] at hle
    omega

/-- There are no more items than characters before what is left. -/
theorem Items.length_le (h : Items o items cs rest) : items.length + rest.length ≤ cs.length := by
  induction h with
  | nil => simp
  | cons hi hspaced hspaced' _ ih =>
    have hlt := hi.length_lt
    have hle := hspaced.length_le
    have hle' := hspaced'.length_le
    simp only [List.length_cons] at hle ⊢
    omega

/-- There are fewer items than characters, since the record is closed. -/
theorem AllItems.length_le (h : AllItems o items cs rest) : items.length < cs.length := by
  cases h with
  | comma h =>
    have hle := h.length_le
    simp only [List.length_cons] at hle
    omega
  | noComma h hi hclose =>
    have hle := h.length_le
    have hlt := hi.length_lt
    have hle' := hclose.length_le
    simp only [List.length_append, List.length_cons, List.length_nil] at hle' ⊢
    omega

/-- An item with a comma may come before all items of a record. -/
theorem AllItems.cons (hi : IsItem o i cs ds) (hspaced : Spaced ds (',' :: es))
    (hspaced' : Spaced es mid) (h : AllItems o items mid rest) :
    AllItems o (i :: items) cs rest := by
  cases h with
  | comma h => exact .comma (.cons hi hspaced hspaced' h)
  | noComma h hi' hclose => exact .noComma (.cons hi hspaced hspaced' h) hi' hclose

/-- Before a name there is an item. -/
theorem AllItems.exists_first (h : AllItems o items cs rest) {n : String} (hname : Named n cs ds) :
    ∃ (i : Item α) (mid : List Char), IsItem o i cs mid ∧ Followed mid := by
  have hclose : ∀ es, cs ≠ ')' :: es := hname.1.ne_cons (by simp [marks])
  cases h with
  | comma h =>
    cases h with
    | nil => exact absurd rfl (hclose rest)
    | cons hi hspaced => exact ⟨_, _, hi, _, _, hspaced, .inl rfl⟩
  | noComma h hi hspaced =>
    cases h with
    | nil => exact ⟨_, _, hi, _, _, hspaced, .inr rfl⟩
    | cons hi hspaced => exact ⟨_, _, hi, _, _, hspaced, .inl rfl⟩

/-- An item with the name of a field has a value of the field. -/
theorem IsItem.exists_writes (h : IsItem o i cs rest) (hname : Named k.name cs ds)
    (hspaced : Spaced ds (':' :: es)) (hspaced' : Spaced es mid) :
    ∃ (v : k.Value α) (s : List Char), mid = s ++ rest ∧ Writes k v s := by
  cases h with
  | @field k' v _ ds' es' s _ hname' hgap hgap' hs =>
    obtain ⟨hk, rfl⟩ := hname.unique hname'
    obtain rfl := Settings.Field.name_injective hk
    obtain rfl : es = es' := (List.cons.inj (hspaced.unique hgap)).2
    exact ⟨v, s, hspaced'.unique hgap', hs⟩
  | other hname' hother => exact absurd (hname.unique hname').1.symm (hother k)

/-- What items with commas give is added before the rest is read. -/
theorem fields_of_items (h : Items o items cs rest) (fuel : Nat) (c : Change α) :
    fields o (fuel + items.length) c cs =
      (addAll c items).bind fun c => fields o fuel c rest := by
  induction h generalizing c with
  | nil => rfl
  | @cons i items cs ds es fs rest hi hspaced hspaced' _ ih =>
    have hread := readItem_of_isItem hi ⟨',', es, hspaced, .inl rfl⟩ c
    rw [List.length_cons, ← Nat.add_assoc, fields_succ o _ c hi.head_ne, hread, addAll_cons]
    cases addTo c i with
    | none => rfl
    | some c =>
      simp only [Option.map_some, Option.bind_some, skip_eq_some_iff.2 hspaced, fieldsAfter,
        skip_eq_some_iff.2 hspaced', ih]

/-- **Items are read.** -/
theorem fields_of_allItems (h : AllItems o items cs rest) {fuel : Nat} (hfuel : items.length < fuel)
    (c : Change α) : fields o fuel c cs = (addAll c items).map fun c => (c, rest) := by
  cases h with
  | comma h =>
    obtain ⟨k, rfl⟩ : ∃ k, fuel = k + 1 + items.length := ⟨fuel - items.length - 1, by omega⟩
    rw [fields_of_items h]
    cases addAll c items with
    | none => rfl
    | some c => rfl
  | @noComma items i _ ds es _ h hi hclose =>
    rw [List.length_append, List.length_singleton] at hfuel
    obtain ⟨k, rfl⟩ : ∃ k, fuel = k + 1 + items.length := ⟨fuel - items.length - 1, by omega⟩
    rw [fields_of_items h, addAll_concat]
    cases addAll c items with
    | none => rfl
    | some c =>
      rw [Option.bind_some, Option.bind_some, fields_succ o k c hi.head_ne,
        readItem_of_isItem hi ⟨')', rest, hclose, .inr rfl⟩]
      cases addTo c i with
      | none => rfl
      | some c =>
        simp only [Option.map_some, Option.bind_some, skip_eq_some_iff.2 hclose, fieldsAfter]

/-- Nothing else is read. -/
theorem allItems_of_fields {fuel : Nat} (h : fields o fuel c cs = some (c', rest)) :
    ∃ items, AllItems o items cs rest ∧ addAll c items = some c' := by
  induction fuel generalizing c cs with
  | zero => cases h
  | succ fuel ih =>
    by_cases hclose : cs.head? = some ')'
    · obtain ⟨ds, rfl⟩ := List.head?_eq_some_iff.1 hclose
      simp only [fields, Option.some.injEq, Prod.mk.injEq] at h
      obtain ⟨rfl, rfl⟩ := h
      exact ⟨[], .comma .nil, rfl⟩
    · rw [fields_succ o fuel c hclose] at h
      obtain ⟨⟨c₁, ds⟩, hread, h⟩ := Option.bind_eq_some_iff.1 h
      obtain ⟨es, hskip, h⟩ := Option.bind_eq_some_iff.1 h
      have hspaced := skip_eq_some_iff.1 hskip
      unfold fieldsAfter at h
      split at h
      case h_1 fs =>
        obtain ⟨gs, hskip', h⟩ := Option.bind_eq_some_iff.1 h
        obtain ⟨i, hi, hadd⟩ := isItem_of_readItem hread ⟨',', fs, hspaced, .inl rfl⟩
        obtain ⟨items, hitems, hall⟩ := ih h
        refine ⟨i :: items, .cons hi hspaced (skip_eq_some_iff.1 hskip') hitems, ?_⟩
        rw [addAll_cons, hadd, Option.bind_some, hall]
      case h_2 fs =>
        cases h
        obtain ⟨i, hi, hadd⟩ := isItem_of_readItem hread ⟨')', rest, hspaced, .inr rfl⟩
        have hlast : AllItems o ([] ++ [i]) cs rest := .noComma .nil hi hspaced
        exact ⟨[i], hlast, by rw [addAll_cons, hadd]; rfl⟩
      case h_3 => cases h

end

end Restored

end CurveArea
