import CurveArea.Proofs.Float.Reading
import CurveArea.Proofs.Record.Texts
import CurveArea.Proofs.Record.Values
import CurveArea.Proofs.Session.Histories
import CurveArea.Proofs.Session.Records

/-!
# Settings that are stored and restored

The settings of a session are stored as a record with one item for every field, in which a bound is
written as it is shown (`isRecord_stored`). Every record is read as its items, so these settings are
read back (`read?_stored`), and a session that starts from them has them again (`start_stored`).
-/

namespace CurveArea

open CurveArea.Decimal CurveArea.Record CurveArea.Binary64

/-! ## Stored numbers -/

section
variable {v : Float} {cs : List Char}

/-- A number is stored with characters that it may be written with. -/
theorem written_storedNumber (hv : v.isNaN = false) : Written v (storedNumber v).toList := by
  have htext := written_text hv
  unfold storedNumber
  dsimp only
  generalize Numeral.text v = t at htext ⊢
  generalize hchars : t.toList = ds at htext
  by_cases hall : (ds.all fun c => c.isDigit || c = '-') = true
  -- A text with a point or a letter is stored as it is.
  case neg =>
    rw [if_neg hall, hchars]
    exact htext
  rw [if_pos hall]
  cases htext with
  | @infinite negative h => cases negative <;> cases hall
  | @finite negative m e h cs hcs =>
    rw [List.all_eq_true] at hall
    have hdigits : ∀ d ∈ cs, d.isDigit = true := fun d hd => by
      refine (hcs.isDigit_or_eq hd).resolve_right ?_
      rintro rfl
      have hpoint := hall '.' (by cases negative <;> simp [hd])
      exact absurd hpoint (by decide)
    have hwritten := Written.finite h (hcs.append_zero hdigits)
    have hlist : (t ++ ".0").toList =
        if negative then '-' :: (cs ++ ['.', '0']) else cs ++ ['.', '0'] := by
      rw [String.toList_append, hchars]
      cases negative <;> rfl
    rwa [hlist]

/-- What a number may be written with is a number of a record. -/
theorem isNumber_of_written (h : Written v cs) : IsNumber (String.ofList cs) cs := by
  cases h with
  | @infinite negative => exact isNumber_infinity negative
  | @finite negative _ _ _ _ hcs => exact isNumber_plain hcs negative

/-- A stored number writes the bound that it is, and it is on the scale. -/
theorem writes_storedNumber (hv : v.isNaN = false) :
    ∃ literal, IsNumber literal (storedNumber v).toList ∧
      Given.read? literal = some (⟨v, v⟩ : Given Float) := by
  have hwritten := written_storedNumber hv
  have hnumber := isNumber_of_written hwritten
  rw [String.ofList_toList] at hnumber
  obtain ⟨l, hread, hscale, hl⟩ := hwritten.reads
  have hliteral : Literal.read? (storedNumber v) = some l := hread
  refine ⟨storedNumber v, hnumber, ?_⟩
  simp [Given.read?, Numeral.read?, Numeral.readOnScale?, hliteral, hscale, hl]

end

/-! ## Settings -/

section
variable {α : Type}

/-- The change that gives every setting. -/
def Change.ofSettings (s : Settings α) : Change α where
  first := some s.first
  second := some s.second
  xMin := some ⟨s.xMin, s.xMin⟩
  xMax := some ⟨s.xMax, s.xMax⟩
  yMin := some ⟨s.yMin, s.yMin⟩
  yMax := some ⟨s.yMax, s.yMax⟩
  points := some s.points
  seed := some s.seed
  passBound := some s.passBound

/-- A change that gives every setting leaves nothing of the settings before. -/
theorem Settings.change_ofSettings (s t : Settings α) : s.change (.ofSettings t) = t := rfl

/-- Such a change stays as it is when it is held on the scale: it gives the bounds that are
shown. -/
theorem Change.onScale_ofSettings (s : Settings α) : (ofSettings s).onScale = ofSettings s := rfl

/-- The items that settings are stored as. -/
def Settings.items (s : Settings α) : List (Restored.Item α) :=
  [.field .first s.first, .field .second s.second, .field .xMin (⟨s.xMin, s.xMin⟩ : Given α),
    .field .xMax (⟨s.xMax, s.xMax⟩ : Given α), .field .yMin (⟨s.yMin, s.yMin⟩ : Given α),
    .field .yMax (⟨s.yMax, s.yMax⟩ : Given α), .field .points s.points, .field .seed s.seed,
    .field .passBound s.passBound]

/-- The items give every setting, and none of them twice. -/
theorem Settings.addAll_items (s : Settings α) :
    Restored.addAll {} s.items = some (Change.ofSettings s) := rfl

end

/-- The bounds of settings are defined. -/
structure Settings.Defined (s : Settings Float) : Prop where
  /-- The left bound is a number. -/
  xMin : s.xMin.isNaN = false
  /-- The right bound is a number. -/
  xMax : s.xMax.isNaN = false
  /-- The lower bound is a number. -/
  yMin : s.yMin.isNaN = false
  /-- The upper bound is a number. -/
  yMax : s.yMax.isNaN = false

namespace Restored

open Settings (Field)

variable {α : Type} [Numeral α] {value : String}

/-! ## Items -/

/-- What fields are called by begins and goes on as a name does, and the first letter is none that
could begin a text. -/
theorem exists_cons_of_name (k : Field) : ∃ c ds, k.name.toList = c :: ds ∧
    Text.isNameStart c = true ∧ (∀ d ∈ ds, Text.isNameChar d = true) ∧ c ≠ 'b' ∧ c ≠ 'r' ∧
      isBlank c = false ∧ c ≠ '/' := by
  have hall : (k.name.toList.head?.any (fun c => Text.isNameStart c && c ≠ 'b' && c ≠ 'r' &&
      !isBlank c && c ≠ '/') && k.name.toList.tail.all Text.isNameChar) = true := by
    cases k <;> decide +kernel
  cases hname : k.name.toList with
  | nil => simp [hname] at hall
  | cons c ds =>
    simp only [hname, List.head?_cons, List.tail_cons, Option.any_some, Bool.and_eq_true,
      List.all_eq_true, decide_eq_true_eq, Bool.not_eq_true'] at hall
    obtain ⟨⟨⟨⟨⟨hstart, hb⟩, hr⟩, hblank⟩, hslash⟩, hds⟩ := hall
    exact ⟨c, ds, rfl, hstart, hds, hb, hr, hblank, hslash⟩

/-- The name of a field stands before a colon. -/
theorem named_name (k : Field) (rest : List Char) :
    Named k.name (k.name.toList ++ ':' :: rest) (':' :: rest) := by
  obtain ⟨c, ds, hname, hstart, hds, hb, hr, -⟩ := exists_cons_of_name k
  have hstop : Text.isNameChar ':' = false := isNameChar_of_mem_marks (by simp [marks])
  refine ⟨?_, by simp [isMarkedChar, hstop]⟩
  rw [hname]
  exact .plain hstart hds (goesOn_of_mem_marks (by simp [marks])) (beginsText_eq_false hb hr)
    fun es heq => hr (List.cons.inj heq).1

/-- A value begins with a character that is not passed over. -/
def isSolid (value : String) : Bool :=
  value.toList.head?.any fun c => c ≠ '/' && !isBlank c

/-- No gap stands before a value that begins at once. -/
theorem spaced_of_isSolid (h : isSolid value = true) (rest : List Char) :
    Spaced (value.toList ++ rest) (value.toList ++ rest) := by
  unfold isSolid at h
  cases hlist : value.toList with
  | nil => simp [hlist] at h
  | cons d ds => exact .done (by simpa [hlist, and_comm] using h)

/-- A name and a text are stored for an item: for a field of this name, with a value that the text
writes and begins at once. -/
inductive Stores : String × String → Item α → Prop
  | field {k : Field} {v : k.Value α} {value : String} (hsolid : isSolid value = true)
    (hwrites : Writes k v value.toList) : Stores (k.name, value) (.field k v)

/-- What is stored for an item is read as the item. -/
theorem Stores.isItem {f : String × String} {i : Item α} (h : Stores f i) (o : Options)
    (rest : List Char) : IsItem o i (f.1.toList ++ ':' :: (f.2.toList ++ rest)) rest := by
  cases h with
  | @field k v value hsolid hwrites =>
    exact .field (named_name k _) (.done (by simp [isBlank])) (spaced_of_isSolid hsolid rest)
      hwrites

/-- The characters of fields with commas between them. -/
def joined (fs : List (String × String)) : List Char :=
  [','].intercalate (fs.map fun f => f.1.toList ++ ':' :: f.2.toList)

/-- A field alone has no comma. -/
theorem joined_singleton (f : String × String) : joined [f] = f.1.toList ++ ':' :: f.2.toList := by
  simp [joined]

/-- A field has a comma before the next one. -/
theorem joined_cons_cons (f f' : String × String) (fs : List (String × String)) :
    joined (f :: f' :: fs) = f.1.toList ++ ':' :: (f.2.toList ++ ',' :: joined (f' :: fs)) := by
  simp [joined]

/-- No gap stands before fields. -/
theorem Stores.spaced_joined {f : String × String} {i : Item α} (h : Stores f i)
    (fs : List (String × String)) (rest : List Char) :
    Spaced (joined (f :: fs) ++ rest) (joined (f :: fs) ++ rest) := by
  cases h with
  | @field k v value =>
    obtain ⟨c, ds, hname, -, -, -, -, hsolid⟩ := exists_cons_of_name k
    have hjoined : ∃ es, joined ((k.name, value) :: fs) = c :: es := by
      cases fs with
      | nil => exact ⟨_, by rw [joined_singleton, hname]; rfl⟩
      | cons f fs => exact ⟨_, by rw [joined_cons_cons, hname]; rfl⟩
    obtain ⟨es, hes⟩ := hjoined
    rw [hes]
    exact .done (by simpa using hsolid)

/-- **All fields.** What is stored for items, with commas between and a parenthesis behind, is read
as all items of a record. -/
theorem allItems_joined {f : String × String} {fs : List (String × String)} {i : Item α}
    {items : List (Item α)} (h : Stores f i) (hs : List.Forall₂ Stores fs items) (o : Options)
    (rest : List Char) : AllItems o (i :: items) (joined (f :: fs) ++ ')' :: rest) rest := by
  induction hs generalizing f i with
  | nil =>
    rw [joined_singleton, List.append_assoc, List.cons_append]
    exact .noComma .nil (h.isItem o _) (.done (by simp [isBlank]))
  | @cons f' i' fs items hf hfs ih =>
    rw [joined_cons_cons, List.append_assoc, List.cons_append, List.append_assoc, List.cons_append]
    exact .cons (h.isItem o _) (.done (by simp [isBlank])) (hf.spaced_joined fs _) (ih hf)

/-! ## Values -/

/-- A text that begins with a digit begins at once. -/
theorem isSolid_of_isDigit {d : Char} {ds : List Char} (hvalue : value.toList = d :: ds)
    (hd : d.isDigit = true) : isSolid value = true := by
  have hslash : d ≠ '/' := by
    rintro rfl
    exact absurd hd (by decide)
  have hblank : isBlank d = false := by
    have hrange : '0'.val ≤ d.val ∧ d.val ≤ '9'.val := by simpa [Char.isDigit] using hd
    have hlow : '0'.toNat ≤ d.toNat := hrange.1
    have hhigh : d.toNat ≤ '9'.toNat := hrange.2
    have hzero : '0'.toNat = 48 := rfl
    have hnine : '9'.toNat = 57 := rfl
    simp only [isBlank, Bool.or_eq_false_iff, Bool.and_eq_false_iff, decide_eq_false_iff_not,
      beq_eq_false_iff_ne]
    omega
  simp [isSolid, hvalue, hslash, hblank]

/-- A quoted text begins with a quotation mark. -/
theorem isSolid_quote (s : String) : isSolid (Text.stored.quote s) = true := by
  simp [isSolid, Text.Quotation.quote, isBlank]

/-- A count is written in decimal digits. -/
theorem toList_toString (n : Nat) : (toString n).toList = digits n := by
  simp [digits]

/-- A count begins with a digit. -/
theorem isSolid_toString (n : Nat) : isSolid (toString n) = true := by
  obtain ⟨d, ds, hcons⟩ := List.exists_cons_of_ne_nil (digits_ne_nil n)
  exact isSolid_of_isDigit ((toList_toString n).trans hcons)
    (isDigit_of_mem_digits (n := n) (hcons ▸ List.mem_cons_self))

/-- A number begins with a digit, a letter or its sign. -/
theorem isSolid_storedNumber {v : Float} (hv : v.isNaN = false) :
    isSolid (storedNumber v) = true := by
  have hwritten := written_storedNumber hv
  generalize hvalue : (storedNumber v).toList = cs at hwritten
  cases hwritten with
  | @infinite negative h =>
    rw [isSolid, hvalue]
    cases negative <;> decide
  | @finite negative m e h cs hcs =>
    obtain ⟨d, ds, rfl, hd⟩ := hcs.exists_cons
    cases negative with
    | true =>
      rw [isSolid, hvalue]
      rfl
    | false => exact isSolid_of_isDigit hvalue hd

/-- A count of a kind writes itself. -/
theorem isCount_toString {k : WholeKind} {n : Nat} (hn : k.holds false n = true) :
    IsCount k n (toString n).toList := by
  rw [toList_toString]
  exact isCount_digits hn

/-! ## The record -/

/-- Settings are stored as the record of their fields. -/
theorem toList_stored (s : Settings Float) :
    s.stored.toList = '(' :: (joined (s.fields Text.stored.quote storedNumber) ++ [')']) := by
  simp [Settings.stored, joined, List.map_map, Function.comp_def, String.toList_intercalate]

/-- **Stored settings** are a record with their items. -/
theorem isRecord_stored {s : Settings Float} (hs : s.Defined) (hpoints : s.points < 2 ^ 64)
    (hpasses : s.passBound < 2 ^ 32) : IsRecord s.stored.toList s.items := by
  have hbound : ∀ {v : Float}, v.isNaN = false → isSolid (storedNumber v) = true ∧
      ∃ literal, IsNumber literal (storedNumber v).toList ∧
        Given.read? literal = some (⟨v, v⟩ : Given Float) := fun hv =>
    ⟨isSolid_storedNumber hv, writes_storedNumber hv⟩
  have hfirst : Stores ("f1", Text.stored.quote s.first) (.field .first s.first : Item Float) :=
    .field (k := .first) (isSolid_quote s.first) (isText_quote s.first)
  have hrest : List.Forall₂ Stores (s.fields Text.stored.quote storedNumber).tail s.items.tail := by
    refine .cons (.field (k := .second) (isSolid_quote s.second) (isText_quote s.second)) ?_
    refine .cons (.field (k := .xMin) (hbound hs.xMin).1 (hbound hs.xMin).2) ?_
    refine .cons (.field (k := .xMax) (hbound hs.xMax).1 (hbound hs.xMax).2) ?_
    refine .cons (.field (k := .yMin) (hbound hs.yMin).1 (hbound hs.yMin).2) ?_
    refine .cons (.field (k := .yMax) (hbound hs.yMax).1 (hbound hs.yMax).2) ?_
    refine .cons (.field (k := .points) (isSolid_toString _) (isCount_toString ?_)) ?_
    · exact decide_eq_true hpoints
    refine .cons (.field (k := .seed) (isSolid_toString _) (isCount_toString ?_)) ?_
    · exact decide_eq_true s.seed.toNat_lt
    refine .cons (.field (k := .passBound) (isSolid_toString _) (isCount_toString ?_)) .nil
    exact decide_eq_true hpasses
  refine ⟨.plain, _, [], opened_of_toList ⟨toList_stored s, ?_⟩, allItems_joined hfirst hrest _ [],
    .done nofun⟩
  exact skip_eq_some_iff.2 (hfirst.spaced_joined _ [')'])

/-- **Restored settings.** Stored settings are read back. -/
theorem read?_stored {s : Settings Float} (hs : s.Defined) (hpoints : s.points < 2 ^ 64)
    (hpasses : s.passBound < 2 ^ 32) : read? s.stored = some (Change.ofSettings s) :=
  (read?_of_isRecord (isRecord_stored hs hpoints hpasses)).trans s.addAll_items

end Restored

/-! ## Starting anew -/

namespace Session

/-- A start records settings as restored, and the session has these settings and nothing to show. -/
structure Restores {α : Type} [Number α] (started : List (Entry α) × Session α) (s : Settings α) :
    Prop where
  /-- The settings are recorded. -/
  recorded : started.1 = [.restored s]
  /-- The session has the settings. -/
  settings_eq : started.2.settings = s
  /-- There is no result. -/
  result_eq : started.2.result = none
  /-- There is no error. -/
  error_eq : started.2.error = ""
  /-- There is nothing to explain. -/
  explanation_eq : started.2.explanation = .empty

/-- A session that starts from stored settings has them, with their counts held in range. -/
theorem restores_start {s : Settings Float} (hs : s.Defined) (hpoints : s.points < 2 ^ 64)
    (hpasses : s.passBound < 2 ^ 32) : Restores (start (some s.stored)) s.clamped := by
  have hchange : Restored.changeOf (some s.stored) = Change.ofSettings s := by
    rw [Restored.changeOf, Option.bind_some, Restored.read?_stored hs hpoints hpasses]
    rfl
  have hstart : start (some s.stored) = ([.restored s.clamped], ofSettings s.clamped) := by
    rw [start, hchange, Change.onScale_ofSettings, Settings.change_ofSettings]
  rw [hstart]
  exact ⟨rfl, rfl, rfl, rfl, rfl⟩

/-- **Storing and restoring.** Whatever a session starts from and whatever is done to it, a session
that starts from its stored settings has the same settings, and no result, no error and nothing to
explain, as long as the four bounds are defined. Settings whose counts need not be in range are
restored with the counts held in range. -/
theorem start_stored :
    (∀ (stored : Option String) (actions : List (Action Float)) (h : History Float),
      History.after stored actions = some h → h.session.settings.Defined →
        Restores (start (some h.session.settings.stored)) h.session.settings) ∧
    ∀ s : Settings Float, s.Defined → s.points < 2 ^ 64 → s.passBound < 2 ^ 32 →
      Restores (start (some s.stored)) s.clamped := by
  refine ⟨fun stored actions h hafter hdefined => ?_, fun s => restores_start⟩
  obtain ⟨-, hclamped⟩ := History.sound_of_after hafter
  obtain ⟨⟨-, hpoints⟩, -, hpasses⟩ := (Settings.clamped_eq_iff _).1 hclamped
  have hrestores := restores_start hdefined (by omega) (by omega)
  rwa [hclamped] at hrestores

/-- Settings with marks in the formulas, bounds of every kind and counts out of range. -/
def unusual : Settings Float where
  first := "\"\\\n\t,x_min:)é"
  second := ""
  xMin := -(1.0 / 0.0)
  xMax := -0.0
  yMin := 5e-324
  yMax := 0.1
  points := 2 ^ 64 - 1
  seed := 2 ^ 64 - 1
  passBound := 0

/-- They are restored when they have been typed, and also when they are stored as they are. -/
theorem start_stored_unusual :
    (∃ h, History.after none [.edit (.ofSettings unusual)] = some h ∧
      h.session.settings = unusual.clamped ∧
      Restores (start (some h.session.settings.stored)) unusual.clamped) ∧
    Restores (start (some unusual.stored)) unusual.clamped := by
  have hdefined : unusual.Defined :=
    ⟨by decide +kernel, by decide +kernel, by decide +kernel, by decide +kernel⟩
  obtain ⟨hhistories, hall⟩ := start_stored
  refine ⟨⟨_, rfl, rfl, hhistories none [.edit (.ofSettings unusual)] _ rfl ?_⟩,
    hall unusual hdefined (by decide) (by decide)⟩
  exact ⟨hdefined.xMin, hdefined.xMax, hdefined.yMin, hdefined.yMax⟩

end Session

end CurveArea
