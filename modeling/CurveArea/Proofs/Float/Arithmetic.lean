import CurveArea.Number.Binary64
import CurveArea.Proofs.Float.Packed

/-!
# Arithmetic in binary64

What the arithmetic of the library comes to, told by places on the line (`place`). An operation on
finite numbers gives the number that its exact result fits in (`at_add`, `at_sub`, `at_mul`,
`at_div`), and a comparison holds when both numbers are defined and their places compare (`lt_iff`,
`le_iff`). A result between zero and a finite number stays there when it is rounded (`Portion`).
-/

namespace CurveArea.Binary64

open CurveArea.Rounding
open Float.Model (Format UnpackedFloat)
open Float.Model.UnpackedFloat

/-- Where a number stands on the line; an infinity stands at the first power of two that is out of
range. -/
def place (a : Float) : ℚ := stand Format.binary64 a.toModel.unpack

/-- A number is defined and stands at a place. -/
structure At (a : Float) (q : ℚ) : Prop where
  /-- It is defined. -/
  defined : a.isNaN = false
  /-- It stands there. -/
  place_eq : place a = q

section
variable {a b x y : Float} {q r s : ℚ}

/-! ## Comparisons -/

/-- A number is undefined when what is unpacked from it is. -/
theorem isNaN_eq (a : Float) : a.isNaN = a.toModel.unpack.isNaN := rfl

/-- A number is finite when what is unpacked from it is. -/
theorem isFinite_eq (a : Float) : a.isFinite = a.toModel.unpack.isFinite := rfl

/-- A number that is defined has a form of the format. -/
theorem proper_of_defined (h : a.isNaN = false) : Proper Format.binary64 a.toModel.unpack := by
  have hproper : a.toModel.unpack = .notANumber ∨ Proper Format.binary64 a.toModel.unpack :=
    proper_unpack (F := .binary64) (by decide) a.toModel.toBits.toBitVec
  refine hproper.resolve_left fun hnan => ?_
  rw [isNaN_eq, hnan] at h
  cases h

/-- A number stands at a place when what is unpacked from it does. -/
theorem at_iff : At a q ↔ Stands Format.binary64 a.toModel.unpack q := by
  refine ⟨fun h => ⟨proper_of_defined h.defined, h.place_eq⟩, fun h => ⟨?_, h.stand_eq⟩⟩
  rw [isNaN_eq]
  match hunpack : a.toModel.unpack with
  | .notANumber => exact (hunpack ▸ h.proper).elim
  | .infinity _ | .zero _ | .finite .. => rfl

/-- All undefined numbers are unpacked alike. -/
theorem unpack_of_undefined (h : a.isNaN = true) : a.toModel.unpack = .notANumber := by
  rw [isNaN_eq] at h
  match hunpack : a.toModel.unpack with
  | .notANumber => rfl
  | .infinity _ | .zero _ | .finite .. => simp [hunpack, UnpackedFloat.isNaN] at h

/-- Nothing is compared with what is undefined. -/
theorem compare_of_undefined (h : a.isNaN = true ∨ b.isNaN = true) :
    a.toModel.unpack.compare b.toModel.unpack = none := by
  rcases h with h | h
  · rw [unpack_of_undefined h]
    rfl
  · rw [unpack_of_undefined h]
    cases a.toModel.unpack <;> rfl

/-- One number is less than another when comparing them says so. -/
theorem lt_iff_compare : a < b ↔ a.toModel.unpack.compare b.toModel.unpack = some .lt := by
  change decide (a.toModel.unpack.lt b.toModel.unpack = true) = true ↔ _
  rw [decide_eq_true_eq, UnpackedFloat.lt, beq_iff_eq]

/-- One number is at most another when comparing them does not say it is greater. -/
theorem le_iff_compare :
    a ≤ b ↔ ∃ o, a.toModel.unpack.compare b.toModel.unpack = some o ∧ o.isLE = true := by
  change decide (a.toModel.unpack.le b.toModel.unpack = true) = true ↔ _
  rw [decide_eq_true_eq, UnpackedFloat.le, Option.any_eq_true]

/-- Of two numbers that are compared neither is undefined, and their places are compared. -/
theorem compare_eq_some_iff {o : Ordering} :
    a.toModel.unpack.compare b.toModel.unpack = some o ↔
      a.isNaN = false ∧ b.isNaN = false ∧ compare (place a) (place b) = o := by
  cases ha : a.isNaN with
  | true => simp [compare_of_undefined (.inl ha)]
  | false =>
    cases hb : b.isNaN with
    | true => simp [compare_of_undefined (.inr hb)]
    | false => simp [compare_eq (proper_of_defined ha) (proper_of_defined hb), place]

/-- One number is less than another when both are defined and it stands before the other. -/
theorem lt_iff : a < b ↔ a.isNaN = false ∧ b.isNaN = false ∧ place a < place b := by
  rw [lt_iff_compare, compare_eq_some_iff, compare_lt_iff_lt]

/-- One number is at most another when both are defined and it does not stand behind the other. -/
theorem le_iff : a ≤ b ↔ a.isNaN = false ∧ b.isNaN = false ∧ place a ≤ place b := by
  simp only [le_iff_compare, compare_eq_some_iff, ← compare_le_iff_le]
  constructor
  · rintro ⟨o, ⟨ha, hb, rfl⟩, ho⟩
    exact ⟨ha, hb, Ordering.isLE_iff_ne_gt.1 ho⟩
  · rintro ⟨ha, hb, ho⟩
    exact ⟨_, ⟨ha, hb, rfl⟩, Ordering.isLE_iff_ne_gt.2 ho⟩

/-- Two numbers are equal when both are defined and they stand at one place, as the zeros do. -/
theorem beq_iff : (a == b) = true ↔ a.isNaN = false ∧ b.isNaN = false ∧ place a = place b := by
  change (a.toModel.unpack.compare b.toModel.unpack == some .eq) = true ↔ _
  rw [beq_iff_eq, compare_eq_some_iff, compare_eq_iff_eq]

/-! ## Finite numbers -/

/-- A finite number is defined. -/
theorem defined_of_isFinite (h : a.isFinite = true) : a.isNaN = false := by
  rw [isFinite_eq] at h
  rw [isNaN_eq]
  cases hunpack : a.toModel.unpack <;> simp_all [UnpackedFloat.isFinite, UnpackedFloat.isNaN]

/-- A finite number is in the form of the format. -/
theorem regular_of_isFinite (h : a.isFinite = true) : Regular Format.binary64 a.toModel.unpack := by
  have hproper := proper_of_defined (defined_of_isFinite h)
  rw [isFinite_eq] at h
  cases hunpack : a.toModel.unpack with
  | notANumber => simp [hunpack, UnpackedFloat.isFinite] at h
  | infinity s => simp [hunpack, UnpackedFloat.isFinite] at h
  | zero s => trivial
  | finite s m e hm =>
    rw [hunpack] at hproper
    exact hproper.1

/-- A finite number stands where it is worth. -/
theorem worth_of_isFinite (h : a.isFinite = true) : worth a.toModel.unpack = place a := by
  have hreg := regular_of_isFinite h
  unfold place
  cases hunpack : a.toModel.unpack with
  | zero s => rfl
  | finite s m e hm => rfl
  | _ => exact (hunpack ▸ hreg).elim

/-- The place of a finite number is a number of the format. -/
theorem representable_place (h : a.isFinite = true) : Representable Format.binary64 (place a) := by
  rw [← worth_of_isFinite h]
  exact (regular_of_isFinite h).representable

/-- A defined number is finite when it stands below the infinities. -/
theorem isFinite_iff : a.isFinite = true ↔ a.isNaN = false ∧ |place a| < limit Format.binary64 := by
  constructor
  · intro h
    have hdef := defined_of_isFinite h
    exact ⟨hdef, (abs_stand_lt_iff (proper_of_defined hdef)).2 h⟩
  · rintro ⟨hdef, hlt⟩
    exact (abs_stand_lt_iff (proper_of_defined hdef)).1 hlt

/-- What stands below the limit is finite. -/
theorem At.isFinite (h : At a q) (hq : |q| < limit Format.binary64) : a.isFinite = true :=
  isFinite_iff.2 ⟨h.defined, h.place_eq ▸ hq⟩

/-- What stands at zero is finite. -/
theorem At.isFinite_of_zero (h : At a 0) : a.isFinite = true :=
  h.isFinite (abs_zero.trans_lt (limit_pos _))

/-- A number at the place of a finite one is finite. -/
theorem At.isFinite_of_place (h : At a (place b)) (hb : b.isFinite = true) : a.isFinite = true :=
  h.isFinite (isFinite_iff.1 hb).2

/-- A result that is finite is rounded. -/
theorem At.place_eq_nearest (h : At a (fit Format.binary64 q)) (ha : a.isFinite = true) :
    place a = Rounding.nearest .binary64 q := by
  have hlt := (isFinite_iff.1 ha).2
  rw [h.place_eq] at hlt ⊢
  exact fit_eq_nearest hlt

/-- A result is finite unless it is rounded to one that is out of range. -/
theorem At.isFinite_iff_not_overflows (h : At a (fit Format.binary64 q)) :
    a.isFinite = true ↔ ¬ Overflows Format.binary64 q := by
  rw [isFinite_iff, h.place_eq, abs_fit_lt_iff]
  exact and_iff_right h.defined

/-- Finite numbers are not rounded. -/
theorem fit_place (h : a.isFinite = true) : fit Format.binary64 (place a) = place a :=
  fit_of_representable (representable_place h) (isFinite_iff.1 h).2

/-- A number that stands between two places below the limit is finite. -/
theorem isFinite_of_bounds (hx : x.isNaN = false) (hs : |s| < limit Format.binary64)
    (hr : |r| < limit Format.binary64) (hlow : s ≤ place x) (hhigh : place x ≤ r) :
    x.isFinite = true :=
  isFinite_iff.2 ⟨hx, abs_lt.2 ⟨(abs_lt.1 hs).1.trans_le hlow, hhigh.trans_lt (abs_lt.1 hr).2⟩⟩

/-- A number between two finite ones is finite. -/
theorem isFinite_of_between (ha : a.isFinite = true) (hb : b.isFinite = true) (hax : a ≤ x)
    (hxb : x ≤ b) : x.isFinite = true :=
  isFinite_of_bounds (le_iff.1 hax).2.1 (isFinite_iff.1 ha).2 (isFinite_iff.1 hb).2
    (le_iff.1 hax).2.2 (le_iff.1 hxb).2.2

/-- A result stays between bounds that are numbers of the format. -/
theorem bounds_of_at (hx : At x (fit Format.binary64 q))
    (hs : Representable Format.binary64 s ∧ |s| < limit Format.binary64)
    (hr : Representable Format.binary64 r ∧ |r| < limit Format.binary64) (hlow : s ≤ q)
    (hhigh : q ≤ r) : x.isFinite = true ∧ s ≤ place x ∧ place x ≤ r := by
  have hle := fit_mono (F := .binary64) hlow
  have hle' := fit_mono (F := .binary64) hhigh
  rw [fit_of_representable hs.1 hs.2, ← hx.place_eq] at hle
  rw [fit_of_representable hr.1 hr.2, ← hx.place_eq] at hle'
  exact ⟨isFinite_of_bounds hx.defined hs.2 hr.2 hle hle', hle, hle'⟩

/-- Results are in the order of what is rounded. -/
theorem le_of_at (hx : At x (fit Format.binary64 q)) (hy : At y (fit Format.binary64 r))
    (h : q ≤ r) : x ≤ y := by
  refine le_iff.2 ⟨hx.defined, hy.defined, ?_⟩
  rw [hx.place_eq, hy.place_eq]
  exact fit_mono h

/-! ## The four operations -/

/-- A number is told by what is packed in it. -/
theorem at_of_stands {u : UnpackedFloat} (ha : a.toModel = Float.Model.pack u)
    (h : Stands Format.binary64 (unpack Format.binary64 (pack Format.binary64 u)) q) : At a q := by
  rw [at_iff, ha]
  exact h

/-- A rounded result, packed, stands where its exact result fits in. -/
theorem at_of_rounded {u : UnpackedFloat} (ha : a.toModel = Float.Model.pack u)
    (h : Rounded Format.binary64 u q) : At a (fit Format.binary64 q) :=
  at_of_stands ha (stands_unpack_pack (by decide) h)

/-- A sum of finite numbers stands where the exact one fits in. -/
theorem at_add (ha : a.isFinite = true) (hb : b.isFinite = true) :
    At (a + b) (fit Format.binary64 (place a + place b)) := by
  rw [← worth_of_isFinite ha, ← worth_of_isFinite hb]
  exact at_of_rounded rfl (rounded_add (regular_of_isFinite ha) (regular_of_isFinite hb))

/-- A difference of finite numbers stands where the exact one fits in. -/
theorem at_sub (ha : a.isFinite = true) (hb : b.isFinite = true) :
    At (a - b) (fit Format.binary64 (place a - place b)) := by
  rw [← worth_of_isFinite ha, ← worth_of_isFinite hb]
  exact at_of_rounded rfl (rounded_sub (regular_of_isFinite ha) (regular_of_isFinite hb))

/-- A product of finite numbers stands where the exact one fits in. -/
theorem at_mul (ha : a.isFinite = true) (hb : b.isFinite = true) :
    At (a * b) (fit Format.binary64 (place a * place b)) := by
  rw [← worth_of_isFinite ha, ← worth_of_isFinite hb]
  exact at_of_rounded rfl (rounded_mul (regular_of_isFinite ha) (regular_of_isFinite hb))

/-- A quotient of finite numbers stands where the exact one fits in, unless the divisor is zero. -/
theorem at_div (ha : a.isFinite = true) (hb : b.isFinite = true) (hne : place b ≠ 0) :
    At (a / b) (fit Format.binary64 (place a / place b)) := by
  rw [← worth_of_isFinite hb] at hne
  rw [← worth_of_isFinite ha, ← worth_of_isFinite hb]
  exact at_of_rounded rfl (rounded_div (regular_of_isFinite ha) (regular_of_isFinite hb) hne)

/-! ## Infinities -/

/-- What is not finite is not finite when it is packed. -/
theorem isFinite_of_pack {u : UnpackedFloat} (h : (Float.Model.pack u).isFinite = true) :
    u.isFinite = true := by
  change (unpack Format.binary64 (pack Format.binary64 u)).isFinite = true at h
  cases u with
  | notANumber => rwa [unpack_pack_nan] at h
  | infinity s => rwa [unpack_pack_infinity] at h
  | _ => rfl

/-- A number is finite when its opposite is. -/
theorem isFinite_neg (u : UnpackedFloat) : u.neg.isFinite = u.isFinite := by
  cases u <;> rfl

/-- Only finite numbers have a finite sum. -/
theorem isFinite_of_unpacked_add {u v : UnpackedFloat}
    (h : (UnpackedFloat.add Format.binary64 u v).isFinite = true) :
    u.isFinite = true ∧ v.isFinite = true := by
  cases u with
  | notANumber => simp [UnpackedFloat.add, UnpackedFloat.isFinite] at h
  | infinity s =>
    cases v with
    | infinity t => cases s <;> cases t <;> cases h
    | _ => cases h
  | _ =>
    cases v with
    | notANumber => cases h
    | infinity t => cases h
    | _ => exact ⟨rfl, rfl⟩

/-- Only finite numbers have a finite sum. -/
theorem isFinite_of_add (h : (a + b).isFinite = true) : a.isFinite = true ∧ b.isFinite = true :=
  isFinite_of_unpacked_add (isFinite_of_pack h)

/-- Only finite numbers have a finite difference. -/
theorem isFinite_of_sub (h : (a - b).isFinite = true) : a.isFinite = true ∧ b.isFinite = true := by
  have hsub : (UnpackedFloat.sub .binary64 a.toModel.unpack b.toModel.unpack).isFinite = true :=
    isFinite_of_pack h
  rw [sub_eq_add] at hsub
  obtain ⟨ha, hb⟩ := isFinite_of_unpacked_add hsub
  rw [isFinite_neg] at hb
  exact ⟨ha, hb⟩

/-- A difference is finite when both numbers are and the exact one does not overflow. -/
theorem isFinite_sub_iff : (a - b).isFinite = true ↔
    (a.isFinite = true ∧ b.isFinite = true) ∧ ¬ Overflows .binary64 (place a - place b) := by
  constructor
  · intro h
    obtain ⟨ha, hb⟩ := isFinite_of_sub h
    exact ⟨⟨ha, hb⟩, (at_sub ha hb).isFinite_iff_not_overflows.1 h⟩
  · rintro ⟨⟨ha, hb⟩, h⟩
    exact (at_sub ha hb).isFinite_iff_not_overflows.2 h

/-- A finite difference is rounded. -/
theorem place_sub (h : (a - b).isFinite = true) :
    place (a - b) = Rounding.nearest .binary64 (place a - place b) := by
  obtain ⟨ha, hb⟩ := isFinite_of_sub h
  exact (at_sub ha hb).place_eq_nearest h

/-- The difference of different numbers is not lost. -/
theorem place_sub_pos (hlt : b < a) (h : (a - b).isFinite = true) : 0 < place (a - b) := by
  obtain ⟨ha, hb⟩ := isFinite_of_sub h
  have hgap := zpow_minExponent_le_sub (representable_place hb) (representable_place ha)
    (lt_iff.1 hlt).2.2
  have hhalf := le_two_mul_nearest hgap
  have hpos := two_zpow_pos Format.binary64.minExponent
  rw [place_sub h]
  linarith

/-- Only finite numbers have a finite product. -/
theorem isFinite_of_mul (h : (a * b).isFinite = true) : a.isFinite = true ∧ b.isFinite = true := by
  have hmul := isFinite_of_pack h
  rw [isFinite_eq, isFinite_eq]
  cases ha : a.toModel.unpack <;> cases hb : b.toModel.unpack <;>
    simp_all [UnpackedFloat.mul, UnpackedFloat.isFinite]

/-- A product is finite when both numbers are and the exact one does not overflow. -/
theorem isFinite_mul_iff : (a * b).isFinite = true ↔
    (a.isFinite = true ∧ b.isFinite = true) ∧ ¬ Overflows .binary64 (place a * place b) := by
  constructor
  · intro h
    obtain ⟨ha, hb⟩ := isFinite_of_mul h
    exact ⟨⟨ha, hb⟩, (at_mul ha hb).isFinite_iff_not_overflows.1 h⟩
  · rintro ⟨⟨ha, hb⟩, h⟩
    exact (at_mul ha hb).isFinite_iff_not_overflows.2 h

/-- Only finite numbers have a finite quotient by some number. -/
theorem isFinite_of_div (h : (a / b).isFinite = true) : a.isFinite = true := by
  have hdiv := isFinite_of_pack h
  rw [isFinite_eq]
  cases ha : a.toModel.unpack <;> cases hb : b.toModel.unpack <;>
    simp_all [UnpackedFloat.div, UnpackedFloat.isFinite]

/-- A defined number is finite unless it is infinite. -/
theorem isFinite_iff_not_isInf (h : a.isNaN = false) : a.isFinite = true ↔ ¬ a.isInf = true := by
  change _ ↔ ¬ a.toModel.unpack.isInf = true
  rw [isNaN_eq] at h
  rw [isFinite_eq]
  cases hunpack : a.toModel.unpack <;>
    simp_all [UnpackedFloat.isInf, UnpackedFloat.isNaN, UnpackedFloat.isFinite]

/-- Infinite numbers stand at the ends of the line. -/
theorem unpack_of_place_eq_limit (hb : At b (limit Format.binary64)) :
    b.toModel.unpack = .infinity .positive := by
  have hproper := proper_of_defined hb.defined
  have hpos := limit_pos Format.binary64
  have hplace : stand Format.binary64 b.toModel.unpack = limit Format.binary64 := hb.place_eq
  have hfinite : b.toModel.unpack.isFinite ≠ true := fun h => by
    have hlt := (abs_stand_lt_iff hproper).2 h
    rw [hplace, abs_of_pos hpos] at hlt
    exact lt_irrefl _ hlt
  match hunpack : b.toModel.unpack with
  | .notANumber => exact (hunpack ▸ hproper).elim
  | .infinity .positive => rfl
  | .infinity .negative =>
    rw [hunpack] at hplace
    simp only [stand, withSign] at hplace
    linarith
  | .zero _ | .finite .. => exact absurd rfl (hunpack ▸ hfinite)

/-- A positive infinity outweighs every finite number. -/
theorem at_add_infinity (ha : a.isFinite = true) (hb : At b (limit Format.binary64)) :
    At (a + b) (limit Format.binary64) := by
  have hadd : UnpackedFloat.add Format.binary64 a.toModel.unpack b.toModel.unpack =
      .infinity .positive := by
    rw [isFinite_eq] at ha
    rw [unpack_of_place_eq_limit hb]
    cases hunpack : a.toModel.unpack with
    | zero s => rfl
    | finite s m e hm => rfl
    | _ => simp [hunpack, UnpackedFloat.isFinite] at ha
  have hunpack : (a + b).toModel.unpack = .infinity .positive := by
    change unpack Format.binary64 (pack Format.binary64 (UnpackedFloat.add _ _ _)) = _
    rw [hadd, unpack_pack_infinity]
  refine ⟨?_, ?_⟩
  · rw [isNaN_eq, hunpack]
    rfl
  · rw [place, hunpack]
    rfl

/-- A sum is not below a number that its exact result is not below, though one of its operands be
infinite. -/
theorem le_place_add (ha : a.isFinite = true) (hb : b.isNaN = false) (hpos : 0 ≤ place b)
    (hq : Representable Format.binary64 q) (hlt : |q| < limit Format.binary64)
    (hle : q ≤ place a + place b) : (a + b).isNaN = false ∧ q ≤ place (a + b) := by
  rcases lt_or_ge (place b) (limit Format.binary64) with hfin | hinf
  · have hsum := at_add ha (isFinite_iff.2 ⟨hb, by rwa [abs_of_nonneg hpos]⟩)
    refine ⟨hsum.defined, ?_⟩
    rw [hsum.place_eq, ← fit_of_representable hq hlt]
    exact fit_mono hle
  · have htop := (le_abs_self _).trans (abs_stand_le (proper_of_defined hb))
    have hsum := at_add_infinity ha ⟨hb, le_antisymm htop hinf⟩
    refine ⟨hsum.defined, ?_⟩
    rw [hsum.place_eq]
    exact (le_abs_self q).trans hlt.le

/-- What is added to a number does not lower it unless it is negative. -/
theorem le_add_of_nonneg (ha : a.isFinite = true) (hb : b.isNaN = false) (hpos : 0 ≤ place b) :
    a ≤ a + b := by
  obtain ⟨hdefined, hle⟩ := le_place_add ha hb hpos (representable_place ha) (isFinite_iff.1 ha).2
    (le_add_of_nonneg_right hpos)
  exact le_iff.2 ⟨defined_of_isFinite ha, hdefined, hle⟩

/-- A sum grows with what is added, though that become infinite. -/
theorem add_le_add_of_nonneg {c : Float} (ha : a.isFinite = true) (hpos : 0 ≤ place b)
    (h : b ≤ c) : a + b ≤ a + c := by
  obtain ⟨hb, hc, hle⟩ := le_iff.1 h
  have hdefined := (le_iff.1 (le_add_of_nonneg ha hb hpos)).2.1
  rcases lt_or_ge (place c) (limit Format.binary64) with hfin | hinf
  · have hsmall : |place b| < limit Format.binary64 := by
      rw [abs_of_nonneg hpos]
      exact hle.trans_lt hfin
    have hlarge : |place c| < limit Format.binary64 := by rwa [abs_of_nonneg (hpos.trans hle)]
    have hsum := at_add ha (isFinite_iff.2 ⟨hb, hsmall⟩)
    have hsum' := at_add ha (isFinite_iff.2 ⟨hc, hlarge⟩)
    refine le_iff.2 ⟨hdefined, hsum'.defined, ?_⟩
    rw [hsum.place_eq, hsum'.place_eq]
    exact fit_mono (by linarith)
  · have htop := (le_abs_self _).trans (abs_stand_le (proper_of_defined hc))
    have hsum := at_add_infinity ha ⟨hc, le_antisymm htop hinf⟩
    refine le_iff.2 ⟨hdefined, hsum.defined, ?_⟩
    rw [hsum.place_eq]
    exact (le_abs_self _).trans (abs_stand_le (proper_of_defined hdefined))

/-! ## Constants -/

/-- A number is told by its bits. -/
theorem at_of_unpack {s : Sign} {m : Nat} {e : ℤ} {hm : 0 < m}
    (h : a.toModel.unpack = .finite s m e hm) : At a (withSign s (m * 2 ^ e)) :=
  at_iff.2 (h ▸ stands_unpack (F := .binary64) (by decide) h rfl)

/-- The constant `half` is one half. -/
theorem at_half : At (Scalar.half : Float) (1 / 2) := by
  have hunpack : (Scalar.half : Float).toModel.unpack =
    .finite .positive (2 ^ 52) (-53) (Nat.two_pow_pos 52) := by rfl
  have hworth : withSign .positive ((2 ^ 52 : ℕ) * 2 ^ (-53 : ℤ)) = 1 / 2 := by
    norm_num [withSign]
  rw [← hworth]
  exact at_of_unpack hunpack

/-- The least positive number is the least place. -/
theorem at_smallestPositive : At (Scalar.smallestPositive : Float) (2 ^ (-1074 : ℤ)) := by
  have hunpack : (Scalar.smallestPositive : Float).toModel.unpack =
    .finite .positive 1 (-1074) Nat.one_pos := by rfl
  have h := at_of_unpack hunpack
  rwa [withSign, Nat.cast_one, one_mul] at h

/-- The least number with all its places. -/
theorem at_smallestNormal : At (Scalar.smallestNormal : Float) (2 ^ (-1022 : ℤ)) := by
  have hunpack : (Scalar.smallestNormal : Float).toModel.unpack =
    .finite .positive (2 ^ 52) (-1074) (Nat.two_pow_pos 52) := by rfl
  have hworth : withSign .positive ((2 ^ 52 : ℕ) * 2 ^ (-1074 : ℤ)) = 2 ^ (-1022 : ℤ) := by
    rw [withSign, Nat.cast_pow, Nat.cast_ofNat, ← zpow_natCast, ← zpow_add₀ two_ne_zero]
    norm_num
  rw [← hworth]
  exact at_of_unpack hunpack

/-- Multiples of a place are exact while they are not too many. -/
theorem representable_mul_zpow {n : Nat} {e : ℤ} (h : n ≤ 2 ^ 53)
    (he : Format.binary64.minExponent ≤ e) : Representable Format.binary64 (n * 2 ^ e) := by
  have hint : |(n : ℤ)| ≤ 2 ^ Format.binary64.mantissaBits := by
    rw [Nat.abs_cast]
    exact_mod_cast h
  exact_mod_cast representable_of_abs_le hint he

/-- Natural numbers up to two to the number of places are numbers of the format. -/
theorem representable_natCast {n : Nat} (h : n ≤ 2 ^ 53) : Representable Format.binary64 n := by
  have hrep := representable_mul_zpow h (minExponent_nonpos _)
  rwa [zpow_zero, mul_one] at hrep

/-- They are in range. -/
theorem natCast_lt_limit {n : Nat} (h : n ≤ 2 ^ 53) : |(n : ℚ)| < limit Format.binary64 := by
  have hcast : (n : ℚ) ≤ 2 ^ 53 := by exact_mod_cast h
  rw [Nat.abs_cast]
  exact hcast.trans_lt (pow_lt_pow_right₀ one_lt_two (by decide))

/-- The powers of two before the last exponent are in range. -/
theorem zpow_lt_limit {e : ℤ} (h : e < 1024) : (2 : ℚ) ^ e < limit Format.binary64 := by
  rw [limit_eq_zpow]
  exact zpow_lt_zpow_right₀ one_lt_two h

/-- One is in range. -/
theorem one_lt_limit : (1 : ℚ) < limit Format.binary64 := by
  simpa using zpow_lt_limit (e := 0) (by decide)

/-! ## Decimals -/

/-- The powers of ten that are kept ready, as they are rounded. -/
theorem powersOfTen_eq : ∀ k : Fin Float.exactlyRepresentablePowersOfTen.size,
    Float.exactlyRepresentablePowersOfTen[k].toModel =
      Float.Model.pack (UnpackedFloat.round .binary64 .positive (10 ^ k.val) 0) := by
  decide +kernel

/-- They are exact, since powers of five are short enough up to the last of them. -/
theorem at_powerOfTen {k : Nat} (h : k < Float.exactlyRepresentablePowersOfTen.size) :
    At Float.exactlyRepresentablePowersOfTen[k] (10 ^ k) ∧
      Float.exactlyRepresentablePowersOfTen[k].isFinite = true := by
  have hk : k ≤ 22 := Nat.le_of_lt_succ h
  have hrep : Representable Format.binary64 (10 ^ k) := by
    have h5 : 5 ^ k ≤ 2 ^ 53 := (Nat.pow_le_pow_right (by decide) hk).trans (by decide)
    have hmul := representable_mul_zpow h5 ((minExponent_nonpos _).trans k.cast_nonneg)
    rw [zpow_natCast, Nat.cast_pow, ← mul_pow] at hmul
    norm_num at hmul
    exact hmul
  have hlt : |(10 : ℚ) ^ k| < limit Format.binary64 := by
    rw [abs_of_pos (by positivity)]
    calc (10 : ℚ) ^ k ≤ 10 ^ 22 := pow_le_pow_right₀ (by norm_num) hk
      _ < 2 ^ 74 := by norm_num
      _ ≤ limit Format.binary64 := pow_le_pow_right₀ one_le_two (by decide)
  have hround := rounded_round (F := .binary64) .positive (m := 10 ^ k) (by positivity) 0
  rw [zpow_zero, mul_one, withSign, Nat.cast_pow, Nat.cast_ofNat] at hround
  have hat := at_of_rounded (powersOfTen_eq ⟨k, h⟩) hround
  rw [fit_of_representable hrep hlt] at hat
  exact ⟨hat, hat.isFinite hlt⟩

/-- Words that are not too long are exact. -/
theorem at_toUInt64 {m : Nat} (h : m < 2 ^ 53) :
    At m.toUInt64.toFloat m ∧ m.toUInt64.toFloat.isFinite = true := by
  have hfit := fit_of_representable (representable_natCast h.le) (natCast_lt_limit h.le)
  have hword : m.toUInt64.toNat = m := Nat.mod_eq_of_lt (h.trans (by decide))
  have hround := rounded_normalize (F := .binary64) m 0 .positive
  rw [zpow_zero, mul_one, Int.cast_natCast] at hround
  have hat : At m.toUInt64.toFloat m := by
    rw [← hfit]
    refine at_of_rounded ?_ hround
    change Float.Model.pack (UnpackedFloat.normalize .binary64 m.toUInt64.toNat 0 .positive) = _
    rw [hword]
  exact ⟨hat, hat.isFinite (natCast_lt_limit h.le)⟩

/-- Decimals are rounded, however high or low their exponent. -/
theorem at_ofModel_ofScientific (m : Nat) (e : ℤ) :
    At (.ofModel (Float.Model.ofScientific m e)) (fit Format.binary64 (m * 10 ^ e)) :=
  at_of_stands rfl (stands_unpack_ofScientific (by decide) (by decide) m e)

/-- A decimal with an exponent of either sign is rounded. -/
theorem at_ofScientific (m : Nat) (negative : Bool) (k : Nat) :
    At (Float.ofScientific m negative k)
      (fit Format.binary64 (m * 10 ^ (if negative then -k else k : ℤ))) := by
  unfold Float.ofScientific
  split
  case isTrue h =>
    obtain ⟨hm, hmfin⟩ := at_toUInt64 h.1
    obtain ⟨hten, htenfin⟩ := at_powerOfTen (k := k) (Nat.lt_succ_of_le h.2)
    cases negative with
    | true =>
      have hdiv := at_div hmfin htenfin (by rw [hten.place_eq]; positivity)
      rw [hm.place_eq, hten.place_eq, div_eq_mul_inv, ← zpow_natCast, ← zpow_neg] at hdiv
      exact hdiv
    | false =>
      have hmul := at_mul hmfin htenfin
      rw [hm.place_eq, hten.place_eq, ← zpow_natCast] at hmul
      exact hmul
  case isFalse h =>
    have hslow := at_ofModel_ofScientific m (if negative then -k else k)
    cases negative with
    | true => rwa [if_pos rfl] at hslow ⊢
    | false => exact hslow

/-- Natural numbers are rounded. -/
theorem at_ofNat (n : Nat) : At (Float.ofNat n) (fit Format.binary64 n) := by
  have h := at_ofScientific n false 0
  rw [if_neg (by decide), Nat.cast_zero, zpow_zero, mul_one] at h
  exact h

/-- Natural numbers as long as a word are in range. -/
theorem at_ofNat_word {n : Nat} (h : n ≤ 2 ^ 64) :
    At (Float.ofNat n) (Rounding.nearest .binary64 n) ∧ (Float.ofNat n).isFinite = true := by
  have hcast : (n : ℚ) ≤ 2 ^ (64 : ℤ) := by exact_mod_cast h
  have hlt := abs_nearest_lt n.cast_nonneg hcast (representable_zpow (by decide))
    (zpow_lt_limit (by decide))
  have hn := at_ofNat n
  rw [fit_of_abs_lt hlt] at hn
  exact ⟨hn, hn.isFinite hlt⟩

/-- Natural numbers that are not too long are exact. -/
theorem at_natCast {n : Nat} (h : n ≤ 2 ^ 53) :
    At (Float.ofNat n) n ∧ (Float.ofNat n).isFinite = true := by
  have hn := at_ofNat n
  rw [fit_of_representable (representable_natCast h) (natCast_lt_limit h)] at hn
  exact ⟨hn, hn.isFinite (natCast_lt_limit h)⟩

/-- The numeral `1` is one. -/
theorem at_one : At (1 : Float) 1 := by
  have hone := (at_natCast (n := 1) (by decide)).1
  rwa [Nat.cast_one] at hone

/-- One stands at one. -/
theorem place_one : place 1 = 1 := at_one.place_eq

/-- One is finite. -/
theorem one_isFinite : (1 : Float).isFinite = true :=
  at_one.isFinite (by rw [abs_one]; exact one_lt_limit)

/-- One is not rounded. -/
theorem fit_one : fit Format.binary64 1 = 1 := by
  have hfit := fit_place one_isFinite
  rwa [place_one] at hfit

/-- A finite number times one is the number. -/
theorem at_mul_of_one (ha : a.isFinite = true) (hb : At b 1) : At (a * b) (place a) := by
  have hmul := at_mul ha (hb.isFinite (by rw [abs_one]; exact one_lt_limit))
  rwa [hb.place_eq, mul_one, fit_place ha] at hmul

/-- A finite number times zero is zero. -/
theorem at_mul_of_zero (ha : a.isFinite = true) (hb : At b 0) : At (a * b) 0 := by
  have hmul := at_mul ha hb.isFinite_of_zero
  rwa [hb.place_eq, mul_zero, fit_zero] at hmul

end

/-! ## Portions -/

/-- A finite number from zero to a bound. -/
structure Portion (x b : Float) : Prop where
  /-- It is finite. -/
  isFinite : x.isFinite = true
  /-- It is not negative. -/
  nonneg : 0 ≤ place x
  /-- It is not above the bound. -/
  le : place x ≤ place b

namespace Portion

variable {x b c : Float} {q r : ℚ}

/-- What is rounded from zero to a bound is there. -/
theorem of_at (hb : b.isFinite = true) (hx : At x (fit Format.binary64 q)) (h₀ : 0 ≤ q)
    (hle : q ≤ place b) : Portion x b := by
  obtain ⟨hfin, hnonneg, hbound⟩ := bounds_of_at hx
    ⟨representable_zero _, abs_zero.trans_lt (limit_pos _)⟩
    ⟨representable_place hb, (isFinite_iff.1 hb).2⟩ h₀ hle
  exact ⟨hfin, hnonneg, hbound⟩

/-- What is rounded to a portion of a result, if nothing is negative. -/
theorem of_le (hx : At x (fit Format.binary64 q)) (hb : At b (fit Format.binary64 r))
    (hfin : b.isFinite = true) (h₀ : 0 ≤ q) (h : q ≤ r) : Portion x b := by
  have hle := (le_iff.1 (le_of_at hx hb h)).2.2
  have hnonneg : 0 ≤ place x := by
    rw [hx.place_eq, ← fit_zero .binary64]
    exact fit_mono h₀
  exact ⟨isFinite_of_bounds hx.defined (abs_zero.trans_lt (limit_pos _)) (isFinite_iff.1 hfin).2
    hnonneg hle, hnonneg, hle⟩

/-- A portion of one is at most one. -/
theorem le_one (hx : Portion x 1) : place x ≤ 1 := hx.le.trans_eq place_one

/-- A portion of a number is one of every greater number. -/
theorem trans (hx : Portion x b) (h : place b ≤ place c) : Portion x c :=
  ⟨hx.isFinite, hx.nonneg, hx.le.trans h⟩

/-- A number from zero to one, times a number that is not negative, is a portion of that number. -/
theorem mul (hx : Portion x 1) (hb : b.isFinite = true) (h₀ : 0 ≤ place b) : Portion (x * b) b :=
  of_at hb (at_mul hx.isFinite hb) (mul_nonneg hx.nonneg h₀) (mul_le_of_le_one_left h₀ hx.le_one)

/-- So it is in the other order. -/
theorem mul_right (hx : Portion x 1) (hb : b.isFinite = true) (h₀ : 0 ≤ place b) :
    Portion (b * x) b :=
  of_at hb (at_mul hb hx.isFinite) (mul_nonneg h₀ hx.nonneg) (mul_le_of_le_one_right h₀ hx.le_one)

/-- What such a number leaves of one. -/
theorem one_sub (hx : Portion x 1) : Portion (1 - x) 1 := by
  have hsub := at_sub one_isFinite hx.isFinite
  rw [place_one] at hsub
  exact of_at one_isFinite hsub (sub_nonneg.2 hx.le_one)
    (place_one ▸ sub_le_self 1 hx.nonneg)

/-- A portion divided by its bound. -/
theorem div (hx : Portion x c) (hc : c.isFinite = true) (hpos : 0 < place c) :
    Portion (x / c) 1 :=
  of_at one_isFinite (at_div hx.isFinite hc hpos.ne') (div_nonneg hx.nonneg hpos.le)
    (place_one ▸ (div_le_one hpos).2 hx.le)

/-- A portion by comparisons of numbers. -/
theorem bounds (hx : Portion x b) (hb : b.isFinite = true) :
    x.isFinite = true ∧ 0 ≤ x ∧ x ≤ b := by
  have hzero : At (0 : Float) 0 := (at_natCast (n := 0) (by decide)).1
  have hdefined := defined_of_isFinite hx.isFinite
  exact ⟨hx.isFinite, le_iff.2 ⟨hzero.defined, hdefined, hzero.place_eq.trans_le hx.nonneg⟩,
    le_iff.2 ⟨hdefined, defined_of_isFinite hb, hx.le⟩⟩

end Portion

end CurveArea.Binary64
