import CurveArea.Proofs.Plane.Estimates

/-!
# Regions side by side

Estimates from one source draw the same points whatever the curves are, so those of several regions
are compared trial by trial (`Trials.extend_of_classify`). A draw between two curves is below a
third one that runs between them, or above it, or on it, and never two of these
(`toNat_between_eq_add`). So the counts of adjacent regions add up to that of the whole, but for the
draws on the curve that divides it, and a region that is made wider never loses a draw
(`Estimate.inside_of_adjacent`).
-/

namespace CurveArea

open CurveArea.Binary64 hiding nearest

/-! ## Counts by trial -/

namespace Trials

section
variable {α σ : Type} [Scalar α] [WordSource σ] {f g : Curve α} {w : Window α}

/-- Whether a point lies between two curves that have values at its abscissa. -/
def contains (f g : Curve α) (x y : α) : Bool := (classify f g x y).toOption.getD false

/-- Where both curves have values, a point is in their region when it lies between them. -/
theorem contains_eq {x y a b : α} (ha : f x = .ok a) (hb : g x = .ok b) :
    contains f g x y = between a b y := by
  rw [contains, classify_eq_ok_iff.2 ⟨a, b, ha, hb, rfl⟩]
  rfl

/-- **Counts by trial.** Trials at abscissas where both curves have values all succeed, and those
between the curves are counted. -/
theorem extend_of_classify {n : Nat} {t : Trials α σ}
    (h : ∀ i < n, ∃ a b, f (w.drawnX t.source i) = .ok a ∧ g (w.drawnX t.source i) = .ok b) :
    ∃ t', extend f g w n t = (t', .ok ()) ∧ t'.inside = t.inside +
      (List.range n).countP fun i => contains f g (w.drawnX t.source i) (w.drawnY t.source i) := by
  induction n generalizing t with
  | zero => exact ⟨t, rfl, rfl⟩
  | succ n ih =>
    obtain ⟨a, b, ha, hb⟩ := h 0 n.succ_pos
    have hfirst : classify f g (w.drawnX t.source 0) (w.drawnY t.source 0) =
        .ok (contains f g (w.drawnX t.source 0) (w.drawnY t.source 0)) := by
      rw [contains_eq ha hb]
      exact classify_eq_ok_iff.2 ⟨a, b, ha, hb, rfl⟩
    simp only [extend]
    split
    case h_1 e herror => cases herror.symm.trans hfirst
    case h_2 inside hok =>
      obtain rfl : inside = _ := Except.ok.inj (hok.symm.trans hfirst)
      obtain ⟨t', ht', hcount⟩ := ih (t := ⟨WordSource.after 2 t.source, t.draws.push
          ⟨w.drawnX t.source 0, w.drawnY t.source 0, _⟩, _⟩) fun i hi => by
        rw [w.drawnX_after]
        exact h (i + 1) (Nat.succ_lt_succ hi)
      refine ⟨t', ht', hcount.trans ?_⟩
      rw [List.range_succ_eq_map, List.countP_cons, List.countP_map]
      simp only [Window.drawnX_after, Window.drawnY_after, Function.comp_def, Nat.succ_eq_add_one]
      split <;> omega

end

end Trials

section
variable {α σ : Type} [Number α] [WordSource σ] {f g : Curve α} {w : Window α}

/-- The estimate between curves that have values wherever points are drawn. -/
theorem Estimate.outcome_of_values {n : Nat} {source : σ} (hpos : 1 ≤ n)
    (h : ∀ i < n, ∃ a b, f (w.drawnX source i) = .ok a ∧ g (w.drawnX source i) = .ok b) :
    (withDraws f g w n source).outcome = .ok (ofCount w ((List.range n).countP fun i =>
      Trials.contains f g (w.drawnX source i) (w.drawnY source i)) n) := by
  obtain ⟨t, ht, hinside⟩ := Trials.extend_of_classify (t := Trials.start source) h
  rw [withDraws, if_neg (Nat.one_le_iff_ne_zero.1 hpos), ht]
  rw [Trials.start, Nat.zero_add] at hinside
  exact congrArg (fun k => Except.ok (ofCount w k n)) hinside

end

/-! ## One trial -/

section
variable {a b c y : Float}

/-- A number lies between two others in order when it is above the lower one and below the upper
one. -/
theorem between_of_le (h : a ≤ b) (y : Float) :
    between a b y = (decide (a < y) && decide (y < b)) := by
  obtain ⟨ha, hb, -⟩ := le_iff.1 h
  have hmin : min a b = a := if_pos h
  have hmax : max a b = b := if_pos h
  rw [Bool.eq_iff_iff, between_iff, hmin, hmax, Bool.and_eq_true, decide_eq_true_eq,
    decide_eq_true_eq]
  exact ⟨fun hy => hy.2.2, fun hy => ⟨ha, hb, hy⟩⟩

/-- **One trial.** A point between two curves is below a third one that runs between them, or above
it, or on it, and only one of these. -/
theorem toNat_between_eq_add (hab : a ≤ b) (hbc : b ≤ c) (y : Float) :
    (between a c y).toNat = (between a b y).toNat + (between b c y).toNat +
      (decide (a < y) && y == b && decide (y < c)).toNat := by
  obtain ⟨ha, hb, hle⟩ := le_iff.1 hab
  obtain ⟨-, hc, hle'⟩ := le_iff.1 hbc
  rw [between_of_le hab, between_of_le hbc, between_of_le (le_iff.2 ⟨ha, hc, hle.trans hle'⟩)]
  by_cases hin : a < y ∧ y < c
  · obtain ⟨hay, hyc⟩ := hin
    have hy := (lt_iff.1 hay).2.1
    have hlower : y < b ↔ place y < place b := by simp only [lt_iff, hb, hy, true_and]
    have hupper : b < y ↔ place b < place y := by simp only [lt_iff, hb, hy, true_and]
    have hon : (y == b) = decide (place y = place b) := by
      rw [Bool.eq_iff_iff, beq_iff, decide_eq_true_eq]
      simp only [hb, hy, true_and]
    rcases lt_trichotomy (place y) (place b) with h | h | h
    · simp [hay, hyc, hlower, hupper, hon, h, h.not_gt, h.ne]
    · simp [hay, hyc, hlower, hupper, hon, h]
    · simp [hay, hyc, hlower, hupper, hon, h, h.not_gt, h.ne']
  · -- Outside the whole region the point is in neither part of it.
    have hlower : ¬ (a < y ∧ y < b) := fun h => hin ⟨h.1, by
      obtain ⟨hy, -, hlt⟩ := lt_iff.1 h.2
      exact lt_iff.2 ⟨hy, hc, hlt.trans_le hle'⟩⟩
    have hupper : ¬ (b < y ∧ y < c) := fun h => hin ⟨by
      obtain ⟨-, hy, hlt⟩ := lt_iff.1 h.1
      exact lt_iff.2 ⟨ha, hy, hle.trans_lt hlt⟩, h.2⟩
    have hnone {u v : Prop} [Decidable u] [Decidable v] (h : ¬ (u ∧ v)) :
        (decide u && decide v) = false := by rw [← Bool.decide_and, decide_eq_false h]
    rw [hnone hin, hnone hlower, hnone hupper, Bool.and_right_comm, hnone hin, Bool.false_and]
    rfl

/-- A number is at one of two others or between them, whichever of these is the greater one. -/
def Spans (a b c : Float) : Prop := a ≤ c ∧ c ≤ b ∨ b ≤ c ∧ c ≤ a

/-- A number that is spanned by two others stands between them, and they are defined. -/
theorem Spans.place_le (h : Spans a b c) : (a.isNaN = false ∧ b.isNaN = false) ∧
    min (place a) (place b) ≤ place c ∧ place c ≤ max (place a) (place b) := by
  rcases h with ⟨hac, hcb⟩ | ⟨hbc, hca⟩
  · obtain ⟨ha, -, hle⟩ := le_iff.1 hac
    obtain ⟨-, hb, hle'⟩ := le_iff.1 hcb
    exact ⟨⟨ha, hb⟩, min_le_of_left_le hle, le_max_of_le_right hle'⟩
  · obtain ⟨hb, -, hle⟩ := le_iff.1 hbc
    obtain ⟨-, ha, hle'⟩ := le_iff.1 hca
    exact ⟨⟨ha, hb⟩, min_le_of_right_le hle, le_max_of_le_left hle'⟩

/-- A number lies between two others when all are defined and it stands strictly between them,
whichever is the greater one. -/
theorem between_iff_place : between a b y = true ↔
    (a.isNaN = false ∧ b.isNaN = false ∧ y.isNaN = false) ∧
      min (place a) (place b) < place y ∧ place y < max (place a) (place b) := by
  simp only [between, Bool.or_eq_true, Bool.and_eq_true, decide_eq_true_eq, lt_iff, min_lt_iff,
    lt_max_iff]
  constructor
  · rintro (⟨⟨⟨hb, ha, -⟩, -, hy, hlow⟩, -, -, hhigh⟩ | ⟨⟨⟨ha, hb, -⟩, -, hy, hlow⟩, -, -, hhigh⟩)
    · exact ⟨⟨ha, hb, hy⟩, .inr hlow, .inl hhigh⟩
    · exact ⟨⟨ha, hb, hy⟩, .inl hlow, .inr hhigh⟩
  · rintro ⟨⟨ha, hb, hy⟩, hlow | hlow, hhigh | hhigh⟩
    · exact absurd hlow hhigh.not_gt
    · exact .inr ⟨⟨⟨ha, hb, hlow.trans hhigh⟩, ha, hy, hlow⟩, hy, hb, hhigh⟩
    · exact .inl ⟨⟨⟨hb, ha, hlow.trans hhigh⟩, hb, hy, hlow⟩, hy, ha, hhigh⟩
    · exact absurd hlow hhigh.not_gt

/-- A point between two numbers is between any two that span them. -/
theorem between_of_spans {a' b' : Float} (ha : Spans a' b' a) (hb : Spans a' b' b)
    (h : between a b y = true) : between a' b' y = true := by
  obtain ⟨⟨-, -, hy⟩, hlow, hhigh⟩ := between_iff_place.1 h
  obtain ⟨⟨ha', hb'⟩, hlowa, hhigha⟩ := ha.place_le
  obtain ⟨-, hlowb, hhighb⟩ := hb.place_le
  exact between_iff_place.2 ⟨⟨ha', hb', hy⟩, (le_min hlowa hlowb).trans_lt hlow,
    hhigh.trans_le (max_le hhigha hhighb)⟩

end

/-! ## All trials -/

/-- What is counted by three kinds apart is counted together. -/
theorem countP_eq_add {ι : Type} {p p₁ p₂ p₃ : ι → Bool} {xs : List ι}
    (h : ∀ x ∈ xs, (p x).toNat = (p₁ x).toNat + (p₂ x).toNat + (p₃ x).toNat) :
    xs.countP p = xs.countP p₁ + xs.countP p₂ + xs.countP p₃ := by
  have hunit (b : Bool) : (if b = true then 1 else 0) = b.toNat := by cases b <;> rfl
  induction xs with
  | nil => rfl
  | cons x xs ih =>
    have hrest := ih fun x' hx' => h x' (List.mem_cons_of_mem x hx')
    have hfirst := h x List.mem_cons_self
    simp only [List.countP_cons, hunit]
    omega

section
variable {σ : Type} [WordSource σ] {f g h : Curve Float} {w : Window Float} {source : σ} {n : ℕ}

/-- One curve is not above another where so many points are drawn, and both have values there. -/
def Below (f g : Curve Float) (w : Window Float) (source : σ) (n : ℕ) : Prop :=
  ∀ i < n, ∃ a b, f (w.drawnX source i) = .ok a ∧ g (w.drawnX source i) = .ok b ∧ a ≤ b

/-- Of two curves in order, both have values at the draws. -/
theorem Below.values (hfg : Below f g w source n) : ∀ i < n, ∃ a b,
    f (w.drawnX source i) = .ok a ∧ g (w.drawnX source i) = .ok b := by
  intro i hi
  obtain ⟨a, b, ha, hb, -⟩ := hfg i hi
  exact ⟨a, b, ha, hb⟩

/-- Being below one another is transitive. -/
theorem Below.trans (hfg : Below f g w source n) (hgh : Below g h w source n) :
    Below f h w source n := by
  intro i hi
  obtain ⟨a, b, ha, hb, hab⟩ := hfg i hi
  obtain ⟨b', c, hb', hc, hbc⟩ := hgh i hi
  cases hb.symm.trans hb'
  obtain ⟨hadef, -, hle⟩ := le_iff.1 hab
  obtain ⟨-, hcdef, hle'⟩ := le_iff.1 hbc
  exact ⟨a, c, ha, hc, le_iff.2 ⟨hadef, hcdef, hle.trans hle'⟩⟩

/-- Whether a point is on the second of three curves and strictly between the others. -/
def divides (f g h : Curve Float) (x y : Float) : Bool :=
  match f x, g x, h x with
  | .ok a, .ok b, .ok c => a < y && y == b && y < c
  | _, _, _ => false

/-- Of three curves in order, the draws between the outer ones are those between the lower two,
those between the upper two, and those that are on the middle one and on no other. -/
theorem countP_contains_eq_add (hfg : Below f g w source n) (hgh : Below g h w source n) :
    ((List.range n).countP fun i => Trials.contains f h (w.drawnX source i) (w.drawnY source i)) =
      ((List.range n).countP fun i =>
        Trials.contains f g (w.drawnX source i) (w.drawnY source i)) +
      ((List.range n).countP fun i =>
        Trials.contains g h (w.drawnX source i) (w.drawnY source i)) +
      (List.range n).countP fun i => divides f g h (w.drawnX source i) (w.drawnY source i) := by
  refine countP_eq_add fun i hi => ?_
  obtain ⟨a, b, ha, hb, hab⟩ := hfg i (List.mem_range.1 hi)
  obtain ⟨b', c, hb', hc, hbc⟩ := hgh i (List.mem_range.1 hi)
  cases hb.symm.trans hb'
  rw [Trials.contains_eq ha hc, Trials.contains_eq ha hb, Trials.contains_eq hb hc, divides, ha, hb,
    hc]
  exact toNat_between_eq_add hab hbc _

/-- Where so many points are drawn, the values of two curves span those of two others. -/
def Encloses (f' g' f g : Curve Float) (w : Window Float) (source : σ) (n : ℕ) : Prop :=
  ∀ i < n, ∃ a' b' a b, (f' (w.drawnX source i) = .ok a' ∧ g' (w.drawnX source i) = .ok b') ∧
    (f (w.drawnX source i) = .ok a ∧ g (w.drawnX source i) = .ok b) ∧ Spans a' b' a ∧ Spans a' b' b

/-- Of curves that span others, all four have values at the draws. -/
theorem Encloses.values {f' g' : Curve Float} (h : Encloses f' g' f g w source n) :
    (∀ i < n, ∃ a b, f' (w.drawnX source i) = .ok a ∧ g' (w.drawnX source i) = .ok b) ∧
    ∀ i < n, ∃ a b, f (w.drawnX source i) = .ok a ∧ g (w.drawnX source i) = .ok b := by
  constructor
  · intro i hi
    obtain ⟨a', b', -, -, hvalues, -⟩ := h i hi
    exact ⟨a', b', hvalues⟩
  · intro i hi
    obtain ⟨-, -, a, b, -, hvalues, -⟩ := h i hi
    exact ⟨a, b, hvalues⟩

/-- A region has all the draws of a region that it encloses. -/
theorem countP_contains_le {f' g' : Curve Float} (h : Encloses f' g' f g w source n) :
    ((List.range n).countP fun i => Trials.contains f g (w.drawnX source i) (w.drawnY source i)) ≤
      (List.range n).countP fun i =>
        Trials.contains f' g' (w.drawnX source i) (w.drawnY source i) := by
  refine List.countP_mono_left fun i hi hinside => ?_
  obtain ⟨a', b', a, b, ⟨ha', hb'⟩, ⟨ha, hb⟩, hspana, hspanb⟩ := h i (List.mem_range.1 hi)
  rw [Trials.contains_eq ha hb] at hinside
  rw [Trials.contains_eq ha' hb']
  exact between_of_spans hspana hspanb hinside

namespace Estimate

/-- A share of an area grows with the count of draws that it is made of. -/
theorem area_ofCount_le {k m : ℕ} (w : Window Float) (hk : k ≤ m) (hm : m ≤ n) (hpos : 1 ≤ n)
    (hn : n < 2 ^ 64) : (ofCount w k n).area ≤ (ofCount w m n).area := by
  have hden := place_ofNat_pos hpos hn
  have hfin := (at_ofNat_word hn.le).2
  have hshare {j : ℕ} (hj : j ≤ n) : At (Float.ofNat j / Float.ofNat n) _ :=
    at_div (portion_ofNat hj hn).isFinite hfin hden.ne'
  have harea {j : ℕ} (hj : j ≤ n) : At (ofCount w j n).area _ :=
    at_mul (portion_ofCount w hj hpos hn).1.isFinite w.area_finite
  have hshares : place (Float.ofNat k / Float.ofNat n) ≤ place (Float.ofNat m / Float.ofNat n) := by
    rw [(hshare (hk.trans hm)).place_eq, (hshare hm).place_eq]
    exact Rounding.fit_mono
      (div_le_div_of_nonneg_right (portion_ofNat hk (hm.trans_lt hn)).le hden.le)
  refine le_iff.2 ⟨(harea (hk.trans hm)).defined, (harea hm).defined, ?_⟩
  rw [(harea (hk.trans hm)).place_eq, (harea hm).place_eq]
  exact Rounding.fit_mono (mul_le_mul_of_nonneg_right hshares w.area_nonneg)

/-- **Regions side by side.** Of three curves in order, the draws between the outer ones are those
between the lower two, those between the upper two, and those that are on the middle one and on no
other. And a region that encloses another one, whichever curves are the upper ones, never has fewer
draws, nor a lesser area. -/
theorem inside_of_adjacent (w : Window Float) (source : σ) (n : ℕ) (hpos : 1 ≤ n)
    (hn : n < 2 ^ 64) :
    (∀ f g h : Curve Float, Below f g w source n → Below g h w source n →
      ∃ whole lower upper, (withDraws f h w n source).outcome = .ok whole ∧
        (withDraws f g w n source).outcome = .ok lower ∧
        (withDraws g h w n source).outcome = .ok upper ∧
        whole.inside = lower.inside + upper.inside + (List.range n).countP fun i =>
          divides f g h (w.drawnX source i) (w.drawnY source i)) ∧
    ∀ f' g' f g : Curve Float, Encloses f' g' f g w source n →
      ∃ wide narrow, (withDraws f' g' w n source).outcome = .ok wide ∧
        (withDraws f g w n source).outcome = .ok narrow ∧
        narrow.inside ≤ wide.inside ∧ narrow.area ≤ wide.area := by
  refine ⟨fun f g h hfg hgh => ?_, fun f' g' f g hencloses => ?_⟩
  · exact ⟨_, _, _, outcome_of_values hpos (hfg.trans hgh).values,
      outcome_of_values hpos hfg.values, outcome_of_values hpos hgh.values,
      countP_contains_eq_add hfg hgh⟩
  · have hwide := outcome_of_values hpos hencloses.values.1
    have hnarrow := outcome_of_values hpos hencloses.values.2
    have hle := countP_contains_le hencloses
    exact ⟨_, _, hwide, hnarrow, hle, area_ofCount_le w hle
      (List.countP_le_length.trans_eq List.length_range) hpos hn⟩

/-- The axis, the diagonal and the upper side of the unit square, with three draws: one on the
diagonal, one below and one above it. -/
theorem inside_of_adjacent_diagonal :
    let axis : Program Float := ⟨[.push (Scalar.ofNat 0)], 0⟩
    let diagonal : Program Float := ⟨[.load], 0⟩
    let top : Program Float := ⟨[.push (Scalar.ofNat 1)], 0⟩
    let w := Window.unit
    let source := Cycle.ofList [2 ^ 63, 2 ^ 63, 2 ^ 63, 2 ^ 62, 2 ^ 62, 2 ^ 63]
    ((List.range 3).countP fun i => divides axis.evaluate diagonal.evaluate top.evaluate
      (w.drawnX source i) (w.drawnY source i)) = 1 ∧
    (∃ whole lower upper, (withDraws axis.evaluate top.evaluate w 3 source).outcome = .ok whole ∧
      (withDraws axis.evaluate diagonal.evaluate w 3 source).outcome = .ok lower ∧
      (withDraws diagonal.evaluate top.evaluate w 3 source).outcome = .ok upper ∧
      whole.inside = lower.inside + upper.inside + 1) ∧
    ∃ wide narrow, (withDraws top.evaluate axis.evaluate w 3 source).outcome = .ok wide ∧
      (withDraws axis.evaluate diagonal.evaluate w 3 source).outcome = .ok narrow ∧
      narrow.inside ≤ wide.inside ∧ narrow.area ≤ wide.area := by
  intro axis diagonal top w source
  have hdivides : ((List.range 3).countP fun i => divides axis.evaluate diagonal.evaluate
      top.evaluate (w.drawnX source i) (w.drawnY source i)) = 1 := by
    decide +kernel
  have hlower : ∀ i < 3, (Scalar.ofNat 0 : Float) ≤ w.drawnX source i := by decide +kernel
  have hupper : ∀ i < 3, w.drawnX source i ≤ (Scalar.ofNat 1 : Float) := by decide +kernel
  have hsides : (Scalar.ofNat 0 : Float) ≤ Scalar.ofNat 0 ∧
      (Scalar.ofNat 0 : Float) ≤ Scalar.ofNat 1 := by
    decide +kernel
  have hadjacent := inside_of_adjacent w source 3 (by decide) (by decide)
  have hbelow : Below axis.evaluate diagonal.evaluate w source 3 := fun i hi =>
    ⟨_, _, rfl, rfl, hlower i hi⟩
  have habove : Below diagonal.evaluate top.evaluate w source 3 := fun i hi =>
    ⟨_, _, rfl, rfl, hupper i hi⟩
  have hencloses : Encloses top.evaluate axis.evaluate axis.evaluate diagonal.evaluate w source 3 :=
    fun i hi => ⟨_, _, _, _, ⟨rfl, rfl⟩, ⟨rfl, rfl⟩, .inr hsides, .inr ⟨hlower i hi, hupper i hi⟩⟩
  have hwhole := hadjacent.1 _ _ _ hbelow habove
  rw [hdivides] at hwhole
  exact ⟨hdivides, hwhole, hadjacent.2 _ _ _ _ hencloses⟩

end Estimate

end

end CurveArea
