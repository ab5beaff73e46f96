import CurveArea.Proofs.Plane.Inside

/-!
# Traces in exact arithmetic

Rational numbers are numbers of the plane as well, without any rounding. In them the grid of a pass
is what the drawing of it suggests: pass number `k`, counted from zero, has `500 * 2 ^ k` samples, a
step apart, the first and the last of them half a step inside the window
(`Exact.spread_of_samples`). Passes have no abscissa in common, because an odd count of half steps
at one step is an even count of them at every finer one (`Exact.abscissa_ne`). So the samples of a
trace are counted by its passes (`Exact.length_flatten`) and are at different abscissas
(`Exact.nodup_flatten`).
-/

namespace CurveArea

/-- Exact numbers. All of them are finite; the two smallest ones are those of binary64. -/
instance Scalar.exact : Scalar ℚ where
  decideLT := inferInstance
  decideLE := inferInstance
  ofNat n := n
  abs q := |q|
  isFinite _ := true
  half := 1 / 2
  smallestNormal := 2 ^ (-1022 : ℤ)
  smallestPositive := 2 ^ (-1074 : ℤ)

section
variable {α : Type} [Scalar α] {f : Curve α} {w : Window α} {step : α} {i n : ℕ}
  {ps : List (Point α)}

/-! ## Samples by number -/

/-- The samples of a complete pass are points of the curve at the abscissas of the pass. -/
theorem Samples.visits (h : Samples f w step i ps) : Visits f w step i ps := by
  induction h with
  | stop => exact visits_nil
  | point hx hy _ ih => exact ih.cons hx hy

/-- A pass has only these samples. -/
theorem Samples.unique {qs : List (Point α)} (h : Samples f w step i ps)
    (h' : Samples f w step i qs) : ps = qs := by
  induction h generalizing qs with
  | stop hx =>
    cases h' with
    | stop => rfl
    | point hx' => exact absurd hx' hx
  | point hx hy _ ih =>
    cases h' with
    | stop hx' => exact absurd hx hx'
    | point _ hy' hqs =>
      cases hy.symm.trans hy'
      rw [ih hqs]

/-- A pass has no more samples than there are abscissas up to one that is not below the right
bound. -/
theorem Samples.length_le (h : Samples f w step i ps) (hi : i ≤ n)
    (hn : ¬ w.abscissa step n < w.xMax) : i + ps.length ≤ n := by
  induction h with
  | stop => exact hi
  | point hx _ _ ih =>
    have hlt : _ < n := lt_of_le_of_ne hi fun heq => hn (heq ▸ hx)
    have hle := ih hlt
    rw [List.length_cons]
    omega

/-- The abscissa after the samples of a pass is not below the right bound. -/
theorem Samples.not_abscissa_lt (h : Samples f w step i ps) :
    ¬ w.abscissa step (i + ps.length) < w.xMax := by
  induction h with
  | stop hx => exact hx
  | point _ _ _ ih => rwa [List.length_cons, Nat.add_comm _ 1, ← Nat.add_assoc]

/-- Neighbours in a list are the elements with two numbers that follow each other. -/
theorem pair_infix_iff {β : Type} {a b : β} {xs : List β} :
    [a, b] <:+: xs ↔ ∃ j, xs[j]? = some a ∧ xs[j + 1]? = some b := by
  rw [List.infix_iff_getElem?]
  constructor
  · rintro ⟨j, -, h⟩
    have hfirst := h 0 Nat.two_pos
    have hsecond := h 1 Nat.one_lt_two
    rw [Nat.zero_add] at hfirst
    rw [Nat.add_comm] at hsecond
    exact ⟨j, hfirst, hsecond⟩
  · rintro ⟨j, hfirst, hsecond⟩
    obtain ⟨hlt, -⟩ := List.getElem?_eq_some_iff.1 hsecond
    refine ⟨j, by rw [List.length_cons, List.length_singleton]; omega, fun m hm => ?_⟩
    match m, hm with
    | 0, _ => rwa [Nat.zero_add]
    | 1, _ => rwa [Nat.add_comm]

end

namespace Exact

variable {f : Curve ℚ} {w : Window ℚ} {j k m n : ℕ} {ps : List (Point ℚ)}

/-! ## The grid of a pass -/

/-- A window has a width. -/
theorem width_pos (w : Window ℚ) : 0 < w.width := sub_pos.2 w.x_lt

/-- The step of a pass is one of as many equal parts of the width as the pass has abscissas. -/
theorem stepOf_eq (w : Window ℚ) (k : ℕ) : w.stepOf k = w.width / (500 * 2 ^ k) := by
  induction k with
  | zero =>
    rw [pow_zero, mul_one]
    rfl
  | succ k ih =>
    have hhalf : w.stepOf (k + 1) = w.stepOf k / 2 := rfl
    rw [hhalf, ih, div_div, pow_succ, mul_assoc]

/-- A step is positive. -/
theorem stepOf_pos (w : Window ℚ) (k : ℕ) : 0 < w.stepOf k := by
  have hwidth := width_pos w
  rw [stepOf_eq]
  positivity

/-- The steps of a pass cover the width. -/
theorem mul_stepOf (w : Window ℚ) (k : ℕ) : 500 * 2 ^ k * w.stepOf k = w.xMax - w.xMin := by
  rw [stepOf_eq, mul_div_cancel₀ _ (by positivity)]
  rfl

/-- Each abscissa is in the middle of its step. -/
theorem abscissa_eq (w : Window ℚ) (s : ℚ) (n : ℕ) :
    w.abscissa s n = w.xMin + (n + 1 / 2) * s := rfl

/-- Abscissas are below the right bound while their number is below the count of steps. -/
theorem abscissa_lt_iff : w.abscissa (w.stepOf k) n < w.xMax ↔ n < 500 * 2 ^ k := by
  have hcover := mul_stepOf w k
  have hmiddle : (n : ℚ) + 1 / 2 < 500 * 2 ^ k ↔ n < 500 * 2 ^ k := by
    have hcast : ((500 * 2 ^ k : ℕ) : ℚ) = 500 * 2 ^ k := by push_cast; rfl
    rw [← hcast]
    constructor
    · intro h
      exact_mod_cast (by linarith : (n : ℚ) < (500 * 2 ^ k : ℕ))
    · intro h
      have hnext : (n : ℚ) + 1 ≤ (500 * 2 ^ k : ℕ) := by exact_mod_cast h
      linarith
  rw [abscissa_eq, ← lt_sub_iff_add_lt', ← hcover, mul_lt_mul_iff_left₀ (stepOf_pos w k), hmiddle]

/-- After as many abscissas as there are steps a pass reaches the right bound. -/
theorem reaches (h : 500 * 2 ^ k < n) : w.Reaches n k :=
  ⟨500 * 2 ^ k, h, fun hlt => lt_irrefl _ (abscissa_lt_iff.1 hlt)⟩

/-- Points spread evenly over a window: so many of them, in order and a step apart, the first and
the last one half a step away from the bounds. -/
structure Spread (w : Window ℚ) (count : ℕ) (ps : List (Point ℚ)) : Prop where
  /-- There are so many. -/
  length_eq : ps.length = count
  /-- Their abscissas increase. -/
  increasing : ps.Pairwise fun p q => p.x < q.x
  /-- Neighbours are a step apart. -/
  spaced : ∀ p q, [p, q] <:+: ps → q.x - p.x = w.width / count
  /-- The first one is half a step after the left bound. -/
  first : ∀ p, ps.head? = some p → p.x = w.xMin + w.width / count / 2
  /-- The last one is half a step before the right bound. -/
  last : ∀ p, ps.getLast? = some p → p.x = w.xMax - w.width / count / 2

/-- A pass has a sample for every step that is left. -/
theorem length_of_samples (h : Samples f w (w.stepOf k) n ps) (hn : n ≤ 500 * 2 ^ k) :
    n + ps.length = 500 * 2 ^ k := by
  induction h with
  | stop hx => exact le_antisymm hn (not_lt.1 fun hlt => hx (abscissa_lt_iff.2 hlt))
  | point hx _ _ ih =>
    have hnext := ih (abscissa_lt_iff.1 hx)
    rw [List.length_cons]
    omega

/-- **One pass.** The samples of a pass are spread evenly, twice as many as in the pass before. -/
theorem spread_of_samples (h : Samples f w (w.stepOf k) 0 ps) : Spread w (500 * 2 ^ k) ps := by
  have hlength : ps.length = 500 * 2 ^ k := by
    rw [← length_of_samples h (Nat.zero_le _), Nat.zero_add]
  have hstep : w.width / (500 * 2 ^ k : ℕ) = w.stepOf k := by
    rw [stepOf_eq]
    push_cast
    rfl
  have hx {i : ℕ} {p : Point ℚ} (hi : ps[i]? = some p) :
      p.x = w.xMin + (i + 1 / 2) * w.stepOf k := by
    have hvisit := (h.visits i p hi).1
    rwa [Nat.zero_add, abscissa_eq] at hvisit
  refine ⟨hlength, ?_, ?_, ?_, ?_⟩
  · rw [List.pairwise_iff_getElem]
    intro i j hi hj hij
    rw [hx (List.getElem?_eq_getElem hi), hx (List.getElem?_eq_getElem hj)]
    have hcast : (i : ℚ) < j := by exact_mod_cast hij
    have hless := mul_lt_mul_of_pos_right (by linarith : (i : ℚ) + 1 / 2 < j + 1 / 2)
      (stepOf_pos w k)
    linarith
  · intro p q hpq
    obtain ⟨i, hp, hq⟩ := pair_infix_iff.1 hpq
    rw [hx hp, hx hq, hstep]
    push_cast
    ring
  · intro p hp
    rw [List.head?_eq_getElem?] at hp
    rw [hx hp, hstep, Nat.cast_zero]
    ring
  · intro p hp
    rw [List.getLast?_eq_getElem?, hlength] at hp
    have hcast : ((500 * 2 ^ k - 1 : ℕ) : ℚ) = 500 * 2 ^ k - 1 := by
      rw [Nat.cast_sub (by have := Nat.two_pow_pos k; omega)]
      push_cast
      rfl
    have hcover := mul_stepOf w k
    rw [hx hp, hstep, hcast]
    linarith

/-! ## The grids of all passes -/

/-- **Different passes.** No abscissa is on the grids of two passes. -/
theorem abscissa_ne (w : Window ℚ) (hjk : j < k) (m n : ℕ) :
    w.abscissa (w.stepOf j) m ≠ w.abscissa (w.stepOf k) n := by
  obtain ⟨d, rfl⟩ := Nat.exists_eq_add_of_lt hjk
  have hfine : w.stepOf j = 2 ^ (d + 1) * w.stepOf (j + d + 1) := by
    rw [stepOf_eq, stepOf_eq, Nat.add_assoc, pow_add]
    field_simp
    ring
  intro heq
  rw [abscissa_eq, abscissa_eq, add_right_inj, hfine, ← mul_assoc] at heq
  have hcount := mul_right_cancel₀ (stepOf_pos w (j + d + 1)).ne' heq
  have hodd : (2 * m + 1) * 2 ^ (d + 1) = 2 * n + 1 := by
    have hcast : ((2 * m + 1) * 2 ^ (d + 1) : ℚ) = 2 * n + 1 := by linarith
    exact_mod_cast hcast
  rw [pow_succ, ← mul_assoc] at hodd
  omega

section
variable {samples : List (List (Point ℚ))}

/-- So many samples do passes have together. -/
theorem length_flatten (h : ∀ k ps, samples[k]? = some ps → Samples f w (w.stepOf k) 0 ps) :
    samples.flatten.length = 500 * (2 ^ samples.length - 1) := by
  induction samples using List.reverseRecOn with
  | nil => rfl
  | append_singleton samples ps ih =>
    have hlast := (spread_of_samples (h samples.length ps (by simp))).length_eq
    have hbefore := ih fun k qs hk => h k qs (by
      rw [List.getElem?_append_left (List.getElem?_eq_some_iff.1 hk).1]
      exact hk)
    have hpos := Nat.two_pow_pos samples.length
    rw [List.flatten_append, List.length_append, List.flatten_singleton, hbefore, hlast,
      List.length_append, List.length_singleton, pow_succ]
    omega

/-- No two of these samples are at the same abscissa. -/
theorem nodup_flatten (h : ∀ k ps, samples[k]? = some ps → Samples f w (w.stepOf k) 0 ps) :
    (samples.flatten.map (·.x)).Nodup := by
  rw [List.map_flatten, List.nodup_flatten]
  constructor
  · rintro xs hxs
    obtain ⟨ps, hps, rfl⟩ := List.mem_map.1 hxs
    obtain ⟨k, hk⟩ := List.mem_iff_getElem?.1 hps
    exact List.pairwise_map.2 ((spread_of_samples (h k ps hk)).increasing.imp ne_of_lt)
  · rw [List.pairwise_map, List.pairwise_iff_getElem]
    intro j k hj hk hjk x hx hx'
    obtain ⟨p, hp, rfl⟩ := List.mem_map.1 hx
    obtain ⟨q, hq, heq⟩ := List.mem_map.1 hx'
    obtain ⟨m, hm⟩ := List.mem_iff_getElem?.1 hp
    obtain ⟨n, hn⟩ := List.mem_iff_getElem?.1 hq
    have hp' := ((h j _ (List.getElem?_eq_getElem hj)).visits m p hm).1
    have hq' := ((h k _ (List.getElem?_eq_getElem hk)).visits n q hn).1
    exact abscissa_ne w hjk (0 + m) (0 + n) (hp'.symm.trans (heq.symm.trans hq'))

end

end Exact

end CurveArea
