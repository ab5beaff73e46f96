import CurveArea.Plane.Area
import CurveArea.Proofs.Float.Arithmetic
import CurveArea.Proofs.Plane.Ending

/-!
# What a complete estimate is

Each trial takes two words of its source, so trial number `i` is told by the words with the numbers
`2 * i` and `2 * i + 1` (`Drawn`), whatever the trials before it came to. A series of trials that
all succeed holds these draws, in order, and counts those between the curves (`Trials.extend_ok`).
In binary64 a draw is between the curves when its ordinate is strictly between their values and both
values are defined (`between_iff`).
-/

namespace CurveArea

open CurveArea.Binary64 (lt_iff le_iff)

/-! ## Words of a source -/

namespace WordSource

variable {σ : Type} [WordSource σ]

/-- A source after so many of its words. -/
def after : (n : Nat) → σ → σ
  | 0, source => source
  | n + 1, source => after n (next source).2

/-- Word number `i` of a source, counted from zero. -/
def word (source : σ) (i : Nat) : UInt64 := (next (after i source)).1

/-- Words are taken one after the other. -/
theorem after_add (m n : Nat) (source : σ) : after (m + n) source = after n (after m source) := by
  induction m generalizing source with
  | zero => rw [Nat.zero_add, after]
  | succ m ih => rw [Nat.succ_add, after, ih, after]

/-- The words after some words are those with the numbers that follow. -/
theorem word_after (n i : Nat) (source : σ) : word (after n source) i = word source (n + i) := by
  rw [word, word, after_add]

end WordSource

/-! ## Series -/

namespace Trials

section
variable {α σ : Type} [WordSource σ]

/-- The series with draws added to it, for each of which two words were taken. -/
def append (t : Trials α σ) (ds : List (Draw α)) : Trials α σ where
  source := WordSource.after (2 * ds.length) t.source
  draws := t.draws ++ ds
  inside := t.inside + ds.countP (·.inside)

/-- A series to which no draw is added stays as it is. -/
theorem append_nil (t : Trials α σ) : t.append [] = t := by
  simp [append, WordSource.after]

/-- A draw that is added first took the first two words. -/
theorem append_cons (t : Trials α σ) (d : Draw α) (ds : List (Draw α)) :
    append ⟨WordSource.after 2 t.source, t.draws.push d,
      if d.inside then t.inside + 1 else t.inside⟩ ds = t.append (d :: ds) := by
  have hcount : (if d.inside then t.inside + 1 else t.inside) + ds.countP (·.inside) =
      t.inside + (d :: ds).countP (·.inside) := by
    rw [List.countP_cons]
    split <;> omega
  have hdraws : t.draws.push d ++ ds = t.draws ++ d :: ds := Array.ext' (by simp)
  have hsource : WordSource.after (2 * ds.length) (WordSource.after 2 t.source) =
      WordSource.after (2 * (d :: ds).length) t.source := by
    rw [← WordSource.after_add, List.length_cons, Nat.mul_succ, Nat.add_comm]
  simp only [append, hcount, hdraws, hsource]

end

end Trials

section
variable {α σ : Type} [Scalar α] [WordSource σ] {f g : Curve α} {w : Window α}

/-! ## Trials -/

namespace Window

/-- The abscissa of trial number `i` from a source. -/
def drawnX (w : Window α) (source : σ) (i : Nat) : α :=
  unitOfWord (WordSource.word source (2 * i)) * w.width + w.xMin

/-- The ordinate of trial number `i` from a source. -/
def drawnY (w : Window α) (source : σ) (i : Nat) : α :=
  unitOfWord (WordSource.word source (2 * i + 1)) * w.height + w.yMin

/-- Past the two words of one trial, the abscissas are those of the trials that follow. -/
theorem drawnX_after (w : Window α) (source : σ) (i : Nat) :
    w.drawnX (WordSource.after 2 source) i = w.drawnX source (i + 1) := by
  rw [drawnX, drawnX, WordSource.word_after, Nat.mul_succ, Nat.add_comm]

/-- Past the two words of one trial, the ordinates are those of the trials that follow. -/
theorem drawnY_after (w : Window α) (source : σ) (i : Nat) :
    w.drawnY (WordSource.after 2 source) i = w.drawnY source (i + 1) := by
  rw [drawnY, drawnY, WordSource.word_after, Nat.mul_succ, ← Nat.add_assoc, Nat.add_comm 2]

end Window

/-- A draw is what trial number `i` from a source comes to. -/
structure Drawn (f g : Curve α) (w : Window α) (source : σ) (i : Nat) (d : Draw α) : Prop where
  /-- Its abscissa is made of the first word of the trial. -/
  x_eq : d.x = w.drawnX source i
  /-- Its ordinate is made of the second word of the trial. -/
  y_eq : d.y = w.drawnY source i
  /-- It is classified by the values of both curves at its abscissa. -/
  inside_eq : ∃ a b, f d.x = .ok a ∧ g d.x = .ok b ∧ d.inside = between a b d.y

/-- A trial that comes later in a source comes sooner after some of its words. -/
theorem Drawn.of_after {source : σ} {i : Nat} {d : Draw α}
    (h : Drawn f g w (WordSource.after 2 source) i d) : Drawn f g w source (i + 1) d where
  x_eq := h.x_eq.trans (w.drawnX_after source i)
  y_eq := h.y_eq.trans (w.drawnY_after source i)
  inside_eq := h.inside_eq

namespace Trials

/-- A point is classified when both curves have values at its abscissa, by these values. -/
theorem classify_eq_ok_iff {x y : α} {inside : Bool} :
    classify f g x y = .ok inside ↔ ∃ a b, f x = .ok a ∧ g x = .ok b ∧ inside = between a b y := by
  simp only [classify]
  cases f x with
  | error e => simp [bind, Except.bind]
  | ok a =>
    cases g x with
    | error e => simp [bind, Except.bind]
    | ok b => simp [bind, Except.bind, pure, Except.pure, eq_comm]

/-- **Trials.** A series of trials that all succeed is extended by the draws of its source. -/
theorem extend_eq_append {n : Nat} {t t' : Trials α σ} (h : extend f g w n t = (t', .ok ())) :
    ∃ ds, t' = t.append ds ∧ ds.length = n ∧
      ∀ i d, ds[i]? = some d → Drawn f g w t.source i d := by
  induction n generalizing t with
  | zero =>
    cases h
    exact ⟨[], (append_nil _).symm, rfl, fun i d hd => by simp at hd⟩
  | succ n ih =>
    simp only [extend] at h
    split at h
    case h_1 e herror => cases h
    case h_2 inside hok =>
      obtain ⟨ds, rfl, hlen, hds⟩ := ih h
      let d : Draw α := ⟨w.drawnX t.source 0, w.drawnY t.source 0, inside⟩
      refine ⟨d :: ds, t.append_cons d ds, by rw [List.length_cons, hlen], ?_⟩
      intro i d hd
      cases i with
      | zero =>
        cases hd
        exact ⟨rfl, rfl, classify_eq_ok_iff.1 hok⟩
      | succ i => exact (hds i d hd).of_after

/-- Trials of curves that have values everywhere all succeed. -/
theorem extend_ok (hf : Total f) (hg : Total g) (n : Nat) (t : Trials α σ) :
    ∃ t', extend f g w n t = (t', .ok ()) := by
  induction n generalizing t with
  | zero => exact ⟨t, rfl⟩
  | succ n ih =>
    simp only [extend]
    split
    case h_1 e herror =>
      obtain ⟨a, ha⟩ := hf _
      obtain ⟨b, hb⟩ := hg _
      rw [classify_eq_ok_iff.2 ⟨a, b, ha, hb, rfl⟩] at herror
      cases herror
    case h_2 inside hok => exact ih _

/-- A trial counts one at most, whether or not all of them succeed. -/
theorem inside_extend_le (n : Nat) (t : Trials α σ) :
    (extend f g w n t).1.inside ≤ t.inside + n := by
  induction n generalizing t with
  | zero => exact Nat.le_refl _
  | succ n ih =>
    simp only [extend]
    split
    case h_1 e herror => exact Nat.le_add_right _ _
    case h_2 inside hok =>
      refine (ih _).trans ?_
      cases inside <;> simp only [if_true, Bool.false_eq_true, if_false] <;> omega

end Trials

end

section
variable {α σ : Type} [Number α] [WordSource σ] {f g : Curve α} {w : Window α}

/-- An estimate is that of the draws of its source, one or more. -/
theorem Estimate.withDraws_eq_append {n : Nat} {source : σ} {e : Estimate α}
    (h : (withDraws f g w n source).outcome = .ok e) :
    n ≠ 0 ∧ ∃ ds, (withDraws f g w n source).trials = (Trials.start source).append ds ∧
      ds.length = n ∧ (∀ i d, ds[i]? = some d → Drawn f g w source i d) ∧
      e = ofCount w (ds.countP (·.inside)) n := by
  unfold withDraws at h ⊢
  split at h
  case isTrue hzero => cases h
  case isFalse hpos =>
    rw [if_neg hpos]
    split at h
    case h_1 => cases h
    case h_2 t hextend =>
      obtain ⟨ds, rfl, hlen, hds⟩ := Trials.extend_eq_append hextend
      cases h
      refine ⟨hpos, ds, rfl, hlen, hds, ?_⟩
      simp [Trials.append, Trials.start]

/-- The verdict passes the programs that have values everywhere. -/
theorem total_evaluate_iff (p : Program α) : Total p.evaluate ↔ p.verdict = .ok () :=
  ⟨fun h => (p.evaluate_ok_iff Scalar.half).1 (h Scalar.half), total_evaluate⟩

/-- An estimate is made of one draw or more, when both programs have values. -/
theorem withDraws_ok_iff (p q : Program α) (w : Window α) (n : Nat) (source : σ) :
    (∃ e, (Estimate.withDraws p.evaluate q.evaluate w n source).outcome = .ok e) ↔
      n ≠ 0 ∧ p.verdict = .ok () ∧ q.verdict = .ok () := by
  constructor
  · rintro ⟨e, he⟩
    obtain ⟨hpos, ds, -, hlen, hds, -⟩ := Estimate.withDraws_eq_append he
    have hfirst : 0 < ds.length := hlen ▸ Nat.pos_of_ne_zero hpos
    obtain ⟨a, b, ha, hb, -⟩ := (hds 0 ds[0] (List.getElem?_eq_getElem hfirst)).inside_eq
    exact ⟨hpos, (p.evaluate_ok_iff _).1 ⟨a, ha⟩, (q.evaluate_ok_iff _).1 ⟨b, hb⟩⟩
  · rintro ⟨hpos, hp, hq⟩
    obtain ⟨t, ht⟩ := Trials.extend_ok (w := w) (total_evaluate hp) (total_evaluate hq) n
      (Trials.start source)
    exact ⟨_, by rw [Estimate.withDraws, if_neg hpos, ht]⟩

end

/-! ## Between the curves -/

/-- A number is strictly between two others when both are defined and it is above the lesser and
below the greater one. -/
theorem between_iff (a b y : Float) :
    between a b y = true ↔ a.isNaN = false ∧ b.isNaN = false ∧ min a b < y ∧ y < max a b := by
  have hmin : min a b = if a ≤ b then a else b := rfl
  have hmax : max a b = if a ≤ b then b else a := rfl
  have hbetween : between a b y = true ↔ (b < a ∧ b < y ∧ y < a) ∨ (a < b ∧ a < y ∧ y < b) := by
    simp [between, and_assoc]
  rw [hbetween, hmin, hmax]
  constructor
  · rintro (⟨hba, hby, hya⟩ | ⟨hab, hay, hyb⟩)
    · obtain ⟨hb, ha, hlt⟩ := lt_iff.1 hba
      have hnot : ¬ a ≤ b := fun hle => absurd (le_iff.1 hle).2.2 (not_le.2 hlt)
      rw [if_neg hnot, if_neg hnot]
      exact ⟨ha, hb, hby, hya⟩
    · obtain ⟨ha, hb, hlt⟩ := lt_iff.1 hab
      have hle : a ≤ b := le_iff.2 ⟨ha, hb, hlt.le⟩
      rw [if_pos hle, if_pos hle]
      exact ⟨ha, hb, hay, hyb⟩
  · rintro ⟨ha, hb, hlow, hhigh⟩
    split_ifs at hlow hhigh with hle
    · have hlt := (lt_iff.1 hlow).2.2.trans (lt_iff.1 hhigh).2.2
      exact .inr ⟨lt_iff.2 ⟨ha, hb, hlt⟩, hlow, hhigh⟩
    · have hlt := (lt_iff.1 hlow).2.2.trans (lt_iff.1 hhigh).2.2
      exact .inl ⟨lt_iff.2 ⟨hb, ha, hlt⟩, hlow, hhigh⟩

/-! ## Estimates in binary64 -/

section
variable {σ : Type} [WordSource σ]

/-- **Complete estimates.** An estimate of `n` draws has taken `2 * n` words and made `n` draws,
each from two words of its own. It counts the draws that are strictly between two defined values of
the curves, and the count goes up by one a trial at most. Without the draws it is the same. -/
theorem estimate_of_outcome_ok (p q : Program Float) (w : Window Float) (n : Nat) (source : σ)
    (e : Estimate Float)
    (h : (Estimate.withDraws p.evaluate q.evaluate w n source).outcome = .ok e) :
    let trials := (Estimate.withDraws p.evaluate q.evaluate w n source).trials
    (trials.source = WordSource.after (2 * n) source ∧ trials.draws.size = n) ∧
    (∀ i d, trials.draws[i]? = some d → Drawn p.evaluate q.evaluate w source i d ∧
      ∀ a b, p.evaluate d.x = .ok a → q.evaluate d.x = .ok b →
        (d.inside = true ↔
          a.isNaN = false ∧ b.isNaN = false ∧ min a b < d.y ∧ d.y < max a b)) ∧
    (e = Estimate.ofCount w (trials.draws.countP (·.inside)) n ∧ e.total = n ∧
      e.inside = trials.draws.countP (·.inside) ∧ e.inside ≤ e.total ∧
      ∀ k, ((Trials.start source).extend p.evaluate q.evaluate w k).1.inside ≤ k) ∧
    Estimate.ofCurves p.evaluate q.evaluate w n source = .ok e ∧
    Estimate.areaBetween p.evaluate q.evaluate w n source = .ok e.area := by
  intro trials
  -- All trials have been made, so the draws are those appended to the empty series.
  obtain ⟨-, ds, htrials, hlen, hds, he⟩ := Estimate.withDraws_eq_append h
  have hdraws : trials.draws = ds.toArray := by
    change (Estimate.withDraws p.evaluate q.evaluate w n source).trials.draws = _
    rw [htrials]
    simp [Trials.append, Trials.start]
  have hsource : trials.source = WordSource.after (2 * n) source := by
    change (Estimate.withDraws p.evaluate q.evaluate w n source).trials.source = _
    rw [htrials, ← hlen]
    rfl
  have hcount : trials.draws.countP (·.inside) = ds.countP (·.inside) := by
    rw [hdraws, List.countP_toArray]
  have hle : ds.countP (·.inside) ≤ n := hlen ▸ List.countP_le_length
  refine ⟨⟨hsource, by rw [hdraws, List.size_toArray, hlen]⟩, ?_, ?_, ?_⟩
  · intro i d hd
    rw [hdraws, List.getElem?_toArray] at hd
    have hdrawn := hds i d hd
    refine ⟨hdrawn, fun a b ha hb => ?_⟩
    obtain ⟨a', b', ha', hb', hinside⟩ := hdrawn.inside_eq
    cases ha.symm.trans ha'
    cases hb.symm.trans hb'
    rw [hinside, between_iff]
  · rw [hcount, he]
    exact ⟨rfl, rfl, rfl, hle, fun k => (Trials.inside_extend_le k _).trans (Nat.zero_add k).le⟩
  · have hcurves : Estimate.ofCurves p.evaluate q.evaluate w n source = .ok e := h
    refine ⟨hcurves, ?_⟩
    rw [Estimate.areaBetween, hcurves]
    rfl

/-- The bounds of the unit square are in order, and its area is finite. -/
theorem Window.unit_bounds : (Scalar.ofNat 0 : Float) < Scalar.ofNat 1 ∧
    Scalar.isFinite (((Scalar.ofNat 1 : Float) - Scalar.ofNat 0) *
      (Scalar.ofNat 1 - Scalar.ofNat 0)) = true := by
  decide +kernel

/-- The unit square. -/
def Window.unit : Window Float :=
  ⟨Scalar.ofNat 0, Scalar.ofNat 1, Scalar.ofNat 0, Scalar.ofNat 1, unit_bounds.1, unit_bounds.1,
    unit_bounds.2⟩

/-- Two draws between the diagonal and the axis, in the unit square. -/
theorem estimate_of_outcome_ok_diagonal :
    let p : Program Float := ⟨[.load], 0⟩
    let q : Program Float := ⟨[.push (Scalar.ofNat 0)], 0⟩
    let w := Window.unit
    let source := Cycle.ofList [2 ^ 63, 2 ^ 62, 2 ^ 62, 2 ^ 63]
    let trials := (Estimate.withDraws p.evaluate q.evaluate w 2 source).trials
    ∃ e, (Estimate.withDraws p.evaluate q.evaluate w 2 source).outcome = .ok e ∧
      (trials.source = WordSource.after (2 * 2) source ∧ trials.draws.size = 2) ∧
      (∀ i d, trials.draws[i]? = some d → Drawn p.evaluate q.evaluate w source i d ∧
        ∀ a b, p.evaluate d.x = .ok a → q.evaluate d.x = .ok b →
          (d.inside = true ↔
            a.isNaN = false ∧ b.isNaN = false ∧ min a b < d.y ∧ d.y < max a b)) ∧
      (e = Estimate.ofCount w (trials.draws.countP (·.inside)) 2 ∧ e.total = 2 ∧
        e.inside = trials.draws.countP (·.inside) ∧ e.inside ≤ e.total ∧
        ∀ k, ((Trials.start source).extend p.evaluate q.evaluate w k).1.inside ≤ k) ∧
      Estimate.ofCurves p.evaluate q.evaluate w 2 source = .ok e ∧
      Estimate.areaBetween p.evaluate q.evaluate w 2 source = .ok e.area := by
  intro p q w source trials
  obtain ⟨e, he⟩ := (withDraws_ok_iff p q w 2 source).2 ⟨by decide, rfl, rfl⟩
  exact ⟨e, he, estimate_of_outcome_ok p q w 2 source e he⟩

end

end CurveArea
