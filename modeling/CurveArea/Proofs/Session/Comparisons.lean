import CurveArea.Proofs.Session.Launches

/-!
# Launches compared

What two launches have in common when their settings have something in common. Exchanging the
formulas exchanges what is shown of them and leaves the draws and the estimate as they are
(`launch_exchanged`): a point is between two curves whichever comes first, so the same words are
taken and counted. And the parts of a result depend on no more than they must
(`launch_parts_eq`): where the draws lie on the seed and the window, and what is traced of a formula
on that formula, the window and the bound on the passes.
-/

namespace CurveArea

section
variable {α : Type} [Scalar α] {f g : Curve α} {w : Window α}

/-- The point that was drawn. -/
def Draw.point (d : Draw α) : Point α := ⟨d.x, d.y⟩

/-! ## Curves in either order -/

/-- It does not matter which curve comes first. -/
theorem between_comm (a b y : α) : between a b y = between b a y := Bool.or_comm ..

namespace Trials

/-- A point is classified alike, whichever curve comes first. -/
theorem classify_comm (hf : Total f) (hg : Total g) (x y : α) :
    classify f g x y = classify g f x y := by
  obtain ⟨a, ha⟩ := hf x
  obtain ⟨b, hb⟩ := hg x
  rw [classify_eq_ok_iff.2 ⟨a, b, ha, hb, rfl⟩, classify_eq_ok_iff.2 ⟨b, a, hb, ha, rfl⟩,
    between_comm]

/-- A series depends on the curves only through the classification of its points. -/
theorem extend_congr {σ : Type} [WordSource σ] {f' g' : Curve α}
    (h : ∀ x y, classify f g x y = classify f' g' x y) (n : Nat) (t : Trials α σ) :
    extend f g w n t = extend f' g' w n t := by
  induction n generalizing t with
  | zero => rfl
  | succ n ih =>
    simp only [extend, h]
    split
    · rfl
    · exact ih _

end Trials

end

section
variable {α σ : Type} [Number α] [WordSource σ] {f g : Curve α} {w : Window α}

namespace Estimate

/-- An area is estimated alike, whichever curve comes first. -/
theorem withDraws_comm (hf : Total f) (hg : Total g) (w : Window α) (n : Nat) (source : σ) :
    withDraws f g w n source = withDraws g f w n source := by
  rw [withDraws, withDraws, Trials.extend_congr (Trials.classify_comm hf hg)]

/-! ## Where the draws lie -/

/-- The draws of an estimate lie where the words of its source say. -/
theorem points_draws {n : Nat} {source : σ} {e : Estimate α}
    (h : (withDraws f g w n source).outcome = .ok e) :
    (withDraws f g w n source).trials.draws.toList.map Draw.point =
      (List.range n).map fun i => ⟨w.drawnX source i, w.drawnY source i⟩ := by
  obtain ⟨-, ds, htrials, hlen, hds, -⟩ := withDraws_eq_append h
  have hdraws : (withDraws f g w n source).trials.draws.toList = ds := by
    rw [htrials]
    simp [Trials.append, Trials.start]
  rw [hdraws]
  refine List.ext_getElem (by simp [hlen]) fun i hi _ => ?_
  have hlt : i < ds.length := by simpa using hi
  have hdrawn := hds i ds[i] (List.getElem?_eq_getElem hlt)
  rw [List.getElem_map, List.getElem_map, List.getElem_range, Draw.point, hdrawn.x_eq,
    hdrawn.y_eq]

/-- With more draws from the same source the first ones lie where they did. -/
theorem points_draws_prefix {f' g' : Curve α} {m n : Nat} {source : σ} {e e' : Estimate α}
    (h : (withDraws f g w m source).outcome = .ok e)
    (h' : (withDraws f' g' w n source).outcome = .ok e') (hle : m ≤ n) :
    (withDraws f g w m source).trials.draws.toList.map Draw.point <+:
      (withDraws f' g' w n source).trials.draws.toList.map Draw.point := by
  rw [points_draws h, points_draws h']
  refine List.IsPrefix.map _ ?_
  have hrange : List.range m = (List.range n).take m := by
    rw [List.take_range, Nat.min_eq_left hle]
  rw [hrange]
  exact List.take_prefix ..

end Estimate

end

section
variable {α : Type} [Number α] {s t : Settings α}

/-! ## Formulas in either order -/

/-- The settings with the formulas exchanged. -/
def Settings.exchanged (s : Settings α) : Settings α :=
  { s with first := s.second, second := s.first }

/-- The result with what is shown of the two formulas exchanged. -/
def Result.exchanged (r : Result α) : Result α :=
  { r with
    firstPoints := r.secondPoints
    secondPoints := r.firstPoints
    firstReport := r.secondReport
    secondReport := r.firstReport }

/-- An explanation with the programs exchanged, of the exchanged result. -/
def Explanation.exchanged (r : Result α) (x : Explanation) : Explanation :=
  ⟨x.second, x.first, noteOf r.estimate.total r.secondReport.passes r.firstReport.passes⟩

/-- With the formulas exchanged, a launch goes through the same steps and has the result and the
explanation exchanged. -/
theorem Launched.exchanged {p q : Program α} {r : Result α} {x : Explanation}
    (h : Launched s p q r x) : Launched s.exchanged q p r.exchanged (x.exchanged r) where
  first_eq := h.second_eq
  second_eq := h.first_eq
  window_eq := h.window_eq
  estimate_eq := by
    rw [Estimate.withDraws_comm h.sound.second_total h.sound.first_total]
    exact h.estimate_eq
  draws_eq := by
    rw [Estimate.withDraws_comm h.sound.second_total h.sound.first_total]
    exact h.draws_eq
  firstReport_eq := h.secondReport_eq
  firstPoints_eq := h.secondPoints_eq
  secondReport_eq := h.firstReport_eq
  secondPoints_eq := h.firstPoints_eq
  explanation_eq := by
    rw [h.explanation_eq]
    rfl

/-- A formula is at fault when it has no program, or one without a value. -/
def AtFault (α : Type) [Number α] (text : String) : Prop :=
  (∃ e, Program.compile (α := α) text = .error e) ∨
    ∃ (p : Program α) (e : EvalError), Program.compile text = .ok p ∧ Fails p.evaluate e

/-- A formula is at fault, or it has a program with a value everywhere. -/
theorem atFault_or_total (text : String) :
    AtFault α text ∨ ∃ p : Program α, Program.compile text = .ok p ∧ Total p.evaluate := by
  cases hp : Program.compile (α := α) text with
  | error e => exact .inl (.inl ⟨e, hp⟩)
  | ok p =>
    rcases total_or_fails p with htotal | ⟨e, hfails⟩
    · exact .inr ⟨p, rfl, htotal⟩
    · exact .inl (.inr ⟨p, e, hp, hfails⟩)

/-- The first fault is the same in either order when only the first formula is at fault. -/
theorem exists_firstFault_exchanged {q : Program α} (h : AtFault α s.first)
    (hq : Program.compile s.second = .ok q) (hqt : Total q.evaluate) :
    ∃ failure, s.FirstFault failure ∧ s.exchanged.FirstFault failure := by
  rcases h with ⟨e, he⟩ | ⟨p, e, hp, hfails⟩
  · exact ⟨_, .first he, .second hq he⟩
  · cases hw : Window.make s.xMin s.xMax s.yMin s.yMax with
    | error e => exact ⟨_, .window hp hq hw, .window hq hp hw⟩
    | ok w =>
      by_cases hn : s.points = 0
      · exact ⟨_, .points hp hq hw hn, .points hq hp hw hn⟩
      · exact ⟨_, .firstValue hp hq hw hn hfails, .secondValue hq hp hw hn hqt hfails⟩

/-- **Formulas in either order.** A launch with a result has one with the formulas exchanged: the
window, the estimate and the draws are the same, and what is shown of the formulas is exchanged.
When only one of the formulas is at fault, the launch fails in the same way in either order. -/
theorem launch_exchanged (s : Settings α) :
    (∀ (r : Result α) (x : Explanation), s.launch.outcome = .ok (r, x) →
      s.exchanged.launch.outcome = .ok (r.exchanged, x.exchanged r)) ∧
    (AtFault α s.first ∧ ¬ AtFault α s.second ∨ ¬ AtFault α s.first ∧ AtFault α s.second →
      ∃ failure, s.launch.outcome = .error (.failure failure) ∧
        s.exchanged.launch.outcome = .error (.failure failure)) := by
  constructor
  · intro r x h
    obtain ⟨p, q, hlaunched⟩ := launch_ok_iff.1 h
    exact launch_ok_iff.2 ⟨q, p, hlaunched.exchanged⟩
  · rintro (⟨hfirst, hsecond⟩ | ⟨hfirst, hsecond⟩)
    · obtain ⟨q, hq, hqt⟩ := (atFault_or_total s.second).resolve_left hsecond
      obtain ⟨failure, hs, hs'⟩ := exists_firstFault_exchanged hfirst hq hqt
      exact ⟨failure, hs.outcome_launch, hs'.outcome_launch⟩
    · obtain ⟨p, hp, hpt⟩ := (atFault_or_total s.first).resolve_left hfirst
      obtain ⟨failure, hs', hs⟩ := exists_firstFault_exchanged (s := s.exchanged) hsecond hp hpt
      exact ⟨failure, hs.outcome_launch, hs'.outcome_launch⟩

end

/-- The diagonal and a parabola above the unit interval, with two draws and three passes. -/
def parabolaSettings : Settings Float :=
  { Settings.default with first := "x", second := "x * x", points := 2, passBound := 3 }

/-- The unit square is not too narrow for a step. -/
theorem not_unit_narrow : ¬ Window.unit.width ≤ Window.narrow := by decide +kernel

/-- The program of the diagonal. -/
theorem compile_diagonal : Program.compile "x" = .ok (⟨[.load], 0⟩ : Program Float) := by rfl

/-- The program of the parabola. -/
theorem compile_parabola :
    Program.compile "x * x" = .ok (⟨[.load, .load, .apply .times], 0⟩ : Program Float) := by rfl

/-- The diagonal and the parabola in either order, and the diagonal and the words `x x`, which leave
two numbers, in either order. -/
theorem launch_exchanged_parabola :
    (∃ r x, parabolaSettings.launch.outcome = .ok (r, x) ∧
      parabolaSettings.exchanged.launch.outcome = .ok (r.exchanged, x.exchanged r)) ∧
    ¬ AtFault Float leftoverSettings.first ∧ AtFault Float leftoverSettings.second ∧
      ∃ failure, leftoverSettings.launch.outcome = .error (.failure failure) ∧
        leftoverSettings.exchanged.launch.outcome = .error (.failure failure) := by
  obtain ⟨⟨r, x⟩, hanswer⟩ := exists_launch_clamped_ok (s := parabolaSettings) compile_diagonal
    compile_parabola Window.unit.make_bounds rfl rfl not_unit_narrow
  have hfirst : ¬ AtFault Float leftoverSettings.first := by
    rintro (⟨e, he⟩ | ⟨p, e, hp, hfails⟩)
    · cases compile_diagonal.symm.trans he
    · cases compile_diagonal.symm.trans hp
      cases hfails (Scalar.ofNat 0)
  have hsecond : AtFault Float leftoverSettings.second :=
    .inr ⟨⟨[.load, .load], 0⟩, .leftover 2, by rfl, fun _ => rfl⟩
  exact ⟨⟨r, x, hanswer, (launch_exchanged parabolaSettings).1 r x hanswer⟩, hfirst, hsecond,
    (launch_exchanged leftoverSettings).2 (.inr ⟨hfirst, hsecond⟩)⟩

section
variable {α : Type} [Number α] {s t : Settings α}

/-! ## Parts of a result -/

section
variable {p q p' q' : Program α} {r r' : Result α} {x x' : Explanation}

/-- Two launches with the same first formula have the same program for it. -/
theorem Launched.first_congr (hs : Launched s p q r x) (ht : Launched t p' q' r' x')
    (h : t.first = s.first) : p' = p := by
  have hp := ht.first_eq
  rw [h, hs.first_eq] at hp
  exact (Except.ok.inj hp).symm

/-- Two launches with the same second formula have the same program for it. -/
theorem Launched.second_congr (hs : Launched s p q r x) (ht : Launched t p' q' r' x')
    (h : t.second = s.second) : q' = q :=
  hs.exchanged.first_congr ht.exchanged h

/-- Two launches with the same bounds have the same window. -/
theorem Launched.window_congr (hs : Launched s p q r x) (ht : Launched t p' q' r' x')
    (hx : t.xMin = s.xMin ∧ t.xMax = s.xMax) (hy : t.yMin = s.yMin ∧ t.yMax = s.yMax) :
    r'.window = r.window := by
  have hw := ht.window_eq
  rw [hx.1, hx.2, hy.1, hy.2, hs.window_eq] at hw
  exact (Except.ok.inj hw).symm

/-- What is traced of the first formula depends on it, the window and the bound on the passes. -/
theorem Launched.first_trace_congr (hs : Launched s p q r x) (ht : Launched t p' q' r' x')
    (hw : r'.window = r.window) (hfirst : t.first = s.first) (hbound : t.passBound = s.passBound) :
    r'.firstPoints = r.firstPoints ∧ r'.firstReport = r.firstReport := by
  have hreport := ht.firstReport_eq
  rw [hs.first_congr ht hfirst, hw, hbound, hs.firstReport_eq] at hreport
  refine ⟨?_, (Except.ok.inj hreport).symm⟩
  rw [ht.firstPoints_eq, hs.firstPoints_eq, hs.first_congr ht hfirst, hw, hbound]

end

/-- **Parts of a result.** Of two launches with results in the same window, with the same seed, the
draws of the one with fewer of them lie where the first draws of the other one do. With as many
draws and the same formulas they are the same, and so are the estimates. And what is traced of a
formula is the same when the formula and the bound on the passes are. -/
theorem launch_parts_eq (s t : Settings α) (r r' : Result α) (x x' : Explanation)
    (hs : s.launch.outcome = .ok (r, x)) (ht : t.launch.outcome = .ok (r', x'))
    (hx : t.xMin = s.xMin ∧ t.xMax = s.xMax) (hy : t.yMin = s.yMin ∧ t.yMax = s.yMax) :
    (t.seed = s.seed → s.points ≤ t.points →
      r.draws.toList.map Draw.point <+: r'.draws.toList.map Draw.point) ∧
    (t.seed = s.seed → t.points = s.points → t.first = s.first → t.second = s.second →
      r'.draws = r.draws ∧ r'.estimate = r.estimate) ∧
    (t.first = s.first → t.passBound = s.passBound →
      r'.firstPoints = r.firstPoints ∧ r'.firstReport = r.firstReport) ∧
    (t.second = s.second → t.passBound = s.passBound →
      r'.secondPoints = r.secondPoints ∧ r'.secondReport = r.secondReport) := by
  obtain ⟨p, q, hs⟩ := launch_ok_iff.1 hs
  obtain ⟨p', q', ht⟩ := launch_ok_iff.1 ht
  have hw := hs.window_congr ht hx hy
  refine ⟨?_, ?_, hs.first_trace_congr ht hw, hs.exchanged.first_trace_congr ht.exchanged hw⟩
  · intro hseed hle
    have he := ht.estimate_eq
    rw [hw, hseed] at he
    rw [hs.draws_eq, ht.draws_eq, hw, hseed]
    exact Estimate.points_draws_prefix hs.estimate_eq he hle
  · intro hseed hpoints hfirst hsecond
    have he := ht.estimate_eq
    rw [hs.first_congr ht hfirst, hs.second_congr ht hsecond, hw, hseed, hpoints,
      hs.estimate_eq] at he
    refine ⟨?_, (Except.ok.inj he).symm⟩
    rw [ht.draws_eq, hs.draws_eq, hs.first_congr ht hfirst, hs.second_congr ht hsecond, hw, hseed,
      hpoints]

end

/-- Two more draws against another line leave the first draws and the trace of the parabola as they
are, and two more passes leave the draws and the estimate as they are. -/
theorem launch_parts_eq_parabola :
    let s := parabolaSettings
    let t : Settings Float := { s with first := "x + x", points := 4 }
    let u : Settings Float := { s with passBound := 5 }
    ∃ r x r' x' r'' x'', s.launch.outcome = .ok (r, x) ∧ t.launch.outcome = .ok (r', x') ∧
      u.launch.outcome = .ok (r'', x'') ∧
      r.draws.toList.map Draw.point <+: r'.draws.toList.map Draw.point ∧
      (r'.secondPoints = r.secondPoints ∧ r'.secondReport = r.secondReport) ∧
      r''.draws = r.draws ∧ r''.estimate = r.estimate := by
  intro s t u
  have hsum :
      Program.compile "x + x" = .ok (⟨[.load, .load, .apply .plus], 0⟩ : Program Float) := by rfl
  obtain ⟨⟨r, x⟩, hs⟩ := exists_launch_clamped_ok (s := s) compile_diagonal compile_parabola
    Window.unit.make_bounds rfl rfl not_unit_narrow
  obtain ⟨⟨r', x'⟩, ht⟩ := exists_launch_clamped_ok (s := t) hsum compile_parabola
    Window.unit.make_bounds rfl rfl not_unit_narrow
  obtain ⟨⟨r'', x''⟩, hu⟩ := exists_launch_clamped_ok (s := u) compile_diagonal compile_parabola
    Window.unit.make_bounds rfl rfl not_unit_narrow
  obtain ⟨hpoints, -, -, htrace⟩ := launch_parts_eq s t r r' x x' hs ht ⟨rfl, rfl⟩ ⟨rfl, rfl⟩
  obtain ⟨-, hdraws, -, -⟩ := launch_parts_eq s u r r'' x x'' hs hu ⟨rfl, rfl⟩ ⟨rfl, rfl⟩
  exact ⟨r, x, r', x', r'', x'', hs, ht, hu, hpoints rfl (by decide), htrace rfl rfl,
    hdraws rfl rfl rfl rfl⟩

end CurveArea
