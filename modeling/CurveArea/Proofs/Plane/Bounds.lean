import CurveArea.Proofs.Plane.Failing
import CurveArea.Proofs.Plane.Inside
import CurveArea.Proofs.Plane.Traces

/-!
# What a bound on the passes does

Traces of one curve with different bounds make the same passes until the tighter bound is met
(`Trace.truncates_refine`). So a bound only truncates (`ofCurve_truncated`): a trace that ends for
another reason is the same with every looser bound, and all others are initial parts. A bound of
zero is one of one pass, since the bound is looked at after a pass, and a trace that fails does so
before any bound is looked at.
-/

namespace CurveArea

/-! ## Truncation -/

section
variable {α : Type} {m : Nat} {cut whole : Trace α}

/-- What becomes of a trace when its passes are bounded by `m` instead of by a looser bound. -/
inductive Truncates (m : Nat) : (cut whole : Trace α) → Prop
  /-- The bound is not met, or the trace ends there in any case. -/
  | same (trace : Trace α) : Truncates m trace trace
  /-- The bound is met with a gap, and the trace would have gone on. -/
  | cut {cut whole : Trace α} {step : α} (hsize : cut.passes.size = m)
      (houtcome : cut.outcome = .ok ⟨cut.passes.size, step, true⟩)
      (hpasses : cut.passes.toList <+: whole.passes.toList)
      (hpoints : cut.points.toList <+: whole.points.toList) : Truncates m cut whole

namespace Truncates

/-- A trace that is cut begins as the whole one does. -/
theorem points_prefix (h : Truncates m cut whole) :
    cut.points.toList <+: whole.points.toList := by
  cases h with
  | same => exact List.prefix_rfl
  | cut hsize houtcome hpasses hpoints => exact hpoints

/-- A trace that is cut has the first passes of the whole one. -/
theorem passes_prefix (h : Truncates m cut whole) :
    cut.passes.toList <+: whole.passes.toList := by
  cases h with
  | same => exact List.prefix_rfl
  | cut hsize houtcome hpasses hpoints => exact hpasses

/-- A trace that leaves no gap, or does not make all passes that it may, is not cut. -/
theorem eq_of_report {r : Report α} (h : Truncates m cut whole) (hr : cut.outcome = .ok r)
    (hearly : r.gap = false ∨ r.passes < m) : whole = cut := by
  cases h with
  | same => rfl
  | cut hsize houtcome hpasses hpoints =>
    cases houtcome.symm.trans hr
    rcases hearly with hgap | hlt
    · cases hgap
    · exact absurd hsize hlt.ne

end Truncates

end

section
variable {α : Type} [Scalar α] {f : Curve α} {w : Window α} {step : α} {bound : Option Nat}
  {limit count m n : Nat} {points : Array (Point α)} {passes : Array (Pass α)}

/-! ## Traces with two bounds -/

namespace Trace

/-- The passes of a trace that comes to its end are counted. -/
theorem passes_eq_of_refine {r : Report α}
    (h : (refine f w bound limit count step points passes).outcome = .ok r) :
    r.passes = (refine f w bound limit count step points passes).passes.size := by
  induction count generalizing step points passes with
  | zero => cases h
  | succ count ih =>
    rw [refine] at h ⊢
    rcases hwalk : Walk.follow f w step limit 0 (Walk.start points) with ⟨t, stop | _⟩
    · rw [hwalk] at h
      cases h
    · simp only [hwalk] at h ⊢
      split at h
      case isTrue hgo =>
        rw [if_pos hgo]
        exact ih h
      case isFalse hstop =>
        rw [if_neg hstop]
        cases h
        rfl

/-- Before the tighter of two bounds is met they make no difference. -/
theorem givesUp_eq (hbound : ∀ b, bound = some b → m ≤ b) (hn : n < m) (step : α) :
    givesUp (some m) n step = givesUp bound n step := by
  have hany (b : Nat) (hb : m ≤ b) : decide (b ≤ n) = false := by
    rw [decide_eq_false_iff_not]
    omega
  cases bound with
  | none => simp [givesUp, hany m le_rfl]
  | some b => simp [givesUp, hany m le_rfl, hany b (hbound b rfl)]

/-- A bound that is met ends a trace. -/
theorem givesUp_of_le (h : m ≤ n) (step : α) : givesUp (some m) n step = true := by
  simp [givesUp, h]

/-- **Two bounds.** A trace with the looser bound makes the same passes as one with the tighter
bound, until this one is met. -/
theorem truncates_refine (hbound : ∀ b, bound = some b → m ≤ b) (hsize : passes.size < m) :
    Truncates m (refine f w (some m) limit count step points passes)
      (refine f w bound limit count step points passes) := by
  induction count generalizing step points passes with
  | zero => exact .same _
  | succ count ih =>
    rw [refine, refine]
    rcases Walk.follow f w step limit 0 (Walk.start points) with ⟨t, stop | _⟩
    · exact .same _
    · have hpush : (passes.push ⟨step, t.gap⟩).size = passes.size + 1 := Array.size_push ..
      simp only
      rcases Nat.lt_or_ge (passes.push ⟨step, t.gap⟩).size m with hlt | hge
      · -- Neither bound is met, so both traces go on, or both end.
        rw [← givesUp_eq hbound hlt]
        split
        case isTrue hgo => exact ih hlt
        case isFalse hstop => exact .same _
      · -- The tighter bound is met; only the other trace may go on.
        rw [givesUp_of_le hge, Bool.not_true, Bool.and_false, if_neg Bool.false_ne_true]
        split
        case isTrue hgo =>
          have hgap : t.gap = true := (Bool.and_eq_true_iff.1 hgo).1
          have hmet : (passes.push ⟨step, t.gap⟩).size = m := by omega
          rw [hgap] at hmet ⊢
          obtain ⟨hpoints, hpasses⟩ := prefix_refine (f := f) (w := w) t.points _
          exact .cut hmet rfl hpasses hpoints
        case isFalse hstop => exact .same _

/-- A bound that is met by the next pass is as good as any other such bound. -/
theorem refine_some_of_le (hm : m ≤ passes.size + 1) (hn : n ≤ passes.size + 1) :
    refine f w (some m) limit count step points passes =
      refine f w (some n) limit count step points passes := by
  cases count with
  | zero => rfl
  | succ count =>
    rw [refine, refine]
    rcases Walk.follow f w step limit 0 (Walk.start points) with ⟨t, stop | _⟩
    · rfl
    · simp [givesUp_of_le hm, givesUp_of_le hn]

/-- A trace of a curve that fails is the same whatever bounds it: it makes one pass at most. -/
theorem refine_of_fails {e : EvalError} (hf : Fails f e) (b b' : Option Nat) :
    refine f w b limit count step points passes =
      refine f w b' limit count step points passes := by
  cases count with
  | zero => rfl
  | succ count => rw [refine_succ_of_fails hf, refine_succ_of_fails hf]

end Trace

end

/-! ## Programs -/

section
variable {α : Type} [Number α]

/-- **A bound only truncates.** With the looser of two bounds, or with none, a program is traced by
at least the same points. A trace that leaves no gap with the tighter bound, or makes fewer passes
because the step can hardly be halved, is the same with the looser one, its report included; any
other one with a report has made all passes that it may, and the trace with the looser bound makes
no fewer. A bound of zero is one of one pass, and a trace that fails with some bound fails with
every bound, in the same way. -/
theorem ofCurve_truncated (p : Program α) (w : Window α) {m : Nat} {bound : Option Nat}
    (hm : 1 ≤ m) (hbound : ∀ b, bound = some b → m ≤ b) :
    let cut := Trace.ofCurve p.evaluate w (some m)
    let whole := Trace.ofCurve p.evaluate w bound
    (cut.points.toList <+: whole.points.toList ∧ cut.passes.toList <+: whole.passes.toList) ∧
    (∀ r, cut.outcome = .ok r →
      (r.gap = false → whole = cut) ∧
      (r.gap = true → r.passes < m →
        whole = cut ∧ ¬ Trace.stepFloor < r.finalStep / Scalar.ofNat 2) ∧
      (r.gap = true → ¬ r.passes < m →
        r.passes = m ∧ ∀ r', whole.outcome = .ok r' → m ≤ r'.passes)) ∧
    Trace.ofCurve p.evaluate w (some 0) = Trace.ofCurve p.evaluate w (some 1) ∧
    ∀ b e, (Trace.ofCurve p.evaluate w b).outcome = .error (.failure e) →
      ∀ b', (Trace.ofCurve p.evaluate w b').outcome = .error (.failure e) := by
  intro cut whole
  have htruncates : Truncates m cut whole := Trace.truncates_refine hbound hm
  refine ⟨⟨htruncates.points_prefix, htruncates.passes_prefix⟩, ?_, ?_, ?_⟩
  · intro r hr
    obtain ⟨samples, htraced⟩ := Trace.traced_of_ofCurve hr
    have hle := htraced.passes_le m rfl
    refine ⟨?_, ?_, ?_⟩
    · intro hgap
      exact htruncates.eq_of_report hr (.inl hgap)
    · intro hgap hlt
      -- The bound is not met, so it is the step that ends the trace.
      rcases htraced.gives_up hgap with ⟨b, hb, hmet⟩ | hfloor
      · cases hb
        omega
      · exact ⟨htruncates.eq_of_report hr (.inr hlt), hfloor⟩
    · intro hgap hall
      refine ⟨by omega, ?_⟩
      intro r' hr'
      have hcut : r.passes = cut.passes.size := Trace.passes_eq_of_refine hr
      have hwhole : r'.passes = whole.passes.size := Trace.passes_eq_of_refine hr'
      have hmore : cut.passes.size ≤ whole.passes.size := htruncates.passes_prefix.length_le
      omega
  · exact Trace.refine_some_of_le (Nat.zero_le _) le_rfl
  · intro b e h b'
    -- A formula has values everywhere or nowhere, and then the first pass fails.
    rcases total_or_fails p with htotal | ⟨e', hfails⟩
    · exact absurd h (Trace.refine_ne_failure htotal)
    · rw [← h]
      exact congrArg Trace.outcome (Trace.refine_of_fails hfails b' b)

end

/-- A line with a gap in its first pass through the unit square: of up to three passes a bound of
one leaves the first. A formula with an open parenthesis fails with that bound and with none. -/
theorem ofCurve_truncated_steep :
    let p : Program Float := ⟨[.push (Scalar.ofNat 10), .load, .apply .times], 0⟩
    let q : Program Float := ⟨[.load], 1⟩
    let w := Window.unit
    (∃ r r', (Trace.ofCurve p.evaluate w (some 1)).outcome = .ok r ∧
      (Trace.ofCurve p.evaluate w (some 3)).outcome = .ok r' ∧
      r.gap = true ∧ r.passes = 1 ∧ 1 < r'.passes ∧
      (Trace.ofCurve p.evaluate w (some 1)).points.toList <+:
        (Trace.ofCurve p.evaluate w (some 3)).points.toList) ∧
    (Trace.ofCurve q.evaluate w none).outcome = .error (.failure (.unclosed 1)) ∧
      (Trace.ofCurve q.evaluate w (some 1)).outcome = .error (.failure (.unclosed 1)) := by
  intro p q w
  have htotal : Total p.evaluate := total_evaluate rfl
  have hwide : ¬ w.width ≤ Window.narrow := by decide +kernel
  have hgapped (ps : List (Point Float)) (hps : Samples p.evaluate w (w.stepOf 0) 0 ps) :
      Gapped w ps := by
    refine hps.gapped_of_apart (by decide +kernel) (by decide +kernel) rfl rfl ?_
    exact (w.leavesGap_iff ..).1 (by decide +kernel)
  have hgap {bound samples points r} (h : Traced p.evaluate w bound samples points r)
      (hone : r.passes = 1) : r.gap = true := by
    obtain ⟨ps, hps⟩ := List.length_eq_one_iff.1 (h.passes_eq.symm.trans hone)
    have hzero : samples[0]? = some ps := by rw [hps, List.getElem?_cons_zero]
    rw [h.gap_iff, hone]
    exact ⟨ps, hzero, hgapped ps (h.samples_of_pass 0 ps hzero)⟩
  have hfloor : Trace.stepFloor < w.stepOf 0 / Scalar.ofNat 2 := by decide +kernel
  obtain ⟨r, hr⟩ := exists_report htotal hwide (by decide : 1 ≤ 50)
  obtain ⟨r', hr'⟩ := exists_report htotal hwide (by decide : 3 ≤ 50)
  obtain ⟨_, htraced⟩ := Trace.traced_of_ofCurve hr
  obtain ⟨_, htraced'⟩ := Trace.traced_of_ofCurve hr'
  have hone : r.passes = 1 := le_antisymm (htraced.passes_le 1 rfl) htraced.passes_pos
  have hmore : 1 < r'.passes := by
    apply lt_of_le_of_ne htraced'.passes_pos
    intro hone'
    rcases htraced'.gives_up (hgap htraced' hone'.symm) with ⟨b, hb, hmet⟩ | hstop
    · cases hb
      omega
    · rw [htraced'.finalStep_eq, ← hone'] at hstop
      exact hstop hfloor
  have hbound (b : Nat) (hb : some 3 = some b) : 1 ≤ b := by
    cases hb
    decide
  have hopen : (Trace.ofCurve q.evaluate w none).outcome = .error (.failure (.unclosed 1)) := by
    decide +kernel
  exact ⟨⟨r, r', hr, hr', hgap htraced hone, hone, hmore,
    (ofCurve_truncated p w le_rfl hbound).1.1⟩, hopen,
    (ofCurve_truncated q w le_rfl hbound).2.2.2 none _ hopen (some 1)⟩

end CurveArea
