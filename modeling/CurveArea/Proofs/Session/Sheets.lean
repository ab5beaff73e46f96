import CurveArea.Proofs.Session.Histories
import CurveArea.Proofs.Session.Launches
import CurveArea.Session.Sheet

/-!
# What frames show

A frame takes its marks from the points of a result and its lines from the estimate and the reports.
They agree because a launch counts the very draws that it keeps (`Launched.marks_eq`), and whatever
is done to a session later, a result that it shows is one that a launch came to. So every frame
shows either a result, with as many marks as its lines say and without an error, or no mark at all
(`sheet_of_after`).
-/

namespace CurveArea

section
variable {α : Type} [Number α] {s : Settings α} {p q : Program α} {r : Result α} {x : Explanation}

/-! ## Marks -/

/-- The draws of a result are those that its estimate counts. -/
theorem Launched.exists_draws (h : Launched s p q r x) :
    ∃ ds : List (Draw α), r.draws = ds.toArray ∧ r.estimate.inside = ds.countP (·.inside) ∧
      r.estimate.total = ds.length := by
  obtain ⟨-, ds, htrials, hlen, -, hestimate⟩ := Estimate.withDraws_eq_append h.estimate_eq
  refine ⟨ds, ?_, ?_, ?_⟩
  · rw [h.draws_eq, htrials]
    simp [Trials.append, Trials.start]
  · rw [hestimate]
    rfl
  · rw [hestimate, hlen]
    rfl

/-- **Marks.** A result has as many marks of either kind for its draws as its estimate counts, and
one for each point of its curves. -/
theorem Launched.marks_eq (h : Launched s p q r x) :
    r.estimate.inside ≤ r.estimate.total ∧
      r.marks = ⟨r.estimate.inside, r.estimate.total - r.estimate.inside, r.firstPoints.size,
        r.secondPoints.size⟩ := by
  obtain ⟨ds, hdraws, hinside, htotal⟩ := h.exists_draws
  have hsplit := List.length_eq_countP_add_countP (fun d : Draw α => d.inside) (l := ds)
  have houtside : r.draws.countP (fun d => !d.inside) = r.estimate.total - r.estimate.inside := by
    rw [hdraws, List.countP_toArray, htotal, hinside, hsplit]
    simp
  refine ⟨by omega, ?_⟩
  rw [Result.marks, houtside, hdraws, List.countP_toArray, hinside]

/-- There are four labels for each axis. -/
theorem Result.length_labels (r : Result α) : r.labels.length = 8 := rfl

/-- **Labels.** The labels of a result are the texts of the ticks of its window, those of the
horizontal axis first, on whatever canvas the window is shown. -/
theorem Result.labels_eq {β : Type} [Scalar β] [Pixel α β] {r : Result α} {c : Canvas α β}
    (hc : c.window = r.window) :
    r.labels = (c.xTicks ++ c.yTicks).map fun t => Numeral.label t.value := by
  rw [labels, ← hc, List.map_append, Canvas.xTicks, Canvas.yTicks, List.map_map, List.map_map]
  rfl

/-- The line on a curve that was not traced to the end. -/
def incompleteLine (curve : String) (passes : Nat) : String :=
  s!"{curve} : tracé incomplet après {passes} passes"

/-! ## Every frame -/

namespace History

/-- A result that is shown is one that a launch came to. -/
theorem exists_launched {stored : Option String} {actions : List (Action α)} {h : History α}
    (hafter : after stored actions = some h) (hr : h.session.result = some r) :
    h.session.error = "" ∧ ∃ t p q, Launched t p q r h.session.explanation := by
  obtain ⟨hcoherent, -⟩ := sound_of_after hafter
  obtain ⟨t, -, hlaunch⟩ := hcoherent.launched r hr
  obtain ⟨p, q, hlaunched⟩ := launch_ok_iff.1 hlaunch
  exact ⟨hcoherent.error_eq r hr, t, p, q, hlaunched⟩

/-- **Frames.** Whatever a session starts from and whatever is done to it, a frame can be drawn, and
it shows what the session has. With a result, as many marks stand for draws between the curves and
outside as the estimate counts and its line says, one mark for each point of either curve, a line
for each curve with a gap, eight labels, which are the texts of the ticks of its window on any
canvas, and no error. Without a result there are no marks and no labels, and the error is shown if
there is one. An error is never shown with marks. -/
theorem sheet_of_after (stored : Option String) (actions : List (Action α)) (h : History α)
    (hafter : after stored actions = some h) :
    ∃ s, (h.session.perform .draw).2 = some s ∧
      (∀ r, h.session.result = some r →
        r.estimate.inside ≤ r.estimate.total ∧
        s.sheet.marks = ⟨r.estimate.inside, r.estimate.total - r.estimate.inside,
          r.firstPoints.size, r.secondPoints.size⟩ ∧
        r.labels.length = 8 ∧
        (∀ (β : Type) [Scalar β] [Pixel α β] (c : Canvas α β), c.window = r.window →
          r.labels = (c.xTicks ++ c.yTicks).map fun t => Numeral.label t.value) ∧
        s.sheet.texts =
          ["Estimation :", "aire ≈ " ++ Numeral.fixed 6 r.estimate.area,
            "± " ++ Numeral.fixed 6 r.estimate.deviation ++ " (1 écart-type)",
            s!"{r.estimate.inside}/{r.estimate.total} points dedans (" ++
              Numeral.fixed 2 (Scalar.ofNat 100 * r.estimate.proportion) ++ " %)"] ++
          (if r.firstReport.gap then [incompleteLine "f1" r.firstReport.passes] else []) ++
          (if r.secondReport.gap then [incompleteLine "f2" r.secondReport.passes] else []) ++
          ("Démarche" :: if h.session.explains then h.session.explanation.lines else []) ++
          r.labels) ∧
      (h.session.result = none → s.sheet.marks = ⟨0, 0, 0, 0⟩ ∧ s.sheet.texts =
        (if h.session.error = "" then [] else [h.session.error]) ++
        ["Estimation :", "indisponible"] ++
        ("Démarche" :: if h.session.explains then h.session.explanation.lines else [])) ∧
      (h.session.error ≠ "" → s.sheet.texts.head? = some h.session.error ∧
        s.sheet.marks = ⟨0, 0, 0, 0⟩) := by
  have hnone : h.session.result = none → h.session.drawn.sheet.marks = ⟨0, 0, 0, 0⟩ := fun hr => by
    simp [Session.sheet, Session.drawn, hr]
  refine ⟨h.session.drawn, rfl, fun r hr => ?_, fun hr => ⟨hnone hr, ?_⟩, fun herror => ?_⟩
  · obtain ⟨herror, t, p, q, hlaunched⟩ := exists_launched hafter hr
    obtain ⟨hle, hmarks⟩ := hlaunched.marks_eq
    refine ⟨hle, ?_, r.length_labels, fun β _ _ c hc => r.labels_eq hc, ?_⟩
    · simp [Session.sheet, Session.drawn, hr, hmarks]
    · simp [Session.sheet, Session.drawn, hr, herror, Result.lines, Result.gapLine,
        incompleteLine]
  · simp [Session.sheet, Session.drawn, hr, String.isEmpty_iff]
  · -- A result is never kept with an error, so nothing is marked.
    have hr : h.session.result = none := by
      cases hr : h.session.result with
      | none => rfl
      | some r => exact absurd (exists_launched hafter hr).1 herror
    refine ⟨?_, hnone hr⟩
    simp [Session.sheet, Session.drawn, herror, String.isEmpty_iff]

/-- With the diagonal for both formulas there is a result, with as many marks as it counts; when an
error is reported, it is shown alone. -/
theorem sheet_of_after_diagonals :
    (∃ h s r, after none diagonals = some h ∧ (h.session.perform .draw).2 = some s ∧
      h.session.result = some r ∧ s.sheet.marks = ⟨r.estimate.inside,
        r.estimate.total - r.estimate.inside, r.firstPoints.size, r.secondPoints.size⟩) ∧
    ∃ h s, after (α := Float) none [.report "boum"] = some h ∧
      (h.session.perform .draw).2 = some s ∧ s.sheet.texts.head? = some "boum" ∧
      s.sheet.marks = ⟨0, 0, 0, 0⟩ := by
  obtain ⟨h, hafter, hresult⟩ := exists_after_diagonals
  obtain ⟨s, hdrawn, hshown, -⟩ := sheet_of_after none diagonals h hafter
  obtain ⟨r, hr⟩ := Option.ne_none_iff_exists'.1 hresult
  obtain ⟨s', hdrawn', -, -, herror⟩ :=
    sheet_of_after (α := Float) none [.report "boum"] _ rfl
  exact ⟨⟨h, s, r, hafter, hdrawn, hr, (hshown r hr).2.1⟩, _, s', rfl, hdrawn',
    herror (by decide)⟩

end History

end

end CurveArea
