import CurveArea.Proofs.Formula.Acceptance
import CurveArea.Proofs.Session.Comparisons
import CurveArea.Proofs.Session.Histories

/-!
# What a launch writes into the journal

The entries of a launch tell what it has come to (`Session.entries_of_launch`). With a result they
are those of its steps in their order, and everything that they report is in the result: the passes
of both traces can be numbered and their steps computed from the two reports alone
(`Trace.passes_of_ofCurve`). Without a result they stop at the first fault. Since no trace fails
after an estimate, nothing but compilations can stand between the beginning and the failure.
-/

namespace CurveArea

section
variable {α : Type} [Scalar α] {f : Curve α} {w : Window α} {bound : Option Nat}

/-! ## Passes that lead to a report -/

/-- The pass number `k`, counted from zero, of those that lead to a report. Each is made at half the
step of the one before. All but the last leave a gap, and whether that one does is reported. -/
def Report.passAt (r : Report α) (w : Window α) (k : Nat) : Pass α :=
  ⟨w.stepOf k, decide (k + 1 < r.passes) || r.gap⟩

/-- A trace with some passes behind it that all left a gap has the passes of its report. -/
theorem Trace.passes_of_refine {limit count : Nat} {points : Array (Point α)}
    {passes : Array (Pass α)} {r : Report α}
    (hpasses : passes.toList = (List.range passes.size).map fun k => ⟨w.stepOf k, true⟩)
    (hr : (refine f w bound limit count (w.stepOf passes.size) points passes).outcome = .ok r) :
    (refine f w bound limit count (w.stepOf passes.size) points passes).passes.toList =
      (List.range r.passes).map (r.passAt w) := by
  induction count generalizing points passes with
  | zero => simp [refine] at hr
  | succ count ih =>
    rw [refine] at hr ⊢
    rcases hwalk : Walk.follow f w (w.stepOf passes.size) limit 0 (Walk.start points) with
      ⟨t, stop | _⟩
    · simp [hwalk] at hr
    · simp only [hwalk] at hr ⊢
      split at hr
      case isTrue hgo =>
        obtain ⟨hgap, -⟩ := Bool.and_eq_true_iff.1 hgo
        have hstep : w.stepOf (passes.push ⟨w.stepOf passes.size, t.gap⟩).size =
            w.stepOf passes.size / Scalar.ofNat 2 := by rw [Array.size_push, Window.stepOf]
        rw [if_pos hgo, ← hstep]
        refine ih ?_ (hstep ▸ hr)
        rw [Array.toList_push, Array.size_push, hpasses, List.range_succ, List.map_append, hgap,
          List.map_singleton]
      case isFalse hstop =>
        rw [if_neg hstop]
        cases hr
        -- The pass that has just been made is the last one.
        have hbefore : (List.range passes.size).map (fun k => (⟨w.stepOf k, true⟩ : Pass α)) =
            (List.range passes.size).map
              fun k => ⟨w.stepOf k, decide (k + 1 < passes.size + 1) || t.gap⟩ :=
          List.map_congr_left fun k hk => by simp [List.mem_range.1 hk]
        simp [Report.passAt, List.range_succ, hpasses, hbefore]

/-- **Passes of a trace.** The report of a trace tells all of its passes. -/
theorem Trace.passes_of_ofCurve {r : Report α} (h : (ofCurve f w bound).outcome = .ok r) :
    (ofCurve f w bound).passes.toList = (List.range r.passes).map (r.passAt w) := by
  have hnone : (#[] : Array (Pass α)).toList =
      (List.range (#[] : Array (Pass α)).size).map fun k => ⟨w.stepOf k, true⟩ := rfl
  exact passes_of_refine hnone h

end

/-! ## Entries of recorded computations -/

section
variable {α β γ : Type}

/-- The compilations of some formulas up to the first one that has no program. -/
def Entry.compilations [Numeral α] : List String → List (Entry α)
  | [] => []
  | text :: texts =>
    match Token.read text with
    | .error _ => []
    | .ok tokens =>
      match Program.ofTokens .standard tokens with
      | .error _ => []
      | .ok program => .compiled text tokens program :: compilations texts

/-- What the journal has of a trace with a report: its passes, numbered from one, and that it has
given up if a gap remains. -/
def Report.entries [Scalar α] (r : Report α) (p : Program α) (w : Window α) : List (Entry α) :=
  (List.range r.passes).map (fun k => .passed p (k + 1) (r.passAt w k)) ++
    if r.gap then [.gaveUp p r] else []

/-- The levels of these entries. -/
def Report.levels (r : Report α) : List Level :=
  List.replicate r.passes .debug ++ if r.gap then [.warn] else []

/-- The texts of these entries: each names the formula by its program, the number of the pass and
its step, and whether it leaves a gap; the last one tells after how many passes and at which step
the trace has given up. -/
def Report.texts [Number α] (r : Report α) (p : Program α) (w : Window α) : List String :=
  (List.range r.passes).map (fun k =>
    "tracé " ++ p.write ++ s!": passe {k + 1}, pas " ++ Numeral.scientific (w.stepOf k) ++
      s!", lacune {decide (k + 1 < r.passes) || r.gap}") ++
    if r.gap then ["tracé " ++ p.write ++ s!": arrêt après {r.passes} passes avec lacune (pas " ++
      Numeral.scientific r.finalStep ++ ")"] else []

/-- The text on a compilation: the formula as it is quoted, its tokens and its program. -/
def Entry.compilationText [Numeral α] (text : String) (ts : List (Token α)) (p : Program α) :
    String :=
  "compile " ++ Text.shown.quote text ++ " -> jetons [" ++ Token.writeAll ts ++ "] rpn [" ++
    p.write ++ "]"

/-- The texts on the compilations of some formulas up to the first one that has no program. -/
def Entry.compilationTexts (α : Type) [Numeral α] : List String → List String
  | [] => []
  | text :: texts =>
    match Token.read (α := α) text with
    | .error _ => []
    | .ok ts =>
      match Program.ofTokens .standard ts with
      | .error _ => []
      | .ok p => compilationText text ts p :: compilationTexts α texts

/-- The text on the beginning of a launch. -/
def Settings.launchText (s : Settings α) : String :=
  "lancement: f1=" ++ Text.shown.quote s.first ++ " f2=" ++ Text.shown.quote s.second ++
    s!" points={s.points} graine={s.seed}"

/-- The text on an estimate. -/
def Estimate.text [Numeral α] (e : Estimate α) : String :=
  s!"estimation: {e.inside}/{e.total} points dedans, aire ≈ " ++ Numeral.text e.area ++ " (± " ++
    Numeral.text e.deviation ++ ")"

/-- The entries of a trace have the levels of its report. -/
theorem Report.map_level_entries [Number α] (r : Report α) (p : Program α) (w : Window α) :
    (r.entries p w).map Entry.level = r.levels := by
  have hpasses : (fun k => (Entry.passed p (k + 1) (r.passAt w k)).level) =
      Function.const Nat Level.debug := rfl
  rw [entries, levels, List.map_append, List.map_map]
  cases r.gap <;> simp [Function.comp_def, Entry.level]

/-- The entries of a trace have the texts of its report. -/
theorem Report.map_message_entries [Number α] (r : Report α) (p : Program α) (w : Window α) :
    (r.entries p w).map Entry.message = r.texts p w := by
  have hpasses (k : Nat) : (Entry.passed p (k + 1) (r.passAt w k)).message =
      "tracé " ++ p.write ++ s!": passe {k + 1}, pas " ++ Numeral.scientific (w.stepOf k) ++
        s!", lacune {decide (k + 1 < r.passes) || r.gap}" := rfl
  simp only [entries, texts, List.map_append, List.map_map, Function.comp_def, hpasses]
  split <;> rfl

/-- A formula with a program is compiled before the others. -/
theorem Entry.compilations_of_ok [Numeral α] {text : String} {ts : List (Token α)}
    {p : Program α} (hread : Token.read text = .ok ts)
    (hprogram : Program.ofTokens .standard ts = .ok p) (texts : List String) :
    compilations (text :: texts) = .compiled text ts p :: compilations texts := by
  simp only [compilations, hread, hprogram]

/-- After a formula with a program come the compilations of the others. -/
theorem Entry.compilations_append_of_ok [Numeral α] {text : String} {p : Program α}
    (h : Program.compile text = .ok p) (texts : List String) :
    compilations (α := α) (text :: texts) = compilations [text] ++ compilations texts := by
  obtain ⟨ts, hread, hprogram⟩ := Program.compile_eq_ok_iff.1 h
  rw [compilations_of_ok hread hprogram, compilations_of_ok hread hprogram]
  rfl

/-- Nothing is compiled after a formula that has no program. -/
theorem Entry.compilations_of_error [Numeral α] {text : String} {e : CompileError}
    (h : Program.compile (α := α) text = .error e) (texts : List String) :
    compilations (α := α) (text :: texts) = [] := by
  rw [compilations]
  cases hread : Token.read (α := α) text with
  | error e => rfl
  | ok ts =>
    cases hprogram : Program.ofTokens .standard ts with
    | error e => simp only [hprogram]
    | ok p => cases h.symm.trans (Program.compile_eq_ok_iff.2 ⟨ts, hread, hprogram⟩)

/-- Compilations are nothing else. -/
theorem Entry.exists_of_mem_compilations [Numeral α] {texts : List String} {e : Entry α}
    (he : e ∈ compilations texts) : ∃ text ts p, e = .compiled text ts p := by
  induction texts with
  | nil => cases he
  | cons text texts ih =>
    rw [compilations] at he
    split at he
    case h_1 => cases he
    case h_2 ts hread =>
      split at he
      case h_1 => cases he
      case h_2 p hprogram =>
        rcases List.mem_cons.1 he with rfl | he
        · exact ⟨text, ts, p, rfl⟩
        · exact ih he

/-- Compilations are recorded at the level of details. -/
theorem Entry.map_level_compilations [Numeral α] (texts : List String) :
    (compilations (α := α) texts).map level =
      List.replicate (compilations (α := α) texts).length .debug := by
  refine List.eq_replicate_iff.2 ⟨List.length_map level, fun l hl => ?_⟩
  obtain ⟨e, he, rfl⟩ := List.mem_map.1 hl
  obtain ⟨text, ts, p, rfl⟩ := exists_of_mem_compilations he
  rfl

/-- Compilations have the texts on compilations. -/
theorem Entry.map_message_compilations [Numeral α] (texts : List String) :
    (compilations (α := α) texts).map message = compilationTexts α texts := by
  induction texts with
  | nil => rfl
  | cons text texts ih =>
    rw [compilations, compilationTexts]
    cases Token.read (α := α) text with
    | error e => rfl
    | ok ts =>
      cases hprogram : Program.ofTokens .standard ts with
      | error e => simp only [hprogram, List.map_nil]
      | ok p =>
        simp only [hprogram, List.map_cons, ih]
        rfl

namespace Recorded

/-- What is recorded by the first step comes before what the second records, if it is reached. -/
theorem entries_bind (m : Recorded α β) (k : β → Recorded α γ) :
    (m >>= k).entries = m.entries ++ match m.outcome with
      | .ok b => (k b).entries
      | .error _ => [] := by
  obtain ⟨es, outcome⟩ := m
  cases outcome <;> simp

/-- Compiling records the formula with its tokens and its program, if it has one. -/
theorem entries_compile [Numeral α] (text : String) :
    (compile (α := α) .standard text).entries = Entry.compilations [text] := by
  simp only [compile, entries_bind, write, ofExcept, Entry.compilations]
  cases Token.read (α := α) text with
  | error e => rfl
  | ok ts => cases hprogram : Program.ofTokens .standard ts <;> simp [Except.mapError, hprogram]

/-- Nothing is recorded of the window. -/
theorem entries_window [Scalar α] (xMin xMax yMin yMax : α) :
    (window xMin xMax yMin yMax).entries = [] := rfl

/-- An estimate is recorded when it succeeds. -/
theorem entries_estimate {σ : Type} (e : Estimation α σ) :
    (estimate e).entries = match e.outcome with
      | .ok estimate => [.estimated estimate]
      | .error _ => [] := by
  cases houtcome : e.outcome <;> simp [estimate, ofExcept, write, Except.mapError, houtcome]

/-- Passes are numbered through. -/
theorem passEntries_append (p : Program α) (n : Nat) (xs ys : List (Pass α)) :
    passEntries p n (xs ++ ys) = passEntries p n xs ++ passEntries p (n + xs.length) ys := by
  induction xs generalizing n with
  | nil => rfl
  | cons x xs ih =>
    rw [List.cons_append, passEntries, passEntries, ih, List.length_cons, List.cons_append,
      Nat.add_right_comm, Nat.add_assoc]

/-- The entries of passes are numbered in their order. -/
theorem passEntries_map_range (p : Program α) (n m : Nat) (pass : Nat → Pass α) :
    passEntries p n ((List.range m).map pass) =
      (List.range m).map fun k => .passed p (n + k) (pass k) := by
  induction m with
  | zero => rfl
  | succ m ih =>
    rw [List.range_succ, List.map_append, passEntries_append, ih, List.map_append,
      List.length_map, List.length_range]
    rfl

/-- What is recorded of a trace with a report is told by the report. -/
theorem entries_report [Scalar α] {f : Curve α} {w : Window α} {bound : Option Nat}
    {r : Report α} (p : Program α) (h : (Trace.ofCurve f w bound).outcome = .ok r) :
    (report p (Trace.ofCurve f w bound)).entries = r.entries p w := by
  simp only [report, Report.entries, h, Trace.passes_of_ofCurve h, passEntries_map_range,
    Nat.add_comm 1]

end Recorded

end

section
variable {α : Type} [Number α] {s : Settings α}

/-! ## Entries of a launch -/

/-- The entries of a launch with a result are those of its steps, in their order. -/
theorem Launched.entries_launch {p q : Program α} {r : Result α} {x : Explanation}
    (h : Launched s p q r x) : s.launch.entries =
      Entry.compilations [s.first, s.second] ++ .estimated r.estimate ::
        (r.firstReport.entries p r.window ++ r.secondReport.entries q r.window) := by
  have hfirst := (Recorded.report_ok_iff p _ _).2 h.firstReport_eq
  have hsecond := (Recorded.report_ok_iff q _ _).2 h.secondReport_eq
  simp only [Settings.launch, Recorded.entries_bind, Recorded.entries_compile,
    Recorded.outcome_compile, Recorded.entries_window, Recorded.outcome_window,
    Recorded.entries_estimate, Recorded.outcome_estimate, h.first_eq, h.second_eq, h.window_eq,
    h.estimate_eq, hfirst, hsecond, Recorded.entries_report p h.firstReport_eq,
    Recorded.entries_report q h.secondReport_eq, Recorded.entries_pure, Except.mapError,
    Entry.compilations_append_of_ok h.first_eq [s.second], List.append_assoc, List.append_nil,
    List.nil_append, List.cons_append]

/-- A launch that fails with its estimate has compiled both formulas. -/
theorem entries_launch_of_estimate_error {p q : Program α} {w : Window α} {failure : Failure α}
    (hp : Program.compile s.first = .ok p) (hq : Program.compile s.second = .ok q)
    (hw : Window.make s.xMin s.xMax s.yMin s.yMax = .ok w)
    (he : (Estimate.withDraws p.evaluate q.evaluate w s.points (ChaCha.ofSeed s.seed)).outcome =
      .error failure) : s.launch.entries = Entry.compilations [s.first, s.second] := by
  simp only [Settings.launch, Recorded.entries_bind, Recorded.entries_compile,
    Recorded.outcome_compile, Recorded.entries_window, Recorded.outcome_window,
    Recorded.entries_estimate, Recorded.outcome_estimate, hp, hq, hw, he, Except.mapError,
    Entry.compilations_append_of_ok hp [s.second], List.append_nil]

/-- The entries of a launch with a fault are the compilations before it. -/
theorem Settings.FirstFault.entries_launch {failure : Failure α} (h : s.FirstFault failure) :
    s.launch.entries = Entry.compilations [s.first, s.second] := by
  cases h with
  | first h =>
    simp only [launch, Recorded.entries_bind, Recorded.entries_compile, Recorded.outcome_compile,
      Entry.compilations_of_error h, h, Except.mapError, List.append_nil]
  | second hp h =>
    simp only [launch, Recorded.entries_bind, Recorded.entries_compile, Recorded.outcome_compile,
      Entry.compilations_append_of_ok hp [s.second], Entry.compilations_of_error h, hp, h,
      Except.mapError, List.append_nil]
  | window hp hq h =>
    simp only [launch, Recorded.entries_bind, Recorded.entries_compile, Recorded.outcome_compile,
      Recorded.entries_window, Recorded.outcome_window, hp, hq, h, Except.mapError,
      Entry.compilations_append_of_ok hp [s.second], List.append_nil]
  | points hp hq hw h =>
    refine entries_launch_of_estimate_error hp hq hw (?_ : _ = Except.error Failure.noPoints)
    rw [h]
    rfl
  | firstValue hp hq hw hn h =>
    exact entries_launch_of_estimate_error hp hq hw
      (Estimate.outcome_withDraws_of_error (Trials.classify_of_fails h) _ hn _)
  | secondValue hp hq hw hn hf h =>
    exact entries_launch_of_estimate_error hp hq hw
      (Estimate.outcome_withDraws_of_error (Trials.classify_of_total_of_fails hf h) _ hn _)

/-- A launch that returns leaves the result or the failure that it has come to. Its entries stand
between the beginning and the failure. -/
theorem Session.launch_cases {s s' : Session α} (h : s.launch.2 = some s') :
    (∃ r x, s.settings.clamped.launch.outcome = .ok (r, x) ∧ s'.result = some r ∧
      s.launch.1 = .launched s.settings.clamped :: s.settings.clamped.launch.entries) ∨
    ∃ failure, s.settings.clamped.launch.outcome = .error (.failure failure) ∧
      s'.result = none ∧ s'.error = failure.message ∧
      s.launch.1 = .launched s.settings.clamped ::
        (s.settings.clamped.launch.entries ++ [Entry.failed failure]) := by
  rcases houtcome : s.settings.clamped.launch.outcome with (failure | _) | ⟨r, x⟩
  · simp only [launch, houtcome] at h
    cases h
    exact .inr ⟨failure, rfl, rfl, rfl, by simp only [launch, houtcome]⟩
  · simp [launch, houtcome] at h
  · simp only [launch, houtcome] at h
    cases h
    exact .inl ⟨r, x, rfl, rfl, by simp only [launch, houtcome]⟩

/-- A report tells of one pass at least, and of the step of the last one. -/
theorem Trace.passes_pos_of_ofCurve {f : Curve α} {w : Window α} {bound : Option Nat}
    {r : Report α} (h : (ofCurve f w bound).outcome = .ok r) :
    1 ≤ r.passes ∧ r.finalStep = w.stepOf (r.passes - 1) := by
  obtain ⟨samples, htraced⟩ := traced_of_ofCurve h
  exact ⟨htraced.passes_pos, htraced.finalStep_eq⟩

/-- **What a launch writes.** A launch with a result writes that it begins, the compilations of both
formulas, the estimate of the result, and for each formula one entry for each pass that the report
of its trace counts, numbered from one, at steps that are halved from that of the first pass to that
of the report; all passes leave a gap but the last one, which does if it is reported, and then one
more entry tells that the trace has given up. A launch that fails writes that it begins, the
compilations before the fault, and the failure with the text of the error that is shown; it has
neither an estimate nor a pass. In either case the levels of the entries and their texts, line by
line, are those given here. -/
theorem Session.entries_of_launch (s s' : Session α) (h : s.launch.2 = some s') :
    (∀ r, s'.result = some r → ∃ (ts us : List (Token α)) (p q : Program α),
      Token.read s.settings.first = .ok ts ∧ Program.ofTokens .standard ts = .ok p ∧
      Token.read s.settings.second = .ok us ∧ Program.ofTokens .standard us = .ok q ∧
      Window.make s.settings.xMin s.settings.xMax s.settings.yMin s.settings.yMax = .ok r.window ∧
      s.launch.1 = .launched s.settings.clamped :: .compiled s.settings.first ts p ::
        .compiled s.settings.second us q :: .estimated r.estimate ::
        (r.firstReport.entries p r.window ++ r.secondReport.entries q r.window) ∧
      s.launch.1.map Entry.level =
        .info :: .debug :: .debug :: .info :: (r.firstReport.levels ++ r.secondReport.levels) ∧
      s.launch.1.map Entry.message = s.settings.clamped.launchText ::
        Entry.compilationText s.settings.first ts p ::
        Entry.compilationText s.settings.second us q :: r.estimate.text ::
        (r.firstReport.texts p r.window ++ r.secondReport.texts q r.window) ∧
      ∀ t ∈ [r.firstReport, r.secondReport],
        1 ≤ t.passes ∧ t.finalStep = r.window.stepOf (t.passes - 1)) ∧
    (s'.result = none → ∃ failure, s.settings.clamped.FirstFault failure ∧
      s.launch.1 = .launched s.settings.clamped ::
        (Entry.compilations [s.settings.first, s.settings.second] ++ [Entry.failed failure]) ∧
      s.launch.1.map Entry.level = .info ::
        (List.replicate (Entry.compilations (α := α) [s.settings.first, s.settings.second]).length
          .debug ++ [Level.warn]) ∧
      s.launch.1.map Entry.message = s.settings.clamped.launchText ::
        (Entry.compilationTexts α [s.settings.first, s.settings.second] ++
          ["échec: " ++ s'.error]) ∧
      (∀ e, .estimated e ∉ s.launch.1) ∧ (∀ p n pass, .passed p n pass ∉ s.launch.1) ∧
      ∀ p t, .gaveUp p t ∉ s.launch.1) := by
  rcases launch_cases h with ⟨r, x, hok, hresult, hentries⟩ |
    ⟨failure, hfails, hresult, herror, hentries⟩
  · refine ⟨fun r' hr' => ?_, fun hnone => ?_⟩
    · cases hresult.symm.trans hr'
      obtain ⟨p, q, hlaunched⟩ := launch_ok_iff.1 hok
      obtain ⟨ts, hts, hp⟩ := Program.compile_eq_ok_iff.1 hlaunched.first_eq
      obtain ⟨us, hus, hq⟩ := Program.compile_eq_ok_iff.1 hlaunched.second_eq
      have hall : s.launch.1 = .launched s.settings.clamped :: .compiled s.settings.first ts p ::
          .compiled s.settings.second us q :: .estimated r.estimate ::
          (r.firstReport.entries p r.window ++ r.secondReport.entries q r.window) := by
        rw [hentries, hlaunched.entries_launch, Entry.compilations_of_ok hts hp,
          Entry.compilations_of_ok hus hq]
        rfl
      refine ⟨ts, us, p, q, hts, hp, hus, hq, hlaunched.window_eq, hall, ?_, ?_, ?_⟩
      · simp only [hall, List.map_cons, List.map_append, Report.map_level_entries]
        rfl
      · simp only [hall, List.map_cons, List.map_append, Report.map_message_entries]
        rfl
      · simp only [List.forall_mem_cons]
        exact ⟨Trace.passes_pos_of_ofCurve hlaunched.firstReport_eq,
          Trace.passes_pos_of_ofCurve hlaunched.secondReport_eq, nofun⟩
    · cases hresult.symm.trans hnone
  · refine ⟨fun r hr => ?_, fun _ => ?_⟩
    · cases hresult.symm.trans hr
    · -- No trace fails after an estimate, so the failure is that of the first fault.
      have hreturns : s.settings.clamped.launch.outcome ≠ .error .endless := by
        rw [hfails]
        simp
      have hfault := (outcome_launch_iff_firstFault hreturns failure).1 hfails
      rw [hfault.entries_launch] at hentries
      have hkinds (e : Entry α) (he : e ∈ s.launch.1) : e = .launched s.settings.clamped ∨
          (∃ text ts p, e = .compiled text ts p) ∨ e = .failed failure := by
        rw [hentries, List.mem_cons, List.mem_append, List.mem_singleton] at he
        exact he.imp_right (Or.imp_left Entry.exists_of_mem_compilations)
      refine ⟨failure, hfault, hentries, ?_, ?_, fun e he => ?_, fun p n pass he => ?_,
        fun p t he => ?_⟩
      · rw [hentries, List.map_cons, List.map_append, Entry.map_level_compilations]
        rfl
      · rw [hentries, List.map_cons, List.map_append, Entry.map_message_compilations, herror]
        rfl
      all_goals rcases hkinds _ he with hkind | ⟨_, _, _, hkind⟩ | hkind <;> cases hkind

end

/-- The diagonal, and no second formula. -/
def aloneSettings : Settings Float :=
  { Settings.default with first := "x", second := "" }

/-- The diagonal and the parabola, of which the journal has an estimate, and the diagonal alone, of
which it has a compilation and a failure. -/
theorem Session.entries_of_launch_parabola :
    (∃ s' r, (ofSettings parabolaSettings).launch.2 = some s' ∧ s'.result = some r ∧
      ∃ p q, (ofSettings parabolaSettings).launch.1 =
        .launched parabolaSettings :: .compiled "x" [.var] p ::
        .compiled "x * x" [.var, .op .times, .var] q :: .estimated r.estimate ::
        (r.firstReport.entries p r.window ++ r.secondReport.entries q r.window)) ∧
    ∃ s', (ofSettings aloneSettings).launch.2 = some s' ∧ s'.result = none ∧
      (∃ failure, (ofSettings aloneSettings).launch.1 =
        [.launched aloneSettings, .compiled "x" [.var] ⟨[.load], 0⟩, .failed failure]) ∧
      (ofSettings aloneSettings).launch.1.map Entry.message =
        ["lancement: f1=\"x\" f2=\"\" points=10000 graine=42",
          "compile \"x\" -> jetons [x] rpn [x]", "échec: " ++ s'.error] := by
  constructor
  · obtain ⟨⟨r, x⟩, hanswer⟩ := exists_launch_clamped_ok (s := parabolaSettings) compile_diagonal
      compile_parabola Window.unit.make_bounds rfl rfl not_unit_narrow
    have hlaunch := launch_of_ok (s := ofSettings parabolaSettings) hanswer
    obtain ⟨ts, us, p, q, hts, -, hus, -, -, hentries, -⟩ :=
      (entries_of_launch (ofSettings parabolaSettings) _ hlaunch).1 r rfl
    have hfirst : Token.read "x" = .ok ([.var] : List (Token Float)) := by rfl
    have hsecond : Token.read "x * x" = .ok ([.var, .op .times, .var] : List (Token Float)) := by
      rfl
    cases hfirst.symm.trans hts
    cases hsecond.symm.trans hus
    exact ⟨_, r, hlaunch, rfl, p, q, hentries⟩
  · have hfault : aloneSettings.FirstFault (.compile .empty) := .second compile_diagonal (by rfl)
    have hlaunch : (ofSettings aloneSettings).launch.2 =
        some ((ofSettings aloneSettings).withError (Failure.compile .empty : Failure Float).message)
      := by
      have hfails : (ofSettings aloneSettings).settings.clamped.launch.outcome = _ :=
        hfault.outcome_launch
      simp only [launch, hfails]
      rfl
    obtain ⟨failure, -, hentries, -, htexts, -⟩ :=
      (entries_of_launch (ofSettings aloneSettings) _ hlaunch).2 rfl
    have hlaunchText : (ofSettings aloneSettings).settings.clamped.launchText =
        "lancement: f1=\"x\" f2=\"\" points=10000 graine=42" := by decide +kernel
    have hcompiled : Entry.compilationTexts Float [(ofSettings aloneSettings).settings.first,
        (ofSettings aloneSettings).settings.second] = ["compile \"x\" -> jetons [x] rpn [x]"] := by
      decide +kernel
    rw [hlaunchText, hcompiled] at htexts
    exact ⟨_, hlaunch, rfl, ⟨failure, hentries⟩, htexts⟩

end CurveArea
