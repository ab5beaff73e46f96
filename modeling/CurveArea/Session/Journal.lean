import CurveArea.Formula.Infix
import CurveArea.Plane.Area
import CurveArea.Session.Settings

/-!
# The journal

What a session does is recorded in entries, each with a level and a text. Entries are values, kept
in the order in which they are written, so that what a journal says can be compared with what was
computed. A computation that writes entries and may stop without an answer is a `Recorded`.
-/

namespace CurveArea

/-- How much an entry matters (specification, section 12). -/
inductive Level
  | debug
  | info
  | warn
  deriving DecidableEq

/-- An entry of the journal. -/
inductive Entry (α : Type)
  /-- The settings of a new session. -/
  | restored (settings : Settings α)
  /-- A launch begins. -/
  | launched (settings : Settings α)
  /-- A formula has been compiled. -/
  | compiled (text : String) (tokens : List (Token α)) (program : Program α)
  /-- An area has been estimated. -/
  | estimated (estimate : Estimate α)
  /-- A pass of a trace is complete. -/
  | passed (program : Program α) (number : Nat) (pass : Pass α)
  /-- A trace has given up on a gap. -/
  | gaveUp (program : Program α) (report : Report α)
  /-- A launch has failed. -/
  | failed (failure : Failure α)

namespace Entry

variable {α : Type} [Numeral α]

/-- The level of an entry. Compiling and passes are details, an estimate is worth knowing, and a
trace that stops on a gap is a warning (specification, section 12). -/
def level : Entry α → Level
  | restored _ => .debug
  | launched _ => .info
  | compiled .. => .debug
  | estimated _ => .info
  | passed .. => .debug
  | gaveUp .. => .warn
  | failed _ => .warn

/-- The text of an entry. -/
def message : Entry α → String
  | restored s => "paramètres restaurés: " ++ s.shown
  | launched s =>
    "lancement: f1=" ++ Text.shown.quote s.first ++ " f2=" ++ Text.shown.quote s.second ++
      s!" points={s.points} graine={s.seed}"
  | compiled text tokens program =>
    "compile " ++ Text.shown.quote text ++ " -> jetons [" ++ Token.writeAll tokens ++ "] rpn [" ++
      program.write ++ "]"
  | estimated e =>
    s!"estimation: {e.inside}/{e.total} points dedans, aire ≈ " ++ Numeral.text e.area ++ " (± " ++
      Numeral.text e.deviation ++ ")"
  | passed program number pass =>
    "tracé " ++ program.write ++ s!": passe {number}, pas " ++ Numeral.scientific pass.step ++
      s!", lacune {pass.gap}"
  | gaveUp program report =>
    "tracé " ++ program.write ++ s!": arrêt après {report.passes} passes avec lacune (pas " ++
      Numeral.scientific report.finalStep ++ ")"
  | failed e => "échec: " ++ e.message

end Entry

/-- A computation: the entries it writes, in order, and its answer or why it has none. -/
structure Recorded (α β : Type) where
  /-- The entries. -/
  entries : List (Entry α)
  /-- The answer. -/
  outcome : Except (Stop (Failure α)) β

namespace Recorded

variable {α β γ : Type}

/-- Goes on with the answer of a computation; the entries follow one another. -/
def andThen (m : Recorded α β) (k : β → Recorded α γ) : Recorded α γ :=
  match m.outcome with
  | .ok b => ⟨m.entries ++ (k b).entries, (k b).outcome⟩
  | .error stop => ⟨m.entries, .error stop⟩

instance : Monad (Recorded α) where
  pure b := ⟨[], .ok b⟩
  bind := andThen

/-- Writes one entry. -/
def write (e : Entry α) : Recorded α Unit := ⟨[e], .ok ()⟩

/-- An answer or a failure, without entries. -/
def ofExcept (outcome : Except (Failure α) β) : Recorded α β :=
  ⟨[], outcome.mapError .failure⟩

@[simp] theorem entries_pure (b : β) : (pure b : Recorded α β).entries = [] := rfl

@[simp] theorem outcome_pure (b : β) : (pure b : Recorded α β).outcome = .ok b := rfl

@[simp] theorem bind_ok (es : List (Entry α)) (b : β) (k : β → Recorded α γ) :
    (⟨es, .ok b⟩ >>= k : Recorded α γ) = ⟨es ++ (k b).entries, (k b).outcome⟩ := rfl

@[simp] theorem bind_error (es : List (Entry α)) (stop : Stop (Failure α))
    (k : β → Recorded α γ) :
    ((⟨es, .error stop⟩ : Recorded α β) >>= k) = ⟨es, .error stop⟩ := rfl

/-- Compiles a formula. Only a success is recorded, with its tokens and its program (specification,
section 12). -/
def compile [Numeral α] (prec : Precedence) (text : String) : Recorded α (Program α) := do
  let tokens ← ofExcept ((Token.read text).mapError .compile)
  let program ← ofExcept ((Program.ofTokens prec tokens).mapError .compile)
  write (.compiled text tokens program)
  return program

/-- Makes a window. Nothing is recorded. -/
def window [Scalar α] (xMin xMax yMin yMax : α) : Recorded α (Window α) :=
  ofExcept ((Window.make xMin xMax yMin yMax).mapError .window)

/-- The estimate of an estimation. Only a success is recorded. -/
def estimate {σ : Type} (e : Estimation α σ) : Recorded α (Estimate α) := do
  let estimate ← ofExcept e.outcome
  write (.estimated estimate)
  return estimate

/-- The entries of the passes of a trace, the first of which has the given number. -/
def passEntries (program : Program α) (number : Nat) : List (Pass α) → List (Entry α)
  | [] => []
  | pass :: passes => .passed program number pass :: passEntries program (number + 1) passes

/-- The report of a trace of a program. All complete passes are recorded, and a gap that remains. -/
def report (program : Program α) (t : Trace α) : Recorded α (Report α) where
  entries := passEntries program 1 t.passes.toList ++
    match t.outcome with
    | .ok report => if report.gap then [.gaveUp program report] else []
    | .error _ => []
  outcome := match t.outcome with
    | .ok report => .ok report
    | .error (.failure e) => .error (.failure (.evaluate e))
    | .error .endless => .error .endless

end Recorded

end CurveArea
