import CurveArea.Proofs.Formula.Scan

/-!
# Operators and markers on one stack

The textbook translation to postfix keeps one stack. An opening parenthesis leaves a marker on it,
the operators of a scope wait above its marker, and a closing parenthesis puts out what waits above
the nearest marker and removes the marker (`Markers.program`). A scan keeps no markers but counts,
for each open scope, the operators below it.

Both come to the same on all lists of tokens and under every precedence, errors included
(`ofTokens_eq_markers`). `Marked` says when a stack with markers shows the same operators in the
same scopes as a scan does; a token keeps the two alike or is refused by both (`Simulates.step`).
-/

namespace CurveArea

/-! ## The stack with markers -/

/-- What is on the stack: an operator that waits, or the marker of an opening parenthesis. -/
inductive Mark
  | operator (o : Operator)
  | opening

namespace Mark

/-- Whether a mark is an operator. -/
def isOperator : Mark → Bool
  | operator _ => true
  | opening => false

/-- Whether a mark is an operator that yields to one of rank `r`. -/
def yields (prec : Precedence) (r : Nat) : Mark → Bool
  | operator o => prec.yields r o
  | opening => false

/-- The instruction of a mark that is an operator. -/
def instr? {α : Type} : Mark → Option (Instr α)
  | operator o => some (.apply o)
  | opening => none

end Mark

/-- The state in which some tokens have been translated. -/
structure Markers (α : Type) where
  /-- The instructions put out so far. -/
  code : List (Instr α)
  /-- What is on the stack, the latest first. -/
  stack : List Mark
  /-- How many tokens have been read. -/
  position : Nat

namespace Markers

variable {α : Type}

/-- The state before the first token. -/
def start : Markers α := ⟨[], [], 0⟩

/-- The instructions with those of the operators among some marks put out. -/
def emit (m : Markers α) (marks : List Mark) : List (Instr α) :=
  m.code ++ marks.filterMap Mark.instr?

/-- Reads one token. -/
def step (prec : Precedence) (m : Markers α) : Token α → Except CompileError (Markers α)
  | .number v => .ok ⟨m.code ++ [.push v], m.stack, m.position + 1⟩
  | .var => .ok ⟨m.code ++ [.load], m.stack, m.position + 1⟩
  | .lparen => .ok ⟨m.code, .opening :: m.stack, m.position + 1⟩
  | .rparen =>
    match m.stack.dropWhile Mark.isOperator with
    | [] => .error (.unopened m.position)
    | _ :: below => .ok ⟨m.emit (m.stack.takeWhile Mark.isOperator), below, m.position + 1⟩
  | .op o =>
    match prec.rank? o with
    | none => .error (.unranked o)
    | some r =>
      .ok ⟨m.emit (m.stack.takeWhile (Mark.yields prec r)),
        .operator o :: m.stack.dropWhile (Mark.yields prec r), m.position + 1⟩

/-- The program of a finished translation: the operators left are put out, and the markers left are
counted. -/
def finish (m : Markers α) : Program α :=
  ⟨m.emit m.stack, m.stack.countP fun mark => !mark.isOperator⟩

/-- The program of a list of tokens. -/
def program (prec : Precedence) (ts : List (Token α)) : Except CompileError (Program α) :=
  (ts.foldlM (step prec) start).map finish

end Markers

/-! ## Operators at the top of a stack -/

namespace Mark

variable {α : Type} {prec : Precedence} {outer : List Mark}

/-- Operators on the stack are put out as they are released by a scan. -/
theorem filterMap_operators (ops : List Operator) :
    (ops.map operator).filterMap instr? = (Scan.released ops : List (Instr α)) := by
  induction ops with
  | nil => rfl
  | cons o ops ih => exact congrArg (Instr.apply o :: ·) ih

/-- No operator on the stack is a marker. -/
theorem countP_operators (ops : List Operator) :
    (ops.map operator).countP (fun mark => !mark.isOperator) = 0 := by
  simp [List.countP_eq_zero, isOperator]

/-- Marks made of operators are operators. -/
theorem isOperator_of_mem {ops : List Operator} :
    ∀ mark ∈ ops.map operator, mark.isOperator = true :=
  List.forall_mem_map.2 fun _ _ => rfl

/-- The operators at the top of a stack that yield are among those above the nearest marker. -/
theorem takeWhile_yields (houter : outer.head?.any isOperator = false) (r : Nat)
    (ops : List Operator) :
    (ops.map operator ++ outer).takeWhile (yields prec r) =
      (ops.takeWhile (prec.yields r)).map operator := by
  induction ops with
  | nil =>
    match outer with
    | [] => rfl
    | operator o :: _ => cases houter
    | opening :: _ => rfl
  | cons o ops ih =>
    rw [List.map_cons, List.cons_append, List.takeWhile_cons, List.takeWhile_cons, ih, yields]
    split <;> rfl

/-- What is left of a stack when they are released. -/
theorem dropWhile_yields (houter : outer.head?.any isOperator = false) (r : Nat)
    (ops : List Operator) :
    (ops.map operator ++ outer).dropWhile (yields prec r) =
      (ops.dropWhile (prec.yields r)).map operator ++ outer := by
  have hwhole := calc (ops.takeWhile (prec.yields r)).map operator ++
        (ops.map operator ++ outer).dropWhile (yields prec r)
    _ = ops.map operator ++ outer := by
        rw [← takeWhile_yields houter, List.takeWhile_append_dropWhile]
    _ = (ops.takeWhile (prec.yields r)).map operator ++
          ((ops.dropWhile (prec.yields r)).map operator ++ outer) := by
        rw [← List.append_assoc, ← List.map_append, List.takeWhile_append_dropWhile]
  exact List.append_cancel_left hwhole

end Mark

/-! ## The same operators in the same scopes -/

/-- The stack that shows the operators that wait in a scan in their scopes. -/
inductive Marked : (operators : List Operator) → (floors : List Nat) → (stack : List Mark) → Prop
  /-- Outside all parentheses there is no marker. -/
  | outermost (operators : List Operator) : Marked operators [0] (operators.map .operator)
  /-- The operators of a scope stand above its marker, and above those that its floor counts. -/
  | scope {below : List Operator} {floors : List Nat} {stack : List Mark} (inside : List Operator) :
      Marked below floors stack →
      Marked (inside ++ below) (below.length :: floors)
        (inside.map .operator ++ .opening :: stack)

namespace Marked

variable {α : Type} {operators : List Operator} {floors : List Nat} {stack : List Mark}

/-- The operators of the innermost scope stand at the top, and any others could stand there. -/
theorem innermost (h : Marked operators floors stack) :
    ∃ inside below outer, operators = inside ++ below ∧ floors.headD 0 = below.length ∧
      stack = inside.map .operator ++ outer ∧ outer.head?.any Mark.isOperator = false ∧
      ∀ ops, Marked (ops ++ below) floors (ops.map .operator ++ outer) := by
  cases h with
  | outermost =>
    refine ⟨operators, [], [], by simp, rfl, by simp, rfl, fun ops => ?_⟩
    rw [List.append_nil, List.append_nil]
    exact .outermost ops
  | @scope below floors stack inside h =>
    exact ⟨inside, below, .opening :: stack, rfl, rfl, rfl, rfl, fun ops => .scope ops h⟩

/-- Either there is no marker, or one below the operators of the innermost scope. -/
theorem inversion (h : Marked operators floors stack) :
    (floors = [0] ∧ stack = operators.map .operator) ∨
      ∃ inside below outer rest, operators = inside ++ below ∧ floors = below.length :: outer ∧
        stack = inside.map .operator ++ .opening :: rest ∧ Marked below outer rest := by
  cases h with
  | outermost => exact .inl ⟨rfl, rfl⟩
  | scope inside h => exact .inr ⟨inside, _, _, _, rfl, rfl, rfl, h⟩

/-- A stack that shows a scan has a scope. -/
theorem floors_pos (h : Marked operators floors stack) : 0 < floors.length := by
  cases h <;> exact Nat.succ_pos _

/-- The same operators are left at the end. -/
theorem filterMap_stack (h : Marked operators floors stack) :
    stack.filterMap Mark.instr? = (Scan.released operators : List (Instr α)) := by
  induction h with
  | outermost => exact Mark.filterMap_operators _
  | scope inside _ ih =>
    rw [List.filterMap_append, Mark.filterMap_operators, Scan.released_append, ← ih]
    rfl

/-- The same scopes are open at the end. -/
theorem countP_stack (h : Marked operators floors stack) :
    stack.countP (fun mark => !mark.isOperator) = floors.length - 1 := by
  induction h with
  | outermost => exact Mark.countP_operators _
  | @scope below floors stack inside h ih =>
    have hpos := h.floors_pos
    rw [List.countP_append, Mark.countP_operators, List.countP_cons_of_pos rfl, ih,
      List.length_cons]
    omega

end Marked

/-! ## Step by step -/

section
variable {α : Type} {prec : Precedence} {s : Scan α} {m : Markers α}

/-- A translation with markers does as a scan does. -/
structure Simulates (prec : Precedence) (s : Scan α) (m : Markers α) : Prop where
  /-- The same instructions have been put out. -/
  code_eq : m.code = s.code.toList
  /-- The same operators wait in the same scopes. -/
  marked : Marked s.operators s.floors m.stack
  /-- As many tokens have been read. -/
  position_eq : m.position = s.position
  /-- The operators that wait can be compared. -/
  ranked : s.Ranked prec

/-- Both begin with nothing on the stack. -/
theorem simulates_start : Simulates prec (Scan.start : Scan α) Markers.start :=
  ⟨rfl, .outermost [], rfl, Scan.ranked_start⟩

/-- Both put out operators of the innermost scope in the same way. -/
theorem Simulates.emit_eq (h : Simulates prec s m) (ops : List Operator) :
    m.emit (ops.map .operator) = (s.emit ops).toList := by
  rw [Markers.emit, Mark.filterMap_operators, h.code_eq, Scan.toList_emit]

/-- Two outcomes are alike: both are the same error, or states that are alike. -/
inductive Alike (prec : Precedence) :
    Except CompileError (Scan α) → Except CompileError (Markers α) → Prop
  | error (e : CompileError) : Alike prec (.error e) (.error e)
  | ok {s : Scan α} {m : Markers α} (h : Simulates prec s m) : Alike prec (.ok s) (.ok m)

/-- A closing parenthesis takes away the innermost scope with its marker, and outside all
parentheses it is refused. -/
theorem Simulates.step_rparen (h : Simulates prec s m) :
    Alike prec (s.step prec .rparen) (m.step prec .rparen) := by
  obtain ⟨hfl, hstack⟩ | ⟨inside, below, outer, rest, hops, hfl, hstack, hbelow⟩ :=
    h.marked.inversion
  · have hs : s.step prec .rparen = .error (.unopened s.position) := by simp [Scan.step, hfl]
    have hdrop : m.stack.dropWhile Mark.isOperator = [] := by
      rw [hstack, ← List.append_nil (List.map ..),
        List.dropWhile_append_of_pos Mark.isOperator_of_mem]
      rfl
    have hm : m.step prec .rparen = .error (.unopened s.position) := by
      simp only [Markers.step, hdrop, h.position_eq]
    rw [hs, hm]
    exact .error _
  · obtain ⟨floor, floors, houter⟩ := List.exists_cons_of_length_pos hbelow.floors_pos
    have hs : s.step prec .rparen =
        .ok ⟨s.emit inside, below, outer, s.position + 1⟩ := by
      simp [Scan.step, hfl, hops, houter]
    have htake : m.stack.takeWhile Mark.isOperator = inside.map .operator := by
      rw [hstack, List.takeWhile_append_of_pos Mark.isOperator_of_mem]
      exact List.append_nil _
    have hdrop : m.stack.dropWhile Mark.isOperator = .opening :: rest := by
      rw [hstack, List.dropWhile_append_of_pos Mark.isOperator_of_mem]
      rfl
    have hm : m.step prec .rparen = .ok ⟨(s.emit inside).toList, rest, m.position + 1⟩ := by
      simp only [Markers.step, htake, hdrop, h.emit_eq]
    have hranked := h.ranked.step hs
    rw [hs, hm]
    exact .ok ⟨rfl, hbelow, congrArg (· + 1) h.position_eq, hranked⟩

/-- An operator puts out what yields to it at the top of the innermost scope, and waits there; it is
refused if it has no rank. -/
theorem Simulates.step_op (h : Simulates prec s m) (o : Operator) :
    Alike prec (s.step prec (.op o)) (m.step prec (.op o)) := by
  obtain ⟨inside, below, outer, hops, hfloor, hstack, houter, hothers⟩ := h.marked.innermost
  cases hr : prec.rank? o with
  | none =>
    have hs : s.step prec (.op o) = .error (.unranked o) := by
      simp [Scan.step, Scan.rank, hr, bind, Except.bind]
    have hm : m.step prec (.op o) = .error (.unranked o) := by simp [Markers.step, hr]
    rw [hs, hm]
    exact .error _
  | some r =>
    have hrelease : Scan.release prec r s.floor s.operators =
        .ok (inside.takeWhile (prec.yields r), inside.dropWhile (prec.yields r) ++ below) := by
      rw [Scan.floor, hfloor, hops]
      exact Scan.release_inside (hops ▸ h.ranked)
    have hs : s.step prec (.op o) = .ok ⟨s.emit (inside.takeWhile (prec.yields r)),
        o :: (inside.dropWhile (prec.yields r) ++ below), s.floors, s.position + 1⟩ :=
      Scan.step_op_eq_ok_iff.2 ⟨r, _, _, hr, hrelease, rfl⟩
    have hm : m.step prec (.op o) = .ok ⟨(s.emit (inside.takeWhile (prec.yields r))).toList,
        (o :: inside.dropWhile (prec.yields r)).map .operator ++ outer, m.position + 1⟩ := by
      simp only [Markers.step, hr, hstack, Mark.takeWhile_yields houter,
        Mark.dropWhile_yields houter, h.emit_eq]
      rfl
    have hranked := h.ranked.step hs
    rw [hs, hm]
    have hmarked := hothers (o :: inside.dropWhile (prec.yields r))
    exact .ok ⟨rfl, hmarked, congrArg (· + 1) h.position_eq, hranked⟩

/-- **One token.** A token keeps the two alike, or both refuse it in the same way. -/
theorem Simulates.step (h : Simulates prec s m) (t : Token α) :
    Alike prec (s.step prec t) (m.step prec t) := by
  cases t with
  | number v | var =>
    refine .ok ⟨?_, h.marked, congrArg (· + 1) h.position_eq, h.ranked⟩
    simp [h.code_eq]
  | lparen => exact .ok ⟨h.code_eq, .scope [] h.marked, congrArg (· + 1) h.position_eq, h.ranked⟩
  | rparen => exact h.step_rparen
  | op o => exact h.step_op o

/-- What goes on alike from states that are alike. -/
theorem Alike.bind {a : Except CompileError (Scan α)} {b : Except CompileError (Markers α)}
    {f : Scan α → Except CompileError (Scan α)} {g : Markers α → Except CompileError (Markers α)}
    (h : Alike prec a b) (hnext : ∀ s m, Simulates prec s m → Alike prec (f s) (g m)) :
    Alike prec (a.bind f) (b.bind g) := by
  cases h with
  | error e => exact .error e
  | ok h => exact hnext _ _ h

/-- **Any number of tokens.** -/
theorem Simulates.steps (h : Simulates prec s m) (ts : List (Token α)) :
    Alike prec (s.steps prec ts) (ts.foldlM (Markers.step prec) m) := by
  induction ts generalizing s m with
  | nil => exact .ok h
  | cons t ts ih =>
    rw [Scan.steps_cons, List.foldlM_cons]
    exact (h.step t).bind fun _ _ h => ih h

/-- Translations that are alike have the same program. -/
theorem Simulates.finish_eq (h : Simulates prec s m) : s.finish = m.finish := by
  rw [Scan.finish, Markers.finish, Markers.emit, Scan.toList_emit, h.code_eq,
    h.marked.filterMap_stack, h.marked.countP_stack]

/-- Outcomes that are alike are finished to the same program. -/
theorem Alike.map_finish {a : Except CompileError (Scan α)} {b : Except CompileError (Markers α)}
    (h : Alike prec a b) : a.map Scan.finish = b.map Markers.finish := by
  cases h with
  | error e => rfl
  | ok h => exact congrArg Except.ok h.finish_eq

/-- **Floors refine markers.** A scan gives every list of tokens the program that the translation
with markers gives it, or refuses it in the same way. -/
theorem ofTokens_eq_markers (prec : Precedence) (ts : List (Token α)) :
    Program.ofTokens prec ts = Markers.program prec ts := by
  have hsteps : Alike prec (Scan.start.steps prec ts)
      (ts.foldlM (Markers.step prec) Markers.start) := simulates_start.steps ts
  exact hsteps.map_finish

end

end CurveArea
