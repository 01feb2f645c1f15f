import RobotShell.Proofs.Grammar
import RobotShell.Proofs.Lexemes
import RobotShell.Proofs.Traces
/-!
# Which errors of a line are reported

What could not be read is an error node somewhere in the tree of its line. A statement with such a node
reports a fault when it is run, whatever the state, unless it is a `let`: that one binds the tree as it
is, and says nothing. So the errors of a line are reported if one of them is outside the values that are
bound, and what a `let` keeps back is reported when the statements bound to its name are run.
-/

namespace RobotShell

open Interpreter

/-- Whether no error node occurs in the statement. -/
def Statement.errorFree : Statement → Bool
  | .malformed _ _ => false
  | .unrecognized e | .assign _ e | .rotate e | .move e | .buy _ e | .sell _ e => e.errorFree
  | _ => true

/-- Whether the statement binds a name. -/
def Statement.isAssign : Statement → Bool
  | .assign _ _ => true
  | _ => false

/-- An error node stands in the statement, which does not bind it. -/
def Statement.Faulty (s : Statement) : Prop := s.errorFree = false ∧ s.isAssign = false

namespace Interpreter

/-- Whether a statement queues a fault when it is run as a statement of a line. -/
def Reports (i : Interpreter) (s : Statement) : Prop := i.faults.size < (i.runStatement s).faults.size

variable {levels : Nat} {s : Statement} {x : Name} {e : Expr} {i k : Interpreter} {ss : List Statement}

/-! ## Error nodes and statements -/

theorem value_of_error {bindings : Bindings} {limit : Nat} {seen : List Name} (h : e.errorFree = false) :
    value bindings limit levels seen e = .error (.notALiteral e.display) := by
  cases e with
  | int | name => cases h
  | _ => simp [value]

/-- A faulty statement reports a fault, be it that no step is left for it. -/
theorem act_faulty (h : s.Faulty) :
    ∃ f, act levels s i = .effect (.fault f) ∨ act levels s i = .cut f := by
  obtain ⟨herror, hassign⟩ := h
  unfold act
  split
  · exact ⟨_, .inr rfl⟩
  · cases s with
    | malformed message col => exact ⟨_, .inl rfl⟩
    | unrecognized e => exact ⟨_, .inl rfl⟩
    | rotate e | move e | buy x e | sell x e =>
      exact ⟨_, .inl (congrArg Act.effect (instruction_fault.2 (value_of_error herror)))⟩
    | assign x e => cases hassign
    | _ => cases herror

/-- A name that is run and neither cut off nor entered is not bound. -/
theorem act_run_effect {f : Effect} (h : act levels (.run x) i = .effect f) : i.binding? x.text = none := by
  unfold act at h
  split at h
  · cases h
  · rcases actOfName_cases levels x i with ⟨hnone, -⟩ | ⟨g, -, hact⟩ | ⟨e, -, -, -, hact⟩
    · exact hnone
    · cases hact.symm.trans h
    · cases hact.symm.trans h

/-! ## Runs of statements -/

theorem faults_size_le (h : i.faults.toList <+: k.faults.toList) : i.faults.size ≤ k.faults.size := by
  simpa using h.length_le

/-- Statements that are abandoned, or among which one is faulty, report a fault if each of them does so. -/
theorem runAll_reports {run : Statement → Interpreter → Interpreter × Flow}
    (hkeep : ∀ s i, i.faults.toList <+: (run s i).1.faults.toList)
    (hrun : ∀ s i, (run s i).2 = .halt ∨ s.Faulty → i.faults.size < (run s i).1.faults.size)
    (h : (runAll run ss i).2 = .halt ∨ ∃ s ∈ ss, s.Faulty) :
    i.faults.size < (runAll run ss i).1.faults.size := by
  induction ss generalizing i with
  | nil =>
    rcases h with hflow | ⟨s, hs, -⟩
    · cases hflow
    · cases hs
  | cons s ss ih =>
    cases hflow : (run s i).2 with
    | halt =>
      rw [runAll_halt hflow]
      exact hrun s i (.inl hflow)
    | goOn =>
      rw [runAll_goOn hflow] at h ⊢
      by_cases hs : s.Faulty
      · exact Nat.lt_of_lt_of_le (hrun s i (.inr hs)) (faults_size_le (preserves_faults.runAll hkeep ss _))
      · refine Nat.lt_of_le_of_lt (faults_size_le (hkeep s i)) (ih (h.imp_right ?_))
        rintro ⟨s', hmem, hs'⟩
        rcases List.mem_cons.1 hmem with rfl | hmem
        · exact absurd hs' hs
        · exact ⟨s', hmem, hs'⟩

theorem dispatch_reports (levels : Nat) (s : Statement) (i : Interpreter)
    (h : (dispatch (follow levels) levels s i).2 = .halt ∨ s.Faulty) :
    i.faults.size < (dispatch (follow levels) levels s i).1.faults.size := by
  induction levels using Nat.strongRecOn generalizing s i with
  | ind levels ih =>
    rw [dispatch_eq] at h ⊢
    cases hact : act levels s i with
    | effect f =>
      rw [hact] at h
      obtain ⟨g, hg | hg⟩ := act_faulty (h.resolve_left nofun) <;> cases hg.symm.trans hact
      simp [Act.perform, Effect.apply, report, counted]
    | cut f => simp [Act.perform, report, counted]
    | enter x e =>
      -- the name is no faulty statement, so it is abandoned, and that is by one of those bound to it
      rw [hact] at h
      have hhalt : (runBody (levels - 1) e.statements (i.counted.entered x)).2 = .halt := by
        refine h.resolve_right fun hs => ?_
        obtain ⟨g, hg | hg⟩ := act_faulty hs <;> cases hg.symm.trans hact
      have hlevels := (act_enter hact).2.2.2
      exact runAll_reports (preserves_faults.dispatch (levels - 1)) (ih (levels - 1) (by omega)) (.inl hhalt)

/-- A body with a faulty statement reports a fault: the statement is run, unless one before it is
abandoned. -/
theorem runBody_reports (levels : Nat) (i : Interpreter) (h : ∃ s ∈ ss, s.Faulty) :
    i.faults.size < (runBody levels ss i).1.faults.size :=
  runAll_reports (preserves_faults.dispatch levels) (dispatch_reports levels) (.inr h)

/-! ## Statements of a line -/

theorem reports_of_faulty (i : Interpreter) (h : s.Faulty) : i.Reports s :=
  dispatch_reports i.limits.depth s { i with steps := 0 } (.inr h)

/-- What a `let` keeps back is reported when the statements bound to its name are run. -/
theorem reports_name (hx : i.binding? x.text = some e) (h : ∃ s ∈ e.statements, s.Faulty) :
    i.Reports (.run x) := by
  unfold Reports
  rw [runStatement_eq, dispatch_eq]
  cases hact : act i.limits.depth (.run x) { i with steps := 0 } with
  | effect f =>
    exact absurd ((act_run_effect hact).symm.trans hx) nofun
  | cut f => simp [Act.perform, report, counted, unwound]
  | enter y e' =>
    obtain ⟨hrun, hy, -⟩ := act_enter hact
    cases hrun
    cases hy.symm.trans hx
    exact runBody_reports (i.limits.depth - 1) (({ i with steps := 0 } : Interpreter).counted.entered x) h

theorem not_reports_assign (h : s.isAssign = true) (hsteps : 0 < i.limits.steps) : ¬i.Reports s := by
  cases s with
  | assign x e =>
    have hbudget : ¬i.limits.steps < 0 + 1 := by omega
    have hact : act i.limits.depth (.assign x e) { i with steps := 0 } = .effect (.bind x e) := if_neg hbudget
    unfold Reports
    rw [runStatement_eq, dispatch_eq, hact]
    exact Nat.lt_irrefl _
  | _ => cases h

/-- Statements report a fault if one of them does, in the state that those before it leave. -/
theorem foldl_reports (i : Interpreter) (ss : List Statement) :
    i.faults.size < (ss.foldl runStatement i).faults.size ↔
      ∃ before s after, ss = before ++ s :: after ∧ (before.foldl runStatement i).Reports s := by
  induction ss generalizing i with
  | nil => simp
  | cons s ss ih =>
    have hfirst : i.faults.size ≤ (i.runStatement s).faults.size := faults_size_le (foldl_faults [s] i)
    have hrest := faults_size_le (foldl_faults ss (i.runStatement s))
    rw [List.foldl_cons]
    by_cases hs : i.Reports s
    · exact iff_of_true (Nat.lt_of_lt_of_le hs hrest) ⟨[], s, ss, rfl, hs⟩
    · have hsame : i.faults.size = (i.runStatement s).faults.size := Nat.le_antisymm hfirst (Nat.le_of_not_lt hs)
      rw [hsame, ih]
      constructor
      · rintro ⟨before, s', after, rfl, hs'⟩
        exact ⟨s :: before, s', after, rfl, hs'⟩
      · rintro ⟨before, s', after, hss, hs'⟩
        cases before with
        | nil =>
          cases hss
          exact absurd hs' hs
        | cons _ before =>
          cases hss
          exact ⟨before, s', after, rfl, hs'⟩

/-! ## Lines -/

/-- The error nodes of a tree are those of its statements. -/
theorem errorFree_eq_false (e : Expr) : e.errorFree = false ↔ ∃ s ∈ e.statements, s.errorFree = false := by
  induction e with
  | seq left right ihl ihr =>
    simp only [Expr.statements_seq, List.mem_append, or_and_right, exists_or, ← ihl, ← ihr, Expr.errorFree,
      Bool.and_eq_false_iff]
  | _ => simp [Expr.statements, Expr.flatten, Expr.errorFree, Statement.errorFree]

theorem errorFree_of_stray {line : String} {c : Char} (h : Expr.ofString? line = some e)
    (hmem : c ∈ line.toList.takeWhile fun c => !Source.isLineEnd c) (hc : Source.isStray c = true) :
    e.errorFree = false := by
  obtain ⟨t, ht, hkind⟩ := Source.stray_mem_line hc (.ofString line) hmem
  obtain ⟨hfree, -⟩ := Grammar.chain_eq_iff Expr.maxNesting (Line.ofString line).endCol (Line.ofString line).tokens
  rw [← Expr.ofLine?_eq_some h] at hfree
  refine Bool.eq_false_iff.2 fun hE => ?_
  obtain ⟨e', d⟩ := hfree.1 hE
  exact d.noStray c (hkind ▸ List.mem_map_of_mem ht)

/-- The errors of a line and the faults it reports. A stray character makes an error node of the line's
tree, and every error node is in one of its statements. If that statement is not a `let`, the line
reports a fault in every state. If it is a `let`, it reports nothing for it: then there is a report only
if a statement without errors makes one. -/
theorem runLine_reports {line : String} (h : Expr.ofString? line = some e) (i : Interpreter)
    (hsteps : 0 < i.limits.steps) :
    (∀ c ∈ line.toList.takeWhile (fun c => !Source.isLineEnd c), Source.isStray c = true → e.errorFree = false) ∧
    (e.errorFree = false ↔ ∃ s ∈ e.statements, s.errorFree = false) ∧
    (i.faults.size < (i.runLine line).faults.size ↔
      (∃ s ∈ e.statements, s.errorFree = false ∧ s.isAssign = false) ∨
        ∃ before s after, e.statements = before ++ s :: after ∧ s.errorFree = true ∧
          (before.foldl runStatement i).Reports s) := by
  have hline : i.runLine line = e.statements.foldl runStatement i := by
    unfold runLine
    rw [h]
    rfl
  refine ⟨fun c hmem hc => errorFree_of_stray h hmem hc, errorFree_eq_false e, ?_⟩
  rw [hline, foldl_reports]
  constructor
  · rintro ⟨before, s, after, hsplit, hs⟩
    have hmem : s ∈ e.statements := hsplit ▸ List.mem_append_right before List.mem_cons_self
    cases herror : s.errorFree with
    | true => exact .inr ⟨before, s, after, hsplit, herror, hs⟩
    | false =>
      refine .inl ⟨s, hmem, herror, Bool.eq_false_iff.2 fun hassign => ?_⟩
      have hbefore : 0 < (before.foldl runStatement i).limits.steps := by
        rwa [Machine.foldl_limits]
      exact not_reports_assign hassign hbefore hs
  · rintro (⟨s, hmem, hfaulty⟩ | ⟨before, s, after, hsplit, -, hs⟩)
    · obtain ⟨before, after, hsplit⟩ := List.append_of_mem hmem
      exact ⟨before, s, after, hsplit, reports_of_faulty _ hfaulty⟩
    · exact ⟨before, s, after, hsplit, hs⟩

/-- One error is bound, and the other one is reported. -/
theorem runLine_reports_move :
    Expr.ofString? "let x = (stop && @) && move (x && @)" =
        some (.seq (.assign ⟨"x"⟩ (.seq .stop (.error "expected keyword or identifier" 18)))
          (.move (.seq (.name ⟨"x"⟩) (.error "expected keyword or identifier" 35)))) ∧
      0 < (new .default).limits.steps ∧
      (new .default).faults.size < ((new .default).runLine "let x = (stop && @) && move (x && @)").faults.size := by
  have hread : Expr.ofString? "let x = (stop && @) && move (x && @)" =
      some (.seq (.assign ⟨"x"⟩ (.seq .stop (.error "expected keyword or identifier" 18)))
        (.move (.seq (.name ⟨"x"⟩) (.error "expected keyword or identifier" 35)))) := by decide +kernel
  have hsteps : 0 < (new .default).limits.steps := by decide
  refine ⟨hread, hsteps, (runLine_reports hread _ hsteps).2.2.2 (.inl ?_)⟩
  exact ⟨.move (.seq (.name ⟨"x"⟩) (.error "expected keyword or identifier" 35)), by decide +kernel, rfl, rfl⟩

/-- An error node alone is no guarantee of a report: a `let` can bind it. -/
theorem not_runLine_reports_let :
    ¬∀ (i : Interpreter) (line : String) (e : Expr), Expr.ofString? line = some e → e.errorFree = false →
      i.faults.size < (i.runLine line).faults.size := by
  intro h
  have hlet := h (new .default) "let x = (stop && @)"
    (.assign ⟨"x"⟩ (.seq .stop (.error "expected keyword or identifier" 18))) (by decide +kernel) rfl
  exact absurd hlet (by decide +kernel)

end Interpreter

end RobotShell
