import RobotShell.Proofs.Machine
/-!
# The acts of a run

A run is known by its acts, those of the names it enters among them. Every act counts as a step and
changes what is seen from outside by one effect at most, so where a run ends is the state it started
from with the effects of its acts made one after the other. `Trace` holds the acts of a part of a run,
`Does` those of whole statements.
-/

namespace RobotShell

open Interpreter Relation

namespace Interpreter

/-- The change that an act makes by itself. -/
def Act.effect? : Act → Option Effect
  | .effect f => some f
  | .cut f => some (.fault f)
  | .enter .. => none

def Effect.fault? : Effect → Option Fault
  | fault f => some f
  | _ => none

def Effect.told? : Effect → Option String
  | tell text => some text
  | _ => none

def Effect.instruction? : Effect → Option Instruction
  | instruct c => some c
  | _ => none

def Effect.isQuit : Effect → Bool
  | quit => true
  | _ => false

/-- The changes that acts make, in order. -/
def effects (as : List Act) : List Effect := as.filterMap Act.effect?

/-- Makes changes one after the other. -/
def replay (fs : List Effect) (i : Interpreter) : Interpreter := fs.foldl (fun i f => f.apply i) i

variable {fs : List Effect} {i : Interpreter}

/-! ## Changes made one after the other -/

theorem effects_append (as bs : List Act) : effects (as ++ bs) = effects as ++ effects bs :=
  List.filterMap_append

theorem replay_append (fs gs : List Effect) (i : Interpreter) : replay (fs ++ gs) i = replay gs (replay fs i) :=
  List.foldl_append

/-- A queue behind which each change puts what `g` says of it. -/
theorem replay_queue {α : Type} (queue : Interpreter → List α) {g : Effect → Option α}
    (h : ∀ f ∈ fs, ∀ i, queue (f.apply i) = queue i ++ (g f).toList) (i : Interpreter) :
    queue (replay fs i) = queue i ++ fs.filterMap g := by
  induction fs generalizing i with
  | nil => exact (List.append_nil _).symm
  | cons f fs ih =>
    refine (ih (fun f' hf' => h f' (List.mem_cons_of_mem f hf')) (f.apply i)).trans ?_
    rw [h f List.mem_cons_self, List.append_assoc, List.filterMap_cons]
    cases g f <;> rfl

theorem replay_faults (fs : List Effect) (i : Interpreter) :
    (replay fs i).faults.toList = i.faults.toList ++ fs.filterMap Effect.fault? := by
  refine replay_queue (fun i => i.faults.toList) (fun f _ i => ?_) i
  cases f <;> simp [Effect.apply, Effect.fault?, report, tell, instruct, bind]

theorem replay_status (fs : List Effect) (i : Interpreter) :
    (replay fs i).status.toList = i.status.toList ++ fs.filterMap Effect.told? := by
  refine replay_queue (fun i => i.status.toList) (fun f _ i => ?_) i
  cases f <;> simp [Effect.apply, Effect.told?, report, tell, instruct, bind]

/-- Without a `stop`, instructions are queued behind those that are there. -/
theorem replay_instructions (h : Effect.stop ∉ fs) (i : Interpreter) :
    (replay fs i).instructions.toList = i.instructions.toList ++ fs.filterMap Effect.instruction? := by
  refine replay_queue (fun i => i.instructions.toList) (fun f hf i => ?_) i
  cases f with
  | stop => exact absurd hf h
  | _ => simp [Effect.apply, Effect.instruction?, report, tell, instruct, bind]

theorem replay_quit (fs : List Effect) (i : Interpreter) : (replay fs i).quit = (i.quit || fs.any Effect.isQuit) := by
  induction fs generalizing i with
  | nil => simp [replay]
  | cons f fs ih =>
    refine (ih (f.apply i)).trans ?_
    cases f <;> simp [Effect.apply, Effect.isQuit, report, tell, instruct, bind]

/-- The last `stop` begins the queue anew, and only what comes after it is behind it. -/
theorem replay_stop (h : Effect.stop ∈ fs) :
    ∃ before after, fs = before ++ .stop :: after ∧ Effect.stop ∉ after ∧
      ∀ i, (replay fs i).instructions.toList = .stop :: after.filterMap Effect.instruction? := by
  obtain ⟨after, before, hfs, hafter⟩ := List.eq_append_cons_of_mem (List.mem_reverse.2 h)
  have hfs' : fs = before.reverse ++ .stop :: after.reverse := by
    simpa using congrArg List.reverse hfs
  refine ⟨before.reverse, after.reverse, hfs', by simpa using hafter, fun i => ?_⟩
  rw [hfs', replay_append]
  exact replay_instructions (by simpa using hafter) (Effect.stop.apply _)

theorem apply_settled (f : Effect) (i : Interpreter) : (f.apply i).settled = f.apply i.settled := by
  cases f <;> rfl

end Interpreter

namespace Machine

/-- What the next statement comes to. -/
def act? : Machine → Option Act
  | ⟨i, ⟨levels, s :: _⟩ :: _⟩ => some (act levels s i)
  | _ => none

/-- The acts that lead from one moment of a run to a later one. -/
inductive Trace : Machine → List Act → Machine → Prop where
  | refl {m} : Trace m [] m
  | head {m m' m'' as} (h : Step m m') (h' : Trace m' as m'') : Trace m (m.act?.toList ++ as) m''

variable {m m' m'' : Machine} {as bs : List Act} {i j k : Interpreter} {s : Statement} {ss : List Statement}

theorem Trace.steps (h : Trace m as m') : Steps m m' := by
  induction h with
  | refl => exact .refl
  | head h _ ih => exact .head h ih

theorem Steps.trace (h : Steps m m') : ∃ as, Trace m as m' := by
  induction h using ReflTransGen.head_induction_on with
  | refl => exact ⟨[], .refl⟩
  | head h _ ih =>
    obtain ⟨as, has⟩ := ih
    exact ⟨_, .head h has⟩

/-- There is one run to an end only. -/
theorem Trace.unique (h : Trace m as ⟨j, []⟩) (h' : Trace m bs ⟨k, []⟩) : as = bs ∧ j = k := by
  generalize hend : (⟨j, []⟩ : Machine) = e at h
  induction h generalizing bs with
  | refl =>
    subst hend
    cases h' with
    | refl => exact ⟨rfl, rfl⟩
    | head hstep _ => exact absurd hstep not_step_of_nil
  | head hstep _ ih =>
    cases h' with
    | refl => exact absurd hstep not_step_of_nil
    | head hstep' h' =>
      obtain rfl := Step.unique hstep hstep'
      obtain ⟨rfl, rfl⟩ := ih h' hend
      exact ⟨rfl, rfl⟩

/-! ## One step -/

/-- A step makes the change of its act, and no other. -/
theorem Step.settled (h : Step m m') : m'.state.settled = replay (effects m.act?.toList) m.state.settled := by
  cases h with
  | effect h =>
    simp only [act?, h]
    exact apply_settled ..
  | cut h | enter h =>
    simp only [act?, h]
    rfl
  | leave => rfl

/-- Every act is counted. -/
theorem Step.steps (h : Step m m') : m'.state.steps = m.state.steps + m.act?.toList.length := by
  cases h with
  | effect => exact apply_steps ..
  | cut | enter | leave => rfl

theorem Step.limits (h : Step m m') : m'.state.limits = m.state.limits := by
  cases h with
  | effect => exact apply_limits ..
  | cut | enter | leave => rfl

/-! ## Parts of a run -/

theorem Trace.settled (h : Trace m as m') : m'.state.settled = replay (effects as) m.state.settled := by
  induction h with
  | refl => rfl
  | head hstep _ ih => rw [ih, hstep.settled, effects_append, replay_append]

theorem Trace.count (h : Trace m as m') : m'.state.steps = m.state.steps + as.length := by
  induction h with
  | refl => rfl
  | head hstep _ ih => rw [ih, hstep.steps, List.length_append, Nat.add_assoc]

/-- No fault is ever taken back. -/
theorem Steps.faults (h : Steps m m') : m.state.faults.toList <+: m'.state.faults.toList := by
  obtain ⟨as, has⟩ := h.trace
  have hend : m'.state.faults.toList = (replay (effects as) m.state.settled).faults.toList :=
    congrArg (·.faults.toList) has.settled
  rw [hend, replay_faults]
  exact List.prefix_append ..

/-! ## Statements of a line -/

/-- Where the run of a statement ends is what `runStatement` gives. -/
theorem runStatement_of_steps (h : Steps (start i s) ⟨j, []⟩) : i.runStatement s = j.unwound := by
  obtain ⟨k, hk, hend⟩ := start_reaches i s
  rcases ReflTransGen.cases_head (Steps.to_end hk h) with heq | ⟨m, hstep, -⟩
  · cases heq
    exact hend.symm
  · exact absurd hstep not_step_of_nil

theorem runStatement_limits (i : Interpreter) (s : Statement) : (i.runStatement s).limits = i.limits :=
  preserves_limits.dispatch i.limits.depth s { i with steps := 0 }

theorem foldl_limits (i : Interpreter) (ss : List Statement) : (ss.foldl runStatement i).limits = i.limits := by
  induction ss generalizing i with
  | nil => rfl
  | cons s ss ih => exact (ih (i.runStatement s)).trans (runStatement_limits i s)

/-- Every statement of a line has a run, which comes to an end. -/
theorem exists_trace (i : Interpreter) (s : Statement) :
    ∃ as j, Trace (start i s) as ⟨j, []⟩ ∧ j.unwound = i.runStatement s := by
  obtain ⟨j, hj, hend⟩ := start_reaches i s
  obtain ⟨as, has⟩ := Steps.trace hj
  exact ⟨as, j, has, hend⟩

end Machine

namespace Interpreter

open Machine

/-- Statements are run in order, each as a statement of a line, and these are the acts. -/
inductive Does : Interpreter → List Statement → List Act → Prop where
  | nil {i} : Does i [] []
  | cons {i j s ss as bs} (h : Trace (start i s) as ⟨j, []⟩) (h' : Does (i.runStatement s) ss bs) :
    Does i (s :: ss) (as ++ bs)

/-- The statements of a line. -/
def lineStatements (line : String) : List Statement := (Expr.ofString? line).elim [] Expr.statements

variable {i : Interpreter} {ss : List Statement} {as bs : List Act}

theorem runLine_eq (i : Interpreter) (line : String) : i.runLine line = (lineStatements line).foldl runStatement i := by
  unfold runLine lineStatements
  cases Expr.ofString? line <;> rfl

theorem exists_does (i : Interpreter) (ss : List Statement) : ∃ as, i.Does ss as := by
  induction ss generalizing i with
  | nil => exact ⟨[], .nil⟩
  | cons s ss ih =>
    obtain ⟨as, j, has, -⟩ := exists_trace i s
    obtain ⟨bs, hbs⟩ := ih (i.runStatement s)
    exact ⟨as ++ bs, .cons has hbs⟩

theorem Does.unique (h : i.Does ss as) (h' : i.Does ss bs) : as = bs := by
  induction h generalizing bs with
  | nil =>
    cases h'
    rfl
  | cons htrace _ ih =>
    cases h' with
    | cons htrace' h' => rw [(htrace.unique htrace').1, ih h']

/-- What statements leave is what their acts make of the state before. -/
theorem Does.settled (h : i.Does ss as) : (ss.foldl runStatement i).settled = replay (effects as) i.settled := by
  induction h with
  | nil => rfl
  | @cons i j s ss as bs htrace _ ih =>
    have hfirst : (i.runStatement s).settled = replay (effects as) i.settled := by
      rw [runStatement_of_steps htrace.steps]
      exact htrace.settled
    rw [List.foldl_cons, ih, hfirst, effects_append, replay_append]

theorem foldl_faults (ss : List Statement) (i : Interpreter) :
    i.faults.toList <+: (ss.foldl runStatement i).faults.toList := by
  obtain ⟨as, has⟩ := exists_does i ss
  have hend : (ss.foldl runStatement i).faults.toList = (replay (effects as) i.settled).faults.toList :=
    congrArg (·.faults.toList) has.settled
  rw [hend, replay_faults]
  exact List.prefix_append ..

end Interpreter

end RobotShell
