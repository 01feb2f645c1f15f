import RobotShell.Proofs.Traces
/-!
# The step budget

Every act of a run is counted, and an act queues one entry at most. The statement for which no step is
left is refused: it reports the limit, and its act is the last one. So the budget bounds all that a
statement of a line does, whatever the names stand for that it follows.
-/

namespace RobotShell

open Interpreter Relation

/-- Whether the fault tells of a used up step budget. -/
def Fault.isStepLimit : Fault → Bool
  | .stepsExceeded _ => true
  | _ => false

namespace Interpreter

/-- Whether a statement is refused because no step is left for it. -/
def Act.refuses : Act → Bool
  | .cut f => f.isStepLimit
  | _ => false

/-- The faults that acts report, in order. -/
def reported (as : List Act) : List Fault := (effects as).filterMap Effect.fault?

/-- How many entries are in the queues. -/
def queued (i : Interpreter) : Nat := i.faults.size + i.status.size + i.instructions.size

variable {levels limit : Nat} {s : Statement} {x : Name} {e : Expr} {i : Interpreter} {as : List Act}

/-! ## One act -/

theorem value_isStepLimit {bindings : Bindings} {seen : List Name} {f : Fault}
    (h : value bindings limit levels seen e = .error f) : f.isStepLimit = false := by
  fun_induction value bindings limit levels seen e with
  | case1 => cases h
  | case5 _ _ _ _ _ _ ih => exact ih h
  | _ =>
    cases h
    rfl

/-- A statement is refused exactly if all steps are taken. -/
theorem act_refuses (levels : Nat) (s : Statement) (i : Interpreter) :
    i.limits.steps < i.steps + 1 ∧ act levels s i = .cut (.stepsExceeded i.limits.steps) ∨
      i.steps + 1 ≤ i.limits.steps ∧ (act levels s i).refuses = false := by
  unfold act
  by_cases hsteps : i.limits.steps < i.steps + 1
  · exact .inl ⟨hsteps, if_pos hsteps⟩
  · refine .inr ⟨by omega, ?_⟩
    rw [if_neg hsteps]
    cases s with
    | run x =>
      simp only [actOfName]
      split
      · rfl
      · split
        · rfl
        · split <;> rfl
    | _ => rfl

theorem act_fault {f : Fault} (h : act levels s i = .effect (.fault f)) : f.isStepLimit = false := by
  unfold act at h
  split at h
  · cases h
  · cases s with
    | rotate e | move e | buy x e | sell x e => exact value_isStepLimit (instruction_fault.1 (Act.effect.inj h))
    | run x =>
      rcases actOfName_cases levels x i with ⟨-, hact⟩ | ⟨g, -, hact⟩ | ⟨e, -, -, -, hact⟩ <;>
        cases hact.symm.trans h
      rfl
    | echo x =>
      simp only [text] at h
      split at h <;> cases h
      rfl
    | malformed | unrecognized =>
      cases h
      rfl
    | _ => cases h

/-- Only a refused statement reports that the steps are used up. -/
theorem isStepLimit_of_effect? {f : Fault} (h : (act levels s i).effect? = some (.fault f)) :
    f.isStepLimit = (act levels s i).refuses := by
  cases hact : act levels s i with
  | effect g =>
    rw [hact] at h
    obtain rfl : g = .fault f := Option.some.inj h
    exact act_fault hact
  | cut g =>
    rw [hact] at h
    obtain rfl : g = f := Effect.fault.inj (Option.some.inj h)
    rfl
  | enter =>
    rw [hact] at h
    cases h

theorem reported_append (as bs : List Act) : reported (as ++ bs) = reported as ++ reported bs := by
  rw [reported, effects_append, List.filterMap_append, reported, reported]

theorem mem_reported {f : Fault} : f ∈ reported as ↔ ∃ a ∈ as, a.effect? = some (.fault f) := by
  have hfault : ∀ g : Effect, g.fault? = some f ↔ g = .fault f := by
    intro g
    cases g <;> simp [Effect.fault?]
  simp only [reported, effects, List.mem_filterMap, hfault, exists_eq_right]

theorem apply_queued (f : Effect) (i : Interpreter) : (f.apply i).queued ≤ i.queued + 1 := by
  cases f <;> simp [queued, Effect.apply, report, tell, instruct, bind] <;> omega

theorem replay_queued (fs : List Effect) (i : Interpreter) : (replay fs i).queued ≤ i.queued + fs.length := by
  induction fs generalizing i with
  | nil => exact Nat.le_refl _
  | cons f fs ih =>
    have hrest : (replay (f :: fs) i).queued ≤ (f.apply i).queued + fs.length := ih (f.apply i)
    have hfirst := apply_queued f i
    rw [List.length_cons]
    omega

/-- Acts fit into a budget of which some steps are taken: there is a step for each of them, or they use
up all steps and the last one is the refusal of a statement more. -/
def Spends (budget taken : Nat) (as : List Act) : Prop :=
  (∀ a ∈ as, a.refuses = false) ∧ taken + as.length ≤ budget ∨
    ∃ bs, as = bs ++ [.cut (.stepsExceeded budget)] ∧ (∀ a ∈ bs, a.refuses = false) ∧ taken + bs.length = budget

theorem Spends.cons {budget taken : Nat} {a : Act} (h : Spends budget (taken + 1) as) (ha : a.refuses = false) :
    Spends budget taken (a :: as) := by
  rcases h with ⟨hnone, hlength⟩ | ⟨bs, rfl, hnone, hlength⟩
  · refine .inl ⟨List.forall_mem_cons.2 ⟨ha, hnone⟩, ?_⟩
    rw [List.length_cons]
    omega
  · refine .inr ⟨a :: bs, rfl, List.forall_mem_cons.2 ⟨ha, hnone⟩, ?_⟩
    rw [List.length_cons]
    omega

theorem Spends.length_le {budget : Nat} (h : Spends budget 0 as) :
    as.length ≤ budget + 1 ∧ as.countP (!·.refuses) ≤ budget := by
  rcases h with ⟨-, hlength⟩ | ⟨bs, rfl, -, hlength⟩
  · have hcount : as.countP (!·.refuses) ≤ as.length := List.countP_le_length
    omega
  · have hcount : bs.countP (!·.refuses) ≤ bs.length := List.countP_le_length
    have hlast : [Act.cut (.stepsExceeded budget)].countP (!·.refuses) = 0 := rfl
    rw [List.length_append, List.countP_append, hlast, List.length_singleton]
    omega

end Interpreter

namespace Machine

variable {m m' : Machine} {as : List Act} {i j : Interpreter} {s : Statement}

/-! ## One step -/

theorem act?_cases (m : Machine) : m.act? = none ∨ ∃ levels s ss fs, m.frames = ⟨levels, s :: ss⟩ :: fs ∧
    m.act? = some (act levels s m.state) := by
  rcases m with ⟨i, _ | ⟨⟨levels, _ | ⟨s, ss⟩⟩, fs⟩⟩
  · exact .inl rfl
  · exact .inl rfl
  · exact .inr ⟨levels, s, ss, fs, rfl, rfl⟩

/-- The step that refuses a statement is the last one of its run. -/
theorem Step.refuses {f : Fault} (h : Step m m') (hact : m.act? = some (.cut f)) : m'.frames = [] := by
  cases h with
  | effect h | enter h => cases (congrArg some h).symm.trans hact
  | cut => rfl
  | leave => cases hact

/-! ## Parts of a run -/

theorem trace_of_nil (h : Trace m as m') (hnil : m.frames = []) : as = [] := by
  cases h with
  | refl => rfl
  | head hstep _ =>
    obtain ⟨i, fs⟩ := m
    obtain rfl : fs = [] := hnil
    exact absurd hstep not_step_of_nil

theorem Trace.mem (h : Trace m as m') : ∀ a ∈ as, ∃ levels s i, a = act levels s i := by
  induction h with
  | refl => exact fun _ ha => absurd ha List.not_mem_nil
  | @head m _ _ _ hstep _ ih =>
    intro a ha
    rcases List.mem_append.1 ha with hfirst | hrest
    · rcases act?_cases m with hnone | ⟨levels, s, ss, fs, -, hsome⟩
      · rw [hnone] at hfirst
        exact absurd hfirst List.not_mem_nil
      · rw [hsome] at hfirst
        exact ⟨levels, s, m.state, List.mem_singleton.1 hfirst⟩
    · exact ih a hrest

/-- Of all acts only refusals report that the steps are used up. -/
theorem Trace.reported (h : Trace m as m') {bs : List Act} (hsub : bs ⊆ as) (hnone : ∀ a ∈ bs, a.refuses = false) :
    ∀ f ∈ reported bs, f.isStepLimit = false := by
  intro f hf
  obtain ⟨a, ha, hfault⟩ := mem_reported.1 hf
  obtain ⟨levels, s, i, rfl⟩ := h.mem a (hsub ha)
  exact (isStepLimit_of_effect? hfault).trans (hnone _ ha)

/-- Every entry in the queues comes from an act. -/
theorem Trace.queued (h : Trace m as m') : m'.state.queued ≤ m.state.queued + as.length := by
  have hsettled := congrArg Interpreter.queued h.settled
  have hend : m'.state.queued = (replay (effects as) m.state.settled).queued := hsettled
  have hreplay : (replay (effects as) m.state.settled).queued ≤ m.state.queued + (effects as).length :=
    replay_queued _ _
  have hlength : (effects as).length ≤ as.length := List.length_filterMap_le ..
  omega

/-- The acts up to the end of a run fit into the budget. -/
theorem Trace.spends (h : Trace m as m') (hsteps : m.state.steps ≤ m.state.limits.steps) :
    Spends m.state.limits.steps m.state.steps as := by
  induction h with
  | refl => exact .inl ⟨fun _ ha => absurd ha List.not_mem_nil, hsteps⟩
  | @head m m' last as hstep htrace ih =>
    rw [hstep.limits, hstep.steps] at ih
    rcases act?_cases m with hnone | ⟨levels, s, ss, fs, -, hsome⟩
    · rw [hnone] at ih ⊢
      exact ih hsteps
    · rw [hsome] at ih ⊢
      rcases act_refuses levels s m.state with ⟨hover, hact⟩ | ⟨hwithin, hact⟩
      · -- nothing is run behind a refusal
        rw [hact] at hsome ⊢
        rw [trace_of_nil htrace (hstep.refuses hsome)]
        exact .inr ⟨[], rfl, fun _ hb => absurd hb List.not_mem_nil, by simp; omega⟩
      · exact (ih hwithin).cons hact

/-! ## Statements of a line -/

/-- What the run of a statement of a line comes to under a budget of steps, where `as` are its acts. -/
structure Budgeted (budget : Nat) (i : Interpreter) (s : Statement) (as : List Act) : Prop where
  /-- The run comes to its end. -/
  ends : ∃ j, Trace (start i s) as ⟨j, []⟩ ∧ j.unwound = i.runStatement s
  /-- What it leaves is what the acts make of the state before. -/
  settled : (i.runStatement s).settled = replay (effects as) i.settled
  /-- No more statements are run than there are steps, those behind names among them. -/
  dispatched : as.countP (!·.refuses) ≤ budget
  /-- The queues grow by one entry more at most. -/
  queued : (i.runStatement s).queued ≤ i.queued + (budget + 1)
  /-- The faults queued are those of the acts. -/
  faults : (i.runStatement s).faults.toList = i.faults.toList ++ Interpreter.reported as
  /-- If it is reported that the steps are used up, then they are, and the report is the last act. -/
  refused : (∀ f ∈ Interpreter.reported as, f.isStepLimit = false) ∨
    ∃ bs, as = bs ++ [.cut (.stepsExceeded budget)] ∧ bs.length = budget ∧ (∀ a ∈ bs, a.refuses = false) ∧
      Interpreter.reported as = Interpreter.reported bs ++ [.stepsExceeded budget] ∧
      ∀ f ∈ Interpreter.reported bs, f.isStepLimit = false
  /-- The count stays next to the budget, and so in a machine word. -/
  counter : ∀ m, Steps (start i s) m →
    m.state.steps ≤ budget + 1 ∧ (budget < UInt64.size - 1 → m.state.steps < UInt64.size)

/-- The step budget bounds the run of every statement of a line, whatever is bound to the names in it,
and the steps taken by the statements in front of it do not count. -/
theorem runStatement_budget (i : Interpreter) (ss : List Statement) (s : Statement) :
    (∃ as, Budgeted i.limits.steps (ss.foldl runStatement i) s as) ∧
      ∀ n, { i with steps := n }.runStatement s = i.runStatement s := by
  refine ⟨?_, fun _ => rfl⟩
  rw [← foldl_limits i ss]
  generalize ss.foldl runStatement i = k
  obtain ⟨as, j, has, hend⟩ := exists_trace k s
  have hspends : Spends k.limits.steps 0 as := has.spends (Nat.zero_le _)
  obtain ⟨hlength, hcount⟩ := hspends.length_le
  have hsettled : (k.runStatement s).settled = replay (effects as) k.settled := by
    rw [← hend]
    exact has.settled
  refine ⟨as, ⟨j, has, hend⟩, hsettled, hcount, ?queued, ?faults, ?refused, ?counter⟩
  case queued =>
    have hqueued : j.queued ≤ k.queued + as.length := has.queued
    rw [← hend]
    exact Nat.le_trans hqueued (Nat.add_le_add_left hlength _)
  case faults => exact (congrArg (·.faults.toList) hsettled).trans (replay_faults ..)
  case refused =>
    rcases hspends with ⟨hnone, -⟩ | ⟨bs, rfl, hnone, hbs⟩
    · exact .inl (has.reported (List.Subset.refl _) hnone)
    · exact .inr ⟨bs, rfl, by omega, hnone, reported_append .., has.reported (List.subset_append_left ..) hnone⟩
  case counter =>
    -- the count only grows, so that at the end bounds it at every moment
    intro m hm
    obtain ⟨cs, hcs⟩ := (Steps.to_end has.steps hm).trace
    have hlater : j.steps = m.state.steps + cs.length := hcs.count
    have hall : j.steps = 0 + as.length := has.count
    omega

/-- The first statement is refused behind its third step, and the second one has all steps again. -/
example :
    let i := ((new ⟨64, 3⟩).runLine "let a = (move 1 && move 2 && move 3)").runLine "a && rotate 1"
    i.faults = #[.stepsExceeded 3] ∧ i.instructions = #[.move 1, .move 2, .rotate 1] := by
  decide +kernel

end Machine

end RobotShell
