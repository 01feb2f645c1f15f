import RobotShell.Proofs.Traces
/-!
# Runs from states with the same memory

A statement looks at the limits, at the bindings and at the names that it is inside of. It looks neither
at what is queued nor at the quit flag. So two states that agree on the former have the same runs, act
by act, however the latter differ.
-/

namespace RobotShell

open Interpreter Relation

namespace Interpreter

/-- Two states that agree on what statements look at. -/
structure Twins (i j : Interpreter) : Prop where
  limits : j.limits = i.limits
  expanding : j.expanding = i.expanding
  binding? : ∀ x, j.binding? x = i.binding? x

variable {i j : Interpreter} {levels : Nat} {s : Statement}

/-! ## One statement -/

theorem value_congr {b b' : Bindings} (h : ∀ x : String, b'[x]? = b[x]?) (limit levels : Nat) (seen : List Name)
    (e : Expr) : value b' limit levels seen e = value b limit levels seen e := by
  fun_induction value b limit levels seen e with
  | case1 levels seen n => unfold value; rfl
  | case2 levels seen x hseen => simp only [value, if_pos hseen]
  | case3 levels seen x hseen hnone => simp only [value, if_neg hseen, h, hnone]
  | case4 seen x hseen e hsome => simp only [value, if_neg hseen, h, hsome]
  | case5 seen x hseen e hsome levels ih => simp only [value, if_neg hseen, h, hsome, ih]
  | case6 levels seen e hint hname =>
    unfold value
    split <;> simp_all

/-- A statement comes to the same in both states. -/
theorem act_twins (h : Twins i j) (hsteps : j.steps = i.steps) : act levels s j = act levels s i := by
  have hvalue : ∀ e build, j.instruction levels e build = i.instruction levels e build := by
    intro e build
    unfold instruction
    rw [value_congr h.binding?, h.limits]
  have htext : ∀ x, j.text x = i.text x := by
    intro x
    unfold text
    rw [h.binding?]
  have hname : ∀ x, actOfName levels x j = actOfName levels x i := by
    intro x
    unfold actOfName
    rw [h.binding?, h.expanding, h.limits]
  unfold act
  simp only [h.limits, hsteps, hvalue, htext, hname]

theorem Twins.apply (h : Twins i j) (f : Effect) : Twins (f.apply i) (f.apply j) where
  limits := by rw [apply_limits, apply_limits, h.limits]
  expanding := by rw [apply_expanding, apply_expanding, h.expanding]
  binding? := by
    intro y
    cases f with
    | bind x e => simp only [Effect.apply, bind_binding?, h.binding? y]
    | _ => exact h.binding? y

theorem Twins.counted (h : Twins i j) : Twins i.counted j.counted := ⟨h.limits, h.expanding, h.binding?⟩

theorem Twins.entered (h : Twins i j) (x : Name) : Twins (i.entered x) (j.entered x) :=
  ⟨h.limits, congrArg (x :: ·) h.expanding, h.binding?⟩

theorem Twins.left (h : Twins i j) : Twins i.left j.left := ⟨h.limits, congrArg List.tail h.expanding, h.binding?⟩

theorem Twins.unwound (h : Twins i j) : Twins i.unwound j.unwound := ⟨h.limits, rfl, h.binding?⟩

end Interpreter

namespace Machine

/-- Two moments with the same left to run, in states that agree on what it looks at. -/
structure Abreast (m n : Machine) : Prop where
  state : Twins m.state n.state
  steps : n.state.steps = m.state.steps
  frames : n.frames = m.frames

variable {m m' n : Machine} {as : List Act} {i j k : Interpreter} {s : Statement}

theorem Abreast.act? (h : Abreast m n) : n.act? = m.act? := by
  obtain ⟨i, fs⟩ := m
  obtain ⟨j, fs'⟩ := n
  obtain rfl : fs' = fs := h.frames
  match fs' with
  | [] | ⟨_, []⟩ :: _ => rfl
  | ⟨levels, s :: _⟩ :: _ => exact congrArg some (act_twins h.state h.steps)

/-- Two runs that are abreast stay so. -/
theorem Step.abreast (hstep : Step m m') (h : Abreast m n) : ∃ n', Step n n' ∧ Abreast m' n' := by
  obtain ⟨hstate, hsteps, hframes⟩ := h
  obtain ⟨j, fs'⟩ := n
  cases hstep with
  | @effect i f levels s ss fs hact =>
    obtain rfl : fs' = _ := hframes
    refine ⟨_, .effect ((act_twins hstate hsteps).trans hact), hstate.counted.apply f, ?_, rfl⟩
    rw [apply_steps, apply_steps]
    exact congrArg (· + 1) hsteps
  | cut hact =>
    obtain rfl : fs' = _ := hframes
    exact ⟨_, .cut ((act_twins hstate hsteps).trans hact), hstate.counted.apply (.fault _), congrArg (· + 1) hsteps, rfl⟩
  | enter hact =>
    obtain rfl : fs' = _ := hframes
    exact ⟨_, .enter ((act_twins hstate hsteps).trans hact), hstate.counted.entered _, congrArg (· + 1) hsteps, rfl⟩
  | leave =>
    obtain rfl : fs' = _ := hframes
    exact ⟨_, .leave, hstate.left, hsteps, rfl⟩

theorem Trace.abreast (htrace : Trace m as m') (h : Abreast m n) : ∃ n', Trace n as n' ∧ Abreast m' n' := by
  induction htrace generalizing n with
  | refl => exact ⟨n, .refl, h⟩
  | head hstep _ ih =>
    obtain ⟨n', hstep', h'⟩ := hstep.abreast h
    obtain ⟨n'', htrace', h''⟩ := ih h'
    exact ⟨n'', h.act? ▸ .head hstep' htrace', h''⟩

/-- A statement of a line has the same acts in both states, and leaves states that agree. -/
theorem Trace.twins (htrace : Trace (start i s) as ⟨k, []⟩) (h : Twins i j) :
    (∃ k', Trace (start j s) as ⟨k', []⟩) ∧ Twins (i.runStatement s) (j.runStatement s) := by
  have hstart : Abreast (start i s) (start j s) := by
    refine ⟨⟨h.limits, h.expanding, h.binding?⟩, rfl, ?_⟩
    simp only [start, h.limits]
  obtain ⟨⟨k', fs⟩, htrace', hstate, -, hframes⟩ := htrace.abreast hstart
  obtain rfl : fs = [] := hframes
  refine ⟨⟨k', htrace'⟩, ?_⟩
  rw [runStatement_of_steps htrace.steps, runStatement_of_steps htrace'.steps]
  exact hstate.unwound

end Machine

namespace Interpreter

variable {i j : Interpreter} {ss : List Statement} {as : List Act}

/-- Whole statements have the same acts in both states, and leave states that agree. -/
theorem Does.twins (hdoes : i.Does ss as) (h : Twins i j) :
    j.Does ss as ∧ Twins (ss.foldl runStatement i) (ss.foldl runStatement j) := by
  induction hdoes generalizing j with
  | nil => exact ⟨.nil, h⟩
  | cons htrace _ ih =>
    obtain ⟨⟨k', htrace'⟩, hnext⟩ := htrace.twins h
    obtain ⟨hdoes', hend⟩ := ih hnext
    exact ⟨.cons htrace' hdoes', hend⟩

end Interpreter

end RobotShell
