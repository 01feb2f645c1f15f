import Mathlib.Data.List.Forall2
import RobotShell.Proofs.Traces
/-!
# Limits only cut off

A limit that is not reached has no influence. As long as no fault tells of one, a run under larger limits
goes through the same states, step by step. The limits stand behind all other questions that are asked
about a name: it is looked up first, and it is unbound, or refers to itself, under any limits.
-/

namespace RobotShell

open Interpreter Relation

namespace Interpreter

/-- Whether an act reports a limit that was reached. -/
def Act.hitsLimit : Act → Bool
  | .effect (.fault f) | .cut f => f.isLimit
  | _ => false

/-- The state under other limits. -/
def limited (i : Interpreter) (l : Limits) : Interpreter := { i with limits := l }

variable {levels levels' : Nat} {s : Statement} {ss : List Statement} {x : Name} {e : Expr} {i : Interpreter} {l : Limits}

/-! ## One statement -/

theorem instruction_limited {build : Int64 → Instruction} (hle : levels ≤ levels')
    (h : (Act.effect (i.instruction levels e build)).hitsLimit = false) :
    (i.limited l).instruction levels' e build = i.instruction levels e build := by
  have hvalue : value i.bindings l.depth levels' [] e = value i.bindings i.limits.depth levels [] e := by
    refine value_mono hle fun f hf => ?_
    rwa [instruction_fault.2 hf] at h
  unfold instruction limited
  rw [hvalue]

theorem actOfName_limited (hle : levels ≤ levels') (h : (actOfName levels x i).hitsLimit = false) :
    actOfName levels' x (i.limited l) = actOfName levels x i := by
  have hb : (i.limited l).binding? x.text = i.binding? x.text := rfl
  unfold actOfName at h ⊢
  rw [hb]
  cases hx : i.binding? x.text with
  | none => rfl
  | some e =>
    simp only [hx] at h ⊢
    by_cases hself : x ∈ i.expanding
    · exact (if_pos hself).trans (if_pos hself).symm
    · rw [if_neg hself] at h ⊢
      rw [if_neg (show x ∉ (i.limited l).expanding from hself)]
      by_cases hlevels : levels = 0
      · rw [if_pos hlevels] at h
        cases h
      · rw [if_neg hlevels, if_neg (by omega)]

/-- Where no limit is reached, a statement comes to the same under larger ones. -/
theorem act_limited (hle : levels ≤ levels') (hsteps : i.limits.steps ≤ l.steps)
    (h : (act levels s i).hitsLimit = false) : act levels' s (i.limited l) = act levels s i := by
  have hname := fun x => actOfName_limited (x := x) (i := i) (l := l) hle
  unfold act at h ⊢
  by_cases hlimit : i.limits.steps < i.steps + 1
  · rw [if_pos hlimit] at h
    cases h
  · have hlimit' : ¬(i.limited l).limits.steps < (i.limited l).steps + 1 := by
      simp only [limited]
      omega
    simp only [if_neg hlimit, if_neg hlimit'] at h ⊢
    cases s with
    | run x => exact hname x h
    | rotate e | move e | buy x e | sell x e => exact congrArg Act.effect (instruction_limited hle h)
    | _ => rfl

theorem apply_limited (f : Effect) (i : Interpreter) (l : Limits) : f.apply (i.limited l) = (f.apply i).limited l := by
  cases f <;> rfl

/-- An act that reports a limit leaves its fault in the queue. -/
theorem mem_faults_of_hitsLimit {f : Effect} (h : (Act.effect f).hitsLimit = true) :
    ∃ g ∈ (f.apply i).faults.toList, g.isLimit = true := by
  cases f with
  | fault g => exact ⟨g, by simp [Effect.apply, report], h⟩
  | _ => cases h

end Interpreter

namespace Machine

/-- No fault in the queue tells of a limit. -/
def Unlimited (m : Machine) : Prop := ∀ f ∈ m.state.faults.toList, f.isLimit = false

/-- `n` is `m` under limits that are not below its own. -/
structure Within (l : Limits) (m n : Machine) : Prop where
  state : n.state = m.state.limited l
  steps : m.state.limits.steps ≤ l.steps
  frames : List.Forall₂ (fun f g => f.levels ≤ g.levels ∧ g.todo = f.todo) m.frames n.frames

variable {l : Limits} {m m' n : Machine} {i j : Interpreter} {s : Statement}

theorem Step.within (hstep : Step m m') (h : Within l m n) (hcalm : Unlimited m') :
    ∃ n', Step n n' ∧ Within l m' n' := by
  obtain ⟨hstate, hsteps, hframes⟩ := h
  obtain ⟨j, gs⟩ := n
  obtain rfl : j = _ := hstate
  cases hstep with
  | @effect i f levels s ss fs hact =>
    have hlimit : (act levels s i).hitsLimit = false := by
      rw [hact, ← Bool.not_eq_true]
      intro hhits
      obtain ⟨g, hg, hbad⟩ := mem_faults_of_hitsLimit (i := i.counted) hhits
      exact Bool.false_ne_true ((hcalm g hg).symm.trans hbad)
    obtain ⟨⟨levels', _⟩, gs, ⟨hle, rfl⟩, hrest, rfl⟩ := List.forall₂_cons_left_iff.1 hframes
    refine ⟨_, .effect ((act_limited hle hsteps hlimit).trans hact), ?_, ?_, .cons ⟨hle, rfl⟩ hrest⟩
    · exact apply_limited f i.counted l
    · rwa [apply_limits]
  | @cut i f levels s ss fs hact =>
    have hlimit : (act levels s i).hitsLimit = false := by
      rw [hact]
      exact hcalm f (by simp [report])
    obtain ⟨⟨levels', _⟩, gs, ⟨hle, rfl⟩, hrest, rfl⟩ := List.forall₂_cons_left_iff.1 hframes
    exact ⟨_, .cut ((act_limited hle hsteps hlimit).trans hact), rfl, hsteps, .nil⟩
  | @enter i x e levels s ss fs hact =>
    have hlimit : (act levels s i).hitsLimit = false := by
      rw [hact]
      rfl
    obtain ⟨⟨levels', _⟩, gs, ⟨hle, rfl⟩, hrest, rfl⟩ := List.forall₂_cons_left_iff.1 hframes
    exact ⟨_, .enter ((act_limited hle hsteps hlimit).trans hact), rfl, hsteps,
      .cons ⟨Nat.sub_le_sub_right hle 1, rfl⟩ (.cons ⟨hle, rfl⟩ hrest)⟩
  | leave =>
    obtain ⟨⟨levels', _⟩, gs, ⟨hle, rfl⟩, hrest, rfl⟩ := List.forall₂_cons_left_iff.1 hframes
    exact ⟨_, .leave, rfl, hsteps, hrest⟩

/-- Faults are never taken back, so a run whose end knows of no limit met none on the way. -/
theorem Steps.within (hsteps : Steps m m') (h : Within l m n) (hcalm : Unlimited m') :
    ∃ n', Steps n n' ∧ Within l m' n' := by
  induction hsteps using ReflTransGen.head_induction_on generalizing n with
  | refl => exact ⟨n, .refl, h⟩
  | head hstep hrest ih =>
    have hcalm' : Unlimited _ := fun f hf => hcalm f ((Steps.faults hrest).subset hf)
    obtain ⟨n', hstep', h'⟩ := hstep.within h hcalm'
    obtain ⟨n'', hrest', h''⟩ := ih h'
    exact ⟨n'', .head hstep' hrest', h''⟩

end Machine

namespace Interpreter

open Machine

variable {i : Interpreter} {s : Statement} {ss : List Statement} {l : Limits}

/-! ## Statements of a line -/

theorem runStatement_limited (hdepth : i.limits.depth ≤ l.depth) (hsteps : i.limits.steps ≤ l.steps)
    (hcalm : ∀ f ∈ (i.runStatement s).faults.toList, f.isLimit = false) :
    (i.limited l).runStatement s = (i.runStatement s).limited l := by
  obtain ⟨j, hj, hend⟩ := start_reaches i s
  rw [← hend] at hcalm ⊢
  have hstart : Within l (start i s) (start (i.limited l) s) := ⟨rfl, hsteps, .cons ⟨hdepth, rfl⟩ .nil⟩
  obtain ⟨⟨_, fs⟩, hrun, hstate, -, hframes⟩ := Steps.within hj hstart hcalm
  obtain rfl : _ = j.limited l := hstate
  obtain rfl : fs = [] := List.forall₂_nil_left_iff.1 hframes
  exact runStatement_of_steps hrun

theorem runStatements_limited (hdepth : i.limits.depth ≤ l.depth) (hsteps : i.limits.steps ≤ l.steps)
    (hcalm : ∀ f ∈ (ss.foldl runStatement i).faults.toList, f.isLimit = false) :
    ss.foldl runStatement (i.limited l) = (ss.foldl runStatement i).limited l := by
  induction ss generalizing i with
  | nil => rfl
  | cons s ss ih =>
    have hfirst : ∀ f ∈ (i.runStatement s).faults.toList, f.isLimit = false :=
      fun f hf => hcalm f ((foldl_faults ss _).subset hf)
    have hlimits : (i.runStatement s).limits = i.limits := runStatement_limits i s
    rw [List.foldl_cons, runStatement_limited hdepth hsteps hfirst]
    exact ih (hlimits ▸ hdepth) (hlimits ▸ hsteps) hcalm

/-! ## Lines -/

theorem runLines_eq (i : Interpreter) (lines : List String) :
    lines.foldl runLine i = (lines.flatMap lineStatements).foldl runStatement i := by
  induction lines generalizing i with
  | nil => rfl
  | cons line lines ih => rw [List.foldl_cons, ih, runLine_eq, List.flatMap_cons, List.foldl_append]

/-- If a session never reaches its limits, it is behind every line in the state in which it would be
under any larger limits. -/
theorem runLines_limits (l₁ l₂ : Limits) (hdepth : l₁.clamp.depth ≤ l₂.clamp.depth)
    (hsteps : l₁.clamp.steps ≤ l₂.clamp.steps) (lines : List String)
    (hcalm : ∀ f ∈ (lines.foldl runLine (new l₁)).faults, f.isLimit = false) (n : Nat) :
    (lines.take n).foldl runLine (new l₂) = { (lines.take n).foldl runLine (new l₁) with limits := l₂.clamp } := by
  have hfirst : ∀ f ∈ ((lines.take n).foldl runLine (new l₁)).faults.toList, f.isLimit = false := by
    intro f hf
    refine hcalm f (Array.mem_toList_iff.1 ?_)
    rw [← List.take_append_drop n lines, List.foldl_append, runLines_eq]
    exact (foldl_faults _ _).subset hf
  rw [runLines_eq] at hfirst
  rw [runLines_eq, runLines_eq]
  exact runStatements_limited (i := new l₁) (l := l₂.clamp) hdepth hsteps hfirst

/-- Names that are unbound or refer to themselves are so under any limits. -/
theorem runLines_limits_cycle :
    ∃ lines : List String,
      (lines.foldl runLine (new ⟨2, 3⟩)).faults = #[.selfReference ⟨"x"⟩, .unknownVariable ⟨"y"⟩, .selfReference ⟨"x"⟩] ∧
      ∀ n, (lines.take n).foldl runLine (new ⟨600, 20⟩) =
        { (lines.take n).foldl runLine (new ⟨2, 3⟩) with limits := ⟨512, 20⟩ } := by
  refine ⟨["let x = x", "let go = (move x && y)", "go && x"], by decide +kernel, fun n => ?_⟩
  exact runLines_limits ⟨2, 3⟩ ⟨600, 20⟩ (by decide) (by decide) _ (by decide +kernel) n

end Interpreter

end RobotShell
