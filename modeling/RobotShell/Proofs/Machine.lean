import Mathlib.Logic.Relation
import RobotShell.Proofs.Effects
/-!
# Runs, one statement at a time

The run of a statement as a sequence of states. What is left to run stands on a stack, with one frame
for each name entered. The machine ends where `runStatement` does, so what holds of each of its steps
holds of every moment of a run.
-/

namespace RobotShell

open Interpreter Relation

/-- Statements left to run, from where so many names may still be followed. -/
structure Frame where
  levels : Nat
  todo : List Statement

/-- A moment of a run. The frame on top is that of the name entered last. -/
structure Machine where
  state : Interpreter
  frames : List Frame

namespace Machine

/-- The next statement is run as `act` says, or a frame with none is left. -/
inductive Step : Machine → Machine → Prop where
  | effect {i f levels s ss fs} (h : act levels s i = .effect f) :
    Step ⟨i, ⟨levels, s :: ss⟩ :: fs⟩ ⟨f.apply i.counted, ⟨levels, ss⟩ :: fs⟩
  | cut {i f levels s ss fs} (h : act levels s i = .cut f) :
    Step ⟨i, ⟨levels, s :: ss⟩ :: fs⟩ ⟨i.counted.report f, []⟩
  | enter {i x e levels s ss fs} (h : act levels s i = .enter x e) :
    Step ⟨i, ⟨levels, s :: ss⟩ :: fs⟩
      ⟨i.counted.entered x, ⟨levels - 1, e.statements⟩ :: ⟨levels, ss⟩ :: fs⟩
  | leave {i levels fs} : Step ⟨i, ⟨levels, []⟩ :: fs⟩ ⟨i.left, fs⟩

/-- Any number of steps. -/
abbrev Steps : Machine → Machine → Prop := ReflTransGen Step

/-- The first moment of the run of a statement of a line. -/
def start (i : Interpreter) (s : Statement) : Machine :=
  ⟨{ i with steps := 0 }, [⟨i.limits.depth, [s]⟩]⟩

variable {levels : Nat} {fs : List Frame} {m m' : Machine} {p : Interpreter × Flow}

/-! ## Only one run -/

theorem Step.unique : Relator.RightUnique Step := by
  intro m m₁ m₂ h₁ h₂
  cases h₁ <;> cases h₂ <;> simp_all

theorem not_step_of_nil {j : Interpreter} : ¬Step ⟨j, []⟩ m := by
  rintro ⟨⟩

/-- Every moment of a run comes before its end. -/
theorem Steps.to_end {j : Interpreter} (h : Steps m ⟨j, []⟩) (h' : Steps m m') : Steps m' ⟨j, []⟩ := by
  rcases ReflTransGen.total_of_right_unique Step.unique h h' with hend | hend
  · rcases ReflTransGen.cases_head hend with rfl | ⟨m'', hstep, -⟩
    · exact .refl
    · exact absurd hstep not_step_of_nil
  · exact hend

/-! ## The machine runs statements -/

/-- The machine comes from `m` to where a run ends with `p`. If the run goes on, `fs` is left. -/
def Reaches (m : Machine) (p : Interpreter × Flow) (fs : List Frame) : Prop :=
  match p.2 with
  | .goOn => Steps m ⟨p.1, fs⟩
  | .halt => ∃ j, Steps m ⟨j, []⟩ ∧ j.unwound = p.1.unwound

theorem Reaches.head (h : Steps m m') (h' : Reaches m' p fs) : Reaches m p fs := by
  obtain ⟨k, flow⟩ := p
  cases flow with
  | goOn => exact h.trans h'
  | halt =>
    obtain ⟨j, hj, hk⟩ := h'
    exact ⟨j, h.trans hj, hk⟩

theorem Reaches.leave (h : Reaches m p (⟨levels, []⟩ :: fs)) : Reaches m (p.1.left, p.2) fs := by
  obtain ⟨k, flow⟩ := p
  cases flow with
  | goOn => exact ReflTransGen.tail h .leave
  | halt => exact h

theorem Reaches.to_end (h : Reaches m p []) : ∃ j, Steps m ⟨j, []⟩ ∧ j.unwound = p.1.unwound := by
  obtain ⟨k, flow⟩ := p
  cases flow with
  | goOn => exact ⟨k, h, rfl⟩
  | halt => exact h

theorem runBody_reaches
    (hrun : ∀ s ss i fs, Reaches ⟨i, ⟨levels, s :: ss⟩ :: fs⟩ (dispatch (follow levels) levels s i)
      (⟨levels, ss⟩ :: fs))
    (ss : List Statement) (i : Interpreter) (fs : List Frame) :
    Reaches ⟨i, ⟨levels, ss⟩ :: fs⟩ (runBody levels ss i) (⟨levels, []⟩ :: fs) := by
  induction ss generalizing i with
  | nil => exact ReflTransGen.refl
  | cons s ss ih =>
    have hs := hrun s ss i fs
    unfold runBody
    cases hflow : (dispatch (follow levels) levels s i).2 with
    | goOn =>
      rw [runAll_goOn hflow]
      rw [Reaches, hflow] at hs
      exact .head hs (ih _)
    | halt =>
      rw [runAll_halt hflow, Reaches, hflow]
      rwa [Reaches, hflow] at hs

theorem dispatch_reaches (levels : Nat) (s : Statement) (ss : List Statement) (i : Interpreter) (fs : List Frame) :
    Reaches ⟨i, ⟨levels, s :: ss⟩ :: fs⟩ (dispatch (follow levels) levels s i) (⟨levels, ss⟩ :: fs) := by
  induction levels using Nat.strongRecOn generalizing s ss i fs with
  | ind levels ih =>
    rw [dispatch_eq]
    cases hact : act levels s i with
    | effect f => exact ReflTransGen.single (.effect hact)
    | cut f => exact ⟨_, .single (.cut hact), rfl⟩
    | enter x e =>
      -- the body runs in a frame of its own, which is left behind its last statement
      have hlevels := (act_enter hact).2.2.2
      have hbody := runBody_reaches (ih (levels - 1) (by omega)) e.statements (i.counted.entered x)
        (⟨levels, ss⟩ :: fs)
      exact .head (.single (.enter hact)) hbody.leave

/-- The run of a statement of a line ends in the state that `runStatement` gives. -/
theorem start_reaches (i : Interpreter) (s : Statement) :
    ∃ j, Steps (start i s) ⟨j, []⟩ ∧ j.unwound = i.runStatement s := by
  obtain ⟨j, hj, hend⟩ := (dispatch_reaches i.limits.depth s [] { i with steps := 0 } []).leave.to_end
  exact ⟨j, hj, hend.trans (runStatement_eq i s).symm⟩

end Machine

end RobotShell
