import RobotShell.Interpreter.Basic

/-!
# Settings

What a session can be told before it starts: the limits of its interpreter, and how it talks.
-/

namespace RobotShell

/-- The settings of a session. -/
structure Settings where
  limits : Limits
  /-- Written before each line is read. -/
  prompt : String
  showPrompt : Bool
  /-- Written before each error. -/
  errorLabel : String
  deriving DecidableEq

/-- What is wrong with settings that are well formed. -/
inductive Settings.Flaw where
  | depth (given : Nat)
  | steps
  deriving DecidableEq

/-- The flaw in words. -/
def Settings.Flaw.message : Settings.Flaw → String
  | depth given =>
    "max_eval_depth must be between 1 and " ++ toString Limits.maxDepth ++ ", got " ++
      toString given
  | steps => "max_steps must be at least 1"

namespace Settings

/-- The settings where none are given. -/
def default : Settings where
  limits := .default
  prompt := "> "
  showPrompt := true
  errorLabel := "error: "

/-- What is wrong with the settings, if anything is. The depth is looked at first. -/
def flaw? (s : Settings) : Option Flaw :=
  if s.limits.depth < 1 ∨ Limits.maxDepth < s.limits.depth then some (.depth s.limits.depth)
  else if s.limits.steps < 1 then some .steps
  else none

theorem flaw?_eq_none {s : Settings} :
    s.flaw? = none ↔
      1 ≤ s.limits.depth ∧ s.limits.depth ≤ Limits.maxDepth ∧ 1 ≤ s.limits.steps := by
  unfold flaw?
  split
  · simp only [reduceCtorEq, false_iff]
    omega
  · split
    · simp only [reduceCtorEq, false_iff]
      omega
    · simp only [true_iff]
      omega

end Settings

end RobotShell
