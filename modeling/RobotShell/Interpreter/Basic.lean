import RobotShell.Expr
import RobotShell.Fault
import RobotShell.Instruction
import Std.Data.TreeMap

/-!
# The state of the interpreter

What an interpreter remembers between statements: the trees bound to names, three queues of output
and whether it was told to quit. Its limits are set when it is made and stay.
-/

namespace RobotShell

/-- Bounds on what one statement may do: how deep it may follow names, and in how many steps. -/
structure Limits where
  depth : Nat
  steps : Nat
  deriving DecidableEq

namespace Limits

/-- The deepest that names are ever followed. -/
def maxDepth : Nat := 512

/-- The limits where none are asked for. -/
def default : Limits := ⟨64, 10000⟩

/-- The limits nearest to those asked for: a depth from 1 to `maxDepth`, and one step at least. -/
def clamp (l : Limits) : Limits :=
  ⟨max 1 (min l.depth maxDepth), max 1 l.steps⟩

theorem clamp_bounds (l : Limits) :
    1 ≤ l.clamp.depth ∧ l.clamp.depth ≤ maxDepth ∧ 1 ≤ l.clamp.steps := by
  simp only [clamp, maxDepth]
  omega

end Limits

/-- Names bound to unevaluated trees. -/
abbrev Bindings := Std.TreeMap String Expr

/-- The state of an interpreter. -/
structure Interpreter where
  limits : Limits
  bindings : Bindings
  faults : Array Fault
  status : Array String
  instructions : Array Instruction
  /-- Whether a `quit` was run. -/
  quit : Bool
  /-- The steps that the current statement has taken. -/
  steps : Nat
  /-- The names whose statements are being run, the innermost first. -/
  expanding : List Name

namespace Interpreter

/-- An interpreter that remembers nothing, with limits as near as possible to those given. -/
def new (limits : Limits) : Interpreter where
  limits := limits.clamp
  bindings := ∅
  faults := #[]
  status := #[]
  instructions := #[]
  quit := false
  steps := 0
  expanding := []

/-- The tree bound to a text. -/
def binding? (i : Interpreter) (x : String) : Option Expr :=
  i.bindings[x]?

/-- Queues a fault. -/
def report (i : Interpreter) (f : Fault) : Interpreter :=
  { i with faults := i.faults.push f }

/-- Queues a text for the user. -/
def tell (i : Interpreter) (s : String) : Interpreter :=
  { i with status := i.status.push s }

/-- Queues an instruction for the actuator. -/
def instruct (i : Interpreter) (c : Instruction) : Interpreter :=
  { i with instructions := i.instructions.push c }

/-- Binds a name to a tree. -/
def bind (i : Interpreter) (x : Name) (e : Expr) : Interpreter :=
  { i with bindings := i.bindings.insert x.text e }

/-! ## The queues, seen from outside -/

/-- The first element of a queue and the rest. -/
def pop {α : Type} (q : Array α) : Option α × Array α :=
  (q[0]?, q.extract 1)

/-- Takes the oldest fault. -/
def nextFault (i : Interpreter) : Option Fault × Interpreter :=
  let (f, rest) := pop i.faults
  (f, { i with faults := rest })

/-- Takes the oldest status text. -/
def nextStatus (i : Interpreter) : Option String × Interpreter :=
  let (s, rest) := pop i.status
  (s, { i with status := rest })

/-- Takes the oldest instruction. -/
def nextInstruction (i : Interpreter) : Option Instruction × Interpreter :=
  let (c, rest) := pop i.instructions
  (c, { i with instructions := rest })

/-- Takes all faults. -/
def drainFaults (i : Interpreter) : Array Fault × Interpreter :=
  (i.faults, { i with faults := #[] })

/-- Takes all status texts. -/
def drainStatus (i : Interpreter) : Array String × Interpreter :=
  (i.status, { i with status := #[] })

/-- Takes all instructions. -/
def drainInstructions (i : Interpreter) : Array Instruction × Interpreter :=
  (i.instructions, { i with instructions := #[] })

end Interpreter

end RobotShell
