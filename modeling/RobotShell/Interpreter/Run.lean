import RobotShell.Expr.Display
import RobotShell.Expr.Parse
import RobotShell.Interpreter.Basic
import RobotShell.Statement

/-!
# Running statements

A name is bound to a tree, not to a value: what it stands for is found when it is used. As a
statement it runs the statements bound to it; as an operand it has the number that it leads to.
Three guards keep that finite. A name may not be reached again while it is being followed, names
are followed no deeper than a limit, and each statement of a line may take so many steps, with all
those it runs. Where a guard trips on a statement, all that the statement of the line has still to run
is abandoned. Where one trips on an operand, that is reported as any other fault of an operand is: no
instruction is queued, and the run goes on with the next statement.
-/

namespace RobotShell.Interpreter

/-- What `help` tells. -/
def helpText : String :=
  "help\n -> list available commands\n" ++
  "let name = expr\n -> save an expression\n" ++
  "move (name|number)\n -> move a certain distance\n" ++
  "rotate (name|number)\n -> rotate by a certain angle"

/-- The number that an operand leads to. `levels` is how many names may still be followed, `seen`
holds those followed so far, and `limit` is the limit to blame. -/
def value (bindings : Bindings) (limit : Nat) : Nat → List Name → Expr → Except Fault Int64
  | _, _, .int n => .ok n
  | levels, seen, .name x =>
    if x ∈ seen then .error (.selfReference x)
    else
      match bindings[x.text]? with
      | none => .error (.unknownVariable x)
      | some e =>
        match levels with
        | 0 => .error (.depthExceeded x limit)
        | levels + 1 => value bindings limit levels (x :: seen) e
  | _, _, e => .error (.notALiteral e.display)

/-- Whether a statement goes on to the next one or is abandoned. -/
inductive Flow where
  | goOn
  | halt
  deriving DecidableEq

/-- Goes on in a state. -/
def goOn (i : Interpreter) : Interpreter × Flow := (i, .goOn)

/-- Abandons the statement for a reason. -/
def abandon (i : Interpreter) (f : Fault) : Interpreter × Flow := (i.report f, .halt)

/-- Queues the instruction made of an operand's number, or the reason why it has none. -/
def instructWith (i : Interpreter) (levels : Nat) (e : Expr) (build : Int64 → Instruction) :
    Interpreter :=
  match value i.bindings i.limits.depth levels [] e with
  | .ok n => i.instruct (build n)
  | .error f => i.report f

/-- What a statement does, apart from being counted. `levels` is how many names may be followed
from here, and `follow` runs what is bound to a name. -/
def perform (follow : Name → Interpreter → Interpreter × Flow) (levels : Nat) (s : Statement)
    (i : Interpreter) : Interpreter × Flow :=
  match s with
  | .malformed message col => (i.report (.malformed message col)).goOn
  | .unrecognized _ => (i.report .unrecognized).goOn
  | .quit => { i with quit := true }.goOn
  | .stop => { i with instructions := #[.stop] }.goOn
  | .assign x e => (i.bind x e).goOn
  | .run x => follow x i
  | .help => (i.tell helpText).goOn
  | .echo x =>
    match i.binding? x.text with
    | some e => (i.tell e.display).goOn
    | none => (i.report (.unknownVariable x)).goOn
  | .rotate e => (i.instructWith levels e .rotate).goOn
  | .move e => (i.instructWith levels e .move).goOn
  | .buy x e => (i.instructWith levels e (.buy x)).goOn
  | .sell x e => (i.instructWith levels e (.sell x)).goOn
  | .inventory => (i.instruct .inventory).goOn
  | .marketPrices => (i.instruct .marketPrices).goOn
  | .cityPrices => (i.instruct .cityPrices).goOn

/-- Runs one statement, which counts as a step. -/
def dispatch (follow : Name → Interpreter → Interpreter × Flow) (levels : Nat) (s : Statement)
    (i : Interpreter) : Interpreter × Flow :=
  let i := { i with steps := i.steps + 1 }
  if i.limits.steps < i.steps then i.abandon (.stepsExceeded i.limits.steps)
  else perform follow levels s i

/-- Runs statements in order, as long as none is abandoned. -/
def runAll (run : Statement → Interpreter → Interpreter × Flow) :
    List Statement → Interpreter → Interpreter × Flow
  | [], i => i.goOn
  | s :: rest, i =>
    match run s i with
    | (i, .goOn) => runAll run rest i
    | (i, .halt) => (i, .halt)

/-- Runs what is bound to a name, from where so many names may still be followed. -/
def follow : Nat → Name → Interpreter → Interpreter × Flow
  | levels, x, i =>
    match i.binding? x.text with
    | none => (i.report (.unknownVariable x)).goOn
    | some e =>
      if x ∈ i.expanding then i.abandon (.selfReference x)
      else
        match levels with
        | 0 => i.abandon (.depthExceeded x i.limits.depth)
        | levels + 1 =>
          let outer := i.expanding
          let (i, flow) := runAll (dispatch (follow levels) levels) e.statements
            { i with expanding := x :: outer }
          ({ i with expanding := i.expanding.tail }, flow)

/-- Runs one statement of a line, with a step budget of its own. -/
def runStatement (i : Interpreter) (s : Statement) : Interpreter :=
  let levels := i.limits.depth
  let (i, _) := dispatch (follow levels) levels s { i with steps := 0 }
  { i with expanding := [] }

/-- Runs every statement of a tree. -/
def runTree (i : Interpreter) (e : Expr) : Interpreter :=
  e.statements.foldl runStatement i

/-- Reads and runs a line. -/
def runLine (i : Interpreter) (line : String) : Interpreter :=
  match Expr.ofString? line with
  | none => i
  | some e => i.runTree e

/-- The number that a tree leads to; where there is none, the reason is queued. -/
def evaluate (i : Interpreter) (e : Expr) : Option Int64 × Interpreter :=
  match value i.bindings i.limits.depth i.limits.depth [] e with
  | .ok n => (some n, i)
  | .error f => (none, i.report f)

end RobotShell.Interpreter
