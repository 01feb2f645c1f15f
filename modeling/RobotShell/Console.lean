import RobotShell.Interpreter.Run
import RobotShell.Settings
import RobotShell.Text.Utf8

/-!
# The console

A session over bytes. Before each line the prompt is written, after it everything that the line
produced: the errors, then the status texts, then the instructions, one to a line. The session
ends behind the line that quits, or where the input ends.
-/

namespace RobotShell

/-- An interpreter and how it talks to the user. -/
structure Console where
  interpreter : Interpreter
  settings : Settings

namespace Console

/-- Why a session ended. -/
inductive End where
  | quit
  | endOfInput
  deriving DecidableEq

/-- A console at the start of a session. -/
def new (settings : Settings) : Console :=
  ⟨.new settings.limits, settings⟩

/-- What is written before a line is read. -/
def prompt (c : Console) : String :=
  if c.settings.showPrompt then c.settings.prompt else ""

/-- What stands in the queues, written behind `out`. -/
def render (c : Console) (out : String) : String :=
  let label := c.settings.errorLabel
  let out := c.interpreter.faults.foldl (fun out f => out ++ label ++ f.message ++ "\n") out
  let out := c.interpreter.status.foldl (fun out s => out ++ s ++ "\n") out
  c.interpreter.instructions.foldl (fun out i => out ++ i.text ++ "\n") out

/-- Empties the queues; what stood in them is written behind `out`. -/
def flush (c : Console) (out : String) : String × Console :=
  (c.render out,
    { c with
      interpreter := { c.interpreter with faults := #[], status := #[], instructions := #[] } })

/-- Runs a line; what it produces is written behind `out`. -/
def step (c : Console) (line : String) (out : String) : String × Console :=
  { c with interpreter := c.interpreter.runLine line }.flush out

/-- Runs the lines of a session; what they produce is written behind `out`. -/
def runLines (c : Console) (out : String) : List (List UInt8) → String × End
  | [] => (out ++ c.prompt, .endOfInput)
  | line :: rest =>
    let (out, c) := c.step (Utf8.decode line) (out ++ c.prompt)
    if c.interpreter.quit then (out, .quit) else runLines c out rest

/-- A whole session: everything it writes, and why it ended. -/
def run (settings : Settings) (input : List UInt8) : String × End :=
  (new settings).runLines "" (Utf8.lines input)

end Console

end RobotShell
