import RobotShell.CommandLine

/-!
The program: arguments, files and standard streams around `RobotShell.CommandLine`. A line is
answered before the next one is read.
-/

namespace RobotShell.CommandLine

/-- What a path names. -/
def fileState (path : String) : IO Settings.FileState := do
  try
    return .content (← IO.FS.readBinFile path)
  catch
    | .noFileOrDirectory .. => return .absent
    | _ => return .directory

/-- Reads bytes up to and with the next line feed, or to the end. -/
partial def readLine (input : IO.FS.Stream) (line : List UInt8) : IO (List UInt8) := do
  let chunk ← input.read 1
  if h : 0 < chunk.size then
    let b := chunk[0]
    if b = Utf8.lineFeed then return (b :: line).reverse else readLine input (b :: line)
  else return line.reverse

/-- Runs a session on standard input and output. -/
partial def session (input output : IO.FS.Stream) (c : Console) : IO Unit := do
  output.putStr c.prompt
  output.flush
  let line ← readLine input []
  unless line.isEmpty do
    let (out, c) := c.step (Utf8.decode line) ""
    output.putStr out
    output.flush
    unless c.interpreter.quit do session input output c

/-- Loads the settings that the options ask for, and runs a session. -/
def start (o : Options) : IO UInt32 := do
  let asked ← o.settingsPath.mapM fileState
  let homeDirectory ← IO.getEnv "HOME"
  let homePath := homeDirectory.map (· ++ "/" ++ Settings.homePath)
  let home ← (homePath.mapM fileState : IO (Option Settings.FileState))
  match o.settings (fun _ => asked.getD .absent) (home.getD .absent) with
  | .error e =>
    IO.eprintln (e.message ((o.settingsPath <|> homePath).getD ""))
    return startFailure.toUInt32
  | .ok s =>
    session (← IO.getStdin) (← IO.getStdout) (.new s)
    return 0

/-- The program on a command line. -/
def program (args : List String) : IO UInt32 := do
  match read args with
  | .error e =>
    IO.eprintln ("error: " ++ e.message)
    return usageFailure.toUInt32
  | .ok .version =>
    IO.print versionText
    return 0
  | .ok .help =>
    IO.print usageText
    return 0
  | .ok (.session o) => start o

end RobotShell.CommandLine

def main (args : List String) : IO UInt32 :=
  RobotShell.CommandLine.program args
