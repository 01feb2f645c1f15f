import RobotShell.CommandLine.Options
import RobotShell.Console
import RobotShell.Settings.Read

/-!
# The program

What the program writes and how it exits, given its arguments, the files it may read and its input.
A command line that cannot be read exits with 2, settings that cannot be loaded with 1.
-/

namespace RobotShell.CommandLine

/-- What is written when the version is asked for. -/
def versionText : String := "robobrain 0.1.0\n"

/-- What is written when help is asked for. -/
def usageText : String :=
  "Interpret robot movement and trade commands one line at a time\n\n" ++
  "Usage: robobrain [OPTIONS]\n\n" ++
  "Options:\n" ++
  "  -c, --config <CONFIG>        Config file (default: ~/.robobrain/config.yaml)\n" ++
  "      --max-depth <MAX_DEPTH>  Maximum nesting depth for variable evaluation (1-512)\n" ++
  "      --no-prompt              Do not print a prompt (for piping into an actuator)\n" ++
  "      --log-level <LOG_LEVEL>  Log filter, e.g. \"debug\" or \"robobrain=trace\" [default: warn]\n" ++
  "  -h, --help                   Print help\n" ++
  "  -V, --version                Print version\n"

/-- The settings changed as the options ask. -/
def Options.override (o : Options) (s : Settings) : Settings :=
  { s with
    limits := { s.limits with depth := o.depth.getD s.limits.depth }
    showPrompt := s.showPrompt && !o.noPrompt }

/-- The settings of a session: from the file that is asked for or the user's own, then changed as
the options ask. -/
def Options.settings (o : Options) (file : String → Settings.FileState)
    (home : Settings.FileState) : Except Settings.LoadError Settings :=
  (match o.settingsPath with
    | some path => Settings.load (file path)
    | .none => Settings.loadHome home).map o.override

/-- What a run of the program shows. -/
structure Outcome where
  out : String
  code : UInt8
  deriving DecidableEq

/-- The exit code of a run that cannot start. -/
def startFailure : UInt8 := 1

/-- The exit code where the command line cannot be read. -/
def usageFailure : UInt8 := 2

/-- A run of the program. -/
def run (args : List String) (file : String → Settings.FileState) (home : Settings.FileState)
    (input : List UInt8) : Outcome :=
  match read args with
  | .error _ => ⟨"", usageFailure⟩
  | .ok .version => ⟨versionText, 0⟩
  | .ok .help => ⟨usageText, 0⟩
  | .ok (.session o) =>
    match o.settings file home with
    | .error _ => ⟨"", startFailure⟩
    | .ok s => ⟨(Console.run s input).1, 0⟩

end RobotShell.CommandLine
