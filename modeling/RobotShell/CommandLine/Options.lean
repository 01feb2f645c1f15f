import RobotShell.Decimal
import RobotShell.Interpreter.Basic

/-!
# The command line

Options are read from left to right. A value stands in the same argument as its option or in the
next one, which then may not look like an option. Each option may be given once. Asking for the
help or the version ends the reading at once, so what follows is not even looked at.
-/

namespace RobotShell.CommandLine

/-- What can be said on the command line. -/
structure Options where
  /-- The file with the settings, if it is not the user's own. -/
  settingsPath : Option String
  /-- How deep names may be followed, whatever the settings say. -/
  depth : Option Nat
  noPrompt : Bool
  /-- What is logged. -/
  logFilter : Option String
  deriving DecidableEq

/-- No options. -/
def Options.none : Options :=
  ⟨.none, .none, false, .none⟩

/-- What a command line asks for. -/
inductive Request where
  | session (o : Options)
  | version
  | help
  deriving DecidableEq

/-- Why a command line is refused. -/
inductive UsageError where
  | unknownOption (arg : String)
  | unexpectedArgument (arg : String)
  | missingValue
  | unneededValue
  | invalidValue (value : String)
  | repeated
  deriving DecidableEq

/-- The error in words. -/
def UsageError.message : UsageError → String
  | unknownOption arg => "unknown option '" ++ arg ++ "'"
  | unexpectedArgument arg => "unexpected argument '" ++ arg ++ "'"
  | missingValue => "an option lacks its value"
  | unneededValue => "an option has a value that takes none"
  | invalidValue value => "invalid value '" ++ value ++ "'"
  | repeated => "an option is given twice"

/-- The options. -/
inductive Flag where
  | settingsPath
  | depth
  | logFilter
  | noPrompt
  | version
  | help
  deriving DecidableEq

/-- The option with a long name. -/
def Flag.ofLong? : String → Option Flag
  | "config" => some settingsPath
  | "max-depth" => some depth
  | "log-level" => some logFilter
  | "no-prompt" => some noPrompt
  | "version" => some version
  | "help" => some help
  | _ => .none

/-- The option with a letter. -/
def Flag.ofShort? : Char → Option Flag
  | 'c' => some settingsPath
  | 'V' => some version
  | 'h' => some help
  | _ => .none

/-- Whether an option has a value. -/
def Flag.takesValue : Flag → Bool
  | settingsPath | depth | logFilter => true
  | noPrompt | version | help => false

/-- A depth is a number from 1 to the largest depth there is, with or without a plus sign. -/
def depthOf? (s : String) : Option Nat := do
  let digits := match s.toList with
    | '+' :: rest => rest
    | cs => cs
  guard (!digits.isEmpty && digits.all Char.isDigit)
  let n := Decimal.valueUpTo (Limits.maxDepth + 1) digits
  if 1 ≤ n ∧ n ≤ Limits.maxDepth then some n else .none

/-- Gives a value to an option. -/
def Options.set (o : Options) (f : Flag) (value : String) : Except UsageError Options :=
  match f with
  | .settingsPath =>
    if o.settingsPath.isSome then .error .repeated
    else if value.isEmpty then .error (.invalidValue value)
    else .ok { o with settingsPath := some value }
  | .depth =>
    if o.depth.isSome then .error .repeated
    else
      match depthOf? value with
      | some n => .ok { o with depth := some n }
      | .none => .error (.invalidValue value)
  | .logFilter =>
    if o.logFilter.isSome then .error .repeated else .ok { o with logFilter := some value }
  | .noPrompt | .version | .help => .error .unneededValue

/-- How far the arguments have been read. -/
inductive Progress where
  /-- More arguments may follow. `waiting` is the option whose value comes next. -/
  | options (o : Options) (waiting : Option Flag)
  /-- No more arguments may follow. -/
  | closed (o : Options)
  /-- Nothing that follows matters. -/
  | done (r : Request)
  deriving DecidableEq

/-- Turns on an option without a value. -/
def Options.turnOn (o : Options) (f : Flag) : Except UsageError Progress :=
  match f with
  | .version => .ok (.done .version)
  | .help => .ok (.done .help)
  | .noPrompt =>
    if o.noPrompt then .error .repeated else .ok (.options { o with noPrompt := true } .none)
  | .settingsPath | .depth | .logFilter => .ok (.options o f)

/-- Gives an option the value that stands in the same argument. -/
def Options.attach (o : Options) (f : Flag) (value : List Char) : Except UsageError Progress :=
  (o.set f (String.ofList value)).map (.options · .none)

/-- Reads a group of letters. The first that takes a value takes the rest of the group for it, an
equals sign in front apart. -/
def readLetters (arg : String) : List Char → Options → Except UsageError Progress
  | [], o => .ok (.options o .none)
  | letter :: rest, o =>
    match Flag.ofShort? letter with
    | .none => .error (.unknownOption arg)
    | some f =>
      match f.takesValue, rest with
      | true, '=' :: value => o.attach f value
      | true, c :: value => o.attach f (c :: value)
      | _, _ =>
        match o.turnOn f with
        | .ok (.options o .none) => readLetters arg rest o
        | reached => reached

/-- Reads an option with a long name, with or without a value behind an equals sign. -/
def readLong (arg : String) (body : List Char) (o : Options) : Except UsageError Progress :=
  let name := body.takeWhile (· ≠ '=')
  match Flag.ofLong? (String.ofList name) with
  | .none => .error (.unknownOption arg)
  | some f =>
    match body.drop name.length with
    | [] => o.turnOn f
    | _ :: value => o.attach f value

/-- Reads one argument where no value is waited for. Two dashes alone end the options. -/
def readOption (arg : String) (o : Options) : Except UsageError Progress :=
  match arg.toList with
  | ['-', '-'] => .ok (.closed o)
  | '-' :: '-' :: body => readLong arg body o
  | '-' :: letter :: letters => readLetters arg (letter :: letters) o
  | _ => .error (.unexpectedArgument arg)

/-- Whether an argument looks like an option and so is no value. -/
def looksLikeOption (arg : String) : Bool :=
  match arg.toList with
  | '-' :: _ :: _ => true
  | _ => false

/-- Reads one argument. -/
def Progress.next (p : Progress) (arg : String) : Except UsageError Progress :=
  match p with
  | options o .none => readOption arg o
  | options o (some f) =>
    if looksLikeOption arg then .error .missingValue else o.attach f arg.toList
  | closed _ => .error (.unexpectedArgument arg)
  | done r => .ok (.done r)

/-- What was asked for, once all arguments have been read. -/
def Progress.finish : Progress → Except UsageError Request
  | options o .none | closed o => .ok (.session o)
  | options _ (some _) => .error .missingValue
  | done r => .ok r

/-- Reads the arguments of a command line. -/
def read (args : List String) : Except UsageError Request := do
  (← args.foldlM Progress.next (.options .none .none)).finish

end RobotShell.CommandLine
