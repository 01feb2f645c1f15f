import RobotShell.Settings
import RobotShell.Unicode.WhiteSpace
import RobotShell.Yaml.Event

/-!
# Reading settings

Settings are written as a YAML mapping. A setting that is left out has its default, one that is
given twice is an error, and keys that are no settings are skipped. Counts and switches are plain
scalars in their exact spellings; the other settings are texts, and any scalar is one.
-/

namespace RobotShell

namespace Yaml.Scalar

/-- The number that digits in a base stand for, below `2 ^ 64`. -/
def digitsValue? (base : Nat) (ds : List Char) : Option Nat := do
  guard !ds.isEmpty
  let n ← ds.foldlM (fun n d => do
    let v ← hexDigit? d
    guard (v < base)
    return min (Nat.pow 2 64) (base * n + v)) 0
  guard (n < Nat.pow 2 64)
  return n

/-- The number that a word stands for. In base ten a number has no leading zero; the other bases
have a mark. -/
def count? (word : List Char) : Option Nat :=
  let digits := match word with
    | '+' :: rest => rest
    | _ => word
  match digits with
  | '0' :: 'x' :: rest => digitsValue? 16 rest
  | '0' :: 'o' :: rest => digitsValue? 8 rest
  | '0' :: 'b' :: rest => digitsValue? 2 rest
  | '0' :: _ :: _ => none
  | _ => digitsValue? 10 digits

/-- Whether the scalar may stand for something else than a text: because it is plain, or because its
tag says so where it is a literal block. -/
def isTyped (s : Scalar) (tag : Tag) : Bool :=
  match s.style with
  | .plain => true
  | .literal => s.tag == some tag
  | _ => false

/-- The number that the scalar stands for. -/
def nat? (s : Scalar) : Option Nat :=
  if s.isTyped .int then count? s.text.toList else none

/-- The truth value that the scalar stands for. -/
def bool? (s : Scalar) : Option Bool :=
  if s.isTyped .bool then
    if s.text ∈ ["true", "True", "TRUE"] then some true
    else if s.text ∈ ["false", "False", "FALSE"] then some false
    else none
  else none

end Yaml.Scalar

namespace Settings

open Yaml (Event Scalar)

/-- The settings that have been read. -/
structure Given where
  depth : Option Nat
  steps : Option Nat
  prompt : Option String
  showPrompt : Option Bool
  errorLabel : Option String

/-- Nothing has been read. -/
def Given.none : Given :=
  ⟨.none, .none, .none, .none, .none⟩

/-- The settings with defaults for what has not been read. -/
def Given.settings (g : Given) : Settings where
  limits := ⟨g.depth.getD default.limits.depth, g.steps.getD default.limits.steps⟩
  prompt := g.prompt.getD default.prompt
  showPrompt := g.showPrompt.getD default.showPrompt
  errorLabel := g.errorLabel.getD default.errorLabel

/-- Fills a setting that has not been given before. -/
def fill {α : Type} (before now : Option α) (set : Option α → Given) : Option Given :=
  if before.isSome || now.isNone then .none else some (set now)

/-- Takes up a key and the scalar that is its value, if the key is a setting. -/
def Given.take (g : Given) (key : String) (value : Option Scalar) : Option (Option Given) :=
  match key with
  | "max_eval_depth" => some (fill g.depth (value.bind Scalar.nat?) fun n => { g with depth := n })
  | "max_steps" => some (fill g.steps (value.bind Scalar.nat?) fun n => { g with steps := n })
  | "prompt" => some (fill g.prompt (value.map (·.text)) fun s => { g with prompt := s })
  | "show_prompt" =>
    some (fill g.showPrompt (value.bind Scalar.bool?) fun b => { g with showPrompt := b })
  | "error_prefix" =>
    some (fill g.errorLabel (value.map (·.text)) fun s => { g with errorLabel := s })
  | _ => .none

/-- The events behind one node; `opened` counts the collections that are open. -/
def skipNode : Nat → List Event → List Event
  | _, [] => []
  | opened, e :: rest =>
    match e with
    | .sequenceStart | .mappingStart => skipNode (opened + 1) rest
    | .sequenceEnd | .mappingEnd => if opened ≤ 1 then rest else skipNode (opened - 1) rest
    | .scalar _ | .alias _ => if opened = 0 then rest else skipNode opened rest

/-- Reads the keys and values of the mapping up to its end. Each pair takes two events at least. -/
def readPairs : List Event → Given → List Event → Option Given
  | _ :: budget, g, .scalar key :: rest =>
    let value := match rest with
      | .scalar s :: _ => some s
      | _ => .none
    match g.take key.text value with
    | .none => readPairs budget g (skipNode 0 rest)
    | some .none => .none
    | some (some g) => readPairs budget g rest.tail
  | _, g, [.mappingEnd] => some g
  | _, _, _ => .none

/-- The settings that a document holds. An empty one holds none. -/
def ofDocument? : List Event → Option Settings
  | [.scalar s] => if s.style = .plain ∧ s.text = "" then some default else .none
  | .mappingStart :: rest => (readPairs rest .none rest).map Given.settings
  | _ => .none

/-- The settings that a text holds, unless it is malformed. -/
def ofYaml? (s : String) : Option Settings :=
  if s.toList.all Unicode.isWhiteSpace then some default
  else
    match Yaml.documents? s with
    | some [] => some default
    | some [events] => ofDocument? events
    | _ => .none

/-- Why settings could not be loaded from a file. -/
inductive LoadError where
  | unreadable
  | malformed
  | flawed (flaw : Flaw)
  deriving DecidableEq

/-- What the user is told about a file whose settings could not be loaded. -/
def LoadError.message (path : String) : LoadError → String
  | unreadable => "could not read " ++ path
  | malformed => "invalid config " ++ path
  | flawed flaw => "invalid config " ++ path ++ ": " ++ flaw.message

/-- What a path names. -/
inductive FileState where
  | absent
  | directory
  | content (bytes : ByteArray)

/-- The settings of a file, which has to exist. -/
def load : FileState → Except LoadError Settings
  | .content bytes =>
    match String.fromUTF8? bytes with
    | .none => .error .unreadable
    | some text =>
      match ofYaml? text with
      | .none => .error .malformed
      | some s =>
        match s.flaw? with
        | .none => .ok s
        | some flaw => .error (.flawed flaw)
  | _ => .error .unreadable

/-- The settings of the user's own file, which need not exist. -/
def loadHome : FileState → Except LoadError Settings
  | .absent => .ok default
  | file => load file

/-- Where the user's own file is, inside the home directory. -/
def homePath : String := ".robobrain/config.yaml"

end Settings

end RobotShell
