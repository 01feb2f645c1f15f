import RobotShell.Yaml.Scalar

/-!
# YAML tokens

A YAML text is a row of tokens. Indentation shows in them as the start and the end of block
collections, and every key is announced before it.
-/

namespace RobotShell.Yaml

/-- A lexical unit of a YAML text. -/
inductive Token where
  /-- The directive that gives the version. -/
  | version (major minor : Nat)
  /-- The directive that makes a tag handle stand for the start of a tag. -/
  | tagHandle (handle : String) (start : Tag)
  | documentStart
  | documentEnd
  | blockSequence
  | blockMapping
  | blockEnd
  | flowSequence
  | flowSequenceEnd
  | flowMapping
  | flowMappingEnd
  /-- The dash before an item of a block sequence. -/
  | item
  /-- The comma between the parts of a flow collection. -/
  | comma
  /-- A key follows. -/
  | key
  /-- The value of a key follows. -/
  | value
  | alias (name : String)
  | anchor (name : String)
  | tag (handle : String) (rest : Tag)
  | scalar (s : Scalar)
  deriving DecidableEq

end RobotShell.Yaml
