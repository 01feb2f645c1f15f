import RobotShell.Name

/-!
# Faults

Why a statement failed when it was run, and the words in which the user is told.
-/

namespace RobotShell

/-- What went wrong with a statement. -/
inductive Fault where
  /-- The statement could not be read. -/
  | malformed (message : String) (col : Nat)
  | unrecognized
  | unknownVariable (x : Name)
  /-- An operand has no number for its value; `text` is the operand's text. -/
  | notALiteral (text : String)
  /-- Names were followed deeper than the limit. -/
  | depthExceeded (x : Name) (limit : Nat)
  | selfReference (x : Name)
  /-- The statement took more steps than the limit. -/
  | stepsExceeded (limit : Nat)
  deriving DecidableEq

namespace Fault

/-- The message for the user. -/
def message : Fault → String
  | malformed message _ => message
  | unrecognized => "unrecognized command"
  | unknownVariable x => "unknown variable '" ++ x.text ++ "'"
  | notALiteral text => "could not evaluate " ++ text ++ " to literal"
  | depthExceeded x limit => "evaluation of '" ++ x.text ++ "' exceeded depth " ++ toString limit
  | selfReference x => "variable '" ++ x.text ++ "' refers to itself"
  | stepsExceeded limit => "statement exceeded " ++ toString limit ++ " evaluation steps"

end Fault

end RobotShell
