import RobotShell.Name

/-!
# Expressions

The tree of a line. A chain `a && b && c` leans to the right: `seq a (seq b c)`. What could not be
read is an `error` node in the place of its statement, so the rest of the line survives.
-/

namespace RobotShell

/-- A line, or a part of one, as a tree. -/
inductive Expr where
  /-- Malformed input: what is wrong with it, and the column of the token to blame. -/
  | error (message : String) (col : Nat)
  /-- `left && right`. -/
  | seq (left right : Expr)
  /-- `let x = value`. -/
  | assign (x : Name) (value : Expr)
  | name (x : Name)
  | int (n : Int64)
  | help
  | echo (x : Name)
  | landmark
  | rotate (angle : Expr)
  | move (distance : Expr)
  | buy (ware : Name) (count : Expr)
  | sell (ware : Name) (count : Expr)
  | inventory
  | marketPrices
  | cityPrices
  | quit
  | stop
  deriving DecidableEq

namespace Expr

/-- Whether the tree is itself an error node. -/
def isError : Expr → Bool
  | error _ _ => true
  | _ => false

/-- The number of nodes. -/
def size : Expr → Nat
  | seq left right => left.size + right.size + 1
  | assign _ e | rotate e | move e | buy _ e | sell _ e => e.size + 1
  | _ => 1

end Expr

end RobotShell
