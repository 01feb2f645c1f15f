import RobotShell.Expr

/-!
# The text of an expression

The canonical text of a tree, shown by `echo` and quoted by errors. Every node with children is
written in parentheses under the name of its form. The writer keeps the work still to do on a list
of its own, so a chain of any length is written without nesting.
-/

namespace RobotShell.Expr

/-- Something still to be written. -/
inductive Piece where
  | tree (e : Expr)
  | text (s : String)

/-- A bound on the steps that it takes to write a piece. -/
def Piece.cost : Piece → Nat
  | tree e => 4 * e.size
  | text _ => 1

/-- Writes the pieces, in order, behind `out`. -/
def write (out : String) : List Piece → String
  | [] => out
  | .text s :: todo => write (out ++ s) todo
  | .tree (error message _) :: todo => write (out ++ "(Error: " ++ message ++ ")") todo
  | .tree (seq left right) :: todo =>
    write (out ++ "(Continue ") (.tree left :: .text " " :: .tree right :: .text ")" :: todo)
  | .tree (assign x e) :: todo =>
    write (out ++ "(Let " ++ x.text ++ " ") (.tree e :: .text ")" :: todo)
  | .tree (name x) :: todo => write (out ++ x.text) todo
  | .tree (int n) :: todo => write (out ++ toString n.toInt) todo
  | .tree help :: todo => write (out ++ "Help") todo
  | .tree (echo x) :: todo => write (out ++ "(Echo " ++ x.text ++ ")") todo
  | .tree landmark :: todo => write (out ++ "Landmark") todo
  | .tree (rotate e) :: todo => write (out ++ "(Rotate ") (.tree e :: .text ")" :: todo)
  | .tree (move e) :: todo => write (out ++ "(Move ") (.tree e :: .text ")" :: todo)
  | .tree (buy x e) :: todo =>
    write (out ++ "(Buy " ++ x.text ++ " ") (.tree e :: .text ")" :: todo)
  | .tree (sell x e) :: todo =>
    write (out ++ "(Sell " ++ x.text ++ " ") (.tree e :: .text ")" :: todo)
  | .tree inventory :: todo => write (out ++ "Inventory") todo
  | .tree marketPrices :: todo => write (out ++ "MarketPrices") todo
  | .tree cityPrices :: todo => write (out ++ "CityPrices") todo
  | .tree quit :: todo => write (out ++ "Quit") todo
  | .tree stop :: todo => write (out ++ "Stop") todo
termination_by todo => todo.foldr (fun p n => p.cost + n) 0
decreasing_by all_goals simp [Piece.cost, size] <;> omega

/-- The canonical text of a tree. -/
def display (e : Expr) : String :=
  write "" [.tree e]

end RobotShell.Expr
