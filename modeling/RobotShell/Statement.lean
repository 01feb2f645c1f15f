import RobotShell.Expr

/-!
# Statements

A tree is run statement by statement: its chains are taken apart, and what is left are the
statements in the order in which they were written. Their operands stay unevaluated.
-/

namespace RobotShell

/-- One statement of a line. -/
inductive Statement where
  /-- A statement that could not be read. -/
  | malformed (message : String) (col : Nat)
  /-- A well-formed expression that does nothing as a statement. -/
  | unrecognized (e : Expr)
  | quit
  | stop
  | assign (x : Name) (value : Expr)
  /-- Runs what is bound to a name. -/
  | run (x : Name)
  | help
  | echo (x : Name)
  | rotate (angle : Expr)
  | move (distance : Expr)
  | buy (ware : Name) (count : Expr)
  | sell (ware : Name) (count : Expr)
  | inventory
  | marketPrices
  | cityPrices
  deriving DecidableEq

/-- The word for a kind of statement. -/
def Statement.word : Statement → String
  | malformed _ _ => "syntax-error"
  | unrecognized _ => "unrecognized"
  | quit => "quit"
  | stop => "stop"
  | assign _ _ => "let"
  | run _ => "eval"
  | help => "help"
  | echo _ => "echo"
  | rotate _ => "rotate"
  | move _ => "move"
  | buy _ _ => "buy"
  | sell _ _ => "sell"
  | inventory => "inventory"
  | marketPrices => "marketprices"
  | cityPrices => "cityprices"

namespace Expr

/-- The statements of the trees, in order, behind those in `done`, which are kept latest first. -/
def flatten (done : List Statement) : List Expr → List Statement
  | [] => done.reverse
  | seq left right :: todo => flatten done (left :: right :: todo)
  | error message col :: todo => flatten (.malformed message col :: done) todo
  | assign x e :: todo => flatten (.assign x e :: done) todo
  | name x :: todo => flatten (.run x :: done) todo
  | int n :: todo => flatten (.unrecognized (int n) :: done) todo
  | help :: todo => flatten (.help :: done) todo
  | echo x :: todo => flatten (.echo x :: done) todo
  | landmark :: todo => flatten (.unrecognized landmark :: done) todo
  | rotate e :: todo => flatten (.rotate e :: done) todo
  | move e :: todo => flatten (.move e :: done) todo
  | buy x e :: todo => flatten (.buy x e :: done) todo
  | sell x e :: todo => flatten (.sell x e :: done) todo
  | inventory :: todo => flatten (.inventory :: done) todo
  | marketPrices :: todo => flatten (.marketPrices :: done) todo
  | cityPrices :: todo => flatten (.cityPrices :: done) todo
  | quit :: todo => flatten (.quit :: done) todo
  | stop :: todo => flatten (.stop :: done) todo
termination_by todo => todo.foldr (fun e n => e.size + n) 0
decreasing_by all_goals simp [size] <;> omega

/-- The statements of a tree, from left to right. -/
def statements (e : Expr) : List Statement :=
  flatten [] [e]

/-- The statements already found come first. -/
theorem flatten_done (done : List Statement) (todo : List Expr) :
    flatten done todo = done.reverse ++ flatten [] todo := by
  refine flatten.induct (motive := fun _ todo =>
    ∀ done, flatten done todo = done.reverse ++ flatten [] todo)
    ?_ ?_ ?_ ?_ ?_ ?_ ?_ ?_ ?_ ?_ ?_ ?_ ?_ ?_ ?_ ?_ ?_ ?_ [] todo done
  · simp [flatten]
  · intro _ left right todo ih done
    rw [flatten, ih, flatten.eq_2 []]
  all_goals
    intros
    rename_i ih done
    rw [flatten, ih, flatten, ih [_]]
    simp

theorem flatten_append (done : List Statement) (a b : List Expr) :
    flatten done (a ++ b) = flatten done a ++ flatten [] b := by
  fun_induction flatten done a with
  | case1 done => rw [List.nil_append, flatten_done]
  | case2 done left right todo ih => rw [List.cons_append, flatten, ← ih]; rfl
  | _ => rename_i ih; rw [List.cons_append, flatten, ← ih]

/-- A chain holds the statements of its left part, then those of its right part. -/
theorem statements_seq (a b : Expr) : (seq a b).statements = a.statements ++ b.statements := by
  rw [statements, flatten, ← List.singleton_append, flatten_append, statements, statements]

end Expr

end RobotShell
