import RobotShell.Expr
import RobotShell.Source

/-!
# Reading an expression

The grammar of a line, in which `[ ]` is optional and `{ }` is repeated:

    line       = [ expression ]
    expression = statement { "&&" statement }
    statement  = operand
    operand    = name | integer | "(" expression ")" | quit | stop | help | landmark | inventory
               | marketprices | cityprices | let name "=" operand | echo name
               | rotate operand | move operand | buy name operand | sell name operand

where the operand of `rotate` and `move` starts with a name, an integer or a parenthesis. Reading
never fails. What cannot be read becomes an error node in the place of its statement, and reading
goes on at the next `&&`, at the end of the group, or at the end of the line.
-/

namespace RobotShell

/-- Why a statement could not be read. -/
inductive Complaint where
  | integerOutOfRange
  | operandExpected
  | nameExpected
  | equalsExpected
  | argumentExpected
  | closeExpected
  | nestedTooDeeply
  | unexpected (kind : Token.Kind)
  deriving DecidableEq

/-- The complaint in words. -/
def Complaint.text : Complaint → String
  | integerOutOfRange => "integer literal out of range"
  | operandExpected => "expected keyword or identifier"
  | nameExpected => "expected identifier"
  | equalsExpected => "expected '='"
  | argumentExpected => "expected variable name or literal"
  | closeExpected => "expected ')'"
  | nestedTooDeeply => "expression nested too deeply"
  | unexpected kind => "unexpected '" ++ kind.text ++ "'"

namespace Expr

/-- How many operands may be open at once. -/
def maxNesting : Nat := 128

/-- Where a rule is applied: the column of the line's end, and whether a group is open. -/
structure Scope where
  endCol : Nat
  grouped : Bool

/-- What a rule makes of the tokens ahead: the tree it reads and the tokens it leaves. -/
abbrev Rule := Scope → List Token → Expr × List Token

namespace Scope

/-- The column of what comes next. -/
def col (s : Scope) : List Token → Nat
  | [] => s.endCol
  | t :: _ => t.col

/-- The tokens at which reading goes on after an error: the line's end, the next `&&`, or the
parenthesis that closes the group. `opened` counts the parentheses opened while skipping; what
stands inside them is skipped as well. -/
def resume (s : Scope) : Nat → List Token → List Token
  | _, [] => []
  | opened, t :: rest =>
    match t.kind, opened with
    | .symbol .andAnd, 0 => t :: rest
    | .symbol .closeParen, 0 => if s.grouped then t :: rest else s.resume 0 rest
    | .symbol .closeParen, opened + 1 => s.resume opened rest
    | .symbol .openParen, opened => s.resume (opened + 1) rest
    | _, opened => s.resume opened rest

/-- An error node for a complaint at a column, and the tokens behind the malformed statement. -/
def fail (s : Scope) (c : Complaint) (col : Nat) (ts : List Token) : Expr × List Token :=
  (error c.text col, s.resume 0 ts)

/-- A complaint about what comes next. -/
def failHere (s : Scope) (c : Complaint) (ts : List Token) : Expr × List Token :=
  s.fail c (s.col ts) ts

/-- Whether a token may follow a statement. -/
def endsStatement (s : Scope) : Token.Kind → Bool
  | .symbol .andAnd => true
  | .symbol .closeParen => s.grouped
  | _ => false

end Scope

/-- Builds a node around what was read, unless that is an error. -/
def wrap (build : Expr → Expr) : Expr × List Token → Expr × List Token
  | (error message col, rest) => (error message col, rest)
  | (e, rest) => (build e, rest)

/-- Reads a name and goes on behind it. -/
def named (s : Scope) (ts : List Token) (andThen : Name → List Token → Expr × List Token) :
    Expr × List Token :=
  match ts with
  | ⟨.name x, _⟩ :: rest => andThen x rest
  | _ => s.failHere .nameExpected ts

/-- Whether a token may start the operand of `rotate` or `move`. An integer out of range may: the
operand itself complains about it. -/
def startsArgument : Token.Kind → Bool
  | .name _ | .integer _ | .outOfRange | .symbol .openParen => true
  | _ => false

/-- The operand of `rotate` or `move`. -/
def argument (operand : Rule) (build : Expr → Expr) (s : Scope) (ts : List Token) :
    Expr × List Token :=
  match ts with
  | [] => s.failHere .argumentExpected ts
  | t :: _ =>
    if startsArgument t.kind then wrap build (operand s ts) else s.failHere .argumentExpected ts

/-- A statement is an operand that a chain, a group or the line ends behind. -/
def statement (operand : Rule) : Rule := fun s ts =>
  match operand s ts with
  | (e, []) => (e, [])
  | (e, t :: rest) =>
    if s.endsStatement t.kind then (e, t :: rest)
    else
      match t.kind with
      | .outOfRange => s.fail .integerOutOfRange t.col (t :: rest)
      | kind => s.fail (.unexpected kind) t.col (t :: rest)

/-- The rest of a chain. `read` holds the statements before `last`, the latest first. Each link
takes a token, so as many links as there are tokens suffice. -/
def links (operand : Rule) (s : Scope) :
    List Token → List Expr → Expr → List Token → Expr × List Token
  | _ :: budget, read, last, ⟨.symbol .andAnd, _⟩ :: rest =>
    let (e, rest) := statement operand s rest
    links operand s budget (last :: read) e rest
  | _, read, last, rest => (read.foldl (fun later e => seq e later) last, rest)

/-- Statements joined by `&&`. -/
def chain (operand : Rule) : Rule := fun s ts =>
  let (first, rest) := statement operand s ts
  links operand s rest [] first rest

/-- A group, whose opening parenthesis has been read. Where its close is missing, nothing is
skipped: the statement around it complains about what stands there. -/
def group (operand : Rule) : Rule := fun s ts =>
  match chain operand { s with grouped := true } ts with
  | (e, ⟨.symbol .closeParen, _⟩ :: rest) => (e, rest)
  | (error message col, rest) => (error message col, rest)
  | (_, rest) => (error Complaint.closeExpected.text (s.col rest), rest)

/-- What follows a keyword. -/
def keyworded (operand : Rule) (k : Keyword) : Rule := fun s ts =>
  match k with
  | .quit => (quit, ts)
  | .stop => (stop, ts)
  | .help => (help, ts)
  | .landmark => (landmark, ts)
  | .inventory => (inventory, ts)
  | .marketPrices => (marketPrices, ts)
  | .cityPrices => (cityPrices, ts)
  | .assign => named s ts fun x rest =>
    match rest with
    | ⟨.symbol .equals, _⟩ :: rest => wrap (assign x) (operand s rest)
    | rest => s.failHere .equalsExpected rest
  | .echo => named s ts fun x rest => (echo x, rest)
  | .rotate => argument operand rotate s ts
  | .move => argument operand move s ts
  | .buy => named s ts fun x rest => wrap (buy x) (operand s rest)
  | .sell => named s ts fun x rest => wrap (sell x) (operand s rest)

/-- One operand, whose own operands are read by `operand`. -/
def primary (operand : Rule) : Rule := fun s ts =>
  match ts with
  | [] => s.failHere .operandExpected []
  | t :: rest =>
    match t.kind with
    | .keyword k => keyworded operand k s rest
    | .name x => (name x, rest)
    | .integer n => (int n, rest)
    | .outOfRange => s.fail .integerOutOfRange t.col rest
    | .symbol .openParen => group operand s rest
    | .symbol .closeParen => s.fail .operandExpected t.col (if s.grouped then t :: rest else rest)
    | .symbol _ | .stray _ => s.fail .operandExpected t.col rest

/-- An operand that may hold operands on so many levels, itself included. -/
def operand : Nat → Rule
  | 0 => fun s ts => s.failHere .nestedTooDeeply ts
  | levels + 1 => primary (operand levels)

/-- The tree of a line, unless the line is blank. -/
def ofLine? (line : Line) : Option Expr :=
  match line.tokens with
  | [] => none
  | ts => some (chain (operand maxNesting) ⟨line.endCol, false⟩ ts).1

/-- The tree of a line of text, unless the line is blank. -/
def ofString? (s : String) : Option Expr :=
  ofLine? (Line.ofString s)

end Expr

end RobotShell
