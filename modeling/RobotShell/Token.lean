import RobotShell.Keyword
import RobotShell.Name

/-!
# Tokens

The lexical units of a line, each with the column it starts at. Columns count characters from 1.
A character that starts no unit of the language is a token of its own, and so is an integer that
does not fit into 64 bits: it is for the grammar to complain about them.
-/

namespace RobotShell

/-- Punctuation of the language. -/
inductive Symbol where
  | equals
  | andAnd
  | openParen
  | closeParen
  deriving DecidableEq

/-- The symbol as it is written. -/
def Symbol.text : Symbol → String
  | equals => "="
  | andAnd => "&&"
  | openParen => "("
  | closeParen => ")"

/-- What a token is. -/
inductive Token.Kind where
  | keyword (k : Keyword)
  | symbol (s : Symbol)
  | integer (n : Int64)
  /-- An integer literal beyond 64 bits. -/
  | outOfRange
  | name (x : Name)
  /-- A character that starts no other token. -/
  | stray (c : Char)
  deriving DecidableEq

/-- A token and the column of its first character. -/
structure Token where
  kind : Token.Kind
  col : Nat
  deriving DecidableEq

/-- The token in its canonical spelling; of an integer out of range, what is wrong with it. -/
def Token.Kind.text : Token.Kind → String
  | keyword k => k.text
  | symbol s => s.text
  | integer n => toString n.toInt
  | outOfRange => "integer literal out of range"
  | name x => x.text
  | stray c => c.toString

/-- What comes next on a line: a token, or the end of the line at a column. -/
inductive Reading where
  | token (t : Token)
  | lineEnd (col : Nat)
  deriving DecidableEq

/-- The text by which a reading is named. -/
def Reading.text : Reading → String
  | token t => t.kind.text
  | lineEnd _ => "end of line"

/-- The tokens of a line, in order, and the column of its end. -/
structure Line where
  tokens : List Token
  endCol : Nat
  deriving DecidableEq

end RobotShell
