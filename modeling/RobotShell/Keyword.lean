/-!
# Keywords

The words that the language keeps for itself. They are written exactly so, in lower case.
-/

namespace RobotShell

/-- A reserved word; `assign` is written `let`. -/
inductive Keyword where
  | quit
  | stop
  | help
  | assign
  | echo
  | landmark
  | rotate
  | move
  | buy
  | sell
  | inventory
  | marketPrices
  | cityPrices
  deriving DecidableEq

namespace Keyword

/-- The word as it is written. -/
def text : Keyword → String
  | quit => "quit"
  | stop => "stop"
  | help => "help"
  | assign => "let"
  | echo => "echo"
  | landmark => "landmark"
  | rotate => "rotate"
  | move => "move"
  | buy => "buy"
  | sell => "sell"
  | inventory => "inventory"
  | marketPrices => "marketprices"
  | cityPrices => "cityprices"

/-- Every keyword. -/
def all : List Keyword :=
  [quit, stop, help, assign, echo, landmark, rotate, move, buy, sell, inventory, marketPrices,
   cityPrices]

theorem mem_all (k : Keyword) : k ∈ all := by
  cases k <;> decide

/-- The keyword that is written `s`. -/
def ofString? (s : String) : Option Keyword :=
  all.find? (·.text == s)

theorem text_of_ofString? {s : String} {k : Keyword} (h : ofString? s = some k) : k.text = s := by
  simpa using List.find?_some h

end Keyword

end RobotShell
