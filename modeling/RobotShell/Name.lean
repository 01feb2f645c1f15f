import RobotShell.Unicode.Alphanumeric

/-!
# Names

A name stands for a variable or a ware. It starts with an Alphabetic character and goes on with
letters and numbers. `Name` itself holds any text, so a tree can be built before its names are
checked; `Name.ofString?` is the check.
-/

namespace RobotShell

open Unicode

/-- The name of a variable or a ware. -/
structure Name where
  text : String
  deriving DecidableEq

namespace Name

/-- Whether the characters form a name. -/
def spells : List Char → Bool
  | [] => false
  | c :: cs => isAlphabetic c && cs.all isAlphanumeric

/-- The name with the given text, if the text forms one. -/
def ofString? (s : String) : Option Name :=
  if spells s.toList then some ⟨s⟩ else none

theorem ofString?_eq_some {s : String} {x : Name} :
    ofString? s = some x ↔ spells s.toList = true ∧ x = ⟨s⟩ := by
  by_cases h : spells s.toList = true <;> simp [ofString?, h, @eq_comm _ x]

end Name

end RobotShell
