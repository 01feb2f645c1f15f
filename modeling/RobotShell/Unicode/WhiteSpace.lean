import RobotShell.Unicode.Ranges

/-!
# The White_Space property

The characters that count as blank when a whole text is asked whether it holds anything.
-/

namespace RobotShell.Unicode

/-- The code points that are White_Space. -/
def whiteSpace : Ranges :=
  [(0x9, 0xd), (0x20, 0x20), (0x85, 0x85), (0xa0, 0xa0), (0x1680, 0x1680), (0x2000, 0x200a),
   (0x2028, 0x2029), (0x202f, 0x202f), (0x205f, 0x205f), (0x3000, 0x3000)]

/-- Whether a character is White_Space. -/
def isWhiteSpace (c : Char) : Bool :=
  whiteSpace.contains c.toNat

end RobotShell.Unicode
