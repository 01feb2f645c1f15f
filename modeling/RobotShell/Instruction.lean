import RobotShell.Name

/-!
# Instructions

What the shell tells the actuator. Every count and angle is a number by then. An instruction is
written as one line.
-/

namespace RobotShell

/-- An order to the actuator. -/
inductive Instruction where
  | stop
  | rotate (angle : Int64)
  | move (distance : Int64)
  | buy (ware : Name) (count : Int64)
  | sell (ware : Name) (count : Int64)
  | inventory
  | marketPrices
  | cityPrices
  deriving DecidableEq

/-- The line that carries the instruction. -/
def Instruction.text : Instruction → String
  | stop => "stop"
  | rotate n => "rotate " ++ toString n.toInt
  | move n => "move " ++ toString n.toInt
  | buy x n => "buy " ++ x.text ++ " " ++ toString n.toInt
  | sell x n => "sell " ++ x.text ++ " " ++ toString n.toInt
  | inventory => "inventory"
  | marketPrices => "marketPrices"
  | cityPrices => "cityPrices"

end RobotShell
