import RobotShell.Main
import RobotShell.Proofs.Grammar
import RobotShell.Proofs.Recovery
import RobotShell.Proofs.Effects
import RobotShell.Proofs.Naming
import RobotShell.Proofs.Machine
import RobotShell.Proofs.Guards
import RobotShell.Proofs.Traces
import RobotShell.Proofs.Twins
import RobotShell.Proofs.Sessions
import RobotShell.Proofs.Limits
import RobotShell.Proofs.Budget
import RobotShell.Proofs.Reports
import RobotShell.Proofs.Decoding
import RobotShell.Proofs.Lossy
import RobotShell.Proofs.Printing
import RobotShell.Proofs.Transcript
import RobotShell.Proofs.Inputs
import RobotShell.Proofs.Display
import RobotShell.Proofs.Formed
import RobotShell.Proofs.Invariants
import RobotShell.Proofs.OneLine
import RobotShell.Proofs.ReadBack
import RobotShell.Proofs.References
import RobotShell.Proofs.Cycles
import RobotShell.Proofs.StepLimit
import RobotShell.Proofs.Parentheses
import RobotShell.Proofs.Nesting
import RobotShell.Proofs.Lexemes
import RobotShell.Proofs.Spelling
import RobotShell.Proofs.Blame
import RobotShell.Proofs.Chains
import RobotShell.Proofs.Words
import RobotShell.Proofs.Actuator
import RobotShell.Proofs.Depth
import RobotShell.Proofs.Descent
import RobotShell.Proofs.Counters
