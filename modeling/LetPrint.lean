import LetPrint.Main
import LetPrint.Proofs.Bytecode.Discipline
import LetPrint.Proofs.Bytecode.Safety
import LetPrint.Proofs.Bytecode.Simulation
import LetPrint.Proofs.CommandLine
import LetPrint.Proofs.ExactArithmetic
import LetPrint.Proofs.Expr.Leftmost
import LetPrint.Proofs.FailFast
import LetPrint.Proofs.Files.ObjectPath
import LetPrint.Proofs.Files.Parents
import LetPrint.Proofs.Ir.Division
import LetPrint.Proofs.Ir.Simulation
import LetPrint.Proofs.Ir.SingleAssignment
import LetPrint.Proofs.Ir.WellFormed
import LetPrint.Proofs.KindHistory
import LetPrint.Proofs.KindRules
import LetPrint.Proofs.Native
import LetPrint.Proofs.Payload
import LetPrint.Proofs.Program.Concatenation
import LetPrint.Proofs.Program.DrawnTrees
import LetPrint.Proofs.Program.ErrorPlaces
import LetPrint.Proofs.Program.Places
import LetPrint.Proofs.Program.RoundTrip
import LetPrint.Proofs.Program.TrailingSpace
import LetPrint.Proofs.Renaming
import LetPrint.Proofs.Token.Answers
import LetPrint.Proofs.Token.Boundaries
import LetPrint.Proofs.Tracing
