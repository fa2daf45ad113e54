import InfixCalc.Double.Rounding
import InfixCalc.Double.Decimal
import InfixCalc.Double.Text
import InfixCalc.Text
import InfixCalc.Operator
import InfixCalc.Fault.Report
import InfixCalc.Fault.Cause
import InfixCalc.Token.Basic
import InfixCalc.Token.Scan
import InfixCalc.Expr.Basic
import InfixCalc.Expr.Walk
import InfixCalc.Fault.Failure
import InfixCalc.Expr.Value
import InfixCalc.Expr.Text
import InfixCalc.Stacks.Basic
import InfixCalc.Stacks.Reduce
import InfixCalc.Expr.Reading
import InfixCalc.Journal
import InfixCalc.CommandLine.Arguments
import InfixCalc.CommandLine.Run
import InfixCalc.Main
import InfixCalc.Proofs.Walk
import InfixCalc.Proofs.Grammar
import InfixCalc.Proofs.Nest
import InfixCalc.Proofs.NestSteps
import InfixCalc.Proofs.Completeness
import InfixCalc.Proofs.Soundness
import InfixCalc.Proofs.FoldingAgreement
import InfixCalc.Proofs.Recognition
import InfixCalc.Proofs.LackingOperands
import InfixCalc.Proofs.DoubleBits
import InfixCalc.Proofs.CorrectRounding
import InfixCalc.Proofs.ExactRounding
import InfixCalc.Proofs.NumeralText
import InfixCalc.Proofs.ShortestDigits
import InfixCalc.Proofs.Scanning
import InfixCalc.Proofs.RoundTrip
import InfixCalc.Proofs.Chains
import InfixCalc.Proofs.Tiling
import InfixCalc.Proofs.TokenPlaces
import InfixCalc.Proofs.Leaves
import InfixCalc.Proofs.Relocation
import InfixCalc.Proofs.Safety
import InfixCalc.Proofs.Gaps
import InfixCalc.Proofs.Conservation
import InfixCalc.Proofs.Refusal
import InfixCalc.Proofs.Rereading
import InfixCalc.Proofs.ScanFaults
import InfixCalc.Proofs.ReadFaults
import InfixCalc.Proofs.FaultPlaces
import InfixCalc.Proofs.PrintableText
import InfixCalc.Proofs.OutputLines
import InfixCalc.Proofs.CommandOutcomes
import InfixCalc.Proofs.SwitchIndependence
import InfixCalc.Proofs.FirstViolation
import InfixCalc.Proofs.BlamedOperators
import InfixCalc.Proofs.Composition
import InfixCalc.Proofs.NeededParentheses
import InfixCalc.Proofs.TokenCounts
import InfixCalc.Proofs.FoldingTrace
import InfixCalc.Proofs.ScanVerdict
import InfixCalc.Proofs.Parentheses
import InfixCalc.Proofs.Balance
import InfixCalc.Proofs.RefusedLeaves
import InfixCalc.Proofs.GroupIsolation
import InfixCalc.Proofs.StackShape
import InfixCalc.Proofs.GroupReduction
import InfixCalc.Proofs.PrintedNumbers
