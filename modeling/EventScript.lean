import EventScript.Main
import EventScript.Proofs.Script.Run
import EventScript.Proofs.Script.Encoding
import EventScript.Proofs.Script.Policy
import EventScript.Proofs.Text.Line
import EventScript.Proofs.Text.Numeral
import EventScript.Proofs.Text.Word
import EventScript.Proofs.Listing.Grammar
import EventScript.Proofs.Listing.RoundTrip
import EventScript.Proofs.Script.Step
import EventScript.Proofs.Script.Provenance
import EventScript.Proofs.Script.Feeding
import EventScript.Proofs.Script.OperandTokens
import EventScript.Proofs.Script.Shape
import EventScript.Proofs.Script.Ledger
import EventScript.Proofs.CommandLine.ReportedLines
import EventScript.Proofs.Execution.Acceptance
import EventScript.Proofs.Script.Frame
import EventScript.Proofs.CommandLine.Environment
import EventScript.Proofs.CommandLine.Normalization
import EventScript.Proofs.CommandLine.Settings
import EventScript.Proofs.CommandLine.Switches
import EventScript.Proofs.Listing.Concatenation
import EventScript.Proofs.Text.Segment
import EventScript.Proofs.Text.LetterCase
import EventScript.Proofs.Listing.Layout
import EventScript.Proofs.Script.Interleaving
import EventScript.Proofs.Execution.Delivery
import EventScript.Proofs.Script.Causality
import EventScript.Proofs.Script.UnlistedOperation
import EventScript.Proofs.Script.Underflow
import EventScript.Proofs.Expression.Readability
import EventScript.Proofs.Instruction.Readability
import EventScript.Proofs.CommandLine.Disassembly
import EventScript.Proofs.Json.Readability
import EventScript.Proofs.CommandLine.Data
import EventScript.Proofs.Script.Failure
import EventScript.Proofs.Script.BattleRoutes
import EventScript.Proofs.Text.CheckedNumeral
import EventScript.Proofs.Listing.Number
