import Planimetry.Category
import Planimetry.Command
import Planimetry.Command.Reader
import Planimetry.CommandLine.Machine
import Planimetry.CommandLine.Options
import Planimetry.CommandLine.Run
import Planimetry.CommandLine.World
import Planimetry.Compilation
import Planimetry.Construction
import Planimetry.Coord
import Planimetry.Coord.Literal
import Planimetry.Drawing
import Planimetry.Export
import Planimetry.Fault
import Planimetry.Figure
import Planimetry.Grid
import Planimetry.Journal
import Planimetry.Main
import Planimetry.Node
import Planimetry.Node.Outline
import Planimetry.Pattern
import Planimetry.PointTable
import Planimetry.Position
import Planimetry.Primitive
import Planimetry.Proofs.Agreement
import Planimetry.Proofs.ArmLengths
import Planimetry.Proofs.BuiltPatterns
import Planimetry.Proofs.BuiltSquares
import Planimetry.Proofs.Classification
import Planimetry.Proofs.CommandLine.Arguments
import Planimetry.Proofs.CommandLine.FailedRuns
import Planimetry.Proofs.CommandLine.Files
import Planimetry.Proofs.CommandLine.Refinement
import Planimetry.Proofs.CommandLine.Runs
import Planimetry.Proofs.CompleteFigures
import Planimetry.Proofs.CorrectPrefix
import Planimetry.Proofs.Counting
import Planimetry.Proofs.Draws
import Planimetry.Proofs.ExportRuns
import Planimetry.Proofs.Exposure
import Planimetry.Proofs.Exposure.Remarks
import Planimetry.Proofs.Exposure.Scopes
import Planimetry.Proofs.Exposure.Sources
import Planimetry.Proofs.Exposure.Wording
import Planimetry.Proofs.FinalTable
import Planimetry.Proofs.FullBox
import Planimetry.Proofs.FullPeriod
import Planimetry.Proofs.GeneratedApart
import Planimetry.Proofs.Grammar
import Planimetry.Proofs.Literals
import Planimetry.Proofs.Mentions
import Planimetry.Proofs.Modes
import Planimetry.Proofs.Networks
import Planimetry.Proofs.Outlines
import Planimetry.Proofs.Outlines.Layout
import Planimetry.Proofs.Perpendiculars
import Planimetry.Proofs.Pieces
import Planimetry.Proofs.Pixels
import Planimetry.Proofs.Places
import Planimetry.Proofs.Precision
import Planimetry.Proofs.Prediction
import Planimetry.Proofs.Prediction.Commands
import Planimetry.Proofs.Rebuilding
import Planimetry.Proofs.Refusals
import Planimetry.Proofs.Resolution
import Planimetry.Proofs.ScriptedDraws
import Planimetry.Proofs.ScriptedRuns
import Planimetry.Proofs.Spelling
import Planimetry.Proofs.SquareCorners
import Planimetry.Proofs.SquareSide
import Planimetry.Proofs.StatelessReview
import Planimetry.Proofs.Steps
import Planimetry.Proofs.Text.Bytes
import Planimetry.Proofs.Text.Lines
import Planimetry.Proofs.Text.Numeral
import Planimetry.Proofs.Text.Quoted
import Planimetry.Proofs.Transcripts
import Planimetry.Proofs.TreePrimitives
import Planimetry.Proofs.Unplaced
import Planimetry.Proofs.Vocabulary
import Planimetry.Proofs.WordUse
import Planimetry.Proofs.Wordless
import Planimetry.Proofs.Words
import Planimetry.Reading
import Planimetry.Review
import Planimetry.Rounding
import Planimetry.Scalar
import Planimetry.Script
import Planimetry.Sink
import Planimetry.Tape
import Planimetry.Tape.Keystream
import Planimetry.Tape.Recurrence
import Planimetry.Text.CharRange
import Planimetry.Text.DecimalDigit
import Planimetry.Text.LowerCase
import Planimetry.Text.Numeral
import Planimetry.Text.Quoted
import Planimetry.Text.White
import Planimetry.Token
import Planimetry.Vocabulary
