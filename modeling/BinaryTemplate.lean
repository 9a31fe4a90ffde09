import BinaryTemplate.Decode
import BinaryTemplate.Lint
import BinaryTemplate.Script.Standard
import BinaryTemplate.Source.Cursor
import BinaryTemplate.Value.Render
import BinaryTemplate.Proofs.Reading
import BinaryTemplate.Proofs.Field
import BinaryTemplate.Proofs.Number
import BinaryTemplate.Proofs.Whole
import BinaryTemplate.Proofs.Agreement
import BinaryTemplate.Proofs.Independence
import BinaryTemplate.Proofs.BitCursor
import BinaryTemplate.Proofs.CycleGuard
import BinaryTemplate.Proofs.ElementSimulation
import BinaryTemplate.Proofs.Confinement
import BinaryTemplate.Proofs.Attempts
import BinaryTemplate.Proofs.MaximalRuns
import BinaryTemplate.Proofs.RepeatCounts
import BinaryTemplate.Proofs.NoTrace
import BinaryTemplate.Proofs.Overrun
import BinaryTemplate.Proofs.LintClean
import BinaryTemplate.Proofs.Limits
import BinaryTemplate.Proofs.Leniency
import BinaryTemplate.Proofs.Evaluation
import BinaryTemplate.Proofs.Observation
import BinaryTemplate.Proofs.Interchange
import BinaryTemplate.Proofs.Warnings
import BinaryTemplate.Proofs.Pointers
import BinaryTemplate.Proofs.RunLimits
import BinaryTemplate.Proofs.Nesting
import BinaryTemplate.Proofs.Layout
import BinaryTemplate.Proofs.LayoutDecoding
import BinaryTemplate.Proofs.Records
import BinaryTemplate.Proofs.SideTrees
import BinaryTemplate.Proofs.CompletionOrder
import BinaryTemplate.Proofs.Links
import BinaryTemplate.Proofs.Abreast
import BinaryTemplate.Proofs.AbreastElements
import BinaryTemplate.Proofs.Transparency
import BinaryTemplate.Proofs.BitIndex
import BinaryTemplate.Proofs.NameLookup
import BinaryTemplate.Proofs.CapByOrder
import BinaryTemplate.Proofs.EitherOrder
import BinaryTemplate.Proofs.BoundedRuns
import BinaryTemplate.Proofs.DeclaredLengths
import BinaryTemplate.Proofs.ListedValues
import BinaryTemplate.Proofs.RangeChecks
import BinaryTemplate.Proofs.ValidTrees
import BinaryTemplate.Proofs.LiteralText
import BinaryTemplate.Proofs.IntegerEncoding
import BinaryTemplate.Proofs.StringFraming
import BinaryTemplate.Proofs.ExactArithmetic
import BinaryTemplate.Proofs.Masks
import BinaryTemplate.Proofs.NumberTexts
import BinaryTemplate.Proofs.IntegerViews
import BinaryTemplate.Proofs.Scopes
import BinaryTemplate.Proofs.PositionedReads
import BinaryTemplate.Proofs.Rendering
import BinaryTemplate.Proofs.DumpLines
import BinaryTemplate.Proofs.ReferenceTexts
import BinaryTemplate.Proofs.CycleSearch
import BinaryTemplate.Proofs.Building
import BinaryTemplate.Proofs.FrameBounds
import BinaryTemplate.Proofs.GrammarAgreement
