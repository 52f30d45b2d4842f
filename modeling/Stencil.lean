import Stencil.Engine.Session
import Stencil.Report
import Stencil.Proofs.Occurrence
import Stencil.Proofs.Segmentation
import Stencil.Proofs.Nesting
import Stencil.Proofs.Listing
import Stencil.Proofs.Escaping
import Stencil.Proofs.Keeping
import Stencil.Proofs.Injection
import Stencil.Proofs.Printing
import Stencil.Proofs.Parsing
import Stencil.Proofs.WholeNumber
import Stencil.Proofs.Lexing
import Stencil.Proofs.RoundTrip
import Stencil.Proofs.Parts
import Stencil.Proofs.Agreement
import Stencil.Proofs.Noninterference
import Stencil.Proofs.RowParts
import Stencil.Proofs.Compiling
import Stencil.Proofs.Guard
import Stencil.Proofs.Dispatch
import Stencil.Proofs.Places
import Stencil.Proofs.TokenPlaces
import Stencil.Proofs.ExpressionPlaces
import Stencil.Proofs.DirectivePlaces
import Stencil.Proofs.Faults
import Stencil.Proofs.Moving
import Stencil.Proofs.MovedCode
import Stencil.Proofs.Seam
import Stencil.Proofs.Composition
import Stencil.Proofs.Course
import Stencil.Proofs.Outcome
import Stencil.Proofs.DepthLimit
import Stencil.Proofs.Balance
import Stencil.Proofs.Maintaining
import Stencil.Proofs.Restyling
import Stencil.Proofs.Asked
import Stencil.Proofs.EngineHistory
import Stencil.Proofs.Grammar
import Stencil.Proofs.Recognizing
import Stencil.Proofs.Deriving
import Stencil.Proofs.Yield
import Stencil.Proofs.Lookahead
import Stencil.Proofs.TokenCuts
import Stencil.Proofs.ExactPlaces
import Stencil.Proofs.Viable
import Stencil.Proofs.Endings
import Stencil.Proofs.Inlining
import Stencil.Proofs.Surrounding
import Stencil.Proofs.OutputForms
import Stencil.Proofs.FirstWord
import Stencil.Proofs.DirectiveForms
import Stencil.Proofs.LineComments
import Stencil.Proofs.TokenTiling
import Stencil.Proofs.Arguments
import Stencil.Proofs.NormalForm
import Stencil.Proofs.Registry
import Stencil.Proofs.Visiting
import Stencil.Proofs.Unescaping
import Stencil.Proofs.PercentDecoding
import Stencil.Proofs.ArrayCoercion
import Stencil.Proofs.WholeDisplay
import Stencil.Proofs.Elements
import Stencil.Proofs.ArrayOutput
import Stencil.Proofs.Splitting
import Stencil.Proofs.TextPositions
import Stencil.Proofs.Reporting
import Stencil.Proofs.DoubleParts
import Stencil.Proofs.DoubleRounding
import Stencil.Proofs.Amounts
import Stencil.Proofs.EqualityLaws
import Stencil.Proofs.DirectoryPaths
import Stencil.Proofs.Shadowing
