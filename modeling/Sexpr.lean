import Sexpr.Main
import Sexpr.Number.Spelling
import Sexpr.Proofs.Operation.Division
import Sexpr.Proofs.Operation.Mappings
import Sexpr.Proofs.Operation.Overflow
import Sexpr.Proofs.Operation.Slices
import Sexpr.Proofs.Reading.Errors
import Sexpr.Proofs.Reading.Nesting
import Sexpr.Proofs.Reading.Progress
import Sexpr.Proofs.Report.Describe
import Sexpr.Proofs.Report.Snippet
import Sexpr.Proofs.Run.Bounds
import Sexpr.Proofs.Run.Budget
import Sexpr.Proofs.Run.Depth
import Sexpr.Proofs.Run.Embedding
import Sexpr.Proofs.Run.Limits
import Sexpr.Proofs.Run.Traces
import Sexpr.Proofs.Session.ForEach
import Sexpr.Proofs.Session.Sources
import Sexpr.Proofs.Store.Views
