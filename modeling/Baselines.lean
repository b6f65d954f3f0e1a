import Baselines.LogFormat
import Baselines.Main
import Baselines.Script.Misfit
import Baselines.Proofs.Authoring.Isolation
import Baselines.Proofs.Comparison.Kept
import Baselines.Proofs.Comparison.Markers
import Baselines.Proofs.Comparison.Scripts
import Baselines.Proofs.MarkedFile.Reread
import Baselines.Proofs.Name.Reread
import Baselines.Proofs.Suite.Blessing
import Baselines.Proofs.Suite.Order
import Baselines.Proofs.Suite.SingleFile
import Baselines.Proofs.Fixture
import Baselines.Proofs.Text.Decoding
import Baselines.Proofs.Authoring.Distinct
import Baselines.Proofs.Authoring.Course
import Baselines.Proofs.Authoring.Accounts
import Baselines.Proofs.Comparison.Equivalence
import Baselines.Proofs.Directives.Product
import Baselines.Proofs.Diff.Validity
import Baselines.Proofs.Comparison.Mismatch
import Baselines.Proofs.Name.Grammar
import Baselines.Proofs.Emitter.Arguments
import Baselines.Proofs.Stability
import Baselines.Proofs.Discovery.Listing
import Baselines.Proofs.Discovery.Canonical
import Baselines.Proofs.Directives.Lines
import Baselines.Proofs.Selection
import Baselines.Proofs.Script.Spans
import Baselines.Proofs.Settings
import Baselines.Proofs.Emitter.Confinement
import Baselines.Proofs.Presentation.Kinds
import Baselines.Proofs.Console
