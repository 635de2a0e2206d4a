import SinkFlow.Analysis
import SinkFlow.Proofs.Analysis
import SinkFlow.Proofs.Analysis.Leak
import SinkFlow.Proofs.Propagation.Closure
import SinkFlow.Report.Document
import SinkFlow.Proofs.Propagation.Exactness
import SinkFlow.Proofs.Flow.WellFormed
import SinkFlow.Proofs.Build.Reason
import SinkFlow.Proofs.Build.Outcome
import SinkFlow.Proofs.Propagation.Separation
import SinkFlow.Proofs.Analysis.Clearing
import SinkFlow.Proofs.Program.NormalForm
import SinkFlow.Proofs.Json
import SinkFlow.Proofs.Encoding
import SinkFlow.Proofs.Build.Pairing
import SinkFlow.Proofs.Build.Appending
import SinkFlow.Proofs.Build.Modelling
import SinkFlow.Proofs.Analysis.Sinks
import SinkFlow.Proofs.Analysis.Agreement
import SinkFlow.Proofs.Propagation.Forward
import SinkFlow.Proofs.Analysis.Constants
import SinkFlow.Proofs.Propagation.Frame
import SinkFlow.Proofs.Propagation.Joins
import SinkFlow.Proofs.Propagation.Limit
import SinkFlow.Proofs.Analysis.Depth
import SinkFlow.Proofs.Flow.Naming
import SinkFlow.Proofs.Rule.Tables
import SinkFlow.Proofs.Propagation.Worklist
