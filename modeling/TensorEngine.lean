import TensorEngine.Lowering.Script
import TensorEngine.Main
import TensorEngine.Proofs.Engine.Arrangement
import TensorEngine.Proofs.Engine.Modes
import TensorEngine.Proofs.Engine.Persistence
import TensorEngine.Proofs.Engine.Registry
import TensorEngine.Proofs.Execution.Progress
import TensorEngine.Proofs.Execution.Safety
import TensorEngine.Proofs.Lowering.Broadcasting
import TensorEngine.Proofs.Lowering.Multiplying
import TensorEngine.Proofs.Lowering.Zeros
import TensorEngine.Proofs.Graph.Built
import TensorEngine.Proofs.Graph.Cycles
import TensorEngine.Proofs.Graph.Turns
import TensorEngine.Proofs.Graph.Depth
import TensorEngine.Proofs.Engine.Limits
import TensorEngine.Proofs.Graph.Definitions
import TensorEngine.Proofs.Network.Refinement
import TensorEngine.Proofs.Engine.Routing
import TensorEngine.Proofs.Plan.Names
import TensorEngine.Proofs.Execution.Outputs
import TensorEngine.Proofs.Execution.Inferred
import TensorEngine.Proofs.Network.Counts
import TensorEngine.Proofs.Execution.Entrywise
import TensorEngine.Proofs.Lowering.Requests
import TensorEngine.Proofs.Tensor.Made
import TensorEngine.Proofs.File.Names
import TensorEngine.Proofs.Engine.Files
import TensorEngine.Proofs.Binding
import TensorEngine.Proofs.Network.Volume
import TensorEngine.Proofs.Network.Representable
import TensorEngine.Proofs.Lowering.Support
import TensorEngine.Proofs.Lowering.Arithmetic
import TensorEngine.Proofs.Lowering.Orderly
import TensorEngine.Proofs.Lowering.Safety
