import GenesisRuntime.Kernel.Soundness
import GenesisRuntime.Kernel.Stamps
import GenesisRuntime.Kernel.Topology
import GenesisRuntime.Kernel.Renaming
import GenesisRuntime.Kernel.Anchors
import GenesisRuntime.Kernel.Worklist
import GenesisRuntime.Kernel.Exactness
import GenesisRuntime.Kernel.Equivalence
import GenesisRuntime.Kernel.Endings
import GenesisRuntime.Store.Ledger
import GenesisRuntime.Store.Outcomes
import GenesisRuntime.Runtime.CommitPoint
import GenesisRuntime.Runtime.Evidence
import GenesisRuntime.Protocol.Wire
import GenesisRuntime.Runtime.Coherence
import GenesisRuntime.Runtime.Budgets
import GenesisRuntime.Runtime.Reports
import GenesisRuntime.Runtime.Control
import GenesisRuntime.Runtime.Rejections
import GenesisRuntime.Runtime.Causes
import GenesisRuntime.Runtime.Refusals
import GenesisRuntime.Runtime.Certificates
import GenesisRuntime.Runtime.Reference.Runs
import GenesisRuntime.Runtime.Mediation
import GenesisRuntime.Runtime.Revocation
import GenesisRuntime.Runtime.Actions
import GenesisRuntime.Runtime.Validity
import GenesisRuntime.Digest.Framing
import GenesisRuntime.Digest.Hex
import GenesisRuntime.Authority.Canonical
import GenesisRuntime.ToolRegistry.Conformance
import GenesisRuntime.Context.Continuation
import GenesisRuntime.Runtime.Signatures
import GenesisRuntime.Agent.Wire
import GenesisRuntime.Runtime.Activation
