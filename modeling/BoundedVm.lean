import BoundedVm.Ledger.Endorsement
import BoundedVm.Ledger.Shape
import BoundedVm.Machine.Request
import BoundedVm.Main
import BoundedVm.Proofs.Cli.ExitStatus
import BoundedVm.Proofs.Cli.Stress
import BoundedVm.Proofs.Clone.Acceptance
import BoundedVm.Proofs.Clone.Comparison
import BoundedVm.Proofs.Comparison.Cost
import BoundedVm.Proofs.Comparison.Loop
import BoundedVm.Proofs.Comparison.Raising
import BoundedVm.Proofs.Comparison.Similarity
import BoundedVm.Proofs.Comparison.Symmetry
import BoundedVm.Proofs.Digest.Text
import BoundedVm.Proofs.Heap.Refusal
import BoundedVm.Proofs.Isolation.Interleaving
import BoundedVm.Proofs.Ledger.Chain
import BoundedVm.Proofs.Ledger.Fields
import BoundedVm.Proofs.Ledger.Framing
import BoundedVm.Proofs.Ledger.Identity
import BoundedVm.Proofs.Ledger.PrefixSearch
import BoundedVm.Proofs.Ledger.WitnessSection
import BoundedVm.Proofs.Machine.Registrations
import BoundedVm.Proofs.Release.Destructor
import BoundedVm.Proofs.Value.Conversion
import BoundedVm.Proofs.Value.Environment
import BoundedVm.Proofs.Wire.Minimal
