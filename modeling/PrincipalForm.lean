import PrincipalForm.Direct
import PrincipalForm.Main
import PrincipalForm.Renaming
import PrincipalForm.Proofs.Spelling
import PrincipalForm.Proofs.Precedence
import PrincipalForm.Proofs.Conservation
import PrincipalForm.Proofs.StackMachine
import PrincipalForm.Proofs.Recognition
import PrincipalForm.Proofs.Admission
import PrincipalForm.Proofs.Coherence
import PrincipalForm.Proofs.Sessions
import PrincipalForm.Proofs.Meaning
import PrincipalForm.Proofs.Enumeration
import PrincipalForm.Proofs.Compilation
import PrincipalForm.Proofs.RoundTrip
import PrincipalForm.Proofs.Canonicity
import PrincipalForm.Proofs.Membership
import PrincipalForm.Proofs.Connectives
import PrincipalForm.Proofs.Histories
import PrincipalForm.Proofs.Stages
import PrincipalForm.Proofs.Chronicle
import PrincipalForm.Proofs.Lines
import PrincipalForm.Proofs.Batches
import PrincipalForm.Proofs.Sheets
import PrincipalForm.Proofs.Reruns
import PrincipalForm.Proofs.Parity
import PrincipalForm.Proofs.Stability
import PrincipalForm.Proofs.Postorder
import PrincipalForm.Proofs.Faults
import PrincipalForm.Proofs.Partners
import PrincipalForm.Proofs.Reconstruction
import PrincipalForm.Proofs.Uniformity
import PrincipalForm.Proofs.Tabulation
import PrincipalForm.Proofs.Leftovers
import PrincipalForm.Proofs.Listing
import PrincipalForm.Proofs.Multiplicity
import PrincipalForm.Proofs.Unassigned
import PrincipalForm.Proofs.Indices
import PrincipalForm.Proofs.Columns
import PrincipalForm.Proofs.Recovery
import PrincipalForm.Proofs.Equivariance
import PrincipalForm.Proofs.Naming
import PrincipalForm.Proofs.Mirroring
