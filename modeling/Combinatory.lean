import Combinatory.Number.Numeral
import Combinatory.Session
import Combinatory.Proofs.Reduction
import Combinatory.Proofs.Confluence
import Combinatory.Proofs.Pattern
import Combinatory.Proofs.Readability
import Combinatory.Proofs.Matching
import Combinatory.Proofs.Plan
import Combinatory.Proofs.Outcome
import Combinatory.Proofs.BigStep
import Combinatory.Proofs.Soundness
import Combinatory.Proofs.CallGraph
import Combinatory.Proofs.Firing
import Combinatory.Proofs.Repeats
import Combinatory.Proofs.LoopBreaking
import Combinatory.Proofs.Simulation
import Combinatory.Proofs.Reference
import Combinatory.Proofs.Agreement
import Combinatory.Proofs.Termination
import Combinatory.Proofs.Limits
import Combinatory.Proofs.Cuts
import Combinatory.Proofs.Lockstep
import Combinatory.Proofs.Confinement
import Combinatory.Proofs.Renaming
import Combinatory.Proofs.Commands
import Combinatory.Proofs.Threads
import Combinatory.Proofs.Refusals
import Combinatory.Proofs.Progress
import Combinatory.Proofs.Distribution
import Combinatory.Proofs.Selection
import Combinatory.Proofs.IdentityChains
import Combinatory.Proofs.SpineSignature
import Combinatory.Proofs.Restoration
import Combinatory.Proofs.Ledger
import Combinatory.Proofs.GuardWrites
import Combinatory.Proofs.Accounts
import Combinatory.Proofs.SharedBudget
import Combinatory.Proofs.History
import Combinatory.Proofs.CapReading
import Combinatory.Proofs.WritingLoop
