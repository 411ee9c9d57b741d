import MiniGo.Assembly
import MiniGo.Diagnostic
import MiniGo.Interpreter
import MiniGo.Trace
import MiniGo.Proofs.Files
import MiniGo.Proofs.Blameless
import MiniGo.Proofs.Deferred
import MiniGo.Proofs.Scheduling
import MiniGo.Proofs.Endings
import MiniGo.Proofs.Positions
import MiniGo.Proofs.Addressing
import MiniGo.Proofs.Selections
import MiniGo.Proofs.Soundness
import MiniGo.Proofs.Reuse
import MiniGo.Proofs.Counter
import MiniGo.Proofs.Drift
import MiniGo.Proofs.Exits
import MiniGo.Proofs.Rendering
import MiniGo.Proofs.Preservation
import MiniGo.Proofs.Joining
import MiniGo.Proofs.Turns
import MiniGo.Proofs.Resolution
import MiniGo.Proofs.Startup
import MiniGo.Proofs.Loading
import MiniGo.Proofs.Confinement
import MiniGo.Proofs.Isolation
import MiniGo.Proofs.Folding
import MiniGo.Proofs.Sequencing
import MiniGo.Proofs.Parallel
import MiniGo.Proofs.Shorthands
import MiniGo.Proofs.Flags
import MiniGo.Proofs.Observation
import MiniGo.Proofs.Windows
import MiniGo.Proofs.Steering
import MiniGo.Proofs.Clauses
import MiniGo.Proofs.TypeSwitching
import MiniGo.Proofs.Abandoned
import MiniGo.Proofs.Readiness
import MiniGo.Proofs.Selecting
import MiniGo.Proofs.Extents
import MiniGo.Proofs.Visits
import MiniGo.Proofs.DeadCode
import MiniGo.Proofs.Provenance
import MiniGo.Proofs.Spelling
import MiniGo.Proofs.Integers
import MiniGo.Proofs.Variables
