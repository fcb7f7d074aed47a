import Statechart.Text.Printable
import Statechart.Text.Quoted
import Statechart.Json
import Statechart.Time.Rfc3339
import Statechart.Configuration
import Statechart.Chart.Step
import Statechart.Spec.Build
import Statechart.Service
import Statechart.Editor
import Statechart.Wire.Journal
import Statechart.Wire.Editor
import Statechart.Proofs.ServiceRun
import Statechart.Proofs.EditorMoves
import Statechart.Proofs.EditorPermissions
import Statechart.Proofs.EditorContent
import Statechart.Proofs.EditorActivity
import Statechart.Proofs.Calls
import Statechart.Proofs.EditorObserver
import Statechart.Proofs.ServiceSession
import Statechart.Proofs.Arena
import Statechart.Proofs.Consistency
import Statechart.Proofs.Veiled
import Statechart.Proofs.EditorIdle
import Statechart.Proofs.Ancestry
import Statechart.Proofs.Alternation
import Statechart.Proofs.ServiceJournal
import Statechart.Proofs.BuildProblems
import Statechart.Proofs.Completion
import Statechart.Proofs.Domain
import Statechart.Proofs.Preemption
import Statechart.Proofs.Regions
import Statechart.Proofs.Targets
import Statechart.Proofs.GuardFaults
import Statechart.Proofs.Acceptance
import Statechart.Proofs.EditorAcceptance
import Statechart.Proofs.EditorForm
import Statechart.Proofs.ServiceCrash
