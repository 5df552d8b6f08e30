import PseudoBoolean.Fault
import PseudoBoolean.Key
import PseudoBoolean.Table
import PseudoBoolean.Literal
import PseudoBoolean.Constraint.Error
import PseudoBoolean.Relation
import PseudoBoolean.Limits
import PseudoBoolean.Domains
import PseudoBoolean.Subscriptions
import PseudoBoolean.Agenda
import PseudoBoolean.Propagation
import PseudoBoolean.Propagator
import PseudoBoolean.Propagator.OpenVariables
import PseudoBoolean.Propagator.AtLeast
import PseudoBoolean.Propagator.ImpliedAtLeast
import PseudoBoolean.Propagator.WeightedSum
import PseudoBoolean.Propagator.Standard
import PseudoBoolean.Constraint.NormalSum
import PseudoBoolean.Journal
import PseudoBoolean.State
import PseudoBoolean.State.Fixpoint
import PseudoBoolean.Constraint.Posting
import PseudoBoolean.Run
import PseudoBoolean.Valuation
import PseudoBoolean.Text.Ranges
import PseudoBoolean.Text.Tables.Marks
import PseudoBoolean.Text.Tables.Clusters
import PseudoBoolean.Text.Tables.Cases
import PseudoBoolean.Text.LetterCase
import PseudoBoolean.Text.Cluster
import PseudoBoolean.Text.Casing
import PseudoBoolean.Report
import PseudoBoolean.Proofs.Domains
import PseudoBoolean.Proofs.Stability
import PseudoBoolean.Proofs.Propagation
import PseudoBoolean.Proofs.WeightedSum
import PseudoBoolean.Proofs.Counting
import PseudoBoolean.Proofs.CountingPropagators
import PseudoBoolean.Proofs.Agenda
import PseudoBoolean.Proofs.Subscriptions
import PseudoBoolean.Proofs.Contract
import PseudoBoolean.Proofs.StandardContract
import PseudoBoolean.Proofs.Coherence
import PseudoBoolean.Proofs.Fixpoint
import PseudoBoolean.Proofs.Gains
import PseudoBoolean.Proofs.NormalForm
import PseudoBoolean.Proofs.Encoding
import PseudoBoolean.Proofs.Posting
import PseudoBoolean.Proofs.Runs
import PseudoBoolean.Proofs.Soundness
import PseudoBoolean.Proofs.Confluence
import PseudoBoolean.Proofs.Completion
import PseudoBoolean.Proofs.Strength
import PseudoBoolean.Proofs.Returns
import PseudoBoolean.Proofs.Bookkeeping
import PseudoBoolean.Proofs.Progress
import PseudoBoolean.Proofs.StandardProgress
import PseudoBoolean.Proofs.Termination
import PseudoBoolean.Proofs.Evolution
import PseudoBoolean.Proofs.Quiescence
import PseudoBoolean.Proofs.Lockstep
import PseudoBoolean.Proofs.Counterparts
import PseudoBoolean.Proofs.Fates
import PseudoBoolean.Proofs.Survivors
import PseudoBoolean.Proofs.Mirror
import PseudoBoolean.Proofs.Complement
import PseudoBoolean.Proofs.Pieces
import PseudoBoolean.Proofs.Audiences
import PseudoBoolean.Proofs.Calls
import PseudoBoolean.Proofs.Recording
import PseudoBoolean.Proofs.Rounds
import PseudoBoolean.Proofs.Refusals
import PseudoBoolean.Proofs.Deliveries
import PseudoBoolean.Proofs.RunBound
import PseudoBoolean.Proofs.Hearing
import PseudoBoolean.Proofs.Tracking
import PseudoBoolean.Proofs.Counters
import PseudoBoolean.Proofs.Failure
import PseudoBoolean.Proofs.Lifecycle
import PseudoBoolean.Proofs.Totality
import PseudoBoolean.Proofs.Accounts
import PseudoBoolean.Proofs.Meaning
import PseudoBoolean.Proofs.Standing
import PseudoBoolean.Proofs.Justification
import PseudoBoolean.Proofs.Exactness
import PseudoBoolean.Proofs.Sweeps
import PseudoBoolean.Proofs.Hosting
import PseudoBoolean.Proofs.Merging
import PseudoBoolean.Proofs.Admission
import PseudoBoolean.Proofs.Resolution
import PseudoBoolean.Proofs.NotificationOrder
import PseudoBoolean.Proofs.Histories
import PseudoBoolean.Proofs.WaitingOrder
import PseudoBoolean.Proofs.Enrolment
import PseudoBoolean.Proofs.Removals
import PseudoBoolean.Proofs.FixedOnce
