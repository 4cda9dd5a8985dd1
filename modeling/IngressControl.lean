import IngressControl.Api.Basic
import IngressControl.Api.Stream
import IngressControl.Api.Target
import IngressControl.Batch
import IngressControl.Bus
import IngressControl.Clock
import IngressControl.Cloud.Basic
import IngressControl.Cloud.View
import IngressControl.Command.Arguments
import IngressControl.Command.Basic
import IngressControl.Command.Report
import IngressControl.Command.Run
import IngressControl.Command.Suggestion
import IngressControl.Command.Usage
import IngressControl.Controller
import IngressControl.Daemon
import IngressControl.Digest
import IngressControl.Discovery.Assembly
import IngressControl.Discovery.Basic
import IngressControl.Document.Basic
import IngressControl.Document.Equality
import IngressControl.Document.Json.Reader
import IngressControl.Document.Json.Writer
import IngressControl.Document.Order
import IngressControl.Document.Yaml.Cursor
import IngressControl.Document.Yaml.Scalar
import IngressControl.Document.Yaml.Writer
import IngressControl.Engine.Basic
import IngressControl.Engine.Cycle
import IngressControl.Engine.Plan
import IngressControl.Engine.Reconcile
import IngressControl.Engine.Targets
import IngressControl.Event
import IngressControl.Fault
import IngressControl.Folder
import IngressControl.Ingress
import IngressControl.Ledger
import IngressControl.Main
import IngressControl.Naming
import IngressControl.Numeral.Double
import IngressControl.Numeral.Quantity
import IngressControl.Numeral.Reading
import IngressControl.Numeral.Shortest
import IngressControl.Proofs.Accesses
import IngressControl.Proofs.Adoption
import IngressControl.Proofs.Alignment
import IngressControl.Proofs.AllOrNothing
import IngressControl.Proofs.Answers
import IngressControl.Proofs.Arn
import IngressControl.Proofs.Assembled
import IngressControl.Proofs.Batches
import IngressControl.Proofs.Batching
import IngressControl.Proofs.Bootstraps
import IngressControl.Proofs.Clusters
import IngressControl.Proofs.Comparison
import IngressControl.Proofs.Conformance
import IngressControl.Proofs.Congruence
import IngressControl.Proofs.Convergence
import IngressControl.Proofs.Courses
import IngressControl.Proofs.Coverage
import IngressControl.Proofs.Deletions
import IngressControl.Proofs.Deliveries
import IngressControl.Proofs.Described
import IngressControl.Proofs.Digests
import IngressControl.Proofs.Distinct
import IngressControl.Proofs.Endings
import IngressControl.Proofs.Entries
import IngressControl.Proofs.Extraction
import IngressControl.Proofs.Failures
import IngressControl.Proofs.Fitting
import IngressControl.Proofs.Frames
import IngressControl.Proofs.Groups
import IngressControl.Proofs.Idempotence
import IngressControl.Proofs.Joined
import IngressControl.Proofs.JsonTexts
import IngressControl.Proofs.Keys
import IngressControl.Proofs.Ledger
import IngressControl.Proofs.Legible
import IngressControl.Proofs.Manifests
import IngressControl.Proofs.Messages
import IngressControl.Proofs.Mirror
import IngressControl.Proofs.Misconfigured
import IngressControl.Proofs.Moves
import IngressControl.Proofs.Multiplicity
import IngressControl.Proofs.Names
import IngressControl.Proofs.NodePorts
import IngressControl.Proofs.Nodes
import IngressControl.Proofs.Omission
import IngressControl.Proofs.Outages
import IngressControl.Proofs.Outcome
import IngressControl.Proofs.Owned
import IngressControl.Proofs.Parallel
import IngressControl.Proofs.Pieces
import IngressControl.Proofs.Planning
import IngressControl.Proofs.Ranks
import IngressControl.Proofs.Readers
import IngressControl.Proofs.Readings
import IngressControl.Proofs.Rearranged
import IngressControl.Proofs.Recorded
import IngressControl.Proofs.Registrations
import IngressControl.Proofs.Reordering
import IngressControl.Proofs.Reports
import IngressControl.Proofs.Requests
import IngressControl.Proofs.Restart
import IngressControl.Proofs.Resting
import IngressControl.Proofs.Revived
import IngressControl.Proofs.Routes
import IngressControl.Proofs.Runs
import IngressControl.Proofs.Separate
import IngressControl.Proofs.Settling
import IngressControl.Proofs.Shapes
import IngressControl.Proofs.Siblings
import IngressControl.Proofs.Sorting
import IngressControl.Proofs.Sparing
import IngressControl.Proofs.Stepwise
import IngressControl.Proofs.Store
import IngressControl.Proofs.Strays
import IngressControl.Proofs.Subscriptions
import IngressControl.Proofs.Tagging
import IngressControl.Proofs.Tainted
import IngressControl.Proofs.Tally
import IngressControl.Proofs.Targets
import IngressControl.Proofs.Tasks
import IngressControl.Proofs.Terminations
import IngressControl.Proofs.Texts
import IngressControl.Proofs.Tracking
import IngressControl.Proofs.Unheard
import IngressControl.Proofs.Verdicts
import IngressControl.Proofs.Violations
import IngressControl.Proofs.Wholes
import IngressControl.Registry
import IngressControl.Resource
import IngressControl.Schema.Basic
import IngressControl.Schema.Check
import IngressControl.Schema.Decode
import IngressControl.Settings
import IngressControl.Source
import IngressControl.Table.Cell
import IngressControl.Table.Column
import IngressControl.Table.Content
import IngressControl.Table.Grid
import IngressControl.Text.Basic
import IngressControl.Text.Capital
import IngressControl.Text.Mark
import IngressControl.Text.Pattern
import IngressControl.Text.Quoted
