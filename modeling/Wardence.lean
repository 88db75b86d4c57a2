import Wardence.Lib.Table
import Wardence.Lib.Client
import Wardence.Lib.Streak
import Wardence.Lib.Fleet
import Wardence.Lib.Once
import Wardence.Lib.Race
import Wardence.Lib.Python
import Wardence.Lib.History
import Wardence.Schema
import Wardence.TrustEngine
import Wardence.LlmTrust
import Wardence.Misdispatch
import Wardence.Breaker
import Wardence.Operator
import Wardence.Statements
import Wardence.Effects
import Wardence.Ladder
import Wardence.Races
import Wardence.Trip
import Wardence.Publisher
import Wardence.Chain
import Wardence.Proposer
import Wardence.Boundary
import Wardence.Language
import Wardence.Agent
import Wardence.Scorer
import Wardence.Dispatch
import Wardence.Episodes
import Wardence.Failures
import Wardence.Recording
import Wardence.Credit
import Wardence.Cluster
import Wardence.Verdict
import Wardence.Verifier
import Wardence.Grades
import Wardence.Substitution
import Wardence.Earned
import Wardence.Lib.Threads
import Wardence.Live.World
import Wardence.Live.Programs
import Wardence.Live.Phases
import Wardence.Live.Discipline
import Wardence.Live.Lifecycle
import Wardence.Live.Gate
import Wardence.Live.Absorbing
import Wardence.Live.Resolving
import Wardence.Live.Injectors
import Wardence.Live.Bystanders
import Wardence.Live.Caps
import Wardence.Live.Pause
import Wardence.Live.Knowledge
import Wardence.Live.Scorers
import Wardence.Live.Scored
import Wardence.Live.Checked
import Wardence.Live.Spoiled
import Wardence.Live.Picking
import Wardence.Live.Unscored
import Wardence.Accounts.World
import Wardence.Accounts.Endpoints
import Wardence.Accounts.Revocation
import Wardence.Accounts.Login
import Wardence.Accounts.Lockout
import Wardence.Lib.Lease
import Wardence.SystemLock
import Wardence.Batch.World
import Wardence.Batch.Programs
import Wardence.Batch.Discipline
import Wardence.Batch.Runs
import Wardence.Batch.Progress
import Wardence.Batch.Exact
import Wardence.Batch.Recency
import Wardence.Batch.Isolation
import Wardence.Lib.Traces
import Wardence.Injector.World
import Wardence.Injector.Programs
import Wardence.Injector.Classes
import Wardence.Injector.Ttl
import Wardence.Injector.Shape
import Wardence.Injector.Revert
import Wardence.Injector.Record
import Wardence.Lib.Ration
import Wardence.Sampling
import Wardence.Actions.Programs
import Wardence.Actions.DryRun
import Wardence.Actions.Restore
import Wardence.Lib.Window
import Wardence.LogPipeline
import Wardence.Detector
import Wardence.Lib.Passes
import Wardence.LeakAgent.World
import Wardence.LeakAgent.Loops
import Wardence.LeakAgent.DeadMan
import Wardence.LeakAgent.Retry
import Wardence.LeakAgent.Governor
import Wardence.LeakAgent.Status
import Wardence.Lib.Heap
import Wardence.LeakAgent.Graphs
import Wardence.Migrate
import Wardence.Quota.Calls
import Wardence.Quota.Books
import Wardence.Quota.Budget
import Wardence.Lib.Double
import Wardence.Lib.Quantity
import Wardence.Magnitudes
import Wardence.Correctness
import Wardence.Lib.Calendar
import Wardence.Quota.Marks
import Wardence.Executable
import Wardence.React.Signals
import Wardence.Lib.Json
import Wardence.Backend.Calls
import Wardence.Backend.Total
import Wardence.Backend.Stream
import Wardence.Backend.Events
import Wardence.Backend.Twins
import Wardence.React.Loop
import Wardence.Lib.Promql
import Wardence.React.OomEvidence
import Wardence.Published
import Wardence.Injector.EarlyStop
import Wardence.Fetch
import Wardence.Watermarks
import Wardence.Lib.Js
import Wardence.Replay.Transcript
import Wardence.Replay.Schedule
import Wardence.Lib.Markov
import Wardence.TrackB.Hmm
import Wardence.TrackB.Spc
import Wardence.Calibration
import Wardence.Holds
import Wardence.Gate
import Wardence.Bits
import Wardence.Lib.Evidence
import Wardence.TrackB.Cusum
import Wardence.Lib.Chance
import Wardence.Batch.Shuffle
import Wardence.Batch.Rounds
import Wardence.Lib.Binomial
import Wardence.Threshold
import Wardence.Lib.Polyline
import Wardence.Replay.Track
import Wardence.Lib.Embed
import Wardence.Rotation
import Wardence.Lib.Scripts
import Wardence.Installer.Script
import Wardence.Installer.Runs
import Wardence.Lib.JsonText
import Wardence.Lib.Tail
import Wardence.Lib.Steps
import Wardence.Reasoning.Stream
import Wardence.Reasoning.Delivery
import Wardence.Lib.Reach
import Wardence.React.Prometheus
import Wardence.Corrections
import Wardence.Snapshot
import Wardence.Endpoints
import Wardence.Lib.Tally
import Wardence.Scorecard
import Wardence.Usage
import Wardence.Live.Committed
import Wardence.Live.FixRequest
