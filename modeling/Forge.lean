import Forge.Python.Text
import Forge.Python.Lines
import Forge.Python.Utf8
import Forge.Python.Utf8Lines
import Forge.Python.PosixPath
import Forge.Python.Regex
import Forge.Python.Dict
import Forge.Python.Sorting
import Forge.Python.Float
import Forge.Python.Value
import Forge.Python.Search
import Forge.Python.Hashlib
import Forge.Python.Json
import Forge.Python.JsonText
import Forge.Python.JsonRoundTrip
import Forge.Python.JsonSort
import Forge.Theory.Acyclic
import Forge.Theory.Depth
import Forge.Theory.DependencySolution
import Forge.Theory.Transition
import Forge.Theory.Traversal
import Forge.Registry.SemVer
import Forge.Registry.ValidVersion
import Forge.Registry.Constraint
import Forge.Registry.Resolver
import Forge.Registry.ResolverTrace
import Forge.Registry.ResolverFrame
import Forge.Registry.ResolverInvariant
import Forge.Registry.Lockfile
import Forge.Registry.Resolution
import Forge.Registry.ResolverErrors
import Forge.Registry.ResolverTermination
import Forge.Registry.ResolverCalls
import Forge.Registry.Precedence
import Forge.Registry.VersionOrder
import Forge.Registry.Canonical
import Forge.Registry.Ranges
import Forge.Registry.Pin
import Forge.Registry.Selection
import Forge.Registry.ResolutionErrors
import Forge.Registry.Walk
import Forge.Registry.Conflicts
import Forge.Registry.Guide
import Forge.Registry.FixedPoint
import Forge.Registry.ExactPin
import Forge.Registry.Elsewhere
import Forge.Registry.Permutation
import Forge.Registry.Metadata
import Forge.Registry.Storage
import Forge.Registry.KeyOrder
import Forge.Registry.Server
import Forge.Registry.ServerInvariant
import Forge.Registry.PublishSafety
import Forge.Registry.HttpClient
import Forge.Registry.PublishedDeps
import Forge.Registry.BlobIntegrity
import Forge.Registry.PublishEffects
import Forge.Registry.Auth
import Forge.Registry.Service
import Forge.Registry.HttpView
import Forge.Engine.Pipeline
import Forge.Engine.Parser
import Forge.Engine.ConstraintAgreement
import Forge.Engine.FieldChecks
import Forge.Engine.Memory
import Forge.Engine.YamlNode
import Forge.Engine.OutputHints
import Forge.Engine.PipelineParser
import Forge.Engine.PipelineSchema
import Forge.Engine.NodeFits
import Forge.Engine.Acceptance
import Forge.Engine.Idempotence
import Forge.Engine.NodeTree
import Forge.Engine.ParsedPipeline
import Forge.Engine.Scheduler
import Forge.Engine.Graph
import Forge.Engine.CycleDetection
import Forge.Engine.TopologicalSort
import Forge.Engine.CycleSearch
import Forge.Engine.ExecutionPlan
import Forge.Engine.Skipping
import Forge.Engine.Execution
import Forge.Engine.ExecutionSteps
import Forge.Engine.Pool
import Forge.Engine.Termination
import Forge.Engine.Reference
import Forge.Engine.Bookkeeping
import Forge.Engine.RunInvariant
import Forge.Engine.RunResult
import Forge.Engine.Levelling
import Forge.Engine.FailureMarking
import Forge.Engine.Soundness
import Forge.Engine.Cooperation
import Forge.Engine.Publishing
import Forge.Engine.Records
import Forge.Engine.RecordsInvariant
import Forge.Engine.RecordsRun
import Forge.Engine.Requests
import Forge.Engine.EarlyRequests
import Forge.Engine.AfterAll
import Forge.Engine.ArtifactWalks
import Forge.Engine.CooperatedRuns
import Forge.Engine.FirstFinds
import Forge.Engine.SecondFinds
import Forge.Engine.PublishOnce
import Forge.Engine.Launch
import Forge.Engine.Endings
import Forge.Engine.LockfileText
import Forge.Engine.Logs
import Forge.Engine.LogText
import Forge.Engine.LogFollowers
import Forge.Engine.Progress
import Forge.Engine.Entries
import Forge.Engine.EntryHistory
import Forge.Engine.Journal
import Forge.Engine.Transcripts
import Forge.Engine.Alerts
import Forge.Engine.TornReads
import Forge.Engine.ArtifactFiles
import Forge.Engine.LogFiles
import Forge.Engine.Runner
import Forge.Engine.RunnerOutcome
import Forge.Engine.StepOutput
import Forge.Engine.ContainerCalls
import Forge.Engine.Classification
import Forge.Platform.System
import Forge.Platform.Runs
import Forge.Platform.Delivery
import Forge.Platform.Publication
import Forge.Platform.Integrity
import Forge.Platform.Resolution
import Forge.Cli.Commands
import Forge.Cli.Following
import Forge.Cli.Packages
