import GraphSkillRuntime.OrderedDict
import GraphSkillRuntime.Value
import GraphSkillRuntime.Schema
import GraphSkillRuntime.State
import GraphSkillRuntime.StateMapper
import GraphSkillRuntime.Iterate
import GraphSkillRuntime.PhaseFrame
import GraphSkillRuntime.PhaseWrapper
import GraphSkillRuntime.SubgraphOutputs
import GraphSkillRuntime.Runs
import GraphSkillRuntime.HostNative
import GraphSkillRuntime.HostNativeRefinement
import GraphSkillRuntime.Handoff
import GraphSkillRuntime.HandoffAgreement
import GraphSkillRuntime.HandoffRecovery
import GraphSkillRuntime.LaneNamespaces
import GraphSkillRuntime.GraphRun
import GraphSkillRuntime.SubagentDepth
import GraphSkillRuntime.Worklist
import GraphSkillRuntime.SkillGraph
import GraphSkillRuntime.BlackboardSlots
import GraphSkillRuntime.AcceptedDeltas
import GraphSkillRuntime.ParallelWriters
import GraphSkillRuntime.StaticDataflow
import GraphSkillRuntime.PhaseEntries
import GraphSkillRuntime.DataflowSoundness
import GraphSkillRuntime.ColorSearch
import GraphSkillRuntime.DependencyOrder
import GraphSkillRuntime.GraphTopology
import GraphSkillRuntime.GraphRegistry
import GraphSkillRuntime.FlowRecords
import GraphSkillRuntime.AgentMessages
import GraphSkillRuntime.CognitiveFlow
import GraphSkillRuntime.ExitControl
import GraphSkillRuntime.MiddlewareLanes
import GraphSkillRuntime.AgentLoop
import GraphSkillRuntime.CallSites
import GraphSkillRuntime.ToolCallReports
import GraphSkillRuntime.JsonText
import GraphSkillRuntime.JsonRoundTrip
import GraphSkillRuntime.JsonRenderings
import GraphSkillRuntime.JsonAscii
import GraphSkillRuntime.PythonRepr
import GraphSkillRuntime.JsonLines
import GraphSkillRuntime.TraceFile
import GraphSkillRuntime.PyData
import GraphSkillRuntime.SnapshotCodec
import GraphSkillRuntime.SkillManifests
import GraphSkillRuntime.CompiledSnapshot
import GraphSkillRuntime.CompileCache
import GraphSkillRuntime.EdgeTransitions
import GraphSkillRuntime.SegmentBracketing
import GraphSkillRuntime.EdgeOperations
import GraphSkillRuntime.ConfigBlocks
import GraphSkillRuntime.JsonSelectors
import GraphSkillRuntime.Installer
import GraphSkillRuntime.InstallerFormats
import GraphSkillRuntime.InstallerPlans
import GraphSkillRuntime.InstallerApply
import GraphSkillRuntime.InstallerPaths
import GraphSkillRuntime.InstallerRoundTrip
import GraphSkillRuntime.InstallerOwnership
import GraphSkillRuntime.InstallerUpgrade
import GraphSkillRuntime.RunContracts
import GraphSkillRuntime.InlineSecrets
import GraphSkillRuntime.Compaction
import GraphSkillRuntime.LoopIterate
import GraphSkillRuntime.BatchAggregate
import GraphSkillRuntime.RequestEquality
import GraphSkillRuntime.RunSnapshots
import GraphSkillRuntime.FileActions
import GraphSkillRuntime.StudioMigration
import GraphSkillRuntime.TraceVerdicts
import GraphSkillRuntime.SubagentRecursion
import GraphSkillRuntime.ByteFrames
import GraphSkillRuntime.ExecutionFingerprint
import GraphSkillRuntime.IterateRange
import GraphSkillRuntime.ToolHistory
import GraphSkillRuntime.HitlCheckpoints
import GraphSkillRuntime.ResumeScope
import GraphSkillRuntime.CheckpointSelection
import GraphSkillRuntime.MarkdownBlocks
import GraphSkillRuntime.MarkdownFields
import GraphSkillRuntime.ListCuts
import GraphSkillRuntime.MarkdownExcerpt
import GraphSkillRuntime.MarkdownPatch
import GraphSkillRuntime.JsonIndent
import GraphSkillRuntime.MarkdownTexts
import GraphSkillRuntime.PredictPayload
import GraphSkillRuntime.SubmissionHoist
import GraphSkillRuntime.YamlModels
import GraphSkillRuntime.GraphSerializer
import GraphSkillRuntime.HostNativePauses
import GraphSkillRuntime.OutputAttribution
import GraphSkillRuntime.ConfigPrecedence
import GraphSkillRuntime.RunCache
import GraphSkillRuntime.MountedTools
import GraphSkillRuntime.SubagentCalls
import GraphSkillRuntime.PurityScan
import GraphSkillRuntime.LinkedPaths
import GraphSkillRuntime.WorkspaceFiles
import GraphSkillRuntime.ArtifactManifest
import GraphSkillRuntime.TaggedText
import GraphSkillRuntime.AgentBody
import GraphSkillRuntime.SchemaEngine
import GraphSkillRuntime.GateSchemas
import GraphSkillRuntime.ProviderStream
import GraphSkillRuntime.MessageReducer
import GraphSkillRuntime.RequiredPaths
import GraphSkillRuntime.GoldenComparison
import GraphSkillRuntime.RuntimeInputs
import GraphSkillRuntime.NudgeBudget
import GraphSkillRuntime.JsonCompact
import GraphSkillRuntime.JsonPlaces
import GraphSkillRuntime.MigratedArtifacts
import GraphSkillRuntime.TomlModels
import GraphSkillRuntime.PresetConfig
import GraphSkillRuntime.RunRetention
import GraphSkillRuntime.LinkedMigration
import GraphSkillRuntime.DependencyClosures
import GraphSkillRuntime.SubObjects
import GraphSkillRuntime.VendorStreams
import GraphSkillRuntime.ListValues
import GraphSkillRuntime.CanonicalKeys
import GraphSkillRuntime.CanonicalReading
import GraphSkillRuntime.YamlNodes
import GraphSkillRuntime.SourceMap
import GraphSkillRuntime.InstallerFrames
import GraphSkillRuntime.InstallerRuns
import GraphSkillRuntime.Linearizations
import GraphSkillRuntime.PhaseSchedules
import GraphSkillRuntime.OutputExamples
import GraphSkillRuntime.OutputExampleSchemas
import GraphSkillRuntime.WorkerPools
import GraphSkillRuntime.ParallelMap
import GraphSkillRuntime.PredictStubs
import GraphSkillRuntime.Supersteps
import GraphSkillRuntime.AssembledRuns
import GraphSkillRuntime.NumberedLogs
import GraphSkillRuntime.EventStreams
import GraphSkillRuntime.ErrorRedaction
import GraphSkillRuntime.BatchGather
import GraphSkillRuntime.FencedLogs
import GraphSkillRuntime.RuntimeStates
import GraphSkillRuntime.RunArtifactStores
import GraphSkillRuntime.CliLoops
