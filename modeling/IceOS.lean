import IceOS.LevelScheduling
import IceOS.FailureReporting
import IceOS.TokenAbort
import IceOS.Continuation
import IceOS.Runnability
import IceOS.RunIsolation
import IceOS.StatusAgreement
import IceOS.LostUpdates
import IceOS.AtMostOnce
import IceOS.BudgetCap
import IceOS.DispatchOrder
import IceOS.ListingOrder
import IceOS.SafeEval
import IceOS.RecursiveConvergence
import IceOS.NestedFidelity
import IceOS.ToolArguments
import IceOS.CyclePolicies
import IceOS.StoredBlueprints
import IceOS.ContentIds
import IceOS.WorkingMemory
import IceOS.SemanticIndexes
import IceOS.ProceduralIndexes
import IceOS.DynamicWorkflows
import IceOS.PluginRetries
import IceOS.ToolLookups
import IceOS.ComponentLifecycle
import IceOS.PartialLocks
import IceOS.EpisodeRuns
import IceOS.ContextFile
import IceOS.ContextBudget
import IceOS.SessionContexts
import IceOS.WorkflowState
import IceOS.NetworkCoordinator
import IceOS.WorkflowBuilder
import IceOS.BuilderDrafts
import IceOS.DraftEdits
import IceOS.WsGateway
import IceOS.ValidatedCalls
import IceOS.TaskManager
import IceOS.ResourceSandbox
import IceOS.CodeNetwork
import IceOS.WorkflowEvents
import IceOS.NodeEvents
import IceOS.MaskedFailures
import IceOS.Metering
import IceOS.LevelSlots
import IceOS.RetryLaw
import IceOS.SafeRejection
import IceOS.PreviewTool
import IceOS.ExecutionWatchers
import IceOS.LibraryAssets
import IceOS.SemanticMap
import IceOS.CanvasStore
import IceOS.CanvasAutosave
import IceOS.PatchAgreement
import IceOS.MaximalPaths
import IceOS.CriticalPath
import IceOS.GraphAnalyzer
import IceOS.InputContexts
import IceOS.LoopBounds
import IceOS.ParallelMerge
import IceOS.SemanticStoring
import IceOS.KnowledgeQueries
import IceOS.FactMerging
import IceOS.VectorSearch
import IceOS.LruCache
import IceOS.SlidingWindow
import IceOS.RateLimit
import IceOS.PythonWords
import IceOS.TextChunks
import IceOS.EventStream
import IceOS.AgentRuntime
import IceOS.SharedMemory
import IceOS.ComponentLocks
import IceOS.PartialEdits
import IceOS.CostEstimates
import IceOS.MemoryPolicy
import IceOS.NodePatches
import IceOS.StackSearch
import IceOS.CanvasConnections
import IceOS.CanvasEdges
import IceOS.WorkflowCheckpoints
import IceOS.GeneratedCode
import IceOS.ToolSchemas
import IceOS.PythonRegex
import IceOS.TaskDecomposer
import IceOS.PlanReading
import IceOS.PlannedTasks
import IceOS.JsonScanning
import IceOS.JsonTexts
import IceOS.OutputRepair
import IceOS.PromptTemplates
import IceOS.DraftRegeneration
import IceOS.MapBuilder
import IceOS.RollingStats
import IceOS.LibraryListing
import IceOS.RunPlans
import IceOS.StructuralDiagnostics
import IceOS.ProjectScoping
import IceOS.Revisions
import IceOS.DependencyLayers
import IceOS.AutoLayout
import IceOS.Coercion
import IceOS.SimpleSchemas
import IceOS.ParallelBranches
import IceOS.JsonRpc
import IceOS.EventDelivery
import IceOS.TokenLifecycle
import IceOS.LlmAgent
