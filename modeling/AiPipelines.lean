import AiPipelines.PyStd.Str
import AiPipelines.PyStd.Lines
import AiPipelines.PyStd.Unicode
import AiPipelines.PyStd.Dict
import AiPipelines.PyStd.Json
import AiPipelines.PyStd.JsonDump
import AiPipelines.PyStd.JsonKeys
import AiPipelines.PyStd.Path
import AiPipelines.PyStd.FileTree
import AiPipelines.PyStd.Shlex
import AiPipelines.PyStd.TextFile
import AiPipelines.PyStd.JsonRoundTrip
import AiPipelines.PyStd.JsonLex
import AiPipelines.PyStd.SortDesc
import AiPipelines.PyStd.Tally
import AiPipelines.PyStd.Replace
import AiPipelines.PyStd.Joined
import AiPipelines.PyStd.ReSub
import AiPipelines.PyStd.PyValue
import AiPipelines.Transition
import AiPipelines.Effect
import AiPipelines.Spans
import AiPipelines.Buffer
import AiPipelines.Interleave
import AiPipelines.SessionStore.Store
import AiPipelines.SessionStore.System
import AiPipelines.SessionStore.Moves
import AiPipelines.SessionStore.WellKeyed
import AiPipelines.SessionStore.Durability
import AiPipelines.SessionStore.Codec
import AiPipelines.SessionStore.Deletion
import AiPipelines.SessionStore.Paths
import AiPipelines.Agent.Protocol
import AiPipelines.Agent.Tools
import AiPipelines.Agent.Service
import AiPipelines.Agent.Registry
import AiPipelines.Agent.Chat
import AiPipelines.Agent.LoopTrace
import AiPipelines.Agent.LoopSound
import AiPipelines.Agent.ToolBudget
import AiPipelines.Agent.LoopEnds
import AiPipelines.Agent.Usage
import AiPipelines.Agent.Markers
import AiPipelines.Agent.ToolCallText
import AiPipelines.Turn.Pipeline
import AiPipelines.Turn.Handlers
import AiPipelines.Turn.Frame
import AiPipelines.Turn.FailedTurn
import AiPipelines.Turn.ChatHistory
import AiPipelines.Turn.Isolation
import AiPipelines.Turn.Recorded
import AiPipelines.Turn.SideBySide
import AiPipelines.Turn.Restart
import AiPipelines.Turn.RestartRuns
import AiPipelines.Turn.AudioFiles
import AiPipelines.TraceGen.Instruction
import AiPipelines.TraceGen.Machine
import AiPipelines.TraceGen.CallTree
import AiPipelines.TraceGen.Steps
import AiPipelines.TraceGen.Follows
import AiPipelines.TraceGen.TargetTrace
import AiPipelines.TraceGen.Reentry
import AiPipelines.TraceGen.WholeProgram
import AiPipelines.TraceGen.Laminar
import AiPipelines.TraceGen.Filter
import AiPipelines.TraceGen.FromStr
import AiPipelines.TraceGen.Canonical
import AiPipelines.TraceGen.Robust
import AiPipelines.TraceGen.SymTable
import AiPipelines.Iminnt.SimCfg
import AiPipelines.Iminnt.RunCmd
import AiPipelines.Iminnt.ParseOutput
import AiPipelines.Iminnt.LlamaArgs
import AiPipelines.Iminnt.StopSequences
import AiPipelines.Iminnt.ThreadArgs
import AiPipelines.Jetson.SlotMapping
import AiPipelines.Jetson.TritonKernel
import AiPipelines.Jetson.SlotAliasing
import AiPipelines.Commerce.Normalize
import AiPipelines.Commerce.Repository
import AiPipelines.Commerce.Payments
import AiPipelines.Commerce.Identity
import AiPipelines.Commerce.SpokenIds
import AiPipelines.Commerce.OrderNumbers
import AiPipelines.Commerce.SpokenEmail
import AiPipelines.Iminnt.InitCmd
import AiPipelines.Iminnt.CfgDefinitions
import AiPipelines.Iminnt.ReadCfg
import AiPipelines.Iminnt.CompoundInit
import AiPipelines.Iminnt.SyncCmd
import AiPipelines.Knowledge.Chunks
import AiPipelines.Knowledge.Index
import AiPipelines.Knowledge.Fresh
import AiPipelines.Knowledge.Build
import AiPipelines.Knowledge.FreshLoad
import AiPipelines.Knowledge.SplitText
import AiPipelines.Knowledge.LoadSafe
import AiPipelines.Knowledge.Tokens
import AiPipelines.Knowledge.Bm25
import AiPipelines.Retrieval.VectorStore
import AiPipelines.Retrieval.MergeHits
import AiPipelines.Retrieval.VectorSearch
import AiPipelines.Voice.AutoVoice
import AiPipelines.Voice.TurnCap
import AiPipelines.Voice.StateMachine
import AiPipelines.StagedVoice.ProfileLog
import AiPipelines.LlmRegistry.Threads
import AiPipelines.Links
import AiPipelines.Causal
import AiPipelines.KvCache.FreeQueue
import AiPipelines.KvCache.Deque
import AiPipelines.KvCache.BlockPool
import AiPipelines.KvCache.PoolInv
import AiPipelines.KvCache.Hashes
import AiPipelines.KvCache.HashChain
import AiPipelines.KvCache.Manager
import AiPipelines.KvCache.ManagerInv
import AiPipelines.KvCache.Scheduling
import AiPipelines.KvCache.Memory
import AiPipelines.KvCache.Safety
import AiPipelines.Speculation
import AiPipelines.Ragged
import AiPipelines.SpecDecode.RejectionSampler
import AiPipelines.SpecDecode.Batch
import AiPipelines.SpecDecode.Output
import AiPipelines.SpecDecode.Greedy
import AiPipelines.LlmRegistry.LoadOnce
import AiPipelines.Moshi.ReplyText
import AiPipelines.RemoteChat.Stream
