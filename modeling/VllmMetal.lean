import VllmMetal.Lib.Dict
import VllmMetal.Lib.Run
import VllmMetal.Lib.Autoregressive
import VllmMetal.Lib.Paged
import VllmMetal.Lib.Ragged
import VllmMetal.Lib.WriteBack
import VllmMetal.Lib.SharedPool
import VllmMetal.DraftModel.Proposer
import VllmMetal.DraftModel.Plan
import VllmMetal.DraftModel.Cells
import VllmMetal.DraftModel.Coherence
import VllmMetal.Runner.Request
import VllmMetal.SpecDecode.Verify
import VllmMetal.SpecDecode.Lossless
import VllmMetal.Attention.Context
import VllmMetal.Attention.Addressing
import VllmMetal.State.Cache
import VllmMetal.State.LazyKernels
import VllmMetal.State.Refinement
import VllmMetal.State.StepSlots
import VllmMetal.State.GdnForward
import VllmMetal.State.GdnAcceptance
import VllmMetal.Runner.DraftCaps
import VllmMetal.State.Align
import VllmMetal.State.AlignRun
import VllmMetal.KvOffload.FsTier
import VllmMetal.KvOffload.StoreCap
import VllmMetal.Attention.BidiPrefill
import VllmMetal.Attention.WorkAssignment
import VllmMetal.Lib.LruCache
import VllmMetal.Lora.ModelManager
import VllmMetal.Lora.SlotTable
import VllmMetal.Lora.SlotRun
import VllmMetal.KvOffload.ConnectorStep
import VllmMetal.Lora.FailedCalls
import VllmMetal.Multimodal.BidiRanges
import VllmMetal.Multimodal.BidiRun
import VllmMetal.Lib.SparseRows
import VllmMetal.Multimodal.PagedForward
import VllmMetal.Multimodal.Splice
import VllmMetal.Multimodal.Chunking
import VllmMetal.PytorchBackend.PostUpdate
import VllmMetal.BlockDraft.Context
import VllmMetal.BlockDraft.Schedule
import VllmMetal.BlockDraft.Advance
import VllmMetal.BlockDraft.Coverage
import VllmMetal.Logits.Layout
import VllmMetal.Logits.Grammar
import VllmMetal.Logits.Readers
import VllmMetal.Lib.BitStream
import VllmMetal.TurboQuant.Packing
import VllmMetal.Lib.RoundEven
import VllmMetal.TurboQuant.Quantize
import VllmMetal.CachePolicy.MemoryPlan
import VllmMetal.Lib.Interning
import VllmMetal.TurboQuant.PrefillPlan
import VllmMetal.TurboQuant.PrefillSound
import VllmMetal.TurboQuant.Workspace
import VllmMetal.Gguf.BlockFormat
import VllmMetal.Gguf.RawBlock
import VllmMetal.Gguf.RawBlockSound
import VllmMetal.Stt.AudioSplit
import VllmMetal.Lib.RowSegments
import VllmMetal.Lora.RoutedLinear
import VllmMetal.Attention.YocoReduced
import VllmMetal.Moe.ExpertStore
import VllmMetal.Moe.CacheSound
import VllmMetal.KvOffload.HostPool
import VllmMetal.KvOffload.HostPoolSound
import VllmMetal.KvOffload.HostPoolRun
import VllmMetal.KvOffload.StoreOrder
import VllmMetal.Lib.Descending
import VllmMetal.Sampling.Candidates
import VllmMetal.Sampling.CandidatesSound
import VllmMetal.Lib.Batch
import VllmMetal.PromptLogprobs.Tracker
import VllmMetal.PromptLogprobs.Runner
import VllmMetal.PromptLogprobs.Schedule
import VllmMetal.PromptLogprobs.Lifecycle
import VllmMetal.Attention.MlaRouting
import VllmMetal.Attention.MlaSound
import VllmMetal.Attention.MlaForward
import VllmMetal.Attention.NaxTiles
import VllmMetal.Attention.NaxSplit
import VllmMetal.Attention.NaxWork
import VllmMetal.Attention.GqaScratch
import VllmMetal.Lib.Butterfly
import VllmMetal.TurboQuant.Fwht
import VllmMetal.TurboQuant.FwhtSound
import VllmMetal.Lib.Gather
import VllmMetal.Gguf.Adapter
import VllmMetal.Gguf.Layout
import VllmMetal.Gguf.AdapterSound
import VllmMetal.Gguf.Partition
import VllmMetal.Gguf.LayoutSound
import VllmMetal.Gguf.PartitionSound
import VllmMetal.PytorchBackend.InputOps
import VllmMetal.PytorchBackend.InputOpsSound
import VllmMetal.PytorchBackend.CombineTokens
import VllmMetal.BlockDraft.DFlash
import VllmMetal.BlockDraft.PagedBlock
import VllmMetal.BlockDraft.PagedBlockSound
import VllmMetal.BlockDraft.PagedCall
import VllmMetal.Lib.Slot
import VllmMetal.Runner.Lifecycle
import VllmMetal.Runner.Sampled
import VllmMetal.Runner.Pipeline
import VllmMetal.Runner.Eligible
import VllmMetal.Runner.DeferredSample
import VllmMetal.Runner.Deferred
import VllmMetal.Runner.Lives
import VllmMetal.Runner.Executed
import VllmMetal.Runner.SampledLives
import VllmMetal.Runner.Bookkeeping
import VllmMetal.Runner.Broadcast
import VllmMetal.Runner.Stages
import VllmMetal.Gguf.Affine
import VllmMetal.Gguf.AffineParse
import VllmMetal.Gguf.AffineSound
import VllmMetal.Gguf.FileSound
