import VllmMetal.Lib.Paged
import VllmMetal.Lib.Ragged

/-!
# Metadata of a paged forward

`prepareGrouped` packs the decode requests and then the prefill requests of a step into one
sequence of rows and computes, for every scheduler cache group, the slot each row writes;
it also computes the segment boundaries, context lengths and offsets the kernels read.  A
decode request of several rows is a verification window: it stays one segment in the merged
layout and becomes one segment a row in the expanded one.  `buildBlockTables` turns the
scheduler's block tables into the kernel's.

## Main definitions

* `PagedAttentionContext`, `prepareGrouped` — the metadata of one forward.
* `pickKernelBlockSize`, `buildBlockTables` — block tables in kernel blocks.
* `rowSegment`, `rowPosition`, `rowVisible` — what a kernel makes of the metadata.
-/

namespace VllmMetal
namespace Attention

/-! ### Requests and context -/

/-- A decode request: its blocks for each cache group, the tokens already cached, and the
rows of its window. -/
structure DecodeRequest where
  blockIds : List (List ℕ)
  seqLen : ℕ
  numTokens : ℕ := 1

/-- A prefill request: its blocks for each cache group, the rows of the chunk and the
position of the first. -/
structure PrefillRequest where
  blockIds : List (List ℕ)
  numTokens : ℕ
  startPos : ℕ

/-- The slots and tables of one scheduler cache group. -/
structure PagedKVGroupContext where
  slotMapping : List ℕ
  blockTables : List (List ℕ)
  blockSize : ℕ
  deriving DecidableEq

/-- The metadata of one forward. -/
structure PagedAttentionContext where
  /-- Mirrors group zero. -/
  slotMapping : List ℕ
  /-- Mirrors group zero. -/
  blockTables : List (List ℕ)
  contextLens : List ℕ
  cuSeqlens : List ℕ
  offsets : List ℕ
  numDecodeRequests : ℕ
  numDecodeTokens : ℕ
  maxDecodeContextLen : ℕ
  verifyWindowQ : ℕ
  kvGroups : List PagedKVGroupContext
  deriving DecidableEq

/-- The index errors of the packing. -/
inductive ContextError where
  /-- `block_ids_by_group[group_index]`. -/
  | blockIdsByGroup (groupIndex : ℕ)
  /-- `block_ids[pos // block_size]`. -/
  | blockIds (groupIndex pos : ℕ)
  /-- `kv_groups[0]`. -/
  | kvGroups
  deriving DecidableEq

/-- The lists `prepare_grouped` fills. -/
structure Packed where
  groups : List PagedKVGroupContext
  cuSeqlens : List ℕ
  contextLens : List ℕ
  offsets : List ℕ
  maxDecodeWindow : ℕ
  numDecodeTokens : ℕ
  maxDecodeContextLen : ℕ

/-! ### Packing -/

/-- The slots of `n` rows from position `pos` on, in group `groupIndex`. -/
def slotsFrom (groupIndex blockSize : ℕ) (blockIds : List ℕ) :
    ℕ → ℕ → Except ContextError (List ℕ)
  | _, 0 => .ok []
  | pos, n + 1 =>
      match blockIds[pos / blockSize]? with
      | none => .error (.blockIds groupIndex pos)
      | some blockIdx =>
          match slotsFrom groupIndex blockSize blockIds (pos + 1) n with
          | .error e => .error e
          | .ok slots => .ok ((blockIdx * blockSize + pos % blockSize) :: slots)

/-- The loop over the groups for one request: its slots, and its table once for each of its
`segments` segments. -/
def pushGroups (blockIdsByGroup : List (List ℕ)) (start n segments : ℕ) :
    ℕ → List PagedKVGroupContext → Except ContextError (List PagedKVGroupContext)
  | _, [] => .ok []
  | groupIndex, group :: groups =>
      match blockIdsByGroup[groupIndex]? with
      | none => .error (.blockIdsByGroup groupIndex)
      | some blockIds =>
          match slotsFrom groupIndex group.blockSize blockIds start n with
          | .error e => .error e
          | .ok slots =>
              match pushGroups blockIdsByGroup start n segments (groupIndex + 1) groups with
              | .error e => .error e
              | .ok groups => .ok (
                  { group with
                    slotMapping := group.slotMapping ++ slots
                    blockTables := group.blockTables ++ List.replicate segments blockIds }
                  :: groups)

/-- Append the boundary, context length and offset of one segment of `n` rows from `start`. -/
def Packed.pushSegment (p : Packed) (start n : ℕ) : Packed :=
  { p with
    cuSeqlens := p.cuSeqlens ++ [p.cuSeqlens.getLastD 0 + n]
    contextLens := p.contextLens ++ [start + n]
    offsets := p.offsets ++ [start] }

/-- The loop body over the decode requests. -/
def pushDecode (mergeVerifyWindows : Bool) (p : Packed) (r : DecodeRequest) :
    Except ContextError Packed :=
  let expanded := 1 < r.numTokens ∧ mergeVerifyWindows = false
  match pushGroups r.blockIds r.seqLen r.numTokens (if expanded then r.numTokens else 1) 0
      p.groups with
  | .error e => .error e
  | .ok groups =>
      let p := { p with
        groups := groups
        numDecodeTokens := p.numDecodeTokens + r.numTokens
        maxDecodeContextLen := max p.maxDecodeContextLen (r.seqLen + r.numTokens) }
      if expanded then
        .ok ((List.range' r.seqLen r.numTokens).foldl (fun p pos => p.pushSegment pos 1) p)
      else
        let p := p.pushSegment r.seqLen r.numTokens
        .ok { p with maxDecodeWindow := max p.maxDecodeWindow r.numTokens }

/-- The loop body over the prefill requests. -/
def pushPrefill (p : Packed) (r : PrefillRequest) : Except ContextError Packed :=
  match pushGroups r.blockIds r.startPos r.numTokens 1 0 p.groups with
  | .error e => .error e
  | .ok groups => .ok ({ p with groups := groups }.pushSegment r.startPos r.numTokens)

/-- `prepare_grouped`. -/
def prepareGrouped (decodeRequests : List DecodeRequest) (prefillRequests : List PrefillRequest)
    (blockSizes : List ℕ) (mergeVerifyWindows : Bool) :
    Except ContextError PagedAttentionContext :=
  let empty : Packed := ⟨blockSizes.map fun blockSize => ⟨[], [], blockSize⟩, [0], [], [], 1, 0, 0⟩
  match decodeRequests.foldlM (pushDecode mergeVerifyWindows) empty with
  | .error e => .error e
  | .ok p =>
      match prefillRequests.foldlM pushPrefill p with
      | .error e => .error e
      | .ok p =>
          match p.groups with
          | [] => .error .kvGroups
          | group :: _ => .ok
              { slotMapping := group.slotMapping
                blockTables := group.blockTables
                contextLens := p.contextLens
                cuSeqlens := p.cuSeqlens
                offsets := p.offsets
                numDecodeRequests := decodeRequests.length
                numDecodeTokens := p.numDecodeTokens
                maxDecodeContextLen := p.maxDecodeContextLen
                verifyWindowQ := if prefillRequests = [] then p.maxDecodeWindow else 1
                kvGroups := p.groups }

/-! ### Kernel block tables -/

/-- `KERNEL_BLOCK_SIZES`, largest first. -/
def kernelBlockSizes : List ℕ := [32, 16, 8]

/-- `pick_kernel_block_size`, over any list of kernel block sizes. -/
def pickKernelBlockSize (sizes : List ℕ) (cacheBlockSize : ℕ) : Option ℕ :=
  sizes.find? fun kbs => decide (cacheBlockSize % kbs = 0)

/-- The rows padded with block `0` to the longest. -/
def padTables (tables : List (List ℕ)) : List (List ℕ) :=
  let maxBlocks := (tables.map List.length).foldl max 0
  tables.map fun table => table ++ List.replicate (maxBlocks - table.length) 0

/-- `build_block_tables`, over any list of kernel block sizes; `none` is the `ValueError` of
a cache block size that none of them divides. -/
def buildBlockTables (sizes : List ℕ) (rawBlockTables : List (List ℕ)) (cacheBlockSize : ℕ) :
    Option (List (List ℕ) × ℕ) :=
  if rawBlockTables = [] then some ([], cacheBlockSize)
  else if cacheBlockSize ∈ sizes then some (padTables rawBlockTables, cacheBlockSize)
  else
    (pickKernelBlockSize sizes cacheBlockSize).map fun kernelBs =>
      ((padTables rawBlockTables).map (splitTable (cacheBlockSize / kernelBs)), kernelBs)

/-! ### What a kernel reads -/

/-- `find_seq_idx`: the segment of packed row `k`. -/
def rowSegment (ctx : PagedAttentionContext) (k : ℕ) : ℕ :=
  searchSegment ctx.cuSeqlens k ctx.contextLens.length

/-- The position packed row `k` rotates at, from its segment's offset. -/
def rowPosition (ctx : PagedAttentionContext) (k : ℕ) : ℕ :=
  ctx.offsets.getD (rowSegment ctx k) 0 + (k - ctx.cuSeqlens.getD (rowSegment ctx k) 0)

/-- `effective_context_len`: packed row `k` attends to the positions below it. -/
def rowVisible (ctx : PagedAttentionContext) (k : ℕ) : ℕ :=
  let seqIdx := rowSegment ctx k
  let qSeqStart := ctx.cuSeqlens.getD seqIdx 0
  let qLen := ctx.cuSeqlens.getD (seqIdx + 1) 0 - qSeqStart
  ctx.contextLens.getD seqIdx 0 - qLen + (k - qSeqStart) + 1

/-- The cell a kernel reaches for position `p` of segment `seqIdx` through its tables.  Cells
are natural numbers: the 32-bit entries of a table hold every block of an allocated cache. -/
def kernelCell (tables : List (List ℕ) × ℕ) (seqIdx p : ℕ) : ℕ :=
  cellOf tables.2 (tables.1.getD seqIdx []) p

end Attention
end VllmMetal
