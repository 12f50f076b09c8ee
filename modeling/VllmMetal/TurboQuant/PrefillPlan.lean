import VllmMetal.Attention.Context
import VllmMetal.Lib.Dict
import VllmMetal.Lib.Interning
import VllmMetal.Lib.Raising
import VllmMetal.Lib.SparseRows
import VllmMetal.TurboQuant.Quantize

/-!
# Planning a TurboQuant prefill

Sequences with enough new rows read their compressed history through a dense copy.  The plan picks
them one after the other while the copy fits a workspace, gathers each kernel block once, and splits
the batch when some sequence stays on the compressed kernel.

## Main definitions

* `minPrefillTokens` — the rows a sequence needs.
* `selectRow`, `selectRows` — the admission of one sequence, and of all.
* `freshPlan` — the plan of a forward.
* `turboquantPrefillPlan` — the same with the memo of the forward.
-/

namespace VllmMetal
namespace TurboQuant

/-- The heads of a layer. -/
structure HeadGeometry where
  numQueryHeads : ℕ
  numKvHeads : ℕ
  headDim : ℕ
  /-- The thresholds divide by it. -/
  queryHeads_pos : 0 < numQueryHeads
  deriving DecidableEq

/-- The key format found in `QUANT_PARAMS`, and the bits of the values. -/
structure KvFormat where
  keyFormat : Option QuantType
  valueBits : Option ℕ
  deriving DecidableEq

/-- `_KernelMetadata`, as far as the plan reads it. -/
structure KernelMetadata where
  seqLens : List ℕ
  cuSeqlensQ : List ℕ
  blockTables : List (List ℕ)
  blockSize : ℕ
  maxSeqLen : ℕ
  tqPrefillWorkspaceBytes : ℕ

/-- `_AttentionBatch`. -/
structure AttentionBatch where
  queryIndices : Option (List ℕ)
  blockTables : List (List ℕ)
  seqLens : List ℕ
  cuSeqlensQ : List ℕ
  maxSeqLen : ℕ
  deriving DecidableEq

/-- `_TurboQuantPrefillPlan`. -/
structure PrefillPlan where
  prefill : AttentionBatch
  fallback : Option AttentionBatch
  restoreIndices : Option (List ℕ)
  poolPages : List ℕ
  poolOffsets : List ℕ
  workspaceBytes : ℕ
  deriving DecidableEq

/-- What planning can raise. -/
inductive PrefillPlanError where
  /-- "TurboQuant prefill requires cumulative query lengths". -/
  | missingCuSeqlens
  /-- A `zip(strict=True)` of lists of different lengths. -/
  | strictZip
  /-- An index past a raw block table. -/
  | blockTable (sequence : ℕ)
  deriving DecidableEq

/-! ### Thresholds and sizes -/

/-- `prefill_bytes_per_token`. -/
def prefillBytesPerToken (g : HeadGeometry) : ℕ := 4 * g.numKvHeads * g.headDim + 16

/-- `_TQ_HD128_CALIBRATED_GEOMETRIES`. -/
def tqHd128CalibratedGeometries : List (ℕ × ℕ × ℕ) :=
  [(8, 2, 128), (8, 8, 128), (32, 8, 128), (16, 2, 128)]

/-- The key format is signed and of eight bits. -/
def isSigned8 (keyFormat : Option QuantType) : Bool :=
  keyFormat.any fun t => (quantParams t).bits == 8 && (quantParams t).signed

/-- `min_prefill_tokens`. -/
def minPrefillTokens (g : HeadGeometry) (contextLen : Option ℕ) (f : KvFormat) : ℕ :=
  if contextLen.any (8192 ≤ ·) &&
      tqHd128CalibratedGeometries.contains (g.numQueryHeads, g.numKvHeads, g.headDim) &&
      isSigned8 f.keyFormat && f.valueBits == some 3 then 64
  else max (max 128 (g.headDim / 2)) ((256 * g.numKvHeads + g.numQueryHeads - 1) / g.numQueryHeads)

/-- `_routing_bytes`. -/
def routingBytes (g : HeadGeometry) (queries : ℕ) : ℕ :=
  queries * (3 * (g.numQueryHeads * g.headDim * 2) + 2 * 4)

/-- `_split_metadata_bytes`. -/
def splitMetadataBytes (numSequences fallbackCount tableWidth : ℕ) : ℕ :=
  (2 * numSequences + 2) * 4 + fallbackCount * (tableWidth + 1) * 4

/-! ### The batch -/

/-- What the plan of one layer is computed from. -/
structure PlanInput where
  contextLens : List ℕ
  cuSeqlens : List ℕ
  md : KernelMetadata
  rawBlockTables : List (List ℕ)
  cacheBlockSize : ℕ
  geometry : HeadGeometry
  minTokens : List ℕ

namespace PlanInput

variable (p : PlanInput)

/-- The query rows of each sequence. -/
def lengths : List ℕ := (p.cuSeqlens.dropLast.zip p.cuSeqlens.tail).map fun ab => ab.2 - ab.1

/-- The sequences that reach their threshold. -/
def candidates : List ℕ :=
  (List.range p.lengths.length).filter fun i => p.minTokens.getD i 0 ≤ p.lengths.getD i 0

/-- Kernel blocks of a scheduler page. -/
def ratio : ℕ := p.cacheBlockSize / p.md.blockSize

def bytesPerBlock : ℕ := p.md.blockSize * prefillBytesPerToken p.geometry

/-- `meta.block_tables.shape[1]`. -/
def fallbackWidth : ℕ := (p.md.blockTables.headD []).length

/-- The split metadata with `fallbackCount` sequences left behind. -/
def splitBytes (fallbackCount : ℕ) : ℕ :=
  splitMetadataBytes p.lengths.length fallbackCount p.fallbackWidth

/-- The routing copies of the whole batch. -/
def routing : ℕ := routingBytes p.geometry (p.cuSeqlens.getLastD 0)

/-- The kernel blocks of a sequence's context. -/
def numBlocks (i : ℕ) : ℕ := (p.contextLens.getD i 0 + p.md.blockSize - 1) / p.md.blockSize

/-- Kernel block `j` of sequence `i`, in its raw table. -/
def source (i j : ℕ) : ℕ :=
  (p.rawBlockTables.getD i []).getD (j / p.ratio) 0 * p.ratio + j % p.ratio

/-- The first `n` kernel blocks of sequence `i`; an index past the raw table raises. -/
def sources (i n : ℕ) : Except PrefillPlanError (List ℕ) :=
  if (p.rawBlockTables.getD i []).length * p.ratio < n then .error (.blockTable i)
  else .ok ((List.range n).map (p.source i))

end PlanInput

/-! ### Admission -/

/-- What the admission has accepted. -/
structure Selection where
  sourceBlocks : List ℕ
  prefillIds : List ℕ
  rows : List (List ℕ)
  tableWidth : ℕ

/-- Nothing accepted yet. -/
def Selection.empty : Selection := ⟨[], [], [], 0⟩

/-- The gathered blocks and the padded tables, and the split metadata with a split. -/
def PlanInput.selectionBytes (p : PlanInput) (split : Bool) (blocks rows width : ℕ) : ℕ :=
  blocks * p.bytesPerBlock + rows * width * 4 +
    if split then p.splitBytes (p.lengths.length - rows) else 0

/-- The body of the loop of `select_rows`. -/
def selectRow (p : PlanInput) (limit : ℤ) (split : Bool) (acc : Selection) (i : ℕ) :
    Except PrefillPlanError Selection :=
  if max 0 limit / p.bytesPerBlock < p.numBlocks i then .ok acc
  else
    match p.sources i (p.numBlocks i) with
    | .error e => .error e
    | .ok sources =>
      let additions := (sources.filter (· ∉ acc.sourceBlocks)).dedup
      let nextWidth := max acc.tableWidth (p.numBlocks i)
      let nextBytes := p.selectionBytes split (acc.sourceBlocks.length + additions.length)
        (acc.rows.length + 1) nextWidth
      if limit < nextBytes then .ok acc
      else
        let interned := internAll acc.sourceBlocks sources
        .ok ⟨interned.1, acc.prefillIds ++ [i], acc.rows ++ [interned.2], nextWidth⟩

/-- `select_rows`. -/
def selectRows (p : PlanInput) (limit : ℤ) (split : Bool) : Except PrefillPlanError Selection :=
  p.candidates.foldlM (selectRow p limit split) Selection.empty

/-- The admission without copies, and again with their cost when a split becomes necessary. -/
def selectForPlan (p : PlanInput) : Except PrefillPlanError Selection := do
  let limit : ℤ := p.md.tqPrefillWorkspaceBytes
  let mustSplit := decide (p.candidates.length < p.lengths.length)
  let first ← selectRows p (limit - if mustSplit then (p.routing : ℤ) else 0) mustSplit
  if mustSplit = false ∧ 0 < first.prefillIds.length
    ∧ first.prefillIds.length < p.lengths.length then
    selectRows p (limit - p.routing) true
  else .ok first

/-! ### The plan -/

/-- The packed query rows of a sequence. -/
def PlanInput.queryRows (p : PlanInput) (i : ℕ) : List ℕ :=
  List.range' (p.cuSeqlens.getD i 0) (p.cuSeqlens.getD (i + 1) 0 - p.cuSeqlens.getD i 0)

/-- `batch`: the metadata of some sequences, or of the whole batch unchanged. -/
def attentionBatch (p : PlanInput) (whole : Bool) (ids : List ℕ) (tables : List (List ℕ)) :
    AttentionBatch :=
  if whole then
    ⟨none, tables, p.md.seqLens, p.md.cuSeqlensQ, p.md.maxSeqLen⟩
  else
    let kvLens := ids.map fun i => p.contextLens.getD i 0
    { queryIndices := some (ids.flatMap p.queryRows)
      blockTables := tables
      seqLens := kvLens
      cuSeqlensQ := ids.foldl (fun cu i => cu ++ [cu.getLastD 0 + p.lengths.getD i 0]) [0]
      maxSeqLen := kvLens.foldl max 0 }

/-- The rest of `_turboquant_prefill_plan`, once sequences were admitted. -/
def planOfSelection (p : PlanInput) (sel : Selection) : PrefillPlan :=
  let fallbackIds := (List.range p.lengths.length).filter (· ∉ sel.prefillIds)
  let whole := fallbackIds.isEmpty
  let queryOrder := sel.prefillIds.flatMap p.queryRows ++ fallbackIds.flatMap p.queryRows
  let kernelBs := p.md.blockSize
  { prefill := attentionBatch p whole sel.prefillIds
      (sel.rows.map fun row => row ++ List.replicate (sel.tableWidth - row.length) 0)
    fallback := if whole then none
      else some (attentionBatch p whole fallbackIds
        (fallbackIds.map fun i => p.md.blockTables.getD i []))
    restoreIndices := if whole then none
      else some (scatterRows (List.replicate queryOrder.length 0) queryOrder
        (List.range queryOrder.length))
    poolPages := sel.sourceBlocks.flatMap fun b => List.replicate kernelBs (b / p.ratio)
    poolOffsets := sel.sourceBlocks.flatMap fun b =>
      (List.range kernelBs).map fun t => b % p.ratio * kernelBs + t
    workspaceBytes := sel.sourceBlocks.length * p.bytesPerBlock +
      sel.rows.length * sel.tableWidth * 4 +
      if whole then 0 else p.routing + p.splitBytes fallbackIds.length }

/-- `_turboquant_prefill_plan` past its memos. -/
def freshPlan (p : PlanInput) : Except PrefillPlanError (Option PrefillPlan) :=
  if p.lengths.length ≠ p.minTokens.length then .error .strictZip
  else if p.candidates = [] then .ok none
  else do
    let sel ← selectForPlan p
    if sel.prefillIds = [] then .ok none else .ok (some (planOfSelection p sel))

/-! ### The memos of a forward -/

/-- The key of a plan. -/
structure PlanKey where
  cacheBlockSize : ℕ
  geometry : HeadGeometry
  workspaceLimit : ℕ
  minTokens : List ℕ
  deriving DecidableEq

/-- `tq_prefill_plans` and `tq_min_tokens`. -/
structure PlanMemo where
  prefillPlans : Dict PlanKey (Option PrefillPlan)
  minTokens : Dict (HeadGeometry × KvFormat) (List ℕ)

/-- The thresholds of every sequence. -/
def thresholds (contextLens : List ℕ) (g : HeadGeometry) (f : KvFormat) : List ℕ :=
  contextLens.map fun contextLen => minPrefillTokens g (some contextLen) f

/-- What is computed for a key. -/
def inputOf (contextLens cuSeqlens : List ℕ) (md : KernelMetadata) (rawBlockTables : List (List ℕ))
    (key : PlanKey) : PlanInput :=
  ⟨contextLens, cuSeqlens, md, rawBlockTables, key.cacheBlockSize, key.geometry, key.minTokens⟩

/-- `_turboquant_prefill_plan`. -/
def turboquantPrefillPlan (contextLens : List ℕ) (cuSeqlens : Option (List ℕ)) (md : KernelMetadata)
    (rawBlockTables : List (List ℕ)) (cacheBlockSize : ℕ) (g : HeadGeometry) (f : KvFormat)
    (memo : PlanMemo) : Except PrefillPlanError (Option PrefillPlan × PlanMemo) :=
  if md.tqPrefillWorkspaceBytes = 0 then .ok (none, memo)
  else
    match cuSeqlens with
    | none => .error .missingCuSeqlens
    | some cuSeqlens =>
      let minTokens := (memo.minTokens.get? (g, f)).getD (thresholds contextLens g f)
      let memo := { memo with minTokens := memo.minTokens.setDefault (g, f) minTokens }
      let key : PlanKey := ⟨cacheBlockSize, g, md.tqPrefillWorkspaceBytes, minTokens⟩
      match memo.prefillPlans.get? key with
      | some plan => .ok (plan, memo)
      | none =>
        match freshPlan (inputOf contextLens cuSeqlens md rawBlockTables key) with
        | .error e => .error e
        | .ok plan => .ok (plan, { memo with prefillPlans := memo.prefillPlans.set key plan })

end TurboQuant
end VllmMetal
