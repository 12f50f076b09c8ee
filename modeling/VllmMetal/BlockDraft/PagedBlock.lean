import VllmMetal.Attention.BidiPrefill
import VllmMetal.BlockDraft.DFlash
import VllmMetal.BlockDraft.Proposer
import Mathlib.Data.Nat.Size

/-!
# The block forward over the shared pages

`compile_block` runs the blocks of several requests at once.  Each layer first writes the keys and
values of the blocks behind the committed context of their requests.  A layer without a window then
calls the paged kernel, with a pair of bounds for every row that makes the whole block visible to
it.  A layer with a window gathers the positions that any of its rows may see and attends under a
mask; how many are gathered depends on the longest request, and the number is rounded up so that few
shapes are compiled.

## Main definitions

* `reshapeAndCache`, `pagedAttentionPrimitive` — the kernels.
* `windowAttention`, `layerAttention` — `_window_attention`, and either way of attending.
* `pagedLayer`, `pagedForward` — the compiled forward.
* `spanBucket`, `draft` — the call.
-/

namespace VllmMetal
namespace BlockDraft

open Attention Matrix

/-- The errors of a call. -/
inductive BlockError where
  /-- "Block draft width must fit the trained block_size" -/
  | width
  /-- "DFlash anchors must be a nonempty integer vector" -/
  | anchors
  /-- "Block draft needs one block table per anchor" -/
  | tables
  /-- The errors that the slots of a row raise. -/
  | rows (e : ProposeError)
  /-- No kernel block size divides that of the cache. -/
  | blockSize
  /-- "Block draft currently requires a native cache block size" -/
  | nativeBlockSize
  /-- "Block draft embeddings must match the write span and KV precision" -/
  | embeddings
  /-- `assert rows is not None` of the gather. -/
  | gather
  /-- A layer without a cache. -/
  | layers
  deriving DecidableEq

variable {K Hid Head KvHead Dim : Type} [Field K] [Add Hid] [Fintype Dim]

/-- The keys and values of one layer in the shared allocation, by slot. -/
structure LayerCache (K KvHead Dim : Type) where
  keys : ℕ → KvRow K KvHead Dim
  values : ℕ → KvRow K KvHead Dim
  /-- `block_stride_for_layer`. -/
  blockStride : ℕ

/-- `reshape_and_cache`. -/
def reshapeAndCache (cache : LayerCache K KvHead Dim) (keys values : List (KvRow K KvHead Dim))
    (slots : List ℕ) : LayerCache K KvHead Dim :=
  { cache with keys := scatter cache.keys slots keys, values := scatter cache.values slots values }

/-- A cache in blocks. -/
def blocksOf {C : Type} (blockSize numBlocks : ℕ) (rows : ℕ → C) : BlockCache blockSize C where
  blocks := (List.range numBlocks).map fun b => (List.range blockSize).map fun o =>
    rows (b * blockSize + o)
  shape := by
    intro block hblock
    obtain ⟨b, -, rfl⟩ := List.mem_map.mp hblock
    rw [List.length_map, List.length_range]

/-- The arrays of a call, on the device. -/
structure BlockArrays where
  width : ℕ
  blockSize : ℕ
  numBlocks : ℕ
  tables : List (List ℕ)
  offsets : List ℕ
  slots : List ℕ
  ranges : List (ℤ × ℤ)
  /-- `positions.size`. -/
  span : ℕ

/-- `paged_attention_primitive`: the kernel finds the segment of a packed row, its position, and
the keys that it leaves the row. -/
def pagedAttentionPrimitive (exp : K → K) (model : DFlashModel K Hid Head KvHead Dim)
    (queries : List (Head → Dim → K)) (cache : LayerCache K KvHead Dim) (tables : List (List ℕ))
    (lengths boundaries : List ℕ) (blockSize : ℕ) (slidingWindow : ℤ)
    (mmPrefixRanges : Option (List (ℤ × ℤ))) : List (Head → Dim → K) :=
  queries.mapIdx fun k query =>
    let seqIdx := searchSegment boundaries k lengths.length
    let qStart := boundaries.getD seqIdx 0
    let qLen := boundaries.getD (seqIdx + 1) 0 - qStart
    let seqLen := lengths.getD seqIdx 0
    let cell := cellOf blockSize (tables.getD seqIdx [])
    blockRow exp model query (fun p => cache.keys (cell p)) (fun p => cache.values (cell p))
      (kernelKeys slidingWindow seqLen (mmPrefixRow mmPrefixRanges k)
        (seqLen - qLen + (k - qStart)))

/-- `reshape(batch, span, ...)`. -/
def reshapeRows {C : Type*} (batch span : ℕ) (rows : List C) : List (List C) :=
  (List.range batch).map fun b => (rows.drop (b * span)).take span

/-- `_window_attention`: a row of results for each request. -/
def windowAttention (exp : K → K) (model : DFlashModel K Hid Head KvHead Dim)
    (queries : List (List (Head → Dim → K))) (cache : LayerCache K KvHead Dim) (a : BlockArrays)
    (window : ℕ) : Except BlockError (List (List (Head → Dim → K))) :=
  let batch := queries.length
  let span := min (window + a.width) a.span
  let positions := a.offsets.map fun offset => List.range' (offset - window) span
  let valid := List.zipWith (fun offset row => row.map fun p => decide (p < offset + a.width))
    a.offsets positions
  let safePositions := List.zipWith (List.zipWith fun p ok => if ok then p else 0) positions valid
  let slots := (List.zipWith (fun table row => row.map (cellOf a.blockSize table)) a.tables
    safePositions).flatten
  let gather (rows : ℕ → KvRow K KvHead Dim) : Option (List (List (KvRow K KvHead Dim))) :=
    (@gatherKv _ _ ⟨0⟩ (blocksOf a.blockSize a.numBlocks rows)
      slots cache.blockStride).map fun rows =>
      -- padding may read an uninitialized page
      List.zipWith (List.zipWith fun row ok => if ok then row else 0) (reshapeRows batch span rows)
        valid
  match gather cache.keys, gather cache.values with
  | some keys, some values => .ok (queries.mapIdx fun b rows => rows.mapIdx fun j query =>
      let offset := a.offsets.getD b 0
      let mask := List.zipWith (fun p ok => ok && (!model.causalBlocks || p ≤ offset + j))
        (positions.getD b []) (valid.getD b [])
      attendRow exp model query (keys.getD b []) (values.getD b []) mask)
  | _, _ => .error .gather

/-- How a layer attends: by the kernel without a window, and to gathered rows with one. -/
def layerAttention (exp : K → K) (model : DFlashModel K Hid Head KvHead Dim) (a : BlockArrays)
    (queries : List (List (Head → Dim → K))) (cache : LayerCache K KvHead Dim)
    (window : Option ℕ) : Except BlockError (List (List (Head → Dim → K))) :=
  let batch := queries.length
  match window with
  | none =>
      let out := pagedAttentionPrimitive exp model queries.flatten cache a.tables
        (a.offsets.map (· + a.width)) ((List.range (batch + 1)).map (· * a.width)) a.blockSize (-1)
        -- a one-position block has no future block rows
        (if 1 < a.width then some a.ranges else none)
      .ok (reshapeRows batch a.width out)
  | some window => windowAttention exp model queries cache a window

/-- A round of the loop of `forward`. -/
def pagedLayer (exp : K → K) (model : DFlashModel K Hid Head KvHead Dim) (a : BlockArrays)
    (layer : DecoderLayer K Hid Head KvHead Dim) (window : Option ℕ)
    (cache : LayerCache K KvHead Dim) (h : List (List Hid)) :
    Except BlockError (List (List Hid) × LayerCache K KvHead Dim) := do
  let x := h.map fun rows => rows.map layer.inputLayernorm
  let blocks := List.zipWith (layer.selfAttn.projectBlock model.rope) x a.offsets
  let cache := reshapeAndCache cache (blocks.flatMap (·.keys)) (blocks.flatMap (·.values)) a.slots
  let out ← layerAttention exp model a (blocks.map (·.queries)) cache window
  let h := List.zipWith (List.zipWith fun row o => row + layer.selfAttn.oProj o) h out
  .ok (h.map fun rows => rows.map fun row =>
    row + layer.mlp (layer.postAttentionLayernorm row), cache)

/-- The loop of `forward`. -/
def pagedLayers (exp : K → K) (model : DFlashModel K Hid Head KvHead Dim) (a : BlockArrays) :
    List (DecoderLayer K Hid Head KvHead Dim × Option ℕ) → List (LayerCache K KvHead Dim) →
    List (List Hid) → Except BlockError (List (List Hid) × List (LayerCache K KvHead Dim))
  | [], _, h => .ok (h, [])
  | _ :: _, [], _ => .error .layers
  | (layer, window) :: layers, cache :: caches, h => do
      let (h, cache) ← pagedLayer exp model a layer window cache h
      let (h, caches) ← pagedLayers exp model a layers caches h
      .ok (h, cache :: caches)

/-- `forward`: the states of the blocks, which `finish` receives, and the caches. -/
def pagedForward (exp : K → K) (model : DFlashModel K Hid Head KvHead Dim) (a : BlockArrays)
    (embed : List Token → List (List Hid)) (anchors : List Token)
    (caches : List (LayerCache K KvHead Dim)) :
    Except BlockError (List (List Hid) × List (LayerCache K KvHead Dim)) :=
  let h := embed anchors
  if h.length ≠ anchors.length ∨ ∃ rows ∈ h, rows.length ≠ a.width then .error .embeddings
  else pagedLayers exp model a (model.layers.zip model.contextWindows) caches h

/-- The positions that are gathered for a layer with a window, from the longest request. -/
def spanBucket (maxWindow maxOffset width maxModelLen : ℕ) : ℕ :=
  if maxWindow = 0 then 0
  else
    let needed := min maxOffset maxWindow + width
    let boundary := max 1024 (1 <<< (needed - 1).size)
    min (min (min (max 256 (1 <<< (needed - 1).size))
      (boundary - if needed ≠ boundary then 1 else 0)) (maxWindow + width)) maxModelLen

/-- `max_window`. -/
def DFlashModel.maxWindow (model : DFlashModel K Hid Head KvHead Dim) : ℕ :=
  (model.contextWindows.map fun w => w.getD 0).foldl max 0

/-- The block of a request: its pages, and the positions that follow its committed context. -/
def blockSpan (width : ℕ) (row : List ℕ × ℕ) : Span := ⟨row.1, row.2, width⟩

/-- The tables of the rows, of one width. -/
def rawTables (cfg : DrafterConfig) (width : ℕ) (rows : List (List ℕ × ℕ)) : List (List ℕ) :=
  let tableWidth := (cfg.maxModelLen + cfg.blockSize - 1) / cfg.blockSize
  rows.map fun row =>
    let table := row.1.take ((row.2 + width + cfg.blockSize - 1) / cfg.blockSize)
    table ++ List.replicate (tableWidth - table.length) 0

/-- The arrays of a call, of rows whose slots are known. -/
def blockArrays (cfg : DrafterConfig) (maxWindow width : ℕ) (rows : List (List ℕ × ℕ))
    (slots : List ℕ) (tables : List (List ℕ)) : BlockArrays where
  width := width
  blockSize := cfg.blockSize
  numBlocks := cfg.numBlocks
  tables := tables
  offsets := rows.map Prod.snd
  slots := slots
  ranges := rows.flatMap fun row => List.replicate width ((row.2 : ℤ), (row.2 : ℤ) + width - 1)
  span := spanBucket maxWindow ((rows.map Prod.snd).foldl max 0) width cfg.maxModelLen

/-- `draft` of `compile_block`, up to `finish`. -/
def draft (sizes : List ℕ) (exp : K → K) (model : DFlashModel K Hid Head KvHead Dim)
    (cfg : DrafterConfig) (width : ℕ) (embed : List Token → List (List Hid)) (anchors : List Token)
    (rows : List (List ℕ × ℕ)) (caches : List (LayerCache K KvHead Dim)) :
    Except BlockError (List (List Hid) × List (LayerCache K KvHead Dim)) := do
  if width < 1 ∨ model.blockSize < width then .error .width
  else if anchors = [] then .error .anchors
  else if rows.length ≠ anchors.length then .error .tables
  else
    match packedSlots cfg .blockLimit 1 0 (rows.map (blockSpan width)) with
    | .error e => .error (.rows e)
    | .ok slots =>
        match buildBlockTables sizes (rawTables cfg width rows) cfg.blockSize with
        | none => .error .blockSize
        | some (blockTables, kernelBlockSize) =>
            if kernelBlockSize ≠ cfg.blockSize then .error .nativeBlockSize
            else
              pagedForward exp model (blockArrays cfg model.maxWindow width rows slots blockTables)
                embed anchors caches

end BlockDraft
end VllmMetal
