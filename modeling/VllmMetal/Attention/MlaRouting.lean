import VllmMetal.Lib.Dict
import VllmMetal.Lib.SoftmaxMean
import VllmMetal.Lib.WriteBack
import VllmMetal.Attention.Context
import Mathlib.Data.Matrix.Mul
import Mathlib.Data.List.Sort

/-!
# Multi-head latent attention over a paged cache

The cache holds one latent a token.  A layer attends either in the space of the latents, its key
projection absorbed into the query, or to keys and values that it materializes from them.  Each
segment of a packed batch takes one of three routes: materialized, one batch for the decode rows of
short contexts, or absorbed on its own.

Numbers are those of a field, and the exponential is a parameter; a score that is masked with the
least finite number is `⊥`.

## Main definitions

* `applyMlaAttention`, `scaledDotProductAttention` — attention of a row to latents.
* `materializedSegments`, `decodeBatchRows` — the routes.
* `absorbedSegment`, `absorbedDecodeBatch`, `materializedPrefill` — what computes the rows of each.
* `mlaForward` — the call.
* `rowAttention` — what a row is for: attention to the latents of its context.
-/

namespace VllmMetal
namespace Attention

open Matrix

variable {K Head Nope Rope Lora Val : Type} [Field K] [Fintype Nope] [Fintype Rope] [Fintype Lora]

/-! ### Rows and layers -/

/-- A cached latent: `kv_norm` and the rotated `k_pe`. -/
abbrev Latent (K Lora Rope : Type) := (Lora → K) × (Rope → K)

/-- A query row of all heads. -/
structure MlaQuery (K Head Nope Rope : Type) where
  nope : Head → Nope → K
  pe : Head → Rope → K

/-- The projections of a layer: `embed_q` and `unembed_out`, or `kv_b_proj` from a latent to the
keys and values of all heads. -/
inductive MlaProjections (K Head Nope Lora Val : Type) where
  | absorbed (embedQ : Head → Matrix Lora Nope K) (unembedOut : Head → Matrix Val Lora K)
  | kvBProj (project : (Lora → K) → Head → (Nope → K) × (Val → K))

/-- A layer; `multiLinear` says whether `embed_q` is a `MultiLinear`. -/
structure MlaLayer (K Head Nope Lora Val : Type) where
  projections : MlaProjections K Head Nope Lora Val
  scale : K
  multiLinear : Bool
  materializedMinNewWithPast : Option ℕ

/-- `_is_absorbed`. -/
def MlaProjections.isAbsorbed : MlaProjections K Head Nope Lora Val → Bool
  | .absorbed _ _ => true
  | .kvBProj _ => false

/-- The key of a latent, without its rotated half. -/
def MlaProjections.keyNope (projections : MlaProjections K Head Nope Lora Val) (kv : Lora → K)
    (head : Head) : Nope → K :=
  match projections with
  | .absorbed embedQ _ => (embedQ head)ᵀ *ᵥ kv
  | .kvBProj project => (project kv head).1

/-- The value of a latent. -/
def MlaProjections.value (projections : MlaProjections K Head Nope Lora Val) (kv : Lora → K)
    (head : Head) : Val → K :=
  match projections with
  | .absorbed _ unembedOut => unembedOut head *ᵥ kv
  | .kvBProj project => (project kv head).2

/-- The result of a row, for all heads. -/
abbrev MlaOut (K Head Val : Type) := Head → Val → K

/-- Attention of a row to the latents of its context. -/
def rowAttention (exp : K → K) (layer : MlaLayer K Head Nope Lora Val)
    (query : MlaQuery K Head Nope Rope) (context : List (Latent K Lora Rope)) : MlaOut K Head Val :=
  fun head => softmaxMean exp (context.map fun latent =>
    (layer.scale * (query.nope head ⬝ᵥ layer.projections.keyNope latent.1 head +
      query.pe head ⬝ᵥ latent.2), layer.projections.value latent.1 head))

/-! ### Attention to a list of latents -/

/-- `scaled_dot_product_attention` of one query, with an additive mask. -/
def scaledDotProductAttention {D : Type} [Fintype D] (exp : K → K) (scale : K) (query : D → K)
    (keys : List (D → K)) (values : List (Val → K)) (mask : List (WithBot K)) : Val → K :=
  maskedMean exp (((keys.zip values).zip mask).map fun column =>
    (((scale * (query ⬝ᵥ column.1.1) : K) : WithBot K) + column.2, column.1.2))

/-- `_apply_mla_attention` of one row; each column comes with its entry of the mask. -/
def applyMlaAttention (exp : K → K) (layer : MlaLayer K Head Nope Lora Val)
    (query : MlaQuery K Head Nope Rope) (columns : List (Bool × Latent K Lora Rope)) :
    MlaOut K Head Val := fun head =>
  match layer.projections with
  | .absorbed embedQ unembedOut =>
      let kv := columns.map fun column => column.2.1
      let peScores : List (WithBot K) := columns.map fun column =>
        if column.1 then (((layer.scale • query.pe head) ⬝ᵥ column.2.2 : K) : WithBot K) else ⊥
      unembedOut head *ᵥ scaledDotProductAttention exp layer.scale (embedQ head *ᵥ query.nope head)
        kv kv peScores
  | .kvBProj project =>
      let keys := columns.map fun column => Sum.elim (project column.2.1 head).1 column.2.2
      let values := columns.map fun column => (project column.2.1 head).2
      let attnMask : List (WithBot K) := columns.map fun column => if column.1 then 0 else ⊥
      scaledDotProductAttention exp layer.scale (Sum.elim (query.nope head) (query.pe head)) keys
        values attnMask

/-! ### Segments -/

/-- `math.ceil(n / block_size)`. -/
def blocksFor (blockSize n : ℕ) : ℕ := (n + blockSize - 1) / blockSize

/-- The first `n` latents of some blocks. -/
def gatherLatents (cache : ℕ → Latent K Lora Rope) (blockSize : ℕ) (blocks : List ℕ) (n : ℕ) :
    List (Latent K Lora Rope) :=
  (blocks.flatMap fun block => (List.range blockSize).map fun o =>
    cache (block * blockSize + o)).take
    n

/-- The rows of segment `i`. -/
def PagedAttentionContext.numNew (ctx : PagedAttentionContext) (i : ℕ) : ℕ :=
  ctx.cuSeqlens.getD (i + 1) 0 - ctx.cuSeqlens.getD i 0

/-- The rows of a step, each with what its layer has of it: the query, and the new latent. -/
structure MlaRows (K Head Nope Rope Lora : Type) where
  query : ℕ → MlaQuery K Head Nope Rope
  latentNew : ℕ → Latent K Lora Rope

section Routes

variable (exp : K → K) (layer : MlaLayer K Head Nope Lora Val) (blockSize : ℕ)
  (ctx : PagedAttentionContext) (cache : ℕ → Latent K Lora Rope)
  (rows : MlaRows K Head Nope Rope Lora)

/-- `_materialized_segments`. -/
def materializedSegments : Option (List Bool) :=
  if !layer.projections.isAbsorbed then none
  else if !layer.multiLinear then none
  else
    let routed := ctx.contextLens.zipIdx.map fun segment =>
      let numNew := ctx.numNew segment.2
      let ok := decide (segment.1 = numNew) || match layer.materializedMinNewWithPast with
        | some minNew => decide (1 < numNew) && decide (minNew ≤ numNew)
        | none => false
      (ok, ok && decide (1 < numNew))
    if routed.any Prod.snd then some (routed.map Prod.fst) else none

/-- `_absorbed_segment`. -/
def absorbedSegment (reqIdx : ℕ) : List (MlaOut K Head Val) :=
  let ctxLen := ctx.contextLens.getD reqIdx 0
  let reqStart := ctx.cuSeqlens.getD reqIdx 0
  let numNew := ctx.numNew reqIdx
  let pastLen := ctxLen - numNew
  let blocks := (ctx.blockTables.getD reqIdx []).take (blocksFor blockSize ctxLen)
  let allLatent := gatherLatents cache blockSize blocks ctxLen
  (List.range numNew).map fun row =>
    -- one row has no causal mask
    applyMlaAttention exp layer (rows.query (reqStart + row)) (allLatent.zipIdx.map fun column =>
      (decide (numNew = 1) || decide (column.2 ≤ pastLen + row), column.1))

/-- `_DECODE_BATCH_MIN_ROWS`. -/
def decodeBatchMinRows : ℕ := 16

/-- `_DECODE_BATCH_MAX_CTX`. -/
def decodeBatchMaxCtx : ℕ := 1024

/-- `_DECODE_BATCH_MAX_TOKENS`. -/
def decodeBatchMaxTokens : ℕ := 65536

/-- The inner loop of the chunking: the end of the chunk that starts at `c0`. -/
def chunkEnd (contextLens reqIndices : List ℕ) (c0 c1 chunkMax : ℕ) : ℕ :=
  if c1 < reqIndices.length then
    let nextMax := max chunkMax (contextLens.getD (reqIndices.getD c1 0) 0)
    if decodeBatchMaxTokens < (c1 - c0 + 1) * nextMax then c1
    else chunkEnd contextLens reqIndices c0 (c1 + 1) nextMax
  else c1
termination_by reqIndices.length - c1

/-- The chunks of the rows from `c0` on. -/
def decodeChunks (contextLens reqIndices : List ℕ) (c0 : ℕ) : List (List ℕ) :=
  if c0 < reqIndices.length then
    let c1 := max (chunkEnd contextLens reqIndices c0 c0 0) (c0 + 1)
    (reqIndices.drop c0).take (c1 - c0) :: decodeChunks contextLens reqIndices c1
  else []
termination_by reqIndices.length - c0

/-- One chunk of `_absorbed_decode_batch`: the gather is padded to its longest context, with blocks
of other requests or block `0`. -/
def decodeChunk (chunk : List ℕ) : List (MlaOut K Head Val) :=
  let maxCtx := (chunk.map fun i => ctx.contextLens.getD i 0).foldl max 0
  chunk.map fun i =>
    let blocks := ((padTables ctx.blockTables).getD i []).take (blocksFor blockSize maxCtx)
    let allLatent := gatherLatents cache blockSize blocks maxCtx
    let start := ctx.cuSeqlens.getD i 0
    applyMlaAttention exp layer (rows.query start) (allLatent.zipIdx.map fun column =>
      let valid := decide (column.2 < ctx.contextLens.getD i 0)
      (valid, (if valid then column.1.1 else 0, column.1.2)))

/-- `_absorbed_decode_batch`. -/
def absorbedDecodeBatch (reqIndices : List ℕ) : List (MlaOut K Head Val) :=
  (decodeChunks ctx.contextLens reqIndices 0).flatMap
    (decodeChunk exp layer blockSize ctx cache rows)

/-- `_decode_batch_rows`. -/
def decodeBatchRows : Option (List ℕ) :=
  if !layer.projections.isAbsorbed then none
  else
    let idx := (List.range ctx.contextLens.length).filter fun i =>
      decide (ctx.numNew i = 1) && decide (ctx.contextLens.getD i 0 ≤ decodeBatchMaxCtx)
    if decodeBatchMinRows ≤ idx.length then
      some (idx.mergeSort fun i j =>
        decide (ctx.contextLens.getD i 0 ≤ ctx.contextLens.getD j 0))
    else none

/-- The materialized attention of segment `i`: the past from the cache, the new tokens from this
step. -/
def materializedSegment (i : ℕ) : List (MlaOut K Head Val) :=
  let s := ctx.cuSeqlens.getD i 0
  let numNew := ctx.numNew i
  let past := ctx.contextLens.getD i 0 - numNew
  let blocks := (ctx.blockTables.getD i []).take (blocksFor blockSize past)
  let pastLatent := if 0 < past then gatherLatents cache blockSize blocks past else []
  let latents := pastLatent ++ (List.range numNew).map fun t => rows.latentNew (s + t)
  (List.range numNew).map fun row head =>
    scaledDotProductAttention exp layer.scale
      (Sum.elim ((rows.query (s + row)).nope head) ((rows.query (s + row)).pe head))
      (latents.map fun latent => Sum.elim (layer.projections.keyNope latent.1 head) latent.2)
      (latents.map fun latent => layer.projections.value latent.1 head)
      -- "causal" is aligned with the last row
      ((List.range latents.length).map fun col => if col ≤ past + row then 0 else ⊥)

/-- `_materialized_prefill`; `none` is the failed assertion. -/
def materializedPrefill (routed : List Bool) : Option (List (MlaOut K Head Val)) :=
  let outs : List (Option (List (MlaOut K Head Val))) :=
    List.replicate ctx.contextLens.length none
  let outs : List (Option (List (MlaOut K Head Val))) := match decodeBatchRows layer ctx with
    | none => outs
    | some decodeIdx =>
        (decodeIdx.zip (absorbedDecodeBatch exp layer blockSize ctx cache rows decodeIdx)).foldl
          (fun outs (decoded : ℕ × MlaOut K Head Val) =>
            outs.set decoded.1 (some [decoded.2])) outs
  let outs := (List.range ctx.contextLens.length).foldl (fun outs i =>
    if (outs.getD i none).isSome then outs
    else if !routed.getD i false then
      outs.set i (some (absorbedSegment exp layer blockSize ctx cache rows i))
    else outs.set i (some (materializedSegment exp layer blockSize ctx cache rows i))) outs
  if outs.all Option.isSome then some (outs.reduceOption.flatten) else none

/-- The segments of a step without a materialized one. -/
def absorbedRows : List (MlaOut K Head Val) :=
  let decodeIdx := decodeBatchRows layer ctx
  let batched := match decodeIdx with
    | none => []
    | some idx => absorbedDecodeBatch exp layer blockSize ctx cache rows idx
  let batchedAt : Dict ℕ ℕ :=
    (decodeIdx.getD []).zipIdx.foldl (fun at' entry => at'.set entry.1 entry.2) ∅
  (List.range ctx.contextLens.length).flatMap fun reqIdx =>
    match batchedAt.get? reqIdx with
    | some j => (batched[j]?).toList
    | none => absorbedSegment exp layer blockSize ctx cache rows reqIdx

/-- The latents of the new tokens, written to their slots. -/
def writeLatents : ℕ → Latent K Lora Rope :=
  scatter cache ctx.slotMapping ((List.range ctx.slotMapping.length).map rows.latentNew)

/-- What the call raises. -/
inductive MlaError where
  /-- "MLAPagedAttentionWrapper called with empty block_tables". -/
  | emptyBlockTables
  | assertFilled
  deriving DecidableEq

/-- `MLAPagedAttentionWrapper.__call__` up to the output projection, without the single-pass
kernel. -/
def mlaForward : Except MlaError (List (MlaOut K Head Val)) :=
  if ctx.blockTables = [] then .error .emptyBlockTables
  else
    let cache := writeLatents ctx cache rows
    match materializedSegments layer ctx with
    | some routed =>
        match materializedPrefill exp layer blockSize ctx cache rows routed with
        | some outs => .ok outs
        | none => .error .assertFilled
    | none => .ok (absorbedRows exp layer blockSize ctx cache rows)

end Routes

end Attention
end VllmMetal
