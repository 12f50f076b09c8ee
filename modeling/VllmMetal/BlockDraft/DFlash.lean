import VllmMetal.Attention.MlaRouting

/-!
# The block forward of the draft model

A draft block of `width` rows runs through decoder layers whose rows attend to the projected context
of the request and to the block itself.  A layer with a window sees the context only from its window
before the block on, and, where blocks are causal, the block only up to the row.

Modules of the network that work on one row or on one head are parameters.

## Main definitions

* `DFlashModel` — the draft model.
* `BlockAttention.projectBlock`, `BlockAttention.call`, `DecoderLayer.call` — a layer.
* `layerMask`, `DFlashModel.blockForward` — the forward over a dense context.
* `blockRow`, `visible` — what a row of a block is for: attention to the positions it sees.
-/

namespace VllmMetal
namespace BlockDraft

open Attention Matrix

/-- `_Attention`: its projections and norms. -/
structure BlockAttention (K Hid Head KvHead Dim : Type) where
  qProj : Hid → Head → Dim → K
  kProj : Hid → KvHead → Dim → K
  vProj : Hid → KvHead → Dim → K
  oProj : (Head → Dim → K) → Hid
  qNorm : (Dim → K) → Dim → K
  kNorm : (Dim → K) → Dim → K

/-- `_DecoderLayer`. -/
structure DecoderLayer (K Hid Head KvHead Dim : Type) where
  selfAttn : BlockAttention K Hid Head KvHead Dim
  mlp : Hid → Hid
  inputLayernorm : Hid → Hid
  postAttentionLayernorm : Hid → Hid

/-- `DFlashModel`. -/
structure DFlashModel (K Hid Head KvHead Dim : Type) where
  layers : List (DecoderLayer K Hid Head KvHead Dim)
  contextWindows : List (Option ℕ)
  windows_length : contextWindows.length = layers.length
  causalBlocks : Bool
  norm : Hid → Hid
  /-- A head rotated to a position. -/
  rope : ℕ → (Dim → K) → Dim → K
  /-- The head of the keys and values that a head of the queries attends to. -/
  kvHead : Head → KvHead
  /-- `head_dim ** -0.5`. -/
  scale : K
  blockSize : ℕ

/-- The keys and values of a row. -/
abbrev KvRow (K KvHead Dim : Type) := KvHead → Dim → K

/-- The projected context of a request in one layer. -/
abbrev LayerContext (K KvHead Dim : Type) := List (KvRow K KvHead Dim) × List (KvRow K KvHead Dim)

variable {K Hid Head KvHead Dim : Type} [Field K] [Add Hid] [Fintype Dim]

/-- `scaled_dot_product_attention` of the heads of one row, with its row of the mask. -/
def attendRow (exp : K → K) (model : DFlashModel K Hid Head KvHead Dim) (query : Head → Dim → K)
    (keys values : List (KvRow K KvHead Dim)) (mask : List Bool) : Head → Dim → K := fun head =>
  scaledDotProductAttention exp model.scale (query head)
    (keys.map fun row => row (model.kvHead head)) (values.map fun row => row (model.kvHead head))
    (mask.map fun allowed => if allowed then 0 else ⊥)

/-- The queries, keys and values of a block. -/
structure BlockProjection (K Head KvHead Dim : Type) where
  queries : List (Head → Dim → K)
  keys : List (KvRow K KvHead Dim)
  values : List (KvRow K KvHead Dim)

/-- `project_block`, of one request whose block begins at `offset`. -/
def BlockAttention.projectBlock (attn : BlockAttention K Hid Head KvHead Dim)
    (rope : ℕ → (Dim → K) → Dim → K) (x : List Hid) (offset : ℕ) :
    BlockProjection K Head KvHead Dim where
  queries := x.mapIdx fun j row => fun head => rope (offset + j) (attn.qNorm (attn.qProj row head))
  keys := x.mapIdx fun j row => fun head => rope (offset + j) (attn.kNorm (attn.kProj row head))
  values := x.map attn.vProj

/-- Row `j` of a mask; without one every row sees every key. -/
def maskRow (mask : Option (List (List Bool))) (numKeys j : ℕ) : List Bool :=
  match mask with
  | none => List.replicate numKeys true
  | some mask => mask.getD j []

/-- `_Attention.__call__`. -/
def BlockAttention.call (exp : K → K) (model : DFlashModel K Hid Head KvHead Dim)
    (attn : BlockAttention K Hid Head KvHead Dim) (x : List Hid)
    (context : LayerContext K KvHead Dim)
    (mask : Option (List (List Bool))) : List Hid :=
  let block := attn.projectBlock model.rope x context.1.length
  let keys := context.1 ++ block.keys
  let values := context.2 ++ block.values
  block.queries.mapIdx fun j query =>
    attn.oProj (attendRow exp model query keys values (maskRow mask keys.length j))

/-- `_DecoderLayer.__call__`. -/
def DecoderLayer.call (exp : K → K) (model : DFlashModel K Hid Head KvHead Dim)
    (layer : DecoderLayer K Hid Head KvHead Dim) (x : List Hid)
    (context : LayerContext K KvHead Dim)
    (mask : Option (List (List Bool))) : List Hid :=
  let h := List.zipWith (· + ·) x
    (layer.selfAttn.call exp model (x.map layer.inputLayernorm) context mask)
  h.map fun row => row + layer.mlp (layer.postAttentionLayernorm row)

/-- An entry of the mask of a layer: the window before the block, or the block. -/
def layerAllows (causalBlocks : Bool) (length width window j key : ℕ) : Bool :=
  let before : Bool := (length : ℤ) - window ≤ key && key < length
  let block : Bool := length ≤ key && key < length + width
  before || (if causalBlocks then block && key ≤ length + j else block)

/-- `layer_mask`. -/
def layerMask (causalBlocks : Bool) (length width : ℕ) (window : Option ℕ) :
    Option (List (List Bool)) :=
  window.map fun window => (List.range width).map fun j =>
    (List.range (length + width)).map (layerAllows causalBlocks length width window j)

/-- A round of the loop of `_block_forward`. -/
def DFlashModel.layerForward (exp : K → K) (model : DFlashModel K Hid Head KvHead Dim) (length : ℕ)
    (layer : DecoderLayer K Hid Head KvHead Dim) (window : Option ℕ) (h : List Hid)
    (context : LayerContext K KvHead Dim) : List Hid :=
  layer.call exp model h context (layerMask model.causalBlocks length h.length window)

/-- The states of a block behind its context, before the slice and the norm. -/
def DFlashModel.blockStates (exp : K → K) (model : DFlashModel K Hid Head KvHead Dim)
    (embeddings : List Hid) (contexts : List (LayerContext K KvHead Dim)) : List Hid :=
  let length := (contexts.headD ([], [])).1.length
  ((model.layers.zip model.contextWindows).zip contexts).foldl
    (fun h round => model.layerForward exp length round.1.1 round.1.2 h round.2) embeddings

/-- `_block_forward`. -/
def DFlashModel.blockForward (exp : K → K) (model : DFlashModel K Hid Head KvHead Dim)
    (embeddings : List Hid) (contexts : List (LayerContext K KvHead Dim)) (logitsStart : ℕ) :
    List Hid :=
  ((model.blockStates exp embeddings contexts).drop logitsStart).map model.norm

/-! ### What a row of a block is for -/

/-- The positions that row `j` of a block behind `length` positions sees. -/
def visible (causalBlocks : Bool) (length width : ℕ) (window : Option ℕ) (j : ℕ) : List ℕ :=
  match window with
  | none => List.range (length + width)
  | some window => (List.range' (length - window) (min length window + width)).filter fun p =>
      !causalBlocks || p ≤ length + j

/-- Attention of a row to positions. -/
def blockRow (exp : K → K) (model : DFlashModel K Hid Head KvHead Dim) (query : Head → Dim → K)
    (keyAt valueAt : ℕ → KvRow K KvHead Dim) (positions : List ℕ) : Head → Dim → K := fun head =>
  softmaxMean exp (positions.map fun p =>
    (model.scale * (query head ⬝ᵥ keyAt p (model.kvHead head)), valueAt p (model.kvHead head)))

omit [Add Hid] in
/-- A row sees the cells of its positions and nothing else. -/
theorem blockRow_congr (exp : K → K) (model : DFlashModel K Hid Head KvHead Dim)
    (query : Head → Dim → K) {keyAt keyAt' valueAt valueAt' : ℕ → KvRow K KvHead Dim}
    {positions : List ℕ} (hkey : ∀ p ∈ positions, keyAt p = keyAt' p)
    (hvalue : ∀ p ∈ positions, valueAt p = valueAt' p) :
    blockRow exp model query keyAt valueAt positions =
      blockRow exp model query keyAt' valueAt' positions := by
  funext head
  refine congrArg (softmaxMean exp) (List.map_congr_left fun p hp => ?_)
  rw [hkey p hp, hvalue p hp]

omit [Add Hid] in
/-- **Attention under a mask is attention to what the mask leaves.**  A masked column may hold
anything. -/
theorem attendRow_eq_blockRow (exp : K → K) (model : DFlashModel K Hid Head KvHead Dim)
    (query : Head → Dim → K) (positions : List ℕ) (allowed : ℕ → Bool)
    (keyAt valueAt : ℕ → KvRow K KvHead Dim) :
    attendRow exp model query (positions.map keyAt) (positions.map valueAt)
        (positions.map allowed) =
      blockRow exp model query keyAt valueAt (positions.filter allowed) := by
  funext head
  have hcolumns : (((positions.map keyAt).map fun row => row (model.kvHead head)).zip
        ((positions.map valueAt).map fun row => row (model.kvHead head))).zip
        ((positions.map allowed).map fun ok => if ok then (0 : WithBot K) else ⊥) =
      positions.map fun p => ((keyAt p (model.kvHead head), valueAt p (model.kvHead head)),
        if allowed p then (0 : WithBot K) else ⊥) := by
    simp only [List.map_map, List.zip_map', Function.comp_def]
  rw [attendRow, scaledDotProductAttention, hcolumns, List.map_map]
  have hmask := maskedMean_of_masked exp positions allowed
    (fun p => model.scale * (query head ⬝ᵥ keyAt p (model.kvHead head)))
    (fun p => valueAt p (model.kvHead head))
  rw [blockRow, ← hmask]
  refine congrArg (maskedMean exp) (List.map_congr_left fun p _ => ?_)
  simp only [Function.comp_apply]
  cases allowed p <;> simp

omit [Field K] [Add Hid] [Fintype Dim] in
theorem length_projectBlock (attn : BlockAttention K Hid Head KvHead Dim)
    (rope : ℕ → (Dim → K) → Dim → K) (x : List Hid) (offset : ℕ) :
    (attn.projectBlock rope x offset).queries.length = x.length ∧
      (attn.projectBlock rope x offset).keys.length = x.length ∧
      (attn.projectBlock rope x offset).values.length = x.length := by
  simp [BlockAttention.projectBlock]

theorem mem_visible {causalBlocks : Bool} {length width : ℕ} {window : Option ℕ} {j p : ℕ}
    (h : p ∈ visible causalBlocks length width window j) : p < length + width := by
  cases window with
  | none => exact List.mem_range.mp h
  | some window =>
    have := List.mem_range'_1.mp (List.mem_of_mem_filter h)
    omega

/-- **The keys that the mask of a layer leaves a row.** -/
theorem filter_layerAllows (causalBlocks : Bool) (length width window j : ℕ) :
    (List.range (length + width)).filter (layerAllows causalBlocks length width window j) =
      visible causalBlocks length width (some window) j := by
  have hstop : min length window + width = length + width - (length - window) := by omega
  rw [visible, hstop, filter_range' (Nat.le_refl _)]
  refine List.filter_congr fun key hkey => ?_
  rw [List.mem_range] at hkey
  rw [Bool.eq_iff_iff]
  cases causalBlocks <;> simp [layerAllows] <;> omega

omit [Add Hid] in
/-- Attention of a row of a block under the mask of its layer. -/
theorem attendRow_layerMask (exp : K → K) (model : DFlashModel K Hid Head KvHead Dim)
    (query : Head → Dim → K) {keys values : List (KvRow K KvHead Dim)} {length width j : ℕ}
    (hkeys : keys.length = length + width) (hvalues : values.length = length + width)
    (hj : j < width) (window : Option ℕ) :
    attendRow exp model query keys values
        (maskRow (layerMask model.causalBlocks length width window) keys.length j) =
      blockRow exp model query (fun p => keys.getD p 0) (fun p => values.getD p 0)
        (visible model.causalBlocks length width window j) := by
  have hallowed : ∃ allowed : ℕ → Bool,
      maskRow (layerMask model.causalBlocks length width window) (length + width) j =
        (List.range (length + width)).map allowed ∧
      (List.range (length + width)).filter allowed =
        visible model.causalBlocks length width window j := by
    cases window with
    | none =>
      refine ⟨fun _ => true, ?_, List.filter_true _⟩
      rw [List.map_const', List.length_range]
      rfl
    | some window =>
      refine ⟨layerAllows model.causalBlocks length width window j, ?_,
        filter_layerAllows model.causalBlocks length width window j⟩
      simp [maskRow, layerMask, List.getD_eq_getElem?_getD, List.getElem?_range hj]
  obtain ⟨allowed, hmask, hfilter⟩ := hallowed
  have hcolumns := attendRow_eq_blockRow exp model query (List.range (length + width)) allowed
    (fun p => keys.getD p 0) (fun p => values.getD p 0)
  rwa [map_getD_range keys 0 hkeys, map_getD_range values 0 hvalues, ← hmask, hfilter, ← hkeys]
    at hcolumns

/-- The query of row `j` of a block. -/
def DecoderLayer.query (model : DFlashModel K Hid Head KvHead Dim)
    (layer : DecoderLayer K Hid Head KvHead Dim) (position : ℕ) (row : Hid) : Head → Dim → K :=
  fun head => model.rope position
    (layer.selfAttn.qNorm (layer.selfAttn.qProj (layer.inputLayernorm row) head))

/-- The state of a row behind a layer, from what its heads attended to. -/
def DecoderLayer.finishRow (layer : DecoderLayer K Hid Head KvHead Dim) (row : Hid)
    (out : Head → Dim → K) : Hid :=
  let h := row + layer.selfAttn.oProj out
  h + layer.mlp (layer.postAttentionLayernorm h)

/-- A layer of a block behind `length` positions, whatever holds the keys and values. -/
def blockLayer (exp : K → K) (model : DFlashModel K Hid Head KvHead Dim)
    (layer : DecoderLayer K Hid Head KvHead Dim) (window : Option ℕ) (length : ℕ)
    (keyAt valueAt : ℕ → KvRow K KvHead Dim) (h : List Hid) : List Hid :=
  h.mapIdx fun j row => layer.finishRow row (blockRow exp model
    (layer.query model (length + j) row) keyAt valueAt
    (visible model.causalBlocks length h.length window j))

/-- **A layer over a dense context.** -/
theorem layerForward_eq_blockLayer (exp : K → K) (model : DFlashModel K Hid Head KvHead Dim)
    (layer : DecoderLayer K Hid Head KvHead Dim) (window : Option ℕ) (h : List Hid)
    {context : LayerContext K KvHead Dim} {length : ℕ} (hkeys : context.1.length = length)
    (hvalues : context.2.length = length) :
    let block := layer.selfAttn.projectBlock model.rope (h.map layer.inputLayernorm) length
    model.layerForward exp length layer window h context =
      blockLayer exp model layer window length (fun p => (context.1 ++ block.keys).getD p 0)
        (fun p => (context.2 ++ block.values).getD p 0) h := by
  intro block
  obtain ⟨hq, hk, hv⟩ := length_projectBlock layer.selfAttn model.rope
    (h.map layer.inputLayernorm) length
  rw [List.length_map] at hq hk hv
  refine List.ext_getElem? fun j => ?_
  by_cases hj : j < h.length
  -- row `j` of the block attends to the context and to the block
  · have hquery : block.queries[j]? = some (layer.query model (length + j) h[j]) := by
      simp only [block, BlockAttention.projectBlock, List.getElem?_mapIdx, List.getElem?_map,
        List.getElem?_eq_getElem hj, Option.map_some]
      rfl
    have hkeysLength : (context.1 ++ block.keys).length = length + h.length := by
      rw [List.length_append, hkeys, hk]
    have hvaluesLength : (context.2 ++ block.values).length = length + h.length := by
      rw [List.length_append, hvalues, hv]
    simp only [DFlashModel.layerForward, DecoderLayer.call, blockLayer, BlockAttention.call, hkeys,
      List.getElem?_map, List.getElem?_zipWith, List.getElem?_mapIdx]
    rw [hquery, List.getElem?_eq_getElem hj]
    simp only [Option.map_some]
    rw [attendRow_layerMask exp model _ hkeysLength hvaluesLength hj, DecoderLayer.finishRow]
  -- behind the block there is no row on either side
  · rw [List.getElem?_eq_none, List.getElem?_eq_none]
    · rw [blockLayer, List.length_mapIdx]
      omega
    · rw [DFlashModel.layerForward, DecoderLayer.call, List.length_map, List.length_zipWith]
      omega

/-- The rounds of a block behind `length` positions. -/
theorem DFlashModel.blockStates_eq_foldl (exp : K → K) (model : DFlashModel K Hid Head KvHead Dim)
    (embeddings : List Hid) {contexts : List (LayerContext K KvHead Dim)} {length : ℕ}
    (hlength : ∀ context ∈ contexts.head?, context.1.length = length) :
    model.blockStates exp embeddings contexts =
      ((model.layers.zip model.contextWindows).zip contexts).foldl
        (fun h round => model.layerForward exp length round.1.1 round.1.2 h round.2)
        embeddings := by
  cases contexts with
  | nil => simp only [blockStates, List.zip_nil_right, List.foldl_nil]
  | cons context contexts =>
    rw [blockStates]
    simp only [List.headD_cons, hlength context rfl]

end BlockDraft
end VllmMetal
