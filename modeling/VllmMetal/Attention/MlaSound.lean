import VllmMetal.Attention.MlaRouting
import VllmMetal.Attention.Addressing
import VllmMetal.Lib.FoldMax
import Mathlib.LinearAlgebra.Matrix.ToLin

/-!
# Every route computes the same rows

Absorbing the key projection into the query does not change a score, and the value projection
commutes with the mean.  Padded columns, and those behind a row, are masked.  So whichever route a
segment takes, its rows are attention to their own contexts.

## Main results

* `applyMlaAttention_eq` — attention to the columns that are not masked.
* `absorbedSegment_eq`, `decodeChunk_eq`, `materializedSegment_eq` — the three routes.
* `decodeChunks_partition` — the chunks of the batched route.
* `absorbedDecodeBatch_eq` — the batched route.
-/

namespace VllmMetal
namespace Attention

open Matrix

variable {K Head Nope Rope Lora Val : Type} [Field K] [Fintype Nope] [Fintype Rope] [Fintype Lora]

/-! ### Attention of a row -/

section Row

variable (exp : K → K)

/-- The zipped columns of `scaled_dot_product_attention`, from one list. -/
theorem scaledDotProductAttention_map {α D : Type} [Fintype D] (scale : K) (query : D → K)
    (columns : List α) (key : α → D → K) (value : α → Val → K) (mask : α → WithBot K) :
    scaledDotProductAttention exp scale query (columns.map key) (columns.map value)
        (columns.map mask) =
      maskedMean exp (columns.map fun c =>
        (((scale * (query ⬝ᵥ key c) : K) : WithBot K) + mask c, value c)) := by
  rw [scaledDotProductAttention, List.zip_map', List.zip_map', List.map_map]
  rfl

/-- A score under a mask. -/
theorem coe_add_mask (x y : K) (valid : Bool) :
    (x : WithBot K) + (if valid then (y : WithBot K) else ⊥) =
      if valid then ((x + y : K) : WithBot K) else ⊥ := by
  cases valid with
  | true => exact (WithBot.coe_add x y).symm
  | false => exact WithBot.add_bot _

/-- **The absorption identity**: the score of a latent is that of its key. -/
theorem absorbed_score (embedQ : Matrix Lora Nope K) (scale : K) (nope : Nope → K) (pe : Rope → K)
    (latent : Latent K Lora Rope) :
    scale * ((embedQ *ᵥ nope) ⬝ᵥ latent.1) + (scale • pe) ⬝ᵥ latent.2 =
      scale * (nope ⬝ᵥ (embedQᵀ *ᵥ latent.1) + pe ⬝ᵥ latent.2) := by
  rw [mulVec_transpose, smul_dotProduct, smul_eq_mul, mul_add, dotProduct_comm (embedQ *ᵥ nope),
    dotProduct_mulVec, dotProduct_comm nope]

/-- **A row attends to the columns that are not masked.** -/
theorem applyMlaAttention_eq (layer : MlaLayer K Head Nope Lora Val)
    (query : MlaQuery K Head Nope Rope) (columns : List (Bool × Latent K Lora Rope)) :
    applyMlaAttention exp layer query columns =
      rowAttention exp layer query ((columns.filter Prod.fst).map Prod.snd) := by
  funext head
  unfold applyMlaAttention rowAttention
  cases hproj : layer.projections with
  | absorbed embedQ unembedOut =>
    simp only
    rw [scaledDotProductAttention_map]
    simp only [coe_add_mask]
    rw [maskedMean_of_masked exp columns Prod.fst, ← Matrix.mulVecLin_apply, map_softmaxMean,
      List.map_map, List.map_map]
    congr 1
    refine List.map_congr_left fun column _ => ?_
    simp only [Function.comp_apply, absorbed_score, Matrix.mulVecLin_apply]
    rfl
  | kvBProj project =>
    simp only
    rw [scaledDotProductAttention_map]
    have hmask : ∀ column : Bool × Latent K Lora Rope,
        (if column.1 then (0 : WithBot K) else ⊥) = if column.1 then ((0 : K) : WithBot K) else ⊥ :=
      fun _ => rfl
    simp only [hmask, coe_add_mask, add_zero, sumElim_dotProduct_sumElim]
    rw [maskedMean_of_masked exp columns Prod.fst, List.map_map]
    rfl

end Row

/-! ### Columns -/

/-- The first of consecutive positions. -/
theorem filter_range_lt {p : ℕ → Bool} {n m : ℕ} (hm : m ≤ n) (hp : ∀ j < n, p j = decide (j < m)) :
    (List.range n).filter p = List.range m := by
  rw [show n = m + (n - m) by omega, List.range_add, List.filter_append, List.filter_eq_self.mpr,
    List.filter_eq_nil_iff.mpr, List.append_nil]
  · intro j hj
    obtain ⟨d, hd, rfl⟩ := List.mem_map.mp hj
    rw [List.mem_range] at hd
    rw [hp _ (by omega)]
    simp
  · intro j hj
    rw [List.mem_range] at hj
    rw [hp _ (by omega)]
    exact decide_eq_true hj

/-- Columns of consecutive positions, those below `m` not masked. -/
theorem filter_columns {α β : Type} (f : ℕ → α) (h : ℕ → α → β) (p : ℕ → Bool) {n m : ℕ}
    (hm : m ≤ n) (hp : ∀ j < n, p j = decide (j < m)) :
    ((((List.range n).map f).zipIdx.map fun column =>
      (p column.2, h column.2 column.1)).filter Prod.fst).map Prod.snd =
      (List.range m).map fun j => h j (f j) := by
  have hcolumns : (((List.range n).map f).zipIdx.map fun column =>
      (p column.2, h column.2 column.1)) = (List.range n).map fun j => (p j, h j (f j)) := by
    refine List.ext_getElem (by simp) fun i hi hi' => ?_
    simp
  rw [hcolumns, List.filter_map, List.map_map]
  have hrange := filter_range_lt (p := Prod.fst ∘ fun j => (p j, h j (f j))) hm hp
  rw [hrange]
  rfl

/-- The latents of the positions below `n`. -/
def contextLatents (cache : ℕ → Latent K Lora Rope) (B : ℕ) (table : List ℕ) (n : ℕ) :
    List (Latent K Lora Rope) :=
  (List.range n).map fun p => cache (cellOf B table p)

omit [Field K] [Fintype Rope] [Fintype Lora] in
/-- Gathered blocks hold the positions in order. -/
theorem gatherLatents_eq (cache : ℕ → Latent K Lora Rope) {B : ℕ} (hB : 0 < B) {blocks : List ℕ}
    {n : ℕ} (h : Mapped B blocks n) :
    gatherLatents cache B blocks n = contextLatents cache B blocks n := by
  unfold gatherLatents contextLatents
  refine List.ext_getElem? fun p => ?_
  rcases Nat.lt_or_ge p n with hp | hp
  · rw [List.getElem?_take_of_lt hp, List.getElem?_map, List.getElem?_range hp, Option.map_some]
    have hblock : blocks[p / B]? = some (pageOf B blocks p) := by
      rw [pageOf, List.getD_eq_getElem?_getD, List.getElem?_eq_getElem (h.div_lt hp)]
      rfl
    have hat := getElem?_flatMap_of_length
      (f := fun block => (List.range B).map fun o => cache (block * B + o)) (fun _ => by simp)
      hblock (Nat.mod_lt p hB)
    rw [Nat.div_add_mod'] at hat
    rw [hat, List.getElem?_map, List.getElem?_range (Nat.mod_lt p hB)]
    rfl
  · rw [List.getElem?_eq_none (by rw [List.length_take]; omega),
      List.getElem?_eq_none (by simpa using hp)]

/-! ### The routes -/

/-- Segment `i` has `n` rows from position `first` on, and a block for every position of its
context. -/
structure SegmentAt (B : ℕ) (ctx : PagedAttentionContext) (i : ℕ) (table : List ℕ) (first n : ℕ) :
    Prop where
  table_eq : ctx.blockTables.getD i [] = table
  context_eq : ctx.contextLens.getD i 0 = first + n
  rows_eq : ctx.numNew i = n
  mapped : Mapped B table (first + n)

/-- The rows of a segment: each attends to the positions up to its own. -/
def segmentRowsOf (exp : K → K) (layer : MlaLayer K Head Nope Lora Val) (B : ℕ)
    (cache : ℕ → Latent K Lora Rope) (query : ℕ → MlaQuery K Head Nope Rope) (table : List ℕ)
    (first n : ℕ) : List (MlaOut K Head Val) :=
  (List.range n).map fun row =>
    rowAttention exp layer (query row) (contextLatents cache B table (first + row + 1))

section Routes

variable (exp : K → K) (layer : MlaLayer K Head Nope Lora Val) {B : ℕ}
  {ctx : PagedAttentionContext} (cache : ℕ → Latent K Lora Rope)
  (rows : MlaRows K Head Nope Rope Lora) {i first n : ℕ} {table : List ℕ}

/-- The blocks of a context reach its positions. -/
theorem mapped_take {m : ℕ} (hB : 0 < B) (h : Mapped B table m) :
    Mapped B (table.take (blocksFor B m)) m := by
  refine mapped_of_ceil_le hB ?_
  have hceil : (m + B - 1) / B ≤ table.length := by
    unfold Mapped at h
    refine Nat.lt_succ_iff.mp (Nat.div_lt_of_lt_mul ?_)
    rw [Nat.mul_succ]
    omega
  rw [List.length_take, blocksFor, Nat.min_eq_left hceil]

omit [Field K] [Fintype Rope] [Fintype Lora] in
/-- A table and its first blocks name the same cells. -/
theorem contextLatents_take {k m : ℕ} (h : Mapped B (table.take k) m) :
    contextLatents cache B (table.take k) m = contextLatents cache B table m := by
  refine List.map_congr_left fun p hp => ?_
  rw [← cellOf_append B (table.drop k) (h.div_lt (List.mem_range.mp hp)), List.take_append_drop]

/-- **The per-segment route.** -/
theorem absorbedSegment_eq (hB : 0 < B) (h : SegmentAt B ctx i table first n) :
    absorbedSegment exp layer B ctx cache rows i = segmentRowsOf exp layer B cache
      (fun row => rows.query (ctx.cuSeqlens.getD i 0 + row)) table first n := by
  unfold absorbedSegment segmentRowsOf
  simp only [h.table_eq, h.context_eq, h.rows_eq, Nat.add_sub_cancel]
  have hmapped := mapped_take hB h.mapped
  rw [gatherLatents_eq cache hB hmapped, contextLatents_take cache hmapped]
  refine List.map_congr_left fun row hrow => ?_
  rw [List.mem_range] at hrow
  rw [applyMlaAttention_eq, contextLatents, contextLatents,
    filter_columns (fun p => cache (cellOf B table p)) (fun _ latent => latent)
      (fun col => decide (n = 1) || decide (col ≤ first + row))
        (show first + row + 1 ≤ first + n by omega) fun col hcol => ?_]
  -- a single row sees its whole context
  by_cases hone : n = 1
  · subst hone
    rw [decide_eq_true rfl, Bool.true_or, decide_eq_true (by omega)]
  · rw [decide_eq_false hone, Bool.false_or]
    exact decide_eq_decide.mpr Nat.lt_succ_iff.symm

/-- The padded table of a segment. -/
theorem getD_padTables {tables : List (List ℕ)} {j : ℕ} (hj : j < tables.length) :
    (padTables tables).getD j [] = tables.getD j [] ++
      List.replicate ((tables.map List.length).foldl max 0 - (tables.getD j []).length) 0 := by
  rw [padTables, List.getD_eq_getElem?_getD, List.getD_eq_getElem?_getD, List.getElem?_map,
    List.getElem?_eq_getElem hj]
  rfl

/-- The first row of segment `i`, over the whole context of the segment. -/
def firstRowOf (B : ℕ) (ctx : PagedAttentionContext) (i : ℕ) : MlaOut K Head Val :=
  rowAttention exp layer (rows.query (ctx.cuSeqlens.getD i 0))
    (contextLatents cache B (ctx.blockTables.getD i []) (ctx.contextLens.getD i 0))

/-- The padded columns of a row are masked. -/
theorem decodeRow_eq (hB : 0 < B) (hi : i < ctx.blockTables.length)
    (hmapped : Mapped B (ctx.blockTables.getD i []) (ctx.contextLens.getD i 0))
    (query : MlaQuery K Head Nope Rope) {maxCtx : ℕ} (hmax : ctx.contextLens.getD i 0 ≤ maxCtx)
    (hpadded : Mapped B ((padTables ctx.blockTables).getD i []) maxCtx) :
    applyMlaAttention exp layer query
        ((gatherLatents cache B
          (((padTables ctx.blockTables).getD i []).take (blocksFor B maxCtx)) maxCtx).zipIdx.map
            fun column =>
              let valid := decide (column.2 < ctx.contextLens.getD i 0)
              (valid, (if valid then column.1.1 else 0, column.1.2))) =
      rowAttention exp layer query
        (contextLatents cache B (ctx.blockTables.getD i []) (ctx.contextLens.getD i 0)) := by
  have hblocks := mapped_take hB hpadded
  rw [gatherLatents_eq cache hB hblocks, contextLatents_take cache hblocks, applyMlaAttention_eq,
    contextLatents]
  rw [filter_columns (fun p => cache (cellOf B ((padTables ctx.blockTables).getD i []) p))
    (fun col latent =>
      ((if decide (col < ctx.contextLens.getD i 0) = true then latent.1 else 0), latent.2))
    (fun col => decide (col < ctx.contextLens.getD i 0)) hmax fun _ _ => rfl]
  congr 1
  refine List.map_congr_left fun col hcol => ?_
  rw [List.mem_range] at hcol
  rw [if_pos (decide_eq_true hcol), getD_padTables hi, cellOf_append B _ (hmapped.div_lt hcol)]

/-- Every padded table reaches the longest context. -/
theorem mapped_padTables (hin : ∀ i < ctx.contextLens.length, i < ctx.blockTables.length ∧
      Mapped B (ctx.blockTables.getD i []) (ctx.contextLens.getD i 0)) {chunk : List ℕ}
    (hchunk : ∀ i ∈ chunk, i < ctx.contextLens.length) (hi : i < ctx.blockTables.length) :
    Mapped B ((padTables ctx.blockTables).getD i [])
      ((chunk.map fun i => ctx.contextLens.getD i 0).foldl max 0) := by
  have hlength : ∀ j < ctx.blockTables.length, (ctx.blockTables.getD j []).length ≤
      (ctx.blockTables.map List.length).foldl max 0 := by
    intro j hj
    refine (le_foldl_max _ 0).2 _ (List.mem_map.mpr ⟨ctx.blockTables.getD j [], ?_, rfl⟩)
    rw [List.getD_eq_getElem _ _ hj]
    exact List.getElem_mem hj
  have hown := hlength i hi
  refine foldl_max_le (Nat.zero_le _) fun c hc => ?_
  obtain ⟨j, hj, rfl⟩ := List.mem_map.mp hc
  obtain ⟨hlt, hmapped⟩ := hin j (hchunk j hj)
  rw [getD_padTables hi, List.length_append, List.length_replicate, Nat.add_sub_cancel' hown]
  exact hmapped.trans (Nat.mul_le_mul_left B (hlength j hlt))

/-- **One chunk of the batched route.** -/
theorem decodeChunk_eq (hB : 0 < B)
    (hin : ∀ i < ctx.contextLens.length, i < ctx.blockTables.length ∧
      Mapped B (ctx.blockTables.getD i []) (ctx.contextLens.getD i 0)) {chunk : List ℕ}
    (hchunk : ∀ i ∈ chunk, i < ctx.contextLens.length) :
    decodeChunk exp layer B ctx cache rows chunk =
      chunk.map (firstRowOf exp layer cache rows B ctx) := by
  unfold decodeChunk
  refine List.map_congr_left fun i hi => ?_
  obtain ⟨hlt, hmapped⟩ := hin i (hchunk i hi)
  exact decodeRow_eq exp layer cache hB hlt hmapped _
    ((le_foldl_max _ 0).2 _ (List.mem_map_of_mem (f := fun i => ctx.contextLens.getD i 0) hi))
    (mapped_padTables hin hchunk hlt)

/-- **The materialized route**: the past from the cache, and the new tokens as they were written. -/
theorem materializedSegment_eq (hB : 0 < B) (h : SegmentAt B ctx i table first n)
    (hnew : ∀ t < n, cache (cellOf B table (first + t)) =
      rows.latentNew (ctx.cuSeqlens.getD i 0 + t)) :
    materializedSegment exp layer B ctx cache rows i = segmentRowsOf exp layer B cache
      (fun row => rows.query (ctx.cuSeqlens.getD i 0 + row)) table first n := by
  unfold materializedSegment segmentRowsOf
  simp only [h.table_eq, h.context_eq, h.rows_eq, Nat.add_sub_cancel]
  -- the past is gathered only when there is one
  have hpast : (if 0 < first then gatherLatents cache B (table.take (blocksFor B first)) first
      else []) = contextLatents cache B table first := by
    split
    · have hmapped := mapped_take hB (h.mapped.mono (Nat.le_add_right first n))
      rw [gatherLatents_eq cache hB hmapped, contextLatents_take cache hmapped]
    · next hzero =>
      rw [show first = 0 by omega]
      rfl
  -- behind it the new latents, which the step wrote to their cells
  have hlatents : contextLatents cache B table first ++
      (List.range n).map (fun t => rows.latentNew (ctx.cuSeqlens.getD i 0 + t)) =
        contextLatents cache B table (first + n) := by
    rw [contextLatents, contextLatents, List.range_add, List.map_append, List.map_map]
    congr 1
    refine List.map_congr_left fun t ht => ?_
    exact (hnew t (List.mem_range.mp ht)).symm
  rw [hpast, hlatents]
  refine List.map_congr_left fun row hrow => ?_
  rw [List.mem_range] at hrow
  funext head
  -- the additive mask hides what the row may not see
  have hmask : ∀ col : ℕ, (if col ≤ first + row then (0 : WithBot K) else ⊥) =
      if decide (col ≤ first + row) = true then ((0 : K) : WithBot K) else ⊥ := by
    intro col
    by_cases hcol : col ≤ first + row
    · rw [if_pos hcol, if_pos (decide_eq_true hcol)]
      rfl
    · rw [if_neg hcol, if_neg (by simpa using hcol)]
  simp only [contextLatents, List.length_map, List.length_range, List.map_map]
  rw [scaledDotProductAttention_map]
  simp only [hmask, coe_add_mask, add_zero, Function.comp_apply, sumElim_dotProduct_sumElim]
  rw [maskedMean_of_masked exp (List.range (first + n)) (fun col => decide (col ≤ first + row)),
    filter_range_lt (show first + row + 1 ≤ first + n by omega) fun col _ =>
      decide_eq_decide.mpr Nat.lt_succ_iff.symm, rowAttention, List.map_map]
  rfl

end Routes

/-! ### Chunks -/

/-- The longest context of some rows. -/
def maxContext (contextLens rows : List ℕ) : ℕ :=
  (rows.map fun i => contextLens.getD i 0).foldl max 0

/-- The rows from `c0` to `c1`. -/
def rowsBetween (reqIndices : List ℕ) (c0 c1 : ℕ) : List ℕ := (reqIndices.drop c0).take (c1 - c0)

theorem length_rowsBetween {reqIndices : List ℕ} {c0 c1 : ℕ} (h : c1 ≤ reqIndices.length) :
    (rowsBetween reqIndices c0 c1).length = c1 - c0 := by
  rw [rowsBetween, List.length_take, List.length_drop]
  omega

/-- One more row. -/
theorem maxContext_rowsBetween_succ {contextLens reqIndices : List ℕ} {c0 c1 : ℕ} (h : c0 ≤ c1)
    (hc1 : c1 < reqIndices.length) :
    maxContext contextLens (rowsBetween reqIndices c0 (c1 + 1)) =
      max (maxContext contextLens (rowsBetween reqIndices c0 c1))
        (contextLens.getD (reqIndices.getD c1 0) 0) := by
  have hrow : (reqIndices.drop c0)[c1 - c0]? = some (reqIndices.getD c1 0) := by
    rw [List.getElem?_drop, Nat.add_sub_cancel' h, List.getD_eq_getElem?_getD,
      List.getElem?_eq_getElem hc1]
    rfl
  rw [maxContext, maxContext, rowsBetween, rowsBetween, Nat.succ_sub h, List.take_add_one, hrow,
    Option.toList_some, List.map_append, List.foldl_append]
  rfl

/-- **The end of a chunk**: it has not shrunk, and its padded volume is within the cap. -/
theorem chunkEnd_spec (contextLens reqIndices : List ℕ) (c0 c1 chunkMax : ℕ) (h : c0 ≤ c1)
    (hc1 : c1 ≤ reqIndices.length)
    (hmax : chunkMax = maxContext contextLens (rowsBetween reqIndices c0 c1))
    (hvolume : (c1 - c0) * chunkMax ≤ decodeBatchMaxTokens) :
    let stop := chunkEnd contextLens reqIndices c0 c1 chunkMax
    c1 ≤ stop ∧ stop ≤ reqIndices.length ∧
      (stop - c0) * maxContext contextLens (rowsBetween reqIndices c0 stop) ≤
        decodeBatchMaxTokens := by
  fun_induction chunkEnd with
  | case1 c1 chunkMax hlt nextMax hover => exact ⟨Nat.le_refl _, hc1, hmax ▸ hvolume⟩
  | case2 c1 chunkMax hlt nextMax hover ih =>
    obtain ⟨hle, hstop, hcap⟩ := ih (by omega) hlt
      (by rw [maxContext_rowsBetween_succ h hlt, ← hmax])
      (by rw [Nat.succ_sub h]; exact Nat.le_of_not_lt hover)
    exact ⟨by omega, hstop, hcap⟩
  | case3 c1 chunkMax hend => exact ⟨Nat.le_refl _, hc1, hmax ▸ hvolume⟩

/-- **The chunks partition the rows in order**; each has a row, and its padded volume is within the
cap unless it has one row. -/
theorem decodeChunks_partition (contextLens reqIndices : List ℕ) (c0 : ℕ) :
    (decodeChunks contextLens reqIndices c0).flatten = reqIndices.drop c0 ∧
      ∀ chunk ∈ decodeChunks contextLens reqIndices c0, chunk ≠ [] ∧
        (chunk.length * maxContext contextLens chunk ≤ decodeBatchMaxTokens ∨
          chunk.length = 1) := by
  fun_induction decodeChunks with
  | case1 c0 hlt c1 ih =>
    obtain ⟨hge, hstop, hcap⟩ := chunkEnd_spec contextLens reqIndices c0 c0 0 (Nat.le_refl _)
      (Nat.le_of_lt hlt) (by simp [maxContext, rowsBetween]) (by simp)
    have hc1 : c0 + 1 ≤ c1 ∧ c1 ≤ reqIndices.length := by
      constructor
      · exact Nat.le_max_right _ _
      · exact Nat.max_le.mpr ⟨hstop, hlt⟩
    have hlen : (rowsBetween reqIndices c0 c1).length = c1 - c0 := length_rowsBetween hc1.2
    constructor
    · rw [List.flatten_cons, ih.1]
      have hdrop : reqIndices.drop c1 = (reqIndices.drop c0).drop (c1 - c0) := by
        rw [List.drop_drop]
        congr 1
        omega
      rw [hdrop, List.take_append_drop]
    -- the chunk grows to its cap, but never below one request
    · intro chunk hmem
      rcases List.mem_cons.mp hmem with rfl | hmem
      · refine ⟨fun hnil => ?_, ?_⟩
        · have := hlen.symm.trans (congrArg List.length hnil)
          rw [List.length_nil] at this
          omega
        · by_cases hone : chunkEnd contextLens reqIndices c0 c0 0 ≤ c0
          · right
            have : c1 = c0 + 1 := Nat.max_eq_right (by omega)
            rw [show ((reqIndices.drop c0).take (c1 - c0)).length = c1 - c0 from hlen]
            omega
          · left
            have : c1 = chunkEnd contextLens reqIndices c0 c0 0 := Nat.max_eq_left (by omega)
            rw [show ((reqIndices.drop c0).take (c1 - c0)).length = c1 - c0 from hlen, this]
            exact hcap
      · exact ih.2 chunk hmem
  | case2 c0 hend =>
    refine ⟨(List.drop_eq_nil_of_le (Nat.le_of_not_lt hend)).symm, fun chunk hmem => ?_⟩
    exact absurd hmem List.not_mem_nil

/-! ### The batched route -/

/-- **The batched route**, in the order of its rows. -/
theorem absorbedDecodeBatch_eq (exp : K → K) (layer : MlaLayer K Head Nope Lora Val) {B : ℕ}
    {ctx : PagedAttentionContext} (cache : ℕ → Latent K Lora Rope)
    (rows : MlaRows K Head Nope Rope Lora) (hB : 0 < B)
    (hin : ∀ i < ctx.contextLens.length, i < ctx.blockTables.length ∧
      Mapped B (ctx.blockTables.getD i []) (ctx.contextLens.getD i 0)) {reqIndices : List ℕ}
    (hreq : ∀ i ∈ reqIndices, i < ctx.contextLens.length) :
    absorbedDecodeBatch exp layer B ctx cache rows reqIndices =
      reqIndices.map (firstRowOf exp layer cache rows B ctx) := by
  obtain ⟨hflatten, -⟩ := decodeChunks_partition ctx.contextLens reqIndices 0
  rw [List.drop_zero] at hflatten
  have hchunks : ∀ chunk ∈ decodeChunks ctx.contextLens reqIndices 0,
      decodeChunk exp layer B ctx cache rows chunk =
        chunk.map (firstRowOf exp layer cache rows B ctx) := by
    intro chunk hchunk
    refine decodeChunk_eq exp layer cache rows hB hin fun i hi => hreq i ?_
    rw [← hflatten]
    exact List.mem_flatten.mpr ⟨chunk, hchunk, hi⟩
  rw [absorbedDecodeBatch, List.flatMap_congr hchunks, List.flatMap_def, ← List.map_flatten,
    hflatten]

end Attention
end VllmMetal
