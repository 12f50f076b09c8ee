import VllmMetal.Lib.Raising
import VllmMetal.Attention.Addressing
import VllmMetal.Logits.Layout

/-!
# The reduced rows of a YOCO forward

The cross-decoder of a YOCO model runs only on the rows whose logits the step reads.
`build_yoco_reduced_context_from_full_metadata` (`yoco.py`) picks them out of the metadata of the
full forward, and gives each a segment of its own.

## Main definitions

* `YocoReducedContextMetadata`, `buildYocoReducedContext` — the reduced metadata.
* `readRows` — the rows whose logits a step reads without prompt logprobs; `stepRows` — those of
  any step.
* `PagedAttentionContext.reduced` — the reduced metadata of one cache group of a context.
* `metaOf` — the reduced metadata that a list of packed rows has.

## Main results

* `reached_of_prepareGrouped` — what a batch that `prepare_grouped` accepts has blocks for.
* `reduced_eq` — the reduced metadata is that of the rows read, in either layout.
* `yoco_reduced_layout_independent` — the two layouts of a batch reduce to the same rows.
* `yoco_reduced_rows_read_iff` — they are the rows the step reads exactly if no chunk of several
  rows wants prompt logprobs.
-/

namespace VllmMetal
namespace Attention

/-! ### The reduced metadata -/

/-- `YocoReducedContextMetadata`: the rows picked from the packed ones, each with its slot, block
table, context length and offset, and the boundaries of segments of one row. -/
structure YocoReducedContextMetadata where
  selectedQueryIndices : List ℕ
  slotMapping : List ℕ
  blockTables : List (List ℕ)
  contextLens : List ℕ
  offsets : List ℕ
  cuSeqlens : List ℕ
  deriving DecidableEq

/-- The `ValueError`s of the reduction. -/
inductive YocoError where
  /-- `cu_seqlens must start with 0`. -/
  | cuSeqlensStart
  /-- `block_tables, context_lens, and offsets must match cu_seqlens segments`. -/
  | segmentsMismatch
  /-- `cu_seqlens segments must be positive and increasing`. -/
  | segmentsNotIncreasing
  /-- `slot_mapping shorter than cu_seqlens`. -/
  | slotMappingShort
  /-- `slot_mapping length must match final cu_seqlens`. -/
  | slotMappingLength
  deriving DecidableEq

/-- The loop body over the selected rows of a segment. -/
def YocoReducedContextMetadata.pushRow (slotMapping segmentTable : List ℕ)
    (contextLen segmentOffset qStart : ℕ) (window : Bool)
    (reduced : YocoReducedContextMetadata) (row : ℕ) : YocoReducedContextMetadata :=
  let rowInSegment := row - qStart
  { selectedQueryIndices := reduced.selectedQueryIndices ++ [row]
    slotMapping := reduced.slotMapping ++ [slotMapping.getD row 0]
    blockTables := reduced.blockTables ++ [segmentTable]
    contextLens := reduced.contextLens ++
      [if window then segmentOffset + rowInSegment + 1 else contextLen]
    offsets := reduced.offsets ++ [segmentOffset + rowInSegment]
    cuSeqlens := reduced.cuSeqlens ++ [reduced.cuSeqlens.getLastD 0 + 1] }

/-- The loop body over the segments. -/
def reduceSegment (slotMapping : List ℕ) (blockTables : List (List ℕ))
    (contextLens offsets cuSeqlens : List ℕ) (numDecodeSegments : ℕ)
    (reduced : YocoReducedContextMetadata) (segmentIdx : ℕ) :
    Except YocoError YocoReducedContextMetadata :=
  let qStart := cuSeqlens.getD segmentIdx 0
  let qEnd := cuSeqlens.getD (segmentIdx + 1) 0
  if qEnd ≤ qStart then .error .segmentsNotIncreasing
  else if slotMapping.length < qEnd then .error .slotMappingShort
  else
    let segmentLen := qEnd - qStart
    -- a verification window: every row's logits verify one draft
    let window := decide (segmentIdx < numDecodeSegments ∧ 1 < segmentLen)
    let selectedRows := if window then List.range' qStart segmentLen else [qEnd - 1]
    .ok (selectedRows.foldl
      (YocoReducedContextMetadata.pushRow slotMapping (blockTables.getD segmentIdx [])
        (contextLens.getD segmentIdx 0) (offsets.getD segmentIdx 0) qStart window) reduced)

/-- `build_yoco_reduced_context_from_full_metadata`. -/
def buildYocoReducedContext (slotMapping : List ℕ) (blockTables : List (List ℕ))
    (contextLens offsets cuSeqlens : List ℕ) (numDecodeSegments : ℕ) :
    Except YocoError YocoReducedContextMetadata :=
  if cuSeqlens.head? ≠ some 0 then .error .cuSeqlensStart
  else
    let numSegments := cuSeqlens.length - 1
    if blockTables.length ≠ numSegments ∨ contextLens.length ≠ numSegments ∨
        offsets.length ≠ numSegments then .error .segmentsMismatch
    else do
      let reduced ← (List.range numSegments).foldlM
        (reduceSegment slotMapping blockTables contextLens offsets cuSeqlens numDecodeSegments)
        ⟨[], [], [], [], [], [0]⟩
      if cuSeqlens.getLastD 0 ≠ slotMapping.length then .error .slotMappingLength
      else .ok reduced

/-- The reduced metadata of a context's own fields. -/
def PagedAttentionContext.reduced (ctx : PagedAttentionContext) :
    Except YocoError YocoReducedContextMetadata :=
  buildYocoReducedContext ctx.slotMapping ctx.blockTables ctx.contextLens ctx.offsets
    ctx.cuSeqlens ctx.numDecodeRequests

/-- The reduced metadata of one of the cache groups of a context. -/
def PagedAttentionContext.reducedGroup (ctx : PagedAttentionContext)
    (group : PagedKVGroupContext) : Except YocoError YocoReducedContextMetadata :=
  buildYocoReducedContext group.slotMapping group.blockTables ctx.contextLens ctx.offsets
    ctx.cuSeqlens ctx.numDecodeRequests

/-! ### The rows a step reads -/

/-- Every row of a decode request and the last row of every chunk. -/
def readRows (decodeRequests : List DecodeRequest) (prefillRequests : List PrefillRequest) :
    List ℕ :=
  let decodeRows := (decodeRequests.map DecodeRequest.numTokens).sum
  List.range decodeRows ++ (List.range prefillRequests.length).map fun i =>
    decodeRows + ((prefillRequests.map PrefillRequest.numTokens).take (i + 1)).sum - 1

/-- The rows of chunk `i` whose logits the step reads: the last one, or all of them where the
request wants prompt logprobs (`_gather_prefill_prompt_logprobs`). -/
def chunkRowsRead (cuSeqlens : List ℕ) (numDecodeSegments : ℕ) (wants : ℕ → Bool) (i : ℕ) :
    List ℕ :=
  let segStart := cuSeqlens.getD (numDecodeSegments + i) 0
  let segEnd := cuSeqlens.getD (numDecodeSegments + i + 1) 0
  if wants i then List.range' segStart (segEnd - segStart) else [segEnd - 1]

/-- The rows whose logits a step reads, through the boundaries of its packed segments; `wants`
are the prefills whose requests want prompt logprobs. -/
def stepRows (cuSeqlens : List ℕ) (numDecodeSegments numPrefills : ℕ) (wants : ℕ → Bool) :
    List ℕ :=
  List.range (cuSeqlens.getD numDecodeSegments 0) ++
    (List.range numPrefills).flatMap (chunkRowsRead cuSeqlens numDecodeSegments wants)

/-! ### The batches that are accepted -/

section Accepted

theorem slotsFrom_reaches {groupIndex B : ℕ} {table : List ℕ} {start n : ℕ} {slots : List ℕ}
    (h : slotsFrom groupIndex B table start n = .ok slots) :
    ∀ pos, start ≤ pos → pos < start + n → pos / B < table.length := by
  induction n generalizing start slots with
  | zero => intro pos _ _; omega
  | succ n ih =>
    intro pos hle hlt
    rw [slotsFrom] at h
    cases hget : table[start / B]? with
    | none => simp [hget] at h
    | some block =>
      cases hrest : slotsFrom groupIndex B table (start + 1) n with
      | error e => simp [hget, hrest] at h
      | ok rest =>
        rcases Nat.eq_or_lt_of_le hle with rfl | hgt
        · exact (List.getElem?_eq_some_iff.mp hget).1
        · exact ih hrest pos hgt (by omega)

theorem pushGroups_reaches {blockIds : List (List ℕ)} {start n segments i : ℕ}
    {groups groups' : List PagedKVGroupContext}
    (h : pushGroups blockIds start n segments i groups = .ok groups') :
    groups'.map PagedKVGroupContext.blockSize = groups.map PagedKVGroupContext.blockSize ∧
    ∀ g B : ℕ, (groups.map PagedKVGroupContext.blockSize)[g]? = some B →
      ∃ table : List ℕ, blockIds[i + g]? = some table ∧
        ∀ pos, start ≤ pos → pos < start + n → pos / B < table.length := by
  induction groups generalizing i groups' with
  | nil =>
    cases h
    exact ⟨rfl, fun g B hB => by simp at hB⟩
  | cons group groups ih =>
    rw [pushGroups] at h
    cases htable : blockIds[i]? with
    | none => simp [htable] at h
    | some table =>
      cases hslots : slotsFrom i group.blockSize table start n with
      | error e => simp [htable, hslots] at h
      | ok slots =>
        cases hrest : pushGroups blockIds start n segments (i + 1) groups with
        | error e => simp [htable, hslots, hrest] at h
        | ok rest =>
          simp only [htable, hslots, hrest, Except.ok.injEq] at h
          subst h
          obtain ⟨hsizes, hreach⟩ := ih hrest
          refine ⟨by simp [hsizes], fun g B hB => ?_⟩
          -- the group of the step, or one behind it
          cases g with
          | zero =>
            obtain rfl : group.blockSize = B := by simpa using hB
            exact ⟨table, by simpa using htable, slotsFrom_reaches hslots⟩
          | succ g =>
            obtain ⟨table', htable', hpos⟩ := hreach g B (by simpa using hB)
            exact ⟨table', by rwa [show i + (g + 1) = i + 1 + g by omega], hpos⟩

/-- What is packed so far has blocks for the rows of the requests so far. -/
def PackedReaches (blockSizes : List ℕ) (spans : List (List (List ℕ) × ℕ × ℕ)) (p : Packed) :
    Prop :=
  p.groups.map PagedKVGroupContext.blockSize = blockSizes ∧
    ∀ span ∈ spans, Reached blockSizes span.1 span.2.1 span.2.2

theorem PackedReaches.concat {blockSizes : List ℕ} {spans : List (List (List ℕ) × ℕ × ℕ)}
    {p p' : Packed} (h : PackedReaches blockSizes spans p) {blockIds : List (List ℕ)}
    {start n segments : ℕ} {groups : List PagedKVGroupContext}
    (hpush : pushGroups blockIds start n segments 0 p.groups = .ok groups)
    (hgroups : p'.groups = groups) :
    PackedReaches blockSizes (spans ++ [(blockIds, start, n)]) p' := by
  obtain ⟨hsizes, hreach⟩ := pushGroups_reaches hpush
  rw [h.1] at hsizes hreach
  refine ⟨by rw [hgroups, hsizes], fun span hspan => ?_⟩
  rcases List.mem_append.mp hspan with hspan | hspan
  · exact h.2 span hspan
  · rw [List.mem_singleton.mp hspan]
    intro g B hB
    obtain ⟨table, htable, hpos⟩ := hreach g B hB
    exact ⟨table, by rwa [Nat.zero_add] at htable, hpos⟩

theorem groups_foldl_pushSegment (positions : List ℕ) (p : Packed) :
    (positions.foldl (fun p pos => p.pushSegment pos 1) p).groups = p.groups := by
  induction positions generalizing p with
  | nil => rfl
  | cons pos positions ih => exact ih _

theorem pushDecode_reaches {blockSizes : List ℕ} {spans : List (List (List ℕ) × ℕ × ℕ)}
    {p p' : Packed} {merge : Bool} {r : DecodeRequest} (h : PackedReaches blockSizes spans p)
    (hpush : pushDecode merge p r = .ok p') :
    PackedReaches blockSizes (spans ++ [(r.blockIds, r.seqLen, r.numTokens)]) p' := by
  unfold pushDecode at hpush
  dsimp only at hpush
  split at hpush
  · cases hpush
  · next groups hgroups =>
    split at hpush
    · cases hpush
      exact h.concat hgroups (groups_foldl_pushSegment _ _)
    · cases hpush
      exact h.concat hgroups rfl

theorem pushPrefill_reaches {blockSizes : List ℕ} {spans : List (List (List ℕ) × ℕ × ℕ)}
    {p p' : Packed} {r : PrefillRequest} (h : PackedReaches blockSizes spans p)
    (hpush : pushPrefill p r = .ok p') :
    PackedReaches blockSizes (spans ++ [(r.blockIds, r.startPos, r.numTokens)]) p' := by
  unfold pushPrefill at hpush
  split at hpush
  · cases hpush
  · next groups hgroups =>
    cases hpush
    exact h.concat hgroups rfl

/-- A batch that is accepted in one layout has groups, and blocks for all its rows. -/
theorem reached_of_prepareGrouped {decodeRequests : List DecodeRequest}
    {prefillRequests : List PrefillRequest} {blockSizes : List ℕ} {merge : Bool}
    {ctx : PagedAttentionContext}
    (h : prepareGrouped decodeRequests prefillRequests blockSizes merge = .ok ctx) :
    blockSizes ≠ [] ∧
      (∀ r ∈ decodeRequests, Reached blockSizes r.blockIds r.seqLen r.numTokens) ∧
      ∀ r ∈ prefillRequests, Reached blockSizes r.blockIds r.startPos r.numTokens := by
  unfold prepareGrouped at h
  dsimp only at h
  split at h
  · cases h
  · next p hp =>
    split at h
    · cases h
    · next p' hp' =>
      -- each loop, decodes first, reaches every row of what it has packed
      have hdecode := foldlM_ok_induction
        (P := fun done p => PackedReaches blockSizes
          (done.map fun r : DecodeRequest => (r.blockIds, r.seqLen, r.numTokens)) p)
        (fun done p r p' hdone hpush => by
          rw [List.map_append]
          exact pushDecode_reaches hdone hpush)
        hp ⟨by rw [List.map_map]; exact List.map_id _, by simp⟩
      have hprefill := foldlM_ok_induction
        (P := fun done p => PackedReaches blockSizes
          (done.map fun r : PrefillRequest => (r.blockIds, r.startPos, r.numTokens)) p)
        (fun done p r p' hdone hpush => by
          rw [List.map_append]
          exact pushPrefill_reaches hdone hpush)
        hp' ⟨hdecode.1, by simp⟩
      refine ⟨?_, fun r hr => hdecode.2 _ (List.mem_map_of_mem hr),
        fun r hr => hprefill.2 _ (List.mem_map_of_mem hr)⟩
      rintro rfl
      rw [List.map_eq_nil_iff.mp hprefill.1] at h
      cases h

/-- The fields of a context that mirror others. -/
theorem fields_of_prepareGrouped {decodeRequests : List DecodeRequest}
    {prefillRequests : List PrefillRequest} {blockSizes : List ℕ} {merge : Bool}
    {ctx : PagedAttentionContext}
    (h : prepareGrouped decodeRequests prefillRequests blockSizes merge = .ok ctx) :
    ctx.numDecodeRequests = decodeRequests.length ∧ ∃ group, ctx.kvGroups[0]? = some group ∧
      ctx.slotMapping = group.slotMapping ∧ ctx.blockTables = group.blockTables := by
  unfold prepareGrouped at h
  dsimp only at h
  split at h
  · cases h
  · split at h
    · cases h
    · split at h
      · cases h
      · next p _ group groups hgroups =>
        cases h
        exact ⟨rfl, group, by rw [hgroups]; rfl, rfl, rfl⟩

end Accepted

/-! ### What the reduction computes -/

section Reduce

/-- The rows picked from the segments from packed row `start` on, `decodes` of which are decode
segments. -/
def picks : ℕ → ℕ → List Segment → List ℕ
  | _, _, [] => []
  | decodes, start, s :: segs =>
      (if 0 < decodes ∧ 1 < s.rows then List.range' start s.rows else [start + s.rows - 1]) ++
        picks (decodes - 1) (start + s.rows) segs

/-- The reduced metadata of some of the packed rows. -/
def metaOf (B g : ℕ) (tokens : List (List (List ℕ) × ℕ)) (rows : List ℕ) :
    YocoReducedContextMetadata :=
  let token := fun k => tokens.getD k ([], 0)
  { selectedQueryIndices := rows
    slotMapping := rows.map fun k => cellOf B ((token k).1.getD g []) (token k).2
    blockTables := rows.map fun k => (token k).1.getD g []
    contextLens := rows.map fun k => (token k).2 + 1
    offsets := rows.map fun k => (token k).2
    cuSeqlens := List.range (rows.length + 1) }

variable {B g : ℕ} {tokens : List (List (List ℕ) × ℕ)}

/-- One more row. -/
theorem pushRow_metaOf {rows : List ℕ} {k : ℕ} {blockIds : List (List ℕ)} {pos : ℕ}
    (htoken : tokens[k]? = some (blockIds, pos)) {contextLen segmentOffset qStart : ℕ}
    {window : Bool} (hoffset : segmentOffset + (k - qStart) = pos)
    (hcontext : window = false → contextLen = pos + 1) :
    (metaOf B g tokens rows).pushRow
        (tokens.map fun token => cellOf B (token.1.getD g []) token.2) (blockIds.getD g [])
        contextLen segmentOffset qStart window k
      = metaOf B g tokens (rows ++ [k]) := by
  have hget : tokens.getD k ([], 0) = (blockIds, pos) := by
    rw [List.getD, htoken]
    rfl
  have hslot : (tokens.map fun token => cellOf B (token.1.getD g []) token.2).getD k 0
      = cellOf B (blockIds.getD g []) pos := by
    rw [List.getD, List.getElem?_map, htoken]
    rfl
  have hlen : (if window then pos + 1 else contextLen) = pos + 1 := by
    split_ifs with hwindow
    · rfl
    · exact hcontext (by simpa using hwindow)
  have hcu : (List.range (rows.length + 1)).getLastD 0 = rows.length := by
    rw [List.range_succ, List.getLastD_concat]
  simp only [YocoReducedContextMetadata.pushRow, metaOf, List.map_append, List.map_singleton, hget,
    hslot, hlen, hoffset, hcu, List.length_append, List.length_singleton]
  rw [List.range_succ (n := rows.length + 1)]

/-- The rows of one segment, as many as are picked. -/
theorem foldl_pushRow_metaOf {s : Segment} {start contextLen : ℕ} {window : Bool}
    (htokens : ∀ j, j < s.rows → tokens[start + j]? = some (s.blockIds, s.first + j))
    (ks rows : List ℕ) (hks : ∀ k ∈ ks, start ≤ k ∧ k < start + s.rows ∧
      (window = false → contextLen = s.first + (k - start) + 1)) :
    ks.foldl (YocoReducedContextMetadata.pushRow
        (tokens.map fun token => cellOf B (token.1.getD g []) token.2) (s.table g)
        contextLen s.first start window) (metaOf B g tokens rows)
      = metaOf B g tokens (rows ++ ks) := by
  induction ks generalizing rows with
  | nil => rw [List.append_nil]; rfl
  | cons k ks ih =>
    obtain ⟨hle, hlt, hcontext⟩ := hks k List.mem_cons_self
    have htoken := htokens (k - start) (by omega)
    rw [Nat.add_sub_cancel' hle] at htoken
    rw [List.foldl_cons, Segment.table, pushRow_metaOf htoken rfl hcontext]
    have hrest := ih (rows ++ [k]) fun k' hk' => hks k' (List.mem_cons_of_mem k hk')
    rw [List.append_assoc] at hrest
    exact hrest

/-- The packed rows of a segment, after the segments before it. -/
theorem getElem?_tokens_append {done : List Segment} {s : Segment} {todo : List Segment} {j : ℕ}
    (hj : j < s.rows) :
    ((done ++ s :: todo).flatMap Segment.tokens)[(done.map Segment.rows).sum + j]?
      = some (s.blockIds, s.first + j) := by
  have hlength : (done.flatMap Segment.tokens).length = (done.map Segment.rows).sum := by
    rw [List.length_flatMap]
    exact congrArg List.sum (List.map_congr_left fun s _ => length_tokens s)
  rw [List.flatMap_append, List.getElem?_append_right (by omega), hlength,
    Nat.add_sub_cancel_left, List.flatMap_cons,
    List.getElem?_append_left (by rw [length_tokens]; exact hj), Segment.tokens,
    List.getElem?_map, List.getElem?_range' hj, Nat.one_mul]
  rfl

/-- **The loop over the segments.**  A segment without rows is refused; otherwise the rows picked
are those of `picks`. -/
theorem foldlM_reduceSegment {segs : List Segment} (numDecodeSegments : ℕ)
    (todo done : List Segment) (hsegs : done ++ todo = segs) (rows : List ℕ) :
    (List.range' done.length todo.length).foldlM
        (reduceSegment (segs.flatMap (Segment.slots B g)) (segs.map (Segment.table g))
          (segs.map fun s => s.first + s.rows) (segs.map Segment.first)
          (boundaries (segs.map Segment.rows)) numDecodeSegments)
        (metaOf B g (segs.flatMap Segment.tokens) rows)
      = if ∀ s ∈ todo, 0 < s.rows then
          .ok (metaOf B g (segs.flatMap Segment.tokens) (rows ++
            picks (numDecodeSegments - done.length) (done.map Segment.rows).sum todo))
        else .error .segmentsNotIncreasing := by
  -- induction on the segments left, with the rows picked so far
  induction todo generalizing done rows with
  | nil => simp [picks, pure, Except.pure]
  | cons s todo ih =>
    have hget : segs[done.length]? = some s := by
      rw [← hsegs, List.getElem?_append_right (Nat.le_refl _), Nat.sub_self]
      rfl
    have hgetMap : ∀ {β : Type} (f : Segment → β) (d : β),
        (segs.map f).getD done.length d = f s := by
      intro β f d
      rw [List.getD, List.getElem?_map, hget]
      rfl
    have hstart : (boundaries (segs.map Segment.rows)).getD done.length 0
        = (done.map Segment.rows).sum := by
      rw [getD_boundaries (by rw [← hsegs]; simp), ← hsegs, List.map_append,
        List.take_left' (List.length_map _)]
    have hend : (boundaries (segs.map Segment.rows)).getD (done.length + 1) 0
        = (done.map Segment.rows).sum + s.rows := by
      rw [getD_boundaries_succ (by rw [List.getElem?_map, hget]; rfl), hstart]
    have hslots : (segs.flatMap (Segment.slots B g)).length
        = (done.map Segment.rows).sum + (s.rows + (todo.map Segment.rows).sum) := by
      rw [slots_eq_map_tokens, List.length_map, List.length_flatMap, ← hsegs,
        List.map_congr_left fun s _ => length_tokens s, List.map_append, List.sum_append,
        List.map_cons, List.sum_cons]
    rw [List.length_cons, List.range'_succ, List.foldlM_cons, reduceSegment]
    simp only [hstart, hend, hgetMap, hslots]
    by_cases hrows : 0 < s.rows
    · rw [if_neg (by omega), if_neg (by omega), Nat.add_sub_cancel_left]
      -- the rows of this segment, and which of them are picked
      have htokens : ∀ j, j < s.rows → (segs.flatMap Segment.tokens)[
          (done.map Segment.rows).sum + j]? = some (s.blockIds, s.first + j) := by
        intro j hj
        rw [← hsegs]
        exact getElem?_tokens_append hj
      have hpicked : ∀ window : Bool, ∀ k ∈ (if window then
          List.range' (done.map Segment.rows).sum s.rows
          else [(done.map Segment.rows).sum + s.rows - 1]),
          (done.map Segment.rows).sum ≤ k ∧ k < (done.map Segment.rows).sum + s.rows ∧
          (window = false →
            s.first + s.rows = s.first + (k - (done.map Segment.rows).sum) + 1) := by
        intro window k hk
        cases window with
        | true =>
          rw [if_pos rfl, List.mem_range'_1] at hk
          exact ⟨hk.1, hk.2, fun h => nomatch h⟩
        | false =>
          rw [if_neg Bool.false_ne_true, List.mem_singleton] at hk
          omega
      rw [slots_eq_map_tokens, foldl_pushRow_metaOf htokens _ rows (hpicked _)]
      have hrest := ih (done ++ [s]) (by rw [← hsegs, List.append_assoc]; rfl)
        (rows ++ if 0 < numDecodeSegments - done.length ∧ 1 < s.rows then
          List.range' (done.map Segment.rows).sum s.rows
          else [(done.map Segment.rows).sum + s.rows - 1])
      rw [List.length_append, List.length_singleton, slots_eq_map_tokens] at hrest
      simp only [decide_eq_true_eq]
      have hdecode : (done.length < numDecodeSegments ∧ 1 < s.rows) ↔
          (0 < numDecodeSegments - done.length ∧ 1 < s.rows) := by
        omega
      simp only [hdecode]
      refine hrest.trans ?_
      simp only [List.forall_mem_cons, hrows, true_and, picks, List.map_append, List.map_singleton,
        List.sum_append, List.sum_singleton, List.append_assoc, Nat.sub_sub]
    -- an empty segment raises
    · rw [if_pos (by omega), if_neg fun h => hrows (h s List.mem_cons_self)]
      rfl

/-- The rows picked from segments that are all read: decode segments, or segments of one row. -/
theorem picks_append {decodes start : ℕ} {segs : List Segment} (rest : List Segment)
    (hrows : ∀ s ∈ segs, 0 < s.rows)
    (hread : segs.length ≤ decodes ∨ ∀ s ∈ segs, s.rows = 1) :
    picks decodes start (segs ++ rest) = List.range' start (segs.map Segment.rows).sum ++
      picks (decodes - segs.length) (start + (segs.map Segment.rows).sum) rest := by
  induction segs generalizing decodes start with
  | nil => simp
  | cons s segs ih =>
    have hs := hrows s List.mem_cons_self
    have hhead : (if 0 < decodes ∧ 1 < s.rows then List.range' start s.rows
        else [start + s.rows - 1]) = List.range' start s.rows := by
      split_ifs with hwindow
      · rfl
      · have hone : s.rows = 1 := by
          rcases hread with hlen | hone
          · rw [List.length_cons] at hlen
            omega
          · exact hone s List.mem_cons_self
        rw [hone]
        rfl
    have hrest := @ih (decodes - 1) (start + s.rows)
      (fun s' hs' => hrows s' (List.mem_cons_of_mem s hs')) (by
        rcases hread with hlen | hone
        · rw [List.length_cons] at hlen
          exact Or.inl (by omega)
        · exact Or.inr fun s' hs' => hone s' (List.mem_cons_of_mem s hs'))
    rw [List.cons_append, picks, hhead, hrest, List.map_cons, List.sum_cons, List.length_cons,
      ← List.append_assoc, List.range'_append_1, Nat.add_assoc, Nat.sub_sub, Nat.add_comm 1]

/-- The rows picked from the prefill chunks are their last ones. -/
theorem picks_prefill (start : ℕ) (segs : List Segment) :
    picks 0 start segs = (List.range segs.length).map fun i =>
      start + ((segs.map Segment.rows).take (i + 1)).sum - 1 := by
  induction segs generalizing start with
  | nil => rfl
  | cons s segs ih =>
    rw [picks, if_neg (by omega), ih, List.length_cons, List.range_succ_eq_map, List.map_cons,
      List.map_map]
    have hhead : start + (((s :: segs).map Segment.rows).take (0 + 1)).sum - 1
        = start + s.rows - 1 := by simp
    rw [hhead]
    refine congrArg _ (List.map_congr_left fun i _ => ?_)
    simp only [Function.comp, List.map_cons, List.take_succ_cons, List.sum_cons]
    rw [Nat.add_assoc]

/-- Both layouts pick the same rows: every row of a decode request, the last of a chunk. -/
theorem picks_stepSegments {decodeRequests : List DecodeRequest}
    (prefillRequests : List PrefillRequest) (merge : Bool)
    (hrows : ∀ r ∈ decodeRequests, 0 < r.numTokens) :
    picks decodeRequests.length 0 (stepSegments decodeRequests prefillRequests merge)
      = readRows decodeRequests prefillRequests := by
  -- a request is one segment of all its rows, or one segment a row
  have hrequest : ∀ r ∈ decodeRequests,
      (∀ s ∈ r.segments merge, 0 < s.rows) ∧ 0 < (r.segments merge).length ∧
      ((r.segments merge).map Segment.rows).sum = r.numTokens ∧
      (merge = true → (r.segments merge).length = 1) ∧
      (merge = false → ∀ s ∈ r.segments merge, s.rows = 1) := by
    intro r hr
    have hpos := hrows r hr
    unfold DecodeRequest.segments
    split_ifs with hexpanded
    · refine ⟨?_, ?_, ?_, ?_, ?_⟩
      · intro s hs
        obtain ⟨pos, -, rfl⟩ := List.mem_map.mp hs
        exact Nat.one_pos
      · rw [List.length_map, List.length_range']
        exact hpos
      · rw [List.map_map]
        simp [Function.comp_def]
      · intro hmerge
        rw [hmerge] at hexpanded
        exact absurd hexpanded.2 (by decide)
      · intro _ s hs
        obtain ⟨pos, -, rfl⟩ := List.mem_map.mp hs
        rfl
    · refine ⟨by simpa using hpos, Nat.one_pos, by simp, fun _ => rfl, fun hmerge s hs => ?_⟩
      rw [List.mem_singleton.mp hs]
      have hone : ¬1 < r.numTokens := fun h => hexpanded ⟨h, hmerge⟩
      show r.numTokens = 1
      omega
  have hsum : ((decodeRequests.flatMap (DecodeRequest.segments merge)).map Segment.rows).sum
      = (decodeRequests.map DecodeRequest.numTokens).sum := by
    rw [List.map_flatMap, List.flatMap_def, List.sum_flatten, List.map_map]
    exact congrArg List.sum (List.map_congr_left fun r hr => (hrequest r hr).2.2.1)
  have hlength : decodeRequests.length ≤
      (decodeRequests.flatMap (DecodeRequest.segments merge)).length := by
    rw [List.length_flatMap]
    have hle : (decodeRequests.map fun r => (r.segments merge).length).length
        ≤ (decodeRequests.map fun r => (r.segments merge).length).sum := by
      refine length_le_sum fun n hn => ?_
      obtain ⟨r, hr, rfl⟩ := List.mem_map.mp hn
      exact (hrequest r hr).2.1
    rwa [List.length_map] at hle
  have hread : (decodeRequests.flatMap (DecodeRequest.segments merge)).length
        ≤ decodeRequests.length ∨
      ∀ s ∈ decodeRequests.flatMap (DecodeRequest.segments merge), s.rows = 1 := by
    cases merge with
    | true =>
      left
      rw [List.length_flatMap, List.map_congr_left fun r hr => (hrequest r hr).2.2.2.1 rfl]
      simp
    | false =>
      right
      intro s hs
      obtain ⟨r, hr, hs⟩ := List.mem_flatMap.mp hs
      exact (hrequest r hr).2.2.2.2 rfl s hs
  rw [stepSegments, picks_append _ (fun s hs => ?_) hread, hsum, Nat.sub_eq_zero_of_le hlength,
    picks_prefill, readRows, ← List.range_eq_range', Nat.zero_add, List.length_map, List.map_map]
  · rfl
  · obtain ⟨r, hr, hs⟩ := List.mem_flatMap.mp hs
    exact (hrequest r hr).1 s hs

/-- A request without rows is a segment without rows, in either layout. -/
theorem rows_stepSegments (decodeRequests : List DecodeRequest)
    (prefillRequests : List PrefillRequest) (merge : Bool) :
    (∀ s ∈ stepSegments decodeRequests prefillRequests merge, 0 < s.rows) ↔
      (∀ r ∈ decodeRequests, 0 < r.numTokens) ∧ ∀ r ∈ prefillRequests, 0 < r.numTokens := by
  have hrequest : ∀ r : DecodeRequest,
      (∀ s ∈ r.segments merge, 0 < s.rows) ↔ 0 < r.numTokens := by
    intro r
    unfold DecodeRequest.segments
    split_ifs with hexpanded
    · simp only [List.forall_mem_map, Nat.one_pos, implies_true, true_iff]
      omega
    · simp
  rw [stepSegments, List.forall_mem_append, List.forall_mem_flatMap, List.forall_mem_map]
  simp only [hrequest]
  rfl

/-- **The reduced metadata is that of the rows read**, in either layout; a request without rows is
refused in both. -/
theorem reduced_eq {decodeRequests : List DecodeRequest} {prefillRequests : List PrefillRequest}
    {blockSizes : List ℕ} {merge : Bool} {ctx : PagedAttentionContext}
    (hctx : ContextOf blockSizes (stepSegments decodeRequests prefillRequests merge) ctx)
    (hdecodes : ctx.numDecodeRequests = decodeRequests.length)
    {g B : ℕ} (hB : blockSizes[g]? = some B) :
    ∃ group, ctx.kvGroups[g]? = some group ∧ ctx.reducedGroup group =
      if (∀ r ∈ decodeRequests, 0 < r.numTokens) ∧ ∀ r ∈ prefillRequests, 0 < r.numTokens then
        .ok (metaOf B g (packedTokens decodeRequests prefillRequests)
          (readRows decodeRequests prefillRequests))
      else .error .segmentsNotIncreasing := by
  refine ⟨⟨(stepSegments decodeRequests prefillRequests merge).flatMap (Segment.slots B g),
    (stepSegments decodeRequests prefillRequests merge).map (Segment.table g), B⟩, ?_, ?_⟩
  · rw [hctx.kvGroups, getElem?_groupsOf, hB, Nat.zero_add]
    rfl
  -- the loop over the segments, started at the first
  have hloop := foldlM_reduceSegment (B := B) (g := g) decodeRequests.length
    (stepSegments decodeRequests prefillRequests merge) [] rfl []
  have hhead : (boundaries ((stepSegments decodeRequests prefillRequests merge).map
      Segment.rows)).head? = some 0 := by
    simp [boundaries, List.range_succ_eq_map]
  have htotal : (boundaries ((stepSegments decodeRequests prefillRequests merge).map
      Segment.rows)).getLastD 0
      = ((stepSegments decodeRequests prefillRequests merge).flatMap
        (Segment.slots B g)).length := by
    rw [getLastD_boundaries, slots_eq_map_tokens, List.length_map, List.length_flatMap]
    exact congrArg List.sum (List.map_congr_left fun s _ => (length_tokens s).symm)
  rw [List.length_nil, ← List.range_eq_range', List.nil_append, List.map_nil, List.sum_nil,
    Nat.sub_zero, tokens_stepSegments] at hloop
  simp only [rows_stepSegments] at hloop
  unfold PagedAttentionContext.reducedGroup buildYocoReducedContext
  dsimp only
  rw [hctx.cuSeqlens, hctx.contextLens, hctx.offsets, hdecodes, if_neg (not_not.mpr hhead),
    if_neg (by simp), length_boundaries, List.length_map, Nat.add_sub_cancel]
  change ((List.range _).foldlM _
    (metaOf B g (packedTokens decodeRequests prefillRequests) []) >>= _)
    = _
  rw [hloop, htotal]
  -- the loop returns exactly when no request of the step is empty
  by_cases hrows : (∀ r ∈ decodeRequests, 0 < r.numTokens) ∧ ∀ r ∈ prefillRequests, 0 < r.numTokens
  · rw [if_pos hrows, if_pos hrows, picks_stepSegments prefillRequests merge hrows.1]
    exact if_neg (not_not.mpr rfl)
  · rw [if_neg hrows, if_neg hrows]
    rfl

end Reduce

/-! ### The two layouts -/

section Layouts

variable {decodeRequests : List DecodeRequest} {prefillRequests : List PrefillRequest}

theorem length_packedTokens (decodeRequests : List DecodeRequest)
    (prefillRequests : List PrefillRequest) :
    (packedTokens decodeRequests prefillRequests).length
      = (decodeRequests.map DecodeRequest.numTokens).sum
        + (prefillRequests.map PrefillRequest.numTokens).sum := by
  rw [packedTokens, requestSpans, List.length_flatMap, List.map_append, List.map_map, List.map_map,
    List.sum_append]
  congr 2
  · exact List.map_congr_left fun r _ => length_tokens _
  · exact List.map_congr_left fun r _ => length_tokens _

/-- The rows read are packed rows. -/
theorem lt_of_mem_readRows (hprefill : ∀ r ∈ prefillRequests, 0 < r.numTokens) {k : ℕ}
    (hk : k ∈ readRows decodeRequests prefillRequests) :
    k < (packedTokens decodeRequests prefillRequests).length := by
  rw [length_packedTokens]
  rw [readRows, List.mem_append, List.mem_range, List.mem_map] at hk
  rcases hk with hk | ⟨i, hi, rfl⟩
  · omega
  · have hsplit := congrArg List.sum
      (List.take_append_drop (i + 1) (prefillRequests.map PrefillRequest.numTokens))
    rw [List.sum_append] at hsplit
    have hpos : ((prefillRequests.map PrefillRequest.numTokens).take (i + 1)).length
        ≤ ((prefillRequests.map PrefillRequest.numTokens).take (i + 1)).sum := by
      refine length_le_sum fun n hn => ?_
      obtain ⟨r, hr, rfl⟩ := List.mem_map.mp (List.mem_of_mem_take hn)
      exact hprefill r hr
    rw [List.length_take, List.length_map] at hpos
    rw [List.mem_range] at hi
    omega

/-- The rows of the segments of the merged layout. -/
theorem map_rows_stepSegments (decodeRequests : List DecodeRequest)
    (prefillRequests : List PrefillRequest) :
    (stepSegments decodeRequests prefillRequests true).map Segment.rows
      = decodeRequests.map DecodeRequest.numTokens
        ++ prefillRequests.map PrefillRequest.numTokens := by
  have hone : ∀ r ∈ decodeRequests, (r.segments true).map Segment.rows = [r.numTokens] := by
    intro r _
    unfold DecodeRequest.segments
    rw [if_neg (by simp)]
    rfl
  rw [stepSegments, List.map_append, List.map_map, List.map_flatMap, List.flatMap_congr hone,
    ← List.map_eq_flatMap]
  rfl

/-- The rows read are those the logits layout of the step selects. -/
theorem readRows_eq_layout
    (hprefill : ∀ r ∈ prefillRequests, 0 < r.numTokens) :
    readRows decodeRequests prefillRequests =
      (Logits.pagedLogitsLayout true (boundaries
        ((stepSegments decodeRequests prefillRequests true).map Segment.rows))
        decodeRequests.length).indices.getD
          (List.range (packedTokens decodeRequests prefillRequests).length) := by
  have hlayout := Logits.pagedLogitsLayout_boundaries true
    (decodeRequests.map DecodeRequest.numTokens) (prefillRequests.map PrefillRequest.numTokens)
  rw [List.length_map, List.length_map] at hlayout
  rw [map_rows_stepSegments, hlayout, length_packedTokens]
  split_ifs with hall
  · -- every chunk is one row, so every row is read
    have hones : ∀ n ∈ prefillRequests.map PrefillRequest.numTokens, n = 1 := by
      intro n hn
      refine eq_one_of_sum_le ?_ ?_ hn
      · intro m hm
        obtain ⟨r, hr, rfl⟩ := List.mem_map.mp hm
        exact hprefill r hr
      · rw [List.sum_append] at hall
        simp only [Bool.not_true, Bool.false_or, decide_eq_true_eq] at hall
        rw [List.length_map]
        omega
    have hreplicate := List.eq_replicate_of_mem hones
    rw [List.length_map] at hreplicate
    rw [readRows, hreplicate, List.sum_replicate_nat, Option.getD_none, Nat.mul_one,
      List.range_add]
    refine congrArg _ (List.map_congr_left fun i hi => ?_)
    rw [List.mem_range] at hi
    rw [List.take_replicate, List.sum_replicate_nat]
    omega
  · rfl

/-- What the reduction of a cache group gives: the rows read, each with the slot, block table,
context length and offset of its position. -/
structure Reduces (decodeRequests : List DecodeRequest) (prefillRequests : List PrefillRequest)
    (g B : ℕ) (reduced : YocoReducedContextMetadata) : Prop where
  selected : reduced.selectedQueryIndices = readRows decodeRequests prefillRequests
  lengths : reduced.slotMapping.length = reduced.selectedQueryIndices.length ∧
    reduced.blockTables.length = reduced.selectedQueryIndices.length ∧
    reduced.contextLens.length = reduced.selectedQueryIndices.length ∧
    reduced.offsets.length = reduced.selectedQueryIndices.length ∧
    reduced.cuSeqlens = List.range (reduced.selectedQueryIndices.length + 1)
  rows : ∀ i k : ℕ, reduced.selectedQueryIndices[i]? = some k → ∃ blockIds pos,
    (packedTokens decodeRequests prefillRequests)[k]? = some (blockIds, pos) ∧
    reduced.slotMapping[i]? = some (cellOf B (blockIds.getD g []) pos) ∧
    reduced.blockTables[i]? = some (blockIds.getD g []) ∧
    reduced.contextLens[i]? = some (pos + 1) ∧ reduced.offsets[i]? = some pos

theorem reduces_metaOf (g B : ℕ) (hprefill : ∀ r ∈ prefillRequests, 0 < r.numTokens) :
    Reduces decodeRequests prefillRequests g B
      (metaOf B g (packedTokens decodeRequests prefillRequests)
        (readRows decodeRequests prefillRequests)) where
  selected := rfl
  lengths := by simp [metaOf]
  rows i k hk := by
    have hlt := lt_of_mem_readRows hprefill (List.mem_of_getElem? hk)
    have htoken := List.getElem?_eq_getElem hlt
    refine ⟨_, _, htoken, ?_⟩
    change (readRows decodeRequests prefillRequests)[i]? = some k at hk
    simp only [metaOf, List.getElem?_map, hk, Option.map_some, List.getD, htoken, Option.getD_some]
    exact ⟨rfl, rfl, rfl, rfl⟩

/-- **The reduced rows do not depend on the layout.**  For any batch that is accepted, the merged
and the expanded layout reduce to one metadata, as a whole and group by group (or are both refused,
where some request has no rows); the rows picked are the rows whose logits the step reads, and each
comes with its own slot, block table, context length `position + 1` and offset. -/
theorem yoco_reduced_layout_independent {blockSizes : List ℕ} {merge : Bool}
    {ctx : PagedAttentionContext}
    (h : prepareGrouped decodeRequests prefillRequests blockSizes merge = .ok ctx) :
    ∃ merged expanded,
      prepareGrouped decodeRequests prefillRequests blockSizes true = .ok merged ∧
      prepareGrouped decodeRequests prefillRequests blockSizes false = .ok expanded ∧
      merged.reduced = expanded.reduced ∧
      ∀ g B : ℕ, blockSizes[g]? = some B → ∃ group group',
        merged.kvGroups[g]? = some group ∧ expanded.kvGroups[g]? = some group' ∧
        merged.reducedGroup group = expanded.reducedGroup group' ∧
        (g = 0 → merged.reduced = merged.reducedGroup group) ∧
        ((∀ r ∈ decodeRequests, 0 < r.numTokens) → (∀ r ∈ prefillRequests, 0 < r.numTokens) →
          (∃ reduced, merged.reducedGroup group = .ok reduced ∧
            Reduces decodeRequests prefillRequests g B reduced) ∧
          readRows decodeRequests prefillRequests =
            (Logits.pagedLogitsLayout true merged.cuSeqlens decodeRequests.length).indices.getD
              (List.range (packedTokens decodeRequests prefillRequests).length)) := by
  obtain ⟨hgroups, hdecode, hprefill⟩ := reached_of_prepareGrouped h
  obtain ⟨merged, hmerged, hctx, -⟩ := prepareGrouped_reached hgroups hdecode hprefill true
  obtain ⟨expanded, hexpanded, hctx', -⟩ := prepareGrouped_reached hgroups hdecode hprefill false
  obtain ⟨hnum, group₀, hgroup₀, hslots, htables⟩ := fields_of_prepareGrouped hmerged
  obtain ⟨hnum', group₀', hgroup₀', hslots', htables'⟩ := fields_of_prepareGrouped hexpanded
  -- the context's own fields are those of group zero
  have hfirst : merged.reduced = merged.reducedGroup group₀ := by
    rw [PagedAttentionContext.reduced, hslots, htables]
    rfl
  have hfirst' : expanded.reduced = expanded.reducedGroup group₀' := by
    rw [PagedAttentionContext.reduced, hslots', htables']
    rfl
  refine ⟨merged, expanded, hmerged, hexpanded, ?_, ?_⟩
  · cases hsizes : blockSizes with
    | nil => exact absurd hsizes hgroups
    | cons B rest =>
      have hB : blockSizes[0]? = some B := by
        rw [hsizes]
        rfl
      obtain ⟨group, hgroup, hreduced⟩ := reduced_eq hctx hnum hB
      obtain ⟨group', hgroup', hreduced'⟩ := reduced_eq hctx' hnum' hB
      obtain rfl := Option.some.inj (hgroup₀.symm.trans hgroup)
      obtain rfl := Option.some.inj (hgroup₀'.symm.trans hgroup')
      rw [hfirst, hfirst', hreduced, hreduced']
  · intro g B hB
    obtain ⟨group, hgroup, hreduced⟩ := reduced_eq hctx hnum hB
    obtain ⟨group', hgroup', hreduced'⟩ := reduced_eq hctx' hnum' hB
    refine ⟨group, group', hgroup, hgroup', hreduced.trans hreduced'.symm, ?_, ?_⟩
    · rintro rfl
      obtain rfl := Option.some.inj (hgroup₀.symm.trans hgroup)
      exact hfirst
    · intro hrows hrows'
      rw [if_pos ⟨hrows, hrows'⟩] at hreduced
      refine ⟨⟨_, hreduced, reduces_metaOf g B hrows'⟩, ?_⟩
      rw [hctx.cuSeqlens]
      exact readRows_eq_layout hrows'

/-! ### Steps with prompt logprobs -/

/-- A chunk is read whole where its request wants prompt logprobs, else its last row is. -/
theorem chunkRowsRead_boundaries {lens : List ℕ} {numDecodeSegments i n : ℕ} (wants : ℕ → Bool)
    (hn : lens[numDecodeSegments + i]? = some n) :
    chunkRowsRead (boundaries lens) numDecodeSegments wants i =
      if wants i then List.range' (lens.take (numDecodeSegments + i)).sum n
      else [(lens.take (numDecodeSegments + i + 1)).sum - 1] := by
  have hlt := (List.getElem?_eq_some_iff.mp hn).1
  rw [chunkRowsRead, getD_boundaries_sub hn, getD_boundaries (Nat.le_of_lt hlt),
    getD_boundaries (Nat.succ_le_of_lt hlt)]

/-- **The last rows are all that the step reads of its chunks exactly if no chunk of several rows
wants prompt logprobs.** -/
theorem stepRows_eq_readRows_iff (wants : ℕ → Bool)
    (hprefill : ∀ r ∈ prefillRequests, 0 < r.numTokens) :
    stepRows (boundaries (decodeRequests.map DecodeRequest.numTokens
          ++ prefillRequests.map PrefillRequest.numTokens))
        decodeRequests.length prefillRequests.length wants
      = readRows decodeRequests prefillRequests ↔
    ∀ (i : ℕ) r, prefillRequests[i]? = some r → wants i = true → r.numTokens = 1 := by
  set lens := decodeRequests.map DecodeRequest.numTokens
    ++ prefillRequests.map PrefillRequest.numTokens with hlens
  have hdecodeRows : (boundaries lens).getD decodeRequests.length 0
      = (decodeRequests.map DecodeRequest.numTokens).sum := by
    rw [getD_boundaries (by simp [hlens]), hlens, List.take_left' (List.length_map _)]
  have hlen : ∀ (i : ℕ) r, prefillRequests[i]? = some r →
      lens[decodeRequests.length + i]? = some r.numTokens := by
    intro i r hr
    rw [hlens, List.getElem?_append_right (by simp), List.length_map, Nat.add_sub_cancel_left,
      List.getElem?_map, hr]
    rfl
  have htake : ∀ i : ℕ, (lens.take (decodeRequests.length + i)).sum
      = (decodeRequests.map DecodeRequest.numTokens).sum
        + ((prefillRequests.map PrefillRequest.numTokens).take i).sum := by
    intro i
    rw [hlens, List.take_append, List.take_of_length_le (by simp), List.length_map,
      Nat.add_sub_cancel_left, List.sum_append]
  rw [stepRows, readRows, hdecodeRows, List.append_cancel_left_eq]
  constructor
  · intro heq i r hr hwants
    -- as many rows as chunks are read, so every chunk has one
    have hcount := congrArg List.length heq
    rw [List.length_flatMap, List.length_map, List.length_range] at hcount
    have hpos : ∀ n ∈ (List.range prefillRequests.length).map fun i =>
        (chunkRowsRead (boundaries lens) decodeRequests.length wants i).length, 0 < n := by
      intro n hn
      obtain ⟨j, hj, rfl⟩ := List.mem_map.mp hn
      have hget := List.getElem?_eq_getElem (List.mem_range.mp hj)
      rw [chunkRowsRead_boundaries wants (hlen j _ hget)]
      split_ifs
      · rw [List.length_range']
        exact hprefill _ (List.getElem_mem _)
      · exact Nat.one_pos
    have hi := (List.getElem?_eq_some_iff.mp hr).1
    have hone := eq_one_of_sum_le hpos (by rw [hcount]; simp)
      (List.mem_map_of_mem (List.mem_range.mpr hi))
    rwa [chunkRowsRead_boundaries wants (hlen i r hr), if_pos hwants, List.length_range'] at hone
  · intro hone
    rw [List.map_eq_flatMap]
    refine List.flatMap_congr fun i hi => ?_
    have hget := List.getElem?_eq_getElem (List.mem_range.mp hi)
    rw [chunkRowsRead_boundaries wants (hlen i _ hget), Nat.add_assoc, htake, htake]
    split_ifs with hwants
    · have hsucc : ((prefillRequests.map PrefillRequest.numTokens).take (i + 1)).sum
          = ((prefillRequests.map PrefillRequest.numTokens).take i).sum + 1 := by
        rw [List.take_add_one, List.getElem?_map, hget, List.sum_append]
        exact congrArg _ (by simpa using hone i _ hget hwants)
      rw [hone i _ hget hwants, hsucc]
      rfl
    · rfl

/-- What a step needs of the reduction: both layouts are accepted and reduce to one metadata, in
each cache group; the rows picked are the rows whose logits the step reads, each with its own slot,
block table, context length and offset. -/
def ReducesToRowsRead (decodeRequests : List DecodeRequest) (prefillRequests : List PrefillRequest)
    (blockSizes : List ℕ) (wants : ℕ → Bool) : Prop :=
  ∃ merged expanded,
    prepareGrouped decodeRequests prefillRequests blockSizes true = .ok merged ∧
    prepareGrouped decodeRequests prefillRequests blockSizes false = .ok expanded ∧
    merged.reduced = expanded.reduced ∧
    ∀ g B : ℕ, blockSizes[g]? = some B → ∃ group group',
      merged.kvGroups[g]? = some group ∧ expanded.kvGroups[g]? = some group' ∧
      merged.reducedGroup group = expanded.reducedGroup group' ∧
      (g = 0 → merged.reduced = merged.reducedGroup group) ∧
      ((∀ r ∈ decodeRequests, 0 < r.numTokens) → (∀ r ∈ prefillRequests, 0 < r.numTokens) →
        ∃ reduced, merged.reducedGroup group = .ok reduced ∧
          Reduces decodeRequests prefillRequests g B reduced ∧
          reduced.selectedQueryIndices =
            stepRows merged.cuSeqlens decodeRequests.length prefillRequests.length wants)

end Layouts

end Attention
end VllmMetal
