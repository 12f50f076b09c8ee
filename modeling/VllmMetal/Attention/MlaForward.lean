import VllmMetal.Attention.MlaSound
import VllmMetal.Attention.YocoReduced
import Mathlib.Data.List.ReduceOption

/-!
# The routes of a call

Whatever routes the segments of a step take, each is computed once, and its rows come out at their
places in the packed order: the batched rows are scattered back by their indices, and the loop over
the segments fills the others.

## Main results

* `materializedPrefill_eq`, `absorbedRows_eq` — both assemblies give the rows of the segments.
* `mla_routes_compute_rows` — the call.
-/

namespace VllmMetal
namespace Attention

variable {K Head Nope Rope Lora Val : Type} [Field K] [Fintype Nope] [Fintype Rope] [Fintype Lora]

/-! ### Filling the segments -/

/-- The outputs of the segments that are filled already. -/
def filled {R : Type} (N : ℕ) (result : ℕ → R) (done : ℕ → Bool) : List (Option R) :=
  (List.range N).map fun i => if done i then some (result i) else none

theorem getElem?_filled {R : Type} {N : ℕ} {result : ℕ → R} {done : ℕ → Bool} {i : ℕ} (hi : i < N) :
    (filled N result done)[i]? = some (if done i then some (result i) else none) := by
  rw [filled, List.getElem?_map, List.getElem?_range hi]
  rfl

/-- One more segment. -/
theorem set_filled {R : Type} {N : ℕ} {result : ℕ → R} {done : ℕ → Bool} {i : ℕ} {r : R}
    (hr : r = result i) :
    (filled N result done).set i (some r) = filled N result fun j => done j || decide (j = i) := by
  subst hr
  refine List.ext_getElem? fun j => ?_
  rcases Nat.lt_or_ge j N with hj | hj
  · rw [List.getElem?_set, getElem?_filled hj]
    by_cases hij : i = j
    · subst hij
      rw [if_pos rfl, if_pos (by rw [filled, List.length_map, List.length_range]; exact hj),
        getElem?_filled hj]
      simp
    · rw [if_neg hij, getElem?_filled hj, decide_eq_false (Ne.symm hij), Bool.or_false]
  · rw [List.getElem?_eq_none (by simpa [filled] using hj),
      List.getElem?_eq_none (by simpa [filled] using hj)]

/-- Results that are set one after the other. -/
theorem foldl_set_filled {R : Type} {N : ℕ} {result decoded : ℕ → R} (done : ℕ → Bool)
    {idx : List ℕ} (h : ∀ i ∈ idx, decoded i = result i) :
    idx.foldl (fun outs i => outs.set i (some (decoded i))) (filled N result done) =
      filled N result fun j => done j || decide (j ∈ idx) := by
  induction idx generalizing done with
  | nil => simp [filled]
  | cons i idx ih =>
    rw [List.foldl_cons, set_filled (h i List.mem_cons_self),
      ih _ fun j hj => h j (List.mem_cons_of_mem i hj)]
    congr 1
    funext j
    simp [Bool.or_assoc]

/-- The loop over the segments fills what is not filled. -/
theorem foldl_fill {R : Type} {N : ℕ} {result segment : ℕ → R} {done : ℕ → Bool} {l : List ℕ}
    (hl : ∀ i ∈ l, i < N ∧ segment i = result i) :
    l.foldl (fun outs i => if (outs.getD i none).isSome then outs
        else outs.set i (some (segment i))) (filled N result done) =
      filled N result fun j => done j || decide (j ∈ l) := by
  induction l generalizing done with
  | nil => simp [filled]
  | cons i l ih =>
    obtain ⟨hi, hsegment⟩ := hl i List.mem_cons_self
    rw [List.foldl_cons, List.getD_eq_getElem?_getD, getElem?_filled hi, Option.getD_some]
    have hrest := fun done => @ih done fun j hj => hl j (List.mem_cons_of_mem i hj)
    by_cases hdone : done i = true
    · rw [if_pos (by rw [if_pos hdone]; rfl), hrest]
      congr 1
      funext j
      by_cases hj : j = i
      · subst hj
        simp [hdone]
      · simp [hj]
    · rw [if_neg (by rw [if_neg hdone]; exact Bool.false_ne_true), set_filled hsegment, hrest]
      congr 1
      funext j
      simp [Bool.or_assoc]

/-- Segments that are all filled. -/
theorem filled_all {R : Type} {N : ℕ} {result : ℕ → R} {done : ℕ → Bool}
    (h : ∀ i < N, done i = true) : filled N result done = (List.range N).map fun i =>
      some (result i) :=
  List.map_congr_left fun i hi => if_pos (h i (List.mem_range.mp hi))

theorem reduceOption_map_some {α R : Type} (l : List α) (f : α → R) :
    (l.map fun a => some (f a)).reduceOption = l.map f := by
  induction l with
  | nil => rfl
  | cons a l ih => rw [List.map_cons, List.reduceOption_cons_of_some, ih, List.map_cons]

/-! ### The call -/

/-- What the metadata of a step says of its segments, in the one cache group. -/
structure MlaContextOf (B : ℕ) (segs : List Segment) (ctx : PagedAttentionContext) : Prop where
  blockTables : ctx.blockTables = segs.map (Segment.table 0)
  slotMapping : ctx.slotMapping = segs.flatMap (Segment.slots B 0)
  contextLens : ctx.contextLens = segs.map fun s => s.first + s.rows
  cuSeqlens : ctx.cuSeqlens = boundaries (segs.map Segment.rows)
  mapped : ∀ s ∈ segs, Mapped B (s.table 0) (s.first + s.rows)

section Call

variable {B : ℕ} {segs : List Segment} {ctx : PagedAttentionContext} {i : ℕ} {s : Segment}

theorem MlaContextOf.length_contextLens (h : MlaContextOf B segs ctx) :
    ctx.contextLens.length = segs.length := by
  rw [h.contextLens, List.length_map]

/-- A segment in the metadata. -/
theorem MlaContextOf.segmentAt (h : MlaContextOf B segs ctx) (hs : segs[i]? = some s) :
    SegmentAt B ctx i (s.table 0) s.first s.rows where
  table_eq := by
    rw [h.blockTables, List.getD_eq_getElem?_getD, List.getElem?_map, hs]
    rfl
  context_eq := by
    rw [h.contextLens, List.getD_eq_getElem?_getD, List.getElem?_map, hs]
    rfl
  rows_eq := by
    rw [PagedAttentionContext.numNew, h.cuSeqlens]
    exact getD_boundaries_sub (by rw [List.getElem?_map, hs]; rfl)
  mapped := h.mapped s (List.mem_of_getElem? hs)

theorem MlaContextOf.exists_segment (h : MlaContextOf B segs ctx)
    (hi : i < ctx.contextLens.length) :
    ∃ s, segs[i]? = some s := by
  rw [h.length_contextLens] at hi
  exact ⟨_, List.getElem?_eq_getElem hi⟩

/-- Every segment has its table, and blocks for its context. -/
theorem MlaContextOf.mapped_all (h : MlaContextOf B segs ctx) :
    ∀ i < ctx.contextLens.length, i < ctx.blockTables.length ∧
      Mapped B (ctx.blockTables.getD i []) (ctx.contextLens.getD i 0) := by
  intro i hi
  obtain ⟨s, hs⟩ := h.exists_segment hi
  have hsegment := h.segmentAt hs
  refine ⟨?_, ?_⟩
  · rw [h.blockTables, List.length_map]
    exact (List.getElem?_eq_some_iff.mp hs).1
  · rw [hsegment.table_eq, hsegment.context_eq]
    exact hsegment.mapped

/-- The slot of a row of a segment. -/
theorem MlaContextOf.slot (h : MlaContextOf B segs ctx) (hs : segs[i]? = some s) {t : ℕ}
    (ht : t < s.rows) : ctx.slotMapping[ctx.cuSeqlens.getD i 0 + t]? =
      some (cellOf B (s.table 0) (s.first + t)) := by
  have hlens : segs.map (fun s => (s.slots B 0).length) = segs.map Segment.rows :=
    List.map_congr_left fun s _ => by rw [Segment.slots, List.length_map, List.length_range']
  have hrow := getElem?_flatMap_boundary (f := Segment.slots B 0) hs (j := t) (by
    rw [Segment.slots, List.length_map, List.length_range']
    exact ht)
  rw [hlens, ← h.cuSeqlens, ← h.slotMapping] at hrow
  rw [hrow, Segment.slots, List.getElem?_map, List.getElem?_range' ht, Option.map_some,
    Nat.one_mul]

omit [Field K] [Fintype Nope] [Fintype Rope] [Fintype Lora] in
/-- A new token is read back from its slot. -/
theorem MlaContextOf.written (h : MlaContextOf B segs ctx) (hslots : ctx.slotMapping.Nodup)
    (cache : ℕ → Latent K Lora Rope) (rows : MlaRows K Head Nope Rope Lora)
    (hs : segs[i]? = some s) {t : ℕ} (ht : t < s.rows) :
    writeLatents ctx cache rows (cellOf B (s.table 0) (s.first + t)) =
      rows.latentNew (ctx.cuSeqlens.getD i 0 + t) := by
  have hslot := h.slot hs ht
  have hlt := (List.getElem?_eq_some_iff.mp hslot).1
  rw [writeLatents, scatter_eq_assign hslots (by simp)]
  refine assign_of_getElem? hslots hslot ?_
  rw [List.getElem?_map, List.getElem?_range hlt]
  rfl

variable (exp : K → K) (layer : MlaLayer K Head Nope Lora Val) (cache : ℕ → Latent K Lora Rope)
  (rows : MlaRows K Head Nope Rope Lora)

/-- The rows of segment `i`. -/
def segmentResult (B : ℕ) (ctx : PagedAttentionContext) (i : ℕ) : List (MlaOut K Head Val) :=
  segmentRowsOf exp layer B cache (fun row => rows.query (ctx.cuSeqlens.getD i 0 + row))
    (ctx.blockTables.getD i []) (ctx.contextLens.getD i 0 - ctx.numNew i) (ctx.numNew i)

theorem MlaContextOf.segmentResult_eq (h : MlaContextOf B segs ctx) (hs : segs[i]? = some s) :
    segmentResult exp layer cache rows B ctx i = segmentRowsOf exp layer B cache
      (fun row => rows.query (ctx.cuSeqlens.getD i 0 + row)) (s.table 0) s.first s.rows := by
  have hsegment := h.segmentAt hs
  rw [segmentResult, hsegment.table_eq, hsegment.context_eq, hsegment.rows_eq, Nat.add_sub_cancel]

/-- The one row of a decode segment. -/
theorem MlaContextOf.segmentResult_one (h : MlaContextOf B segs ctx)
    (hi : i < ctx.contextLens.length) (hone : ctx.numNew i = 1) :
    segmentResult exp layer cache rows B ctx i = [firstRowOf exp layer cache rows B ctx i] := by
  obtain ⟨s, hs⟩ := h.exists_segment hi
  have hsegment := h.segmentAt hs
  have hrows : s.rows = 1 := hsegment.rows_eq.symm.trans hone
  rw [h.segmentResult_eq exp layer cache rows hs, segmentRowsOf, hrows, firstRowOf,
    hsegment.table_eq, hsegment.context_eq, hrows]
  rfl

omit [Field K] [Fintype Nope] [Fintype Lora] in
/-- The rows of the batched route are decode segments, none of them twice. -/
theorem decodeBatchRows_spec {idx : List ℕ} (h : decodeBatchRows layer ctx = some idx) :
    idx.Nodup ∧ ∀ i ∈ idx, i < ctx.contextLens.length ∧ ctx.numNew i = 1 := by
  unfold decodeBatchRows at h
  split at h
  · cases h
  · simp only at h
    split at h
    · obtain rfl := Option.some.inj h
      have hperm := List.mergeSort_perm ((List.range ctx.contextLens.length).filter fun i =>
        decide (ctx.numNew i = 1) && decide (ctx.contextLens.getD i 0 ≤ decodeBatchMaxCtx))
        fun i j => decide (ctx.contextLens.getD i 0 ≤ ctx.contextLens.getD j 0)
      refine ⟨hperm.nodup_iff.mpr (List.nodup_range.filter _), fun i hi => ?_⟩
      obtain ⟨hrange, hkeep⟩ := List.mem_filter.mp (hperm.mem_iff.mp hi)
      rw [Bool.and_eq_true, decide_eq_true_iff] at hkeep
      exact ⟨List.mem_range.mp hrange, hkeep.1⟩
    · cases h

/-- The batched route, in the order of its rows. -/
theorem MlaContextOf.absorbedDecodeBatch_eq (h : MlaContextOf B segs ctx) (hB : 0 < B)
    {idx : List ℕ} (hidx : ∀ i ∈ idx, i < ctx.contextLens.length) :
    absorbedDecodeBatch exp layer B ctx cache rows idx =
      idx.map (firstRowOf exp layer cache rows B ctx) :=
  Attention.absorbedDecodeBatch_eq exp layer cache rows hB h.mapped_all hidx

/-- The per-segment route. -/
theorem MlaContextOf.absorbedSegment_eq (h : MlaContextOf B segs ctx) (hB : 0 < B)
    (hi : i < ctx.contextLens.length) :
    absorbedSegment exp layer B ctx cache rows i = segmentResult exp layer cache rows B ctx i := by
  obtain ⟨s, hs⟩ := h.exists_segment hi
  rw [h.segmentResult_eq exp layer cache rows hs]
  exact Attention.absorbedSegment_eq exp layer cache rows hB (h.segmentAt hs)

/-- The cache holds the new tokens of every segment. -/
def Written (B : ℕ) (segs : List Segment) (ctx : PagedAttentionContext) : Prop :=
  ∀ i s t, segs[i]? = some s → t < s.rows →
    cache (cellOf B (s.table 0) (s.first + t)) = rows.latentNew (ctx.cuSeqlens.getD i 0 + t)

/-- The materialized route. -/
theorem MlaContextOf.materializedSegment_eq (h : MlaContextOf B segs ctx) (hB : 0 < B)
    (hnew : Written cache rows B segs ctx) (hi : i < ctx.contextLens.length) :
    materializedSegment exp layer B ctx cache rows i =
      segmentResult exp layer cache rows B ctx i := by
  obtain ⟨s, hs⟩ := h.exists_segment hi
  rw [h.segmentResult_eq exp layer cache rows hs]
  exact Attention.materializedSegment_eq exp layer cache rows hB (h.segmentAt hs)
    fun t ht => hnew i s t hs ht

/-- The batched rows of `_materialized_prefill` at their places. -/
theorem MlaContextOf.scatter_decoded (h : MlaContextOf B segs ctx) (hB : 0 < B) {idx : List ℕ}
    (hidx : decodeBatchRows layer ctx = some idx) :
    (idx.zip (absorbedDecodeBatch exp layer B ctx cache rows idx)).foldl
        (fun outs (decoded : ℕ × MlaOut K Head Val) => outs.set decoded.1 (some [decoded.2]))
        (filled ctx.contextLens.length (segmentResult exp layer cache rows B ctx) fun _ => false) =
      filled ctx.contextLens.length (segmentResult exp layer cache rows B ctx)
        fun i => false || decide (i ∈ idx) := by
  obtain ⟨-, hdecode⟩ := decodeBatchRows_spec layer hidx
  have hzip : idx.zip (idx.map (firstRowOf exp layer cache rows B ctx)) =
      idx.map fun i => (i, firstRowOf exp layer cache rows B ctx i) := by
    simpa using List.zip_map' (f := id) (g := firstRowOf exp layer cache rows B ctx) (l := idx)
  rw [h.absorbedDecodeBatch_eq exp layer cache rows hB fun i hi => (hdecode i hi).1, hzip,
    List.foldl_map]
  exact foldl_set_filled (fun _ => false) fun i hi =>
    (h.segmentResult_one exp layer cache rows (hdecode i hi).1 (hdecode i hi).2).symm

/-- The loop of `_materialized_prefill` computes the other segments, each by its route. -/
theorem MlaContextOf.fill_segments (h : MlaContextOf B segs ctx) (hB : 0 < B)
    (hnew : Written cache rows B segs ctx) (routed : List Bool) (done : ℕ → Bool) :
    (List.range ctx.contextLens.length).foldl
        (fun outs i => if (outs.getD i none).isSome then outs
          else if !routed.getD i false then
            outs.set i (some (absorbedSegment exp layer B ctx cache rows i))
          else outs.set i (some (materializedSegment exp layer B ctx cache rows i)))
        (filled ctx.contextLens.length (segmentResult exp layer cache rows B ctx) done) =
      (List.range ctx.contextLens.length).map fun i =>
        some (segmentResult exp layer cache rows B ctx i) := by
  have hbody : (fun outs i => if (outs.getD i none).isSome = true then outs
      else if (!routed.getD i false) = true then
        outs.set i (some (absorbedSegment exp layer B ctx cache rows i))
      else outs.set i (some (materializedSegment exp layer B ctx cache rows i))) =
      fun (outs : List (Option (List (MlaOut K Head Val)))) i =>
        if (outs.getD i none).isSome = true then outs
        else outs.set i (some (if (!routed.getD i false) = true then
          absorbedSegment exp layer B ctx cache rows i
          else materializedSegment exp layer B ctx cache rows i)) := by
    funext outs i
    split
    · rfl
    · split <;> rfl
  rw [hbody, foldl_fill, filled_all]
  · intro i hi
    rw [decide_eq_true (List.mem_range.mpr hi), Bool.or_true]
  · intro i hi
    rw [List.mem_range] at hi
    refine ⟨hi, ?_⟩
    split
    · exact h.absorbedSegment_eq exp layer cache rows hB hi
    · exact h.materializedSegment_eq exp layer cache rows hB hnew hi

/-- **`_materialized_prefill` fills every segment once and in place.** -/
theorem MlaContextOf.materializedPrefill_eq (h : MlaContextOf B segs ctx) (hB : 0 < B)
    (hnew : Written cache rows B segs ctx) (routed : List Bool) :
    materializedPrefill exp layer B ctx cache rows routed =
      some ((List.range ctx.contextLens.length).flatMap
        (segmentResult exp layer cache rows B ctx)) := by
  have hempty : List.replicate ctx.contextLens.length none =
      filled ctx.contextLens.length (segmentResult exp layer cache rows B ctx) fun _ => false := by
    simp [filled]
  have hdone : (((List.range ctx.contextLens.length).map fun i =>
      some (segmentResult exp layer cache rows B ctx i)).all Option.isSome) = true := by simp
  have hflatten : ((List.range ctx.contextLens.length).map fun i =>
      some (segmentResult exp layer cache rows B ctx i)).reduceOption.flatten =
      (List.range ctx.contextLens.length).flatMap (segmentResult exp layer cache rows B ctx) := by
    rw [reduceOption_map_some, List.flatMap_def]
  unfold materializedPrefill
  simp only [hempty]
  cases hidx : decodeBatchRows layer ctx with
  | none =>
    simp only
    rw [h.fill_segments exp layer cache rows hB hnew, if_pos hdone, hflatten]
  | some idx =>
    simp only
    rw [h.scatter_decoded exp layer cache rows hB hidx,
      h.fill_segments exp layer cache rows hB hnew, if_pos hdone, hflatten]

/-- **The segments without a materialized one**, the batched rows at their places. -/
theorem MlaContextOf.absorbedRows_eq (h : MlaContextOf B segs ctx) (hB : 0 < B) :
    absorbedRows exp layer B ctx cache rows = (List.range ctx.contextLens.length).flatMap
      (segmentResult exp layer cache rows B ctx) := by
  refine List.flatMap_congr fun i hi => ?_
  rw [List.mem_range] at hi
  cases hidx : decodeBatchRows layer ctx with
  | none =>
    simp only [Option.getD_none, List.zipIdx_nil, List.foldl_nil, Dict.get?_empty]
    exact h.absorbedSegment_eq exp layer cache rows hB hi
  | some idx =>
    obtain ⟨hnodup, hdecode⟩ := decodeBatchRows_spec layer hidx
    simp only [Option.getD_some]
    by_cases hmem : i ∈ idx
    · obtain ⟨j, hj⟩ := List.mem_iff_getElem?.mp hmem
      have hat := Dict.get?_foldl_set (∅ : Dict ℕ ℕ) (l := idx.zipIdx) (k := i) (v := j)
        (by rw [List.zipIdx_map_fst]; exact hnodup) (List.mk_mem_zipIdx_iff_getElem?.mpr hj)
      rw [hat, h.absorbedDecodeBatch_eq exp layer cache rows hB fun i hi => (hdecode i hi).1]
      simp only
      rw [List.getElem?_map, hj, Option.map_some, Option.toList_some,
        h.segmentResult_one exp layer cache rows hi (hdecode i hmem).2]
    · have hat := Dict.get?_foldl_set_of_not_mem (∅ : Dict ℕ ℕ) (l := idx.zipIdx) (k := i)
        (by rw [List.zipIdx_map_fst]; exact hmem)
      rw [hat, Dict.get?_empty]
      exact h.absorbedSegment_eq exp layer cache rows hB hi

/-- **The rows of the segments are the packed rows**, each over its own context. -/
theorem MlaContextOf.flatMap_segmentResult (h : MlaContextOf B segs ctx) :
    (List.range ctx.contextLens.length).flatMap (segmentResult exp layer cache rows B ctx) =
      (segs.flatMap Segment.tokens).zipIdx.map fun row =>
        rowAttention exp layer (rows.query row.2)
          (contextLatents cache B (row.1.1.getD 0 []) (row.1.2 + 1)) := by
  rw [h.length_contextLens]
  refine flatMap_range_eq_zipIdx _ fun i s hs => ?_
  have hlens : segs.map (fun s => s.tokens.length) = segs.map Segment.rows :=
    List.map_congr_left fun s _ => length_tokens s
  rw [h.segmentResult_eq exp layer cache rows hs, hlens, ← h.cuSeqlens, segmentRowsOf]
  refine List.ext_getElem (by simp [length_tokens]) fun t ht ht' => ?_
  simp [Segment.tokens, Segment.table]

/-- **The call computes the rows of the segments**, whatever their routes. -/
theorem MlaContextOf.mlaForward_eq (h : MlaContextOf B segs ctx) (hB : 0 < B) (hsegs : segs ≠ [])
    (hslots : ctx.slotMapping.Nodup) :
    mlaForward exp layer B ctx cache rows = .ok ((List.range ctx.contextLens.length).flatMap
      (segmentResult exp layer (writeLatents ctx cache rows) rows B ctx)) := by
  have hnew : Written (writeLatents ctx cache rows) rows B segs ctx :=
    fun i s t hs ht => h.written hslots cache rows hs ht
  unfold mlaForward
  rw [if_neg (by rw [h.blockTables]; simpa using hsegs)]
  simp only
  split
  · rw [h.materializedPrefill_eq exp layer _ rows hB hnew]
  · rw [h.absorbedRows_eq exp layer _ rows hB]

end Call

/-! ### Steps -/

/-- A batch that is accepted has blocks for the contexts of its rows. -/
theorem Reached.covered {B : ℕ} {blockSizes : List ℕ} {blockIds : List (List ℕ)} {start n : ℕ}
    (h : Reached (B :: blockSizes) blockIds start n) (hB : 0 < B) (hn : 0 < n) :
    Covered [B] blockIds (start + n) := by
  intro g B' hB'
  cases g with
  | zero =>
    obtain rfl := Option.some.inj hB'
    obtain ⟨table, htable, hpos⟩ := h 0 B rfl
    have hlast := (Nat.div_lt_iff_lt_mul hB).mp
      (hpos (start + n - 1) (by omega) (by omega))
    refine ⟨table, htable, ?_⟩
    rw [Mapped, Nat.mul_comm]
    omega
  | succ g => cases hB'

section Step

variable {decodeRequests : List DecodeRequest} {prefillRequests : List PrefillRequest}
  {B : ℕ} {blockSizes : List ℕ} {merge : Bool} {ctx : PagedAttentionContext}

/-- The metadata of a step in its first cache group. -/
theorem mlaContextOf_of_prepareGrouped
    (h : prepareGrouped decodeRequests prefillRequests (B :: blockSizes) merge = .ok ctx)
    (hB : 0 < B) (hdecode : ∀ r ∈ decodeRequests, 0 < r.numTokens)
    (hprefill : ∀ r ∈ prefillRequests, 0 < r.numTokens) :
    MlaContextOf B (stepSegments decodeRequests prefillRequests merge) ctx := by
  obtain ⟨hgroups, hreached, hreached'⟩ := reached_of_prepareGrouped h
  obtain ⟨ctx', hctx', hof, -⟩ := prepareGrouped_reached hgroups hreached hreached' merge
  obtain rfl := Except.ok.inj (h.symm.trans hctx')
  obtain ⟨-, group, hgroup, hslots, htables⟩ := fields_of_prepareGrouped h
  rw [hof.kvGroups] at hgroup
  obtain rfl := Option.some.inj hgroup
  refine ⟨htables, hslots, hof.contextLens, hof.cuSeqlens, fun s hs => ?_⟩
  obtain ⟨table, htable, hmapped⟩ := covered_of_mem_stepSegments
    (fun r hr => (hreached r hr).covered hB (hdecode r hr))
    (fun r hr => (hreached' r hr).covered hB (hprefill r hr)) hs 0 B rfl
  rw [Segment.table, List.getD_eq_getElem?_getD, htable]
  exact hmapped

/-- **Every segment is computed once, in place.**  For a packed batch that is accepted, of requests
with a row each at least that write disjoint blocks, and whatever routes its segments take: the call
returns one result a packed row, in packed order, and each is attention of the row's query to the
latents of its own positions up to its own, those of this step included.  The chunks of the batched
route partition its rows in order; each has a row, and its padded volume is within the cap unless it
has one row; and the batched rows attend to their own contexts alone. -/
theorem mla_routes_compute_rows (exp : K → K) (layer : MlaLayer K Head Nope Lora Val)
    (cache : ℕ → Latent K Lora Rope) (rows : MlaRows K Head Nope Rope Lora)
    (h : prepareGrouped decodeRequests prefillRequests (B :: blockSizes) merge = .ok ctx)
    (hB : 0 < B) (hbatch : packedTokens decodeRequests prefillRequests ≠ [])
    (hdecode : ∀ r ∈ decodeRequests, 0 < r.numTokens)
    (hprefill : ∀ r ∈ prefillRequests, 0 < r.numTokens)
    (hwritten : ((requestSpans decodeRequests prefillRequests).flatMap
      (Segment.writtenBlocks B 0)).Nodup) :
    mlaForward exp layer B ctx cache rows = .ok
        ((packedTokens decodeRequests prefillRequests).zipIdx.map fun row =>
          rowAttention exp layer (rows.query row.2)
            (contextLatents (writeLatents ctx cache rows) B (row.1.1.getD 0 []) (row.1.2 + 1))) ∧
      (∀ contextLens reqIndices : List ℕ,
        (decodeChunks contextLens reqIndices 0).flatten = reqIndices ∧
        ∀ chunk ∈ decodeChunks contextLens reqIndices 0, chunk ≠ [] ∧
          (chunk.length * maxContext contextLens chunk ≤ decodeBatchMaxTokens ∨
            chunk.length = 1)) ∧
      ∀ reqIndices : List ℕ, (∀ i ∈ reqIndices, i < ctx.contextLens.length) →
        absorbedDecodeBatch exp layer B ctx (writeLatents ctx cache rows) rows reqIndices =
          reqIndices.map fun i => rowAttention exp layer (rows.query (ctx.cuSeqlens.getD i 0))
            (contextLatents (writeLatents ctx cache rows) B (ctx.blockTables.getD i [])
              (ctx.contextLens.getD i 0)) := by
  have hof := mlaContextOf_of_prepareGrouped h hB hdecode hprefill
  have htokens := tokens_stepSegments decodeRequests prefillRequests merge
  -- no two tokens of the step write one cell
  have hslots : ctx.slotMapping.Nodup := by
    rw [hof.slotMapping, slots_eq_map_tokens, htokens, packedTokens, ← slots_eq_map_tokens]
    exact nodup_slots hB hwritten
  have hsegs : stepSegments decodeRequests prefillRequests merge ≠ [] := by
    intro hnil
    rw [hnil] at htokens
    exact hbatch htokens.symm
  refine ⟨?_, fun contextLens reqIndices => ?_, fun reqIndices hreq =>
    hof.absorbedDecodeBatch_eq exp layer _ rows hB hreq⟩
  · rw [hof.mlaForward_eq exp layer cache rows hB hsegs hslots,
      hof.flatMap_segmentResult exp layer _ rows, htokens]
  · exact decodeChunks_partition contextLens reqIndices 0

/-- A layer of one head, with all its spaces of dimension one. -/
def unitLayer : MlaLayer ℚ Unit Unit Unit Unit :=
  ⟨.absorbed (fun _ _ _ => 2) (fun _ _ _ => 3), 1, true, some 4⟩

/-- A query and a latent for every row. -/
def unitRows : MlaRows ℚ Unit Unit Unit Unit :=
  ⟨fun k => ⟨fun _ _ => k, fun _ _ => 1⟩, fun k => (fun _ => k, fun _ => 1)⟩

/-- Sixteen decode rows, a fresh prefill of two rows, which is materialized, and a chunk of two
after a row, which is not. -/
theorem mla_routes_compute_rows_mixed : ∃ ctx,
    prepareGrouped ((List.range 16).map fun i => ⟨[[i]], 3, 1⟩) [⟨[[16]], 2, 0⟩, ⟨[[17]], 2, 1⟩] [4]
        false = .ok ctx ∧
      mlaForward (fun x => 1 + x * x) unitLayer 4 ctx (fun _ => 0) unitRows = .ok
        ((packedTokens ((List.range 16).map fun i => ⟨[[i]], 3, 1⟩)
          [⟨[[16]], 2, 0⟩, ⟨[[17]], 2, 1⟩]).zipIdx.map fun row =>
            rowAttention (fun x => 1 + x * x) unitLayer (unitRows.query row.2)
              (contextLatents (writeLatents ctx (fun _ => 0) unitRows) 4 (row.1.1.getD 0 [])
                (row.1.2 + 1))) := by
  have hcov : ∀ i stop : ℕ, stop ≤ 4 → Covered [4] [[i]] stop := by
    intro i stop hstop g B hB
    cases g with
    | zero =>
      obtain rfl := Option.some.inj hB
      exact ⟨[i], rfl, hstop⟩
    | succ g => cases hB
  obtain ⟨ctx, hctx, -⟩ := @prepareGrouped_ok ((List.range 16).map fun i => ⟨[[i]], 3, 1⟩)
    [⟨[[16]], 2, 0⟩, ⟨[[17]], 2, 1⟩] [4] (by simp)
    (by simpa using fun i _ => hcov i 4 (Nat.le_refl 4))
    (by simpa using ⟨hcov 16 2 (by simp), hcov 17 3 (by simp)⟩) false
  refine ⟨ctx, hctx, ?_⟩
  exact (mla_routes_compute_rows _ unitLayer (fun _ => 0) unitRows hctx (by simp) (by decide)
    (by simp) (by simp) (by decide)).1

end Step

end Attention
end VllmMetal
