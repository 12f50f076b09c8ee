import VllmMetal.State.GdnStaging

/-!
# State of the gated delta net layers after speculative acceptance

A verification forward advances a drafting request by its last token and all its drafts.
Once it is known how many of these rows the request commits, `applySpecDecodeAcceptance`
rewrites the pending state of the requests that commit fewer rows than their span: it scans
the kept rows again from the state in the pool, which the verification has left untouched.

## Main definitions

* `mergeStateRows`, `rescanLayerToAccepted`, `applySpecDecodeAcceptance`.
* `keptRows` — the rows of a segment that count.

## Main results

* `rescanLayerToAccepted_spec` — one layer.
* `acceptance_commits_kept_rows` — **after the forward and the acceptance, every state is the
  one before the forward advanced by exactly the kept rows**, and the regions hold what they held
  in every slot that the step does not use.
* `decode_changes_sibling_slot` — what a layer reads in the slots of another group does change.
-/

namespace VllmMetal
namespace State

variable {numLayers maxSeqs stateLen : ℕ} {X Y S : Type}

/-! ### The re-scan -/

/-- `_merge_state_rows`: the rows of some slots of a parked update replaced. -/
def mergeStateRows {R : Type} (u : RowUpdate (Fin maxSeqs) R) (updates : List R)
    (updateSlots : List (Fin maxSeqs)) : Except GDNError (RowUpdate (Fin maxSeqs) R) :=
  if updateSlots.all (fun slot => decide (slot ∈ u.ids)) then
    .ok { u with
      rows := setRows u.ids u.rows updateSlots updates
      length_eq := by rw [length_setRows, u.length_eq] }
  else .error .slotNotPending

/-- The spans of which not every row was committed; the number of rows committed is checked
before. -/
def partialSpans (stash : GDNSpecVerifyStash numLayers maxSeqs X Y) (committedRows : List ℕ) :
    List ℕ :=
  (List.range stash.requestIndices.length).filter fun j =>
    decide (committedRows.getD (stash.requestIndices.getD j 0) 0 < stash.spanLengths.getD j 0)

theorem nodup_partialSpans (stash : GDNSpecVerifyStash numLayers maxSeqs X Y)
    (committedRows : List ℕ) : (partialSpans stash committedRows).Nodup :=
  List.nodup_range.filter _

/-- The rows that each partial span keeps. -/
def keptLengths (stash : GDNSpecVerifyStash numLayers maxSeqs X Y) (committedRows : List ℕ) :
    List ℕ :=
  (partialSpans stash committedRows).map fun j =>
    committedRows.getD (stash.requestIndices.getD j 0) 0

/-- Where each partial span starts in the stashed rows. -/
def originalStarts (stash : GDNSpecVerifyStash numLayers maxSeqs X Y) (committedRows : List ℕ) :
    List ℕ :=
  (partialSpans stash committedRows).map fun j => stash.cuSeqlens.getD j 0

/-- `slice_span`: the kept prefix of each span, cut out of the original layout. -/
def sliceSpan {α : Type} (starts committed : List ℕ) (rows : List α) : List α :=
  (starts.zip committed).flatMap fun p => (rows.drop p.1).take p.2

/-- The new windows of the partial spans: the pool's row and the kept rows. -/
def convTails (stash : GDNSpecVerifyStash numLayers maxSeqs X Y)
    (pool : Fin maxSeqs → Fin stateLen → X) (slotIds : SlotIds maxSeqs)
    (starts committed : List ℕ) : RowUpdate (Fin maxSeqs) (Fin stateLen → X) where
  ids := slotIds.ids
  rows := slotIds.ids.mapIdx fun k slot => convTail (pool slot)
    ((stash.mixedQkv.drop (starts.getD k 0)).take (committed.getD k 0))
  nodup := slotIds.nodup
  length_eq := by simp

section Rescan

variable (lazy : GDNLazyKernels) (step : S → Y → S)

/-- The scan of the kept rows, by the prefill kernel or, when every span keeps one row, by
the decode kernel. -/
def rescanRecurrent (cache : PagedStateCache numLayers maxSeqs (GDNRow stateLen X S))
    (cacheIdx : Fin numLayers) (slotIds : SlotIds maxSeqs) (keyHeadDim numRequests : ℕ)
    (cu : List ℕ) (acts : List Y) :
    Option (PagedStateCache numLayers maxSeqs (GDNRow stateLen X S) × List Unit) :=
  if cu.getLastD 0 > numRequests then
    lazy.tryRecurrentPrefill cache cacheIdx slotIds acts.length keyHeadDim cu true
      (recurrentPrefillKernel step cu acts)
  else
    lazy.tryRecurrentDecode cache cacheIdx slotIds acts.length keyHeadDim
      (recurrentDecodeKernel step acts)

/-- Merge the update a re-scan has parked into the one parked before. -/
def mergePending (cache : PagedStateCache numLayers maxSeqs (GDNRow stateLen X S))
    (cacheIdx : Fin numLayers) (recurrent : Option (RowUpdate (Fin maxSeqs) S))
    (slotIds : SlotIds maxSeqs) :
    Except GDNError (PagedStateCache numLayers maxSeqs (GDNRow stateLen X S)) :=
  match recurrent, (cache.pools .recurrent cacheIdx).parked with
  | none, _ => .ok cache
  | some _, none => .error .slotNotPending
  | some u, some v =>
      match mergeStateRows u v.rows slotIds.ids with
      | .error e => .error e
      | .ok merged =>
          .ok ((cache.clearPending .recurrent cacheIdx).setPendingRecurrentState cacheIdx merged)

/-- `_rescan_layer_to_accepted`. -/
def rescanLayerToAccepted (cache : PagedStateCache numLayers maxSeqs (GDNRow stateLen X S))
    (stash : GDNSpecVerifyStash numLayers maxSeqs X Y) (committedRows : List ℕ) :
    Except GDNError (PagedStateCache numLayers maxSeqs (GDNRow stateLen X S)) :=
  let committed := keptLengths stash committedRows
  let starts := originalStarts stash committedRows
  let slotIds := stash.slotIds.select (partialSpans stash committedRows)
    (nodup_partialSpans stash committedRows)
  let recurrent := (cache.pools .recurrent stash.cacheIdx).parked
  let conv := (cache.pools .conv stash.cacheIdx).parked
  let cleared := (cache.clearPending .recurrent stash.cacheIdx).clearPending .conv stash.cacheIdx
  match rescanRecurrent lazy step cleared stash.cacheIdx slotIds stash.keyHeadDim
      committed.length (boundaries committed) (sliceSpan starts committed stash.acts) with
  | none => .error .rescanIneligible
  | some (rescanned, _) =>
      match mergePending rescanned stash.cacheIdx recurrent slotIds with
      | .error e => .error e
      | .ok merged =>
          let updatedConv := convTails stash (merged.pools .conv stash.cacheIdx).pool slotIds
            starts committed
          match conv with
          | none => .ok (merged.setPendingConvState stash.cacheIdx updatedConv)
          | some u =>
              match mergeStateRows u updatedConv.rows updatedConv.ids with
              | .error e => .error e
              | .ok convMerged => .ok (merged.setPendingConvState stash.cacheIdx convMerged)

/-- The loop of `apply_spec_decode_acceptance` over the layers. -/
def rescanLayers (committedRows : List ℕ) :
    List (GDNSpecVerifyStash numLayers maxSeqs X Y) →
      PagedStateCache numLayers maxSeqs (GDNRow stateLen X S) →
      Except GDNError (PagedStateCache numLayers maxSeqs (GDNRow stateLen X S))
  | [], cache => .ok cache
  | stash :: layers, cache =>
      match rescanLayerToAccepted lazy step cache stash committedRows with
      | .error e => .error e
      | .ok cache => rescanLayers committedRows layers cache

/-- The check that the committed rows of each verified request lie within its span. -/
def checkCommittedRows (committedRows : List ℕ) : List (ℕ × ℕ) → Except GDNError Unit
  | [] => .ok ()
  | (i, length) :: spans =>
      match committedRows[i]? with
      | none => .error (.committedRowsIndex i)
      | some k =>
          if 1 ≤ k ∧ k ≤ length then checkCommittedRows committedRows spans
          else .error .committedRowsRange

/-- `apply_spec_decode_acceptance`: the state, and whether a re-scan ran. -/
def applySpecDecodeAcceptance (state : GDNStateCache numLayers maxSeqs stateLen X Y S)
    (committedRows : List ℕ) :
    Except GDNError (GDNStateCache numLayers maxSeqs stateLen X Y S × Bool) :=
  match state.specVerifyStash with
  | none => .ok (state, false)
  | some [] => .ok (state, false)
  | some (first :: layers) =>
      let spans := first.requestIndices.zip first.spanLengths
      match checkCommittedRows committedRows spans with
      | .error e => .error e
      | .ok () =>
          if spans.all fun p => committedRows.getD p.1 0 == p.2 then
            .ok ({ state with specVerifyStash := none }, false)
          else
            match rescanLayers lazy step committedRows (first :: layers) state.cache with
            | .error e => .error e
            | .ok cache => .ok ({ cache := cache, specVerifyStash := none }, true)

end Rescan

/-! ### What the stash holds -/

section Stash

variable {batch : PackedBatch} (fwd : GDNLayerForward batch numLayers maxSeqs X Y)

theorem mem_verifyRequests {i : ℕ} :
    i ∈ verifyRequests batch.numDecodeRequests batch.cuSeqlens ↔
      i < batch.numDecodeRequests ∧ 1 < spanLength batch.cuSeqlens i := by
  simp [verifyRequests]

theorem lt_length_of_mem_verifyRequests {i : ℕ}
    (h : i ∈ verifyRequests batch.numDecodeRequests batch.cuSeqlens) : i < batch.lens.length :=
  Nat.lt_of_lt_of_le (mem_verifyRequests.mp h).1 batch.numDecodeRequests_le

/-- The segment of a request has as many rows as its span. -/
theorem length_segmentRows_eq_spanLength {α : Type} {rows : List α}
    (hrows : rows.length = batch.lens.sum) {i : ℕ} (hi : i < batch.lens.length) :
    (segmentRows batch.cuSeqlens rows i).length = spanLength batch.cuSeqlens i := by
  have hn : batch.lens[i]? = some batch.lens[i] := List.getElem?_eq_getElem hi
  rw [batch.spanLength_eq hn]
  exact length_segmentRows hn hrows

/-- **The stash holds the segments of the verified requests**, gathered or not. -/
theorem stashedRows_eq {α : Type} {rows : List α} (hrows : rows.length = batch.lens.sum) :
    batch.stashedRows rows = (verifyRequests batch.numDecodeRequests batch.cuSeqlens).flatMap
      (segmentRows batch.cuSeqlens rows) := by
  simp only [PackedBatch.stashedRows]
  set requests := verifyRequests batch.numDecodeRequests batch.cuSeqlens with hrequests
  rw [stashRows]
  split
  · rw [List.filterMap_flatMap]
    refine List.flatMap_congr fun i _ => ?_
    rw [List.filterMap_map]
    exact filterMap_range_getElem? rows _ _
  · next htotal =>
    -- every row is verified, so every request is
    have hall : (List.range batch.lens.length).map (spanLength batch.cuSeqlens) = batch.lens := by
      refine List.ext_getElem (by simp) fun i hi hi' => ?_
      rw [List.getElem_map, List.getElem_range]
      exact batch.spanLength_eq (List.getElem?_eq_getElem hi')
    have hsub : requests.Sublist (List.range batch.lens.length) :=
      List.filter_sublist.trans (List.range_sublist.mpr batch.numDecodeRequests_le)
    have heq : requests = List.range batch.lens.length := by
      refine eq_of_sublist_of_sum_eq (f := spanLength batch.cuSeqlens) hsub
        (fun i hi => batch.spanLength_pos (List.mem_range.mp hi)) ?_
      rw [hall, ← hrows]
      exact (not_not.mp htotal).ge
    rw [heq]
    exact (flatMap_segmentRows hrows).symm

/-- A segment of the stash is the segment of its request. -/
theorem segmentRows_stashedRows {α : Type} {rows : List α} (hrows : rows.length = batch.lens.sum)
    {i j : ℕ} (hj : (stashOf fwd).requestIndices[j]? = some i) :
    segmentRows (stashOf fwd).cuSeqlens (batch.stashedRows rows) j =
      segmentRows batch.cuSeqlens rows i := by
  have hlens : (stashOf fwd).spanLengths =
      (verifyRequests batch.numDecodeRequests batch.cuSeqlens).map fun i =>
        (segmentRows batch.cuSeqlens rows i).length :=
    List.map_congr_left fun i hi =>
      (length_segmentRows_eq_spanLength hrows (lt_length_of_mem_verifyRequests hi)).symm
  rw [stashedRows_eq hrows, show (stashOf fwd).cuSeqlens = boundaries (stashOf fwd).spanLengths from
    rfl, hlens]
  exact segmentRows_flatMap hj

end Stash

/-! ### The kept rows -/

/-- `committed_rows[i]` is at least one row and at most the span of request `i`. -/
def CommittedWithin (batch : PackedBatch) (committedRows : List ℕ) : Prop :=
  ∀ i < batch.numDecodeRequests, ∃ k, committedRows[i]? = some k ∧ 1 ≤ k ∧
    k ≤ spanLength batch.cuSeqlens i

/-- The rows of a segment that count: the committed ones of a decode request, every row of a
prefill. -/
def keptRows (batch : PackedBatch) (committedRows : List ℕ) (i : ℕ) : ℕ :=
  if i < batch.numDecodeRequests then committedRows.getD i 0 else spanLength batch.cuSeqlens i

/-- The request of a span commits fewer rows than the span has. -/
def IsPartial (batch : PackedBatch) (committedRows : List ℕ) (i : ℕ) : Prop :=
  i < batch.numDecodeRequests ∧ 1 < spanLength batch.cuSeqlens i ∧
    committedRows.getD i 0 < spanLength batch.cuSeqlens i

section Kept

variable {batch : PackedBatch} {fwd : GDNLayerForward batch numLayers maxSeqs X Y}
variable {committedRows : List ℕ}

/-- The length of a span is that of its request's segment. -/
theorem getElem?_spanLengths {j i : ℕ} (hj : (stashOf fwd).requestIndices[j]? = some i) :
    (stashOf fwd).spanLengths[j]? = some (spanLength batch.cuSeqlens i) := by
  have hmap : (stashOf fwd).spanLengths =
      (stashOf fwd).requestIndices.map (spanLength batch.cuSeqlens) := rfl
  rw [hmap, List.getElem?_map, hj, Option.map_some]

/-- Every partial span is that of a partial request, -/
theorem isPartial_of_mem_partialSpans {j : ℕ}
    (hj : j ∈ partialSpans (stashOf fwd) committedRows) :
    ∃ i, (stashOf fwd).requestIndices[j]? = some i ∧
      (stashOf fwd).requestIndices.getD j 0 = i ∧ IsPartial batch committedRows i := by
  obtain ⟨hlt, hpartial⟩ := List.mem_filter.mp hj
  have hlt := List.mem_range.mp hlt
  have hi : (stashOf fwd).requestIndices[j]? = some (stashOf fwd).requestIndices[j] :=
    List.getElem?_eq_getElem hlt
  have hgetD : (stashOf fwd).requestIndices.getD j 0 = (stashOf fwd).requestIndices[j] :=
    getD_of_getElem? _ hi
  have hspan : (stashOf fwd).spanLengths.getD j 0 =
      spanLength batch.cuSeqlens (stashOf fwd).requestIndices[j] := by
    rw [List.getD_eq_getElem?_getD, getElem?_spanLengths hi, Option.getD_some]
  rw [hspan, hgetD, decide_eq_true_eq] at hpartial
  have hmem := mem_verifyRequests.mp (List.getElem_mem hlt)
  exact ⟨_, hi, hgetD, hmem.1, hmem.2, hpartial⟩

variable (fwd) in
/-- and every partial request has a partial span. -/
theorem exists_mem_partialSpans {i : ℕ} (h : IsPartial batch committedRows i) :
    ∃ j ∈ partialSpans (stashOf fwd) committedRows,
      (stashOf fwd).requestIndices[j]? = some i := by
  have hmem : i ∈ (stashOf fwd).requestIndices := mem_verifyRequests.mpr ⟨h.1, h.2.1⟩
  obtain ⟨j, hj, rfl⟩ := List.getElem_of_mem hmem
  have hi : (stashOf fwd).requestIndices[j]? = some (stashOf fwd).requestIndices[j] :=
    List.getElem?_eq_getElem hj
  refine ⟨j, List.mem_filter.mpr ⟨List.mem_range.mpr hj, ?_⟩, hi⟩
  have hgetD : (stashOf fwd).requestIndices.getD j 0 = (stashOf fwd).requestIndices[j] :=
    getD_of_getElem? _ hi
  have hspan : (stashOf fwd).spanLengths.getD j 0 =
      spanLength batch.cuSeqlens (stashOf fwd).requestIndices[j] := by
    rw [List.getD_eq_getElem?_getD, getElem?_spanLengths hi, Option.getD_some]
  rw [hspan, hgetD, decide_eq_true_eq]
  exact h.2.2

/-- Requests that are not partial keep their whole segment. -/
theorem keptRows_of_not_isPartial (hc : CommittedWithin batch committedRows) {i : ℕ}
    (hi : i < batch.lens.length) (h : ¬ IsPartial batch committedRows i) :
    keptRows batch committedRows i = spanLength batch.cuSeqlens i := by
  rw [keptRows]
  split
  · next hdecode =>
    obtain ⟨k, hk, hpos, hle⟩ := hc i hdecode
    have hgetD : committedRows.getD i 0 = k :=
      getD_of_getElem? _ hk
    have hspan := batch.spanLength_pos hi
    simp only [IsPartial, hdecode, true_and, hgetD] at h
    rw [hgetD]
    omega
  · rfl

/-- The rows that a partial span keeps, as the re-scan slices them. -/
theorem kept_piece {α : Type} {rows : List α} (hrows : rows.length = batch.lens.sum) {j i : ℕ}
    (hj : (stashOf fwd).requestIndices[j]? = some i) (h : IsPartial batch committedRows i) :
    ((batch.stashedRows rows).drop ((stashOf fwd).cuSeqlens.getD j 0)).take
        (committedRows.getD i 0) =
      (segmentRows batch.cuSeqlens rows i).take (committedRows.getD i 0) := by
  rw [← segmentRows_stashedRows fwd hrows hj, show (stashOf fwd).cuSeqlens =
    boundaries (stashOf fwd).spanLengths from rfl,
    segmentRows_boundaries (getElem?_spanLengths hj), List.take_take,
    Nat.min_eq_left (Nat.le_of_lt h.2.2)]

/-- The slices of the partial spans, one after the other. -/
theorem sliceSpan_eq {α : Type} (stash : GDNSpecVerifyStash numLayers maxSeqs X Y)
    (committedRows : List ℕ) (rows : List α) :
    sliceSpan (originalStarts stash committedRows) (keptLengths stash committedRows) rows =
      (partialSpans stash committedRows).flatMap fun j =>
        (rows.drop (stash.cuSeqlens.getD j 0)).take
          (committedRows.getD (stash.requestIndices.getD j 0) 0) := by
  rw [sliceSpan, originalStarts, keptLengths, List.zip_map', List.flatMap_map]

/-- The slices have the kept lengths. -/
theorem keptLengths_eq {α : Type} {rows : List α} (hrows : rows.length = batch.lens.sum) :
    keptLengths (stashOf fwd) committedRows =
      (partialSpans (stashOf fwd) committedRows).map fun j =>
        (((batch.stashedRows rows).drop ((stashOf fwd).cuSeqlens.getD j 0)).take
          (committedRows.getD ((stashOf fwd).requestIndices.getD j 0) 0)).length := by
  refine List.map_congr_left fun j hj => ?_
  obtain ⟨i, hi, hgetD, hpartial⟩ := isPartial_of_mem_partialSpans hj
  rw [hgetD, kept_piece hrows hi hpartial, List.length_take,
    length_segmentRows_eq_spanLength hrows
      (Nat.lt_of_lt_of_le hpartial.1 batch.numDecodeRequests_le),
    Nat.min_eq_left (Nat.le_of_lt hpartial.2.2)]

/-- **A segment of the re-scan is the kept prefix of its request's segment.** -/
theorem segmentRows_sliceSpan {α : Type} {rows : List α} (hrows : rows.length = batch.lens.sum)
    {k j i : ℕ} (hk : (partialSpans (stashOf fwd) committedRows)[k]? = some j)
    (hj : (stashOf fwd).requestIndices[j]? = some i) :
    segmentRows (boundaries (keptLengths (stashOf fwd) committedRows))
        (sliceSpan (originalStarts (stashOf fwd) committedRows)
          (keptLengths (stashOf fwd) committedRows) (batch.stashedRows rows)) k =
      (segmentRows batch.cuSeqlens rows i).take (committedRows.getD i 0) := by
  obtain ⟨i', hi', hgetD, hpartial⟩ :=
    isPartial_of_mem_partialSpans (List.mem_of_getElem? hk)
  obtain rfl : i' = i := Option.some.inj (hi'.symm.trans hj)
  rw [sliceSpan_eq, keptLengths_eq hrows, segmentRows_flatMap hk, hgetD,
    kept_piece hrows hi' hpartial]

theorem length_sliceSpan {α : Type} {rows : List α} (hrows : rows.length = batch.lens.sum) :
    (sliceSpan (originalStarts (stashOf fwd) committedRows)
        (keptLengths (stashOf fwd) committedRows) (batch.stashedRows rows)).length =
      (keptLengths (stashOf fwd) committedRows).sum := by
  rw [sliceSpan_eq, keptLengths_eq hrows, List.length_flatMap]

/-- The kept prefixes as a batch of their own. -/
def rescanBatch (fwd : GDNLayerForward batch numLayers maxSeqs X Y)
    (hc : CommittedWithin batch committedRows) : PackedBatch where
  lens := keptLengths (stashOf fwd) committedRows
  numDecodeRequests := (keptLengths (stashOf fwd) committedRows).length
  pos := by
    intro n hn
    obtain ⟨j, hj, rfl⟩ := List.mem_map.mp hn
    obtain ⟨i, -, hgetD, hpartial⟩ := isPartial_of_mem_partialSpans hj
    obtain ⟨k, hk, hpos, -⟩ := hc i hpartial.1
    rw [hgetD, List.getD_eq_getElem?_getD, hk]
    exact hpos
  numDecodeRequests_le := Nat.le_refl _

/-- The slots of the partial spans. -/
def rescanSlots (fwd : GDNLayerForward batch numLayers maxSeqs X Y) (committedRows : List ℕ) :
    SlotIds maxSeqs :=
  (stashOf fwd).slotIds.select (partialSpans (stashOf fwd) committedRows)
    (nodup_partialSpans _ _)

theorem lt_slots_of_mem_verifyRequests {i : ℕ} (h : i ∈ (stashOf fwd).requestIndices) :
    i < fwd.slotIds.ids.length := by
  rw [fwd.slots_length]
  exact lt_length_of_mem_verifyRequests h

theorem length_stashSlots : (stashOf fwd).slotIds.ids.length =
    (stashOf fwd).requestIndices.length :=
  fwd.slotIds.length_select (nodup_verifyRequests _ _) fun _ hi =>
    lt_slots_of_mem_verifyRequests hi

theorem getElem?_stashSlots {j i : ℕ} (hj : (stashOf fwd).requestIndices[j]? = some i) :
    (stashOf fwd).slotIds.ids[j]? = fwd.slotIds.ids[i]? :=
  (fwd.slotIds.getElem?_select (nodup_verifyRequests _ _)
    (fun _ hi => lt_slots_of_mem_verifyRequests hi) j).trans
    (congrArg (fun o => o.bind fun i => fwd.slotIds.ids[i]?) hj)

theorem lt_of_mem_partialSpans {j : ℕ} (hj : j ∈ partialSpans (stashOf fwd) committedRows) :
    j < (stashOf fwd).slotIds.ids.length := by
  rw [length_stashSlots]
  exact List.mem_range.mp (List.mem_filter.mp hj).1

/-- They are the slots of the requests, -/
theorem getElem?_rescanSlots {k j i : ℕ}
    (hk : (partialSpans (stashOf fwd) committedRows)[k]? = some j)
    (hj : (stashOf fwd).requestIndices[j]? = some i) :
    (rescanSlots fwd committedRows).ids[k]? = fwd.slotIds.ids[i]? := by
  rw [rescanSlots, SlotIds.getElem?_select _ _ fun j hj => lt_of_mem_partialSpans hj, hk,
    Option.bind_some, getElem?_stashSlots hj]

variable (fwd committedRows) in
/-- one for each span, -/
theorem length_rescanSlots : (rescanSlots fwd committedRows).ids.length =
    (keptLengths (stashOf fwd) committedRows).length := by
  rw [rescanSlots, SlotIds.length_select _ _ fun j hj => lt_of_mem_partialSpans hj, keptLengths,
    List.length_map]

/-- all of partial requests. -/
theorem exists_of_getElem?_rescanSlots {k : ℕ} {s : Fin maxSeqs}
    (h : (rescanSlots fwd committedRows).ids[k]? = some s) :
    ∃ j i, (partialSpans (stashOf fwd) committedRows)[k]? = some j ∧
      (stashOf fwd).requestIndices[j]? = some i ∧ fwd.slotIds.ids[i]? = some s ∧
      IsPartial batch committedRows i := by
  have hlt : k < (partialSpans (stashOf fwd) committedRows).length := by
    have hk := (List.getElem?_eq_some_iff.mp h).1
    rwa [length_rescanSlots, keptLengths, List.length_map] at hk
  have hk := List.getElem?_eq_getElem hlt
  obtain ⟨i, hi, -, hpartial⟩ := isPartial_of_mem_partialSpans (List.getElem_mem hlt)
  exact ⟨_, i, hk, hi, (getElem?_rescanSlots hk hi).symm.trans h, hpartial⟩

theorem mem_slots_of_mem_rescanSlots {s : Fin maxSeqs}
    (h : s ∈ (rescanSlots fwd committedRows).ids) : s ∈ fwd.slotIds.ids := by
  obtain ⟨k, hk, rfl⟩ := List.getElem_of_mem h
  obtain ⟨j, i, -, -, hs, -⟩ := exists_of_getElem?_rescanSlots (List.getElem?_eq_getElem hk)
  exact List.mem_of_getElem? hs

/-- The slot of a request that is not partial is not scanned again, -/
theorem not_mem_rescanSlots {i : ℕ} {s : Fin maxSeqs} (hs : fwd.slotIds.ids[i]? = some s)
    (h : ¬ IsPartial batch committedRows i) : s ∉ (rescanSlots fwd committedRows).ids := by
  intro hmem
  obtain ⟨k, hk, rfl⟩ := List.getElem_of_mem hmem
  obtain ⟨j, i', -, -, hs', hpartial⟩ :=
    exists_of_getElem?_rescanSlots (List.getElem?_eq_getElem hk)
  obtain ⟨hi, heq⟩ := List.getElem?_eq_some_iff.mp hs
  obtain ⟨hi', heq'⟩ := List.getElem?_eq_some_iff.mp hs'
  obtain rfl := fwd.slotIds.nodup.getElem_inj_iff.mp (heq.trans heq'.symm)
  exact h hpartial

/-- and that of a partial request is. -/
theorem exists_getElem?_rescanSlots {i : ℕ} {s : Fin maxSeqs}
    (hs : fwd.slotIds.ids[i]? = some s) (h : IsPartial batch committedRows i) :
    ∃ k j : ℕ, (partialSpans (stashOf fwd) committedRows)[k]? = some j ∧
      (stashOf fwd).requestIndices[j]? = some i ∧
      (rescanSlots fwd committedRows).ids[k]? = some s := by
  obtain ⟨j, hj, hi⟩ := exists_mem_partialSpans fwd h
  obtain ⟨k, hk, rfl⟩ := List.getElem_of_mem hj
  have hk' := List.getElem?_eq_getElem hk
  exact ⟨k, _, hk', hi, (getElem?_rescanSlots hk' hi).trans hs⟩

/-- **The rows of the requests once the partial ones are scanned again**: a row of every
request that advances it by its kept rows. -/
theorem scatter_rescanSlots {R A : Type} (advance : R → List A → R)
    {before : Fin maxSeqs → R} {packed : List A} {updates : List R}
    (hpacked : packed.length = batch.lens.sum)
    (hc : CommittedWithin batch committedRows)
    (hlen : updates.length = (rescanSlots fwd committedRows).ids.length)
    (hupdates :
    ∀ (k j i : ℕ) (s : Fin maxSeqs), (partialSpans (stashOf fwd) committedRows)[k]? = some j →
      (stashOf fwd).requestIndices[j]? = some i →
      (rescanSlots fwd committedRows).ids[k]? = some s →
      updates[k]? = some (advance (before s)
        ((segmentRows batch.cuSeqlens packed i).take (committedRows.getD i 0))))
    {i : ℕ} {s : Fin maxSeqs} (hs : fwd.slotIds.ids[i]? = some s) :
    scatter (assign before fwd.slotIds.ids (fwd.slotIds.ids.mapIdx fun i s =>
        advance (before s) (segmentRows batch.cuSeqlens packed i)))
      (rescanSlots fwd committedRows).ids updates s =
      advance (before s) ((segmentRows batch.cuSeqlens packed i).take
        (keptRows batch committedRows i)) := by
  have hi : i < batch.lens.length := by
    rw [← fwd.slots_length]
    exact (List.getElem?_eq_some_iff.mp hs).1
  by_cases hpartial : IsPartial batch committedRows i
  · obtain ⟨k, j, hk, hj, hks⟩ := exists_getElem?_rescanSlots hs hpartial
    rw [scatter_eq_assign (rescanSlots fwd committedRows).nodup hlen,
      assign_of_getElem? (rescanSlots fwd committedRows).nodup hks (hupdates k j i s hk hj hks),
      keptRows, if_pos hpartial.1]
  · rw [scatter_of_not_mem (not_mem_rescanSlots hs hpartial),
      assign_of_getElem? (r := advance (before s) (segmentRows batch.cuSeqlens packed i))
        fwd.slotIds.nodup hs (by simp [hs]),
      keptRows_of_not_isPartial hc hi hpartial,
      ← length_segmentRows_eq_spanLength hpacked hi, List.take_length]

end Kept

/-! ### One layer -/

section RescanLayer

variable {lazy : GDNLazyKernels} {step : S → Y → S}
variable {cache : PagedStateCache numLayers maxSeqs (GDNRow stateLen X S)}
variable {cacheIdx : Fin numLayers} {slotIds : SlotIds maxSeqs}

/-- A decode of slots with nothing parked leaves them staged, and the pool as it was. -/
theorem staged_tryRecurrentDecode {totalTokens keyHeadDim : ℕ} {kernel : ℕ → S → Unit × S}
    (hparked : (cache.pools .recurrent cacheIdx).parked = none)
    {p : PagedStateCache numLayers maxSeqs (GDNRow stateLen X S) × List Unit}
    (hp : lazy.tryRecurrentDecode cache cacheIdx slotIds totalTokens keyHeadDim kernel =
      some p) :
    (p.1.pools .recurrent cacheIdx).pool = cache.logical .recurrent cacheIdx ∧
      ∃ u, (p.1.pools .recurrent cacheIdx).parked = some u ∧ u.ids = slotIds.ids ∧
        u.rows = (decodeUpdate cache .recurrent cacheIdx slotIds kernel).rows := by
  obtain ⟨u, hsome, -⟩ | heq := cache.stateForDecode_cases .recurrent cacheIdx slotIds
  · rw [hparked] at hsome
    cases hsome
  · rw [GDNLazyKernels.tryRecurrentDecode] at hp
    split at hp
    · simp only [PagedStateCache.recurrentStateForDecode, heq, Option.some.injEq] at hp
      subst hp
      have hclear : (cache.applyPending .recurrent cacheIdx).clearPending .recurrent cacheIdx =
          cache.applyPending .recurrent cacheIdx :=
        PagedStateCache.modify_eq_self _
          (WriteBack.clear_of_parked_eq_none _ (cache.parked_applyPending .recurrent cacheIdx))
      simp only [hclear]
      refine ⟨pool_setPending_applyPending cache .recurrent cacheIdx _, _, ?_, rfl, rfl⟩
      rw [PagedStateCache.setPendingRecurrentState, PagedStateCache.setPending,
        PagedStateCache.pools_modify_self, WriteBack.parked_park]
    · cases hp

variable (step) in
/-- **A re-scan parks the updates of its slots and writes nothing**, whichever kernel runs. -/
theorem rescanRecurrent_spec (rescan : PackedBatch) {keyHeadDim : ℕ} {acts : List Y}
    (hdecode : rescan.numDecodeRequests = rescan.numRequests)
    (hparked : (cache.pools .recurrent cacheIdx).parked = none)
    (hkernels : lazy.hasKernels = true) (hshape : recurrentShapeSupported keyHeadDim = true)
    (hacts : acts.length = rescan.lens.sum)
    (hslots : slotIds.ids.length = rescan.lens.length) :
    ∃ p, rescanRecurrent lazy step cache cacheIdx slotIds keyHeadDim rescan.numRequests
        rescan.cuSeqlens acts = some p ∧
      cache.ChangesOnly .recurrent cacheIdx p.1 ∧
      (p.1.pools .recurrent cacheIdx).pool = (cache.pools .recurrent cacheIdx).pool ∧
      ∃ u, (p.1.pools .recurrent cacheIdx).parked = some u ∧ u.ids = slotIds.ids ∧
        u.rows = launchUpdates (recurrentPrefillKernel step rescan.cuSeqlens acts)
          (slotIds.ids.map (cache.pools .recurrent cacheIdx).pool) := by
  have hpool : (cache.pools .recurrent cacheIdx).pool = cache.logical .recurrent cacheIdx :=
    (WriteBack.value_of_parked_eq_none _ hparked).symm
  have hlast : rescan.cuSeqlens.getLastD 0 = rescan.totalTokens := getLastD_boundaries _ _
  rw [rescanRecurrent, hlast, hpool]
  split
  · next htotal =>
    have heligible : lazy.hasKernels = true ∧
        prefillBatch acts.length slotIds.ids.length rescan.cuSeqlens = true ∧
        recurrentShapeSupported keyHeadDim = true := by
      refine ⟨hkernels, ?_, hshape⟩
      rw [hacts, hslots]
      exact rescan.prefillBatch_eq.trans (decide_eq_true htotal)
    obtain ⟨p, hp⟩ : ∃ p, lazy.tryRecurrentPrefill cache cacheIdx slotIds acts.length keyHeadDim
        rescan.cuSeqlens true (recurrentPrefillKernel step rescan.cuSeqlens acts) = some p :=
      ⟨_, if_pos heligible⟩
    refine ⟨p, hp, (GDNLazyKernels.launched_tryRecurrentPrefill hp).assigns.only, ?_⟩
    rw [GDNLazyKernels.tryRecurrentPrefill, if_pos heligible] at hp
    cases hp
    exact ⟨pool_setPending_applyPending cache .recurrent cacheIdx _,
      (staged_setPending_poolUpdate cache).parked⟩
  · next htotal =>
    -- every span keeps one row, so the kept rows are a plain decode
    have hone : ∀ n ∈ rescan.lens, n = 1 := fun n hn =>
      eq_one_of_sum_le rescan.pos (Nat.not_lt.mp htotal) hn
    have hplain : rescan.isPlainDecode = true := by
      have hverify : rescan.isSpecVerify = false := by
        rw [← Bool.not_eq_true, rescan.isSpecVerify_iff]
        rintro ⟨i, hi, hspan⟩
        rw [hdecode] at hi
        have hlt : i < rescan.lens.length := hi
        rw [rescan.spanLength_eq (List.getElem?_eq_getElem hlt),
          hone _ (List.getElem_mem hlt)] at hspan
        omega
      simp [PackedBatch.isPlainDecode, hdecode, hverify]
    have hsum : rescan.lens.sum = rescan.lens.length :=
      Nat.le_antisymm (Nat.not_lt.mp htotal) (length_le_sum rescan.pos)
    have heligible : lazy.hasKernels = true ∧ acts.length = slotIds.ids.length ∧
        recurrentShapeSupported keyHeadDim = true :=
      ⟨hkernels, by rw [hacts, hslots, hsum], hshape⟩
    have hrows : (decodeUpdate cache .recurrent cacheIdx slotIds
          (recurrentDecodeKernel step acts)).rows =
        launchUpdates (recurrentPrefillKernel step rescan.cuSeqlens acts)
          (slotIds.ids.map (cache.logical .recurrent cacheIdx)) := by
      change launchUpdates _ (cache.stateForDecode .recurrent cacheIdx slotIds).2.rows = _
      rw [cache.rows_stateForDecode]
      refine launchUpdates_congr fun i hi row => ?_
      have hi : i < rescan.lens.length := by simpa [hslots] using hi
      obtain ⟨act, hact, hsegment⟩ := segmentRows_of_isPlainDecode hplain hacts hi
      simp only [recurrentDecodeKernel, recurrentPrefillKernel, hact, hsegment,
        List.foldl_cons, List.foldl_nil]
    obtain ⟨p, hp⟩ : ∃ p, lazy.tryRecurrentDecode cache cacheIdx slotIds acts.length keyHeadDim
        (recurrentDecodeKernel step acts) = some p := ⟨_, if_pos heligible⟩
    refine ⟨p, hp, (GDNLazyKernels.launched_tryRecurrentDecode hp).assigns.only, ?_⟩
    rw [← hrows]
    exact staged_tryRecurrentDecode hparked hp

/-- The update with the rows of some of its slots replaced. -/
def mergedUpdate {R : Type} (u : RowUpdate (Fin maxSeqs) R) (updates : List R)
    (updateSlots : List (Fin maxSeqs)) : RowUpdate (Fin maxSeqs) R :=
  { u with
    rows := setRows u.ids u.rows updateSlots updates
    length_eq := by rw [length_setRows, u.length_eq] }

theorem mergeStateRows_ok {R : Type} {u : RowUpdate (Fin maxSeqs) R} (updates : List R)
    {updateSlots : List (Fin maxSeqs)} (h : ∀ s ∈ updateSlots, s ∈ u.ids) :
    mergeStateRows u updates updateSlots = .ok (mergedUpdate u updates updateSlots) :=
  if_pos (List.all_eq_true.mpr fun s hs => decide_eq_true (h s hs))

/-- **What the acceptance leaves of one component of a layer**: its pool as it was, and an update of
the same slots in place of the one it had parked. -/
structure Reparked (c : StateComponent) (cacheIdx : Fin numLayers)
    (cache cache' : PagedStateCache numLayers maxSeqs (GDNRow stateLen X S))
    (u : RowUpdate (Fin maxSeqs) (GDNRow stateLen X S c)) : Prop where
  only : cache.ChangesOnly c cacheIdx cache'
  pool : (cache'.pools c cacheIdx).pool = (cache.pools c cacheIdx).pool
  parked : (cache'.pools c cacheIdx).parked = some u

theorem Reparked.buffers {c : StateComponent}
    {cache' : PagedStateCache numLayers maxSeqs (GDNRow stateLen X S)}
    {u : RowUpdate (Fin maxSeqs) (GDNRow stateLen X S c)}
    (h : Reparked c cacheIdx cache cache' u) : cache'.buffers = cache.buffers := by
  rw [h.only, PagedStateCache.modify]
  simp only [h.pool]
  simp [PagedStateCache.pools]

/-- An update parked over a pool with nothing parked. -/
theorem reparked_setPending {c : StateComponent} (hparked : (cache.pools c cacheIdx).parked = none)
    (u : RowUpdate (Fin maxSeqs) (GDNRow stateLen X S c)) :
    Reparked c cacheIdx cache (cache.setPending c cacheIdx u) u where
  only := (cache.assigns_setPending c cacheIdx u).only
  pool := by
    rw [PagedStateCache.setPending, PagedStateCache.pools_modify_self, WriteBack.park,
      WriteBack.flush_of_parked_eq_none _ hparked]
  parked := by
    rw [PagedStateCache.setPending, PagedStateCache.pools_modify_self, WriteBack.parked_park]

/-- Merging the update that a re-scan has parked into the one that was parked before. -/
theorem mergePending_spec {rows : List S} {u v : RowUpdate (Fin maxSeqs) S}
    (hv : (cache.pools .recurrent cacheIdx).parked = some v) (hrows : v.rows = rows)
    (hmem : ∀ s ∈ slotIds.ids, s ∈ u.ids) :
    ∃ cache', mergePending cache cacheIdx (some u) slotIds = .ok cache' ∧
      Reparked .recurrent cacheIdx cache cache' (mergedUpdate u rows slotIds.ids) := by
  have hcleared : ((cache.clearPending .recurrent cacheIdx).pools .recurrent cacheIdx) =
      (cache.pools .recurrent cacheIdx).clear := cache.pools_modify_self _ _ _
  have hpark := reparked_setPending (congrArg WriteBack.parked hcleared)
    (mergedUpdate u rows slotIds.ids)
  refine ⟨_, ?_, (cache.changesOnly_modify .recurrent cacheIdx WriteBack.clear).trans hpark.only,
    hpark.pool.trans ?_, hpark.parked⟩
  · simp only [mergePending, hv, hrows, mergeStateRows_ok rows hmem]
    rfl
  · rw [hcleared]
    rfl

/-- **After the forward and the acceptance, the layer stands where the kept rows lead.** -/
structure LayerCommitted {batch : PackedBatch} (step : S → Y → S)
    (m : LayerRows numLayers maxSeqs (GDNRow stateLen X S))
    (cache : PagedStateCache numLayers maxSeqs (GDNRow stateLen X S))
    (fwd : GDNLayerForward batch numLayers maxSeqs X Y) (committedRows : List ℕ) : Prop where
  /-- The recurrent state has folded the kept rows, -/
  recurrent : ∀ (i : ℕ) s, fwd.slotIds.ids[i]? = some s →
    cache.logical .recurrent fwd.cacheIdx s =
      ((segmentRows batch.cuSeqlens fwd.acts i).take (keptRows batch committedRows i)).foldl
        step (m .recurrent fwd.cacheIdx s)
  /-- and the convolution state is the tail of the window and the kept rows. -/
  conv : ∀ (i : ℕ) s, fwd.slotIds.ids[i]? = some s →
    cache.logical .conv fwd.cacheIdx s = convTail (m .conv fwd.cacheIdx s)
      ((segmentRows batch.cuSeqlens fwd.mixedQkv i).take (keptRows batch committedRows i))

variable {batch : PackedBatch} {fwd : GDNLayerForward batch numLayers maxSeqs X Y}
variable {committedRows : List ℕ} {m : LayerRows numLayers maxSeqs (GDNRow stateLen X S)}

variable (step) in
/-- The re-scan of a layer, from the updates that the forward has parked. -/
theorem rescanLayerToAccepted_ok {ur : RowUpdate (Fin maxSeqs) S}
    {uc : RowUpdate (Fin maxSeqs) (Fin stateLen → X)}
    (hur : (cache.pools .recurrent fwd.cacheIdx).parked = some ur)
    (huc : (cache.pools .conv fwd.cacheIdx).parked = some uc)
    (hurIds : ur.ids = fwd.slotIds.ids) (hucIds : uc.ids = fwd.slotIds.ids)
    (hc : CommittedWithin batch committedRows) (hkernels : lazy.hasKernels = true)
    (hshape : recurrentShapeSupported fwd.keyHeadDim = true) :
    ∃ cache', rescanLayerToAccepted lazy step cache (stashOf fwd) committedRows = .ok cache' ∧
      cache'.toStateLayout = cache.toStateLayout ∧
      (∀ c layer, layer ≠ fwd.cacheIdx → cache'.pending c layer = cache.pending c layer) ∧
      cache'.buffers = cache.buffers ∧
      (cache'.pools .recurrent fwd.cacheIdx).parked = some (mergedUpdate ur
        (launchUpdates (recurrentPrefillKernel step
            (boundaries (keptLengths (stashOf fwd) committedRows))
            (sliceSpan (originalStarts (stashOf fwd) committedRows)
              (keptLengths (stashOf fwd) committedRows) (stashOf fwd).acts))
          ((rescanSlots fwd committedRows).ids.map (cache.pools .recurrent fwd.cacheIdx).pool))
        (rescanSlots fwd committedRows).ids) ∧
      (cache'.pools .conv fwd.cacheIdx).parked = some (mergedUpdate uc
        (convTails (stashOf fwd) (cache.pools .conv fwd.cacheIdx).pool
          (rescanSlots fwd committedRows) (originalStarts (stashOf fwd) committedRows)
          (keptLengths (stashOf fwd) committedRows)).rows
        (rescanSlots fwd committedRows).ids) := by
  set clearedRec := cache.clearPending .recurrent fwd.cacheIdx with hclearedRec
  set cleared := clearedRec.clearPending .conv fwd.cacheIdx with hcleared
  have hrecOnly : cache.ChangesOnly .recurrent fwd.cacheIdx clearedRec :=
    cache.changesOnly_modify .recurrent fwd.cacheIdx WriteBack.clear
  have hconvOnly : clearedRec.ChangesOnly .conv fwd.cacheIdx cleared :=
    clearedRec.changesOnly_modify .conv fwd.cacheIdx WriteBack.clear
  have hrecPools : cleared.pools .recurrent fwd.cacheIdx =
      (cache.pools .recurrent fwd.cacheIdx).clear :=
    (hconvOnly.pools_eq (by decide) fwd.cacheIdx).trans (cache.pools_modify_self _ _ _)
  have hconvPools : cleared.pools .conv fwd.cacheIdx =
      (cache.pools .conv fwd.cacheIdx).clear :=
    (PagedStateCache.pools_modify_self _ _ _ _).trans (congrArg WriteBack.clear
      (hrecOnly.pools_eq (by decide) fwd.cacheIdx))
  -- the re-scan starts from the rows of the pool
  obtain ⟨p, hp, hpOnly, hpPool, v, hv, -, hvRows⟩ :=
    rescanRecurrent_spec step (rescanBatch fwd hc) rfl (congrArg WriteBack.parked hrecPools)
      hkernels hshape (length_sliceSpan fwd.acts_length) (length_rescanSlots fwd committedRows)
  have hmem : ∀ s ∈ (rescanSlots fwd committedRows).ids, s ∈ ur.ids := fun s hs =>
    hurIds ▸ mem_slots_of_mem_rescanSlots hs
  have hmem' : ∀ s ∈ (rescanSlots fwd committedRows).ids, s ∈ uc.ids := fun s hs =>
    hucIds ▸ mem_slots_of_mem_rescanSlots hs
  obtain ⟨merged, hmerged, hrepark⟩ := mergePending_spec hv hvRows hmem
  have hmergedConv : merged.pools .conv fwd.cacheIdx = (cache.pools .conv fwd.cacheIdx).clear :=
    ((hrepark.only.pools_eq (by decide) fwd.cacheIdx).trans
      (hpOnly.pools_eq (by decide) fwd.cacheIdx)).trans hconvPools
  have hmergedPool : (merged.pools .conv fwd.cacheIdx).pool =
      (cache.pools .conv fwd.cacheIdx).pool := by
    rw [hmergedConv]
    rfl
  have hrepark' := reparked_setPending (congrArg WriteBack.parked hmergedConv)
    (mergedUpdate uc (convTails (stashOf fwd) (cache.pools .conv fwd.cacheIdx).pool
      (rescanSlots fwd committedRows) (originalStarts (stashOf fwd) committedRows)
      (keptLengths (stashOf fwd) committedRows)).rows (rescanSlots fwd committedRows).ids)
  have hrescan : rescanLayerToAccepted lazy step cache (stashOf fwd) committedRows = .ok
      (merged.setPending .conv fwd.cacheIdx (mergedUpdate uc
        (convTails (stashOf fwd) (cache.pools .conv fwd.cacheIdx).pool
          (rescanSlots fwd committedRows) (originalStarts (stashOf fwd) committedRows)
          (keptLengths (stashOf fwd) committedRows)).rows
        (rescanSlots fwd committedRows).ids)) := by
    unfold rescanLayerToAccepted
    dsimp only
    split
    · next hnone => exact absurd (hnone.symm.trans hp) (by simp)
    · next rescanned outs hsome =>
      obtain rfl : (rescanned, outs) = p := Option.some.inj (hsome.symm.trans hp)
      have hrec : mergePending rescanned (stashOf fwd).cacheIdx
          (cache.pools .recurrent (stashOf fwd).cacheIdx).parked
          (rescanSlots fwd committedRows) = .ok merged := by
        rw [← hmerged, ← hur]
        rfl
      split
      · next e herr => exact absurd (herr.symm.trans hrec) (by simp)
      · next merged' hok =>
        obtain rfl : merged' = merged := Except.ok.inj (hok.symm.trans hrec)
        have htails : convTails (stashOf fwd) (merged'.pools .conv (stashOf fwd).cacheIdx).pool
            (rescanSlots fwd committedRows) (originalStarts (stashOf fwd) committedRows)
            (keptLengths (stashOf fwd) committedRows) =
          convTails (stashOf fwd) (cache.pools .conv fwd.cacheIdx).pool
            (rescanSlots fwd committedRows) (originalStarts (stashOf fwd) committedRows)
            (keptLengths (stashOf fwd) committedRows) :=
          congrArg (fun pool => convTails (stashOf fwd) pool _ _ _) hmergedPool
        split
        · next hnone => exact absurd (hnone.symm.trans huc) (by simp)
        · next u hsome' =>
          obtain rfl : u = uc := Option.some.inj (hsome'.symm.trans huc)
          have hconvMerged := mergeStateRows_ok (convTails (stashOf fwd)
            (cache.pools .conv fwd.cacheIdx).pool (rescanSlots fwd committedRows)
            (originalStarts (stashOf fwd) committedRows)
            (keptLengths (stashOf fwd) committedRows)).rows hmem'
          rw [← htails] at hconvMerged ⊢
          split
          · next e herr => exact absurd (herr.symm.trans hconvMerged) (by simp)
          · next convMerged hok' =>
            rw [← Except.ok.inj (hok'.symm.trans hconvMerged)]
            rfl
  refine ⟨_, hrescan, ?_, fun c layer hne => ?_, ?_, ?_, hrepark'.parked⟩
  · rw [hrepark'.only.toStateLayout_eq, hrepark.only.toStateLayout_eq, hpOnly.toStateLayout_eq,
      hconvOnly.toStateLayout_eq, hrecOnly.toStateLayout_eq]
  · rw [hrepark'.only.pending_eq (Or.inr hne), hrepark.only.pending_eq (Or.inr hne),
      hpOnly.pending_eq (Or.inr hne), hconvOnly.pending_eq (Or.inr hne),
      hrecOnly.pending_eq (Or.inr hne)]
  · have hclear : ∀ (cache : PagedStateCache numLayers maxSeqs (GDNRow stateLen X S)) c,
        (cache.clearPending c fwd.cacheIdx).buffers = cache.buffers := by
      intro cache c
      simp [PagedStateCache.clearPending, PagedStateCache.modify, PagedStateCache.pools,
        WriteBack.clear]
    have hpBuffers : p.1.buffers = cleared.buffers :=
      Reparked.buffers (u := v) ⟨hpOnly, hpPool, hv⟩
    rw [hrepark'.buffers, hrepark.buffers, hpBuffers, hcleared, hclear, hclearedRec, hclear]
  · refine (congrArg WriteBack.parked (hrepark'.only.pools_eq (by decide) fwd.cacheIdx)).trans
      (hrepark.parked.trans ?_)
    rw [congrArg WriteBack.pool hrecPools]
    rfl

/-- **One layer of the acceptance.** -/
theorem rescanLayerToAccepted_spec (h : LayerForwarded step m cache fwd) (hone : cache.OneOwner)
    (hverify : batch.isSpecVerify = true) (hc : CommittedWithin batch committedRows)
    (hkernels : lazy.hasKernels = true)
    (hshape : recurrentShapeSupported fwd.keyHeadDim = true) :
    ∃ cache', rescanLayerToAccepted lazy step cache (stashOf fwd) committedRows = .ok cache' ∧
      PagedStateCache.Within [fwd.use] cache cache' ∧
      LayerCommitted step m cache' fwd committedRows := by
  obtain ⟨hrecPool, ur, hur, hurIds, hurRows⟩ := h.stagedRecurrent hverify
  obtain ⟨hconvPool, uc, huc, hucIds, hucRows⟩ := h.stagedConv hverify
  obtain ⟨cache', hrescan, hlayout, hpending, hbuffers, hrec, hconv⟩ :=
    rescanLayerToAccepted_ok step hur huc hurIds hucIds hc hkernels hshape
  have hwithin : PagedStateCache.Within [fwd.use] cache cache' := by
    refine PagedStateCache.within_of_reparked hlayout hone hpending hbuffers fun c => ?_
    cases c with
    | conv => exact ⟨_, _, huc, hconv, hucIds, hucIds⟩
    | recurrent => exact ⟨_, _, hur, hrec, hurIds, hurIds⟩
  have hpools : ∀ c, (cache'.pools c fwd.cacheIdx).pool = (cache.pools c fwd.cacheIdx).pool := by
    intro c
    simp only [PagedStateCache.pools, hbuffers, hwithin.regions_eq]
  have hmem : ∀ s ∈ (rescanSlots fwd committedRows).ids, s ∈ fwd.slotIds.ids := fun s hs =>
    mem_slots_of_mem_rescanSlots hs
  refine ⟨cache', hrescan, hwithin, fun i s hs => ?_, fun i s hs => ?_⟩
  · have hs' := hrecPool s (List.mem_of_getElem? hs)
    -- what the forward has parked are the rows of the whole segments
    rw [← List.map_congr_left hrecPool, launchUpdates_map] at hurRows
    rw [PagedStateCache.logical, WriteBack.value_of_parked_eq_some _ hrec, hpools, ← hs']
    refine (congrFun (assign_setRows ur.length_eq (hurIds ▸ hmem)) s).trans ?_
    rw [hurIds, hurRows]
    refine scatter_rescanSlots (fun row rows => rows.foldl step row) fwd.acts_length hc
      (by simp) (fun k j i s hk hj hks => ?_) hs
    rw [launchUpdates_map, List.getElem?_mapIdx, hks, Option.map_some]
    exact congrArg
      (fun rows => some (rows.foldl step ((cache.pools .recurrent fwd.cacheIdx).pool s)))
      (segmentRows_sliceSpan fwd.acts_length hk hj)
  · have hs' := hconvPool s (List.mem_of_getElem? hs)
    rw [← List.map_congr_left hconvPool, launchUpdates_map] at hucRows
    rw [PagedStateCache.logical, WriteBack.value_of_parked_eq_some _ hconv, hpools, ← hs']
    refine (congrFun (assign_setRows uc.length_eq (hucIds ▸ hmem)) s).trans ?_
    rw [hucIds, hucRows]
    refine scatter_rescanSlots convTail fwd.mixedQkv_length hc
      (by simp [convTails]) (fun k j i s hk hj hks => ?_) hs
    obtain ⟨i', hi', hgetD, hpartial⟩ :=
      isPartial_of_mem_partialSpans (List.mem_of_getElem? hk)
    obtain rfl : i' = i := Option.some.inj (hi'.symm.trans hj)
    have hstart : (originalStarts (stashOf fwd) committedRows).getD k 0 =
        (stashOf fwd).cuSeqlens.getD j 0 := by
      rw [List.getD_eq_getElem?_getD, originalStarts, List.getElem?_map, hk, Option.map_some,
        Option.getD_some]
    have hkept : (keptLengths (stashOf fwd) committedRows).getD k 0 =
        committedRows.getD i' 0 := by
      rw [List.getD_eq_getElem?_getD, keptLengths, List.getElem?_map, hk, Option.map_some,
        Option.getD_some, hgetD]
    rw [convTails, List.getElem?_mapIdx, hks, Option.map_some, hstart, hkept]
    exact congrArg (fun rows => some (convTail _ rows))
      (kept_piece fwd.mixedQkv_length hj hpartial)

/-- A layer whose requests all keep their whole segment stands where the forward left it. -/
theorem LayerForwarded.committed (h : LayerForwarded step m cache fwd)
    (hc : CommittedWithin batch committedRows)
    (hfull : ∀ i, ¬ IsPartial batch committedRows i) :
    LayerCommitted step m cache fwd committedRows := by
  have hkept : ∀ {A : Type} {packed : List A} {i : ℕ} {s : Fin maxSeqs},
      packed.length = batch.lens.sum → fwd.slotIds.ids[i]? = some s →
      (segmentRows batch.cuSeqlens packed i).take (keptRows batch committedRows i) =
        segmentRows batch.cuSeqlens packed i := by
    intro A packed i s hpacked hs
    have hi : i < batch.lens.length := by
      rw [← fwd.slots_length]
      exact (List.getElem?_eq_some_iff.mp hs).1
    rw [keptRows_of_not_isPartial hc hi (hfull i),
      ← length_segmentRows_eq_spanLength hpacked hi, List.take_length]
  refine ⟨fun i s hs => ?_, fun i s hs => ?_⟩
  · rw [hkept fwd.acts_length hs]
    exact h.recurrent i s hs
  · rw [hkept fwd.mixedQkv_length hs]
    exact h.conv i s hs

theorem LayerCommitted.congr
    {cache' : PagedStateCache numLayers maxSeqs (GDNRow stateLen X S)}
    (h : LayerCommitted step m cache fwd committedRows)
    (hlogical : ∀ c, ∀ s ∈ fwd.slotIds.ids,
      cache'.logical c fwd.cacheIdx s = cache.logical c fwd.cacheIdx s) :
    LayerCommitted step m cache' fwd committedRows := by
  refine ⟨fun i s hs => ?_, fun i s hs => ?_⟩
  · rw [hlogical _ s (List.mem_of_getElem? hs)]
    exact h.recurrent i s hs
  · rw [hlogical _ s (List.mem_of_getElem? hs)]
    exact h.conv i s hs

end RescanLayer

/-! ### All layers -/

section Acceptance

variable {batch : PackedBatch} {lazy : GDNLazyKernels} {step : S → Y → S}
variable {layers : List (GDNLayerForward batch numLayers maxSeqs X Y)}
variable {committedRows : List ℕ} {m : LayerRows numLayers maxSeqs (GDNRow stateLen X S)}

/-- **The loop of the acceptance over the layers.** -/
theorem rescanLayers_spec (hnodup : (layers.map GDNLayerForward.cacheIdx).Nodup)
    (hverify : batch.isSpecVerify = true) (hc : CommittedWithin batch committedRows)
    (hkernels : ∀ fwd ∈ layers, lazy.hasKernels = true ∧
      recurrentShapeSupported fwd.keyHeadDim = true)
    {cache : PagedStateCache numLayers maxSeqs (GDNRow stateLen X S)} (hone : cache.OneOwner)
    (hapart : cache.Apart (layers.map GDNLayerForward.use))
    (h : ∀ fwd ∈ layers, LayerForwarded step m cache fwd) :
    ∃ cache', rescanLayers lazy step committedRows (layers.map stashOf) cache = .ok cache' ∧
      (∀ fwd ∈ layers, LayerCommitted step m cache' fwd committedRows) ∧
      PagedStateCache.Within (layers.map GDNLayerForward.use) cache cache' := by
  induction layers generalizing cache with
  | nil => exact ⟨cache, rfl, by simp, .refl hone⟩
  | cons fwd layers ih =>
    rw [List.map_cons, List.nodup_cons] at hnodup
    obtain ⟨hnotin, hnodup⟩ := hnodup
    rw [List.map_cons] at hapart
    have hhead : fwd.use ∈ fwd.use :: layers.map GDNLayerForward.use := List.mem_cons_self
    have htail : ∀ fwd' ∈ layers, fwd'.use ∈ fwd.use :: layers.map GDNLayerForward.use :=
      fun fwd' hmem => List.mem_cons_of_mem _ (List.mem_map_of_mem hmem)
    obtain ⟨hk, hs⟩ := hkernels fwd (by simp)
    obtain ⟨cache₁, hrescan, hwithin, hcommitted⟩ :=
      rescanLayerToAccepted_spec (h fwd (by simp)) hone hverify hc hk hs
    have hapart₁ := hapart.of_within hwithin (by simp)
    have hne : ∀ fwd' ∈ layers, fwd'.cacheIdx ≠ fwd.cacheIdx := by
      intro fwd' hmem heq
      exact hnotin (heq ▸ List.mem_map_of_mem hmem)
    have hothers : ∀ use ∈ layers.map GDNLayerForward.use, use.layer ≠ fwd.cacheIdx :=
      List.forall_mem_map.mpr hne
    -- the layers that follow stand as the forward has left them
    have hrest : ∀ fwd' ∈ layers, LayerForwarded step m cache₁ fwd' := by
      intro fwd' hmem
      have hthis : ∀ use ∈ [fwd.use], use.layer ≠ fwd'.cacheIdx :=
        List.forall_mem_singleton.mpr (hne fwd' hmem).symm
      exact (h fwd' (List.mem_cons_of_mem _ hmem)).congr (fun _ _ _ => rfl)
        (fun c => hwithin.pending c _ hthis) fun c s hs =>
          hwithin.agrees hapart (by simp) (htail fwd' hmem) hthis hs
    obtain ⟨cache₂, hrescans, hrestCommitted, hwithins⟩ := ih hnodup
      (fun fwd' hmem => hkernels fwd' (List.mem_cons_of_mem _ hmem)) hwithin.oneOwner
      (hapart₁.subset (List.subset_cons_self _ _)) hrest
    refine ⟨cache₂, ?_, fun fwd' hmem => ?_, hwithin.trans hwithins⟩
    · rw [List.map_cons, rescanLayers, hrescan]
      exact hrescans
    · rcases List.mem_cons.mp hmem with rfl | hmem
      · exact hcommitted.congr fun c s hs =>
          hwithins.logical_eq hapart₁ (List.subset_cons_self _ _) hhead hothers hs
      · exact hrestCommitted fwd' hmem

/-- The spans of a stash are those of decode requests. -/
theorem mem_zip_spans {fwd : GDNLayerForward batch numLayers maxSeqs X Y} {p : ℕ × ℕ}
    (hp : p ∈ (stashOf fwd).requestIndices.zip (stashOf fwd).spanLengths) :
    p.1 < batch.numDecodeRequests ∧ p.2 = spanLength batch.cuSeqlens p.1 := by
  obtain ⟨k, hk, rfl⟩ := List.getElem_of_mem hp
  rw [List.getElem_zip]
  have hk' : k < (stashOf fwd).requestIndices.length := by
    rw [List.length_zip] at hk
    omega
  have hi := List.getElem?_eq_getElem hk'
  refine ⟨(mem_verifyRequests.mp (List.getElem_mem hk')).1, ?_⟩
  exact (List.getElem?_eq_some_iff.mp (getElem?_spanLengths hi)).2

/-- The check passes when the committed rows of every decode request lie within its span. -/
theorem checkCommittedRows_ok (hc : CommittedWithin batch committedRows) {spans : List (ℕ × ℕ)}
    (hspans : ∀ p ∈ spans, p.1 < batch.numDecodeRequests ∧
      p.2 = spanLength batch.cuSeqlens p.1) : checkCommittedRows committedRows spans = .ok () := by
  induction spans with
  | nil => rfl
  | cons p spans ih =>
    obtain ⟨i, length⟩ := p
    obtain ⟨hi, hlength⟩ := hspans (i, length) (by simp)
    obtain ⟨k, hk, hpos, hle⟩ := hc i hi
    simp only at hlength
    rw [checkCommittedRows, hk]
    simp only
    rw [if_pos ⟨hpos, hlength ▸ hle⟩]
    exact ih fun q hq => hspans q (List.mem_cons_of_mem _ hq)

/-- The acceptance of a forward commits the rows that count, layer by layer. -/
theorem applySpecDecodeAcceptance_spec
    (hnodup : (layers.map GDNLayerForward.cacheIdx).Nodup)
    {state forwarded : GDNStateCache numLayers maxSeqs stateLen X Y S}
    (hone : state.cache.OneOwner)
    (hapart : state.cache.Apart (layers.map GDNLayerForward.use))
    (hforward : forwardLayers lazy step layers { state with specVerifyStash := none } =
      .ok forwarded)
    (hc : CommittedWithin batch committedRows) :
    ∃ accepted rescanned,
      applySpecDecodeAcceptance lazy step forwarded committedRows = .ok (accepted, rescanned) ∧
      accepted.specVerifyStash = none ∧
      (∀ fwd ∈ layers,
        LayerCommitted step state.cache.logical accepted.cache fwd committedRows) ∧
      PagedStateCache.Within (layers.map GDNLayerForward.use) state.cache accepted.cache ∧
      ((∀ i < batch.numDecodeRequests,
          committedRows.getD i 0 = spanLength batch.cuSeqlens i) →
        accepted.cache = forwarded.cache ∧ rescanned = false) := by
  -- the forward starts without a stash, on the same cache
  have hone' : ({ state with specVerifyStash := none } :
      GDNStateCache numLayers maxSeqs stateLen X Y S).cache.OneOwner := hone
  obtain ⟨hlayers, hwithin, hstash, hkernels⟩ := forwardLayers_spec hnodup hone' hapart hforward
  have hapart' := hapart.of_within hwithin (List.Subset.refl _)
  by_cases hverify : batch.isSpecVerify = true ∧ layers ≠ []
  · obtain ⟨hverify, hne⟩ := hverify
    obtain ⟨fwd, rest, rfl⟩ := List.exists_cons_of_ne_nil hne
    rw [if_pos ⟨hverify, hne⟩, Option.getD_none, List.nil_append, List.map_cons] at hstash
    simp only [applySpecDecodeAcceptance, hstash,
      checkCommittedRows_ok hc fun p hp => mem_zip_spans hp]
    split
    · next hall =>
      -- every span is committed in full
      have hfull : ∀ i, ¬ IsPartial batch committedRows i := by
        rintro i hpartial
        obtain ⟨j, hj, hi⟩ := exists_mem_partialSpans fwd hpartial
        have hzip : (i, spanLength batch.cuSeqlens i) ∈
            (stashOf fwd).requestIndices.zip (stashOf fwd).spanLengths := by
          refine List.mem_of_getElem? (i := j) ?_
          rw [List.getElem?_zip_eq_some]
          exact ⟨hi, getElem?_spanLengths hi⟩
        have heq := List.all_eq_true.mp hall _ hzip
        exact Nat.ne_of_lt hpartial.2.2 (by simpa using heq)
      exact ⟨_, _, rfl, rfl, fun fwd' hmem => (hlayers fwd' hmem).committed hc hfull, hwithin,
        fun _ => ⟨rfl, rfl⟩⟩
    · next hall =>
      obtain ⟨cache, hrescan, hcommitted, hrescanned⟩ :=
        rescanLayers_spec hnodup hverify hc (hkernels hverify) hwithin.oneOwner hapart' hlayers
      rw [List.map_cons] at hrescan
      rw [hrescan]
      refine ⟨_, _, rfl, rfl, hcommitted, (hwithin.trans hrescanned).mono (by simp),
        fun hfull => ?_⟩
      refine absurd ?_ hall
      rw [List.all_eq_true]
      intro p hp
      obtain ⟨hi, hlength⟩ := mem_zip_spans hp
      rw [hfull p.1 hi, hlength]
      simp
  · rw [if_neg hverify] at hstash
    have hfull : ∀ fwd ∈ layers, ∀ i, ¬ IsPartial batch committedRows i := by
      intro fwd hmem i hpartial
      exact hverify ⟨batch.isSpecVerify_iff.mpr ⟨i, hpartial.1, hpartial.2.1⟩,
        List.ne_nil_of_mem hmem⟩
    refine ⟨forwarded, false, ?_, hstash, fun fwd hmem =>
      (hlayers fwd hmem).committed hc (hfull fwd hmem), hwithin, fun _ => ⟨rfl, rfl⟩⟩
    rw [applySpecDecodeAcceptance, hstash]

/-- **State after speculative acceptance.**  After the forward of a batch and the acceptance
of its committed rows, in every layer the state of every request is the one before the
forward advanced by exactly the rows that count: the committed ones of a decode segment, all
of a prefill segment.  The regions hold in every other slot what they held, so that no layer finds
a change in a slot of its own that the step does not use; and when every decode request commits its
whole span the cache is left as the forward left it. -/
theorem acceptance_commits_kept_rows
    (hnodup : (layers.map GDNLayerForward.cacheIdx).Nodup)
    {state forwarded : GDNStateCache numLayers maxSeqs stateLen X Y S}
    (hone : state.cache.OneOwner)
    (hapart : state.cache.Apart (layers.map GDNLayerForward.use))
    (hforward : forwardLayers lazy step layers { state with specVerifyStash := none } =
      .ok forwarded)
    (hc : CommittedWithin batch committedRows) :
    ∃ accepted rescanned,
      applySpecDecodeAcceptance lazy step forwarded committedRows = .ok (accepted, rescanned) ∧
      accepted.specVerifyStash = none ∧
      (∀ fwd ∈ layers,
        LayerCommitted step state.cache.logical accepted.cache fwd committedRows) ∧
      (∀ c region s, (∀ fwd ∈ layers, state.cache.regions fwd.cacheIdx = region →
          s ∉ fwd.slotIds.ids) →
        accepted.cache.stored c region s = state.cache.stored c region s) ∧
      (∀ c layer s, state.cache.Free c layer s →
        (∀ fwd ∈ layers, state.cache.regions fwd.cacheIdx = state.cache.regions layer →
          s ∉ fwd.slotIds.ids) →
        accepted.cache.logical c layer s = state.cache.logical c layer s) ∧
      accepted.cache.OneOwner ∧
      ((∀ i < batch.numDecodeRequests,
          committedRows.getD i 0 = spanLength batch.cuSeqlens i) →
        accepted.cache = forwarded.cache ∧ rescanned = false) := by
  obtain ⟨accepted, rescanned, haccept, hnone, hcommitted, hwithin, hfull⟩ :=
    applySpecDecodeAcceptance_spec hnodup hone hapart hforward hc
  -- the slots of the step are those of its layers
  have huses : ∀ {region s}, (∀ fwd ∈ layers, state.cache.regions fwd.cacheIdx = region →
      s ∉ fwd.slotIds.ids) → ∀ use ∈ layers.map GDNLayerForward.use,
        state.cache.regions use.layer = region → s ∉ use.ids := by
    intro region s hs use huse hregion
    obtain ⟨fwd, hmem, rfl⟩ := List.mem_map.mp huse
    exact hs fwd hmem hregion
  refine ⟨accepted, rescanned, haccept, hnone, hcommitted, fun c region s hs =>
    hwithin.stored c region s (huses hs), fun c layer s hfree hs => ?_, hwithin.oneOwner, hfull⟩
  have hfree' := hwithin.free (fun use huse _ => huses hs use huse) hfree
  rw [← PagedStateCache.stored_eq_logical _ hfree', ← PagedStateCache.stored_eq_logical _ hfree,
    hwithin.regions_eq]
  exact hwithin.stored c _ s (huses hs)

/-- A verification of a request with three rows, next to a prefill of two. -/
private def verifyBatch : PackedBatch where
  lens := [3, 2]
  numDecodeRequests := 1
  pos := by decide
  numDecodeRequests_le := by decide

private theorem verifySlots_nodup :
    ([1, 0] : List (Fin 4)).Nodup ∧ ([2, 3] : List (Fin 4)).Nodup := by decide

private def verifyLayer : GDNLayerForward verifyBatch 2 4 ℕ ℕ where
  cacheIdx := ⟨0, Nat.two_pos⟩
  policy := ⟨true, false⟩
  keyHeadDim := 128
  slotIds := ⟨[1, 0], verifySlots_nodup.1⟩
  mixedQkv := [11, 12, 13, 21, 22]
  acts := [1, 2, 3, 4, 5]
  slots_length := rfl
  mixedQkv_length := rfl
  acts_length := rfl

/-- A layer of another group on the same region, with slots of its own. -/
private def verifySibling : GDNLayerForward verifyBatch 2 4 ℕ ℕ :=
  { verifyLayer with
    cacheIdx := ⟨1, Nat.one_lt_two⟩
    slotIds := ⟨[2, 3], verifySlots_nodup.2⟩
    acts := [6, 7, 8, 9, 0]
    slots_length := rfl
    acts_length := rfl }

private def digits : ℕ → ℕ → ℕ := fun s y => 10 * s + y

private def sharedState : GDNStateCache 2 4 2 ℕ ℕ ℕ where
  cache := {
    toStateLayout := .oneRegion 2
    buffers := fun c _ => match c with
      | .conv => fun _ _ => 0
      | .recurrent => fun _ => 0
    pending := fun _ _ => none }
  specVerifyStash := none

private theorem sharedState_idle : sharedState.cache.Idle := fun _ _ => rfl

/-- Two layers that use different slots are apart when nothing is pending. -/
private theorem apart_pair {use use' : LayerSlots numLayers maxSeqs}
    {cache : PagedStateCache numLayers maxSeqs (GDNRow stateLen X S)} (hidle : cache.Idle)
    (h : ∀ s ∈ use.ids, s ∉ use'.ids) : cache.Apart [use, use'] where
  separate := by
    intro u hu u' hu' hne _ s hs
    simp only [List.mem_cons, List.not_mem_nil, or_false] at hu hu'
    rcases hu with rfl | rfl <;> rcases hu' with rfl | rfl
    · exact absurd rfl hne
    · exact h s hs
    · exact fun hs' => h s hs' hs
    · exact absurd rfl hne
  free u _ c s _ := hidle.free c u.layer s

private def verified : GDNStateCache 2 4 2 ℕ ℕ ℕ :=
  match forwardLayers ⟨true, true⟩ digits [verifyLayer, verifySibling] sharedState with
  | .ok state => state
  | .error _ => sharedState

private theorem verified_eq : forwardLayers ⟨true, true⟩ digits [verifyLayer, verifySibling]
    { sharedState with specVerifyStash := none } = .ok verified := rfl

private theorem verifyBatch_committed : CommittedWithin verifyBatch [2] := by
  intro i hi
  obtain rfl : i = 0 := Nat.lt_one_iff.mp hi
  exact ⟨2, rfl, by decide, by decide⟩

/-- The request commits two of its three rows, in both layers of the region. -/
theorem acceptance_commits_two_rows :
    ∃ accepted rescanned,
      applySpecDecodeAcceptance ⟨true, true⟩ digits verified [2] = .ok (accepted, rescanned) ∧
      accepted.cache.logical .recurrent 0 1 = 12 ∧
      accepted.cache.logical .recurrent 0 0 = 45 ∧
      accepted.cache.logical .recurrent 1 2 = 67 ∧
      accepted.cache.logical .recurrent 1 3 = 90 := by
  have hapart : sharedState.cache.Apart ([verifyLayer, verifySibling].map GDNLayerForward.use) :=
    apart_pair sharedState_idle (by decide)
  obtain ⟨accepted, rescanned, haccept, -, hlayers, -⟩ :=
    acceptance_commits_kept_rows (by decide) sharedState_idle.oneOwner hapart verified_eq
      verifyBatch_committed
  have hlayer := hlayers verifyLayer (by simp)
  have hsibling := hlayers verifySibling (by simp)
  exact ⟨accepted, rescanned, haccept, hlayer.recurrent 0 1 rfl, hlayer.recurrent 1 0 rfl,
    hsibling.recurrent 0 2 rfl, hsibling.recurrent 1 3 rfl⟩

/-- A decode of one request, with a slot in either layer. -/
private def decodeBatch : PackedBatch where
  lens := [1]
  numDecodeRequests := 1
  pos := by decide
  numDecodeRequests_le := by decide

private def decodeLayer (cacheIdx : Fin 2) (slot : Fin 4) :
    GDNLayerForward decodeBatch 2 4 ℕ ℕ where
  cacheIdx := cacheIdx
  policy := ⟨true, false⟩
  keyHeadDim := 128
  slotIds := ⟨[slot], List.nodup_singleton slot⟩
  mixedQkv := [11]
  acts := [1]
  slots_length := rfl
  mixedQkv_length := rfl
  acts_length := rfl

private def decodeLayers : List (GDNLayerForward decodeBatch 2 4 ℕ ℕ) :=
  [decodeLayer ⟨0, Nat.two_pos⟩ 0, decodeLayer ⟨1, Nat.one_lt_two⟩ 1]

private def decoded : GDNStateCache 2 4 2 ℕ ℕ ℕ :=
  match forwardLayers ⟨true, true⟩ digits decodeLayers sharedState with
  | .ok state => state
  | .error _ => sharedState

/-- What a layer reads in a slot that is not its own does change: the second layer writes the
window of the request to the region, and the first layer reads it there. -/
theorem decode_changes_sibling_slot :
    sharedState.cache.OneOwner ∧
      sharedState.cache.Apart (decodeLayers.map GDNLayerForward.use) ∧
      forwardLayers ⟨true, true⟩ digits decodeLayers { sharedState with specVerifyStash := none } =
        .ok decoded ∧
      CommittedWithin decodeBatch [1] ∧
      ∃ accepted rescanned,
        applySpecDecodeAcceptance ⟨true, true⟩ digits decoded [1] = .ok (accepted, rescanned) ∧
        (1 : Fin 4) ∉ (decodeLayer 0 0).slotIds.ids ∧
        accepted.cache.logical .conv 0 1 ≠ sharedState.cache.logical .conv 0 1 := by
  refine ⟨sharedState_idle.oneOwner, apart_pair sharedState_idle (by decide), rfl, ?_, decoded,
    false, rfl, by decide, fun h => ?_⟩
  · intro i hi
    obtain rfl : i = 0 := Nat.lt_one_iff.mp hi
    exact ⟨1, rfl, by decide, by decide⟩
  · have hlast : (11 : ℕ) = 0 := congrFun h 1
    cases hlast

end Acceptance
end State
end VllmMetal
