import VllmMetal.Lib.SparseRows
import VllmMetal.Logits.Layout

/-!
# Grammar bitmasks

The scheduler sends one bitmask row for each scheduled position of each structured request,
in an order of its own; the applier pairs them with the logits rows of the packed step.  The
spans of the bitmask count the drafts as scheduled, while a request the scheduler only padded
carries no drafts and has a single logits row.

## Main definitions

* `SchedulerOutput.activeSpecDecodeTokens` — the scheduled drafts without the padding.
* `buildPagedRowTargets` — the logits rows of each request of the step.
* `buildConstrainedRows` — logits rows paired with bitmask rows, along one running cursor.
* `applyPaged` — the masked logits.

## Main results

* `grammar_rows_reach_their_logits_rows` — the `k`-th row of a request is masked with the `k`-th
  bitmask row of its span, every other row is left alone.
-/

namespace VllmMetal
namespace Logits

open SpecDecode

/-- The fields of `SchedulerOutput` that tell drafts from padding. -/
structure SchedulerOutput where
  scheduledSpecDecodeTokens : Dict ReqId (List Token)
  numInvalidSpecTokens : Option (Dict ReqId ℕ)
  numScheduledTokens : Dict ReqId ℕ

/-- `GrammarOutput`. -/
structure GrammarOutput (MaskRow : Type*) where
  structuredOutputRequestIds : List ReqId
  grammarBitmask : List MaskRow

/-- The errors of the applier. -/
inductive GrammarError where
  /-- "xgrammar is required for structured output." -/
  | xgrammarMissing
  /-- "Grammar/structured-output constraints with speculative decoding require paged decode
  row-span metadata on Metal." -/
  | rowSpanMetadata
  /-- "num_decode=... must match decode_reqs=...". -/
  | numDecode (numDecode decodeReqs : ℕ)
  /-- "cu_seqlens length ..., expected num_decode=... + prefill_count=... + 1". -/
  | cuSeqlens (length numDecode prefillCount : ℕ)
  /-- "decode_segments must match decode_reqs one-to-one when provided". -/
  | segmentCount
  /-- "decode_segments must be ordered with decode_reqs: ... != ...". -/
  | segmentOrder (segmentReqId reqId : ReqId)
  /-- "decode segment start_row must match cu_seqlens: ... != ... for ...". -/
  | startRow (startRow cuSeqlen : ℕ) (reqId : ReqId)
  /-- "Grammar bitmask span is smaller than the logits rows for request ...". -/
  | spanTooSmall (reqId : ReqId) (grammarSpan rows : ℕ)
  /-- "Grammar bitmask row count must match the scheduled spans: consumed ..., got ...". -/
  | rowCount (consumed got : ℕ)
  /-- An index into the logits or the bitmask. -/
  | rowIndex (logitRow bitmaskRow : ℕ)
  deriving DecidableEq

/-! ### Scheduled drafts -/

namespace SchedulerOutput

/-- The signature of a request that was padded to the uniform width: placeholders only, no
invalid-token count, and token accounting that matches the width. -/
def isPadding (schedulerOutput : SchedulerOutput) (reqId : ReqId) (tokens : List Token) : Bool :=
  !tokens.isEmpty && tokens.all (fun tokenId => decide (tokenId = -1)) &&
    decide (((schedulerOutput.numInvalidSpecTokens.getD ∅).get? reqId).getD 0 = 0) &&
    decide (schedulerOutput.numScheduledTokens.get? reqId = some (1 + tokens.length))

/-- `active_spec_decode_tokens`. -/
def activeSpecDecodeTokens (schedulerOutput : SchedulerOutput) : Dict ReqId (List Token) :=
  schedulerOutput.scheduledSpecDecodeTokens.keep fun reqId =>
    !schedulerOutput.isPadding reqId (schedulerOutput.scheduledSpecDecodeTokens.getD reqId [])

/-- `grammar_row_counts`: the span of a request, its drafts as scheduled and the bonus row. -/
def grammarRowCount (schedulerOutput : SchedulerOutput) (reqId : ReqId) : ℕ :=
  1 + (schedulerOutput.scheduledSpecDecodeTokens.getD reqId []).length

/-- A request has as many drafts as were scheduled for it, or none. -/
theorem length_activeSpecDecodeTokens_le (schedulerOutput : SchedulerOutput) (reqId : ReqId) :
    (schedulerOutput.activeSpecDecodeTokens.getD reqId []).length + 1 ≤
      schedulerOutput.grammarRowCount reqId := by
  simp only [activeSpecDecodeTokens, grammarRowCount, Dict.getD, Dict.get?_keep]
  split
  · omega
  · simp

end SchedulerOutput

/-! ### Logits rows of the requests -/

/-- The loop over the decode segments. -/
def segmentTargets (cuSeqlens : List ℕ) : ℕ → List ((ReqId × RequestState) × PagedDecodeSegment) →
    Dict ReqId (List ℕ) → Except GrammarError (Dict ReqId (List ℕ))
  | _, [], targets => .ok targets
  | i, (req, segment) :: items, targets =>
      if segment.reqId ≠ req.1 then .error (.segmentOrder segment.reqId req.1)
      else if segment.startRow ≠ cuSeqlens.getD i 0 then
        .error (.startRow segment.startRow (cuSeqlens.getD i 0) req.1)
      else segmentTargets cuSeqlens (i + 1) items
        (targets.set req.1 (List.range' segment.startRow segment.numQueryTokens))

/-- `_build_paged_row_targets`: request id to constrained logits rows.  Entry
`num_decode + j + 1` of the boundaries is the exclusive end of prefill `j`. -/
def buildPagedRowTargets (decodeReqs : List (ReqId × RequestState))
    (prefillReqs : List PrefillRequest) (cuSeqlens : List ℕ) (numDecode : ℕ)
    (decodeSegments : Option (List PagedDecodeSegment)) :
    Except GrammarError (Dict ReqId (List ℕ)) := do
  if numDecode ≠ decodeReqs.length then
    throw (.numDecode numDecode decodeReqs.length)
  if cuSeqlens.length ≠ numDecode + prefillReqs.length + 1 then
    throw (.cuSeqlens cuSeqlens.length numDecode prefillReqs.length)
  let targets ← match decodeSegments with
    | none => .ok ((decodeReqs.zipIdx).foldl
        (fun targets req => targets.set req.1.1 [cuSeqlens.getD req.2 0]) ∅)
    | some segments =>
        if segments.length ≠ decodeReqs.length then .error .segmentCount
        else segmentTargets cuSeqlens 0 (decodeReqs.zip segments) ∅
  return (prefillReqs.zipIdx).foldl
    (fun targets pr => targets.set pr.1.reqId [cuSeqlens.getD (numDecode + pr.2 + 1) 0 - 1]) targets

/-! ### Pairing with the bitmask -/

/-- The loop of `_build_constrained_rows` from the cursor `bitmaskRow` on; the cursor it ends with
comes last. -/
def constrainedFrom (rowTargets : Dict ReqId (List ℕ)) (grammarRowCounts : ReqId → ℕ) :
    ℕ → List ReqId → Except GrammarError (List (ℕ × ℕ) × ℕ)
  | bitmaskRow, [] => .ok ([], bitmaskRow)
  | bitmaskRow, reqId :: reqIds =>
      let grammarSpan := grammarRowCounts reqId
      let rows := rowTargets.getD reqId []
      if rows.length > grammarSpan then .error (.spanTooSmall reqId grammarSpan rows.length)
      else
        match constrainedFrom rowTargets grammarRowCounts (bitmaskRow + grammarSpan) reqIds with
        | .error e => .error e
        | .ok (constrained, cursor) =>
            .ok (rows.zipIdx bitmaskRow ++ constrained, cursor)

/-- `_build_constrained_rows`. -/
def buildConstrainedRows (structuredOutputRequestIds : List ReqId)
    (rowTargets : Dict ReqId (List ℕ)) (grammarBitmaskRowCount : ℕ)
    (grammarRowCounts : ReqId → ℕ) : Except GrammarError (List (ℕ × ℕ)) :=
  match constrainedFrom rowTargets grammarRowCounts 0 structuredOutputRequestIds with
  | .error e => .error e
  | .ok (constrained, bitmaskRow) =>
      if bitmaskRow ≠ grammarBitmaskRowCount then
        .error (.rowCount bitmaskRow grammarBitmaskRowCount)
      else .ok constrained

section Apply

variable {Row MaskRow : Type*}

/-- The constrained rows copied out of the logits and masked, in the order of the pairs. -/
def maskedRows (applyTokenBitmask : Row → MaskRow → Row) (logits : List Row)
    (grammarBitmask : List MaskRow) : List (ℕ × ℕ) → Except GrammarError (List Row)
  | [] => .ok []
  | (logitRow, bitmaskRow) :: constrained =>
      match logits[logitRow]?, grammarBitmask[bitmaskRow]? with
      | some row, some bits =>
          match maskedRows applyTokenBitmask logits grammarBitmask constrained with
          | .error e => .error e
          | .ok rows => .ok (applyTokenBitmask row bits :: rows)
      | _, _ => .error (.rowIndex logitRow bitmaskRow)

/-- `_apply_grammar_bitmask_to_rows`: the masked rows go back to the rows they came from. -/
def applyGrammarBitmaskToRows (applyTokenBitmask : Row → MaskRow → Row) (logits : List Row)
    (grammarBitmask : List MaskRow) (constrained : List (ℕ × ℕ)) :
    Except GrammarError (List Row) :=
  match maskedRows applyTokenBitmask logits grammarBitmask constrained with
  | .error e => .error e
  | .ok rows => .ok (scatterRows logits (constrained.map Prod.fst) rows)

/-- `apply_paged`.  `xgr` is the masking of a row by xgrammar, when it is installed. -/
def applyPaged (xgr : Option (Row → MaskRow → Row)) (schedulerOutput : SchedulerOutput)
    (grammarOutput : GrammarOutput MaskRow) (decodeReqs : List (ReqId × RequestState))
    (prefillReqs : List PrefillRequest) (cuSeqlens : List ℕ) (numDecode : ℕ) (logits : List Row)
    (decodeSegments : Option (List PagedDecodeSegment)) : Except GrammarError (List Row) :=
  match xgr with
  | none => .error .xgrammarMissing
  | some applyTokenBitmask =>
      let structuredReqIds := grammarOutput.structuredOutputRequestIds
      let structuredSpec := structuredReqIds.any fun reqId =>
        !(schedulerOutput.activeSpecDecodeTokens.getD reqId []).isEmpty
      if structuredSpec && decodeSegments.isNone then .error .rowSpanMetadata
      else
        let batchReqIds := decodeReqs.map Prod.fst ++ prefillReqs.map PrefillRequest.reqId
        -- none of the structured requests is in this batch: nothing is looked up
        if !structuredReqIds.any (fun reqId => decide (reqId ∈ batchReqIds)) then .ok logits
        else
          match buildPagedRowTargets decodeReqs prefillReqs cuSeqlens numDecode decodeSegments with
          | .error e => .error e
          | .ok rowTargets =>
              match buildConstrainedRows structuredReqIds rowTargets
                grammarOutput.grammarBitmask.length schedulerOutput.grammarRowCount with
              | .error e => .error e
              | .ok constrained =>
                  applyGrammarBitmaskToRows applyTokenBitmask logits grammarOutput.grammarBitmask
                    constrained

end Apply

/-! ### The rows of a step -/

/-- The boundaries of a step whose decode segments come first and whose chunks have `projected`
logits rows each. -/
structure RowBoundaries (decodeReqs : List (ReqId × RequestState))
    (prefillReqs : List PrefillRequest) (segments : List PagedDecodeSegment)
    (projected cuSeqlens : List ℕ) : Prop where
  segment_ids : segments.map PagedDecodeSegment.reqId = decodeReqs.map Prod.fst
  segment_startRow : ∀ (i : ℕ) segment, segments[i]? = some segment →
    segment.startRow = ((segmentLens segments).take i).sum
  projected_length : projected.length = prefillReqs.length
  projected_pos : ∀ n ∈ projected, 0 < n
  cuSeqlens_eq : cuSeqlens = boundaries (segmentLens segments ++ projected)

/-- The rows of each decode segment, with its request. -/
def decodePairs (segments : List PagedDecodeSegment) : List (ReqId × List ℕ) :=
  segments.map fun segment =>
    (segment.reqId, List.range' segment.startRow segment.numQueryTokens)

/-- The last row of each chunk, with its request. -/
def prefillPairs (prefillReqs : List PrefillRequest) (cuSeqlens : List ℕ) (numDecode : ℕ) :
    List (ReqId × List ℕ) :=
  prefillReqs.zipIdx.map fun pr => (pr.1.reqId, [cuSeqlens.getD (numDecode + pr.2 + 1) 0 - 1])

theorem segmentTargets_ok {cuSeqlens : List ℕ} {i : ℕ}
    {items : List ((ReqId × RequestState) × PagedDecodeSegment)} {targets : Dict ReqId (List ℕ)}
    (hids : ∀ item ∈ items, item.2.reqId = item.1.1)
    (hrows : ∀ (k : ℕ) item, items[k]? = some item →
      item.2.startRow = cuSeqlens.getD (i + k) 0) :
    segmentTargets cuSeqlens i items targets =
      .ok ((decodePairs (items.map Prod.snd)).foldl (fun d p => d.set p.1 p.2) targets) := by
  induction items generalizing i targets with
  | nil => rfl
  | cons item items ih =>
    obtain ⟨req, segment⟩ := item
    have hid : segment.reqId = req.1 := hids (req, segment) (by simp)
    have hrow : segment.startRow = cuSeqlens.getD i 0 := hrows 0 (req, segment) rfl
    rw [segmentTargets, if_neg (by simp [hid]), if_neg (by simp [hrow]), ih]
    · simp [decodePairs, hid]
    · exact fun item hitem => hids item (List.mem_cons_of_mem _ hitem)
    · intro k item hk
      rw [hrows (k + 1) item hk, Nat.add_right_comm, Nat.add_assoc]

namespace RowBoundaries

variable {decodeReqs : List (ReqId × RequestState)} {prefillReqs : List PrefillRequest}
  {segments : List PagedDecodeSegment} {projected cuSeqlens : List ℕ}

theorem length_segments (h : RowBoundaries decodeReqs prefillReqs segments projected cuSeqlens) :
    segments.length = decodeReqs.length := by
  have hlen := congrArg List.length h.segment_ids
  simpa using hlen

theorem length_cuSeqlens
    (h : RowBoundaries decodeReqs prefillReqs segments projected cuSeqlens) :
    cuSeqlens.length = decodeReqs.length + prefillReqs.length + 1 := by
  rw [h.cuSeqlens_eq, length_boundaries, List.length_append, length_segmentLens,
    h.length_segments, h.projected_length]

/-- Every segment and every chunk has a row. -/
theorem getD_lt_succ (h : RowBoundaries decodeReqs prefillReqs segments projected cuSeqlens)
    {s : ℕ} (hs : s < decodeReqs.length + prefillReqs.length) :
    cuSeqlens.getD s 0 < cuSeqlens.getD (s + 1) 0 := by
  have hlen : (segmentLens segments ++ projected).length =
      decodeReqs.length + prefillReqs.length := by
    rw [List.length_append, length_segmentLens, h.length_segments, h.projected_length]
  have hget : (segmentLens segments ++ projected)[s]? =
      some (segmentLens segments ++ projected)[s] := List.getElem?_eq_getElem (by omega)
  have hpos : 0 < (segmentLens segments ++ projected)[s] := by
    rcases List.mem_append.mp (List.mem_of_getElem? hget) with hdecode | hchunk
    · obtain ⟨segment, -, heq⟩ := List.mem_map.mp hdecode
      rw [← heq, segment.rows_bonus]
      exact Nat.succ_pos _
    · exact h.projected_pos _ hchunk
  rw [h.cuSeqlens_eq, getD_boundaries_succ hget]
  omega

/-- A segment starts at its boundary. -/
theorem startRow_eq (h : RowBoundaries decodeReqs prefillReqs segments projected cuSeqlens) {i : ℕ}
    {segment : PagedDecodeSegment} (hi : segments[i]? = some segment) :
    segment.startRow = cuSeqlens.getD i 0 := by
  have hlt : i < segments.length := (List.getElem?_eq_some_iff.mp hi).1
  rw [h.segment_startRow i segment hi, h.cuSeqlens_eq, getD_boundaries (by simp; omega),
    List.take_append_of_le_length (by simp; omega)]

/-- The end of a chunk. -/
theorem getD_prefill (h : RowBoundaries decodeReqs prefillReqs segments projected cuSeqlens)
    {j : ℕ} (hj : j < prefillReqs.length) :
    cuSeqlens.getD (decodeReqs.length + j + 1) 0 =
      (segmentLens segments).sum + (projected.take (j + 1)).sum := by
  have hlen := h.length_segments
  have hlen' := h.projected_length
  rw [h.cuSeqlens_eq, getD_boundaries (by simp; omega), ← hlen, Nat.add_assoc,
    ← length_segmentLens segments, List.take_length_add_append, List.sum_append]

/-- **The rows of every request of the step.** -/
theorem buildPagedRowTargets_ok
    (h : RowBoundaries decodeReqs prefillReqs segments projected cuSeqlens) :
    buildPagedRowTargets decodeReqs prefillReqs cuSeqlens decodeReqs.length (some segments) =
      .ok ((decodePairs segments ++ prefillPairs prefillReqs cuSeqlens decodeReqs.length).foldl
        (fun d p => d.set p.1 p.2) ∅) := by
  have hlen := h.length_segments
  have hcu := h.length_cuSeqlens
  have hsnd : (decodeReqs.zip segments).map Prod.snd = segments := List.map_snd_zip (by rw [hlen])
  have hids : ∀ item ∈ decodeReqs.zip segments, item.2.reqId = item.1.1 := by
    intro item hitem
    obtain ⟨k, hk, rfl⟩ := List.mem_iff_getElem.mp hitem
    have hget := congrArg (fun l => l[k]?) h.segment_ids
    simp only [List.length_zip] at hk
    simpa [List.getElem?_eq_getElem (show k < segments.length by omega),
      List.getElem?_eq_getElem (show k < decodeReqs.length by omega)] using hget
  have hrows : ∀ (k : ℕ) item, (decodeReqs.zip segments)[k]? = some item →
      item.2.startRow = cuSeqlens.getD (0 + k) 0 := by
    intro k item hk
    rw [Nat.zero_add]
    exact h.startRow_eq (List.getElem?_zip_eq_some.mp hk).2
  have hloop := @segmentTargets_ok cuSeqlens 0 (decodeReqs.zip segments) ∅ hids hrows
  rw [hsnd] at hloop
  simp only [buildPagedRowTargets, ne_eq, not_true_eq_false, if_false, hcu, hlen, hloop,
    List.foldl_append, prefillPairs, List.foldl_map]
  rfl

/-- The pairs of the step: each request of the batch once, with its rows. -/
def pairs (_ : RowBoundaries decodeReqs prefillReqs segments projected cuSeqlens) :
    List (ReqId × List ℕ) :=
  decodePairs segments ++ prefillPairs prefillReqs cuSeqlens decodeReqs.length

theorem pairs_fst (h : RowBoundaries decodeReqs prefillReqs segments projected cuSeqlens) :
    h.pairs.map Prod.fst = decodeReqs.map Prod.fst ++ prefillReqs.map PrefillRequest.reqId := by
  have hdecode : (decodePairs segments).map Prod.fst = segments.map PagedDecodeSegment.reqId := by
    rw [decodePairs, List.map_map]
    rfl
  have hprefill : (prefillPairs prefillReqs cuSeqlens decodeReqs.length).map Prod.fst =
      (prefillReqs.zipIdx.map Prod.fst).map PrefillRequest.reqId := by
    rw [prefillPairs, List.map_map, List.map_map]
    rfl
  rw [pairs, List.map_append, hdecode, hprefill, h.segment_ids, List.zipIdx_map_fst]

/-- The rows of the decode segments are the packed rows up to the first chunk. -/
theorem flatMap_decodePairs
    (h : RowBoundaries decodeReqs prefillReqs segments projected cuSeqlens) :
    (decodePairs segments).flatMap Prod.snd = List.range (segmentLens segments).sum := by
  have htake : ∀ n ≤ segments.length, ((decodePairs segments).take n).flatMap Prod.snd =
      List.range ((segmentLens segments).take n).sum := by
    intro n hn
    induction n with
    | zero => simp
    | succ n ih =>
      have hget : segments[n]? = some segments[n] := List.getElem?_eq_getElem hn
      have hlens : (segmentLens segments)[n]? = some segments[n].numQueryTokens := by
        rw [segmentLens, List.getElem?_map, hget, Option.map_some]
      have hpair : (decodePairs segments)[n]? = some (segments[n].reqId,
          List.range' segments[n].startRow segments[n].numQueryTokens) := by
        rw [decodePairs, List.getElem?_map, hget, Option.map_some]
      rw [List.take_add_one, List.take_add_one, hpair, hlens, List.flatMap_append,
        ih (Nat.le_of_lt hn), List.sum_append, h.segment_startRow n _ hget]
      simp only [Option.toList_some, List.flatMap_singleton, List.sum_singleton,
        List.range_eq_range']
      have happend := List.range'_append_1 (s := 0) (m := ((segmentLens segments).take n).sum)
        (n := segments[n].numQueryTokens)
      rwa [Nat.zero_add] at happend
  have hall := htake segments.length (Nat.le_refl _)
  rwa [List.take_of_length_le (by simp [decodePairs]),
    List.take_of_length_le (by simp)] at hall

/-- The last rows of the chunks come one after the other, behind the decode rows. -/
theorem prefill_row_lt (h : RowBoundaries decodeReqs prefillReqs segments projected cuSeqlens)
    {i j : ℕ} (hij : i < j) (hj : j < prefillReqs.length) :
    cuSeqlens.getD (decodeReqs.length + i + 1) 0 - 1 <
      cuSeqlens.getD (decodeReqs.length + j + 1) 0 - 1 := by
  have hpos : ∀ n ∈ (projected.drop (i + 1)).take (j - i), 0 < n := fun n hn =>
    h.projected_pos n (List.mem_of_mem_drop (List.mem_of_mem_take hn))
  have hlen := length_le_sum hpos
  rw [List.length_take, List.length_drop, h.projected_length] at hlen
  have hsplit : (projected.take (j + 1)).sum =
      (projected.take (i + 1)).sum + ((projected.drop (i + 1)).take (j - i)).sum := by
    rw [show j + 1 = (i + 1) + (j - i) by omega, List.take_add, List.sum_append]
  have hfirst : 0 < (projected.take (i + 1)).sum := by
    have hle := length_le_sum fun n hn => h.projected_pos n (List.mem_of_mem_take (i := i + 1) hn)
    rw [List.length_take, h.projected_length] at hle
    omega
  rw [h.getD_prefill (by omega), h.getD_prefill hj]
  omega

theorem le_prefill_row (h : RowBoundaries decodeReqs prefillReqs segments projected cuSeqlens)
    {j : ℕ} (hj : j < prefillReqs.length) :
    (segmentLens segments).sum ≤ cuSeqlens.getD (decodeReqs.length + j + 1) 0 - 1 := by
  have hle := length_le_sum fun n hn => h.projected_pos n (List.mem_of_mem_take (i := j + 1) hn)
  rw [List.length_take, h.projected_length] at hle
  rw [h.getD_prefill hj]
  omega

/-- **No row belongs to two places of the step.** -/
theorem nodup_rows (h : RowBoundaries decodeReqs prefillReqs segments projected cuSeqlens) :
    (h.pairs.flatMap Prod.snd).Nodup := by
  have hprefill : (prefillPairs prefillReqs cuSeqlens decodeReqs.length).flatMap Prod.snd =
      (List.range prefillReqs.length).map fun j =>
        cuSeqlens.getD (decodeReqs.length + j + 1) 0 - 1 := by
    rw [prefillPairs, List.flatMap_map, List.range_eq_range', ← List.zipIdx_map_snd 0 prefillReqs,
      List.map_map, List.map_eq_flatMap]
    rfl
  rw [pairs, List.flatMap_append, h.flatMap_decodePairs, hprefill, List.nodup_append]
  refine ⟨List.nodup_range, ?_, ?_⟩
  · refine List.Nodup.map_on ?_ List.nodup_range
    intro i hi j hj heq
    rw [List.mem_range] at hi hj
    rcases Nat.lt_trichotomy i j with hlt | rfl | hgt
    · have := h.prefill_row_lt hlt hj
      omega
    · rfl
    · have := h.prefill_row_lt hgt hi
      omega
  · intro row hrow row' hrow'
    obtain ⟨j, hj, rfl⟩ := List.mem_map.mp hrow'
    have := h.le_prefill_row (List.mem_range.mp hj)
    rw [List.mem_range] at hrow
    omega

/-- The dictionary of the rows of the step. -/
def targets (h : RowBoundaries decodeReqs prefillReqs segments projected cuSeqlens) :
    Dict ReqId (List ℕ) := h.pairs.foldl (fun d p => d.set p.1 p.2) ∅

theorem getD_targets (h : RowBoundaries decodeReqs prefillReqs segments projected cuSeqlens)
    (hnodup : (decodeReqs.map Prod.fst ++ prefillReqs.map PrefillRequest.reqId).Nodup)
    {p : ReqId × List ℕ} (hp : p ∈ h.pairs) : h.targets.getD p.1 [] = p.2 := by
  rw [Dict.getD, targets, Dict.get?_foldl_set _ (by rwa [h.pairs_fst]) hp]
  rfl

theorem getD_targets_of_not_mem
    (h : RowBoundaries decodeReqs prefillReqs segments projected cuSeqlens) {reqId : ReqId}
    (hreqId : reqId ∉ decodeReqs.map Prod.fst ++ prefillReqs.map PrefillRequest.reqId) :
    h.targets.getD reqId [] = [] := by
  rw [← h.pairs_fst] at hreqId
  rw [Dict.getD, targets, Dict.get?_foldl_set_of_not_mem _ hreqId, Dict.get?_empty]
  rfl

/-- The rows of a request are those of its one pair, or it has none. -/
theorem targets_cases (h : RowBoundaries decodeReqs prefillReqs segments projected cuSeqlens)
    (hnodup : (decodeReqs.map Prod.fst ++ prefillReqs.map PrefillRequest.reqId).Nodup)
    (reqId : ReqId) :
    h.targets.getD reqId [] = [] ∨ (reqId, h.targets.getD reqId []) ∈ h.pairs := by
  by_cases hmem : reqId ∈ h.pairs.map Prod.fst
  · right
    obtain ⟨p, hp, rfl⟩ := List.mem_map.mp hmem
    rwa [h.getD_targets hnodup hp]
  · left
    rw [h.pairs_fst] at hmem
    exact h.getD_targets_of_not_mem hmem

/-- **No row is constrained twice**, whatever the requests and their order. -/
theorem nodup_flatMap_targets
    (h : RowBoundaries decodeReqs prefillReqs segments projected cuSeqlens)
    (hnodup : (decodeReqs.map Prod.fst ++ prefillReqs.map PrefillRequest.reqId).Nodup)
    {reqIds : List ReqId} (hreqIds : reqIds.Nodup) :
    (reqIds.flatMap fun reqId => h.targets.getD reqId []).Nodup := by
  obtain ⟨hrows, hdisjoint⟩ := List.nodup_flatMap.mp h.nodup_rows
  rw [List.nodup_flatMap]
  refine ⟨?_, hreqIds.imp ?_⟩
  · intro reqId _
    rcases h.targets_cases hnodup reqId with hnone | hpair
    · rw [hnone]
      exact List.nodup_nil
    · exact hrows _ hpair
  · intro reqId reqId' hne row (hrow : row ∈ h.targets.getD reqId [])
      (hrow' : row ∈ h.targets.getD reqId' [])
    rcases h.targets_cases hnodup reqId with hnone | hpair
    · rw [hnone] at hrow
      exact absurd hrow List.not_mem_nil
    · rcases h.targets_cases hnodup reqId' with hnone' | hpair'
      · rw [hnone'] at hrow'
        exact absurd hrow' List.not_mem_nil
      · have : Std.Symm (Function.onFun List.Disjoint (Prod.snd : ReqId × List ℕ → List ℕ)) :=
          ⟨fun _ _ hdisj _ ha hb => hdisj hb ha⟩
        exact hdisjoint.forall hpair hpair' (fun heq => hne (congrArg Prod.fst heq)) hrow hrow'

end RowBoundaries

/-! ### The running cursor -/

/-- The pairs of `_build_constrained_rows` when every request's rows fit its span. -/
def constrainedPairs (rowTargets : Dict ReqId (List ℕ)) (grammarRowCounts : ReqId → ℕ) :
    ℕ → List ReqId → List (ℕ × ℕ)
  | _, [] => []
  | bitmaskRow, reqId :: reqIds =>
      (rowTargets.getD reqId []).zipIdx bitmaskRow ++
        constrainedPairs rowTargets grammarRowCounts (bitmaskRow + grammarRowCounts reqId) reqIds

section Cursor

variable {rowTargets : Dict ReqId (List ℕ)} {grammarRowCounts : ReqId → ℕ} {reqIds : List ReqId}

theorem constrainedFrom_ok
    (hspan : ∀ reqId ∈ reqIds, (rowTargets.getD reqId []).length ≤ grammarRowCounts reqId)
    (bitmaskRow : ℕ) : constrainedFrom rowTargets grammarRowCounts bitmaskRow reqIds =
      .ok (constrainedPairs rowTargets grammarRowCounts bitmaskRow reqIds,
        bitmaskRow + (reqIds.map grammarRowCounts).sum) := by
  induction reqIds generalizing bitmaskRow with
  | nil => rfl
  | cons reqId reqIds ih =>
    have hfits : ¬ (rowTargets.getD reqId []).length > grammarRowCounts reqId :=
      Nat.not_lt.mpr (hspan reqId (by simp))
    rw [constrainedFrom, if_neg hfits, ih fun id hid => hspan id (List.mem_cons_of_mem _ hid)]
    simp only [constrainedPairs, List.map_cons, List.sum_cons, Nat.add_assoc]

/-- **The cursor check**: it raises exactly when the bitmask has not the rows of the scheduled
spans. -/
theorem buildConstrainedRows_eq
    (hspan : ∀ reqId ∈ reqIds, (rowTargets.getD reqId []).length ≤ grammarRowCounts reqId)
    (rowCount : ℕ) : buildConstrainedRows reqIds rowTargets rowCount grammarRowCounts =
      if (reqIds.map grammarRowCounts).sum ≠ rowCount then
        .error (.rowCount (reqIds.map grammarRowCounts).sum rowCount)
      else .ok (constrainedPairs rowTargets grammarRowCounts 0 reqIds) := by
  rw [buildConstrainedRows, constrainedFrom_ok hspan, Nat.zero_add]

theorem map_fst_constrainedPairs (bitmaskRow : ℕ) :
    (constrainedPairs rowTargets grammarRowCounts bitmaskRow reqIds).map Prod.fst =
      reqIds.flatMap fun reqId => rowTargets.getD reqId [] := by
  induction reqIds generalizing bitmaskRow with
  | nil => rfl
  | cons reqId reqIds ih =>
    rw [constrainedPairs, List.map_append, List.zipIdx_map_fst, ih, List.flatMap_cons]

/-- **The `k`-th row of a request is paired with the `k`-th row of its span.** -/
theorem mem_constrainedPairs {bitmaskRow row bit : ℕ} :
    (row, bit) ∈ constrainedPairs rowTargets grammarRowCounts bitmaskRow reqIds ↔
      ∃ (p : ℕ) (reqId : ReqId) (k : ℕ), reqIds[p]? = some reqId ∧
        (rowTargets.getD reqId [])[k]? = some row ∧
        bit = bitmaskRow + ((reqIds.map grammarRowCounts).take p).sum + k := by
  induction reqIds generalizing bitmaskRow with
  | nil => simp [constrainedPairs]
  | cons reqId reqIds ih =>
    rw [constrainedPairs, List.mem_append, ih, List.mk_mem_zipIdx_iff_le_and_getElem?_sub]
    constructor
    · rintro (⟨hle, hrow⟩ | ⟨p, id, k, hp, hrow, rfl⟩)
      · exact ⟨0, reqId, bit - bitmaskRow, rfl, hrow, by simp; omega⟩
      · exact ⟨p + 1, id, k, hp, hrow, by simp [Nat.add_assoc]⟩
    · rintro ⟨p, id, k, hp, hrow, rfl⟩
      cases p with
      | zero =>
        obtain rfl : reqId = id := by simpa using hp
        left
        refine ⟨by omega, ?_⟩
        rw [← hrow]
        congr 1
        simp
      | succ p =>
        right
        exact ⟨p, id, k, hp, hrow, by simp [Nat.add_assoc]⟩

end Cursor

/-! ### Masking -/

section Masking

variable {Row MaskRow : Type*} {f : Row → MaskRow → Row} {logits : List Row}
  {grammarBitmask : List MaskRow} {constrained : List (ℕ × ℕ)}

theorem maskedRows_ok (hrange : ∀ p ∈ constrained, ∃ row bits, logits[p.1]? = some row ∧
      grammarBitmask[p.2]? = some bits) :
    ∃ rows, maskedRows f logits grammarBitmask constrained = .ok rows ∧
      ∀ (k : ℕ) p row bits, constrained[k]? = some p → logits[p.1]? = some row →
        grammarBitmask[p.2]? = some bits → rows[k]? = some (f row bits) := by
  induction constrained with
  | nil => exact ⟨[], rfl, fun k p row bits hk => by simp at hk⟩
  | cons p constrained ih =>
    obtain ⟨row, bits, hrow, hbits⟩ := hrange p (by simp)
    obtain ⟨rows, hrows, hspec⟩ := ih fun q hq => hrange q (List.mem_cons_of_mem p hq)
    refine ⟨f row bits :: rows, by simp only [maskedRows, hrow, hbits, hrows], ?_⟩
    intro k q row' bits' hk hrow' hbits'
    cases k with
    | zero =>
      obtain rfl : p = q := by simpa using hk
      rw [hrow] at hrow'
      rw [hbits] at hbits'
      cases hrow'
      cases hbits'
      rfl
    | succ k => exact hspec k q row' bits' (by simpa using hk) hrow' hbits'

/-- Past the cursor check only an index can be refused. -/
theorem applyGrammarBitmaskToRows_ne_rowCount (consumed got : ℕ) :
    applyGrammarBitmaskToRows f logits grammarBitmask constrained ≠
      .error (.rowCount consumed got) := by
  have hmasked : maskedRows f logits grammarBitmask constrained ≠
      .error (.rowCount consumed got) := by
    induction constrained with
    | nil =>
      intro h
      cases h
    | cons p constrained ih =>
      intro h
      simp only [maskedRows] at h
      split at h
      · split at h
        · next heq =>
          cases h
          exact ih heq
        · cases h
      · cases h
  intro h
  rw [applyGrammarBitmaskToRows] at h
  split at h
  · next heq =>
    cases h
    exact hmasked heq
  · cases h

/-- **Constrained rows are masked, all others stay.** -/
theorem applyGrammarBitmaskToRows_ok (hnodup : (constrained.map Prod.fst).Nodup)
    (hrange : ∀ p ∈ constrained, ∃ row bits, logits[p.1]? = some row ∧
      grammarBitmask[p.2]? = some bits) :
    ∃ out, applyGrammarBitmaskToRows f logits grammarBitmask constrained = .ok out ∧
      out.length = logits.length ∧
      (∀ p row bits, p ∈ constrained → logits[p.1]? = some row →
        grammarBitmask[p.2]? = some bits → out[p.1]? = some (f row bits)) ∧
      ∀ r : ℕ, r ∉ constrained.map Prod.fst → out[r]? = logits[r]? := by
  obtain ⟨rows, hrows, hspec⟩ := maskedRows_ok (f := f) hrange
  refine ⟨_, by rw [applyGrammarBitmaskToRows, hrows], length_scatterRows _ _ _, ?_, ?_⟩
  · intro p row bits hp hrow hbits
    obtain ⟨k, hk⟩ := List.mem_iff_getElem?.mp hp
    have hlt : p.1 < logits.length := (List.getElem?_eq_some_iff.mp hrow).1
    exact getElem?_scatterRows hnodup (by rw [List.getElem?_map, hk, Option.map_some])
      (hspec k p row bits hk hrow hbits) hlt
  · intro r hr
    exact getElem?_scatterRows_of_not_mem _ _ hr

end Masking

/-! ### A step -/

/-- The rows of the segments a step builds. -/
theorem rowBoundaries_of_segments {decodeReqs : List (ReqId × RequestState)}
    {prefillReqs : List PrefillRequest} {specTokens : Dict ReqId (List Token)}
    {seqLens : Dict ReqId ℕ} {segments : List PagedDecodeSegment} {projected : List ℕ}
    (hsegments : buildDecodeSegments decodeReqs specTokens seqLens = .ok segments)
    (hlength : projected.length = prefillReqs.length) (hpos : ∀ n ∈ projected, 0 < n) :
    RowBoundaries decodeReqs prefillReqs segments projected
      (boundaries (segmentLens segments ++ projected)) := by
  obtain rfl := buildDecodeSegments_eq hsegments
  have hids : ∀ (reqs : List (ReqId × RequestState)) (startRow : ℕ),
      (segmentList specTokens seqLens startRow reqs).map PagedDecodeSegment.reqId =
        reqs.map Prod.fst := by
    intro reqs
    induction reqs with
    | nil => exact fun _ => rfl
    | cons req reqs ih => exact fun startRow => congrArg (req.1 :: ·) (ih _)
  have hlens : ∀ (reqs : List (ReqId × RequestState)) (startRow : ℕ),
      segmentLens (segmentList specTokens seqLens startRow reqs) =
        reqs.map fun r => (specTokens.getD r.1 []).length + 1 := by
    intro reqs
    induction reqs with
    | nil => exact fun _ => rfl
    | cons req reqs ih =>
      exact fun startRow => congrArg (((specTokens.getD req.1 []).length + 1) :: ·) (ih _)
  refine ⟨hids decodeReqs 0, ?_, hlength, hpos, rfl⟩
  intro i segment hi
  have hlt : i < decodeReqs.length := by
    have := (List.getElem?_eq_some_iff.mp hi).1
    rwa [length_segmentList] at this
  rw [getElem?_segmentList (List.getElem?_eq_getElem hlt)] at hi
  cases hi
  rw [hlens, segmentOf, Nat.zero_add]

section Step

variable {Row MaskRow : Type*} {decodeReqs : List (ReqId × RequestState)}
  {prefillReqs : List PrefillRequest} {segments : List PagedDecodeSegment}
  {projected cuSeqlens : List ℕ} {schedulerOutput : SchedulerOutput} {reqIds : List ReqId}

namespace RowBoundaries

theorem mem_pairs_of_segment
    (h : RowBoundaries decodeReqs prefillReqs segments projected cuSeqlens) {i : ℕ}
    {segment : PagedDecodeSegment} (hi : segments[i]? = some segment) :
    (segment.reqId, List.range' segment.startRow segment.numQueryTokens) ∈ h.pairs :=
  List.mem_append_left _ (List.mem_map_of_mem (List.mem_of_getElem? hi))

theorem mem_pairs_of_prefill
    (h : RowBoundaries decodeReqs prefillReqs segments projected cuSeqlens) {j : ℕ}
    {pr : PrefillRequest} (hj : prefillReqs[j]? = some pr) :
    (pr.reqId, [cuSeqlens.getD (decodeReqs.length + j + 1) 0 - 1]) ∈ h.pairs := by
  refine List.mem_append_right _ ?_
  exact List.mem_map_of_mem (f := fun pr : PrefillRequest × ℕ =>
    (pr.1.reqId, [cuSeqlens.getD (decodeReqs.length + pr.2 + 1) 0 - 1]))
    (List.mk_mem_zipIdx_iff_getElem?.mpr hj)

/-- All rows of the step are logits rows. -/
theorem row_lt (h : RowBoundaries decodeReqs prefillReqs segments projected cuSeqlens)
    {p : ReqId × List ℕ} (hp : p ∈ h.pairs) {row : ℕ} (hrow : row ∈ p.2) :
    row < cuSeqlens.getLastD 0 := by
  rw [h.cuSeqlens_eq, getLastD_boundaries, List.sum_append]
  rcases List.mem_append.mp hp with hdecode | hprefill
  · have hmem : row ∈ (decodePairs segments).flatMap Prod.snd :=
      List.mem_flatMap.mpr ⟨p, hdecode, hrow⟩
    rw [h.flatMap_decodePairs, List.mem_range] at hmem
    omega
  · obtain ⟨⟨pr, j⟩, hj, rfl⟩ := List.mem_map.mp hprefill
    have hlt : j < prefillReqs.length :=
      (List.getElem?_eq_some_iff.mp (List.mk_mem_zipIdx_iff_getElem?.mp hj)).1
    obtain rfl : row = cuSeqlens.getD (decodeReqs.length + j + 1) 0 - 1 := by simpa using hrow
    have hle : (projected.take (j + 1)).sum ≤ projected.sum := by
      rw [← List.sum_take_add_sum_drop projected (j + 1)]
      exact Nat.le_add_right _ _
    have hpos := length_le_sum fun n hn => h.projected_pos n (List.mem_of_mem_take (i := j + 1) hn)
    rw [List.length_take, h.projected_length] at hpos
    rw [h.getD_prefill hlt]
    omega

/-- The rows of a request fit the span that was scheduled for it. -/
theorem length_targets_le (h : RowBoundaries decodeReqs prefillReqs segments projected cuSeqlens)
    (hnodup : (decodeReqs.map Prod.fst ++ prefillReqs.map PrefillRequest.reqId).Nodup)
    (hspans : ∀ segment ∈ segments, segment.numQueryTokens ≤
      schedulerOutput.grammarRowCount segment.reqId) (reqId : ReqId) :
    (h.targets.getD reqId []).length ≤ schedulerOutput.grammarRowCount reqId := by
  have hone : 1 ≤ schedulerOutput.grammarRowCount reqId := Nat.le_add_right 1 _
  rcases h.targets_cases hnodup reqId with hnone | hpair
  · rw [hnone]
    exact Nat.zero_le _
  · rcases List.mem_append.mp hpair with hdecode | hprefill
    · obtain ⟨segment, hsegment, heq⟩ := List.mem_map.mp hdecode
      obtain ⟨rfl, hrows⟩ := Prod.mk.inj heq
      rw [← hrows, List.length_range']
      exact hspans segment hsegment
    · obtain ⟨pr, -, heq⟩ := List.mem_map.mp hprefill
      rw [← (Prod.mk.inj heq).2]
      exact hone

/-- What the applier does once some structured request is in the batch. -/
theorem applyPaged_eq (h : RowBoundaries decodeReqs prefillReqs segments projected cuSeqlens)
    (f : Row → MaskRow → Row) (grammarBitmask : List MaskRow) (logits : List Row)
    (hbatch : ∃ reqId ∈ reqIds,
      reqId ∈ decodeReqs.map Prod.fst ++ prefillReqs.map PrefillRequest.reqId) :
    applyPaged (some f) schedulerOutput ⟨reqIds, grammarBitmask⟩ decodeReqs prefillReqs cuSeqlens
        decodeReqs.length logits (some segments) =
      match buildConstrainedRows reqIds h.targets grammarBitmask.length
        schedulerOutput.grammarRowCount with
      | .error e => .error e
      | .ok constrained => applyGrammarBitmaskToRows f logits grammarBitmask constrained := by
  obtain ⟨reqId, hreqId, hmem⟩ := hbatch
  have hany : (reqIds.any fun reqId => decide (reqId ∈
      decodeReqs.map Prod.fst ++ prefillReqs.map PrefillRequest.reqId)) = true :=
    List.any_eq_true.mpr ⟨reqId, hreqId, decide_eq_true hmem⟩
  have htargets : buildPagedRowTargets decodeReqs prefillReqs cuSeqlens decodeReqs.length
      (some segments) = .ok h.targets := h.buildPagedRowTargets_ok
  simp only [applyPaged, Option.isNone_some, Bool.and_false, Bool.false_eq_true, if_false, hany,
    Bool.not_true, htargets]

/-- The pairs of the applier lie in the logits and in a bitmask that has the scheduled spans. -/
theorem constrainedPairs_mem
    (h : RowBoundaries decodeReqs prefillReqs segments projected cuSeqlens)
    (hnodup : (decodeReqs.map Prod.fst ++ prefillReqs.map PrefillRequest.reqId).Nodup)
    (hfits : ∀ reqId, (h.targets.getD reqId []).length ≤ schedulerOutput.grammarRowCount reqId)
    {logits : List Row} (hlogits : logits.length = cuSeqlens.getLastD 0)
    {bitsOf : ReqId → List MaskRow}
    (hbits : ∀ reqId ∈ reqIds, (bitsOf reqId).length = schedulerOutput.grammarRowCount reqId)
    {p k : ℕ} {reqId : ReqId} {r : ℕ} (hp : reqIds[p]? = some reqId)
    (hr : (h.targets.getD reqId [])[k]? = some r) :
    ∃ row bits, logits[r]? = some row ∧ (bitsOf reqId)[k]? = some bits ∧
      (reqIds.flatMap bitsOf)[
        ((reqIds.map schedulerOutput.grammarRowCount).take p).sum + k]? = some bits := by
  have hk : k < (h.targets.getD reqId []).length := (List.getElem?_eq_some_iff.mp hr).1
  have hlen := hbits reqId (List.mem_of_getElem? hp)
  have hk' : k < (bitsOf reqId).length := Nat.lt_of_lt_of_le hk (hlen ▸ hfits reqId)
  have hlt : r < logits.length := by
    rw [hlogits]
    rcases h.targets_cases hnodup reqId with hnone | hpair
    · simp [hnone] at hk
    · exact h.row_lt hpair (List.mem_of_getElem? hr)
  have hget := List.getElem?_eq_getElem hk'
  refine ⟨logits[r], (bitsOf reqId)[k], List.getElem?_eq_getElem hlt, hget, ?_⟩
  rw [← hget, ← getElem?_flatMap_boundary hp hk', getD_boundaries]
  · congr 4
    apply List.map_congr_left
    intro id hid
    rw [hbits id hid]
  · rw [List.length_map]
    exact Nat.le_of_lt (List.getElem?_eq_some_iff.mp hp).1

/-- The masking of a bitmask that has the scheduled spans. -/
theorem applyPaged_ok (h : RowBoundaries decodeReqs prefillReqs segments projected cuSeqlens)
    (hnodup : (decodeReqs.map Prod.fst ++ prefillReqs.map PrefillRequest.reqId).Nodup)
    (hfits : ∀ reqId, (h.targets.getD reqId []).length ≤ schedulerOutput.grammarRowCount reqId)
    (f : Row → MaskRow → Row) {logits : List Row} (hlogits : logits.length = cuSeqlens.getLastD 0)
    (hreqIds : reqIds.Nodup) {bitsOf : ReqId → List MaskRow}
    (hbits : ∀ reqId ∈ reqIds, (bitsOf reqId).length = schedulerOutput.grammarRowCount reqId) :
    ∃ out, applyPaged (some f) schedulerOutput ⟨reqIds, reqIds.flatMap bitsOf⟩ decodeReqs
        prefillReqs cuSeqlens decodeReqs.length logits (some segments) = .ok out ∧
      out.length = logits.length ∧
      (∀ reqId ∈ reqIds, ∀ k r : ℕ, (h.targets.getD reqId [])[k]? = some r →
        ∃ row bits, logits[r]? = some row ∧ (bitsOf reqId)[k]? = some bits ∧
          out[r]? = some (f row bits)) ∧
      ∀ r : ℕ, (∀ reqId ∈ reqIds, r ∉ h.targets.getD reqId []) → out[r]? = logits[r]? := by
  have hmem := @h.constrainedPairs_mem _ _ _ _ _ _ _ schedulerOutput reqIds hnodup hfits logits
    hlogits bitsOf hbits
  by_cases hbatch : ∃ reqId ∈ reqIds,
      reqId ∈ decodeReqs.map Prod.fst ++ prefillReqs.map PrefillRequest.reqId
  · have hsum : (reqIds.map schedulerOutput.grammarRowCount).sum =
        (reqIds.flatMap bitsOf).length := by
      rw [List.length_flatMap]
      congr 1
      exact List.map_congr_left fun reqId hreqId => (hbits reqId hreqId).symm
    rw [h.applyPaged_eq f _ logits hbatch, buildConstrainedRows_eq fun reqId _ => hfits reqId,
      if_neg (not_not.mpr hsum)]
    -- every pair points into the logits and into the bitmask
    have hrange : ∀ p ∈ constrainedPairs h.targets schedulerOutput.grammarRowCount 0 reqIds,
        ∃ row bits, logits[p.1]? = some row ∧ (reqIds.flatMap bitsOf)[p.2]? = some bits := by
      rintro ⟨r, b⟩ hp
      obtain ⟨p, reqId, k, hget, hr, rfl⟩ := mem_constrainedPairs.mp hp
      obtain ⟨row, bits, hrow, -, hbit⟩ := hmem hget hr
      exact ⟨row, bits, hrow, by rwa [Nat.zero_add]⟩
    obtain ⟨out, hout, hlen, hmasked, hother⟩ := applyGrammarBitmaskToRows_ok (f := f)
      (by
        rw [map_fst_constrainedPairs]
        exact h.nodup_flatMap_targets hnodup hreqIds) hrange
    refine ⟨out, hout, hlen, ?_, ?_⟩
    -- a row of a structured request is masked with the bits of its place
    · intro reqId hreqId k r hr
      obtain ⟨p, hp⟩ := List.mem_iff_getElem?.mp hreqId
      obtain ⟨row, bits, hrow, hbits', hbit⟩ := hmem hp hr
      refine ⟨row, bits, hrow, hbits', hmasked (r, _) row bits ?_ hrow hbit⟩
      exact mem_constrainedPairs.mpr ⟨p, reqId, k, hp, hr, by rw [Nat.zero_add]⟩
    -- any other row is left as it is
    · intro r hr
      refine hother r fun hin => ?_
      rw [map_fst_constrainedPairs] at hin
      obtain ⟨reqId, hreqId, hin⟩ := List.mem_flatMap.mp hin
      exact hr reqId hreqId hin
  · -- no structured request is here, and none has rows to mask
    have hany : (reqIds.any fun reqId => decide (reqId ∈
        decodeReqs.map Prod.fst ++ prefillReqs.map PrefillRequest.reqId)) = false := by
      rw [List.any_eq_false]
      intro reqId hreqId hin
      exact hbatch ⟨reqId, hreqId, of_decide_eq_true hin⟩
    refine ⟨logits, by simp [applyPaged, -List.mem_append, hany], rfl, ?_, fun _ _ => rfl⟩
    intro reqId hreqId k r hr
    have hnone := h.getD_targets_of_not_mem fun hin => hbatch ⟨reqId, hreqId, hin⟩
    simp [hnone] at hr

end RowBoundaries

/-- **Grammar rows reach their logits rows.**  The batch is any decode segments followed by any
chunks of distinct requests, the structured requests are any distinct ones in any order, and
`bitsOf` are the bitmask rows of their scheduled spans.  The `k`-th logits row of a structured
request is masked with the `k`-th row of its span; rows of no structured request stay as they
are, no row is paired twice, and the cursor check refuses exactly the bitmasks whose rows do not
match the spans. -/
theorem grammar_rows_reach_their_logits_rows (f : Row → MaskRow → Row) (supported : Bool)
    (branch : ForwardBranch) (wants : ReqId → Bool) {seqLens : Dict ReqId ℕ}
    (hnodup : (decodeReqs.map Prod.fst ++ prefillReqs.map PrefillRequest.reqId).Nodup)
    (hchunks : ∀ pr ∈ prefillReqs, 0 < pr.tokenIds.length)
    (hsegments : buildDecodeSegments decodeReqs schedulerOutput.activeSpecDecodeTokens seqLens =
      .ok segments)
    (hcu : cuSeqlens = (stepLogitsLayout supported branch wants segments prefillReqs).cuSeqlens)
    {logits : List Row} (hlogits : logits.length = cuSeqlens.getLastD 0) (hreqIds : reqIds.Nodup)
    {bitsOf : ReqId → List MaskRow}
    (hbits : ∀ reqId ∈ reqIds, (bitsOf reqId).length = schedulerOutput.grammarRowCount reqId) :
    ∃ targets : Dict ReqId (List ℕ),
      buildPagedRowTargets decodeReqs prefillReqs cuSeqlens decodeReqs.length (some segments) =
        .ok targets ∧
      (∀ (i : ℕ) segment, segments[i]? = some segment → targets.getD segment.reqId [] =
        List.range' segment.startRow segment.numQueryTokens) ∧
      (∀ (j : ℕ) (pr : PrefillRequest), prefillReqs[j]? = some pr → targets.getD pr.reqId [] =
        [cuSeqlens.getD (decodeReqs.length + j + 1) 0 - 1]) ∧
      (∃ out, applyPaged (some f) schedulerOutput ⟨reqIds, reqIds.flatMap bitsOf⟩ decodeReqs
          prefillReqs cuSeqlens decodeReqs.length logits (some segments) = .ok out ∧
        out.length = logits.length ∧
        (∀ reqId ∈ reqIds, ∀ k r : ℕ, (targets.getD reqId [])[k]? = some r →
          ∃ row bits, logits[r]? = some row ∧ (bitsOf reqId)[k]? = some bits ∧
            out[r]? = some (f row bits)) ∧
        ∀ r : ℕ, (∀ reqId ∈ reqIds, r ∉ targets.getD reqId []) → out[r]? = logits[r]?) ∧
      (reqIds.flatMap fun reqId => targets.getD reqId []).Nodup ∧
      (∀ rowCount, buildConstrainedRows reqIds targets rowCount schedulerOutput.grammarRowCount =
        if (reqIds.map schedulerOutput.grammarRowCount).sum ≠ rowCount then
          .error (.rowCount (reqIds.map schedulerOutput.grammarRowCount).sum rowCount)
        else .ok (constrainedPairs targets schedulerOutput.grammarRowCount 0 reqIds)) ∧
      ∀ grammarBitmask : List MaskRow, (∃ reqId ∈ reqIds,
          reqId ∈ decodeReqs.map Prod.fst ++ prefillReqs.map PrefillRequest.reqId) →
        (applyPaged (some f) schedulerOutput ⟨reqIds, grammarBitmask⟩ decodeReqs prefillReqs
            cuSeqlens decodeReqs.length logits (some segments) =
          .error (.rowCount (reqIds.map schedulerOutput.grammarRowCount).sum
            grammarBitmask.length) ↔
          grammarBitmask.length ≠ (reqIds.map schedulerOutput.grammarRowCount).sum) := by
  obtain ⟨projected, hlength, hpos, hboundaries⟩ :=
    stepLogitsLayout_boundaries supported branch wants segments hchunks
  have h : RowBoundaries decodeReqs prefillReqs segments projected cuSeqlens := by
    rw [hcu, hboundaries]
    exact rowBoundaries_of_segments hsegments hlength hpos
  -- a segment never has more rows than its request was scheduled
  have hspans : ∀ segment ∈ segments, segment.numQueryTokens ≤
      schedulerOutput.grammarRowCount segment.reqId := by
    intro segment hsegment
    obtain ⟨i, hi⟩ := List.mem_iff_getElem?.mp hsegment
    rw [buildDecodeSegments_eq hsegments] at hi
    have hlt : i < decodeReqs.length := by
      have := (List.getElem?_eq_some_iff.mp hi).1
      rwa [length_segmentList] at this
    rw [getElem?_segmentList (List.getElem?_eq_getElem hlt)] at hi
    cases hi
    exact schedulerOutput.length_activeSpecDecodeTokens_le _
  have hfits := h.length_targets_le hnodup hspans
  have hcursor := buildConstrainedRows_eq fun reqId (_ : reqId ∈ reqIds) => hfits reqId
  have hrows := h.nodup_flatMap_targets hnodup hreqIds
  refine ⟨h.targets, h.buildPagedRowTargets_ok, fun i segment hi =>
    h.getD_targets hnodup (h.mem_pairs_of_segment hi), fun j pr hj =>
    h.getD_targets hnodup (h.mem_pairs_of_prefill hj), ?_, hrows, hcursor, ?_⟩
  · exact h.applyPaged_ok hnodup hfits f hlogits hreqIds hbits
  · intro grammarBitmask hbatch
    rw [h.applyPaged_eq f grammarBitmask logits hbatch, hcursor]
    -- the cursor of the bitmask ends at the sum of the scheduled spans
    by_cases hsum : (reqIds.map schedulerOutput.grammarRowCount).sum = grammarBitmask.length
    · rw [if_neg (not_not.mpr hsum)]
      exact iff_of_false (applyGrammarBitmaskToRows_ne_rowCount _ _) (not_not.mpr hsum.symm)
    · rw [if_pos hsum]
      exact iff_of_true rfl (Ne.symm hsum)

end Step

/-- One request with a draft, and one that was padded with two placeholders. -/
private def paddedStep : SchedulerOutput where
  scheduledSpecDecodeTokens := ((∅ : Dict ReqId (List Token)).set 1 [5]).set 2 [-1, -1]
  numInvalidSpecTokens := none
  numScheduledTokens := (((∅ : Dict ReqId ℕ).set 1 2).set 2 3).set 3 2

private def decodeState : RequestState :=
  ⟨[7, 8], 1, .greedy, 1, [[0]], none, 0⟩

/-- The last chunk of a third request. -/
private def lastChunk : PrefillRequest := ⟨3, [9, 10], .greedy, some 2, 0, some [9, 10]⟩

/-- The structured requests come in another order than the batch. -/
theorem grammar_rows_padded :
    ∃ out, applyPaged (some fun row bits : ℕ => row + bits) paddedStep
        ⟨[2, 3, 1], [2, 3, 1].flatMap fun reqId => (List.range
          (paddedStep.grammarRowCount reqId)).map fun k => 100 * reqId + 10 * k⟩
        [(1, decodeState), (2, decodeState)] [lastChunk] [0, 2, 3, 4] 2 [1, 2, 3, 4]
        (some [segmentOf ∅ 0 1 decodeState [5], segmentOf ∅ 2 2 decodeState []]) = .ok out ∧
      out.length = 4 := by
  obtain ⟨-, -, -, -, ⟨out, hout, hlen, -⟩, -⟩ :=
    @grammar_rows_reach_their_logits_rows ℕ ℕ [(1, decodeState), (2, decodeState)] [lastChunk]
      [segmentOf ∅ 0 1 decodeState [5], segmentOf ∅ 2 2 decodeState []] [0, 2, 3, 4] paddedStep
      [2, 3, 1] (fun row bits : ℕ => row + bits) true .text (fun _ => false) ∅ (by decide)
      (by decide) rfl (by decide) [1, 2, 3, 4] rfl (by decide)
      (fun reqId => (List.range (paddedStep.grammarRowCount reqId)).map
        fun k => 100 * reqId + 10 * k) (by simp)
  exact ⟨out, hout, hlen⟩

end Logits
end VllmMetal
