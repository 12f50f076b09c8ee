import VllmMetal.Logits.Grammar

/-!
# The readers of the logits

Sampling, verification, grammar masking and prompt logprobs index the logits of a step with
formulas of their own.  All of them find the same rows whether the head projected every packed
row or only the selected ones.

## Main definitions

* `samplePrefillTokens`, `gatherPrefillPromptLogprobs` — the readers of the prefill rows.

## Main results

* `selective_logits_same_rows` — every reader reads the rows of the full projection.
-/

namespace VllmMetal
namespace Logits

open SpecDecode

section Readers

variable {Row Lp : Type*}

/-- The sampling metadata of a completed prefill: its parameters, the prompt and what is
behind it. -/
def PrefillRequest.samplingMetadata (pr : PrefillRequest) :
    SamplingParams × List Token × List Token :=
  let tokenIds := pr.fullPromptTokenIds.getD pr.tokenIds
  let promptLen := pr.promptLen.getD tokenIds.length
  (pr.samplingParams, tokenIds.take promptLen, tokenIds.drop promptLen)

/-- The sampled rows in the packed prefill order, an unused zero token for each intermediate
chunk. -/
def restorePrefillOrder : List PrefillRequest → List (Token × Option Lp) → List (Token × Option Lp)
  | [], _ => []
  | pr :: prefillReqs, result =>
      if pr.promptLen.isSome then
        result.headD (0, none) :: restorePrefillOrder prefillReqs result.tail
      else (0, none) :: restorePrefillOrder prefillReqs result

/-- `sample_prefill_tokens`.  `sampleFromLogits` is the sampler on the last rows and the
metadata of the completed prefills. -/
def samplePrefillTokens
    (sampleFromLogits : List (Option Row) → List (SamplingParams × List Token × List Token) →
      List (Token × Option Lp))
    (logits : List Row) (prefillReqs : List PrefillRequest) (cuSeqlens : List ℕ) (numDecode : ℕ) :
    List (Token × Option Lp) :=
  let final := prefillReqs.zipIdx.filter fun pr => pr.1.promptLen.isSome
  if final = [] then prefillReqs.map fun _ => (0, none)
  else
    let lastLogits := final.map fun pr => logits[cuSeqlens.getD (numDecode + pr.2 + 1) 0 - 1]?
    let result := sampleFromLogits lastLogits (final.map fun pr => pr.1.samplingMetadata)
    if final.length = prefillReqs.length then result else restorePrefillOrder prefillReqs result

/-- What `observe_chunk` is handed for one chunk. -/
structure PromptChunk (Row : Type*) where
  reqId : ReqId
  promptTokenIds : List Token
  startPos : ℕ
  numTokens : ℕ
  chunkLogits : List Row

/-- The errors of `_gather_prefill_prompt_logprobs`. -/
inductive PromptLogprobsError where
  /-- "Prompt logprobs requested but the forward produced no logits — the intermediate-forward
  gate desynced." -/
  | noLogits
  /-- "Prompt logprobs requested for ... but the prefill pack carries no full prompt —
  _build_prefill_pack gating desynced." -/
  | noFullPrompt (reqId : ReqId)
  /-- "Prompt logprobs requested but the head projected only ... of ... chunk rows — the
  selective-logits gate desynced." -/
  | projectedRows (projected chunk : ℕ)
  deriving DecidableEq

/-- The chunk of prefill `i`, `promptLen` being the prompt length of its request state. -/
def promptChunk (promptLen : Option ℕ) (logits : Option (List Row)) (cuSeqlens : List ℕ)
    (numDecodeSegments i : ℕ) (pr : PrefillRequest) :
    Except PromptLogprobsError (PromptChunk Row) :=
  match logits with
  | none => .error .noLogits
  | some rows =>
      match pr.fullPromptTokenIds with
      | none => .error (.noFullPrompt pr.reqId)
      | some fullPrompt =>
          let segStart := cuSeqlens.getD (numDecodeSegments + i) 0
          let segEnd := cuSeqlens.getD (numDecodeSegments + i + 1) 0
          if segEnd - segStart ≠ pr.tokenIds.length then
            .error (.projectedRows (segEnd - segStart) pr.tokenIds.length)
          else .ok ⟨pr.reqId, fullPrompt.take (promptLen.getD fullPrompt.length), pr.startPos,
            pr.tokenIds.length, segmentRows cuSeqlens rows (numDecodeSegments + i)⟩

/-- The loop of `_gather_prefill_prompt_logprobs` from prefill `i` on; `promptLen` looks up the
request states. -/
def gatherPrefillPromptLogprobs (wants : ReqId → Bool) (promptLen : ReqId → Option ℕ)
    (logits : Option (List Row)) (cuSeqlens : List ℕ) (numDecodeSegments : ℕ) :
    ℕ → List PrefillRequest → Except PromptLogprobsError (List (PromptChunk Row))
  | _, [] => .ok []
  | i, pr :: prefillReqs =>
      if !wants pr.reqId then
        gatherPrefillPromptLogprobs wants promptLen logits cuSeqlens numDecodeSegments (i + 1)
          prefillReqs
      else
        match promptChunk (promptLen pr.reqId) logits cuSeqlens numDecodeSegments i pr with
        | .error e => .error e
        | .ok chunk =>
            match gatherPrefillPromptLogprobs wants promptLen logits cuSeqlens numDecodeSegments
              (i + 1) prefillReqs with
            | .error e => .error e
            | .ok chunks => .ok (chunk :: chunks)

/-- Where nothing is wanted nothing is read. -/
theorem gatherPrefillPromptLogprobs_of_not_wants {wants : ReqId → Bool}
    (promptLen : ReqId → Option ℕ) (logits : Option (List Row)) (cuSeqlens : List ℕ)
    (numDecodeSegments : ℕ) {prefillReqs : List PrefillRequest}
    (h : needsPromptLogprobRows wants prefillReqs = false) (i : ℕ) :
    gatherPrefillPromptLogprobs wants promptLen logits cuSeqlens numDecodeSegments i prefillReqs =
      .ok [] := by
  induction prefillReqs generalizing i with
  | nil => rfl
  | cons pr prefillReqs ih =>
    simp only [needsPromptLogprobRows, List.any_cons, Bool.or_eq_false_iff] at h
    rw [gatherPrefillPromptLogprobs, h.1]
    exact ih h.2 (i + 1)

end Readers

/-! ### The rows of either projection -/

section Step

variable {H Row Lp : Type*} {head : H → Row} {hiddenStates : List H}
  {decodeReqs : List (ReqId × RequestState)} {prefillReqs : List PrefillRequest}
  {segments : List PagedDecodeSegment} {layout : PagedLogitsLayout}

/-- A layout under which the head's rows are those of the full projection: the decode rows where
they were, and the last row of each chunk at the end of its boundaries. -/
structure SameRows (head : H → Row) (hiddenStates : List H)
    (decodeReqs : List (ReqId × RequestState)) (prefillReqs : List PrefillRequest)
    (segments : List PagedDecodeSegment) (layout : PagedLogitsLayout) : Prop where
  boundaries_eq : ∃ projected, RowBoundaries decodeReqs prefillReqs segments projected
    layout.cuSeqlens
  length_eq : (projectLogits head hiddenStates layout.indices).length = layout.cuSeqlens.getLastD 0
  decode_row : ∀ r < (segmentLens segments).sum,
    (projectLogits head hiddenStates layout.indices)[r]? =
      (projectLogits head hiddenStates none)[r]?
  prefill_row : ∀ j < prefillReqs.length,
    (projectLogits head hiddenStates layout.indices)[
        layout.cuSeqlens.getD (decodeReqs.length + j + 1) 0 - 1]? =
      (projectLogits head hiddenStates none)[
        (packedSeqlens segments prefillReqs).getD (decodeReqs.length + j + 1) 0 - 1]?

/-- The packed boundaries of a step. -/
theorem rowBoundaries_packed {specTokens : Dict ReqId (List Token)} {seqLens : Dict ReqId ℕ}
    (hsegments : buildDecodeSegments decodeReqs specTokens seqLens = .ok segments)
    (hchunks : ∀ pr ∈ prefillReqs, 0 < pr.tokenIds.length) :
    RowBoundaries decodeReqs prefillReqs segments (chunkLens prefillReqs)
      (packedSeqlens segments prefillReqs) := by
  rw [packedSeqlens_eq]
  refine rowBoundaries_of_segments hsegments (length_chunkLens prefillReqs) ?_
  intro n hn
  obtain ⟨pr, hpr, rfl⟩ := List.mem_map.mp hn
  exact hchunks pr hpr

/-- **The layout of every step keeps the rows.** -/
theorem stepLogitsLayout_sameRows {specTokens : Dict ReqId (List Token)} {seqLens : Dict ReqId ℕ}
    (supported : Bool) (branch : ForwardBranch) (wants : ReqId → Bool)
    (hsegments : buildDecodeSegments decodeReqs specTokens seqLens = .ok segments)
    (hchunks : ∀ pr ∈ prefillReqs, 0 < pr.tokenIds.length)
    (hhidden : hiddenStates.length = (packedSeqlens segments prefillReqs).getLastD 0) :
    SameRows head hiddenStates decodeReqs prefillReqs segments
      (stepLogitsLayout supported branch wants segments prefillReqs) := by
  have hpacked := rowBoundaries_packed hsegments hchunks
  rcases stepLogitsLayout_cases supported branch wants segments prefillReqs with hall | ⟨-, hsel⟩
  -- every row is projected
  · rw [hall, ← packedSeqlens_eq]
    exact ⟨⟨_, hpacked⟩, (List.length_map head).trans hhidden, fun _ _ => rfl, fun _ _ => rfl⟩
  -- the decode rows are projected, and the last row of each chunk
  · have hselected := rowBoundaries_of_segments hsegments
      (List.length_replicate (n := prefillReqs.length) (a := 1))
      fun n hn => by rw [List.eq_of_mem_replicate hn]; exact Nat.one_pos
    have hbound : ∀ i ∈ List.range (segmentLens segments).sum ++
        (List.range prefillReqs.length).map (fun s =>
          (segmentLens segments).sum + ((chunkLens prefillReqs).take (s + 1)).sum - 1),
        i < hiddenStates.length := by
      intro i hi
      rcases List.mem_append.mp hi with hdecode | hprefill
      · rw [List.mem_range] at hdecode
        rw [hhidden, hpacked.cuSeqlens_eq, getLastD_boundaries, List.sum_append]
        omega
      · obtain ⟨j, hj, rfl⟩ := List.mem_map.mp hprefill
        rw [List.mem_range] at hj
        rw [hhidden, ← hpacked.getD_prefill hj]
        exact hpacked.row_lt (hpacked.mem_pairs_of_prefill (List.getElem?_eq_getElem hj)) (by simp)
    rw [hsel]
    refine ⟨⟨_, hselected⟩, ?_, ?_, ?_⟩
    · rw [length_projectLogits head hbound, getLastD_boundaries]
      simp
    · intro r hr
      rw [getElem?_projectLogits head hbound, List.getElem?_append_left (by simpa using hr),
        List.getElem?_range hr, Option.bind_some]
    -- the last row of a chunk stands behind all the decode rows
    · intro j hj
      have hrow : (boundaries (segmentLens segments ++
          List.replicate prefillReqs.length 1)).getD (decodeReqs.length + j + 1) 0 - 1 =
          (segmentLens segments).sum + j := by
        rw [hselected.getD_prefill hj, List.take_replicate, List.sum_replicate_nat]
        omega
      rw [getElem?_projectLogits head hbound, hrow,
        List.getElem?_append_right (by simp), List.length_range, Nat.add_sub_cancel_left,
        List.getElem?_map, List.getElem?_range hj, Option.map_some, Option.bind_some,
        hpacked.getD_prefill hj]

namespace SameRows

/-- The rows of a request hold the same logits under both projections. -/
theorem map_targets (h : SameRows head hiddenStates decodeReqs prefillReqs segments layout)
    {projected : List ℕ}
    (hlayout : RowBoundaries decodeReqs prefillReqs segments projected layout.cuSeqlens)
    (hpacked : RowBoundaries decodeReqs prefillReqs segments (chunkLens prefillReqs)
      (packedSeqlens segments prefillReqs))
    (hnodup : (decodeReqs.map Prod.fst ++ prefillReqs.map PrefillRequest.reqId).Nodup)
    (reqId : ReqId) :
    (hlayout.targets.getD reqId []).map (fun r =>
        (projectLogits head hiddenStates layout.indices)[r]?) =
      (hpacked.targets.getD reqId []).map fun r => (projectLogits head hiddenStates none)[r]? := by
  by_cases hmem : reqId ∈ decodeReqs.map Prod.fst ++ prefillReqs.map PrefillRequest.reqId
  · rcases List.mem_append.mp hmem with hdecode | hprefill
    · rw [← hpacked.segment_ids] at hdecode
      obtain ⟨segment, hsegment, rfl⟩ := List.mem_map.mp hdecode
      obtain ⟨i, hi⟩ := List.mem_iff_getElem?.mp hsegment
      rw [hlayout.getD_targets hnodup (hlayout.mem_pairs_of_segment hi),
        hpacked.getD_targets hnodup (hpacked.mem_pairs_of_segment hi)]
      apply List.map_congr_left
      intro r hr
      refine h.decode_row r ?_
      have hrow : r ∈ (decodePairs segments).flatMap Prod.snd :=
        List.mem_flatMap.mpr ⟨_, List.mem_map_of_mem hsegment, hr⟩
      rwa [hpacked.flatMap_decodePairs, List.mem_range] at hrow
    · obtain ⟨pr, hpr, rfl⟩ := List.mem_map.mp hprefill
      obtain ⟨j, hj⟩ := List.mem_iff_getElem?.mp hpr
      rw [hlayout.getD_targets hnodup (hlayout.mem_pairs_of_prefill hj),
        hpacked.getD_targets hnodup (hpacked.mem_pairs_of_prefill hj)]
      exact congrArg (fun row => [row]) (h.prefill_row j (List.getElem?_eq_some_iff.mp hj).1)
  · rw [hlayout.getD_targets_of_not_mem hmem, hpacked.getD_targets_of_not_mem hmem]
    rfl

/-- The sampler is handed the same rows. -/
theorem samplePrefillTokens_eq
    (h : SameRows head hiddenStates decodeReqs prefillReqs segments layout)
    (sampleFromLogits : List (Option Row) → List (SamplingParams × List Token × List Token) →
      List (Token × Option Lp)) :
    samplePrefillTokens sampleFromLogits (projectLogits head hiddenStates layout.indices)
        prefillReqs layout.cuSeqlens decodeReqs.length =
      samplePrefillTokens sampleFromLogits (projectLogits head hiddenStates none) prefillReqs
        (packedSeqlens segments prefillReqs) decodeReqs.length := by
  have hrows : ((prefillReqs.zipIdx.filter fun pr => pr.1.promptLen.isSome).map fun pr =>
        (projectLogits head hiddenStates layout.indices)[
          layout.cuSeqlens.getD (decodeReqs.length + pr.2 + 1) 0 - 1]?) =
      (prefillReqs.zipIdx.filter fun pr => pr.1.promptLen.isSome).map fun pr =>
        (projectLogits head hiddenStates none)[
          (packedSeqlens segments prefillReqs).getD (decodeReqs.length + pr.2 + 1) 0 - 1]? := by
    apply List.map_congr_left
    intro pr hpr
    have hj := List.mem_zipIdx_iff_getElem?.mp (List.mem_of_mem_filter hpr)
    exact h.prefill_row pr.2 (List.getElem?_eq_some_iff.mp hj).1
  simp only [samplePrefillTokens, hrows]

/-- The decode rows sample and verify the same tokens. -/
theorem decodeTokenIds_eq (h : SameRows head hiddenStates decodeReqs prefillReqs segments layout)
    (argmax : Option Row → Token) (sample : Option Row → RequestState → Token) :
    decodeTokenIds (fun r => argmax (projectLogits head hiddenStates layout.indices)[r]?)
        (fun r => sample (projectLogits head hiddenStates layout.indices)[r]?) decodeReqs segments =
      decodeTokenIds (fun r => argmax (projectLogits head hiddenStates none)[r]?)
        (fun r => sample (projectLogits head hiddenStates none)[r]?) decodeReqs segments := by
  obtain ⟨projected, hlayout⟩ := h.boundaries_eq
  have hreqs : decodeReqs.length ≤ (segmentLens segments).sum := by
    rw [← hlayout.length_segments, ← length_segmentLens]
    apply length_le_sum
    intro n hn
    obtain ⟨segment, -, rfl⟩ := List.mem_map.mp hn
    rw [segment.rows_bonus]
    exact Nat.succ_pos _
  refine decodeTokenIds_congr (fun r hr => by rw [h.decode_row r hr])
    (fun r hr => by rw [h.decode_row r hr]) ?_ hreqs
  intro segment hsegment
  have hpos := segment.rows_bonus
  have hlast : segment.startRow + segment.numQueryTokens - 1 ∈
      (decodePairs segments).flatMap Prod.snd := by
    refine List.mem_flatMap.mpr ⟨_, List.mem_map_of_mem hsegment, ?_⟩
    rw [List.mem_range'_1]
    omega
  rw [hlayout.flatMap_decodePairs, List.mem_range] at hlast
  omega

end SameRows

/-- **Selective logits read the same rows as full logits.**  The batch is any segments the step
builds, followed by any chunks; the head projects the rows of the step's layout.  Its boundaries
fit the rows that were projected, segments and chunk ends find the rows of the full projection,
chunks that want prompt logprobs find all of theirs, and so does every reader of the step. -/
theorem selective_logits_same_rows (head : H → Row) (supported : Bool) (branch : ForwardBranch)
    (wants : ReqId → Bool) {specTokens : Dict ReqId (List Token)} {seqLens : Dict ReqId ℕ}
    (hnodup : (decodeReqs.map Prod.fst ++ prefillReqs.map PrefillRequest.reqId).Nodup)
    (hsegments : buildDecodeSegments decodeReqs specTokens seqLens = .ok segments)
    (hchunks : ∀ pr ∈ prefillReqs, 0 < pr.tokenIds.length)
    (hhidden : hiddenStates.length = (packedSeqlens segments prefillReqs).getLastD 0)
    (hlayout : layout = stepLogitsLayout supported branch wants segments prefillReqs)
    {selected full : List Row}
    (hselected : selected = projectLogits head hiddenStates layout.indices)
    (hfull : full = projectLogits head hiddenStates none) :
    (layout.cuSeqlens.length = decodeReqs.length + prefillReqs.length + 1 ∧
      selected.length = layout.cuSeqlens.getLastD 0 ∧
      ∀ s < decodeReqs.length + prefillReqs.length,
        layout.cuSeqlens.getD s 0 < layout.cuSeqlens.getD (s + 1) 0) ∧
    (∀ (i : ℕ) segment, segments[i]? = some segment →
      layout.cuSeqlens.getD i 0 = segment.startRow ∧
      ∀ j < segment.numQueryTokens, segment.startRow + j < selected.length ∧
        selected[segment.startRow + j]? = full[segment.startRow + j]?) ∧
    (∀ j < prefillReqs.length,
      layout.cuSeqlens.getD (decodeReqs.length + j + 1) 0 - 1 < selected.length ∧
      selected[layout.cuSeqlens.getD (decodeReqs.length + j + 1) 0 - 1]? =
        full[(packedSeqlens segments prefillReqs).getD (decodeReqs.length + j + 1) 0 - 1]?) ∧
    (∀ (j : ℕ) pr, prefillReqs[j]? = some pr → wants pr.reqId →
      segmentRows layout.cuSeqlens selected (decodeReqs.length + j) =
        segmentRows (packedSeqlens segments prefillReqs) full (decodeReqs.length + j) ∧
      (segmentRows layout.cuSeqlens selected (decodeReqs.length + j)).length =
        pr.tokenIds.length) ∧
    (∀ (argmax : Option Row → Token) (sample : Option Row → RequestState → Token),
      decodeTokenIds (fun r => argmax selected[r]?) (fun r => sample selected[r]?) decodeReqs
          segments =
        decodeTokenIds (fun r => argmax full[r]?) (fun r => sample full[r]?) decodeReqs
          segments) ∧
    (∀ sampleFromLogits : List (Option Row) → List (SamplingParams × List Token × List Token) →
        List (Token × Option Lp),
      samplePrefillTokens sampleFromLogits selected prefillReqs layout.cuSeqlens
          decodeReqs.length =
        samplePrefillTokens sampleFromLogits full prefillReqs
          (packedSeqlens segments prefillReqs) decodeReqs.length) ∧
    (∃ targets targets', buildPagedRowTargets decodeReqs prefillReqs layout.cuSeqlens
          decodeReqs.length (some segments) = .ok targets ∧
        buildPagedRowTargets decodeReqs prefillReqs (packedSeqlens segments prefillReqs)
          decodeReqs.length (some segments) = .ok targets' ∧
        ∀ reqId, (targets.getD reqId []).map (fun r => selected[r]?) =
          (targets'.getD reqId []).map fun r => full[r]?) ∧
    ∀ promptLen, gatherPrefillPromptLogprobs wants promptLen (some selected) layout.cuSeqlens
        decodeReqs.length 0 prefillReqs =
      gatherPrefillPromptLogprobs wants promptLen (some full) (packedSeqlens segments prefillReqs)
        decodeReqs.length 0 prefillReqs := by
  subst hlayout hselected hfull
  have hsame := @stepLogitsLayout_sameRows H Row head _ _ _ _ _ _ supported branch wants hsegments
    hchunks hhidden
  have hpacked := rowBoundaries_packed hsegments hchunks
  obtain ⟨projected, hrows⟩ := hsame.boundaries_eq
  refine ⟨?_, ?_, ?_, ?_, hsame.decodeTokenIds_eq, hsame.samplePrefillTokens_eq,
    ⟨_, _, hrows.buildPagedRowTargets_ok, hpacked.buildPagedRowTargets_ok,
      hsame.map_targets hrows hpacked hnodup⟩, ?_⟩
  -- the boundaries of the layout
  · exact ⟨hrows.length_cuSeqlens, hsame.length_eq, fun s hs => hrows.getD_lt_succ hs⟩
  · intro i segment hi
    have hpair := hrows.mem_pairs_of_segment hi
    refine ⟨(hrows.startRow_eq hi).symm, fun j hj => ?_⟩
    -- a decode segment's rows
    have hrow : segment.startRow + j ∈ List.range' segment.startRow segment.numQueryTokens := by
      rw [List.mem_range'_1]
      omega
    refine ⟨hsame.length_eq ▸ hrows.row_lt hpair hrow, hsame.decode_row _ ?_⟩
    have hmem : segment.startRow + j ∈ (decodePairs segments).flatMap Prod.snd :=
      List.mem_flatMap.mpr ⟨_, List.mem_map_of_mem (List.mem_of_getElem? hi), hrow⟩
    rwa [hrows.flatMap_decodePairs, List.mem_range] at hmem
  · intro j hj
    refine ⟨?_, hsame.prefill_row j hj⟩
    rw [hsame.length_eq]
    exact hrows.row_lt (hrows.mem_pairs_of_prefill (List.getElem?_eq_getElem hj)) (by simp)
  -- prompt logprobs: the layout keeps every row of every chunk
  · intro j pr hj hwants
    have hneeds : needsPromptLogprobRows wants prefillReqs = true :=
      List.any_eq_true.mpr ⟨pr, List.mem_of_getElem? hj, hwants⟩
    rw [stepLogitsLayout_of_needs supported branch segments hneeds]
    refine ⟨rfl, ?_⟩
    have hlen : (segmentLens segments ++ chunkLens prefillReqs)[decodeReqs.length + j]? =
        some pr.tokenIds.length := by
      rw [← hrows.length_segments, ← length_segmentLens, List.getElem?_append_right (by omega),
        Nat.add_sub_cancel_left, chunkLens, List.getElem?_map, hj, Option.map_some]
    simp only [packedSeqlens_eq]
    apply length_segmentRows hlen
    rw [projectLogits, List.length_map, hhidden, packedSeqlens_eq, getLastD_boundaries]
  · intro promptLen
    -- without such a request they are not gathered at all
    cases hneeds : needsPromptLogprobRows wants prefillReqs with
    | true => rw [stepLogitsLayout_of_needs supported branch segments hneeds]
    | false =>
      rw [gatherPrefillPromptLogprobs_of_not_wants _ _ _ _ hneeds,
        gatherPrefillPromptLogprobs_of_not_wants _ _ _ _ hneeds]

end Step

private def draftedState : RequestState :=
  ⟨[7, 8], 1, .greedy, 1, [[0]], none, 0⟩

private def longChunk : PrefillRequest := ⟨3, [9, 10, 11], .greedy, some 3, 0, some [9, 10, 11]⟩

/-- A verify window of two rows, and a chunk of three of which the head projects the last. -/
theorem selective_logits_verify_and_chunk :
    (stepLogitsLayout true .text (fun _ => false) [segmentOf ∅ 0 1 draftedState [5]]
        [longChunk]).indices = some [0, 1, 4] ∧
      ∀ sampleFromLogits : List (Option ℕ) → List (SamplingParams × List Token × List Token) →
          List (Token × Option ℕ),
        samplePrefillTokens sampleFromLogits [10, 11, 14] [longChunk] [0, 2, 3] 1 =
          samplePrefillTokens sampleFromLogits [10, 11, 12, 13, 14] [longChunk] [0, 2, 5] 1 := by
  obtain ⟨-, -, -, -, -, hsample, -, -⟩ :=
    @selective_logits_same_rows ℕ ℕ ℕ [10, 11, 12, 13, 14] [(1, draftedState)] [longChunk]
      [segmentOf ∅ 0 1 draftedState [5]] ⟨some [0, 1, 4], [0, 2, 3]⟩ id true .text
      (fun _ => false) ((∅ : Dict ReqId (List Token)).set 1 [5]) ∅ (by decide) rfl (by decide) rfl
      (by decide) [10, 11, 14] [10, 11, 12, 13, 14] rfl rfl
  exact ⟨by decide, hsample⟩

end Logits
end VllmMetal
