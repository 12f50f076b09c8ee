import VllmMetal.SpecDecode.Verify
import VllmMetal.Lib.Autoregressive
import VllmMetal.Lib.Run
import Mathlib.Data.List.GetD

/-!
# Greedy speculative decoding is lossless

The target is any function from a token prefix to its next token.  Its paged cache is, for
each request, the token whose forward last wrote each position, so a row's logits depend on
the tokens the cells up to its own position hold.  A step verifies the drafts the scheduler
chose for any of the requests of the batch; what it appends is what plain one-token greedy
decoding would have appended, whatever the drafts were.

## Main definitions

* `Decoder`, `decodeStep` — the runner's state for decoding, and one step of it.
* `DecodeStep` — steps and admissions in any order.
* `CleanReads` — every row reads the committed tokens and its own drafts.

## Main results

* `acceptDrafts_follows` — the committed tokens are the target's own.
* `Tracks.step` — the step lemma.
* `speculative_decoding_lossless` — **runs append exactly the greedy continuation.**
-/

namespace VllmMetal
namespace SpecDecode

/-! ### The step -/

/-- The runner's state for decoding: request states, tracked lengths and, for each request,
the token whose forward last wrote each position. -/
structure Decoder where
  states : Dict ReqId RequestState
  seqLens : Dict ReqId ℕ
  kv : ReqId → ℕ → Token

/-- No request. -/
def Decoder.empty (kv : ReqId → ℕ → Token) : Decoder := ⟨∅, ∅, kv⟩

/-- The cells after a segment's rows wrote theirs. -/
def writeSpan (kv : ReqId → ℕ → Token) (segment : PagedDecodeSegment) : ReqId → ℕ → Token :=
  fun id p =>
    if id = segment.reqId ∧ segment.cacheStartPos ≤ p ∧
        p < segment.cacheStartPos + segment.numQueryTokens then
      segment.inputTokenIds.getD (p - segment.cacheStartPos) 0
    else kv id p

/-- The tokens that row `k` of a segment reads: those of the cells up to its position. -/
def rowReads (kv : ReqId → ℕ → Token) (segment : PagedDecodeSegment) (k : ℕ) : List Token :=
  (List.range (segment.cacheStartPos + k + 1)).map (kv segment.reqId)

/-- The argmax tokens of a segment's rows. -/
def segmentRows (f : List Token → Token) (kv : ReqId → ℕ → Token)
    (segment : PagedDecodeSegment) : List Token :=
  (List.range segment.numQueryTokens).map fun k => f (rowReads kv segment k)

/-- The forward over the packed spans: all rows write their cells, then the attention reads. -/
def spanForward (f : List Token → Token) (kv : ReqId → ℕ → Token)
    (segments : List PagedDecodeSegment) : (ReqId → ℕ → Token) × List Token :=
  let kv := segments.foldl writeSpan kv
  (kv, segments.flatMap (segmentRows f kv))

/-- The decode requests of the step, as `_collect_cached_requests` hands them over. -/
def decodeReqs (states : Dict ReqId RequestState) (batch : List ReqId) :
    List (ReqId × RequestState) :=
  batch.filterMap fun id => (states.get? id).map fun state => (id, state)

/-- The decode-state update of `_sample_paged_batch`, for one request. -/
def updateDecode (d : Decoder) (item : (ReqId × RequestState) × List Token) : Decoder :=
  let state := item.1.2.extend item.2
  { d with
    states := d.states.set item.1.1 state
    seqLens := advanceSeqLen d.seqLens item.1.1 state item.2.length }

/-- A decode step: segments, forward, verification, state update.  Returns the tokens it
appended, request by request. -/
def decodeStep (f : List Token → Token) (d : Decoder) (batch : List ReqId)
    (drafts : Dict ReqId (List Token)) : Except SpecDecodeError (Decoder × List (List Token)) :=
  let reqs := decodeReqs d.states batch
  match buildDecodeSegments reqs drafts d.seqLens with
  | .error e => .error e
  | .ok segments =>
      let (kv, rows) := spanForward f d.kv segments
      match decodeTokenIds (rows.getD · 0) (fun i _ => rows.getD i 0) reqs segments with
      | .error e => .error e
      | .ok sampled => .ok ((reqs.zip sampled).foldl updateDecode { d with kv := kv }, sampled)

/-- Admission: the prefill wrote the prompt's cells and sampled the first token. -/
def admitRequest (f : List Token → Token) (d : Decoder) (id : ReqId) (prompt : List Token)
    (params : SamplingParams) : Decoder where
  states := d.states.set id
    { tokenIds := prompt ++ [f prompt], promptLen := prompt.length, samplingParams := params,
      generatedTokens := 1, blockIds := [], mropePositionDelta := none, numComputedTokens := 0 }
  seqLens := d.seqLens.set id prompt.length
  kv := fun i p => if i = id ∧ p < prompt.length then prompt.getD p 0 else d.kv i p

/-- What the scheduler may hand over: requests the runner knows, each once, with drafts for
some of them that are token ids. -/
structure ValidHandoff (d : Decoder) (batch : List ReqId) (drafts : Dict ReqId (List Token)) :
    Prop where
  nodup : batch.Nodup
  known : ∀ id ∈ batch, (d.states.get? id).isSome
  keys : ∀ id, (drafts.get? id).isSome → id ∈ batch
  nonneg : ∀ id, ∀ t ∈ drafts.getD id [], 0 ≤ t

/-- An admission, or a step with the tokens it appended. -/
inductive DecodeEvent where
  | admission (id : ReqId) (prompt : List Token) (params : SamplingParams)
  | step (batch : List ReqId) (drafts : Dict ReqId (List Token)) (sampled : List (List Token))

/-- Steps over any batch with any drafts, and admissions of greedy requests, in any order. -/
inductive DecodeStep (f : List Token → Token) : Decoder → DecodeEvent → Decoder → Prop
  | admission {d : Decoder} {id : ReqId} {prompt : List Token} {params : SamplingParams} :
      d.states.get? id = none → prompt ≠ [] → params.greedySampling 1 = true →
      DecodeStep f d (.admission id prompt params) (admitRequest f d id prompt params)
  | step {d d' : Decoder} {batch : List ReqId} {drafts : Dict ReqId (List Token)}
      {sampled : List (List Token)} : ValidHandoff d batch drafts →
      decodeStep f d batch drafts = .ok (d', sampled) →
      DecodeStep f d (.step batch drafts sampled) d'

/-- The prompt a request was admitted with. -/
def admittedPrompt (id : ReqId) : List DecodeEvent → Option (List Token)
  | [] => none
  | .admission i prompt _ :: evs => if i = id then some prompt else admittedPrompt id evs
  | .step _ _ _ :: evs => admittedPrompt id evs

/-- The tokens a step appended to a request. -/
def stepAppended (id : ReqId) (batch : List ReqId) (sampled : List (List Token)) : List Token :=
  ((batch.zip sampled).filter fun row => decide (row.1 = id)).flatMap Prod.snd

/-- The tokens all steps appended to a request. -/
def appended (id : ReqId) : List DecodeEvent → List Token
  | [] => []
  | .admission _ _ _ :: evs => appended id evs
  | .step batch _ sampled :: evs => stepAppended id batch sampled ++ appended id evs

/-! ### Acceptance -/

/-- The target's rows over `drafts` behind the tokens `l`. -/
def targetRows (f : List Token → Token) (l : List Token) : List Token → List Token
  | [] => [f l]
  | draft :: drafts => f l :: targetRows f (l ++ [draft]) drafts

theorem map_range_eq_targetRows (f : List Token → Token) (l drafts : List Token) :
    ((List.range (drafts.length + 1)).map fun k => f (l ++ drafts.take k)) =
      targetRows f l drafts := by
  induction drafts generalizing l with
  | nil => simp [targetRows]
  | cons draft drafts ih =>
    rw [List.length_cons, List.range_succ_eq_map, List.map_cons, List.map_map, targetRows, ← ih]
    simp [Function.comp_def]

/-- **The committed tokens are the target's own**, and all but the last are drafts. -/
theorem acceptDrafts_follows (f : List Token → Token) (l drafts : List Token) :
    Follows f l (acceptDrafts (targetRows f l drafts) drafts) ∧
      (acceptDrafts (targetRows f l drafts) drafts).dropLast <+: drafts := by
  induction drafts generalizing l with
  | nil => exact ⟨⟨rfl, trivial⟩, by simp [targetRows, acceptDrafts]⟩
  | cons draft drafts ih =>
    rw [targetRows, acceptDrafts]
    split
    · next hdraft =>
      obtain ⟨hfollows, hdrop⟩ := ih (l ++ [draft])
      refine ⟨⟨hdraft.symm, hfollows⟩, ?_⟩
      have hne : acceptDrafts (targetRows f (l ++ [draft]) drafts) drafts ≠ [] := by
        have hlen := (acceptDrafts_length (targetRows f (l ++ [draft]) drafts) drafts
          (by rw [← map_range_eq_targetRows]; simp)).1
        exact List.ne_nil_of_length_pos hlen
      rw [List.dropLast_cons_of_ne_nil hne]
      exact List.cons_prefix_cons.mpr ⟨rfl, hdrop⟩
    · exact ⟨⟨rfl, trivial⟩, List.nil_prefix⟩

/-! ### The forward -/

/-- The spans write the cells of their own requests. -/
theorem foldl_writeSpan {segments : List PagedDecodeSegment}
    (hnd : (segments.map PagedDecodeSegment.reqId).Nodup) (kv : ReqId → ℕ → Token) :
    (∀ id, id ∉ segments.map PagedDecodeSegment.reqId → segments.foldl writeSpan kv id = kv id) ∧
    ∀ segment ∈ segments,
      segments.foldl writeSpan kv segment.reqId = writeSpan kv segment segment.reqId := by
  have hother : ∀ (kv : ReqId → ℕ → Token) (segment : PagedDecodeSegment) (id : ReqId),
      id ≠ segment.reqId → writeSpan kv segment id = kv id := by
    intro kv segment id hid
    funext p
    rw [writeSpan, if_neg fun h => hid h.1]
  induction segments generalizing kv with
  | nil => exact ⟨fun id _ => rfl, fun segment h => absurd h (by simp)⟩
  | cons head segments ih =>
    rw [List.map_cons, List.nodup_cons] at hnd
    obtain ⟨hframe, hwritten⟩ := ih hnd.2 (writeSpan kv head)
    refine ⟨fun id hid => ?_, fun segment hsegment => ?_⟩
    · rw [List.map_cons, List.mem_cons, not_or] at hid
      rw [List.foldl_cons, hframe id hid.2, hother kv head id hid.1]
    · rw [List.foldl_cons]
      rcases List.mem_cons.mp hsegment with rfl | hmem
      · exact hframe segment.reqId hnd.1
      · rw [hwritten segment hmem]
        funext p
        have hne : segment.reqId ≠ head.reqId := fun h =>
          hnd.1 (h ▸ List.mem_map_of_mem hmem)
        simp only [writeSpan, hne, false_and, if_false]

/-- A segment's rows in the packed forward start at its `start_row`. -/
theorem getD_packedRows {specTokens : Dict ReqId (List Token)} {seqLens : Dict ReqId ℕ}
    (R : PagedDecodeSegment → List Token) (hR : ∀ segment, (R segment).length =
      segment.numQueryTokens) {reqs : List (ReqId × RequestState)} {startRow : ℕ}
    {segment : PagedDecodeSegment} (h : segment ∈ segmentList specTokens seqLens startRow reqs) :
    startRow ≤ segment.startRow ∧ ∀ k, k < segment.numQueryTokens →
      ((segmentList specTokens seqLens startRow reqs).flatMap R).getD
        (segment.startRow - startRow + k) 0 = (R segment).getD k 0 := by
  induction reqs generalizing startRow with
  | nil => simp [segmentList] at h
  | cons req reqs ih =>
    simp only [segmentList, List.mem_cons] at h
    simp only [segmentList, List.flatMap_cons]
    set drafts := specTokens.getD req.1 [] with hdrafts
    have hhead : (R (segmentOf seqLens startRow req.1 req.2 drafts)).length = drafts.length + 1 :=
      hR _
    rcases h with rfl | h
    · refine ⟨le_rfl, fun k hk => ?_⟩
      rw [List.getD_append _ _ _ _ (by rw [hhead]; simpa [segmentOf] using hk)]
      simp [segmentOf]
    · obtain ⟨hle, hrows⟩ := ih h
      refine ⟨by omega, fun k hk => ?_⟩
      rw [List.getD_append_right _ _ _ _ (by omega), hhead, ← hrows k hk]
      congr 1
      omega

@[simp] theorem length_segmentRows (f : List Token → Token) (kv : ReqId → ℕ → Token)
    (segment : PagedDecodeSegment) :
    (segmentRows f kv segment).length = segment.numQueryTokens := by
  simp [segmentRows]

/-- A segment's verified tokens, from its own rows. -/
theorem verifiedRow_packed {specTokens : Dict ReqId (List Token)} {seqLens : Dict ReqId ℕ}
    {reqs : List (ReqId × RequestState)} (R : PagedDecodeSegment → List Token)
    (hR : ∀ segment, (R segment).length = segment.numQueryTokens) {segment : PagedDecodeSegment}
    (h : segment ∈ segmentList specTokens seqLens 0 reqs) :
    verifiedRow (((segmentList specTokens seqLens 0 reqs).flatMap R).getD · 0) segment =
      acceptDrafts (R segment) segment.draftTokenIds := by
  have hrows : ((List.range segment.numQueryTokens).map fun k =>
      ((segmentList specTokens seqLens 0 reqs).flatMap R).getD (segment.startRow + k) 0) =
      R segment := by
    apply List.ext_getElem (by simp [hR])
    intro k hk hk'
    have := (getD_packedRows R hR h).2 k (by rwa [hR] at hk')
    rw [Nat.sub_zero, List.getD_eq_getElem _ _ hk'] at this
    rw [List.getElem_map, List.getElem_range, this]
  rw [verifiedRow, hrows]

/-! ### The invariant -/

/-- A request behind its prompt: it holds the tokens `out` the target chose, and every cell
below its last token holds the committed token. -/
structure Tracks (f : List Token → Token) (d : Decoder) (id : ReqId) (state : RequestState)
    (prompt out : List Token) : Prop where
  tokens : state.tokenIds = prompt ++ out
  out_ne : out ≠ []
  follows : Follows f prompt out
  generated : state.generatedTokens = out.length
  greedy : state.samplingParams.greedySampling 1 = true
  seqLen : d.seqLens.getD id (state.tokenIds.length - 1) = state.tokenIds.length - 1
  cells : ∀ p, p + 1 < state.tokenIds.length → d.kv id p = state.tokenIds.getD p 0

section Tracks

variable {f : List Token → Token} {d : Decoder} {id : ReqId} {state : RequestState}
  {prompt out : List Token}

theorem Tracks.length_pos (h : Tracks f d id state prompt out) : 0 < state.tokenIds.length := by
  rw [h.tokens, List.length_append]
  have := List.length_pos_iff.mpr h.out_ne
  omega

theorem Tracks.greedySampling (h : Tracks f d id state prompt out) :
    state.samplingParams.greedySampling state.generatedTokens = true := by
  have hgreedy := h.greedy
  have hpos := List.length_pos_iff.mpr h.out_ne
  simp only [SamplingParams.greedySampling, Bool.and_eq_true, decide_eq_true_eq] at hgreedy ⊢
  refine ⟨hgreedy.1, ?_⟩
  rw [h.generated]
  omega

/-- The cells behind a written span: the committed tokens, then the drafts. -/
theorem Tracks.written (h : Tracks f d id state prompt out) (row p : ℕ) (drafts : List Token)
    (hp : p < state.tokenIds.length + drafts.length) :
    writeSpan d.kv (segmentOf d.seqLens row id state drafts) id p =
      (state.tokenIds ++ drafts).getD p 0 := by
  have hpos := h.length_pos
  have hstart : (segmentOf d.seqLens row id state drafts).cacheStartPos =
    state.tokenIds.length - 1 := h.seqLen
  have hinput : (segmentOf d.seqLens row id state drafts).inputTokenIds =
    state.tokenIds.getLastD 0 :: drafts := rfl
  have hnum : (segmentOf d.seqLens row id state drafts).numQueryTokens = drafts.length + 1 := rfl
  rw [writeSpan, hstart, hinput, hnum]
  rcases Nat.lt_or_ge (p + 1) state.tokenIds.length with hlt | hge
  · rw [if_neg (by omega), h.cells p hlt, List.getD_append _ _ _ _ (by omega)]
  · rw [if_pos ⟨rfl, by omega, by omega⟩]
    rcases Nat.eq_or_lt_of_le hge with heq | hgt
    · rw [show p - (state.tokenIds.length - 1) = 0 by omega, List.getD_cons_zero,
        List.getD_append _ _ _ _ (by omega), List.getLastD_eq_getLast?,
        List.getLast?_eq_getElem?, List.getD_eq_getElem?_getD,
        show state.tokenIds.length - 1 = p by omega]
    · rw [show p - (state.tokenIds.length - 1) = p - state.tokenIds.length + 1 by omega,
        List.getD_cons_succ, List.getD_append_right _ _ _ _ (by omega)]

/-- **Every row reads the committed tokens and the drafts before it.** -/
theorem Tracks.rowReads (h : Tracks f d id state prompt out) (row k : ℕ) (drafts : List Token)
    (hk : k ≤ drafts.length) {kv : ReqId → ℕ → Token}
    (hkv : kv id = writeSpan d.kv (segmentOf d.seqLens row id state drafts) id) :
    rowReads kv (segmentOf d.seqLens row id state drafts) k =
      state.tokenIds ++ drafts.take k := by
  have hpos := h.length_pos
  have hstart : (segmentOf d.seqLens row id state drafts).cacheStartPos =
    state.tokenIds.length - 1 := h.seqLen
  rw [SpecDecode.rowReads, hstart,
    show state.tokenIds.length - 1 + k + 1 = state.tokenIds.length + k by omega]
  have htake : state.tokenIds ++ drafts.take k =
      (state.tokenIds ++ drafts).take (state.tokenIds.length + k) := by
    rw [List.take_append, Nat.add_sub_cancel_left,
      List.take_of_length_le (Nat.le_add_right state.tokenIds.length k)]
  rw [htake]
  apply List.ext_getElem (by simp; omega)
  intro p hp hp'
  rw [List.length_map, List.length_range] at hp
  have hreq : (segmentOf d.seqLens row id state drafts).reqId = id := rfl
  rw [List.getElem_map, List.getElem_range, hreq, hkv, h.written row p drafts (by omega),
    List.getD_eq_getElem _ _ (by simp; omega), List.getElem_take]

end Tracks

/-! ### One step -/

/-- The tokens a request of the step commits. -/
def committed (f : List Token → Token) (drafts : Dict ReqId (List Token))
    (req : ReqId × RequestState) : List Token :=
  acceptDrafts (targetRows f req.2.tokenIds (drafts.getD req.1 [])) (drafts.getD req.1 [])

theorem committed_length (f : List Token → Token) (drafts : Dict ReqId (List Token))
    (req : ReqId × RequestState) : 1 ≤ (committed f drafts req).length ∧
      (committed f drafts req).length ≤ (drafts.getD req.1 []).length + 1 :=
  acceptDrafts_length _ _ (by rw [← map_range_eq_targetRows]; simp)

theorem mem_decodeReqs {states : Dict ReqId RequestState} {batch : List ReqId} {id : ReqId}
    {state : RequestState} :
    (id, state) ∈ decodeReqs states batch ↔ id ∈ batch ∧ states.get? id = some state := by
  simp only [decodeReqs, List.mem_filterMap, Option.map_eq_some_iff, Prod.mk.injEq]
  constructor
  · rintro ⟨i, hi, s, hs, rfl, rfl⟩
    exact ⟨hi, hs⟩
  · rintro ⟨hid, hstate⟩
    exact ⟨id, hid, state, hstate, rfl, rfl⟩

theorem map_fst_decodeReqs {states : Dict ReqId RequestState} {batch : List ReqId}
    (h : ∀ id ∈ batch, (states.get? id).isSome) :
    (decodeReqs states batch).map Prod.fst = batch := by
  induction batch with
  | nil => rfl
  | cons id batch ih =>
    obtain ⟨state, hstate⟩ := Option.isSome_iff_exists.mp (h id List.mem_cons_self)
    have hrest := ih fun i hi => h i (List.mem_cons_of_mem _ hi)
    rw [decodeReqs] at hrest ⊢
    simp [hstate, hrest]

theorem map_reqId_segmentList (specTokens : Dict ReqId (List Token)) (seqLens : Dict ReqId ℕ)
    (startRow : ℕ) (reqs : List (ReqId × RequestState)) :
    (segmentList specTokens seqLens startRow reqs).map PagedDecodeSegment.reqId =
      reqs.map Prod.fst := by
  induction reqs generalizing startRow with
  | nil => rfl
  | cons req reqs ih => simp [segmentList, ih, segmentOf]

section Step

variable {f : List Token → Token} {d : Decoder} {batch : List ReqId}
  {drafts : Dict ReqId (List Token)}

/-- The segments of a step with a valid handoff. -/
def stepSegments (d : Decoder) (batch : List ReqId) (drafts : Dict ReqId (List Token)) :
    List PagedDecodeSegment :=
  segmentList drafts d.seqLens 0 (decodeReqs d.states batch)

/-- Every row of the step reads the committed tokens and its own drafts, and below the span
the cells held the committed tokens already. -/
def CleanReads (d : Decoder) (segments : List PagedDecodeSegment) : Prop :=
  ∀ segment ∈ segments, ∃ state, d.states.get? segment.reqId = some state ∧
    segment.cacheStartPos + 1 = state.tokenIds.length ∧
    (∀ p, p < segment.cacheStartPos → d.kv segment.reqId p = state.tokenIds.getD p 0) ∧
    ∀ k, k < segment.numQueryTokens → rowReads (segments.foldl writeSpan d.kv) segment k =
      state.tokenIds ++ segment.draftTokenIds.take k

/-- Every request the decoder knows is behind some prompt. -/
def Tracked (f : List Token → Token) (d : Decoder) : Prop :=
  ∀ id state, d.states.get? id = some state → ∃ prompt out, Tracks f d id state prompt out

theorem segment_of_mem (hvalid : ValidHandoff d batch drafts) {segment : PagedDecodeSegment}
    (h : segment ∈ stepSegments d batch drafts) : ∃ id state row, id ∈ batch ∧
      d.states.get? id = some state ∧
      segment = segmentOf d.seqLens row id state (drafts.getD id []) ∧
      (stepSegments d batch drafts).foldl writeSpan d.kv id = writeSpan d.kv segment id := by
  have hzip : segment ∈ ((decodeReqs d.states batch).zip (stepSegments d batch drafts)).map
      Prod.snd := by
    rwa [List.map_snd_zip (by simp [stepSegments])]
  obtain ⟨item, hitem, rfl⟩ := List.mem_map.mp hzip
  obtain ⟨hreq, row, hrow⟩ := mem_zip_segmentList hitem
  obtain ⟨⟨id, state⟩, segment⟩ := item
  obtain ⟨hid, hstate⟩ := mem_decodeReqs.mp hreq
  have hreqId : segment.reqId = id := by rw [show segment = _ from hrow]; rfl
  have hnd : ((stepSegments d batch drafts).map PagedDecodeSegment.reqId).Nodup := by
    rw [stepSegments, map_reqId_segmentList, map_fst_decodeReqs hvalid.known]
    exact hvalid.nodup
  have hkv := (foldl_writeSpan hnd d.kv).2 segment h
  rw [hreqId] at hkv
  exact ⟨id, state, row, hid, hstate, hrow, hkv⟩

/-- **The reads of a step are clean.** -/
theorem cleanReads_step (htracked : Tracked f d) (hvalid : ValidHandoff d batch drafts) :
    CleanReads d (stepSegments d batch drafts) := by
  intro segment hsegment
  obtain ⟨id, state, row, -, hstate, rfl, hkv⟩ := segment_of_mem hvalid hsegment
  obtain ⟨prompt, out, htracks⟩ := htracked id state hstate
  have hpos := htracks.length_pos
  have hstart : (segmentOf d.seqLens row id state (drafts.getD id [])).cacheStartPos =
    state.tokenIds.length - 1 := htracks.seqLen
  refine ⟨state, hstate, by rw [hstart]; omega, fun p hp => ?_, fun k hk => ?_⟩
  · exact htracks.cells p (by rw [hstart] at hp; omega)
  · exact htracks.rowReads row k _ (Nat.lt_succ_iff.mp hk) hkv

/-- **What a step appends**: the committed tokens of each request. -/
theorem decodeStep_ok (htracked : Tracked f d) (hvalid : ValidHandoff d batch drafts) :
    decodeStep f d batch drafts =
      .ok (((decodeReqs d.states batch).map fun req => (req, committed f drafts req)).foldl
          updateDecode { d with kv := (stepSegments d batch drafts).foldl writeSpan d.kv },
        (decodeReqs d.states batch).map (committed f drafts)) := by
  have hkeys : ∀ id, (drafts.get? id).isSome → id ∈ (decodeReqs d.states batch).map Prod.fst := by
    rw [map_fst_decodeReqs hvalid.known]
    exact hvalid.keys
  have hgreedy : ∀ req ∈ decodeReqs d.states batch, drafts.getD req.1 [] ≠ [] →
      req.2.samplingParams.greedySampling req.2.generatedTokens = true := by
    rintro ⟨id, state⟩ hreq -
    obtain ⟨-, hstate⟩ := mem_decodeReqs.mp hreq
    obtain ⟨prompt, out, htracks⟩ := htracked id state hstate
    exact htracks.greedySampling
  unfold decodeStep
  simp only [buildDecodeSegments_ok hkeys hvalid.nonneg, spanForward]
  rw [show segmentList drafts d.seqLens 0 (decodeReqs d.states batch) =
    stepSegments d batch drafts from rfl]
  set kv := (stepSegments d batch drafts).foldl writeSpan d.kv with hkvDef
  have hrow : ∀ item ∈ (decodeReqs d.states batch).zip (stepSegments d batch drafts),
      acceptDrafts (segmentRows f kv item.2) item.2.draftTokenIds = committed f drafts item.1 := by
    rintro ⟨⟨id, state⟩, segment⟩ hitem
    obtain ⟨hreq, row, hrow⟩ := mem_zip_segmentList hitem
    obtain ⟨-, hstate⟩ := mem_decodeReqs.mp hreq
    obtain ⟨prompt, out, htracks⟩ := htracked id state hstate
    obtain ⟨id', state', row', -, hstate', hsegment, hkv⟩ :=
      segment_of_mem hvalid (List.of_mem_zip hitem).2
    have hid : id' = id := by
      have := congrArg PagedDecodeSegment.reqId (hsegment.symm.trans hrow)
      exact this
    subst hid
    rw [hstate] at hstate'
    obtain rfl := Option.some.inj hstate'
    have hlen : segment.numQueryTokens = (drafts.getD id' []).length + 1 := by
      rw [hsegment]; rfl
    have hdrafts : segment.draftTokenIds = drafts.getD id' [] := by rw [hsegment]; rfl
    simp only [hdrafts, committed]
    rw [← map_range_eq_targetRows, segmentRows, hlen]
    congr 1
    apply List.map_congr_left
    intro k hk
    rw [List.mem_range] at hk
    rw [hsegment] at hkv ⊢
    rw [htracks.rowReads row' k _ (by omega) hkv]
  have hsampled : ((decodeReqs d.states batch).zip (stepSegments d batch drafts)).map
      (fun item => if item.2.draftTokenIds = [] then
        [((stepSegments d batch drafts).flatMap (segmentRows f kv)).getD item.2.startRow 0]
        else verifiedRow (((stepSegments d batch drafts).flatMap (segmentRows f kv)).getD · 0)
          item.2) = (decodeReqs d.states batch).map (committed f drafts) := by
    have hfst : (decodeReqs d.states batch).map (committed f drafts) =
        ((decodeReqs d.states batch).zip (stepSegments d batch drafts)).map
          fun item => committed f drafts item.1 := by
      rw [← Function.comp_def (committed f drafts) Prod.fst, ← List.map_map,
        List.map_fst_zip (by simp [stepSegments])]
    rw [hfst]
    apply List.map_congr_left
    intro item hitem
    rw [← hrow item hitem, ← verifiedRow_packed (segmentRows f kv) (length_segmentRows f kv)
      (List.of_mem_zip hitem).2]
    split
    · next hnil =>
      -- a plain row is a span without drafts
      have hnum := item.2.rows_bonus
      rw [hnil] at hnum
      rw [verifiedRow, hnil, hnum]
      rfl
    · rfl
  have hdecode := decodeTokenIds_ok
    (((stepSegments d batch drafts).flatMap (segmentRows f kv)).getD · 0)
    (fun i _ => ((stepSegments d batch drafts).flatMap (segmentRows f kv)).getD i 0)
    d.seqLens hgreedy
  rw [show segmentList drafts d.seqLens 0 (decodeReqs d.states batch) =
    stepSegments d batch drafts from rfl, hsampled] at hdecode
  have hpairs : (decodeReqs d.states batch).zip ((decodeReqs d.states batch).map
      (committed f drafts)) =
      (decodeReqs d.states batch).map fun req => (req, committed f drafts req) := by
    have h := List.zip_map' (f := id) (g := committed f drafts) (l := decodeReqs d.states batch)
    rwa [List.map_id] at h
  simp only [hdecode, hpairs]

/-! ### The update -/

/-- The state update touches the requests of the step, each by its own tokens. -/
theorem foldl_updateDecode (items : List ((ReqId × RequestState) × List Token))
    (hnd : (items.map fun item => item.1.1).Nodup) (d : Decoder) :
    (∀ id, id ∉ items.map (fun item => item.1.1) →
      (items.foldl updateDecode d).states.get? id = d.states.get? id ∧
      (items.foldl updateDecode d).seqLens.get? id = d.seqLens.get? id) ∧
    (∀ item ∈ items,
      (items.foldl updateDecode d).states.get? item.1.1 = some (item.1.2.extend item.2) ∧
      (items.foldl updateDecode d).seqLens.get? item.1.1 =
        some (d.seqLens.getD item.1.1 (item.1.2.tokenIds.length - 1) + item.2.length)) ∧
    (items.foldl updateDecode d).kv = d.kv := by
  -- induction on the requests, with the decoder free
  induction items generalizing d with
  | nil => exact ⟨fun id _ => ⟨rfl, rfl⟩, fun item h => absurd h (by simp), rfl⟩
  | cons head items ih =>
    rw [List.map_cons, List.nodup_cons] at hnd
    obtain ⟨hframe, hupdated, hkv⟩ := ih hnd.2 (updateDecode d head)
    rw [List.foldl_cons]
    have hother : ∀ id, id ≠ head.1.1 →
        (updateDecode d head).states.get? id = d.states.get? id ∧
        (updateDecode d head).seqLens.get? id = d.seqLens.get? id := by
      intro id hid
      simp [updateDecode, get?_advanceSeqLen, hid]
    refine ⟨fun id hid => ?_, fun item hitem => ?_, hkv.trans rfl⟩
    · rw [List.map_cons, List.mem_cons, not_or] at hid
      exact ⟨(hframe id hid.2).1.trans (hother id hid.1).1,
        (hframe id hid.2).2.trans (hother id hid.1).2⟩
    -- the first request is updated here and never again
    · rcases List.mem_cons.mp hitem with rfl | hmem
      · rw [(hframe _ hnd.1).1, (hframe _ hnd.1).2]
        simp [updateDecode, get?_advanceSeqLen]
      · have hne : item.1.1 ≠ head.1.1 := fun h => hnd.1 (h ▸ List.mem_map_of_mem hmem)
        obtain ⟨hstate, hlen⟩ := hupdated item hmem
        refine ⟨hstate, ?_⟩
        rw [hlen]
        simp only [Dict.getD, (hother item.1.1 hne).2]

/-- A step moves a request of the batch on by the tokens it commits. -/
theorem Tracks.step {id : ReqId} {state : RequestState} {prompt out ids drafts : List Token}
    {d' : Decoder} (h : Tracks f d id state prompt out) (hids : ids = acceptDrafts
      (targetRows f state.tokenIds drafts) drafts) (row : ℕ)
    (hkv : d'.kv id = writeSpan d.kv (segmentOf d.seqLens row id state drafts) id)
    (hlen : d'.seqLens.get? id =
      some (d.seqLens.getD id (state.tokenIds.length - 1) + ids.length)) :
    Tracks f d' id (state.extend ids) prompt (out ++ ids) := by
  have hpos := h.length_pos
  obtain ⟨hfollows, hdrop⟩ := acceptDrafts_follows f state.tokenIds drafts
  obtain ⟨hone, hbound⟩ := acceptDrafts_length (targetRows f state.tokenIds drafts) drafts
    (by rw [← map_range_eq_targetRows]; simp)
  rw [← hids] at hfollows hdrop hone hbound
  refine ⟨?_, ?_, ?_, ?_, h.greedy, ?_, fun p hp => ?_⟩
  · rw [RequestState.extend_tokenIds, h.tokens, List.append_assoc]
  · simp [h.out_ne]
  · rw [h.tokens] at hfollows
    exact h.follows.append hfollows
  · rw [RequestState.extend_generatedTokens, h.generated, List.length_append]
    push_cast
    rfl
  · rw [Dict.getD, hlen, h.seqLen, RequestState.extend_tokenIds, List.length_append]
    simp only [Option.getD_some]
    omega
  · rw [RequestState.extend_tokenIds, List.length_append] at hp
    rw [hkv, h.written row p drafts (by omega), RequestState.extend_tokenIds]
    rcases Nat.lt_or_ge p state.tokenIds.length with hlt | hge
    · rw [List.getD_append _ _ _ _ hlt, List.getD_append _ _ _ _ hlt]
    · -- a cell behind the old tokens was written by a draft that was accepted
      rw [List.getD_append_right _ _ _ _ hge, List.getD_append_right _ _ _ _ hge]
      have hq : p - state.tokenIds.length < ids.dropLast.length := by
        rw [List.length_dropLast]; omega
      have hdraft := List.prefix_iff_getElem?.mp hdrop _ hq
      rw [List.getElem_dropLast] at hdraft
      rw [List.getD_eq_getElem?_getD, hdraft, List.getD_eq_getElem _ _ (by omega)]
      rfl

end Step

/-! ### Runs -/

theorem admittedPrompt_append (id : ReqId) (evs evs' : List DecodeEvent) :
    admittedPrompt id (evs ++ evs') = (admittedPrompt id evs).or (admittedPrompt id evs') := by
  induction evs with
  | nil => simp [admittedPrompt]
  | cons ev evs ih =>
    cases ev with
    | admission i prompt params =>
      by_cases hi : i = id
      · simp [admittedPrompt, hi]
      · simp [admittedPrompt, hi, ih]
    | step batch drafts sampled => simpa [admittedPrompt] using ih

theorem appended_append (id : ReqId) (evs evs' : List DecodeEvent) :
    appended id (evs ++ evs') = appended id evs ++ appended id evs' := by
  induction evs with
  | nil => rfl
  | cons ev evs ih =>
    cases ev with
    | admission i prompt params => simpa [appended] using ih
    | step batch drafts sampled => simp [appended, ih]

/-- The tokens a step appended, looked up request by request. -/
theorem stepAppended_map (id : ReqId) (reqs : List (ReqId × RequestState))
    (g : ReqId × RequestState → List Token) (hnd : (reqs.map Prod.fst).Nodup) :
    (id ∉ reqs.map Prod.fst → stepAppended id (reqs.map Prod.fst) (reqs.map g) = []) ∧
    ∀ state, (id, state) ∈ reqs →
      stepAppended id (reqs.map Prod.fst) (reqs.map g) = g (id, state) := by
  induction reqs with
  | nil => exact ⟨fun _ => rfl, fun state h => absurd h (by simp)⟩
  | cons req reqs ih =>
    rw [List.map_cons, List.nodup_cons] at hnd
    obtain ⟨hframe, hfound⟩ := ih hnd.2
    rw [stepAppended] at hframe hfound
    by_cases hreq : req.1 = id
    · subst hreq
      refine ⟨fun h => absurd h (by simp), fun state hstate => ?_⟩
      have hhead : req = (req.1, state) := by
        rcases List.mem_cons.mp hstate with h | h
        · exact h.symm
        · exact absurd (List.mem_map_of_mem (f := Prod.fst) h) hnd.1
      simp [stepAppended, hframe hnd.1, ← hhead]
    · refine ⟨fun h => ?_, fun state hstate => ?_⟩
      · rw [List.map_cons, List.mem_cons, not_or] at h
        simp [stepAppended, hreq, hframe h.2]
      · rcases List.mem_cons.mp hstate with h | h
        · exact absurd (congrArg Prod.fst h).symm hreq
        · simp [stepAppended, hreq, hfound state h]

/-- The invariant of a run: a request was admitted once, and holds its prompt, the first
token and what the steps appended; an unknown one left no trace. -/
structure History (f : List Token → Token) (evs : List DecodeEvent) (d : Decoder) : Prop where
  known : ∀ id state, d.states.get? id = some state → ∃ prompt,
    admittedPrompt id evs = some prompt ∧
    Tracks f d id state prompt (f prompt :: appended id evs)
  unknown : ∀ id, d.states.get? id = none →
    admittedPrompt id evs = none ∧ appended id evs = []

section Runs

variable {f : List Token → Token} {evs : List DecodeEvent} {d d' : Decoder}

theorem History.tracked (h : History f evs d) : Tracked f d := fun id state hstate =>
  let ⟨prompt, _, htracks⟩ := h.known id state hstate
  ⟨prompt, _, htracks⟩

/-- A request that an update leaves alone is where it was. -/
theorem Tracks.congr {id : ReqId} {state : RequestState} {prompt out : List Token}
    (h : Tracks f d id state prompt out) (hlen : d'.seqLens.get? id = d.seqLens.get? id)
    (hkv : d'.kv id = d.kv id) : Tracks f d' id state prompt out where
  tokens := h.tokens
  out_ne := h.out_ne
  follows := h.follows
  generated := h.generated
  greedy := h.greedy
  seqLen := by rw [Dict.getD, hlen]; exact h.seqLen
  cells := fun p hp => by rw [hkv]; exact h.cells p hp

theorem History.admission {id : ReqId} {prompt : List Token} {params : SamplingParams}
    (h : History f evs d) (hnew : d.states.get? id = none)
    (hgreedy : params.greedySampling 1 = true) :
    History f (evs ++ [.admission id prompt params]) (admitRequest f d id prompt params) := by
  obtain ⟨hprompt, hempty⟩ := h.unknown id hnew
  constructor
  · intro i state hstate
    rw [admittedPrompt_append, appended_append]
    -- the admitted request has its prompt, and its first token pending
    by_cases hi : i = id
    · subst hi
      simp only [admitRequest, Dict.get?_set, if_true, Option.some.injEq] at hstate
      subst hstate
      refine ⟨prompt, by simp [hprompt, admittedPrompt], ?_⟩
      have hout : appended i evs ++ appended i [.admission i prompt params] = [] := by
        rw [hempty]; rfl
      rw [hout]
      refine ⟨rfl, by simp, ⟨rfl, trivial⟩, by simp, hgreedy, ?_, fun p hp => ?_⟩
      · simp [admitRequest, Dict.getD]
      · rw [List.length_append, List.length_singleton] at hp
        simp only [admitRequest, true_and]
        rw [if_pos (by omega), List.getD_append _ _ _ _ (by omega)]
    -- any other request is as before
    · simp only [admitRequest, Dict.get?_set, hi, if_false] at hstate
      obtain ⟨prompt', hprompt', htracks⟩ := h.known i state hstate
      refine ⟨prompt', by simp [hprompt'], ?_⟩
      have hout : appended i [.admission id prompt params] = [] := rfl
      rw [hout, List.append_nil]
      refine htracks.congr (by simp [admitRequest, hi]) ?_
      funext p
      simp [admitRequest, hi]
  · intro i hi
    simp only [admitRequest, Dict.get?_set] at hi
    split at hi
    · exact absurd hi (by simp)
    · next hne =>
      obtain ⟨hprompt', hempty'⟩ := h.unknown i hi
      have hid : ¬ id = i := fun h => hne h.symm
      exact ⟨by simp [admittedPrompt_append, hprompt', admittedPrompt, hid],
        by simp [appended_append, hempty', appended]⟩

theorem History.step {batch : List ReqId} {drafts : Dict ReqId (List Token)}
    {sampled : List (List Token)} (h : History f evs d) (hvalid : ValidHandoff d batch drafts)
    (hstep : decodeStep f d batch drafts = .ok (d', sampled)) :
    History f (evs ++ [.step batch drafts sampled]) d' := by
  rw [decodeStep_ok h.tracked hvalid, Except.ok.injEq, Prod.mk.injEq] at hstep
  obtain ⟨rfl, rfl⟩ := hstep
  set reqs := decodeReqs d.states batch with hreqs
  set items := reqs.map fun req => (req, committed f drafts req) with hitems
  have hfst : reqs.map Prod.fst = batch := map_fst_decodeReqs hvalid.known
  have hids : items.map (fun item => item.1.1) = batch := by
    rw [hitems, List.map_map]
    exact hfst
  have hnd : (reqs.map Prod.fst).Nodup := by rw [hfst]; exact hvalid.nodup
  obtain ⟨hframe, hupdated, hkv⟩ := foldl_updateDecode items (by rw [hids]; exact hvalid.nodup)
    { d with kv := (stepSegments d batch drafts).foldl writeSpan d.kv }
  -- a request outside the step keeps its cells
  have hkvFrame : ∀ id, id ∉ batch →
      (stepSegments d batch drafts).foldl writeSpan d.kv id = d.kv id := by
    have hndSeg : ((stepSegments d batch drafts).map PagedDecodeSegment.reqId).Nodup := by
      rw [stepSegments, map_reqId_segmentList]
      exact hnd
    intro id hid
    apply (foldl_writeSpan hndSeg d.kv).1
    rwa [stepSegments, map_reqId_segmentList, hfst]
  have hstepped : ∀ id, appended id [.step batch drafts (reqs.map (committed f drafts))] =
      stepAppended id (reqs.map Prod.fst) (reqs.map (committed f drafts)) := by
    intro id
    simp [appended, hfst]
  constructor
  · intro id state hstate
    rw [admittedPrompt_append, appended_append, hstepped]
    by_cases hid : id ∈ batch
    · -- a request of the step
      obtain ⟨old, hold⟩ := Option.isSome_iff_exists.mp (hvalid.known id hid)
      have hreq : (id, old) ∈ reqs := mem_decodeReqs.mpr ⟨hid, hold⟩
      obtain ⟨hnew, hlen⟩ := hupdated ((id, old), committed f drafts (id, old))
        (List.mem_map_of_mem hreq)
      rw [hnew] at hstate
      obtain rfl := Option.some.inj hstate
      obtain ⟨prompt, hprompt, htracks⟩ := h.known id old hold
      refine ⟨prompt, by simp [hprompt], ?_⟩
      rw [(stepAppended_map id reqs (committed f drafts) hnd).2 old hreq, ← List.cons_append]
      -- its segment of the step, with the cells that the forward wrote
      obtain ⟨segment, hsegment, hreqId⟩ : ∃ segment ∈ stepSegments d batch drafts,
          segment.reqId = id := by
        have : id ∈ (stepSegments d batch drafts).map PagedDecodeSegment.reqId := by
          rw [stepSegments, map_reqId_segmentList]
          exact List.mem_map_of_mem hreq
        simpa using this
      obtain ⟨id', old', row, -, hold', hseg, hcells⟩ := segment_of_mem hvalid hsegment
      have hid' : id' = id := by rw [← hreqId, hseg]; rfl
      subst hid'
      rw [hold] at hold'
      obtain rfl := Option.some.inj hold'
      rw [hseg] at hcells
      exact htracks.step rfl row (by rw [hkv]; exact hcells) hlen
    -- any other request has no part in the step
    · obtain ⟨hsame, hlen⟩ := hframe id (by rwa [hids])
      rw [hsame] at hstate
      obtain ⟨prompt, hprompt, htracks⟩ := h.known id state hstate
      refine ⟨prompt, by simp [hprompt], ?_⟩
      rw [(stepAppended_map id reqs (committed f drafts) hnd).1 (by rwa [hfst]), List.append_nil]
      exact htracks.congr hlen (by rw [hkv]; exact hkvFrame id hid)
  · intro id hnone
    by_cases hid : id ∈ batch
    · obtain ⟨old, hold⟩ := Option.isSome_iff_exists.mp (hvalid.known id hid)
      obtain ⟨hnew, -⟩ := hupdated ((id, old), committed f drafts (id, old))
        (List.mem_map_of_mem (mem_decodeReqs.mpr ⟨hid, hold⟩))
      rw [hnew] at hnone
      exact absurd hnone (by simp)
    · rw [(hframe id (by rwa [hids])).1] at hnone
      obtain ⟨hprompt, hempty⟩ := h.unknown id hnone
      rw [admittedPrompt_append, appended_append, hstepped,
        (stepAppended_map id reqs (committed f drafts) hnd).1 (by rwa [hfst])]
      exact ⟨by simp [hprompt, admittedPrompt], by simp [hempty]⟩

theorem history_of_run {kv : ReqId → ℕ → Token}
    (hrun : Run (DecodeStep f) (Decoder.empty kv) evs d) : History f evs d := by
  have hstart : History f [] (Decoder.empty kv) :=
    ⟨fun id state h => absurd h (by simp [Decoder.empty]), fun id _ => ⟨rfl, rfl⟩⟩
  have h := hrun.history_invariant (I := History f) (fun past s a s' hI hs => by
    cases hs with
    | admission hnew _ hgreedy => exact hI.admission hnew hgreedy
    | step hvalid hstep => exact hI.step hvalid hstep) hstart
  simpa using h

/-- **Greedy speculative decoding is lossless.**  In every run, a request holds its prompt,
the first token and what the steps appended, and that is the greedy continuation of the
prompt; and from every state reached, a step over any known requests with any drafts
succeeds, appends to each request at least one token and at most one more than it has
drafts, finds the committed tokens in the cells below each span, and lets no row read
anything but committed tokens and the row's own drafts. -/
theorem speculative_decoding_lossless {kv : ReqId → ℕ → Token}
    (hrun : Run (DecodeStep f) (Decoder.empty kv) evs d) :
    (∀ id state, d.states.get? id = some state → ∃ prompt,
      admittedPrompt id evs = some prompt ∧
      state.tokenIds = prompt ++ f prompt :: appended id evs ∧
      state.tokenIds = autoregress f prompt ((appended id evs).length + 1)) ∧
    ∀ batch drafts, ValidHandoff d batch drafts → ∃ segments d' sampled,
      buildDecodeSegments (decodeReqs d.states batch) drafts d.seqLens = .ok segments ∧
      CleanReads d segments ∧
      decodeStep f d batch drafts = .ok (d', sampled) ∧
      sampled.length = batch.length ∧
      ∀ (i : ℕ) id ids, batch[i]? = some id → sampled[i]? = some ids →
        1 ≤ ids.length ∧ ids.length ≤ (drafts.getD id []).length + 1 := by
  have h := history_of_run hrun
  constructor
  -- the tokens so far
  · intro id state hstate
    obtain ⟨prompt, hprompt, htracks⟩ := h.known id state hstate
    refine ⟨prompt, hprompt, htracks.tokens, ?_⟩
    rw [htracks.tokens, ← htracks.follows.autoregress_eq, List.length_cons]
  -- and the next step
  · intro batch drafts hvalid
    have hfst : (decodeReqs d.states batch).map Prod.fst = batch :=
      map_fst_decodeReqs hvalid.known
    refine ⟨stepSegments d batch drafts, _, _, ?_, cleanReads_step h.tracked hvalid,
      decodeStep_ok h.tracked hvalid, ?_, fun i id ids hid hids => ?_⟩
    · exact buildDecodeSegments_ok (by rw [hfst]; exact hvalid.keys) hvalid.nonneg
    · rw [List.length_map, ← congrArg List.length hfst, List.length_map]
    · rw [List.getElem?_map, Option.map_eq_some_iff] at hids
      obtain ⟨req, hreq, rfl⟩ := hids
      have hreqId : req.1 = id := by
        rw [← hfst, List.getElem?_map, hreq] at hid
        exact Option.some.inj hid
      rw [← hreqId]
      exact committed_length f drafts req

/-- A request with prompt `[1, 2]` under a target that counts, and a step that verifies one
right and one wrong draft. -/
theorem speculative_decoding_lossless_counting :
    ∃ d : Decoder, d.states.get? 0 = some
        { tokenIds := [1, 2, 2, 3, 4], promptLen := 2, samplingParams := .greedy,
          generatedTokens := 3, blockIds := [], mropePositionDelta := none,
          numComputedTokens := 0 } ∧
      ∀ batch drafts, ValidHandoff d batch drafts → ∃ segments d' sampled,
        buildDecodeSegments (decodeReqs d.states batch) drafts d.seqLens = .ok segments ∧
        CleanReads d segments ∧
        decodeStep (fun l => l.length) d batch drafts = .ok (d', sampled) ∧
        sampled.length = batch.length ∧
        ∀ (i : ℕ) id ids, batch[i]? = some id → sampled[i]? = some ids →
          1 ≤ ids.length ∧ ids.length ≤ (drafts.getD id []).length + 1 := by
  have hvalid : ValidHandoff (admitRequest (fun l => l.length) (Decoder.empty fun _ _ => 0) 0
      [1, 2] .greedy) [0] (Dict.set ∅ 0 [3, 7]) := by
    refine ⟨by simp, by simp [admitRequest], fun id h => ?_, fun id t ht => ?_⟩
    · by_cases hid : id = 0
      · simp [hid]
      · simp [hid] at h
    · by_cases hid : id = 0
      · simp only [Dict.getD, hid, Dict.get?_set, if_true, Option.getD_some, List.mem_cons,
          List.not_mem_nil, or_false] at ht
        rcases ht with rfl | rfl <;> decide
      · simp [Dict.getD, hid] at ht
  have hfirst : Run (DecodeStep fun l => l.length) (Decoder.empty fun _ _ => 0)
      [.admission 0 [1, 2] .greedy] _ :=
    .cons (.admission rfl (by simp) SamplingParams.greedySampling_greedy) (.nil _)
  have hstep := decodeStep_ok (history_of_run hfirst).tracked hvalid
  exact ⟨_, rfl, (speculative_decoding_lossless (hfirst.snoc (.step hvalid hstep))).2⟩

end Runs

end SpecDecode
end VllmMetal
