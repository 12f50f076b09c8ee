import VllmMetal.Runner.Lifecycle
import VllmMetal.SpecDecode.Verify

/-!
# The sampling half of a runner step

The packed rows of a step are the spans of its decode requests, and then the chunks.  The model is
any function from all that was ever forwarded to the logits rows of the step, and the samplers are
deterministic functions of a row and a request.  After the samplers the runner extends the token
lists, advances the tracked lengths, and gives a request whose prompt is complete its state.

## Main definitions

* `Target` — the model and the samplers.
* `StepWorld` — what a step reads of multimodal requests and prompt logprobs.
* `startPagedForward` — the forward of a step.
* `samplePagedBatch` — the entries behind it, and the output of the step.
-/

namespace VllmMetal
namespace PagedRunner

open SpecDecode Multimodal

/-! ### The model -/

/-- The rows of one request in a packed step. -/
structure RowSpan where
  reqId : ReqId
  startPos : ℕ
  numTokens : ℕ
  blockIds : List (List ℕ)

/-- The rows of a decode segment. -/
def RowSpan.ofSegment (segment : PagedDecodeSegment) : RowSpan :=
  ⟨segment.reqId, segment.cacheStartPos, segment.numQueryTokens, segment.blockIds⟩

/-- The rows of a chunk. -/
def RowSpan.ofChunk (pr : PrefillRequest) : RowSpan :=
  ⟨pr.reqId, pr.startPos, pr.tokenIds.length, pr.blockIds⟩

/-- What a forward reads: its input row, and where the rows belong. -/
structure ForwardInput where
  inputIds : List Token
  decodes : List RowSpan
  chunks : List RowSpan

/-- What the model has seen of a step: the scheduler output, and the forward if there was one. -/
structure StepRecord where
  out : SchedulerOutput
  forward : Option ForwardInput

/-- The model and the samplers. -/
structure Target (Row : Type) where
  /-- The logits row `i` of the last of these steps. -/
  logits : List StepRecord → ℕ → Row
  argmax : Row → Token
  /-- The sampler of the synchronous path. -/
  sample : Row → RequestState → Token
  /-- The sampler of the deferred path, which reads the length of the output alone. -/
  nativeSample : Row → SamplingParams → ℤ → Token
  samplePrefill : Row → PrefillRequest → Token

/-- What a step reads beside the scheduler output. -/
structure StepWorld where
  isMmRequest : ReqId → Bool
  mmForwardForced : Bool
  /-- The image blocks of a request, where the model attends to them bidirectionally. -/
  imageBlocks : ReqId → Option (List (ℕ × ℕ))
  mropeDelta : ReqId → ℤ
  wantsPromptLogprobs : ReqId → Bool

/-- What is fixed for a runner's lifetime. -/
structure RunnerConfig where
  hasDrafter : Bool
  /-- More than one pipeline stage. -/
  ppActive : Bool
  /-- `is_non_last_stage(self.pp)`. -/
  nonLastStage : Bool
  ppActive_of_stage : nonLastStage = true → ppActive = true
  /-- `VLLM_METAL_NATIVE_SAMPLING`. -/
  nativeSamplingEnabled : Bool

/-! ### The forward -/

/-- The states of the decode requests. -/
def decodeStates (entries : Entries) (reqIds : List ReqId) : List (ReqId × RequestState) :=
  reqIds.filterMap fun reqId => (entries reqId).state.map fun state => (reqId, state)

/-- Every request has a state. -/
theorem length_decodeStates {entries : Entries} {reqIds : List ReqId}
    (h : ∀ reqId ∈ reqIds, (entries reqId).state.isSome) :
    (decodeStates entries reqIds).length = reqIds.length := by
  induction reqIds with
  | nil => rfl
  | cons reqId reqIds ih =>
    obtain ⟨state, hstate⟩ := Option.isSome_iff_exists.mp (h reqId List.mem_cons_self)
    have hrest := ih fun id hid => h id (List.mem_cons_of_mem reqId hid)
    unfold decodeStates at hrest ⊢
    rw [List.filterMap_cons, hstate]
    simp only [Option.map_some, List.length_cons, hrest]

/-- The tracked lengths of these requests. -/
def seqLensOf (entries : Entries) (reqIds : List ReqId) : Dict ReqId ℕ :=
  reqIds.foldl (fun seqLens reqId =>
    match (entries reqId).seqLen with
    | none => seqLens
    | some n => seqLens.set reqId n) ∅

/-- The tracked length of a request in the list. -/
theorem get?_seqLensOf (entries : Entries) {reqIds : List ReqId} {reqId : ReqId}
    (hmem : reqId ∈ reqIds) : (seqLensOf entries reqIds).get? reqId = (entries reqId).seqLen := by
  -- only the request's own length is ever set for it
  have hfold : ∀ (seqLens : Dict ReqId ℕ),
      (reqIds.foldl (fun seqLens id => match (entries id).seqLen with
        | none => seqLens
        | some n => seqLens.set id n) seqLens).get? reqId =
      if reqId ∈ reqIds then (entries reqId).seqLen <|> seqLens.get? reqId
      else seqLens.get? reqId := by
    clear hmem
    induction reqIds with
    | nil => exact fun _ => rfl
    | cons id reqIds ih =>
      intro seqLens
      rw [List.foldl_cons, ih]
      cases hlen : (entries id).seqLen with
      | none =>
        simp only [List.mem_cons]
        by_cases heq : reqId = id
        · subst heq
          simp [hlen]
        · simp [heq]
      | some n =>
        simp only [Dict.get?_set, List.mem_cons]
        by_cases heq : reqId = id
        · subst heq
          simp [hlen]
        · simp [heq]
  refine (hfold ∅).trans ?_
  rw [if_pos hmem]
  cases (entries reqId).seqLen with
  | none => exact Dict.get?_empty reqId
  | some n => rfl

/-- A segment of the step, with the state of its request. -/
theorem mem_segmentList {specTokens : Dict ReqId (List Token)} {seqLens : Dict ReqId ℕ}
    {reqs : List (ReqId × RequestState)} {startRow : ℕ} {segment : PagedDecodeSegment}
    (h : segment ∈ segmentList specTokens seqLens startRow reqs) :
    ∃ req ∈ reqs, ∃ row, segment =
      segmentOf seqLens row req.1 req.2 (specTokens.getD req.1 []) := by
  induction reqs generalizing startRow with
  | nil => exact absurd h List.not_mem_nil
  | cons req reqs ih =>
    rw [segmentList, List.mem_cons] at h
    rcases h with rfl | h
    · exact ⟨req, List.mem_cons_self, startRow, rfl⟩
    · obtain ⟨req', hmem, hrow⟩ := ih h
      exact ⟨req', List.mem_cons_of_mem req hmem, hrow⟩

/-- `use_mm_forward`. -/
def usesMmForward (world : StepWorld) (decodeReqs : List (ReqId × RequestState))
    (pack : List PrefillRequest) : Bool :=
  pack.any (fun pr => world.isMmRequest pr.reqId) ||
    decodeReqs.any (fun req => req.2.mropePositionDelta.isSome) || world.mmForwardForced

/-- `intermediate_only`. -/
def isIntermediateOnly (cfg : RunnerConfig) (mmForward : Bool) (decodeReqs : List ReqId)
    (pack : List PrefillRequest) : Bool :=
  !mmForward && !cfg.ppActive && decodeReqs.isEmpty && !pack.isEmpty &&
    pack.all (fun pr => pr.promptLen.isNone) && !cfg.hasDrafter

/-- What `_bidi_ranges_for_chunk` remembers of a chunk of a multimodal forward. -/
def noteImageBlocks (world : StepWorld) (pr : PrefillRequest) (entry : Entry) :
    Except RunnerError (Entry × List Unit) :=
  match world.isMmRequest pr.reqId, world.imageBlocks pr.reqId with
  | true, some blocks => .ok ({ entry with
      mmBidiState := some (decideChunk (seedState entry.mmBidiState pr.startPos blocks) pr.startPos
        pr.tokenIds.length).2 }, [])
  | _, _ => .ok (entry, [])

/-- `_PagedForwardState`. -/
structure PagedForwardState (Row : Type) where
  out : SchedulerOutput
  work : List Work
  decodeReqs : List ReqId
  segments : List PagedDecodeSegment
  pack : List PrefillRequest
  logits : ℕ → Row
  intermediateOnly : Bool
  mmPrefillDeltas : ReqId → Option ℤ

variable {Row : Type}

/-- `_start_paged_forward`, up to the forward: the segments of the step. -/
def stepSegments (out : SchedulerOutput) (entries : Entries) (decodeReqs : List ReqId) :
    Except RunnerError (List PagedDecodeSegment) :=
  match buildDecodeSegments (decodeStates entries decodeReqs) out.scheduledSpecDecodeTokens
      (seqLensOf entries decodeReqs) with
  | .error e => .error (.specDecode e)
  | .ok segments => .ok segments

/-- The input row that is assembled on the host. -/
def hostInputIds (segments : List PagedDecodeSegment) (pack : List PrefillRequest) : List Token :=
  segments.flatMap PagedDecodeSegment.inputTokenIds ++ pack.flatMap fun pr => pr.tokenIds

/-- The forward of a step over this input row: what the step keeps for its sampling half, the
entries, and what the model has seen so far. -/
def startPagedForward (target : Target Row) (cfg : RunnerConfig) (world : StepWorld)
    (out : SchedulerOutput) (work : List Work) (pack : List PrefillRequest)
    (segments : List PagedDecodeSegment) (inputIds : List Token) (entries : Entries)
    (history : List StepRecord) :
    Except RunnerError (PagedForwardState Row × Entries × List StepRecord) :=
  let decodeReqs := work.filterMap Work.decode?
  let mmForward := usesMmForward world (decodeStates entries decodeReqs) pack
  let record : StepRecord := ⟨out, some ⟨inputIds, segments.map RowSpan.ofSegment,
    pack.map RowSpan.ofChunk⟩⟩
  let seen := history ++ [record]
  let state : PagedForwardState Row :=
    { out := out
      work := work
      decodeReqs := decodeReqs
      segments := segments
      pack := pack
      logits := target.logits seen
      intermediateOnly := isIntermediateOnly cfg mmForward decodeReqs pack
      mmPrefillDeltas := fun reqId =>
        if mmForward && world.isMmRequest reqId then some (world.mropeDelta reqId) else none }
  if mmForward then
    match forEach (fun pr : PrefillRequest => pr.reqId) (noteImageBlocks world) pack entries with
    | .error e => .error e
    | .ok (entries, _) => .ok (state, entries, seen)
  else .ok (state, entries, seen)

/-! ### The samplers -/

/-- The tokens of a step, request by request and chunk by chunk. -/
structure StepTokens where
  decodeTokenIds : List (List Token)
  prefillTokenIds : List Token

/-- What the samplers make of the rows. -/
def sampleStep (target : Target Row) (st : PagedForwardState Row) (entries : Entries) :
    Except RunnerError StepTokens :=
  match decodeTokenIds (fun i => target.argmax (st.logits i))
      (fun i state => target.sample (st.logits i) state) (decodeStates entries st.decodeReqs)
      st.segments with
  | .error e => .error (.specDecode e)
  | .ok decodes =>
      let cuSeqlens :=
        Logits.packedSeqlens st.segments (st.pack.map PrefillRequest.toPrefillRequest)
      .ok ⟨decodes, st.pack.mapIdx fun i pr =>
        target.samplePrefill (st.logits (cuSeqlens.getD (st.segments.length + i + 1) 0 - 1)) pr⟩

/-! ### The updates -/

/-- The update of a decode row. -/
def updateDecodeState (item : ReqId × List Token) (entry : Entry) :
    Except RunnerError (Entry × List (ReqId × List Token)) :=
  match entry.state with
  | none => .error .keyError
  | some state =>
      let ids := item.2
      .ok ({ entry with
        states := entry.states.modify fun state => state.extend ids
        seqLen := some (entry.seqLen.getD ((state.extend ids).tokenIds.length - ids.length - 1) +
          ids.length) }, [item])

/-- The tracked length after a chunk. -/
def updatePrefillSeqLen (pr : PrefillRequest) (entry : Entry) :
    Except RunnerError (Entry × List Unit) :=
  .ok ({ entry with seqLen := some (pr.startPos + pr.tokenIds.length) }, [])

/-- The state of a new request whose prompt is complete. -/
def finishedPromptState (prefill : PrefillRequest) (promptLen : ℕ) (mmDelta : Option ℤ)
    (nextToken : Token) : RequestState where
  tokenIds := prefill.fullPromptTokenIds.getD prefill.tokenIds ++ [nextToken]
  promptLen := promptLen
  samplingParams := prefill.samplingParams
  generatedTokens := 1
  blockIds := prefill.blockIds
  mropePositionDelta := mmDelta
  numComputedTokens := prefill.startPos

/-- The state of a request that reached the end of the tokens it had. -/
def appendSampled (mmDelta : Option ℤ) (nextToken : Token) (state : RequestState) : RequestState :=
  let tokenIds := state.tokenIds ++ [nextToken]
  { state with
    tokenIds := tokenIds
    generatedTokens := tokenIds.length - state.promptLen
    mropePositionDelta := mmDelta.orElse fun _ => state.mropePositionDelta }

/-- A chunk with the token sampled behind it. -/
structure SampledChunk where
  pending : PendingPrefillEntry
  prefill : PrefillRequest
  nextToken : Token

/-- The postprocessing of a chunk: its state, and the tokens of its output slot. -/
def postprocessChunk (mmPrefillDeltas : ReqId → Option ℤ) (chunk : SampledChunk) (entry : Entry) :
    Except RunnerError (Entry × List (List Token)) :=
  let prefill := chunk.prefill
  let mmDelta := mmPrefillDeltas prefill.reqId
  match chunk.pending.resultMode with
  | .intermediate => .ok (entry, [[]])
  | .newFinal =>
      match prefill.promptLen with
      | none => .error .assertPromptLen
      | some promptLen =>
          let state := finishedPromptState prefill promptLen mmDelta chunk.nextToken
          .ok ({ entry with states := entry.states.put state }, [[chunk.nextToken]])
  | .cachedFinal =>
      match entry.state with
      | none => .error .keyError
      | some _ =>
          let states := entry.states.modify (appendSampled mmDelta chunk.nextToken)
          .ok ({ entry with states := states }, [[chunk.nextToken]])

/-- The chunks of a step with the tokens sampled behind them. -/
def sampledChunks (pending : List PendingPrefillEntry) (pack : List PrefillRequest)
    (nextTokens : List Token) : List SampledChunk :=
  List.zipWith (fun p t => ⟨p.1, p.2, t⟩) (pending.zip pack) nextTokens

/-! ### The output -/

/-- What a step gives back: the sampled tokens, by request. -/
abbrev StepOutput := List (ReqId × List Token)

/-- The output slots in the order in which they were added; `chunkTokens` fill those of the
chunks. -/
def prefillOutputs : List Work → List (List Token) → StepOutput
  | [], _ => []
  | .output reqId tokenIds :: work, chunkTokens =>
    (reqId, tokenIds) :: prefillOutputs work chunkTokens
  | .prefill pending :: work, chunkTokens =>
      (pending.reqId, chunkTokens.headD []) :: prefillOutputs work chunkTokens.tail
  | .decode _ :: work, chunkTokens => prefillOutputs work chunkTokens

/-- The updates of a step whose tokens are sampled. -/
def applyTokens (st : PagedForwardState Row) (tokens : StepTokens) (entries : Entries) :
    Except RunnerError (Entries × StepOutput) :=
  match forEach Prod.fst updateDecodeState (st.decodeReqs.zip tokens.decodeTokenIds) entries with
  | .error e => .error e
  | .ok (entries, decodeOutputs) =>
      match forEach (fun pr : PrefillRequest => pr.reqId) updatePrefillSeqLen st.pack entries with
      | .error e => .error e
      | .ok (entries, _) =>
          match forEach (fun chunk : SampledChunk => chunk.prefill.reqId)
              (postprocessChunk st.mmPrefillDeltas)
              (sampledChunks (st.work.filterMap Work.prefill?) st.pack tokens.prefillTokenIds)
              entries with
          | .error e => .error e
          | .ok (entries, chunkTokens) =>
              .ok (entries, prefillOutputs st.work chunkTokens ++ decodeOutputs)

/-- `_sample_paged_batch`. -/
def samplePagedBatch (target : Target Row) (st : PagedForwardState Row) (entries : Entries) :
    Except RunnerError (Entries × StepOutput) :=
  if st.intermediateOnly then
    if !st.decodeReqs.isEmpty || (st.work.filterMap Work.prefill?).any fun pending =>
        decide (pending.resultMode ≠ .intermediate) then .error .routing
    else
      match forEach (fun pr : PrefillRequest => pr.reqId) updatePrefillSeqLen st.pack entries with
      | .error e => .error e
      | .ok (entries, _) => .ok (entries, prefillOutputs st.work [])
  else
    match sampleStep target st entries with
    | .error e => .error e
    | .ok tokens => applyTokens st tokens entries

end PagedRunner
end VllmMetal
