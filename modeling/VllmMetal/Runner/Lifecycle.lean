import VllmMetal.Lib.Batch
import VllmMetal.Lib.Slot
import VllmMetal.Logits.Layout
import VllmMetal.Multimodal.BidiRanges

/-!
# The lifecycle half of a runner step

`execute_model` evicts, preempts, admits, re-admits and resumes requests, and sorts what is
scheduled into prefill chunks and decode work.  Every dictionary of the runner is keyed by request
id, and is kept here as one entry for each request.  A `RequestState` is an object, and the decode
pipeline holds on to some of them, so an entry has the objects that left the dictionary as well.

## Main definitions

* `Entry` — what the runner keeps for a request.
* `SchedulerOutput` — what the scheduler hands over.
* `reconcileRequestLifecycle`, `handleNewRequests`, `updatePpStageStates`,
  `updateCachedRequestBlocks`, `collectCachedRequests` — the stages of `execute_model`.
* `buildPrefillPack` — the chunks with their full prompts.
-/

namespace VllmMetal
namespace PagedRunner

open Multimodal

/-! ### What the runner keeps -/

/-- What the runner keeps for one request. -/
structure Entry where
  /-- `_request_states`: the state of the request, and the states that left the dictionary. -/
  states : Slot RequestState
  /-- `_paged_request_seq_lens`. -/
  seqLen : Option ℕ
  /-- `_awaiting_readmission`. -/
  awaitingReadmission : Bool
  /-- `_mm_bidi_states`. -/
  mmBidiState : Option MMBidiState

namespace Entry

/-- The state of the request. -/
abbrev state (entry : Entry) : Option RequestState := entry.states.held

/-- The entry of a request that the runner has never seen. -/
def unknown : Entry := ⟨.empty, none, false, none⟩

/-- The runner has nothing of the request, save what others may still refer to. -/
structure Forgotten (entry : Entry) : Prop where
  state : entry.state = none
  seqLen : entry.seqLen = none
  awaiting : entry.awaitingReadmission = false
  bidi : entry.mmBidiState = none

end Entry

/-- The entries of all requests. -/
abbrev Entries := ReqId → Entry

/-- What a step raises. -/
inductive RunnerError where
  /-- "Scheduled cached request(s) have no RequestState: ... This is a scheduler/runner state
  desync." -/
  | missingState (reqIds : List ReqId)
  /-- A lookup of a request without a state. -/
  | keyError
  /-- `assert new_block_ids is not None`. -/
  | assertBlockIds
  /-- "Need full prompt ... but it has no RequestState and is not in new_reqs. This is a state
  tracking bug." -/
  | noFullPrompt (reqId : ReqId)
  /-- "Need full prompt ... but prompt_token_ids is missing. This is a scheduler contract bug." -/
  | noPromptTokenIds (reqId : ReqId)
  /-- "Intermediate-only step has rows that must sample — routing desynced." -/
  | routing
  /-- `assert prompt_len is not None`. -/
  | assertPromptLen
  | specDecode (error : SpecDecode.SpecDecodeError)
  /-- "Structured-output request present but no paged work was scheduled — invariant violated." -/
  | structuredOutput
  /-- "Pipelined decode expects single-token segments ... (gate should have blocked this step)." -/
  | multiTokenSegment (reqId : ReqId)
  /-- "Decode request ... has no pending-token row; runner/pipeline membership desynced". -/
  | noPendingRow (reqId : ReqId)
  /-- "Pipelined decode input assembled on a step with prefill work". -/
  | pipelinedPrefill
  /-- "Grammar output arrived on a pipeline-eligible step; the gate must block structured-output
  steps." -/
  | grammarOutput
  /-- "Deferred sampling requires a pure single-token decode batch ... — gate desync." -/
  | notPureDecode
  /-- "DecodePipeline.submit called on a gate-ineligible step". -/
  | submitIneligible
  /-- "DecodePipeline resolved-output slot still occupied by serial `serial`". -/
  | slotOccupied (serial : ℕ)
  /-- "Pending token slot for request ... was overwritten before resolve". -/
  | overwritten (reqId : ReqId)
  /-- "DecodePipeline has no output for serial `serial`". -/
  | noOutput (serial : ℕ)
  /-- `assert paged_state is not None`. -/
  | noPagedState
  deriving DecidableEq

/-! ### What the scheduler hands over -/

/-- `NewRequestData`. -/
structure NewRequestData where
  reqId : ReqId
  promptTokenIds : Option (List Token)
  prefillTokenIds : List Token
  promptLen : ℕ
  samplingParams : SamplingParams
  numComputedTokens : ℕ
  blockIds : List (List ℕ)

/-- One row of `CachedRequestData`. -/
structure CachedRequest where
  reqId : ReqId
  numComputedTokens : ℕ
  newTokenIds : List Token
  newBlockIds : Option (List (List ℕ))
  /-- The `all_token_ids` of a resumed request. -/
  resumed : Option (List Token)

/-- `SchedulerOutput`, the fields a step reads. -/
structure SchedulerOutput where
  scheduledNewReqs : List NewRequestData
  scheduledCachedReqs : List CachedRequest
  /-- `new_token_ids` has a list for each cached request; it is empty where there is no pipeline of
  stages. -/
  sendsNewTokenIds : Bool
  numScheduledTokens : ReqId → ℕ
  /-- `scheduled_spec_decode_tokens`, without placeholder padding. -/
  scheduledSpecDecodeTokens : Dict ReqId (List Token)
  finishedReqIds : List ReqId
  preemptedReqIds : List ReqId
  hasEncoderInputs : Bool
  hasStructuredOutputRequests : Bool

namespace SchedulerOutput

/-- `resumed_req_ids`. -/
def resumedReqIds (out : SchedulerOutput) : List ReqId :=
  (out.scheduledCachedReqs.filter fun c => c.resumed.isSome).map CachedRequest.reqId

/-- The requests with tokens in the step. -/
def scheduledReqIds (out : SchedulerOutput) : List ReqId :=
  out.scheduledNewReqs.map NewRequestData.reqId ++
    out.scheduledCachedReqs.map CachedRequest.reqId

end SchedulerOutput

/-! ### Chunks -/

/-- `PrefillRequest`. -/
structure PrefillRequest extends Logits.PrefillRequest where
  blockIds : List (List ℕ)

/-- `_PendingPrefillEntry.result_mode`. -/
inductive ResultMode where
  | intermediate
  | newFinal
  | cachedFinal
  deriving DecidableEq

/-- `_PendingPrefillEntry`. -/
structure PendingPrefillEntry where
  prefill : PrefillRequest
  resultMode : ResultMode

/-- The id of a queued chunk. -/
def PendingPrefillEntry.reqId (pending : PendingPrefillEntry) : ReqId := pending.prefill.reqId

/-- The chunk `[computed, computed + scheduled)` of `token_ids`, `final` being the result mode of
one that reaches the end. -/
def pendingChunk (reqId : ReqId) (tokenIds : List Token) (promptLen : ℕ) (sp : SamplingParams)
    (blockIds : List (List ℕ)) (computedTokens scheduledTokens : ℕ) (final : ResultMode) :
    PendingPrefillEntry :=
  let targetLen := computedTokens + scheduledTokens
  let isIntermediate := targetLen < tokenIds.length
  { prefill :=
      { reqId := reqId
        tokenIds := (tokenIds.take targetLen).drop computedTokens
        samplingParams := sp
        promptLen := if isIntermediate then none else some promptLen
        startPos := computedTokens
        fullPromptTokenIds := none
        blockIds := blockIds }
    resultMode := if isIntermediate then .intermediate else final }

/-- What a step has to do for a request. -/
inductive Work where
  /-- An output slot that is filled at once. -/
  | output (reqId : ReqId) (tokenIds : List Token)
  | prefill (pending : PendingPrefillEntry)
  | decode (reqId : ReqId)

namespace Work

/-- The request of a piece of work. -/
def reqId : Work → ReqId
  | .output reqId _ => reqId
  | .prefill pending => pending.reqId
  | .decode reqId => reqId

/-- `paged_prefill_entries`. -/
def prefill? : Work → Option PendingPrefillEntry
  | .prefill pending => some pending
  | _ => none

/-- `paged_decode_reqs`. -/
def decode? : Work → Option ReqId
  | .decode reqId => some reqId
  | _ => none

end Work

/-! ### The stages -/

/-- `_reconcile_request_lifecycle`, on the entry of one request. -/
def reconcileRequestLifecycle (out : SchedulerOutput) (entries : Entries) : Entries := fun reqId =>
  let entry := entries reqId
  let evicted := decide (reqId ∈ out.finishedReqIds)
  let resumed := decide (reqId ∈ out.resumedReqIds)
  { states := if evicted then entry.states.drop else entry.states
    seqLen := if evicted then none else entry.seqLen
    awaitingReadmission := (entry.awaitingReadmission || decide (reqId ∈ out.preemptedReqIds)) &&
      !evicted && !resumed
    mmBidiState := if evicted || resumed then none else entry.mmBidiState }

/-- `_collect_prefill_continuation`. -/
def collectPrefillContinuation (reqId : ReqId) (state : RequestState)
    (computedTokens scheduledTokens : ℕ) : PendingPrefillEntry :=
  pendingChunk reqId state.tokenIds state.promptLen state.samplingParams state.blockIds
    computedTokens scheduledTokens .cachedFinal

/-- The state of a re-admitted request. -/
def readmittedState (newReq : NewRequestData) (preempted : RequestState) : RequestState where
  tokenIds := newReq.prefillTokenIds
  promptLen := newReq.promptLen
  samplingParams := newReq.samplingParams
  generatedTokens := 0
  blockIds := newReq.blockIds
  mropePositionDelta := preempted.mropePositionDelta
  numComputedTokens := newReq.numComputedTokens

/-- `_readmit_request`. -/
def readmitRequest (scheduledTokens : ℕ) (newReq : NewRequestData) (entry : Entry) :
    Except RunnerError (Entry × List Work) :=
  match entry.state with
  | none => .error .keyError
  | some preempted =>
      let state := readmittedState newReq preempted
      .ok ({ states := entry.states.put state
             seqLen := none
             awaitingReadmission := false
             mmBidiState := none },
        [.prefill (collectPrefillContinuation newReq.reqId state newReq.numComputedTokens
          scheduledTokens)])

/-- The state of a new request whose first chunk does not reach the end of its prompt. -/
def arrivedState (newReq : NewRequestData) (tokenIds : List Token) : RequestState where
  tokenIds := tokenIds
  promptLen := tokenIds.length
  samplingParams := newReq.samplingParams
  generatedTokens := 0
  blockIds := newReq.blockIds
  mropePositionDelta := none
  numComputedTokens := newReq.numComputedTokens

/-- The body of `_handle_new_requests`. -/
def handleNewRequest (numScheduledTokens : ReqId → ℕ) (newReq : NewRequestData) (entry : Entry) :
    Except RunnerError (Entry × List Work) :=
  let tokenIds := newReq.promptTokenIds.getD []
  let scheduledTokens := numScheduledTokens newReq.reqId
  if tokenIds = [] then .ok (entry, [.output newReq.reqId [0]])
  else if entry.awaitingReadmission then readmitRequest scheduledTokens newReq entry
  else
    let isIntermediate := newReq.numComputedTokens + scheduledTokens < tokenIds.length
    -- a cached continuation in the next step has to find the request
    .ok ({ entry with states :=
        if isIntermediate then entry.states.put (arrivedState newReq tokenIds) else entry.states },
      [.prefill (pendingChunk newReq.reqId tokenIds tokenIds.length newReq.samplingParams
        newReq.blockIds newReq.numComputedTokens scheduledTokens .newFinal)])

/-- `_handle_new_requests`. -/
def handleNewRequests (out : SchedulerOutput) (entries : Entries) :
    Except RunnerError (Entries × List Work) :=
  forEach NewRequestData.reqId (handleNewRequest out.numScheduledTokens) out.scheduledNewReqs
    entries

/-- The state that a stage without a sampler makes of a new request. -/
def broadcastState (newReq : NewRequestData) : RequestState where
  tokenIds := if newReq.prefillTokenIds = [] then newReq.promptTokenIds.getD []
    else newReq.prefillTokenIds
  promptLen := newReq.promptLen
  samplingParams := newReq.samplingParams
  generatedTokens := 0
  blockIds := newReq.blockIds
  mropePositionDelta := none
  numComputedTokens := 0

/-- The loop of `_update_pp_stage_states` over the new requests. -/
def seedPpStageState (newReq : NewRequestData) (entry : Entry) :
    Except RunnerError (Entry × List Work) :=
  .ok ({ entry with states := entry.states.put (broadcastState newReq) }, [])

/-- `new_token_ids[-num_new:]`, behind what is there. -/
def appendBroadcast (numComputedTokens : ℕ) (newTokenIds : List Token) (state : RequestState) :
    RequestState :=
  -- only the tokens that are not there yet
  let numNew := numComputedTokens + newTokenIds.length - state.tokenIds.length
  if 0 < numNew then
    let tokenIds := state.tokenIds ++ newTokenIds.drop (newTokenIds.length - numNew)
    { state with tokenIds := tokenIds, generatedTokens := tokenIds.length - state.promptLen }
  else state

/-- The loop of `_update_pp_stage_states` over the cached requests. -/
def advancePpStageState (cachedReq : CachedRequest) (entry : Entry) :
    Except RunnerError (Entry × List Work) :=
  match entry.state with
  | none => .error .keyError
  | some _ => .ok ({ entry with
      states := entry.states.modify
        (appendBroadcast cachedReq.numComputedTokens cachedReq.newTokenIds) }, [])

/-- `_update_pp_stage_states`. -/
def updatePpStageStates (out : SchedulerOutput) (entries : Entries) : Except RunnerError Entries :=
  match forEach NewRequestData.reqId seedPpStageState out.scheduledNewReqs entries with
  | .error e => .error e
  | .ok (entries, _) =>
      if !out.sendsNewTokenIds then .ok entries
      else (forEach CachedRequest.reqId advancePpStageState out.scheduledCachedReqs entries).map
        Prod.fst

/-- New blocks behind the old ones, group by group. -/
def extendBlocks (newBlockIds : Option (List (List ℕ))) (state : RequestState) : RequestState :=
  match newBlockIds with
  | none => state
  | some newBlockIds => { state with blockIds := List.zipWith (· ++ ·) state.blockIds newBlockIds }

/-- The state of a request that is resumed in place. -/
def resumedState (allTokenIds : List Token) (newBlockIds : List (List ℕ)) (state : RequestState) :
    RequestState :=
  { state with tokenIds := allTokenIds, generatedTokens := 0, blockIds := newBlockIds }

/-- The body of `_update_cached_request_blocks`. -/
def updateCachedRequest (cachedReq : CachedRequest) (entry : Entry) :
    Except RunnerError (Entry × List Work) :=
  match entry.state with
  | none => .error .keyError
  | some _ =>
      match cachedReq.resumed, cachedReq.newBlockIds with
      | none, newBlockIds => .ok ({ entry with
          states := entry.states.modify (extendBlocks newBlockIds) }, [])
      | some _, none => .error .assertBlockIds
      -- the scheduler can drop an in-flight output that is already appended
      | some allTokenIds, some newBlockIds => .ok ({ entry with
          states := entry.states.modify (resumedState allTokenIds newBlockIds)
          seqLen := none }, [])

/-- `_update_cached_request_blocks`. -/
def updateCachedRequestBlocks (out : SchedulerOutput) (entries : Entries) :
    Except RunnerError Entries :=
  (forEach CachedRequest.reqId updateCachedRequest out.scheduledCachedReqs entries).map Prod.fst

/-- The body of `_collect_cached_requests`. -/
def collectCachedRequest (numScheduledTokens : ReqId → ℕ) (cachedReq : CachedRequest)
    (entry : Entry) : Except RunnerError (Entry × List Work) :=
  match entry.state with
  | none => .error .keyError
  | some state => .ok (entry, [if state.generatedTokens = 0 then
        .prefill (collectPrefillContinuation cachedReq.reqId state cachedReq.numComputedTokens
          (numScheduledTokens cachedReq.reqId))
      else .decode cachedReq.reqId])

/-- `_collect_cached_requests`. -/
def collectCachedRequests (out : SchedulerOutput) (entries : Entries) :
    Except RunnerError (List Work) :=
  (forEach CachedRequest.reqId (collectCachedRequest out.numScheduledTokens)
    out.scheduledCachedReqs entries).map Prod.snd

/-- The cached requests that `execute_model` misses. -/
def missingCachedStateReqIds (out : SchedulerOutput) (entries : Entries) : List ReqId :=
  (out.scheduledCachedReqs.map CachedRequest.reqId).filter fun reqId =>
    decide (reqId ∈ out.finishedReqIds) || (entries reqId).state.isNone

/-- The lifecycle half of `execute_model`: the entries behind it, and the work of the step. -/
def collectBatch (nonLastStage : Bool) (out : SchedulerOutput) (entries : Entries) :
    Except RunnerError (Entries × List Work) :=
  let missing := missingCachedStateReqIds out entries
  if missing ≠ [] then .error (.missingState (missing.take 16))
  else
    match handleNewRequests out (reconcileRequestLifecycle out entries) with
    | .error e => .error e
    | .ok (entries, new) =>
        match (if nonLastStage then updatePpStageStates out entries else .ok entries) with
        | .error e => .error e
        | .ok entries =>
            match updateCachedRequestBlocks out entries with
            | .error e => .error e
            | .ok entries =>
                match collectCachedRequests out entries with
                | .error e => .error e
                | .ok cached => .ok (entries, new ++ cached)

/-! ### The pack -/

/-- The body of `_build_prefill_pack`. -/
def packPrefillEntry (isMmRequest wantsPromptLogprobs : ReqId → Bool)
    (newReqs : List NewRequestData) (entries : Entries) (pending : PendingPrefillEntry) :
    Except RunnerError PrefillRequest :=
  let prefill := pending.prefill
  if 0 < prefill.startPos || isMmRequest prefill.reqId || wantsPromptLogprobs prefill.reqId then
    match (entries prefill.reqId).state with
    | some state => .ok { prefill with fullPromptTokenIds := some state.tokenIds }
    | none =>
        -- `new_reqs_by_id` keeps the last request of an id
        match newReqs.reverse.find? fun newReq => newReq.reqId = prefill.reqId with
        | none => .error (.noFullPrompt prefill.reqId)
        | some newReq =>
            match newReq.promptTokenIds with
            | none => .error (.noPromptTokenIds prefill.reqId)
            | some promptTokenIds => .ok { prefill with fullPromptTokenIds := some promptTokenIds }
  else .ok { prefill with fullPromptTokenIds := none }

/-- `_build_prefill_pack`. -/
def buildPrefillPack (isMmRequest wantsPromptLogprobs : ReqId → Bool)
    (newReqs : List NewRequestData) (entries : Entries) (pending : List PendingPrefillEntry) :
    Except RunnerError (List PrefillRequest) :=
  pending.mapM (packPrefillEntry isMmRequest wantsPromptLogprobs newReqs entries)

end PagedRunner
end VllmMetal
