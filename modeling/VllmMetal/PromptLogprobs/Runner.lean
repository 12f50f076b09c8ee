import VllmMetal.Lib.Batch
import VllmMetal.PromptLogprobs.Tracker

/-!
# A step of the runner

The lifecycle half of a step evicts, preempts, admits, re-admits and resumes requests and queues
their chunks; the other half forwards the packed rows, scores the chunks of prompt-logprobs requests
and extends the token lists.  Every dictionary of the runner that these functions read is keyed by
request id, and is kept here as one entry for each request.

## Main definitions

* `RunnerEntry` — what the runner keeps for a request.
* `SchedulerOutput` — what the scheduler hands over, `StepForward` what the model makes of it.
* `executeModel` — up to the pack of prefill chunks.
* `samplePagedBatch` — from the rows of the pack on.
* `runnerStep` — one step.
-/

namespace VllmMetal
namespace PromptLogprobs

open Logits SpecDecode

variable {H Row Scored : Type}

/-! ### What the runner keeps -/

/-- `RequestState`, the fields that chunks and prompt logprobs read. -/
structure RequestRecord where
  tokenIds : List Token
  promptLen : ℕ
  samplingParams : SamplingParams
  generatedTokens : ℤ

/-- What the runner keeps for one request: its entry of `_request_states`, those of the tracker, and
whether it is in `_awaiting_readmission`. -/
structure RunnerEntry (Scored : Type) where
  state : Option RequestRecord
  tracked : TrackerEntry Scored
  awaitingReadmission : Bool

/-- The entry of a request the runner does not know. -/
def RunnerEntry.unknown : RunnerEntry Scored := ⟨none, .none, false⟩

/-- The runner, request by request. -/
abbrev Runner (Scored : Type) := ReqId → RunnerEntry Scored

/-- What a step raises. -/
inductive RunnerError where
  /-- "Scheduled cached request(s) have no RequestState: ... This is a scheduler/runner state
  desync." -/
  | missingState (reqIds : List ReqId)
  /-- A lookup of a request without a state. -/
  | keyError
  /-- "Need full prompt ... but it has no RequestState and is not in new_reqs. This is a state
  tracking bug." -/
  | noFullPrompt (reqId : ReqId)
  /-- "Need full prompt ... but prompt_token_ids is missing. This is a scheduler contract bug." -/
  | noPromptTokenIds (reqId : ReqId)
  /-- "Intermediate-only step has rows that must sample — routing desynced." -/
  | routing
  /-- `assert prompt_len is not None`. -/
  | assertPromptLen
  | chunk (error : PromptLogprobsError)
  | tracker (error : TrackerError)

/-! ### What the scheduler hands over -/

/-- `NewRequestData`; `promptLogprobs` is the field of its sampling parameters. -/
structure NewRequestData where
  reqId : ReqId
  promptTokenIds : Option (List Token)
  prefillTokenIds : List Token
  promptLen : ℕ
  samplingParams : SamplingParams
  promptLogprobs : Option ℤ
  numComputedTokens : ℕ

/-- One row of `CachedRequestData`; `resumed` is the `all_token_ids` of a resumed request. -/
structure CachedRequest where
  reqId : ReqId
  numComputedTokens : ℕ
  resumed : Option (List Token)

/-- `SchedulerOutput`, the fields a step reads. -/
structure SchedulerOutput where
  scheduledNewReqs : List NewRequestData
  scheduledCachedReqs : List CachedRequest
  numScheduledTokens : ReqId → ℕ
  finishedReqIds : List ReqId
  preemptedReqIds : List ReqId

/-- `resumed_req_ids`. -/
def SchedulerOutput.resumedReqIds (out : SchedulerOutput) : List ReqId :=
  (out.scheduledCachedReqs.filter fun c => c.resumed.isSome).map CachedRequest.reqId

/-! ### The lifecycle half -/

/-- `_PendingPrefillEntry.result_mode`. -/
inductive ResultMode where
  | intermediate
  | newFinal
  | cachedFinal
  deriving DecidableEq

/-- `_PendingPrefillEntry`. -/
structure PendingPrefillEntry where
  prefill : PrefillRequest
  resultMode : ResultMode

/-- The id of a queued chunk. -/
def PendingPrefillEntry.reqId (pending : PendingPrefillEntry) : ReqId := pending.prefill.reqId

/-- The chunk `[computed, computed + scheduled)` of `token_ids`, `final` being the result mode of
one that reaches the end. -/
def pendingChunk (reqId : ReqId) (tokenIds : List Token) (promptLen : ℕ) (sp : SamplingParams)
    (computedTokens scheduledTokens : ℕ) (final : ResultMode) : PendingPrefillEntry :=
  let targetLen := computedTokens + scheduledTokens
  let isIntermediate := targetLen < tokenIds.length
  { prefill :=
      { reqId := reqId
        tokenIds := (tokenIds.take targetLen).drop computedTokens
        samplingParams := sp
        promptLen := if isIntermediate then none else some promptLen
        startPos := computedTokens
        fullPromptTokenIds := none }
    resultMode := if isIntermediate then .intermediate else final }

/-- `_reconcile_request_lifecycle`, on the entry of one request. -/
def reconcileRequestLifecycle (out : SchedulerOutput) (runner : Runner Scored) : Runner Scored :=
  fun reqId =>
    let entry := runner reqId
    let evicted := reqId ∈ out.finishedReqIds
    { state := if evicted then none else entry.state
      tracked := if evicted then .none else entry.tracked
      awaitingReadmission :=
        (entry.awaitingReadmission || decide (reqId ∈ out.preemptedReqIds)) && !decide evicted &&
          !decide (reqId ∈ out.resumedReqIds) }

/-- `_collect_prefill_continuation`. -/
def collectPrefillContinuation (reqId : ReqId) (state : RequestRecord)
    (computedTokens scheduledTokens : ℕ) : PendingPrefillEntry :=
  pendingChunk reqId state.tokenIds state.promptLen state.samplingParams computedTokens
    scheduledTokens .cachedFinal

/-- `register`, where the sampling parameters have a `prompt_logprobs`. -/
def TrackerEntry.registerRequest (promptLogprobs : Option ℤ) (entry : TrackerEntry Scored) :
    TrackerEntry Scored :=
  match promptLogprobs with
  | some numLogprobs => entry.register numLogprobs
  | .none => entry

/-- `_readmit_request`. -/
def readmitRequest (scheduledTokens : ℕ) (newReq : NewRequestData) (entry : RunnerEntry Scored) :
    Except RunnerError (RunnerEntry Scored × List PendingPrefillEntry) :=
  match entry.state with
  | none => .error .keyError
  | some _ =>
      let state : RequestRecord :=
        ⟨newReq.prefillTokenIds, newReq.promptLen, newReq.samplingParams, 0⟩
      -- prompt logprobs are still owed while no output exists
      let tracked := if state.tokenIds.length = state.promptLen then
          entry.tracked.registerRequest newReq.promptLogprobs
        else entry.tracked
      .ok (⟨some state, tracked, false⟩, [collectPrefillContinuation newReq.reqId state
        newReq.numComputedTokens scheduledTokens])

/-- The body of `_handle_new_requests`. -/
def handleNewRequest (numScheduledTokens : ReqId → ℕ) (newReq : NewRequestData)
    (entry : RunnerEntry Scored) :
    Except RunnerError (RunnerEntry Scored × List PendingPrefillEntry) :=
  let tokenIds := newReq.promptTokenIds.getD []
  let scheduledTokens := numScheduledTokens newReq.reqId
  if tokenIds = [] then .ok (entry, [])
  else if entry.awaitingReadmission then readmitRequest scheduledTokens newReq entry
  else
    let promptLen := tokenIds.length
    let isIntermediate := newReq.numComputedTokens + scheduledTokens < promptLen
    -- a cached continuation in the next step has to find the request
    let state := if isIntermediate then some ⟨tokenIds, promptLen, newReq.samplingParams, 0⟩
      else entry.state
    .ok ({ entry with
        state := state
        tracked := entry.tracked.registerRequest newReq.promptLogprobs },
      [pendingChunk newReq.reqId tokenIds promptLen newReq.samplingParams newReq.numComputedTokens
        scheduledTokens .newFinal])

/-- The body of `_update_cached_request_blocks`. -/
def updateCachedRequest (cachedReq : CachedRequest) (entry : RunnerEntry Scored) :
    Except RunnerError (RunnerEntry Scored × List Unit) :=
  match entry.state with
  | none => .error .keyError
  | some state =>
      match cachedReq.resumed with
      | none => .ok (entry, [])
      | some allTokenIds => .ok ({ entry with
          state := some { state with tokenIds := allTokenIds, generatedTokens := 0 } }, [])

/-- Prefill continuation or decode work. -/
inductive CachedWork where
  | prefill (pending : PendingPrefillEntry)
  | decode (reqId : ReqId)

/-- The request of a piece of work. -/
def CachedWork.reqId : CachedWork → ReqId
  | .prefill pending => pending.reqId
  | .decode reqId => reqId

def CachedWork.prefill? : CachedWork → Option PendingPrefillEntry
  | .prefill pending => some pending
  | .decode _ => none

def CachedWork.decode? : CachedWork → Option ReqId
  | .prefill _ => none
  | .decode reqId => some reqId

/-- The body of `_collect_cached_requests`. -/
def collectCachedRequest (numScheduledTokens : ReqId → ℕ) (cachedReq : CachedRequest)
    (entry : RunnerEntry Scored) : Except RunnerError (RunnerEntry Scored × List CachedWork) :=
  match entry.state with
  | none => .error .keyError
  | some state =>
      .ok (entry, [if state.generatedTokens = 0 then
          .prefill (collectPrefillContinuation cachedReq.reqId state cachedReq.numComputedTokens
            (numScheduledTokens cachedReq.reqId))
        else .decode cachedReq.reqId])

/-- The body of `_build_prefill_pack`. -/
def packPrefillEntry (isMmRequest : ReqId → Bool) (newReqs : List NewRequestData)
    (pending : PendingPrefillEntry) (entry : RunnerEntry Scored) :
    Except RunnerError (RunnerEntry Scored × List PrefillRequest) :=
  let prefill := pending.prefill
  let packed := fun fullPrompt => { prefill with fullPromptTokenIds := fullPrompt }
  if 0 < prefill.startPos || isMmRequest prefill.reqId || entry.tracked.wants then
    match entry.state with
    | some state => .ok (entry, [packed (some state.tokenIds)])
    | none =>
        -- `new_reqs_by_id` keeps the last request of an id
        match newReqs.reverse.find? fun newReq => newReq.reqId = prefill.reqId with
        | none => .error (.noFullPrompt prefill.reqId)
        | some newReq =>
            match newReq.promptTokenIds with
            | none => .error (.noPromptTokenIds prefill.reqId)
            | some promptTokenIds => .ok (entry, [packed (some promptTokenIds)])
  else .ok (entry, [packed none])

/-- `_ExecutionBatch`, with the pack of its chunks and the runner behind it. -/
structure ExecutionBatch (Scored : Type) where
  runner : Runner Scored
  prefillEntries : List PendingPrefillEntry
  decodeReqs : List ReqId
  prefillPack : List PrefillRequest

/-- The cached requests that `execute_model` misses. -/
def missingCachedStateReqIds (out : SchedulerOutput) (runner : Runner Scored) : List ReqId :=
  (out.scheduledCachedReqs.map CachedRequest.reqId).filter fun reqId =>
    decide (reqId ∈ out.finishedReqIds) || (runner reqId).state.isNone

/-- `execute_model` up to the pack. -/
def executeModel (isMmRequest : ReqId → Bool) (out : SchedulerOutput) (runner : Runner Scored) :
    Except RunnerError (ExecutionBatch Scored) :=
  let missing := missingCachedStateReqIds out runner
  if missing ≠ [] then .error (.missingState (missing.take 16))
  else
    match forEach NewRequestData.reqId (handleNewRequest out.numScheduledTokens)
        out.scheduledNewReqs (reconcileRequestLifecycle out runner) with
    | .error e => .error e
    | .ok (runner, new) =>
        match forEach CachedRequest.reqId updateCachedRequest out.scheduledCachedReqs runner with
        | .error e => .error e
        | .ok (runner, _) =>
            match forEach CachedRequest.reqId (collectCachedRequest out.numScheduledTokens)
                out.scheduledCachedReqs runner with
            | .error e => .error e
            | .ok (runner, work) =>
                let entries := new ++ work.filterMap CachedWork.prefill?
                match forEach PendingPrefillEntry.reqId
                    (packPrefillEntry isMmRequest out.scheduledNewReqs) entries runner with
                | .error e => .error e
                | .ok (runner, pack) =>
                    .ok ⟨runner, entries, work.filterMap CachedWork.decode?, pack⟩

/-! ### The rows of a step -/

/-- What does not change from step to step. -/
structure RunnerConfig (H Row Scored : Type) where
  head : H → Row
  score : ℤ → Row → Token → Scored
  vocabSize : ℤ
  selectiveLogitsSupported : Bool
  intermediateForwardSupported : Bool
  hasDrafter : Bool

/-- What the model and the samplers make of a step: the hidden state of each position of each
request, the decode segments, and the tokens. -/
structure StepForward (H : Type) where
  branch : ForwardBranch
  isMmRequest : ReqId → Bool
  hidden : ReqId → ℕ → H
  segments : List PagedDecodeSegment
  decodeTokenIds : ReqId → List Token
  nextToken : ReqId → Token

/-- The hidden states of the `n` positions of a request from `start` on. -/
def StepForward.span (forward : StepForward H) (reqId : ReqId) (start n : ℕ) : List H :=
  (List.range n).map fun j => forward.hidden reqId (start + j)

/-- The packed hidden states: the decode segments, then the chunks. -/
def StepForward.packedHidden (forward : StepForward H) (pack : List PrefillRequest) : List H :=
  (forward.segments.flatMap fun segment =>
      forward.span segment.reqId segment.cacheStartPos segment.numQueryTokens) ++
    pack.flatMap fun pr => forward.span pr.reqId pr.startPos pr.tokenIds.length

/-- Whether the runner wants prompt logprobs of a request. -/
def Runner.wants (runner : Runner Scored) (reqId : ReqId) : Bool := (runner reqId).tracked.wants

/-- `intermediate_only`. -/
def intermediateOnly (cfg : RunnerConfig H Row Scored) (forward : StepForward H)
    (batch : ExecutionBatch Scored) : Bool :=
  decide (forward.branch = .text) && batch.decodeReqs.isEmpty && !batch.prefillPack.isEmpty &&
    batch.prefillPack.all (fun pr => pr.promptLen.isNone) && !cfg.hasDrafter

/-- The logits of a step and their boundaries; the intermediate forward has no logits. -/
def stepLogits (cfg : RunnerConfig H Row Scored) (forward : StepForward H)
    (batch : ExecutionBatch Scored) : Option (List Row) × List ℕ :=
  let pack := batch.prefillPack
  if intermediateOnly cfg forward batch && cfg.intermediateForwardSupported &&
      !needsPromptLogprobRows batch.runner.wants pack then
    (none, packedSeqlens forward.segments pack)
  else
    let layout := stepLogitsLayout cfg.selectiveLogitsSupported forward.branch batch.runner.wants
      forward.segments pack
    (some (projectLogits cfg.head (forward.packedHidden pack) layout.indices), layout.cuSeqlens)

/-- The body of `_gather_prefill_prompt_logprobs`, for the chunk `i` of the pack. -/
def gatherChunk (cfg : RunnerConfig H Row Scored) (logits : Option (List Row)) (cuSeqlens : List ℕ)
    (numDecodeSegments : ℕ) (chunk : PrefillRequest × ℕ) (entry : RunnerEntry Scored) :
    Except RunnerError (RunnerEntry Scored × List (ReqId × LogprobsTensors Scored)) :=
  let prefill := chunk.1
  if !entry.tracked.wants then .ok (entry, [])
  else
    match promptChunk (entry.state.map RequestRecord.promptLen) logits cuSeqlens numDecodeSegments
        chunk.2 prefill with
    | .error e => .error (.chunk e)
    | .ok observed =>
        match entry.tracked.observeChunk cfg.score cfg.vocabSize observed with
        | .error e => .error (.tracker e)
        | .ok (tracked, tensors) => .ok ({ entry with tracked := tracked },
            tensors.toList.map fun tensors => (prefill.reqId, tensors))

/-- The update of a decode row. -/
def updateDecodeState (decodeTokenIds : ReqId → List Token) (reqId : ReqId)
    (entry : RunnerEntry Scored) : Except RunnerError (RunnerEntry Scored × List Unit) :=
  match entry.state with
  | none => .error .keyError
  | some state =>
      let sampledIds := decodeTokenIds reqId
      .ok ({ entry with state := some { state with
        tokenIds := state.tokenIds ++ sampledIds
        generatedTokens := state.generatedTokens + sampledIds.length } }, [])

/-- The postprocessing of a chunk. -/
def postprocessChunk (nextToken : ReqId → Token) (chunk : PendingPrefillEntry × PrefillRequest)
    (entry : RunnerEntry Scored) : Except RunnerError (RunnerEntry Scored × List Unit) :=
  let prefill := chunk.2
  match chunk.1.resultMode with
  | .intermediate => .ok (entry, [])
  | .newFinal =>
      match prefill.promptLen with
      | none => .error .assertPromptLen
      | some promptLen =>
          let fullPrompt := prefill.fullPromptTokenIds.getD prefill.tokenIds
          .ok ({ entry with state := some ⟨fullPrompt ++ [nextToken prefill.reqId], promptLen,
            prefill.samplingParams, 1⟩ }, [])
  | .cachedFinal =>
      match entry.state with
      | none => .error .keyError
      | some state =>
          let tokenIds := state.tokenIds ++ [nextToken prefill.reqId]
          .ok ({ entry with state := some { state with
            tokenIds := tokenIds
            generatedTokens := tokenIds.length - state.promptLen } }, [])

/-- The forward of the pack, and `_sample_paged_batch`: the runner behind it, and
`prompt_logprobs_dict`. -/
def samplePagedBatch (cfg : RunnerConfig H Row Scored) (forward : StepForward H)
    (batch : ExecutionBatch Scored) :
    Except RunnerError (Runner Scored × List (ReqId × LogprobsTensors Scored)) :=
  let logits := stepLogits cfg forward batch
  let gather := forEach (fun chunk : PrefillRequest × ℕ => chunk.1.reqId)
    (gatherChunk cfg logits.1 logits.2 forward.segments.length) batch.prefillPack.zipIdx
  if intermediateOnly cfg forward batch then
    if !batch.decodeReqs.isEmpty ||
        batch.prefillEntries.any fun pending => decide (pending.resultMode ≠ .intermediate) then
      .error .routing
    else gather batch.runner
  else
    match forEach id (updateDecodeState forward.decodeTokenIds) batch.decodeReqs batch.runner with
    | .error e => .error e
    | .ok (runner, _) =>
        match gather runner with
        | .error e => .error e
        | .ok (runner, promptLogprobsDict) =>
            match forEach (fun chunk : PendingPrefillEntry × PrefillRequest => chunk.2.reqId)
                (postprocessChunk forward.nextToken)
                (batch.prefillEntries.zip batch.prefillPack) runner with
            | .error e => .error e
            | .ok (runner, _) => .ok (runner, promptLogprobsDict)

/-- One step, `execute_model` and then `sample_tokens`. -/
def runnerStep (cfg : RunnerConfig H Row Scored) (forward : StepForward H) (out : SchedulerOutput)
    (runner : Runner Scored) :
    Except RunnerError (Runner Scored × List (ReqId × LogprobsTensors Scored)) :=
  match executeModel forward.isMmRequest out runner with
  | .error e => .error e
  | .ok batch =>
      -- without paged work there is no forward
      if batch.prefillEntries.isEmpty && batch.decodeReqs.isEmpty then .ok (batch.runner, [])
      else samplePagedBatch cfg forward batch

end PromptLogprobs
end VllmMetal
