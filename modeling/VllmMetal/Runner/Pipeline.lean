import VllmMetal.Runner.Sampled

/-!
# The decode pipeline

An eligible step submits its sample and does not wait for it: the token lists get placeholders, and
the values land later, through references to the request states, when the output is asked for or
when the next step must not see a placeholder.  The next eligible step takes its input row from the
pending tokens.

## Main definitions

* `RunnerCapabilities`, `SchedulerStepShape`, `SamplingShape`, `evaluateGate` — the gate.
* `Pipeline` — the pending step, and the output that was resolved.
* `barrier`, `submit`, `resolve`, `assembleDecodeInputIds` — its operations.
* `Runner`, `executeModel`, `sampleTokens`, `getOutput` — the runner around it.
-/

namespace VllmMetal
namespace PagedRunner

open SpecDecode Multimodal

/-! ### The gate -/

/-- The first of these facts that holds. -/
def firstReason (blockers : List (Bool × String)) : Option String :=
  (blockers.find? Prod.fst).map Prod.snd

/-- Serve-level facts about the runner. -/
structure RunnerCapabilities where
  pipelineEnabled : Bool
  useAsyncScheduling : Bool
  pagedRuntimeActive : Bool
  isPooling : Bool
  ppActive : Bool
  hybridWithoutLazyGdn : Bool
  specDecodeConfigured : Bool
  uniprocExecutor : Bool

/-- The first capability that rules the pipeline out. -/
def RunnerCapabilities.blockReason (c : RunnerCapabilities) : Option String :=
  firstReason
    [(!c.pipelineEnabled, "pipeline disabled"),
     (!c.useAsyncScheduling, "async scheduling off"),
     (!c.pagedRuntimeActive, "paged runtime not initialized"),
     (c.isPooling, "pooling model"),
     (c.ppActive, "pipeline parallelism"),
     (c.hybridWithoutLazyGdn, "hybrid model without lazy GDN kernels"),
     (c.specDecodeConfigured, "speculative decode"),
     (!c.uniprocExecutor, "non-uniproc executor")]

/-- The shape of one scheduled step. -/
structure SchedulerStepShape where
  hasNewRequests : Bool
  hasPrefillPhaseRequests : Bool
  hasResumedRequests : Bool
  hasPreemptedRequests : Bool
  hasEncoderInputs : Bool
  hasSpecTokens : Bool
  hasStructuredOutput : Bool
  hasMmDecode : Bool
  decodeReqIds : List ReqId

/-- The first step-shape fact that rules the pipeline out. -/
def SchedulerStepShape.blockReason (s : SchedulerStepShape) : Option String :=
  firstReason
    [(s.hasNewRequests, "new requests scheduled"),
     (s.hasPrefillPhaseRequests, "prefill-phase requests"),
     (s.hasResumedRequests, "resumed requests"),
     (s.hasPreemptedRequests, "preempted requests"),
     (s.hasEncoderInputs, "encoder inputs scheduled"),
     (s.hasSpecTokens, "speculative decode"),
     (s.hasStructuredOutput, "structured output"),
     (s.hasMmDecode, "multimodal decode state")]

/-- Sampling-side facts of a step. -/
structure SamplingShape where
  nativeGreedy : Bool
  nativeRandom : Bool

/-- The first sampling fact that rules the pipeline out. -/
def SamplingShape.blockReason (s : SamplingShape) : Option String :=
  if s.nativeGreedy || s.nativeRandom then none else some "non-native sampling"

/-! ### The pipeline -/

/-- `PendingBackfillEntry`: where one deferred value lands. -/
structure PendingBackfillEntry where
  reqId : ReqId
  /-- The reference to the request state. -/
  state : ℕ
  row : ℕ
  tokenIndex : ℕ
  outputIdx : ℕ

/-- `PendingSampleStep`: one submitted step whose tokens are not on the host. -/
structure PendingSampleStep where
  tokens : List Token
  entries : List PendingBackfillEntry
  /-- The output slots of the batch. -/
  slots : StepOutput

/-- The value that lands in an entry. -/
def PendingSampleStep.value (pending : PendingSampleStep) (entry : PendingBackfillEntry) : Token :=
  pending.tokens.getD entry.row 0

/-- The output of the step, once the values are there. -/
def PendingSampleStep.output (pending : PendingSampleStep) : StepOutput :=
  pending.entries.foldl (fun slots entry =>
    slots.modify entry.outputIdx fun slot => (slot.1, [pending.value entry])) pending.slots

/-- `DecodePipeline`. -/
structure Pipeline where
  pending : Option PendingSampleStep
  pendingSerial : ℕ
  resolved : Option (ℕ × StepOutput)
  rows : Dict ReqId ℕ
  stepEligible : Bool

/-- The pipeline of a new runner. -/
def Pipeline.init : Pipeline := ⟨none, 0, none, ∅, false⟩

/-- `state.token_ids[token_index] = value`. -/
def setToken (tokenIndex : ℕ) (value : Token) (state : RequestState) : RequestState :=
  { state with tokenIds := state.tokenIds.set tokenIndex value }

/-- One value lands. -/
def backfill (pending : PendingSampleStep) (item : PendingBackfillEntry) (entry : Entry) :
    Except RunnerError (Entry × List Unit) :=
  match entry.states.deref item.state with
  | none => .error .keyError
  | some state =>
      if state.tokenIds[item.tokenIndex]? ≠ some pendingTokenPlaceholder then
        .error (.overwritten item.reqId)
      else .ok ({ entry with
        states :=
          entry.states.modifyAt item.state (setToken item.tokenIndex (pending.value item)) },
          [])

/-- `barrier`: the pending step, if there is one, is resolved. -/
def barrier (p : Pipeline) (entries : Entries) : Except RunnerError (Pipeline × Entries) :=
  match p.pending with
  | none => .ok (p, entries)
  | some pending =>
      match forEach PendingBackfillEntry.reqId (backfill pending) pending.entries entries with
      | .error e => .error e
      | .ok (entries, _) => .ok ({ p with
          pending := none
          rows := ∅
          resolved := some (p.pendingSerial, pending.output) }, entries)

/-- `begin_step`. -/
def beginStep (eligible : Bool) (p : Pipeline) (entries : Entries) :
    Except RunnerError (Pipeline × Entries) :=
  if eligible then .ok ({ p with stepEligible := true }, entries)
  else barrier { p with stepEligible := false } entries

/-- `submit`; the serial of the step is `pendingSerial` afterwards. -/
def submit (p : Pipeline) (step : PendingSampleStep) (entries : Entries) :
    Except RunnerError (Pipeline × Entries) :=
  if !p.stepEligible then .error .submitIneligible
  else
    match p.resolved with
    | some (serial, _) => .error (.slotOccupied serial)
    | none =>
        match barrier p entries with
        | .error e => .error e
        | .ok (p, entries) => .ok ({ p with
            pending := some step
            pendingSerial := p.pendingSerial + 1
            rows := step.entries.foldl (fun rows e => rows.set e.reqId e.row) ∅ }, entries)

/-- `resolve`, the `get_output` of a deferred step. -/
def resolve (serial : ℕ) (p : Pipeline) (entries : Entries) :
    Except RunnerError (StepOutput × Pipeline × Entries) :=
  let fromPending := fun _ : Unit =>
    if p.pending.isSome && p.pendingSerial == serial then
      match barrier p entries with
      | .error e => .error e
      | .ok (p, entries) =>
          match p.resolved with
          | none => .error (.noOutput serial)
          | some (_, output) => .ok (output, { p with resolved := none }, entries)
    else .error (.noOutput serial)
  match p.resolved with
  | none => fromPending ()
  | some (s, output) =>
      if s = serial then .ok (output, { p with resolved := none }, entries) else fromPending ()

/-- The row of the pending tokens that a decode segment takes its token from. -/
def pendingRow (rows : Dict ReqId ℕ) (segment : PagedDecodeSegment) : Except RunnerError ℕ :=
  if segment.numQueryTokens ≠ 1 then .error (.multiTokenSegment segment.reqId)
  else
    match rows.get? segment.reqId with
    | none => .error (.noPendingRow segment.reqId)
    | some row => .ok row

/-- `assemble_decode_input_ids`. -/
def assembleDecodeInputIds (p : Pipeline) (segments : List PagedDecodeSegment) :
    Except RunnerError (Option (List Token)) :=
  match p.pending with
  | none => .ok none
  | some pending =>
      if !p.stepEligible || segments.isEmpty then .ok none
      else
        match segments.mapM (pendingRow p.rows) with
        | .error e => .error e
        | .ok perm => .ok (some (perm.map fun row => pending.tokens.getD row 0))

/-- `_pending_coverage_reason`. -/
def pendingCoverageReason (p : Pipeline) (step : SchedulerStepShape) : Option String :=
  match p.pending with
  | none => none
  | some _ =>
      if step.decodeReqIds.any fun reqId => (p.rows.get? reqId).isNone then
        some "cached request without a pending row"
      else none

/-- `evaluate_gate`: the first reason against deferring the step. -/
def evaluateGate (p : Pipeline) (capabilities : RunnerCapabilities) (step : SchedulerStepShape)
    (sampling : SamplingShape) : Option String :=
  capabilities.blockReason <|> step.blockReason <|> sampling.blockReason <|>
    pendingCoverageReason p step

/-! ### The runner's side of the gate -/

/-- What `_evaluate_pipeline_gate` collects of the cached requests. -/
structure CachedFacts where
  decodeReqIds : List ReqId
  /-- Sampling parameters and output lengths of the decode requests. -/
  decodeRows : List (SamplingParams × ℤ)
  hasPrefillPhase : Bool
  hasMmDecode : Bool
  statesMissing : Bool

/-- The loop of `_evaluate_pipeline_gate`, which ends at the first request without a state. -/
def cachedFacts (entries : Entries) : List ReqId → CachedFacts
  | [] => ⟨[], [], false, false, false⟩
  | reqId :: reqIds =>
      match (entries reqId).state with
      | none => ⟨[], [], false, false, true⟩
      | some state =>
          let rest := cachedFacts entries reqIds
          if state.generatedTokens = 0 then { rest with hasPrefillPhase := true }
          else
            { rest with
              decodeReqIds := reqId :: rest.decodeReqIds
              decodeRows := (state.samplingParams, state.outputLength) :: rest.decodeRows
              hasMmDecode := state.mropePositionDelta.isSome || rest.hasMmDecode }

/-- The serve-level facts of a runner with a paged runtime that does not pool. -/
structure PipelineConfig extends RunnerConfig where
  pipelineEnabled : Bool
  useAsyncScheduling : Bool
  hybridWithoutLazyGdn : Bool
  hasSpeculativeConfig : Bool
  uniprocExecutor : Bool

/-- The capabilities of the runner. -/
def PipelineConfig.capabilities (cfg : PipelineConfig) : RunnerCapabilities where
  pipelineEnabled := cfg.pipelineEnabled
  useAsyncScheduling := cfg.useAsyncScheduling
  pagedRuntimeActive := true
  isPooling := false
  ppActive := cfg.ppActive
  hybridWithoutLazyGdn := cfg.hybridWithoutLazyGdn
  specDecodeConfigured := cfg.hasSpeculativeConfig || cfg.hasDrafter
  uniprocExecutor := cfg.uniprocExecutor

/-- The shape of a step. -/
def stepShape (world : StepWorld) (out : SchedulerOutput) (facts : CachedFacts) :
    SchedulerStepShape where
  hasNewRequests := !out.scheduledNewReqs.isEmpty || facts.statesMissing
  hasPrefillPhaseRequests := facts.hasPrefillPhase
  hasResumedRequests := !out.resumedReqIds.isEmpty
  hasPreemptedRequests := !out.preemptedReqIds.isEmpty
  hasEncoderInputs := out.hasEncoderInputs
  hasSpecTokens := !out.scheduledSpecDecodeTokens.keys.isEmpty
  hasStructuredOutput := out.hasStructuredOutputRequests
  hasMmDecode := facts.hasMmDecode || world.mmForwardForced
  decodeReqIds := facts.decodeReqIds

/-- The sampling side of a step. -/
def samplingShape (cfg : PipelineConfig) (facts : CachedFacts) : SamplingShape where
  nativeGreedy := !facts.statesMissing && paramsAllowNativeGreedy facts.decodeRows
  nativeRandom := cfg.nativeSamplingEnabled && !facts.statesMissing &&
    paramsAllowNativeRandom facts.decodeRows

/-- `_evaluate_pipeline_gate`. -/
def stepEligible (cfg : PipelineConfig) (world : StepWorld) (out : SchedulerOutput) (p : Pipeline)
    (entries : Entries) : Bool :=
  let facts := cachedFacts entries (out.scheduledCachedReqs.map CachedRequest.reqId)
  (evaluateGate p cfg.capabilities (stepShape world out facts) (samplingShape cfg facts)).isNone

/-! ### The runner -/

/-- The runner between two calls. -/
structure Runner (Row : Type) where
  entries : Entries
  pipeline : Pipeline
  /-- What the model has seen. -/
  history : List StepRecord
  executeModelState : Option (PagedForwardState Row)

/-- A runner before its first step. -/
def Runner.init (Row : Type) : Runner Row := ⟨fun _ => .unknown, .init, [], none⟩

variable {Row : Type}

/-- The input row of a step. -/
def stepInputIds (p : Pipeline) (segments : List PagedDecodeSegment) (pack : List PrefillRequest) :
    Except RunnerError (List Token) :=
  match assembleDecodeInputIds p segments with
  | .error e => .error e
  | .ok none => .ok (hostInputIds segments pack)
  | .ok (some inputIds) => if !pack.isEmpty then .error .pipelinedPrefill else .ok inputIds

/-- The forward of a step that has paged work. -/
def forwardBatch (target : Target Row) (cfg : RunnerConfig) (world : StepWorld)
    (out : SchedulerOutput) (p : Pipeline) (history : List StepRecord) (work : List Work)
    (entries : Entries) : Except RunnerError (Runner Row) :=
  match buildPrefillPack world.isMmRequest world.wantsPromptLogprobs out.scheduledNewReqs entries
      (work.filterMap Work.prefill?) with
  | .error e => .error e
  | .ok pack =>
      match stepSegments out entries (work.filterMap Work.decode?) with
      | .error e => .error e
      | .ok segments =>
          match stepInputIds p segments pack with
          | .error e => .error e
          | .ok inputIds =>
              match startPagedForward target cfg world out work pack segments inputIds entries
                  history with
              | .error e => .error e
              | .ok (state, entries, history) => .ok ⟨entries, p, history, some state⟩

/-- Whether a batch has paged work. -/
def hasPagedWork (work : List Work) : Bool :=
  !(work.filterMap Work.prefill?).isEmpty || !(work.filterMap Work.decode?).isEmpty

/-- `execute_model`, once the gate has decided; a step without paged work has its output at once. -/
def runStep (target : Target Row) (cfg : RunnerConfig) (world : StepWorld) (out : SchedulerOutput)
    (p : Pipeline) (entries : Entries) (history : List StepRecord) :
    Except RunnerError (Runner Row × Option StepOutput) :=
  match collectBatch cfg.nonLastStage out entries with
  | .error e => .error e
  | .ok (entries, work) =>
      if hasPagedWork work then
        match forwardBatch target cfg world out p history work entries with
        | .error e => .error e
        | .ok runner => .ok (runner, none)
      else if out.hasStructuredOutputRequests then .error .structuredOutput
      else .ok (⟨entries, p, history ++ [⟨out, none⟩], none⟩, some (prefillOutputs work []))

/-- `execute_model`. -/
def executeModel (target : Target Row) (cfg : PipelineConfig) (world : StepWorld)
    (out : SchedulerOutput) (r : Runner Row) :
    Except RunnerError (Runner Row × Option StepOutput) :=
  match beginStep (stepEligible cfg world out r.pipeline r.entries) r.pipeline r.entries with
  | .error e => .error e
  | .ok (p, entries) => runStep target cfg.toRunnerConfig world out p entries r.history

/-- The update of a request whose sample is submitted. -/
def appendPlaceholder (slots : ℕ) (item : ReqId × ℕ) (entry : Entry) :
    Except RunnerError (Entry × List PendingBackfillEntry) :=
  match entry.state with
  | none => .error .keyError
  | some state =>
      let next := state.extend [pendingTokenPlaceholder]
      .ok ({ entry with
          states := entry.states.modify fun state => state.extend [pendingTokenPlaceholder]
          seqLen := some (entry.seqLen.getD (next.tokenIds.length - 2) + 1) },
        [{ reqId := item.1
           state := entry.states.ref
           row := item.2
           tokenIndex := next.tokenIds.length - 1
           outputIdx := slots + item.2 }])

/-- The tokens of a deferred sample. -/
def deferredTokens (target : Target Row) (st : PagedForwardState Row) (entries : Entries) :
    List Token :=
  (decodeStates entries st.decodeReqs).mapIdx fun i req =>
    target.nativeSample (st.logits i) req.2.samplingParams req.2.outputLength

/-- `_submit_deferred_decode_sample`. -/
def submitDeferredDecodeSample (target : Target Row) (st : PagedForwardState Row) (r : Runner Row) :
    Except RunnerError (Runner Row) :=
  if !st.pack.isEmpty || (st.segments.map PagedDecodeSegment.numQueryTokens).sum ≠
      st.decodeReqs.length then .error .notPureDecode
  else
    let tokens := deferredTokens target st r.entries
    let slots := prefillOutputs st.work []
    match forEach Prod.fst (appendPlaceholder slots.length) st.decodeReqs.zipIdx r.entries with
    | .error e => .error e
    | .ok (entries, pendingEntries) =>
        match submit r.pipeline ⟨tokens, pendingEntries,
            slots ++ st.decodeReqs.map fun reqId => (reqId, [])⟩ entries with
        | .error e => .error e
        | .ok (p, entries) => .ok ⟨entries, p, r.history, none⟩

/-- What `sample_tokens` returns. -/
inductive Returned where
  | output (output : StepOutput)
  | deferred (serial : ℕ)

/-- `sample_tokens`; the grammar output says what the bitmask makes of the rows. -/
def sampleTokens (target : Target Row) (cfg : PipelineConfig)
    (grammarOutput : Option ((ℕ → Row) → ℕ → Row)) (r : Runner Row) :
    Except RunnerError (Runner Row × Returned) :=
  match r.executeModelState with
  | none => .error .noPagedState
  | some st =>
      if cfg.nonLastStage then .ok ({ r with executeModelState := none }, .output [])
      else if r.pipeline.stepEligible then
        if grammarOutput.isSome then .error .grammarOutput
        else
          match submitDeferredDecodeSample target st r with
          | .error e => .error e
          | .ok r => .ok (r, .deferred r.pipeline.pendingSerial)
      else
        let st := match grammarOutput with
          | none => st
          | some mask => { st with logits := mask st.logits }
        match samplePagedBatch target st r.entries with
        | .error e => .error e
        | .ok (entries, output) => .ok (⟨entries, r.pipeline, r.history, none⟩, .output output)

/-- `get_output` of a deferred step. -/
def getOutput (serial : ℕ) (r : Runner Row) : Except RunnerError (Runner Row × StepOutput) :=
  match resolve serial r.pipeline r.entries with
  | .error e => .error e
  | .ok (output, p, entries) => .ok ({ r with pipeline := p, entries := entries }, output)

end PagedRunner
end VllmMetal
