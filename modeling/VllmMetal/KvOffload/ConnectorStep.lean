import VllmMetal.Lib.Raising
import VllmMetal.Lib.Run
import VllmMetal.Runner.Request

/-!
# The KV connector step of the model runner

`MetalModelRunner` opens a KV connector step in `execute_model` and closes it on the way out:
at the end of `sample_tokens`, when a deferred sample is submitted, on a step without a forward,
or, when a call raised in between, at the next step or at shutdown.  The model follows the
exits of these methods; whatever else they do only decides which exit is taken, and is drawn
from the state's `world`, one bit for each point that can raise.

## Main definitions

* `ConnectorCall` — the calls made on the connector, and whether the call itself raised.
* `KvRunner` — the state; `executeModel`, `sampleTokens`, `finishKvConnectorStep`, `getOutput`.
* `StepCalls` — the calls of one whole connector step.

## Main results

* `closeKvConnectorStep_spec` — closing completes the step that is open.
* `kv_connector_steps_whole` — **over every run the connector sees whole steps only**.
-/

namespace VllmMetal.KvOffload

/-- The calls on the connector; the flag says that the call itself raised. -/
inductive ConnectorCall
  | preForward (finishedReqIds : List ReqId) (raised : Bool)
  | finishForward (raised : Bool)
  | postForward (finishedReqIds : List ReqId) (raised : Bool)
  | noForward (raised : Bool)
  deriving DecidableEq

/-- What kind of runner it is. -/
structure RunnerKind where
  /-- `_uses_encoder_pooling_backend()`. -/
  encoderPooling : Bool
  /-- `_diffusion is not None`. -/
  diffusion : Bool
  isPooling : Bool
  /-- `is_non_last_stage(pp)`. -/
  nonLastStage : Bool

/-- A KV output, named by the position of the `post_forward` that returned it. -/
abbrev KvOutput := ℕ

/-- The fields of the runner and its decode pipeline on the way of a connector step. -/
structure KvRunner where
  kind : RunnerKind
  /-- `_kv_connector_driver is not None`. -/
  registered : Bool
  /-- `_kv_step_finished_req_ids`. -/
  kvStepFinishedReqIds : Option (List ReqId)
  /-- `_execute_model_state is not None`. -/
  executeModelState : Bool
  /-- `_sample_failure is not None`. -/
  sampleFailure : Bool
  stepEligible : Bool
  /-- The KV output of the pending deferred step, if there is one. -/
  pending : Option (Option KvOutput)
  pendingSerial : ℕ
  /-- The serial of the resolved output that is held back, if there is one. -/
  resolved : Option ℕ
  /-- The calls made on the connector so far. -/
  calls : List ConnectorCall
  /-- The KV outputs attached to the runner outputs built so far. -/
  outputs : List (Option KvOutput)
  /-- What the rest of the program decides, in order. -/
  world : ℕ → Bool

/-- The fields of `SchedulerOutput` on the way of a connector step. -/
structure StepInput where
  finishedReqIds : List ReqId
  totalNumScheduledTokens : ℕ

/-- A program over the runner. -/
abbrev KvProg := Prog KvRunner

open Prog

/-- The next decision of the rest of the program. -/
def ask : KvProg Bool := do
  let s ← read
  update fun s => { s with world := fun n => s.world (n + 1) }
  pure (s.world 0)

/-- A part of the program that does not touch the connector and can raise. -/
def mayRaise : KvProg Unit := do
  let raised ← ask
  raiseIf raised

/-! ### The connector -/

/-- `_kv_connector`: raises when the caches were not registered. -/
def kvConnector : KvProg Unit := do
  let s ← read
  raiseIf !s.registered

/-- A call on the connector, which can raise itself. -/
def connectorCall (call : Bool → ConnectorCall) : KvProg Unit := do
  let raised ← ask
  update fun s => { s with calls := s.calls ++ [call raised] }
  raiseIf raised

/-- `post_forward`, with what it returns. -/
def postForward (finishedReqIds : List ReqId) : KvProg (Option KvOutput) := do
  let s ← read
  connectorCall (.postForward finishedReqIds)
  let hasOutput ← ask
  pure (if hasOutput then some s.calls.length else none)

/-- `_close_kv_connector_step`. -/
def closeKvConnectorStep : KvProg (Option KvOutput) := do
  let s ← read
  update fun s => { s with kvStepFinishedReqIds := none }
  match s.kvStepFinishedReqIds with
  | none => pure none
  | some finishedReqIds => do
    kvConnector
    connectorCall .finishForward
    postForward finishedReqIds

/-- `_close_leaked_kv_connector_step`: what the close returns is dropped. -/
def closeLeakedKvConnectorStep : KvProg Unit := do
  let s ← read
  if s.kvStepFinishedReqIds.isSome then do
    let _ ← closeKvConnectorStep
    pure ()
  else pure ()

/-- `_kv_connector_start_step`. -/
def kvConnectorStartStep (finishedReqIds : List ReqId) : KvProg Unit := do
  closeLeakedKvConnectorStep
  kvConnector
  connectorCall (.preForward finishedReqIds)
  update fun s => { s with kvStepFinishedReqIds := some finishedReqIds }

/-- `finish_kv_connector_step`, with a transfer group configured. -/
def finishKvConnectorStep : KvProg (Option KvOutput) := do
  let s ← read
  if s.kvStepFinishedReqIds.isNone then pure none else closeKvConnectorStep

/-- `_attach_kv_connector_output`, on a new runner output. -/
def attachKvConnectorOutput : KvProg Unit := do
  let output ← finishKvConnectorStep
  update fun s => { s with outputs := s.outputs ++ [output] }

/-! ### The decode pipeline -/

/-- `DecodePipeline._resolve_pending`, of a pending step with the KV output `output`. -/
def resolvePending (output : Option KvOutput) : KvProg Unit := do
  update fun s => { s with pending := none }
  mayRaise
  update fun s =>
    { s with outputs := s.outputs ++ [output], resolved := some s.pendingSerial }

/-- `DecodePipeline.barrier`. -/
def barrier : KvProg Unit := do
  let s ← read
  match s.pending with
  | none => pure ()
  | some output => resolvePending output

/-- `DecodePipeline.begin_step`. -/
def beginStep (eligible : Bool) : KvProg Unit := do
  update fun s => { s with stepEligible := eligible }
  if eligible then pure () else barrier

/-- `DecodePipeline.submit`. -/
def submit (output : Option KvOutput) : KvProg Unit := do
  let s ← read
  raiseIf !s.stepEligible
  raiseIf s.resolved.isSome
  barrier
  update fun s => { s with pending := some output, pendingSerial := s.pendingSerial + 1 }

/-- `DecodePipeline.resolve`, which `get_output` calls. -/
def getOutput (serial : ℕ) : KvProg Unit := do
  let s ← read
  if s.resolved = some serial then
    update fun s => { s with resolved := none }
  else if s.pending.isSome ∧ s.pendingSerial = serial then do
    barrier
    update fun s => { s with resolved := none }
  else raise

/-! ### The model runner -/

/-- `_sample_paged_batch`. -/
def samplePagedBatch : KvProg Unit := do
  update fun s => { s with executeModelState := false }
  mayRaise

/-- The end of `execute_model`, from the new requests on. -/
def runBatch (kind : RunnerKind) : KvProg Unit := do
  mayRaise
  let hasPagedWork ← ask
  if hasPagedWork then do
    -- the forward raises before it stores the state for the sampler
    mayRaise
    update fun s => { s with executeModelState := true }
    if kind.isPooling then do
      samplePagedBatch
      mayRaise
      attachKvConnectorOutput
    else pure ()
  else do
    mayRaise
    attachKvConnectorOutput

/-- `execute_model`, with a transfer group configured. -/
def executeModel (step : StepInput) : KvProg Unit := do
  let s ← read
  raiseIf s.sampleFailure
  mayRaise
  if s.kind.encoderPooling || s.kind.diffusion then
    -- a path of its own, without a connector step
    mayRaise
  else do
    let eligible ← ask
    beginStep eligible
    -- encoder outputs, the request lifecycle, the inputs that are rejected
    mayRaise
    if step.totalNumScheduledTokens = 0 then do
      mayRaise
      closeLeakedKvConnectorStep
      kvConnector
      connectorCall .noForward
    else do
      kvConnectorStartStep step.finishedReqIds
      runBatch s.kind

/-- `_submit_deferred_decode_sample`: the connector step is closed at submit. -/
def submitDeferredDecodeSample : KvProg Unit := do
  update fun s => { s with executeModelState := false }
  mayRaise
  let output ← finishKvConnectorStep
  submit output

/-- `_sample_tokens`. -/
def sampleTokensBody (grammarOutput : Bool) : KvProg Unit := do
  let s ← read
  if s.executeModelState then
    if s.kind.nonLastStage then do
      raiseIf s.kvStepFinishedReqIds.isSome
      update fun s => { s with executeModelState := false }
      mayRaise
    else if s.stepEligible then do
      raiseIf grammarOutput
      submitDeferredDecodeSample
    else do
      samplePagedBatch
      mayRaise
      attachKvConnectorOutput
  else do
    let _ ← finishKvConnectorStep
    pure ()

/-- `sample_tokens`: a failure is remembered and raised again. -/
def sampleTokens (grammarOutput : Bool) : KvProg Unit :=
  (sampleTokensBody grammarOutput).onRaise fun s => { s with sampleFailure := true }

/-- The calls on the runner. -/
inductive KvCall
  | registerKvConnectorCaches
  | executeModel (step : StepInput)
  | sampleTokens (grammarOutput : Bool)
  | getOutput (serial : ℕ)
  | finishKvConnectorStep

/-- What a call does. -/
def KvCall.prog : KvCall → KvProg Unit
  | .registerKvConnectorCaches => do
    mayRaise
    update fun s => { s with registered := true }
  | .executeModel step => KvOffload.executeModel step
  | .sampleTokens grammarOutput => KvOffload.sampleTokens grammarOutput
  | .getOutput serial => KvOffload.getOutput serial
  | .finishKvConnectorStep => do
    let _ ← KvOffload.finishKvConnectorStep
    pure ()

/-- A call was made, whether it returned or raised. -/
def KvStep (s : KvRunner) (call : KvCall) (s' : KvRunner) : Prop := (call.prog s).2 = s'

/-! ### Whole steps -/

/-- The calls of one whole connector step.  A call on the connector that raises itself ends its
step. -/
inductive StepCalls : List ConnectorCall → Prop
  /-- The step is opened, finished, and closed with the requests it was opened with. -/
  | closed (finishedReqIds : List ReqId) (raised : Bool) :
      StepCalls [.preForward finishedReqIds false, .finishForward false,
        .postForward finishedReqIds raised]
  /-- A step without a forward. -/
  | noForward (raised : Bool) : StepCalls [.noForward raised]
  /-- Opening the step raised. -/
  | preRaised (finishedReqIds : List ReqId) : StepCalls [.preForward finishedReqIds true]
  /-- Finishing the step raised. -/
  | finishRaised (finishedReqIds : List ReqId) :
      StepCalls [.preForward finishedReqIds false, .finishForward true]

/-- The calls of the step that is open, if one is. -/
def openCalls : Option (List ReqId) → List ConnectorCall
  | none => []
  | some finishedReqIds => [.preForward finishedReqIds false]

/-- The calls are whole steps, and then `rest`. -/
def Whole (calls rest : List ConnectorCall) : Prop :=
  ∃ steps : List (List ConnectorCall), (∀ step ∈ steps, StepCalls step) ∧
    calls = steps.flatten ++ rest

theorem Whole.snoc {calls rest : List ConnectorCall} (h : Whole calls rest)
    (call : ConnectorCall) : Whole (calls ++ [call]) (rest ++ [call]) := by
  obtain ⟨steps, hsteps, rfl⟩ := h
  exact ⟨steps, hsteps, by rw [List.append_assoc]⟩

/-- A rest that is a whole step is one step more. -/
theorem Whole.close {calls rest : List ConnectorCall} (h : Whole calls rest)
    (hstep : StepCalls rest) : Whole calls [] := by
  obtain ⟨steps, hsteps, rfl⟩ := h
  refine ⟨steps ++ [rest], ?_, by simp⟩
  intro step hmem
  rcases List.mem_append.mp hmem with hmem | hmem
  · exact hsteps step hmem
  · rw [List.mem_singleton] at hmem
    exact hmem ▸ hstep

/-- The KV outputs that runner outputs carry or the pending step will. -/
def KvRunner.held (s : KvRunner) : List KvOutput :=
  s.outputs.filterMap id ++ (s.pending.bind id).toList

/-- A `post_forward` returned the output. -/
def KvRunner.Returned (s : KvRunner) (output : KvOutput) : Prop :=
  ∃ finishedReqIds, s.calls[output]? = some (.postForward finishedReqIds false)

/-- No KV output is held twice, and each was returned by the connector. -/
structure OutputsOk (s : KvRunner) : Prop where
  nodup : s.held.Nodup
  returned : ∀ output ∈ s.held, s.Returned output

/-- An output that was returned and is not held. -/
def Fresh (output : Option KvOutput) (s : KvRunner) : Prop :=
  ∀ k, output = some k → k ∉ s.held ∧ s.Returned k

/-- **The invariant between the calls**: the calls on the connector are whole steps and the
opening of the step that is open. -/
structure StepOk (s : KvRunner) : Prop where
  whole : Whole s.calls (openCalls s.kvStepFinishedReqIds)
  registered : s.kvStepFinishedReqIds.isSome → s.registered = true
  outputs : OutputsOk s

/-- No step is open, and the last calls are `rest`. -/
structure AfterCalls (rest : List ConnectorCall) (s : KvRunner) : Prop where
  whole : Whole s.calls rest
  closed : s.kvStepFinishedReqIds = none
  registered : s.registered = true
  outputs : OutputsOk s

/-- No step is open. -/
def Closed (s : KvRunner) : Prop := StepOk s ∧ s.kvStepFinishedReqIds = none

theorem Closed.within {s : KvRunner} (h : Closed s) (hreg : s.registered = true) :
    AfterCalls [] s := by
  refine ⟨?_, h.2, hreg, h.1.outputs⟩
  have hwhole := h.1.whole
  rwa [h.2] at hwhole

theorem AfterCalls.closed' {s : KvRunner} {rest : List ConnectorCall} (h : AfterCalls rest s)
    (hrest : rest = [] ∨ StepCalls rest) : Closed s := by
  refine ⟨⟨?_, fun hsome => ?_, h.outputs⟩, h.closed⟩
  · rw [h.closed]
    rcases hrest with rfl | hstep
    · exact h.whole
    · exact h.whole.close hstep
  · rw [h.closed] at hsome
    cases hsome

/-! ### The rules for the parts of the program -/

/-- What does not read the decisions to come holds after one is drawn. -/
theorem ask_spec {P : KvRunner → Prop} {R : KvRunner → Prop}
    (h : ∀ s world, P s → P { s with world := world }) :
    Triple P ask (fun _ => P) R := by
  unfold ask
  refine Triple.bind (Q := fun _ => P) (Triple.read fun _ => id) fun a => ?_
  refine Triple.bind (Q := fun _ => P) (Triple.update fun s hs => h s _ hs) fun _ => ?_
  exact Triple.pure fun _ => id

theorem mayRaise_spec {P : KvRunner → Prop} (h : ∀ s world, P s → P { s with world := world }) :
    Preserves P mayRaise :=
  Preserves.bind (ask_spec h) fun _ => Preserves.raiseIf

/-- A call on the connector is recorded, with whether it raised. -/
theorem connectorCall_spec {P : KvRunner → Prop} {call : Bool → ConnectorCall}
    {Q : Bool → KvRunner → Prop} (hworld : ∀ s world, P s → P { s with world := world })
    (hcall : ∀ s raised, P s → Q raised { s with calls := s.calls ++ [call raised] }) :
    Triple P (connectorCall call) (fun _ => Q false) (Q true) := by
  unfold connectorCall
  refine Triple.bind (ask_spec hworld) fun raised => ?_
  refine Triple.bind (Q := fun _ => Q raised) (Triple.update fun s hs => hcall s raised hs)
    fun _ => ?_
  cases raised with
  | true => exact Triple.raise fun _ => id
  | false => exact Triple.pure fun _ => id

/-- The outputs depend on the calls, the outputs built and the pending step only. -/
theorem OutputsOk.of_eq {s s' : KvRunner} (h : OutputsOk s) (hcalls : s'.calls = s.calls)
    (houtputs : s'.outputs = s.outputs) (hpending : s'.pending = s.pending) : OutputsOk s' := by
  have hheld : s'.held = s.held := by rw [KvRunner.held, KvRunner.held, houtputs, hpending]
  refine ⟨hheld ▸ h.nodup, fun output hmem => ?_⟩
  obtain ⟨finishedReqIds, hget⟩ := h.returned output (hheld ▸ hmem)
  exact ⟨finishedReqIds, by rw [hcalls, hget]⟩

/-- A call leaves the outputs that were returned before it. -/
theorem OutputsOk.record {s : KvRunner} (h : OutputsOk s) (call : ConnectorCall) :
    OutputsOk { s with calls := s.calls ++ [call] } := by
  refine ⟨h.nodup, fun output hmem => ?_⟩
  obtain ⟨finishedReqIds, hget⟩ := h.returned output hmem
  refine ⟨finishedReqIds, ?_⟩
  rw [List.getElem?_append_left (List.getElem?_eq_some_iff.mp hget).1]
  exact hget

/-- A call inside a step. -/
theorem within_connectorCall {rest : List ConnectorCall} {call : Bool → ConnectorCall} :
    Triple (AfterCalls rest) (connectorCall call) (fun _ => AfterCalls (rest ++ [call false]))
      (AfterCalls (rest ++ [call true])) := by
  refine connectorCall_spec
    (fun _ _ hs => ⟨hs.whole, hs.closed, hs.registered, hs.outputs.of_eq rfl rfl rfl⟩)
    (Q := fun raised => AfterCalls (rest ++ [call raised])) ?_
  intro s raised hs
  exact ⟨hs.whole.snoc _, hs.closed, hs.registered, hs.outputs.record _⟩

/-- The other fields do not matter. -/
theorem StepOk.of_eq {s s' : KvRunner} (h : StepOk s) (hcalls : s'.calls = s.calls)
    (houtputs : s'.outputs = s.outputs) (hpending : s'.pending = s.pending)
    (hopen : s'.kvStepFinishedReqIds = s.kvStepFinishedReqIds)
    (hregistered : s.registered = true → s'.registered = true) : StepOk s' := by
  refine ⟨?_, fun hsome => ?_, h.outputs.of_eq hcalls houtputs hpending⟩
  · rw [hcalls, hopen]
    exact h.whole
  · exact hregistered (h.registered (hopen ▸ hsome))

theorem stepOk_world (s : KvRunner) (world : ℕ → Bool) (h : StepOk s) :
    StepOk { s with world := world } := h.of_eq rfl rfl rfl rfl id

theorem closed_world (s : KvRunner) (world : ℕ → Bool) (h : Closed s) :
    Closed { s with world := world } := ⟨stepOk_world s world h.1, h.2⟩

/-- The connector is there when its caches were registered. -/
theorem kvConnector_spec : Triple Closed kvConnector (fun _ => AfterCalls []) StepOk := by
  unfold kvConnector
  refine Triple.bind (Q := fun s' s => s = s' ∧ Closed s) (Triple.read fun s hs => ⟨rfl, hs⟩)
    fun s => ?_
  cases hreg : s.registered with
  | true =>
    refine Triple.pure ?_
    rintro _ ⟨rfl, hs⟩
    exact hs.within hreg
  | false =>
    refine Triple.raise ?_
    rintro _ ⟨rfl, hs⟩
    exact hs.1

/-- **Closing completes the step that is open**, with the requests it was opened with; what it
returns was returned by the connector just now. -/
theorem closeKvConnectorStep_spec :
    Triple StepOk closeKvConnectorStep (fun output s => Closed s ∧ Fresh output s) StepOk := by
  unfold closeKvConnectorStep
  refine Triple.bind (Q := fun s' s => s = s' ∧ StepOk s) (Triple.read fun s hs => ⟨rfl, hs⟩)
    fun s₀ => ?_
  cases hopen : s₀.kvStepFinishedReqIds with
  | none =>
    refine Triple.bind (Q := fun _ => Closed) (Triple.update ?_) fun _ => ?_
    · rintro s ⟨rfl, hs⟩
      exact ⟨hs.of_eq rfl rfl rfl hopen.symm id, rfl⟩
    · refine Triple.pure fun s hs => ⟨hs, ?_⟩
      intro k hk
      cases hk
  | some finishedReqIds =>
    -- from here on the step is closed for the runner, so its calls are the rest
    refine Triple.bind (Q := fun _ => AfterCalls [.preForward finishedReqIds false])
      (Triple.update ?_) fun _ => ?_
    · rintro s ⟨rfl, hs⟩
      have hwhole := hs.whole
      rw [hopen] at hwhole
      have hreg := hs.registered (by rw [hopen]; rfl)
      exact ⟨hwhole, rfl, hreg, hs.outputs.of_eq rfl rfl rfl⟩
    refine Triple.bind (Q := fun _ => AfterCalls [.preForward finishedReqIds false]) ?_ fun _ => ?_
    · unfold kvConnector
      refine Triple.bind (Q := fun s' s => s = s' ∧ AfterCalls [.preForward finishedReqIds false] s)
        (Triple.read fun s hs => ⟨rfl, hs⟩) fun s => ?_
      cases hreg : s.registered with
      | true =>
        refine Triple.pure ?_
        rintro _ ⟨rfl, hs⟩
        exact hs
      | false =>
        refine Triple.raise ?_
        rintro _ ⟨rfl, hs⟩
        rw [hs.registered] at hreg
        cases hreg
    refine Triple.bind
      (Q := fun _ => AfterCalls [.preForward finishedReqIds false, .finishForward false])
      (within_connectorCall.mono (fun _ => id) (fun _ _ => id) fun s hs => ?_) fun _ => ?_
    · exact (hs.closed' (Or.inr (.finishRaised finishedReqIds))).1
    unfold postForward
    refine Triple.bind (Q := fun s' s => s = s' ∧
        AfterCalls [.preForward finishedReqIds false, .finishForward false] s)
      (Triple.read fun s hs => ⟨rfl, hs⟩) fun s₁ => ?_
    -- the position of the call is new, so no output is named by it
    have hpost : Triple
        (fun s => s.calls = s₁.calls ∧
          AfterCalls [.preForward finishedReqIds false, .finishForward false] s)
        (connectorCall (.postForward finishedReqIds))
        (fun _ s => Closed s ∧ s₁.calls.length ∉ s.held ∧ s.Returned s₁.calls.length) StepOk := by
      refine (connectorCall_spec (Q := fun raised s => Closed s ∧
        (raised = false → s₁.calls.length ∉ s.held ∧ s.Returned s₁.calls.length)) ?_ ?_).mono
        (fun _ => id) (fun _ s hs => ⟨hs.1, hs.2 rfl⟩) fun s hs => hs.1.1
      · rintro s world ⟨hcalls, hs⟩
        exact ⟨hcalls, hs.whole, hs.closed, hs.registered, hs.outputs.of_eq rfl rfl rfl⟩
      · rintro s raised ⟨hcalls, hs⟩
        have hrecorded : AfterCalls [.preForward finishedReqIds false, .finishForward false,
            .postForward finishedReqIds raised]
            { s with calls := s.calls ++ [.postForward finishedReqIds raised] } :=
          ⟨hs.whole.snoc _, hs.closed, hs.registered, hs.outputs.record _⟩
        refine ⟨hrecorded.closed' (Or.inr (.closed finishedReqIds raised)), fun hraised => ⟨?_, ?_⟩⟩
        · intro hmem
          obtain ⟨_, hget⟩ := hs.outputs.returned _ hmem
          have hlt := (List.getElem?_eq_some_iff.mp hget).1
          rw [hcalls] at hlt
          exact Nat.lt_irrefl _ hlt
        · subst hraised
          refine ⟨finishedReqIds, ?_⟩
          rw [← hcalls]
          exact List.getElem?_concat_length
    refine Triple.bind (hpost.mono ?_ (fun _ _ => id) fun _ => id) fun _ => ?_
    · rintro _ ⟨rfl, hs⟩
      exact ⟨rfl, hs⟩
    refine Triple.bind (ask_spec ?_) fun hasOutput => ?_
    · rintro s world ⟨hs, hnot, hreturned⟩
      exact ⟨closed_world s world hs, hnot, hreturned⟩
    refine Triple.pure ?_
    rintro s ⟨hs, hnot, hreturned⟩
    refine ⟨hs, fun k hk => ?_⟩
    cases hasOutput with
    | true =>
      cases hk
      exact ⟨hnot, hreturned⟩
    | false => cases hk

/-- A leaked step is closed. -/
theorem closeLeakedKvConnectorStep_spec :
    Triple StepOk closeLeakedKvConnectorStep (fun _ => Closed) StepOk := by
  unfold closeLeakedKvConnectorStep
  refine Triple.bind (Q := fun s' s => s = s' ∧ StepOk s) (Triple.read fun s hs => ⟨rfl, hs⟩)
    fun s₀ => ?_
  refine Triple.ite (fun _ => ?_) fun hclosed => ?_
  · refine Triple.bind (closeKvConnectorStep_spec.mono (fun s hs => hs.2) (fun _ _ => id)
      fun _ => id) fun _ => ?_
    exact Triple.pure fun s hs => hs.1
  · refine Triple.pure ?_
    rintro _ ⟨rfl, hs⟩
    exact ⟨hs, Option.not_isSome_iff_eq_none.mp hclosed⟩

/-- A step is opened only once the one before is closed and its `pre_forward` has returned. -/
theorem kvConnectorStartStep_spec (finishedReqIds : List ReqId) :
    Preserves StepOk (kvConnectorStartStep finishedReqIds) := by
  unfold kvConnectorStartStep
  refine Triple.bind closeLeakedKvConnectorStep_spec fun _ => ?_
  refine Triple.bind kvConnector_spec fun _ => ?_
  refine Triple.bind (within_connectorCall.mono (fun _ => id) (fun _ _ => id) fun s hs => ?_)
    fun _ => ?_
  · exact (hs.closed' (Or.inr (.preRaised finishedReqIds))).1
  · refine Triple.update fun s hs => ?_
    exact ⟨hs.whole, fun _ => hs.registered, hs.outputs.of_eq rfl rfl rfl⟩

theorem finishKvConnectorStep_spec :
    Triple StepOk finishKvConnectorStep (fun output s => Closed s ∧ Fresh output s) StepOk := by
  unfold finishKvConnectorStep
  refine Triple.bind (Q := fun s' s => s = s' ∧ StepOk s) (Triple.read fun s hs => ⟨rfl, hs⟩)
    fun s₀ => ?_
  refine Triple.ite (fun hnone => ?_) fun _ => ?_
  · refine Triple.pure ?_
    rintro _ ⟨rfl, hs⟩
    refine ⟨⟨hs, Option.isNone_iff_eq_none.mp hnone⟩, ?_⟩
    intro k hk
    cases hk
  · exact closeKvConnectorStep_spec.mono (fun s hs => hs.2) (fun _ _ => id) fun _ => id

/-- Attaching a fresh output to a new runner output. -/
theorem OutputsOk.attach {s : KvRunner} {output : Option KvOutput} (h : OutputsOk s)
    (hfresh : Fresh output s) : OutputsOk { s with outputs := s.outputs ++ [output] } := by
  cases output with
  | none =>
    have hheld : KvRunner.held { s with outputs := s.outputs ++ [none] } = s.held := by
      simp [KvRunner.held]
    refine ⟨hheld ▸ h.nodup, fun output hmem => ?_⟩
    exact h.returned output (hheld ▸ hmem)
  | some k =>
    obtain ⟨hnot, hreturned⟩ := hfresh k rfl
    have hheld : (KvRunner.held { s with outputs := s.outputs ++ [some k] }).Perm
        (k :: s.held) := by
      simp only [KvRunner.held, List.filterMap_append, List.filterMap_cons, id_eq,
        List.filterMap_nil, List.append_assoc, List.singleton_append]
      exact List.perm_middle
    refine ⟨hheld.nodup_iff.mpr (List.nodup_cons.mpr ⟨hnot, h.nodup⟩), fun output hmem => ?_⟩
    rcases List.mem_cons.mp (hheld.mem_iff.mp hmem) with rfl | hmem
    · exact hreturned
    · exact h.returned output hmem

theorem attachKvConnectorOutput_spec : Preserves StepOk attachKvConnectorOutput := by
  unfold attachKvConnectorOutput
  refine Triple.bind finishKvConnectorStep_spec fun output => ?_
  refine Triple.update fun s hs => ?_
  exact ⟨hs.1.1.whole, hs.1.1.registered, hs.1.1.outputs.attach hs.2⟩

/-- What the pending step holds is held by it alone. -/
theorem OutputsOk.release {s : KvRunner} {output : Option KvOutput} (h : OutputsOk s)
    (hpending : s.pending = some output) :
    OutputsOk { s with pending := none } ∧ Fresh output { s with pending := none } := by
  have hheld : s.held = s.outputs.filterMap id ++ output.toList := by
    rw [KvRunner.held, hpending]
    rfl
  have hrest : KvRunner.held { s with pending := none } = s.outputs.filterMap id :=
    List.append_nil _
  have hnodup := h.nodup
  rw [hheld, List.nodup_append] at hnodup
  obtain ⟨hleft, -, hdisjoint⟩ := hnodup
  refine ⟨⟨hrest ▸ hleft, fun k hmem => ?_⟩, fun k hk => ⟨fun hmem => ?_, ?_⟩⟩
  · rw [hrest] at hmem
    exact h.returned k (hheld ▸ List.mem_append_left _ hmem)
  · rw [hrest] at hmem
    exact hdisjoint k hmem k (by rw [hk]; exact List.mem_singleton_self k) rfl
  · refine h.returned k (hheld ▸ List.mem_append_right _ ?_)
    rw [hk]
    exact List.mem_singleton_self k

/-- Resolving moves what the pending step holds to the runner output that is built.  What was
held by neither stays so. -/
theorem barrier_spec (output : Option KvOutput) :
    Triple (fun s => StepOk s ∧ Fresh output s) barrier
      (fun _ s => StepOk s ∧ Fresh output s ∧ s.pending = none) StepOk := by
  unfold barrier
  refine Triple.bind (Q := fun s' s => s = s' ∧ StepOk s ∧ Fresh output s)
    (Triple.read fun s hs => ⟨rfl, hs⟩) fun s₀ => ?_
  -- nothing is pending, and nothing is resolved
  cases hpending : s₀.pending with
  | none =>
    refine Triple.pure ?_
    rintro _ ⟨rfl, hs, hfresh⟩
    exact ⟨hs, hfresh, hpending⟩
  | some held =>
    dsimp only
    unfold resolvePending
    let Q : KvRunner → Prop := fun s => StepOk s ∧ Fresh held s ∧ s.pending = none ∧
      ∀ k, output = some k → k ∉ s.held ∧ some k ≠ held ∧ s.Returned k
    -- the pending output is taken out before anything can raise
    refine Triple.bind (Q := fun _ => Q) (Triple.update ?_) fun _ => ?_
    · rintro s ⟨rfl, hs, hfresh⟩
      obtain ⟨houtputs, hheld⟩ := hs.outputs.release hpending
      refine ⟨⟨hs.whole, hs.registered, houtputs⟩, hheld, rfl, fun k hk => ?_⟩
      obtain ⟨hnot, hreturned⟩ := hfresh k hk
      have hsplit : s.held = s.outputs.filterMap id ++ held.toList := by
        rw [KvRunner.held, hpending]
        rfl
      rw [hsplit, List.mem_append, not_or] at hnot
      refine ⟨?_, ?_, hreturned⟩
      · rw [KvRunner.held]
        exact fun hmem => hnot.1 (by simpa using hmem)
      · rintro rfl
        exact hnot.2 (List.mem_singleton_self k)
    refine Triple.bind (Q := fun _ => Q) ((mayRaise_spec ?_).mono (fun _ => id) (fun _ _ => id)
      fun s hs => hs.1) fun _ => ?_
    · rintro s world ⟨hs, hheld, hnone, hkeep⟩
      exact ⟨stepOk_world s world hs, hheld, hnone, hkeep⟩
    refine Triple.update ?_
    rintro s ⟨hs, hheld, hnone, hkeep⟩
    refine ⟨⟨hs.whole, hs.registered, (hs.outputs.attach hheld).of_eq rfl rfl rfl⟩, ?_, hnone⟩
    -- then it is attached to the output that is built
    intro k hk
    obtain ⟨hnot, hne, hreturned⟩ := hkeep k hk
    refine ⟨?_, hreturned⟩
    simp only [KvRunner.held, List.filterMap_append, List.mem_append, not_or] at hnot ⊢
    refine ⟨⟨hnot.1, ?_⟩, hnot.2⟩
    cases held with
    | none => simp
    | some k' =>
      have hne' : k ≠ k' := fun heq => hne (congrArg some heq)
      simpa using hne'

theorem barrier_preserves : Preserves StepOk barrier := by
  refine (barrier_spec none).mono (fun s hs => ⟨hs, ?_⟩) (fun _ s hs => hs.1) fun _ => id
  intro k hk
  cases hk

theorem beginStep_spec (eligible : Bool) : Preserves StepOk (beginStep eligible) := by
  unfold beginStep
  refine Preserves.bind (Preserves.update fun s hs => hs.of_eq rfl rfl rfl rfl id) fun _ => ?_
  exact Preserves.ite Preserves.pure barrier_preserves

/-- A fresh output goes to the pending step. -/
theorem submit_spec (output : Option KvOutput) :
    Triple (fun s => StepOk s ∧ Fresh output s) (submit output) (fun _ => StepOk) StepOk := by
  unfold submit
  have hraise : ∀ b : Bool, Triple (fun s => StepOk s ∧ Fresh output s) (raiseIf b)
      (fun _ s => StepOk s ∧ Fresh output s) StepOk := by
    intro b
    exact Preserves.raiseIf.mono (fun _ => id) (fun _ _ => id) fun s hs => hs.1
  refine Triple.bind (Q := fun _ s => StepOk s ∧ Fresh output s) (Triple.read fun _ => id)
    fun s₀ => ?_
  refine Triple.bind (hraise _) fun _ => ?_
  refine Triple.bind (hraise _) fun _ => ?_
  -- the barrier frees the pending step, so the output has it to itself
  refine Triple.bind (barrier_spec output) fun _ => ?_
  refine Triple.update ?_
  rintro s ⟨hs, hfresh, hnone⟩
  refine ⟨hs.whole, hs.registered, ?_⟩
  have hheld : s.held = s.outputs.filterMap id := by
    rw [KvRunner.held, hnone]
    exact List.append_nil _
  refine ⟨?_, fun k hmem => ?_⟩
  · rw [KvRunner.held, List.nodup_append]
    refine ⟨hheld ▸ hs.outputs.nodup, ?_, fun a ha b hb => ?_⟩
    · cases output with
      | none => exact List.nodup_nil
      | some k => exact List.nodup_singleton k
    · rintro rfl
      cases output with
      | none => cases hb
      | some k =>
        obtain rfl : a = k := List.mem_singleton.mp hb
        exact (hfresh a rfl).1 (hheld ▸ ha)
  · rw [KvRunner.held] at hmem
    rcases List.mem_append.mp hmem with hmem | hmem
    · exact hs.outputs.returned k (hheld ▸ hmem)
    · cases output with
      | none => cases hmem
      | some k' =>
        obtain rfl : k = k' := List.mem_singleton.mp hmem
        exact (hfresh k rfl).2

theorem getOutput_spec (serial : ℕ) : Preserves StepOk (getOutput serial) := by
  unfold getOutput
  have hupdate : Preserves StepOk (update fun s : KvRunner => { s with resolved := none }) :=
    Preserves.update fun s hs => hs.of_eq rfl rfl rfl rfl id
  refine Preserves.bind Preserves.read fun s => ?_
  refine Preserves.ite hupdate (Preserves.ite ?_ Preserves.raise)
  exact Preserves.bind barrier_preserves fun _ => hupdate

/-! ### The calls on the runner -/

theorem mayRaise_preserves : Preserves StepOk mayRaise := mayRaise_spec stepOk_world

theorem update_preserves {f : KvRunner → KvRunner} (hcalls : ∀ s, (f s).calls = s.calls)
    (houtputs : ∀ s, (f s).outputs = s.outputs) (hpending : ∀ s, (f s).pending = s.pending)
    (hopen : ∀ s, (f s).kvStepFinishedReqIds = s.kvStepFinishedReqIds)
    (hregistered : ∀ s, s.registered = true → (f s).registered = true) :
    Preserves StepOk (update f) :=
  Preserves.update fun s hs =>
    hs.of_eq (hcalls s) (houtputs s) (hpending s) (hopen s) (hregistered s)

theorem samplePagedBatch_spec : Preserves StepOk samplePagedBatch := by
  unfold samplePagedBatch
  refine Preserves.bind (update_preserves ?_ ?_ ?_ ?_ ?_) fun _ => mayRaise_preserves
  all_goals intro s
  all_goals first | rfl | exact id

theorem runBatch_spec (kind : RunnerKind) : Preserves StepOk (runBatch kind) := by
  unfold runBatch
  have hattach : Preserves StepOk (do mayRaise; attachKvConnectorOutput) :=
    Preserves.bind mayRaise_preserves fun _ => attachKvConnectorOutput_spec
  have hstate : Preserves StepOk
      (update fun s : KvRunner => { s with executeModelState := true }) :=
    update_preserves (fun _ => rfl) (fun _ => rfl) (fun _ => rfl) (fun _ => rfl) fun _ => id
  refine Preserves.bind mayRaise_preserves fun _ => ?_
  refine Preserves.bind (ask_spec stepOk_world) fun hasPagedWork => ?_
  refine Preserves.ite ?_ hattach
  refine Preserves.bind mayRaise_preserves fun _ => Preserves.bind hstate fun _ => ?_
  refine Preserves.ite ?_ Preserves.pure
  exact Preserves.bind samplePagedBatch_spec fun _ => hattach

/-- **`execute_model`** opens a step after closing the one that was leaked. -/
theorem executeModel_spec (step : StepInput) : Preserves StepOk (executeModel step) := by
  unfold executeModel
  refine Preserves.bind Preserves.read fun s => ?_
  refine Preserves.bind Preserves.raiseIf fun _ => ?_
  refine Preserves.bind mayRaise_preserves fun _ => ?_
  refine Preserves.ite mayRaise_preserves ?_
  refine Preserves.bind (ask_spec stepOk_world) fun eligible => ?_
  refine Preserves.bind (beginStep_spec eligible) fun _ => ?_
  refine Preserves.bind mayRaise_preserves fun _ => ?_
  refine Preserves.ite ?_ ?_
  · refine Preserves.bind mayRaise_preserves fun _ => ?_
    refine Triple.bind closeLeakedKvConnectorStep_spec fun _ => ?_
    refine Triple.bind kvConnector_spec fun _ => ?_
    -- a step without a forward is whole by itself
    refine within_connectorCall.mono (fun _ => id) (fun _ s hs => ?_) fun s hs => ?_
    · exact (hs.closed' (Or.inr (.noForward false))).1
    · exact (hs.closed' (Or.inr (.noForward true))).1
  · refine Preserves.bind (kvConnectorStartStep_spec _) fun _ => ?_
    exact runBatch_spec _

theorem submitDeferredDecodeSample_spec : Preserves StepOk submitDeferredDecodeSample := by
  unfold submitDeferredDecodeSample
  refine Preserves.bind
    (update_preserves (fun _ => rfl) (fun _ => rfl) (fun _ => rfl) (fun _ => rfl) fun _ => id)
    fun _ => ?_
  refine Preserves.bind mayRaise_preserves fun _ => ?_
  refine Triple.bind finishKvConnectorStep_spec fun output => ?_
  exact (submit_spec output).mono (fun s hs => ⟨hs.1.1, hs.2⟩) (fun _ _ => id) fun _ => id

/-- **`sample_tokens`** closes the step on every path that returns. -/
theorem sampleTokens_spec (grammarOutput : Bool) :
    Preserves StepOk (sampleTokens grammarOutput) := by
  unfold sampleTokens
  refine Preserves.onRaise ?_ fun s hs => hs.of_eq rfl rfl rfl rfl id
  unfold sampleTokensBody
  refine Preserves.bind Preserves.read fun s => ?_
  refine Preserves.ite (Preserves.ite ?_ (Preserves.ite ?_ ?_)) ?_
  · refine Preserves.bind Preserves.raiseIf fun _ => ?_
    refine Preserves.bind
      (update_preserves (fun _ => rfl) (fun _ => rfl) (fun _ => rfl) (fun _ => rfl) fun _ => id)
      fun _ => mayRaise_preserves
  · exact Preserves.bind Preserves.raiseIf fun _ => submitDeferredDecodeSample_spec
  · refine Preserves.bind samplePagedBatch_spec fun _ => ?_
    exact Preserves.bind mayRaise_preserves fun _ => attachKvConnectorOutput_spec
  · refine Triple.bind finishKvConnectorStep_spec fun _ => ?_
    exact Triple.pure fun s hs => hs.1.1

/-- **Every call keeps the invariant**, whether it returns or raises. -/
theorem call_spec (call : KvCall) : Preserves StepOk call.prog := by
  cases call with
  | registerKvConnectorCaches =>
    refine Preserves.bind mayRaise_preserves fun _ => ?_
    exact update_preserves (fun _ => rfl) (fun _ => rfl) (fun _ => rfl) (fun _ => rfl)
      fun _ _ => rfl
  | executeModel step => exact executeModel_spec step
  | sampleTokens grammarOutput => exact sampleTokens_spec grammarOutput
  | getOutput serial => exact getOutput_spec serial
  | finishKvConnectorStep =>
    refine Triple.bind finishKvConnectorStep_spec fun _ => ?_
    exact Triple.pure fun s hs => hs.1.1

/-- A runner that has not called the connector yet. -/
structure Started (s : KvRunner) : Prop where
  calls : s.calls = []
  closed : s.kvStepFinishedReqIds = none
  pending : s.pending = none
  outputs : s.outputs = []

theorem Started.stepOk {s : KvRunner} (h : Started s) : StepOk s := by
  have hheld : s.held = [] := by rw [KvRunner.held, h.pending, h.outputs]; rfl
  refine ⟨⟨[], fun step hmem => absurd hmem List.not_mem_nil, ?_⟩, fun hsome => ?_, ?_⟩
  · rw [h.calls, h.closed]
    rfl
  · rw [h.closed] at hsome
    cases hsome
  · refine ⟨hheld ▸ List.nodup_nil, fun output hmem => ?_⟩
    rw [hheld] at hmem
    cases hmem

/-- **Over every run the connector sees whole steps only**, whatever raises on the way: the
calls on it are whole steps, one after the other, and the opening of the step that is open, if
one is; and every KV output that a runner output carries was returned by a `post_forward`, and
no other runner output carries it. -/
theorem kv_connector_steps_whole {start s : KvRunner} {calls : List KvCall}
    (hstart : Started start) (hrun : Run KvStep start calls s) :
    (∃ steps : List (List ConnectorCall), (∀ step ∈ steps, StepCalls step) ∧
      s.calls = steps.flatten ++ openCalls s.kvStepFinishedReqIds) ∧
    (s.outputs.filterMap id).Nodup ∧
    ∀ output ∈ s.outputs.filterMap id,
      ∃ finishedReqIds, s.calls[output]? = some (.postForward finishedReqIds false) := by
  have hs : StepOk s := by
    refine hrun.invariant (I := StepOk) (fun s call s' hs hcall => ?_) hstart.stepOk
    rw [← (hcall : (call.prog s).2 = s')]
    exact (call_spec call).run hs
  have hnodup := hs.outputs.nodup
  rw [KvRunner.held] at hnodup
  refine ⟨hs.whole, (List.nodup_append.mp hnodup).1, fun output hmem => ?_⟩
  exact hs.outputs.returned output (List.mem_append_left _ hmem)

/-- A runner of a decoder with a registered connector, in a world given by a list. -/
def decoderRunner (world : List Bool) : KvRunner where
  kind := ⟨false, false, false, false⟩
  registered := true
  kvStepFinishedReqIds := none
  executeModelState := false
  sampleFailure := false
  stepEligible := false
  pending := none
  pendingSerial := 0
  resolved := none
  calls := []
  outputs := []
  world n := world.getD n false

/-- A forward that raises, so that the next step closes its connector step; that step is deferred
and its output fetched; then a step without a forward. -/
theorem kv_connector_steps_whole_deferred :
    let world := [false, false, false, false, false, true, true] ++
      [false, true, false, false, false, true, false, false, true, false] ++
      [false, false, false, true, false] ++ [false, false, false, false, false]
    ∃ s, Run KvStep (decoderRunner world)
        [.executeModel ⟨[3], 1⟩, .executeModel ⟨[4], 1⟩, .sampleTokens false, .getOutput 1,
          .executeModel ⟨[], 0⟩] s ∧
      s.calls = [.preForward [3] false, .finishForward false, .postForward [3] false,
        .preForward [4] false, .finishForward false, .postForward [4] false, .noForward false] ∧
      s.outputs = [some 5] ∧ (s.outputs.filterMap id).Nodup ∧
      ∃ finishedReqIds, s.calls[5]? = some (.postForward finishedReqIds false) := by
  intro world
  obtain ⟨s, hrun, hcalls, houtputs⟩ : ∃ s, Run KvStep (decoderRunner world)
      [.executeModel ⟨[3], 1⟩, .executeModel ⟨[4], 1⟩, .sampleTokens false, .getOutput 1,
        .executeModel ⟨[], 0⟩] s ∧
      s.calls = [.preForward [3] false, .finishForward false, .postForward [3] false,
        .preForward [4] false, .finishForward false, .postForward [4] false, .noForward false] ∧
      s.outputs = [some 5] :=
    ⟨_, .cons rfl (.cons rfl (.cons rfl (.cons rfl (.cons rfl (.nil _))))), by decide, by decide⟩
  obtain ⟨-, hnodup, hreturned⟩ := kv_connector_steps_whole ⟨rfl, rfl, rfl, rfl⟩ hrun
  exact ⟨s, hrun, hcalls, houtputs, hnodup, hreturned 5 (by rw [houtputs]; decide)⟩

/-- **A `pre_forward` or a `finish_forward` that raises is not followed by the calls that close a
step**: the next step calls `pre_forward` again. -/
theorem connector_call_raises :
    ∃ s, Run KvStep (decoderRunner ([false, false, false, true] ++
        [false, false, false, false, false, true, true] ++ [false, false, false, true] ++
        [false, false, false, false, false, true]))
      [.executeModel ⟨[3], 1⟩, .executeModel ⟨[4], 1⟩, .executeModel ⟨[5], 1⟩,
        .executeModel ⟨[6], 1⟩] s ∧
      s.calls = [.preForward [3] true, .preForward [4] false, .finishForward true,
        .preForward [6] false] :=
  ⟨_, .cons rfl (.cons rfl (.cons rfl (.cons rfl (.nil _)))), by decide⟩

end VllmMetal.KvOffload
