import VllmMetal.Runner.DeferredSample
import VllmMetal.Runner.Engine

/-!
# The decode pipeline refines synchronous sampling

The same calls drive the runner with the pipeline and the one without.  The first does what the
second does: its forwards read the same input rows, and its outputs are the same, each given back
once.

## Main definitions

* `Refines` — what the run with the pipeline has in common with the other.
* `Inv` — the synchronous runner has what the other stands for.

## Main results

* `deferred_refines_synchronous` — **every run of the pipeline refines the synchronous one**.
-/

namespace VllmMetal
namespace PagedRunner

open SpecDecode Multimodal

variable {Row : Type}

/-! ### What the runs have in common -/

/-- What the run with the pipeline has in common with the synchronous one. -/
structure Refines (e : Engine Row) : Prop where
  /-- The forwards read the same input rows. -/
  history : e.deferred.history = e.plain.history
  /-- A step that was given back has the output of the synchronous run. -/
  outputs : ∀ step ∈ e.returned, e.plainOutputs[step.1]? = some step.2
  /-- Every step is given back once, or is in flight. -/
  once : (e.returned.map Prod.fst ++ e.inFlight.map Prod.fst).Perm
    (List.range e.plainOutputs.length)
  /-- A step that samples synchronously works on the entries of the synchronous run. -/
  synchronous : e.deferred.executeModelState.isSome → e.deferred.pipeline.stepEligible = false →
    e.deferred.entries = e.plain.entries
  /-- Once all outputs are given back, the runners keep the same. -/
  resolved : e.inFlight = [] → e.deferred.entries = e.plain.entries
  /-- At any time the states differ in the values of tokens alone, and the same requests are
  forgotten. -/
  states : ∀ reqId, Option.Rel SameShape (e.plain.entries reqId).state
    (e.deferred.entries reqId).state
  seqLens : ∀ reqId, (e.plain.entries reqId).seqLen = (e.deferred.entries reqId).seqLen

/-! ### The invariant -/

/-- The two halves of a step that is being executed. -/
inductive ForwardOk (cfg : RunnerConfig) (e : Engine Row) : Prop
  | none (hdeferred : e.deferred.executeModelState = none)
      (hplain : e.plain.executeModelState = none)
  | synchronous {st : PagedForwardState Row} (hdeferred : e.deferred.executeModelState = some st)
      (hplain : e.plain.executeModelState = some st)
      (heligible : e.deferred.pipeline.stepEligible = false)
      (hpending : e.deferred.pipeline.pending = none)
  | eligible {st st' : PagedForwardState Row} (hdeferred : e.deferred.executeModelState = some st)
      (hplain : e.plain.executeModelState = some st')
      (heligible : e.deferred.pipeline.stepEligible = true)
      (hforward : DeferredForward cfg e.plain.entries st st') (hstage : cfg.nonLastStage = false)
      (hfree : e.deferred.pipeline.resolved = none)

/-- The outputs that are not given back yet: the resolved one, which is older than the last step,
and the pending one. -/
structure Flight (p : Pipeline) (plainOutputs : List StepOutput) (bound : ℕ)
    (inFlight : List (ℕ × ℕ)) (resolvedStep pendingStep : ℕ) : Prop where
  eq : inFlight = (p.resolved.map fun r => (resolvedStep, r.1)).toList ++
    (p.pending.map fun _ => (pendingStep, p.pendingSerial)).toList
  resolved : ∀ serial output, p.resolved = some (serial, output) →
    plainOutputs[resolvedStep]? = some output ∧ resolvedStep + 1 < bound
  pending : ∀ step, p.pending = some step → plainOutputs[pendingStep]? = some step.output

/-- The step that the engine is at: the outputs of the steps below it exist, and that of the one
being executed does not. -/
def Engine.bound (e : Engine Row) : ℕ :=
  e.plainOutputs.length + if e.plain.executeModelState.isSome then 1 else 0

/-- **The invariant**: the synchronous runner has what the other stands for. -/
structure Inv (cfg : RunnerConfig) (e : Engine Row) : Prop where
  pendingOk : PendingOk e.deferred.pipeline e.deferred.entries
  entries : e.plain.entries = fill e.deferred.pipeline e.deferred.entries
  history : e.deferred.history = e.plain.history
  plainPending : e.plain.pipeline.pending = none
  plainEligible : e.plain.pipeline.stepEligible = false
  forward : ForwardOk cfg e
  outputs : ∀ step ∈ e.returned, e.plainOutputs[step.1]? = some step.2
  once : (e.returned.map Prod.fst ++ e.inFlight.map Prod.fst).Perm
    (List.range e.plainOutputs.length)
  flight : ∃ resolvedStep pendingStep, Flight e.deferred.pipeline e.plainOutputs e.bound e.inFlight
    resolvedStep pendingStep

theorem Inv.refines {cfg : RunnerConfig} {e : Engine Row} (h : Inv cfg e) : Refines e where
  history := h.history
  outputs := h.outputs
  once := h.once
  synchronous hsome heligible := by
    rw [h.entries]
    cases h.forward with
    | none hdeferred _ =>
      rw [hdeferred] at hsome
      exact absurd hsome Bool.false_ne_true
    | synchronous _ _ _ hpending => exact (fill_of_none hpending _).symm
    | eligible _ _ hyes =>
      rw [hyes] at heligible
      exact absurd heligible.symm Bool.false_ne_true
  resolved hempty := by
    obtain ⟨resolvedStep, pendingStep, hflight⟩ := h.flight
    rw [h.entries, fill_of_none]
    have heq := hflight.eq
    rw [hempty] at heq
    have hnil := (List.append_eq_nil_iff.mp heq.symm).2
    cases hpending : e.deferred.pipeline.pending with
    | none => rfl
    | some step =>
      rw [hpending] at hnil
      cases hnil
  states reqId := by
    rw [h.entries]
    exact shape_fill ..
  seqLens reqId := by
    rw [h.entries]
    exact seqLen_fill ..

theorem inv_start (cfg : RunnerConfig) : Inv cfg (Engine.start Row) where
  pendingOk _ h := by cases h
  entries := rfl
  history := rfl
  plainPending := rfl
  plainEligible := rfl
  forward := .none rfl rfl
  outputs _ h := absurd h List.not_mem_nil
  once := .refl _
  flight := by
    refine ⟨0, 0, rfl, ?_, ?_⟩
    · intro _ _ h
      cases h
    · intro _ h
      cases h

/-! ### The calls -/

/-- The pipeline that is switched off defers nothing. -/
theorem stepEligible_synchronous (cfg : PipelineConfig) (world : StepWorld) (out : SchedulerOutput)
    (p : Pipeline) (entries : Entries) :
    stepEligible cfg.synchronous world out p entries = false := rfl

/-- Without a pending step, a pipeline is not looked at. -/
theorem forwardBatch_pending_none (target : Target Row) (cfg : RunnerConfig) (world : StepWorld)
    (out : SchedulerOutput) {p p' : Pipeline} (hp : p.pending = none) (hp' : p'.pending = none)
    (history : List StepRecord) (work : List Work) (entries : Entries) :
    forwardBatch target cfg world out p history work entries =
      (forwardBatch target cfg world out p' history work entries).map fun r =>
        { r with pipeline := p } := by
  have hinput : ∀ segments pack, stepInputIds p segments pack = stepInputIds p' segments pack := by
    intro segments pack
    rw [stepInputIds, stepInputIds, assembleDecodeInputIds, assembleDecodeInputIds, hp, hp']
  simp only [forwardBatch, hinput]
  cases buildPrefillPack world.isMmRequest world.wantsPromptLogprobs out.scheduledNewReqs entries
      (work.filterMap Work.prefill?) with
  | error e => rfl
  | ok pack =>
    cases stepSegments out entries (work.filterMap Work.decode?) with
    | error e => rfl
    | ok segments =>
      simp only
      cases stepInputIds p' segments pack with
      | error e => rfl
      | ok inputIds =>
        simp only
        cases startPagedForward target cfg world out work pack segments inputIds
          entries history with
        | error e => rfl
        | ok state => rfl

theorem runStep_pending_none (target : Target Row) (cfg : RunnerConfig) (world : StepWorld)
    (out : SchedulerOutput) {p p' : Pipeline} (hp : p.pending = none) (hp' : p'.pending = none)
    (entries : Entries) (history : List StepRecord) :
    runStep target cfg world out p entries history =
      (runStep target cfg world out p' entries history).map fun r =>
        ({ r.1 with pipeline := p }, r.2) := by
  unfold runStep
  cases collectBatch cfg.nonLastStage out entries with
  | error e => rfl
  | ok result =>
    obtain ⟨entries', work⟩ := result
    simp only [forwardBatch_pending_none target cfg world out hp hp']
    split
    · cases forwardBatch target cfg world out p' history work entries' <;> rfl
    · split <;> rfl

/-- The pipeline of the synchronous runner stays as it is. -/
theorem beginStep_pending_none {p : Pipeline} (hpending : p.pending = none)
    (heligible : p.stepEligible = false) (entries : Entries) :
    beginStep false p entries = .ok (p, entries) := by
  obtain ⟨pending, pendingSerial, resolved, rows, eligible⟩ := p
  obtain rfl : pending = none := hpending
  obtain rfl : eligible = false := heligible
  rfl

/-- The synchronous runner starts a step over the entries that it has. -/
theorem executeModel_synchronous (target : Target Row) (cfg : PipelineConfig) (world : StepWorld)
    (out : SchedulerOutput) {r : Runner Row} (hpending : r.pipeline.pending = none)
    (heligible : r.pipeline.stepEligible = false) :
    executeModel target cfg.synchronous world out r =
      runStep target cfg.toRunnerConfig world out r.pipeline r.entries r.history := by
  rw [executeModel, stepEligible_synchronous, beginStep_pending_none hpending heligible]
  rfl

/-- A step leaves its pipeline alone, and a step that has its output at once has no forward. -/
theorem runStep_cases {target : Target Row} {cfg : RunnerConfig} {world : StepWorld}
    {out : SchedulerOutput} {p : Pipeline} {entries : Entries} {history : List StepRecord}
    {r : Runner Row} {output : Option StepOutput}
    (h : runStep target cfg world out p entries history = .ok (r, output)) :
    r.pipeline = p ∧ ((output = none ∧ ∃ st, r.executeModelState = some st) ∨
      ∃ o, output = some o ∧ r.executeModelState = none) := by
  unfold runStep at h
  split at h
  · cases h
  · next entries' work _ =>
    split at h
    · split at h
      · cases h
      · next runner hforward =>
        cases h
        unfold forwardBatch at hforward
        split at hforward
        · cases hforward
        · split at hforward
          · cases hforward
          · split at hforward
            · cases hforward
            · split at hforward
              · cases hforward
              · next state _ _ _ =>
                cases hforward
                exact ⟨rfl, Or.inl ⟨rfl, state, rfl⟩⟩
    · split at h
      · cases h
      · cases h
        exact ⟨rfl, Or.inr ⟨_, rfl, rfl⟩⟩

/-- What the discipline of the engine says when a step starts: at most the last step is in flight,
and it is pending. -/
theorem Inv.resolved_none {cfg : RunnerConfig} {e : Engine Row} (h : Inv cfg e) {world : StepWorld}
    {out : SchedulerOutput} (hlegal : Legal e (.execute world out)) :
    e.deferred.pipeline.resolved = none := by
  obtain ⟨hexec, -, hflight⟩ := hlegal
  obtain ⟨resolvedStep, pendingStep, heq, hresolved, -⟩ := h.flight
  cases hres : e.deferred.pipeline.resolved with
  | none => rfl
  | some r =>
    obtain ⟨serial, output⟩ := r
    obtain ⟨-, hbound⟩ := hresolved serial output hres
    have hmem : (resolvedStep, serial) ∈ e.inFlight := by
      rw [heq, hres]
      exact List.mem_append_left _ (List.mem_singleton.mpr rfl)
    have hlt := hflight _ hmem
    rw [Engine.bound, hexec] at hbound
    simp only [Option.isSome_none, Bool.false_eq_true, if_false] at hbound
    omega

/-- A pending step that is resolved. -/
theorem Flight.resolvedBy {p : Pipeline} {plainOutputs : List StepOutput} {bound : ℕ}
    {inFlight : List (ℕ × ℕ)} {resolvedStep pendingStep : ℕ}
    (h : Flight p plainOutputs bound inFlight resolvedStep pendingStep) (hfree : p.resolved = none)
    (hbound : plainOutputs.length < bound) :
    Flight p.resolvedBy plainOutputs bound inFlight pendingStep pendingStep := by
  have heq := h.eq
  rw [hfree] at heq
  unfold Pipeline.resolvedBy
  cases hpending : p.pending with
  | none =>
    rw [hpending] at heq
    refine ⟨?_, fun _ _ hres => ?_, fun _ hsome => ?_⟩
    · rw [hpending, hfree]
      exact heq
    · rw [hfree] at hres
      cases hres
    · rw [hpending] at hsome
      cases hsome
  | some step =>
    rw [hpending] at heq
    have houtput := h.pending step hpending
    refine ⟨heq, fun serial output hres => ?_, fun _ hsome => ?_⟩
    · cases hres
      have hlt := (List.getElem?_eq_some_iff.mp houtput).1
      exact ⟨houtput, by omega⟩
    · cases hsome

theorem Flight.withEligible {p : Pipeline} {plainOutputs : List StepOutput} {bound : ℕ}
    {inFlight : List (ℕ × ℕ)} {resolvedStep pendingStep : ℕ}
    (h : Flight p plainOutputs bound inFlight resolvedStep pendingStep) (eligible : Bool) :
    Flight { p with stepEligible := eligible } plainOutputs bound inFlight resolvedStep
      pendingStep := ⟨h.eq, h.resolved, h.pending⟩

theorem Flight.mono {p : Pipeline} {plainOutputs : List StepOutput} {bound bound' : ℕ}
    {inFlight : List (ℕ × ℕ)} {resolvedStep pendingStep : ℕ}
    (h : Flight p plainOutputs bound inFlight resolvedStep pendingStep) (hle : bound ≤ bound')
    (more : List StepOutput) :
    Flight p (plainOutputs ++ more) bound' inFlight resolvedStep pendingStep where
  eq := h.eq
  resolved serial output hres := by
    obtain ⟨houtput, hlt⟩ := h.resolved serial output hres
    exact ⟨by rw [List.getElem?_append_left (List.getElem?_eq_some_iff.mp houtput).1, houtput],
      by omega⟩
  pending step hpending := by
    have houtput := h.pending step hpending
    rw [List.getElem?_append_left (List.getElem?_eq_some_iff.mp houtput).1, houtput]

/-- A step that is submitted on top of the pending one. -/
theorem Flight.submitted {p : Pipeline} {plainOutputs : List StepOutput} {bound : ℕ}
    {inFlight : List (ℕ × ℕ)} {resolvedStep pendingStep : ℕ}
    (h : Flight p plainOutputs bound inFlight resolvedStep pendingStep) (hfree : p.resolved = none)
    (hbound : plainOutputs.length < bound) (step : PendingSampleStep) :
    Flight (p.submitted step) (plainOutputs ++ [step.output]) bound
      (inFlight ++ [(plainOutputs.length, p.pendingSerial + 1)])
        pendingStep plainOutputs.length := by
  obtain ⟨heq, hresolved, -⟩ := (h.resolvedBy hfree hbound).mono (Nat.le_refl bound) [step.output]
  refine ⟨?_, fun serial output hres => hresolved serial output hres, fun step' hstep' => ?_⟩
  · rw [Pipeline.pending_resolvedBy, Option.map_none, Option.toList_none, List.append_nil] at heq
    rw [heq]
    rfl
  · obtain rfl : step = step' := Option.some.inj hstep'
    rw [List.getElem?_append_right (Nat.le_refl _), Nat.sub_self]
    rfl

/-- Outputs stay where they are. -/
theorem getElem?_append_of_some {outputs : List StepOutput} {i : ℕ} {output : StepOutput}
    (h : outputs[i]? = some output) (more : List StepOutput) :
    (outputs ++ more)[i]? = some output := by
  rw [List.getElem?_append_left (List.getElem?_eq_some_iff.mp h).1, h]

/-- What an executed step leaves of the invariant. -/
theorem Inv.executed {cfg : RunnerConfig} {e : Engine Row} (h : Inv cfg e)
    {deferred plain : Runner Row}
    {output : Option StepOutput} (hok : PendingOk deferred.pipeline deferred.entries)
    (hentries : plain.entries = fill deferred.pipeline deferred.entries)
    (hhistory : deferred.history = plain.history) (hpending : plain.pipeline.pending = none)
    (heligible : plain.pipeline.stepEligible = false)
    (hforward : ForwardOk cfg (e.executed deferred plain output output))
    (hrunning : (output = none ∧ plain.executeModelState.isSome) ∨
      (output.isSome ∧ plain.executeModelState = none)) {resolvedStep pendingStep : ℕ}
    (hflight : Flight deferred.pipeline e.plainOutputs (e.plainOutputs.length + 1) e.inFlight
      resolvedStep pendingStep) : Inv cfg (e.executed deferred plain output output) := by
  -- a step that is running has no output yet, so the bound grows by one either way
  have hbound : e.plainOutputs.length + 1 ≤ (e.executed deferred plain output output).bound := by
    rcases hrunning with ⟨rfl, hsome⟩ | ⟨hsome, hnone⟩
    · simp [Engine.bound, Engine.executed, hsome]
    · obtain ⟨o, rfl⟩ := Option.isSome_iff_exists.mp hsome
      simp [Engine.bound, Engine.executed, hnone]
  refine
    { pendingOk := hok
      entries := hentries
      history := hhistory
      plainPending := hpending
      plainEligible := heligible
      forward := hforward
      outputs := ?_
      once := ?_
      flight := ⟨resolvedStep, pendingStep, hflight.mono hbound output.toList⟩ }
  -- what was returned before, and what this call returns
  · intro step hstep
    rcases List.mem_append.mp hstep with hstep | hstep
    · exact getElem?_append_of_some (h.outputs step hstep) _
    · obtain ⟨o, ho, rfl⟩ := List.mem_map.mp hstep
      obtain rfl := Option.mem_toList.mp ho
      exact List.getElem?_concat_length ..
  · have honce := h.once
    cases output with
    | none => simpa [Engine.executed] using honce
    | some o =>
      simp only [Engine.executed, Option.toList_some, List.map_cons, List.map_nil, List.map_append,
        List.length_append, List.length_singleton, List.range_succ, List.append_assoc]
      refine (List.Perm.append_left _ List.perm_append_comm).trans ?_
      rw [← List.append_assoc]
      exact honce.append_right _

/-- **A step that is executed.** -/
theorem Inv.execute {target : Target Row} {cfg : PipelineConfig} {e : Engine Row}
    (h : Inv cfg.toRunnerConfig e) {world : StepWorld} {out : SchedulerOutput}
    (hlegal : Legal e (.execute world out)) {plain : Runner Row} {output : Option StepOutput}
    (hplain : executeModel target cfg.synchronous world out e.plain = .ok (plain, output)) :
    ∃ deferred, executeModel target cfg world out e.deferred = .ok (deferred, output) ∧
      Inv cfg.toRunnerConfig (e.executed deferred plain output output) := by
  have hfree := h.resolved_none hlegal
  obtain ⟨hexec, hnodup, -⟩ := hlegal
  obtain ⟨resolvedStep, pendingStep, hflight⟩ := h.flight
  have hle : e.bound ≤ e.plainOutputs.length + 1 := by
    rw [Engine.bound, hexec]
    simp
  have hflight := hflight.mono hle []
  rw [List.append_nil] at hflight
  -- the synchronous runner starts the step over its entries
  have hplain := (executeModel_synchronous target cfg world out h.plainPending
    h.plainEligible).symm.trans hplain
  obtain ⟨hpipeline, hcases⟩ := runStep_cases hplain
  have hrunning : (output = none ∧ plain.executeModelState.isSome) ∨
      (output.isSome ∧ plain.executeModelState = none) := by
    rcases hcases with ⟨rfl, st, hst⟩ | ⟨o, rfl, hnone⟩
    · exact Or.inl ⟨rfl, by rw [hst]; rfl⟩
    · exact Or.inr ⟨rfl, hnone⟩
  have hplainPending : plain.pipeline.pending = none := by rw [hpipeline, h.plainPending]
  have hplainEligible : plain.pipeline.stepEligible = false := by rw [hpipeline, h.plainEligible]
  rw [h.entries, ← h.history] at hplain
  cases heligible : stepEligible cfg world out e.deferred.pipeline e.deferred.entries with
  | false =>
    -- the barrier leaves the entries of the synchronous runner
    set p : Pipeline := { e.deferred.pipeline with stepEligible := false } with hp
    have hok : PendingOk p e.deferred.entries := h.pendingOk
    have hfill : fill p e.deferred.entries = fill e.deferred.pipeline e.deferred.entries := rfl
    refine ⟨{ plain with pipeline := p.resolvedBy }, ?_, ?_⟩
    · rw [executeModel, heligible, beginStep, if_neg Bool.false_ne_true, hok.barrier, hfill]
      simp only
      rw [runStep_pending_none target _ world out (Pipeline.pending_resolvedBy p) h.plainPending,
        hplain]
      rfl
    · have hflight := hflight.withEligible false
      have hnone : p.resolvedBy.pending = none := Pipeline.pending_resolvedBy p
      refine h.executed (fun pending hpending => ?_) (fill_of_none hnone _).symm rfl hplainPending
        hplainEligible ?_ hrunning (hflight.resolvedBy hfree (Nat.lt_succ_self _))
      · simp only [hnone] at hpending
        cases hpending
      · cases hstate : plain.executeModelState with
        | none => exact .none rfl hstate
        | some st =>
          exact .synchronous rfl hstate (Pipeline.stepEligible_resolvedBy p) hnone
  | true =>
    have hfacts := EligibleFacts.of_eligible heligible
    set p : Pipeline := { e.deferred.pipeline with stepEligible := true } with hp
    have hbegin : beginStep true e.deferred.pipeline e.deferred.entries =
        .ok (p, e.deferred.entries) := rfl
    have hflight := hflight.withEligible true
    rw [executeModel, heligible, hbegin]
    simp only
    rw [runStep] at hplain ⊢
    cases hbatch : collectBatch cfg.nonLastStage out
        (fill e.deferred.pipeline e.deferred.entries) with
    | error error =>
      rw [hbatch] at hplain
      cases hplain
    | ok result =>
      obtain ⟨filled, work⟩ := result
      obtain ⟨after, hcollect, rfl, hwork⟩ := collectBatch_eligible hfacts hbatch
      have hok : PendingOk p after := h.pendingOk.keeps hwork.keeps
      have hids : work = (out.scheduledCachedReqs.map CachedRequest.reqId).map Work.decode := by
        rw [hwork.work_eq, List.map_map]
        rfl
      rw [hbatch] at hplain
      rw [hcollect]
      simp only at hplain ⊢
      by_cases hempty : out.scheduledCachedReqs.map CachedRequest.reqId = []
      · -- nothing is scheduled
        rw [hempty] at hids
        obtain rfl : work = [] := hids
        simp only [hasPagedWork, List.filterMap_nil, List.isEmpty_nil, Bool.not_true, Bool.or_self,
          Bool.false_eq_true, if_false, hfacts.structuredOutput] at hplain ⊢
        cases hplain
        refine ⟨_, rfl, ?_⟩
        exact h.executed hok rfl rfl hplainPending hplainEligible (.none rfl rfl) hrunning hflight
      · have hstates : ∀ reqId ∈ out.scheduledCachedReqs.map CachedRequest.reqId, ∃ state,
            (after reqId).state = some state ∧ state.mropePositionDelta = none ∧
              nativeRow cfg.toRunnerConfig state.samplingParams state.outputLength = true := by
          intro reqId hid
          obtain ⟨c, hc, rfl⟩ := List.mem_map.mp hid
          exact hwork.states c hc
        have hcovered : ∀ pending, p.pending = some pending →
            ∀ reqId ∈ out.scheduledCachedReqs.map CachedRequest.reqId,
              (p.rows.get? reqId).isSome := by
          intro pending hpending reqId hid
          obtain ⟨c, hc, rfl⟩ := List.mem_map.mp hid
          exact hfacts.covered pending hpending c hc
        obtain ⟨st, st', seen, hdeferred, hforward, hkept⟩ := forwardBatch_eligible target
          e.deferred.history hfacts.spec hfacts.structuredOutput hfacts.forced hok rfl
          h.plainPending hempty (List.nodup_append.mp hnodup).2.1 hstates hcovered
        have hpaged : hasPagedWork work = true := by
          rw [hids, hasPagedWork, filterMap_decode?_decodes, List.isEmpty_eq_false_iff.mpr hempty]
          exact Bool.or_true _
        rw [← hids] at hdeferred hforward
        have hfill : fill e.deferred.pipeline after = fill p after := rfl
        simp only [hpaged, if_true, hfill, hdeferred, hforward] at hplain ⊢
        cases hplain
        refine ⟨_, rfl, ?_⟩
        exact h.executed hok rfl rfl hplainPending hplainEligible
          (.eligible rfl rfl rfl hkept hfacts.lastStage hfree) hrunning hflight

/-- What a sampled step leaves of the invariant. -/
theorem Inv.sampled {cfg : RunnerConfig} {e : Engine Row} (h : Inv cfg e)
    {st : PagedForwardState Row} (hstate : e.plain.executeModelState = some st)
    {deferred plain : Runner Row} {returned : Returned} {output : StepOutput}
    (hok : PendingOk deferred.pipeline deferred.entries)
    (hentries : plain.entries = fill deferred.pipeline deferred.entries)
    (hhistory : deferred.history = plain.history) (hpending : plain.pipeline.pending = none)
    (heligible : plain.pipeline.stepEligible = false)
    (hdone : deferred.executeModelState = none ∧ plain.executeModelState = none)
    (hreturned : (returned = .output output ∧ deferred.pipeline = e.deferred.pipeline) ∨
      ∃ step : PendingSampleStep, step.output = output ∧ e.deferred.pipeline.resolved = none ∧
        deferred.pipeline = e.deferred.pipeline.submitted step ∧
        returned = .deferred deferred.pipeline.pendingSerial) :
    Inv cfg (e.sampled deferred plain returned output) := by
  obtain ⟨hnone, hplainNone⟩ := hdone
  obtain ⟨resolvedStep, pendingStep, hflight⟩ := h.flight
  have hbound : e.bound = e.plainOutputs.length + 1 := by rw [Engine.bound, hstate]; rfl
  have honce := h.once
  -- an answer of the plain runner, or the deferred one submitted in its place
  rcases hreturned with ⟨rfl, hpipeline⟩ | ⟨step, rfl, hfree, hpipeline, rfl⟩
  · refine
      { pendingOk := hok
        entries := hentries
        history := hhistory
        plainPending := hpending
        plainEligible := heligible
        forward := .none hnone hplainNone
        outputs := ?_
        once := ?_
        flight := ⟨resolvedStep, pendingStep, ?_⟩ }
    · intro step hstep
      rcases List.mem_append.mp hstep with hstep | hstep
      · exact getElem?_append_of_some (h.outputs step hstep) _
      · obtain rfl := List.mem_singleton.mp hstep
        exact List.getElem?_concat_length ..
    · simp only [Engine.sampled, List.map_append, List.map_cons, List.map_nil, List.length_append,
        List.length_singleton, List.range_succ, List.append_assoc]
      refine (List.Perm.append_left _ List.perm_append_comm).trans ?_
      rw [← List.append_assoc]
      exact honce.append_right _
    · simp only [Engine.sampled, Engine.bound, hpipeline, hplainNone]
      exact hflight.mono (by simp [hbound]) [output]
  · refine
      { pendingOk := hok
        entries := hentries
        history := hhistory
        plainPending := hpending
        plainEligible := heligible
        forward := .none hnone hplainNone
        outputs := ?_
        once := ?_
        flight := ⟨pendingStep, e.plainOutputs.length, ?_⟩ }
    · intro returned hmem
      exact getElem?_append_of_some (h.outputs returned hmem) _
    · simp only [Engine.sampled, List.map_append, List.map_cons, List.map_nil, List.length_append,
        List.length_singleton, List.range_succ]
      rw [← List.append_assoc]
      exact honce.append_right _
    -- the step in flight is the last of the plain runner's answers
    · have hflight := hflight.submitted hfree (by omega) step
      rw [hbound] at hflight
      simpa [Engine.sampled, Engine.bound, hpipeline, hplainNone, Pipeline.submitted] using hflight

/-- **A step that is sampled.** -/
theorem Inv.sample {target : Target Row} {cfg : PipelineConfig}
    (hagree : SamplersAgree target cfg.toRunnerConfig) {e : Engine Row}
    (h : Inv cfg.toRunnerConfig e) {grammarOutput : Option ((ℕ → Row) → ℕ → Row)}
    (hlegal : Legal e (.sample grammarOutput)) {plain : Runner Row} {answer : Returned}
    (hplain : sampleTokens target cfg.synchronous grammarOutput e.plain = .ok (plain, answer)) :
    ∃ deferred returned output, answer = .output output ∧
      sampleTokens target cfg grammarOutput e.deferred = .ok (deferred, returned) ∧
      Inv cfg.toRunnerConfig (e.sampled deferred plain returned output) := by
  obtain ⟨st', hstate, hgrammar⟩ := hlegal
  rw [sampleTokens, hstate] at hplain
  simp only [h.plainEligible, Bool.false_eq_true, if_false] at hplain
  cases h.forward with
  | none _ hnone =>
    rw [hnone] at hstate
    cases hstate
  | @synchronous st hdeferred hsame heligible hpending =>
    rw [hsame] at hstate
    obtain rfl := Option.some.inj hstate
    have hentries : e.plain.entries = e.deferred.entries := by
      rw [h.entries, fill_of_none hpending]
    have hstage : cfg.synchronous.nonLastStage = cfg.nonLastStage := rfl
    rw [hstage] at hplain
    by_cases hlast : cfg.nonLastStage = true
    · -- a stage without a sampler has nothing to give back
      rw [if_pos hlast] at hplain
      cases hplain
      refine ⟨{ e.deferred with executeModelState := none }, .output [], [], rfl, ?_, ?_⟩
      · rw [sampleTokens, hdeferred]
        simp only [hlast, if_true]
      · exact h.sampled hsame h.pendingOk h.entries h.history h.plainPending h.plainEligible
          ⟨rfl, rfl⟩ (Or.inl ⟨rfl, rfl⟩)
    · rw [if_neg hlast] at hplain
      rw [hentries] at hplain
      split at hplain
      · cases hplain
      · next entries output hbatch =>
        cases hplain
        refine ⟨⟨entries, e.deferred.pipeline, e.deferred.history, none⟩,
          .output output, output, rfl,
          ?_, ?_⟩
        · rw [sampleTokens, hdeferred]
          simp only [hlast, heligible, Bool.false_eq_true, if_false]
          rw [hbatch]
        · refine h.sampled hsame (fun pending hsome => ?_) (fill_of_none hpending _).symm h.history
            h.plainPending h.plainEligible ⟨rfl, rfl⟩ (Or.inl ⟨rfl, rfl⟩)
          rw [hpending] at hsome
          cases hsome
  | @eligible st st'' hdeferred hsame heligible hforward hstage hfree =>
    rw [hsame] at hstate
    obtain rfl := Option.some.inj hstate
    -- the gate blocks the steps for which a grammar can come
    have hnone : grammarOutput = none := by
      cases grammarOutput with
      | none => rfl
      | some mask =>
        have hstructured := hgrammar rfl
        have hout : st.out = st''.out := by rw [hforward.same]
        rw [← hout, hforward.structuredOutput] at hstructured
        exact absurd hstructured Bool.false_ne_true
    subst hnone
    have hstages : cfg.synchronous.nonLastStage = false := hstage
    rw [h.entries] at hforward
    obtain ⟨step, after, hbatch, hsubmit, hok⟩ :=
      submitDeferred_eligible hagree h.pendingOk heligible
      hfree hforward
    rw [hstages, h.entries] at hplain
    simp only [Bool.false_eq_true, if_false, hbatch] at hplain
    cases hplain
    refine ⟨⟨after, e.deferred.pipeline.submitted step, e.deferred.history, none⟩,
      .deferred (e.deferred.pipeline.submitted step).pendingSerial, step.output, rfl, ?_, ?_⟩
    · rw [sampleTokens, hdeferred]
      simp only [hstage, heligible, Bool.false_eq_true, if_false, if_true,
        Option.isSome_none, hsubmit]
    · exact h.sampled hsame hok rfl h.history h.plainPending h.plainEligible ⟨rfl, rfl⟩
        (Or.inr ⟨step, rfl, hfree, rfl, rfl⟩)

/-- An output that is given back. -/
theorem Inv.gave {cfg : RunnerConfig} {e : Engine Row} (h : Inv cfg e) {deferred : Runner Row}
    {step serial : ℕ} {rest : List (ℕ × ℕ)} (hhead : e.inFlight = (step, serial) :: rest)
    {output : StepOutput} (hok : PendingOk deferred.pipeline deferred.entries)
    (hentries : e.plain.entries = fill deferred.pipeline deferred.entries)
    (hhistory : deferred.history = e.plain.history)
    (hforward : ForwardOk cfg { e with deferred := deferred })
    (houtput : e.plainOutputs[step]? = some output)
    (hflight : ∃ resolvedStep pendingStep, Flight deferred.pipeline e.plainOutputs e.bound rest
      resolvedStep pendingStep) :
    Inv cfg { e with
      deferred := deferred, returned := e.returned ++ [(step, output)], inFlight := rest } := by
  refine
    { pendingOk := hok
      entries := hentries
      history := hhistory
      plainPending := h.plainPending
      plainEligible := h.plainEligible
      forward := ?_
      outputs := ?_
      once := ?_
      flight := hflight }
  · cases hforward with
    | none hdeferred hplain => exact .none hdeferred hplain
    | synchronous hdeferred hplain heligible hpending =>
      exact .synchronous hdeferred hplain heligible hpending
    | eligible hdeferred hplain heligible hforward hstage hfree =>
      exact .eligible hdeferred hplain heligible hforward hstage hfree
  · intro s hs
    rcases List.mem_append.mp hs with hs | hs
    · exact h.outputs s hs
    · obtain rfl := List.mem_singleton.mp hs
      exact houtput
  · have honce := h.once
    rw [hhead] at honce
    simpa using honce

/-- **An output that is asked for.** -/
theorem Inv.getOutput {cfg : RunnerConfig} {e : Engine Row} (h : Inv cfg e) {step serial : ℕ}
    {rest : List (ℕ × ℕ)} (hhead : e.inFlight = (step, serial) :: rest) :
    ∃ deferred output, PagedRunner.getOutput serial e.deferred = .ok (deferred, output) ∧
      Inv cfg { e with
        deferred := deferred, returned := e.returned ++ [(step, output)], inFlight := rest } := by
  obtain ⟨resolvedStep, pendingStep, hflight⟩ := h.flight
  have heq := hflight.eq
  rw [hhead] at heq
  cases hresolved : e.deferred.pipeline.resolved with
  | some r =>
    -- the output was resolved by the barrier of a later step
    obtain ⟨s, output⟩ := r
    rw [hresolved] at heq
    simp only [Option.map_some, Option.toList_some, List.singleton_append, List.cons.injEq,
      Prod.mk.injEq] at heq
    obtain ⟨⟨rfl, rfl⟩, rfl⟩ := heq
    refine ⟨{ e.deferred with pipeline := { e.deferred.pipeline with resolved := none } }, output,
      ?_, ?_⟩
    · simp only [PagedRunner.getOutput, resolve, hresolved, if_true]
    · refine h.gave hhead h.pendingOk h.entries h.history ?_ (hflight.resolved _ _ hresolved).1
        ⟨0, pendingStep, rfl, fun _ _ hnone => ?_, hflight.pending⟩
      · cases h.forward with
        | none hdeferred hplain => exact .none hdeferred hplain
        | synchronous hdeferred hplain heligible hpending =>
          exact .synchronous hdeferred hplain heligible hpending
        | eligible hdeferred hplain heligible hforward hstage hfree =>
          rw [hresolved] at hfree
          cases hfree
      · cases hnone
  | none =>
    -- nothing older is there, so the pending step is asked for
    rw [hresolved] at heq
    cases hpending : e.deferred.pipeline.pending with
    | none =>
      rw [hpending] at heq
      cases heq
    | some pending =>
      rw [hpending] at heq
      simp only [Option.map_none, Option.toList_none, List.nil_append, Option.map_some,
        Option.toList_some, List.cons.injEq, Prod.mk.injEq] at heq
      obtain ⟨⟨rfl, rfl⟩, rfl⟩ := heq
      have hres : e.deferred.pipeline.resolvedBy.resolved =
          some (e.deferred.pipeline.pendingSerial, pending.output) := by
        rw [Pipeline.resolvedBy, hpending]
      have hnone := Pipeline.pending_resolvedBy e.deferred.pipeline
      refine ⟨{ e.deferred with
        pipeline := { e.deferred.pipeline.resolvedBy with resolved := none }
        entries := fill e.deferred.pipeline e.deferred.entries }, pending.output, ?_, ?_⟩
      · simp only [PagedRunner.getOutput, resolve, hresolved, hpending, Option.isSome_some,
          beq_self_eq_true, Bool.and_self, if_true, h.pendingOk.barrier, hres]
      · refine h.gave hhead (fun p hp => ?_) ?_ h.history ?_ (hflight.pending _ hpending)
          ⟨0, 0, ?_, fun _ _ hsome => ?_, fun p hp => ?_⟩
        · simp only [hnone] at hp
          cases hp
        · exact h.entries.trans (fill_of_none (by exact hnone) _).symm
        · cases h.forward with
          | none hdeferred hplain => exact .none hdeferred hplain
          | synchronous _ _ _ hempty =>
            rw [hpending] at hempty
            cases hempty
          | eligible hdeferred hplain heligible hforward hstage hfree =>
            refine .eligible hdeferred hplain ?_ hforward hstage rfl
            rw [← heligible]
            exact Pipeline.stepEligible_resolvedBy _
        · simp only [hnone]
          rfl
        · cases hsome
        · simp only [hnone] at hp
          cases hp

/-- **What every call keeps.** -/
theorem Inv.step {target : Target Row} {cfg : PipelineConfig}
    (hagree : SamplersAgree target cfg.toRunnerConfig) {e e' : Engine Row} {call : Call Row}
    (h : Inv cfg.toRunnerConfig e) (hstep : Step target cfg e call e') :
    Inv cfg.toRunnerConfig e' := by
  cases hstep with
  | execute hlegal hdeferred hplain =>
    obtain ⟨deferred, hok, hinv⟩ := h.execute hlegal hplain
    rw [hdeferred] at hok
    cases hok
    exact hinv
  | sample hlegal hdeferred hplain =>
    obtain ⟨deferred, returned, output, hanswer, hok, hinv⟩ := h.sample hagree hlegal hplain
    rw [hdeferred] at hok
    cases hok
    cases hanswer
    exact hinv
  | getOutput hhead hdeferred =>
    obtain ⟨deferred, output, hok, hinv⟩ := h.getOutput hhead
    rw [hdeferred] at hok
    cases hok
    exact hinv

/-- Every call that the synchronous runner answers, the other one answers. -/
theorem Inv.answers {target : Target Row} {cfg : PipelineConfig}
    (hagree : SamplersAgree target cfg.toRunnerConfig) {e : Engine Row}
    (h : Inv cfg.toRunnerConfig e) {call : Call Row} (hlegal : Legal e call)
    (hplain : PlainAnswers target cfg e call) : ∃ e', Step target cfg e call e' := by
  cases call with
  | execute world out =>
    obtain ⟨⟨plain, output⟩, hplain⟩ := hplain
    obtain ⟨deferred, hdeferred, -⟩ := h.execute hlegal hplain
    exact ⟨_, .execute hlegal hdeferred hplain⟩
  | sample grammarOutput =>
    obtain ⟨⟨plain, answer⟩, hplain⟩ := hplain
    obtain ⟨deferred, returned, output, rfl, hdeferred, -⟩ := h.sample hagree hlegal hplain
    exact ⟨_, .sample hlegal hdeferred hplain⟩
  | getOutput =>
    obtain ⟨⟨step, serial⟩, rest, hhead⟩ := List.exists_cons_of_ne_nil hlegal
    obtain ⟨deferred, output, hdeferred, -⟩ := h.getOutput hhead
    exact ⟨_, .getOutput hhead hdeferred⟩

/-- **Every run of the pipeline refines the synchronous one**, and never gets stuck where that one
does not. -/
theorem deferred_refines_synchronous {target : Target Row} {cfg : PipelineConfig}
    (hagree : SamplersAgree target cfg.toRunnerConfig) {calls : List (Call Row)} {e : Engine Row}
    (hrun : Run (Step target cfg) (Engine.start Row) calls e) :
    Refines e ∧ ∀ call, Legal e call → PlainAnswers target cfg e call →
      ∃ e', Step target cfg e call e' := by
  have hinv : Inv cfg.toRunnerConfig e :=
    hrun.invariant (fun _ _ _ h hstep => h.step hagree hstep) (inv_start _)
  exact ⟨hinv.refines, fun call hlegal hplain => hinv.answers hagree hlegal hplain⟩

/-! ### An example -/

/-- A model that reads a token and makes of it the next one. -/
def countingTarget : Target Token where
  logits history i := match history.getLast?.bind StepRecord.forward with
    | none => 0
    | some input => input.inputIds.getD i 0 + 1
  argmax row := row
  sample row _ := row
  nativeSample row _ _ := row
  samplePrefill row _ := row

/-- A runner whose serve-level facts allow the pipeline. -/
def pipelinedConfig : PipelineConfig where
  hasDrafter := false
  ppActive := false
  nonLastStage := false
  ppActive_of_stage h := h
  nativeSamplingEnabled := true
  pipelineEnabled := true
  useAsyncScheduling := true
  hybridWithoutLazyGdn := false
  hasSpeculativeConfig := false
  uniprocExecutor := true

/-- A step over text alone. -/
def textWorld : StepWorld := ⟨fun _ => false, false, fun _ => none, fun _ => 0, fun _ => false⟩

/-- A step over these requests, which do not finish. -/
def stepOver (newReqs : List NewRequestData) (cachedReqs : List CachedRequest) (scheduled : ℕ) :
    SchedulerOutput where
  scheduledNewReqs := newReqs
  scheduledCachedReqs := cachedReqs
  sendsNewTokenIds := false
  numScheduledTokens _ := scheduled
  scheduledSpecDecodeTokens := ∅
  finishedReqIds := []
  preemptedReqIds := []
  hasEncoderInputs := false
  hasStructuredOutputRequests := false

/-- A prompt of two tokens, and two decode steps, the second one before the output of the first is
asked for. -/
def twoDecodes : List (Call Token) :=
  [.execute textWorld (stepOver [⟨0, some [5, 6], [5, 6], 2, .greedy, 0, [[0]]⟩] [] 2),
    .sample none,
    .execute textWorld (stepOver [] [⟨0, 2, [], none, none⟩] 1), .sample none,
    .execute textWorld (stepOver [] [⟨0, 3, [], none, none⟩] 1), .sample none, .getOutput]

/-- The engine after the two decode steps has one output in flight. -/
theorem twoDecodes_refines : ∃ e, Run (Step countingTarget pipelinedConfig) (.start Token)
    twoDecodes e ∧ e.returned = [(0, [(0, [7])]), (1, [(0, [8])])] ∧ e.inFlight = [(2, 2)] ∧
    (Refines e ∧ ∀ call, Legal e call → PlainAnswers countingTarget pipelinedConfig e call →
      ∃ e', Step countingTarget pipelinedConfig e call e') := by
  have heval : ((Engine.start Token).after countingTarget pipelinedConfig twoDecodes).any (fun e =>
      decide (e.returned = [(0, [(0, [7])]), (1, [(0, [8])])] ∧ e.inFlight = [(2, 2)])) = true := by
    decide +kernel
  obtain ⟨e, hafter, hfacts⟩ := (Option.any_eq_true _ _).mp heval
  obtain ⟨hreturned, hflight⟩ := of_decide_eq_true hfacts
  have hrun := Run.of_after hafter
  exact ⟨e, hrun, hreturned, hflight, deferred_refines_synchronous (fun _ _ _ => rfl) hrun⟩

end PagedRunner
end VllmMetal
