import VllmMetal.Runner.PipelineSound

/-!
# Eligible steps

A step that passes the gate decodes one token for each of its requests, and every one of them has a
state, samples natively, and has a row in the pending step if there is one.  So the step does the
same with the entries that it has as with the filled ones, and the input row that it gathers from
the pending tokens is the one that the host would have assembled from the filled token lists.

## Main definitions

* `nativeRow`, `SamplersAgree` — the requests whose sample may be deferred.
* `EligibleFacts` — what the gate has checked.

## Main results

* `EligibleFacts.of_eligible` — the gate checks it.
* `collectBatch_eligible` — the batch of an eligible step.
* `stepInputIds_eligible` — its input row.
-/

namespace VllmMetal
namespace PagedRunner

open SpecDecode Multimodal

variable {Row : Type}

/-! ### The gate -/

/-- What the gate asks of the sampling parameters of one request. -/
def nativeRow (cfg : RunnerConfig) (sp : SamplingParams) (outputLength : ℤ) : Bool :=
  decide (sp.minTokens ≤ outputLength) &&
    (sp.nativeGreedy || (cfg.nativeSamplingEnabled && sp.nativeRandom))

/-- The two sampling paths agree on the requests that sample natively. -/
def SamplersAgree (target : Target Row) (cfg : RunnerConfig) : Prop :=
  ∀ row (state : RequestState), nativeRow cfg state.samplingParams state.outputLength = true →
    target.sample row state = target.nativeSample row state.samplingParams state.outputLength

/-- What the gate has checked of an eligible step. -/
structure EligibleFacts (cfg : RunnerConfig) (world : StepWorld) (out : SchedulerOutput)
    (p : Pipeline) (entries : Entries) : Prop where
  lastStage : cfg.nonLastStage = false
  new : out.scheduledNewReqs = []
  resumed : ∀ c ∈ out.scheduledCachedReqs, c.resumed = none
  spec : out.scheduledSpecDecodeTokens.keys = []
  structuredOutput : out.hasStructuredOutputRequests = false
  forced : world.mmForwardForced = false
  states : ∀ c ∈ out.scheduledCachedReqs, ∃ state, (entries c.reqId).state = some state ∧
    state.generatedTokens ≠ 0 ∧ state.mropePositionDelta = none ∧
    nativeRow cfg state.samplingParams state.outputLength = true
  covered : ∀ pending, p.pending = some pending → ∀ c ∈ out.scheduledCachedReqs,
    (p.rows.get? c.reqId).isSome

theorem firstReason_eq_none {blockers : List (Bool × String)} (h : firstReason blockers = none) :
    ∀ b ∈ blockers, b.1 = false := by
  rw [firstReason, Option.map_eq_none_iff, List.find?_eq_none] at h
  intro b hb
  simpa using h b hb

/-- The requests before the first that has no state, each one decoding. -/
theorem cachedFacts_spec {entries : Entries} {reqIds : List ReqId}
    (hmissing : (cachedFacts entries reqIds).statesMissing = false)
    (hprefill : (cachedFacts entries reqIds).hasPrefillPhase = false)
    (hmm : (cachedFacts entries reqIds).hasMmDecode = false) :
    (cachedFacts entries reqIds).decodeReqIds = reqIds ∧ ∀ reqId ∈ reqIds, ∃ state,
      (entries reqId).state = some state ∧ state.generatedTokens ≠ 0 ∧
        state.mropePositionDelta = none ∧
        (state.samplingParams, state.outputLength) ∈ (cachedFacts entries reqIds).decodeRows := by
  induction reqIds with
  | nil => exact ⟨rfl, fun _ h => absurd h List.not_mem_nil⟩
  | cons reqId reqIds ih =>
    rw [cachedFacts] at hmissing hprefill hmm ⊢
    cases hstate : (entries reqId).state with
    | none =>
      rw [hstate] at hmissing
      exact absurd hmissing.symm Bool.false_ne_true
    | some state =>
      simp only [hstate] at hmissing hprefill hmm ⊢
      by_cases hgen : state.generatedTokens = 0
      · rw [if_pos hgen] at hprefill
        exact absurd hprefill.symm Bool.false_ne_true
      · simp only [hgen, if_false, Bool.or_eq_false_iff] at hmissing hprefill hmm ⊢
        obtain ⟨hids, hstates⟩ := ih hmissing hprefill hmm.2
        refine ⟨by rw [hids], fun id hid => ?_⟩
        rcases List.mem_cons.mp hid with rfl | hid
        · exact ⟨state, hstate, hgen, by simpa using hmm.1, List.mem_cons_self⟩
        · obtain ⟨state', hstate', hgen', hmm', hmem⟩ := hstates id hid
          exact ⟨state', hstate', hgen', hmm', List.mem_cons_of_mem _ hmem⟩

/-- The rows of a batch that may sample natively. -/
theorem nativeRow_of_allowed {cfg : RunnerConfig} {rows : List (SamplingParams × ℤ)}
    (h : (paramsAllowNativeGreedy rows ||
      (cfg.nativeSamplingEnabled && paramsAllowNativeRandom rows)) = true) :
    ∀ row ∈ rows, nativeRow cfg row.1 row.2 = true := by
  intro row hrow
  simp only [Bool.or_eq_true, Bool.and_eq_true, paramsAllowNativeGreedy, paramsAllowNativeRandom,
    Bool.not_eq_true', minTokensPending, List.any_eq_false, decide_eq_true_eq,
    List.all_eq_true] at h
  simp only [nativeRow, Bool.and_eq_true, Bool.or_eq_true, decide_eq_true_eq]
  rcases h with ⟨hmin, hgreedy⟩ | ⟨henabled, -, hmin, hrandom⟩
  · exact ⟨not_lt.mp (hmin row hrow), Or.inl (hgreedy row hrow)⟩
  · exact ⟨not_lt.mp (hmin row hrow), Or.inr ⟨henabled, hrandom row hrow⟩⟩

/-- Every decode request of an eligible step has a pending row. -/
theorem covered_of_reason {p : Pipeline} {step : SchedulerStepShape} {pending : PendingSampleStep}
    (h : pendingCoverageReason p step = none) (hpending : p.pending = some pending) {reqId : ReqId}
    (hmem : reqId ∈ step.decodeReqIds) : (p.rows.get? reqId).isSome := by
  simp only [pendingCoverageReason, hpending] at h
  split at h
  · cases h
  · next hany =>
    rw [Bool.not_eq_true, List.any_eq_false] at hany
    rw [Option.isSome_iff_ne_none]
    intro hnone
    exact hany reqId hmem (Option.isNone_iff_eq_none.mpr hnone)

/-- **What the gate checks.** -/
theorem EligibleFacts.of_eligible {cfg : PipelineConfig} {world : StepWorld} {out : SchedulerOutput}
    {p : Pipeline} {entries : Entries} (h : stepEligible cfg world out p entries = true) :
    EligibleFacts cfg.toRunnerConfig world out p entries := by
  simp only [stepEligible, evaluateGate, Option.isNone_iff_eq_none, Option.orElse_eq_none] at h
  obtain ⟨hcap, hshape, hsampling, hcover⟩ := h
  -- what the gate reads of the step, and the reasons that it has excluded
  set ids := out.scheduledCachedReqs.map CachedRequest.reqId with hids
  set facts := cachedFacts entries ids with hfacts
  have hcap := firstReason_eq_none hcap
  have hshape := firstReason_eq_none hshape
  simp only [List.mem_cons, List.not_mem_nil, or_false, forall_eq_or_imp, forall_eq, stepShape,
    Bool.or_eq_false_iff, Bool.not_eq_false', List.isEmpty_iff, PipelineConfig.capabilities]
    at hcap hshape
  obtain ⟨-, -, -, -, hpp, -⟩ := hcap
  obtain ⟨⟨hnew, hmissing⟩, hprefill, hresumed, -, -, hspec, hstructured, hmm, hforced⟩ := hshape
  obtain ⟨hdecode, hstates⟩ := cachedFacts_spec hmissing hprefill hmm
  -- every row samples on the device
  have hnative : ∀ row ∈ facts.decodeRows, nativeRow cfg.toRunnerConfig row.1 row.2 = true := by
    refine nativeRow_of_allowed ?_
    simp only [SamplingShape.blockReason, samplingShape, hmissing, Bool.not_false, Bool.true_and,
      Bool.and_true, ite_eq_left_iff, reduceCtorEq, imp_false, not_not] at hsampling
    exact hsampling
  exact
    { lastStage := by
        cases hstage : cfg.nonLastStage with
        | false => rfl
        | true =>
          exact absurd (cfg.ppActive_of_stage hstage) (by rw [hpp]; exact Bool.false_ne_true)
      new := hnew
      resumed := by
        intro c hc
        by_contra hne
        have hmem : c.reqId ∈ out.resumedReqIds := List.mem_map.mpr
          ⟨c, List.mem_filter.mpr ⟨hc, Option.isSome_iff_ne_none.mpr hne⟩, rfl⟩
        rw [hresumed] at hmem
        exact absurd hmem List.not_mem_nil
      spec := hspec
      structuredOutput := hstructured
      forced := hforced
      states := by
        intro c hc
        obtain ⟨state, hstate, hgen, hdelta, hmem⟩ := hstates c.reqId (List.mem_map_of_mem hc)
        exact ⟨state, hstate, hgen, hdelta, hnative _ hmem⟩
      covered := by
        intro pending hpending c hc
        refine covered_of_reason hcover hpending ?_
        show c.reqId ∈ facts.decodeReqIds
        rw [hfacts, hdecode]
        exact List.mem_map_of_mem hc }

/-! ### The batch -/

/-- A state whose blocks alone have changed. -/
def OnlyBlocks (entry entry' : Entry) : Prop :=
  ∀ state, entry.state = some state →
    ∃ blocks, entry'.state = some { state with blockIds := blocks }

theorem OnlyBlocks.refl (entry : Entry) : OnlyBlocks entry entry :=
  fun state h => ⟨state.blockIds, h⟩

theorem OnlyBlocks.trans {a b c : Entry} (hab : OnlyBlocks a b) (hbc : OnlyBlocks b c) :
    OnlyBlocks a c := by
  intro state h
  obtain ⟨blocks, h₁⟩ := hab state h
  obtain ⟨blocks', h₂⟩ := hbc _ h₁
  exact ⟨blocks', h₂⟩

/-- What new blocks do to an entry that has a state. -/
theorem updateCachedRequest_eq {c : CachedRequest} (hresumed : c.resumed = none) (entry : Entry) :
    updateCachedRequest c entry = if entry.state.isNone then .error .keyError else .ok
      ({ entry with states := entry.states.modify (extendBlocks c.newBlockIds) }, []) := by
  unfold updateCachedRequest
  cases entry.state with
  | none => rfl
  | some state => simp [hresumed]

theorem isNone_state_fillEntry (pending : PendingSampleStep) (reqId : ReqId) (entry : Entry) :
    (fillEntry pending reqId entry).state.isNone = entry.state.isNone := by
  have h := shape_fillEntry pending reqId entry
  revert h
  cases (fillEntry pending reqId entry).state <;> cases entry.state <;> intro h <;>
    first | rfl | cases h

theorem isNone_state_fill (p : Pipeline) (entries : Entries) (reqId : ReqId) :
    (fill p entries reqId).state.isNone = (entries reqId).state.isNone := by
  unfold fill
  cases p.pending with
  | none => rfl
  | some pending => exact isNone_state_fillEntry ..

/-- Filling in commutes with the new blocks of a step. -/
theorem fill_updateCachedRequestBlocks (p : Pipeline) {out : SchedulerOutput} (entries : Entries)
    (hresumed : ∀ c ∈ out.scheduledCachedReqs, c.resumed = none) :
    updateCachedRequestBlocks out (fill p entries) =
      (updateCachedRequestBlocks out entries).map (fill p) := by
  unfold updateCachedRequestBlocks fill
  cases p.pending with
  | none =>
    cases forEach CachedRequest.reqId updateCachedRequest out.scheduledCachedReqs entries <;> rfl
  | some pending =>
    rw [forEach_map (φ := fillEntry pending)]
    · cases forEach CachedRequest.reqId updateCachedRequest out.scheduledCachedReqs entries <;> rfl
    · intro c hc entry
      rw [updateCachedRequest_eq (hresumed c hc), updateCachedRequest_eq (hresumed c hc),
        isNone_state_fillEntry]
      split
      · rfl
      · rw [fillEntry_extendBlocks]
        unfold fillEntry
        cases pending.find? c.reqId <;> rfl

/-- What the new blocks of a step change. -/
theorem updateCachedRequestBlocks_rel {out : SchedulerOutput} {entries entries' : Entries}
    (hresumed : ∀ c ∈ out.scheduledCachedReqs, c.resumed = none)
    (h : updateCachedRequestBlocks out entries = .ok entries') (reqId : ReqId) :
    Keeps (entries reqId) (entries' reqId) ∧ OnlyBlocks (entries reqId) (entries' reqId) := by
  unfold updateCachedRequestBlocks at h
  cases hloop : forEach CachedRequest.reqId updateCachedRequest out.scheduledCachedReqs entries with
  | error e =>
    rw [hloop] at h
    cases h
  | ok result =>
    rw [hloop] at h
    cases h
    have hitem : ∀ c ∈ out.scheduledCachedReqs, ∀ entry entry' b,
        updateCachedRequest c entry = .ok (entry', b) →
          Keeps entry entry' ∧ OnlyBlocks entry entry' := by
      intro c hc entry entry' b hact
      rw [updateCachedRequest_eq (hresumed c hc)] at hact
      split at hact
      · cases hact
      · cases hact
        refine ⟨keeps_extendBlocks .., fun state hstate => ?_⟩
        refine ⟨(extendBlocks c.newBlockIds state).blockIds, ?_⟩
        simp only [Entry.state, Slot.held_modify] at hstate ⊢
        rw [hstate, Option.map_some]
        cases c.newBlockIds <;> rfl
    exact forEach_rel (R := fun entry entry' => Keeps entry entry' ∧ OnlyBlocks entry entry')
      (fun entry => ⟨.refl entry, .refl entry⟩)
      (fun _ _ _ h₁ h₂ => ⟨h₁.1.trans h₂.1, h₁.2.trans h₂.2⟩) hitem hloop reqId

/-- The work of a step whose cached requests all decode. -/
theorem collectCachedRequests_decodes {out : SchedulerOutput} {entries : Entries}
    (h : ∀ c ∈ out.scheduledCachedReqs, ∃ state, (entries c.reqId).state = some state ∧
      state.generatedTokens ≠ 0) :
    collectCachedRequests out entries =
      .ok (out.scheduledCachedReqs.map fun c => .decode c.reqId) := by
  have hact : ∀ c ∈ out.scheduledCachedReqs,
      collectCachedRequest out.numScheduledTokens c (entries c.reqId) =
        .ok (entries c.reqId, [.decode c.reqId]) := by
    intro c hc
    obtain ⟨state, hstate, hgen⟩ := h c hc
    rw [collectCachedRequest, hstate]
    simp only [hgen, if_false]
  rw [collectCachedRequests, forEach_same hact]
  simp only [Except.map, List.map_eq_flatMap]

/-- The batch of an eligible step: every cached request decodes, with the state it had. -/
structure EligibleBatch (cfg : RunnerConfig) (out : SchedulerOutput) (before after : Entries)
    (work : List Work) : Prop where
  work_eq : work = out.scheduledCachedReqs.map fun c => .decode c.reqId
  keeps : ∀ reqId, Keeps (before reqId) (after reqId)
  states : ∀ c ∈ out.scheduledCachedReqs, ∃ state, (after c.reqId).state = some state ∧
    state.mropePositionDelta = none ∧
    nativeRow cfg state.samplingParams state.outputLength = true

/-- **The batch of an eligible step**: it is collected from the entries as it is from the filled
ones. -/
theorem collectBatch_eligible {cfg : RunnerConfig} {world : StepWorld} {out : SchedulerOutput}
    {p : Pipeline} {entries filled : Entries} {work : List Work}
    (hf : EligibleFacts cfg world out p entries)
    (h : collectBatch cfg.nonLastStage out (fill p entries) = .ok (filled, work)) :
    ∃ after, collectBatch cfg.nonLastStage out entries = .ok (after, work) ∧
      filled = fill p after ∧ EligibleBatch cfg out entries after work := by
  have hmissing : missingCachedStateReqIds out (fill p entries) =
      missingCachedStateReqIds out entries := by
    simp only [missingCachedStateReqIds, isNone_state_fill]
  have hnew : ∀ entries, handleNewRequests out entries = .ok (entries, []) := by
    intro entries
    rw [handleNewRequests, hf.new, forEach]
  simp only [collectBatch, hf.lastStage, hmissing, fill_reconcile, hnew, Bool.false_eq_true,
    if_false, fill_updateCachedRequestBlocks p _ hf.resumed] at h ⊢
  by_cases hnone : missingCachedStateReqIds out entries = []
  · simp only [hnone, ne_eq, not_true_eq_false, if_false] at h ⊢
    cases hblocks : updateCachedRequestBlocks out (reconcileRequestLifecycle out entries) with
    | error e =>
      rw [hblocks] at h
      cases h
    | ok after =>
      rw [hblocks] at h
      have hrel := updateCachedRequestBlocks_rel hf.resumed hblocks
      -- no cached request was evicted, so all of them have the states they had
      have hstates : ∀ c ∈ out.scheduledCachedReqs, ∃ state, (after c.reqId).state = some state ∧
          state.generatedTokens ≠ 0 ∧ state.mropePositionDelta = none ∧
          nativeRow cfg state.samplingParams state.outputLength = true := by
        intro c hc
        obtain ⟨state, hstate, hgen, hdelta, hnative⟩ := hf.states c hc
        have hkept : c.reqId ∉ out.finishedReqIds := by
          intro hfin
          have hmem : c.reqId ∈ missingCachedStateReqIds out entries := by
            rw [missingCachedStateReqIds, List.mem_filter]
            exact ⟨List.mem_map_of_mem hc, by simp [hfin]⟩
          rw [hnone] at hmem
          exact absurd hmem List.not_mem_nil
        have hreconciled : (reconcileRequestLifecycle out entries c.reqId).state = some state := by
          simp only [reconcileRequestLifecycle, hkept, decide_false, Bool.false_eq_true, if_false]
          exact hstate
        obtain ⟨blocks, hafter⟩ := (hrel c.reqId).2 state hreconciled
        exact ⟨_, hafter, hgen, hdelta, hnative⟩
      have hfilled : ∀ c ∈ out.scheduledCachedReqs, ∃ state,
          (fill p after c.reqId).state = some state ∧ state.generatedTokens ≠ 0 := by
        intro c hc
        obtain ⟨state, hstate, hgen, -⟩ := hstates c hc
        have hshape := shape_fill p after c.reqId
        rw [hstate] at hshape
        cases hfill : (fill p after c.reqId).state with
        | none =>
          rw [hfill] at hshape
          cases hshape
        | some state' =>
          rw [hfill] at hshape
          cases hshape with
          | some hsame => exact ⟨state', rfl, hsame.generatedTokens ▸ hgen⟩
      simp only [Except.map, collectCachedRequests_decodes hfilled, List.nil_append] at h
      have hdecoding : ∀ c ∈ out.scheduledCachedReqs, ∃ state,
          (after c.reqId).state = some state ∧ state.generatedTokens ≠ 0 := by
        intro c hc
        obtain ⟨state, hstate, hgen, -⟩ := hstates c hc
        exact ⟨state, hstate, hgen⟩
      have hcollect := collectCachedRequests_decodes hdecoding
      simp only [hcollect, List.nil_append]
      have hnative : ∀ c ∈ out.scheduledCachedReqs, ∃ state, (after c.reqId).state = some state ∧
          state.mropePositionDelta = none ∧
          nativeRow cfg state.samplingParams state.outputLength = true := by
        intro c hc
        obtain ⟨state, hstate, -, hdelta, hrow⟩ := hstates c hc
        exact ⟨state, hstate, hdelta, hrow⟩
      cases h
      exact ⟨after, rfl, rfl, rfl,
        fun reqId => (keeps_reconcile out entries reqId).trans (hrel reqId).1, hnative⟩
  · simp only [ne_eq, hnone, not_false_eq_true, if_true] at h
    cases h

/-! ### The forward -/

/-- Two requests of the same shape. -/
def SameRequest (a b : ReqId × RequestState) : Prop := a.1 = b.1 ∧ SameShape a.2 b.2

/-- The decode requests with filled token lists. -/
theorem decodeStates_fill (p : Pipeline) (entries : Entries) (reqIds : List ReqId) :
    List.Forall₂ SameRequest (decodeStates (fill p entries) reqIds)
      (decodeStates entries reqIds) := by
  induction reqIds with
  | nil => exact .nil
  | cons reqId reqIds ih =>
    have hshape := shape_fill p entries reqId
    unfold decodeStates at ih ⊢
    rw [List.filterMap_cons, List.filterMap_cons]
    cases hfill : (fill p entries reqId).state <;> cases hstate : (entries reqId).state <;>
      rw [hfill, hstate] at hshape
    · exact ih
    · cases hshape
    · cases hshape
    · cases hshape with
      | some hsame => exact .cons ⟨rfl, hsame⟩ ih

/-- Filling in does not change the tracked lengths. -/
theorem seqLensOf_fill (p : Pipeline) (entries : Entries) (reqIds : List ReqId) :
    seqLensOf (fill p entries) reqIds = seqLensOf entries reqIds := by
  simp only [seqLensOf, seqLen_fill]

/-- A step without drafts has its segments. -/
theorem stepSegments_ok {out : SchedulerOutput} (hspec : out.scheduledSpecDecodeTokens.keys = [])
    (entries : Entries) (reqIds : List ReqId) : stepSegments out entries reqIds =
      .ok (segmentList out.scheduledSpecDecodeTokens (seqLensOf entries reqIds) 0
        (decodeStates entries reqIds)) := by
  have hnone : ∀ id, out.scheduledSpecDecodeTokens.get? id = none := by
    intro id
    by_contra hsome
    have hmem := Dict.mem_keys.mpr (Option.isSome_iff_ne_none.mpr hsome)
    rw [hspec] at hmem
    exact absurd hmem List.not_mem_nil
  rw [stepSegments, buildDecodeSegments_ok]
  · intro id hid
    rw [hnone id] at hid
    exact absurd hid Bool.false_ne_true
  · intro id t ht
    rw [Dict.getD, hnone id] at ht
    exact absurd ht List.not_mem_nil

/-- What the rows of two segments have in common where their requests have the same shape. -/
structure SameSpan (a b : PagedDecodeSegment) : Prop where
  rowSpan : RowSpan.ofSegment a = RowSpan.ofSegment b
  drafts : a.draftTokenIds = b.draftTokenIds

/-- The segments of requests of the same shape. -/
theorem segmentList_sameSpan {specTokens : Dict ReqId (List Token)} {seqLens : Dict ReqId ℕ}
    {reqs reqs' : List (ReqId × RequestState)} (h : List.Forall₂ SameRequest reqs reqs')
    (startRow : ℕ) : List.Forall₂ SameSpan (segmentList specTokens seqLens startRow reqs)
      (segmentList specTokens seqLens startRow reqs') := by
  induction h generalizing startRow with
  | nil => exact .nil
  | cons hsame _ ih =>
    obtain ⟨hid, hshape⟩ := hsame
    rw [segmentList, segmentList, hid]
    refine .cons ⟨?_, rfl⟩ (ih _)
    simp only [RowSpan.ofSegment, segmentOf, hshape.length, hshape.blockIds]

/-- The segments of requests without drafts are single rows. -/
theorem segmentList_single {specTokens : Dict ReqId (List Token)} {seqLens : Dict ReqId ℕ}
    (hspec : ∀ id, specTokens.getD id [] = []) (reqs : List (ReqId × RequestState)) (startRow : ℕ) :
    (∀ segment ∈ segmentList specTokens seqLens startRow reqs, segment.draftTokenIds = []) ∧
      ((segmentList specTokens seqLens startRow reqs).map
        PagedDecodeSegment.numQueryTokens).sum = reqs.length := by
  induction reqs generalizing startRow with
  | nil => exact ⟨fun _ h => absurd h List.not_mem_nil, rfl⟩
  | cons req reqs ih =>
    rw [segmentList, hspec req.1]
    obtain ⟨hdrafts, hsum⟩ := ih (startRow + 1)
    refine ⟨?_, ?_⟩
    · intro segment hmem
      rcases List.mem_cons.mp hmem with rfl | hmem
      · rfl
      · exact hdrafts segment hmem
    · rw [List.map_cons, List.sum_cons, List.length_cons, Nat.add_comm]
      exact congrArg (· + 1) hsum

/-- The last token of a filled state is the value that lands there. -/
theorem getLastD_setToken {state : RequestState} {i : ℕ} (value : Token)
    (h : i + 1 = state.tokenIds.length) : (setToken i value state).tokenIds.getLastD 0 = value := by
  have hlast : state.tokenIds.length - 1 = i := by omega
  simp only [setToken, List.getLastD_eq_getLast?, List.getLast?_eq_getElem?, List.length_set, hlast]
  rw [List.getElem?_set_self (by omega), Option.getD_some]

/-- A request of a pending step, and the token that its decode row takes. -/
theorem pending_token {pending : PendingSampleStep} {rows : Dict ReqId ℕ} {entries : Entries}
    (h : Pending pending rows entries) {reqId : ReqId} {state : RequestState}
    (hstate : (entries reqId).state = some state) (hrow : (rows.get? reqId).isSome) :
    ∃ row filled, rows.get? reqId = some row ∧
      (fillEntry pending reqId (entries reqId)).state = some filled ∧
      filled.tokenIds.getLastD 0 = pending.tokens.getD row 0 := by
  rw [h.rows_eq, Option.isSome_map] at hrow
  obtain ⟨item, hfind⟩ := Option.isSome_iff_exists.mp hrow
  obtain ⟨hmem, rfl⟩ := PendingSampleStep.mem_of_find? hfind
  have href := h.held item hmem (by rw [hstate]; rfl)
  obtain ⟨behind, ⟨hderef, -⟩, hlen⟩ := h.waiting item hmem
  -- the object behind the reference is the state that the request has
  have hsame : behind = state := by
    rw [← href, Slot.deref_ref] at hderef
    exact Option.some.inj (hderef.symm.trans hstate)
  subst hsame
  refine ⟨item.row, setToken item.tokenIndex (pending.value item) behind, ?_, ?_,
    getLastD_setToken _ hlen⟩
  · rw [h.rows_eq, hfind, Option.map_some]
  · rw [state_fillEntry, hfind]
    simp only [href, if_true, hstate, Option.map_some]

/-- The gathered tokens are the last tokens of the filled states. -/
theorem gathered_eq {pending : PendingSampleStep} {rows : Dict ReqId ℕ} {entries : Entries}
    (h : Pending pending rows entries) {specTokens : Dict ReqId (List Token)}
    (hspec : ∀ id, specTokens.getD id [] = []) (seqLens : Dict ReqId ℕ) {reqIds : List ReqId}
    (hcovered : ∀ reqId ∈ reqIds, (entries reqId).state.isSome ∧ (rows.get? reqId).isSome)
    (startRow : ℕ) : ∃ perm, (segmentList specTokens seqLens startRow
        (decodeStates entries reqIds)).mapM (pendingRow rows) = .ok perm ∧
      perm.map (fun row => pending.tokens.getD row 0) = (segmentList specTokens seqLens startRow
        (decodeStates (fun id => fillEntry pending id (entries id)) reqIds)).flatMap
          PagedDecodeSegment.inputTokenIds := by
  induction reqIds generalizing startRow with
  | nil => exact ⟨[], rfl, rfl⟩
  | cons reqId reqIds ih =>
    obtain ⟨hsome, hrow⟩ := hcovered reqId List.mem_cons_self
    obtain ⟨state, hstate⟩ := Option.isSome_iff_exists.mp hsome
    obtain ⟨row, filled, hget, hfilled, htoken⟩ := pending_token h hstate hrow
    obtain ⟨perm, hperm, heq⟩ := ih (fun id hid => hcovered id (List.mem_cons_of_mem reqId hid))
      (startRow + 1)
    unfold decodeStates at hperm heq ⊢
    simp only [List.filterMap_cons, hstate, hfilled, Option.map_some, segmentList, hspec,
      List.length_nil, Nat.zero_add]
    refine ⟨row :: perm, ?_, ?_⟩
    · rw [List.mapM_cons, hperm]
      simp only [pendingRow, segmentOf, List.length_nil, Nat.zero_add, ne_eq, not_true_eq_false,
        if_false, hget]
      rfl
    · rw [List.map_cons, List.flatMap_cons, heq]
      simp only [segmentOf, htoken, List.singleton_append]

/-- **The input row of an eligible step** is the one that the host would assemble from the filled
token lists. -/
theorem stepInputIds_eligible {p : Pipeline} {entries : Entries} (hp : PendingOk p entries)
    (heligible : p.stepEligible = true) {specTokens : Dict ReqId (List Token)}
    (hspec : ∀ id, specTokens.getD id [] = []) (seqLens : Dict ReqId ℕ) {reqIds : List ReqId}
    (hne : reqIds ≠ []) (hstates : ∀ reqId ∈ reqIds, (entries reqId).state.isSome)
    (hcovered : ∀ pending, p.pending = some pending →
      ∀ reqId ∈ reqIds, (p.rows.get? reqId).isSome) :
    stepInputIds p (segmentList specTokens seqLens 0 (decodeStates entries reqIds)) [] =
      .ok (hostInputIds (segmentList specTokens seqLens 0
        (decodeStates (fill p entries) reqIds)) []) := by
  unfold stepInputIds assembleDecodeInputIds fill
  cases hpending : p.pending with
  | none => rfl
  | some pending =>
    obtain ⟨perm, hperm, heq⟩ := gathered_eq (hp pending hpending) hspec seqLens
      (fun id hid => ⟨hstates id hid, hcovered pending hpending id hid⟩) 0
    have hsegments : (segmentList specTokens seqLens 0
        (decodeStates entries reqIds)).isEmpty = false := by
      rw [List.isEmpty_eq_false_iff, ne_eq, ← List.length_eq_zero_iff, length_segmentList,
        length_decodeStates hstates, List.length_eq_zero_iff]
      exact hne
    simp only [heligible, Bool.not_true, hsegments, Bool.or_self, Bool.false_eq_true, if_false,
      hperm, List.isEmpty_nil, hostInputIds, List.flatMap_nil, List.append_nil, heq]

/-! ### What an eligible step keeps for its sampling half -/

/-- What an eligible step keeps for its sampling half, beside the synchronous step over the filled
entries: the same, but for the tokens in the segments. -/
structure DeferredForward (cfg : RunnerConfig) (filled : Entries) (st st' : PagedForwardState Row) :
    Prop where
  same : st = { st' with segments := st.segments }
  work : st.work = st.decodeReqs.map Work.decode
  pack : st.pack = []
  full : st.intermediateOnly = false
  spans : List.Forall₂ SameSpan st'.segments st.segments
  drafts : ∀ segment ∈ st'.segments, segment.draftTokenIds = []
  rows : (st.segments.map PagedDecodeSegment.numQueryTokens).sum = st.decodeReqs.length
  nodup : st.decodeReqs.Nodup
  states : ∀ reqId ∈ st.decodeReqs, ∃ state, (filled reqId).state = some state ∧
    nativeRow cfg state.samplingParams state.outputLength = true
  structuredOutput : st.out.hasStructuredOutputRequests = false

@[simp] theorem filterMap_prefill?_decodes (reqIds : List ReqId) :
    (reqIds.map Work.decode).filterMap Work.prefill? = [] := by
  induction reqIds with
  | nil => rfl
  | cons reqId reqIds ih => rw [List.map_cons, List.filterMap_cons, ih]; rfl

@[simp] theorem filterMap_decode?_decodes (reqIds : List ReqId) :
    (reqIds.map Work.decode).filterMap Work.decode? = reqIds := by
  induction reqIds with
  | nil => rfl
  | cons reqId reqIds ih => rw [List.map_cons, List.filterMap_cons, ih]; rfl

@[simp] theorem prefillOutputs_decodes (reqIds : List ReqId) (chunkTokens : List (List Token)) :
    prefillOutputs (reqIds.map Work.decode) chunkTokens = [] := by
  induction reqIds with
  | nil => rfl
  | cons reqId reqIds ih => rw [List.map_cons, prefillOutputs, ih]

/-- No decode request of an eligible step is multimodal. -/
theorem usesMmForward_eq_false {world : StepWorld} {entries : Entries} {reqIds : List ReqId}
    (hforced : world.mmForwardForced = false)
    (h : ∀ reqId ∈ reqIds, ∀ state, (entries reqId).state = some state →
      state.mropePositionDelta = none) :
    usesMmForward world (decodeStates entries reqIds) [] = false := by
  simp only [usesMmForward, List.any_nil, hforced, Bool.false_or, Bool.or_false, List.any_eq_false,
    Bool.not_eq_true, Option.isSome_eq_false_iff, Option.isNone_iff_eq_none]
  intro req hreq
  obtain ⟨reqId, hid, hreq⟩ := List.mem_filterMap.mp hreq
  obtain ⟨state, hstate, rfl⟩ := Option.map_eq_some_iff.mp hreq
  exact h reqId hid state hstate

/-- The filled state of a request has the shape of its state. -/
theorem exists_fill_state (p : Pipeline) {entries : Entries} {reqId : ReqId} {state : RequestState}
    (h : (entries reqId).state = some state) :
    ∃ filled, (fill p entries reqId).state = some filled ∧ SameShape filled state := by
  have hshape := shape_fill p entries reqId
  rw [h] at hshape
  cases hfill : (fill p entries reqId).state with
  | none =>
    rw [hfill] at hshape
    cases hshape
  | some filled =>
    rw [hfill] at hshape
    cases hshape with
    | some hsame => exact ⟨filled, rfl, hsame⟩

/-- **The forward of an eligible step** is that of the synchronous step over the filled entries. -/
theorem forwardBatch_eligible (target : Target Row) {cfg : RunnerConfig} {world : StepWorld}
    {out : SchedulerOutput} {p pPlain : Pipeline} {entries : Entries} (history : List StepRecord)
    {reqIds : List ReqId} (hspec : out.scheduledSpecDecodeTokens.keys = [])
    (hstructured : out.hasStructuredOutputRequests = false)
    (hforced : world.mmForwardForced = false) (hp : PendingOk p entries)
    (heligible : p.stepEligible = true) (hplain : pPlain.pending = none) (hne : reqIds ≠ [])
    (hnodup : reqIds.Nodup)
    (hstates : ∀ reqId ∈ reqIds, ∃ state, (entries reqId).state = some state ∧
      state.mropePositionDelta = none ∧
      nativeRow cfg state.samplingParams state.outputLength = true)
    (hcovered : ∀ pending, p.pending = some pending →
      ∀ reqId ∈ reqIds, (p.rows.get? reqId).isSome) :
    ∃ st st' seen,
      forwardBatch target cfg world out p history (reqIds.map Work.decode) entries =
        .ok ⟨entries, p, seen, some st⟩ ∧
      forwardBatch target cfg world out pPlain history (reqIds.map Work.decode) (fill p entries) =
        .ok ⟨fill p entries, pPlain, seen, some st'⟩ ∧
      DeferredForward cfg (fill p entries) st st' := by
  -- no drafts are scheduled
  have hgetD : ∀ id, out.scheduledSpecDecodeTokens.getD id [] = [] := by
    intro id
    have hnone : out.scheduledSpecDecodeTokens.get? id = none := by
      by_contra hsome
      have hmem := Dict.mem_keys.mpr (Option.isSome_iff_ne_none.mpr hsome)
      rw [hspec] at hmem
      exact absurd hmem List.not_mem_nil
    rw [Dict.getD, hnone, Option.getD_none]
  have hsome : ∀ reqId ∈ reqIds, (entries reqId).state.isSome := by
    intro reqId hid
    obtain ⟨state, hstate, -⟩ := hstates reqId hid
    rw [hstate]
    rfl
  have hmm : usesMmForward world (decodeStates entries reqIds) [] = false := by
    refine usesMmForward_eq_false hforced fun reqId hid state hstate => ?_
    obtain ⟨state', hstate', hdelta, -⟩ := hstates reqId hid
    rw [hstate] at hstate'
    exact Option.some.inj hstate' ▸ hdelta
  have hmm' : usesMmForward world (decodeStates (fill p entries) reqIds) [] = false := by
    refine usesMmForward_eq_false hforced fun reqId hid state hstate => ?_
    obtain ⟨state', hstate', hdelta, -⟩ := hstates reqId hid
    obtain ⟨filled, hfilled, hshape⟩ := exists_fill_state p hstate'
    rw [hstate] at hfilled
    rw [Option.some.inj hfilled, hshape.mropePositionDelta, hdelta]
  -- the segments of both entries have the same spans, whatever their last tokens
  set segments := segmentList out.scheduledSpecDecodeTokens (seqLensOf entries reqIds) 0
    (decodeStates entries reqIds) with hsegments
  set segments' := segmentList out.scheduledSpecDecodeTokens (seqLensOf entries reqIds) 0
    (decodeStates (fill p entries) reqIds) with hsegments'
  have hspans : List.Forall₂ SameSpan segments' segments :=
    segmentList_sameSpan (decodeStates_fill p entries reqIds) 0
  have hrowSpans : segments.map RowSpan.ofSegment = segments'.map RowSpan.ofSegment := by
    rw [← List.forall₂_eq_eq_eq, List.forall₂_map_left_iff, List.forall₂_map_right_iff]
    exact (hspans.imp fun _ _ h => h.rowSpan.symm).flip
  -- the placeholders are filled in from the step in flight
  have hinput := stepInputIds_eligible hp heligible hgetD (seqLensOf entries reqIds) hne hsome
    hcovered
  rw [← hsegments, ← hsegments'] at hinput
  obtain ⟨-, hrows⟩ : (∀ segment ∈ segments, segment.draftTokenIds = []) ∧ _ :=
    segmentList_single hgetD (decodeStates entries reqIds) 0
  obtain ⟨hdrafts, -⟩ : (∀ segment ∈ segments', segment.draftTokenIds = []) ∧ _ :=
    segmentList_single hgetD (decodeStates (fill p entries) reqIds) 0
  have hplainInput : ∀ segments, stepInputIds pPlain segments [] =
    .ok (hostInputIds segments []) := by
    intro segments
    rw [stepInputIds, assembleDecodeInputIds, hplain]
  have hfull : isIntermediateOnly cfg false reqIds [] = false := by simp [isIntermediateOnly]
  -- both forwards see the history of the synchronous one
  let seen :=
    history ++ [⟨out, some ⟨hostInputIds segments' [], segments'.map RowSpan.ofSegment, []⟩⟩]
  let state : List PagedDecodeSegment → PagedForwardState Row := fun segments =>
    { out := out
      work := reqIds.map Work.decode
      decodeReqs := reqIds
      segments := segments
      pack := []
      logits := target.logits seen
      intermediateOnly := false
      mmPrefillDeltas := fun _ => none }
  refine ⟨state segments, state segments', seen, ?_, ?_, ?_⟩
  · simp only [forwardBatch, filterMap_prefill?_decodes, buildPrefillPack, List.mapM_nil, pure,
      Except.pure, filterMap_decode?_decodes, stepSegments_ok hspec, ← hsegments, hinput,
      startPagedForward, hmm, Bool.false_eq_true, if_false, hrowSpans, hfull, Bool.false_and,
      List.map_nil, state, seen]
  · simp only [forwardBatch, filterMap_prefill?_decodes, buildPrefillPack, List.mapM_nil, pure,
      Except.pure, filterMap_decode?_decodes, stepSegments_ok hspec, seqLensOf_fill, ← hsegments',
      hplainInput, startPagedForward, hmm', Bool.false_eq_true, if_false, hfull, Bool.false_and,
      List.map_nil, state, seen]
  · exact
      { same := rfl
        work := rfl
        pack := rfl
        full := rfl
        spans := hspans
        drafts := hdrafts
        rows := hrows.trans (length_decodeStates hsome)
        nodup := hnodup
        states := by
          intro reqId hid
          obtain ⟨state, hstate, -, hnative⟩ := hstates reqId hid
          obtain ⟨filled, hfilled, hshape⟩ := exists_fill_state p hstate
          exact ⟨filled, hfilled, by rw [hshape.samplingParams, hshape.outputLength]; exact hnative⟩
        structuredOutput := hstructured }

end PagedRunner
end VllmMetal
