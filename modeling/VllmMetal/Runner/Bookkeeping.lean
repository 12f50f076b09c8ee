import VllmMetal.Runner.Deferred
import VllmMetal.Runner.SampledLives

/-!
# The runner's bookkeeping

Prefill, chunked prefill, decode with and without drafts, deferred decode, preemption and
resumption, re-admission and eviction all write the same few fields.  Along every run that the
scheduler drives consistently, the counts of a decoding request agree with its tokens, every chunk
is what the scheduler asked for, nothing survives an eviction, and each step has one output slot for
each request.

## Main definitions

* `Books`, `Books.Step` — the engine with the lives of the requests.
* `Bookkeeping` — what holds of a runner.

## Main results

* `bookkeeping_of_run` — **the bookkeeping of both runners, along every run**.
-/

namespace VllmMetal
namespace PagedRunner

open SpecDecode Multimodal

variable {Row : Type}

/-! ### The engine with the lives of the requests -/

/-- The engine, and the requests as the scheduler knows them; in the middle of a step these have the
passes that it starts. -/
structure Books (Row : Type) where
  engine : Engine Row
  lives : ReqId → Option Life

/-- Before the first step. -/
def Books.start (Row : Type) : Books Row := ⟨.start Row, fun _ => none⟩

/-- A call of the engine, and what it makes of the lives. -/
inductive Books.Step (target : Target Row) (cfg : PipelineConfig) :
    Books Row → Call Row → Books Row → Prop
  | execute {b : Books Row} {world : StepWorld} {out : SchedulerOutput}
      {opened : ReqId → Option Life} {e : Engine Row}
      (hsched : Scheduled b.lives out opened)
      (hstep : PagedRunner.Step target cfg b.engine (.execute world out) e) :
      Books.Step target cfg b (.execute world out) ⟨e, opened⟩
  | sample {b : Books Row} {grammarOutput : Option ((ℕ → Row) → ℕ → Row)}
      {st : PagedForwardState Row} {output : StepOutput} {e : Engine Row}
      (hstep : PagedRunner.Step target cfg b.engine (.sample grammarOutput) e)
      (hstate : b.engine.plain.executeModelState = some st)
      (houtput : e.plainOutputs = b.engine.plainOutputs ++ [output]) :
      Books.Step target cfg b (.sample grammarOutput) ⟨e, delivered st.out output b.lives⟩
  | getOutput {b : Books Row} {e : Engine Row}
      (hstep : PagedRunner.Step target cfg b.engine .getOutput e) :
      Books.Step target cfg b .getOutput ⟨e, b.lives⟩

/-- What holds of a runner. -/
structure Bookkeeping (lives : ReqId → Option Life) (r : Runner Row) : Prop where
  /-- A request that has generated tokens is counted. -/
  decode : ∀ reqId state, (r.entries reqId).state = some state → state.generatedTokens ≠ 0 →
    state.generatedTokens + state.promptLen = state.tokenIds.length ∧
      (r.entries reqId).seqLen = some (state.tokenIds.length - 1)
  /-- The rows of a decode request start at the position of its last token. -/
  segments : ∀ st, r.executeModelState = some st → ∀ segment ∈ st.segments, ∃ state,
    (r.entries segment.reqId).state = some state ∧
      segment.cacheStartPos + 1 = state.tokenIds.length
  /-- A chunk has the tokens from where the request is computed on, as many as are scheduled, and is
  final where it reaches the last of them. -/
  chunks : ∀ st, r.executeModelState = some st → ∀ pr ∈ st.pack, ∃ life outs,
    lives pr.reqId = some life ∧ life.stage = .computing outs pr.startPos ∧
      pr.tokenIds = ((life.prompt ++ outs).drop pr.startPos).take
        (st.out.numScheduledTokens pr.reqId) ∧
      (pr.promptLen.isSome ↔
        pr.startPos + st.out.numScheduledTokens pr.reqId = (life.prompt ++ outs).length)
  /-- Nothing is left of a request that is finished, or was never there. -/
  forgotten : ∀ reqId, lives reqId = none → (r.entries reqId).Forgotten
  /-- Between two steps the runner has the tokens that the scheduler knows. -/
  known : r.executeModelState = none → r.pipeline.pending = none → ∀ reqId life,
    lives reqId = some life → ∃ state, (r.entries reqId).state = some state ∧
      life.stage.Holds life.prompt state
  /-- The next step finds the states of its requests. -/
  answers : r.executeModelState = none → r.pipeline.pending = none → ∀ out opened,
    Scheduled lives out opened → ∃ after work, collectBatch false out r.entries = .ok (after, work)

/-- The output of a step has one slot for each request. -/
def OneSlotEach (record : StepRecord) (output : StepOutput) : Prop :=
  (output.map Prod.fst).Perm record.out.scheduledReqIds

/-! ### The invariant -/

/-- The synchronous runner follows the lives, between two steps and in the middle of one. -/
inductive Books.Ok (b : Books Row) : Prop
  | rest (hstate : b.engine.plain.executeModelState = none)
      (hknown : Known b.lives b.engine.plain.entries)
      (hslots : List.Forall₂ OneSlotEach b.engine.plain.history b.engine.plainOutputs)
  | running {st : PagedForwardState Row} {past : List StepRecord} {record : StepRecord}
      (hstate : b.engine.plain.executeModelState = some st)
      (hexecuted : Executed b.lives b.engine.plain.entries st)
      (hhistory : b.engine.plain.history = past ++ [record]) (hout : record.out = st.out)
      (hslots : List.Forall₂ OneSlotEach past b.engine.plainOutputs)

theorem Books.ok_start (Row : Type) : (Books.start Row).Ok :=
  .rest rfl (fun _ => ⟨rfl, rfl, rfl, rfl⟩) .nil

/-- A batch without work is that of a step without requests. -/
theorem BatchOf.known {opened : ReqId → Option Life} {entries : Entries} {out : SchedulerOutput}
    {work : List Work} (h : BatchOf out opened entries work) (hnone : hasPagedWork work = false) :
    work = [] ∧ Known opened entries := by
  have hempty : work = [] := by
    cases work with
    | nil => rfl
    | cons piece work =>
      exfalso
      cases piece with
      | output reqId tokens => exact h.notMem_output reqId tokens List.mem_cons_self
      | prefill pending => exact Bool.false_ne_true (hnone.symm.trans rfl)
      | decode reqId =>
        rw [hasPagedWork, Bool.or_eq_false_iff] at hnone
        exact Bool.false_ne_true (hnone.2.symm.trans rfl)
  refine ⟨hempty, fun reqId => h.rest reqId ?_⟩
  rw [← h.ids, hempty]
  exact List.not_mem_nil

/-- **A step of the synchronous runner.** -/
theorem runStep_ok {target : Target Row} {cfg : RunnerConfig} {world : StepWorld}
    {out : SchedulerOutput} {p : Pipeline} {entries : Entries} {history : List StepRecord}
    {lives opened : ReqId → Option Life} (hstage : cfg.nonLastStage = false)
    (hknown : Known lives entries) (hsched : Scheduled lives out opened) {r : Runner Row}
    {output : Option StepOutput}
    (h : runStep target cfg world out p entries history = .ok (r, output)) :
    ∃ record, r.history = history ++ [record] ∧ record.out = out ∧
      ((output = none ∧ ∃ st, r.executeModelState = some st ∧ st.out = out ∧
          Executed opened r.entries st) ∨
        (r.executeModelState = none ∧ Known opened r.entries ∧
          ∃ o, output = some o ∧ OneSlotEach record o)) := by
  obtain ⟨after, work, hcollect, hbatch⟩ := collectBatch_ok hknown hsched
  unfold runStep at h
  rw [hstage, hcollect] at h
  simp only at h
  -- a step with rows runs the forward, one without answers at once
  cases hpaged : hasPagedWork work with
  | true =>
    rw [hpaged, if_pos rfl] at h
    split at h
    · cases h
    · next runner hforward =>
      cases h
      obtain ⟨st, input, hstate, hout, hexecuted, hhistory⟩ := forwardBatch_executed hbatch hforward
      exact ⟨_, hhistory, rfl, Or.inl ⟨rfl, st, hstate, hout, hexecuted⟩⟩
  | false =>
    obtain ⟨hempty, hknown'⟩ := hbatch.known hpaged
    rw [hpaged, if_neg Bool.false_ne_true] at h
    split at h
    · cases h
    · cases h
      refine ⟨_, rfl, rfl, Or.inr ⟨rfl, hknown', _, rfl, ?_⟩⟩
      rw [OneSlotEach, hempty]
      show List.Perm [] out.scheduledReqIds
      rw [← hbatch.ids, hempty]
      exact .refl _

/-- The bitmask of a grammar changes the logits alone. -/
theorem Executed.grammar {opened : ReqId → Option Life} {entries : Entries}
    {st : PagedForwardState Row} (h : Executed opened entries st)
    (grammarOutput : Option ((ℕ → Row) → ℕ → Row)) :
    (match grammarOutput with
      | none => st
      | some mask => { st with logits := mask st.logits }).out = st.out ∧
    Executed opened entries (match grammarOutput with
      | none => st
      | some mask => { st with logits := mask st.logits }) := by
  cases grammarOutput with
  | none => exact ⟨rfl, h⟩
  | some mask => exact ⟨rfl, h.batch, h.decodeReqs, h.segments, h.pack, h.intermediate⟩

/-- **Every call keeps the books.** -/
theorem Books.Ok.step {target : Target Row} {cfg : PipelineConfig}
    (hstage : cfg.nonLastStage = false)
    {b b' : Books Row} {call : Call Row} (hinv : Inv cfg.toRunnerConfig b.engine) (hok : b.Ok)
    (hstep : Books.Step target cfg b call b') : b'.Ok := by
  -- one case for each call; what the runner is in the middle of decides the books
  cases hstep with
  | execute hsched hstep =>
    cases hstep with
    | execute hlegal hdeferred hplain =>
      cases hok with
      | running hstate => cases hstate.symm.trans hlegal.1
      | rest hstate hknown hslots =>
        rw [executeModel_synchronous target cfg _ _ hinv.plainPending hinv.plainEligible] at hplain
        -- the plain step answers at once, or leaves a forward to sample from
        obtain ⟨record, hhistory, hout, hcase⟩ := runStep_ok hstage hknown hsched hplain
        rcases hcase with ⟨rfl, st, hst, hstOut, hexecuted⟩ | ⟨hnone, hknown', o, rfl, hslot⟩
        · refine .running hst hexecuted hhistory (hout.trans hstOut.symm) ?_
          simpa [Engine.executed] using hslots
        · refine .rest hnone hknown' ?_
          simp only [Engine.executed, hhistory, Option.toList_some]
          exact List.rel_append hslots (.cons hslot .nil)
  | @sample grammarOutput _ _ _ hstep hstate houtput =>
    cases hstep with
    | sample hlegal hdeferred hplain =>
      cases hok with
      | rest hnone => cases hnone.symm.trans hstate
      | running hstate' hexecuted hhistory hout hslots =>
        rw [hstate'] at hstate
        cases hstate
        rw [Engine.plainOutputs_sampled, List.append_cancel_left_eq, List.singleton_inj] at houtput
        subst houtput
        rw [sampleTokens, hstate'] at hplain
        have hstage' : cfg.synchronous.nonLastStage = false := hstage
        simp only [hstage', hinv.plainEligible, Bool.false_eq_true, if_false] at hplain
        split at hplain
        · cases hplain
        · next hbatch =>
          -- sampling ends the step, with the grammar's rows masked
          obtain ⟨hout', hexecuted'⟩ := hexecuted.grammar grammarOutput
          have hdelivered := samplePagedBatch_delivered hexecuted' hbatch
          rw [hout'] at hdelivered
          cases hplain
          refine .rest ?_ ?_ ?_
          · rw [Engine.plain_sampled]
          · rw [Engine.plain_sampled]
            exact hdelivered.2
          · rw [Engine.plain_sampled, Engine.plainOutputs_sampled, hhistory]
            refine List.rel_append hslots (.cons ?_ .nil)
            rw [OneSlotEach, hout]
            exact hdelivered.1
  | getOutput hstep =>
    cases hstep with
    | getOutput hhead hdeferred =>
      cases hok with
      | rest hstate hknown hslots => exact .rest hstate hknown hslots
      | running hstate hexecuted hhistory hout hslots =>
        exact .running hstate hexecuted hhistory hout hslots

/-! ### What the invariant says -/

section

variable {lives opened : ReqId → Option Life} {entries : Entries} {st : PagedForwardState Row}

theorem Known.consistent (h : Known lives entries) (reqId : ReqId) :
    (entries reqId).Consistent := by
  have hid := h reqId
  cases hlife : lives reqId with
  | none =>
    rw [hlife] at hid
    intro state hstate
    cases hid.state.symm.trans hstate
  | some life =>
    rw [hlife] at hid
    exact hid.1.consistent

theorem Executed.consistent (h : Executed opened entries st) (reqId : ReqId) :
    (entries reqId).Consistent := by
  by_cases hin : reqId ∈ st.out.scheduledReqIds
  · obtain hdec | ⟨i, pending, hpending, rfl⟩ := h.exists_pending hin
    · rw [h.decodeReqs] at hdec
      obtain ⟨life, outs, -, -, htracks, -⟩ := h.batch.decoding hdec
      exact htracks.consistent
    · -- a request with a chunk has not generated any tokens
      obtain ⟨life, -, hqueued⟩ := h.batch.queued (List.mem_of_getElem? hpending)
      intro state hstate hgen
      obtain ⟨state', hstate', -, -, hzero, -⟩ | ⟨hnone, -⟩ := hqueued.state
      · obtain rfl := Option.some.inj (hstate.symm.trans hstate')
        exact absurd hzero hgen
      · cases hnone.symm.trans hstate
  · have hrest := h.batch.rest reqId hin
    cases hopened : opened reqId with
    | none =>
      rw [hopened] at hrest
      intro state hstate
      cases hrest.state.symm.trans hstate
    | some life =>
      rw [hopened] at hrest
      exact hrest.1.consistent

theorem Executed.forgotten (h : Executed opened entries st) {reqId : ReqId}
    (hnone : opened reqId = none) : (entries reqId).Forgotten := by
  have hnot : reqId ∉ st.out.scheduledReqIds := by
    intro hin
    rw [← h.batch.ids] at hin
    obtain ⟨piece, hpiece, rfl⟩ := List.mem_map.mp hin
    obtain ⟨life, hopened, -⟩ := h.batch.work piece hpiece
    cases hnone.symm.trans hopened
  have hrest := h.batch.rest reqId hnot
  rw [hnone] at hrest
  exact hrest

/-- **The segments of a step** start at the positions of last tokens. -/
theorem Executed.segment (h : Executed opened entries st) {segment : PagedDecodeSegment}
    (hmem : segment ∈ st.segments) : ∃ state, (entries segment.reqId).state = some state ∧
      segment.cacheStartPos + 1 = state.tokenIds.length := by
  rw [h.segments] at hmem
  obtain ⟨req, hreq, row, rfl⟩ := mem_segmentList hmem
  obtain ⟨reqId, hid, hreq⟩ := List.mem_filterMap.mp hreq
  obtain ⟨state, hstate, rfl⟩ := Option.map_eq_some_iff.mp hreq
  have hseqLens := get?_seqLensOf entries hid
  rw [h.decodeReqs] at hid
  obtain ⟨life, outs, -, hstage, htracks, -⟩ := h.batch.decoding hid
  obtain ⟨state', hstate', hlen, hholds⟩ := htracks.state
  obtain rfl := Option.some.inj (hstate.symm.trans hstate')
  rw [hstage] at hholds
  obtain ⟨-, hseq⟩ := htracks.consistent state hstate hholds.2
  refine ⟨state, hstate, ?_⟩
  have hpos : 0 < state.tokenIds.length := by
    rw [hholds.1, List.length_append]
    exact Nat.add_pos_left (List.length_pos_of_ne_nil htracks.prompt_ne) _
  show (seqLensOf entries st.decodeReqs).getD reqId _ + 1 = _
  rw [Dict.getD, hseqLens, hseq, Option.getD_some]
  omega

/-- **The chunks of a step.** -/
theorem Executed.chunk (h : Executed opened entries st) {pr : PrefillRequest}
    (hmem : pr ∈ st.pack) :
    ∃ life outs, opened pr.reqId = some life ∧ life.stage = .computing outs pr.startPos ∧
      pr.tokenIds = ((life.prompt ++ outs).drop pr.startPos).take
        (st.out.numScheduledTokens pr.reqId) ∧
      (pr.promptLen.isSome ↔
        pr.startPos + st.out.numScheduledTokens pr.reqId = (life.prompt ++ outs).length) := by
  obtain ⟨i, hi⟩ := List.mem_iff_getElem?.mp hmem
  obtain ⟨pending, hpending, life', fullPrompt, -, rfl, -⟩ := exists_of_forall₂ h.pack hi
  obtain ⟨life, hopened, hqueued⟩ := h.batch.queued (List.mem_of_getElem? hpending)
  obtain ⟨outs, start, hchunk⟩ := hqueued.chunkAt
  have htokens : life.tokens = life.prompt ++ outs := by rw [Life.tokens, hchunk.stage]; rfl
  have hstart : pending.prefill.startPos = start := hchunk.startPos
  refine ⟨life, outs, hopened, ?_, ?_, ?_⟩
  · show life.stage = .computing outs pending.prefill.startPos
    rw [hstart, hchunk.stage]
  · show pending.prefill.tokenIds =
      ((life.prompt ++ outs).drop pending.prefill.startPos).take _
    rw [hchunk.tokenIds, hstart, htokens]
    rfl
  · show pending.prefill.promptLen.isSome ↔ pending.prefill.startPos +
      st.out.numScheduledTokens pending.reqId = _
    have hinside := hchunk.inside
    rw [hchunk.promptLen, hstart, ← htokens]
    split
    · next hlt => simp only [Option.isSome_none, Bool.false_eq_true, false_iff]; omega
    · next hge => simp only [Option.isSome_some, true_iff]; omega

end

/-- The bookkeeping of the synchronous runner. -/
theorem Books.Ok.bookkeeping {b : Books Row} (h : b.Ok) : Bookkeeping b.lives b.engine.plain := by
  have hconsistent : ∀ reqId, (b.engine.plain.entries reqId).Consistent := by
    cases h with
    | rest hstate hknown hslots => exact hknown.consistent
    | running hstate hexecuted hhistory hout hslots => exact hexecuted.consistent
  -- what the middle of a step says
  have hexecuted : ∀ st, b.engine.plain.executeModelState = some st →
      Executed b.lives b.engine.plain.entries st := by
    intro st hst
    cases h with
    | rest hnone => cases hnone.symm.trans hst
    | running hstate hexecuted hhistory hout hslots =>
      obtain rfl := Option.some.inj (hstate.symm.trans hst)
      exact hexecuted
  have hknown : b.engine.plain.executeModelState = none →
      Known b.lives b.engine.plain.entries := by
    intro hnone
    cases h with
    | rest hstate hknown hslots => exact hknown
    | running hstate => cases hstate.symm.trans hnone
  exact
    { decode := fun reqId state hstate hgen =>
        let hcounted := hconsistent reqId state hstate hgen
        ⟨hcounted.generated, hcounted.seqLen⟩
      segments := fun st hst segment hmem => (hexecuted st hst).segment hmem
      chunks := fun st hst pr hmem => (hexecuted st hst).chunk hmem
      forgotten := by
        intro reqId hnone
        cases hst : b.engine.plain.executeModelState with
        | none =>
          have hid := hknown hst reqId
          rw [hnone] at hid
          exact hid
        | some st => exact (hexecuted st hst).forgotten hnone
      known := by
        intro hst _ reqId life hlife
        have hid := hknown hst reqId
        rw [hlife] at hid
        obtain ⟨state, hstate, -, hholds⟩ := hid.1.state
        exact ⟨state, hstate, hholds⟩
      answers := by
        intro hst _ out opened hsched
        obtain ⟨after, work, hcollect, -⟩ := collectBatch_ok (hknown hst) hsched
        exact ⟨after, work, hcollect⟩ }

/-! ### The runner with the pipeline -/

/-- A state of the shape of a counted one is counted. -/
theorem Counted.of_shape {a b : RequestState} (hshape : SameShape a b) {seqLen : Option ℕ}
    (h : Counted a seqLen) : Counted b seqLen :=
  ⟨by rw [← hshape.generatedTokens, ← hshape.promptLen, ← hshape.length]; exact h.generated,
    by rw [← hshape.length]; exact h.seqLen⟩

/-- What an entry with a pending value has, the filled one has. -/
theorem forgotten_fill {p : Pipeline} {entries : Entries} {reqId : ReqId} :
    (fill p entries reqId).Forgotten → (entries reqId).Forgotten := by
  intro ⟨hstate, hseq, hawaiting, hbidi⟩
  have hnone := isNone_state_fill p entries reqId
  rw [hstate] at hnone
  rw [seqLen_fill] at hseq
  refine ⟨Option.isNone_iff_eq_none.mp hnone.symm, hseq, ?_, ?_⟩
  · unfold fill at hawaiting
    cases hpending : p.pending with
    | none =>
      rw [hpending] at hawaiting
      exact hawaiting
    | some pending =>
      rw [hpending] at hawaiting
      exact (awaiting_fillEntry ..).symm.trans hawaiting
  · unfold fill at hbidi
    cases hpending : p.pending with
    | none =>
      rw [hpending] at hbidi
      exact hbidi
    | some pending =>
      rw [hpending] at hbidi
      exact (mmBidiState_fillEntry ..).symm.trans hbidi

/-- **The bookkeeping carries over to the runner with the pipeline**, whose entries differ in the
values of pending tokens. -/
theorem Inv.bookkeeping {cfg : RunnerConfig} {e : Engine Row} {lives : ReqId → Option Life}
    (hinv : Inv cfg e) (h : Bookkeeping lives e.plain) : Bookkeeping lives e.deferred := by
  have hstate : ∀ reqId state, (e.deferred.entries reqId).state = some state →
      ∃ filled, (e.plain.entries reqId).state = some filled ∧ SameShape filled state := by
    intro reqId state hst
    rw [hinv.entries]
    exact exists_fill_state _ hst
  have hback : ∀ reqId filled, (e.plain.entries reqId).state = some filled →
      ∃ state, (e.deferred.entries reqId).state = some state ∧ SameShape filled state := by
    intro reqId filled hfilled
    rw [hinv.entries] at hfilled
    have hshape := shape_fill e.deferred.pipeline e.deferred.entries reqId
    rw [hfilled] at hshape
    cases hst : (e.deferred.entries reqId).state with
    | none =>
      rw [hst] at hshape
      cases hshape
    | some state =>
      rw [hst] at hshape
      cases hshape with
      | some hsame => exact ⟨state, rfl, hsame⟩
  have hentries : e.deferred.pipeline.pending = none → e.plain.entries = e.deferred.entries := by
    intro hnone
    rw [hinv.entries, fill_of_none hnone]
  have hplainNone : e.deferred.executeModelState = none → e.plain.executeModelState = none := by
    intro hnone
    cases hinv.forward with
    | none hdeferred hplain => exact hplain
    | synchronous hdeferred => cases hdeferred.symm.trans hnone
    | eligible hdeferred => cases hdeferred.symm.trans hnone
  -- the step that is being executed, beside that of the synchronous runner
  have hst : ∀ st, e.deferred.executeModelState = some st →
    ∃ st', e.plain.executeModelState = some st' ∧
      st = { st' with segments := st.segments } ∧
        List.Forall₂ SameSpan st'.segments st.segments := by
    intro st hst
    cases hinv.forward with
    | none hnone => cases hnone.symm.trans hst
    | synchronous hdeferred hplain =>
      obtain rfl := Option.some.inj (hdeferred.symm.trans hst)
      exact ⟨_, hplain, rfl, List.forall₂_same.mpr fun _ _ => ⟨rfl, rfl⟩⟩
    | eligible hdeferred hplain heligible hforward =>
      obtain rfl := Option.some.inj (hdeferred.symm.trans hst)
      exact ⟨_, hplain, hforward.same, hforward.spans⟩
  exact
    { decode := by
        intro reqId state hsome hgen
        obtain ⟨filled, hfilled, hshape⟩ := hstate reqId state hsome
        obtain ⟨hcount, hseq⟩ := h.decode reqId filled hfilled (hshape.generatedTokens ▸ hgen)
        rw [hinv.entries, seqLen_fill] at hseq
        obtain ⟨hcount', hseq'⟩ := Counted.of_shape hshape ⟨hcount, hseq⟩
        exact ⟨hcount', hseq'⟩
      segments := by
        intro st hsome segment hmem
        obtain ⟨st', hplain, -, hspans⟩ := hst st hsome
        obtain ⟨i, hi⟩ := List.mem_iff_getElem?.mp hmem
        obtain ⟨segment', hi', hspan⟩ := exists_of_forall₂ hspans hi
        obtain ⟨filled, hfilled, hpos⟩ := h.segments st' hplain segment' (List.mem_of_getElem? hi')
        have hrow := hspan.rowSpan
        simp only [RowSpan.ofSegment, RowSpan.mk.injEq] at hrow
        obtain ⟨state, hsome', hshape⟩ := hback _ _ hfilled
        rw [hrow.1] at hsome'
        exact ⟨state, hsome', by rw [← hrow.2.1, hpos, hshape.length]⟩
      chunks := by
        intro st hsome pr hmem
        obtain ⟨st', hplain, hsame, -⟩ := hst st hsome
        rw [hsame] at hmem ⊢
        exact h.chunks st' hplain pr hmem
      forgotten := by
        intro reqId hnone
        have hforgotten := h.forgotten reqId hnone
        rw [hinv.entries] at hforgotten
        exact forgotten_fill hforgotten
      known := by
        intro hnone hpending reqId life hlife
        rw [← hentries hpending]
        rw [← hinv.plainPending] at hpending
        exact h.known (hplainNone hnone) hinv.plainPending reqId life hlife
      answers := by
        intro hnone hpending out opened hsched
        rw [← hentries hpending]
        exact h.answers (hplainNone hnone) hinv.plainPending out opened hsched }

/-- **The bookkeeping along every run**: that of the runner with the pipeline, that of the
synchronous one, and one output slot for each request of each step that was sampled. -/
theorem bookkeeping_of_run {target : Target Row} {cfg : PipelineConfig}
    (hagree : SamplersAgree target cfg.toRunnerConfig) (hstage : cfg.nonLastStage = false)
    {calls : List (Call Row)} {b : Books Row}
    (hrun : Run (Books.Step target cfg) (.start Row) calls b) :
    Bookkeeping b.lives b.engine.deferred ∧ Bookkeeping b.lives b.engine.plain ∧
      ∀ (i : ℕ) record output, b.engine.deferred.history[i]? = some record →
        b.engine.plainOutputs[i]? = some output → OneSlotEach record output := by
  have hinv : Inv cfg.toRunnerConfig b.engine ∧ b.Ok := by
    refine hrun.invariant (I := fun b => Inv cfg.toRunnerConfig b.engine ∧ b.Ok) ?_
      ⟨inv_start _, Books.ok_start Row⟩
    intro b call b' ⟨hinv, hok⟩ hstep
    refine ⟨?_, hok.step hstage hinv hstep⟩
    cases hstep with
    | execute hsched hstep => exact hinv.step hagree hstep
    | sample hstep hstate houtput => exact hinv.step hagree hstep
    | getOutput hstep => exact hinv.step hagree hstep
  obtain ⟨hinv, hok⟩ := hinv
  refine ⟨hinv.bookkeeping hok.bookkeeping, hok.bookkeeping, ?_⟩
  intro i record output hrecord houtput
  rw [hinv.history] at hrecord
  -- the history has the steps that were sampled, and at most the one that is being executed
  have hslots : ∃ past rest, b.engine.plain.history = past ++ rest ∧
      List.Forall₂ OneSlotEach past b.engine.plainOutputs := by
    cases hok with
    | rest hstate hknown hslots => exact ⟨_, [], (List.append_nil _).symm, hslots⟩
    | running hstate hexecuted hhistory hout hslots => exact ⟨_, _, hhistory, hslots⟩
  obtain ⟨past, rest, hhistory, hslots⟩ := hslots
  obtain ⟨record', hrecord', hslot⟩ := exists_of_forall₂ hslots houtput
  have hlt := (List.getElem?_eq_some_iff.mp hrecord').1
  rw [hhistory, List.getElem?_append_left hlt, hrecord'] at hrecord
  exact Option.some.inj hrecord ▸ hslot

/-- The call that samples a step. -/
theorem Books.Step.of_sample {target : Target Row} {cfg : PipelineConfig} {b : Books Row}
    {grammarOutput : Option ((ℕ → Row) → ℕ → Row)} {e : Engine Row}
    (hstep : PagedRunner.Step target cfg b.engine (.sample grammarOutput) e) :
    ∃ lives, Books.Step target cfg b (.sample grammarOutput) ⟨e, lives⟩ := by
  cases hstep with
  | sample hlegal hdeferred hplain =>
    obtain ⟨st, hstate, -⟩ := id hlegal
    exact ⟨_, .sample (.sample hlegal hdeferred hplain) hstate (Engine.plainOutputs_sampled ..)⟩

/-- The only request of the first step, whose prompt is scheduled as a whole. -/
def firstLife (reqId : ReqId) : Option Life :=
  if reqId = 0 then some ⟨[5, 6], .computing [] 0⟩ else none

theorem scheduled_firstLife : Scheduled (fun _ => none)
    (stepOver [⟨0, some [5, 6], [5, 6], 2, .greedy, 0, [[0]]⟩] [] 2) firstLife where
  nodup := by decide
  preempted _ h := absurd h List.not_mem_nil
  new newReq h := by
    obtain rfl := List.mem_singleton.mp h
    exact ⟨_, rfl, .first [5, 6] (by decide) rfl (by decide) (by decide)⟩
  cached _ h := absurd h List.not_mem_nil
  other reqId h := by
    have hne : reqId ≠ 0 := fun heq => h (by rw [heq]; decide)
    rw [firstLife, if_neg hne]
    rfl

/-- The life of the request behind the prompt. -/
theorem delivered_firstLife {st : SchedulerOutput} (hids : st.scheduledReqIds = [0])
    (hnum : st.numScheduledTokens 0 = 2) :
    delivered st [(0, [7])] firstLife 0 = some ⟨[5, 6], .decoding [7]⟩ := by
  rw [delivered, hids, hnum]
  rfl

/-- A decode step of the request. -/
theorem scheduled_secondStep {lives : ReqId → Option Life}
    (hlife : lives 0 = some ⟨[5, 6], .decoding [7]⟩) :
    Scheduled lives (stepOver [] [⟨0, 2, [], none, none⟩] 1) lives where
  nodup := by decide
  preempted _ h := absurd h List.not_mem_nil
  new _ h := absurd h List.not_mem_nil
  cached cachedReq h := by
    obtain rfl := List.mem_singleton.mp h
    refine ⟨_, hlife, ?_⟩
    rw [reconciled, if_neg (by decide), if_neg (by decide), hlife]
    exact .decode [5, 6] [7] rfl
  other reqId _ := rfl

/-- A prompt of two tokens and a decode step, whose output is asked for after it was sampled. -/
def promptThenDecode : List (Call Token) :=
  [.execute textWorld (stepOver [⟨0, some [5, 6], [5, 6], 2, .greedy, 0, [[0]]⟩] [] 2),
    .sample none, .execute textWorld (stepOver [] [⟨0, 2, [], none, none⟩] 1), .sample none,
    .getOutput]

/-- The bookkeeping after a prompt and a deferred decode step. -/
theorem firstPrompt_bookkeeping :
    ∃ b, Run (Books.Step countingTarget pipelinedConfig) (.start Token) promptThenDecode b ∧
      b.engine.plainOutputs = [[(0, [7])], [(0, [8])]] ∧
      b.engine.returned = [(0, [(0, [7])]), (1, [(0, [8])])] ∧
      (Bookkeeping b.lives b.engine.deferred ∧ Bookkeeping b.lives b.engine.plain ∧
        ∀ (i : ℕ) record output, b.engine.deferred.history[i]? = some record →
          b.engine.plainOutputs[i]? = some output → OneSlotEach record output) := by
  -- the run, evaluated
  have heval : ((Engine.start Token).next countingTarget pipelinedConfig
      (.execute textWorld (stepOver [⟨0, some [5, 6], [5, 6], 2, .greedy, 0, [[0]]⟩] [] 2))).any
        (fun e₁ => e₁.plain.executeModelState.any (fun st =>
            decide (st.out.scheduledReqIds = [0] ∧ st.out.numScheduledTokens 0 = 2)) &&
          (e₁.next countingTarget pipelinedConfig (.sample none)).any fun e₂ =>
            decide (e₂.plainOutputs = e₁.plainOutputs ++ [[(0, [7])]]) &&
            (e₂.next countingTarget pipelinedConfig
              (.execute textWorld (stepOver [] [⟨0, 2, [], none, none⟩] 1))).any fun e₃ =>
            (e₃.next countingTarget pipelinedConfig (.sample none)).any fun e₄ =>
            (e₄.next countingTarget pipelinedConfig .getOutput).any fun e₅ =>
              decide (e₅.plainOutputs = [[(0, [7])], [(0, [8])]] ∧
                e₅.returned = [(0, [(0, [7])]), (1, [(0, [8])])])) = true := by
    decide +kernel
  obtain ⟨e₁, hnext₁, heval⟩ := (Option.any_eq_true _ _).mp heval
  obtain ⟨hst, heval⟩ := Bool.and_eq_true_iff.mp heval
  obtain ⟨st, hst, hout⟩ := (Option.any_eq_true _ _).mp hst
  obtain ⟨hids, hnum⟩ := of_decide_eq_true hout
  obtain ⟨e₂, hnext₂, heval⟩ := (Option.any_eq_true _ _).mp heval
  obtain ⟨houtput, heval⟩ := Bool.and_eq_true_iff.mp heval
  obtain ⟨e₃, hnext₃, heval⟩ := (Option.any_eq_true _ _).mp heval
  obtain ⟨e₄, hnext₄, heval⟩ := (Option.any_eq_true _ _).mp heval
  obtain ⟨e₅, hnext₅, hanswers⟩ := (Option.any_eq_true _ _).mp heval
  obtain ⟨houtputs, hreturned⟩ := of_decide_eq_true hanswers
  have hsecond := scheduled_secondStep (delivered_firstLife hids hnum)
  obtain ⟨lives, hsample⟩ :=
    Books.Step.of_sample (b := ⟨e₃, delivered st.out [(0, [7])] firstLife⟩) (.of_next hnext₄)
  -- the same run with the scheduler's books
  have hrun : Run (Books.Step countingTarget pipelinedConfig) (.start Token) promptThenDecode
      ⟨e₅, lives⟩ :=
    .cons (.execute scheduled_firstLife (.of_next hnext₁))
      (.cons (.sample (.of_next hnext₂) hst (of_decide_eq_true houtput))
        (.cons (.execute hsecond (.of_next hnext₃))
          (.cons hsample (.cons (.getOutput (.of_next hnext₅)) (.nil _)))))
  exact ⟨_, hrun, houtputs, hreturned, bookkeeping_of_run (fun _ _ _ => rfl) rfl hrun⟩

end PagedRunner
end VllmMetal
