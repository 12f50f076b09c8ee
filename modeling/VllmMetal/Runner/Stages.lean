import VllmMetal.Runner.Broadcast
import VllmMetal.Runner.Bookkeeping

/-!
# The stages of a pipeline

All stages of a pipeline execute the same steps, each over its own layers, and the hidden states of
one are those of the rows of the next.  So the rows have to be the same, and in the same places: a
stage without a sampler, which learns the tokens from the scheduler, has to assemble the input rows,
the positions and the blocks that the last stage assembles from what it sampled itself.

## Main definitions

* `Stages`, `Stages.Step` — such a stage, the last one, and the lives of the requests.
* `Lockstep` — what holds of the two.

## Main results

* `forwardBatch_mirrors` — the forward of a step has the same rows on all stages.
* `lockstep_of_run` — **the stages stay in lockstep, along every run**.
-/

namespace VllmMetal
namespace PagedRunner

open SpecDecode Multimodal

variable {Row : Type} {opened : ReqId → Option Life} {stage last : Entries} {out : SchedulerOutput}

/-! ### The rows of a step -/

/-- The segments of requests that give the same ones. -/
theorem segmentsFrom_congr {specTokens : Dict ReqId (List Token)} {seqLens seqLens' : Dict ReqId ℕ}
    {reqs reqs' : List (ReqId × RequestState)}
    (h : List.Forall₂ (fun req req' => req.1 = req'.1 ∧ ∀ row drafts,
      segmentOf seqLens row req.1 req.2 drafts = segmentOf seqLens' row req.1 req'.2 drafts)
      reqs reqs') (startRow : ℕ) :
    segmentsFrom specTokens seqLens startRow reqs =
      segmentsFrom specTokens seqLens' startRow reqs' := by
  induction h generalizing startRow with
  | nil => rfl
  | @cons req req' reqs reqs' hreq _ ih =>
    obtain ⟨reqId, state⟩ := req
    obtain ⟨reqId', state'⟩ := req'
    obtain ⟨rfl, hsegment⟩ : reqId = reqId' ∧ _ := hreq
    simp only [segmentsFrom, hsegment, ih]

/-- The states of requests that all have one. -/
theorem forall₂_decodeStates {R : ReqId → RequestState → RequestState → Prop} {reqIds : List ReqId}
    (h : ∀ reqId ∈ reqIds, ∃ state other, (stage reqId).state = some state ∧
      (last reqId).state = some other ∧ R reqId state other) :
    List.Forall₂ (fun req req' => req.1 = req'.1 ∧ R req.1 req.2 req'.2) (decodeStates stage reqIds)
      (decodeStates last reqIds) := by
  induction reqIds with
  | nil => exact .nil
  | cons reqId reqIds ih =>
    obtain ⟨state, other, hstate, hother, hR⟩ := h reqId List.mem_cons_self
    have hrest := ih fun id hid => h id (List.mem_cons_of_mem reqId hid)
    unfold decodeStates at hrest ⊢
    rw [List.filterMap_cons, List.filterMap_cons, hstate, hother]
    exact .cons ⟨rfl, hR⟩ hrest

/-- A stage without a sampler in a step, beside the last one. -/
def CaughtUpWith (opened : ReqId → Option Life) (work : List Work) (stage last : Entries) : Prop :=
  ∀ piece ∈ work, ∃ life, opened piece.reqId = some life ∧
    CaughtUp life piece (stage piece.reqId) (last piece.reqId)

/-- The work of an id is there for it. -/
theorem mem_of_decode {work : List Work} {reqId : ReqId}
    (h : reqId ∈ work.filterMap Work.decode?) : .decode reqId ∈ work := by
  obtain ⟨piece, hpiece, hdecode⟩ := List.mem_filterMap.mp h
  cases piece with
  | output => cases hdecode
  | prefill => cases hdecode
  | decode id =>
    obtain rfl := Option.some.inj hdecode
    exact hpiece

theorem mem_of_prefill {work : List Work} {pending : PendingPrefillEntry}
    (h : pending ∈ work.filterMap Work.prefill?) : .prefill pending ∈ work := by
  obtain ⟨piece, hpiece, hprefill⟩ := List.mem_filterMap.mp h
  cases piece with
  | output => cases hprefill
  | decode => cases hprefill
  | prefill pending' =>
    obtain rfl := Option.some.inj hprefill
    exact hpiece

/-- **The segments of a step** are the same on all stages: where the last stage has tracked a
length, the others fall back on that of the tokens. -/
theorem stepSegments_mirrors {work : List Work} (hbatch : BatchOf out opened last work)
    (hcaught : CaughtUpWith opened work stage last) :
    stepSegments out stage (work.filterMap Work.decode?) =
      stepSegments out last (work.filterMap Work.decode?) := by
  have hreqs : List.Forall₂ (fun req req' => req.1 = req'.1 ∧ ∀ row drafts,
      segmentOf (seqLensOf stage (work.filterMap Work.decode?)) row req.1 req.2 drafts =
        segmentOf (seqLensOf last (work.filterMap Work.decode?)) row req.1 req'.2 drafts)
      (decodeStates stage (work.filterMap Work.decode?))
      (decodeStates last (work.filterMap Work.decode?)) :=
    forall₂_decodeStates (R := fun reqId state other => ∀ row drafts,
      segmentOf (seqLensOf stage (work.filterMap Work.decode?)) row reqId state drafts =
        segmentOf (seqLensOf last (work.filterMap Work.decode?)) row reqId other drafts)
    -- the state of a decode row has the tokens of the last stage's
    fun reqId hid => by
      obtain ⟨life, hopened, hcaught⟩ := hcaught _ (mem_of_decode hid)
      obtain ⟨life', outs, hopened', hstage, htracks, -⟩ := hbatch.decoding hid
      obtain rfl := Option.some.inj (hopened.symm.trans hopened')
      obtain ⟨state, hstate, -, ⟨htokens, -, -⟩, hgiven⟩ := hcaught.state.state
      obtain ⟨other, hother, -, hholds⟩ := htracks.state
      rw [hstage] at hholds
      have hotherTokens : other.tokenIds = state.tokenIds := by
        rw [htokens, hholds.1, Life.tokens, hstage]
        rfl
      obtain ⟨-, hblocks⟩ := Prod.mk.inj (hgiven other hother)
      obtain ⟨-, hseq⟩ := htracks.consistent other hother hholds.2
      -- a length that is not tracked comes out of the tokens
      have hlen : (seqLensOf stage (work.filterMap Work.decode?)).getD reqId
          (state.tokenIds.length - 1) = (seqLensOf last (work.filterMap Work.decode?)).getD reqId
            (other.tokenIds.length - 1) := by
        have hnone : (stage reqId).seqLen = none := hcaught.seqLen
        rw [Dict.getD, Dict.getD, get?_seqLensOf stage hid, get?_seqLensOf last hid, hnone, hseq,
          hotherTokens]
        rfl
      refine ⟨state, other, hstate, hother, fun row drafts => ?_⟩
      simp only [segmentOf, hlen, hotherTokens, hblocks]
  have hkeys : (decodeStates stage (work.filterMap Work.decode?)).map Prod.fst =
      (decodeStates last (work.filterMap Work.decode?)).map Prod.fst := by
    rw [← List.forall₂_eq_eq_eq, List.forall₂_map_left_iff, List.forall₂_map_right_iff]
    exact hreqs.imp fun _ _ h => h.1
  simp only [stepSegments, buildDecodeSegments, hkeys, segmentsFrom_congr hreqs]

/-- **The pack of a step** is the same on all stages. -/
theorem buildPrefillPack_mirrors {work : List Work} (hbatch : BatchOf out opened last work)
    (hcaught : CaughtUpWith opened work stage last)
    (isMmRequest wantsPromptLogprobs : ReqId → Bool) :
    buildPrefillPack isMmRequest wantsPromptLogprobs out.scheduledNewReqs stage
        (work.filterMap Work.prefill?) =
      buildPrefillPack isMmRequest wantsPromptLogprobs out.scheduledNewReqs last
        (work.filterMap Work.prefill?) := by
  have hnodup := (List.nodup_append.mp hbatch.nodup).1
  refine mapM_congr fun pending hpending => ?_
  obtain ⟨life, hopened, hcaught⟩ := hcaught _ (mem_of_prefill hpending)
  obtain ⟨life', hopened', hqueued⟩ := hbatch.queued hpending
  obtain rfl := Option.some.inj (hopened.symm.trans hopened')
  obtain ⟨state, hstate, -, ⟨htokens, -, -⟩, -⟩ := hcaught.state.state
  rw [packPrefillEntry_eq isMmRequest wantsPromptLogprobs hnodup hqueued.tokens,
    packPrefillEntry_eq isMmRequest wantsPromptLogprobs hnodup (Or.inl ⟨state, hstate, htokens⟩)]

/-- **The forward of a step** has the same rows on all stages, in the same places. -/
theorem forwardBatch_mirrors {target : Target Row} {cfg cfg' : RunnerConfig} {world : StepWorld}
    {p p' : Pipeline} (hp : p.pending = none) (hp' : p'.pending = none) {history : List StepRecord}
    {work : List Work} {r : Runner Row} (hbatch : BatchOf out opened last work)
    (hcaught : CaughtUpWith opened work stage last)
    (h : forwardBatch target cfg world out p history work last = .ok r) :
    ∃ r' st st', forwardBatch target cfg' world out p' history work stage = .ok r' ∧
      r'.pipeline = p' ∧ r'.history = r.history ∧ r.executeModelState = some st ∧
      r'.executeModelState = some st' ∧ st'.work = st.work ∧ st'.segments = st.segments ∧
      st'.pack = st.pack ∧ (∀ reqId, BidiOnly (stage reqId) (r'.entries reqId)) ∧
      ∀ reqId, BidiOnly (last reqId) (r.entries reqId) := by
  obtain ⟨pack, segments, inputIds, st, hpack, hsegments, hinput, hstarted, heq⟩ :=
    forwardBatch_cases h
  rw [← buildPrefillPack_mirrors hbatch hcaught] at hpack
  rw [← stepSegments_mirrors hbatch hcaught] at hsegments
  have hinput' : stepInputIds p' segments pack = .ok inputIds := by
    simp only [stepInputIds, assembleDecodeInputIds, hp] at hinput
    simp only [stepInputIds, assembleDecodeInputIds, hp', hinput]
  obtain ⟨st', stage', hstart, hstarted'⟩ := startPagedForward_ok target cfg' world out work pack
    segments inputIds stage history
  have hforward : forwardBatch target cfg' world out p' history work stage =
    .ok ⟨stage', p', history ++
      [⟨out, some ⟨inputIds, segments.map RowSpan.ofSegment, pack.map RowSpan.ofChunk⟩⟩],
      some st'⟩ := by
    simp only [forwardBatch, hpack, hsegments, hinput', hstart]
  refine ⟨_, st, st', hforward, rfl, ?_, ?_, rfl, ?_, ?_, ?_, hstarted'.bidi, hstarted.bidi⟩
  · rw [heq]
  · rw [heq]
  · rw [hstarted.work, hstarted'.work]
  · rw [hstarted.segments, hstarted'.segments]
  · rw [hstarted.pack, hstarted'.pack]

/-! ### The sampling half -/

/-- What both stages have of the scheduler is the same. -/
def GivenAlike (entry last : Entry) : Prop :=
  ∀ state other, entry.state = some state → last.state = some other → given other = given state

/-- A sampled chunk is one of the pack. -/
theorem prefill_mem_of_sampledChunks {pending : List PendingPrefillEntry}
    {pack : List PrefillRequest}
    {nextTokens : List Token} {chunk : SampledChunk}
    (h : chunk ∈ sampledChunks pending pack nextTokens) : chunk.prefill ∈ pack := by
  obtain ⟨i, hi⟩ := List.mem_iff_getElem?.mp h
  obtain ⟨pair, nextToken, hpair, -, rfl⟩ := List.getElem?_zipWith_eq_some.mp hi
  exact (List.of_mem_zip (List.mem_of_getElem? hpair)).2

/-- **Sampling writes to the tokens alone**, and a state that it creates has what its chunk has. -/
theorem samplePagedBatch_given {target : Target Row} {st : PagedForwardState Row} {last' : Entries}
    {output : StepOutput} (halike : ∀ reqId, GivenAlike (stage reqId) (last reqId))
    (hpack : ∀ pr ∈ st.pack, ∀ state, (stage pr.reqId).state = some state → pr.given = given state)
    (hok : samplePagedBatch target st last = .ok (last', output)) (reqId : ReqId) :
    GivenAlike (stage reqId) (last' reqId) := by
  -- a length leaves the state alone
  have hseqLens : ∀ {before after : Entries} {nothing : List Unit},
      (∀ reqId, GivenAlike (stage reqId) (before reqId)) →
      forEach (fun pr : PrefillRequest => pr.reqId) updatePrefillSeqLen st.pack before =
        .ok (after, nothing) → ∀ reqId, GivenAlike (stage reqId) (after reqId) := by
    intro before after nothing hbefore hloop
    refine forEach_invariant
      (I := fun reqId entry => GivenAlike (stage reqId) entry) ?_ hloop hbefore
    intro pr _ entry entry' b hact h
    cases hact
    exact h
  obtain ⟨-, -, nothing, hloop⟩ | ⟨tokens, -, hok⟩ := samplePagedBatch_cases hok
  · exact hseqLens halike hloop reqId
  · unfold applyTokens at hok
    split at hok
    · cases hok
    next entries₁ decodeOutputs hloop₁ =>
    split at hok
    · cases hok
    next entries₂ nothing hloop₂ =>
    split at hok
    · cases hok
    next entries₃ chunkTokens hloop₃ =>
    cases hok
    -- a decode row gets tokens, and keeps what its forward is given
    have h₁ := forEach_invariant (I := fun reqId entry => GivenAlike (stage reqId) entry)
      (fun item _ entry entry' b hact h => by
        unfold updateDecodeState at hact
        split at hact
        · cases hact
        · next other hother =>
          cases hact
          intro state other' hstate hother'
          have hheld := (state_modify entry fun state => state.extend item.2).symm.trans hother'
          rw [hother, Option.map_some] at hheld
          obtain rfl := Option.some.inj hheld
          exact h state other hstate hother) hloop₁ halike
    have h₂ := hseqLens h₁ hloop₂
    refine forEach_invariant (I := fun reqId entry => GivenAlike (stage reqId) entry)
      (fun chunk hchunk entry entry' b hact h => ?_) hloop₃ h₂ reqId
    unfold postprocessChunk at hact
    simp only at hact
    split at hact
    · cases hact
      exact h
    · -- the state is made of the chunk
      split at hact
      · cases hact
      · cases hact
        intro state other hstate hother
        cases hother
        exact hpack _ (prefill_mem_of_sampledChunks hchunk) state hstate
    · split at hact
      · cases hact
      · next other hother =>
        cases hact
        intro state other' hstate hother'
        have hheld := (state_modify entry (appendSampled (st.mmPrefillDeltas chunk.prefill.reqId)
          chunk.nextToken)).symm.trans hother'
        rw [hother, Option.map_some] at hheld
        obtain rfl := Option.some.inj hheld
        exact h state other hstate hother

theorem Behind.congr {life : Option Life} {entry last entry' last' : Entry}
    (h : Behind life entry last)
    (hentry : BidiOnly entry entry') (hlast : BidiOnly last last') : Behind life entry' last' := by
  have hstate : entry'.state = entry.state := congrArg Slot.held hentry.states
  have hlastState : last'.state = last.state := congrArg Slot.held hlast.states
  refine ⟨hentry.seqLen.trans h.seqLen, ?_, ?_⟩
  · rw [hentry.awaiting, hlast.awaiting, h.awaiting]
  · have hbehind := h.state
    cases life with
    | none => exact hstate.trans hbehind
    | some life =>
      obtain ⟨state, hsome, hrest⟩ := hbehind.state
      exact ⟨state, hstate.trans hsome, hlastState ▸ hrest⟩

theorem CaughtUp.congr {life : Life} {piece : Work} {entry last entry' last' : Entry}
    (h : CaughtUp life piece entry last) (hentry : BidiOnly entry entry')
    (hlast : BidiOnly last last') :
    CaughtUp life piece entry' last' := by
  have hstate : entry'.state = entry.state := congrArg Slot.held hentry.states
  have hlastState : last'.state = last.state := congrArg Slot.held hlast.states
  obtain ⟨state, hsome, hrest⟩ := h.state.state
  exact ⟨hentry.seqLen.trans h.seqLen, hentry.awaiting.trans h.awaiting, state, hstate.trans hsome,
    hlastState ▸ hrest⟩

/-- What the two stages have of the scheduler, between two steps. -/
theorem Behind.givenAlike {life : Option Life} {entry last : Entry} (h : Behind life entry last) :
    GivenAlike entry last := by
  intro state other hstate hother
  have hbehind := h.state
  cases life with
  | none => cases hstate.symm.trans hbehind
  | some life =>
    obtain ⟨state', hstate', -, -, hgiven⟩ := hbehind.state
    obtain rfl := Option.some.inj (hstate.symm.trans hstate')
    exact hgiven other hother

theorem CaughtUp.givenAlike {life : Life} {piece : Work} {entry last : Entry}
    (h : CaughtUp life piece entry last) : GivenAlike entry last := by
  intro state other hstate hother
  obtain ⟨state', hstate', -, -, hgiven⟩ := h.state.state
  obtain rfl := Option.some.inj (hstate.symm.trans hstate')
  exact hgiven other hother

/-- A request that the step has computed lags behind by the token that was sampled. -/
theorem Counts.lags {life : Life} {state : RequestState} {n : ℕ} {sampled : List Token}
    (hcounts : Counts life state) (htokens : state.tokenIds = life.tokens)
    (hstage : life.stage ≠ .preempted)
    (hone : (∃ outs start, life.stage = .computing outs start ∧ start + n < life.tokens.length) ∨
      ∃ token, sampled = [token]) :
    (life.advance n sampled).stage.Lags (life.advance n sampled).prompt state := by
  -- the tokens are those before the sampled one
  have hlags : ∀ outs token, life.tokens = life.prompt ++ outs →
      Stage.Lags life.prompt state (.decoding (outs ++ [token])) := by
    intro outs token houts
    refine ⟨?_, List.append_ne_nil_of_right_ne_nil _ (List.cons_ne_nil _ _)⟩
    rw [← List.append_assoc, List.dropLast_concat, ← houts]
    exact htokens
  cases hcase : life.stage with
  | preempted => exact absurd hcase hstage
  | computing outs start =>
    have houts : life.tokens = life.prompt ++ outs := by rw [Life.tokens, hcase]; rfl
    by_cases hlt : start + n < life.tokens.length
    · rw [advance_intermediate hcase hlt]
      exact ⟨htokens.trans houts, hcounts.mpr ⟨outs, start, hcase⟩⟩
    · obtain ⟨outs', start', hstage', hlt'⟩ | ⟨token, rfl⟩ := hone
      · rw [hcase] at hstage'
        cases hstage'
        exact absurd hlt' hlt
      · rw [advance_final hcase hlt]
        exact hlags outs token houts
  | decoding outs =>
    obtain ⟨outs', start', hstage', -⟩ | ⟨token, rfl⟩ := hone
    · cases hcase.symm.trans hstage'
    · have houts : life.tokens = life.prompt ++ outs := by rw [Life.tokens, hcase]; rfl
      simp only [Life.advance, hcase]
      exact hlags outs token houts

theorem prompt_advance (life : Life) (n : ℕ) (sampled : List Token) :
    (life.advance n sampled).prompt = life.prompt := by
  unfold Life.advance
  cases life.stage with
  | computing outs start =>
    simp only
    split <;> rfl
  | decoding outs => rfl
  | preempted => rfl

/-- A request in a step is not preempted, and not by its step. -/
theorem CollectedAs.stage_ne {newReqs : List NewRequestData} {reqId : ReqId} {n : ℕ} {life : Life}
    {entry : Entry} {piece : Work} (h : CollectedAs newReqs reqId n life entry piece) :
    life.stage ≠ .preempted := by
  intro hpre
  cases piece with
  | output => exact h.elim
  | prefill pending =>
    obtain ⟨-, -, ⟨outs, start, sp, blockIds, final, hstage, -⟩, -⟩ := h
    cases hpre.symm.trans hstage
  | decode id =>
    obtain ⟨-, ⟨outs, hstage⟩, -⟩ := h
    cases hpre.symm.trans hstage

/-- The tokens of a request in a step. -/
theorem CollectedAs.tokens {newReqs : List NewRequestData} {reqId : ReqId} {n : ℕ} {life : Life}
    {entry : Entry} {piece : Work} (h : CollectedAs newReqs reqId n life entry piece)
    {state : RequestState} (hstate : entry.state = some state) : state.tokenIds = life.tokens := by
  cases piece with
  | output => exact h.elim
  | prefill pending =>
    obtain ⟨-, hqueued⟩ := h
    obtain ⟨state', hstate', htokens⟩ | ⟨hnone, -⟩ := hqueued.tokens
    · obtain rfl := Option.some.inj (hstate.symm.trans hstate')
      exact htokens
    · cases hnone.symm.trans hstate
  | decode id =>
    obtain ⟨-, ⟨outs, hstage⟩, htracks, -⟩ := h
    obtain ⟨state', hstate', -, hholds⟩ := htracks.state
    obtain rfl := Option.some.inj (hstate.symm.trans hstate')
    rw [hstage] at hholds
    rw [hholds.1, Life.tokens, hstage]
    rfl

theorem isPreempted_advance {life : Life} (h : life.stage ≠ .preempted) (n : ℕ)
    (sampled : List Token) :
    (life.advance n sampled).stage.isPreempted = false := by
  unfold Life.advance
  cases hstage : life.stage with
  | computing outs start =>
    simp only
    split <;> rfl
  | decoding outs => rfl
  | preempted => exact absurd hstage h

/-- **Once a step is sampled**, a stage without a sampler lags behind by the output's tokens. -/
theorem samplePagedBatch_behind {target : Target Row} {st : PagedForwardState Row}
    (h : Executed opened last st) (hcaught : CaughtUpWith opened st.work stage last)
    (hrest : ∀ reqId ∉ st.out.scheduledReqIds, Behind (opened reqId) (stage reqId) (last reqId))
    (hdrafts : ∀ reqId, st.out.scheduledSpecDecodeTokens.getD reqId [] = []) {last' : Entries}
    {output : StepOutput} (hok : samplePagedBatch target st last = .ok (last', output))
    (reqId : ReqId) :
    Behind (delivered st.out output opened reqId) (stage reqId) (last' reqId) := by
  have hpiece : ∀ reqId ∈ st.out.scheduledReqIds, ∃ piece ∈ st.work, piece.reqId = reqId := by
    intro reqId hin
    rw [← h.batch.ids] at hin
    exact List.mem_map.mp hin
  -- before the step every request is given alike on both stages
  have halike : ∀ reqId, GivenAlike (stage reqId) (last reqId) := by
    intro reqId
    by_cases hin : reqId ∈ st.out.scheduledReqIds
    · obtain ⟨piece, hpiece, rfl⟩ := hpiece reqId hin
      obtain ⟨life, -, hcaught⟩ := hcaught piece hpiece
      exact hcaught.givenAlike
    · exact (hrest reqId hin).givenAlike
  have hpack : ∀ pr ∈ st.pack, ∀ state, (stage pr.reqId).state = some state →
      pr.given = given state := by
    intro pr hpr state hstate
    obtain ⟨i, hi⟩ := List.mem_iff_getElem?.mp hpr
    obtain ⟨pending, hpending, life', fullPrompt, -, heq, -⟩ := exists_of_forall₂ h.pack hi
    obtain ⟨life, -, hcaught⟩ := hcaught _ (mem_of_prefill (List.mem_of_getElem? hpending))
    obtain ⟨state', hstate', -, ⟨-, -, hgiven⟩, -⟩ := hcaught.state.state
    rw [heq] at hstate ⊢
    obtain rfl := Option.some.inj (hstate'.symm.trans hstate)
    exact hgiven pending rfl
  have hgiven := samplePagedBatch_given halike hpack hok reqId
  have hentry := (samplePagedBatch_delivered h hok).2 reqId
  unfold delivered at hentry ⊢
  -- a request of the step gets its tokens here alone; any other stays as it was
  by_cases hin : reqId ∈ st.out.scheduledReqIds
  · obtain ⟨piece, hpiece, rfl⟩ := hpiece reqId hin
    obtain ⟨life, hopened, hcaught⟩ := hcaught piece hpiece
    obtain ⟨life', hopened', hcollected⟩ := h.batch.work piece hpiece
    obtain rfl := Option.some.inj (hopened.symm.trans hopened')
    rw [if_pos hin, hopened, Option.map_some] at hentry ⊢
    obtain ⟨state, hstate, hlen, ⟨htokens, hcounts, -⟩, -⟩ := hcaught.state.state
    have hne := hcollected.stage_ne
    refine ⟨hcaught.seqLen, ?_, state, hstate, ?_, ?_, fun other hother => hgiven state other hstate
      hother⟩
    · rw [hcaught.awaiting, hentry.2, isPreempted_advance hne]
      rfl
    · rw [prompt_advance]
      exact hlen
    · exact hcounts.lags htokens hne (samplePagedBatch_one h hdrafts hok hin hopened)
  · rw [if_neg hin] at hentry ⊢
    have hbefore := h.batch.rest reqId hin
    obtain ⟨hseq, hawaiting, hstate⟩ := hrest reqId hin
    cases hlife : opened reqId with
    | none =>
      rw [hlife] at hbefore hentry hstate
      refine ⟨hseq, hawaiting.trans ?_, hstate⟩
      rw [hbefore.awaiting, hentry.awaiting]
    | some life =>
      rw [hlife] at hbefore hentry hstate
      obtain ⟨state, hsome, hlen, hlags, -⟩ := hstate.state
      refine ⟨hseq, hawaiting.trans (hbefore.2.trans hentry.2.symm), state, hsome, hlen, hlags,
        fun other hother => hgiven state other hsome hother⟩

/-! ### One step on two stages -/

/-- A stage without a sampler in a step: what its forward ran over, and where its requests are. -/
structure MidStep (opened : ReqId → Option Life) (stage last : Entries)
    (st' st : PagedForwardState Row) : Prop where
  executed : Executed opened last st
  work : st'.work = st.work
  segments : st'.segments = st.segments
  pack : st'.pack = st.pack
  drafts : ∀ reqId, st.out.scheduledSpecDecodeTokens.getD reqId [] = []
  caught : CaughtUpWith opened st.work stage last
  rest : ∀ reqId ∉ st.out.scheduledReqIds, Behind (opened reqId) (stage reqId) (last reqId)

/-- The bitmask of a grammar changes the logits alone. -/
theorem MidStep.masked {st' st : PagedForwardState Row} (h : MidStep opened stage last st' st)
    (logits : ℕ → Row) : MidStep opened stage last st' { st with logits := logits } where
  executed := (h.executed.grammar (some fun _ => logits)).2
  work := h.work
  segments := h.segments
  pack := h.pack
  drafts := h.drafts
  caught := h.caught
  rest := h.rest

/-- The two stages once the step is sampled. -/
theorem MidStep.sampled {target : Target Row} {st' st : PagedForwardState Row}
    (h : MidStep opened stage last st' st) {last' : Entries} {output : StepOutput}
    (hok : samplePagedBatch target st last = .ok (last', output)) :
    Known (delivered st.out output opened) last' ∧
      ∀ reqId, Behind (delivered st.out output opened reqId) (stage reqId) (last' reqId) :=
  ⟨(samplePagedBatch_delivered h.executed hok).2,
    samplePagedBatch_behind h.executed h.caught h.rest h.drafts hok⟩

/-- **A step of the runner** on a stage without a sampler and on the last one. -/
theorem runStep_mirrors {target : Target Row} {cfg cfg' : RunnerConfig} {world : StepWorld}
    {p p' : Pipeline} (hp : p.pending = none) (hp' : p'.pending = none) {history : List StepRecord}
    {lives : ReqId → Option Life} (hlastStage : cfg.nonLastStage = false)
    (hstage : cfg'.nonLastStage = true) (hknown : Known lives last)
    (hbehind : ∀ reqId, Behind (lives reqId) (stage reqId) (last reqId))
    (hsched : Scheduled lives out opened) (hbroadcast : Broadcast out opened) {r : Runner Row}
    {output : Option StepOutput}
    (h : runStep target cfg world out p last history = .ok (r, output)) :
    ∃ r', runStep target cfg' world out p' stage history = .ok (r', output) ∧ r'.pipeline = p' ∧
      r'.history = r.history ∧
      ((∃ st st', r.executeModelState = some st ∧ r'.executeModelState = some st' ∧
          MidStep opened r'.entries r.entries st' st) ∨
        (r.executeModelState = none ∧ r'.executeModelState = none ∧ Known opened r.entries ∧
          ∀ reqId, Behind (opened reqId) (r'.entries reqId) (r.entries reqId))) := by
  obtain ⟨stage₁, last₁, work, hcollect', hcollect, hcaught, hrest⟩ :=
    collectBatch_mirrors hknown hbehind hsched hbroadcast
  obtain ⟨last₂, work₂, hcollect₂, hbatch⟩ := collectBatch_ok hknown hsched
  rw [hcollect] at hcollect₂
  cases hcollect₂
  unfold runStep at h ⊢
  rw [hlastStage, hcollect] at h
  rw [hstage, hcollect']
  simp only at h ⊢
  cases hpaged : hasPagedWork work with
  | true =>
    rw [hpaged, if_pos rfl] at h
    rw [if_pos rfl]
    split at h
    · cases h
    next runner hforward =>
    cases h
    obtain ⟨st, input, hst, hout, hexecuted, -⟩ := forwardBatch_executed hbatch hforward
    obtain ⟨r', st₁, st', hforward', hpipeline, hhistory, hst₁, hst', hwork, hsegments,
      hpack, hbidi',
      hbidi⟩ := forwardBatch_mirrors hp hp' hbatch hcaught hforward
    obtain rfl := Option.some.inj (hst.symm.trans hst₁)
    obtain ⟨pack, segments, inputIds, st₂, -, -, -, hstarted, heq⟩ := forwardBatch_cases hforward
    have hst₂ : r.executeModelState = some st₂ := by rw [heq]
    obtain rfl := Option.some.inj (hst.symm.trans hst₂)
    rw [hforward']
    refine ⟨r', rfl, hpipeline, hhistory, Or.inl ⟨st, st', hst, hst', hexecuted, hwork, hsegments,
      hpack, ?_, ?_, ?_⟩⟩
    · rw [hout]
      exact hbroadcast.drafts
    · rw [hstarted.work]
      intro piece hpiece
      obtain ⟨life, hopened, hcaught⟩ := hcaught piece hpiece
      exact ⟨life, hopened, hcaught.congr (hbidi' _) (hbidi _)⟩
    · rw [hout]
      exact fun reqId hnot => (hrest reqId hnot).congr (hbidi' reqId) (hbidi reqId)
  | false =>
    obtain ⟨hempty, hknown'⟩ := hbatch.known hpaged
    rw [hpaged, if_neg Bool.false_ne_true] at h
    rw [if_neg Bool.false_ne_true]
    split at h
    · cases h
    next hstructured =>
    cases h
    rw [if_neg hstructured]
    refine ⟨_, rfl, rfl, rfl, Or.inr ⟨rfl, rfl, hknown', fun reqId => hrest reqId ?_⟩⟩
    -- there are no requests in the step
    rw [← hbatch.ids, hempty]
    exact List.not_mem_nil

/-- A runner of a pipeline with several stages does not defer its samples. -/
theorem executeModel_ppActive (target : Target Row) {cfg : PipelineConfig}
    (hpp : cfg.ppActive = true)
    (world : StepWorld) (out : SchedulerOutput) {r : Runner Row}
    (hpending : r.pipeline.pending = none)
    (heligible : r.pipeline.stepEligible = false) :
    executeModel target cfg world out r =
      runStep target cfg.toRunnerConfig world out r.pipeline r.entries r.history := by
  have hgate : stepEligible cfg world out r.pipeline r.entries = false := by
    rw [Bool.eq_false_iff]
    intro heligible
    simp only [stepEligible, evaluateGate, Option.isNone_iff_eq_none, Option.orElse_eq_none]
      at heligible
    have hblocked := firstReason_eq_none heligible.1 (cfg.ppActive, "pipeline parallelism")
      (by simp [PipelineConfig.capabilities])
    exact Bool.false_ne_true (hblocked.symm.trans hpp)
  rw [executeModel, hgate, beginStep_pending_none hpending heligible]

/-! ### Runs -/

/-- A stage without a sampler, the last stage, and the requests as the scheduler knows them. -/
structure Stages (Row : Type) where
  first : Runner Row
  last : Runner Row
  lives : ReqId → Option Life

/-- Before the first step. -/
def Stages.start (Row : Type) : Stages Row := ⟨.init Row, .init Row, fun _ => none⟩

/-- A call that both stages answer, and what it makes of the lives. -/
inductive Stages.Step (target : Target Row) (firstConfig lastConfig : PipelineConfig) :
    Stages Row → Call Row → Stages Row → Prop
  | execute {s : Stages Row} {world : StepWorld} {out : SchedulerOutput}
    {opened : ReqId → Option Life}
      {first last : Runner Row} {firstOutput lastOutput : Option StepOutput}
      (hidle : s.last.executeModelState = none) (hsched : Scheduled s.lives out opened)
      (hbroadcast : Broadcast out opened)
      (hfirst : executeModel target firstConfig world out s.first = .ok (first, firstOutput))
      (hlast : executeModel target lastConfig world out s.last = .ok (last, lastOutput)) :
      Stages.Step target firstConfig lastConfig s (.execute world out) ⟨first, last, opened⟩
  | sample {s : Stages Row} {grammarOutput : Option ((ℕ → Row) → ℕ → Row)}
      {st : PagedForwardState Row} {first last : Runner Row} {firstReturned : Returned}
      {output : StepOutput} (hstate : s.last.executeModelState = some st)
      (hfirst : sampleTokens target firstConfig grammarOutput s.first = .ok (first, firstReturned))
      (hlast : sampleTokens target lastConfig grammarOutput s.last = .ok (last, .output output)) :
      Stages.Step target firstConfig lastConfig s (.sample grammarOutput)
        ⟨first, last, delivered st.out output s.lives⟩

/-- What holds of a stage without a sampler and of the last one. -/
structure Lockstep (target : Target Row) (firstConfig lastConfig : PipelineConfig)
    (s : Stages Row) :
    Prop where
  /-- Every step had the same input row, in the same places, on both. -/
  history : s.first.history = s.last.history
  idle : s.last.executeModelState = none → s.first.executeModelState = none
  /-- The work, the chunks and the segments of a step are the same. -/
  rows : ∀ st, s.last.executeModelState = some st → ∃ st', s.first.executeModelState = some st' ∧
    st'.work = st.work ∧ st'.segments = st.segments ∧ st'.pack = st.pack
  /-- In a step all tokens of its requests are there. -/
  tokens : ∀ st, s.last.executeModelState = some st → ∀ reqId ∈ st.out.scheduledReqIds,
    ∃ life state, s.lives reqId = some life ∧ (s.first.entries reqId).state = some state ∧
      state.tokenIds = life.tokens ∧
      ∀ other, (s.last.entries reqId).state = some other → other.tokenIds = state.tokenIds
  /-- Between two steps the token that was sampled last may not be there. -/
  lags : s.last.executeModelState = none → ∀ reqId life, s.lives reqId = some life →
    life.stage ≠ .preempted → ∃ state other, (s.first.entries reqId).state = some state ∧
      (s.last.entries reqId).state = some other ∧
      (state.tokenIds = other.tokenIds ∨ state.tokenIds = other.tokenIds.dropLast)
  /-- Nothing is left of a request that is finished, or was never there. -/
  forgotten : ∀ reqId, s.lives reqId = none → (s.last.entries reqId).Forgotten ∧
    (s.first.entries reqId).state = none ∧ (s.first.entries reqId).seqLen = none ∧
      (s.first.entries reqId).awaitingReadmission = false
  /-- The stage executes what the last one executes. -/
  answers : s.last.executeModelState = none → ∀ world out opened, Scheduled s.lives out opened →
    Broadcast out opened → ∀ last output,
      executeModel target lastConfig world out s.last = .ok (last, output) →
        ∃ first, executeModel target firstConfig world out s.first = .ok (first, output)

/-- The two stages between two steps, and in one. -/
inductive Stages.Ok (s : Stages Row) : Prop
  | rest (hlast : s.last.executeModelState = none) (hfirst : s.first.executeModelState = none)
      (hknown : Known s.lives s.last.entries)
      (hbehind : ∀ reqId, Behind (s.lives reqId) (s.first.entries reqId) (s.last.entries reqId))
  | running {st st' : PagedForwardState Row} (hlast : s.last.executeModelState = some st)
      (hfirst : s.first.executeModelState = some st')
      (hmid : MidStep s.lives s.first.entries s.last.entries st' st)

/-- A runner that does not defer its samples. -/
structure Undeferred (r : Runner Row) : Prop where
  pending : r.pipeline.pending = none
  eligible : r.pipeline.stepEligible = false

/-- The invariant of the two stages. -/
structure Stages.Inv (s : Stages Row) : Prop where
  history : s.first.history = s.last.history
  first : Undeferred s.first
  last : Undeferred s.last
  ok : s.Ok

theorem Stages.inv_start (Row : Type) : (Stages.start Row).Inv :=
  ⟨rfl, ⟨rfl, rfl⟩, ⟨rfl, rfl⟩, .rest rfl rfl (fun _ => ⟨rfl, rfl, rfl, rfl⟩)
    fun _ => ⟨rfl, rfl, rfl⟩⟩

section

variable {target : Target Row} {firstConfig lastConfig : PipelineConfig}
  (hfirstStage : firstConfig.nonLastStage = true) (hlastStage : lastConfig.nonLastStage = false)
  (hpp : lastConfig.ppActive = true)

include hfirstStage hlastStage hpp

/-- **A step is executed on both stages.** -/
theorem Stages.Inv.executeModel {s : Stages Row} (h : s.Inv)
    (hidle : s.last.executeModelState = none) {world : StepWorld} {out : SchedulerOutput}
    {opened : ReqId → Option Life} (hsched : Scheduled s.lives out opened)
    (hbroadcast : Broadcast out opened) {last : Runner Row} {output : Option StepOutput}
    (hlast : PagedRunner.executeModel target lastConfig world out s.last = .ok (last, output)) :
    ∃ first, PagedRunner.executeModel target firstConfig world out s.first = .ok (first, output) ∧
      Stages.Inv ⟨first, last, opened⟩ := by
  cases h.ok with
  | running hstate => cases hidle.symm.trans hstate
  | rest hstate hstate' hknown hbehind =>
    rw [executeModel_ppActive target hpp world out h.last.pending h.last.eligible] at hlast
    obtain ⟨first, hrun, hpipeline, hhistory, hcase⟩ :=
      runStep_mirrors h.last.pending h.first.pending
      hlastStage hfirstStage hknown hbehind hsched hbroadcast hlast
    obtain ⟨hlastPipeline, -⟩ := runStep_cases hlast
    have hfirst : PagedRunner.executeModel target firstConfig world out s.first =
      .ok (first, output) := by
      rw [executeModel_ppActive target (firstConfig.ppActive_of_stage hfirstStage) world out
        h.first.pending h.first.eligible, h.history]
      exact hrun
    refine ⟨first, hfirst, hhistory, ⟨?_, ?_⟩, ⟨?_, ?_⟩, ?_⟩
    · rw [hpipeline, h.first.pending]
    · rw [hpipeline, h.first.eligible]
    · rw [hlastPipeline, h.last.pending]
    · rw [hlastPipeline, h.last.eligible]
    · rcases hcase with ⟨st, st', hst, hst', hmid⟩ | ⟨hnone, hnone', hknown', hbehind'⟩
      · exact .running hst hst' hmid
      · exact .rest hnone hnone' hknown' hbehind'

/-- **A step is sampled**: on the last stage, and the other one drops what it kept for it. -/
theorem Stages.Inv.step {s s' : Stages Row} (h : s.Inv) {call : Call Row}
    (hstep : Stages.Step target firstConfig lastConfig s call s') : s'.Inv := by
  cases hstep with
  | execute hidle hsched hbroadcast hfirst hlast =>
    obtain ⟨first, hfirst', hinv⟩ :=
      h.executeModel hfirstStage hlastStage hpp hidle hsched hbroadcast
      hlast
    rw [hfirst'] at hfirst
    cases hfirst
    exact hinv
  -- the first stage answers nothing; the last one samples, masked or not
  | @sample grammarOutput _ _ _ _ _ hstate hfirst hlast =>
    cases h.ok with
    | rest hnone => cases hnone.symm.trans hstate
    | running hst hst' hmid =>
      obtain rfl := Option.some.inj (hst.symm.trans hstate)
      simp only [sampleTokens, hst', hfirstStage, if_true] at hfirst
      cases hfirst
      simp only [sampleTokens, hst, hlastStage, h.last.eligible, Bool.false_eq_true,
        if_false] at hlast
      split at hlast
      · cases hlast
      next hbatch =>
      cases hlast
      cases grammarOutput with
      | none =>
        obtain ⟨hknown, hbehind⟩ := hmid.sampled hbatch
        exact ⟨h.history, ⟨h.first.pending, h.first.eligible⟩, ⟨h.last.pending, h.last.eligible⟩,
          .rest rfl rfl hknown hbehind⟩
      | some mask =>
        obtain ⟨hknown, hbehind⟩ := (hmid.masked (mask _)).sampled hbatch
        exact ⟨h.history, ⟨h.first.pending, h.first.eligible⟩, ⟨h.last.pending, h.last.eligible⟩,
          .rest rfl rfl hknown hbehind⟩

end

/-- What the invariant says. -/
theorem Stages.Inv.lockstep {s : Stages Row} (h : s.Inv) {target : Target Row}
    {firstConfig lastConfig : PipelineConfig} (hfirstStage : firstConfig.nonLastStage = true)
    (hlastStage : lastConfig.nonLastStage = false) (hpp : lastConfig.ppActive = true) :
    Lockstep target firstConfig lastConfig s where
  history := h.history
  idle := by
    intro hidle
    cases h.ok with
    | rest hlast hfirst => exact hfirst
    | running hlast => cases hidle.symm.trans hlast
  rows := by
    intro st hst
    cases h.ok with
    | rest hlast => cases hlast.symm.trans hst
    | running hlast hfirst hmid =>
      obtain rfl := Option.some.inj (hlast.symm.trans hst)
      exact ⟨_, hfirst, hmid.work, hmid.segments, hmid.pack⟩
  tokens := by
    intro st hst reqId hin
    cases h.ok with
    | rest hlast => cases hlast.symm.trans hst
    | running hlast hfirst hmid =>
      obtain rfl := Option.some.inj (hlast.symm.trans hst)
      rw [← hmid.executed.batch.ids] at hin
      obtain ⟨piece, hpiece, rfl⟩ := List.mem_map.mp hin
      obtain ⟨life, hopened, hcaught⟩ := hmid.caught piece hpiece
      obtain ⟨life', hopened', hcollected⟩ := hmid.executed.batch.work piece hpiece
      obtain rfl := Option.some.inj (hopened.symm.trans hopened')
      obtain ⟨state, hstate, -, ⟨htokens, -⟩, -⟩ := hcaught.state.state
      refine ⟨life, state, hopened, hstate, htokens, fun other hother => ?_⟩
      rw [htokens]
      exact hcollected.tokens hother
  lags := by
    intro hidle reqId life hlife hne
    cases h.ok with
    | running hlast => cases hidle.symm.trans hlast
    | rest hlast hfirst hknown hbehind =>
      have hentry := hknown reqId
      have hbehind := (hbehind reqId).state
      rw [hlife] at hentry hbehind
      obtain ⟨other, hother, -, hholds⟩ := hentry.1.state
      obtain ⟨state, hstate, -, hlags, -⟩ := hbehind.state
      refine ⟨state, other, hstate, hother, ?_⟩
      -- where the first stage is behind, by the stage of the life
      cases hstage : life.stage with
      | preempted => exact absurd hstage hne
      | computing outs start =>
        rw [hstage] at hholds hlags
        exact Or.inl (hlags.1.trans hholds.1.symm)
      | decoding outs =>
        rw [hstage] at hholds hlags
        exact Or.inr (hlags.1.trans (congrArg List.dropLast hholds.1.symm))
  forgotten := by
    intro reqId hnone
    cases h.ok with
    | rest hlast hfirst hknown hbehind =>
      have hentry := hknown reqId
      rw [hnone] at hentry
      have hentry : (s.last.entries reqId).Forgotten := hentry
      obtain ⟨hseq, hawaiting, hstate⟩ := hbehind reqId
      rw [hnone] at hstate
      exact ⟨hentry, hstate, hseq, hawaiting.trans hentry.awaiting⟩
    | @running st st' hlast hfirst hmid =>
      have hnot : reqId ∉ st.out.scheduledReqIds := by
        intro hin
        rw [← hmid.executed.batch.ids] at hin
        obtain ⟨piece, hpiece, rfl⟩ := List.mem_map.mp hin
        obtain ⟨life, hopened, -⟩ := hmid.caught piece hpiece
        cases hnone.symm.trans hopened
      have hentry := hmid.executed.forgotten hnone
      obtain ⟨hseq, hawaiting, hstate⟩ := hmid.rest reqId hnot
      rw [hnone] at hstate
      exact ⟨hentry, hstate, hseq, hawaiting.trans hentry.awaiting⟩
  answers := by
    intro hidle world out opened hsched hbroadcast last output hlast
    obtain ⟨first, hfirst, -⟩ :=
      h.executeModel hfirstStage hlastStage hpp hidle hsched hbroadcast hlast
    exact ⟨first, hfirst⟩

/-- **The stages of a pipeline stay in lockstep, along every run**: with requests arriving, computed
in chunks, decoded, preempted, resumed or admitted again, and finished, a stage that learns the
tokens from the scheduler forwards the rows that the last stage assembles from its own samples. -/
theorem lockstep_of_run {target : Target Row} {firstConfig lastConfig : PipelineConfig}
    (hfirstStage : firstConfig.nonLastStage = true) (hlastStage : lastConfig.nonLastStage = false)
    (hpp : lastConfig.ppActive = true) {calls : List (Call Row)} {s : Stages Row}
    (hrun : Run (Stages.Step target firstConfig lastConfig) (.start Row) calls s) :
    Lockstep target firstConfig lastConfig s := by
  have hinv : s.Inv := hrun.invariant (fun s call s' h hstep =>
    h.step hfirstStage hlastStage hpp hstep) (Stages.inv_start Row)
  exact hinv.lockstep hfirstStage hlastStage hpp

/-- A stage of a pipeline with two stages. -/
def stageConfig (nonLastStage : Bool) : PipelineConfig :=
  { pipelinedConfig with
    ppActive := true
    nonLastStage := nonLastStage
    ppActive_of_stage := fun _ => rfl }

/-- A step that the scheduler broadcasts. -/
def broadcastStep (newReqs : List NewRequestData) (cachedReqs : List CachedRequest)
    (scheduled : ℕ) :
    SchedulerOutput :=
  { stepOver newReqs cachedReqs scheduled with sendsNewTokenIds := true }

/-- The two stages after a call, given the lives behind it. -/
def Stages.answer (target : Target Row) (firstConfig lastConfig : PipelineConfig)
    (first last : Runner Row) :
    Call Row → Option (Runner Row × Runner Row × StepOutput)
  | .execute world out =>
      match executeModel target firstConfig world out first,
        executeModel target lastConfig world out last with
      | .ok (first, _), .ok (last, _) => some (first, last, [])
      | _, _ => none
  | .sample grammarOutput =>
      match sampleTokens target firstConfig grammarOutput first,
        sampleTokens target lastConfig grammarOutput last with
      | .ok (first, _), .ok (last, .output output) => some (first, last, output)
      | _, _ => none
  | .getOutput => none

theorem Stages.answer_execute {target : Target Row} {firstConfig lastConfig : PipelineConfig}
    {first last first' last' : Runner Row} {world : StepWorld} {output : StepOutput}
    (h : Stages.answer target firstConfig lastConfig first last (.execute world out) =
      some (first', last', output)) :
    ∃ o o', executeModel target firstConfig world out first = .ok (first', o) ∧
      executeModel target lastConfig world out last = .ok (last', o') := by
  unfold Stages.answer at h
  simp only at h
  split at h
  · next hfirst hlast =>
    cases h
    exact ⟨_, _, hfirst, hlast⟩
  · cases h

theorem Stages.answer_sample {target : Target Row} {firstConfig lastConfig : PipelineConfig}
    {first last first' last' : Runner Row} {grammarOutput : Option ((ℕ → Row) → ℕ → Row)}
    {output : StepOutput} (h : Stages.answer target firstConfig lastConfig first last
      (.sample grammarOutput) = some (first', last', output)) :
    ∃ returned, sampleTokens target firstConfig grammarOutput first = .ok (first', returned) ∧
      sampleTokens target lastConfig grammarOutput last = .ok (last', .output output) := by
  unfold Stages.answer at h
  simp only at h
  split at h
  · next hfirst hlast =>
    cases h
    exact ⟨_, hfirst, hlast⟩
  · cases h

/-- A prompt of two tokens. -/
def promptStep : SchedulerOutput :=
  broadcastStep [⟨0, some [5, 6], [5, 6], 2, .greedy, 0, [[0]]⟩] [] 2

/-- The decode step behind it, with the token that was sampled. -/
def decodeStep : SchedulerOutput := broadcastStep [] [⟨0, 2, [7], none, none⟩] 1

theorem scheduled_decodeStep {lives : ReqId → Option Life}
    (hlife : lives 0 = some ⟨[5, 6], .decoding [7]⟩) : Scheduled lives decodeStep lives where
  nodup := by decide
  preempted _ h := absurd h List.not_mem_nil
  new _ h := absurd h List.not_mem_nil
  cached cachedReq h := by
    obtain rfl := List.mem_singleton.mp h
    refine ⟨_, hlife, ?_⟩
    rw [reconciled, if_neg (by decide), if_neg (by decide), hlife]
    exact .decode [5, 6] [7] rfl
  other reqId _ := rfl

theorem broadcast_decodeStep {lives : ReqId → Option Life}
    (hlife : lives 0 = some ⟨[5, 6], .decoding [7]⟩) : Broadcast decodeStep lives where
  sends _ := rfl
  drafts _ := rfl
  new _ h := absurd h List.not_mem_nil
  cached cachedReq h life hopened := by
    obtain rfl := List.mem_singleton.mp h
    obtain rfl := Option.some.inj (hlife.symm.trans hopened)
    exact ⟨rfl, Nat.one_pos, fun _ _ => rfl⟩

theorem broadcast_promptStep : Broadcast promptStep firstLife where
  sends _ := rfl
  drafts _ := rfl
  new newReq h life hopened := by
    obtain rfl := List.mem_singleton.mp h
    obtain rfl := Option.some.inj hopened
    exact ⟨rfl, Or.inr rfl⟩
  cached _ h := absurd h List.not_mem_nil

theorem scheduled_promptStep : Scheduled (fun _ => none) promptStep firstLife :=
  ⟨scheduled_firstLife.nodup, scheduled_firstLife.preempted, scheduled_firstLife.new,
    scheduled_firstLife.cached, scheduled_firstLife.other⟩

/-- A prompt of two tokens and a decode step, on a stage that does not sample and on the last one:
the row of the decode step is the token that only the last stage sampled. -/
theorem firstPrompt_lockstep :
    ∃ s, Run (Stages.Step countingTarget (stageConfig true) (stageConfig false))
    (.start Token) [.execute textWorld promptStep, .sample none, .execute textWorld decodeStep] s ∧
    (s.first.history.getLast?.bind StepRecord.forward).map ForwardInput.inputIds = some [7] ∧
    Lockstep countingTarget (stageConfig true) (stageConfig false) s := by
  have heval : (Stages.answer countingTarget (stageConfig true) (stageConfig false) (.init Token)
      (.init Token) (.execute textWorld promptStep)).any (fun r₁ =>
        r₁.2.1.executeModelState.any (fun st =>
          decide (st.out.scheduledReqIds = [0] ∧ st.out.numScheduledTokens 0 = 2)) &&
        (Stages.answer countingTarget (stageConfig true) (stageConfig false) r₁.1 r₁.2.1
          (.sample none)).any fun r₂ =>
            decide (r₂.2.2 = [(0, [7])]) && r₂.2.1.executeModelState.isNone &&
            (Stages.answer countingTarget (stageConfig true) (stageConfig false) r₂.1 r₂.2.1
              (.execute textWorld decodeStep)).any fun r₃ =>
                decide ((r₃.1.history.getLast?.bind StepRecord.forward).map ForwardInput.inputIds =
                  some [7])) = true := by
    decide +kernel
  -- the runner's answers, one by one
  obtain ⟨⟨first₁, last₁, _⟩, h₁, heval⟩ := (Option.any_eq_true _ _).mp heval
  obtain ⟨hst, heval⟩ := Bool.and_eq_true_iff.mp heval
  obtain ⟨st, hst, hout⟩ := (Option.any_eq_true _ _).mp hst
  obtain ⟨hids, hnum⟩ := of_decide_eq_true hout
  obtain ⟨⟨first₂, last₂, output⟩, h₂, heval⟩ := (Option.any_eq_true _ _).mp heval
  obtain ⟨heval, h₃⟩ := Bool.and_eq_true_iff.mp heval
  obtain ⟨houtput, hidle⟩ := Bool.and_eq_true_iff.mp heval
  obtain rfl : output = [(0, [7])] := of_decide_eq_true houtput
  obtain ⟨⟨first₃, last₃, _⟩, h₃, hrow⟩ := (Option.any_eq_true _ _).mp h₃
  obtain ⟨_, _, hfirst₁, hlast₁⟩ := Stages.answer_execute h₁
  obtain ⟨_, hfirst₂, hlast₂⟩ := Stages.answer_sample h₂
  obtain ⟨_, _, hfirst₃, hlast₃⟩ := Stages.answer_execute h₃
  have hlife := delivered_firstLife hids hnum
  have hrun : Run (Stages.Step countingTarget (stageConfig true) (stageConfig false)) (.start Token)
      [.execute textWorld promptStep, .sample none, .execute textWorld decodeStep]
      ⟨first₃, last₃, delivered st.out [(0, [7])] firstLife⟩ :=
    .cons (.execute rfl scheduled_promptStep broadcast_promptStep hfirst₁ hlast₁)
      (.cons (.sample hst hfirst₂ hlast₂)
        (.cons (.execute (Option.isNone_iff_eq_none.mp hidle) (scheduled_decodeStep hlife)
          (broadcast_decodeStep hlife) hfirst₃ hlast₃) (.nil _)))
  exact ⟨_, hrun, of_decide_eq_true hrow, lockstep_of_run rfl rfl rfl hrun⟩

end PagedRunner
end VllmMetal
