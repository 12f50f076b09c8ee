import VllmMetal.Runner.Sampled
import VllmMetal.Lib.Raising

/-!
# The lives of the requests

The scheduler's side of a request: its prompt and the tokens that it was given behind it, and
whether these are being computed, decoded from, or dropped from the cache.  What the scheduler may
hand over in a step is a relation on these lives, and the outputs of a step advance them.  The
runner's entry of a request follows its life.

## Main definitions

* `Life`, `Stage` — a request as the scheduler knows it.
* `Scheduled` — what a step may schedule.
* `delivered` — the lives after the output of a step.
* `EntryOf`, `Counted` — the entry of a request follows its life.
* `BatchOf` — the work of a step.

## Main results

* `collectBatch_ok` — **the lifecycle half of a step does not raise, and its work is that of the
  schedule**.
-/

namespace VllmMetal
namespace PagedRunner

open Multimodal

/-! ### Lives -/

/-- Where a request is. -/
inductive Stage where
  /-- The prompt and `outs` behind it are computed up to `computed`. -/
  | computing (outs : List Token) (computed : ℕ)
  /-- The prompt and `outs` behind it are computed up to their last token. -/
  | decoding (outs : List Token)
  | preempted

/-- The output tokens that the scheduler knows. -/
def Stage.outs : Stage → List Token
  | .computing outs _ => outs
  | .decoding outs => outs
  | .preempted => []

def Stage.isPreempted : Stage → Bool
  | .computing _ _ => false
  | .decoding _ => false
  | .preempted => true

/-- A request as the scheduler knows it. -/
structure Life where
  prompt : List Token
  stage : Stage

/-- The tokens of a request that is not preempted. -/
def Life.tokens (life : Life) : List Token := life.prompt ++ life.stage.outs

/-- The life of a request after `n` of its tokens were scheduled and `sampled` came back. -/
def Life.advance (n : ℕ) (sampled : List Token) (life : Life) : Life :=
  match life.stage with
  | .computing outs start =>
      if start + n < life.tokens.length then { life with stage := .computing outs (start + n) }
      else { life with stage := .decoding (outs ++ sampled) }
  | .decoding outs => { life with stage := .decoding (outs ++ sampled) }
  | .preempted => life

/-- The lives after the requests of a step are finished and preempted. -/
def reconciled (out : SchedulerOutput) (lives : ReqId → Option Life) (reqId : ReqId) :
    Option Life :=
  if reqId ∈ out.finishedReqIds then none
  else if reqId ∈ out.preemptedReqIds then
    (lives reqId).map fun life => { life with stage := .preempted }
  else lives reqId

/-- The tokens that an output has for a request. -/
def tokensOf (output : StepOutput) (reqId : ReqId) : List Token :=
  ((output.find? fun slot => slot.1 = reqId).map Prod.snd).getD []

/-- The lives after the output of a step. -/
def delivered (out : SchedulerOutput) (output : StepOutput) (lives : ReqId → Option Life)
    (reqId : ReqId) : Option Life :=
  if reqId ∈ out.scheduledReqIds then
    (lives reqId).map (Life.advance (out.numScheduledTokens reqId) (tokensOf output reqId))
  else lives reqId

/-! ### What a step may schedule -/

/-- What may be scheduled as a new request: one that is not known, or a preempted one with the
tokens it has so far. -/
inductive Admits (newReq : NewRequestData) (n : ℕ) : Option Life → Life → Prop
  | first (prompt : List Token) (hne : prompt ≠ []) (htokens : newReq.promptTokenIds = some prompt)
      (hpos : 0 < n) (hinside : newReq.numComputedTokens + n ≤ prompt.length) :
      Admits newReq n none ⟨prompt, .computing [] newReq.numComputedTokens⟩
  | again (prompt outs : List Token) (htokens : newReq.promptTokenIds = some prompt)
      (hprefill : newReq.prefillTokenIds = prompt ++ outs) (hlen : newReq.promptLen = prompt.length)
      (hpos : 0 < n) (hinside : newReq.numComputedTokens + n ≤ (prompt ++ outs).length) :
      Admits newReq n (some ⟨prompt, .preempted⟩) ⟨prompt, .computing outs newReq.numComputedTokens⟩

/-- What may be scheduled as a cached request: the next chunk, a decode step, or the resumption of a
preempted one with the tokens it has so far. -/
inductive Continues (cachedReq : CachedRequest) (n : ℕ) : Option Life → Life → Prop
  | chunk (prompt outs : List Token) (hresumed : cachedReq.resumed = none) (hpos : 0 < n)
      (hinside : cachedReq.numComputedTokens + n ≤ (prompt ++ outs).length) :
      Continues cachedReq n (some ⟨prompt, .computing outs cachedReq.numComputedTokens⟩)
        ⟨prompt, .computing outs cachedReq.numComputedTokens⟩
  | decode (prompt outs : List Token) (hresumed : cachedReq.resumed = none) :
      Continues cachedReq n (some ⟨prompt, .decoding outs⟩) ⟨prompt, .decoding outs⟩
  | resume (prompt outs : List Token) (hresumed : cachedReq.resumed = some (prompt ++ outs))
      (hblocks : cachedReq.newBlockIds ≠ none) (hpos : 0 < n)
      (hinside : cachedReq.numComputedTokens + n ≤ (prompt ++ outs).length) :
      Continues cachedReq n (some ⟨prompt, .preempted⟩)
        ⟨prompt, .computing outs cachedReq.numComputedTokens⟩

/-- What a step may schedule, and the lives with the passes that it starts. -/
structure Scheduled (lives : ReqId → Option Life) (out : SchedulerOutput)
    (opened : ReqId → Option Life) : Prop where
  nodup : out.scheduledReqIds.Nodup
  preempted : ∀ reqId ∈ out.preemptedReqIds, lives reqId ≠ none
  new : ∀ newReq ∈ out.scheduledNewReqs, ∃ life, opened newReq.reqId = some life ∧
    Admits newReq (out.numScheduledTokens newReq.reqId) (reconciled out lives newReq.reqId) life
  cached : ∀ cachedReq ∈ out.scheduledCachedReqs, ∃ life, opened cachedReq.reqId = some life ∧
    Continues cachedReq (out.numScheduledTokens cachedReq.reqId)
      (reconciled out lives cachedReq.reqId) life
  other : ∀ reqId ∉ out.scheduledReqIds, opened reqId = reconciled out lives reqId

/-! ### Entries follow lives -/

/-- The counts of a state that decodes: what was generated, and how far it is computed. -/
structure Counted (state : RequestState) (seqLen : Option ℕ) : Prop where
  generated : state.generatedTokens + state.promptLen = state.tokenIds.length
  seqLen : seqLen = some (state.tokenIds.length - 1)

/-- A state that has generated tokens is counted. -/
def Entry.Consistent (entry : Entry) : Prop :=
  ∀ state, entry.state = some state → state.generatedTokens ≠ 0 → Counted state entry.seqLen

/-- What the runner's state of a request says at a stage. -/
def Stage.Holds (prompt : List Token) (state : RequestState) : Stage → Prop
  | .computing outs _ => state.tokenIds = prompt ++ outs ∧ state.generatedTokens = 0
  | .decoding outs => state.tokenIds = prompt ++ outs ∧ state.generatedTokens ≠ 0
  | .preempted => True

/-- The entry of a request that the runner has a state of. -/
structure Tracks (life : Life) (entry : Entry) : Prop where
  prompt_ne : life.prompt ≠ []
  state : ∃ state, entry.state = some state ∧ state.promptLen = life.prompt.length ∧
    life.stage.Holds life.prompt state
  consistent : entry.Consistent

/-- The entry of a request: a preempted one awaits its re-admission, unless it is just resumed. -/
def EntryOf (resumed : Bool) : Option Life → Entry → Prop
  | none, entry => entry.Forgotten
  | some life, entry => Tracks life entry ∧
      entry.awaitingReadmission = (life.stage.isPreempted && !resumed)

/-- The runner between two steps. -/
def Known (lives : ReqId → Option Life) (entries : Entries) : Prop :=
  ∀ reqId, EntryOf false (lives reqId) (entries reqId)

/-- A request with a chunk in the batch.  The state of a request that is new, and whose chunk is the
whole of it, is not there before its first token is sampled. -/
structure Queued (newReqs : List NewRequestData) (n : ℕ) (life : Life) (entry : Entry)
    (pending : PendingPrefillEntry) : Prop where
  prompt_ne : life.prompt ≠ []
  chunk : ∃ outs start sp blockIds final, life.stage = .computing outs start ∧ 0 < n ∧
    start + n ≤ life.tokens.length ∧ final ≠ .intermediate ∧ pending = pendingChunk pending.reqId
      life.tokens life.prompt.length sp blockIds start n final
  awaiting : entry.awaitingReadmission = false
  state : (∃ state, entry.state = some state ∧ state.promptLen = life.prompt.length ∧
      state.tokenIds = life.tokens ∧ state.generatedTokens = 0 ∧ pending.resultMode ≠ .newFinal) ∨
    (entry.state = none ∧ pending.resultMode = .newFinal ∧ life.stage.outs = [] ∧
      ∃ newReq ∈ newReqs, newReq.reqId = pending.reqId ∧ newReq.promptTokenIds = some life.prompt)

variable {lives opened : ReqId → Option Life} {entries : Entries} {out : SchedulerOutput}
  {life : Life} {entry : Entry} {n : ℕ}

/-! ### Finished and preempted requests -/

theorem Tracks.congr {entry' : Entry} (h : Tracks life entry) (hstate : entry'.state = entry.state)
    (hseq : entry'.seqLen = entry.seqLen) : Tracks life entry' where
  prompt_ne := h.prompt_ne
  state := by
    rw [hstate]
    exact h.state
  consistent := by
    unfold Entry.Consistent
    rw [hstate, hseq]
    exact h.consistent

theorem Tracks.preempt (h : Tracks life entry) :
    Tracks { life with stage := .preempted } entry where
  prompt_ne := h.prompt_ne
  state := by
    obtain ⟨state, hstate, hlen, -⟩ := h.state
    exact ⟨state, hstate, hlen, trivial⟩
  consistent := h.consistent

/-- **The runner after the lifecycle was reconciled.** -/
theorem reconcile_known (out : SchedulerOutput) (hknown : Known lives entries)
    (hpreempted : ∀ reqId ∈ out.preemptedReqIds, lives reqId ≠ none) (reqId : ReqId) :
    EntryOf (decide (reqId ∈ out.resumedReqIds)) (reconciled out lives reqId)
      (reconcileRequestLifecycle out entries reqId) := by
  have hid := hknown reqId
  unfold reconciled reconcileRequestLifecycle
  by_cases hfin : reqId ∈ out.finishedReqIds
  · simp only [hfin, if_true, decide_true, Bool.not_true, Bool.and_false, Bool.false_and,
      Bool.true_or]
    exact ⟨rfl, rfl, rfl, rfl⟩
  · simp only [hfin, if_false, decide_false, Bool.not_false, Bool.and_true, Bool.false_or]
    cases hlife : lives reqId with
    | none =>
      -- an unknown request is not preempted
      have hnot : reqId ∉ out.preemptedReqIds := fun hmem => hpreempted reqId hmem hlife
      rw [hlife] at hid
      obtain ⟨hstate, hseq, hawaiting, hbidi⟩ : Entry.Forgotten (entries reqId) := hid
      simp only [hnot, if_false, decide_false, Bool.or_false, Bool.false_eq_true]
      exact ⟨hstate, hseq, by rw [hawaiting]; rfl, by rw [hbidi]; exact ite_self _⟩
    | some life =>
      rw [hlife] at hid
      obtain ⟨⟨hne, hstate, hconsistent⟩, hawaiting⟩ := hid
      by_cases hpre : reqId ∈ out.preemptedReqIds
      · simp only [hpre, if_true, decide_true, Bool.or_true, Bool.true_and, Option.map_some,
          Bool.false_eq_true, if_false]
        exact ⟨(Tracks.mk hne hstate hconsistent).preempt.congr rfl rfl, rfl⟩
      · simp only [hpre, if_false, decide_false, Bool.or_false, Bool.false_eq_true]
        exact ⟨⟨hne, hstate, hconsistent⟩, by rw [hawaiting, Bool.not_false, Bool.and_true]⟩

/-! ### One request of the batch -/

/-- The result mode of a chunk. -/
theorem resultMode_pendingChunk {reqId : ReqId} {tokenIds : List Token} {promptLen start : ℕ}
    {sp : SamplingParams} {blockIds : List (List ℕ)} {final : ResultMode} :
    (pendingChunk reqId tokenIds promptLen sp blockIds start n final).resultMode =
      if start + n < tokenIds.length then .intermediate else final := rfl

/-- A continuation is intermediate, or the end of a cached request. -/
theorem resultMode_continuation {reqId : ReqId} {state : RequestState} {start : ℕ} :
    (collectPrefillContinuation reqId state start n).resultMode ≠ .newFinal := by
  rw [collectPrefillContinuation, resultMode_pendingChunk]
  split <;> exact fun h => nomatch h

/-- **A new request**: it is admitted or re-admitted, and its chunk is queued. -/
theorem handleNewRequest_ok {num : ReqId → ℕ} {newReqs : List NewRequestData}
    {newReq : NewRequestData} (hmem : newReq ∈ newReqs) {before : Option Life}
    (hadmits : Admits newReq (num newReq.reqId) before life) (hentry : EntryOf false before entry) :
    ∃ entry' pending, handleNewRequest num newReq entry = .ok (entry', [.prefill pending]) ∧
      pending.reqId = newReq.reqId ∧
      Queued newReqs (num newReq.reqId) life entry' pending := by
  cases hadmits with
  -- an admission: a state is kept while prompt tokens are left
  | first prompt hne htokens hpos hinside =>
    obtain ⟨hnone, hseq, hawaiting, hbidi⟩ : Entry.Forgotten entry := hentry
    let start := newReq.numComputedTokens
    let states := if start + num newReq.reqId < prompt.length then
      entry.states.put (arrivedState newReq prompt) else entry.states
    let arrived : Entry := { entry with states := states }
    let pending :=
      pendingChunk newReq.reqId prompt prompt.length newReq.samplingParams newReq.blockIds
      start (num newReq.reqId) .newFinal
    have htokens' : Life.tokens ⟨prompt, .computing [] start⟩ = prompt := List.append_nil prompt
    refine ⟨arrived, pending, ?_, rfl, ?_⟩
    · unfold handleNewRequest
      simp only [htokens, Option.getD_some, hne, if_false, hawaiting, Bool.false_eq_true, arrived]
      rfl
    · refine ⟨hne, ⟨[], start, newReq.samplingParams, newReq.blockIds, .newFinal, rfl, hpos,
        by rw [htokens']; exact hinside, fun h => (nomatch h), by rw [htokens']; rfl⟩,
          hawaiting, ?_⟩
      by_cases hlt : start + num newReq.reqId < prompt.length
      · left
        refine ⟨arrivedState newReq prompt, ?_, rfl, htokens'.symm, rfl, ?_⟩
        · simp only [arrived, states, if_pos hlt]
          rfl
        · rw [resultMode_pendingChunk, if_pos hlt]
          exact fun h => (nomatch h)
      · right
        refine ⟨?_, ?_, rfl, newReq, hmem, rfl, htokens⟩
        · simp only [arrived, states, if_neg hlt]
          exact hnone
        · rw [resultMode_pendingChunk, if_neg hlt]
  -- a re-admission takes the scheduler's tokens over
  | again prompt outs htokens hprefill hlen hpos hinside =>
    obtain ⟨⟨hne, ⟨preempted, hstate, -, -⟩, -⟩, hawaiting⟩ := hentry
    have hawaiting : entry.awaitingReadmission = true := hawaiting
    let state := readmittedState newReq preempted
    refine ⟨⟨entry.states.put state, none, false, none⟩,
      collectPrefillContinuation newReq.reqId state newReq.numComputedTokens (num newReq.reqId), ?_,
      rfl, hne,
        ⟨outs, newReq.numComputedTokens, newReq.samplingParams, newReq.blockIds, .cachedFinal,
        rfl, hpos, hinside, fun h => (nomatch h), ?_⟩, rfl,
      Or.inl ⟨state, rfl, hlen, hprefill, rfl, resultMode_continuation⟩⟩
    · unfold handleNewRequest readmitRequest
      simp only [htokens, Option.getD_some, hne, if_false, hawaiting, if_true, hstate]
      rfl
    · show pendingChunk newReq.reqId newReq.prefillTokenIds newReq.promptLen _ _ _ _ _ = _
      rw [hprefill, hlen]
      rfl

theorem state_modify (entry : Entry) (f : RequestState → RequestState) :
    (entry.states.modify f).held = entry.state.map f := Slot.held_modify ..

/-- New blocks leave the tokens and the counts as they are. -/
theorem extendBlocks_keeps (newBlockIds : Option (List (List ℕ))) (state : RequestState) :
    (extendBlocks newBlockIds state).tokenIds = state.tokenIds ∧
      (extendBlocks newBlockIds state).promptLen = state.promptLen ∧
      (extendBlocks newBlockIds state).generatedTokens = state.generatedTokens := by
  cases newBlockIds <;> exact ⟨rfl, rfl, rfl⟩

/-- **A cached request**: the state of a resumed one has the scheduler's tokens. -/
theorem updateCachedRequest_ok {cachedReq : CachedRequest} {before : Option Life}
    (hcontinues : Continues cachedReq n before life)
    (hentry : EntryOf cachedReq.resumed.isSome before entry) :
    ∃ entry', updateCachedRequest cachedReq entry = .ok (entry', []) ∧
      Tracks life entry' ∧ entry'.awaitingReadmission = false := by
  -- without a resumption only the blocks change
  have hextend : cachedReq.resumed = none → Tracks life entry →
      ∃ entry', updateCachedRequest cachedReq entry = .ok (entry', []) ∧
        Tracks life entry' ∧ entry'.awaitingReadmission = entry.awaitingReadmission := by
    intro hresumed htracks
    obtain ⟨hne, ⟨state, hstate, hlen, hholds⟩, hconsistent⟩ := htracks
    obtain ⟨htokens, hprompt, hgenerated⟩ := extendBlocks_keeps cachedReq.newBlockIds state
    have hafter : (entry.states.modify (extendBlocks cachedReq.newBlockIds)).held =
        some (extendBlocks cachedReq.newBlockIds state) := by
      rw [state_modify, hstate, Option.map_some]
    refine ⟨{ entry with states := entry.states.modify (extendBlocks cachedReq.newBlockIds) }, ?_,
      ⟨hne, ⟨_, hafter, hprompt.trans hlen, ?_⟩, ?_⟩, rfl⟩
    · simp only [updateCachedRequest, hstate, hresumed]
    · unfold Stage.Holds at hholds ⊢
      rw [htokens, hgenerated]
      exact hholds
    · intro state' hstate' hgen
      obtain rfl := Option.some.inj (hafter.symm.trans hstate')
      obtain ⟨hcount, hseq⟩ := hconsistent state hstate (hgenerated ▸ hgen)
      exact ⟨by rw [hgenerated, hprompt, htokens, hcount], by rw [htokens]; exact hseq⟩
  cases hcontinues with
  | chunk prompt outs hresumed hpos hinside =>
    obtain ⟨htracks, hawaiting⟩ := hentry
    obtain ⟨entry', hact, htracks', hkeep⟩ := hextend hresumed htracks
    exact ⟨entry', hact, htracks', hkeep.trans hawaiting⟩
  | decode prompt outs hresumed =>
    obtain ⟨htracks, hawaiting⟩ := hentry
    obtain ⟨entry', hact, htracks', hkeep⟩ := hextend hresumed htracks
    exact ⟨entry', hact, htracks', hkeep.trans hawaiting⟩
  -- a resumed request has the scheduler's tokens, and no length until its chunk has run
  | resume prompt outs hresumed hblocks hpos hinside =>
    obtain ⟨⟨hne, ⟨state, hstate, hlen, -⟩, -⟩, hawaiting⟩ := hentry
    obtain ⟨blocks, hblocks⟩ := Option.ne_none_iff_exists'.mp hblocks
    have hafter : (entry.states.modify (resumedState (prompt ++ outs) blocks)).held =
        some (resumedState (prompt ++ outs) blocks state) := by
      rw [state_modify, hstate, Option.map_some]
    refine ⟨{ entry with
        states := entry.states.modify (resumedState (prompt ++ outs) blocks)
        seqLen := none }, ?_, ⟨hne, ⟨_, hafter, hlen, rfl, rfl⟩, ?_⟩, ?_⟩
    · simp only [updateCachedRequest, hstate, hresumed, hblocks]
    · intro state' hstate' hgen
      obtain rfl := Option.some.inj (hafter.symm.trans hstate')
      exact absurd rfl hgen
    · rw [hresumed] at hawaiting
      exact hawaiting.trans (Bool.and_false _)

/-- What is collected for a cached request: a chunk of its tokens, or decode work. -/
def CollectedAs (newReqs : List NewRequestData) (reqId : ReqId) (n : ℕ) (life : Life)
    (entry : Entry) : Work → Prop
  | .output _ _ => False
  | .prefill pending => pending.reqId = reqId ∧ Queued newReqs n life entry pending
  | .decode id => id = reqId ∧ (∃ outs, life.stage = .decoding outs) ∧ Tracks life entry ∧
      entry.awaitingReadmission = false

theorem CollectedAs.reqId_eq {newReqs : List NewRequestData} {reqId : ReqId} {work : Work}
    (h : CollectedAs newReqs reqId n life entry work) : work.reqId = reqId := by
  cases work with
  | output => exact h.elim
  | prefill pending => exact h.1
  | decode id => exact h.1

/-- **Prefill continuation or decode work.** -/
theorem collectCachedRequest_ok {num : ReqId → ℕ} (newReqs : List NewRequestData)
    {cachedReq : CachedRequest} {before : Option Life}
    (hcontinues : Continues cachedReq (num cachedReq.reqId) before life)
    (htracks : Tracks life entry) (hawaiting : entry.awaitingReadmission = false) :
    ∃ work, collectCachedRequest num cachedReq entry = .ok (entry, [work]) ∧
      CollectedAs newReqs cachedReq.reqId (num cachedReq.reqId) life entry work := by
  obtain ⟨state, hstate, hlen, hholds⟩ := htracks.state
  have hact : collectCachedRequest num cachedReq entry = .ok (entry,
      [if state.generatedTokens = 0 then .prefill (collectPrefillContinuation cachedReq.reqId state
          cachedReq.numComputedTokens (num cachedReq.reqId))
        else .decode cachedReq.reqId]) := by
    simp only [collectCachedRequest, hstate]
  -- a pass over the tokens has not generated any
  have hqueued : ∀ outs, life.stage = .computing outs cachedReq.numComputedTokens →
      0 < num cachedReq.reqId →
      cachedReq.numComputedTokens + num cachedReq.reqId ≤ (life.prompt ++ outs).length →
      ∃ work, collectCachedRequest num cachedReq entry = .ok (entry, [work]) ∧
        CollectedAs newReqs cachedReq.reqId (num cachedReq.reqId) life entry work := by
    intro outs hstage hpos hinside
    have htokens : life.tokens = life.prompt ++ outs := by rw [Life.tokens, hstage]; rfl
    rw [hstage] at hholds
    refine ⟨_, hact, ?_⟩
    rw [if_pos hholds.2]
    refine ⟨rfl, htracks.prompt_ne, ⟨outs, cachedReq.numComputedTokens, state.samplingParams,
      state.blockIds, .cachedFinal, hstage, hpos, by rw [htokens]; exact hinside,
      fun h => (nomatch h), ?_⟩, hawaiting,
      Or.inl ⟨state, hstate, hlen, by rw [htokens]; exact hholds.1, hholds.2,
        resultMode_continuation⟩⟩
    rw [collectPrefillContinuation, hholds.1, hlen, htokens]
    rfl
  cases hcontinues with
  | chunk prompt outs hresumed hpos hinside => exact hqueued outs rfl hpos hinside
  | resume prompt outs hresumed hblocks hpos hinside => exact hqueued outs rfl hpos hinside
  | decode prompt outs hresumed =>
    refine ⟨_, hact, ?_⟩
    rw [if_neg hholds.2]
    exact ⟨rfl, ⟨outs, rfl⟩, htracks, hawaiting⟩

/-! ### The batch -/

/-- The batch of a step: its chunks belong to the requests whose passes go on, its decode work to
decoding ones, and the entries of all others are at rest. -/
structure BatchOf (out : SchedulerOutput) (opened : ReqId → Option Life) (entries : Entries)
    (work : List Work) : Prop where
  ids : work.map Work.reqId = out.scheduledReqIds
  nodup : out.scheduledReqIds.Nodup
  work : ∀ piece ∈ work, ∃ life, opened piece.reqId = some life ∧
    CollectedAs out.scheduledNewReqs piece.reqId (out.numScheduledTokens piece.reqId) life
      (entries piece.reqId) piece
  rest : ∀ reqId ∉ out.scheduledReqIds, EntryOf false (opened reqId) (entries reqId)

/-- A resumed request is cached. -/
theorem mem_resumedReqIds (hnodup : out.scheduledReqIds.Nodup) {cachedReq : CachedRequest}
    (hmem : cachedReq ∈ out.scheduledCachedReqs) :
    decide (cachedReq.reqId ∈ out.resumedReqIds) = cachedReq.resumed.isSome := by
  have hcached := (List.nodup_append.mp hnodup).2.1
  rw [SchedulerOutput.resumedReqIds]
  cases hresumed : cachedReq.resumed.isSome with
  | true =>
    refine decide_eq_true (List.mem_map_of_mem (List.mem_filter.mpr ⟨hmem, hresumed⟩))
  | false =>
    refine decide_eq_false fun hin => ?_
    obtain ⟨other, hother, hid⟩ := List.mem_map.mp hin
    obtain ⟨hin', hsome⟩ := List.mem_filter.mp hother
    rw [List.inj_on_of_nodup_map hcached hin' hmem hid, hresumed] at hsome
    exact Bool.false_ne_true hsome

/-- Only a cached request is resumed. -/
theorem notMem_resumedReqIds {reqId : ReqId}
    (h : reqId ∉ out.scheduledCachedReqs.map CachedRequest.reqId) :
    decide (reqId ∈ out.resumedReqIds) = false := by
  refine decide_eq_false fun hin => ?_
  obtain ⟨cachedReq, hmem, rfl⟩ := List.mem_map.mp hin
  exact h (List.mem_map_of_mem (List.mem_of_mem_filter hmem))

/-- Only a known request continues. -/
theorem Continues.isSome {cachedReq : CachedRequest} {before : Option Life}
    (h : Continues cachedReq n before life) : before.isSome := by
  cases h <;> rfl

/-- A known request has a state. -/
theorem Known.isSome_state (hknown : Known lives entries) (reqId : ReqId)
    (hlife : (lives reqId).isSome) : (entries reqId).state.isSome := by
  obtain ⟨life, hlife⟩ := Option.isSome_iff_exists.mp hlife
  have hid := hknown reqId
  rw [hlife] at hid
  obtain ⟨state, hstate, -⟩ := hid.1.state
  rw [hstate]
  rfl

/-- No scheduled cached request is missed. -/
theorem missingCachedStateReqIds_eq_nil
    (hstates : ∀ reqId, (lives reqId).isSome → (entries reqId).state.isSome)
    (hsched : Scheduled lives out opened) : missingCachedStateReqIds out entries = [] := by
  rw [missingCachedStateReqIds, List.filter_eq_nil_iff]
  intro reqId hmem
  obtain ⟨cachedReq, hcached, rfl⟩ := List.mem_map.mp hmem
  obtain ⟨life, -, hcontinues⟩ := hsched.cached cachedReq hcached
  -- what continues is neither finished nor unknown
  obtain ⟨before, hbefore⟩ := Option.isSome_iff_exists.mp hcontinues.isSome
  unfold reconciled at hbefore
  by_cases hfin : cachedReq.reqId ∈ out.finishedReqIds
  · rw [if_pos hfin] at hbefore
    cases hbefore
  · have hlife : (lives cachedReq.reqId).isSome := by
      cases hlife : lives cachedReq.reqId with
      | none =>
        rw [hlife] at hbefore
        simp [hfin] at hbefore
      | some life => rfl
    obtain ⟨state, hstate⟩ := Option.isSome_iff_exists.mp (hstates _ hlife)
    simp [hfin, hstate]

/-- The new requests of a step. -/
theorem newRequests_ok (hknown : Known lives entries) (hsched : Scheduled lives out opened) :
    ∃ entries' outs, forEach NewRequestData.reqId (handleNewRequest out.numScheduledTokens)
        out.scheduledNewReqs (reconcileRequestLifecycle out entries) =
          .ok (entries', out.scheduledNewReqs.flatMap outs) ∧
      (∀ newReq ∈ out.scheduledNewReqs, ∃ piece life, outs newReq = [piece] ∧
        opened newReq.reqId = some life ∧ CollectedAs out.scheduledNewReqs newReq.reqId
          (out.numScheduledTokens newReq.reqId) life (entries' newReq.reqId) piece) ∧
      ∀ reqId ∉ out.scheduledNewReqs.map NewRequestData.reqId,
        entries' reqId = reconcileRequestLifecycle out entries reqId := by
  obtain ⟨hnew, -, hdisjoint⟩ := List.nodup_append.mp hsched.nodup
  refine forEach_spec NewRequestData.reqId (handleNewRequest out.numScheduledTokens)
    (fun newReq entry pieces => ∃ piece life, pieces = [piece] ∧ opened newReq.reqId = some life ∧
      CollectedAs out.scheduledNewReqs newReq.reqId (out.numScheduledTokens newReq.reqId) life entry
        piece) _ hnew fun newReq hmem => ?_
  obtain ⟨life, hopened, hadmits⟩ := hsched.new newReq hmem
  have hentry := reconcile_known out hknown hsched.preempted newReq.reqId
  rw [notMem_resumedReqIds fun hin =>
    hdisjoint _ (List.mem_map_of_mem hmem) _ hin rfl] at hentry
  obtain ⟨entry', pending, hact, hid, hqueued⟩ := handleNewRequest_ok hmem hadmits hentry
  exact ⟨entry', [.prefill pending], hact, .prefill pending, life, rfl, hopened, hid, hqueued⟩

/-- The cached requests of a step. -/
theorem cachedRequests_ok (hknown : Known lives entries) (hsched : Scheduled lives out opened)
    {entries₁ : Entries} (hframe : ∀ reqId ∉ out.scheduledNewReqs.map NewRequestData.reqId,
      entries₁ reqId = reconcileRequestLifecycle out entries reqId) :
    ∃ entries₂ nothing outs,
      forEach CachedRequest.reqId updateCachedRequest out.scheduledCachedReqs entries₁ =
        .ok (entries₂, nothing) ∧
      forEach CachedRequest.reqId (collectCachedRequest out.numScheduledTokens)
        out.scheduledCachedReqs entries₂ = .ok (entries₂, out.scheduledCachedReqs.flatMap outs) ∧
      (∀ cachedReq ∈ out.scheduledCachedReqs, ∃ piece life, outs cachedReq = [piece] ∧
        opened cachedReq.reqId = some life ∧ CollectedAs out.scheduledNewReqs
          cachedReq.reqId (out.numScheduledTokens cachedReq.reqId) life (entries₂ cachedReq.reqId)
          piece) ∧
      ∀ reqId ∉ out.scheduledCachedReqs.map CachedRequest.reqId, entries₂ reqId =
        entries₁ reqId := by
  obtain ⟨-, hcached, hdisjoint⟩ := List.nodup_append.mp hsched.nodup
  obtain ⟨entries₂, nothing, hupdate, hupdated, hframe₂⟩ := forEach_spec CachedRequest.reqId
    updateCachedRequest (fun cachedReq entry _ => ∃ life, opened cachedReq.reqId = some life ∧
      Continues cachedReq (out.numScheduledTokens cachedReq.reqId)
        (reconciled out lives cachedReq.reqId) life ∧
      Tracks life entry ∧ entry.awaitingReadmission = false) entries₁ hcached
    fun cachedReq hmem => by
      obtain ⟨life, hopened, hcontinues⟩ := hsched.cached cachedReq hmem
      have hentry := reconcile_known out hknown hsched.preempted cachedReq.reqId
      rw [mem_resumedReqIds hsched.nodup hmem, ← hframe _ fun hin =>
        hdisjoint _ hin _ (List.mem_map_of_mem hmem) rfl] at hentry
      obtain ⟨entry', hact, htracks, hawaiting⟩ := updateCachedRequest_ok hcontinues hentry
      exact ⟨entry', [], hact, life, hopened, hcontinues, htracks, hawaiting⟩
  obtain ⟨entries₃, outs, hcollect, hcollected, hframe₃⟩ := forEach_spec CachedRequest.reqId
    (collectCachedRequest out.numScheduledTokens)
    (fun cachedReq entry pieces => entry = entries₂ cachedReq.reqId ∧ ∃ piece life,
      pieces = [piece] ∧ opened cachedReq.reqId = some life ∧ CollectedAs out.scheduledNewReqs
        cachedReq.reqId (out.numScheduledTokens cachedReq.reqId) life entry piece) entries₂ hcached
    fun cachedReq hmem => by
      obtain ⟨life, hopened, hcontinues, htracks, hawaiting⟩ := hupdated cachedReq hmem
      obtain ⟨piece, hact, hpiece⟩ :=
        collectCachedRequest_ok out.scheduledNewReqs hcontinues htracks
        hawaiting
      exact ⟨_, [piece], hact, rfl, piece, life, rfl, hopened, hpiece⟩
  -- the collection reads the entries only
  obtain rfl : entries₃ = entries₂ := by
    funext reqId
    by_cases hin : reqId ∈ out.scheduledCachedReqs.map CachedRequest.reqId
    · obtain ⟨cachedReq, hmem, rfl⟩ := List.mem_map.mp hin
      exact (hcollected cachedReq hmem).1
    · exact hframe₃ reqId hin
  exact ⟨entries₃, _, outs, hupdate, hcollect, fun cachedReq hmem => (hcollected cachedReq hmem).2,
    hframe₂⟩

/-- The ids of pieces that each belong to one item. -/
theorem map_reqId_flatMap {A : Type} {key : A → ReqId} {outs : A → List Work} {items : List A}
    (h : ∀ a ∈ items, ∃ piece, outs a = [piece] ∧ piece.reqId = key a) :
    (items.flatMap outs).map Work.reqId = items.map key := by
  induction items with
  | nil => rfl
  | cons a items ih =>
    obtain ⟨piece, houts, hid⟩ := h a List.mem_cons_self
    rw [List.flatMap_cons, houts, List.singleton_append, List.map_cons, hid, List.map_cons,
      ih fun b hb => h b (List.mem_cons_of_mem a hb)]

/-- **The lifecycle half of a step**: it does not raise, and its work is that of the schedule. -/
theorem collectBatch_ok (hknown : Known lives entries) (hsched : Scheduled lives out opened) :
    ∃ after work, collectBatch false out entries = .ok (after, work) ∧
      BatchOf out opened after work := by
  obtain ⟨hnewNodup, hcachedNodup, hdisjoint⟩ := List.nodup_append.mp hsched.nodup
  obtain ⟨entries₁, outs₁, hloop₁, hnew, hframe₁⟩ := newRequests_ok hknown hsched
  obtain ⟨entries₂, nothing, outs₂, hloop₂, hloop₃, hcached, hframe₂⟩ :=
    cachedRequests_ok hknown hsched hframe₁
  -- the entry of a new request is that of its admission
  have hnew₂ : ∀ newReq ∈ out.scheduledNewReqs, entries₂ newReq.reqId = entries₁ newReq.reqId :=
    fun newReq hmem => hframe₂ _ fun hin => hdisjoint _ (List.mem_map_of_mem hmem) _ hin rfl
  refine ⟨entries₂, out.scheduledNewReqs.flatMap outs₁ ++ out.scheduledCachedReqs.flatMap outs₂, ?_,
    ?_, hsched.nodup, ?_, ?_⟩
  · have hmissing := missingCachedStateReqIds_eq_nil hknown.isSome_state hsched
    simp only [collectBatch, hmissing, ne_eq, not_true_eq_false, if_false,
      handleNewRequests, hloop₁,
      Bool.false_eq_true, updateCachedRequestBlocks, hloop₂, collectCachedRequests,
        hloop₃, Except.map]
  · rw [List.map_append, SchedulerOutput.scheduledReqIds]
    congr 1
    · refine map_reqId_flatMap fun newReq hmem => ?_
      obtain ⟨piece, life, houts, -, hpiece⟩ := hnew newReq hmem
      exact ⟨piece, houts, hpiece.reqId_eq⟩
    · refine map_reqId_flatMap fun cachedReq hmem => ?_
      obtain ⟨piece, life, houts, -, hpiece⟩ := hcached cachedReq hmem
      exact ⟨piece, houts, hpiece.reqId_eq⟩
  · intro piece hpiece
    rcases List.mem_append.mp hpiece with hin | hin
    · obtain ⟨newReq, hmem, hin⟩ := List.mem_flatMap.mp hin
      obtain ⟨piece', life, houts, hopened, hcollected⟩ := hnew newReq hmem
      obtain rfl : piece = piece' := by rwa [houts, List.mem_singleton] at hin
      rw [hcollected.reqId_eq]
      exact ⟨life, hopened, (hnew₂ newReq hmem).symm ▸ hcollected⟩
    · obtain ⟨cachedReq, hmem, hin⟩ := List.mem_flatMap.mp hin
      obtain ⟨piece', life, houts, hopened, hcollected⟩ := hcached cachedReq hmem
      obtain rfl : piece = piece' := by rwa [houts, List.mem_singleton] at hin
      rw [hcollected.reqId_eq]
      exact ⟨life, hopened, hcollected⟩
  · intro reqId hnot
    obtain ⟨hnotNew, hnotCached⟩ : reqId ∉ out.scheduledNewReqs.map NewRequestData.reqId ∧
        reqId ∉ out.scheduledCachedReqs.map CachedRequest.reqId := by
      rwa [SchedulerOutput.scheduledReqIds, List.mem_append, not_or] at hnot
    have hentry := reconcile_known out hknown hsched.preempted reqId
    rw [notMem_resumedReqIds hnotCached, ← hframe₁ reqId hnotNew, ← hframe₂ reqId hnotCached]
      at hentry
    rw [hsched.other reqId hnot]
    exact hentry

end PagedRunner
end VllmMetal
