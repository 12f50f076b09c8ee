import VllmMetal.Runner.Executed

/-!
# A pipeline stage without a sampler

Only the last stage of a pipeline samples.  The others learn a token with the next step that
computes it: the scheduler sends the tokens of the step again, as far as it knows them, and a stage
appends the ones it does not have.  A step that rewrites the tokens of a request, or admits it
again, does so on all stages.  So between two steps a stage is behind by the token that was sampled
last, and in a step it has the work, the chunks and the segments of the last stage.

## Main definitions

* `Broadcast` — what the scheduler adds to a step for the stages without a sampler.
* `Behind`, `CaughtUp` — such a stage beside the last one, between two steps and in one.

## Main results

* `appendBroadcast_tokens` — no token is appended twice, and none is skipped.
* `collectBatch_mirrors` — **a step has the same work on all stages**.
-/

namespace VllmMetal
namespace PagedRunner

open Multimodal

/-! ### The broadcast -/

/-- What the scheduler adds to a step for the stages without a sampler: the tokens from where a
request is computed on, as far as they are known, and no drafts. -/
structure Broadcast (out : SchedulerOutput) (opened : ReqId → Option Life) : Prop where
  sends : out.scheduledCachedReqs ≠ [] → out.sendsNewTokenIds = true
  drafts : ∀ reqId, out.scheduledSpecDecodeTokens.getD reqId [] = []
  new : ∀ newReq ∈ out.scheduledNewReqs, ∀ life, opened newReq.reqId = some life →
    newReq.promptLen = life.prompt.length ∧
      ((newReq.prefillTokenIds = [] ∧ life.stage.outs = []) ∨ newReq.prefillTokenIds = life.tokens)
  cached : ∀ cachedReq ∈ out.scheduledCachedReqs, ∀ life, opened cachedReq.reqId = some life →
    cachedReq.newTokenIds = (life.tokens.drop cachedReq.numComputedTokens).take
        (out.numScheduledTokens cachedReq.reqId) ∧
      0 < out.numScheduledTokens cachedReq.reqId ∧
      ∀ outs, life.stage = .decoding outs → cachedReq.numComputedTokens + 1 = life.tokens.length

/-! ### A stage beside the last one -/

/-- What a state has of the scheduler, apart from its tokens. -/
def given (state : RequestState) : SamplingParams × List (List ℕ) :=
  (state.samplingParams, state.blockIds)

/-- What a chunk has of it. -/
def PrefillRequest.given (pr : PrefillRequest) : SamplingParams × List (List ℕ) :=
  (pr.samplingParams, pr.blockIds)

/-- The tokens of a stage between two steps: the one that was sampled last is not there. -/
def Stage.Lags (prompt : List Token) (state : RequestState) : Stage → Prop
  | .computing outs _ => state.tokenIds = prompt ++ outs ∧ state.generatedTokens = 0
  | .decoding outs => state.tokenIds = (prompt ++ outs).dropLast ∧ outs ≠ []
  | .preempted => True

/-- The state of a request beside that of the last stage, which need not be there yet. -/
structure Beside (life : Life) (tokens : RequestState → Prop) (entry last : Entry) : Prop where
  state : ∃ state, entry.state = some state ∧ state.promptLen = life.prompt.length ∧ tokens state ∧
    ∀ other, last.state = some other → given other = given state

/-- The state of a request between two steps. -/
def BehindState : Option Life → Entry → Entry → Prop
  | none, entry, _ => entry.state = none
  | some life, entry, last =>
    Beside life (fun state => life.stage.Lags life.prompt state) entry last

/-- An entry between two steps, beside that of the last stage. -/
structure Behind (life : Option Life) (entry last : Entry) : Prop where
  seqLen : entry.seqLen = none
  awaiting : entry.awaitingReadmission = last.awaitingReadmission
  state : BehindState life entry last

/-- The request decodes just when its state has generated tokens. -/
def Counts (life : Life) (state : RequestState) : Prop :=
  state.generatedTokens = 0 ↔ ∃ outs start, life.stage = .computing outs start

/-- An entry in a step, beside that of the last stage: the tokens are all there, and the chunk has
what the state has. -/
structure CaughtUp (life : Life) (piece : Work) (entry last : Entry) : Prop where
  seqLen : entry.seqLen = none
  awaiting : entry.awaitingReadmission = false
  state : Beside life (fun state => state.tokenIds = life.tokens ∧ Counts life state ∧
    ∀ pending, piece = .prefill pending → pending.prefill.given = given state) entry last

variable {lives opened : ReqId → Option Life} {stage last : Entries} {out : SchedulerOutput}
  {life : Life} {before : Option Life} {entry entry' : Entry} {n : ℕ}

/-! ### Finished and preempted requests -/

/-- **The lifecycle is reconciled** in the same way on all stages. -/
theorem reconcile_behind (out : SchedulerOutput) {reqId : ReqId}
    (h : Behind (lives reqId) (stage reqId) (last reqId)) :
    Behind (reconciled out lives reqId) (reconcileRequestLifecycle out stage reqId)
      (reconcileRequestLifecycle out last reqId) := by
  obtain ⟨hseq, hawaiting, hstate⟩ := h
  unfold reconciled reconcileRequestLifecycle
  by_cases hfin : reqId ∈ out.finishedReqIds
  · simp only [hfin, if_true, decide_true, Bool.not_true, Bool.and_false, Bool.false_and]
    exact ⟨rfl, rfl, rfl⟩
  · simp only [hfin, if_false, decide_false, Bool.false_eq_true, hawaiting]
    refine ⟨hseq, rfl, ?_⟩
    by_cases hpre : reqId ∈ out.preemptedReqIds
    · rw [if_pos hpre]
      cases hlife : lives reqId with
      | none =>
        rw [hlife] at hstate
        exact hstate
      | some life =>
        rw [hlife] at hstate
        obtain ⟨state, hsome, hlen, -, hgiven⟩ := hstate.state
        exact ⟨state, hsome, hlen, trivial, hgiven⟩
    · rw [if_neg hpre]
      cases hlife : lives reqId with
      | none =>
        rw [hlife] at hstate
        exact hstate
      | some life =>
        rw [hlife] at hstate
        exact ⟨hstate.state⟩

/-! ### New requests -/

/-- **A new request** is admitted or re-admitted on all stages, and a stage without a sampler seeds
its state at once. -/
theorem handleNewRequest_mirrors {num : ReqId → ℕ} {newReq : NewRequestData}
    (hadmits : Admits newReq (num newReq.reqId) before life)
    (hlen : newReq.promptLen = life.prompt.length)
    (htokens : (newReq.prefillTokenIds = [] ∧ life.stage.outs = []) ∨
      newReq.prefillTokenIds = life.tokens)
    (hlast : EntryOf false before entry') (hstage : Behind before entry entry') :
    ∃ v v' piece, handleNewRequest num newReq entry = .ok (v, [piece]) ∧
      handleNewRequest num newReq entry' = .ok (v', [piece]) ∧ piece.reqId = newReq.reqId ∧
      CaughtUp life piece { v with states := v.states.put (broadcastState newReq) } v' := by
  -- the state that is seeded has all tokens
  have hseeded : newReq.promptTokenIds = some life.prompt → life.prompt ≠ [] →
      (broadcastState newReq).tokenIds = life.tokens := by
    intro hprompt hne
    unfold broadcastState
    rcases htokens with ⟨hnil, houts⟩ | heq
    · rw [if_pos hnil, hprompt, Life.tokens, houts, List.append_nil]
      rfl
    · have hcons : newReq.prefillTokenIds ≠ [] := by
        rw [heq, Life.tokens]
        exact List.append_ne_nil_of_left_ne_nil hne _
      rw [if_neg hcons, heq]
  cases hadmits with
  | first prompt hne hprompt hpos hinside =>
    obtain ⟨hnone, -, hawaiting, -⟩ : Entry.Forgotten entry' := hlast
    have hstate : entry.state = none := hstage.state
    have hboth := hstage.awaiting.trans hawaiting
    have hact : ∀ {e : Entry}, e.awaitingReadmission = false → handleNewRequest num newReq e =
        .ok ({ e with states := if newReq.numComputedTokens + num newReq.reqId < prompt.length then
            e.states.put (arrivedState newReq prompt) else e.states },
          [.prefill (pendingChunk newReq.reqId prompt prompt.length newReq.samplingParams
            newReq.blockIds newReq.numComputedTokens (num newReq.reqId) .newFinal)]) := by
      intro e he
      unfold handleNewRequest
      simp only [hprompt, Option.getD_some, hne, if_false, he, Bool.false_eq_true]
    refine ⟨_, _, _, hact hboth, hact hawaiting, rfl, hstage.seqLen, hboth,
      broadcastState newReq, rfl,
      hlen, ⟨hseeded hprompt hne, ⟨fun _ => ⟨_, _, rfl⟩, fun _ => rfl⟩, ?_⟩, ?_⟩
    · intro pending hpending
      cases hpending
      rfl
    · intro other hother
      by_cases hlt : newReq.numComputedTokens + num newReq.reqId < prompt.length
      · simp only [if_pos hlt] at hother
        cases hother
        rfl
      · simp only [if_neg hlt] at hother
        cases hnone.symm.trans hother
  | again prompt outs hprompt hprefill hpromptLen hpos hinside =>
    obtain ⟨⟨hne, ⟨preempted, hpreempted, -, -⟩, -⟩, hawaiting⟩ := hlast
    have hawaiting : entry'.awaitingReadmission = true := hawaiting
    obtain ⟨state, hstate, -, -, -⟩ := hstage.state.state
    have hact : ∀ {e : Entry} {state : RequestState}, e.state = some state →
        e.awaitingReadmission = true → handleNewRequest num newReq e =
          .ok (⟨e.states.put (readmittedState newReq state), none, false, none⟩,
            [.prefill (pendingChunk newReq.reqId newReq.prefillTokenIds newReq.promptLen
              newReq.samplingParams newReq.blockIds newReq.numComputedTokens (num newReq.reqId)
              .cachedFinal)]) := by
      intro e state hsome he
      unfold handleNewRequest readmitRequest
      simp only [hprompt, Option.getD_some, hne, if_false, he, if_true, hsome]
      rfl
    refine ⟨_, _, _, hact hstate (hstage.awaiting.trans hawaiting),
      hact hpreempted hawaiting, rfl, rfl,
      rfl, broadcastState newReq, rfl, hlen,
      ⟨hseeded hprompt hne, ⟨fun _ => ⟨_, _, rfl⟩, fun _ => rfl⟩, ?_⟩, ?_⟩
    · intro pending hpending
      cases hpending
      rfl
    · intro other hother
      cases hother
      rfl

/-! ### Cached requests -/

/-- A broadcast of tokens that are all there. -/
theorem appendBroadcast_of_le {numComputedTokens : ℕ} {newTokenIds : List Token}
    {state : RequestState}
    (h : numComputedTokens + newTokenIds.length ≤ state.tokenIds.length) :
    appendBroadcast numComputedTokens newTokenIds state = state := by
  simp only [appendBroadcast]
  rw [if_neg (by omega)]

/-- **No token is appended twice, and none is skipped**: from the first `m` of the tokens, a
broadcast of those at `[computed, computed + n)` leads to all of them up to the longer end. -/
theorem appendBroadcast_tokens {tokens : List Token} {m computed : ℕ} {state : RequestState}
    (htokens : state.tokenIds = tokens.take m) (hm : m ≤ tokens.length) (hcomputed : computed ≤ m) :
    (appendBroadcast computed ((tokens.drop computed).take n) state).tokenIds =
      tokens.take (max m (min (computed + n) tokens.length)) := by
  have hlen : state.tokenIds.length = m := by
    rw [htokens, List.length_take]
    omega
  have hnew : ((tokens.drop computed).take n).length = min n (tokens.length - computed) := by
    rw [List.length_take, List.length_drop]
  by_cases hle : min (computed + n) tokens.length ≤ m
  · rw [appendBroadcast_of_le (by omega), htokens, Nat.max_eq_left hle]
  · have hnum : computed + min n (tokens.length - computed) - m =
        min (computed + n) tokens.length - m := by omega
    simp only [appendBroadcast, hlen, hnew, hnum]
    rw [if_pos (by omega), Nat.max_eq_right (by omega), htokens]
    -- what is appended starts where the state ends
    have hdrop : ((tokens.drop computed).take n).drop
        (min n (tokens.length - computed) - (min (computed + n) tokens.length - m)) =
          (tokens.drop m).take (computed + n - m) := by
      have hskip : min n (tokens.length - computed) - (min (computed + n) tokens.length - m) =
          m - computed := by omega
      rw [hskip, List.drop_take, List.drop_drop, Nat.add_sub_cancel' hcomputed]
      congr 1
      omega
    show tokens.take m ++ _ = _
    rw [hdrop, ← List.take_add]
    by_cases hend : computed + n ≤ tokens.length
    · rw [Nat.min_eq_left hend]
      congr 1
      omega
    · rw [Nat.min_eq_right (by omega), List.take_of_length_le (by omega), List.take_length]

/-- A broadcast is written to the tokens alone. -/
theorem appendBroadcast_keeps (numComputedTokens : ℕ) (newTokenIds : List Token)
    (state : RequestState) :
    (appendBroadcast numComputedTokens newTokenIds state).promptLen = state.promptLen ∧
      given (appendBroadcast numComputedTokens newTokenIds state) = given state := by
  unfold appendBroadcast
  simp only
  split <;> exact ⟨rfl, rfl⟩

/-- New blocks come behind the same blocks. -/
theorem given_extendBlocks {state other : RequestState} (h : given other = given state)
    (newBlockIds : Option (List (List ℕ))) :
    given (extendBlocks newBlockIds other) = given (extendBlocks newBlockIds state) := by
  obtain ⟨hparams, hblocks⟩ := Prod.mk.inj h
  cases newBlockIds with
  | none => exact h
  | some newBlockIds =>
    unfold given extendBlocks
    simp only [hparams, hblocks]

/-- The state of a request that continues, once the broadcast is there: its tokens, and whether it
decodes. -/
theorem advance_continues {cachedReq : CachedRequest}
    (hcontinues : Continues cachedReq n before life)
    (hnew : cachedReq.newTokenIds = (life.tokens.drop cachedReq.numComputedTokens).take n)
    (hpos : 0 < n)
    (hdecode : ∀ outs, life.stage = .decoding outs →
      cachedReq.numComputedTokens + 1 = life.tokens.length)
    (hresumed : cachedReq.resumed = none) {state : RequestState}
    (hlen : state.promptLen = life.prompt.length) (hlags : ∀ b, before = some b →
      b.stage.Lags b.prompt state) :
    let next := appendBroadcast cachedReq.numComputedTokens cachedReq.newTokenIds state
    next.tokenIds = life.tokens ∧ Counts life next := by
  intro next
  cases hcontinues with
  | chunk prompt outs hresumed hpos hinside =>
    obtain ⟨htokens, hgen⟩ := hlags _ rfl
    have hsame : next = state := by
      refine appendBroadcast_of_le ?_
      rw [hnew, htokens, List.length_take, List.length_drop]
      show _ ≤ (prompt ++ outs).length
      exact le_trans (Nat.add_le_add_left (Nat.min_le_left ..) _) hinside
    rw [hsame]
    exact ⟨htokens, fun _ => ⟨_, _, rfl⟩, fun _ => hgen⟩
  | resume prompt outs hsome => cases hresumed.symm.trans hsome
  | decode prompt outs hresumed =>
    obtain ⟨htokens, hne⟩ := hlags _ rfl
    have hcomputed : cachedReq.numComputedTokens + 1 = (prompt ++ outs).length := hdecode outs rfl
    have hlast : state.tokenIds = (prompt ++ outs).take cachedReq.numComputedTokens := by
      rw [htokens, List.dropLast_eq_take, ← hcomputed, Nat.add_sub_cancel]
    -- the last token is the one that is not there
    have hall : next.tokenIds = prompt ++ outs := by
      have htake := appendBroadcast_tokens (n := n) hlast (by omega) (le_refl _)
      rw [show next.tokenIds = _ from congrArg (fun new => (appendBroadcast
        cachedReq.numComputedTokens new state).tokenIds) hnew]
      refine htake.trans (List.take_of_length_le ?_)
      omega
    refine ⟨hall, fun hzero => ?_, fun ⟨_, _, h⟩ => by cases h⟩
    -- what is appended counts as generated
    exfalso
    have hgen : next.generatedTokens = (next.tokenIds.length : ℤ) - state.promptLen := by
      have hnot : next.tokenIds ≠ state.tokenIds := by
        intro heq
        have := congrArg List.length (hall.symm.trans (heq.trans hlast))
        rw [List.length_take] at this
        omega
      unfold next appendBroadcast at hnot ⊢
      simp only at hnot ⊢
      split
      · rfl
      · next hnum =>
        rw [if_neg hnum] at hnot
        exact absurd rfl hnot
    rw [hzero, hall, hlen, List.length_append] at hgen
    have := List.length_pos_of_ne_nil hne
    push_cast at hgen
    omega

/-- The entries of a cached request that is up to date on all stages. -/
structure Updated (life : Life) (entry last : Entry) : Prop where
  seqLen : entry.seqLen = none
  awaiting : entry.awaitingReadmission = false
  states : ∃ state other, entry.state = some state ∧ last.state = some other ∧
    state.promptLen = life.prompt.length ∧ other.promptLen = life.prompt.length ∧
    state.tokenIds = life.tokens ∧ other.tokenIds = life.tokens ∧ given other = given state ∧
    Counts life state ∧ Counts life other

/-- **What is collected for a cached request** is the same on all stages. -/
theorem Updated.collect {last : Entry} (h : Updated life entry last) (num : ReqId → ℕ)
    (cachedReq : CachedRequest) : ∃ piece,
      collectCachedRequest num cachedReq entry = .ok (entry, [piece]) ∧
      collectCachedRequest num cachedReq last = .ok (last, [piece]) ∧
      piece.reqId = cachedReq.reqId ∧ CaughtUp life piece entry last := by
  obtain ⟨state, other, hstate, hother, hlen, hlen', htokens, htokens', hgiven,
    hcounts, hcounts'⟩ :=
    h.states
  have hgen : other.generatedTokens = 0 ↔ state.generatedTokens = 0 := hcounts'.trans hcounts.symm
  obtain ⟨hparams, hblocks⟩ := Prod.mk.inj hgiven
  let chunk := collectPrefillContinuation cachedReq.reqId state cachedReq.numComputedTokens
    (num cachedReq.reqId)
  have hsame : collectPrefillContinuation cachedReq.reqId other cachedReq.numComputedTokens
      (num cachedReq.reqId) = chunk := by
    simp only [chunk, collectPrefillContinuation, htokens, htokens', hlen, hlen', hparams, hblocks]
  refine ⟨if state.generatedTokens = 0 then .prefill chunk else .decode cachedReq.reqId, ?_, ?_, ?_,
    h.seqLen, h.awaiting, state, hstate, hlen, ⟨htokens, hcounts, fun pending hpending => ?_⟩,
    fun other₁ hother₁ => ?_⟩
  · simp only [collectCachedRequest, hstate, chunk]
  · simp only [collectCachedRequest, hother, hgen, hsame]
  · split <;> rfl
  · split at hpending <;> cases hpending
    rfl
  · obtain rfl := Option.some.inj (hother.symm.trans hother₁)
    exact hgiven

/-- What continues is computed or decoded. -/
theorem Continues.stage_cases {cachedReq : CachedRequest} (h : Continues cachedReq n before life) :
    (∃ outs start, life.stage = .computing outs start) ∨ ∃ outs, life.stage = .decoding outs := by
  cases h with
  | chunk prompt outs => exact Or.inl ⟨outs, _, rfl⟩
  | decode prompt outs => exact Or.inr ⟨outs, rfl⟩
  | resume prompt outs => exact Or.inl ⟨outs, _, rfl⟩

/-- The tokens of the last stage, and whether it decodes. -/
theorem Tracks.tokens {cachedReq : CachedRequest} (h : Tracks life entry)
    (hcontinues : Continues cachedReq n before life) : ∃ state, entry.state = some state ∧
      state.promptLen = life.prompt.length ∧ state.tokenIds = life.tokens ∧ Counts life state := by
  obtain ⟨state, hstate, hlen, hholds⟩ := h.state
  refine ⟨state, hstate, hlen, ?_⟩
  obtain ⟨outs, start, hstage⟩ | ⟨outs, hstage⟩ := hcontinues.stage_cases
  · rw [hstage] at hholds
    rw [Life.tokens, hstage]
    exact ⟨hholds.1, fun _ => ⟨_, _, hstage⟩, fun _ => hholds.2⟩
  · rw [hstage] at hholds
    rw [Life.tokens, hstage]
    refine ⟨hholds.1, fun hzero => absurd hzero hholds.2, ?_⟩
    rintro ⟨_, _, h⟩
    cases hstage.symm.trans h

/-- **A cached request** on all stages. -/
theorem updateCachedRequest_mirrors {last : Entry} {cachedReq : CachedRequest}
    (hcontinues : Continues cachedReq n before life)
    (hnew : cachedReq.newTokenIds = (life.tokens.drop cachedReq.numComputedTokens).take n)
    (hpos : 0 < n)
    (hdecode : ∀ outs, life.stage = .decoding outs →
      cachedReq.numComputedTokens + 1 = life.tokens.length)
    (hlast : EntryOf cachedReq.resumed.isSome before last) (hstage : Behind before entry last) :
    ∃ v₁ v₂ v', advancePpStageState cachedReq entry = .ok (v₁, []) ∧
      updateCachedRequest cachedReq v₁ = .ok (v₂, []) ∧
      updateCachedRequest cachedReq last = .ok (v', []) ∧ Updated life v₂ v' := by
  obtain ⟨v', hact', htracks, -⟩ := updateCachedRequest_ok hcontinues hlast
  obtain ⟨other', hother', hlen', htokens', hgen'⟩ := htracks.tokens hcontinues
  obtain ⟨b, rfl⟩ := Option.isSome_iff_exists.mp hcontinues.isSome
  obtain ⟨state, hstate, hlen, hlags, hgiven⟩ := hstage.state.state
  obtain ⟨other, hother, -⟩ := hlast.1.state
  have hawaiting : entry.awaitingReadmission = false := by
    refine hstage.awaiting.trans (hlast.2.trans ?_)
    cases hcontinues with
    | chunk prompt outs => rfl
    | decode prompt outs => rfl
    | resume prompt outs hresumed =>
      rw [hresumed]
      exact Bool.and_false _
  have hpromptLen : b.prompt = life.prompt := by cases hcontinues <;> rfl
  rw [hpromptLen] at hlen
  -- the broadcast leaves the state but for the tokens
  let next := appendBroadcast cachedReq.numComputedTokens cachedReq.newTokenIds state
  obtain ⟨hnextLen, hnextGiven⟩ := appendBroadcast_keeps cachedReq.numComputedTokens
    cachedReq.newTokenIds state
  let states₁ := entry.states.modify
    (appendBroadcast cachedReq.numComputedTokens cachedReq.newTokenIds)
  have hstates₁ : states₁.held = some next := by rw [state_modify, hstate, Option.map_some]
  have hadvance : advancePpStageState cachedReq entry =
    .ok ({ entry with states := states₁ }, []) := by
    simp only [advancePpStageState, hstate]
    rfl
  have hv₁ : ({ entry with states := states₁ } : Entry).state = some next := hstates₁
  cases hresumed : cachedReq.resumed with
  | none =>
    obtain ⟨htokens, hgen⟩ := advance_continues hcontinues hnew hpos hdecode hresumed hlen
      fun b' h => Option.some.inj h ▸ hlags
    obtain ⟨hextTokens, hextLen, hextGen⟩ := extendBlocks_keeps cachedReq.newBlockIds next
    have hgiven' : given other' = given (extendBlocks cachedReq.newBlockIds next) := by
      have hexplicit : updateCachedRequest cachedReq last = .ok ({ last with
          states := last.states.modify (extendBlocks cachedReq.newBlockIds) }, []) := by
        simp only [updateCachedRequest, hother, hresumed]
      obtain ⟨rfl, -⟩ := Prod.mk.inj (Except.ok.inj (hact'.symm.trans hexplicit))
      have hheld : (last.states.modify (extendBlocks cachedReq.newBlockIds)).held =
          some (extendBlocks cachedReq.newBlockIds other) := by
        rw [state_modify, hother, Option.map_some]
      obtain rfl := Option.some.inj (hother'.symm.trans hheld)
      exact given_extendBlocks ((hgiven other hother).trans hnextGiven.symm) _
    have hheld : (states₁.modify (extendBlocks cachedReq.newBlockIds)).held =
        some (extendBlocks cachedReq.newBlockIds next) := by
      rw [Slot.held_modify, hstates₁, Option.map_some]
    refine ⟨_, { entry with states := states₁.modify (extendBlocks cachedReq.newBlockIds) }, v',
      hadvance, ?_, hact', hstage.seqLen, hawaiting, _, other', hheld, hother',
      hextLen.trans (hnextLen.trans hlen), hlen', hextTokens.trans htokens, htokens', hgiven', ?_,
      hgen'⟩
    · simp only [updateCachedRequest, hv₁, hresumed]
    · rw [Counts, hextGen]
      exact hgen
  | some allTokenIds =>
    cases hcontinues with
    | chunk prompt outs hnone => cases hnone.symm.trans hresumed
    | decode prompt outs hnone => cases hnone.symm.trans hresumed
    | resume prompt outs hsome hblocks hpos' hinside =>
      obtain rfl := Option.some.inj (hsome.symm.trans hresumed)
      obtain ⟨blocks, hblocks⟩ := Option.ne_none_iff_exists'.mp hblocks
      have hgiven' : given other' = given (resumedState (prompt ++ outs) blocks next) := by
        have hexplicit : updateCachedRequest cachedReq last = .ok ({ last with
            states := last.states.modify (resumedState (prompt ++ outs) blocks)
            seqLen := none }, []) := by
          simp only [updateCachedRequest, hother, hresumed, hblocks]
        obtain ⟨rfl, -⟩ := Prod.mk.inj (Except.ok.inj (hact'.symm.trans hexplicit))
        have hheld : (last.states.modify (resumedState (prompt ++ outs) blocks)).held =
            some (resumedState (prompt ++ outs) blocks other) := by
          rw [state_modify, hother, Option.map_some]
        obtain rfl := Option.some.inj (hother'.symm.trans hheld)
        obtain ⟨hparams, -⟩ := Prod.mk.inj ((hgiven other hother).trans hnextGiven.symm)
        exact Prod.ext hparams rfl
      have hheld : (states₁.modify (resumedState (prompt ++ outs) blocks)).held =
          some (resumedState (prompt ++ outs) blocks next) := by
        rw [Slot.held_modify, hstates₁, Option.map_some]
      refine ⟨_, { entry with
          states := states₁.modify (resumedState (prompt ++ outs) blocks)
          seqLen := none }, v', hadvance, ?_, hact', rfl, hawaiting, _, other', hheld, hother',
        hnextLen.trans hlen, hlen', rfl, htokens', hgiven',
          ⟨fun _ => ⟨_, _, rfl⟩, fun _ => rfl⟩, hgen'⟩
      simp only [updateCachedRequest, hv₁, hresumed, hblocks]

/-! ### The batch -/

/-- The seeds of a stage without a sampler. -/
theorem seedPpStageStates_ok {newReqs : List NewRequestData}
    (hnodup : (newReqs.map NewRequestData.reqId).Nodup) (entries : Entries) :
    ∃ after nothing, forEach NewRequestData.reqId seedPpStageState newReqs entries =
        .ok (after, nothing) ∧
      (∀ newReq ∈ newReqs, after newReq.reqId = { entries newReq.reqId with
        states := (entries newReq.reqId).states.put (broadcastState newReq) }) ∧
      ∀ reqId ∉ newReqs.map NewRequestData.reqId, after reqId = entries reqId := by
  obtain ⟨after, outs, hloop, hmem, hframe⟩ := forEach_spec NewRequestData.reqId seedPpStageState
    (fun newReq entry _ => entry = { entries newReq.reqId with
      states := (entries newReq.reqId).states.put (broadcastState newReq) }) entries hnodup
    fun newReq _ => ⟨_, [], rfl, rfl⟩
  exact ⟨after, _, hloop, hmem, hframe⟩

/-- A known request has a state on all stages. -/
theorem Behind.isSome_state {last : Entry} (h : Behind before entry last) (hsome : before.isSome) :
    entry.state.isSome := by
  obtain ⟨life, rfl⟩ := Option.isSome_iff_exists.mp hsome
  obtain ⟨state, hstate, -⟩ := h.state.state
  rw [hstate]
  rfl

/-- The stages of `execute_model` on a stage without a sampler, given their loops. -/
theorem collectBatch_stage {entries₁ entries₂ entries₃ entries₄ entries₅ : Entries}
    {new cached seeds broadcasts updates : List Work}
    (hmissing : missingCachedStateReqIds out stage = [])
    (hsends : out.scheduledCachedReqs ≠ [] → out.sendsNewTokenIds = true)
    (hnew : forEach NewRequestData.reqId (handleNewRequest out.numScheduledTokens)
      out.scheduledNewReqs (reconcileRequestLifecycle out stage) = .ok (entries₁, new))
    (hseed : forEach NewRequestData.reqId seedPpStageState out.scheduledNewReqs entries₁ =
      .ok (entries₂, seeds))
    (hadvance : forEach CachedRequest.reqId advancePpStageState out.scheduledCachedReqs entries₂ =
      .ok (entries₃, broadcasts))
    (hupdate : forEach CachedRequest.reqId updateCachedRequest out.scheduledCachedReqs entries₃ =
      .ok (entries₄, updates))
    (hcollect : forEach CachedRequest.reqId (collectCachedRequest out.numScheduledTokens)
      out.scheduledCachedReqs entries₄ = .ok (entries₅, cached)) :
    collectBatch true out stage = .ok (entries₄, new ++ cached) := by
  have hpp : updatePpStageStates out entries₁ = .ok entries₃ := by
    simp only [updatePpStageStates, hseed]
    by_cases hsent : out.sendsNewTokenIds = true
    · simp only [hsent, Bool.not_true, Bool.false_eq_true, if_false, hadvance, Except.map]
    · -- there is nothing to advance
      have hnil : out.scheduledCachedReqs = [] := by
        by_contra hne
        exact hsent (hsends hne)
      rw [hnil] at hadvance
      cases hadvance
      rw [Bool.not_eq_true] at hsent
      simp only [hsent, Bool.not_false, if_true]
  simp only [collectBatch, hmissing, ne_eq, not_true_eq_false, if_false, handleNewRequests, hnew,
    if_true, hpp, updateCachedRequestBlocks, hupdate, collectCachedRequests, hcollect, Except.map]

/-- **A step has the same work on all stages**, and a stage without a sampler has caught up in
it. -/
theorem collectBatch_mirrors (hknown : Known lives last)
    (hstage : ∀ reqId, Behind (lives reqId) (stage reqId) (last reqId))
    (hsched : Scheduled lives out opened) (hbroadcast : Broadcast out opened) :
    ∃ stage' last' work, collectBatch true out stage = .ok (stage', work) ∧
      collectBatch false out last = .ok (last', work) ∧
      (∀ piece ∈ work, ∃ life, opened piece.reqId = some life ∧
        CaughtUp life piece (stage' piece.reqId) (last' piece.reqId)) ∧
      ∀ reqId ∉ out.scheduledReqIds, Behind (opened reqId) (stage' reqId) (last' reqId) := by
  obtain ⟨hnewNodup, hcachedNodup, hdisjoint⟩ := List.nodup_append.mp hsched.nodup
  have hreconciled := fun reqId => reconcile_behind out (hstage reqId)
  have hentry := fun reqId => reconcile_known out hknown hsched.preempted reqId
  -- the new requests
  obtain ⟨stage₁, last₁, outs₁, hnewStage, hnewLast, hnew, hframe₁, hframeLast₁⟩ := forEach_both
    NewRequestData.reqId (fun newReq outs v v' => ∃ piece life, outs = [piece] ∧
      opened newReq.reqId = some life ∧ piece.reqId = newReq.reqId ∧
      CaughtUp life piece { v with states := v.states.put (broadcastState newReq) } v')
    (reconcileRequestLifecycle out stage) (reconcileRequestLifecycle out last) hnewNodup
    fun newReq hmem => by
      obtain ⟨life, hopened, hadmits⟩ := hsched.new newReq hmem
      obtain ⟨hlen, htokens⟩ := hbroadcast.new newReq hmem life hopened
      have hlast := hentry newReq.reqId
      rw [notMem_resumedReqIds fun hin => hdisjoint _ (List.mem_map_of_mem hmem) _ hin rfl] at hlast
      obtain ⟨v, v', piece, hact, hact', hid, hcaught⟩ :=
        handleNewRequest_mirrors hadmits hlen htokens
        hlast (hreconciled newReq.reqId)
      exact ⟨v, v', [piece], hact, hact', piece, life, rfl, hopened, hid, hcaught⟩
  obtain ⟨stage₂, seeds, hseed, hseeded, hframe₂⟩ := seedPpStageStates_ok hnewNodup stage₁
  -- the cached requests
  have hcachedEntry : ∀ cachedReq ∈ out.scheduledCachedReqs,
      stage₂ cachedReq.reqId = reconcileRequestLifecycle out stage cachedReq.reqId ∧
        last₁ cachedReq.reqId = reconcileRequestLifecycle out last cachedReq.reqId := by
    intro cachedReq hmem
    have hnot : cachedReq.reqId ∉ out.scheduledNewReqs.map NewRequestData.reqId :=
      fun hin => hdisjoint _ hin _ (List.mem_map_of_mem hmem) rfl
    exact ⟨(hframe₂ _ hnot).trans (hframe₁ _ hnot), hframeLast₁ _ hnot⟩
  obtain ⟨stage₃, broadcasts, hadvance, hadvanced, hframe₃⟩ := forEach_spec CachedRequest.reqId
    advancePpStageState (fun cachedReq v _ => ∃ life v₂ v', opened cachedReq.reqId = some life ∧
      updateCachedRequest cachedReq v = .ok (v₂, []) ∧
      updateCachedRequest cachedReq (last₁ cachedReq.reqId) = .ok (v', []) ∧ Updated life v₂ v')
    stage₂ hcachedNodup fun cachedReq hmem => by
      obtain ⟨life, hopened, hcontinues⟩ := hsched.cached cachedReq hmem
      obtain ⟨hnewTokens, hpos, hdecode⟩ := hbroadcast.cached cachedReq hmem life hopened
      obtain ⟨hstageEq, hlastEq⟩ := hcachedEntry cachedReq hmem
      have hlast := hentry cachedReq.reqId
      rw [mem_resumedReqIds hsched.nodup hmem] at hlast
      obtain ⟨v₁, v₂, v', hact, hupdate, hupdate', hupdated⟩ :=
        updateCachedRequest_mirrors hcontinues
        hnewTokens hpos hdecode hlast (hreconciled cachedReq.reqId)
      rw [hstageEq, hlastEq]
      exact ⟨v₁, [], hact, life, v₂, v', hopened, hupdate, hupdate', hupdated⟩
  obtain ⟨stage₄, last₂, updates, hupdate, hupdateLast, hupdated, hframe₄, hframeLast₂⟩ :=
    forEach_both
    CachedRequest.reqId (fun cachedReq _ v v' => ∃ life, opened cachedReq.reqId = some life ∧
      Updated life v v') stage₃ last₁ hcachedNodup fun cachedReq hmem => by
      obtain ⟨life, v₂, v', hopened, hact, hact', hupdated⟩ := hadvanced cachedReq hmem
      exact ⟨v₂, v', [], hact, hact', life, hopened, hupdated⟩
  obtain ⟨stage₅, last₃, outs₂, hcollect, hcollectLast, hcollected, -, -⟩ := forEach_both
    CachedRequest.reqId (fun cachedReq outs _ _ => ∃ piece life, outs = [piece] ∧
      opened cachedReq.reqId = some life ∧ piece.reqId = cachedReq.reqId ∧
      CaughtUp life piece (stage₄ cachedReq.reqId) (last₂ cachedReq.reqId))
        stage₄ last₂ hcachedNodup
    fun cachedReq hmem => by
      obtain ⟨life, hopened, hupdated⟩ := hupdated cachedReq hmem
      obtain ⟨piece, hact, hact', hid, hcaught⟩ := hupdated.collect out.numScheduledTokens cachedReq
      exact ⟨_, _, [piece], hact, hact', piece, life, rfl, hopened, hid, hcaught⟩
  have hmissing := missingCachedStateReqIds_eq_nil (fun reqId => (hstage reqId).isSome_state) hsched
  have hmissingLast := missingCachedStateReqIds_eq_nil hknown.isSome_state hsched
  refine ⟨stage₄, last₂, _, collectBatch_stage hmissing hbroadcast.sends hnewStage hseed hadvance
    hupdate hcollect, ?_, ?_, ?_⟩
  · simp only [collectBatch, hmissingLast, ne_eq, not_true_eq_false, if_false, handleNewRequests,
      hnewLast, Bool.false_eq_true, updateCachedRequestBlocks, hupdateLast, collectCachedRequests,
      hcollectLast, Except.map]
  · intro piece hpiece
    rcases List.mem_append.mp hpiece with hin | hin
    · obtain ⟨newReq, hmem, hin⟩ := List.mem_flatMap.mp hin
      obtain ⟨piece', life, houts, hopened, hid, hcaught⟩ := hnew newReq hmem
      obtain rfl : piece = piece' := by rwa [houts, List.mem_singleton] at hin
      have hnot : newReq.reqId ∉ out.scheduledCachedReqs.map CachedRequest.reqId :=
        fun hin => hdisjoint _ (List.mem_map_of_mem hmem) _ hin rfl
      rw [hid, hframe₄ _ hnot, hframe₃ _ hnot, hseeded newReq hmem, hframeLast₂ _ hnot]
      exact ⟨life, hopened, hcaught⟩
    · obtain ⟨cachedReq, hmem, hin⟩ := List.mem_flatMap.mp hin
      obtain ⟨piece', life, houts, hopened, hid, hcaught⟩ := hcollected cachedReq hmem
      obtain rfl : piece = piece' := by rwa [houts, List.mem_singleton] at hin
      rw [hid]
      exact ⟨life, hopened, hcaught⟩
  · intro reqId hnot
    obtain ⟨hnotNew, hnotCached⟩ : reqId ∉ out.scheduledNewReqs.map NewRequestData.reqId ∧
        reqId ∉ out.scheduledCachedReqs.map CachedRequest.reqId := by
      rwa [SchedulerOutput.scheduledReqIds, List.mem_append, not_or] at hnot
    rw [hsched.other reqId hnot, hframe₄ _ hnotCached, hframe₃ _ hnotCached, hframe₂ _ hnotNew,
      hframe₁ _ hnotNew, hframeLast₂ _ hnotCached, hframeLast₁ _ hnotNew]
    exact hreconciled reqId

end PagedRunner
end VllmMetal
