import VllmMetal.PromptLogprobs.Runner

/-!
# The life of a request

The scheduler's side of a request: whether its prompt is being computed, whether it has an output,
whether it is preempted.  What the scheduler may hand over in a step is a relation on these lives,
and the runner's entry of a request follows its life.

## Main definitions

* `Life` — a request as the scheduler knows it, with the prompt rows seen so far and the tensors
  that were handed over.
* `Scheduled` — what a step may schedule.
* `TrackerOf`, `Tracks`, `Known` — the runner's entries follow the lives.
* `Queued` — an entry whose chunk is in the batch.

## Main results

* `handleNewRequest_ok`, `updateCachedRequest_ok`, `collectCachedRequest_ok`, `packPrefillEntry_ok`
  — one request through the lifecycle half of a step.
-/

namespace VllmMetal
namespace PromptLogprobs

open Logits SpecDecode

variable {H Row Scored : Type}

/-! ### Lives -/

/-- Where a request is. -/
inductive Stage where
  /-- The prompt and `outs` behind it are computed up to `computed`. -/
  | computing (outs : List Token) (computed : ℕ)
  | running
  | preempted (hasOutput : Bool)

/-- Whether the request has an output token. -/
def Stage.hasOutput : Stage → Bool
  | .computing outs _ => !outs.isEmpty
  | .running => true
  | .preempted hasOutput => hasOutput

/-- How much of the current pass over the tokens is done. -/
def Stage.computed : Stage → ℕ
  | .computing _ computed => computed
  | .running => 0
  | .preempted _ => 0

def Stage.isPreempted : Stage → Bool
  | .computing _ _ => false
  | .running => false
  | .preempted _ => true

/-- A request as the scheduler knows it.  `promptRows` is the logits row of each prompt position in
the last forward over it before the first output, and `delivered` are the tensors handed over. -/
structure Life (Row Scored : Type) where
  prompt : List Token
  promptLogprobs : Option ℤ
  stage : Stage
  promptRows : ℕ → Option Row
  delivered : List (LogprobsTensors Scored)

/-- The life of a preempted request. -/
def Life.preempt (life : Life Row Scored) : Life Row Scored :=
  { life with stage := .preempted life.stage.hasOutput }

/-- The life of a request that starts another pass over its tokens. -/
def Life.reopen (outs : List Token) (computed : ℕ) (life : Life Row Scored) : Life Row Scored :=
  { life with stage := .computing outs computed }

/-- The life of a request after `n` of its positions were forwarded, with these logits rows. -/
def Life.advance (n : ℕ) (rows : ℕ → Row) (life : Life Row Scored) : Life Row Scored :=
  match life.stage with
  | .computing outs start =>
      { life with
        stage := if start + n < (life.prompt ++ outs).length then .computing outs (start + n)
          else .running
        promptRows := fun i =>
          if outs = [] ∧ start ≤ i ∧ i < start + n then some (rows i) else life.promptRows i }
  | .running => life
  | .preempted _ => life

/-- The lives after the requests of a step are finished and preempted. -/
def reconciled (out : SchedulerOutput) (lives : ReqId → Option (Life Row Scored)) (reqId : ReqId) :
    Option (Life Row Scored) :=
  if reqId ∈ out.finishedReqIds then none
  else if reqId ∈ out.preemptedReqIds then (lives reqId).map Life.preempt
  else lives reqId

/-! ### What a step may schedule -/

/-- A chunk `[start, start + n)` of a request's tokens; a prompt-logprobs request never starts from
a prefix hit. -/
structure StartsAt (promptLogprobs : Option ℤ) (tokenIds : List Token) (start n : ℕ) : Prop where
  pos : 0 < n
  inside : start + n ≤ tokenIds.length
  cold : promptLogprobs ≠ none → start = 0

/-- What may be scheduled as a new request: one that is not known, or a preempted one with the
tokens it has so far. -/
inductive Admits (newReq : NewRequestData) (n : ℕ) :
    Option (Life Row Scored) → Life Row Scored → Prop
  | first (prompt : List Token) (hne : prompt ≠ []) (htokens : newReq.promptTokenIds = some prompt)
      (hchunk : StartsAt newReq.promptLogprobs prompt newReq.numComputedTokens n) :
      Admits newReq n none
        ⟨prompt, newReq.promptLogprobs, .computing [] newReq.numComputedTokens, fun _ => none, []⟩
  | again (life : Life Row Scored) (outs : List Token) (hasOutput : Bool)
      (hstage : life.stage = .preempted hasOutput)
      (htokens : newReq.promptTokenIds = some life.prompt)
      (hprefill : newReq.prefillTokenIds = life.prompt ++ outs)
      (hlen : newReq.promptLen = life.prompt.length)
      (hlogprobs : newReq.promptLogprobs = life.promptLogprobs)
      (houts : outs = [] ↔ hasOutput = false)
      (hchunk : StartsAt life.promptLogprobs (life.prompt ++ outs) newReq.numComputedTokens n) :
      Admits newReq n (some life) (life.reopen outs newReq.numComputedTokens)

/-- What may be scheduled as a cached request: the next chunk, a decode step, or the resumption of a
preempted one with the tokens it has so far. -/
inductive Continues (cachedReq : CachedRequest) (n : ℕ) :
    Option (Life Row Scored) → Life Row Scored → Prop
  | chunk (life : Life Row Scored) (outs : List Token)
      (hstage : life.stage = .computing outs cachedReq.numComputedTokens)
      (hresumed : cachedReq.resumed = none) (hpos : 0 < n)
      (hinside : cachedReq.numComputedTokens + n ≤ (life.prompt ++ outs).length) :
      Continues cachedReq n (some life) life
  | decode (life : Life Row Scored) (hstage : life.stage = .running)
      (hresumed : cachedReq.resumed = none) : Continues cachedReq n (some life) life
  | resume (life : Life Row Scored) (outs : List Token) (hasOutput : Bool)
      (hstage : life.stage = .preempted hasOutput)
      (hresumed : cachedReq.resumed = some (life.prompt ++ outs))
      (houts : outs = [] ↔ hasOutput = false)
      (hchunk : StartsAt life.promptLogprobs (life.prompt ++ outs) cachedReq.numComputedTokens n) :
      Continues cachedReq n (some life) (life.reopen outs cachedReq.numComputedTokens)

/-- The requests with tokens in a step. -/
def SchedulerOutput.scheduledReqIds (out : SchedulerOutput) : List ReqId :=
  out.scheduledNewReqs.map NewRequestData.reqId ++
    out.scheduledCachedReqs.map CachedRequest.reqId

/-- What a step may schedule, and the lives with the passes it starts.  A preempted request has the
outputs that were sampled for it: that the scheduler drops the first output of a request whose step
it preempts, after the runner has sampled it, is not part of the schedule. -/
structure Scheduled (lives : ReqId → Option (Life Row Scored)) (out : SchedulerOutput)
    (opened : ReqId → Option (Life Row Scored)) : Prop where
  nodup : out.scheduledReqIds.Nodup
  preempted : ∀ reqId ∈ out.preemptedReqIds, lives reqId ≠ none
  new : ∀ newReq ∈ out.scheduledNewReqs, ∃ life, opened newReq.reqId = some life ∧
    Admits newReq (out.numScheduledTokens newReq.reqId) (reconciled out lives newReq.reqId) life
  cached : ∀ cachedReq ∈ out.scheduledCachedReqs, ∃ life, opened cachedReq.reqId = some life ∧
    Continues cachedReq (out.numScheduledTokens cachedReq.reqId)
      (reconciled out lives cachedReq.reqId) life
  other : ∀ reqId ∉ out.scheduledReqIds, opened reqId = reconciled out lives reqId

/-! ### Entries follow lives -/

section Follows

variable (score : ℤ → Row → Token → Scored) (vocabSize : ℤ)

/-- The tensors of a prompt: for each position but the last, the row that was forwarded for it,
scored against the token behind it. -/
structure Delivered (k : ℤ) (life : Life Row Scored) (tensors : LogprobsTensors Scored) : Prop where
  length : tensors.length = life.prompt.length - 1
  row : ∀ i < life.prompt.length - 1, ∃ row, life.promptRows i = some row ∧
    tensors[i]? = some (some (score (resolveNumLogprobs k vocabSize) row
      (life.prompt.getD (i + 1) 0)))

/-- What the tracker has of a request whose prompt logprobs are owed: the chunks of the current
pass. -/
structure Owed (k : ℤ) (life : Life Row Scored) (tracked : TrackerEntry Scored) : Prop where
  delivered : life.delivered = []
  active : tracked.active = some k
  forwarded : ∀ i < life.stage.computed, (life.promptRows i).isSome
  progress : ∀ rows : ℕ → Row, (∀ i < life.stage.computed, life.promptRows i = some (rows i)) →
    InProgress score life.prompt vocabSize k rows life.stage.computed tracked

/-- What the tracker has of a request: nothing where no prompt logprobs are asked for, the chunks of
the current pass while they are owed, and nothing once they were handed over. -/
structure TrackerOf (life : Life Row Scored) (tracked : TrackerEntry Scored) : Prop where
  untracked : life.promptLogprobs = none → tracked = .none ∧ life.delivered = []
  owed : ∀ k, life.promptLogprobs = some k → life.stage.hasOutput = false →
    Owed score vocabSize k life tracked
  paid : ∀ k, life.promptLogprobs = some k → life.stage.hasOutput = true →
    tracked = .none ∧ ∃ tensors, life.delivered = [tensors] ∧
      Delivered score vocabSize k life tensors

/-- What the runner's state of a request says at a stage. -/
def Stage.Holds (prompt : List Token) (state : RequestRecord) : Stage → Prop
  | .computing outs _ => state.tokenIds = prompt ++ outs ∧ state.generatedTokens = 0
  | .running => 0 < state.generatedTokens
  | .preempted _ => True

/-- The entry of a request that the runner has a state of. -/
structure Tracks (life : Life Row Scored) (entry : RunnerEntry Scored) : Prop where
  prompt_ne : life.prompt ≠ []
  state : ∃ state, entry.state = some state ∧ state.promptLen = life.prompt.length ∧
    life.stage.Holds life.prompt state
  tracked : TrackerOf score vocabSize life entry.tracked

/-- The entry of a request: a preempted one awaits its re-admission, unless it is just resumed. -/
def EntryOf (resumed : Bool) : Option (Life Row Scored) → RunnerEntry Scored → Prop
  | none, entry => entry = .unknown
  | some life, entry => Tracks score vocabSize life entry ∧
      entry.awaitingReadmission = (life.stage.isPreempted && !resumed)

/-- The runner between two steps. -/
def Known (lives : ReqId → Option (Life Row Scored)) (runner : Runner Scored) : Prop :=
  ∀ reqId, EntryOf score vocabSize false (lives reqId) (runner reqId)

/-- A request with a chunk in the batch.  The state of a request that is new, and whose chunk is the
whole of it, is not there before its first token is sampled. -/
structure Queued (newReqs : List NewRequestData) (reqId : ReqId) (n : ℕ) (life : Life Row Scored)
    (outs : List Token) (start : ℕ) (entry : RunnerEntry Scored) (pending : PendingPrefillEntry) :
    Prop where
  prompt_ne : life.prompt ≠ []
  stage : life.stage = .computing outs start
  pos : 0 < n
  inside : start + n ≤ (life.prompt ++ outs).length
  chunk : ∃ sp final, final ≠ .intermediate ∧ pending =
    pendingChunk reqId (life.prompt ++ outs) life.prompt.length sp start n final
  tracked : TrackerOf score vocabSize life entry.tracked
  awaiting : entry.awaitingReadmission = false
  state : (∃ state, entry.state = some state ∧ state.promptLen = life.prompt.length ∧
      state.tokenIds = life.prompt ++ outs ∧ state.generatedTokens = 0 ∧
      (pending.resultMode = .intermediate ∨ pending.resultMode = .cachedFinal)) ∨
    (entry.state = none ∧ pending.resultMode = .newFinal ∧ outs = [] ∧
      start + n = life.prompt.length ∧ ∃ newReq ∈ newReqs, newReq.reqId = reqId ∧
        newReq.promptTokenIds = some life.prompt)

end Follows

variable {score : ℤ → Row → Token → Scored} {vocabSize : ℤ}
  {lives : ReqId → Option (Life Row Scored)}
  {runner : Runner Scored} {out : SchedulerOutput} {life : Life Row Scored}
  {entry : RunnerEntry Scored} {n : ℕ}

/-! ### Passes that start over -/

/-- A pass that starts over may overwrite whatever an earlier one has filled. -/
theorem InProgress.restart {prompt : List Token} {k : ℤ} {rows rows' : ℕ → Row} {done : ℕ}
    {tracked : TrackerEntry Scored} (h : InProgress score prompt vocabSize k rows done tracked) :
    InProgress score prompt vocabSize k rows' 0 tracked := by
  refine ⟨h.1, ?_⟩
  obtain ⟨hnone, -⟩ | ⟨acc, hacc, hnum, hfilled⟩ := h.2
  · exact Or.inl ⟨hnone, rfl⟩
  · exact Or.inr ⟨acc, hacc, hnum, hfilled.length, fun i hi => absurd hi (Nat.not_lt_zero i)⟩

/-- The rows of the current pass, with any row for the others. -/
theorem Owed.rows_eq {k : ℤ} {tracked : TrackerEntry Scored}
    (h : Owed score vocabSize k life tracked) (rows : ℕ → Row) :
    ∀ i < life.stage.computed, life.promptRows i = some ((life.promptRows i).getD (rows i)) := by
  intro i hi
  obtain ⟨row, hrow⟩ := Option.isSome_iff_exists.mp (h.forwarded i hi)
  rw [hrow, Option.getD_some]

/-- A stage that neither gains an output nor keeps any of the current pass. -/
theorem TrackerOf.restage {tracked : TrackerEntry Scored}
    (h : TrackerOf score vocabSize life tracked) {stage : Stage}
    (hout : stage.hasOutput = life.stage.hasOutput)
    (hcold : life.promptLogprobs ≠ none → stage.computed = 0) :
    TrackerOf score vocabSize { life with stage := stage } tracked where
  untracked hk := h.untracked hk
  owed k hk hno := by
    have howed := h.owed k hk (hout ▸ hno)
    have hzero := hcold (by rw [hk]; exact Option.some_ne_none k)
    refine ⟨howed.delivered, howed.active, fun i hi => absurd (hzero ▸ hi) (Nat.not_lt_zero i),
      fun rows _ => ?_⟩
    rw [hzero]
    exact (howed.progress _ (howed.rows_eq rows)).restart
  paid k hk hyes := by
    obtain ⟨hnone, tensors, hdelivered, hlen, hrow⟩ := h.paid k hk (hout ▸ hyes)
    exact ⟨hnone, tensors, hdelivered, hlen, hrow⟩

theorem hasOutput_computing {outs : List Token} {hasOutput : Bool} (computed : ℕ)
    (houts : outs = [] ↔ hasOutput = false) :
    (Stage.computing outs computed).hasOutput = hasOutput := by
  cases outs with
  | nil => rw [houts.mp rfl, Stage.hasOutput, List.isEmpty_nil, Bool.not_true]
  | cons t outs =>
    cases hasOutput with
    | true => rfl
    | false => exact absurd (houts.mpr rfl) (List.cons_ne_nil _ _)

/-- A preempted request that starts another pass. -/
theorem TrackerOf.reopen {tracked : TrackerEntry Scored}
    (h : TrackerOf score vocabSize life tracked) {outs : List Token} {hasOutput : Bool} {start : ℕ}
    (hstage : life.stage = .preempted hasOutput) (houts : outs = [] ↔ hasOutput = false)
    (hcold : life.promptLogprobs ≠ none → start = 0) :
    TrackerOf score vocabSize (life.reopen outs start) tracked :=
  h.restage ((hasOutput_computing start houts).trans (by rw [hstage]; rfl)) hcold

/-! ### Finished and preempted requests -/

/-- **The runner after the lifecycle was reconciled.** -/
theorem reconcile_known (out : SchedulerOutput) (hknown : Known score vocabSize lives runner)
    (hpreempted : ∀ reqId ∈ out.preemptedReqIds, lives reqId ≠ none) (reqId : ReqId) :
    EntryOf score vocabSize (decide (reqId ∈ out.resumedReqIds)) (reconciled out lives reqId)
      (reconcileRequestLifecycle out runner reqId) := by
  have hid := hknown reqId
  unfold reconciled reconcileRequestLifecycle EntryOf
  unfold EntryOf at hid
  by_cases hfin : reqId ∈ out.finishedReqIds
  · simp only [hfin, if_true, decide_true, Bool.not_true, Bool.and_false, Bool.false_and]
    rfl
  · simp only [hfin, if_false, decide_false, Bool.not_false, Bool.and_true]
    cases hlife : lives reqId with
    | none =>
      -- an unknown request is not preempted
      have hnot : reqId ∉ out.preemptedReqIds := fun hmem => hpreempted reqId hmem hlife
      rw [hlife] at hid
      simp only [hnot, if_false, decide_false, Bool.or_false, hid, RunnerEntry.unknown,
        Bool.false_and]
    | some life =>
      rw [hlife] at hid
      obtain ⟨⟨hne, ⟨state, hstate, hlen, hholds⟩, htracked⟩, hawaiting⟩ := hid
      by_cases hpre : reqId ∈ out.preemptedReqIds
      · simp only [hpre, if_true, decide_true, Bool.or_true, Bool.true_and, Option.map_some]
        exact ⟨⟨hne, ⟨state, hstate, hlen, trivial⟩, htracked.restage rfl fun _ => rfl⟩, rfl⟩
      · simp only [hpre, if_false, decide_false, Bool.or_false]
        exact ⟨⟨hne, ⟨state, hstate, hlen, hholds⟩, htracked⟩, by
          rw [hawaiting, Bool.not_false, Bool.and_true]⟩

/-! ### One request of the batch -/

/-- The result mode of a chunk. -/
theorem pendingChunk_resultMode {reqId : ReqId} {tokenIds : List Token} {promptLen start : ℕ}
    {sp : SamplingParams} {final : ResultMode} :
    (pendingChunk reqId tokenIds promptLen sp start n final).resultMode =
      if start + n < tokenIds.length then .intermediate else final := rfl

/-- A continuation is intermediate, or the end of a cached request. -/
theorem collectPrefillContinuation_resultMode {reqId : ReqId} {state : RequestRecord} {start : ℕ} :
    (collectPrefillContinuation reqId state start n).resultMode = .intermediate ∨
      (collectPrefillContinuation reqId state start n).resultMode = .cachedFinal := by
  rw [collectPrefillContinuation, pendingChunk_resultMode]
  split
  · exact Or.inl rfl
  · exact Or.inr rfl

/-- What the tracker has of a request that was just registered. -/
theorem TrackerOf.first {prompt : List Token} {k : Option ℤ} {start : ℕ} {rows : ℕ → Option Row}
    (hcold : k ≠ none → start = 0) :
    TrackerOf score vocabSize ⟨prompt, k, .computing [] start, rows, []⟩
      (TrackerEntry.none.registerRequest k) where
  untracked hk := by
    obtain rfl : k = none := hk
    exact ⟨rfl, rfl⟩
  owed k' hk _ := by
    obtain rfl : k = some k' := hk
    have hzero : start = 0 := hcold (Option.some_ne_none k')
    subst hzero
    exact ⟨rfl, rfl, fun i hi => absurd hi (Nat.not_lt_zero i), fun _ _ => ⟨rfl, Or.inl ⟨rfl, rfl⟩⟩⟩
  paid k' _ hyes := absurd hyes Bool.false_ne_true

/-- What the tracker has of a request that is registered again: it is, where the tokens are those of
the prompt alone, and these are still owed. -/
theorem TrackerOf.again {tracked : TrackerEntry Scored}
    (h : TrackerOf score vocabSize life tracked) {outs : List Token} {start : ℕ}
    (hstage : life.stage = .computing outs start) :
    (if (life.prompt ++ outs).length = life.prompt.length then
      tracked.registerRequest life.promptLogprobs else tracked) = tracked := by
  split
  · next hlen =>
    have hempty : outs = [] := by
      rw [List.length_append] at hlen
      exact List.eq_nil_of_length_eq_zero (by omega)
    cases hk : life.promptLogprobs with
    | none => rfl
    | some k =>
      have hactive := (h.owed k hk (by rw [hstage, hempty]; rfl)).active
      rw [TrackerEntry.registerRequest, TrackerEntry.register, ← hactive]
  · rfl

/-- What a queued chunk of the batch is, and what its request's entry says. -/
def QueuedAs (score : ℤ → Row → Token → Scored) (vocabSize : ℤ) (newReqs : List NewRequestData)
    (reqId : ReqId) (n : ℕ) (life : Life Row Scored) (entry : RunnerEntry Scored)
    (pending : PendingPrefillEntry) : Prop :=
  ∃ outs start, Queued score vocabSize newReqs reqId n life outs start entry pending

/-- **A new request**: it is admitted or re-admitted, and its chunk is queued. -/
theorem handleNewRequest_ok {num : ReqId → ℕ} {newReqs : List NewRequestData}
    {newReq : NewRequestData} (hmem : newReq ∈ newReqs) {before : Option (Life Row Scored)}
    (hadmits : Admits newReq (num newReq.reqId) before life)
    (hentry : EntryOf score vocabSize false before entry) :
    ∃ entry' pending, handleNewRequest num newReq entry = .ok (entry', [pending]) ∧
      QueuedAs score vocabSize newReqs newReq.reqId (num newReq.reqId) life entry' pending := by
  cases hadmits with
  -- an admission: the state is kept only while prompt tokens are left
  | first prompt hne htokens hchunk =>
    obtain rfl : entry = .unknown := hentry
    let state : Option RequestRecord :=
      if newReq.numComputedTokens + num newReq.reqId < prompt.length then
        some ⟨prompt, prompt.length, newReq.samplingParams, 0⟩ else none
    refine ⟨⟨state, TrackerEntry.none.registerRequest newReq.promptLogprobs, false⟩,
      pendingChunk newReq.reqId prompt prompt.length newReq.samplingParams newReq.numComputedTokens
        (num newReq.reqId) .newFinal, ?_, [], newReq.numComputedTokens, hne, rfl, hchunk.pos,
      (by rw [List.append_nil]; exact hchunk.inside),
        ⟨newReq.samplingParams, .newFinal, by decide, ?_⟩,
      TrackerOf.first hchunk.cold, rfl, ?_⟩
    · unfold handleNewRequest
      simp only [htokens, Option.getD_some, hne, if_false, RunnerEntry.unknown,
        Bool.false_eq_true]
      rfl
    · rw [List.append_nil]
    · by_cases hlt : newReq.numComputedTokens + num newReq.reqId < prompt.length
      · left
        exact ⟨⟨prompt, prompt.length, newReq.samplingParams, 0⟩, if_pos hlt, rfl,
          (List.append_nil prompt).symm, rfl, Or.inl (if_pos hlt)⟩
      · right
        exact ⟨if_neg hlt, if_neg hlt, rfl, Nat.le_antisymm hchunk.inside (Nat.le_of_not_lt hlt),
          newReq, hmem, rfl, htokens⟩
  -- a re-admission keeps the state, with the outputs behind the prompt
  | again life outs hasOutput hstage htokens hprefill hlen hlogprobs houts hchunk =>
    obtain ⟨⟨hne, ⟨state, hstate, -, -⟩, htracked⟩, hawaiting⟩ := hentry
    have hreopened := htracked.reopen hstage houts hchunk.cold
    let state : RequestRecord :=
      ⟨life.prompt ++ outs, life.prompt.length, newReq.samplingParams, 0⟩
    refine ⟨⟨some state, entry.tracked, false⟩, collectPrefillContinuation newReq.reqId state
        newReq.numComputedTokens (num newReq.reqId), ?_, outs, newReq.numComputedTokens, hne, rfl,
      hchunk.pos, hchunk.inside, ⟨newReq.samplingParams, .cachedFinal, by decide, rfl⟩,
        hreopened, rfl,
      Or.inl ⟨state, rfl, rfl, rfl, rfl, collectPrefillContinuation_resultMode⟩⟩
    unfold handleNewRequest readmitRequest
    rw [hstage] at hawaiting
    simp only [htokens, Option.getD_some, hne, if_false, hawaiting, Stage.isPreempted,
      hstate, hprefill, hlen, hlogprobs]
    exact congrArg (fun tracked => Except.ok ((⟨some state, tracked, false⟩ : RunnerEntry Scored),
      [collectPrefillContinuation newReq.reqId state newReq.numComputedTokens
        (num newReq.reqId)])) (hreopened.again rfl)

/-- **A cached request**: the state of a resumed one has the scheduler's tokens. -/
theorem updateCachedRequest_ok {cachedReq : CachedRequest} {before : Option (Life Row Scored)}
    (hcontinues : Continues cachedReq n before life)
    (hentry : EntryOf score vocabSize cachedReq.resumed.isSome before entry) :
    ∃ entry', updateCachedRequest cachedReq entry = .ok (entry', []) ∧
      Tracks score vocabSize life entry' ∧ entry'.awaitingReadmission = false := by
  cases hcontinues with
  | chunk _ outs hstage hresumed hpos hinside =>
    obtain ⟨htracks, hawaiting⟩ := hentry
    obtain ⟨state, hstate, -, -⟩ := htracks.state
    refine ⟨entry, ?_, htracks, by rw [hawaiting, hstage]; rfl⟩
    simp only [updateCachedRequest, hstate, hresumed]
  | decode _ hstage hresumed =>
    obtain ⟨htracks, hawaiting⟩ := hentry
    obtain ⟨state, hstate, -, -⟩ := htracks.state
    refine ⟨entry, ?_, htracks, by rw [hawaiting, hstage]; rfl⟩
    simp only [updateCachedRequest, hstate, hresumed]
  | resume life outs hasOutput hstage hresumed houts hchunk =>
    obtain ⟨⟨hne, ⟨state, hstate, hlen, -⟩, htracked⟩, hawaiting⟩ := hentry
    refine ⟨{ entry with
        state := some { state with tokenIds := life.prompt ++ outs, generatedTokens := 0 } }, ?_,
      ⟨hne, ⟨_, rfl, hlen, rfl, rfl⟩, htracked.reopen hstage houts hchunk.cold⟩, ?_⟩
    · simp only [updateCachedRequest, hstate, hresumed]
    · rw [hawaiting, hresumed, Option.isSome_some, Bool.not_true, Bool.and_false]

/-- What is collected for a cached request: a chunk of its tokens, or decode work. -/
def CollectedAs (score : ℤ → Row → Token → Scored) (vocabSize : ℤ) (newReqs : List NewRequestData)
    (reqId : ReqId) (n : ℕ) (life : Life Row Scored) (entry : RunnerEntry Scored) :
    CachedWork → Prop
  | .prefill pending => QueuedAs score vocabSize newReqs reqId n life entry pending
  | .decode id => id = reqId ∧ life.stage = .running ∧ Tracks score vocabSize life entry ∧
      entry.awaitingReadmission = false

/-- **Prefill continuation or decode work.** -/
theorem collectCachedRequest_ok {num : ReqId → ℕ} (newReqs : List NewRequestData)
    {cachedReq : CachedRequest} {before : Option (Life Row Scored)}
    (hcontinues : Continues cachedReq (num cachedReq.reqId) before life)
    (htracks : Tracks score vocabSize life entry) (hawaiting : entry.awaitingReadmission = false) :
    ∃ work, collectCachedRequest num cachedReq entry = .ok (entry, [work]) ∧
      CollectedAs score vocabSize newReqs cachedReq.reqId
        (num cachedReq.reqId) life entry work := by
  obtain ⟨state, hstate, hlen, hholds⟩ := htracks.state
  have hact : collectCachedRequest num cachedReq entry = .ok (entry,
      [if state.generatedTokens = 0 then .prefill (collectPrefillContinuation cachedReq.reqId state
          cachedReq.numComputedTokens (num cachedReq.reqId))
        else .decode cachedReq.reqId]) := by
    simp only [collectCachedRequest, hstate]
  -- a pass over the tokens has not generated any
  have hqueued : ∀ outs, life.stage = .computing outs cachedReq.numComputedTokens →
      0 < num cachedReq.reqId →
      cachedReq.numComputedTokens + num cachedReq.reqId ≤ (life.prompt ++ outs).length →
      ∃ work, collectCachedRequest num cachedReq entry = .ok (entry, [work]) ∧
        CollectedAs score vocabSize newReqs cachedReq.reqId (num cachedReq.reqId) life entry
          work := by
    intro outs hstage hpos hinside
    rw [hstage] at hholds
    refine ⟨_, hact, ?_⟩
    rw [if_pos hholds.2]
    refine ⟨outs, cachedReq.numComputedTokens, htracks.prompt_ne, hstage, hpos, hinside,
      ⟨state.samplingParams, .cachedFinal, by decide, ?_⟩, htracks.tracked, hawaiting,
      Or.inl ⟨state, hstate, hlen, hholds.1, hholds.2, collectPrefillContinuation_resultMode⟩⟩
    rw [collectPrefillContinuation, hholds.1, hlen]
  cases hcontinues with
  | chunk _ outs hstage hresumed hpos hinside => exact hqueued outs hstage hpos hinside
  | resume life outs hasOutput hstage hresumed houts hchunk =>
    exact hqueued outs rfl hchunk.pos hchunk.inside
  | decode _ hstage hresumed =>
    rw [hstage] at hholds
    refine ⟨_, hact, ?_⟩
    rw [if_neg (by exact (Int.ne_of_lt hholds).symm)]
    exact ⟨rfl, hstage, htracks, hawaiting⟩

/-- The one new request of an id. -/
theorem find?_reverse_of_mem {newReqs : List NewRequestData}
    (hnodup : (newReqs.map NewRequestData.reqId).Nodup) {newReq : NewRequestData}
    (hmem : newReq ∈ newReqs) {reqId : ReqId} (hid : newReq.reqId = reqId) :
    newReqs.reverse.find? (fun newReq => newReq.reqId = reqId) = some newReq := by
  cases hfound : newReqs.reverse.find? (fun newReq => newReq.reqId = reqId) with
  | none =>
    have hnot := List.find?_eq_none.mp hfound newReq (List.mem_reverse.mpr hmem)
    exact absurd (decide_eq_true hid) hnot
  | some other =>
    have hother : other.reqId = reqId := by simpa using List.find?_some hfound
    have hmem' : other ∈ newReqs := List.mem_reverse.mp (List.mem_of_find?_eq_some hfound)
    rw [List.inj_on_of_nodup_map hnodup hmem' hmem (hother.trans hid.symm)]

/-- The chunk of a request in the pack: the full prompt is there where prompt logprobs are
wanted. -/
def PackedAs (pending : PendingPrefillEntry) (life : Life Row Scored) (entry : RunnerEntry Scored)
    (packed : PrefillRequest) : Prop :=
  ∃ fullPrompt, packed = { pending.prefill with fullPromptTokenIds := fullPrompt } ∧
    (entry.tracked.wants → ∃ outs start, life.stage = .computing outs start ∧
      fullPrompt = some (life.prompt ++ outs))

/-- **The chunk of a queued request is packed.** -/
theorem packPrefillEntry_ok (isMmRequest : ReqId → Bool) {newReqs : List NewRequestData}
    (hnodup : (newReqs.map NewRequestData.reqId).Nodup) {pending : PendingPrefillEntry}
    (hqueued : QueuedAs score vocabSize newReqs pending.reqId n life entry pending) :
    ∃ packed, packPrefillEntry isMmRequest newReqs pending entry = .ok (entry, [packed]) ∧
      PackedAs pending life entry packed := by
  obtain ⟨outs, start, hqueued⟩ := hqueued
  by_cases hneeds : (decide (0 < pending.prefill.startPos) || isMmRequest pending.prefill.reqId ||
      entry.tracked.wants) = true
  · obtain ⟨state, hstate, -, htokens, -, -⟩ | ⟨hnone, -, rfl, -, newReq, hmem, hid, hprompt⟩ :=
      hqueued.state
    · refine ⟨{ pending.prefill with fullPromptTokenIds := some state.tokenIds }, ?_,
        some state.tokenIds, rfl, fun _ => ⟨outs, start, hqueued.stage, by rw [htokens]⟩⟩
      unfold packPrefillEntry
      rw [if_pos hneeds]
      simp only [hstate]
    · -- the request is new, and its state is not there yet
      have hfind : newReqs.reverse.find? (fun newReq => newReq.reqId = pending.prefill.reqId) =
          some newReq :=
        find?_reverse_of_mem hnodup hmem hid
      refine ⟨{ pending.prefill with fullPromptTokenIds := some life.prompt }, ?_,
        some life.prompt, rfl, fun _ => ⟨[], start, hqueued.stage, by rw [List.append_nil]⟩⟩
      unfold packPrefillEntry
      rw [if_pos hneeds]
      simp only [hnone, hfind, hprompt]
  · refine ⟨{ pending.prefill with fullPromptTokenIds := none }, ?_, none, rfl,
      fun hwants => absurd hwants ?_⟩
    · unfold packPrefillEntry
      rw [if_neg hneeds]
    · simp only [Bool.or_eq_true, not_or] at hneeds
      exact hneeds.2

/-- The id of a queued chunk. -/
theorem QueuedAs.reqId_eq {newReqs : List NewRequestData} {reqId : ReqId}
    {pending : PendingPrefillEntry}
    (h : QueuedAs score vocabSize newReqs reqId n life entry pending) : pending.reqId = reqId := by
  obtain ⟨outs, start, hqueued⟩ := h
  obtain ⟨sp, final, -, rfl⟩ := hqueued.chunk
  rfl

/-- The id of a piece of work. -/
theorem CollectedAs.reqId_eq {newReqs : List NewRequestData} {reqId : ReqId} {work : CachedWork}
    (h : CollectedAs score vocabSize newReqs reqId n life entry work) : work.reqId = reqId := by
  cases work with
  | prefill pending => exact QueuedAs.reqId_eq h
  | decode id => exact h.1

/-! ### The batch -/

/-- The batch of a step: its chunks belong to the requests whose passes go on, its decode work to
running ones, and the entries of all others are at rest. -/
structure BatchOf (score : ℤ → Row → Token → Scored) (vocabSize : ℤ) (out : SchedulerOutput)
    (opened : ReqId → Option (Life Row Scored)) (batch : ExecutionBatch Scored) : Prop where
  nodup : (batch.prefillEntries.map PendingPrefillEntry.reqId).Nodup
  decode_nodup : batch.decodeReqs.Nodup
  packed : List.Forall₂ (fun pending pr => pending.reqId ∈ out.scheduledReqIds ∧
      ∃ life, opened pending.reqId = some life ∧
        QueuedAs score vocabSize out.scheduledNewReqs pending.reqId
          (out.numScheduledTokens pending.reqId) life (batch.runner pending.reqId) pending ∧
        PackedAs pending life (batch.runner pending.reqId) pr)
    batch.prefillEntries batch.prefillPack
  decode : ∀ reqId ∈ batch.decodeReqs, ∃ life, opened reqId = some life ∧ life.stage = .running
  rest : ∀ reqId ∉ batch.prefillEntries.map PendingPrefillEntry.reqId,
    EntryOf score vocabSize false (opened reqId) (batch.runner reqId)
  running : ∀ reqId ∈ out.scheduledReqIds,
    reqId ∉ batch.prefillEntries.map PendingPrefillEntry.reqId →
      ∃ life, opened reqId = some life ∧ life.stage = .running

variable {opened : ReqId → Option (Life Row Scored)}

/-- A resumed request is cached. -/
theorem mem_resumedReqIds (hnodup : out.scheduledReqIds.Nodup) {cachedReq : CachedRequest}
    (hmem : cachedReq ∈ out.scheduledCachedReqs) :
    decide (cachedReq.reqId ∈ out.resumedReqIds) = cachedReq.resumed.isSome := by
  have hcached := (List.nodup_append.mp hnodup).2.1
  rw [SchedulerOutput.resumedReqIds]
  cases hresumed : cachedReq.resumed.isSome with
  | true =>
    refine decide_eq_true (List.mem_map_of_mem (List.mem_filter.mpr ⟨hmem, hresumed⟩))
  | false =>
    refine decide_eq_false fun hin => ?_
    obtain ⟨other, hother, hid⟩ := List.mem_map.mp hin
    obtain ⟨hin', hsome⟩ := List.mem_filter.mp hother
    rw [List.inj_on_of_nodup_map hcached hin' hmem hid, hresumed] at hsome
    exact Bool.false_ne_true hsome

/-- Only a known request continues. -/
theorem Continues.isSome {cachedReq : CachedRequest} {before : Option (Life Row Scored)}
    (h : Continues cachedReq n before life) : before.isSome := by
  cases h <;> rfl

/-- No scheduled cached request is missed. -/
theorem missingCachedStateReqIds_eq_nil (hknown : Known score vocabSize lives runner)
    (hsched : Scheduled lives out opened) : missingCachedStateReqIds out runner = [] := by
  rw [missingCachedStateReqIds, List.filter_eq_nil_iff]
  intro reqId hmem
  obtain ⟨cachedReq, hcached, rfl⟩ := List.mem_map.mp hmem
  obtain ⟨life, -, hcontinues⟩ := hsched.cached cachedReq hcached
  have hid := hknown cachedReq.reqId
  -- what continues is neither finished nor unknown
  obtain ⟨before, hbefore⟩ := Option.isSome_iff_exists.mp hcontinues.isSome
  unfold reconciled at hbefore
  by_cases hfin : cachedReq.reqId ∈ out.finishedReqIds
  · rw [if_pos hfin] at hbefore
    cases hbefore
  · cases hlife : lives cachedReq.reqId with
    | none =>
      rw [hlife] at hbefore
      simp [hfin] at hbefore
    | some life =>
      rw [hlife] at hid
      obtain ⟨state, hstate, -⟩ := hid.1.state
      simp [hfin, hstate]

/-- The new requests of a step. -/
theorem handleNewRequests_ok (hknown : Known score vocabSize lives runner)
    (hsched : Scheduled lives out opened) :
    ∃ runner' outs, forEach NewRequestData.reqId (handleNewRequest out.numScheduledTokens)
        out.scheduledNewReqs (reconcileRequestLifecycle out runner) =
          .ok (runner', out.scheduledNewReqs.flatMap outs) ∧
      (∀ newReq ∈ out.scheduledNewReqs, ∃ pending life, outs newReq = [pending] ∧
        opened newReq.reqId = some life ∧ QueuedAs score vocabSize out.scheduledNewReqs newReq.reqId
          (out.numScheduledTokens newReq.reqId) life (runner' newReq.reqId) pending) ∧
      ∀ reqId ∉ out.scheduledNewReqs.map NewRequestData.reqId,
        runner' reqId = reconcileRequestLifecycle out runner reqId := by
  obtain ⟨hnew, -, hdisjoint⟩ := List.nodup_append.mp hsched.nodup
  refine forEach_spec NewRequestData.reqId (handleNewRequest out.numScheduledTokens)
    (fun newReq entry pendings => ∃ pending life, pendings = [pending] ∧
      opened newReq.reqId = some life ∧ QueuedAs score vocabSize out.scheduledNewReqs newReq.reqId
        (out.numScheduledTokens newReq.reqId) life entry pending) _ hnew fun newReq hmem => ?_
  obtain ⟨life, hopened, hadmits⟩ := hsched.new newReq hmem
  -- a new request is not a resumed one
  have hresumed : decide (newReq.reqId ∈ out.resumedReqIds) = false := by
    refine decide_eq_false fun hin => ?_
    obtain ⟨cachedReq, hcached, hid⟩ := List.mem_map.mp hin
    exact hdisjoint _ (List.mem_map_of_mem hmem) _
      (List.mem_map_of_mem (List.mem_of_mem_filter hcached)) hid.symm
  have hentry := reconcile_known out hknown hsched.preempted newReq.reqId
  rw [hresumed] at hentry
  obtain ⟨entry', pending, hact, hqueued⟩ := handleNewRequest_ok hmem hadmits hentry
  exact ⟨entry', [pending], hact, pending, life, rfl, hopened, hqueued⟩

/-- The cached requests of a step. -/
theorem cachedRequests_ok (hknown : Known score vocabSize lives runner)
    (hsched : Scheduled lives out opened) {runner₁ : Runner Scored}
    (hframe : ∀ reqId ∉ out.scheduledNewReqs.map NewRequestData.reqId,
      runner₁ reqId = reconcileRequestLifecycle out runner reqId) :
    ∃ runner₂ runner' nothing outs,
      forEach CachedRequest.reqId updateCachedRequest out.scheduledCachedReqs runner₁ =
        .ok (runner₂, nothing) ∧
      forEach CachedRequest.reqId (collectCachedRequest out.numScheduledTokens)
        out.scheduledCachedReqs runner₂ = .ok (runner', out.scheduledCachedReqs.flatMap outs) ∧
      (∀ cachedReq ∈ out.scheduledCachedReqs, ∃ work life, outs cachedReq = [work] ∧
        opened cachedReq.reqId = some life ∧ CollectedAs score vocabSize out.scheduledNewReqs
          cachedReq.reqId (out.numScheduledTokens cachedReq.reqId) life (runner' cachedReq.reqId)
          work) ∧
      ∀ reqId ∉ out.scheduledCachedReqs.map CachedRequest.reqId, runner' reqId = runner₁ reqId := by
  obtain ⟨-, hcached, hdisjoint⟩ := List.nodup_append.mp hsched.nodup
  -- the states first
  obtain ⟨runner₂, nothing, hupdate, hupdated, hframe₂⟩ := forEach_spec CachedRequest.reqId
    updateCachedRequest (fun cachedReq entry _ => ∃ life, opened cachedReq.reqId = some life ∧
      Continues cachedReq (out.numScheduledTokens cachedReq.reqId)
        (reconciled out lives cachedReq.reqId) life ∧
      Tracks score vocabSize life entry ∧ entry.awaitingReadmission = false) runner₁ hcached
    fun cachedReq hmem => by
      obtain ⟨life, hopened, hcontinues⟩ := hsched.cached cachedReq hmem
      have hentry := reconcile_known out hknown hsched.preempted cachedReq.reqId
      rw [mem_resumedReqIds hsched.nodup hmem, ← hframe _ fun hin =>
        hdisjoint _ hin _ (List.mem_map_of_mem hmem) rfl] at hentry
      obtain ⟨entry', hact, htracks, hawaiting⟩ := updateCachedRequest_ok hcontinues hentry
      exact ⟨entry', [], hact, life, hopened, hcontinues, htracks, hawaiting⟩
  -- then the chunks
  obtain ⟨runner', outs, hcollect, hcollected, hframe'⟩ := forEach_spec CachedRequest.reqId
    (collectCachedRequest out.numScheduledTokens)
    (fun cachedReq entry works => ∃ work life, works = [work] ∧
      opened cachedReq.reqId = some life ∧ CollectedAs score vocabSize out.scheduledNewReqs
        cachedReq.reqId (out.numScheduledTokens cachedReq.reqId) life entry work) runner₂ hcached
    fun cachedReq hmem => by
      obtain ⟨life, hopened, hcontinues, htracks, hawaiting⟩ := hupdated cachedReq hmem
      obtain ⟨work, hact, hwork⟩ := collectCachedRequest_ok out.scheduledNewReqs hcontinues htracks
        hawaiting
      exact ⟨_, [work], hact, work, life, rfl, hopened, hwork⟩
  exact ⟨runner₂, runner', _, outs, hupdate, hcollect, hcollected, fun reqId hnot =>
    (hframe' reqId hnot).trans (hframe₂ reqId hnot)⟩

/-- The chunks among pieces of work. -/
theorem sublist_prefills (work : List CachedWork) :
    ((work.filterMap CachedWork.prefill?).map PendingPrefillEntry.reqId).Sublist
      (work.map CachedWork.reqId) := by
  induction work with
  | nil => exact List.Sublist.refl _
  | cons piece work ih =>
    cases piece with
    | prefill pending => exact ih.cons_cons _
    | decode reqId => exact ih.cons _

/-- The decode work among pieces of work. -/
theorem sublist_decodes (work : List CachedWork) :
    (work.filterMap CachedWork.decode?).Sublist (work.map CachedWork.reqId) := by
  induction work with
  | nil => exact List.Sublist.refl _
  | cons piece work ih =>
    cases piece with
    | prefill pending => exact ih.cons _
    | decode reqId => exact ih.cons_cons _

/-- **The lifecycle half of a step**: it does not raise, and its batch is that of the schedule. -/
theorem executeModel_ok (isMmRequest : ReqId → Bool) (hknown : Known score vocabSize lives runner)
    (hsched : Scheduled lives out opened) :
    ∃ batch, executeModel isMmRequest out runner = .ok batch ∧
      BatchOf score vocabSize out opened batch := by
  obtain ⟨hnewNodup, hcachedNodup, hdisjoint⟩ := List.nodup_append.mp hsched.nodup
  obtain ⟨runner₁, outs₁, hloop₁, hnew, hframe₁⟩ := handleNewRequests_ok hknown hsched
  obtain ⟨runner₂, runner₃, nothing, outs₃, hloop₂, hloop₃, hcached, hframe₃⟩ :=
    cachedRequests_ok hknown hsched hframe₁
  let work := out.scheduledCachedReqs.flatMap outs₃
  let entries := out.scheduledNewReqs.flatMap outs₁ ++ work.filterMap CachedWork.prefill?
  -- the entry of a new request is that of its admission
  have hnew₃ : ∀ newReq ∈ out.scheduledNewReqs, runner₃ newReq.reqId = runner₁ newReq.reqId :=
    fun newReq hmem => hframe₃ _ fun hin => hdisjoint _ (List.mem_map_of_mem hmem) _ hin rfl
  have hwork : ∀ piece ∈ work, ∃ cachedReq ∈ out.scheduledCachedReqs, ∃ life,
      outs₃ cachedReq = [piece] ∧ opened cachedReq.reqId = some life ∧
      CollectedAs score vocabSize out.scheduledNewReqs cachedReq.reqId
        (out.numScheduledTokens cachedReq.reqId) life (runner₃ cachedReq.reqId) piece := by
    intro piece hpiece
    obtain ⟨cachedReq, hmem, hin⟩ := List.mem_flatMap.mp hpiece
    obtain ⟨piece', life, houts, hopened, hcollected⟩ := hcached cachedReq hmem
    obtain rfl : piece = piece' := by rwa [houts, List.mem_singleton] at hin
    exact ⟨cachedReq, hmem, life, houts, hopened, hcollected⟩
  -- every chunk is queued for its request
  have hqueued : ∀ pending ∈ entries, pending.reqId ∈ out.scheduledReqIds ∧
      ∃ life, opened pending.reqId = some life ∧
        QueuedAs score vocabSize out.scheduledNewReqs pending.reqId
          (out.numScheduledTokens pending.reqId) life (runner₃ pending.reqId) pending := by
    intro pending hpending
    rcases List.mem_append.mp hpending with hin | hin
    · obtain ⟨newReq, hmem, hin⟩ := List.mem_flatMap.mp hin
      obtain ⟨pending', life, houts, hopened, hqueued⟩ := hnew newReq hmem
      obtain rfl : pending = pending' := by rwa [houts, List.mem_singleton] at hin
      rw [hqueued.reqId_eq]
      refine ⟨List.mem_append_left _ (List.mem_map_of_mem hmem), life, hopened, ?_⟩
      rw [hnew₃ newReq hmem]
      exact hqueued
    · obtain ⟨piece, hpiece, hprefill⟩ := List.mem_filterMap.mp hin
      obtain ⟨cachedReq, hmem, life, -, hopened, hcollected⟩ := hwork piece hpiece
      cases piece with
      | decode => cases hprefill
      | prefill pending' =>
        obtain rfl : pending' = pending := Option.some.inj hprefill
        have hqueued : QueuedAs score vocabSize _ _ _ _ _ _ := hcollected
        rw [hqueued.reqId_eq]
        exact ⟨List.mem_append_right _ (List.mem_map_of_mem hmem), life, hopened, hqueued⟩
  -- and no request has two
  have hworkIds : (work.map CachedWork.reqId).Sublist
      (out.scheduledCachedReqs.map CachedRequest.reqId) := by
    refine sublist_flatMap_keys fun cachedReq hmem => Or.inr ?_
    obtain ⟨piece, life, houts, -, hcollected⟩ := hcached cachedReq hmem
    exact ⟨piece, houts, hcollected.reqId_eq⟩
  have hentriesIds : (entries.map PendingPrefillEntry.reqId).Sublist out.scheduledReqIds := by
    rw [List.map_append]
    refine List.Sublist.append (sublist_flatMap_keys fun newReq hmem => Or.inr ?_)
      ((sublist_prefills work).trans hworkIds)
    obtain ⟨pending, life, houts, -, hqueued⟩ := hnew newReq hmem
    exact ⟨pending, houts, hqueued.reqId_eq⟩
  have hentriesNodup := hentriesIds.nodup hsched.nodup
  -- a cached request without a chunk is running
  have hdecode : ∀ cachedReq ∈ out.scheduledCachedReqs,
      cachedReq.reqId ∉ entries.map PendingPrefillEntry.reqId → ∃ life,
        opened cachedReq.reqId = some life ∧ life.stage = .running ∧
        Tracks score vocabSize life (runner₃ cachedReq.reqId) ∧
        (runner₃ cachedReq.reqId).awaitingReadmission = false := by
    intro cachedReq hmem hnot
    obtain ⟨piece, life, houts, hopened, hcollected⟩ := hcached cachedReq hmem
    cases piece with
    | decode => exact ⟨life, hopened, hcollected.2⟩
    | prefill pending =>
      refine absurd (List.mem_map.mpr ⟨pending, ?_, QueuedAs.reqId_eq hcollected⟩) hnot
      refine List.mem_append_right _ (List.mem_filterMap.mpr ⟨.prefill pending, ?_, rfl⟩)
      exact List.mem_flatMap.mpr ⟨cachedReq, hmem, houts ▸ List.mem_singleton_self _⟩
  have hnewMem : ∀ newReq ∈ out.scheduledNewReqs,
      newReq.reqId ∈ entries.map PendingPrefillEntry.reqId := by
    intro newReq hmem
    obtain ⟨pending, life, houts, -, hqueued⟩ := hnew newReq hmem
    refine List.mem_map.mpr ⟨pending, List.mem_append_left _ (List.mem_flatMap.mpr
      ⟨newReq, hmem, houts ▸ List.mem_singleton_self _⟩), hqueued.reqId_eq⟩
  obtain ⟨runner₄, outs₄, hloop₄, hpack, hframe₄⟩ := forEach_spec PendingPrefillEntry.reqId
    (packPrefillEntry isMmRequest out.scheduledNewReqs)
    (fun pending entry packs => entry = runner₃ pending.reqId ∧ ∃ packed life, packs = [packed] ∧
      opened pending.reqId = some life ∧ PackedAs pending life entry packed) runner₃ hentriesNodup
    fun pending hmem => by
      obtain ⟨-, life, hopened, hqueued⟩ := hqueued pending hmem
      obtain ⟨packed, hact, hpacked⟩ := packPrefillEntry_ok isMmRequest hnewNodup hqueued
      exact ⟨_, [packed], hact, rfl, packed, life, rfl, hopened, hpacked⟩
  obtain rfl : runner₄ = runner₃ := by
    funext reqId
    by_cases hin : reqId ∈ entries.map PendingPrefillEntry.reqId
    · obtain ⟨pending, hmem, rfl⟩ := List.mem_map.mp hin
      exact (hpack pending hmem).1
    · exact hframe₄ reqId hin
  refine ⟨⟨runner₄, entries, work.filterMap CachedWork.decode?, entries.flatMap outs₄⟩, ?_,
    hentriesNodup, ((sublist_decodes work).trans hworkIds).nodup hcachedNodup, ?_, ?_, ?_, ?_⟩
  · unfold executeModel
    simp only [missingCachedStateReqIds_eq_nil hknown hsched, ne_eq, not_true_eq_false, if_false,
      hloop₁, hloop₂, hloop₃]
    rw [hloop₄]
  · refine forall₂_flatMap fun pending hmem => ?_
    obtain ⟨hin, life, hopened, hqueued⟩ := hqueued pending hmem
    obtain ⟨-, packed, life', houts, hopened', hpacked⟩ := hpack pending hmem
    obtain rfl : life = life' := Option.some.inj (hopened.symm.trans hopened')
    exact ⟨packed, houts, hin, life, hopened, hqueued, hpacked⟩
  · intro reqId hmem
    obtain ⟨piece, hpiece, hdec⟩ := List.mem_filterMap.mp hmem
    obtain ⟨cachedReq, -, life, -, hopened, hcollected⟩ := hwork piece hpiece
    cases piece with
    | prefill => cases hdec
    | decode id =>
      obtain rfl : id = reqId := Option.some.inj hdec
      obtain ⟨rfl, hstage, -⟩ := hcollected
      exact ⟨life, hopened, hstage⟩
  · intro reqId hnot
    by_cases hin : reqId ∈ out.scheduledCachedReqs.map CachedRequest.reqId
    · obtain ⟨cachedReq, hmem, rfl⟩ := List.mem_map.mp hin
      obtain ⟨life, hopened, hstage, htracks, hawaiting⟩ := hdecode cachedReq hmem hnot
      rw [hopened]
      exact ⟨htracks, by rw [hawaiting, hstage]; rfl⟩
    · have hnotNew : reqId ∉ out.scheduledNewReqs.map NewRequestData.reqId := by
        intro hin'
        obtain ⟨newReq, hmem, rfl⟩ := List.mem_map.mp hin'
        exact hnot (hnewMem newReq hmem)
      have hresumed : decide (reqId ∈ out.resumedReqIds) = false := by
        refine decide_eq_false fun hin' => ?_
        obtain ⟨cachedReq, hmem, rfl⟩ := List.mem_map.mp hin'
        exact hin (List.mem_map_of_mem (List.mem_of_mem_filter hmem))
      have hentry := reconcile_known out hknown hsched.preempted reqId
      rw [hresumed, ← hframe₁ reqId hnotNew, ← hframe₃ reqId hin] at hentry
      rw [hsched.other reqId (by rw [SchedulerOutput.scheduledReqIds, List.mem_append]; tauto)]
      exact hentry
  · intro reqId hin hnot
    rcases List.mem_append.mp hin with hin | hin
    · obtain ⟨newReq, hmem, rfl⟩ := List.mem_map.mp hin
      exact absurd (hnewMem newReq hmem) hnot
    · obtain ⟨cachedReq, hmem, rfl⟩ := List.mem_map.mp hin
      obtain ⟨life, hopened, hstage, -⟩ := hdecode cachedReq hmem hnot
      exact ⟨life, hopened, hstage⟩

end PromptLogprobs
end VllmMetal
