import VllmMetal.PromptLogprobs.Schedule

/-!
# Prompt logprobs over the life of a request

A request may be preempted any number of times before its first output, by a resumption or by a
re-admission, and start over with any other chunks.  The tracker hands the tensors over once, with
the chunk that reaches the end of the prompt, and is done with the request from then on.

## Main definitions

* `nextLives` — the lives after a step.
* `Run` — the runner and the lives after steps that follow the schedule.

## Main results

* `gatherChunk_ok`, `postprocessChunk_ok` — one chunk through the sampling half of a step.
* `samplePagedBatch_ok` — the sampling half.
* `prompt_logprobs_delivered_once` — what holds after every run.
-/

namespace VllmMetal
namespace PromptLogprobs

open Logits SpecDecode

variable {H Row Scored : Type}

/-! ### The rows of a chunk -/

theorem Runner.wants_of_mem {runner : Runner Scored} {pack : List PrefillRequest}
    {pr : PrefillRequest} (hmem : pr ∈ pack) (hwants : (runner pr.reqId).tracked.wants) :
    needsPromptLogprobRows runner.wants pack = true :=
  List.any_eq_true.mpr ⟨pr, hmem, hwants⟩

/-- **A step that wants prompt logprobs projects every row**, and each chunk finds its own. -/
theorem stepLogits_of_wants (cfg : RunnerConfig H Row Scored) (forward : StepForward H)
    {batch : ExecutionBatch Scored} {pr : PrefillRequest} {i : ℕ}
    (hi : batch.prefillPack[i]? = some pr) (hwants : (batch.runner pr.reqId).tracked.wants) :
    ∃ rows, (stepLogits cfg forward batch).1 = some rows ∧
      (stepLogits cfg forward batch).2.getD (forward.segments.length + i + 1) 0 -
        (stepLogits cfg forward batch).2.getD (forward.segments.length + i) 0 = pr.tokenIds.length ∧
      segmentRows (stepLogits cfg forward batch).2 rows (forward.segments.length + i) =
        (List.range pr.tokenIds.length).map fun j =>
          cfg.head (forward.hidden pr.reqId (pr.startPos + j)) := by
  have hneeds := Runner.wants_of_mem (List.mem_of_getElem? hi) hwants
  have hlogits : stepLogits cfg forward batch =
      (some (projectLogits cfg.head (forward.packedHidden batch.prefillPack) none),
        packedSeqlens forward.segments batch.prefillPack) := by
    unfold stepLogits
    simp only [hneeds, Bool.not_true, Bool.and_false, Bool.false_eq_true, if_false,
      stepLogitsLayout_of_needs]
  rw [hlogits]
  -- the packed rows, one segment after the other
  let pieces : List (PagedDecodeSegment ⊕ PrefillRequest) :=
    forward.segments.map Sum.inl ++ batch.prefillPack.map Sum.inr
  let rowsOf : PagedDecodeSegment ⊕ PrefillRequest → List Row := fun piece => match piece with
    | .inl segment =>
        (forward.span segment.reqId segment.cacheStartPos segment.numQueryTokens).map cfg.head
    | .inr pr => (forward.span pr.reqId pr.startPos pr.tokenIds.length).map cfg.head
  have hpiece : pieces[forward.segments.length + i]? = some (.inr pr) := by
    rw [List.getElem?_append_right (by rw [List.length_map]; omega), List.length_map,
      Nat.add_sub_cancel_left, List.getElem?_map, hi, Option.map_some]
  have hlens : pieces.map (fun piece => (rowsOf piece).length) =
      segmentLens forward.segments ++ chunkLens batch.prefillPack := by
    simp [pieces, rowsOf, segmentLens, chunkLens, StepForward.span, Function.comp_def]
  have hrows : pieces.flatMap rowsOf =
      projectLogits cfg.head (forward.packedHidden batch.prefillPack) none := by
    simp [pieces, rowsOf, projectLogits, StepForward.packedHidden, List.flatMap_append,
      List.map_flatMap, List.flatMap_map]
  have hrowsOf : rowsOf (.inr pr) = (List.range pr.tokenIds.length).map fun j =>
      cfg.head (forward.hidden pr.reqId (pr.startPos + j)) := by
    simp [rowsOf, StepForward.span, Function.comp_def]
  refine ⟨_, rfl, ?_, ?_⟩
  · simp only [packedSeqlens_eq, ← hlens]
    refine getD_boundaries_sub ?_
    rw [List.getElem?_map, hpiece, Option.map_some, hrowsOf, List.length_map, List.length_range]
  · simp only [packedSeqlens_eq, ← hlens, ← hrows]
    rw [segmentRows_flatMap hpiece, hrowsOf]

/-! ### One chunk -/

variable {score : ℤ → Row → Token → Scored} {vocabSize : ℤ} {life : Life Row Scored}
  {entry : RunnerEntry Scored} {n : ℕ}

theorem Filled.congr {k : ℤ} {prompt : List Token} {rows rows' : ℕ → Row} {done : ℕ}
    {tensors : LogprobsTensors Scored} (h : Filled score k prompt rows done tensors)
    (hrows : ∀ i < done, rows i = rows' i) : Filled score k prompt rows' done tensors :=
  ⟨h.length, fun i hi hbound => by rw [h.filled i hi hbound, hrows i hi]⟩

theorem InProgress.congr {k : ℤ} {prompt : List Token} {rows rows' : ℕ → Row} {done : ℕ}
    {tracked : TrackerEntry Scored} (h : InProgress score prompt vocabSize k rows done tracked)
    (hrows : ∀ i < done, rows i = rows' i) :
    InProgress score prompt vocabSize k rows' done tracked := by
  obtain ⟨hactive, hzero | ⟨acc, hacc, hnum, hfilled⟩⟩ := h
  · exact ⟨hactive, Or.inl hzero⟩
  · exact ⟨hactive, Or.inr ⟨acc, hacc, hnum, hfilled.congr hrows⟩⟩

/-- A request that asks for prompt logprobs is wanted exactly while they are owed. -/
theorem TrackerOf.wants_iff {tracked : TrackerEntry Scored}
    (h : TrackerOf score vocabSize life tracked) :
    tracked.wants = true ↔ life.promptLogprobs ≠ none ∧ life.stage.hasOutput = false := by
  cases hk : life.promptLogprobs with
  | none => simp [(h.untracked hk).1, TrackerEntry.wants, TrackerEntry.none]
  | some k =>
    cases hout : life.stage.hasOutput with
    | true => simp [(h.paid k hk hout).1, TrackerEntry.wants, TrackerEntry.none]
    | false => simp [(h.owed k hk hout).active, TrackerEntry.wants]

/-- The life after a chunk. -/
theorem Life.advance_computing {outs : List Token} {start : ℕ}
    (hstage : life.stage = .computing outs start) (n : ℕ) (rows : ℕ → Row) :
    life.advance n rows = { life with
      stage := if start + n < (life.prompt ++ outs).length then .computing outs (start + n)
        else .running
      promptRows := fun i =>
        if outs = [] ∧ start ≤ i ∧ i < start + n then some (rows i) else life.promptRows i } := by
  rw [Life.advance, hstage]

/-- The entry a chunk is gathered for says what its tracker does, whatever the chunk puts out. -/
def GatheredAs (score : ℤ → Row → Token → Scored) (vocabSize : ℤ) (n : ℕ) (rows : ℕ → Row)
    (life : Life Row Scored) (tracked : TrackerEntry Scored)
    (dict : List (LogprobsTensors Scored)) : Prop :=
  TrackerOf score vocabSize
    { life.advance n rows with delivered := life.delivered ++ dict } tracked

section Chunk

variable {newReqs : List NewRequestData} {reqId : ReqId} {outs : List Token} {start : ℕ}
  {pending : PendingPrefillEntry} {pr : PrefillRequest} {rows : ℕ → Row}

/-- The chunk of a queued request in the pack. -/
theorem Queued.packed
    (hqueued : Queued score vocabSize newReqs reqId n life outs start entry pending)
    (hpacked : PackedAs pending life entry pr) :
    pr.reqId = reqId ∧ pr.startPos = start ∧ pr.tokenIds.length = n := by
  obtain ⟨sp, final, -, rfl⟩ := hqueued.chunk
  obtain ⟨fullPrompt, rfl, -⟩ := hpacked
  refine ⟨rfl, rfl, ?_⟩
  have hinside := hqueued.inside
  simp only [pendingChunk, List.length_drop, List.length_take]
  omega

/-- A chunk that is not wanted leaves what the tracker has. -/
theorem GatheredAs.of_not_wants {tracked : TrackerEntry Scored}
    (h : TrackerOf score vocabSize life tracked) (hstage : life.stage = .computing outs start)
    (hwants : ¬tracked.wants = true) : GatheredAs score vocabSize n rows life tracked [] := by
  rw [h.wants_iff] at hwants
  have hpaid : ∀ k, life.promptLogprobs = some k → life.stage.hasOutput = true := by
    intro k hk
    by_contra hno
    exact hwants ⟨by rw [hk]; exact Option.some_ne_none k, by simpa using hno⟩
  rw [GatheredAs, Life.advance_computing hstage, List.append_nil]
  refine ⟨h.untracked, fun k hk hno => ?_, fun k hk _ => ?_⟩
  · -- a request with an output keeps it
    have hyes := hpaid k hk
    rw [hstage] at hyes
    simp only at hno
    split at hno
    · exact absurd (hno.symm.trans hyes) Bool.false_ne_true
    · exact absurd hno Bool.noConfusion
  · obtain ⟨hnone, tensors, hdelivered, hlen, hrow⟩ := h.paid k hk (hpaid k hk)
    have hne : outs ≠ [] := by
      rintro rfl
      have hyes := hpaid k hk
      rw [hstage] at hyes
      exact Bool.false_ne_true hyes
    refine ⟨hnone, tensors, hdelivered, hlen, fun i hi => ?_⟩
    obtain ⟨row, hrow, htensor⟩ := hrow i hi
    exact ⟨row, (if_neg fun h => hne h.1).trans hrow, htensor⟩

/-- The rows of the prompt after a chunk of it. -/
theorem advance_promptRows {k : ℤ} {tracked : TrackerEntry Scored}
    (howed : Owed score vocabSize k life tracked) (hstage : life.stage = .computing [] start)
    {i : ℕ} (hi : i < start + n) : (life.advance n rows).promptRows i =
      some (afterChunk (fun i => (life.promptRows i).getD (rows i)) rows start n i) := by
  rw [Life.advance_computing hstage, afterChunk]
  by_cases hin : start ≤ i ∧ i < start + n
  · rw [if_pos hin]
    exact if_pos ⟨rfl, hin⟩
  · rw [if_neg hin]
    refine (if_neg fun h => hin h.2).trans (howed.rows_eq rows i ?_)
    rw [hstage, Stage.computed]
    omega

/-- A chunk that leaves some of the prompt. -/
theorem GatheredAs.of_intermediate {k : ℤ} {tracked tracked' : TrackerEntry Scored}
    (howed : Owed score vocabSize k life tracked) (hstage : life.stage = .computing [] start)
    (hk : life.promptLogprobs = some k) (hlt : start + n < life.prompt.length)
    (hprogress : InProgress score life.prompt vocabSize k
      (afterChunk (fun i => (life.promptRows i).getD (rows i)) rows start n) (start + n) tracked') :
    GatheredAs score vocabSize n rows life tracked' [] := by
  have hrows := fun i hi => @advance_promptRows _ _ _ _ _ n start rows _ _ howed hstage i hi
  rw [Life.advance_computing hstage, List.append_nil, if_pos hlt] at hrows
  rw [GatheredAs, Life.advance_computing hstage, List.append_nil, List.append_nil, if_pos hlt]
  refine ⟨fun hnone => ?_, fun k' hk' _ => ?_, fun _ _ hyes => absurd hyes Bool.false_ne_true⟩
  · exact absurd (hk.symm.trans hnone) (Option.some_ne_none k)
  · obtain rfl : k = k' := Option.some.inj (hk.symm.trans hk')
    refine ⟨howed.delivered, hprogress.1, fun i hi => ?_, fun rows' hrows' => ?_⟩
    · rw [hrows i hi]
      rfl
    · exact hprogress.congr fun i hi => Option.some.inj ((hrows i hi).symm.trans (hrows' i hi))

/-- The chunk that reaches the end of the prompt. -/
theorem GatheredAs.of_completes {k : ℤ} {tracked : TrackerEntry Scored}
    (howed : Owed score vocabSize k life tracked) (hstage : life.stage = .computing [] start)
    (hk : life.promptLogprobs = some k) (hend : start + n = life.prompt.length)
    {tensors : LogprobsTensors Scored}
    (hfilled : Filled score (resolveNumLogprobs k vocabSize) life.prompt
      (afterChunk (fun i => (life.promptRows i).getD (rows i)) rows start n) life.prompt.length
      tensors) :
    GatheredAs score vocabSize n rows life .none [tensors] := by
  have hrows := fun i hi => @advance_promptRows _ _ _ _ _ n start rows _ _ howed hstage i hi
  have hnot : ¬start + n < (life.prompt ++ []).length := by
    rw [List.append_nil]
    omega
  rw [Life.advance_computing hstage, if_neg hnot] at hrows
  rw [GatheredAs, Life.advance_computing hstage, if_neg hnot]
  refine ⟨fun hnone => ?_, fun _ _ hno => absurd hno Bool.noConfusion, fun k' hk' _ => ?_⟩
  · exact absurd (hk.symm.trans hnone) (Option.some_ne_none k)
  · obtain rfl : k = k' := Option.some.inj (hk.symm.trans hk')
    refine ⟨rfl, tensors, by rw [howed.delivered, List.nil_append], hfilled.length,
      fun i hi => ⟨_, hrows i ?_, hfilled.filled i ?_ hi⟩⟩
    · have : i < life.prompt.length - 1 := hi
      omega
    · have : i < life.prompt.length - 1 := hi
      omega

/-- **The chunk of a queued request is gathered**: what it puts out is put out once, and with the
chunk that reaches the end of the prompt. -/
theorem gatherChunk_ok (cfg : RunnerConfig H Row Scored) (rows : ℕ → Row)
    {logits : Option (List Row)} {cuSeqlens : List ℕ} {numDecodeSegments i : ℕ}
    (hqueued : Queued cfg.score cfg.vocabSize newReqs reqId n life outs start entry pending)
    (hpacked : PackedAs pending life entry pr)
    (hrows : entry.tracked.wants → ∃ logitsRows, logits = some logitsRows ∧
      cuSeqlens.getD (numDecodeSegments + i + 1) 0 - cuSeqlens.getD (numDecodeSegments + i) 0 = n ∧
      segmentRows cuSeqlens logitsRows (numDecodeSegments + i) =
        (List.range n).map fun j => rows (start + j)) :
    ∃ tracked dict, gatherChunk cfg logits cuSeqlens numDecodeSegments (pr, i) entry =
        .ok ({ entry with tracked := tracked }, dict.map fun tensors => (reqId, tensors)) ∧
      GatheredAs cfg.score cfg.vocabSize n rows life tracked dict ∧ dict.length ≤ 1 ∧
      (dict ≠ [] ↔ life.promptLogprobs ≠ none ∧ life.stage.hasOutput = false ∧
        (life.advance n rows).stage.hasOutput = true) := by
  obtain ⟨hid, hstart, hlen⟩ := hqueued.packed hpacked
  have htracked := hqueued.tracked
  by_cases hwants : entry.tracked.wants = true
  · obtain ⟨hne, hno⟩ := htracked.wants_iff.mp hwants
    obtain ⟨k, hk⟩ := Option.ne_none_iff_exists'.mp hne
    obtain ⟨logitsRows, rfl, hcount, hsegment⟩ := hrows hwants
    -- the prompt is all there is of the tokens
    obtain rfl : outs = [] := by
      rw [hqueued.stage] at hno
      simpa [Stage.hasOutput] using hno
    have howed := htracked.owed k hk hno
    have hcomputed : life.stage.computed = start := by rw [hqueued.stage]; rfl
    have hprogress := howed.progress _ (howed.rows_eq rows)
    rw [hcomputed] at hprogress
    have hinside := hqueued.inside
    rw [List.append_nil] at hinside
    -- what the loop hands to the tracker
    have hobserved : promptChunk (entry.state.map RequestRecord.promptLen) (some logitsRows)
        cuSeqlens numDecodeSegments i pr = .ok (chunkOf reqId life.prompt rows start n) := by
      obtain ⟨fullPrompt, hpr, hfull⟩ := hpacked
      obtain ⟨outs', start', hstage', rfl⟩ := hfull hwants
      obtain ⟨rfl, rfl⟩ : outs' = [] ∧ start' = start := by
        have := hstage'.symm.trans hqueued.stage
        simpa using this
      have hprompt : pr.fullPromptTokenIds = some life.prompt := by rw [hpr, List.append_nil]
      have htake : life.prompt.take
          ((entry.state.map RequestRecord.promptLen).getD life.prompt.length) = life.prompt := by
        obtain ⟨state, hstate, hpromptLen, -⟩ | ⟨hnone, -⟩ := hqueued.state
        · rw [hstate, Option.map_some, Option.getD_some, hpromptLen, List.take_length]
        · rw [hnone, Option.map_none, Option.getD_none, List.take_length]
      simp only [promptChunk, hprompt, hcount, hlen, ne_eq, not_true_eq_false, if_false, htake, hid,
        hstart, hsegment, chunkOf]
    rcases Nat.lt_or_ge (start + n) life.prompt.length with hlt | hge
    · obtain ⟨tracked, hobserve, hprogress'⟩ :=
        observeChunk_intermediate rows reqId hprogress hqueued.pos hlt
      refine ⟨tracked, [], ?_, .of_intermediate howed hqueued.stage hk hlt hprogress',
        Nat.zero_le 1,
        fun h => absurd rfl h, fun h => ?_⟩
      · unfold gatherChunk
        simp only [hwants, Bool.not_true, Bool.false_eq_true, if_false, hobserved, hobserve]
        rfl
      · -- the chunk leaves some of the prompt
        rw [Life.advance_computing hqueued.stage, List.append_nil, if_pos hlt] at h
        exact absurd h.2.2 Bool.false_ne_true
    · have hend : start + n = life.prompt.length := by omega
      obtain ⟨tensors, hobserve, hfilled⟩ :=
        observeChunk_completes rows reqId hprogress hqueued.pos hend
      refine ⟨.none, [tensors], ?_, .of_completes howed hqueued.stage hk hend hfilled,
        Nat.le_refl 1,
        fun _ => ⟨hne, hno, ?_⟩, fun _ => List.cons_ne_nil _ _⟩
      · unfold gatherChunk
        simp only [hwants, Bool.not_true, Bool.false_eq_true, if_false, hobserved, hobserve,
          hid]
        rfl
      · rw [Life.advance_computing hqueued.stage, List.append_nil, if_neg (by omega)]
        rfl
  · refine ⟨entry.tracked, [], ?_, .of_not_wants htracked hqueued.stage hwants, Nat.zero_le 1, ?_⟩
    · unfold gatherChunk
      simp only [hwants, Bool.not_false, if_true, List.map_nil]
    · refine ⟨fun h => absurd rfl h, fun h => absurd (htracked.wants_iff.mpr ⟨h.1, h.2.1⟩) hwants⟩

/-- The state of a request after a chunk. -/
def StateOf (life : Life Row Scored) (entry : RunnerEntry Scored) : Prop :=
  ∃ state, entry.state = some state ∧ state.promptLen = life.prompt.length ∧
    life.stage.Holds life.prompt state

/-- A queued chunk is intermediate, or its last one. -/
theorem Queued.resultMode_cases
    (hqueued : Queued score vocabSize newReqs reqId n life outs start entry pending) :
    (start + n < (life.prompt ++ outs).length ∧ pending.resultMode = .intermediate ∧
      pending.prefill.promptLen = none) ∨
    (¬start + n < (life.prompt ++ outs).length ∧ pending.resultMode ≠ .intermediate ∧
      pending.prefill.promptLen = some life.prompt.length) := by
  obtain ⟨sp, final, hfinal, rfl⟩ := hqueued.chunk
  by_cases hlt : start + n < (life.prompt ++ outs).length
  · exact Or.inl ⟨hlt, if_pos hlt, if_pos hlt⟩
  · refine Or.inr ⟨hlt, ?_, if_neg hlt⟩
    rw [pendingChunk_resultMode, if_neg hlt]
    exact hfinal

/-- The state of a request behind an intermediate chunk stays. -/
theorem Queued.stateOf_intermediate
    (hqueued : Queued score vocabSize newReqs reqId n life outs start entry pending)
    (hlt : start + n < (life.prompt ++ outs).length) {entry' : RunnerEntry Scored}
    (hstate : entry'.state = entry.state) : StateOf (life.advance n rows) entry' := by
  obtain ⟨state, hsome, hpromptLen, htokens, hgenerated, -⟩ | ⟨-, -, rfl, hend, -⟩ := hqueued.state
  · refine ⟨state, hstate.trans hsome, ?_, ?_⟩
    · rw [Life.advance_computing hqueued.stage]
      exact hpromptLen
    · rw [Life.advance_computing hqueued.stage, if_pos hlt]
      exact ⟨htokens, hgenerated⟩
  · rw [List.append_nil] at hlt
    omega

/-- **The chunk of a queued request is postprocessed.** -/
theorem postprocessChunk_ok (rows : ℕ → Row) (nextToken : ReqId → Token)
    (hqueued : Queued score vocabSize newReqs reqId n life outs start entry pending)
    (hpacked : PackedAs pending life entry pr) (entry' : RunnerEntry Scored)
    (hstate : entry'.state = entry.state) :
    ∃ entry'', postprocessChunk nextToken (pending, pr) entry' = .ok (entry'', []) ∧
      entry''.tracked = entry'.tracked ∧
      entry''.awaitingReadmission = entry'.awaitingReadmission ∧
      StateOf (life.advance n rows) entry'' := by
  rcases hqueued.resultMode_cases with ⟨hlt, hmode, -⟩ | ⟨hnot, hmode, hpromptLen⟩
  · refine ⟨entry', ?_, rfl, rfl, hqueued.stateOf_intermediate hlt hstate⟩
    simp only [postprocessChunk, hmode]
  · -- the tokens get their next one, and there are more of them than the prompt has
    rw [Life.advance_computing hqueued.stage, if_neg hnot]
    obtain ⟨state, hsome, hlen, htokens, -, hcached⟩ | ⟨-, hnew, -⟩ := hqueued.state
    · refine ⟨{ entry' with state := some { state with
          tokenIds := state.tokenIds ++ [nextToken pr.reqId]
          generatedTokens := (state.tokenIds ++ [nextToken pr.reqId]).length - state.promptLen } },
        ?_, rfl, rfl, _, rfl, hlen, ?_⟩
      · simp only [postprocessChunk, hcached.resolve_left hmode, hstate, hsome]
      · simp only [Stage.Holds, htokens, hlen, List.length_append, List.length_singleton]
        omega
    · obtain ⟨fullPrompt, rfl, -⟩ := hpacked
      refine ⟨{ entry' with state := some ⟨fullPrompt.getD pending.prefill.tokenIds ++
          [nextToken pending.prefill.reqId], life.prompt.length,
            pending.prefill.samplingParams, 1⟩ },
        ?_, rfl, rfl, _, rfl, rfl, Int.one_pos⟩
      simp only [postprocessChunk, hnew, hpromptLen]

end Chunk

/-! ### The sampling half -/

/-- The logits row of each position of each request. -/
def rowsOf (cfg : RunnerConfig H Row Scored) (forward : StepForward H) (reqId : ReqId) (i : ℕ) :
    Row :=
  cfg.head (forward.hidden reqId i)

/-- The lives after a step with these rows and this `prompt_logprobs_dict`. -/
def nextLives (out : SchedulerOutput) (rows : ReqId → ℕ → Row)
    (promptLogprobsDict : List (ReqId × LogprobsTensors Scored))
    (opened : ReqId → Option (Life Row Scored)) (reqId : ReqId) : Option (Life Row Scored) :=
  (opened reqId).map fun life =>
    let life := if reqId ∈ out.scheduledReqIds then
      life.advance (out.numScheduledTokens reqId) (rows reqId) else life
    { life with delivered := life.delivered ++
        (promptLogprobsDict.filter fun handed => handed.1 = reqId).map Prod.snd }

/-- The chunk of a request brings its prompt logprobs to their end. -/
def Completes (out : SchedulerOutput) (reqId : ReqId) (life : Life Row Scored) : Prop :=
  reqId ∈ out.scheduledReqIds ∧ life.promptLogprobs ≠ none ∧
    ∃ start, life.stage = .computing [] start ∧
      start + out.numScheduledTokens reqId = life.prompt.length

section Step

variable {cfg : RunnerConfig H Row Scored} {forward : StepForward H} {out : SchedulerOutput}
  {opened : ReqId → Option (Life Row Scored)} {batch : ExecutionBatch Scored}

/-- A packed chunk and the queued one it comes from. -/
theorem BatchOf.queued (hbatch : BatchOf score vocabSize out opened batch) {pr : PrefillRequest}
    {i : ℕ} (hi : batch.prefillPack[i]? = some pr) :
    ∃ pending, batch.prefillEntries[i]? = some pending ∧ pr.reqId = pending.reqId ∧
      pr.reqId ∈ out.scheduledReqIds ∧ ∃ life, opened pr.reqId = some life ∧
        QueuedAs score vocabSize out.scheduledNewReqs pr.reqId (out.numScheduledTokens pr.reqId)
          life (batch.runner pr.reqId) pending ∧
        PackedAs pending life (batch.runner pr.reqId) pr := by
  obtain ⟨pending, hpending, hin, life, hopened, hqueued, hpacked⟩ :=
    exists_of_forall₂ hbatch.packed hi
  have hid : pr.reqId = pending.reqId := by
    obtain ⟨fullPrompt, rfl, -⟩ := hpacked
    rfl
  rw [hid]
  exact ⟨pending, hpending, rfl, hin, life, hopened, hqueued, hpacked⟩

/-- The ids of the pack are those of the queued chunks. -/
theorem BatchOf.pack_ids (hbatch : BatchOf score vocabSize out opened batch) :
    batch.prefillPack.map PrefillRequest.reqId =
      batch.prefillEntries.map PendingPrefillEntry.reqId := by
  have hpacked := hbatch.packed
  generalize batch.prefillEntries = entries at hpacked
  generalize batch.prefillPack = pack at hpacked
  induction hpacked with
  | nil => rfl
  | cons h _ ih =>
    obtain ⟨-, life, -, -, fullPrompt, rfl, -⟩ := h
    rw [List.map_cons, List.map_cons, ih]
    rfl

theorem BatchOf.zipIdx_ids (hbatch : BatchOf score vocabSize out opened batch) :
    batch.prefillPack.zipIdx.map (fun chunk => chunk.1.reqId) =
      batch.prefillEntries.map PendingPrefillEntry.reqId := by
  rw [← hbatch.pack_ids]
  conv_rhs => rw [← List.zipIdx_map_fst 0 batch.prefillPack, List.map_map]
  rfl

/-- A request with decode work has no chunk. -/
theorem BatchOf.decode_notMem (hbatch : BatchOf score vocabSize out opened batch) {reqId : ReqId}
    (hmem : reqId ∈ batch.decodeReqs) :
    reqId ∉ batch.prefillEntries.map PendingPrefillEntry.reqId := by
  intro hin
  rw [← hbatch.pack_ids] at hin
  obtain ⟨pr, hpr, rfl⟩ := List.mem_map.mp hin
  obtain ⟨i, hi⟩ := List.mem_iff_getElem?.mp hpr
  obtain ⟨pending, -, -, -, life, hopened, ⟨outs, start, hqueued⟩, -⟩ := hbatch.queued hi
  obtain ⟨life', hopened', hrunning⟩ := hbatch.decode pr.reqId hmem
  obtain rfl : life = life' := Option.some.inj (hopened.symm.trans hopened')
  exact Stage.noConfusion (hqueued.stage.symm.trans hrunning)

/-- The decode rows of a step. -/
theorem updateDecodeStates_ok (decodeTokenIds : ReqId → List Token)
    (hbatch : BatchOf score vocabSize out opened batch) :
    ∃ runner' nothing, forEach id (updateDecodeState decodeTokenIds) batch.decodeReqs batch.runner =
        .ok (runner', nothing) ∧
      (∀ reqId ∉ batch.prefillEntries.map PendingPrefillEntry.reqId,
        EntryOf score vocabSize false (opened reqId) (runner' reqId)) ∧
      ∀ reqId ∈ batch.prefillEntries.map PendingPrefillEntry.reqId,
        runner' reqId = batch.runner reqId := by
  have hnodup : (batch.decodeReqs.map id).Nodup := by
    rw [List.map_id]
    exact hbatch.decode_nodup
  obtain ⟨runner', nothing, hloop, hdecoded, hframe⟩ := forEach_spec id
    (updateDecodeState decodeTokenIds)
    (fun reqId entry _ => EntryOf score vocabSize false (opened reqId) entry) batch.runner hnodup
    -- a decode row appends to its own state
    fun reqId hmem => by
      obtain ⟨life, hopened, hrunning⟩ := hbatch.decode reqId hmem
      have hentry := hbatch.rest reqId (hbatch.decode_notMem hmem)
      rw [hopened] at hentry
      obtain ⟨⟨hne, ⟨state, hstate, hlen, hholds⟩, htracked⟩, hawaiting⟩ := hentry
      rw [hrunning] at hholds
      refine ⟨{ batch.runner reqId with state := some { state with
          tokenIds := state.tokenIds ++ decodeTokenIds reqId
          generatedTokens := state.generatedTokens + (decodeTokenIds reqId).length } }, [], ?_, ?_⟩
      · simp only [updateDecodeState, id, hstate]
      rw [hopened]
      refine ⟨⟨hne, ⟨_, rfl, hlen, ?_⟩, htracked⟩, hawaiting⟩
      rw [hrunning]
      have hpos : 0 < state.generatedTokens := hholds
      simp only [Stage.Holds]
      omega
  rw [List.map_id] at hframe
  refine ⟨runner', _, hloop, fun reqId hnot => ?_, fun reqId hin => ?_⟩
  · by_cases hmem : reqId ∈ batch.decodeReqs
    · exact hdecoded reqId hmem
    · rw [hframe reqId hmem]
      exact hbatch.rest reqId hnot
  · exact hframe reqId fun hmem => hbatch.decode_notMem hmem hin

/-- The chunks that bring prompt logprobs to their end. -/
theorem Queued.completes_iff {newReqs : List NewRequestData} {reqId : ReqId} {outs : List Token}
    {start : ℕ} {pending : PendingPrefillEntry} {rows : ℕ → Row}
    (hqueued : Queued score vocabSize newReqs reqId (out.numScheduledTokens reqId) life outs start
      entry pending) (hin : reqId ∈ out.scheduledReqIds) :
    (life.promptLogprobs ≠ none ∧ life.stage.hasOutput = false ∧
      (life.advance (out.numScheduledTokens reqId) rows).stage.hasOutput = true) ↔
      Completes out reqId life := by
  have hinside := hqueued.inside
  rw [Life.advance_computing hqueued.stage]
  constructor
  · rintro ⟨hk, hno, hyes⟩
    obtain rfl : outs = [] := by
      rw [hqueued.stage] at hno
      simpa [Stage.hasOutput] using hno
    rw [List.append_nil] at hinside hyes
    refine ⟨hin, hk, start, hqueued.stage, ?_⟩
    by_contra hne
    rw [if_pos (by omega)] at hyes
    exact Bool.false_ne_true hyes
  · rintro ⟨-, hk, start', hstage, hend⟩
    obtain ⟨rfl, rfl⟩ : outs = [] ∧ start' = start := by
      have := hstage.symm.trans hqueued.stage
      simp only [Stage.computing.injEq] at this
      exact ⟨this.1.symm, this.2⟩
    refine ⟨hk, by rw [hstage]; rfl, ?_⟩
    rw [List.append_nil, if_neg (by omega)]
    rfl

/-- What gathering a chunk leaves of its entry, and puts out. -/
def GatheredChunk (cfg : RunnerConfig H Row Scored) (forward : StepForward H)
    (out : SchedulerOutput) (opened : ReqId → Option (Life Row Scored))
    (batch : ExecutionBatch Scored) (reqId : ReqId) (entry : RunnerEntry Scored)
    (dict : List (ReqId × LogprobsTensors Scored)) : Prop :=
  ∃ life tensors tracked, opened reqId = some life ∧
    entry = { batch.runner reqId with tracked := tracked } ∧
    dict = tensors.map (fun tensors => (reqId, tensors)) ∧
    GatheredAs cfg.score cfg.vocabSize (out.numScheduledTokens reqId) (rowsOf cfg forward reqId)
      life tracked tensors ∧ tensors.length ≤ 1 ∧ (tensors ≠ [] ↔ Completes out reqId life)

/-- The chunks of a step are gathered. -/
theorem gatherChunks_ok (forward : StepForward H)
    (hbatch : BatchOf cfg.score cfg.vocabSize out opened batch) (runner : Runner Scored)
    (hsame : ∀ reqId ∈ batch.prefillEntries.map PendingPrefillEntry.reqId,
      runner reqId = batch.runner reqId) :
    ∃ runner' outs, forEach (fun chunk : PrefillRequest × ℕ => chunk.1.reqId)
        (gatherChunk cfg (stepLogits cfg forward batch).1 (stepLogits cfg forward batch).2
          forward.segments.length) batch.prefillPack.zipIdx runner =
        .ok (runner', batch.prefillPack.zipIdx.flatMap outs) ∧
      (∀ chunk ∈ batch.prefillPack.zipIdx, GatheredChunk cfg forward out opened batch chunk.1.reqId
        (runner' chunk.1.reqId) (outs chunk)) ∧
      ∀ reqId ∉ batch.prefillEntries.map PendingPrefillEntry.reqId,
        runner' reqId = runner reqId := by
  have hids : batch.prefillPack.zipIdx.map (fun chunk => chunk.1.reqId) =
      batch.prefillEntries.map PendingPrefillEntry.reqId := hbatch.zipIdx_ids
  have hnodup : (batch.prefillPack.zipIdx.map fun chunk => chunk.1.reqId).Nodup := by
    rw [hids]
    exact hbatch.nodup
  rw [← hids]
  refine forEach_spec (fun chunk : PrefillRequest × ℕ => chunk.1.reqId)
    (gatherChunk cfg (stepLogits cfg forward batch).1 (stepLogits cfg forward batch).2
      forward.segments.length)
    (fun chunk entry dict => GatheredChunk cfg forward out opened batch chunk.1.reqId entry dict)
    runner hnodup ?_
  -- a chunk finds its own logits rows, and delivers when it completes the prompt
  rintro ⟨pr, i⟩ hmem
  have hi := List.mem_zipIdx_iff_getElem?.mp hmem
  obtain ⟨pending, hpending, hid, hin, life, hopened, ⟨outs, start, hqueued⟩, hpacked⟩ :=
    hbatch.queued hi
  obtain ⟨-, hstart, hlen⟩ := hqueued.packed hpacked
  have hentry : runner pr.reqId = batch.runner pr.reqId :=
    hsame _ (hid ▸ List.mem_map_of_mem (List.mem_of_getElem? hpending))
  obtain ⟨tracked, tensors, hact, hgathered, hone, hdelivers⟩ := gatherChunk_ok cfg
    (rowsOf cfg forward pr.reqId) (i := i) hqueued hpacked fun hwants => by
      have hrows := stepLogits_of_wants cfg forward hi hwants
      rw [hlen, hstart] at hrows
      exact hrows
  refine ⟨_, _, by rw [hentry]; exact hact, life, tensors, tracked, hopened, rfl, rfl, hgathered,
    hone, hdelivers.trans (hqueued.completes_iff hin)⟩

/-- The runner and the `prompt_logprobs_dict` of a step that follows the schedule. -/
structure StepOf (cfg : RunnerConfig H Row Scored) (forward : StepForward H) (out : SchedulerOutput)
    (opened : ReqId → Option (Life Row Scored)) (runner' : Runner Scored)
    (promptLogprobsDict : List (ReqId × LogprobsTensors Scored)) : Prop where
  known : Known cfg.score cfg.vocabSize
    (nextLives out (rowsOf cfg forward) promptLogprobsDict opened) runner'
  nodup : (promptLogprobsDict.map Prod.fst).Nodup
  delivers : ∀ reqId, (∃ tensors, (reqId, tensors) ∈ promptLogprobsDict) ↔
    ∃ life, opened reqId = some life ∧ Completes out reqId life

/-- A request whose pass does not go on keeps its life. -/
theorem nextLives_of_rest (rows : ReqId → ℕ → Row)
    {dict : List (ReqId × LogprobsTensors Scored)} {reqId : ReqId}
    (hdict : dict.filter (fun handed => handed.1 = reqId) = [])
    (hrunning : reqId ∈ out.scheduledReqIds →
      ∃ life, opened reqId = some life ∧ life.stage = .running) :
    nextLives out rows dict opened reqId = opened reqId := by
  rw [nextLives, hdict]
  cases hlife : opened reqId with
  | none => rfl
  | some life =>
    simp only [Option.map_some, List.map_nil, List.append_nil]
    split
    · next hin =>
      obtain ⟨life', hopened, hstage⟩ := hrunning hin
      obtain rfl : life = life' := Option.some.inj (hlife.symm.trans hopened)
      rw [Life.advance, hstage]
    · rfl

/-- **The step, from its entries**: those of the chunks as they were gathered and postprocessed, all
others at rest. -/
theorem BatchOf.stepOf (hbatch : BatchOf cfg.score cfg.vocabSize out opened batch)
    {runner' : Runner Scored} {outs : PrefillRequest × ℕ → List (ReqId × LogprobsTensors Scored)}
    (hchunks : ∀ chunk ∈ batch.prefillPack.zipIdx, ∃ entry,
      GatheredChunk cfg forward out opened batch chunk.1.reqId entry (outs chunk) ∧
      (runner' chunk.1.reqId).tracked = entry.tracked ∧
      (runner' chunk.1.reqId).awaitingReadmission = entry.awaitingReadmission ∧
      ∀ life, opened chunk.1.reqId = some life →
        StateOf (life.advance (out.numScheduledTokens chunk.1.reqId)
          (rowsOf cfg forward chunk.1.reqId)) (runner' chunk.1.reqId))
    (hrest : ∀ reqId ∉ batch.prefillEntries.map PendingPrefillEntry.reqId,
      EntryOf cfg.score cfg.vocabSize false (opened reqId) (runner' reqId)) :
    StepOf cfg forward out opened runner' (batch.prefillPack.zipIdx.flatMap outs) := by
  have hids : batch.prefillPack.zipIdx.map (fun chunk => chunk.1.reqId) =
      batch.prefillEntries.map PendingPrefillEntry.reqId := hbatch.zipIdx_ids
  have hnodup : (batch.prefillPack.zipIdx.map fun chunk => chunk.1.reqId).Nodup := by
    rw [hids]
    exact hbatch.nodup
  have hkeys : ∀ chunk ∈ batch.prefillPack.zipIdx, ∀ handed ∈ outs chunk,
      handed.1 = chunk.1.reqId := by
    intro chunk hmem handed hhanded
    obtain ⟨entry, ⟨life, tensors, tracked, -, -, houts, -⟩, -⟩ := hchunks chunk hmem
    rw [houts] at hhanded
    obtain ⟨_, -, rfl⟩ := List.mem_map.mp hhanded
    rfl
  refine ⟨fun reqId => ?_, ?_, fun reqId => ⟨?_, ?_⟩⟩
  · by_cases hin : reqId ∈ batch.prefillPack.zipIdx.map (fun chunk => chunk.1.reqId)
    · obtain ⟨⟨pr, i⟩, hmem, rfl⟩ := List.mem_map.mp hin
      obtain ⟨entry, ⟨life, tensors, tracked, hopened, rfl, houts, hgathered, -⟩, htracked,
        hawaiting, hstate⟩ := hchunks _ hmem
      obtain ⟨pending, -, -, hsched, life', hopened', ⟨outs', start, hqueued⟩, -⟩ :=
        hbatch.queued (List.mem_zipIdx_iff_getElem?.mp hmem)
      obtain rfl : life = life' := Option.some.inj (hopened.symm.trans hopened')
      have hfilter : (batch.prefillPack.zipIdx.flatMap outs).filter
          (fun handed => handed.1 = pr.reqId) = outs (pr, i) :=
        filter_flatMap_of_mem hnodup hkeys hmem
      have hhanded : (outs (pr, i)).map Prod.snd = tensors := by
        rw [houts, List.map_map]
        exact List.map_id tensors
      have hstate' := hstate life hopened
      have hnext : nextLives out (rowsOf cfg forward) (batch.prefillPack.zipIdx.flatMap outs) opened
          pr.reqId = some { life.advance (out.numScheduledTokens pr.reqId)
            (rowsOf cfg forward pr.reqId) with delivered := life.delivered ++ tensors } := by
        rw [nextLives, hopened, hfilter, hhanded, Option.map_some, if_pos hsched,
          Life.advance_computing hqueued.stage]
      rw [hnext]
      rw [GatheredAs] at hgathered
      rw [Life.advance_computing hqueued.stage] at hstate' hgathered ⊢
      refine ⟨⟨hqueued.prompt_ne, hstate', by rw [htracked]; exact hgathered⟩, ?_⟩
      rw [hawaiting]
      refine hqueued.awaiting.trans ?_
      simp only
      split <;> rfl
    · rw [nextLives_of_rest _ (filter_flatMap_of_notMem hin hkeys) fun hsched =>
        hbatch.running reqId hsched (hids ▸ hin)]
      exact hrest reqId (hids ▸ hin)
  · refine (sublist_flatMap_keys fun chunk hmem => ?_).nodup hnodup
    obtain ⟨entry, ⟨life, tensors, tracked, -, -, houts, -, hone, -⟩, -⟩ := hchunks chunk hmem
    rw [houts]
    cases tensors with
    | nil => exact Or.inl rfl
    | cons head tail =>
      obtain rfl : tail = [] := List.eq_nil_of_length_eq_zero (by
        rw [List.length_cons] at hone
        omega)
      exact Or.inr ⟨_, rfl, rfl⟩
  · rintro ⟨tensors, hhanded⟩
    obtain ⟨chunk, hmem, hin⟩ := List.mem_flatMap.mp hhanded
    obtain rfl : reqId = chunk.1.reqId := hkeys chunk hmem _ hin
    obtain ⟨entry, ⟨life, tensors', tracked, hopened, -, houts, -, -, hdelivers⟩, -⟩ :=
      hchunks chunk hmem
    refine ⟨life, hopened, hdelivers.mp ?_⟩
    rintro rfl
    rw [houts] at hin
    exact absurd hin List.not_mem_nil
  · rintro ⟨life, hopened, hcompletes⟩
    -- a request whose chunk completes has one in the batch
    have hin : reqId ∈ batch.prefillPack.zipIdx.map (fun chunk => chunk.1.reqId) := by
      by_contra hnot
      obtain ⟨life', hopened', hrunning⟩ := hbatch.running reqId hcompletes.1 (hids ▸ hnot)
      obtain rfl : life = life' := Option.some.inj (hopened.symm.trans hopened')
      obtain ⟨-, -, start, hstage, -⟩ := hcompletes
      exact Stage.noConfusion (hstage.symm.trans hrunning)
    obtain ⟨chunk, hmem, rfl⟩ := List.mem_map.mp hin
    obtain ⟨entry, ⟨life', tensors, tracked, hopened', -, houts, -, -, hdelivers⟩, -⟩ :=
      hchunks chunk hmem
    obtain rfl : life = life' := Option.some.inj (hopened.symm.trans hopened')
    obtain ⟨tensor, hin'⟩ := List.exists_mem_of_ne_nil _ (hdelivers.mpr hcompletes)
    exact ⟨tensor, List.mem_flatMap.mpr ⟨chunk, hmem, houts ▸ List.mem_map_of_mem hin'⟩⟩

/-- The queued chunks of an intermediate-only step are intermediate. -/
theorem BatchOf.resultMode_of_intermediateOnly
    (hbatch : BatchOf score vocabSize out opened batch)
    (hall : batch.prefillPack.all (fun pr => pr.promptLen.isNone) = true) {pr : PrefillRequest}
    {i : ℕ} (hi : batch.prefillPack[i]? = some pr) {pending : PendingPrefillEntry}
    (hpending : batch.prefillEntries[i]? = some pending) :
    ∃ life outs start, opened pr.reqId = some life ∧
      Queued score vocabSize out.scheduledNewReqs pr.reqId (out.numScheduledTokens pr.reqId) life
        outs start (batch.runner pr.reqId) pending ∧
      start + out.numScheduledTokens pr.reqId < (life.prompt ++ outs).length ∧
      pending.resultMode = .intermediate := by
  obtain ⟨pending', hpending', -, -, life, hopened, ⟨outs, start, hqueued⟩, fullPrompt, hpr, -⟩ :=
    hbatch.queued hi
  obtain rfl : pending = pending' := Option.some.inj (hpending.symm.trans hpending')
  refine ⟨life, outs, start, hopened, hqueued, ?_⟩
  have hnone : pending.prefill.promptLen = none := by
    have := List.all_eq_true.mp hall pr (List.mem_of_getElem? hi)
    rw [hpr] at this
    exact Option.isNone_iff_eq_none.mp this
  rcases hqueued.resultMode_cases with ⟨hlt, hmode, -⟩ | ⟨-, -, hsome⟩
  · exact ⟨hlt, hmode⟩
  · exact absurd (hnone.symm.trans hsome) (Option.some_ne_none _).symm

/-- An intermediate-only step: its chunks are gathered, and nothing is sampled. -/
theorem sampleIntermediate_ok (forward : StepForward H)
    (hbatch : BatchOf cfg.score cfg.vocabSize out opened batch)
    (honly : intermediateOnly cfg forward batch = true) :
    ∃ runner' dict, samplePagedBatch cfg forward batch = .ok (runner', dict) ∧
      StepOf cfg forward out opened runner' dict := by
  obtain ⟨⟨⟨⟨-, hdecode⟩, -⟩, hall⟩, -⟩ : ((((_ ∧ batch.decodeReqs.isEmpty = true) ∧ _) ∧
      batch.prefillPack.all (fun pr => pr.promptLen.isNone) = true) ∧ _) := by
    simpa only [intermediateOnly, Bool.and_eq_true] using honly
  -- no chunk of the step ends its prompt, so nothing is sampled
  have hmodes : batch.prefillEntries.any
      (fun pending => decide (pending.resultMode ≠ .intermediate)) = false := by
    rw [List.any_eq_false]
    intro pending hmem
    obtain ⟨i, hpending⟩ := List.mem_iff_getElem?.mp hmem
    have hlt : i < batch.prefillPack.length := by
      rw [← hbatch.packed.length_eq]
      exact (List.getElem?_eq_some_iff.mp hpending).1
    obtain ⟨-, -, -, -, -, -, hmode⟩ := hbatch.resultMode_of_intermediateOnly hall
      (List.getElem?_eq_getElem hlt) hpending
    simp [hmode]
  obtain ⟨runner', outs, hloop, hgathered, hframe⟩ :=
    gatherChunks_ok forward hbatch batch.runner fun _ _ => rfl
  refine ⟨runner', batch.prefillPack.zipIdx.flatMap outs, ?_,
    hbatch.stepOf (fun chunk hmem => ?_) fun reqId hnot => ?_⟩
  · unfold samplePagedBatch
    simp only
    rw [if_pos honly, hdecode, hmodes]
    exact hloop
  · obtain ⟨life, tensors, tracked, hopened, hentry, hrest⟩ := hgathered chunk hmem
    refine ⟨_, ⟨life, tensors, tracked, hopened, hentry, hrest⟩, rfl, rfl, fun life' hlife' => ?_⟩
    have hi := List.mem_zipIdx_iff_getElem?.mp hmem
    obtain ⟨pending, hpending, -⟩ := hbatch.queued hi
    obtain ⟨life'', outs', start, hopened', hqueued, hlt, -⟩ :=
      hbatch.resultMode_of_intermediateOnly hall hi hpending
    obtain rfl : life' = life'' := Option.some.inj (hlife'.symm.trans hopened')
    exact hqueued.stateOf_intermediate hlt (by rw [hentry])
  · rw [hframe reqId hnot]
    exact hbatch.rest reqId hnot

/-- The chunks of a step are postprocessed. -/
theorem postprocessChunks_ok (forward : StepForward H)
    (hbatch : BatchOf cfg.score cfg.vocabSize out opened batch) (runner : Runner Scored)
    (hstate : ∀ pr ∈ batch.prefillPack,
      (runner pr.reqId).state = (batch.runner pr.reqId).state) :
    ∃ runner' nothing,
      forEach (fun chunk : PendingPrefillEntry × PrefillRequest => chunk.2.reqId)
        (postprocessChunk forward.nextToken) (batch.prefillEntries.zip batch.prefillPack) runner =
          .ok (runner', nothing) ∧
      (∀ pr ∈ batch.prefillPack, (runner' pr.reqId).tracked = (runner pr.reqId).tracked ∧
        (runner' pr.reqId).awaitingReadmission = (runner pr.reqId).awaitingReadmission ∧
        ∀ life, opened pr.reqId = some life →
          StateOf (life.advance (out.numScheduledTokens pr.reqId) (rowsOf cfg forward pr.reqId))
            (runner' pr.reqId)) ∧
      ∀ reqId ∉ batch.prefillEntries.map PendingPrefillEntry.reqId,
        runner' reqId = runner reqId := by
  have hlength := hbatch.packed.length_eq
  have hzip : (batch.prefillEntries.zip batch.prefillPack).map (fun chunk => chunk.2.reqId) =
      batch.prefillEntries.map PendingPrefillEntry.reqId := by
    rw [← hbatch.pack_ids]
    conv_rhs => rw [← List.map_snd_zip (Nat.le_of_eq hlength.symm), List.map_map]
    rfl
  -- the chunks are of different requests, so each entry is changed by one of them
  obtain ⟨runner', nothing, hpost, hposted, hframe⟩ := forEach_spec
    (fun chunk : PendingPrefillEntry × PrefillRequest => chunk.2.reqId)
    (postprocessChunk forward.nextToken)
    (fun chunk entry _ => entry.tracked = (runner chunk.2.reqId).tracked ∧
      entry.awaitingReadmission = (runner chunk.2.reqId).awaitingReadmission ∧
      ∀ life, opened chunk.2.reqId = some life →
        StateOf (life.advance (out.numScheduledTokens chunk.2.reqId)
          (rowsOf cfg forward chunk.2.reqId)) entry)
    runner (by rw [hzip]; exact hbatch.nodup) (by
      rintro ⟨pending, pr⟩ hmem
      obtain ⟨i, hi⟩ := List.mem_iff_getElem?.mp hmem
      obtain ⟨hpending, hpack⟩ := List.getElem?_zip_eq_some.mp hi
      obtain ⟨pending', hpending', -, -, life, hopened, ⟨outs', start, hqueued⟩, hpacked⟩ :=
        hbatch.queued hpack
      obtain rfl : pending = pending' := Option.some.inj (hpending.symm.trans hpending')
      obtain ⟨entry', hact, htracked, hawaiting, hstateOf⟩ := postprocessChunk_ok
        (rowsOf cfg forward pr.reqId) forward.nextToken hqueued hpacked (runner pr.reqId)
        (hstate pr (List.mem_of_getElem? hpack))
      refine ⟨entry', [], hact, htracked, hawaiting, fun life' hlife' => ?_⟩
      obtain rfl : life = life' := Option.some.inj (hopened.symm.trans hlife')
      exact hstateOf)
  rw [hzip] at hframe
  refine ⟨runner', _, hpost, fun pr hmem => ?_, hframe⟩
  obtain ⟨i, hi⟩ := List.mem_iff_getElem?.mp hmem
  obtain ⟨pending, hpending, -⟩ := hbatch.queued hi
  exact hposted (pending, pr)
    (List.mem_iff_getElem?.mpr ⟨i, List.getElem?_zip_eq_some.mpr ⟨hpending, hi⟩⟩)

/-- **The sampling half of a step** does not raise. -/
theorem samplePagedBatch_ok (forward : StepForward H)
    (hbatch : BatchOf cfg.score cfg.vocabSize out opened batch) :
    ∃ runner' dict, samplePagedBatch cfg forward batch = .ok (runner', dict) ∧
      StepOf cfg forward out opened runner' dict := by
  by_cases honly : intermediateOnly cfg forward batch = true
  · exact sampleIntermediate_ok forward hbatch honly
  · obtain ⟨runner₁, nothing, hdecode, hrest₁, hframe₁⟩ :=
      updateDecodeStates_ok forward.decodeTokenIds hbatch
    obtain ⟨runner₂, outs, hgather, hgathered, hframe₂⟩ :=
      gatherChunks_ok forward hbatch runner₁ hframe₁
    obtain ⟨runner₃, nothing', hpost, hposted, hframe₃⟩ :=
      postprocessChunks_ok forward hbatch runner₂ fun pr hmem => by
        obtain ⟨i, hi⟩ := List.mem_iff_getElem?.mp hmem
        obtain ⟨_, _, _, _, hentry, _⟩ := hgathered (pr, i) (List.mem_zipIdx_iff_getElem?.mpr hi)
        rw [hentry]
    refine ⟨runner₃, batch.prefillPack.zipIdx.flatMap outs, ?_,
      hbatch.stepOf (fun chunk hmem => ?_) fun reqId hnot => ?_⟩
    · unfold samplePagedBatch
      simp only
      rw [if_neg honly]
      simp only [hdecode, hgather, hpost]
    · exact ⟨_, hgathered chunk hmem,
        hposted chunk.1 (List.mem_of_getElem? (List.mem_zipIdx_iff_getElem?.mp hmem))⟩
    · rw [hframe₃ reqId hnot, hframe₂ reqId hnot]
      exact hrest₁ reqId hnot

end Step

/-! ### Runs -/

/-- The runner and the lives after steps that follow the schedule. -/
inductive Run (cfg : RunnerConfig H Row Scored) :
    Runner Scored → (ReqId → Option (Life Row Scored)) → Prop
  | start : Run cfg (fun _ => .unknown) fun _ => none
  | step {runner : Runner Scored} {lives : ReqId → Option (Life Row Scored)}
      (forward : StepForward H) (out : SchedulerOutput)
      {opened : ReqId → Option (Life Row Scored)} {runner' : Runner Scored}
      {promptLogprobsDict : List (ReqId × LogprobsTensors Scored)} (hrun : Run cfg runner lives)
      (hsched : Scheduled lives out opened)
      (hstep : runnerStep cfg forward out runner = .ok (runner', promptLogprobsDict)) :
      Run cfg runner' (nextLives out (rowsOf cfg forward) promptLogprobsDict opened)

/-- **A step that follows the schedule** does not raise. -/
theorem runnerStep_ok (cfg : RunnerConfig H Row Scored) (forward : StepForward H)
    {runner : Runner Scored} {lives opened : ReqId → Option (Life Row Scored)}
    {out : SchedulerOutput} (hknown : Known cfg.score cfg.vocabSize lives runner)
    (hsched : Scheduled lives out opened) :
    ∃ batch runner' dict, executeModel forward.isMmRequest out runner = .ok batch ∧
      BatchOf cfg.score cfg.vocabSize out opened batch ∧
      runnerStep cfg forward out runner = .ok (runner', dict) ∧
      StepOf cfg forward out opened runner' dict := by
  obtain ⟨batch, hexecute, hbatch⟩ := executeModel_ok forward.isMmRequest hknown hsched
  by_cases hwork : (batch.prefillEntries.isEmpty && batch.decodeReqs.isEmpty) = true
  · -- nothing was scheduled
    obtain ⟨hentries, -⟩ := Bool.and_eq_true_iff.mp hwork
    have hnil := List.isEmpty_iff.mp hentries
    have hpack : batch.prefillPack = [] := by
      have := hbatch.packed.length_eq
      rw [hnil] at this
      exact List.eq_nil_of_length_eq_zero this.symm
    have hstep := @BatchOf.stepOf H Row Scored cfg forward out opened batch hbatch batch.runner
      (fun _ => []) (fun chunk hmem => absurd hmem (by rw [hpack]; exact List.not_mem_nil))
      hbatch.rest
    rw [hpack] at hstep
    refine ⟨batch, batch.runner, [], hexecute, hbatch, ?_, hstep⟩
    unfold runnerStep
    simp only [hexecute]
    exact if_pos hwork
  · obtain ⟨runner', dict, hsample, hstep⟩ := samplePagedBatch_ok forward hbatch
    refine ⟨batch, runner', dict, hexecute, hbatch, ?_, hstep⟩
    unfold runnerStep
    simp only [hexecute]
    exact (if_neg hwork).trans hsample

/-- **The runner follows the lives** over every run. -/
theorem Run.known {cfg : RunnerConfig H Row Scored} {runner : Runner Scored}
    {lives : ReqId → Option (Life Row Scored)} (hrun : Run cfg runner lives) :
    Known cfg.score cfg.vocabSize lives runner := by
  induction hrun with
  | start => exact fun _ => rfl
  | step forward out _ hsched hstep ih =>
    obtain ⟨batch, runner', dict, -, -, hstep', hstepOf⟩ := runnerStep_ok cfg forward ih hsched
    obtain ⟨rfl, rfl⟩ := Prod.mk.inj (Except.ok.inj (hstep.symm.trans hstep'))
    exact hstepOf.known

/-- **Prompt logprobs are complete, correct and handed over once.**  After any steps that follow the
schedule — any chunks, and any number of preemptions, each resumed or re-admitted — a request whose
prompt logprobs are asked for has none of them before its first output and its one list of tensors
from then on, every row that of the prompt position it belongs to, and a request that is not known
has nothing tracked.  The next step does not raise, hands over the tensors of exactly the requests
whose chunk reaches the end of a prompt, and wants the rows of no chunk of a request that has its
tensors. -/
theorem prompt_logprobs_delivered_once (cfg : RunnerConfig H Row Scored) {runner : Runner Scored}
    {lives : ReqId → Option (Life Row Scored)} (hrun : Run cfg runner lives) :
    (∀ reqId, lives reqId = none → (runner reqId).tracked = .none) ∧
    (∀ reqId life, lives reqId = some life →
      (life.promptLogprobs = none → (runner reqId).tracked = .none ∧ life.delivered = []) ∧
      ∀ k, life.promptLogprobs = some k →
        (life.stage.hasOutput = false → life.delivered = []) ∧
        (life.stage.hasOutput = true → (runner reqId).tracked = .none ∧
          ∃ tensors, life.delivered = [tensors] ∧
            tensors.length = life.prompt.length - 1 ∧
            ∀ i < life.prompt.length - 1, ∃ row, life.promptRows i = some row ∧
              tensors[i]? = some (some (cfg.score (resolveNumLogprobs k cfg.vocabSize) row
                (life.prompt.getD (i + 1) 0))))) ∧
    ∀ (forward : StepForward H) (out : SchedulerOutput)
      (opened : ReqId → Option (Life Row Scored)), Scheduled lives out opened →
      ∃ batch runner' promptLogprobsDict,
        executeModel forward.isMmRequest out runner = .ok batch ∧
        (∀ pr ∈ batch.prefillPack, batch.runner.wants pr.reqId = true →
          ∃ life, opened pr.reqId = some life ∧ life.promptLogprobs ≠ none ∧
            life.stage.hasOutput = false ∧ life.delivered = []) ∧
        runnerStep cfg forward out runner = .ok (runner', promptLogprobsDict) ∧
        (promptLogprobsDict.map Prod.fst).Nodup ∧
        ∀ reqId, (∃ tensors, (reqId, tensors) ∈ promptLogprobsDict) ↔
          ∃ life, opened reqId = some life ∧ Completes out reqId life := by
  have hknown := hrun.known
  -- the three parts: unknown requests, what a life has, and the step that delivers
  refine ⟨fun reqId hnone => ?_, fun reqId life hlife => ?_, fun forward out opened hsched => ?_⟩
  · have hentry := hknown reqId
    rw [hnone] at hentry
    rw [show runner reqId = .unknown from hentry]
    rfl
  · have hentry := hknown reqId
    rw [hlife] at hentry
    have htracked := hentry.1.tracked
    refine ⟨htracked.untracked, fun k hk => ⟨fun hno => (htracked.owed k hk hno).delivered,
      fun hyes => ?_⟩⟩
    obtain ⟨hnone, tensors, hdelivered, hlen, hrow⟩ := htracked.paid k hk hyes
    exact ⟨hnone, tensors, hdelivered, hlen, hrow⟩
  · obtain ⟨batch, runner', dict, hexecute, hbatch, hstep, hstepOf⟩ :=
      runnerStep_ok cfg forward hknown hsched
    refine ⟨batch, runner', dict, hexecute, fun pr hmem hwants => ?_, hstep, hstepOf.nodup,
      hstepOf.delivers⟩
    -- a chunk that wants logprobs has tracked a count and delivered nothing
    obtain ⟨i, hi⟩ := List.mem_iff_getElem?.mp hmem
    obtain ⟨pending, -, -, -, life, hopened, ⟨outs, start, hqueued⟩, -⟩ := hbatch.queued hi
    obtain ⟨hk, hno⟩ := hqueued.tracked.wants_iff.mp hwants
    obtain ⟨k, hsome⟩ := Option.ne_none_iff_exists'.mp hk
    exact ⟨life, hopened, hk, hno, (hqueued.tracked.owed k hsome hno).delivered⟩

private def threeTokens : NewRequestData :=
  ⟨1, some [7, 8, 9], [7, 8, 9], 3, .greedy, some 1, 0⟩

private def scoreBoth : RunnerConfig ℕ ℕ (ℕ × Token) :=
  ⟨id, fun _ row token => (row, token), 100, true, true, false⟩

private def positions : StepForward ℕ :=
  ⟨.text, fun _ => false, fun _ i => 10 + i, [], fun _ => [], fun _ => 5⟩

private abbrev PositionLives := ReqId → Option (Life ℕ (ℕ × Token))

/-- Two tokens of the prompt. -/
private def admitTwo : SchedulerOutput := ⟨[threeTokens], [], fun _ => 2, [], []⟩

private def preemptOne : SchedulerOutput := ⟨[], [], fun _ => 0, [], [1]⟩

/-- The first token again. -/
private def admitAgain : SchedulerOutput := ⟨[threeTokens], [], fun _ => 1, [], []⟩

/-- The rest of the prompt. -/
private def lastTwo : SchedulerOutput := ⟨[], [⟨1, 1, none⟩], fun _ => 2, [], []⟩

/-- The lives after a step without tensors. -/
private def livesAfter (out : SchedulerOutput) (opened : PositionLives) : PositionLives :=
  nextLives out (rowsOf scoreBoth positions) [] opened

private def openFirst : PositionLives :=
  fun reqId => if reqId = 1 then
    some ⟨[7, 8, 9], some 1, .computing [] 0, fun _ => none, []⟩ else none

private def preempted : PositionLives :=
  livesAfter preemptOne (reconciled preemptOne (livesAfter admitTwo openFirst))

private def openAgain : PositionLives :=
  fun reqId => if reqId = 1 then (reconciled admitAgain preempted 1).map (Life.reopen [] 0)
    else reconciled admitAgain preempted reqId

private theorem not_scheduled {out : SchedulerOutput} (hout : out.scheduledReqIds = [1])
    {reqId : ReqId} (h : reqId ∉ out.scheduledReqIds) : reqId ≠ 1 := by
  rw [hout, List.mem_singleton] at h
  exact h

private theorem scheduled_admitTwo : Scheduled (fun _ => none) admitTwo openFirst where
  nodup := List.nodup_singleton 1
  preempted _ hmem := absurd hmem List.not_mem_nil
  new newReq hmem := by
    obtain rfl := List.mem_singleton.mp hmem
    exact ⟨_, rfl, .first [7, 8, 9] (by decide) rfl ⟨by decide, by decide, fun _ => rfl⟩⟩
  cached _ hmem := absurd hmem List.not_mem_nil
  other _ hnot := if_neg (not_scheduled rfl hnot)

private theorem scheduled_preemptOne : Scheduled (livesAfter admitTwo openFirst) preemptOne
    (reconciled preemptOne (livesAfter admitTwo openFirst)) where
  nodup := List.nodup_nil
  preempted reqId hmem := by
    obtain rfl := List.mem_singleton.mp hmem
    exact Option.some_ne_none _
  new _ hmem := absurd hmem List.not_mem_nil
  cached _ hmem := absurd hmem List.not_mem_nil
  other _ _ := rfl

private theorem scheduled_admitAgain : Scheduled preempted admitAgain openAgain where
  nodup := List.nodup_singleton 1
  preempted _ hmem := absurd hmem List.not_mem_nil
  new newReq hmem := by
    obtain rfl := List.mem_singleton.mp hmem
    exact ⟨_, rfl, .again _ [] false rfl rfl rfl rfl rfl ⟨fun _ => rfl, fun _ => rfl⟩
      ⟨by decide, by decide, fun _ => rfl⟩⟩
  cached _ hmem := absurd hmem List.not_mem_nil
  other _ hnot := if_neg (not_scheduled rfl hnot)

private theorem scheduled_lastTwo : Scheduled (livesAfter admitAgain openAgain) lastTwo
    (reconciled lastTwo (livesAfter admitAgain openAgain)) where
  nodup := List.nodup_singleton 1
  preempted _ hmem := absurd hmem List.not_mem_nil
  new _ hmem := absurd hmem List.not_mem_nil
  cached cachedReq hmem := by
    obtain rfl := List.mem_singleton.mp hmem
    exact ⟨_, rfl, .chunk _ [] rfl rfl (by decide) (by decide)⟩
  other _ _ := rfl

/-- A prompt of three tokens that is preempted behind two, admitted again, and computed in two
chunks: both rows that score a token are handed over with the last one, and nothing is tracked
afterwards. -/
theorem prompt_logprobs_delivered_once_again : ∃ first second third last : Runner (ℕ × Token),
    runnerStep scoreBoth positions admitTwo (fun _ => .unknown) = .ok (first, []) ∧
      runnerStep scoreBoth positions preemptOne first = .ok (second, []) ∧
      runnerStep scoreBoth positions admitAgain second = .ok (third, []) ∧
      runnerStep scoreBoth positions lastTwo third =
        .ok (last, [(1, [some (10, 8), some (11, 9)])]) ∧
      (last 1).tracked = .none := by
  obtain ⟨first, second, third, last, h₁, h₂, h₃, h₄⟩ :
      ∃ first second third last : Runner (ℕ × Token),
        runnerStep scoreBoth positions admitTwo (fun _ => .unknown) = .ok (first, []) ∧
        runnerStep scoreBoth positions preemptOne first = .ok (second, []) ∧
        runnerStep scoreBoth positions admitAgain second = .ok (third, []) ∧
        runnerStep scoreBoth positions lastTwo third =
          .ok (last, [(1, [some (10, 8), some (11, 9)])]) :=
    ⟨_, _, _, _, rfl, rfl, rfl, rfl⟩
  have hrun : Run scoreBoth last _ :=
    .step positions lastTwo (.step positions admitAgain (.step positions preemptOne
      (.step positions admitTwo .start scheduled_admitTwo h₁) scheduled_preemptOne h₂)
      scheduled_admitAgain h₃) scheduled_lastTwo h₄
  obtain ⟨-, hlives, -⟩ := prompt_logprobs_delivered_once scoreBoth hrun
  obtain ⟨-, hasked⟩ := hlives 1 _ rfl
  exact ⟨first, second, third, last, h₁, h₂, h₃, h₄, ((hasked 1 rfl).2 rfl).1⟩

end PromptLogprobs
end VllmMetal
