import VllmMetal.Runner.Executed

/-!
# What a sampled step makes of the lives

The sampling half of a step extends the token lists and advances the tracked lengths; the scheduler
advances its requests by the output.  They stay in step, and the output has one slot for each
scheduled request.

## Main results

* `samplePagedBatch_delivered` — **the entries follow the lives that the output delivers**.
-/

namespace VllmMetal
namespace PagedRunner

open SpecDecode Multimodal

variable {Row : Type} {lives opened : ReqId → Option Life} {entries entries' : Entries}
  {out : SchedulerOutput} {life : Life} {entry : Entry} {n : ℕ}

/-! ### Output slots -/

/-- What the slot of a request holds. -/
theorem tokensOf_eq {output : StepOutput} (hnodup : (output.map Prod.fst).Nodup) {reqId : ReqId}
    {tokens : List Token} (h : (reqId, tokens) ∈ output) : tokensOf output reqId = tokens := by
  unfold tokensOf
  cases hfound : output.find? fun slot => slot.1 = reqId with
  | none =>
    have hnot := List.find?_eq_none.mp hfound _ h
    exact absurd (decide_eq_true rfl) hnot
  | some slot =>
    have hid : slot.1 = reqId := by simpa using List.find?_some hfound
    have hslot := List.inj_on_of_nodup_map hnodup (List.mem_of_find?_eq_some hfound) h hid
    rw [hslot, Option.map_some, Option.getD_some]

/-- The slots of the chunks, in the order of the chunks. -/
theorem prefillOutputs_eq {work : List Work} (hout : ∀ reqId tokens, .output reqId tokens ∉ work)
    (chunkTokens : List (List Token)) : prefillOutputs work chunkTokens =
      (work.filterMap Work.prefill?).mapIdx fun i pending =>
        (pending.reqId, chunkTokens.getD i []) := by
  induction work generalizing chunkTokens with
  | nil => rfl
  | cons piece work ih =>
    have hrest := fun chunkTokens => ih (fun reqId tokens hmem =>
      hout reqId tokens (List.mem_cons_of_mem piece hmem)) chunkTokens
    cases piece with
    | output reqId tokens => exact absurd List.mem_cons_self (hout reqId tokens)
    | decode reqId => exact hrest chunkTokens
    | prefill pending =>
      rw [prefillOutputs, hrest]
      show _ = List.mapIdx _ (pending :: work.filterMap Work.prefill?)
      rw [List.mapIdx_cons]
      cases chunkTokens with
      | nil => simp
      | cons tokens chunkTokens => simp

/-- Every piece of work is a chunk or decode work. -/
theorem perm_reqIds {work : List Work} (hout : ∀ reqId tokens, .output reqId tokens ∉ work) :
    ((work.filterMap Work.prefill?).map PendingPrefillEntry.reqId ++
      work.filterMap Work.decode?).Perm (work.map Work.reqId) := by
  induction work with
  | nil => exact .refl _
  | cons piece work ih =>
    have hrest := ih fun reqId tokens hmem => hout reqId tokens (List.mem_cons_of_mem piece hmem)
    cases piece with
    | output reqId tokens => exact absurd List.mem_cons_self (hout reqId tokens)
    | decode reqId => exact List.perm_middle.trans (hrest.cons reqId)
    | prefill pending => exact hrest.cons pending.reqId

theorem BatchOf.notMem_output {work : List Work} (h : BatchOf out opened entries work)
    (reqId : ReqId) (tokens : List Token) : .output reqId tokens ∉ work := by
  intro hmem
  obtain ⟨life, -, hcollected⟩ := h.work _ hmem
  exact hcollected

/-! ### One request -/

/-- The life of a request whose chunk does not reach the end of its tokens. -/
theorem advance_intermediate {outs : List Token} {start : ℕ}
    (hstage : life.stage = .computing outs start) (h : start + n < life.tokens.length)
    (sampled : List Token) :
    life.advance n sampled = { life with stage := .computing outs (start + n) } := by
  simp only [Life.advance, hstage, if_pos h]

theorem advance_final {outs : List Token} {start : ℕ}
    (hstage : life.stage = .computing outs start) (h : ¬start + n < life.tokens.length)
    (sampled : List Token) :
    life.advance n sampled = { life with stage := .decoding (outs ++ sampled) } := by
  simp only [Life.advance, hstage, if_neg h]

/-- **A decode row.** -/
theorem updateDecodeState_ok (reqId : ReqId) (ids : List Token) {outs : List Token}
    (hstage : life.stage = .decoding outs) (htracks : Tracks life entry)
    (hawaiting : entry.awaitingReadmission = false) :
    ∃ entry', updateDecodeState (reqId, ids) entry = .ok (entry', [(reqId, ids)]) ∧
      EntryOf false (some (life.advance n ids)) entry' := by
  obtain ⟨hne, ⟨state, hstate, hlen, hholds⟩, hconsistent⟩ := htracks
  rw [hstage] at hholds
  obtain ⟨htokens, hgen⟩ := hholds
  obtain ⟨hcount, hseq⟩ := hconsistent state hstate hgen
  have hpos : 0 < state.tokenIds.length := by
    rw [htokens, List.length_append]
    exact Nat.add_pos_left (List.length_pos_of_ne_nil hne) _
  have hprompt : state.promptLen ≤ state.tokenIds.length := by
    rw [hlen, htokens, List.length_append]
    exact Nat.le_add_right ..
  -- the length counts all tokens but the last one
  have hlife : life.advance n ids = { life with stage := .decoding (outs ++ ids) } := by
    simp only [Life.advance, hstage]
  have hafter : (entry.states.modify fun state => state.extend ids).held =
      some (state.extend ids) := by
    rw [state_modify, hstate, Option.map_some]
  refine ⟨{ entry with
      states := entry.states.modify fun state => state.extend ids
      seqLen := some (state.tokenIds.length - 1 + ids.length) }, ?_, ⟨?_, ?_⟩⟩
  · simp only [updateDecodeState, hstate, hseq, Option.getD_some]
  · rw [hlife]
    refine ⟨hne, ⟨_, hafter, hlen, ?_, ?_⟩, ?_⟩
    · rw [RequestState.extend_tokenIds, htokens, List.append_assoc]
    · rw [RequestState.extend_generatedTokens]
      omega
    · intro state' hstate' _
      obtain rfl := Option.some.inj (hafter.symm.trans hstate')
      refine ⟨?_, ?_⟩
      · rw [RequestState.extend_generatedTokens, RequestState.extend_promptLen,
          RequestState.extend_tokenIds, List.length_append]
        push_cast
        omega
      · rw [RequestState.extend_tokenIds, List.length_append]
        exact congrArg some (by omega)
  · rw [hlife]
    exact hawaiting

/-- The tokens in the slot of a chunk. -/
def SampledChunk.tokens (chunk : SampledChunk) : List Token :=
  if chunk.pending.resultMode = .intermediate then [] else [chunk.nextToken]

/-- A queued chunk, by position. -/
structure ChunkAt (life : Life) (n : ℕ) (pending : PendingPrefillEntry) (outs : List Token)
    (start : ℕ) : Prop where
  stage : life.stage = .computing outs start
  startPos : pending.prefill.startPos = start
  tokenIds : pending.prefill.tokenIds = (life.tokens.drop start).take n
  inside : start + n ≤ life.tokens.length
  promptLen : pending.prefill.promptLen =
    if start + n < life.tokens.length then none else some life.prompt.length
  intermediate : pending.resultMode = .intermediate ↔ start + n < life.tokens.length

/-- **The chunk of a request** has its tokens from where it is computed on, as many as are
scheduled, and it is final where it reaches the last of them. -/
theorem Queued.chunkAt {newReqs : List NewRequestData} {pending : PendingPrefillEntry}
    (h : Queued newReqs n life entry pending) :
    ∃ outs start, ChunkAt life n pending outs start := by
  obtain ⟨outs, start, sp, blockIds, final, hstage, hpos, hinside, hfinal, heq⟩ := h.chunk
  have hmode : pending.resultMode =
      if start + n < life.tokens.length then .intermediate else final := by
    rw [heq]
    rfl
  refine ⟨outs, start, hstage, by rw [heq]; rfl, ?_, hinside, by rw [heq]; rfl, ?_⟩
  · rw [heq]
    show (life.tokens.take (start + n)).drop start = _
    rw [List.drop_take, Nat.add_sub_cancel_left]
  · rw [hmode]
    by_cases hlt : start + n < life.tokens.length
    · simp only [hlt, if_true]
    · simp only [hlt, if_false, hfinal]

/-- The tokens up to the end of a chunk that is the whole of a new request. -/
theorem fullPrompt_eq {pending : PendingPrefillEntry} {pr : PrefillRequest} {outs : List Token}
    {start : ℕ} (hpacked : PackedAs opened pending pr) (hopened : opened pending.reqId = some life)
    (hchunk : ChunkAt life n pending outs start) (hlast : ¬start + n < life.tokens.length) :
    pr.fullPromptTokenIds.getD pr.tokenIds = life.tokens := by
  obtain ⟨life', fullPrompt, hopened', rfl, hsome, hnone⟩ := hpacked
  obtain rfl : life = life' := Option.some.inj (hopened.symm.trans hopened')
  cases hfull : fullPrompt with
  | some tokens => exact hsome tokens hfull
  | none =>
    -- the chunk starts at the first token
    have hzero : start = 0 := hchunk.startPos.symm.trans (hnone hfull)
    have hinside := hchunk.inside
    show pending.prefill.tokenIds = life.tokens
    rw [hchunk.tokenIds, hzero, List.drop_zero, List.take_of_length_le (by omega)]

/-- **A chunk, once its token is sampled.** -/
theorem postprocessChunk_ok {newReqs : List NewRequestData} {pending : PendingPrefillEntry}
    {pr : PrefillRequest} (hpacked : PackedAs opened pending pr)
    (hopened : opened pending.reqId = some life) (hqueued : Queued newReqs n life entry pending)
    (deltas : ReqId → Option ℤ) (nextToken : Token) :
    ∃ entry', postprocessChunk deltas ⟨pending, pr, nextToken⟩
        { entry with seqLen := some (pr.startPos + pr.tokenIds.length) } =
          .ok (entry', [SampledChunk.tokens ⟨pending, pr, nextToken⟩]) ∧
      EntryOf false
        (some (life.advance n (SampledChunk.tokens ⟨pending, pr, nextToken⟩))) entry' := by
  obtain ⟨outs, start, hchunk⟩ := hqueued.chunkAt
  have hfull := fullPrompt_eq hpacked hopened hchunk
  obtain ⟨hpr, hprLen⟩ : pr.startPos + pr.tokenIds.length = start + n ∧
      pr.promptLen = pending.prefill.promptLen := by
    obtain ⟨life', fullPrompt, -, rfl, -⟩ := hpacked
    refine ⟨?_, rfl⟩
    show pending.prefill.startPos + pending.prefill.tokenIds.length = _
    have hinside := hchunk.inside
    rw [hchunk.startPos, hchunk.tokenIds, List.length_take, List.length_drop]
    omega
  have htokens : life.tokens = life.prompt ++ outs := by rw [Life.tokens, hchunk.stage]; rfl
  have hinside := hchunk.inside
  by_cases hlt : start + n < life.tokens.length
  · -- an intermediate chunk leaves the state as it is
    have hmode := hchunk.intermediate.mpr hlt
    obtain ⟨state, hstate, hlen, hids, hgen, -⟩ | ⟨-, hnew, -⟩ := hqueued.state
    · rw [advance_intermediate hchunk.stage hlt]
      refine ⟨{ entry with seqLen := some (pr.startPos + pr.tokenIds.length) }, ?_,
        ⟨hqueued.prompt_ne,
        ⟨state, hstate, hlen, hids.trans htokens, hgen⟩, fun state' hstate' hne => ?_⟩,
        hqueued.awaiting⟩
      · simp only [postprocessChunk, hmode, SampledChunk.tokens, if_true]
      · obtain rfl := Option.some.inj (hstate.symm.trans hstate')
        exact absurd hgen hne
    · rw [hmode] at hnew
      cases hnew
  · have hmode : pending.resultMode ≠ .intermediate := fun h => hlt (hchunk.intermediate.mp h)
    have hslot : SampledChunk.tokens ⟨pending, pr, nextToken⟩ = [nextToken] := by
      rw [SampledChunk.tokens, if_neg hmode]
    have hend : pr.startPos + pr.tokenIds.length = life.tokens.length := by omega
    have hlife := advance_final hchunk.stage hlt [nextToken]
    rw [hslot, hlife]
    -- a state with all tokens and the sampled one follows the life
    have hfollows : ∀ {entry' : Entry} {state' : RequestState}, entry'.state = some state' →
        state'.tokenIds = life.tokens ++ [nextToken] → state'.promptLen = life.prompt.length →
        state'.generatedTokens = (outs.length : ℤ) + 1 →
        entry'.seqLen = some (pr.startPos + pr.tokenIds.length) →
        entry'.awaitingReadmission = false →
        EntryOf false (some { life with stage := .decoding (outs ++ [nextToken]) }) entry' := by
      intro entry' state' hstate hids hlen hgen hseq hawaiting
      refine ⟨⟨hqueued.prompt_ne, ⟨state', hstate, hlen, ?_, by rw [hgen]; omega⟩, ?_⟩, hawaiting⟩
      · rw [hids, htokens, List.append_assoc]
      · intro state'' hstate'' _
        obtain rfl := Option.some.inj (hstate.symm.trans hstate'')
        refine ⟨?_, ?_⟩
        · rw [hgen, hlen, hids, htokens]
          simp only [List.length_append, List.length_singleton]
          omega
        · rw [hseq, hids, hend, List.length_append, List.length_singleton, Nat.add_sub_cancel]
    obtain ⟨state, hstate, hlen, hids, hgen, hnotNew⟩ | ⟨hnone, hnew, houts, -⟩ := hqueued.state
    · have hcached : pending.resultMode = .cachedFinal := by
        cases hm : pending.resultMode with
        | intermediate => exact absurd hm hmode
        | newFinal => exact absurd hm hnotNew
        | cachedFinal => rfl
      let delta := deltas pr.reqId
      have hafter : (entry.states.modify (appendSampled delta nextToken)).held =
          some (appendSampled delta nextToken state) := by
        rw [state_modify, hstate, Option.map_some]
      refine ⟨{ entry with
        states := entry.states.modify (appendSampled delta nextToken)
        seqLen := some (pr.startPos + pr.tokenIds.length) }, ?_,
        hfollows hafter (by rw [← hids]; rfl) hlen ?_ rfl hqueued.awaiting⟩
      · have hsame :
          ({ entry with seqLen := some (pr.startPos + pr.tokenIds.length) } : Entry).state =
          some state := hstate
        simp only [postprocessChunk, hcached, hsame]
        rfl
      · show ((state.tokenIds ++ [nextToken]).length : ℤ) - state.promptLen = _
        rw [hids, htokens, hlen]
        simp only [List.length_append, List.length_singleton]
        omega
    · have houts : outs = [] := by rw [hchunk.stage] at houts; exact houts
      subst houts
      have hlen : pr.promptLen = some life.prompt.length := by
        rw [hprLen, hchunk.promptLen, if_neg hlt]
      let state := finishedPromptState pr life.prompt.length (deltas pr.reqId) nextToken
      have hafter : (entry.states.put state).held = some state := rfl
      refine ⟨{ entry with
        states := entry.states.put state
        seqLen := some (pr.startPos + pr.tokenIds.length) }, ?_,
        hfollows hafter ?_ rfl rfl rfl hqueued.awaiting⟩
      · simp only [postprocessChunk, hnew, hlen]
        rfl
      · show pr.fullPromptTokenIds.getD pr.tokenIds ++ [nextToken] = _
        rw [hfull hlt]

/-! ### The batch -/

/-- Every decode request of a step has its list of tokens. -/
theorem length_decodeTokenIds {argmax : ℕ → Token} {sample : ℕ → RequestState → Token}
    {reqs : List (ReqId × RequestState)} {segments : List PagedDecodeSegment}
    (hlen : segments.length = reqs.length) {tokens : List (List Token)}
    (h : decodeTokenIds argmax sample reqs segments = .ok tokens) :
    tokens.length = reqs.length := by
  have hmerge : ∀ (segments : List PagedDecodeSegment) verified plain,
      (mergeRows segments verified plain).length = segments.length := by
    intro segments
    induction segments with
    | nil => exact fun _ _ => rfl
    | cons segment segments ih =>
      intro verified plain
      rw [mergeRows]
      split <;> rw [List.length_cons, ih, List.length_cons]
  unfold decodeTokenIds at h
  split at h
  · simp only at h
    split at h
    · cases h
    · cases h
      rw [hmerge, hlen]
  · cases h
    rw [List.length_mapIdx]

/-- The chunks with their tokens are the chunks of the batch and of the pack. -/
theorem sampledChunks_eq {pending : List PendingPrefillEntry} {pack : List PrefillRequest}
    {nextTokens : List Token} (hpack : pending.length = pack.length)
    (htokens : nextTokens.length = pack.length) :
    (sampledChunks pending pack nextTokens).map SampledChunk.pending = pending ∧
      (sampledChunks pending pack nextTokens).map SampledChunk.prefill = pack := by
  unfold sampledChunks
  induction pending generalizing pack nextTokens with
  | nil =>
    cases pack with
    | nil => exact ⟨rfl, rfl⟩
    | cons pr pack => cases hpack
  | cons p pending ih =>
    cases pack with
    | nil => cases hpack
    | cons pr pack =>
      cases nextTokens with
      | nil => cases htokens
      | cons t nextTokens =>
        obtain ⟨hpendings, hprs⟩ := ih (Nat.succ.inj hpack) (Nat.succ.inj htokens)
        simp only [List.zip_cons_cons, List.zipWith_cons_cons, List.map_cons, hpendings, hprs,
          and_self]

/-- The output of a step has the tokens of a request, and its entry follows the life with them. -/
def Delivers (num : ReqId → ℕ) (opened : ReqId → Option Life) (entries : Entries)
    (output : StepOutput) (reqId : ReqId) : Prop :=
  ∃ life tokens, opened reqId = some life ∧ (reqId, tokens) ∈ output ∧
    EntryOf false (some (life.advance (num reqId) tokens)) (entries reqId)

/-- The entries follow the lives that the output delivers, once they do so for each scheduled
request. -/
theorem known_delivered {output : StepOutput} (hnodup : (output.map Prod.fst).Nodup)
    (hscheduled : ∀ reqId ∈ out.scheduledReqIds,
      Delivers out.numScheduledTokens opened entries' output reqId)
    (hrest : ∀ reqId ∉ out.scheduledReqIds, EntryOf false (opened reqId) (entries' reqId)) :
    Known (delivered out output opened) entries' := by
  intro reqId
  unfold delivered
  by_cases hin : reqId ∈ out.scheduledReqIds
  · obtain ⟨life, tokens, hopened, hmem, hentry⟩ := hscheduled reqId hin
    rw [if_pos hin, hopened, Option.map_some, tokensOf_eq hnodup hmem]
    exact hentry
  · rw [if_neg hin]
    exact hrest reqId hin

/-- The chunk behind an id, with its place. -/
theorem Executed.exists_pending {st : PagedForwardState Row} (h : Executed opened entries st)
    {reqId : ReqId} (hin : reqId ∈ st.out.scheduledReqIds) :
    reqId ∈ st.decodeReqs ∨ ∃ (i : ℕ) (pending : PendingPrefillEntry),
      (st.work.filterMap Work.prefill?)[i]? = some pending ∧ pending.reqId = reqId := by
  rw [← h.batch.ids] at hin
  rcases List.mem_append.mp ((perm_reqIds h.batch.notMem_output).mem_iff.mpr hin) with hmem | hmem
  · obtain ⟨pending, hpending, rfl⟩ := List.mem_map.mp hmem
    obtain ⟨i, hi⟩ := List.mem_iff_getElem?.mp hpending
    exact Or.inr ⟨i, pending, hi, rfl⟩
  · rw [h.decodeReqs]
    exact Or.inl hmem

/-- The ids of the pack are those of the chunks. -/
theorem Executed.reqIds_pack {st : PagedForwardState Row} (h : Executed opened entries st) :
    st.pack.map (fun pr => pr.reqId) =
      (st.work.filterMap Work.prefill?).map PendingPrefillEntry.reqId := by
  have hlen := h.pack.length_eq
  refine List.ext_getElem? fun i => ?_
  rw [List.getElem?_map, List.getElem?_map]
  cases hpr : st.pack[i]? with
  | none =>
    rw [List.getElem?_eq_none_iff, ← hlen, ← List.getElem?_eq_none_iff] at hpr
    rw [hpr]
    rfl
  | some pr =>
    obtain ⟨pending, hpending, life, fullPrompt, -, rfl, -⟩ := exists_of_forall₂ h.pack hpr
    rw [hpending]
    rfl

theorem Executed.perm {st : PagedForwardState Row} (h : Executed opened entries st) :
    (st.pack.map (fun pr => pr.reqId) ++ st.decodeReqs).Perm st.out.scheduledReqIds := by
  rw [h.reqIds_pack, h.decodeReqs, ← h.batch.ids]
  exact perm_reqIds h.batch.notMem_output

/-- The keys of the output. -/
theorem Executed.keys_output {st : PagedForwardState Row} (h : Executed opened entries st)
    (chunkTokens : List (List Token)) {decodeOutputs : StepOutput}
    (hdecodes : decodeOutputs.map Prod.fst = st.decodeReqs) :
    ((prefillOutputs st.work chunkTokens ++ decodeOutputs).map Prod.fst).Perm
      st.out.scheduledReqIds := by
  have hkeys : ((st.work.filterMap Work.prefill?).mapIdx fun i pending =>
      (pending.reqId, chunkTokens.getD i [])).map Prod.fst = st.pack.map fun pr => pr.reqId := by
    rw [h.reqIds_pack]
    refine List.ext_getElem? fun i => ?_
    rw [List.getElem?_map, List.getElem?_mapIdx, List.getElem?_map]
    cases (st.work.filterMap Work.prefill?)[i]? <;> rfl
  rw [List.map_append, hdecodes, prefillOutputs_eq h.batch.notMem_output, hkeys]
  exact h.perm

/-- The slot of a chunk. -/
theorem Executed.mem_prefillOutputs {st : PagedForwardState Row} (h : Executed opened entries st)
    (chunkTokens : List (List Token)) {i : ℕ} {pending : PendingPrefillEntry}
    (hpending : (st.work.filterMap Work.prefill?)[i]? = some pending) :
    (pending.reqId, chunkTokens.getD i []) ∈ prefillOutputs st.work chunkTokens := by
  rw [prefillOutputs_eq h.batch.notMem_output]
  refine List.mem_of_getElem? (i := i) ?_
  rw [List.getElem?_mapIdx, hpending, Option.map_some]

/-- The tracked lengths of the chunks. -/
theorem updatePrefillSeqLens_ok {pack : List PrefillRequest}
    (hnodup : (pack.map fun pr => pr.reqId).Nodup) (entries : Entries) :
    ∃ after nothing,
      forEach (fun pr : PrefillRequest => pr.reqId) updatePrefillSeqLen pack entries =
        .ok (after, nothing) ∧
      (∀ pr ∈ pack, after pr.reqId =
        { entries pr.reqId with seqLen := some (pr.startPos + pr.tokenIds.length) }) ∧
      ∀ reqId ∉ pack.map (fun pr => pr.reqId), after reqId = entries reqId := by
  obtain ⟨after, outs, hloop, hmem, hframe⟩ := forEach_spec
    (fun pr : PrefillRequest => pr.reqId) updatePrefillSeqLen
    (fun pr entry _ => entry =
      { entries pr.reqId with seqLen := some (pr.startPos + pr.tokenIds.length) }) entries hnodup
    fun pr _ => ⟨_, [], rfl, rfl⟩
  exact ⟨after, _, hloop, hmem, hframe⟩

/-- The chunks of a step of intermediate chunks do not reach the ends of their tokens. -/
theorem Executed.intermediate_chunk {st : PagedForwardState Row} (h : Executed opened entries st)
    (honly : st.intermediateOnly = true) {i : ℕ} {pending : PendingPrefillEntry}
    (hpending : (st.work.filterMap Work.prefill?)[i]? = some pending)
    {outs : List Token} {start : ℕ}
    (hchunk : ChunkAt life n pending outs start) : start + n < life.tokens.length := by
  obtain ⟨pr, hpr, life', fullPrompt, -, heq, -⟩ := exists_of_forall₂ h.pack.flip hpending
  have hnone : pending.prefill.promptLen = none := by
    have hnone := (h.intermediate honly).2 pr (List.mem_of_getElem? hpr)
    rw [heq] at hnone
    exact hnone
  refine not_le.mp fun hge => ?_
  have hlen := hchunk.promptLen
  rw [if_neg (not_lt.mpr hge)] at hlen
  cases hlen.symm.trans hnone

/-- A step of intermediate chunks. -/
theorem Executed.intermediate_delivered {st : PagedForwardState Row}
    (h : Executed opened entries st)
    (honly : st.intermediateOnly = true) {nothing : List Unit}
    (hloop : forEach (fun pr : PrefillRequest => pr.reqId) updatePrefillSeqLen st.pack entries =
      .ok (entries', nothing)) :
    ((prefillOutputs st.work []).map Prod.fst).Perm st.out.scheduledReqIds ∧
      Known (delivered st.out (prefillOutputs st.work []) opened) entries' := by
  obtain ⟨hdecodes, hnone⟩ := h.intermediate honly
  have hperm : ((prefillOutputs st.work []).map Prod.fst).Perm st.out.scheduledReqIds := by
    have hkeys : ((prefillOutputs st.work [] ++ []).map Prod.fst).Perm st.out.scheduledReqIds :=
      h.keys_output [] hdecodes.symm
    rwa [List.append_nil] at hkeys
  have hnodup : (st.pack.map fun pr => pr.reqId).Nodup :=
    (List.nodup_append.mp (h.perm.nodup_iff.mpr h.batch.nodup)).1
  obtain ⟨after, nothing', hloop', hmem, hframe⟩ := updatePrefillSeqLens_ok hnodup entries
  rw [hloop'] at hloop
  cases hloop
  refine ⟨hperm, known_delivered (hperm.nodup_iff.mpr h.batch.nodup) ?_ ?_⟩
  · intro reqId hin
    obtain hdec | ⟨i, pending, hpending, rfl⟩ := h.exists_pending hin
    · rw [hdecodes] at hdec
      exact absurd hdec List.not_mem_nil
    · obtain ⟨life, hopened, hqueued⟩ := h.batch.queued (List.mem_of_getElem? hpending)
      obtain ⟨outs, start, hchunk⟩ := hqueued.chunkAt
      obtain ⟨pr, hpr, hpacked⟩ := exists_of_forall₂ h.pack.flip hpending
      have hmode := hchunk.intermediate.mpr (h.intermediate_chunk honly hpending hchunk)
      have hid : pr.reqId = pending.reqId := by
        obtain ⟨life', fullPrompt, -, rfl, -⟩ := hpacked
        rfl
      -- such a chunk is not postprocessed
      obtain ⟨entry', hact, hentry⟩ := postprocessChunk_ok hpacked hopened hqueued (fun _ => none) 0
      simp only [postprocessChunk, hmode, SampledChunk.tokens, if_true] at hact hentry
      cases hact
      refine ⟨life, [], hopened, h.mem_prefillOutputs [] hpending, ?_⟩
      rw [← hid, hmem pr (List.mem_of_getElem? hpr), hid]
      exact hentry
  · intro reqId hnot
    rw [hframe reqId fun hin => hnot (h.perm.mem_iff.mp (List.mem_append_left _ hin))]
    exact h.batch.rest reqId hnot

/-- The decode rows of a step. -/
theorem Executed.decode_delivered {st : PagedForwardState Row} (h : Executed opened entries st)
    {decodeTokens : List (List Token)} (hlen : decodeTokens.length = st.decodeReqs.length) :
    ∃ after, forEach Prod.fst updateDecodeState (st.decodeReqs.zip decodeTokens) entries =
        .ok (after, st.decodeReqs.zip decodeTokens) ∧
      (∀ item ∈ st.decodeReqs.zip decodeTokens, ∃ life, opened item.1 = some life ∧
        EntryOf false (some (life.advance (st.out.numScheduledTokens item.1) item.2))
          (after item.1)) ∧
      ∀ reqId ∉ st.decodeReqs, after reqId = entries reqId := by
  have hids : (st.decodeReqs.zip decodeTokens).map Prod.fst = st.decodeReqs :=
    List.map_fst_zip (le_of_eq hlen.symm)
  have hnodup : st.decodeReqs.Nodup :=
    (List.nodup_append.mp (h.perm.nodup_iff.mpr h.batch.nodup)).2.1
  obtain ⟨after, outs, hloop, hmem, hframe⟩ := forEach_spec Prod.fst updateDecodeState
    (fun item entry slots => slots = [item] ∧ ∃ life, opened item.1 = some life ∧
      EntryOf false (some (life.advance (st.out.numScheduledTokens item.1) item.2)) entry)
    entries (by rw [hids]; exact hnodup) fun item hitem => by
      have hin : item.1 ∈ st.decodeReqs := by
        rw [← hids]
        exact List.mem_map_of_mem hitem
      rw [h.decodeReqs] at hin
      obtain ⟨life, decoded, hopened, hstage, htracks, hawaiting⟩ := h.batch.decoding hin
      obtain ⟨entry', hact, hentry⟩ := updateDecodeState_ok item.1 item.2 hstage htracks hawaiting
        (n := st.out.numScheduledTokens item.1)
      exact ⟨entry', [item], hact, rfl, life, hopened, hentry⟩
  refine ⟨after, ?_, fun item hitem => (hmem item hitem).2, fun reqId hnot => ?_⟩
  · rw [hloop, List.flatMap_congr fun item hitem => (hmem item hitem).1, List.flatMap_singleton']
  · rw [hids] at hframe
    exact hframe reqId hnot

/-- The tokens in the slots of the chunks. -/
def chunkTokensOf (st : PagedForwardState Row) (nextTokens : List Token) : List (List Token) :=
  (sampledChunks (st.work.filterMap Work.prefill?) st.pack nextTokens).map SampledChunk.tokens

/-- The chunks of a step, over entries with their tracked lengths. -/
theorem Executed.chunks_delivered {st : PagedForwardState Row} (h : Executed opened entries st)
    {nextTokens : List Token} (hlen : nextTokens.length = st.pack.length) {before : Entries}
    (hbefore : ∀ pr ∈ st.pack, before pr.reqId =
      { entries pr.reqId with seqLen := some (pr.startPos + pr.tokenIds.length) }) :
    ∃ after, forEach (fun chunk : SampledChunk => chunk.prefill.reqId)
        (postprocessChunk st.mmPrefillDeltas)
        (sampledChunks (st.work.filterMap Work.prefill?) st.pack nextTokens) before =
          .ok (after, chunkTokensOf st nextTokens) ∧
      (∀ i pending, (st.work.filterMap Work.prefill?)[i]? = some pending → ∃ life,
        opened pending.reqId = some life ∧ EntryOf false (some (life.advance
          (st.out.numScheduledTokens pending.reqId) ((chunkTokensOf st nextTokens).getD i [])))
          (after pending.reqId)) ∧
      ∀ reqId ∉ st.pack.map (fun pr => pr.reqId), after reqId = before reqId := by
  unfold chunkTokensOf
  set chunks := sampledChunks (st.work.filterMap Work.prefill?) st.pack nextTokens with hchunks
  obtain ⟨hpendings, hprs⟩ := sampledChunks_eq h.pack.length_eq hlen
  rw [← hchunks] at hpendings hprs
  have hids : chunks.map (fun chunk => chunk.prefill.reqId) = st.pack.map fun pr => pr.reqId := by
    rw [← hprs, List.map_map]
    rfl
  have hnodup : (st.pack.map fun pr => pr.reqId).Nodup :=
    (List.nodup_append.mp (h.perm.nodup_iff.mpr h.batch.nodup)).1
  -- the chunk at a place is that of the batch and of the pack
  have hat : ∀ (i : ℕ) (chunk : SampledChunk), chunks[i]? = some chunk →
      (st.work.filterMap Work.prefill?)[i]? = some chunk.pending ∧
        st.pack[i]? = some chunk.prefill ∧ PackedAs opened chunk.pending chunk.prefill := by
    intro i chunk hi
    have hpending : (st.work.filterMap Work.prefill?)[i]? = some chunk.pending := by
      rw [← hpendings, List.getElem?_map, hi, Option.map_some]
    have hpr : st.pack[i]? = some chunk.prefill := by
      rw [← hprs, List.getElem?_map, hi, Option.map_some]
    obtain ⟨pending, hpending', hpacked⟩ := exists_of_forall₂ h.pack hpr
    rw [hpending] at hpending'
    exact ⟨hpending, hpr, Option.some.inj hpending' ▸ hpacked⟩
  obtain ⟨after, outs, hloop, hmem, hframe⟩ := forEach_spec
    (fun chunk : SampledChunk => chunk.prefill.reqId) (postprocessChunk st.mmPrefillDeltas)
    (fun chunk entry tokens => tokens = [chunk.tokens] ∧
      ∃ life, opened chunk.pending.reqId = some life ∧
      EntryOf false
        (some (life.advance (st.out.numScheduledTokens chunk.pending.reqId) chunk.tokens))
        entry) before (by rw [hids]; exact hnodup) fun chunk hchunk => by
      obtain ⟨i, hi⟩ := List.mem_iff_getElem?.mp hchunk
      obtain ⟨hpending, hpr, hpacked⟩ := hat i chunk hi
      obtain ⟨life, hopened, hqueued⟩ := h.batch.queued (List.mem_of_getElem? hpending)
      have hid : chunk.prefill.reqId = chunk.pending.reqId := by
        obtain ⟨life', fullPrompt, -, heq, -⟩ := hpacked
        rw [heq]
        rfl
      obtain ⟨entry', hact, hentry⟩ :=
        postprocessChunk_ok hpacked hopened hqueued st.mmPrefillDeltas
        chunk.nextToken
      rw [hbefore _ (List.mem_of_getElem? hpr), hid]
      exact ⟨entry', [chunk.tokens], hact, rfl, life, hopened, hentry⟩
  refine ⟨after, ?_, fun i pending hpending => ?_, fun reqId hnot => ?_⟩
  · rw [hloop, List.flatMap_congr fun chunk hchunk => (hmem chunk hchunk).1, ← List.map_eq_flatMap]
  · rw [← hpendings, List.getElem?_map] at hpending
    obtain ⟨chunk, hi, rfl⟩ := Option.map_eq_some_iff.mp hpending
    obtain ⟨-, -, life', fullPrompt, -, heq, -⟩ := hat i chunk hi
    obtain ⟨-, life, hopened, hentry⟩ := hmem chunk (List.mem_of_getElem? hi)
    refine ⟨life, hopened, ?_⟩
    have hid : chunk.prefill.reqId = chunk.pending.reqId := by
      rw [heq]
      rfl
    rw [List.getD_eq_getElem?_getD, List.getElem?_map, hi, Option.map_some, Option.getD_some, ← hid]
    rw [← hid] at hentry
    exact hentry
  · rw [hids] at hframe
    exact hframe reqId hnot

/-- Every request and every chunk of a step has its tokens. -/
theorem Executed.length_sampleStep {target : Target Row} {st : PagedForwardState Row}
    (h : Executed opened entries st) {tokens : StepTokens}
    (htokens : sampleStep target st entries = .ok tokens) :
    tokens.decodeTokenIds.length = st.decodeReqs.length ∧
      tokens.prefillTokenIds.length = st.pack.length := by
  have hstates : (decodeStates entries st.decodeReqs).length = st.decodeReqs.length := by
    refine length_decodeStates fun reqId hid => ?_
    rw [h.decodeReqs] at hid
    obtain ⟨life, outs, -, -, htracks, -⟩ := h.batch.decoding hid
    obtain ⟨state, hstate, -⟩ := htracks.state
    rw [hstate]
    rfl
  unfold sampleStep at htokens
  split at htokens
  · cases htokens
  · next decodes hdecodes =>
    cases htokens
    refine ⟨?_, List.length_mapIdx⟩
    rw [← hstates]
    exact length_decodeTokenIds (by rw [h.segments, length_segmentList]) hdecodes

/-- The updates of a step whose tokens are sampled. -/
theorem Executed.applyTokens_delivered {st : PagedForwardState Row} (h : Executed opened entries st)
    {tokens : StepTokens} (hdecodeLen : tokens.decodeTokenIds.length = st.decodeReqs.length)
    (hprefillLen : tokens.prefillTokenIds.length = st.pack.length) {output : StepOutput}
    (hok : applyTokens st tokens entries = .ok (entries', output)) :
    (output.map Prod.fst).Perm st.out.scheduledReqIds ∧
      Known (delivered st.out output opened) entries' ∧
      output = prefillOutputs st.work (chunkTokensOf st tokens.prefillTokenIds) ++
        st.decodeReqs.zip tokens.decodeTokenIds := by
  have hnodup := h.perm.nodup_iff.mpr h.batch.nodup
  obtain ⟨hpackNodup, -, hdisjoint⟩ := List.nodup_append.mp hnodup
  obtain ⟨entries₁, hloop₁, hdecoded, hframe₁⟩ := h.decode_delivered hdecodeLen
  obtain ⟨entries₂, nothing, hloop₂, hlengths, hframe₂⟩ :=
    updatePrefillSeqLens_ok hpackNodup entries₁
  -- before the last loop a chunk has its length, and nothing else has changed
  have hbefore : ∀ pr ∈ st.pack, entries₂ pr.reqId =
      { entries pr.reqId with seqLen := some (pr.startPos + pr.tokenIds.length) } := by
    intro pr hpr
    rw [hlengths pr hpr, hframe₁ pr.reqId fun hin =>
      hdisjoint _ (List.mem_map_of_mem hpr) _ hin rfl]
  obtain ⟨entries₃, hloop₃, hchunks, hframe₃⟩ := h.chunks_delivered hprefillLen hbefore
  simp only [applyTokens, hloop₁, hloop₂, hloop₃] at hok
  cases hok
  have hkeys := h.keys_output (chunkTokensOf st tokens.prefillTokenIds)
    (List.map_fst_zip (le_of_eq hdecodeLen.symm))
  refine ⟨hkeys, known_delivered (hkeys.nodup_iff.mpr h.batch.nodup) ?_ ?_, rfl⟩
  · intro reqId hin
    -- a request of the step is a decode row or a chunk
    obtain hdec | ⟨i, pending, hpending, rfl⟩ := h.exists_pending hin
    · have hzip : reqId ∈ (st.decodeReqs.zip tokens.decodeTokenIds).map Prod.fst := by
        rw [List.map_fst_zip (le_of_eq hdecodeLen.symm)]
        exact hdec
      obtain ⟨item, hitem, rfl⟩ := List.mem_map.mp hzip
      have hnot : item.1 ∉ st.pack.map fun pr => pr.reqId :=
        fun hin => hdisjoint _ hin _ hdec rfl
      obtain ⟨life, hopened, hentry⟩ := hdecoded item hitem
      refine ⟨life, item.2, hopened, List.mem_append_right _ hitem, ?_⟩
      rw [hframe₃ _ hnot, hframe₂ _ hnot]
      exact hentry
    · obtain ⟨life, hopened, hentry⟩ := hchunks i pending hpending
      exact ⟨life, _, hopened, List.mem_append_left _ (h.mem_prefillOutputs _ hpending), hentry⟩
  · intro reqId hnot
    have hnotPack : reqId ∉ st.pack.map fun pr => pr.reqId := fun hin =>
      hnot (h.perm.mem_iff.mp (List.mem_append_left _ hin))
    have hnotDecode : reqId ∉ st.decodeReqs := fun hin =>
      hnot (h.perm.mem_iff.mp (List.mem_append_right _ hin))
    rw [hframe₃ _ hnotPack, hframe₂ _ hnotPack, hframe₁ _ hnotDecode]
    exact h.batch.rest reqId hnot

/-- The two ways in which a step is sampled. -/
theorem samplePagedBatch_cases {target : Target Row} {st : PagedForwardState Row}
    {output : StepOutput}
    (hok : samplePagedBatch target st entries = .ok (entries', output)) :
    (st.intermediateOnly = true ∧ output = prefillOutputs st.work [] ∧ ∃ nothing,
      forEach (fun pr : PrefillRequest => pr.reqId) updatePrefillSeqLen st.pack entries =
        .ok (entries', nothing)) ∨
    ∃ tokens, sampleStep target st entries = .ok tokens ∧
      applyTokens st tokens entries = .ok (entries', output) := by
  unfold samplePagedBatch at hok
  split at hok
  · next honly =>
    split at hok
    · cases hok
    · split at hok
      · cases hok
      · next after nothing hloop =>
        cases hok
        exact Or.inl ⟨honly, rfl, nothing, hloop⟩
  · split at hok
    · cases hok
    · next tokens htokens => exact Or.inr ⟨tokens, htokens, hok⟩

/-- **The sampling half of a step**: the output has one slot for each scheduled request, and the
entries follow the lives that it delivers. -/
theorem samplePagedBatch_delivered {target : Target Row} {st : PagedForwardState Row}
    (h : Executed opened entries st) {output : StepOutput}
    (hok : samplePagedBatch target st entries = .ok (entries', output)) :
    (output.map Prod.fst).Perm st.out.scheduledReqIds ∧
      Known (delivered st.out output opened) entries' := by
  obtain ⟨honly, rfl, nothing, hloop⟩ | ⟨tokens, htokens, hok⟩ := samplePagedBatch_cases hok
  · exact h.intermediate_delivered honly hloop
  · obtain ⟨hdecodeLen, hprefillLen⟩ := h.length_sampleStep htokens
    obtain ⟨hkeys, hknown, -⟩ := h.applyTokens_delivered hdecodeLen hprefillLen hok
    exact ⟨hkeys, hknown⟩

/-! ### Steps without drafts -/

/-- Without drafts each decode request has one token. -/
theorem Executed.decodeTokenIds_one {target : Target Row} {st : PagedForwardState Row}
    (h : Executed opened entries st)
    (hdrafts : ∀ reqId, st.out.scheduledSpecDecodeTokens.getD reqId [] = []) {tokens : StepTokens}
    (htokens : sampleStep target st entries = .ok tokens) :
    ∀ ids ∈ tokens.decodeTokenIds, ∃ token, ids = [token] := by
  have hnone : (st.segments.any fun segment => !segment.draftTokenIds.isEmpty) = false := by
    rw [List.any_eq_false]
    intro segment hsegment
    rw [h.segments] at hsegment
    obtain ⟨req, -, row, rfl⟩ := mem_segmentList hsegment
    rw [hdrafts]
    simp [segmentOf]
  unfold sampleStep decodeTokenIds at htokens
  rw [hnone] at htokens
  simp only [Bool.false_eq_true, if_false] at htokens
  cases htokens
  intro ids hids
  obtain ⟨i, hi, rfl⟩ := List.mem_mapIdx.mp hids
  exact ⟨_, rfl⟩

/-- **Without drafts a step samples one token for each of its requests**, but for those whose chunk
does not reach the end of their tokens. -/
theorem samplePagedBatch_one {target : Target Row} {st : PagedForwardState Row}
    (h : Executed opened entries st)
    (hdrafts : ∀ reqId, st.out.scheduledSpecDecodeTokens.getD reqId [] = []) {output : StepOutput}
    (hok : samplePagedBatch target st entries = .ok (entries', output)) {reqId : ReqId}
    (hin : reqId ∈ st.out.scheduledReqIds) (hopened : opened reqId = some life) :
    (∃ outs start, life.stage = .computing outs start ∧
        start + st.out.numScheduledTokens reqId < life.tokens.length) ∨
      ∃ token, tokensOf output reqId = [token] := by
  have hnodup := ((samplePagedBatch_delivered h hok).1.nodup_iff.mpr h.batch.nodup)
  obtain hdec | ⟨i, pending, hpending, rfl⟩ := h.exists_pending hin
  · right
    obtain ⟨honly, -⟩ | ⟨tokens, htokens, hok⟩ := samplePagedBatch_cases hok
    · rw [(h.intermediate honly).1] at hdec
      exact absurd hdec List.not_mem_nil
    · obtain ⟨hdecodeLen, hprefillLen⟩ := h.length_sampleStep htokens
      obtain ⟨-, -, houtput⟩ := h.applyTokens_delivered hdecodeLen hprefillLen hok
      have hzip : reqId ∈ (st.decodeReqs.zip tokens.decodeTokenIds).map Prod.fst := by
        rw [List.map_fst_zip (le_of_eq hdecodeLen.symm)]
        exact hdec
      obtain ⟨⟨_, ids⟩, hitem, rfl⟩ := List.mem_map.mp hzip
      obtain ⟨token, rfl⟩ := h.decodeTokenIds_one hdrafts htokens ids (List.of_mem_zip hitem).2
      refine ⟨token, tokensOf_eq hnodup ?_⟩
      rw [houtput]
      exact List.mem_append_right _ hitem
  · obtain ⟨life', hopened', hqueued⟩ := h.batch.queued (List.mem_of_getElem? hpending)
    obtain rfl := Option.some.inj (hopened.symm.trans hopened')
    obtain ⟨outs, start, hchunk⟩ := hqueued.chunkAt
    by_cases hlt : start + st.out.numScheduledTokens pending.reqId < life.tokens.length
    · exact Or.inl ⟨outs, start, hchunk.stage, hlt⟩
    · right
      obtain ⟨honly, -⟩ | ⟨tokens, htokens, hok⟩ := samplePagedBatch_cases hok
      · exact absurd (h.intermediate_chunk honly hpending hchunk) hlt
      · obtain ⟨hdecodeLen, hprefillLen⟩ := h.length_sampleStep htokens
        obtain ⟨-, -, houtput⟩ := h.applyTokens_delivered hdecodeLen hprefillLen hok
        -- the chunk reaches the end, so its slot has the sampled token
        obtain ⟨hpendings, -⟩ := sampledChunks_eq h.pack.length_eq hprefillLen
        have hat := hpending
        rw [← hpendings, List.getElem?_map] at hat
        obtain ⟨chunk, hchunkAt, rfl⟩ := Option.map_eq_some_iff.mp hat
        have hmode : chunk.pending.resultMode ≠ .intermediate :=
          fun hmode => hlt (hchunk.intermediate.mp hmode)
        have hslot : (chunkTokensOf st tokens.prefillTokenIds).getD i [] = [chunk.nextToken] := by
          rw [chunkTokensOf, List.getD_eq_getElem?_getD, List.getElem?_map, hchunkAt,
            Option.map_some,
            Option.getD_some, SampledChunk.tokens, if_neg hmode]
        refine ⟨chunk.nextToken, tokensOf_eq hnodup ?_⟩
        rw [houtput, ← hslot]
        exact List.mem_append_left _ (h.mem_prefillOutputs _ hpending)

end PagedRunner
end VllmMetal
