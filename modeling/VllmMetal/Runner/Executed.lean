import VllmMetal.Runner.Lives
import VllmMetal.Runner.Pipeline

/-!
# A step between its two halves

The forward leaves the entries as they are, but for what is remembered of image blocks, and the
chunks and the segments that it runs over are those of the requests' tokens.

## Main definitions

* `PackedAs` — a chunk of the pack.
* `Executed` — what a step keeps for its sampling half.

## Main results

* `forwardBatch_executed` — **the forward of a step over the batch of its schedule**.
* `Executed.chunk`, `Executed.segment` — its chunks and its segments, by position.
-/

namespace VllmMetal
namespace PagedRunner

open SpecDecode Multimodal

variable {Row : Type} {lives opened : ReqId → Option Life} {entries entries' : Entries}
  {out : SchedulerOutput} {life : Life} {entry : Entry} {n : ℕ}

/-! ### The pack -/

/-- The chunk of a request in the pack: the tokens up to its end are there, unless it starts at the
first of them. -/
def PackedAs (opened : ReqId → Option Life) (pending : PendingPrefillEntry) (pr : PrefillRequest) :
    Prop :=
  ∃ life fullPrompt, opened pending.reqId = some life ∧
    pr = { pending.prefill with fullPromptTokenIds := fullPrompt } ∧
    (∀ tokens, fullPrompt = some tokens → tokens = life.tokens) ∧
    (fullPrompt = none → pending.prefill.startPos = 0)

/-- The one new request of an id. -/
theorem find?_reverse_of_mem {newReqs : List NewRequestData}
    (hnodup : (newReqs.map NewRequestData.reqId).Nodup) {newReq : NewRequestData}
    (hmem : newReq ∈ newReqs) {reqId : ReqId} (hid : newReq.reqId = reqId) :
    newReqs.reverse.find? (fun newReq => newReq.reqId = reqId) = some newReq := by
  cases hfound : newReqs.reverse.find? (fun newReq => newReq.reqId = reqId) with
  | none =>
    have hnot := List.find?_eq_none.mp hfound newReq (List.mem_reverse.mpr hmem)
    exact absurd (decide_eq_true hid) hnot
  | some other =>
    have hother : other.reqId = reqId := by simpa using List.find?_some hfound
    have hmem' : other ∈ newReqs := List.mem_reverse.mp (List.mem_of_find?_eq_some hfound)
    rw [List.inj_on_of_nodup_map hnodup hmem' hmem (hother.trans hid.symm)]

/-- Whether a chunk is packed with the tokens up to its end. -/
def needsFullPrompt (isMmRequest wantsPromptLogprobs : ReqId → Bool) (prefill : PrefillRequest) :
    Bool :=
  decide (0 < prefill.startPos) || isMmRequest prefill.reqId || wantsPromptLogprobs prefill.reqId

/-- The chunk of a request whose tokens are in its state, or in the new request that it is. -/
theorem packPrefillEntry_eq (isMmRequest wantsPromptLogprobs : ReqId → Bool)
    {newReqs : List NewRequestData} (hnodup : (newReqs.map NewRequestData.reqId).Nodup)
    {pending : PendingPrefillEntry} {tokens : List Token}
    (htokens : (∃ state, (entries pending.reqId).state = some state ∧ state.tokenIds = tokens) ∨
      ((entries pending.reqId).state = none ∧ ∃ newReq ∈ newReqs, newReq.reqId = pending.reqId ∧
        newReq.promptTokenIds = some tokens)) :
    packPrefillEntry isMmRequest wantsPromptLogprobs newReqs entries pending =
      .ok { pending.prefill with
        fullPromptTokenIds := (if needsFullPrompt isMmRequest wantsPromptLogprobs pending.prefill
          then some tokens else none) } := by
  unfold packPrefillEntry needsFullPrompt
  by_cases hneeds : (decide (0 < pending.prefill.startPos) || isMmRequest pending.prefill.reqId ||
      wantsPromptLogprobs pending.prefill.reqId) = true
  · rw [if_pos hneeds, if_pos hneeds]
    obtain ⟨state, hstate, rfl⟩ | ⟨hnone, newReq, hmem, hid, hprompt⟩ := htokens
    · have hstate : (entries pending.prefill.reqId).state = some state := hstate
      simp only [hstate]
    · -- the request is new, and its state is not there yet
      have hnone : (entries pending.prefill.reqId).state = none := hnone
      have hfind : newReqs.reverse.find? (fun newReq => newReq.reqId = pending.prefill.reqId) =
          some newReq := find?_reverse_of_mem hnodup hmem hid
      simp only [hnone, hfind, hprompt]
  · rw [if_neg hneeds, if_neg hneeds]

/-- The tokens of a queued request are in its state, or in the new request that it is. -/
theorem Queued.tokens {newReqs : List NewRequestData} {pending : PendingPrefillEntry}
    (h : Queued newReqs n life entry pending) :
    (∃ state, entry.state = some state ∧ state.tokenIds = life.tokens) ∨
      (entry.state = none ∧ ∃ newReq ∈ newReqs, newReq.reqId = pending.reqId ∧
        newReq.promptTokenIds = some life.tokens) := by
  obtain ⟨state, hstate, -, htokens, -⟩ | ⟨hnone, -, houts, newReq, hmem, hid, hprompt⟩ := h.state
  · exact Or.inl ⟨state, hstate, htokens⟩
  · refine Or.inr ⟨hnone, newReq, hmem, hid, ?_⟩
    rw [hprompt, Life.tokens, houts, List.append_nil]

/-- **The chunk of a queued request is packed.** -/
theorem packPrefillEntry_ok (isMmRequest wantsPromptLogprobs : ReqId → Bool)
    {newReqs : List NewRequestData} (hnodup : (newReqs.map NewRequestData.reqId).Nodup)
    {pending : PendingPrefillEntry} (hopened : opened pending.reqId = some life)
    (hqueued : Queued newReqs n life (entries pending.reqId) pending) :
    ∃ pr, packPrefillEntry isMmRequest wantsPromptLogprobs newReqs entries pending = .ok pr ∧
      PackedAs opened pending pr := by
  refine ⟨_, packPrefillEntry_eq isMmRequest wantsPromptLogprobs hnodup hqueued.tokens, life, _,
    hopened, rfl, ?_, ?_⟩
  · intro tokens h
    split at h
    · exact (Option.some.inj h).symm
    · cases h
  · intro h
    by_cases hneeds : needsFullPrompt isMmRequest wantsPromptLogprobs pending.prefill = true
    · rw [if_pos hneeds] at h
      cases h
    · simp only [needsFullPrompt, Bool.or_eq_true, not_or, decide_eq_true_eq, Nat.pos_iff_ne_zero,
        ne_eq, not_not] at hneeds
      exact hneeds.1.1

/-! ### The forward -/

/-- What a step keeps for its sampling half, over the entries behind its forward. -/
structure Executed (opened : ReqId → Option Life) (entries : Entries) (st : PagedForwardState Row) :
    Prop where
  batch : BatchOf st.out opened entries st.work
  decodeReqs : st.decodeReqs = st.work.filterMap Work.decode?
  segments : st.segments = segmentList st.out.scheduledSpecDecodeTokens
    (seqLensOf entries st.decodeReqs) 0 (decodeStates entries st.decodeReqs)
  pack : List.Forall₂ (PackedAs opened) (st.work.filterMap Work.prefill?) st.pack
  intermediate : st.intermediateOnly = true → st.decodeReqs = [] ∧
    ∀ pr ∈ st.pack, pr.promptLen = none

/-- What remembering image blocks leaves of an entry. -/
structure BidiOnly (entry entry' : Entry) : Prop where
  states : entry'.states = entry.states
  seqLen : entry'.seqLen = entry.seqLen
  awaiting : entry'.awaitingReadmission = entry.awaitingReadmission

theorem BidiOnly.refl (entry : Entry) : BidiOnly entry entry := ⟨rfl, rfl, rfl⟩

theorem BidiOnly.trans {a b c : Entry} (hab : BidiOnly a b) (hbc : BidiOnly b c) : BidiOnly a c :=
  ⟨hbc.states.trans hab.states, hbc.seqLen.trans hab.seqLen, hbc.awaiting.trans hab.awaiting⟩

theorem CollectedAs.congr {newReqs : List NewRequestData} {reqId : ReqId} {piece : Work}
    {entry' : Entry} (h : CollectedAs newReqs reqId n life entry piece)
    (hsame : BidiOnly entry entry') :
    CollectedAs newReqs reqId n life entry' piece := by
  have hstate : entry'.state = entry.state := congrArg Slot.held hsame.states
  cases piece with
  | output => exact h.elim
  | prefill pending =>
    obtain ⟨hid, hne, hchunk, hawaiting, hqueued⟩ := h
    exact ⟨hid, hne, hchunk, hsame.awaiting.trans hawaiting, hstate ▸ hqueued⟩
  | decode id =>
    obtain ⟨hid, houts, htracks, hawaiting⟩ := h
    exact ⟨hid, houts, htracks.congr hstate hsame.seqLen, hsame.awaiting.trans hawaiting⟩

/-- The ids of the chunks of a batch. -/
theorem sublist_prefills (work : List Work) :
    ((work.filterMap Work.prefill?).map PendingPrefillEntry.reqId).Sublist
      (work.map Work.reqId) := by
  induction work with
  | nil => exact List.Sublist.refl _
  | cons piece work ih =>
    cases piece with
    | output reqId tokenIds => exact ih.cons _
    | prefill pending => exact ih.cons_cons _
    | decode reqId => exact ih.cons _

/-- A chunk of the batch, with its request. -/
theorem BatchOf.queued {work : List Work} (h : BatchOf out opened entries work)
    {pending : PendingPrefillEntry} (hmem : pending ∈ work.filterMap Work.prefill?) :
    ∃ life, opened pending.reqId = some life ∧ Queued out.scheduledNewReqs
      (out.numScheduledTokens pending.reqId) life (entries pending.reqId) pending := by
  obtain ⟨piece, hpiece, hprefill⟩ := List.mem_filterMap.mp hmem
  obtain ⟨life, hopened, hcollected⟩ := h.work piece hpiece
  cases piece with
  | output => cases hprefill
  | decode => cases hprefill
  | prefill pending' =>
    obtain rfl := Option.some.inj hprefill
    exact ⟨life, hopened, hcollected.2⟩

/-- The decode work of the batch, with its request. -/
theorem BatchOf.decoding {work : List Work} (h : BatchOf out opened entries work) {reqId : ReqId}
    (hmem : reqId ∈ work.filterMap Work.decode?) :
    ∃ life outs, opened reqId = some life ∧ life.stage = .decoding outs ∧
      Tracks life (entries reqId) ∧ (entries reqId).awaitingReadmission = false := by
  obtain ⟨piece, hpiece, hdecode⟩ := List.mem_filterMap.mp hmem
  obtain ⟨life, hopened, hcollected⟩ := h.work piece hpiece
  cases piece with
  | output => cases hdecode
  | prefill => cases hdecode
  | decode id =>
    obtain rfl := Option.some.inj hdecode
    obtain ⟨-, ⟨outs, houts⟩, htracks, hawaiting⟩ := hcollected
    exact ⟨life, outs, hopened, houts, htracks, hawaiting⟩

theorem BatchOf.mem_of_prefill {work : List Work} (h : BatchOf out opened entries work)
    {pending : PendingPrefillEntry} (hmem : pending ∈ work.filterMap Work.prefill?) :
    pending.reqId ∈ out.scheduledReqIds := by
  rw [← h.ids]
  exact (sublist_prefills work).subset (List.mem_map_of_mem hmem)

/-- **The pack of a batch.** -/
theorem BatchOf.pack {work : List Work} (h : BatchOf out opened entries work)
    {isMmRequest wantsPromptLogprobs : ReqId → Bool} {pack : List PrefillRequest}
    (hpack : buildPrefillPack isMmRequest wantsPromptLogprobs out.scheduledNewReqs entries
      (work.filterMap Work.prefill?) = .ok pack) :
    List.Forall₂ (PackedAs opened) (work.filterMap Work.prefill?) pack := by
  have hnodup := (List.nodup_append.mp h.nodup).1
  have hall := mapM_eq_ok_iff.mp hpack
  rw [List.forall₂_iff_get] at hall ⊢
  refine ⟨hall.1, fun i hi hi' => ?_⟩
  obtain ⟨life, hopened, hqueued⟩ := h.queued (List.get_mem _ ⟨i, hi⟩)
  obtain ⟨pr, hok, hpacked⟩ := packPrefillEntry_ok isMmRequest wantsPromptLogprobs hnodup hopened
    hqueued
  have hpr := hall.2 i hi hi'
  rw [hok] at hpr
  exact Except.ok.inj hpr ▸ hpacked

/-- What remembering image blocks changes. -/
theorem noteImageBlocks_bidiOnly {world : StepWorld} {pr : PrefillRequest} {entry' : Entry}
    {b : List Unit} (h : noteImageBlocks world pr entry = .ok (entry', b)) :
    BidiOnly entry entry' := by
  unfold noteImageBlocks at h
  split at h <;> cases h <;> exact ⟨rfl, rfl, rfl⟩

theorem decodeStates_congr {reqIds : List ReqId}
    (h : ∀ reqId, BidiOnly (entries reqId) (entries' reqId)) :
    decodeStates entries' reqIds = decodeStates entries reqIds := by
  unfold decodeStates
  refine List.filterMap_congr fun reqId _ => ?_
  rw [Entry.state, Entry.state, (h reqId).states]

theorem seqLensOf_congr {reqIds : List ReqId}
    (h : ∀ reqId, BidiOnly (entries reqId) (entries' reqId)) :
    seqLensOf entries' reqIds = seqLensOf entries reqIds := by
  unfold seqLensOf
  simp only [(h _).seqLen]

theorem BatchOf.congr {work : List Work} (h : BatchOf out opened entries work)
    (hsame : ∀ reqId, BidiOnly (entries reqId) (entries' reqId))
    (hframe : ∀ reqId ∉ out.scheduledReqIds, entries' reqId = entries reqId) :
    BatchOf out opened entries' work where
  ids := h.ids
  nodup := h.nodup
  work piece hpiece := by
    obtain ⟨life, hopened, hcollected⟩ := h.work piece hpiece
    exact ⟨life, hopened, hcollected.congr (hsame _)⟩
  rest reqId hnot := by
    rw [hframe reqId hnot]
    exact h.rest reqId hnot

/-- What a forward keeps for the sampling half, and what it leaves of the entries. -/
structure Started (cfg : RunnerConfig) (step : SchedulerOutput) (batch : List Work)
    (chunks : List PrefillRequest) (spans : List PagedDecodeSegment) (entries : Entries)
    (st : PagedForwardState Row) (entries' : Entries) : Prop where
  out : st.out = step
  work : st.work = batch
  decodeReqs : st.decodeReqs = batch.filterMap Work.decode?
  segments : st.segments = spans
  pack : st.pack = chunks
  intermediate : ∃ mmForward, st.intermediateOnly =
    isIntermediateOnly cfg mmForward (batch.filterMap Work.decode?) chunks
  bidi : ∀ reqId, BidiOnly (entries reqId) (entries' reqId)
  frame : ∀ reqId ∉ chunks.map (fun pr => pr.reqId), entries' reqId = entries reqId

/-- **The forward itself** does not raise. -/
theorem startPagedForward_ok (target : Target Row) (cfg : RunnerConfig) (world : StepWorld)
    (out : SchedulerOutput) (work : List Work) (pack : List PrefillRequest)
    (segments : List PagedDecodeSegment) (inputIds : List Token) (entries : Entries)
    (history : List StepRecord) :
    ∃ st entries',
      startPagedForward target cfg world out work pack segments inputIds entries history =
        .ok (st, entries', history ++ [⟨out, some ⟨inputIds, segments.map RowSpan.ofSegment,
          pack.map RowSpan.ofChunk⟩⟩]) ∧
      Started cfg out work pack segments entries st entries' := by
  unfold startPagedForward
  simp only
  split
  · have hnote : ∀ pr entry, ∃ result, noteImageBlocks world pr entry = .ok result := by
      intro pr entry
      unfold noteImageBlocks
      split <;> exact ⟨_, rfl⟩
    have htotal : ∃ result, forEach (fun pr : PrefillRequest => pr.reqId) (noteImageBlocks world)
        pack entries = .ok result := forEach_total hnote pack entries
    obtain ⟨⟨after, nothing⟩, hloop⟩ := htotal
    simp only [hloop]
    refine ⟨_, _, rfl, rfl, rfl, rfl, rfl, rfl, ⟨_, rfl⟩, fun reqId => ?_, fun reqId hnot => ?_⟩
    · exact forEach_rel (R := BidiOnly) .refl (fun _ _ _ => .trans)
        (fun pr _ _ _ _ hact => noteImageBlocks_bidiOnly hact) hloop reqId
    · exact forEach_frame hloop hnot
  · exact ⟨_, _, rfl, rfl, rfl, rfl, rfl, rfl, ⟨_, rfl⟩, fun reqId => .refl _, fun _ _ => rfl⟩

/-- The ids of a pack are scheduled. -/
theorem BatchOf.mem_of_pack {work : List Work} (h : BatchOf out opened entries work)
    {pack : List PrefillRequest}
    (hpack : List.Forall₂ (PackedAs opened) (work.filterMap Work.prefill?) pack) {reqId : ReqId}
    (hin : reqId ∈ pack.map fun pr => pr.reqId) : reqId ∈ out.scheduledReqIds := by
  obtain ⟨pr, hpr, rfl⟩ := List.mem_map.mp hin
  obtain ⟨i, hi⟩ := List.mem_iff_getElem?.mp hpr
  obtain ⟨pending, hpending, life, fullPrompt, -, rfl, -⟩ := exists_of_forall₂ hpack hi
  exact h.mem_of_prefill (List.mem_of_getElem? hpending)

/-- The segments of a step that was not refused. -/
theorem stepSegments_eq {reqIds : List ReqId} {segments : List PagedDecodeSegment}
    (h : stepSegments out entries reqIds = .ok segments) :
    segments = segmentList out.scheduledSpecDecodeTokens (seqLensOf entries reqIds) 0
      (decodeStates entries reqIds) := by
  unfold stepSegments at h
  split at h
  · cases h
  · next segments' hok =>
    cases h
    exact buildDecodeSegments_eq hok

/-- The forward of a step that has paged work, stage by stage. -/
theorem forwardBatch_cases {target : Target Row} {cfg : RunnerConfig} {world : StepWorld}
    {p : Pipeline}
    {history : List StepRecord} {work : List Work} {r : Runner Row}
    (h : forwardBatch target cfg world out p history work entries = .ok r) :
    ∃ pack segments inputIds st, buildPrefillPack world.isMmRequest world.wantsPromptLogprobs
        out.scheduledNewReqs entries (work.filterMap Work.prefill?) = .ok pack ∧
      stepSegments out entries (work.filterMap Work.decode?) = .ok segments ∧
      stepInputIds p segments pack = .ok inputIds ∧
      Started cfg out work pack segments entries st r.entries ∧
      r = ⟨r.entries, p, history ++ [⟨out, some ⟨inputIds, segments.map RowSpan.ofSegment,
        pack.map RowSpan.ofChunk⟩⟩], some st⟩ := by
  unfold forwardBatch at h
  split at h
  · cases h
  next pack hpack =>
  split at h
  · cases h
  next segments hsegments =>
  split at h
  · cases h
  next inputIds hinput =>
  obtain ⟨st, entries', hstart, hstarted⟩ := startPagedForward_ok target cfg world out work pack
    segments inputIds entries history
  rw [hstart] at h
  cases h
  exact ⟨pack, segments, inputIds, st, hpack, hsegments, hinput, hstarted, rfl⟩

/-- **The forward of a step** over the batch of its schedule. -/
theorem forwardBatch_executed {target : Target Row} {cfg : RunnerConfig} {world : StepWorld}
    {p : Pipeline} {history : List StepRecord} {work : List Work} {r : Runner Row}
    (hbatch : BatchOf out opened entries work)
    (h : forwardBatch target cfg world out p history work entries = .ok r) :
    ∃ st input, r.executeModelState = some st ∧ st.out = out ∧ Executed opened r.entries st ∧
      r.history = history ++ [⟨out, some input⟩] := by
  obtain ⟨pack, segments, inputIds, st, hpack, hsegments, -, hstarted, heq⟩ := forwardBatch_cases h
  have hpacked := hbatch.pack hpack
  have hbatch' := hbatch.congr hstarted.bidi fun reqId hnot =>
    hstarted.frame reqId fun hin => hnot (hbatch.mem_of_pack hpacked hin)
  rw [heq]
  refine ⟨st, _, rfl, hstarted.out, ⟨?_, ?_, ?_, ?_, ?_⟩, rfl⟩
  · rw [hstarted.out, hstarted.work]
    exact hbatch'
  · rw [hstarted.decodeReqs, hstarted.work]
  · rw [hstarted.segments, hstarted.out, hstarted.decodeReqs, stepSegments_eq hsegments,
      seqLensOf_congr hstarted.bidi, decodeStates_congr hstarted.bidi]
  · rw [hstarted.work, hstarted.pack]
    exact hpacked
  · intro hyes
    obtain ⟨mmForward, hintermediate⟩ := hstarted.intermediate
    rw [hintermediate] at hyes
    simp only [isIntermediateOnly, Bool.and_eq_true, List.isEmpty_iff, List.all_eq_true,
      Option.isNone_iff_eq_none] at hyes
    rw [hstarted.decodeReqs, hstarted.pack]
    exact ⟨hyes.1.1.1.2, hyes.1.2⟩

end PagedRunner
end VllmMetal
