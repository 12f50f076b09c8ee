import VllmMetal.BlockDraft.Schedule
import Mathlib.Algebra.GroupWithZero.Nat

/-!
# What a step does to each of its requests

A step packs the rows of its decode segments and of its prefill chunks.  Here each row that
`propose` ingests is traced back to its request: it starts where the request has been
computed to, it commits as many positions as the scheduler then counts, and its packed
features are those of the committed tokens.  A verified draft row has the feature of the
committed token because the draft was that token.

## Main results

* `advance_of_mem` — every ingested row advances a request of the step.
* `exists_row` — every request of the step has a row.
* `eligible_advance` — a request that may be drafted for has committed all but its last token.
-/

namespace VllmMetal
namespace BlockDraft

open SpecDecode

variable {F Cell : Type*} {cfg : DrafterConfig} {feat : List Token → F} {s : System Cell}
  {inp : StepInput}

/-! ### The invariant of one request -/

/-- What holds of a request between the events of a run. -/
structure RequestOk (cfg : DrafterConfig) (s : System Cell) (id : ReqId) (r : LiveRequest) :
    Prop where
  group : r.state.blockIds[cfg.groupIndex]? = some (r.table cfg)
  prompt : r.state.promptLen ≤ r.tokens.length
  generated : 0 ≤ r.state.generatedTokens
  computed : r.computed ≤ r.tokens.length
  scheduled : ∀ n, r.scheduled = some n → 0 < n
  decoding : r.state.generatedTokens ≠ 0 →
    r.computed + 1 = r.tokens.length ∧ s.seqLens.get? id = some r.computed
  prefilling : r.state.generatedTokens = 0 → r.computed + r.scheduled.getD 0 ≤ r.tokens.length

/-! ### Rows and requests -/

/-- The row commits the request's next positions, with the features of its tokens. -/
structure Advance (cfg : DrafterConfig) (feat : List Token → F) (features : List F)
    (r r' : LiveRequest) (row : IngestRow) : Prop where
  groups : row.groups = r.state.blockIds
  start : row.start = r.computed
  count : r'.computed = r.computed + row.count
  count_pos : 0 < row.count
  isPrefill : row.isPrefill = decide (r.state.generatedTokens = 0)
  blockIds : r'.state.blockIds = r.state.blockIds
  tokens : r.tokens <+: r'.tokens
  computed : r'.computed ≤ r'.tokens.length
  reach : r.reach ≤ r'.computed
  scheduled : r'.scheduled = none
  ingested : r'.ingested = (r.ingested || decide (r.computed < cfg.maxModelLen))
  rows : ∀ i < row.count, features[row.row + i]? =
    some (feat (r'.tokens.take (r.computed + i + 1)))

theorem Advance.table {features : List F} {r r' : LiveRequest} {row : IngestRow}
    (h : Advance cfg feat features r r' row) : r'.table cfg = r.table cfg := by
  rw [LiveRequest.table, LiveRequest.table, h.blockIds]

/-! ### Decode rows -/

theorem Legal.decode_get? (hlegal : Legal s inp) {d : DecodeItem} (hd : d ∈ inp.decodes) :
    s.live.get? d.reqId = some d.request :=
  (hlegal.decode d hd).1

theorem length_sampled_pos (hlegal : Legal s inp) {d : DecodeItem} (hd : d ∈ inp.decodes) :
    0 < (d.sampled inp.specTokens).length ∧
      (d.sampled inp.specTokens).length ≤ (d.drafts inp.specTokens).length + 1 :=
  acceptDrafts_length _ _ (hlegal.decode d hd).2.2.2

/-- The first packed row of decode `i`. -/
def decodeRow (inp : StepInput) (i : ℕ) : ℕ :=
  ((inp.decodes.map fun d => (d.drafts inp.specTokens).length + 1).take i).sum

theorem getElem?_decodeSegments {i : ℕ} {d : DecodeItem} (hi : inp.decodes[i]? = some d) :
    (stepContext cfg feat s inp).decodeSegments[i]? = some (segmentOf s.seqLens (decodeRow inp i)
      d.reqId d.request.state.toRequestState (d.drafts inp.specTokens)) := by
  have hreq : (inp.decodes.map fun d => (d.reqId, d.request.state.toRequestState))[i]? =
      some (d.reqId, d.request.state.toRequestState) := by
    rw [List.getElem?_map, hi, Option.map_some]
  have h := @getElem?_segmentList inp.specTokens s.seqLens _ _ _ hreq 0
  rw [List.map_map, Nat.zero_add] at h
  exact h

/-- A decode row's features, in the packed features of the step. -/
theorem getElem?_decodeFeatures {i : ℕ} {d : DecodeItem} (hi : inp.decodes[i]? = some d) {j : ℕ}
    (hj : j < (d.drafts inp.specTokens).length + 1) :
    (stepContext cfg feat s inp).targetAuxHiddenStates[decodeRow inp i + j]? =
      some (feat (d.request.tokens ++ (d.drafts inp.specTokens).take j)) := by
  have hlens : (inp.decodes.map fun d => (d.features feat inp.specTokens).length) =
      inp.decodes.map fun d => (d.drafts inp.specTokens).length + 1 := by
    simp [DecodeItem.features]
  have h := getElem?_flatMap_boundary (f := DecodeItem.features feat inp.specTokens) hi (j := j)
    (by simpa [DecodeItem.features] using hj)
  have hlt : i ≤ inp.decodes.length := Nat.le_of_lt (List.getElem?_eq_some_iff.mp hi).1
  rw [hlens, getD_boundaries (by simpa using hlt)] at h
  have hrow : (d.features feat inp.specTokens)[j]? =
      some (feat (d.request.tokens ++ (d.drafts inp.specTokens).take j)) := by
    rw [DecodeItem.features, List.getElem?_map, List.getElem?_range hj, Option.map_some]
  rw [hrow] at h
  obtain ⟨hbound, hval⟩ := List.getElem?_eq_some_iff.mp h
  simp only [stepContext]
  rw [decodeRow, List.getElem?_append_left hbound]
  exact h

/-- **A decode row commits the anchor and the accepted drafts.** -/
theorem advance_decode (hok : ∀ id r, s.live.get? id = some r → RequestOk cfg s id r)
    (hlegal : Legal s inp) {i : ℕ} {d : DecodeItem} (hi : inp.decodes[i]? = some d) :
    Advance cfg feat (stepContext cfg feat s inp).targetAuxHiddenStates d.request
      (d.next cfg inp.specTokens)
      (decodeIngest (segmentOf s.seqLens (decodeRow inp i) d.reqId
        d.request.state.toRequestState (d.drafts inp.specTokens)) (d.sampled inp.specTokens)) := by
  have hd : d ∈ inp.decodes := List.mem_of_getElem? hi
  obtain ⟨hlive, hgen, hsched, hrows⟩ := hlegal.decode d hd
  have hreq := hok _ _ hlive
  obtain ⟨hlast, hseq⟩ := hreq.decoding hgen
  obtain ⟨hpos, hle⟩ := length_sampled_pos hlegal hd
  have hnext : (d.next cfg inp.specTokens).tokens = d.request.tokens ++ d.sampled inp.specTokens :=
    rfl
  refine
    { groups := rfl
      start := ?_
      count := rfl
      count_pos := hpos
      isPrefill := by simpa [decodeIngest] using hgen
      blockIds := rfl
      tokens := List.prefix_append _ _
      computed := ?_
      reach := ?_
      scheduled := rfl
      ingested := rfl
      rows := ?_ }
  · simp [decodeIngest, segmentOf, Dict.getD, hseq]
  · rw [hnext, List.length_append]
    simp only [DecodeItem.next, LiveRequest.decoded]
    omega
  · simp only [LiveRequest.reach, DecodeItem.next, LiveRequest.decoded]
    omega
  -- row `j` has read the pending token and the sampled ones before `j`
  · intro j hj
    have hjlen : j < (d.sampled inp.specTokens).length := hj
    have hfeat := @getElem?_decodeFeatures _ _ cfg feat s _ _ _ hi j (by omega)
    simp only [decodeIngest, segmentOf] at hj ⊢
    rw [hfeat, hnext, show d.request.computed + j + 1 = d.request.tokens.length + j by omega,
      List.take_length_add_append, DecodeItem.sampled, take_acceptDrafts _ _ hjlen]

/-! ### Prefill rows -/

/-- The first packed row of prefill `i`. -/
def prefillRow (inp : StepInput) (i : ℕ) : ℕ :=
  (inp.decodes.map fun d => (d.drafts inp.specTokens).length + 1).sum +
    ((inp.prefills.map PrefillItem.count).take i).sum

theorem cuSeqlens_prefill {i : ℕ} (hi : i ≤ inp.prefills.length) :
    (stepContext cfg feat s inp).cuSeqlens.getD
      ((stepContext cfg feat s inp).numDecodeSegments + i) 0 = prefillRow inp i := by
  simp only [stepContext, StepInput.rowCounts]
  rw [getD_boundaries (by simpa using hi), List.take_append, List.sum_append,
    List.take_of_length_le (by simp), prefillRow, List.length_map, Nat.add_sub_cancel_left]

/-- A prefill row's features, in the packed features of the step. -/
theorem getElem?_prefillFeatures {i : ℕ} {p : PrefillItem} (hi : inp.prefills[i]? = some p)
    {j : ℕ} (hj : j < p.count) :
    (stepContext cfg feat s inp).targetAuxHiddenStates[prefillRow inp i + j]? =
      some (feat (p.request.tokens.take (p.request.computed + j + 1))) := by
  have hlens : (inp.prefills.map fun p => (p.features feat).length) =
      inp.prefills.map PrefillItem.count := by
    simp [PrefillItem.features]
  have h := getElem?_flatMap_boundary (f := PrefillItem.features feat) hi (j := j)
    (by simpa [PrefillItem.features] using hj)
  have hlt : i ≤ inp.prefills.length := Nat.le_of_lt (List.getElem?_eq_some_iff.mp hi).1
  rw [hlens, getD_boundaries (by simpa using hlt)] at h
  have hrow : (p.features feat)[j]? =
      some (feat (p.request.tokens.take (p.request.computed + j + 1))) := by
    rw [PrefillItem.features, List.getElem?_map, List.getElem?_range hj, Option.map_some]
  have hdecodes : (inp.decodes.flatMap (DecodeItem.features feat inp.specTokens)).length =
      (inp.decodes.map fun d => (d.drafts inp.specTokens).length + 1).sum := by
    simp [List.length_flatMap, DecodeItem.features]
  simp only [stepContext]
  rw [prefillRow, Nat.add_assoc, ← hdecodes, List.getElem?_append_right (Nat.le_add_right _ _),
    Nat.add_sub_cancel_left, h, hrow]

theorem length_prefill (hok : ∀ id r, s.live.get? id = some r → RequestOk cfg s id r)
    (hlegal : Legal s inp) {p : PrefillItem} (hp : p ∈ inp.prefills) :
    p.prefill.tokenIds.length = p.count ∧ 0 < p.count ∧
      p.request.computed + p.count ≤ p.request.tokens.length := by
  obtain ⟨hlive, hgen, hsched⟩ := hlegal.prefill p hp
  obtain ⟨n, hn⟩ := Option.isSome_iff_exists.mp hsched
  have hreq := hok _ _ hlive
  have hfit := hreq.prefilling hgen
  have hpos := hreq.scheduled n hn
  have hcount : p.count = n := by rw [PrefillItem.count, hn, Option.getD_some]
  rw [hn, Option.getD_some] at hfit
  refine ⟨?_, by omega, by omega⟩
  rw [PrefillItem.prefill, List.length_drop, List.length_take]
  omega

/-- The tokens after a prefill row: those known, and the sample behind a final chunk. -/
theorem tokens_prefilled (r : LiveRequest) (sampled : Token) :
    (r.prefilled cfg sampled).tokens =
      if r.isIntermediate then r.tokens else r.tokens ++ [sampled] := by
  simp only [LiveRequest.prefilled, LiveRequest.tokens]
  split <;> rfl

/-- **A prefill row commits its chunk.** -/
theorem advance_prefill (hok : ∀ id r, s.live.get? id = some r → RequestOk cfg s id r)
    (hlegal : Legal s inp) {i : ℕ} {p : PrefillItem} (hi : inp.prefills[i]? = some p) :
    Advance cfg feat (stepContext cfg feat s inp).targetAuxHiddenStates p.request (p.next cfg)
      (prefillIngest (prefillRow inp i) p.prefill) := by
  have hp : p ∈ inp.prefills := List.mem_of_getElem? hi
  obtain ⟨hlive, hgen, hsched⟩ := hlegal.prefill p hp
  obtain ⟨hlen, hpos, hfit⟩ := length_prefill hok hlegal hp
  have hprefix : p.request.tokens <+: (p.next cfg).tokens := by
    rw [PrefillItem.next, tokens_prefilled]
    split
    · exact List.prefix_rfl
    · exact List.prefix_append _ _
  have hcomputed : (p.next cfg).computed = p.request.computed + p.count := rfl
  refine
    { groups := rfl
      start := rfl
      count := by rw [hcomputed, prefillIngest, hlen]
      count_pos := by rw [prefillIngest, hlen]; exact hpos
      isPrefill := by simp [prefillIngest, hgen]
      blockIds := ?_
      tokens := hprefix
      computed := hcomputed ▸ hfit.trans hprefix.length_le
      reach := hcomputed ▸ Nat.min_le_left _ _
      scheduled := rfl
      ingested := rfl
      rows := ?_ }
  · simp only [PrefillItem.next, LiveRequest.prefilled]
    split <;> rfl
  -- row `j` is the feature of the `j`-th token of the chunk
  · intro j hj
    simp only [prefillIngest, hlen] at hj ⊢
    rw [getElem?_prefillFeatures hi hj]
    congr 2
    obtain ⟨rest, hrest⟩ := hprefix
    rw [← hrest, List.take_append_of_le_length (by omega)]

/-! ### The rows of a step -/

@[simp] theorem map_fst_updates : (inp.updates cfg).map Prod.fst = inp.reqIds := by
  simp [StepInput.updates, StepInput.reqIds, Function.comp_def]

theorem get?_nextLive_of_mem (hlegal : Legal s inp) {id : ReqId} {r' : LiveRequest}
    (h : (id, r') ∈ inp.updates cfg) : (nextLive cfg s.live inp).get? id = some r' :=
  Dict.get?_foldl_set _ (by rw [map_fst_updates]; exact hlegal.nodup) h

theorem get?_nextLive_of_not_mem {id : ReqId} (h : id ∉ inp.reqIds) :
    (nextLive cfg s.live inp).get? id = s.live.get? id :=
  Dict.get?_foldl_set_of_not_mem _ (by rwa [map_fst_updates])

/-- A request of the step, before and after, with the row that it commits. -/
structure Moved (cfg : DrafterConfig) (feat : List Token → F) (s : System Cell)
    (inp : StepInput) (r r' : LiveRequest) (row : IngestRow) : Prop where
  mem : row ∈ stepRows (stepContext cfg feat s inp)
  before : s.live.get? row.reqId = some r
  update : (row.reqId, r') ∈ inp.updates cfg
  advance : Advance cfg feat (stepContext cfg feat s inp).targetAuxHiddenStates r r' row

theorem Moved.after (hlegal : Legal s inp) {r r' : LiveRequest} {row : IngestRow}
    (h : Moved cfg feat s inp r r' row) :
    (nextLive cfg s.live inp).get? row.reqId = some r' :=
  get?_nextLive_of_mem hlegal h.update

variable (feat) in
theorem moved_decode (hok : ∀ id r, s.live.get? id = some r → RequestOk cfg s id r)
    (hlegal : Legal s inp) {i : ℕ} {d : DecodeItem} (hi : inp.decodes[i]? = some d) :
    Moved cfg feat s inp d.request (d.next cfg inp.specTokens)
      (decodeIngest (segmentOf s.seqLens (decodeRow inp i) d.reqId
        d.request.state.toRequestState (d.drafts inp.specTokens)) (d.sampled inp.specTokens)) where
  mem := by
    refine List.mem_append_left _ (List.mem_of_getElem? (i := i) ?_)
    rw [List.getElem?_zipWith_eq_some]
    refine ⟨_, d.sampled inp.specTokens, getElem?_decodeSegments hi, ?_, rfl⟩
    simp only [stepContext]
    rw [List.getElem?_map, hi, Option.map_some]
  before := hlegal.decode_get? (List.mem_of_getElem? hi)
  update := List.mem_append_left _ (List.mem_map.mpr ⟨d, List.mem_of_getElem? hi, rfl⟩)
  advance := advance_decode hok hlegal hi

variable (feat) in
theorem moved_prefill (hok : ∀ id r, s.live.get? id = some r → RequestOk cfg s id r)
    (hlegal : Legal s inp) {i : ℕ} {p : PrefillItem} (hi : inp.prefills[i]? = some p) :
    Moved cfg feat s inp p.request (p.next cfg) (prefillIngest (prefillRow inp i) p.prefill) where
  mem := by
    refine List.mem_append_right _ (List.mem_of_getElem? (i := i) ?_)
    have hle : i ≤ inp.prefills.length := Nat.le_of_lt (List.getElem?_eq_some_iff.mp hi).1
    rw [List.getElem?_mapIdx, cuSeqlens_prefill hle]
    simp only [stepContext]
    rw [List.getElem?_map, hi]
    rfl
  before := (hlegal.prefill p (List.mem_of_getElem? hi)).1
  update := List.mem_append_right _ (List.mem_map.mpr ⟨p, List.mem_of_getElem? hi, rfl⟩)
  advance := advance_prefill hok hlegal hi

/-- **Every ingested row advances a request of the step.** -/
theorem advance_of_mem (hok : ∀ id r, s.live.get? id = some r → RequestOk cfg s id r)
    (hlegal : Legal s inp) {row : IngestRow}
    (hrow : row ∈ stepRows (stepContext cfg feat s inp)) :
    ∃ r r', Moved cfg feat s inp r r' row := by
  rcases List.mem_append.mp hrow with hmem | hmem
  · obtain ⟨i, hi⟩ := List.mem_iff_getElem?.mp hmem
    rw [List.getElem?_zipWith_eq_some] at hi
    obtain ⟨segment, tokens, hsegment, htokens, rfl⟩ := hi
    simp only [stepContext] at htokens
    rw [List.getElem?_map, Option.map_eq_some_iff] at htokens
    obtain ⟨d, hd, rfl⟩ := htokens
    rw [getElem?_decodeSegments hd, Option.some.injEq] at hsegment
    subst hsegment
    exact ⟨_, _, moved_decode feat hok hlegal hd⟩
  · obtain ⟨i, hi⟩ := List.mem_iff_getElem?.mp hmem
    rw [List.getElem?_mapIdx, Option.map_eq_some_iff] at hi
    obtain ⟨prefill, hprefill, rfl⟩ := hi
    simp only [stepContext] at hprefill
    rw [List.getElem?_map, Option.map_eq_some_iff] at hprefill
    obtain ⟨p, hp, rfl⟩ := hprefill
    rw [cuSeqlens_prefill (Nat.le_of_lt (List.getElem?_eq_some_iff.mp hp).1)]
    exact ⟨_, _, moved_prefill feat hok hlegal hp⟩

variable (feat) in
/-- **Every request of the step has a row.** -/
theorem exists_row (hok : ∀ id r, s.live.get? id = some r → RequestOk cfg s id r)
    (hlegal : Legal s inp) {id : ReqId} (hid : id ∈ inp.reqIds) :
    ∃ r r' row, Moved cfg feat s inp r r' row ∧ row.reqId = id := by
  rcases List.mem_append.mp hid with hmem | hmem
  · obtain ⟨d, hd, rfl⟩ := List.mem_map.mp hmem
    obtain ⟨i, hi⟩ := List.mem_iff_getElem?.mp hd
    exact ⟨_, _, _, moved_decode feat hok hlegal hi, rfl⟩
  · obtain ⟨p, hp, rfl⟩ := List.mem_map.mp hmem
    obtain ⟨i, hi⟩ := List.mem_iff_getElem?.mp hp
    exact ⟨_, _, _, moved_prefill feat hok hlegal hi, rfl⟩

/-- The rows of a step belong to distinct requests. -/
theorem map_reqId_stepRows :
    (stepRows (stepContext cfg feat s inp)).map IngestRow.reqId = inp.reqIds := by
  have hdecodes : (List.zipWith decodeIngest (stepContext cfg feat s inp).decodeSegments
      (stepContext cfg feat s inp).decodeTokenIds).map IngestRow.reqId =
        inp.decodes.map DecodeItem.reqId := by
    apply List.ext_getElem?
    intro i
    rw [List.getElem?_map, List.getElem?_map]
    rcases hi : inp.decodes[i]? with _ | d
    · have hlen := List.getElem?_eq_none_iff.mp hi
      rw [List.getElem?_eq_none (by simp [stepContext]; omega)]
      rfl
    · have hrow : (List.zipWith decodeIngest (stepContext cfg feat s inp).decodeSegments
          (stepContext cfg feat s inp).decodeTokenIds)[i]? = some (decodeIngest
            (segmentOf s.seqLens (decodeRow inp i) d.reqId d.request.state.toRequestState
              (d.drafts inp.specTokens)) (d.sampled inp.specTokens)) := by
        rw [List.getElem?_zipWith_eq_some]
        refine ⟨_, d.sampled inp.specTokens, getElem?_decodeSegments hi, ?_, rfl⟩
        simp only [stepContext]
        rw [List.getElem?_map, hi, Option.map_some]
      rw [hrow]
      rfl
  have hprefills : ((stepContext cfg feat s inp).prefillReqs.mapIdx fun i =>
      prefillIngest ((stepContext cfg feat s inp).cuSeqlens.getD
        ((stepContext cfg feat s inp).numDecodeSegments + i) 0)).map IngestRow.reqId =
          inp.prefills.map PrefillItem.reqId := by
    apply List.ext_getElem?
    intro i
    rw [List.getElem?_map, List.getElem?_mapIdx, List.getElem?_map]
    simp only [stepContext]
    rw [List.getElem?_map]
    rcases inp.prefills[i]? with _ | p <;> rfl
  rw [stepRows, List.map_append, hdecodes, hprefills, StepInput.reqIds]

/-- A request has one row. -/
theorem Moved.unique (hlegal : Legal s inp) {r r' r₁ r₁' : LiveRequest} {row row₁ : IngestRow}
    (h : Moved cfg feat s inp r r' row) (h₁ : Moved cfg feat s inp r₁ r₁' row₁)
    (hid : row₁.reqId = row.reqId) : row₁ = row ∧ r₁ = r ∧ r₁' = r' := by
  have hnodup : ((stepRows (stepContext cfg feat s inp)).map IngestRow.reqId).Nodup := by
    rw [map_reqId_stepRows]
    exact hlegal.nodup
  have hrow : row₁ = row := List.inj_on_of_nodup_map hnodup h₁.mem h.mem hid
  subst hrow
  have hbefore := h.before
  have hafter := h.after hlegal
  rw [h₁.before, Option.some.injEq] at hbefore
  rw [h₁.after hlegal, Option.some.injEq] at hafter
  exact ⟨rfl, hbefore, hafter⟩

/-! ### Requests that may be drafted for -/

/-- **A request that may be drafted for has committed all but its last token**, which it did
not have before. -/
theorem eligible_advance (hok : ∀ id r, s.live.get? id = some r → RequestOk cfg s id r)
    (hlegal : Legal s inp) {req : ReqId × DraftRequest}
    (hreq : req ∈ draftEligibleRequests (stepContext cfg feat s inp)) :
    ∃ r r' row, Moved cfg feat s inp r r' row ∧ row.reqId = req.1 ∧ r'.state = req.2 ∧
      r'.computed + 1 = r'.tokens.length ∧ r.tokens.length < r'.tokens.length := by
  rcases List.mem_append.mp hreq with hmem | hmem
  · -- a decode row that sampled
    obtain ⟨item, hitem, hsel⟩ := List.mem_filterMap.mp hmem
    simp only [stepContext] at hitem
    rw [List.zip_map', List.mem_map] at hitem
    obtain ⟨d, hd, rfl⟩ := hitem
    obtain ⟨i, hi⟩ := List.mem_iff_getElem?.mp hd
    obtain ⟨hlive, hgen, -, -⟩ := hlegal.decode d hd
    obtain ⟨hlast, -⟩ := (hok _ _ hlive).decoding hgen
    obtain ⟨hpos, -⟩ := length_sampled_pos hlegal hd
    -- only a row that sampled with a state is selected
    have hreqEq : req = (d.reqId, (d.next cfg inp.specTokens).state) := by
      simp only at hsel
      split at hsel
      · cases hsel
      · split at hsel
        · exact (Option.some.inj hsel).symm
        · cases hsel
    have hlen : (d.next cfg inp.specTokens).tokens.length =
        d.request.tokens.length + (d.sampled inp.specTokens).length :=
      List.length_append
    subst hreqEq
    refine ⟨_, _, _, moved_decode feat hok hlegal hi, rfl, rfl, ?_, by omega⟩
    rw [hlen]
    simp only [DecodeItem.next, LiveRequest.decoded]
    omega
  · -- a final chunk whose request has a state
    obtain ⟨item, hitem, hsel⟩ := List.mem_filterMap.mp hmem
    simp only [stepContext] at hitem hsel
    rw [List.zip_map', List.zip_map', List.mem_map] at hitem
    obtain ⟨p, hp, rfl⟩ := hitem
    obtain ⟨i, hi⟩ := List.mem_iff_getElem?.mp hp
    obtain ⟨-, -, hfit⟩ := length_prefill hok hlegal hp
    have hmoved := moved_prefill feat hok hlegal hi
    have hafter := hmoved.after hlegal
    simp only at hsel
    split at hsel
    · cases hsel
    · next hmode =>
      rw [not_or] at hmode
      -- an intermediate chunk is skipped, so this one ends the prompt
      have hfinal : p.request.isIntermediate = false := by
        by_contra hcon
        rw [Bool.not_eq_false] at hcon
        exact hmode.1 (by rw [PrefillItem.mode, if_pos hcon])
      have hreqId : p.prefill.reqId = p.reqId := rfl
      have hget : (nextLive cfg s.live inp).get? p.prefill.reqId = some (p.next cfg) := hafter
      simp only [hget, Option.map_some] at hsel
      split at hsel
      · have hreqEq := (Option.some.inj hsel).symm
        have hlen : (p.next cfg).tokens.length = p.request.tokens.length + 1 := by
          rw [PrefillItem.next, tokens_prefilled, hfinal]
          simp
        have hend : p.request.tokens.length ≤ p.request.computed + p.count := by
          simpa [LiveRequest.isIntermediate, PrefillItem.count] using hfinal
        subst hreqEq
        refine ⟨_, _, _, hmoved, rfl, rfl, ?_, by omega⟩
        have hcomputed : (p.next cfg).computed = p.request.computed + p.count := rfl
        omega
      · cases hsel

end BlockDraft
end VllmMetal
