import VllmMetal.BlockDraft.Context
import VllmMetal.Lib.Run

/-!
# The runner and the scheduler around the block-draft proposer

The proposer works in pages that the scheduler hands out.  A full block of committed tokens
may be published under its tokens, and a request that is admitted later starts behind the
published blocks that match its tokens; the scheduler publishes a block already when it
schedules the rows that fill it, so a request may be admitted behind rows that the same step
computes.  This module is that system: admissions (new requests, resumes, re-admissions),
evictions and preemptions, page allocation, publication, and the steps in which the runner
samples and calls `propose`.

## Main definitions

* `LiveRequest`, `System` — a request in flight, and all that the runner, the scheduler and
  the proposer keep.
* `StepInput`, `stepContext` — what a step samples, and the context it hands to `propose`.
* `Legal` — the promises of the scheduler for a step.
* `Step` — the events of a run.
-/

namespace VllmMetal
namespace BlockDraft

open SpecDecode

variable {F Cell : Type*}

/-! ### Requests in flight -/

/-- A request in flight. -/
structure LiveRequest where
  state : DraftRequest
  /-- The scheduler's `num_computed_tokens`. -/
  computed : ℕ
  /-- `num_scheduled_tokens` in the step that is being put together. -/
  scheduled : Option ℕ
  /-- History: some row of the request has reached the drafter's context. -/
  ingested : Bool

namespace LiveRequest

/-- The known tokens. -/
abbrev tokens (r : LiveRequest) : List Token := r.state.tokenIds

/-- The request's blocks in the drafter's group. -/
def table (cfg : DrafterConfig) (r : LiveRequest) : List ℕ :=
  r.state.blockIds.getD cfg.groupIndex []

/-- How far the rows scheduled so far commit known tokens. -/
def reach (r : LiveRequest) : ℕ := min (r.computed + r.scheduled.getD 0) r.tokens.length

/-- `state.token_ids.extend(sampled)` on a decode row, with the scheduler's count. -/
def decoded (cfg : DrafterConfig) (r : LiveRequest) (sampled : List Token) : LiveRequest where
  state := { r.state with toRequestState := r.state.toRequestState.extend sampled }
  computed := r.computed + sampled.length
  scheduled := none
  ingested := r.ingested || decide (r.computed < cfg.maxModelLen)

/-- The chunk does not reach the end of the known tokens. -/
def isIntermediate (r : LiveRequest) : Bool :=
  decide (r.computed + r.scheduled.getD 0 < r.tokens.length)

/-- A prefill row: a final chunk commits the sampled token. -/
def prefilled (cfg : DrafterConfig) (r : LiveRequest) (sampled : Token) : LiveRequest where
  state := if r.isIntermediate then r.state else
    { r.state with
      tokenIds := r.tokens ++ [sampled]
      generatedTokens := (r.tokens ++ [sampled]).length - r.state.promptLen }
  computed := r.computed + r.scheduled.getD 0
  scheduled := none
  ingested := r.ingested || decide (r.computed < cfg.maxModelLen)

end LiveRequest

/-! ### A step -/

/-- A decode request of a step and the target's tokens for its rows. -/
structure DecodeItem where
  reqId : ReqId
  request : LiveRequest
  rowTokens : List Token

/-- A prefill request of a step and the token sampled after its chunk. -/
structure PrefillItem where
  reqId : ReqId
  request : LiveRequest
  sampled : Token
  /-- The request came with this step. -/
  isNew : Bool

/-- What a step computes and samples. -/
structure StepInput where
  decodes : List DecodeItem
  prefills : List PrefillItem
  /-- `scheduled_spec_decode_tokens`. -/
  specTokens : Dict ReqId (List Token)
  /-- `num_spec_tokens_to_schedule`. -/
  width : ℕ

/-- The drafts that the step verifies for the request. -/
def DecodeItem.drafts (specTokens : Dict ReqId (List Token)) (d : DecodeItem) : List Token :=
  specTokens.getD d.reqId []

/-- The tokens that the request commits. -/
def DecodeItem.sampled (specTokens : Dict ReqId (List Token)) (d : DecodeItem) : List Token :=
  acceptDrafts d.rowTokens (d.drafts specTokens)

/-- The request after the step. -/
def DecodeItem.next (cfg : DrafterConfig) (specTokens : Dict ReqId (List Token))
    (d : DecodeItem) : LiveRequest :=
  d.request.decoded cfg (d.sampled specTokens)

/-- The target's captured features of the rows: the last token, then the drafts. -/
def DecodeItem.features (feat : List Token → F) (specTokens : Dict ReqId (List Token))
    (d : DecodeItem) : List F :=
  (List.range ((d.drafts specTokens).length + 1)).map fun i =>
    feat (d.request.tokens ++ (d.drafts specTokens).take i)

/-- The length of the chunk. -/
def PrefillItem.count (p : PrefillItem) : ℕ := p.request.scheduled.getD 0

/-- The request after the step. -/
def PrefillItem.next (cfg : DrafterConfig) (p : PrefillItem) : LiveRequest :=
  p.request.prefilled cfg p.sampled

/-- The target's captured features of the chunk. -/
def PrefillItem.features (feat : List Token → F) (p : PrefillItem) : List F :=
  (List.range p.count).map fun i => feat (p.request.tokens.take (p.request.computed + i + 1))

/-- The chunk as the runner queues it. -/
def PrefillItem.prefill (p : PrefillItem) : PrefillRequest where
  reqId := p.reqId
  tokenIds := (p.request.tokens.take (p.request.computed + p.count)).drop p.request.computed
  startPos := p.request.computed
  blockIds := p.request.state.blockIds

/-- Its result mode. -/
def PrefillItem.mode (p : PrefillItem) : ResultMode :=
  if p.request.isIntermediate then .intermediate else if p.isNew then .newFinal else .cachedFinal

namespace StepInput

/-- The requests of the step. -/
def reqIds (inp : StepInput) : List ReqId :=
  inp.decodes.map DecodeItem.reqId ++ inp.prefills.map PrefillItem.reqId

/-- The states after the step. -/
def updates (cfg : DrafterConfig) (inp : StepInput) : List (ReqId × LiveRequest) :=
  inp.decodes.map (fun d => (d.reqId, d.next cfg inp.specTokens)) ++
    inp.prefills.map fun p => (p.reqId, p.next cfg)

/-- The packed rows of each request. -/
def rowCounts (inp : StepInput) : List ℕ :=
  inp.decodes.map (fun d => (d.drafts inp.specTokens).length + 1) ++
    inp.prefills.map PrefillItem.count

end StepInput

/-! ### The system -/

/-- The requests in flight with the runner's, the scheduler's and the proposer's tables. -/
structure System (Cell : Type*) where
  live : Dict ReqId LiveRequest
  /-- `_paged_request_seq_lens`. -/
  seqLens : Dict ReqId ℕ
  /-- `_awaiting_readmission`. -/
  awaiting : ReqId → Bool
  /-- `_valid_ends`. -/
  validEnds : Dict ReqId ℕ
  /-- The draft layers' cells, by slot. -/
  cache : ℕ → Cell
  /-- The tokens up to the end of a block that is published in the prefix cache. -/
  published : ℕ → Option (List Token)

/-- Before the first request. -/
def System.start (cache : ℕ → Cell) : System Cell where
  live := ∅
  seqLens := ∅
  awaiting := fun _ => false
  validEnds := ∅
  cache := cache
  published := fun _ => none

/-- The requests in flight after a step. -/
def nextLive (cfg : DrafterConfig) (live : Dict ReqId LiveRequest) (inp : StepInput) :
    Dict ReqId LiveRequest :=
  (inp.updates cfg).foldl (fun live u => live.set u.1 u.2) live

/-- The tracked lengths after a step. -/
def nextSeqLens (cfg : DrafterConfig) (seqLens : Dict ReqId ℕ) (inp : StepInput) :
    Dict ReqId ℕ :=
  let seqLens := inp.decodes.foldl (fun seqLens d => advanceSeqLen seqLens d.reqId
    (d.next cfg inp.specTokens).state.toRequestState (d.sampled inp.specTokens).length) seqLens
  inp.prefills.foldl (fun seqLens p => seqLens.set p.reqId
    (p.prefill.startPos + p.prefill.tokenIds.length)) seqLens

/-- The context that the runner hands to `propose`, once the states are updated. -/
def stepContext (cfg : DrafterConfig) (feat : List Token → F) (s : System Cell)
    (inp : StepInput) : ProposeContext F where
  decodeReqs := inp.decodes.map fun d => (d.reqId, (d.next cfg inp.specTokens).state)
  decodeSegments := segmentList inp.specTokens s.seqLens 0
    (inp.decodes.map fun d => (d.reqId, d.request.state.toRequestState))
  decodeTokenIds := inp.decodes.map (DecodeItem.sampled inp.specTokens)
  prefillReqs := inp.prefills.map PrefillItem.prefill
  prefillTokenIds := inp.prefills.map PrefillItem.sampled
  prefillResultModes := inp.prefills.map PrefillItem.mode
  requestStates := fun id => ((nextLive cfg s.live inp).get? id).map LiveRequest.state
  cuSeqlens := boundaries inp.rowCounts
  numDecodeSegments := inp.decodes.length
  numSpeculativeTokens := inp.width
  targetAuxHiddenStates := inp.decodes.flatMap (DecodeItem.features feat inp.specTokens) ++
    inp.prefills.flatMap (PrefillItem.features feat)

/-- A step computes exactly the scheduled rows: a request that has generated decodes from its
last token, the others prefill, and every draft row has the target's token. -/
structure Legal (s : System Cell) (inp : StepInput) : Prop where
  nodup : inp.reqIds.Nodup
  decode : ∀ d ∈ inp.decodes, s.live.get? d.reqId = some d.request ∧
    d.request.state.generatedTokens ≠ 0 ∧
    d.request.scheduled = some ((d.drafts inp.specTokens).length + 1) ∧
    d.rowTokens.length = (d.drafts inp.specTokens).length + 1
  prefill : ∀ p ∈ inp.prefills, s.live.get? p.reqId = some p.request ∧
    p.request.state.generatedTokens = 0 ∧ p.request.scheduled.isSome
  all : ∀ id r, s.live.get? id = some r → r.scheduled.isSome → id ∈ inp.reqIds

/-! ### Runs -/

/-- No request in flight has the block in its table. -/
def Unmapped (cfg : DrafterConfig) (s : System Cell) (b : ℕ) : Prop :=
  ∀ id r, s.live.get? id = some r → b ∉ r.table cfg

/-- Blocks that are handed out lose what they were published for. -/
def forgetBlocks (published : ℕ → Option (List Token)) (fresh : List ℕ) :
    ℕ → Option (List Token) :=
  fun b => if b ∈ fresh then none else published b

/-- A block published under the tokens up to its end. -/
def System.publish (s : System Cell) (b : ℕ) (prefixTokens : List Token) : System Cell :=
  { s with published := Function.update s.published b (some prefixTokens) }

theorem System.published_publish (s : System Cell) (b b' : ℕ) (prefixTokens : List Token) :
    (s.publish b prefixTokens).published b' =
      if b' = b then some prefixTokens else s.published b' := by
  simp only [System.publish, Function.update_apply]

/-- The events of a run. -/
inductive Event where
  /-- The scheduler finished the requests. -/
  | evict (ids : List ReqId)
  | preempt (ids : List ReqId)
  /-- A request is admitted behind published blocks: a new one, one in `resumed_req_ids`, or
  a preempted one that comes back as new. -/
  | arrive (id : ReqId) (state : DraftRequest) (hits fresh : List ℕ) (computed : ℕ)
      (resumed : Bool)
  /-- New blocks of every cache group. -/
  | grow (id : ReqId) (newBlocks : List (List ℕ))
  | schedule (id : ReqId) (n : ℕ)
  /-- The request's block `j` is published. -/
  | publish (id : ReqId) (j : ℕ)
  /-- The step runs, samples and calls `propose`. -/
  | step (inp : StepInput)

/-- The requests are in no step that is being put together. -/
def Unscheduled (s : System Cell) (ids : List ReqId) : Prop :=
  ∀ id ∈ ids, ∀ r, s.live.get? id = some r → r.scheduled = none

/-- What an admission rests on: the hits are published under the request's own tokens and
reach the position at which it starts, and the other blocks are nobody's. -/
structure Admissible (cfg : DrafterConfig) (s : System Cell) (id : ReqId) (state : DraftRequest)
    (hits fresh : List ℕ) (computed : ℕ) : Prop where
  notLive : s.live.get? id = none
  generated : state.generatedTokens = 0
  prompt : state.promptLen ≤ state.tokenIds.length
  blocks : state.blockIds[cfg.groupIndex]? = some (hits ++ fresh)
  hit : ∀ j b, hits[j]? = some b → (j + 1) * cfg.blockSize ≤ state.tokenIds.length ∧
    s.published b = some (state.tokenIds.take ((j + 1) * cfg.blockSize))
  fresh_nodup : fresh.Nodup
  fresh_free : ∀ b ∈ fresh, Unmapped cfg s b ∧ b ∉ hits
  start : computed ≤ hits.length * cfg.blockSize
  caching : cfg.enablePrefixCaching = false → hits = []

/-- The state after an admission.  A resume is reported to the proposer, and it and a
re-admission drop the tracked length. -/
def admitted (s : System Cell) (id : ReqId) (state : DraftRequest) (fresh : List ℕ)
    (computed : ℕ) (resumed : Bool) : System Cell where
  live := s.live.set id ⟨state, computed, none, false⟩
  seqLens := if resumed || s.awaiting id then s.seqLens.pop id else s.seqLens
  awaiting := fun id' => if id' = id then false else s.awaiting id'
  validEnds := if resumed then releaseRequests s.validEnds [id] else s.validEnds
  cache := s.cache
  published := forgetBlocks s.published fresh

/-- `state.block_ids[g].extend(new_block_ids[g])` for every group. -/
def LiveRequest.grow (r : LiveRequest) (newBlocks : List (List ℕ)) : LiveRequest :=
  { r with state := { r.state with
      blockIds := List.zipWith (· ++ ·) r.state.blockIds newBlocks } }

/-- The steps of the system. -/
inductive Step (cfg : DrafterConfig) (net : DrafterNet F Cell) (feat : List Token → F) :
    System Cell → Event → System Cell → Prop
  | evict {s : System Cell} {ids : List ReqId} : Unscheduled s ids →
      Step cfg net feat s (.evict ids)
        { s with
          live := s.live.popAll ids
          seqLens := s.seqLens.popAll ids
          awaiting := fun id => if id ∈ ids then false else s.awaiting id
          validEnds := releaseRequests s.validEnds ids }
  | preempt {s : System Cell} {ids : List ReqId} : Unscheduled s ids →
      Step cfg net feat s (.preempt ids)
        { s with
          live := s.live.popAll ids
          awaiting := fun id => if id ∈ ids then true else s.awaiting id
          validEnds := releaseRequests s.validEnds ids }
  | arrive {s : System Cell} {id : ReqId} {state : DraftRequest} {hits fresh : List ℕ}
      {computed : ℕ} (resumed : Bool) : Admissible cfg s id state hits fresh computed →
      Step cfg net feat s (.arrive id state hits fresh computed resumed)
        (admitted s id state fresh computed resumed)
  | grow {s : System Cell} {id : ReqId} {r : LiveRequest} {newBlocks : List (List ℕ)} :
      s.live.get? id = some r → newBlocks.length = r.state.blockIds.length →
      (newBlocks.getD cfg.groupIndex []).Nodup →
      (∀ b ∈ newBlocks.getD cfg.groupIndex [], Unmapped cfg s b) →
      Step cfg net feat s (.grow id newBlocks)
        { s with
          live := s.live.set id (r.grow newBlocks)
          published := forgetBlocks s.published (newBlocks.getD cfg.groupIndex []) }
  | schedule {s : System Cell} {id : ReqId} {r : LiveRequest} {n : ℕ} :
      s.live.get? id = some r → r.scheduled = none → 0 < n →
      (r.state.generatedTokens = 0 → r.computed + n ≤ r.tokens.length) →
      Step cfg net feat s (.schedule id n)
        { s with live := s.live.set id { r with scheduled := some n } }
  | publish {s : System Cell} {id : ReqId} {r : LiveRequest} {j b : ℕ} :
      cfg.enablePrefixCaching = true → s.live.get? id = some r →
      (r.table cfg)[j]? = some b → (j + 1) * cfg.blockSize ≤ r.reach →
      Step cfg net feat s (.publish id j)
        (s.publish b (r.tokens.take ((j + 1) * cfg.blockSize)))
  | step {s : System Cell} {inp : StepInput} {out : Proposal Cell} : Legal s inp →
      propose cfg net s.validEnds s.cache (stepContext cfg feat s inp) = .ok out →
      Step cfg net feat s (.step inp)
        { s with
          live := nextLive cfg s.live inp
          seqLens := nextSeqLens cfg s.seqLens inp
          validEnds := out.validEnds
          cache := out.cache }

end BlockDraft
end VllmMetal
