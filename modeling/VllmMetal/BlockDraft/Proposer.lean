import VllmMetal.SpecDecode.Verify
import VllmMetal.Lib.Paged
import VllmMetal.Lib.WriteBack

/-!
# The block-draft proposer

`BlockDraftProposer` drafts a whole block of tokens at once, from target features of the
committed tokens.  Each step it projects the features of the newly committed rows into the
draft layers' pages, which the scheduler owns, and then drafts behind them: the block writes
temporary keys and values into the same pages, from the end of the committed context on.
`_valid_ends` records, for each request, how far the committed context reaches.

The network is abstract: a committed row's cell is computed from its feature and its
absolute position, and what a block writes is any function of all that it reads.  A cell
stands for the keys and values of every draft layer at one slot.

## Main definitions

* `DrafterConfig`, `DrafterNet` — the settings and the network.
* `ingest`, `writeContext` — the committed rows of a step.
* `canDraftGreedy`, `draftEligibleRequests` — which requests may be drafted.
* `selectRow`, `draftBlock` — the block behind each of them.
* `propose`, `releaseRequests` — the proposer's two entry points.
-/

namespace VllmMetal
namespace BlockDraft

open SpecDecode

/-! ### Settings, requests and errors -/

/-- The settings of a proposer whose cache is bound. -/
structure DrafterConfig where
  blockSize : ℕ
  blockSize_pos : 0 < blockSize
  /-- Blocks of the shared allocation. -/
  numBlocks : ℕ
  /-- `cache.max_model_len`: the smaller of the model length and the drafter's positions. -/
  maxModelLen : ℕ
  numDraftTokens : ℕ
  /-- One where the block predicts after its anchor, zero where it predicts from it. -/
  extraSlots : ℕ
  /-- The cache group of the draft layers. -/
  groupIndex : ℕ
  enablePrefixCaching : Bool

/-- The draft network, by what it writes into the pages and what it drafts. -/
structure DrafterNet (F Cell : Type*) where
  /-- The cell of a committed feature row at its absolute position. -/
  contextCell : F → ℕ → Cell
  /-- The cell that a block of the given width leaves at a packed slot. -/
  blockCell : ℕ → (ℕ → Cell) → List Token → List (List ℕ × ℕ) → ℕ → Cell
  blockTokens : ℕ → (ℕ → Cell) → List Token → List (List ℕ × ℕ) → List (List Token)

/-- A request state with the sampling parameters that end a generation. -/
structure DraftRequest extends RequestState where
  maxTokens : Option ℤ
  eosTokenId : Option Token
  stopTokenIds : List Token

/-- A scheduled prefill chunk. -/
structure PrefillRequest where
  reqId : ReqId
  tokenIds : List Token
  startPos : ℕ
  blockIds : List (List ℕ)

/-- What a prefill entry yields. -/
inductive ResultMode where
  | intermediate
  | newFinal
  | cachedFinal
  deriving DecidableEq

/-- `ProposeContext`, as far as this proposer reads it. -/
structure ProposeContext (F : Type*) where
  decodeReqs : List (ReqId × DraftRequest)
  decodeSegments : List PagedDecodeSegment
  decodeTokenIds : List (List Token)
  prefillReqs : List PrefillRequest
  prefillTokenIds : List Token
  prefillResultModes : List ResultMode
  requestStates : ReqId → Option DraftRequest
  cuSeqlens : List ℕ
  numDecodeSegments : ℕ
  numSpeculativeTokens : ℕ
  /-- One row of captured features for each packed input row. -/
  targetAuxHiddenStates : List F

/-- The errors of `propose`. -/
inductive ProposeError where
  /-- "draft width exceeds the configured token budget" -/
  | width
  /-- "requires target features for every packed input row" -/
  | featureRows
  /-- "committed context is discontinuous for `reqId`" -/
  | discontinuous (reqId : ReqId)
  /-- "Block draft committed span exceeds the context limit" -/
  | spanLimit
  /-- "Draft KV allocation ... needs `needed` blocks for `positions` positions, but the
  scheduler supplied `supplied`." -/
  | allocation (needed positions supplied : ℕ)
  /-- "Block draft scheduler block is outside the shared allocation" -/
  | outside
  /-- "anchor does not follow committed target features" -/
  | anchor
  /-- "Block draft block exceeds the context limit" -/
  | blockLimit
  /-- A request has no table in the drafter's cache group. -/
  | noGroup
  /-- `zip(..., strict=True)` over lists of different lengths. -/
  | zipLength
  deriving DecidableEq

/-! ### Committed rows -/

/-- The arguments of one call of `ingest`. -/
structure IngestRow where
  reqId : ReqId
  groups : List (List ℕ)
  start : ℕ
  count : ℕ
  /-- The first packed row. -/
  row : ℕ
  isPrefill : Bool

/-- Scheduler blocks, first position and row count of a committed span. -/
structure Span where
  blocks : List ℕ
  start : ℕ
  count : ℕ

/-- What `ingest` collects: the spans, the packed rows `slice(a, b)` of each, and the new
ends. -/
structure Ingested where
  spans : List Span
  slices : List (ℕ × ℕ)
  updates : Dict ReqId ℕ

/-- `ingest`. -/
def ingest (cfg : DrafterConfig) (validEnds : Dict ReqId ℕ) (acc : Ingested) (r : IngestRow) :
    Except ProposeError Ingested :=
  let stop := min (r.start + r.count) cfg.maxModelLen
  if r.start ≥ stop then .ok acc
  else
    -- only the first span of a new or resumed prefill adopts existing coverage
    let initialEnd := if r.isPrefill && cfg.enablePrefixCaching then r.start else 0
    if r.start ≠ validEnds.getD r.reqId initialEnd then .error (.discontinuous r.reqId)
    else
      match r.groups[cfg.groupIndex]? with
      | none => .error .noGroup
      | some blocks => .ok
          { spans := acc.spans ++ [⟨blocks, r.start, stop - r.start⟩]
            slices := acc.slices ++ [(r.row, r.row + stop - r.start)]
            updates := acc.updates.set r.reqId stop }

/-- A loop of calls of `ingest`. -/
def ingestAll (cfg : DrafterConfig) (validEnds : Dict ReqId ℕ) :
    Ingested → List IngestRow → Except ProposeError Ingested
  | acc, [] => .ok acc
  | acc, r :: rows =>
      match ingest cfg validEnds acc r with
      | .error e => .error e
      | .ok acc => ingestAll cfg validEnds acc rows

/-- The call for a decode segment: its anchor and the accepted drafts have features. -/
def decodeIngest (segment : PagedDecodeSegment) (tokens : List Token) : IngestRow where
  reqId := segment.reqId
  groups := segment.blockIds
  start := segment.cacheStartPos
  count := tokens.length
  row := segment.startRow
  isPrefill := false

/-- The call for prefill chunk `i`, whose first packed row is `row`. -/
def prefillIngest (row : ℕ) (prefill : PrefillRequest) : IngestRow where
  reqId := prefill.reqId
  groups := prefill.blockIds
  start := prefill.startPos
  count := prefill.tokenIds.length
  row := row
  isPrefill := true

/-- The two loops of `propose` that ingest. -/
def ingestStep {F : Type*} (cfg : DrafterConfig) (validEnds : Dict ReqId ℕ)
    (ctx : ProposeContext F) : Except ProposeError Ingested :=
  match ingestAll cfg validEnds ⟨[], [], ∅⟩
      (List.zipWith decodeIngest ctx.decodeSegments ctx.decodeTokenIds) with
  | .error e => .error e
  | .ok acc =>
      if ctx.decodeSegments.length ≠ ctx.decodeTokenIds.length then .error .zipLength
      else
        ingestAll cfg validEnds acc (ctx.prefillReqs.mapIdx fun i =>
          prefillIngest (ctx.cuSeqlens.getD (ctx.numDecodeSegments + i) 0))

/-! ### Pages -/

/-- The slots of a span, once its pages are known to be mapped. -/
def Span.slots (B : ℕ) (span : Span) : List ℕ :=
  (List.range' span.start span.count).map (cellOf B span.blocks)

/-- `_slots`. -/
def slots (cfg : DrafterConfig) (span : Span) : Except ProposeError (List ℕ) :=
  let used := (span.start + span.count + cfg.blockSize - 1) / cfg.blockSize
  if used > span.blocks.length then
    .error (.allocation used (span.start + span.count) span.blocks.length)
  else if (span.blocks.take used).any fun block => decide (cfg.numBlocks ≤ block) then
    .error .outside
  else .ok (span.slots cfg.blockSize)

/-- The slots of several spans, each within the context limit and at least `low` long at
position `low'`; `limit` is the error of a span that is not. -/
def packedSlots (cfg : DrafterConfig) (limit : ProposeError) (lowStart lowCount : ℕ) :
    List Span → Except ProposeError (List ℕ)
  | [] => .ok []
  | span :: spans =>
      if span.start < lowStart ∨ span.count < lowCount ∨
          cfg.maxModelLen < span.start + span.count then .error limit
      else
        match slots cfg span with
        | .error e => .error e
        | .ok here =>
            match packedSlots cfg limit lowStart lowCount spans with
            | .error e => .error e
            | .ok rest => .ok (here ++ rest)

variable {F Cell : Type*}

/-- `write_context`: packed feature rows at the absolute positions of their spans. -/
def writeContext (cfg : DrafterConfig) (net : DrafterNet F Cell) (cache : ℕ → Cell)
    (features : List F) (spans : List Span) : Except ProposeError (ℕ → Cell) :=
  match packedSlots cfg .spanLimit 0 1 spans with
  | .error e => .error e
  | .ok ids =>
      let positions := spans.flatMap fun span => List.range' span.start span.count
      if features.length ≠ positions.length then .error .featureRows
      else .ok (scatter cache ids (List.zipWith net.contextCell features positions))

/-- `f[slice(a, b)]`. -/
def sliceRows {α : Type*} (rows : List α) (s : ℕ × ℕ) : List α := (rows.take s.2).drop s.1

/-! ### Which requests may be drafted -/

/-- `can_draft_greedy`. -/
def canDraftGreedy (state : DraftRequest) (sampledIds : List Token) : Bool :=
  if state.maxTokens.any fun maxTokens => decide (state.generatedTokens ≥ maxTokens) then false
  else if state.eosTokenId.any fun eos => decide (eos ∈ sampledIds) then false
  else if sampledIds.any fun token => decide (token ∈ state.stopTokenIds) then false
  else state.samplingParams.greedySampling state.generatedTokens

/-- `draft_eligible_requests`. -/
def draftEligibleRequests (ctx : ProposeContext F) : List (ReqId × DraftRequest) :=
  let decodes := (ctx.decodeReqs.zip ctx.decodeTokenIds).filterMap fun row =>
    if row.2 = [] then none
    else if canDraftGreedy row.1.2 row.2 then some row.1 else none
  let seen := decodes.map Prod.fst
  let prefills := (ctx.prefillReqs.zip (ctx.prefillTokenIds.zip ctx.prefillResultModes)).filterMap
    fun row =>
      if row.2.2 = .intermediate ∨ row.1.reqId ∈ seen then none
      else
        match ctx.requestStates row.1.reqId with
        | none => none
        | some state =>
            if canDraftGreedy state [row.2.1] then some (row.1.reqId, state) else none
  decodes ++ prefills

/-! ### The block -/

/-- One row of the draft batch. -/
structure DraftRow where
  reqId : ReqId
  anchor : Token
  blocks : List ℕ
  stop : ℕ
  limit : ℕ

/-- `limit`: the drafts that the request can still verify. -/
def draftLimit (width : ℕ) (state : DraftRequest) : ℤ :=
  match state.maxTokens with
  | none => width
  -- verification also emits a correction or bonus token
  | some maxTokens => min width (maxTokens - state.generatedTokens - 1)

/-- The body of the loop over the eligible requests. -/
def selectRow (cfg : DrafterConfig) (width : ℕ) (validEnds : Dict ReqId ℕ)
    (req : ReqId × DraftRequest) : Except ProposeError (Option DraftRow) :=
  if req.2.samplingParams.structuredOutputs then .ok none
  else if draftLimit width req.2 < 1 then .ok none
  else
    let stop := req.2.tokenIds.length - 1
    -- a fresh hit beyond the drafter's context stays a target-only request
    if stop + width + cfg.extraSlots > cfg.maxModelLen then .ok none
    else if stop ≠ validEnds.getD req.1 0 then .error .anchor
    else
      match req.2.blockIds[cfg.groupIndex]? with
      | none => .error .noGroup
      | some blocks => .ok (some
          ⟨req.1, req.2.tokenIds.getLastD 0, blocks, stop, (draftLimit width req.2).toNat⟩)

/-- The loop over the eligible requests. -/
def selectRows (cfg : DrafterConfig) (width : ℕ) (validEnds : Dict ReqId ℕ) :
    List (ReqId × DraftRequest) → Except ProposeError (List DraftRow)
  | [] => .ok []
  | req :: reqs =>
      match selectRow cfg width validEnds req with
      | .error e => .error e
      | .ok row =>
          match selectRows cfg width validEnds reqs with
          | .error e => .error e
          | .ok rows => .ok (row.toList ++ rows)

/-- `max(limits)`. -/
def draftWidth (rows : List DraftRow) : ℕ := (rows.map DraftRow.limit).foldl max 0

/-- The write span of a row of the batch: the block and its extra slot. -/
def DraftRow.span (cfg : DrafterConfig) (width : ℕ) (row : DraftRow) : Span :=
  ⟨row.blocks, row.stop, width + cfg.extraSlots⟩

/-- The compiled draft: a temporary block behind every row's committed context. -/
def draftBlock (cfg : DrafterConfig) (net : DrafterNet F Cell) (cache : ℕ → Cell) (width : ℕ)
    (rows : List DraftRow) : Except ProposeError ((ℕ → Cell) × List (List Token)) :=
  match packedSlots cfg .blockLimit 1 0 (rows.map (DraftRow.span cfg width)) with
  | .error e => .error e
  | .ok ids =>
      let anchors := rows.map DraftRow.anchor
      let tables := rows.map fun row => (row.blocks, row.stop)
      .ok (scatter cache ids ((List.range ids.length).map
          (net.blockCell width cache anchors tables)),
        net.blockTokens width cache anchors tables)

/-! ### The entry points -/

/-- What a call of `propose` leaves behind and returns. -/
structure Proposal (Cell : Type*) where
  validEnds : Dict ReqId ℕ
  cache : ℕ → Cell
  drafts : Option (List (ReqId × List Token))

/-- The committed rows written and their ends recorded. -/
def commitContext (cfg : DrafterConfig) (net : DrafterNet F Cell) (validEnds : Dict ReqId ℕ)
    (cache : ℕ → Cell) (features : List F) (acc : Ingested) :
    Except ProposeError (Dict ReqId ℕ × (ℕ → Cell)) :=
  if acc.spans = [] then .ok (validEnds, cache)
  else
    match writeContext cfg net cache (acc.slices.flatMap (sliceRows features)) acc.spans with
    | .error e => .error e
    | .ok cache => .ok (validEnds.update acc.updates, cache)

/-- The rows that a step drafts for. -/
def draftRows (cfg : DrafterConfig) (validEnds : Dict ReqId ℕ) (ctx : ProposeContext F) :
    Except ProposeError (List DraftRow) :=
  if ctx.numSpeculativeTokens = 0 then .ok []
  else selectRows cfg ctx.numSpeculativeTokens validEnds (draftEligibleRequests ctx)

/-- The part of `propose` that drafts. -/
def draftStep (cfg : DrafterConfig) (net : DrafterNet F Cell) (validEnds : Dict ReqId ℕ)
    (cache : ℕ → Cell) (ctx : ProposeContext F) : Except ProposeError (Proposal Cell) :=
  match draftRows cfg validEnds ctx with
  | .error e => .error e
  | .ok rows =>
      if rows = [] then .ok ⟨validEnds, cache, none⟩
      else
        -- one rectangular batch, as wide as its largest remaining budget
        match draftBlock cfg net cache (draftWidth rows) rows with
        | .error e => .error e
        | .ok (cache, tokens) => .ok ⟨validEnds, cache, some (List.zipWith
            (fun row ids => (row.reqId, ids.take row.limit)) rows tokens)⟩

/-- `propose`. -/
def propose (cfg : DrafterConfig) (net : DrafterNet F Cell) (validEnds : Dict ReqId ℕ)
    (cache : ℕ → Cell) (ctx : ProposeContext F) : Except ProposeError (Proposal Cell) :=
  if ctx.numSpeculativeTokens > cfg.numDraftTokens then .error .width
  else if ctx.targetAuxHiddenStates.length ≠ ctx.cuSeqlens.getLastD 0 then .error .featureRows
  else
    match ingestStep cfg validEnds ctx with
    | .error e => .error e
    | .ok acc =>
        match commitContext cfg net validEnds cache ctx.targetAuxHiddenStates acc with
        | .error e => .error e
        | .ok (validEnds, cache) => draftStep cfg net validEnds cache ctx

/-- `release_requests`. -/
def releaseRequests (validEnds : Dict ReqId ℕ) (reqIds : List ReqId) : Dict ReqId ℕ :=
  validEnds.popAll reqIds

end BlockDraft
end VllmMetal
