import VllmMetal.Runner.Request
import VllmMetal.Lib.Paged

/-!
# The draft-model proposer

`DraftModelProposer` drafts with a separate model whose paged KV cache it keeps in step
with the committed tokens: each round *ingests* the tokens that are new, then feeds its
own drafts back for the lookahead steps.  This module is the round as the source
computes it, for the entries of one request: the planning functions, the ingest forward
with its two layouts, the lookahead steps and the ledger of what they wrote.

The draft network is abstract.  A row's key and value are computed from its own token and
the cells it reads, those of every earlier position; so are its logits.

## Main definitions

* `DraftNet`, `forwardRows` — the network and a packed forward over one segment.
* `speculativeKvValidThrough` — how far the ledger lets the ingest skip.
* `makeDecodePlan`, `makePrefillPlan` — one row's plan for the round.
* `ingestAndDraftFirst`, `draftSteps` — the forwards of a round.
* `propose` — the round.
-/

namespace VllmMetal

namespace DraftModel

/-! ### The network and its paged cache -/

/-- A draft network, by what one row computes from its token and the cells it reads. -/
structure DraftNet (Cell : Type*) where
  /-- The key and value the row writes. -/
  kv : Token → List Cell → Cell
  /-- The argmax of the row's logits. -/
  argmax : Token → List Cell → Token

/-- Physical draft cache: block, then offset in it. -/
abbrev KVPool (Cell : Type*) := ℕ → ℕ → Cell

variable {Cell : Type*}

/-- The cells a row at position `p` reads: those of every earlier position. -/
def readCells (B : ℕ) (blockIds : List ℕ) (pool : KVPool Cell) (p : ℕ) : List Cell :=
  (List.range p).map (pagedGet B blockIds pool)

/-- A forward over the tokens of one segment from position `p` on: the pool with their
cells written, and the argmax of the last row (`last` when there is no row). -/
def forwardRows (net : DraftNet Cell) (B : ℕ) (blockIds : List ℕ) :
    KVPool Cell → Token → ℕ → List Token → KVPool Cell × Token
  | pool, last, _, [] => (pool, last)
  | pool, _, p, t :: ts =>
      let reads := readCells B blockIds pool p
      forwardRows net B blockIds (pagedSet B blockIds pool p (net.kv t reads))
        (net.argmax t reads) (p + 1) ts

/-! ### Configuration and state -/

/-- Ingests of at most this many tokens ride the decode path in one forward. -/
def decodeIngestMaxTokens : ℕ := 16

/-- The proposer's fixed settings. -/
structure ProposerConfig where
  blockSize : ℕ
  blockSize_pos : 0 < blockSize
  maxModelLen : ℕ
  /-- `VLLM_METAL_SPEC_INGEST_CHUNK`; `0` ingests in a single forward. -/
  ingestChunk : ℕ
  allowDeferredZeroKIngest : Bool

/-- Speculative KV of a past round: position, to the block it was written in and the
drafted token. -/
abbrev Ledger := Dict ℕ (ℕ × Token)

/-- One request's entries in the proposer's dictionaries. -/
structure ProposerState where
  /-- `_draft_seq_lens[req_id]`: positions below it are taken to be written. -/
  draftSeqLen : Option ℕ
  /-- `_spec_kv_writes[req_id]`. -/
  specKvWrites : Option Ledger

/-- The state of a request the proposer has not seen, or was told to forget. -/
def ProposerState.fresh : ProposerState := ⟨none, none⟩

/-- `release_requests` on this request. -/
def releaseRequests (_ : ProposerState) : ProposerState := ProposerState.fresh

/-- `_draft_seq_lens.setdefault(req_id, boundary)`: the value and the state after. -/
def ProposerState.seed (s : ProposerState) (boundary : ℕ) : ℕ × ProposerState :=
  (s.draftSeqLen.getD boundary, { s with draftSeqLen := some (s.draftSeqLen.getD boundary) })

/-- What `RequestState` shows the proposer of a decode row. -/
structure DecodeRow where
  tokenIds : List Token
  blockIds : List ℕ
  numComputedTokens : ℕ

/-- What `PrefillRequest` and its sample show the proposer of a prefill row. -/
structure PrefillRow where
  /-- The chunk forwarded this step. -/
  tokenIds : List Token
  startPos : ℕ
  fullPromptTokenIds : Option (List Token)
  blockIds : List ℕ
  /-- The result mode is `"intermediate"`. -/
  intermediate : Bool
  /-- `prefill_token_ids[i]`: the token the target sampled after the chunk. -/
  sampled : Token
  /-- The length of the request state's `token_ids`, the sample included. -/
  stateLen : ℕ

/-- The request's row in this step. -/
inductive ActiveRow where
  | decode (row : DecodeRow)
  | prefill (row : PrefillRow)

/-- One call of `propose`, as one request sees it. -/
structure Round where
  numSpeculativeTokens : ℕ
  /-- The request is among `draft_eligible_requests`. -/
  eligible : Bool
  row : ActiveRow
  /-- The longest ingest among the plans of the other requests of the batch. -/
  otherIngest : ℕ

/-- The boundary that seeds `_draft_seq_lens` for a request seen for the first time: the
scheduler's own, up to which the cells come from the prefix cache. -/
def Round.boundary (r : Round) : ℕ :=
  match r.row with
  | .decode row => row.numComputedTokens
  | .prefill row => row.startPos

/-- The scheduler's block table of the request, in the draft model's cache group. -/
def Round.blockIds (r : Round) : List ℕ :=
  match r.row with
  | .decode row => row.blockIds
  | .prefill row => row.blockIds

/-- One request's drafting plan for the current step. -/
structure DraftPlan where
  blockIds : List ℕ
  committedLen : ℕ
  /-- Start of this step's ingest forward. -/
  draftSeqLen : ℕ
  ingestTokens : List Token
  isDrafting : Bool

/-- The errors a round raises. -/
inductive ProposeError where
  /-- "Draft KV allocation ... needs `needed` blocks for `positions` positions, but the
  scheduler supplied `supplied`." -/
  | allocation (needed positions supplied : ℕ)
  /-- "Cannot catch up deferred draft KV ...: `full_prompt_token_ids` is missing". -/
  | fullPromptMissing (validBoundary startPos : ℕ)
  /-- "Cannot catch up deferred draft KV ...: expected `expected` tokens from position
  `first` through `last`, got `got`". -/
  | catchUp (expected first last got : ℕ)
  deriving DecidableEq

/-! ### Planning -/

/-- `validate_scheduler_blocks`. -/
def validateSchedulerBlocks (blockIds : List ℕ) (B totalPositions : ℕ) :
    Except ProposeError Unit :=
  let needed := (totalPositions + B - 1) / B
  if needed > blockIds.length then
    .error (.allocation needed totalPositions blockIds.length)
  else .ok ()

/-- The walk of `_speculative_kv_valid_through` over `n` more positions from `position`. -/
def validThroughFrom (writes : Ledger) (tokenIds : List Token) (blockIds : List ℕ) (B : ℕ) :
    ℕ → ℕ → ℕ
  | 0, position => position
  | n + 1, position =>
      match writes.get? position with
      | none => position
      | some (blockId, draftedToken) =>
          if blockIds[position / B]? = some blockId ∧ tokenIds[position]? = some draftedToken then
            validThroughFrom writes tokenIds blockIds B n (position + 1)
          else position

/-- `_speculative_kv_valid_through`: first position of `[draftSeqLen, committedLen)` that the
ledger does not vouch for. -/
def speculativeKvValidThrough (writes : Option Ledger) (tokenIds : List Token)
    (blockIds : List ℕ) (B draftSeqLen committedLen : ℕ) : ℕ :=
  match writes with
  | none => draftSeqLen
  | some writes =>
      validThroughFrom writes tokenIds blockIds B (committedLen - draftSeqLen) draftSeqLen

/-- `max(num_speculative_tokens - 1, 0) if is_drafting else 0`: the lookahead rows. -/
def lookaheadRows (numSpeculativeTokens : ℕ) (isDrafting : Bool) : ℕ :=
  if isDrafting then numSpeculativeTokens - 1 else 0

/-- `_make_decode_plan`. -/
def makeDecodePlan (cfg : ProposerConfig) (s : ProposerState) (row : DecodeRow)
    (numSpeculativeTokens : ℕ) (isDrafting : Bool) :
    Except ProposeError (ProposerState × Option DraftPlan) :=
  let committedLen := min row.tokenIds.length cfg.maxModelLen
  let (draftSeqLen, s) := s.seed row.numComputedTokens
  if draftSeqLen ≥ committedLen then .ok (s, none)
  else
    -- the last committed token always runs: its logits predict the first draft
    let start := min (speculativeKvValidThrough s.specKvWrites row.tokenIds row.blockIds
      cfg.blockSize draftSeqLen committedLen) (committedLen - 1)
    match validateSchedulerBlocks row.blockIds cfg.blockSize
        (committedLen + lookaheadRows numSpeculativeTokens isDrafting) with
    | .error e => .error e
    | .ok _ => .ok (s, some
        { blockIds := row.blockIds
          committedLen := committedLen
          draftSeqLen := start
          ingestTokens := (row.tokenIds.take committedLen).drop start
          isDrafting := isDrafting })

/-- `_select_prefill_ingest_tokens`. -/
def selectPrefillIngestTokens (row : PrefillRow) (draftSeqLen committedLen : ℕ) :
    Except ProposeError (List Token) :=
  let tokens : Except ProposeError (List Token) :=
    if draftSeqLen < row.startPos then
      -- earlier chunks were deferred: rebuild the range from the full prompt
      match row.fullPromptTokenIds with
      | none => .error (.fullPromptMissing draftSeqLen row.startPos)
      | some full =>
          let catchUp := if committedLen > full.length then
            full ++ row.tokenIds.drop (full.length - row.startPos) else full
          .ok ((catchUp.take committedLen).drop draftSeqLen)
    else
      .ok ((row.tokenIds.take (committedLen - row.startPos)).drop (draftSeqLen - row.startPos))
  match tokens with
  | .error e => .error e
  | .ok ingestTokens =>
      if ingestTokens.length ≠ committedLen - draftSeqLen then
        .error (.catchUp (committedLen - draftSeqLen) draftSeqLen committedLen
          ingestTokens.length)
      else .ok ingestTokens

/-- `_make_prefill_plan`; `drafting` says that the id is among `drafting_req_ids`. -/
def makePrefillPlan (cfg : ProposerConfig) (s : ProposerState) (row : PrefillRow)
    (numSpeculativeTokens : ℕ) (drafting : Bool) :
    Except ProposeError (ProposerState × Option DraftPlan) :=
  let ingestTokens := row.tokenIds.take (cfg.maxModelLen - row.startPos)
  if ingestTokens = [] then .ok (s, none)
  else
    let committedLen := row.startPos + ingestTokens.length
    let (draftSeqLen, s) := s.seed row.startPos
    if draftSeqLen ≥ committedLen then .ok (s, none)
    else
      match selectPrefillIngestTokens row draftSeqLen committedLen with
      | .error e => .error e
      | .ok ingestTokens =>
          let isDrafting := !row.intermediate && drafting
          match validateSchedulerBlocks row.blockIds cfg.blockSize
              (committedLen + lookaheadRows numSpeculativeTokens isDrafting) with
          | .error e => .error e
          | .ok _ => .ok (s, some
              { blockIds := row.blockIds
                committedLen := committedLen
                draftSeqLen := draftSeqLen
                ingestTokens := ingestTokens
                isDrafting := isDrafting })

/-- Whether `_collect_draft_plans` puts the id into `drafting_req_ids`: it is eligible and
`K` drafts fit behind the target's computed suffix. -/
def isDraftingReq (cfg : ProposerConfig) (r : Round) : Bool :=
  let stateLen := match r.row with
    | .decode row => row.tokenIds.length
    | .prefill row => row.stateLen
  r.eligible && decide (0 < r.numSpeculativeTokens) &&
    decide (stateLen - 1 + r.numSpeculativeTokens ≤ cfg.maxModelLen)

/-- The prefill row as `_collect_draft_plans` passes it on: where the round drafts from it,
the target's prefill already committed its first output token, which follows the chunk. -/
def PrefillRow.extended (row : PrefillRow) (drafting : Bool) : PrefillRow :=
  if drafting then { row with tokenIds := row.tokenIds ++ [row.sampled] } else row

/-- `_collect_draft_plans`, on this request. -/
def collectDraftPlan (cfg : ProposerConfig) (s : ProposerState) (r : Round) :
    Except ProposeError (ProposerState × Option DraftPlan) :=
  let drafting := isDraftingReq cfg r
  match r.row with
  | .decode row => makeDecodePlan cfg s row r.numSpeculativeTokens drafting
  | .prefill row => makePrefillPlan cfg s (row.extended drafting) r.numSpeculativeTokens drafting

/-! ### The forwards -/

/-- `_ingest_and_draft_first`, on this request's plan: one forward when every ingest of the
batch is small, else one forward for each chunk. -/
def ingestAndDraftFirst (net : DraftNet Cell) (cfg : ProposerConfig) (otherIngest : ℕ)
    (plan : DraftPlan) (pool : KVPool Cell) : KVPool Cell × Token :=
  let maxLen := max otherIngest plan.ingestTokens.length
  if maxLen ≤ decodeIngestMaxTokens then
    forwardRows net cfg.blockSize plan.blockIds pool 0 plan.draftSeqLen plan.ingestTokens
  else
    let chunkSize := if cfg.ingestChunk = 0 then maxLen else cfg.ingestChunk
    let starts := (List.range ((maxLen + chunkSize - 1) / chunkSize)).map (· * chunkSize)
    starts.foldl (fun (acc : KVPool Cell × Token) start =>
      let stop := min (start + chunkSize) plan.ingestTokens.length
      if stop ≤ start then acc
      else forwardRows net cfg.blockSize plan.blockIds acc.1 acc.2 (plan.draftSeqLen + start)
        ((plan.ingestTokens.take stop).drop start)) (pool, 0)

/-- The remaining `n` lookahead steps: each feeds the previous draft at the next position. -/
def draftSteps (net : DraftNet Cell) (B : ℕ) (blockIds : List ℕ) :
    ℕ → KVPool Cell → ℕ → Token → KVPool Cell × List Token
  | 0, pool, _, _ => (pool, [])
  | n + 1, pool, p, prev =>
      let (pool, tok) := forwardRows net B blockIds pool prev p [prev]
      let (pool, toks) := draftSteps net B blockIds n pool (p + 1) tok
      (pool, tok :: toks)

/-- The ledger of a drafting round: draft `i` sits at `committedLen + i`, for every draft
but the last, which no step feeds. -/
def recordWrites (B : ℕ) (plan : DraftPlan) (numSpeculativeTokens : ℕ) (row : List Token) :
    Ledger :=
  (List.range (numSpeculativeTokens - 1)).foldl
    (fun writes i => writes.set (plan.committedLen + i)
      (plan.blockIds.getD ((plan.committedLen + i) / B) 0, row.getD i 0)) ∅

/-- What a round leaves behind. -/
structure RoundResult (Cell : Type*) where
  state : ProposerState
  pool : KVPool Cell
  /-- The plan, on a round that got past `_ingest_and_draft_first`. -/
  plan : Option DraftPlan
  drafts : Option (List Token)

/-- `propose`, on this request. -/
def propose (net : DraftNet Cell) (cfg : ProposerConfig) (s : ProposerState)
    (pool : KVPool Cell) (r : Round) : Except ProposeError (RoundResult Cell) :=
  if r.numSpeculativeTokens = 0 ∧ cfg.allowDeferredZeroKIngest = true then
    -- remember where the lazy catch-up must start, without running the network
    .ok ⟨(s.seed r.boundary).2, pool, none, none⟩
  else
    match collectDraftPlan cfg s r with
    | .error e => .error e
    | .ok (s, none) => .ok ⟨s, pool, none, none⟩
    | .ok (s, some plan) =>
        let (pool, first) := ingestAndDraftFirst net cfg r.otherIngest plan pool
        let s := { s with draftSeqLen := some plan.committedLen }
        if r.numSpeculativeTokens = 0 then .ok ⟨s, pool, some plan, none⟩
        else if plan.isDrafting = false then .ok ⟨s, pool, some plan, none⟩
        else
          let (pool, rest) := draftSteps net cfg.blockSize plan.blockIds
            (r.numSpeculativeTokens - 1) pool plan.committedLen first
          let row := first :: rest
          let writes := recordWrites cfg.blockSize plan r.numSpeculativeTokens row
          .ok ⟨{ s with specKvWrites := some writes }, pool, some plan, some row⟩

end DraftModel
end VllmMetal
