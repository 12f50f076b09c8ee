import VllmMetal.Runner.DraftCaps
import VllmMetal.State.Align

/-!
# Align-mode checkpoints are exact

A run of steps over block-indexed state.  The scheduler admits requests, extends their block
tables and schedules their steps; the runner moves the state into the block in which a step
ends, runs the forward and rolls the state back to the rows that count.  A slab is a
checkpoint of the block in which a step has ended: it holds the state after the tokens of the
request up to the end of that block.  The blocks are bytes that all cache groups share, so that a
block holds the state of one group at a time.

## Main definitions

* `GDNModel` — what a layer computes from the tokens; `stateAfter` — the state after them.
* `AlignSystem` — the runner's state and the scheduler's view of it.
* `AlignBatch.run` — a step of the runner; `AlignStep` — a step of the system.
* `AlignSystem.Exact` — the invariant.

## Main results

* `AlignBatch.run_spec` — one step of the runner.
* `exact_of_step` — one step of the system.
* `align_checkpoints_exact` — **every run**.
-/

namespace VllmMetal
namespace State

variable {numLayers maxSeqs stateLen : ℕ} {X Y S : Type}

/-! ### The state after a list of tokens -/

/-- The network, as far as the state goes: what a layer feeds to its convolution and to its
recurrence at a position, given the tokens up to it. -/
structure GDNModel (numLayers : ℕ) (X Y S : Type) where
  step : S → Y → S
  mixedQkvRow : Fin numLayers → List Token → X
  actsRow : Fin numLayers → List Token → Y
  policy : Fin numLayers → GDNLazyPolicy
  keyHeadDim : Fin numLayers → ℕ

/-- The rows of new tokens that follow others. -/
def rowsAfter {α : Type} (row : List Token → α) (tokens newTokens : List Token) : List α :=
  (List.range newTokens.length).map fun i => row (tokens ++ newTokens.take (i + 1))

@[simp] theorem length_rowsAfter {α : Type} (row : List Token → α)
    (tokens newTokens : List Token) :
    (rowsAfter row tokens newTokens).length = newTokens.length := by
  simp [rowsAfter]

theorem take_rowsAfter {α : Type} (row : List Token → α) (tokens newTokens : List Token)
    (k : ℕ) : (rowsAfter row tokens newTokens).take k =
      rowsAfter row tokens (newTokens.take k) := by
  apply List.ext_getElem (by simp)
  intro i hi hi'
  simp only [length_rowsAfter, List.length_take] at hi'
  simp [rowsAfter, List.take_take, Nat.min_eq_left (by omega : i + 1 ≤ k)]

theorem rowsAfter_append {α : Type} (row : List Token → α) (tokens newTokens : List Token) :
    rowsAfter row [] (tokens ++ newTokens) =
      rowsAfter row [] tokens ++ rowsAfter row tokens newTokens := by
  apply List.ext_getElem (by simp)
  intro i hi hi'
  rcases Nat.lt_or_ge i tokens.length with hlt | hge
  · rw [List.getElem_append_left (by simpa using hlt)]
    simp [rowsAfter, List.take_append_of_le_length (by omega : i + 1 ≤ tokens.length)]
  · rw [List.getElem_append_right (by simpa using hge)]
    have hsub : i + 1 - tokens.length = i - tokens.length + 1 := by omega
    simp [rowsAfter, List.take_append, List.take_of_length_le (by omega : tokens.length ≤ i + 1),
      hsub]

theorem convTail_nil (row : Fin stateLen → X) : convTail row [] = row := by
  funext t
  refine Option.some.inj ?_
  rw [← convTail_apply]
  simp

/-- The window after some rows and then others is the window after all of them. -/
theorem convTail_convTail (row : Fin stateLen → X) (rows rows' : List X) :
    convTail (convTail row rows) rows' = convTail row (rows ++ rows') := by
  funext t
  refine Option.some.inj ?_
  rw [← convTail_apply, ← convTail_apply]
  rcases Nat.lt_or_ge (rows'.length + t.val) stateLen with hlt | hge
  · have hright : (List.ofFn row ++ (rows ++ rows'))[(rows ++ rows').length + t.val]? =
        (List.ofFn row ++ rows)[rows.length + (rows'.length + t.val)]? := by
      rw [← List.append_assoc, List.getElem?_append_left (by simp; omega), List.length_append,
        Nat.add_assoc]
    rw [hright, convTail_apply row rows ⟨rows'.length + t.val, hlt⟩,
      List.getElem?_append_left (by simpa using hlt), List.getElem?_ofFn, dif_pos hlt]
  · rw [List.getElem?_append_right (by simpa using hge), ← List.append_assoc,
      List.getElem?_append_right (by simp; omega), List.length_append, List.length_append,
      List.length_ofFn, List.length_ofFn]
    congr 1
    omega

section StateAfter

variable [Zero X] [Zero S]

/-- Zero rows. -/
instance (c : StateComponent) : Zero (GDNRow stateLen X S c) :=
  match c with
  | .conv => ⟨fun _ => 0⟩
  | .recurrent => ⟨0⟩

variable (model : GDNModel numLayers X Y S)

/-- **The state of a layer after a list of tokens.** -/
def GDNModel.stateAfter : (c : StateComponent) → Fin numLayers → List Token →
    GDNRow stateLen X S c
  | .conv, layer, tokens => convTail (fun _ => 0) (rowsAfter (model.mixedQkvRow layer) [] tokens)
  | .recurrent, layer, tokens => (rowsAfter (model.actsRow layer) [] tokens).foldl model.step 0

/-- No token leaves the state zero. -/
theorem GDNModel.stateAfter_nil (c : StateComponent) (layer : Fin numLayers) :
    model.stateAfter c layer [] = (0 : GDNRow stateLen X S c) := by
  cases c with
  | conv => exact convTail_nil _
  | recurrent => rfl

theorem GDNModel.stateAfter_recurrent_append (layer : Fin numLayers)
    (tokens newTokens : List Token) :
    (model.stateAfter .recurrent layer (tokens ++ newTokens) : GDNRow stateLen X S .recurrent) =
      (rowsAfter (model.actsRow layer) tokens newTokens).foldl model.step
        (model.stateAfter .recurrent layer tokens : GDNRow stateLen X S .recurrent) := by
  rw [stateAfter, rowsAfter_append, List.foldl_append]
  rfl

theorem GDNModel.stateAfter_conv_append (layer : Fin numLayers)
    (tokens newTokens : List Token) :
    (model.stateAfter .conv layer (tokens ++ newTokens) : GDNRow stateLen X S .conv) =
      convTail (model.stateAfter .conv layer tokens : GDNRow stateLen X S .conv)
        (rowsAfter (model.mixedQkvRow layer) tokens newTokens) := by
  rw [stateAfter, rowsAfter_append, stateAfter, convTail_convTail]

end StateAfter

/-! ### Requests and batches -/

/-- The slots of a step are the ids of the mapping of the layer's group. -/
theorem PagedStateCache.stepSlotIds_ok {Row : StateComponent → Type*}
    (cache : PagedStateCache numLayers maxSeqs Row) {mappings : List (List ℤ)}
    {layer : Fin numLayers} {numRequests : ℕ} {slotIds : SlotIds maxSeqs}
    (h : cache.stepSlotIds (some mappings) none layer numRequests = .ok slotIds) :
    mappings[cache.layerGroupOrdinal layer]? =
      some (slotIds.ids.map fun slot => (slot.val : ℤ)) ∧ slotIds.ids.length = numRequests := by
  rw [stepSlotIds] at h
  cases hmapping : mappings[cache.layerGroupOrdinal layer]? with
  | none =>
    simp only [hmapping] at h
    cases h
  | some ids =>
    simp only [hmapping] at h
    split at h
    · cases h
    · next hlen =>
      split at h
      · cases h
      · split at h
        · cases h
        · next slots hslots =>
          cases h
          have hids := requireAllocatedSlots_ok hslots
          have hlength : slots.length = ids.length := by
            rw [← hids, List.length_map]
          exact ⟨by rw [hids], hlength.trans (not_not.mp hlen)⟩

theorem PagedStateCache.length_of_stepSlotIds {Row : StateComponent → Type*}
    (cache : PagedStateCache numLayers maxSeqs Row) {mappings : List (List ℤ)}
    {layer : Fin numLayers} {numRequests : ℕ} {slotIds : SlotIds maxSeqs}
    (h : cache.stepSlotIds (some mappings) none layer numRequests = .ok slotIds) :
    slotIds.ids.length = numRequests :=
  (cache.stepSlotIds_ok h).2

/-- A request, as the scheduler sees it. -/
structure AlignRequest where
  /-- The tokens that have been computed. -/
  tokens : List Token
  /-- The block table of each group, by position. -/
  stateBlockIds : List (List ℤ)
  /-- The block positions in which a step has ended, or from which the request was restored,
  and that the scheduler has not freed. -/
  ended : List ℕ
  /-- The cap of the drafts that have been proposed for the request. -/
  draftCap : Option ℕ

/-- The block at a position of a group's table. -/
def AlignRequest.block (request : AlignRequest) (group position : ℕ) : Option ℤ :=
  request.stateBlockIds[group]?.bind fun row => row[position]?

/-- A request in a step: the tokens it feeds and, of a decode, the tokens sampled for it. -/
structure AlignEntry where
  reqId : ReqId
  request : AlignRequest
  newTokens : List Token
  sampledIds : List Token
  newTokens_ne : newTokens ≠ []

namespace AlignEntry

variable (entry : AlignEntry)

/-- `num_computed`. -/
def numComputed : ℕ := entry.request.tokens.length

/-- The block position in which the step of the request ends. -/
def dstPosition (blockSize : ℕ) : ℕ :=
  dstIndex blockSize entry.numComputed entry.newTokens.length

/-- The block in which the step ends. -/
def dstBlock (blockSize group : ℕ) : Option ℤ :=
  entry.request.block group (entry.dstPosition blockSize)

/-- The group for which the step ends in a block. -/
def dstGroup (blockSize : ℕ) (b : ℤ) : Option ℕ :=
  (List.range entry.request.stateBlockIds.length).find? fun group =>
    entry.dstBlock blockSize group = some b

/-- The tokens computed once `kept` rows are committed. -/
def committedTokens (kept : ℕ) : List Token := entry.request.tokens ++ entry.newTokens.take kept

end AlignEntry

/-- The requests of a step, the decodes first. -/
structure AlignBatch where
  decodes : List AlignEntry
  prefills : List AlignEntry

namespace AlignBatch

variable (batch : AlignBatch)

/-- The requests of the step. -/
def entries : List AlignEntry := batch.decodes ++ batch.prefills

/-- `committed_rows`: the tokens sampled for each decode. -/
def committedRows : List ℕ := batch.decodes.map fun entry => entry.sampledIds.length

/-- The rows that count: as many as were sampled, for a decode, and all of a prefill. -/
def keptRows (i : ℕ) : ℕ :=
  (batch.committedRows ++ batch.prefills.map fun entry => entry.newTokens.length).getD i 0

/-- The segments of the step. -/
def packed : PackedBatch where
  lens := batch.entries.map fun entry => entry.newTokens.length
  numDecodeRequests := batch.decodes.length
  pos := by
    intro n hn
    obtain ⟨entry, -, rfl⟩ := List.mem_map.mp hn
    exact List.length_pos_of_ne_nil entry.newTokens_ne
  numDecodeRequests_le := by simp [entries]

/-- The inputs of a layer. -/
def layerForward (model : GDNModel numLayers X Y S) (layer : Fin numLayers)
    (slotIds : SlotIds maxSeqs) (h : slotIds.ids.length = batch.entries.length) :
    GDNLayerForward batch.packed numLayers maxSeqs X Y where
  cacheIdx := layer
  policy := model.policy layer
  keyHeadDim := model.keyHeadDim layer
  slotIds := slotIds
  mixedQkv := batch.entries.flatMap fun entry =>
    rowsAfter (model.mixedQkvRow layer) entry.request.tokens entry.newTokens
  acts := batch.entries.flatMap fun entry =>
    rowsAfter (model.actsRow layer) entry.request.tokens entry.newTokens
  slots_length := by simp [packed, h]
  mixedQkv_length := by simp [packed, List.length_flatMap]
  acts_length := by simp [packed, List.length_flatMap]

/-- The inputs of the layers, with the slots that each finds in the context. -/
def layerForwards (model : GDNModel numLayers X Y S)
    (cache : PagedStateCache numLayers maxSeqs (GDNRow stateLen X S))
    (stateGroupSlotMappings : List (List ℤ)) :
    List (Fin numLayers) →
      Except AlignError (List (GDNLayerForward batch.packed numLayers maxSeqs X Y))
  | [] => .ok []
  | layer :: layers =>
      match hslots : cache.stepSlotIds (some stateGroupSlotMappings) none layer
          batch.entries.length with
      | .error e => .error (.cache e)
      | .ok slotIds =>
          match layerForwards model cache stateGroupSlotMappings layers with
          | .error e => .error e
          | .ok fwds => .ok (batch.layerForward model layer slotIds
              (cache.length_of_stepSlotIds hslots) :: fwds)

section Run

variable [Zero X] [Zero S] (lazy : GDNLazyKernels) (model : GDNModel numLayers X Y S)
variable (manager : AlignStateManager)

/-- The state when the forward starts: the call of `populate_step_context`. -/
def started (cache : PagedStateCache numLayers maxSeqs (GDNRow stateLen X S)) :
    Except AlignError (AlignStateManager ×
      PagedStateCache numLayers maxSeqs (GDNRow stateLen X S) × List (List ℤ)) :=
  manager.populateStepContext cache (batch.entries.map AlignEntry.reqId)
    (some (batch.entries.map fun entry => entry.request.stateBlockIds))
    (some (batch.entries.map fun entry => (entry.numComputed, entry.newTokens.length)))

/-- A step of the runner: the motions, the forward and the acceptance. -/
def run (state : GDNStateCache numLayers maxSeqs stateLen X Y S) :
    Except AlignError (AlignStateManager × GDNStateCache numLayers maxSeqs stateLen X Y S) :=
  match batch.started manager state.cache with
  | .error e => .error e
  | .ok (manager, cache, mappings) =>
      match batch.layerForwards model cache mappings (List.finRange numLayers) with
      | .error e => .error e
      | .ok layers =>
          match forwardLayers lazy model.step layers
              { cache := cache, specVerifyStash := none } with
          | .error e => .error (.gdn e)
          | .ok forwarded =>
              match applySpecDecodeAcceptance lazy model.step forwarded batch.committedRows with
              | .error e => .error (.gdn e)
              | .ok (accepted, _) => .ok (manager, accepted)

end Run

/-- `_hybrid_draft_caps`, at the end of the step. -/
def draftCaps (stateCheckpointStride : Option ℕ) : Option (Dict ReqId ℕ) :=
  hybridDraftCaps stateCheckpointStride
    (batch.decodes.map fun entry => (entry.reqId, entry.numComputed))
    (batch.decodes.map AlignEntry.sampledIds)
    (batch.prefills.map fun entry => (entry.reqId, entry.numComputed, entry.newTokens))

end AlignBatch

/-! ### The system -/

/-- The runner's state with the scheduler's requests and prefix cache. -/
structure AlignSystem (numLayers maxSeqs stateLen : ℕ) (X Y S : Type) where
  manager : AlignStateManager
  state : GDNStateCache numLayers maxSeqs stateLen X Y S
  requests : ReqId → Option AlignRequest
  /-- The group of which a block is a checkpoint, and the tokens at whose end it is one. -/
  checkpoints : ℤ → Option (ℕ × List Token)

/-- What the scheduler and the runner do. -/
inductive AlignEvent where
  /-- A request is admitted, at a prefix hit or with nothing computed. -/
  | admission (reqId : ReqId) (hit : List Token) (stateBlockIds : List (List ℤ))
  /-- The block tables of a request get longer. -/
  | extend (reqId : ReqId) (newBlockIds : List (List ℤ))
  /-- The scheduler frees blocks that a request has left behind. -/
  | free (reqId : ReqId) (positions : List ℕ)
  /-- Requests finish or are preempted. -/
  | release (reqIds : List ReqId)
  /-- The runner materializes the pending state. -/
  | materialize
  /-- Cache groups of other layers write to blocks. -/
  | overwrite (blocks : List ℤ)
  /-- A step. -/
  | forward (batch : AlignBatch)

namespace AlignSystem

variable (s : AlignSystem numLayers maxSeqs stateLen X Y S)

/-- The group of a layer. -/
def group (layer : Fin numLayers) : ℕ := s.state.cache.layerGroupOrdinal layer

/-- The slabs of a layer: what its region holds. -/
def slab (c : StateComponent) (layer : Fin numLayers) : Fin maxSeqs → GDNRow stateLen X S c :=
  s.state.cache.stored c (s.state.cache.regions layer)

/-- The hit block of every group holds a checkpoint of exactly the hit tokens. -/
def Hit (hit : List Token) (stateBlockIds : List (List ℤ)) : Prop :=
  s.manager.blockSize ∣ hit.length ∧ ∀ layer, ∃ row b,
    stateBlockIds[s.group layer]? = some row ∧
    row[hit.length / s.manager.blockSize - 1]? = some b ∧
    s.checkpoints b = some (s.group layer, hit)

/-- A request as it is admitted. -/
def admitted (hit : List Token) (stateBlockIds : List (List ℤ)) : AlignRequest where
  tokens := hit
  stateBlockIds := stateBlockIds
  ended := if hit = [] then [] else [hit.length / s.manager.blockSize - 1]
  draftCap := some 0

/-- **What the scheduler promises of a step.** -/
structure Scheduled (batch : AlignBatch) : Prop where
  known : ∀ entry ∈ batch.entries, s.requests entry.reqId = some entry.request
  distinct : (batch.entries.map AlignEntry.reqId).Nodup
  /-- A chunk that starts inside a block ends in it. -/
  chunk : ∀ entry ∈ batch.prefills, ¬ s.manager.blockSize ∣ entry.numComputed →
    entry.dstPosition s.manager.blockSize = entry.numComputed / s.manager.blockSize
  /-- A verification feeds the last token and drafts within the proposer's cut, and samples at
  least one token and at most one for each row. -/
  span : ∀ entry ∈ batch.decodes, (∃ last maxTokens generatedTokens draft drafts,
      entry.newTokens = last :: drafts ∧
      drafts <+: trimDraft entry.request.draftCap maxTokens generatedTokens draft) ∧
    1 ≤ entry.sampledIds.length ∧ entry.sampledIds.length ≤ entry.newTokens.length
  /-- No two requests end in one block, and no request does so for two groups. -/
  separate : ∀ entry ∈ batch.entries, ∀ entry' ∈ batch.entries, ∀ group group' b,
    entry.dstBlock s.manager.blockSize group = some b →
    entry'.dstBlock s.manager.blockSize group' = some b →
    entry.reqId = entry'.reqId ∧ group = group'
  /-- The block in which a step ends is no block that a request still needs for whatever group,
  unless it is the one in which the request itself continues. -/
  unshared : ∀ entry ∈ batch.entries, ∀ group b,
    entry.dstBlock s.manager.blockSize group = some b →
    ∀ reqId request group' position, s.requests reqId = some request →
      position ∈ request.ended → request.block group' position = some b →
      reqId = entry.reqId ∧ group' = group ∧ position = entry.dstPosition s.manager.blockSize

/-- A request after a step in which it has kept some rows. -/
def committedRequest (batch : AlignBatch) (entry : AlignEntry) (kept : ℕ) : AlignRequest where
  tokens := entry.committedTokens kept
  stateBlockIds := entry.request.stateBlockIds
  ended := entry.dstPosition s.manager.blockSize :: entry.request.ended
  draftCap := (batch.draftCaps s.manager.checkpointStride).bind fun caps =>
    caps.get? entry.reqId

/-- The system after a step: every block in which the step has ended is a checkpoint exactly
if the committed tokens end with it. -/
def committed (batch : AlignBatch) (manager : AlignStateManager)
    (state : GDNStateCache numLayers maxSeqs stateLen X Y S) :
    AlignSystem numLayers maxSeqs stateLen X Y S where
  manager := manager
  state := state
  requests := fun reqId =>
    match batch.entries.zipIdx.find? fun p => p.1.reqId = reqId with
    | some (entry, i) => some (s.committedRequest batch entry (batch.keptRows i))
    | none => s.requests reqId
  checkpoints := fun b =>
    match batch.entries.zipIdx.findSome? fun p =>
        (p.1.dstGroup s.manager.blockSize b).map fun group => (p, group) with
    | some ((entry, i), group) =>
        let tokens := entry.committedTokens (batch.keptRows i)
        if s.manager.blockSize ∣ tokens.length then some (group, tokens) else none
    | none => s.checkpoints b

/-- The system once blocks have been written to: whatever their bytes are now, they are no
checkpoints. -/
def overwritten (blocks : List ℤ)
    (buffers : (c : StateComponent) → ℕ → Fin maxSeqs → GDNRow stateLen X S c) :
    AlignSystem numLayers maxSeqs stateLen X Y S :=
  { s with
    state := { s.state with cache := { s.state.cache with buffers := buffers } }
    checkpoints := fun b => if b ∈ blocks then none else s.checkpoints b }

end AlignSystem

/-- **A step of the system.** -/
inductive AlignStep [Zero X] [Zero S] (lazy : GDNLazyKernels) (model : GDNModel numLayers X Y S) :
    AlignSystem numLayers maxSeqs stateLen X Y S → AlignEvent →
      AlignSystem numLayers maxSeqs stateLen X Y S → Prop
  | admission {s : AlignSystem numLayers maxSeqs stateLen X Y S} {reqId : ReqId}
      {hit : List Token} {stateBlockIds : List (List ℤ)} :
      s.requests reqId = none → (hit ≠ [] → s.Hit hit stateBlockIds) →
      AlignStep lazy model s (.admission reqId hit stateBlockIds)
        { s with
          requests := Function.update s.requests reqId
            (some (s.admitted hit stateBlockIds)) }
  | extend {s : AlignSystem numLayers maxSeqs stateLen X Y S} {reqId : ReqId}
      {request : AlignRequest} {newBlockIds : List (List ℤ)} :
      s.requests reqId = some request →
      AlignStep lazy model s (.extend reqId newBlockIds)
        { s with
          requests := Function.update s.requests reqId
            (some { request with
              stateBlockIds := request.stateBlockIds.mapIdx fun group row =>
                row ++ newBlockIds.getD group [] }) }
  | free {s : AlignSystem numLayers maxSeqs stateLen X Y S} {reqId : ReqId}
      {request : AlignRequest} {positions : List ℕ} :
      s.requests reqId = some request →
      (request.tokens.length - 1) / s.manager.blockSize ∉ positions →
      AlignStep lazy model s (.free reqId positions)
        { s with
          requests := Function.update s.requests reqId
            (some { request with
              ended := request.ended.filter fun position => position ∉ positions }) }
  | release {s : AlignSystem numLayers maxSeqs stateLen X Y S} {reqIds : List ReqId} :
      AlignStep lazy model s (.release reqIds)
        { s with
          manager := s.manager.releaseRequests reqIds
          requests := fun reqId => if reqId ∈ reqIds then none else s.requests reqId }
  | materialize {s : AlignSystem numLayers maxSeqs stateLen X Y S} :
      AlignStep lazy model s .materialize
        { s with
          manager := (s.manager.materializePendingState s.state.cache).1
          state := { s.state with cache := (s.manager.materializePendingState s.state.cache).2 } }
  | overwrite {s : AlignSystem numLayers maxSeqs stateLen X Y S} {blocks : List ℤ}
      {buffers : (c : StateComponent) → ℕ → Fin maxSeqs → GDNRow stateLen X S c} :
      (∀ c region (slot : Fin maxSeqs), (slot : ℤ) ∉ blocks →
        buffers c region slot = s.state.cache.buffers c region slot) →
      (∀ reqId request group position b, s.requests reqId = some request →
        position ∈ request.ended → request.block group position = some b → b ∉ blocks) →
      AlignStep lazy model s (.overwrite blocks) (s.overwritten blocks buffers)
  | forward {s : AlignSystem numLayers maxSeqs stateLen X Y S} {batch : AlignBatch}
      {manager : AlignStateManager} {state : GDNStateCache numLayers maxSeqs stateLen X Y S} :
      s.Scheduled batch → batch.run lazy model s.manager s.state = .ok (manager, state) →
      AlignStep lazy model s (.forward batch) (s.committed batch manager state)

/-! ### One step of the runner -/

section Exact

variable [Zero X] [Zero S] {lazy : GDNLazyKernels} {model : GDNModel numLayers X Y S}

/-- **The invariant.** -/
structure AlignSystem.Exact (model : GDNModel numLayers X Y S)
    (s : AlignSystem numLayers maxSeqs stateLen X Y S) : Prop where
  align : s.manager.mambaCacheMode = .align
  blockSize : 1 < s.manager.blockSize
  hasRecurrent : s.state.cache.hasRecurrent = true
  oneOwner : s.state.cache.OneOwner
  /-- The block of the last token is one in which a step has ended, -/
  current : ∀ reqId request, s.requests reqId = some request → request.tokens ≠ [] →
    (request.tokens.length - 1) / s.manager.blockSize ∈ request.ended
  /-- no step has ended beyond the tokens computed, -/
  ended : ∀ reqId request, s.requests reqId = some request → ∀ position ∈ request.ended,
    position * s.manager.blockSize < request.tokens.length
  /-- every position in which a step has ended is in the tables, -/
  tables : ∀ reqId request, s.requests reqId = some request → ∀ position ∈ request.ended,
    ∀ layer, ∃ b, request.block (s.group layer) position = some b
  /-- the drafts of a request stay in the block of its next token, -/
  draftCap : ∀ reqId request, s.requests reqId = some request → ∃ cap,
    request.draftCap = some cap ∧
      cap ≤ hybridDraftCap s.manager.blockSize request.tokens.length
  /-- the slab of a block in which a step has ended holds the state at the end of the block,
  or after the last token, -/
  held : ∀ reqId request, s.requests reqId = some request → ∀ position ∈ request.ended,
    ∀ layer (slot : Fin maxSeqs), request.block (s.group layer) position = some (slot : ℤ) →
    ∀ c, s.slab c layer slot =
      model.stateAfter c layer (request.tokens.take ((position + 1) * s.manager.blockSize))
  /-- and every checkpoint holds the state after its tokens. -/
  checkpoints : ∀ layer (slot : Fin maxSeqs) tokens,
    s.checkpoints slot = some (s.group layer, tokens) →
    ∀ c, s.slab c layer slot = model.stateAfter c layer tokens

variable {s : AlignSystem numLayers maxSeqs stateLen X Y S} {batch : AlignBatch}

theorem AlignSystem.Exact.mem_components (h : s.Exact model) (c : StateComponent) :
    c ∈ s.state.cache.components := by
  rw [StateLayout.components, h.hasRecurrent, if_pos rfl]
  cases c <;> simp

/-- The tokens up to the end of the current block are all of them. -/
theorem take_current {tokens : List Token} {blockSize : ℕ} (hpos : 0 < blockSize) :
    tokens.take (((tokens.length - 1) / blockSize + 1) * blockSize) = tokens := by
  refine List.take_of_length_le ?_
  have := Nat.lt_div_mul_add (a := tokens.length - 1) hpos
  rw [Nat.add_mul, Nat.one_mul]
  omega

/-- The slab of the current block of a request holds the state after its tokens. -/
theorem AlignSystem.Exact.current_slab (h : s.Exact model) {reqId : ReqId}
    {request : AlignRequest} (hrequest : s.requests reqId = some request)
    (hne : request.tokens ≠ []) {layer : Fin numLayers} {slot : Fin maxSeqs}
    (hblock : request.block (s.group layer)
      ((request.tokens.length - 1) / s.manager.blockSize) = some (slot : ℤ))
    (c : StateComponent) : s.slab c layer slot = model.stateAfter c layer request.tokens := by
  rw [h.held reqId request hrequest _ (h.current reqId request hrequest hne) layer slot hblock c,
    take_current (Nat.lt_trans Nat.zero_lt_one h.blockSize)]

/-- An entry, as the state manager sees it. -/
def AlignEntry.stepRequest (entry : AlignEntry) : StepRequest where
  reqId := entry.reqId
  stateBlockIds := entry.request.stateBlockIds
  numComputed := entry.numComputed
  numScheduled := entry.newTokens.length

theorem stepRequests_entries (batch : AlignBatch) :
    AlignStateManager.stepRequests (batch.entries.map AlignEntry.reqId)
      (batch.entries.map fun entry => entry.request.stateBlockIds)
      (batch.entries.map fun entry => (entry.numComputed, entry.newTokens.length)) =
    batch.entries.map AlignEntry.stepRequest := by
  rw [AlignStateManager.stepRequests, List.zip_map', List.zip_map', List.map_map]
  rfl

omit [Zero X] [Zero S] in
/-- The requests of a step are told apart by their ids. -/
theorem AlignSystem.Scheduled.index_inj (h : s.Scheduled batch) {i j : ℕ}
    {entry entry' : AlignEntry} (hi : batch.entries[i]? = some entry)
    (hj : batch.entries[j]? = some entry') (heq : entry.reqId = entry'.reqId) : i = j := by
  have hids : ∀ (k : ℕ) (e : AlignEntry), batch.entries[k]? = some e →
      (batch.entries.map AlignEntry.reqId)[k]? = some e.reqId := by
    intro k e hk
    rw [List.getElem?_map, hk, Option.map_some]
  obtain ⟨hi', heqi⟩ := List.getElem?_eq_some_iff.mp (hids i entry hi)
  obtain ⟨hj', heqj⟩ := List.getElem?_eq_some_iff.mp (hids j entry' hj)
  exact h.distinct.getElem_inj_iff.mp (heqi.trans (heq.trans heqj.symm))

/-- The motion of every entry of a step. -/
theorem planned_of_planGroup {blockSize group : ℕ} {entries : List AlignEntry}
    {motions : List (ℤ × StateMotion)}
    (h : planGroup blockSize group (entries.map AlignEntry.stepRequest) = .ok motions) :
    motions.length = entries.length ∧ ∀ (i : ℕ) (p : ℤ × StateMotion), motions[i]? = some p →
      ∃ entry : AlignEntry, entries[i]? = some entry ∧
        RequestPlanned blockSize group entry.stepRequest p.1 p.2 := by
  have hspec := planGroup_spec h
  rw [List.forall₂_map_left_iff] at hspec
  refine ⟨hspec.length_eq.symm, fun i p hp => ?_⟩
  obtain ⟨hi, rfl⟩ := List.getElem?_eq_some_iff.mp hp
  have hi' : i < entries.length := hspec.length_eq ▸ hi
  exact ⟨entries[i], List.getElem?_eq_getElem hi', hspec.get hi' hi⟩

theorem RequestPlanned.dstBlock_eq {blockSize group : ℕ} {entry : AlignEntry} {dst : ℤ}
    {motion : StateMotion} (h : RequestPlanned blockSize group entry.stepRequest dst motion) :
    entry.dstBlock blockSize group = some dst := by
  obtain ⟨row, hrow, hdst⟩ := h.destination
  have hrow' : entry.request.stateBlockIds[group]? = some row := hrow
  rw [AlignEntry.dstBlock, AlignRequest.block, hrow', Option.bind_some]
  exact hdst

/-- A motion that is not of a fresh request starts from the block of the last token. -/
theorem RequestPlanned.source_eq {blockSize group : ℕ} {entry : AlignEntry} {dst : ℤ}
    {motion : StateMotion} (h : RequestPlanned blockSize group entry.stepRequest dst motion)
    (hne : entry.request.tokens ≠ []) :
    ∃ src, entry.request.block group ((entry.request.tokens.length - 1) / blockSize) = some src ∧
      (motion = .keep ∧ src = dst ∨ motion = .copy src) := by
  have hcomputed : entry.stepRequest.numComputed ≠ 0 := fun h0 =>
    hne (List.length_eq_zero_iff.mp h0)
  obtain ⟨row, src, hrow, hsrc, hmotion⟩ := h.source hcomputed
  have hrow' : entry.request.stateBlockIds[group]? = some row := hrow
  refine ⟨src, ?_, ?_⟩
  · rw [AlignRequest.block, hrow', Option.bind_some]
    exact hsrc
  · rcases hmotion with hmotion | hmotion
    · exact Or.inl hmotion
    · exact Or.inr hmotion.1

section Plans

variable {blockSize group : ℕ} {entries : List AlignEntry} {motions : List (ℤ × StateMotion)}
  (hplan : planGroup blockSize group (entries.map AlignEntry.stepRequest) = .ok motions)

include hplan

/-- The plan of a step, entry by entry. -/
theorem exists_planned {dst : ℤ} {motion : StateMotion} (hmem : (dst, motion) ∈ motions) :
    ∃ entry ∈ entries, RequestPlanned blockSize group entry.stepRequest dst motion := by
  obtain ⟨i, hi⟩ := List.getElem?_of_mem hmem
  obtain ⟨entry, hentry, hplanned⟩ := (planned_of_planGroup hplan).2 i _ hi
  exact ⟨entry, List.mem_of_getElem? hentry, hplanned⟩

/-- A destination of a plan is the block in which a request of the step ends, -/
theorem exists_dstBlock {b : ℤ} (hb : b ∈ dstIds motions) :
    ∃ entry ∈ entries, entry.dstBlock blockSize group = some b := by
  obtain ⟨motion, hmem⟩ := mem_dstIds.mp hb
  obtain ⟨entry, hentry, hplanned⟩ := exists_planned hplan hmem
  exact ⟨entry, hentry, hplanned.dstBlock_eq⟩

/-- and a source is the block of the last token of one. -/
theorem exists_srcBlock {b : ℤ} (hb : b ∈ copySrc motions) :
    ∃ entry ∈ entries, entry.request.tokens ≠ [] ∧
      entry.request.block group ((entry.request.tokens.length - 1) / blockSize) = some b := by
  obtain ⟨⟨src, dst⟩, hpair, rfl⟩ := List.mem_map.mp hb
  obtain ⟨entry, hentry, hplanned⟩ := exists_planned hplan (mem_copyPairs.mp hpair)
  have hne : entry.request.tokens ≠ [] := fun hnil => by
    have := hplanned.fresh.mpr (List.length_eq_zero_iff.mpr hnil)
    simp at this
  obtain ⟨b, hblock, hmotion⟩ := hplanned.source_eq hne
  obtain rfl : b = src := by
    rcases hmotion with ⟨hmotion, -⟩ | hmotion
    · simp at hmotion
    · exact (StateMotion.copy.inj hmotion).symm
  exact ⟨entry, hentry, hne, hblock⟩

end Plans

/-- **The destinations of a step are distinct, and none of them is a source**, in whatever
group. -/
theorem separatePlans (hexact : s.Exact model) (h : s.Scheduled batch) :
    AlignStateManager.SeparatePlans s.manager.blockSize
      (batch.entries.map AlignEntry.stepRequest) where
  nodup group motions hplan := by
    obtain ⟨-, hentry⟩ := planned_of_planGroup hplan
    rw [dstIds, List.Nodup, List.pairwise_map, List.pairwise_iff_getElem]
    intro i j hi hj hlt hdst
    obtain ⟨ei, hei, hpi⟩ := hentry i _ (List.getElem?_eq_getElem hi)
    obtain ⟨ej, hej, hpj⟩ := hentry j _ (List.getElem?_eq_getElem hj)
    have hreq := (h.separate ei (List.mem_of_getElem? hei) ej (List.mem_of_getElem? hej) group
      group _ hpi.dstBlock_eq (hdst ▸ hpj.dstBlock_eq)).1
    exact Nat.ne_of_lt hlt (h.index_inj hei hej hreq)
  sources group motions hplan src hsrc hzero := by
    obtain ⟨ei, hei, hne, hb⟩ := exists_srcBlock hplan hsrc
    obtain ⟨ej, hej, hpj⟩ := exists_planned hplan (mem_zeroIds.mp hzero)
    have hreq := (h.unshared ej hej group _ hpj.dstBlock_eq ei.reqId ei.request group _
      (h.known ei hei) (hexact.current _ _ (h.known ei hei) hne) hb).1
    obtain ⟨i, hi⟩ := List.getElem?_of_mem hei
    obtain ⟨j, hj⟩ := List.getElem?_of_mem hej
    obtain rfl : ei = ej := by
      rw [h.index_inj hi hj hreq] at hi
      exact Option.some.inj (hi.symm.trans hj)
    exact hne (List.length_eq_zero_iff.mp (hpj.fresh.mp rfl))
  groups group motions group' motions' hplan hplan' hgroup b hb hdst := by
    obtain ⟨ej, hej, hdst⟩ := exists_dstBlock hplan' hdst
    rcases hb with hb | hb
    · obtain ⟨ei, hei, hb⟩ := exists_dstBlock hplan hb
      exact hgroup (h.separate ej hej ei hei group' group b hdst hb).2
    · obtain ⟨ei, hei, hne, hb⟩ := exists_srcBlock hplan hb
      exact hgroup (h.unshared ej hej group' b hdst ei.reqId ei.request group _
        (h.known ei hei) (hexact.current _ _ (h.known ei hei) hne) hb).2.1.symm

/-- **When the forward of a step starts**, nothing is pending, the slots of every layer are the
blocks in which the requests will end, they hold the state after exactly the tokens computed, and no
other slab has changed. -/
theorem started_spec (hexact : s.Exact model) (h : s.Scheduled batch)
    {manager : AlignStateManager}
    {cache : PagedStateCache numLayers maxSeqs (GDNRow stateLen X S)} {mappings : List (List ℤ)}
    (hstarted : batch.started s.manager s.state.cache = .ok (manager, cache, mappings)) :
    cache.toStateLayout = s.state.cache.toStateLayout ∧ cache.Idle ∧
    (∀ c region (slot : Fin maxSeqs),
      (∀ entry ∈ batch.entries, ∀ layer, s.state.cache.regions layer = region →
        entry.dstBlock s.manager.blockSize (s.group layer) ≠ some (slot : ℤ)) →
      cache.stored c region slot = s.state.cache.stored c region slot) ∧
    ∀ layer dsts, mappings[s.group layer]? = some dsts →
      dsts.map some = batch.entries.map (fun entry =>
        entry.dstBlock s.manager.blockSize (s.group layer)) ∧
      ∀ entry ∈ batch.entries, ∀ slot : Fin maxSeqs,
        entry.dstBlock s.manager.blockSize (s.group layer) = some (slot : ℤ) → ∀ c,
          cache.logical c layer slot = model.stateAfter c layer entry.request.tokens := by
  have hplans := separatePlans hexact h
  rw [← stepRequests_entries] at hplans
  obtain ⟨hlayout, hidle, hframe, hmoved⟩ :=
    AlignStateManager.stored_populateStepContext hstarted hexact.align hexact.oneOwner hplans
  rw [stepRequests_entries] at hframe hmoved
  refine ⟨hlayout, hidle, fun c region slot hslot => ?_, fun layer dsts hdsts => ?_⟩
  · refine hframe c (hexact.mem_components c) region slot fun layer motions hregion hplan hin => ?_
    obtain ⟨entry, hentry, hdst⟩ := exists_dstBlock hplan hin
    exact hslot entry hentry layer hregion hdst
  obtain ⟨motions, hplan, rfl, hmoved⟩ := hmoved layer dsts hdsts
  obtain ⟨hlen, hentry⟩ := planned_of_planGroup hplan
  have hmap : (dstIds motions).map some = batch.entries.map (fun entry =>
      entry.dstBlock s.manager.blockSize (s.group layer)) := by
    refine List.ext_getElem (by simp [dstIds, hlen]) fun i hi hi' => ?_
    have hi : i < motions.length := by simpa [dstIds] using hi
    obtain ⟨entry, hentryi, hplanned⟩ := hentry i _ (List.getElem?_eq_getElem hi)
    obtain ⟨hlt, rfl⟩ := List.getElem?_eq_some_iff.mp hentryi
    simp only [dstIds, List.getElem_map]
    exact hplanned.dstBlock_eq.symm
  refine ⟨hmap, fun entry hmem slot hdst c => ?_⟩
  -- a layer reads what its region holds, as nothing is pending
  rw [← cache.stored_eq_logical (hidle.free c layer slot),
    congrArg StateLayout.regions hlayout]
  obtain ⟨i, hi⟩ := List.getElem?_of_mem hmem
  have hi' : i < motions.length := hlen ▸ (List.getElem?_eq_some_iff.mp hi).1
  obtain ⟨entry', hentry', hplanned⟩ := hentry i _ (List.getElem?_eq_getElem hi')
  obtain rfl : entry' = entry := Option.some.inj (hentry'.symm.trans hi)
  have hmotion : motions[i] ∈ motions := List.getElem_mem hi'
  generalize motions[i] = p at hplanned hmotion
  obtain ⟨dst, motion⟩ := p
  obtain rfl : dst = slot := Option.some.inj (hplanned.dstBlock_eq.symm.trans hdst)
  have hm := hmoved c (hexact.mem_components c)
  by_cases hnil : entry'.request.tokens = []
  · obtain rfl : motion = .zero := hplanned.fresh.mpr (List.length_eq_zero_iff.mpr hnil)
    rw [hm.zero slot hmotion, hnil, model.stateAfter_nil]
  · obtain ⟨src, hsrc, hcase⟩ := hplanned.source_eq hnil
    have hknown := h.known entry' hmem
    rcases hcase with ⟨rfl, rfl⟩ | rfl
    · rw [hm.keep slot hmotion]
      exact hexact.current_slab hknown hnil hsrc c
    · obtain ⟨t, rfl, hcopy⟩ := hm.copy slot src hmotion
      rw [hcopy]
      exact hexact.current_slab hknown hnil hsrc c

omit [Zero X] [Zero S] in
/-- The layers of a forward and the slots that they find. -/
theorem layerForwards_spec {cache : PagedStateCache numLayers maxSeqs (GDNRow stateLen X S)}
    {mappings : List (List ℤ)} {layers : List (Fin numLayers)}
    {fwds : List (GDNLayerForward batch.packed numLayers maxSeqs X Y)}
    (h : batch.layerForwards model cache mappings layers = .ok fwds) :
    fwds.map GDNLayerForward.cacheIdx = layers ∧
    (∀ layer ∈ layers, ∃ slotIds hlen, batch.layerForward model layer slotIds hlen ∈ fwds) ∧
    ∀ fwd ∈ fwds, mappings[cache.layerGroupOrdinal fwd.cacheIdx]? =
      some (fwd.slotIds.ids.map fun slot => (slot.val : ℤ)) := by
  -- induction on the layers, with the forwards free
  induction layers generalizing fwds with
  | nil =>
    cases h
    exact ⟨rfl, by simp, by simp⟩
  | cons layer layers ih =>
    rw [AlignBatch.layerForwards] at h
    split at h
    · cases h
    · next slotIds hslots =>
      cases hrest : batch.layerForwards model cache mappings layers with
      | error e =>
        rw [hrest] at h
        cases h
      | ok rest =>
        rw [hrest] at h
        cases h
        obtain ⟨hmap, hall, hmapping⟩ := ih hrest
        refine ⟨by rw [List.map_cons, hmap]; rfl, fun layer' hmem => ?_, fun fwd hmem => ?_⟩
        · rcases List.mem_cons.mp hmem with rfl | hmem
          · exact ⟨slotIds, _, List.mem_cons_self⟩
          · obtain ⟨slotIds', hlen, hin⟩ := hall layer' hmem
            exact ⟨slotIds', hlen, List.mem_cons_of_mem _ hin⟩
        · rcases List.mem_cons.mp hmem with rfl | hmem
          · exact (cache.stepSlotIds_ok hslots).1
          · exact hmapping fwd hmem

/-- The rows of an entry in the packed inputs. -/
theorem segmentRows_entries {α : Type} (batch : AlignBatch) (row : List Token → α) {i : ℕ}
    {entry : AlignEntry} (hi : batch.entries[i]? = some entry) :
    segmentRows batch.packed.cuSeqlens (batch.entries.flatMap fun entry =>
        rowsAfter row entry.request.tokens entry.newTokens) i =
      rowsAfter row entry.request.tokens entry.newTokens := by
  have hlens : batch.packed.lens = batch.entries.map fun entry =>
      (rowsAfter row entry.request.tokens entry.newTokens).length := by
    simp [AlignBatch.packed]
  rw [PackedBatch.cuSeqlens, hlens]
  exact segmentRows_flatMap hi

theorem spanLength_entries {i : ℕ} {entry : AlignEntry} (hi : batch.entries[i]? = some entry) :
    spanLength batch.packed.cuSeqlens i = entry.newTokens.length := by
  refine batch.packed.spanLength_eq ?_
  simp [AlignBatch.packed, hi]

/-- The rows that count, by the kind of the request. -/
theorem keptRows_of_decode {i : ℕ} {entry : AlignEntry} (hi : batch.decodes[i]? = some entry) :
    batch.keptRows i = entry.sampledIds.length := by
  have hlt := (List.getElem?_eq_some_iff.mp hi).1
  rw [AlignBatch.keptRows, List.getD_eq_getElem?_getD,
    List.getElem?_append_left (by simpa [AlignBatch.committedRows] using hlt)]
  simp [AlignBatch.committedRows, hi]

theorem keptRows_of_prefill {i : ℕ} {entry : AlignEntry}
    (hi : batch.entries[i]? = some entry) (hge : batch.decodes.length ≤ i) :
    batch.keptRows i = entry.newTokens.length := by
  rw [AlignBatch.entries, List.getElem?_append_right hge] at hi
  rw [AlignBatch.keptRows, List.getD_eq_getElem?_getD,
    List.getElem?_append_right (by simpa [AlignBatch.committedRows] using hge)]
  simp [AlignBatch.committedRows, hi]

/-- The rows that count are those that the acceptance keeps. -/
theorem keptRows_packed {i : ℕ} {entry : AlignEntry} (hi : batch.entries[i]? = some entry) :
    keptRows batch.packed batch.committedRows i = batch.keptRows i := by
  rw [keptRows]
  split
  · next hlt =>
    have hlt : i < batch.decodes.length := hlt
    have hdecode := List.getElem?_eq_getElem hlt
    rw [keptRows_of_decode hdecode, AlignBatch.committedRows, List.getD_eq_getElem?_getD]
    simp [hdecode]
  · next hge => rw [spanLength_entries hi, keptRows_of_prefill hi (Nat.not_lt.mp hge)]

omit [Zero X] [Zero S] in
theorem committedWithin_packed (h : s.Scheduled batch) :
    CommittedWithin batch.packed batch.committedRows := by
  intro i hi
  have hlt : i < batch.decodes.length := hi
  have hdecode := List.getElem?_eq_getElem hlt
  have hentry : batch.entries[i]? = some batch.decodes[i] := by
    rw [AlignBatch.entries, List.getElem?_append_left hlt, hdecode]
  obtain ⟨-, hpos, hle⟩ := h.span _ (List.getElem_mem hlt)
  refine ⟨batch.decodes[i].sampledIds.length, ?_, hpos, ?_⟩
  · simp [AlignBatch.committedRows, hdecode]
  · rw [spanLength_entries hentry]
    exact hle

section Slots

variable {cache : PagedStateCache numLayers maxSeqs (GDNRow stateLen X S)}
  {layers : List (GDNLayerForward batch.packed numLayers maxSeqs X Y)}
  (hlayout : cache.toStateLayout = s.state.cache.toStateLayout)
  (hslots : ∀ fwd ∈ layers, (fwd.slotIds.ids.map fun slot => some (slot.val : ℤ)) =
    batch.entries.map fun entry =>
      entry.dstBlock s.manager.blockSize (s.group fwd.cacheIdx))

include hslots

omit [Zero X] [Zero S] in
/-- The slots of a layer are the blocks in which the requests of the step end. -/
theorem exists_dstBlock_of_mem_slots {fwd : GDNLayerForward batch.packed numLayers maxSeqs X Y}
    (hmem : fwd ∈ layers) {slot : Fin maxSeqs} (hslot : slot ∈ fwd.slotIds.ids) :
    ∃ entry ∈ batch.entries,
      entry.dstBlock s.manager.blockSize (s.group fwd.cacheIdx) = some (slot : ℤ) := by
  have hsome : some (slot : ℤ) ∈ fwd.slotIds.ids.map fun slot => some (slot.val : ℤ) :=
    List.mem_map_of_mem (f := fun slot => some (slot.val : ℤ)) hslot
  rw [hslots fwd hmem] at hsome
  obtain ⟨entry, hentry, hdst⟩ := List.mem_map.mp hsome
  exact ⟨entry, hentry, hdst⟩

include hlayout

omit [Zero X] [Zero S] in
/-- **The layers of a step use slots of their own**: layers of one group are on different regions,
and no block is the destination of two groups. -/
theorem apart_layers (h : s.Scheduled batch) (hidle : cache.Idle) :
    cache.Apart (layers.map GDNLayerForward.use) where
  separate := by
    intro use huse use' huse' hne hregion slot hslot hslot'
    obtain ⟨fwd, hmem, rfl⟩ := List.mem_map.mp huse
    obtain ⟨fwd', hmem', rfl⟩ := List.mem_map.mp huse'
    obtain ⟨entry, hentry, hdst⟩ := exists_dstBlock_of_mem_slots hslots hmem hslot
    obtain ⟨entry', hentry', hdst'⟩ := exists_dstBlock_of_mem_slots hslots hmem' hslot'
    have hgroup := (h.separate entry' hentry' entry hentry _ _ _ hdst' hdst).2
    rw [congrArg StateLayout.regions hlayout] at hregion
    exact hne (s.state.cache.regions_inj _ _ hgroup hregion)
  free use _ c slot _ := hidle.free c use.layer slot

end Slots

/-- **One step of the runner.**  After the forward and the acceptance, the block in which a
request has ended holds the state after exactly its committed tokens, and no other slab has
changed. -/
theorem run_spec (hexact : s.Exact model) (h : s.Scheduled batch) {manager : AlignStateManager}
    {state : GDNStateCache numLayers maxSeqs stateLen X Y S}
    (hrun : batch.run lazy model s.manager s.state = .ok (manager, state)) :
    state.cache.toStateLayout = s.state.cache.toStateLayout ∧ state.cache.OneOwner ∧
    manager.blockSize = s.manager.blockSize ∧
    manager.mambaCacheMode = s.manager.mambaCacheMode ∧
    (∀ c region (slot : Fin maxSeqs),
      (∀ entry ∈ batch.entries, ∀ layer, s.state.cache.regions layer = region →
        entry.dstBlock s.manager.blockSize (s.group layer) ≠ some (slot : ℤ)) →
      state.cache.stored c region slot = s.state.cache.stored c region slot) ∧
    ∀ layer (i : ℕ) (entry : AlignEntry), batch.entries[i]? = some entry →
      ∃ slot : Fin maxSeqs,
        entry.dstBlock s.manager.blockSize (s.group layer) = some (slot : ℤ) ∧ ∀ c,
          state.cache.logical c layer slot =
            model.stateAfter c layer (entry.committedTokens (batch.keptRows i)) ∧
          state.cache.stored c (s.state.cache.regions layer) slot =
            model.stateAfter c layer (entry.committedTokens (batch.keptRows i)) := by
  rw [AlignBatch.run] at hrun
  cases hstarted : batch.started s.manager s.state.cache with
  | error e =>
    rw [hstarted] at hrun
    cases hrun
  | ok started =>
    obtain ⟨manager₁, cache, mappings⟩ := started
    rw [hstarted] at hrun
    dsimp only at hrun
    cases hlayers : batch.layerForwards model cache mappings (List.finRange numLayers) with
    | error e =>
      rw [hlayers] at hrun
      cases hrun
    | ok layers =>
      rw [hlayers] at hrun
      dsimp only at hrun
      cases hforward : forwardLayers lazy model.step layers
          { cache := cache, specVerifyStash := none } with
      | error e =>
        rw [hforward] at hrun
        cases hrun
      | ok forwarded =>
        rw [hforward] at hrun
        dsimp only at hrun
        cases haccept : applySpecDecodeAcceptance lazy model.step forwarded
            batch.committedRows with
        | error e =>
          rw [haccept] at hrun
          cases hrun
        | ok accepted =>
          obtain ⟨accepted, rescanned⟩ := accepted
          rw [haccept] at hrun
          cases hrun
          obtain ⟨hlayout, hidle, hframe, hstart⟩ := started_spec hexact h hstarted
          obtain ⟨hblockSize, hmode⟩ := AlignStateManager.settings_populateStepContext hstarted
          obtain ⟨hmap, hall, hmapping⟩ := layerForwards_spec hlayers
          have hgroup : ∀ layer, cache.layerGroupOrdinal layer = s.group layer := fun layer =>
            congrArg (fun layout => layout.layerGroupOrdinals layer) hlayout
          have hregions : cache.regions = s.state.cache.regions :=
            congrArg StateLayout.regions hlayout
          have hslots : ∀ fwd ∈ layers, (fwd.slotIds.ids.map fun slot => some (slot.val : ℤ)) =
              batch.entries.map fun entry =>
                entry.dstBlock s.manager.blockSize (s.group fwd.cacheIdx) := by
            intro fwd hmem
            rw [← (hstart fwd.cacheIdx _ (hgroup _ ▸ hmapping fwd hmem)).1, List.map_map]
            rfl
          have hnodup : (layers.map GDNLayerForward.cacheIdx).Nodup :=
            hmap ▸ List.nodup_finRange numLayers
          have hapart := apart_layers hlayout hslots h hidle
          let before : GDNStateCache numLayers maxSeqs stateLen X Y S :=
            { cache := cache, specVerifyStash := none }
          have hone : before.cache.OneOwner := hidle.oneOwner
          have hforward' : forwardLayers lazy model.step layers
              { before with specVerifyStash := none } = .ok forwarded := hforward
          obtain ⟨accepted', rescanned', haccept', -, hcommitted, hwithin, -⟩ :=
            applySpecDecodeAcceptance_spec hnodup hone hapart hforward' (committedWithin_packed h)
          obtain rfl : accepted' = state :=
            congrArg Prod.fst (Except.ok.inj (haccept'.symm.trans haccept))
          refine ⟨hwithin.layout.trans hlayout, hwithin.oneOwner, hblockSize, hmode,
            fun c region slot hslot => ?_, fun layer i entry hi => ?_⟩
          · refine (hwithin.stored c region slot fun use huse hregion hin => ?_).trans
              (hframe c region slot hslot)
            obtain ⟨fwd, hmem, rfl⟩ := List.mem_map.mp huse
            obtain ⟨entry, hentry, hdst⟩ := exists_dstBlock_of_mem_slots hslots hmem hin
            exact hslot entry hentry fwd.cacheIdx (hregions ▸ hregion) hdst
          · obtain ⟨slotIds, hlen, hmem⟩ := hall layer (List.mem_finRange layer)
            have hlt : i < slotIds.ids.length := by
              rw [hlen]
              exact (List.getElem?_eq_some_iff.mp hi).1
            have hslot := List.getElem?_eq_getElem hlt
            have hdst : entry.dstBlock s.manager.blockSize (s.group layer) =
                some (slotIds.ids[i] : ℤ) := by
              have hi' := congrArg (fun l => l[i]?) (hslots _ hmem)
              simp only [List.getElem?_map, AlignBatch.layerForward, hi, hslot, Option.map_some,
                Option.some.injEq] at hi'
              exact hi'.symm
            have hbefore := (hstart layer _ (hgroup layer ▸ hmapping _ hmem)).2 entry
              (List.mem_of_getElem? hi) _ hdst
            have hlayer := hcommitted _ hmem
            have hlogical : ∀ c, accepted'.cache.logical c layer slotIds.ids[i] =
                model.stateAfter c layer (entry.committedTokens (batch.keptRows i)) := by
              intro c
              cases c with
              | recurrent =>
                refine (hlayer.recurrent i _ hslot).trans ?_
                rw [keptRows_packed hi, AlignEntry.committedTokens,
                  model.stateAfter_recurrent_append, ← take_rowsAfter]
                exact congrArg₂
                  (fun rows row => (List.take (batch.keptRows i) rows).foldl model.step row)
                  (segmentRows_entries batch _ hi) (hbefore .recurrent)
              | conv =>
                refine (hlayer.conv i _ hslot).trans ?_
                rw [keptRows_packed hi, AlignEntry.committedTokens,
                  model.stateAfter_conv_append, ← take_rowsAfter]
                exact congrArg₂
                  (fun rows row => convTail row (List.take (batch.keptRows i) rows))
                  (segmentRows_entries batch _ hi) (hbefore .conv)
            refine ⟨slotIds.ids[i], hdst, fun c => ⟨hlogical c, ?_⟩⟩
            -- no other layer of the region uses the slot
            have hfree : accepted'.cache.Free c layer slotIds.ids[i] :=
              hwithin.free (fun use huse hne hregion => hapart.separate _
                (List.mem_map_of_mem hmem) use huse hne hregion _ (List.mem_of_getElem? hslot))
                (hidle.free c layer _)
            rw [← hlogical c, ← accepted'.cache.stored_eq_logical hfree, hwithin.regions_eq,
              hregions]

/-! ### One step of the system -/

/-- Where the step of a request ends, and what it commits. -/
structure EntryPlaced (blockSize : ℕ) (entry : AlignEntry) (kept : ℕ) : Prop where
  kept_pos : 0 < kept
  kept_le : kept ≤ entry.newTokens.length
  /-- A step that starts inside a block ends in it. -/
  stays : ¬ blockSize ∣ entry.numComputed →
    entry.dstPosition blockSize = entry.numComputed / blockSize
  lower : entry.dstPosition blockSize * blockSize < entry.numComputed + kept
  upper : entry.numComputed + kept ≤ (entry.dstPosition blockSize + 1) * blockSize

/-- **A step ends in the block that covers the last token it commits**: a chunk commits all of
its tokens, and the cap keeps a verification in one block. -/
theorem entryPlaced (hexact : s.Exact model) (h : s.Scheduled batch) {i : ℕ}
    {entry : AlignEntry} (hi : batch.entries[i]? = some entry) :
    EntryPlaced s.manager.blockSize entry (batch.keptRows i) := by
  have hB : 0 < s.manager.blockSize := Nat.lt_trans Nat.zero_lt_one hexact.blockSize
  have hpos : 0 < entry.newTokens.length := List.length_pos_of_ne_nil entry.newTokens_ne
  have hknown := h.known entry (List.mem_of_getElem? hi)
  have hdst : entry.dstPosition s.manager.blockSize =
      (entry.numComputed + (entry.newTokens.length - 1)) / s.manager.blockSize := by
    rw [AlignEntry.dstPosition, dstIndex, Nat.add_sub_assoc hpos]
  have hlow := Nat.div_mul_le_self (entry.numComputed + (entry.newTokens.length - 1))
    s.manager.blockSize
  have hhigh := Nat.lt_div_mul_add (a := entry.numComputed + (entry.newTokens.length - 1)) hB
  rw [← hdst] at hlow hhigh
  have hmul : (entry.dstPosition s.manager.blockSize + 1) * s.manager.blockSize =
      entry.dstPosition s.manager.blockSize * s.manager.blockSize + s.manager.blockSize := by
    rw [Nat.add_mul, Nat.one_mul]
  rcases Nat.lt_or_ge i batch.decodes.length with hlt | hge
  -- a span: the drafter's cap keeps all of its rows in one block
  · have hdecode : batch.decodes[i]? = some entry := by
      rw [AlignBatch.entries, List.getElem?_append_left hlt] at hi
      exact hi
    obtain ⟨⟨last, maxTokens, generatedTokens, draft, drafts, hnew, hprefix⟩, hone, hle⟩ :=
      h.span entry (List.mem_of_getElem? hdecode)
    obtain ⟨cap, hcap, hcaple⟩ := hexact.draftCap _ _ hknown
    have hdrafts : drafts.length ≤ hybridDraftCap s.manager.blockSize entry.numComputed := by
      rw [hcap] at hprefix
      exact Nat.le_trans hprefix.length_le
        (Nat.le_trans (length_trimDraft_le maxTokens generatedTokens draft) hcaple)
    have hlen : entry.newTokens.length - 1 = drafts.length := by
      rw [hnew]
      rfl
    have hstart : entry.dstPosition s.manager.blockSize =
        entry.numComputed / s.manager.blockSize := by
      rw [hdst, hlen]
      exact span_within_block hB hdrafts
    have hstartLow := Nat.div_mul_le_self entry.numComputed s.manager.blockSize
    rw [← hstart] at hstartLow
    rw [keptRows_of_decode hdecode]
    exact ⟨hone, hle, fun _ => hstart, by omega, by omega⟩
  -- a chunk: the scheduler cuts it so that it ends in the block of its last token
  · have hprefill : entry ∈ batch.prefills := by
      rw [AlignBatch.entries, List.getElem?_append_right hge] at hi
      exact List.mem_of_getElem? hi
    rw [keptRows_of_prefill hi hge]
    exact ⟨hpos, Nat.le_refl _, h.chunk entry hprefill, by omega, by omega⟩

theorem length_committedTokens {entry : AlignEntry} {kept blockSize : ℕ}
    (h : EntryPlaced blockSize entry kept) :
    (entry.committedTokens kept).length = entry.numComputed + kept := by
  rw [AlignEntry.committedTokens, List.length_append, List.length_take,
    Nat.min_eq_left h.kept_le]
  rfl

/-- The cap of the next draft of a request of the step. -/
theorem draftCap_committedRequest (hexact : s.Exact model) (h : s.Scheduled batch) {i : ℕ}
    {entry : AlignEntry} (hi : batch.entries[i]? = some entry) :
    (s.committedRequest batch entry (batch.keptRows i)).draftCap =
      some (hybridDraftCap s.manager.blockSize (entry.numComputed + batch.keptRows i)) := by
  have hstride : s.manager.checkpointStride = some s.manager.blockSize := by
    rw [AlignStateManager.checkpointStride, if_pos hexact.align]
  have hentries : ∀ {β : Type} (f : AlignEntry → β), batch.entries.map f =
      batch.decodes.map f ++ batch.prefills.map f := fun f => List.map_append
  -- the entries of both kinds are capped by what they have computed after the step
  have hcaps : draftCapEntries s.manager.blockSize
      (batch.decodes.map fun entry => (entry.reqId, entry.numComputed))
      (batch.decodes.map AlignEntry.sampledIds)
      (batch.prefills.map fun entry => (entry.reqId, entry.numComputed, entry.newTokens)) =
      batch.decodes.map (fun entry => (entry.reqId, hybridDraftCap s.manager.blockSize
        (entry.numComputed + entry.sampledIds.length))) ++
      batch.prefills.map (fun entry => (entry.reqId, hybridDraftCap s.manager.blockSize
        (entry.numComputed + entry.newTokens.length))) := by
    rw [draftCapEntries, List.zip_map', List.map_map, List.map_map]
    rfl
  rw [AlignSystem.committedRequest, AlignBatch.draftCaps, hstride]
  refine get?_hybridDraftCaps hexact.blockSize ?_ ?_
  · have hnodup := h.distinct
    rw [hentries] at hnodup
    rw [hcaps, List.map_append, List.map_map, List.map_map]
    exact hnodup
  · rw [hcaps, List.mem_append]
    -- a span of the step, and a chunk
    rcases Nat.lt_or_ge i batch.decodes.length with hlt | hge
    · have hdecode : batch.decodes[i]? = some entry := by
        rw [AlignBatch.entries, List.getElem?_append_left hlt] at hi
        exact hi
      rw [keptRows_of_decode hdecode]
      exact Or.inl (List.mem_map.mpr ⟨entry, List.mem_of_getElem? hdecode, rfl⟩)
    · have hprefill : entry ∈ batch.prefills := by
        rw [AlignBatch.entries, List.getElem?_append_right hge] at hi
        exact List.mem_of_getElem? hi
      rw [keptRows_of_prefill hi hge]
      exact Or.inr (List.mem_map.mpr ⟨entry, hprefill, rfl⟩)

omit [Zero X] [Zero S] in
/-- The requests after a step: those of the step, and the others as they were. -/
theorem requests_committed {manager : AlignStateManager}
    {state : GDNStateCache numLayers maxSeqs stateLen X Y S} {reqId : ReqId}
    {request : AlignRequest} (h : (s.committed batch manager state).requests reqId = some request) :
    (∃ (i : ℕ) (entry : AlignEntry), batch.entries[i]? = some entry ∧ entry.reqId = reqId ∧
      request = s.committedRequest batch entry (batch.keptRows i)) ∨
    ((∀ entry ∈ batch.entries, entry.reqId ≠ reqId) ∧ s.requests reqId = some request) := by
  simp only [AlignSystem.committed] at h
  split at h
  · next entry i hfind =>
    have hmem := List.mem_of_find?_eq_some hfind
    have hid := List.find?_some hfind
    refine Or.inl ⟨i, entry, List.mem_zipIdx_iff_getElem?.mp hmem, by simpa using hid, ?_⟩
    exact (Option.some.inj h).symm
  · next hfind =>
    refine Or.inr ⟨fun entry hmem heq => ?_, h⟩
    obtain ⟨i, hi⟩ := List.getElem?_of_mem hmem
    have := List.find?_eq_none.mp hfind (entry, i) (List.mem_zipIdx_iff_getElem?.mpr hi)
    simp [heq] at this

theorem dstBlock_of_dstGroup {entry : AlignEntry} {blockSize group : ℕ} {b : ℤ}
    (h : entry.dstGroup blockSize b = some group) : entry.dstBlock blockSize group = some b := by
  rw [AlignEntry.dstGroup] at h
  simpa using List.find?_some h

theorem dstBlock_ne_of_dstGroup {entry : AlignEntry} {blockSize : ℕ} {b : ℤ}
    (h : entry.dstGroup blockSize b = none) (group : ℕ) :
    entry.dstBlock blockSize group ≠ some b := by
  intro hdst
  have hlt : group < entry.request.stateBlockIds.length := by
    by_contra hge
    rw [AlignEntry.dstBlock, AlignRequest.block,
      List.getElem?_eq_none (Nat.not_lt.mp hge)] at hdst
    cases hdst
  have := List.find?_eq_none.mp h group (List.mem_range.mpr hlt)
  simp [hdst] at this

omit [Zero X] [Zero S] in
/-- The checkpoints after a step: those that the step has not written, and the blocks in
which a request has ended exactly. -/
theorem checkpoints_committed {manager : AlignStateManager}
    {state : GDNStateCache numLayers maxSeqs stateLen X Y S} {group : ℕ} {b : ℤ}
    {tokens : List Token}
    (h : (s.committed batch manager state).checkpoints b = some (group, tokens)) :
    (∃ (i : ℕ) (entry : AlignEntry), batch.entries[i]? = some entry ∧
      entry.dstBlock s.manager.blockSize group = some b ∧
      tokens = entry.committedTokens (batch.keptRows i)) ∨
    ((∀ entry ∈ batch.entries, ∀ group', entry.dstBlock s.manager.blockSize group' ≠ some b) ∧
      s.checkpoints b = some (group, tokens)) := by
  simp only [AlignSystem.committed] at h
  split at h
  · next entry i group' hfind =>
    obtain ⟨⟨entry', i'⟩, hmem, heq⟩ := List.exists_of_findSome?_eq_some hfind
    obtain ⟨group'', hgroup, heq⟩ := Option.map_eq_some_iff.mp heq
    cases heq
    split at h
    · obtain ⟨rfl, rfl⟩ := Prod.mk.inj (Option.some.inj h)
      exact Or.inl ⟨i, entry, List.mem_zipIdx_iff_getElem?.mp hmem, dstBlock_of_dstGroup hgroup,
        rfl⟩
    · cases h
  · next hfind =>
    refine Or.inr ⟨fun entry hmem group' => ?_, h⟩
    obtain ⟨i, hi⟩ := List.getElem?_of_mem hmem
    have := List.findSome?_eq_none_iff.mp hfind (entry, i) (List.mem_zipIdx_iff_getElem?.mpr hi)
    exact dstBlock_ne_of_dstGroup (Option.map_eq_none_iff.mp this) group'

/-- **A step keeps the invariant.** -/
theorem exact_committed (hexact : s.Exact model) (h : s.Scheduled batch)
    {manager : AlignStateManager} {state : GDNStateCache numLayers maxSeqs stateLen X Y S}
    (hrun : batch.run lazy model s.manager s.state = .ok (manager, state)) :
    (s.committed batch manager state).Exact model := by
  obtain ⟨hlayout, hone, hblockSize, hmode, hframe, hlayers⟩ := run_spec hexact h hrun
  have hgroup : ∀ layer, (s.committed batch manager state).group layer = s.group layer :=
    fun layer => congrArg (fun layout => layout.layerGroupOrdinals layer) hlayout
  have hslab : ∀ c layer, (s.committed batch manager state).slab c layer =
      state.cache.stored c (s.state.cache.regions layer) := fun c layer =>
    congrArg (fun layout => state.cache.stored c (StateLayout.regions layout layer)) hlayout
  have hB : 0 < s.manager.blockSize := Nat.lt_trans Nat.zero_lt_one hexact.blockSize
  -- a block that a request still needs is written by its own step alone
  have hkeeps : ∀ reqId request, s.requests reqId = some request → ∀ position ∈ request.ended,
      (∀ entry ∈ batch.entries, entry.reqId = reqId →
        position ≠ entry.dstPosition s.manager.blockSize) →
      ∀ layer (slot : Fin maxSeqs), request.block (s.group layer) position = some (slot : ℤ) →
      ∀ c, state.cache.stored c (s.state.cache.regions layer) slot =
        model.stateAfter c layer (request.tokens.take ((position + 1) * s.manager.blockSize)) := by
    intro reqId request hrequest position hposition hother layer slot hblock c
    rw [← hexact.held reqId request hrequest position hposition layer slot hblock c]
    refine hframe c _ slot fun entry hmem layer' _ hdst => ?_
    obtain ⟨hreq, -, hpos⟩ := h.unshared entry hmem _ _ hdst reqId request _ position hrequest
      hposition hblock
    exact hother entry hmem hreq.symm hpos
  refine ⟨hmode.trans hexact.align, hblockSize ▸ hexact.blockSize,
    (congrArg StateLayout.hasRecurrent hlayout).trans hexact.hasRecurrent, hone, ?_, ?_, ?_, ?_,
    ?_, ?_⟩
  · intro reqId request hrequest hne
    rw [show (s.committed batch manager state).manager.blockSize = s.manager.blockSize from
      hblockSize]
    rcases requests_committed hrequest with ⟨i, entry, hi, rfl, rfl⟩ | ⟨-, hrequest⟩
    · have hplaced := entryPlaced hexact h hi
      have hcurrent : (entry.numComputed + batch.keptRows i - 1) / s.manager.blockSize =
          entry.dstPosition s.manager.blockSize := by
        have hlower := hplaced.lower
        have hupper := hplaced.upper
        have hkept := hplaced.kept_pos
        refine Nat.div_eq_of_lt_le ?_ ?_
        · omega
        · omega
      rw [AlignSystem.committedRequest, length_committedTokens hplaced, hcurrent]
      exact List.mem_cons_self
    · exact hexact.current reqId request hrequest hne
  · intro reqId request hrequest position hposition
    rw [show (s.committed batch manager state).manager.blockSize = s.manager.blockSize from
      hblockSize]
    rcases requests_committed hrequest with ⟨i, entry, hi, rfl, rfl⟩ | ⟨-, hrequest⟩
    · have hplaced := entryPlaced hexact h hi
      rw [AlignSystem.committedRequest, length_committedTokens hplaced]
      rcases List.mem_cons.mp hposition with rfl | hposition
      · exact hplaced.lower
      · have := hexact.ended _ _ (h.known entry (List.mem_of_getElem? hi)) position hposition
        exact Nat.lt_of_lt_of_le this (Nat.le_add_right _ _)
    · exact hexact.ended reqId request hrequest position hposition
  · intro reqId request hrequest position hposition layer
    rw [hgroup]
    rcases requests_committed hrequest with ⟨i, entry, hi, rfl, rfl⟩ | ⟨-, hrequest⟩
    · rcases List.mem_cons.mp hposition with rfl | hposition
      · obtain ⟨slot, hdst, -⟩ := hlayers layer i entry hi
        exact ⟨_, hdst⟩
      · exact hexact.tables _ _ (h.known entry (List.mem_of_getElem? hi)) position hposition layer
    · exact hexact.tables reqId request hrequest position hposition layer
  · intro reqId request hrequest
    rw [show (s.committed batch manager state).manager.blockSize = s.manager.blockSize from
      hblockSize]
    rcases requests_committed hrequest with ⟨i, entry, hi, rfl, rfl⟩ | ⟨-, hrequest⟩
    · refine ⟨_, draftCap_committedRequest hexact h hi, ?_⟩
      rw [AlignSystem.committedRequest, length_committedTokens (entryPlaced hexact h hi)]
    · exact hexact.draftCap reqId request hrequest
  · intro reqId request hrequest position hposition layer slot hblock c
    rw [hgroup] at hblock
    rw [hslab, show (s.committed batch manager state).manager.blockSize = s.manager.blockSize from
      hblockSize]
    rcases requests_committed hrequest with ⟨i, entry, hi, rfl, rfl⟩ | ⟨hothers, hrequest⟩
    · have hmem := List.mem_of_getElem? hi
      have hplaced := entryPlaced hexact h hi
      have hknown := h.known entry hmem
      by_cases hdst : position = entry.dstPosition s.manager.blockSize
      · -- the block in which the step has ended
        subst hdst
        obtain ⟨slot', hslot', hstate⟩ := hlayers layer i entry hi
        obtain rfl : slot = slot' := by
          have heq := Option.some.inj (hblock.symm.trans hslot')
          exact Fin.ext (Int.ofNat.inj heq)
        refine (hstate c).2.trans ?_
        rw [AlignSystem.committedRequest,
          List.take_of_length_le (by rw [length_committedTokens hplaced]; exact hplaced.upper)]
      · -- a block left behind was complete before the step
        have hposition : position ∈ entry.request.ended := by
          rcases List.mem_cons.mp hposition with heq | hposition
          · exact absurd heq hdst
          · exact hposition
        have hended := hexact.ended _ _ hknown position hposition
        have hcomplete : (position + 1) * s.manager.blockSize ≤ entry.request.tokens.length := by
          by_contra hlt
          rw [Nat.not_le] at hlt
          have hdiv : entry.request.tokens.length / s.manager.blockSize = position :=
            Nat.div_eq_of_lt_le (Nat.le_of_lt hended) hlt
          refine hdst ((hplaced.stays fun hdvd => ?_).trans hdiv).symm
          have heq := Nat.div_mul_cancel hdvd
          rw [show entry.numComputed = entry.request.tokens.length from rfl, hdiv] at heq
          omega
        refine (hkeeps entry.reqId entry.request hknown position hposition
          (fun entry' hmem' hreq => ?_) layer slot hblock c).trans ?_
        · obtain ⟨j, hj⟩ := List.getElem?_of_mem hmem'
          rw [h.index_inj hj hi hreq] at hj
          rw [Option.some.inj (hj.symm.trans hi)]
          exact hdst
        · rw [AlignSystem.committedRequest, AlignEntry.committedTokens,
            List.take_append_of_le_length hcomplete]
    · exact hkeeps reqId request hrequest position hposition
        (fun entry hmem heq => absurd heq (hothers entry hmem)) layer slot hblock c
  · intro layer slot tokens htokens c
    rw [hgroup] at htokens
    rw [hslab]
    rcases checkpoints_committed htokens with ⟨i, entry, hi, hdst, rfl⟩ | ⟨hothers, htokens⟩
    · obtain ⟨slot', hslot', hstate⟩ := hlayers layer i entry hi
      obtain rfl : slot = slot' := by
        have heq := Option.some.inj (hdst.symm.trans hslot')
        exact Fin.ext (Int.ofNat.inj heq)
      exact (hstate c).2
    · exact (hframe c _ slot fun entry hmem layer' _ => hothers entry hmem _).trans
        (hexact.checkpoints layer slot tokens htokens c)

/-- A step that leaves the cache, the manager's settings and the checkpoints as they are keeps
the invariant if it does so of every request. -/
theorem AlignSystem.Exact.of_requests (hexact : s.Exact model)
    {requests : ReqId → Option AlignRequest}
    (h : ∀ reqId request, requests reqId = some request →
      (request.tokens ≠ [] →
        (request.tokens.length - 1) / s.manager.blockSize ∈ request.ended) ∧
      (∃ cap, request.draftCap = some cap ∧
        cap ≤ hybridDraftCap s.manager.blockSize request.tokens.length) ∧
      ∀ position ∈ request.ended,
        position * s.manager.blockSize < request.tokens.length ∧
        (∀ layer, ∃ b, request.block (s.group layer) position = some b) ∧
        ∀ layer (slot : Fin maxSeqs), request.block (s.group layer) position = some (slot : ℤ) →
          ∀ c, s.slab c layer slot = model.stateAfter c layer
            (request.tokens.take ((position + 1) * s.manager.blockSize))) :
    ({ s with requests := requests } : AlignSystem numLayers maxSeqs stateLen X Y S).Exact
      model where
  align := hexact.align
  blockSize := hexact.blockSize
  hasRecurrent := hexact.hasRecurrent
  oneOwner := hexact.oneOwner
  current reqId request hrequest := (h reqId request hrequest).1
  ended reqId request hrequest position hposition :=
    ((h reqId request hrequest).2.2 position hposition).1
  tables reqId request hrequest position hposition :=
    ((h reqId request hrequest).2.2 position hposition).2.1
  draftCap reqId request hrequest := (h reqId request hrequest).2.1
  held reqId request hrequest position hposition :=
    ((h reqId request hrequest).2.2 position hposition).2.2
  checkpoints := hexact.checkpoints

/-- The invariant is about the settings, the layout and the slabs that requests and checkpoints
need. -/
theorem AlignSystem.Exact.congr (hexact : s.Exact model)
    {s' : AlignSystem numLayers maxSeqs stateLen X Y S}
    (hmode : s'.manager.mambaCacheMode = s.manager.mambaCacheMode)
    (hblockSize : s'.manager.blockSize = s.manager.blockSize)
    (hlayout : s'.state.cache.toStateLayout = s.state.cache.toStateLayout)
    (hone : s'.state.cache.OneOwner) (hrequests : s'.requests = s.requests)
    (hheld : ∀ reqId request, s.requests reqId = some request → ∀ position ∈ request.ended,
      ∀ layer (slot : Fin maxSeqs), request.block (s.group layer) position = some (slot : ℤ) →
      ∀ c, s'.slab c layer slot = s.slab c layer slot)
    (hcheckpoints : ∀ layer (slot : Fin maxSeqs) tokens,
      s'.checkpoints slot = some (s.group layer, tokens) →
      s.checkpoints slot = some (s.group layer, tokens) ∧
      ∀ c, s'.slab c layer slot = s.slab c layer slot) : s'.Exact model := by
  have hgroup : ∀ layer, s'.group layer = s.group layer := fun layer =>
    congrArg (fun layout => layout.layerGroupOrdinals layer) hlayout
  refine ⟨hmode.trans hexact.align, hblockSize ▸ hexact.blockSize,
    (congrArg StateLayout.hasRecurrent hlayout).trans hexact.hasRecurrent, hone, ?_, ?_, ?_, ?_,
    ?_, ?_⟩
  all_goals simp only [hgroup, hblockSize, hrequests]
  · exact hexact.current
  · exact hexact.ended
  · exact hexact.tables
  · exact hexact.draftCap
  · intro reqId request hrequest position hposition layer slot hblock c
    rw [hheld reqId request hrequest position hposition layer slot hblock c]
    exact hexact.held reqId request hrequest position hposition layer slot hblock c
  · intro layer slot tokens htokens c
    obtain ⟨htokens, hslab⟩ := hcheckpoints layer slot tokens htokens
    rw [hslab c]
    exact hexact.checkpoints layer slot tokens htokens c

/-- What the invariant says of one request. -/
theorem AlignSystem.Exact.request (hexact : s.Exact model) {reqId : ReqId}
    {request : AlignRequest} (h : s.requests reqId = some request) :
    (request.tokens ≠ [] →
      (request.tokens.length - 1) / s.manager.blockSize ∈ request.ended) ∧
    (∃ cap, request.draftCap = some cap ∧
      cap ≤ hybridDraftCap s.manager.blockSize request.tokens.length) ∧
    ∀ position ∈ request.ended,
      position * s.manager.blockSize < request.tokens.length ∧
      (∀ layer, ∃ b, request.block (s.group layer) position = some b) ∧
      ∀ layer (slot : Fin maxSeqs), request.block (s.group layer) position = some (slot : ℤ) →
        ∀ c, s.slab c layer slot = model.stateAfter c layer
          (request.tokens.take ((position + 1) * s.manager.blockSize)) :=
  ⟨hexact.current reqId request h, hexact.draftCap reqId request h, fun position hposition =>
    ⟨hexact.ended reqId request h position hposition,
      hexact.tables reqId request h position hposition,
      hexact.held reqId request h position hposition⟩⟩

/-- A request admitted at a prefix hit finds the state after the hit tokens in the hit block. -/
theorem admitted_exact (hexact : s.Exact model) {hit : List Token}
    {stateBlockIds : List (List ℤ)} (h : hit ≠ [] → s.Hit hit stateBlockIds)
    {position : ℕ} (hposition : position ∈ (s.admitted hit stateBlockIds).ended) :
    position = (hit.length - 1) / s.manager.blockSize ∧
    (position + 1) * s.manager.blockSize = hit.length ∧
    (∀ layer, ∃ b, (s.admitted hit stateBlockIds).block (s.group layer) position = some b ∧
      s.checkpoints b = some (s.group layer, hit)) := by
  have hB : 0 < s.manager.blockSize := Nat.lt_trans Nat.zero_lt_one hexact.blockSize
  simp only [AlignSystem.admitted] at hposition
  split at hposition
  · cases hposition
  · next hne =>
    obtain ⟨⟨k, hk⟩, htables⟩ := h hne
    obtain rfl := List.mem_singleton.mp hposition
    have hpos : 0 < hit.length := List.length_pos_of_ne_nil hne
    -- the hit ends at the end of a block, so that block is its last one
    have hdiv : hit.length / s.manager.blockSize = k := by
      rw [hk, Nat.mul_div_cancel_left k hB]
    have hkpos : 0 < k := by
      rcases Nat.eq_zero_or_pos k with rfl | hkpos
      · rw [Nat.mul_zero] at hk
        omega
      · exact hkpos
    obtain ⟨k, rfl⟩ := Nat.exists_eq_succ_of_ne_zero (Nat.ne_of_gt hkpos)
    rw [hdiv, Nat.succ_sub_one]
    have hmul : (k + 1) * s.manager.blockSize = hit.length := by
      rw [hk, Nat.mul_comm]
    refine ⟨?_, hmul, fun layer => ?_⟩
    · symm
      refine Nat.div_eq_of_lt_le ?_ ?_
      · rw [Nat.add_mul, Nat.one_mul] at hmul
        omega
      · omega
    · obtain ⟨row, b, hrow, hb, hcheckpoint⟩ := htables layer
      rw [hdiv, Nat.succ_sub_one] at hb
      refine ⟨b, ?_, hcheckpoint⟩
      rw [AlignRequest.block, AlignSystem.admitted, hrow, Option.bind_some]
      exact hb

/-- **Every step of the system keeps the invariant.** -/
theorem exact_of_step {s' : AlignSystem numLayers maxSeqs stateLen X Y S} {event : AlignEvent}
    (hexact : s.Exact model) (h : AlignStep lazy model s event s') : s'.Exact model := by
  cases h with
  | @admission reqId hit stateBlockIds hnone hhit =>
    refine hexact.of_requests fun reqId' request hrequest => ?_
    rw [Function.update_apply] at hrequest
    split at hrequest
    · cases hrequest
      refine ⟨fun hne => ?_, ⟨0, rfl, Nat.zero_le _⟩, fun position hposition => ?_⟩
      · have hmem : hit.length / s.manager.blockSize - 1 ∈
            (s.admitted hit stateBlockIds).ended := by
          have hne' : ¬ hit = [] := hne
          simp [AlignSystem.admitted, hne']
        exact (admitted_exact hexact hhit hmem).1 ▸ hmem
      · obtain ⟨-, hend, htables⟩ := admitted_exact hexact hhit hposition
        have hlen : (s.admitted hit stateBlockIds).tokens.length = hit.length := rfl
        have hB := hexact.blockSize
        refine ⟨?_, fun layer => ?_, fun layer slot hblock c => ?_⟩
        · rw [hlen, ← hend, Nat.add_mul]
          omega
        · obtain ⟨b, hb, -⟩ := htables layer
          exact ⟨b, hb⟩
        · obtain ⟨b, hb, hcheckpoint⟩ := htables layer
          obtain rfl : (slot : ℤ) = b := Option.some.inj (hblock.symm.trans hb)
          rw [hexact.checkpoints layer slot hit hcheckpoint c, hend, ← hlen, List.take_length]
          rfl
    · exact hexact.request hrequest
  | @extend reqId request newBlockIds hrequest =>
    refine hexact.of_requests fun reqId' request' hrequest' => ?_
    rw [Function.update_apply] at hrequest'
    split at hrequest'
    · next heq =>
      cases hrequest'
      obtain ⟨hcurrent, hcap, hended⟩ := hexact.request hrequest
      refine ⟨hcurrent, hcap, fun position hposition => ?_⟩
      obtain ⟨hlt, htables, hheld⟩ := hended position hposition
      -- the blocks that a table already has stay where they are
      have hextends : ∀ group b, request.block group position = some b →
          ({ request with
            stateBlockIds := request.stateBlockIds.mapIdx fun group row =>
              row ++ newBlockIds.getD group [] } : AlignRequest).block group position =
            some b := by
        intro group b hb
        rw [AlignRequest.block] at hb ⊢
        rw [List.getElem?_mapIdx]
        cases hrow : request.stateBlockIds[group]? with
        | none =>
          rw [hrow] at hb
          cases hb
        | some row =>
          rw [hrow, Option.bind_some] at hb
          rw [Option.map_some, Option.bind_some,
            List.getElem?_append_left (List.getElem?_eq_some_iff.mp hb).1]
          exact hb
      refine ⟨hlt, fun layer => ?_, fun layer slot hblock c => ?_⟩
      · obtain ⟨b, hb⟩ := htables layer
        exact ⟨b, hextends _ b hb⟩
      · obtain ⟨b, hb⟩ := htables layer
        obtain rfl : (slot : ℤ) = b :=
          Option.some.inj (hblock.symm.trans (hextends _ b hb))
        exact hheld layer slot hb c
    · exact hexact.request hrequest'
  | @free reqId request positions hrequest hcurrent =>
    refine hexact.of_requests fun reqId' request' hrequest' => ?_
    rw [Function.update_apply] at hrequest'
    split at hrequest'
    · cases hrequest'
      obtain ⟨hcurrent', hcap, hended⟩ := hexact.request hrequest
      refine ⟨fun hne => List.mem_filter.mpr ⟨hcurrent' hne, ?_⟩, hcap,
        fun position hposition => hended position (List.mem_filter.mp hposition).1⟩
      simpa using hcurrent
    · exact hexact.request hrequest'
  | @release reqIds =>
    have hreleased : ({ s with
        requests := fun reqId => if reqId ∈ reqIds then none else s.requests reqId } :
          AlignSystem numLayers maxSeqs stateLen X Y S).Exact model := by
      refine hexact.of_requests fun reqId request hrequest => ?_
      split at hrequest
      · cases hrequest
      · exact hexact.request hrequest
    exact hreleased.congr rfl rfl rfl hexact.oneOwner rfl (fun _ _ _ _ _ _ _ _ _ => rfl)
      fun _ _ _ htokens => ⟨htokens, fun _ => rfl⟩
  | materialize =>
    have hflush := s.manager.flushes_materializePendingState s.state.cache
    obtain ⟨hblockSize, hmode⟩ := s.manager.settings_materializePendingState s.state.cache
    have hslab : ∀ c layer, (s.manager.materializePendingState s.state.cache).2.stored c
        ((s.manager.materializePendingState s.state.cache).2.regions layer) =
          s.slab c layer := by
      intro c layer
      rw [hflush.stored hexact.oneOwner, hflush.layout]
      rfl
    exact hexact.congr hmode hblockSize hflush.layout (hflush.oneOwner hexact.oneOwner) rfl
      (fun _ _ _ _ _ layer slot _ c => congrFun (hslab c layer) slot)
      fun layer slot _ htokens => ⟨htokens, fun c => congrFun (hslab c layer) slot⟩
  | @overwrite blocks buffers hbuffers hneeded =>
    have hlayout : (s.overwritten blocks buffers).state.cache.toStateLayout =
        s.state.cache.toStateLayout := rfl
    -- what is not overwritten is held as before
    have hslab : ∀ (slot : Fin maxSeqs), (slot : ℤ) ∉ blocks → ∀ c layer,
        (s.overwritten blocks buffers).slab c layer slot = s.slab c layer slot :=
      fun slot hslot c layer =>
        PagedStateCache.stored_congr hlayout (fun _ _ => rfl) (hbuffers c _ slot hslot)
    refine hexact.congr rfl rfl hlayout (hexact.oneOwner.congr hlayout rfl) rfl
      (fun reqId request hrequest position hposition layer slot hblock c => ?_)
      fun layer slot tokens htokens => ?_
    · exact hslab slot (hneeded reqId request _ position slot hrequest hposition hblock) c layer
    · simp only [AlignSystem.overwritten] at htokens
      split at htokens
      · cases htokens
      · next hslot => exact ⟨htokens, fun c => hslab slot hslot c layer⟩
  | forward hscheduled hrun => exact exact_committed hexact hscheduled hrun

/-! ### Every run -/

/-- A system with no request yet and nothing pending, whatever bytes its slabs hold. -/
structure AlignSystem.Fresh (s : AlignSystem numLayers maxSeqs stateLen X Y S) : Prop where
  align : s.manager.mambaCacheMode = .align
  hasRecurrent : s.state.cache.hasRecurrent = true
  idle : s.state.cache.Idle
  requests : ∀ reqId, s.requests reqId = none
  checkpoints : ∀ b, s.checkpoints b = none

theorem exact_of_fresh (h : s.Fresh) (hblockSize : 1 < s.manager.blockSize) : s.Exact model where
  align := h.align
  blockSize := hblockSize
  hasRecurrent := h.hasRecurrent
  oneOwner := h.idle.oneOwner
  current reqId request hrequest := by simp [h.requests] at hrequest
  ended reqId request hrequest := by simp [h.requests] at hrequest
  tables reqId request hrequest := by simp [h.requests] at hrequest
  draftCap reqId request hrequest := by simp [h.requests] at hrequest
  held reqId request hrequest := by simp [h.requests] at hrequest
  checkpoints layer slot tokens htokens := by simp [h.checkpoints] at htokens

theorem exact_of_run {s₀ : AlignSystem numLayers maxSeqs stateLen X Y S} (hfresh : s₀.Fresh)
    (hblockSize : 1 < s₀.manager.blockSize) {events : List AlignEvent}
    (hrun : Run (AlignStep lazy model) s₀ events s) : s.Exact model :=
  hrun.invariant (fun _ _ _ hexact h => exact_of_step hexact h)
    (exact_of_fresh hfresh hblockSize)

/-- The slab of the block at a position of a request holds the state at the end of the block,
in every layer. -/
def AlignSystem.HoldsBlockEnd (model : GDNModel numLayers X Y S)
    (s : AlignSystem numLayers maxSeqs stateLen X Y S) (request : AlignRequest)
    (position : ℕ) : Prop :=
  ∀ layer (slot : Fin maxSeqs), request.block (s.group layer) position = some (slot : ℤ) →
    ∀ c, s.slab c layer slot =
      model.stateAfter c layer (request.tokens.take ((position + 1) * s.manager.blockSize))

/-- **Align-mode state checkpoints are exact.**  In every run, when the forward of a step
starts, the slot of every request in every layer is the block in which the step ends, and its
slab holds the state after exactly the tokens computed (zero when there are none); after the
acceptance it holds the state after exactly the committed tokens; the slab of every completed
block in which a step of the request has ended holds the state at exactly its end; and so
does every slab that a later prefix hit may restore. -/
theorem align_checkpoints_exact {s₀ : AlignSystem numLayers maxSeqs stateLen X Y S}
    (hfresh : s₀.Fresh) (hblockSize : 1 < s₀.manager.blockSize) {events : List AlignEvent}
    (hrun : Run (AlignStep lazy model) s₀ events s) :
    (∀ batch, s.Scheduled batch →
      (∀ manager cache mappings,
        batch.started s.manager s.state.cache = .ok (manager, cache, mappings) →
        ∀ layer dsts, mappings[s.group layer]? = some dsts →
        ∀ (i : ℕ) (entry : AlignEntry) (slot : Fin maxSeqs), batch.entries[i]? = some entry →
          dsts[i]? = some (slot : ℤ) →
          entry.dstBlock s.manager.blockSize (s.group layer) = some (slot : ℤ) ∧
          ∀ c, cache.logical c layer slot = model.stateAfter c layer entry.request.tokens ∧
            (entry.numComputed = 0 → cache.logical c layer slot = 0)) ∧
      ∀ manager state, batch.run lazy model s.manager s.state = .ok (manager, state) →
        ∀ layer (i : ℕ) (entry : AlignEntry), batch.entries[i]? = some entry →
          ∃ slot : Fin maxSeqs,
            entry.dstBlock s.manager.blockSize (s.group layer) = some (slot : ℤ) ∧
            ∀ c, state.cache.logical c layer slot =
                model.stateAfter c layer (entry.committedTokens (batch.keptRows i)) ∧
              state.cache.stored c (s.state.cache.regions layer) slot =
                model.stateAfter c layer (entry.committedTokens (batch.keptRows i))) ∧
    (∀ reqId request, s.requests reqId = some request → ∀ position ∈ request.ended,
      (position + 1) * s.manager.blockSize ≤ request.tokens.length →
      s.HoldsBlockEnd model request position) ∧
    ∀ layer (slot : Fin maxSeqs) tokens,
      s.checkpoints slot = some (s.group layer, tokens) →
      ∀ c, s.slab c layer slot = model.stateAfter c layer tokens := by
  have hexact := exact_of_run hfresh hblockSize hrun
  refine ⟨fun batch hscheduled => ⟨?_, ?_⟩, ?_, hexact.checkpoints⟩
  · intro manager cache mappings hstarted layer dsts hdsts i entry slot hi hslot
    obtain ⟨-, -, -, hstart⟩ := started_spec hexact hscheduled hstarted
    obtain ⟨hmap, hslabs⟩ := hstart layer dsts hdsts
    have hdst : entry.dstBlock s.manager.blockSize (s.group layer) = some (slot : ℤ) := by
      have hi' := congrArg (fun l => l[i]?) hmap
      simp only [List.getElem?_map, hi, hslot, Option.map_some, Option.some.injEq] at hi'
      exact hi'.symm
    have hstate := hslabs entry (List.mem_of_getElem? hi) slot hdst
    refine ⟨hdst, fun c => ⟨hstate c, fun hzero => ?_⟩⟩
    rw [hstate c, List.length_eq_zero_iff.mp hzero, model.stateAfter_nil]
  · intro manager state hstep layer i entry hi
    obtain ⟨-, -, -, -, -, hlayers⟩ := run_spec hexact hscheduled hstep
    exact hlayers layer i entry hi
  · intro reqId request hrequest position hposition _
    exact hexact.held reqId request hrequest position hposition

end Exact

/-! ### Two groups on one region -/

/-- The blocks of a request with tables for two groups. -/
theorem AlignRequest.block_two {request : AlignRequest} {row₀ row₁ : List ℤ} {group position : ℕ}
    {b : ℤ} (htables : request.stateBlockIds = [row₀, row₁])
    (h : request.block group position = some b) :
    group = 0 ∧ row₀[position]? = some b ∨ group = 1 ∧ row₁[position]? = some b := by
  rw [AlignRequest.block, htables] at h
  match group, h with
  | 0, h => exact Or.inl ⟨rfl, h⟩
  | 1, h => exact Or.inr ⟨rfl, h⟩
  | _ + 2, h => simp at h

private def digitModel : GDNModel 2 ℕ ℕ ℕ where
  step := fun s y => 10 * s + y
  mixedQkvRow := fun layer tokens => (tokens.getLastD 0).toNat + layer
  actsRow := fun layer tokens => (tokens.getLastD 0).toNat + layer
  policy := fun _ => ⟨false, false⟩
  keyHeadDim := fun _ => 128

/-- Two layers of different groups on one region of eight blocks with old bytes. -/
private def staleSystem : AlignSystem 2 8 1 ℕ ℕ ℕ where
  manager := { blockSize := 2, mambaCacheMode := .align, needsMaterialize := false }
  state := {
    cache := {
      toStateLayout := .oneRegion 2
      buffers := fun c _ => match c with
        | .conv => fun _ _ => 7
        | .recurrent => fun _ => 7
      pending := fun _ _ => none }
    specVerifyStash := none }
  requests := fun _ => none
  checkpoints := fun _ => none

private theorem staleSystem_fresh : staleSystem.Fresh :=
  ⟨rfl, rfl, fun _ _ => rfl, fun _ => rfl, fun _ => rfl⟩

private def staleTables : List (List ℤ) := [[0, 1, 2], [3, 4, 5]]

/-- A request is admitted with nothing computed. -/
private def admittedSystem : AlignSystem 2 8 1 ℕ ℕ ℕ :=
  { staleSystem with
    requests := Function.update staleSystem.requests 0
      (some (staleSystem.admitted [] staleTables)) }

private def firstEntry (newTokens : List Token) (newTokens_ne : newTokens ≠ []) : AlignEntry where
  reqId := 0
  request := staleSystem.admitted [] staleTables
  newTokens := newTokens
  sampledIds := []
  newTokens_ne := newTokens_ne

private def firstBatch (newTokens : List Token) (newTokens_ne : newTokens ≠ []) : AlignBatch where
  decodes := []
  prefills := [firstEntry newTokens newTokens_ne]

private theorem requests_admittedSystem {reqId : ReqId} {request : AlignRequest}
    (h : admittedSystem.requests reqId = some request) :
    reqId = 0 ∧ request = staleSystem.admitted [] staleTables := by
  simp only [admittedSystem, Function.update_apply] at h
  split at h
  · next heq => exact ⟨heq, (Option.some.inj h).symm⟩
  · cases h

private theorem scheduled_first {newTokens : List Token} (hne : newTokens ≠ []) :
    admittedSystem.Scheduled (firstBatch newTokens hne) := by
  have hentry : ∀ entry ∈ (firstBatch newTokens hne).entries, entry = firstEntry newTokens hne :=
    fun entry hmem => List.mem_singleton.mp hmem
  refine ⟨fun entry hmem => ?_, List.nodup_singleton _, fun entry hmem hdvd => ?_,
    fun entry hmem => absurd hmem List.not_mem_nil, fun entry hmem entry' hmem' group group' b h h'
      => ?_, fun entry _ group b _ reqId request group' position hrequest hposition _ => ?_⟩
  · rw [hentry entry hmem]
    rfl
  · rw [List.mem_singleton.mp hmem] at hdvd
    exact absurd (Nat.dvd_zero _) hdvd
  · rw [hentry entry hmem] at h ⊢
    rw [hentry entry' hmem'] at h' ⊢
    refine ⟨rfl, ?_⟩
    -- no block is in both tables
    have hdisjoint : ∀ x ∈ [0, 1, 2], x ∉ [(3 : ℤ), 4, 5] := by decide
    obtain ⟨rfl, hb⟩ | ⟨rfl, hb⟩ := AlignRequest.block_two rfl h <;>
      obtain ⟨rfl, hb'⟩ | ⟨rfl, hb'⟩ := AlignRequest.block_two rfl h'
    · rfl
    · exact absurd (List.mem_of_getElem? hb') (hdisjoint b (List.mem_of_getElem? hb))
    · exact absurd (List.mem_of_getElem? hb) (hdisjoint b (List.mem_of_getElem? hb'))
    · rfl
  · rw [(requests_admittedSystem hrequest).2] at hposition
    cases hposition

/-- The runner after a step, which does not fail here. -/
private def runOf (s : AlignSystem 2 8 1 ℕ ℕ ℕ) (batch : AlignBatch) :
    AlignStateManager × GDNStateCache 2 8 1 ℕ ℕ ℕ :=
  match batch.run ⟨true, true⟩ digitModel s.manager s.state with
  | .ok p => p
  | .error _ => (s.manager, s.state)

/-- The request prefills a block, -/
private def promptBatch : AlignBatch := firstBatch [1, 2] (by decide)

private def promptSystem : AlignSystem 2 8 1 ℕ ℕ ℕ :=
  admittedSystem.committed promptBatch (runOf admittedSystem promptBatch).1
    (runOf admittedSystem promptBatch).2

/-- another is admitted at a hit on the block, -/
private def hitSystem : AlignSystem 2 8 1 ℕ ℕ ℕ :=
  { promptSystem with
    requests := Function.update promptSystem.requests 1
      (some (promptSystem.admitted [1, 2] [[0, 6], [3, 7]])) }

/-- and in one step the first verifies a draft, of which one row is committed, while the other goes
on from the hit: both enter a new block. -/
private def verifyEntry : AlignEntry where
  reqId := 0
  request := admittedSystem.committedRequest promptBatch (firstEntry [1, 2] (by decide)) 2
  newTokens := [3, 4]
  sampledIds := [9]
  newTokens_ne := by decide

private def hitEntry : AlignEntry where
  reqId := 1
  request := promptSystem.admitted [1, 2] [[0, 6], [3, 7]]
  newTokens := [5]
  sampledIds := []
  newTokens_ne := by decide

private def verifyHitBatch : AlignBatch where
  decodes := [verifyEntry]
  prefills := [hitEntry]

private def finalSystem : AlignSystem 2 8 1 ℕ ℕ ℕ :=
  hitSystem.committed verifyHitBatch (runOf hitSystem verifyHitBatch).1
    (runOf hitSystem verifyHitBatch).2

private theorem mem_entries_verifyHitBatch {entry : AlignEntry}
    (h : entry ∈ verifyHitBatch.entries) : entry = verifyEntry ∨ entry = hitEntry := by
  simpa [AlignBatch.entries, verifyHitBatch] using h

/-- The blocks that the requests still need hold the first two tokens. -/
private theorem needed_hitSystem {reqId : ReqId} {request : AlignRequest} {group position : ℕ}
    {b : ℤ} (hrequest : hitSystem.requests reqId = some request)
    (hposition : position ∈ request.ended) (hb : request.block group position = some b) :
    b = 0 ∨ b = 3 := by
  have hcases : (request = verifyEntry.request ∨ request = hitEntry.request) := by
    simp only [hitSystem, Function.update_apply] at hrequest
    split at hrequest
    · exact Or.inr (Option.some.inj hrequest).symm
    · obtain ⟨i, entry, hi, -, rfl⟩ | ⟨hothers, hrequest⟩ := requests_committed hrequest
      · obtain ⟨hlt, rfl⟩ := List.getElem?_eq_some_iff.mp hi
        obtain rfl : i = 0 := Nat.lt_one_iff.mp hlt
        exact Or.inl rfl
      · have hreq := (requests_admittedSystem hrequest).1
        exact absurd hreq.symm (hothers _ List.mem_cons_self)
  obtain rfl | rfl := hcases
  · obtain rfl : position = 0 := List.mem_singleton.mp hposition
    obtain ⟨-, h⟩ | ⟨-, h⟩ := AlignRequest.block_two rfl hb
    · exact Or.inl (Option.some.inj h).symm
    · exact Or.inr (Option.some.inj h).symm
  · obtain rfl : position = 0 := List.mem_singleton.mp hposition
    obtain ⟨-, h⟩ | ⟨-, h⟩ := AlignRequest.block_two rfl hb
    · exact Or.inl (Option.some.inj h).symm
    · exact Or.inr (Option.some.inj h).symm

/-- The blocks in which the step ends, with their requests and groups. -/
private def verifyHitBlocks : List (ReqId × ℕ × ℤ) := [(0, 0, 1), (0, 1, 4), (1, 0, 6), (1, 1, 7)]

private theorem mem_verifyHitBlocks {entry : AlignEntry} {group : ℕ} {b : ℤ}
    (hmem : entry ∈ verifyHitBatch.entries)
    (h : entry.dstBlock hitSystem.manager.blockSize group = some b) :
    (entry.reqId, group, b) ∈ verifyHitBlocks := by
  obtain rfl | rfl := mem_entries_verifyHitBatch hmem <;>
    obtain ⟨rfl, hb⟩ | ⟨rfl, hb⟩ := AlignRequest.block_two rfl h <;>
    obtain rfl := Option.some.inj hb <;> decide

private theorem scheduled_verifyHit : hitSystem.Scheduled verifyHitBatch where
  known := by
    intro entry hmem
    obtain rfl | rfl := mem_entries_verifyHitBatch hmem <;> rfl
  distinct := by decide
  chunk := by
    intro entry hmem hdvd
    obtain rfl : entry = hitEntry := List.mem_singleton.mp hmem
    exact absurd (by decide : 2 ∣ 2) hdvd
  span := by
    intro entry hmem
    obtain rfl : entry = verifyEntry := List.mem_singleton.mp hmem
    exact ⟨⟨3, none, 0, [4], [4], rfl, by decide⟩, by decide, by decide⟩
  separate := by
    intro entry hmem entry' hmem' group group' b h h'
    have hblocks : ∀ p ∈ verifyHitBlocks, ∀ q ∈ verifyHitBlocks, p.2.2 = q.2.2 →
        p.1 = q.1 ∧ p.2.1 = q.2.1 := by decide
    exact hblocks _ (mem_verifyHitBlocks hmem h) _ (mem_verifyHitBlocks hmem' h') rfl
  unshared := by
    intro entry hmem group b h reqId request group' position hrequest hposition hb
    have hblocks : ∀ p ∈ verifyHitBlocks, ¬ (p.2.2 = 0 ∨ p.2.2 = 3) := by decide
    exact absurd (needed_hitSystem hrequest hposition hb) (hblocks _ (mem_verifyHitBlocks hmem h))

private theorem hit_prompt : promptSystem.Hit [1, 2] [[0, 6], [3, 7]] := by
  refine ⟨by decide, fun layer => ?_⟩
  match layer with
  | 0 => exact ⟨_, _, rfl, rfl, rfl⟩
  | 1 => exact ⟨_, _, rfl, rfl, rfl⟩

private theorem run_prompt : Run (AlignStep ⟨true, true⟩ digitModel) staleSystem
    [.admission 0 [] staleTables, .forward promptBatch, .admission 1 [1, 2] [[0, 6], [3, 7]]]
    hitSystem :=
  .cons (.admission rfl fun h => absurd rfl h) (.cons (.forward (scheduled_first _) rfl)
    (.cons (.admission rfl fun _ => hit_prompt) (.nil _)))

/-- The step that verifies a draft and continues from a hit commits one row of the draft, and the
slabs behind both requests keep the state at the end of their block. -/
theorem align_checkpoints_exact_two_groups :
    (runOf hitSystem verifyHitBatch).2.cache.logical .recurrent 0 1 = 123 ∧
      (runOf hitSystem verifyHitBatch).2.cache.logical .recurrent 1 4 = 234 ∧
      (runOf hitSystem verifyHitBatch).2.cache.logical .recurrent 0 6 = 125 ∧
      (runOf hitSystem verifyHitBatch).2.cache.logical .recurrent 1 7 = 236 ∧
      finalSystem.slab .recurrent 0 0 = 12 ∧ finalSystem.slab .recurrent 1 3 = 23 := by
  obtain ⟨hstep, -, -⟩ := align_checkpoints_exact staleSystem_fresh (by decide) run_prompt
  have hrun : verifyHitBatch.run ⟨true, true⟩ digitModel hitSystem.manager hitSystem.state =
      .ok (runOf hitSystem verifyHitBatch) := rfl
  have hcommitted := (hstep verifyHitBatch scheduled_verifyHit).2 _ _ hrun
  -- the slot of a request is its block
  have hslab : ∀ (layer : Fin 2) (i : ℕ) (entry : AlignEntry) (slot : Fin 8),
      verifyHitBatch.entries[i]? = some entry →
      entry.dstBlock hitSystem.manager.blockSize (hitSystem.group layer) = some (slot : ℤ) →
      (runOf hitSystem verifyHitBatch).2.cache.logical .recurrent layer slot =
        (digitModel.stateAfter .recurrent layer
          (entry.committedTokens (verifyHitBatch.keptRows i)) : GDNRow 1 ℕ ℕ .recurrent) := by
    intro layer i entry slot hi hslot
    obtain ⟨slot', hslot', hstate⟩ := hcommitted layer i entry hi
    obtain rfl : slot = slot' :=
      Fin.ext (Int.ofNat.inj (Option.some.inj (hslot.symm.trans hslot')))
    exact (hstate .recurrent).1
  obtain ⟨-, -, hcheckpoints⟩ := align_checkpoints_exact staleSystem_fresh (by decide)
    (run_prompt.snoc (.forward scheduled_verifyHit hrun))
  exact ⟨hslab 0 0 _ 1 rfl rfl, hslab 1 0 _ 4 rfl rfl, hslab 0 1 _ 6 rfl rfl,
    hslab 1 1 _ 7 rfl rfl, hcheckpoints 0 0 [1, 2] rfl .recurrent,
    hcheckpoints 1 3 [1, 2] rfl .recurrent⟩

/-! ### A chunk of several blocks -/

/-- A chunk of two blocks. -/
private def chunkBatch : AlignBatch := firstBatch [1, 2, 3, 4] (by decide)

/-- The first block of the chunk is complete and left behind as well, but no step has ended in
it: its slab still holds the bytes of a previous life. -/
theorem chunk_skips_first_block :
    ∃ s : AlignSystem 2 8 1 ℕ ℕ ℕ, staleSystem.Fresh ∧ 1 < staleSystem.manager.blockSize ∧
      Run (AlignStep ⟨true, true⟩ digitModel) staleSystem
        [.admission 0 [] staleTables, .forward chunkBatch] s ∧
      ∃ request, s.requests 0 = some request ∧
        (0 + 1) * s.manager.blockSize ≤ request.tokens.length ∧
        ¬ s.HoldsBlockEnd digitModel request 0 := by
  refine ⟨admittedSystem.committed chunkBatch (runOf admittedSystem chunkBatch).1
    (runOf admittedSystem chunkBatch).2, staleSystem_fresh, by decide,
    .cons (.admission rfl fun h => absurd rfl h) (.cons (.forward (scheduled_first _) rfl)
      (.nil _)), _, rfl, by decide, fun h => ?_⟩
  have hslab : (7 : ℕ) = 12 := h 0 0 rfl .recurrent
  exact absurd hslab (by decide)

end State
end VllmMetal
