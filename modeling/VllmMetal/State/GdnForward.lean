import VllmMetal.Lib.Ragged
import VllmMetal.State.Refinement

/-!
# Forward of the gated delta net layers

A packed forward advances the state of every request by the rows of its segment: decode
segments first, each a token and its drafts, then prefill segments.  A layer tries a lazy
kernel for its convolution and one for its recurrence and falls back to updates in place.  A
forward with a segment of several decode rows is a verification: it parks every update, so
that the pools keep the state before the forward, and stashes the rows of these segments.

## Main definitions

* `PackedBatch`, `GDNLayerForward` — the segments of a step and the inputs of one layer.
* `convTail` and the state parts of the convolution kernels.
* `runConv`, `runRecurrent`, `stashSpecVerifyLayer`, `callLayer`, `forwardLayers`.

## Main results

* `convStateDecode_eq_convTail`, `convStatePrefill_eq_convTail` — the kernels compute the
  window that the fallback cuts.
-/

namespace VllmMetal
namespace State

/-! ### Rows and batches -/

/-- The state rows of a layer: a window of convolution inputs and a recurrent state. -/
@[reducible] def GDNRow (stateLen : ℕ) (X S : Type) : StateComponent → Type
  | .conv => Fin stateLen → X
  | .recurrent => S

/-- The segments of a packed forward, the decode segments first, none of them empty. -/
structure PackedBatch where
  lens : List ℕ
  numDecodeRequests : ℕ
  pos : ∀ n ∈ lens, 0 < n
  numDecodeRequests_le : numDecodeRequests ≤ lens.length

namespace PackedBatch

variable (batch : PackedBatch)

/-- `cu_seqlens`. -/
def cuSeqlens : List ℕ := boundaries batch.lens

/-- `num_requests`. -/
def numRequests : ℕ := batch.lens.length

/-- `total_tokens`. -/
def totalTokens : ℕ := batch.lens.sum

end PackedBatch

/-- The number of rows of a segment, from its boundaries. -/
def spanLength (cuSeqlens : List ℕ) (i : ℕ) : ℕ := cuSeqlens.getD (i + 1) 0 - cuSeqlens.getD i 0

/-- `is_spec_verify_batch`. -/
def isSpecVerifyBatch (numDecodeRequests : ℕ) (cuSeqlens : List ℕ) : Bool :=
  (List.range numDecodeRequests).any fun i => decide (spanLength cuSeqlens i > 1)

/-- Whether the forward is a verification. -/
def PackedBatch.isSpecVerify (batch : PackedBatch) : Bool :=
  isSpecVerifyBatch batch.numDecodeRequests batch.cuSeqlens

/-- The errors of the forward and of the acceptance. -/
inductive GDNError where
  /-- "Speculative decode verification on hybrid GDN models requires the lazy GDN kernels". -/
  | requiresLazyKernels
  /-- "speculative verify span was ineligible for the GDN state scan kernel". -/
  | verifySpanIneligible
  /-- `committed_rows[i]`. -/
  | committedRowsIndex (i : ℕ)
  /-- "committed rows must be within the GDN verify span". -/
  | committedRowsRange
  /-- "spec-decode GDN acceptance re-scan was ineligible". -/
  | rescanIneligible
  /-- `state_slots.index(slot)`. -/
  | slotNotPending
  deriving DecidableEq

/-- `_GDNLazyPolicy`. -/
structure GDNLazyPolicy where
  combinedQkvzProjection : Bool
  expandedRecurrentValueState : Bool

namespace GDNLazyPolicy

variable (policy : GDNLazyPolicy)

/-- `should_try_conv_prefill_lazy`. -/
def shouldTryConvPrefillLazy : Bool :=
  policy.combinedQkvzProjection || policy.expandedRecurrentValueState

/-- `uses_conservative_recurrent_prefill_policy`. -/
def usesConservativeRecurrentPrefillPolicy : Bool :=
  !policy.combinedQkvzProjection && policy.expandedRecurrentValueState

/-- `should_defer_recurrent_prefill_state`. -/
def shouldDeferRecurrentPrefillState (numRequests : ℕ) : Bool :=
  decide (numRequests > 1) && !policy.usesConservativeRecurrentPrefillPolicy

end GDNLazyPolicy

/-- One layer in one forward: its slots, its convolution inputs and, of what the recurrence
reads (`q`, `k`, `v`, `g`, `beta`), one row for each packed token. -/
structure GDNLayerForward (batch : PackedBatch) (numLayers maxSeqs : ℕ) (X Y : Type) where
  cacheIdx : Fin numLayers
  policy : GDNLazyPolicy
  keyHeadDim : ℕ
  slotIds : SlotIds maxSeqs
  mixedQkv : List X
  acts : List Y
  slots_length : slotIds.ids.length = batch.lens.length
  mixedQkv_length : mixedQkv.length = batch.lens.sum
  acts_length : acts.length = batch.lens.sum

/-- The rows of the multi-token decode segments of one layer, held until acceptance. -/
structure GDNSpecVerifyStash (numLayers maxSeqs : ℕ) (X Y : Type) where
  cacheIdx : Fin numLayers
  requestIndices : List ℕ
  slotIds : SlotIds maxSeqs
  cuSeqlens : List ℕ
  spanLengths : List ℕ
  keyHeadDim : ℕ
  acts : List Y
  mixedQkv : List X

/-- A state cache with its `spec_verify_stash`. -/
structure GDNStateCache (numLayers maxSeqs stateLen : ℕ) (X Y S : Type) where
  cache : PagedStateCache numLayers maxSeqs (GDNRow stateLen X S)
  specVerifyStash : Option (List (GDNSpecVerifyStash numLayers maxSeqs X Y))

variable {numLayers maxSeqs stateLen : ℕ} {X Y S : Type}

/-! ### The convolution window -/

/-- The last `stateLen` rows of the window followed by the new rows. -/
def convTail (row : Fin stateLen → X) (rows : List X) : Fin stateLen → X := fun t =>
  (List.ofFn row ++ rows).get
    ⟨(List.ofFn row ++ rows).length - stateLen + t, by simp; omega⟩

theorem convTail_apply (row : Fin stateLen → X) (rows : List X) (t : Fin stateLen) :
    (List.ofFn row ++ rows)[rows.length + t.val]? = some (convTail row rows t) := by
  have hidx : (List.ofFn row ++ rows).length - stateLen + t.val = rows.length + t.val := by
    simp
  have hlt : rows.length + t.val < (List.ofFn row ++ rows).length := by
    simp; omega
  simp only [convTail, List.get_eq_getElem, hidx]
  exact List.getElem?_eq_getElem hlt

/-- The new window of `gdn_conv1d_silu_decode.metal`: shifted by one, the input last. -/
def convStateDecode (row : Fin stateLen → X) (input : X) : Fin stateLen → X := fun t =>
  if h : t.val + 1 < stateLen then row ⟨t.val + 1, h⟩ else input

/-- The new window of `gdn_conv1d_silu_prefill.metal`. -/
def convStatePrefill (row : Fin stateLen → X) (rows : List X) : Fin stateLen → X := fun t =>
  if h : rows.length + t.val < stateLen then row ⟨rows.length + t.val, h⟩
  else rows.get ⟨rows.length + t.val - stateLen, by omega⟩

theorem convStatePrefill_eq_convTail (row : Fin stateLen → X) (rows : List X) :
    convStatePrefill row rows = convTail row rows := by
  funext t
  refine Option.some.inj ?_
  rw [← convTail_apply, convStatePrefill]
  split
  · next h => simp [List.getElem?_append_left, h]
  · next h =>
    rw [List.getElem?_append_right (by simpa using h)]
    simp

theorem convStateDecode_eq_convTail (row : Fin stateLen → X) (input : X) :
    convStateDecode row input = convTail row [input] := by
  funext t
  refine Option.some.inj ?_
  rw [← convTail_apply, convStateDecode, List.length_singleton, Nat.add_comm 1]
  split
  · next h => simp [h]
  · next h =>
    obtain hlast : t.val + 1 = stateLen := by omega
    rw [List.getElem?_append_right (by simpa using h)]
    simp [hlast]

/-! ### Kernels -/

/-- The convolution decode kernel on the packed rows: row `i` is request `i`'s. -/
def convDecodeKernel (mixedQkv : List X) (i : ℕ) (row : Fin stateLen → X) :
    Unit × (Fin stateLen → X) :=
  ((), match mixedQkv[i]? with
    | some input => convStateDecode row input
    | none => row)

/-- The convolution prefill kernel. -/
def convPrefillKernel (cuSeqlens : List ℕ) (mixedQkv : List X) (i : ℕ)
    (row : Fin stateLen → X) : Unit × (Fin stateLen → X) :=
  ((), convStatePrefill row (segmentRows cuSeqlens mixedQkv i))

/-- The recurrent decode kernel. -/
def recurrentDecodeKernel (step : S → Y → S) (acts : List Y) (i : ℕ) (row : S) : Unit × S :=
  ((), match acts[i]? with
    | some act => step row act
    | none => row)

/-- The recurrent prefill kernel, and the fallback's. -/
def recurrentPrefillKernel (step : S → Y → S) (cuSeqlens : List ℕ) (acts : List Y) (i : ℕ)
    (row : S) : Unit × S :=
  ((), (segmentRows cuSeqlens acts i).foldl step row)

/-! ### One layer -/

section Layer

variable {batch : PackedBatch} (lazy : GDNLazyKernels)
variable (cache : PagedStateCache numLayers maxSeqs (GDNRow stateLen X S))
variable (fwd : GDNLayerForward batch numLayers maxSeqs X Y)

/-- Whether the forward is a plain decode of every request. -/
def PackedBatch.isPlainDecode (batch : PackedBatch) : Bool :=
  batch.numDecodeRequests == batch.numRequests && !batch.isSpecVerify

/-- Whether the forward has prefill segments or verifies, and the lazy kernels are on:
`_should_defer_conv_prefill_containing_state`. -/
def shouldDeferConvState (lazy : GDNLazyKernels) (batch : PackedBatch) : Bool :=
  lazy.enabled && (decide (batch.numDecodeRequests < batch.numRequests) || batch.isSpecVerify)

/-- `_should_try_conv_prefill_containing_lazy`. -/
def shouldTryConvPrefillLazy : Bool :=
  shouldDeferConvState lazy batch && fwd.policy.shouldTryConvPrefillLazy

/-- `_should_try_recurrent_prefill_containing_lazy`. -/
def shouldTryRecurrentPrefillLazy (lazy : GDNLazyKernels) (batch : PackedBatch) : Bool :=
  shouldDeferConvState lazy batch && decide (batch.totalTokens > batch.numRequests)

/-- `_should_defer_recurrent_prefill_state`. -/
def shouldDeferRecurrentPrefillState : Bool :=
  lazy.enabled && (batch.isSpecVerify ||
    fwd.policy.shouldDeferRecurrentPrefillState batch.numRequests)

/-- The loop of the convolution fallback when it updates in place. -/
def convInPlace : PagedStateCache numLayers maxSeqs (GDNRow stateLen X S) :=
  fwd.slotIds.ids.zipIdx.foldl (fun cache p =>
    cache.writeRows .conv fwd.cacheIdx
      [convTail ((cache.pools .conv fwd.cacheIdx).pool p.1)
        (segmentRows batch.cuSeqlens fwd.mixedQkv p.2)] [p.1]) cache

/-- The part of `_run_conv` below the lazy kernels. -/
def convFallback : PagedStateCache numLayers maxSeqs (GDNRow stateLen X S) :=
  let cache := cache.applyPending .conv fwd.cacheIdx
  if shouldDeferConvState lazy batch then
    cache.setPendingConvState fwd.cacheIdx (poolUpdate cache .conv fwd.cacheIdx fwd.slotIds
      fun i row => ((), convTail row (segmentRows batch.cuSeqlens fwd.mixedQkv i)))
  else convInPlace cache fwd

/-- `_run_conv`. -/
def runConv : PagedStateCache numLayers maxSeqs (GDNRow stateLen X S) :=
  let tried :=
    if batch.isPlainDecode then
      lazy.tryConvDecode cache fwd.cacheIdx fwd.slotIds batch.totalTokens
        (convDecodeKernel fwd.mixedQkv)
    else if shouldTryConvPrefillLazy lazy fwd then
      lazy.tryConvPrefill cache fwd.cacheIdx fwd.slotIds batch.totalTokens batch.cuSeqlens
        (convPrefillKernel batch.cuSeqlens fwd.mixedQkv)
    else none
  match tried with
  | some (cache, _) => cache
  | none => convFallback lazy cache fwd

/-- `_run_recurrent_fallback`: the native kernel updates the pool in place. -/
def recurrentFallback (step : S → Y → S) :
    PagedStateCache numLayers maxSeqs (GDNRow stateLen X S) :=
  let cache := cache.applyPending .recurrent fwd.cacheIdx
  cache.writeRows .recurrent fwd.cacheIdx
    (poolUpdate cache .recurrent fwd.cacheIdx fwd.slotIds
      (recurrentPrefillKernel step batch.cuSeqlens fwd.acts)).rows fwd.slotIds.ids

/-- `_run_recurrent`. -/
def runRecurrent (step : S → Y → S) :
    Except GDNError (PagedStateCache numLayers maxSeqs (GDNRow stateLen X S)) :=
  if batch.isPlainDecode then
    match lazy.tryRecurrentDecode cache fwd.cacheIdx fwd.slotIds batch.totalTokens
        fwd.keyHeadDim (recurrentDecodeKernel step fwd.acts) with
    | some (cache, _) => .ok cache
    | none => .ok (recurrentFallback cache fwd step)
  else if shouldTryRecurrentPrefillLazy lazy batch then
    match lazy.tryRecurrentPrefill cache fwd.cacheIdx fwd.slotIds batch.totalTokens
        fwd.keyHeadDim batch.cuSeqlens (shouldDeferRecurrentPrefillState lazy fwd)
        (recurrentPrefillKernel step batch.cuSeqlens fwd.acts) with
    | some (cache, _) => .ok cache
    | none =>
        if batch.isSpecVerify then .error .verifySpanIneligible
        else .ok (recurrentFallback cache fwd step)
  else .ok (recurrentFallback cache fwd step)

/-- The requests whose decode segment has several rows. -/
def verifyRequests (numDecodeRequests : ℕ) (cuSeqlens : List ℕ) : List ℕ :=
  (List.range numDecodeRequests).filter fun i => decide (spanLength cuSeqlens i > 1)

/-- `_stash_rows`: the rows themselves when every one of them is verified, else those of the
verified requests. -/
def stashRows {α : Type} (cuSeqlens requestIndices : List ℕ) (compactTotal : ℕ)
    (rows : List α) : List α :=
  if compactTotal ≠ rows.length then
    (requestIndices.flatMap fun i =>
      (List.range (spanLength cuSeqlens i)).map fun j => cuSeqlens.getD i 0 + j).filterMap
        fun row => rows[row]?
  else rows

theorem nodup_verifyRequests (numDecodeRequests : ℕ) (cuSeqlens : List ℕ) :
    (verifyRequests numDecodeRequests cuSeqlens).Nodup :=
  List.nodup_range.filter _

/-- The stashed part of the packed rows of a layer. -/
def PackedBatch.stashedRows {α : Type} (batch : PackedBatch) (rows : List α) : List α :=
  let requestIndices := verifyRequests batch.numDecodeRequests batch.cuSeqlens
  stashRows batch.cuSeqlens requestIndices
    (requestIndices.map (spanLength batch.cuSeqlens)).sum rows

/-- The stash of a layer: its verified requests, their slots and their rows, compacted. -/
def stashOf : GDNSpecVerifyStash numLayers maxSeqs X Y :=
  let requestIndices := verifyRequests batch.numDecodeRequests batch.cuSeqlens
  let lengths := requestIndices.map (spanLength batch.cuSeqlens)
  { cacheIdx := fwd.cacheIdx
    requestIndices := requestIndices
    slotIds := fwd.slotIds.select requestIndices (nodup_verifyRequests _ _)
    cuSeqlens := boundaries lengths
    spanLengths := lengths
    keyHeadDim := fwd.keyHeadDim
    acts := batch.stashedRows fwd.acts
    mixedQkv := batch.stashedRows fwd.mixedQkv }

/-- `stash_spec_verify_layer`. -/
def stashSpecVerifyLayer (stash : List (GDNSpecVerifyStash numLayers maxSeqs X Y)) :
    List (GDNSpecVerifyStash numLayers maxSeqs X Y) :=
  if verifyRequests batch.numDecodeRequests batch.cuSeqlens = [] then stash
  else stash ++ [stashOf fwd]

/-- `GDNPagedAttentionWrapper.__call__`, as far as the state goes. -/
def callLayer (step : S → Y → S) (state : GDNStateCache numLayers maxSeqs stateLen X Y S) :
    Except GDNError (GDNStateCache numLayers maxSeqs stateLen X Y S) :=
  if batch.isSpecVerify ∧ ¬ lazy.enabled then .error .requiresLazyKernels
  else
    match runRecurrent lazy (runConv lazy state.cache fwd) fwd step with
    | .error e => .error e
    | .ok cache =>
        .ok {
          cache := cache
          specVerifyStash :=
            if batch.isSpecVerify then
              some (stashSpecVerifyLayer fwd (state.specVerifyStash.getD []))
            else state.specVerifyStash }

/-- The layers of a forward, from the stash a step starts with. -/
def forwardLayers (step : S → Y → S) :
    List (GDNLayerForward batch numLayers maxSeqs X Y) →
      GDNStateCache numLayers maxSeqs stateLen X Y S →
      Except GDNError (GDNStateCache numLayers maxSeqs stateLen X Y S)
  | [], state => .ok state
  | fwd :: layers, state =>
      match callLayer lazy fwd step state with
      | .error e => .error e
      | .ok state => forwardLayers step layers state

end Layer
end State
end VllmMetal
