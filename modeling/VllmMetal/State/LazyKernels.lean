import VllmMetal.State.Cache

/-!
# Commit patterns of the lazy kernels

The lazy kernels of a linear-attention layer compute compact state updates, one row for each
request of the step.  What differs between them is where they read the rows from and how
they commit the updates: to the pool, or parked in place of the update before.

A kernel is a function of a request's index and state row, giving the request's output and
its new row; the activations it reads besides are part of the function.

## Main definitions

* `GDNLazyKernels`, `prefillBatch`, `recurrentShapeSupported` — when a launch is eligible.
* `tryConvDecode`, `tryConvPrefill`, `tryRecurrentDecode`, `tryRecurrentPrefill`.
* `Launched` — what a launch does to the cache.

## Main results

* `parked_stateForDecode` — an update still parked when a decode launch commits is one of
  exactly the launch's slots.
* `launched_tryConvDecode` and the others — **every kernel assigns its updates to its slots**,
  whichever way it commits them.
-/

namespace VllmMetal
namespace State

variable {numLayers maxSeqs : ℕ} {Row : StateComponent → Type*} {R Out : Type*}

/-! ### Launches -/

/-- The outputs of a launch over the state rows of the requests. -/
def launchOutputs (kernel : ℕ → R → Out × R) (rows : List R) : List Out :=
  rows.mapIdx fun i row => (kernel i row).1

/-- The compact state updates of a launch. -/
def launchUpdates (kernel : ℕ → R → Out × R) (rows : List R) : List R :=
  rows.mapIdx fun i row => (kernel i row).2

@[simp] theorem length_launchUpdates (kernel : ℕ → R → Out × R) (rows : List R) :
    (launchUpdates kernel rows).length = rows.length := by
  simp [launchUpdates]

theorem launchUpdates_map {A : Type*} (kernel : ℕ → R → Out × R) (l : List A) (f : A → R) :
    launchUpdates kernel (l.map f) = l.mapIdx fun i a => (kernel i (f a)).2 := by
  refine List.ext_getElem (by simp) fun i hi hi' => ?_
  simp [launchUpdates]

/-- Kernels that agree on the rows compute the same updates. -/
theorem launchUpdates_congr {Out' : Type*} {kernel : ℕ → R → Out × R}
    {kernel' : ℕ → R → Out' × R} {rows : List R}
    (h : ∀ i < rows.length, ∀ row, (kernel i row).2 = (kernel' i row).2) :
    launchUpdates kernel rows = launchUpdates kernel' rows := by
  refine List.ext_getElem (by simp) fun i hi hi' => ?_
  simp only [launchUpdates, List.getElem_mapIdx]
  exact h i (by simpa using hi) _

/-- The owner of the lazy kernels: whether they are switched on, and whether
`_make_kernel` finds Metal. -/
structure GDNLazyKernels where
  enabled : Bool
  metalAvailable : Bool

/-- Whether the kernels exist; without the switch the constructor leaves them `None`. -/
def GDNLazyKernels.hasKernels (lazy : GDNLazyKernels) : Bool :=
  lazy.enabled && lazy.metalAvailable

/-- `_RECURRENT_SIMDGROUP_WIDTH`. -/
def recurrentSimdgroupWidth : ℕ := 32

/-- `_RECURRENT_MAX_KEY_HEAD_DIM`. -/
def recurrentMaxKeyHeadDim : ℕ := 256

/-- The key-head dimensions the recurrent kernels support. -/
def recurrentShapeSupported (keyHeadDim : ℕ) : Bool :=
  keyHeadDim % recurrentSimdgroupWidth == 0 && decide (keyHeadDim ≤ recurrentMaxKeyHeadDim)

/-- `prefill_batch`: the boundaries cut the rows into one non-empty segment for each request,
and at least one of them has several rows. -/
def prefillBatch (totalTokens numRequests : ℕ) (cuSeqlens : List ℕ) : Bool :=
  decide (totalTokens > numRequests) && cuSeqlens.length == numRequests + 1 &&
    cuSeqlens[0]? == some 0 && cuSeqlens.getLast? == some totalTokens &&
    (List.range numRequests).all fun i =>
      decide (cuSeqlens.getD (i + 1) 0 > cuSeqlens.getD i 0)

/-- **An update still parked after `*_state_for_decode` is one of exactly the given slots**,
and then the view reads it. -/
theorem parked_stateForDecode {cache : PagedStateCache numLayers maxSeqs Row}
    {c : StateComponent} {layer : Fin numLayers} {slotIds : SlotIds maxSeqs}
    {u : RowUpdate (Fin maxSeqs) (Row c)}
    (hu : ((cache.stateForDecode c layer slotIds).1.pools c layer).parked = some u) :
    u.ids = slotIds.ids ∧ (cache.stateForDecode c layer slotIds).2.usesCompactState = true ∧
      (cache.stateForDecode c layer slotIds).1 = cache := by
  obtain ⟨pending, hsome, hids, heq⟩ | heq := cache.stateForDecode_cases c layer slotIds
  · rw [heq] at hu ⊢
    rw [hsome, Option.some.injEq] at hu
    exact ⟨hu ▸ hids, rfl, rfl⟩
  · rw [heq] at hu
    cases (cache.parked_applyPending c layer).symm.trans hu

/-- The updates of a launch over the rows of a decode view. -/
def decodeUpdate (cache : PagedStateCache numLayers maxSeqs Row) (c : StateComponent)
    (layer : Fin numLayers) (slotIds : SlotIds maxSeqs) (kernel : ℕ → Row c → Out × Row c) :
    RowUpdate (Fin maxSeqs) (Row c) where
  ids := slotIds.ids
  rows := launchUpdates kernel (cache.stateForDecode c layer slotIds).2.rows
  nodup := slotIds.nodup
  length_eq := by simp [PagedStateCache.rows_stateForDecode]

/-- The updates of a launch over the pool's rows. -/
def poolUpdate (cache : PagedStateCache numLayers maxSeqs Row) (c : StateComponent)
    (layer : Fin numLayers) (slotIds : SlotIds maxSeqs) (kernel : ℕ → Row c → Out × Row c) :
    RowUpdate (Fin maxSeqs) (Row c) where
  ids := slotIds.ids
  rows := launchUpdates kernel (slotIds.ids.map (cache.pools c layer).pool)
  nodup := slotIds.nodup
  length_eq := by simp

namespace GDNLazyKernels

variable (lazy : GDNLazyKernels) (cache : PagedStateCache numLayers maxSeqs Row)

/-- `try_conv_decode`: the updates go to the pool, and an update they supersede is dropped. -/
def tryConvDecode (layer : Fin numLayers) (slotIds : SlotIds maxSeqs) (totalTokens : ℕ)
    (kernel : ℕ → Row .conv → Out × Row .conv) :
    Option (PagedStateCache numLayers maxSeqs Row × List Out) :=
  if lazy.hasKernels ∧ totalTokens = slotIds.ids.length then
    let (cache', stateView) := cache.convStateForDecode layer slotIds
    let updates := launchUpdates kernel stateView.rows
    let written := cache'.writeRows .conv layer updates slotIds.ids
    some (if stateView.usesCompactState then written.clearPending .conv layer else written,
      launchOutputs kernel stateView.rows)
  else none

/-- `try_conv_prefill`: the updates are parked. -/
def tryConvPrefill (layer : Fin numLayers) (slotIds : SlotIds maxSeqs) (totalTokens : ℕ)
    (cuSeqlens : List ℕ) (kernel : ℕ → Row .conv → Out × Row .conv) :
    Option (PagedStateCache numLayers maxSeqs Row × List Out) :=
  if lazy.hasKernels ∧ prefillBatch totalTokens slotIds.ids.length cuSeqlens then
    let cache := cache.applyPending .conv layer
    some (cache.setPendingConvState layer (poolUpdate cache .conv layer slotIds kernel),
      launchOutputs kernel (slotIds.ids.map (cache.pools .conv layer).pool))
  else none

/-- `try_recurrent_decode`: the updates are parked in place of the ones they supersede. -/
def tryRecurrentDecode (layer : Fin numLayers) (slotIds : SlotIds maxSeqs)
    (totalTokens keyHeadDim : ℕ) (kernel : ℕ → Row .recurrent → Out × Row .recurrent) :
    Option (PagedStateCache numLayers maxSeqs Row × List Out) :=
  if lazy.hasKernels ∧ totalTokens = slotIds.ids.length ∧ recurrentShapeSupported keyHeadDim then
    let (cache', stateView) := cache.recurrentStateForDecode layer slotIds
    let updates := decodeUpdate cache .recurrent layer slotIds kernel
    some ((cache'.clearPending .recurrent layer).setPendingRecurrentState layer updates,
      launchOutputs kernel stateView.rows)
  else none

/-- `try_recurrent_prefill`: the updates are parked, or go to the pool. -/
def tryRecurrentPrefill (layer : Fin numLayers) (slotIds : SlotIds maxSeqs)
    (totalTokens keyHeadDim : ℕ) (cuSeqlens : List ℕ) (deferStateScatter : Bool)
    (kernel : ℕ → Row .recurrent → Out × Row .recurrent) :
    Option (PagedStateCache numLayers maxSeqs Row × List Out) :=
  if lazy.hasKernels ∧ prefillBatch totalTokens slotIds.ids.length cuSeqlens ∧
      recurrentShapeSupported keyHeadDim then
    let cache := cache.applyPending .recurrent layer
    let updates := poolUpdate cache .recurrent layer slotIds kernel
    some (if deferStateScatter then cache.setPendingRecurrentState layer updates
      else cache.writeRows .recurrent layer updates.rows slotIds.ids,
      launchOutputs kernel (slotIds.ids.map (cache.pools .recurrent layer).pool))
  else none

/-! ### Launches as assignments -/

end GDNLazyKernels

/-- **What a launch does**: it assigns the updates of the rows that its layer reads, and has their
outputs. -/
structure Launched (cache : PagedStateCache numLayers maxSeqs Row) (c : StateComponent)
    (layer : Fin numLayers) (slotIds : SlotIds maxSeqs) (kernel : ℕ → Row c → Out × Row c)
    (p : PagedStateCache numLayers maxSeqs Row × List Out) : Prop where
  assigns : PagedStateCache.Assigns c layer cache p.1 slotIds.ids
    (launchUpdates kernel (slotIds.ids.map (cache.logical c layer)))
  outputs : p.2 = launchOutputs kernel (slotIds.ids.map (cache.logical c layer))

/-- The rows of a launch over a pool that has just been flushed. -/
theorem rows_poolUpdate_applyPending (cache : PagedStateCache numLayers maxSeqs Row)
    (c : StateComponent) (layer : Fin numLayers) (slotIds : SlotIds maxSeqs)
    (kernel : ℕ → Row c → Out × Row c) :
    (poolUpdate (cache.applyPending c layer) c layer slotIds kernel).rows =
      launchUpdates kernel (slotIds.ids.map (cache.logical c layer)) := by
  rw [← cache.pool_applyPending c layer]
  rfl

/-- Parking the updates of a launch over a flushed pool. -/
theorem assigns_setPending_poolUpdate (cache : PagedStateCache numLayers maxSeqs Row)
    (c : StateComponent) (layer : Fin numLayers) (slotIds : SlotIds maxSeqs)
    (kernel : ℕ → Row c → Out × Row c) :
    PagedStateCache.Assigns c layer cache ((cache.applyPending c layer).setPending c layer
        (poolUpdate (cache.applyPending c layer) c layer slotIds kernel)) slotIds.ids
      (launchUpdates kernel (slotIds.ids.map (cache.logical c layer))) := by
  rw [← rows_poolUpdate_applyPending]
  exact (cache.assigns_applyPending c layer).trans
    (PagedStateCache.assigns_setPending _ c layer
      (poolUpdate (cache.applyPending c layer) c layer slotIds kernel))

/-- Writing the updates of a launch to a flushed pool. -/
theorem assigns_writeRows_poolUpdate (cache : PagedStateCache numLayers maxSeqs Row)
    (c : StateComponent) (layer : Fin numLayers) (slotIds : SlotIds maxSeqs)
    (kernel : ℕ → Row c → Out × Row c) :
    PagedStateCache.Assigns c layer cache ((cache.applyPending c layer).writeRows c layer
        (poolUpdate (cache.applyPending c layer) c layer slotIds kernel).rows slotIds.ids)
      slotIds.ids (launchUpdates kernel (slotIds.ids.map (cache.logical c layer))) := by
  rw [← rows_poolUpdate_applyPending]
  exact (cache.assigns_applyPending c layer).trans
    (PagedStateCache.assigns_writeRows _ slotIds.nodup
      (poolUpdate (cache.applyPending c layer) c layer slotIds kernel).length_eq
      fun s _ => cache.not_parks_applyPending c layer s)

namespace GDNLazyKernels

variable {lazy : GDNLazyKernels} {cache : PagedStateCache numLayers maxSeqs Row}
variable {layer : Fin numLayers} {slotIds : SlotIds maxSeqs} {totalTokens keyHeadDim : ℕ}
variable {cuSeqlens : List ℕ} {deferStateScatter : Bool}

/-- **A conv decode is a launch**: the update it drops was one of the slots it has just
written. -/
theorem launched_tryConvDecode {kernel : ℕ → Row .conv → Out × Row .conv}
    {p : PagedStateCache numLayers maxSeqs Row × List Out}
    (h : lazy.tryConvDecode cache layer slotIds totalTokens kernel = some p) :
    Launched cache .conv layer slotIds kernel p := by
  rw [tryConvDecode] at h
  split at h
  · have hrows := cache.rows_stateForDecode .conv layer slotIds
    have hlen : (launchUpdates kernel (slotIds.ids.map (cache.logical .conv layer))).length =
        slotIds.ids.length := by
      simp
    simp only [PagedStateCache.convStateForDecode, Option.some.injEq] at h
    subst h
    obtain ⟨u, hsome, hids, heq⟩ | heq := cache.stateForDecode_cases .conv layer slotIds
    · -- the view is the pending update, which the write supersedes
      rw [heq] at hrows
      have hcompact : (decodeStateView u.rows slotIds true).usesCompactState = true := rfl
      simp only [heq, hrows, hcompact, if_true]
      refine ⟨?_, rfl⟩
      rw [PagedStateCache.clearPending, PagedStateCache.writeRows, PagedStateCache.modify_modify,
        ← hids]
      exact .modify (f := fun w => (w.write u.ids _).clear)
        (WriteBack.assigns_clear_write hsome (by simp))
    · rw [heq] at hrows
      have hpool : (decodeStateView (List.ofFn (cache.logical .conv layer))
          slotIds false).usesCompactState = false := rfl
      simp only [heq, hrows, hpool, Bool.false_eq_true, if_false]
      exact ⟨(cache.assigns_applyPending .conv layer).trans
        (PagedStateCache.assigns_writeRows _ slotIds.nodup hlen
          fun s _ => cache.not_parks_applyPending .conv layer s), rfl⟩
  · cases h

/-- **A conv prefill is a launch.** -/
theorem launched_tryConvPrefill {kernel : ℕ → Row .conv → Out × Row .conv}
    {p : PagedStateCache numLayers maxSeqs Row × List Out}
    (h : lazy.tryConvPrefill cache layer slotIds totalTokens cuSeqlens kernel = some p) :
    Launched cache .conv layer slotIds kernel p := by
  rw [tryConvPrefill] at h
  split at h
  · cases h
    exact ⟨assigns_setPending_poolUpdate cache .conv layer slotIds kernel,
      by rw [cache.pool_applyPending]⟩
  · cases h

/-- **A recurrent decode is a launch**: the update it drops was one of the slots it parks
again. -/
theorem launched_tryRecurrentDecode {kernel : ℕ → Row .recurrent → Out × Row .recurrent}
    {p : PagedStateCache numLayers maxSeqs Row × List Out}
    (h : lazy.tryRecurrentDecode cache layer slotIds totalTokens keyHeadDim kernel = some p) :
    Launched cache .recurrent layer slotIds kernel p := by
  rw [tryRecurrentDecode] at h
  split at h
  · have hrows := cache.rows_stateForDecode .recurrent layer slotIds
    have hupdate : (decodeUpdate cache .recurrent layer slotIds kernel).rows =
        launchUpdates kernel (slotIds.ids.map (cache.logical .recurrent layer)) :=
      congrArg (launchUpdates kernel) hrows
    simp only [PagedStateCache.recurrentStateForDecode, Option.some.injEq] at h
    subst h
    refine ⟨?_, congrArg (launchOutputs kernel) hrows⟩
    rw [← hupdate]
    obtain ⟨u, hsome, hids, heq⟩ | heq := cache.stateForDecode_cases .recurrent layer slotIds
    · rw [heq, PagedStateCache.clearPending, PagedStateCache.setPendingRecurrentState,
        PagedStateCache.setPending, PagedStateCache.modify_modify]
      exact .modify (f := fun w => w.clear.park (decodeUpdate cache .recurrent layer slotIds
        kernel)) (WriteBack.assigns_park_clear hsome hids.symm)
    · rw [heq]
      have hclear : ((cache.applyPending .recurrent layer).clearPending .recurrent layer) =
          cache.applyPending .recurrent layer :=
        PagedStateCache.modify_eq_self _
          (WriteBack.clear_of_parked_eq_none _ (cache.parked_applyPending .recurrent layer))
      simp only [hclear]
      exact (cache.assigns_applyPending .recurrent layer).trans
        (PagedStateCache.assigns_setPending _ .recurrent layer
          (decodeUpdate cache .recurrent layer slotIds kernel))
  · cases h

/-- **A recurrent prefill is a launch**, deferred or not. -/
theorem launched_tryRecurrentPrefill {kernel : ℕ → Row .recurrent → Out × Row .recurrent}
    {p : PagedStateCache numLayers maxSeqs Row × List Out}
    (h : lazy.tryRecurrentPrefill cache layer slotIds totalTokens keyHeadDim cuSeqlens
      deferStateScatter kernel = some p) :
    Launched cache .recurrent layer slotIds kernel p := by
  rw [tryRecurrentPrefill] at h
  split at h
  · cases h
    refine ⟨?_, by rw [cache.pool_applyPending]⟩
    cases deferStateScatter with
    | true => exact assigns_setPending_poolUpdate cache .recurrent layer slotIds kernel
    | false => exact assigns_writeRows_poolUpdate cache .recurrent layer slotIds kernel
  · cases h

end GDNLazyKernels
end State
end VllmMetal
