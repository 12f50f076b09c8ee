import VllmMetal.Lib.Run
import VllmMetal.State.LazyKernels
import Mathlib.Algebra.GroupWithZero.Nat

/-!
# Deferred state equals eager state

Most updates of a `PagedStateCache` are parked beside the pools and reach them later, when
the order of the slots changes, when a copy or a reset touches them, or never, when the next
launch supersedes them.  None of this shows: on what the regions hold, every operation does what
it does on a plain map that is updated at once, as long as each layer uses slots that no other
layer of its region has an update pending for.

## Main definitions

* `EagerState.assignRows`, `EagerState.copySlots`, … — the operations of the plain map.
* `CacheOp`, with `CacheOp.run` on a cache and `CacheOp.eager` on a plain map.

## Main results

* `stored_eq_assignRows`, `stored_copySlots`, `stored_zeroSlots` — the methods, on what the regions
  hold.
* `run_spec` — one operation.
* `deferred_state_eq_eager_state` — **every sequence of operations**.
-/

namespace VllmMetal
namespace State

variable {numLayers maxSeqs : ℕ} {Row : StateComponent → Type*} {Out : Type*}

/-! ### The plain map -/

namespace EagerState

variable (m : EagerState maxSeqs Row)

/-- Assign rows to slots of one component and region. -/
def assignRows (c : StateComponent) (region : ℕ) (ids : List (Fin maxSeqs))
    (rows : List (Row c)) : EagerState maxSeqs Row :=
  Function.update m c (Function.update (m c) region (assign (m c region) ids rows))

/-- Assign to the destination slots what the source slots held before. -/
def copied (layout : StateLayout numLayers) (src dst : List (Fin maxSeqs))
    (layers : LayerIds numLayers) : EagerState maxSeqs Row := fun c region =>
  if region ∈ layers.ids.map layout.regions ∧ c ∈ layout.components then
    assign (m c region) dst (src.map (m c region))
  else m c region

/-- Copy slots to slots, all at once. -/
def copySlots (layout : StateLayout numLayers) (srcIds dstIds : List ℤ)
    (layers : LayerIds numLayers) : Except StateCacheError (EagerState maxSeqs Row) :=
  if srcIds = [] ∨ layers.ids = [] then .ok m
  else
    match requireAllocatedSlots maxSeqs srcIds, requireAllocatedSlots maxSeqs dstIds with
    | .error e, _ => .error e
    | _, .error e => .error e
    | .ok src, .ok dst =>
        if src.length ≠ dst.length then .error .oneDstPerRow
        else .ok (m.copied layout src dst layers)

/-- Zero the slots, and no other. -/
def zeroed [∀ c, Zero (Row c)] (layout : StateLayout numLayers) (slots : List (Fin maxSeqs))
    (layers : LayerIds numLayers) : EagerState maxSeqs Row := fun c region s =>
  if region ∈ layers.ids.map layout.regions ∧ c ∈ layout.components ∧ s ∈ slots then 0
  else m c region s

/-- Zero slots. -/
def zeroSlots [∀ c, Zero (Row c)] (layout : StateLayout numLayers) (slotIds : List ℤ)
    (layers : LayerIds numLayers) : Except StateCacheError (EagerState maxSeqs Row) :=
  if slotIds = [] ∨ layers.ids = [] then .ok m
  else
    match requireAllocatedSlots maxSeqs slotIds with
    | .error e => .error e
    | .ok slots => .ok (m.zeroed layout slots layers)

/-- The state and the outputs of a launch, if it is eligible: the slots are assigned what the
kernel computes from their rows. -/
def tryLaunch (eligible : Prop) [Decidable eligible] (c : StateComponent) (region : ℕ)
    (slotIds : SlotIds maxSeqs) (kernel : ℕ → Row c → Out × Row c) :
    Option (EagerState maxSeqs Row × List Out) :=
  if eligible then
    some (m.assignRows c region slotIds.ids
        (launchUpdates kernel (slotIds.ids.map (m c region))),
      launchOutputs kernel (slotIds.ids.map (m c region)))
  else none

end EagerState

/-! ### The methods on what the regions hold -/

namespace PagedStateCache

variable {cache cache' : PagedStateCache numLayers maxSeqs Row}

/-- **A method that assigns rows to slots of its layer assigns them in the layer's region.** -/
theorem stored_eq_assignRows {c : StateComponent} {layer : Fin numLayers}
    {ids : List (Fin maxSeqs)} {rows : List (Row c)} (h : Assigns c layer cache cache' ids rows)
    (hone : cache.OneOwner) (hfree : ∀ s ∈ ids, cache.Free c layer s)
    (hlen : rows.length = ids.length) :
    cache'.stored = cache.stored.assignRows c (cache.regions layer) ids rows := by
  funext c' region
  by_cases hc : c' = c
  · subst hc
    by_cases hregion : region = cache.regions layer
    · subst hregion
      rw [EagerState.assignRows, Function.update_self, Function.update_self]
      exact stored_of_assigns h hone hfree hlen
    · rw [EagerState.assignRows, Function.update_self, Function.update_of_ne hregion]
      exact stored_of_assigns_of_ne h (Or.inr hregion)
  · rw [EagerState.assignRows, Function.update_of_ne hc]
    exact stored_of_assigns_of_ne h (Or.inl hc)

theorem OneOwner.congr (hone : cache.OneOwner)
    (hlayout : cache'.toStateLayout = cache.toStateLayout)
    (hpending : cache'.pending = cache.pending) : cache'.OneOwner := by
  intro c layer layer' s hregion hs hs'
  refine hone c layer layer' s ?_ ?_ ?_
  · rw [← congrArg StateLayout.regions hlayout]
    exact hregion
  · simpa only [WriteBack.Parks, pools, hpending] using hs
  · simpa only [WriteBack.Parks, pools, hpending] using hs'

/-- An iterate of a function that keeps an entry keeps it. -/
private theorem iterate_apply_of_fixed {S R : Type*} {f : (S → R) → S → R} {s : S}
    (h : ∀ m, f m s = m s) (k : ℕ) (m : S → R) : (f^[k] m) s = m s := by
  induction k with
  | zero => rfl
  | succ k ih => rw [Function.iterate_succ_apply', h, ih]

/-- **A write to slots that nobody has pending**, to the layers of a group. -/
theorem stored_writeLayers {slots : List (Fin maxSeqs)} {layers : LayerIds numLayers}
    {write : (c : StateComponent) → (Fin maxSeqs → Row c) → Fin maxSeqs → Row c}
    (hclear : ∀ c layer, ∀ s ∈ slots, ¬ (cache.pools c layer).Parks s)
    (hwrite : ∀ c pool, ∀ s ∉ slots, write c pool s = pool s) (c : StateComponent) (region : ℕ)
    (s : Fin maxSeqs) :
    (cache.writeLayers layers write).stored c region s =
      if c ∈ cache.components ∧ s ∈ slots then
        (write c)^[(layers.ids.map cache.regions).count region] (cache.buffers c region) s
      else cache.stored c region s := by
  obtain ⟨hlayout, hpending, hbuffers⟩ := cache.writeLayers_spec layers write
  have hpools : ∀ layer, (cache.writeLayers layers write).pending c layer =
      cache.pending c layer := fun layer => congrFun (congrFun hpending c) layer
  by_cases hs : s ∈ slots
  · have hclear' : ∀ layer, ¬ ((cache.writeLayers layers write).pools c layer).Parks s := by
      intro layer hparks
      refine hclear c layer s hs ?_
      simpa only [WriteBack.Parks, pools, hpools] using hparks
    rw [stored_eq_buffers _ fun layer _ => hclear' layer, hbuffers,
      stored_eq_buffers _ fun layer _ => hclear c layer s hs]
    by_cases hc : c ∈ cache.components <;> simp [hc, hs]
  · rw [if_neg fun h => hs h.2]
    refine stored_congr hlayout (fun layer _ => ?_) ?_
    · simp only [WriteBack.row?, pools, hpools]
    · rw [hbuffers]
      split
      · exact iterate_apply_of_fixed (fun pool => hwrite c pool s hs) _ _
      · rfl

/-- **`copy_slots` reads every source before it writes a destination**: the layers of a group are on
regions of their own. -/
theorem stored_copySlots {srcIds dstIds : List ℤ} {layers : LayerIds numLayers}
    (hone : cache.OneOwner) (hnodup : dstIds.Nodup)
    (hregions : (layers.ids.map cache.regions).Nodup) :
    (cache.copySlots srcIds dstIds layers).map stored =
      cache.stored.copySlots cache.toStateLayout srcIds dstIds layers := by
  rw [copySlots, EagerState.copySlots]
  split
  · rfl
  · cases hsrc : requireAllocatedSlots maxSeqs srcIds with
    | error e => rfl
    | ok src =>
      cases hdst : requireAllocatedSlots maxSeqs dstIds with
      | error e => rfl
      | ok dst =>
        simp only
        split
        · rfl
        · next hlen =>
          refine congrArg Except.ok ?_
          funext c region s
          -- the flush leaves no row of a source or a destination pending
          have hflush := cache.flushes_applyPendingStates (some (srcIds ++ dstIds))
          set flushed := cache.applyPendingStates (some (srcIds ++ dstIds)) with hflushed
          have hclear : ∀ c layer s, s ∈ src ∨ s ∈ dst → ¬ (flushed.pools c layer).Parks s := by
            intro c layer s hs
            refine cache.not_parks_applyPendingStates ?_ c layer
            rw [← requireAllocatedSlots_ok hsrc, ← requireAllocatedSlots_ok hdst,
              ← List.map_append]
            exact List.mem_map_of_mem (List.mem_append.mpr hs)
          have hstored : ∀ s, s ∈ src ∨ s ∈ dst →
              flushed.buffers c region s = cache.stored c region s := by
            intro s hs
            rw [← hflush.stored hone]
            exact (flushed.stored_eq_buffers fun layer _ => hclear c layer s hs).symm
          have hgather : src.map (flushed.buffers c region) = src.map (cache.stored c region) :=
            List.map_congr_left fun s hs => hstored s (Or.inl hs)
          have hlen' : src.length = dst.length := not_not.mp hlen
          have hdstNodup : dst.Nodup :=
            List.Nodup.of_map _ ((requireAllocatedSlots_ok hdst).symm ▸ hnodup)
          have hregions' : flushed.regions = cache.regions :=
            congrArg StateLayout.regions hflush.layout
          have hcomponents : flushed.components = cache.components :=
            congrArg StateLayout.components hflush.layout
          -- then the writes to the layers are writes to their regions, each at most once
          rw [stored_writeLayers (fun c layer s hs => hclear c layer s (Or.inr hs))
            (fun _ _ _ hs => scatter_of_not_mem hs), hregions', hregions.count, hcomponents,
            hflush.stored hone, EagerState.copied]
          -- a destination has its source's row, where the region and the component are written
          by_cases hs : s ∈ dst
          · by_cases hregion : region ∈ layers.ids.map cache.regions <;>
              by_cases hc : c ∈ cache.components
            · rw [if_pos ⟨hc, hs⟩, if_pos hregion, if_pos ⟨hregion, hc⟩, Function.iterate_one,
                scatter_eq_assign hdstNodup (by simpa using hlen'), hgather]
              exact assign_congr (by simpa using hlen') fun hnot => absurd hs hnot
            · rw [if_neg fun h => hc h.1, if_neg fun h => hc h.2]
            · rw [if_pos ⟨hc, hs⟩, if_neg hregion, if_neg fun h => hregion h.1]
              exact hstored s (Or.inr hs)
            · rw [if_neg fun h => hc h.1, if_neg fun h => hc h.2]
          · rw [if_neg fun h => hs h.2]
            split
            · exact (assign_of_not_mem (by simpa using hlen') hs).symm
            · rfl

/-- **`zero_slots` zeroes the named slots of the regions of the named layers.** -/
theorem stored_zeroSlots [∀ c, Zero (Row c)] (hone : cache.OneOwner) (slotIds : List ℤ)
    (layers : LayerIds numLayers) :
    (cache.zeroSlots slotIds layers).map stored =
      cache.stored.zeroSlots cache.toStateLayout slotIds layers := by
  rw [zeroSlots, EagerState.zeroSlots]
  split
  · rfl
  · cases hslots : requireAllocatedSlots maxSeqs slotIds with
    | error e => rfl
    | ok slots =>
      refine congrArg Except.ok ?_
      funext c region s
      have hflush := cache.flushes_applyPendingStates (some slotIds)
      set flushed := cache.applyPendingStates (some slotIds) with hflushed
      have hclear : ∀ c layer, ∀ s ∈ slots, ¬ (flushed.pools c layer).Parks s := by
        intro c layer s hs
        refine cache.not_parks_applyPendingStates ?_ c layer
        rw [← requireAllocatedSlots_ok hslots]
        exact List.mem_map_of_mem hs
      have hregions' : flushed.regions = cache.regions :=
        congrArg StateLayout.regions hflush.layout
      have hcomponents : flushed.components = cache.components :=
        congrArg StateLayout.components hflush.layout
      rw [stored_writeLayers hclear (fun _ _ _ hs => scatter_of_not_mem hs), hregions',
        hcomponents, hflush.stored hone, EagerState.zeroed]
      by_cases h : c ∈ cache.components ∧ s ∈ slots
      · rw [if_pos h]
        by_cases hregion : region ∈ layers.ids.map cache.regions
        · -- however often a region is zeroed
          obtain ⟨k, hk⟩ := Nat.exists_eq_succ_of_ne_zero
            (Nat.ne_of_gt (List.count_pos_iff.mpr hregion))
          rw [if_pos ⟨hregion, h⟩, hk, Function.iterate_succ_apply', scatter_replicate,
            if_pos h.2]
        · rw [if_neg fun h' => hregion h'.1, List.count_eq_zero_of_not_mem hregion,
            Function.iterate_zero, id_eq, ← hflush.stored hone]
          exact (flushed.stored_eq_buffers fun layer _ => hclear c layer s h.2).symm
      · rw [if_neg h, if_neg fun h' => h h'.2]

/-- Nothing is pending. -/
def Idle (cache : PagedStateCache numLayers maxSeqs Row) : Prop :=
  ∀ c layer, cache.pending c layer = none

theorem Idle.not_parks (h : cache.Idle) (c : StateComponent) (layer : Fin numLayers)
    (s : Fin maxSeqs) : ¬ (cache.pools c layer).Parks s :=
  WriteBack.not_parks_of_parked_eq_none _ (h c layer) s

theorem Idle.oneOwner (h : cache.Idle) : cache.OneOwner :=
  fun c layer _ s _ hs => absurd hs (h.not_parks c layer s)

theorem Idle.free (h : cache.Idle) (c : StateComponent) (layer : Fin numLayers)
    (s : Fin maxSeqs) : cache.Free c layer s :=
  fun layer' _ _ => h.not_parks c layer' s

theorem Idle.applyPendingStates (h : cache.Idle) (slotIds : Option (List ℤ)) :
    (cache.applyPendingStates slotIds).Idle := by
  intro c layer
  rw [pending_applyPendingStates, h c layer, ite_self]

/-- **What `copy_slots` and `zero_slots` leave alone**: the layout, and the layers apart. -/
structure Settles (cache cache' : PagedStateCache numLayers maxSeqs Row) : Prop where
  layout : cache'.toStateLayout = cache.toStateLayout
  oneOwner : cache.OneOwner → cache'.OneOwner
  idle : cache.Idle → cache'.Idle

theorem settles_writeLayers {slotIds : Option (List ℤ)} {layers : LayerIds numLayers}
    (write : (c : StateComponent) → (Fin maxSeqs → Row c) → Fin maxSeqs → Row c) :
    Settles cache ((cache.applyPendingStates slotIds).writeLayers layers write) := by
  have hflush := cache.flushes_applyPendingStates slotIds
  obtain ⟨hlayout, hpending, -⟩ := (cache.applyPendingStates slotIds).writeLayers_spec layers write
  refine ⟨hlayout.trans hflush.layout, fun hone => (hflush.oneOwner hone).congr hlayout hpending,
    fun hidle c layer => ?_⟩
  rw [hpending]
  exact hidle.applyPendingStates slotIds c layer

theorem settles_copySlots {srcIds dstIds : List ℤ} {layers : LayerIds numLayers}
    (h : cache.copySlots srcIds dstIds layers = .ok cache') : Settles cache cache' := by
  rw [copySlots] at h
  split at h
  · cases h
    exact ⟨rfl, id, id⟩
  · split at h
    · cases h
    · cases h
    · split at h
      · cases h
      · cases h
        exact settles_writeLayers _

theorem settles_zeroSlots [∀ c, Zero (Row c)] {slotIds : List ℤ}
    {layers : LayerIds numLayers} (h : cache.zeroSlots slotIds layers = .ok cache') :
    Settles cache cache' := by
  rw [zeroSlots] at h
  split at h
  · cases h
    exact ⟨rfl, id, id⟩
  · split at h
    · cases h
    · cases h
      exact settles_writeLayers _

end PagedStateCache

/-! ### Sequences of operations -/

/-- The operations on a cache. -/
inductive CacheOp (numLayers maxSeqs : ℕ) (Row : StateComponent → Type*) (Out : Type*) where
  | setPending (c : StateComponent) (layer : Fin numLayers)
      (update : RowUpdate (Fin maxSeqs) (Row c))
  | applyPending (c : StateComponent) (layer : Fin numLayers)
  | applyPendingLayers (c : StateComponent)
  | applyPendingStates (slotIds : Option (List ℤ))
  | copySlots (srcIds dstIds : List ℤ) (layers : LayerIds numLayers)
  | zeroSlots (slotIds : List ℤ) (layers : LayerIds numLayers)
  | writeRows (c : StateComponent) (layer : Fin numLayers)
      (update : RowUpdate (Fin maxSeqs) (Row c))
  | stateForDecode (c : StateComponent) (layer : Fin numLayers) (slotIds : SlotIds maxSeqs)
  | tryConvDecode (lazy : GDNLazyKernels) (layer : Fin numLayers) (slotIds : SlotIds maxSeqs)
      (totalTokens : ℕ) (kernel : ℕ → Row .conv → Out × Row .conv)
  | tryConvPrefill (lazy : GDNLazyKernels) (layer : Fin numLayers) (slotIds : SlotIds maxSeqs)
      (totalTokens : ℕ) (cuSeqlens : List ℕ) (kernel : ℕ → Row .conv → Out × Row .conv)
  | tryRecurrentDecode (lazy : GDNLazyKernels) (layer : Fin numLayers)
      (slotIds : SlotIds maxSeqs) (totalTokens keyHeadDim : ℕ)
      (kernel : ℕ → Row .recurrent → Out × Row .recurrent)
  | tryRecurrentPrefill (lazy : GDNLazyKernels) (layer : Fin numLayers)
      (slotIds : SlotIds maxSeqs) (totalTokens keyHeadDim : ℕ) (cuSeqlens : List ℕ)
      (deferStateScatter : Bool) (kernel : ℕ → Row .recurrent → Out × Row .recurrent)

/-- What an operation lets its caller see. -/
inductive Observation (Row : StateComponent → Type*) (Out : Type*) where
  | nothing
  /-- The rows of a decode view, request by request. -/
  | view (c : StateComponent) (rows : List (Row c))
  /-- The outputs of a launch. -/
  | outputs (outs : List Out)
  /-- A launch that was not eligible, and not made. -/
  | ineligible

namespace CacheOp

/-- The launch's state and outputs, or the state before and the refusal. -/
def launched {S : Type*} (before : S) : Option (S × List Out) → S × Observation Row Out
  | none => (before, .ineligible)
  | some (after, outs) => (after, .outputs outs)

/-- The operation on a cache. -/
def run [∀ c, Zero (Row c)] (op : CacheOp numLayers maxSeqs Row Out)
    (cache : PagedStateCache numLayers maxSeqs Row) :
    Except StateCacheError (PagedStateCache numLayers maxSeqs Row × Observation Row Out) :=
  match op with
  | setPending c layer update => .ok (cache.setPending c layer update, .nothing)
  | applyPending c layer => .ok (cache.applyPending c layer, .nothing)
  | applyPendingLayers c => .ok (cache.applyPendingLayers c, .nothing)
  | applyPendingStates slotIds => .ok (cache.applyPendingStates slotIds, .nothing)
  | copySlots srcIds dstIds layers =>
      (cache.copySlots srcIds dstIds layers).map fun cache => (cache, .nothing)
  | zeroSlots slotIds layers =>
      (cache.zeroSlots slotIds layers).map fun cache => (cache, .nothing)
  | writeRows c layer update =>
      .ok (cache.writeRows c layer update.rows update.ids, .nothing)
  | stateForDecode c layer slotIds =>
      .ok ((cache.stateForDecode c layer slotIds).1,
        .view c (cache.stateForDecode c layer slotIds).2.rows)
  | tryConvDecode lazy layer slotIds totalTokens kernel =>
      .ok (launched cache (lazy.tryConvDecode cache layer slotIds totalTokens kernel))
  | tryConvPrefill lazy layer slotIds totalTokens cuSeqlens kernel =>
      .ok (launched cache
        (lazy.tryConvPrefill cache layer slotIds totalTokens cuSeqlens kernel))
  | tryRecurrentDecode lazy layer slotIds totalTokens keyHeadDim kernel =>
      .ok (launched cache
        (lazy.tryRecurrentDecode cache layer slotIds totalTokens keyHeadDim kernel))
  | tryRecurrentPrefill lazy layer slotIds totalTokens keyHeadDim cuSeqlens deferStateScatter
      kernel =>
      .ok (launched cache (lazy.tryRecurrentPrefill cache layer slotIds totalTokens keyHeadDim
        cuSeqlens deferStateScatter kernel))

/-- The operation on a plain map, for a cache with the given layout. -/
def eager [∀ c, Zero (Row c)] (op : CacheOp numLayers maxSeqs Row Out)
    (layout : StateLayout numLayers) (m : EagerState maxSeqs Row) :
    Except StateCacheError (EagerState maxSeqs Row × Observation Row Out) :=
  match op with
  | setPending c layer update =>
      .ok (m.assignRows c (layout.regions layer) update.ids update.rows, .nothing)
  | applyPending _ _ => .ok (m, .nothing)
  | applyPendingLayers _ => .ok (m, .nothing)
  | applyPendingStates _ => .ok (m, .nothing)
  | copySlots srcIds dstIds layers =>
      (m.copySlots layout srcIds dstIds layers).map fun m => (m, .nothing)
  | zeroSlots slotIds layers => (m.zeroSlots layout slotIds layers).map fun m => (m, .nothing)
  | writeRows c layer update =>
      .ok (m.assignRows c (layout.regions layer) update.ids update.rows, .nothing)
  | stateForDecode c layer slotIds =>
      .ok (m, .view c (slotIds.ids.map (m c (layout.regions layer))))
  | tryConvDecode lazy layer slotIds totalTokens kernel =>
      .ok (launched m (m.tryLaunch (lazy.hasKernels ∧ totalTokens = slotIds.ids.length)
        .conv (layout.regions layer) slotIds kernel))
  | tryConvPrefill lazy layer slotIds totalTokens cuSeqlens kernel =>
      .ok (launched m (m.tryLaunch
        (lazy.hasKernels ∧ prefillBatch totalTokens slotIds.ids.length cuSeqlens)
        .conv (layout.regions layer) slotIds kernel))
  | tryRecurrentDecode lazy layer slotIds totalTokens keyHeadDim kernel =>
      .ok (launched m (m.tryLaunch (lazy.hasKernels ∧ totalTokens = slotIds.ids.length ∧
        recurrentShapeSupported keyHeadDim) .recurrent (layout.regions layer) slotIds kernel))
  | tryRecurrentPrefill lazy layer slotIds totalTokens keyHeadDim cuSeqlens _ kernel =>
      .ok (launched m (m.tryLaunch (lazy.hasKernels ∧
        prefillBatch totalTokens slotIds.ids.length cuSeqlens ∧
        recurrentShapeSupported keyHeadDim) .recurrent (layout.regions layer) slotIds kernel))

/-- What the callers see to.  A block belongs to one cache group at a time, so a layer uses slots
that no other layer of its region has pending; rows are written to the pool after a flush of their
slots; the destinations of a copy are distinct, as the scatter kernel requires, and its layers are
those of one group, each on a region of its own. -/
def Admissible (cache : PagedStateCache numLayers maxSeqs Row) :
    CacheOp numLayers maxSeqs Row Out → Prop
  | setPending c layer update => ∀ s ∈ update.ids, cache.Free c layer s
  | writeRows c layer update =>
      ∀ s ∈ update.ids, cache.Free c layer s ∧ ¬ (cache.pools c layer).Parks s
  | copySlots _ dstIds layers => dstIds.Nodup ∧ (layers.ids.map cache.regions).Nodup
  | stateForDecode c layer slotIds => ∀ s ∈ slotIds.ids, cache.Free c layer s
  | tryConvDecode _ layer slotIds _ _ => ∀ s ∈ slotIds.ids, cache.Free .conv layer s
  | tryConvPrefill _ layer slotIds _ _ _ => ∀ s ∈ slotIds.ids, cache.Free .conv layer s
  | tryRecurrentDecode _ layer slotIds _ _ _ => ∀ s ∈ slotIds.ids, cache.Free .recurrent layer s
  | tryRecurrentPrefill _ layer slotIds _ _ _ _ _ =>
      ∀ s ∈ slotIds.ids, cache.Free .recurrent layer s
  | _ => True

instance (cache : PagedStateCache numLayers maxSeqs Row) :
    DecidablePred (Admissible cache : CacheOp numLayers maxSeqs Row Out → Prop)
  | setPending c layer update =>
      inferInstanceAs (Decidable (∀ s ∈ update.ids, cache.Free c layer s))
  | writeRows c layer update => inferInstanceAs
      (Decidable (∀ s ∈ update.ids, cache.Free c layer s ∧ ¬ (cache.pools c layer).Parks s))
  | copySlots _ dstIds layers =>
      inferInstanceAs (Decidable (dstIds.Nodup ∧ (layers.ids.map cache.regions).Nodup))
  | stateForDecode _ layer slotIds | tryConvDecode _ layer slotIds _ _
  | tryConvPrefill _ layer slotIds _ _ _ | tryRecurrentDecode _ layer slotIds _ _ _
  | tryRecurrentPrefill _ layer slotIds _ _ _ _ _ =>
      inferInstanceAs (Decidable (∀ s ∈ slotIds.ids, cache.Free _ layer s))
  | applyPending _ _ | applyPendingLayers _ | applyPendingStates _ | zeroSlots _ _ =>
      .isTrue trivial

/-- A method answers on the cache as on the map, and keeps the layers apart. -/
structure Refines (cache : PagedStateCache numLayers maxSeqs Row)
    (result : Except StateCacheError
      (PagedStateCache numLayers maxSeqs Row × Observation Row Out))
    (eager : Except StateCacheError (EagerState maxSeqs Row × Observation Row Out)) : Prop where
  stored : result.map (fun p => (p.1.stored, p.2)) = eager
  settled : ∀ p, result = .ok p → p.1.toStateLayout = cache.toStateLayout ∧ p.1.OneOwner

section Refines

variable {cache cache' : PagedStateCache numLayers maxSeqs Row} (hone : cache.OneOwner)

include hone

theorem refines_of_assigns {c : StateComponent} {layer : Fin numLayers}
    {ids : List (Fin maxSeqs)} {rows : List (Row c)} {obs : Observation Row Out}
    (h : PagedStateCache.Assigns c layer cache cache' ids rows)
    (hfree : ∀ s ∈ ids, cache.Free c layer s) (hlen : rows.length = ids.length) :
    Refines cache (.ok (cache', obs))
      (.ok (cache.stored.assignRows c (cache.regions layer) ids rows, obs)) where
  stored := by
    rw [← PagedStateCache.stored_eq_assignRows h hone hfree hlen]
    rfl
  settled := by
    rintro p hp
    cases hp
    exact ⟨h.only.toStateLayout_eq, PagedStateCache.oneOwner_of_assigns h hone hfree⟩

theorem refines_of_flushes {obs : Observation Row Out}
    (h : PagedStateCache.Flushes cache cache') :
    Refines cache (.ok (cache', obs)) (.ok (cache.stored, obs)) where
  stored := by
    rw [← h.stored hone]
    rfl
  settled := by
    rintro p hp
    cases hp
    exact ⟨h.layout, h.oneOwner hone⟩

theorem refines_of_launched {c : StateComponent} {layer : Fin numLayers}
    {slotIds : SlotIds maxSeqs} {kernel : ℕ → Row c → Out × Row c} {eligible : Prop}
    [Decidable eligible] {result : Option (PagedStateCache numLayers maxSeqs Row × List Out)}
    (hnone : result = none ↔ ¬ eligible)
    (hsome : ∀ p, result = some p → Launched cache c layer slotIds kernel p)
    (hfree : ∀ s ∈ slotIds.ids, cache.Free c layer s) :
    Refines cache (.ok (launched cache result))
      (.ok (launched cache.stored
        (cache.stored.tryLaunch eligible c (cache.regions layer) slotIds kernel))) := by
  cases hresult : result with
  | none =>
    rw [EagerState.tryLaunch, if_neg (hnone.mp hresult)]
    exact refines_of_flushes hone (.refl cache)
  | some p =>
    have heligible : eligible := by_contra fun h => by simp [hnone.mpr h] at hresult
    have hrows : slotIds.ids.map (cache.stored c (cache.regions layer)) =
        slotIds.ids.map (cache.logical c layer) :=
      List.map_congr_left fun s hs => cache.stored_eq_logical (hfree s hs)
    obtain ⟨hassigns, houtputs⟩ := hsome p hresult
    rw [EagerState.tryLaunch, if_pos heligible, hrows]
    simp only [launched, houtputs]
    exact refines_of_assigns hone hassigns hfree (by simp)

end Refines

variable [∀ c, Zero (Row c)]

/-- **One operation on a cache is the operation on the plain map it stands for**, with the
same observation or the same error. -/
theorem run_spec {op : CacheOp numLayers maxSeqs Row Out}
    {cache : PagedStateCache numLayers maxSeqs Row} (hone : cache.OneOwner)
    (hadm : op.Admissible cache) :
    Refines cache (op.run cache) (op.eager cache.toStateLayout cache.stored) := by
  cases op with
  | setPending c layer update =>
    exact refines_of_assigns hone (cache.assigns_setPending c layer update) hadm update.length_eq
  | applyPending c layer =>
    exact refines_of_flushes hone (cache.assigns_applyPending c layer).flushes
  | applyPendingLayers c => exact refines_of_flushes hone (cache.flushes_applyPendingLayers c)
  | applyPendingStates slotIds =>
    exact refines_of_flushes hone (cache.flushes_applyPendingStates slotIds)
  | copySlots srcIds dstIds layers =>
    rw [eager, ← PagedStateCache.stored_copySlots hone hadm.1 hadm.2, run]
    cases hcopy : cache.copySlots srcIds dstIds layers with
    | error e => exact ⟨rfl, fun p hp => by cases hp⟩
    | ok copied =>
      refine ⟨rfl, fun p hp => ?_⟩
      cases hp
      have hsettles := PagedStateCache.settles_copySlots hcopy
      exact ⟨hsettles.layout, hsettles.oneOwner hone⟩
  | zeroSlots slotIds layers =>
    rw [eager, ← PagedStateCache.stored_zeroSlots hone, run]
    cases hzero : cache.zeroSlots slotIds layers with
    | error e => exact ⟨rfl, fun p hp => by cases hp⟩
    | ok zeroed =>
      refine ⟨rfl, fun p hp => ?_⟩
      cases hp
      have hsettles := PagedStateCache.settles_zeroSlots hzero
      exact ⟨hsettles.layout, hsettles.oneOwner hone⟩
  | writeRows c layer update =>
    exact refines_of_assigns hone
      (cache.assigns_writeRows update.nodup update.length_eq fun s hs => (hadm s hs).2)
      (fun s hs => (hadm s hs).1) update.length_eq
  | stateForDecode c layer slotIds =>
    have hrows : slotIds.ids.map (cache.stored c (cache.regions layer)) =
        slotIds.ids.map (cache.logical c layer) :=
      List.map_congr_left fun s hs => cache.stored_eq_logical (hadm s hs)
    rw [eager, hrows, ← cache.rows_stateForDecode]
    exact refines_of_flushes hone (cache.assigns_stateForDecode c layer slotIds).flushes
  | tryConvDecode lazy layer slotIds totalTokens kernel =>
    refine refines_of_launched hone ?_ (fun _ => GDNLazyKernels.launched_tryConvDecode) hadm
    simp [GDNLazyKernels.tryConvDecode]
  | tryConvPrefill lazy layer slotIds totalTokens cuSeqlens kernel =>
    refine refines_of_launched hone ?_ (fun _ => GDNLazyKernels.launched_tryConvPrefill) hadm
    simp [GDNLazyKernels.tryConvPrefill]
  | tryRecurrentDecode lazy layer slotIds totalTokens keyHeadDim kernel =>
    refine refines_of_launched hone ?_ (fun _ => GDNLazyKernels.launched_tryRecurrentDecode) hadm
    simp [GDNLazyKernels.tryRecurrentDecode]
  | tryRecurrentPrefill lazy layer slotIds totalTokens keyHeadDim cuSeqlens defer kernel =>
    refine refines_of_launched hone ?_ (fun _ => GDNLazyKernels.launched_tryRecurrentPrefill) hadm
    simp [GDNLazyKernels.tryRecurrentPrefill]

/-- An operation on a cache, with what it lets its caller see. -/
def cacheStep (cache : PagedStateCache numLayers maxSeqs Row)
    (label : CacheOp numLayers maxSeqs Row Out × Observation Row Out)
    (cache' : PagedStateCache numLayers maxSeqs Row) : Prop :=
  label.1.Admissible cache ∧ label.1.run cache = .ok (cache', label.2)

/-- An operation on a plain map, with what it lets its caller see. -/
def eagerStep (layout : StateLayout numLayers) (m : EagerState maxSeqs Row)
    (label : CacheOp numLayers maxSeqs Row Out × Observation Row Out)
    (m' : EagerState maxSeqs Row) : Prop :=
  label.1.eager layout m = .ok (m', label.2)

/-- **Deferred state equals eager state.**  Every sequence of operations on a cache whose layers use
slots of their own leaves the regions with what it leaves on a plain map updated at once, and lets
its callers see the rows and outputs that it gives there.  Where it ends, the layers are still
apart, an operation that fails fails on the plain map with the same error, each layer reads what its
region holds in the slots that no other layer has pending, a decode view reads the logical row of
each slot, and an update that is still pending when a decode launch drops it is one of exactly the
slots the launch writes. -/
theorem deferred_state_eq_eager_state {cache cache' : PagedStateCache numLayers maxSeqs Row}
    (hone : cache.OneOwner)
    {labels : List (CacheOp numLayers maxSeqs Row Out × Observation Row Out)}
    (h : Run cacheStep cache labels cache') :
    Run (eagerStep cache.toStateLayout) cache.stored labels cache'.stored ∧ cache'.OneOwner ∧
      (∀ op : CacheOp numLayers maxSeqs Row Out, op.Admissible cache' →
        (op.run cache').map (fun p => (p.1.stored, p.2)) =
          op.eager cache.toStateLayout cache'.stored) ∧
      (∀ c layer s, cache'.Free c layer s →
        cache'.logical c layer s = cache'.stored c (cache.regions layer) s) ∧
      (∀ c layer slotIds, (cache'.stateForDecode c layer slotIds).2.rows =
        slotIds.ids.map (cache'.logical c layer)) ∧
      ∀ c layer slotIds u,
        ((cache'.stateForDecode c layer slotIds).1.pools c layer).parked = some u →
          u.ids = slotIds.ids := by
  -- a step of the cache is the step of the plain map, and keeps the layers apart
  have hsim : ∀ (c : PagedStateCache numLayers maxSeqs Row) m
      (label : CacheOp numLayers maxSeqs Row Out × Observation Row Out) c',
      c.stored = m ∧ c.toStateLayout = cache.toStateLayout ∧ c.OneOwner → cacheStep c label c' →
      ∃ m', eagerStep cache.toStateLayout m label m' ∧
        c'.stored = m' ∧ c'.toStateLayout = cache.toStateLayout ∧ c'.OneOwner := by
    rintro c m label c' ⟨rfl, hc, hone⟩ ⟨hadm, hrun⟩
    obtain ⟨hstep, hsettled⟩ := run_spec hone hadm
    obtain ⟨hlayout, hone'⟩ := hsettled _ hrun
    rw [hrun, hc] at hstep
    exact ⟨c'.stored, hstep.symm, rfl, hlayout.trans hc, hone'⟩
  obtain ⟨m, hrun, rfl, hlayout, hone'⟩ := h.simulation
    (R := fun c m => c.stored = m ∧ c.toStateLayout = cache.toStateLayout ∧ c.OneOwner)
    hsim ⟨rfl, rfl, hone⟩
  refine ⟨hrun, hone', fun op hadm => ?_, fun c layer s hs => ?_,
    fun c layer slotIds => cache'.rows_stateForDecode c layer slotIds,
    fun c layer slotIds u hu => (parked_stateForDecode hu).1⟩
  · rw [← hlayout]
    exact (run_spec hone' hadm).stored
  · rw [← hlayout]
    exact (cache'.stored_eq_logical hs).symm

/-- Two layers of different groups on one region of three slots, nothing pending. -/
private def sharedRegion : PagedStateCache 2 3 fun _ => ℕ where
  toStateLayout := .oneRegion 2
  buffers := fun _ _ s => s.val
  pending := fun _ _ => none

private theorem sharedRegion_oneOwner : sharedRegion.OneOwner :=
  PagedStateCache.Idle.oneOwner fun _ _ => rfl

/-- Rows for some slots. -/
private def someRows (slots : List (Fin 3)) (nodup : slots.Nodup) (rows : List ℕ)
    (length_eq : rows.length = slots.length) : RowUpdate (Fin 3) ℕ :=
  ⟨slots, rows, nodup, length_eq⟩

/-- Updates of both layers are parked; the first is read in another order and superseded, the second
is flushed by a reset of its slot. -/
private def sharedRegionLabels :
    List (CacheOp 2 3 (fun _ => ℕ) ℕ × Observation (fun _ => ℕ) ℕ) :=
  [(.setPending .recurrent 0 (someRows [1, 0] (by decide) [10, 20] rfl), .nothing),
    (.setPending .recurrent 1 (someRows [2] (by decide) [30] rfl), .nothing),
    (.stateForDecode .recurrent 0 ⟨[0, 1], by decide⟩, .view .recurrent [20, 10]),
    (.tryRecurrentDecode ⟨true, true⟩ 0 ⟨[0, 1], by decide⟩ 2 64 fun i row => (row, row + i),
      .outputs [20, 10]),
    (.zeroSlots [2] ⟨[1], by decide⟩, .nothing)]

/-- An update parked in one order, read in the other and superseded by a decode, and one that the
reset of its slot flushes. -/
theorem deferred_state_parked_then_decoded :
    ∃ m, Run (eagerStep sharedRegion.toStateLayout) sharedRegion.stored sharedRegionLabels m ∧
      m .recurrent 0 0 = 20 ∧ m .recurrent 0 1 = 11 ∧ m .recurrent 0 2 = 0 := by
  have hrun : ∃ cache, Run cacheStep sharedRegion sharedRegionLabels cache ∧
      cache.stored .recurrent 0 0 = 20 ∧ cache.stored .recurrent 0 1 = 11 ∧
      cache.stored .recurrent 0 2 = 0 :=
    ⟨_, .cons ⟨by decide, rfl⟩ (.cons ⟨by decide, rfl⟩ (.cons ⟨by decide, rfl⟩
      (.cons ⟨by decide, rfl⟩ (.cons ⟨trivial, rfl⟩ (.nil _))))), rfl, rfl, rfl⟩
  obtain ⟨cache, hrun, hrows⟩ := hrun
  exact ⟨cache.stored, (deferred_state_eq_eager_state sharedRegion_oneOwner hrun).1, hrows⟩

/-- Zeroing a slot of one layer zeroes it in the layer of another group that is on the same
region. -/
theorem zero_slots_zeroes_sibling :
    ∃ cache : PagedStateCache 2 3 fun _ => ℕ,
      sharedRegion.zeroSlots [1] ⟨[0], by decide⟩ = .ok cache ∧
      sharedRegion.logical .recurrent 1 1 = 1 ∧ cache.logical .recurrent 1 1 = 0 :=
  ⟨_, rfl, rfl, rfl⟩

end CacheOp
end State
end VllmMetal
