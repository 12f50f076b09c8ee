import Mathlib.Data.List.FinRange
import Mathlib.Data.List.Induction
import Mathlib.Data.Int.Notation
import VllmMetal.Lib.SharedPool

/-!
# The paged state cache

`PagedStateCache` binds the recurrent and convolution states of the linear-attention layers
to the slots of scheduler-owned pools.  The pools of a layer are views of a storage region, and
layers of different cache groups may be views of one region: a slot is a block of the scheduler,
which belongs to one group at a time.  Beside the regions, each layer and component has the compact
update of its last forward while it has not been written there.

## Main definitions

* `SlotIds`, `LayerIds` — the slots of a step and the layers of a cache group.
* `PagedStateCache` and its methods, under the source's names.
* `pools`, `logical` — what a layer reads: its view of the region, and its own update.
* `region`, `stored` — what a region holds: the update that some layer has pending for a slot, else
  the buffer.
* `Free`, `OneOwner` — which slots a layer may use, and that no two layers of a region have updates
  for one slot pending.
* `Assigns` — what a method does that changes one component of one layer.

## Main results

* `oneOwner_of_assigns`, `stored_of_assigns` — what such a method does to the regions.
* `pending_applyPendingStates`, `flushes_applyPendingStates` — the flush.
* `writeLayers_spec` — the writes to the layers of a group.
* `rows_stateForDecode` — a decode view reads the logical rows.
-/

namespace VllmMetal
namespace State

/-- The state components of a layer. -/
inductive StateComponent where
  | conv
  | recurrent
  deriving DecidableEq

/-- The errors of the state cache. -/
inductive StateCacheError where
  /-- "state cache requires state_slot_mapping in context". -/
  | noSlotMapping
  /-- `state_group_slot_mappings[ordinal]`. -/
  | groupIndex (ordinal : ℕ)
  /-- "state cache requires one slot per request". -/
  | oneSlotPerRequest
  /-- "state cache requires unique slots per request". -/
  | uniqueSlots
  /-- "state cache received out-of-range slot mapping". -/
  | outOfRange
  /-- "gdn_state_scatter: one dst id per src row required". -/
  | oneDstPerRow
  deriving DecidableEq

/-- Slots and layers are compared by value. -/
instance lawfulBEqFin (n : ℕ) : LawfulBEq (Fin n) := inferInstance

/-- Distinct slots of a pool of `maxSeqs` rows: what `step_slot_ids` lets through. -/
structure SlotIds (maxSeqs : ℕ) where
  ids : List (Fin maxSeqs)
  nodup : ids.Nodup
  deriving DecidableEq

/-- The slots at the given positions. -/
def SlotIds.select {maxSeqs : ℕ} (slotIds : SlotIds maxSeqs) (positions : List ℕ)
    (h : positions.Nodup) : SlotIds maxSeqs where
  ids := positions.filterMap fun i => slotIds.ids[i]?
  nodup := h.filterMap fun i j s hsi hsj => by
    obtain ⟨hi, hi'⟩ := List.getElem?_eq_some_iff.mp hsi
    obtain ⟨hj, hj'⟩ := List.getElem?_eq_some_iff.mp hsj
    exact slotIds.nodup.getElem_inj_iff.mp (hi'.trans hj'.symm)

theorem SlotIds.getElem?_select {maxSeqs : ℕ} (slotIds : SlotIds maxSeqs) {positions : List ℕ}
    (h : positions.Nodup) (hrange : ∀ i ∈ positions, i < slotIds.ids.length) (k : ℕ) :
    (slotIds.select positions h).ids[k]? = positions[k]?.bind fun i => slotIds.ids[i]? := by
  simp only [select]
  clear h
  induction positions generalizing k with
  | nil => rfl
  | cons i positions ih =>
    have hi : i < slotIds.ids.length := hrange i (by simp)
    rw [List.filterMap_cons_some (List.getElem?_eq_getElem hi)]
    cases k with
    | zero => simp
    | succ k => exact ih (fun j hj => hrange j (List.mem_cons_of_mem i hj)) k

theorem SlotIds.length_select {maxSeqs : ℕ} (slotIds : SlotIds maxSeqs) {positions : List ℕ}
    (h : positions.Nodup) (hrange : ∀ i ∈ positions, i < slotIds.ids.length) :
    (slotIds.select positions h).ids.length = positions.length := by
  simp only [select]
  clear h
  induction positions with
  | nil => rfl
  | cons i positions ih =>
    have hi : i < slotIds.ids.length := hrange i (by simp)
    rw [List.filterMap_cons_some (List.getElem?_eq_getElem hi), List.length_cons,
      ih fun j hj => hrange j (List.mem_cons_of_mem i hj), List.length_cons]

/-- Distinct layers. -/
structure LayerIds (numLayers : ℕ) where
  ids : List (Fin numLayers)
  nodup : ids.Nodup

/-- `require_allocated_slots`: the ids as slots, or the error. -/
def requireAllocatedSlots (maxSeqs : ℕ) : List ℤ → Except StateCacheError (List (Fin maxSeqs))
  | [] => .ok []
  | slot :: slotIds =>
      if h : 0 ≤ slot ∧ slot < maxSeqs then
        match requireAllocatedSlots maxSeqs slotIds with
        | .error e => .error e
        | .ok slots => .ok (⟨slot.toNat, by omega⟩ :: slots)
      else .error .outOfRange

/-- The validated slots are the ids. -/
theorem requireAllocatedSlots_ok {maxSeqs : ℕ} {slotIds : List ℤ} {slots : List (Fin maxSeqs)}
    (h : requireAllocatedSlots maxSeqs slotIds = .ok slots) :
    slots.map (fun s => (s.val : ℤ)) = slotIds := by
  induction slotIds generalizing slots with
  | nil => cases h; rfl
  | cons slot slotIds ih =>
    rw [requireAllocatedSlots] at h
    split at h
    · next hrange =>
      cases hrest : requireAllocatedSlots maxSeqs slotIds with
      | error e => rw [hrest] at h; cases h
      | ok rest =>
        rw [hrest] at h
        cases h
        rw [List.map_cons, ih hrest]
        exact congrArg (· :: slotIds) (Int.toNat_of_nonneg hrange.1)
    · cases h

/-- What the constructor of a cache fixes. -/
structure StateLayout (numLayers : ℕ) where
  /-- Whether `recurrent_states` is non-empty. -/
  hasRecurrent : Bool
  layerGroupOrdinals : Fin numLayers → ℕ
  /-- The storage region that the views of a layer are on. -/
  regions : Fin numLayers → ℕ
  /-- The layers of one group are on regions of their own. -/
  regions_inj : ∀ layer layer', layerGroupOrdinals layer = layerGroupOrdinals layer' →
    regions layer = regions layer' → layer = layer'

/-- Each layer in a group of its own, and all of them on one region. -/
def StateLayout.oneRegion (numLayers : ℕ) : StateLayout numLayers where
  hasRecurrent := true
  layerGroupOrdinals := Fin.val
  regions _ := 0
  regions_inj _ _ h _ := Fin.ext h

/-- The regions of the scheduler-owned pools, and the parked update of each layer and component. -/
structure PagedStateCache (numLayers maxSeqs : ℕ) (Row : StateComponent → Type*)
    extends StateLayout numLayers where
  /-- The rows of each region, which `conv_states` and `recurrent_states` are views of. -/
  buffers : (c : StateComponent) → ℕ → Fin maxSeqs → Row c
  /-- `pending_*_states` and `pending_*_slot_ids`. -/
  pending : (c : StateComponent) → Fin numLayers → Option (RowUpdate (Fin maxSeqs) (Row c))

variable {numLayers maxSeqs : ℕ} {Row : StateComponent → Type*}

/-- The state array and slot mappings of one decode launch. -/
structure GDNDecodeStateView (maxSeqs : ℕ) (R : Type*) where
  /-- The rows of the array the kernel reads. -/
  state : List R
  stateSlotIds : List ℕ
  cacheSlotIds : SlotIds maxSeqs
  usesCompactState : Bool

/-- The row the kernel reads for each request. -/
def GDNDecodeStateView.rows {R : Type*} (view : GDNDecodeStateView maxSeqs R) : List R :=
  view.stateSlotIds.filterMap fun slot => view.state[slot]?

/-- `_decode_state_view`. -/
def decodeStateView {R : Type*} (state : List R) (slotIds : SlotIds maxSeqs)
    (usesCompactState : Bool) : GDNDecodeStateView maxSeqs R where
  state := state
  stateSlotIds :=
    let compactOrder := List.range slotIds.ids.length
    if usesCompactState ∧ slotIds.ids.map Fin.val ≠ compactOrder then compactOrder
    else slotIds.ids.map Fin.val
  cacheSlotIds := slotIds
  usesCompactState := usesCompactState

/-- A view of the pool reads the slots' rows. -/
theorem rows_decodeStateView_pool {R : Type*} (pool : Fin maxSeqs → R)
    (slotIds : SlotIds maxSeqs) :
    (decodeStateView (List.ofFn pool) slotIds false).rows = slotIds.ids.map pool := by
  have hrow : ∀ s : Fin maxSeqs, (List.ofFn pool)[s.val]? = some (pool s) := by simp
  simp only [GDNDecodeStateView.rows, decodeStateView, Bool.false_eq_true, false_and, if_false,
    List.filterMap_map, Function.comp_def, hrow]
  exact congrFun List.filterMap_eq_map slotIds.ids

/-- Reading a list at all its indices gives the list. -/
private theorem filterMap_getElem?_range {R : Type*} (rows : List R) :
    (List.range rows.length).filterMap (fun j => rows[j]?) = rows := by
  induction rows using List.reverseRecOn with
  | nil => rfl
  | append_singleton rows r ih =>
    rw [List.length_append, List.length_singleton, List.range_succ, List.filterMap_append]
    congr 1
    · refine Eq.trans (List.filterMap_congr fun j hj => ?_) ih
      rw [List.getElem?_append_left (List.mem_range.mp hj)]
    · simp

/-- A compact view reads the compact rows in order. -/
theorem rows_decodeStateView_compact {R : Type*} {rows : List R} {slotIds : SlotIds maxSeqs}
    (hlen : rows.length = slotIds.ids.length) :
    (decodeStateView rows slotIds true).rows = rows := by
  have horder : (decodeStateView rows slotIds true).stateSlotIds = List.range rows.length := by
    simp only [decodeStateView, true_and, ne_eq, hlen]
    split
    · rfl
    · next h => exact not_not.mp h
  rw [GDNDecodeStateView.rows, horder]
  exact filterMap_getElem?_range rows

/-- A plain map from component, region and slot to a row. -/
abbrev EagerState (maxSeqs : ℕ) (Row : StateComponent → Type*) :=
  (c : StateComponent) → ℕ → Fin maxSeqs → Row c

/-- The components that have pools. -/
def StateLayout.components (layout : StateLayout numLayers) : List StateComponent :=
  if layout.hasRecurrent then [.conv, .recurrent] else [.conv]

namespace PagedStateCache

/-! ### State of the cache -/

section Views

variable (cache : PagedStateCache numLayers maxSeqs Row)

/-- The pool of a layer and component, and its parked update. -/
def pools (c : StateComponent) (layer : Fin numLayers) : WriteBack (Fin maxSeqs) (Row c) where
  pool := cache.buffers c (cache.regions layer)
  parked := cache.pending c layer

/-- The row a layer reads: the pending compact row of a slot that has one, else its pool row. -/
def logical (c : StateComponent) (layer : Fin numLayers) : Fin maxSeqs → Row c :=
  (cache.pools c layer).value

/-- Replace the pool of one component and layer, which is its region's, and its parked update. -/
def modify (c : StateComponent) (layer : Fin numLayers)
    (f : WriteBack (Fin maxSeqs) (Row c) → WriteBack (Fin maxSeqs) (Row c)) :
    PagedStateCache numLayers maxSeqs Row :=
  { cache with
    buffers := Function.update cache.buffers c
      (Function.update (cache.buffers c) (cache.regions layer) (f (cache.pools c layer)).pool)
    pending := Function.update cache.pending c
      (Function.update (cache.pending c) layer (f (cache.pools c layer)).parked) }

/-- A region: its buffer, and the updates that its layers have parked. -/
def region (c : StateComponent) (region : ℕ) :
    SharedPool numLayers (Fin maxSeqs) (Row c) where
  pool := cache.buffers c region
  parked layer := if cache.regions layer = region then cache.pending c layer else none

/-- The row a region holds: the one that a layer has pending for the slot, else the buffer's. -/
def stored : EagerState maxSeqs Row := fun c region => (cache.region c region).value

/-- No other layer of the layer's region has a row pending for the slot. -/
def Free (c : StateComponent) (layer : Fin numLayers) (s : Fin maxSeqs) : Prop :=
  ∀ layer', layer' ≠ layer → cache.regions layer' = cache.regions layer →
    ¬ (cache.pools c layer').Parks s

instance (c : StateComponent) (layer : Fin numLayers) : DecidablePred (cache.Free c layer) :=
  fun s => inferInstanceAs (Decidable (∀ layer', layer' ≠ layer →
    cache.regions layer' = cache.regions layer → ¬ (cache.pools c layer').Parks s))

/-- No two layers of a region have rows pending for one slot. -/
def OneOwner : Prop := ∀ c layer layer' s, cache.regions layer = cache.regions layer' →
  (cache.pools c layer).Parks s → (cache.pools c layer').Parks s → layer = layer'

end Views

variable (cache : PagedStateCache numLayers maxSeqs Row)

@[simp] theorem toStateLayout_modify (c : StateComponent) (layer : Fin numLayers)
    (f : WriteBack (Fin maxSeqs) (Row c) → WriteBack (Fin maxSeqs) (Row c)) :
    (cache.modify c layer f).toStateLayout = cache.toStateLayout := rfl

@[simp] theorem pools_modify_self (c : StateComponent) (layer : Fin numLayers)
    (f : WriteBack (Fin maxSeqs) (Row c) → WriteBack (Fin maxSeqs) (Row c)) :
    (cache.modify c layer f).pools c layer = f (cache.pools c layer) := by
  simp [modify, pools]

theorem pending_modify_of_ne {c c' : StateComponent} {layer layer' : Fin numLayers}
    (f : WriteBack (Fin maxSeqs) (Row c) → WriteBack (Fin maxSeqs) (Row c))
    (h : c' ≠ c ∨ layer' ≠ layer) :
    (cache.modify c layer f).pending c' layer' = cache.pending c' layer' := by
  by_cases hc : c' = c
  · subst hc
    simp [modify, h.resolve_left (not_not.mpr rfl)]
  · simp [modify, hc]

theorem buffers_modify_of_ne {c c' : StateComponent} {layer : Fin numLayers} {region : ℕ}
    (f : WriteBack (Fin maxSeqs) (Row c) → WriteBack (Fin maxSeqs) (Row c))
    (h : c' ≠ c ∨ region ≠ cache.regions layer) :
    (cache.modify c layer f).buffers c' region = cache.buffers c' region := by
  by_cases hc : c' = c
  · subst hc
    simp [modify, h.resolve_left (not_not.mpr rfl)]
  · simp [modify, hc]

theorem pools_modify_of_component_ne {c c' : StateComponent} {layer : Fin numLayers}
    (f : WriteBack (Fin maxSeqs) (Row c) → WriteBack (Fin maxSeqs) (Row c)) (h : c' ≠ c)
    (layer' : Fin numLayers) :
    (cache.modify c layer f).pools c' layer' = cache.pools c' layer' := by
  rw [pools, pools, cache.pending_modify_of_ne f (Or.inl h)]
  exact congrArg (WriteBack.mk · _) (cache.buffers_modify_of_ne f (Or.inl h))

theorem modify_eq_self {c : StateComponent} {layer : Fin numLayers}
    {f : WriteBack (Fin maxSeqs) (Row c) → WriteBack (Fin maxSeqs) (Row c)}
    (h : f (cache.pools c layer) = cache.pools c layer) : cache.modify c layer f = cache := by
  rw [modify, h]
  simp [pools]

@[simp] theorem modify_modify (c : StateComponent) (layer : Fin numLayers)
    (f g : WriteBack (Fin maxSeqs) (Row c) → WriteBack (Fin maxSeqs) (Row c)) :
    (cache.modify c layer f).modify c layer g = cache.modify c layer fun w => g (f w) := by
  rw [modify, pools_modify_self]
  simp [modify]

theorem modify_congr {c : StateComponent} {layer : Fin numLayers}
    {f g : WriteBack (Fin maxSeqs) (Row c) → WriteBack (Fin maxSeqs) (Row c)}
    (h : f (cache.pools c layer) = g (cache.pools c layer)) :
    cache.modify c layer f = cache.modify c layer g := by
  rw [modify, modify, h]

/-! ### Regions -/

theorem region_view {c : StateComponent} {region : ℕ} {layer : Fin numLayers}
    (h : cache.regions layer = region) :
    (cache.region c region).view layer = cache.pools c layer := by
  simp [SharedPool.view, PagedStateCache.region, pools, h]

theorem not_parks_region_view {c : StateComponent} {region : ℕ} {layer : Fin numLayers}
    (h : cache.regions layer ≠ region) (s : Fin maxSeqs) :
    ¬ ((cache.region c region).view layer).Parks s :=
  WriteBack.not_parks_of_parked_eq_none _ (if_neg h) s

theorem region_modify (c : StateComponent) (layer : Fin numLayers)
    (f : WriteBack (Fin maxSeqs) (Row c) → WriteBack (Fin maxSeqs) (Row c)) :
    (cache.modify c layer f).region c (cache.regions layer) =
      (cache.region c (cache.regions layer)).modify layer f := by
  rw [SharedPool.modify, cache.region_view rfl]
  refine congrArg₂ SharedPool.mk (by simp [modify]) (funext fun layer' => ?_)
  by_cases h : layer' = layer
  · subst h
    simp [modify]
  · simp [PagedStateCache.region, modify, h]

theorem region_modify_of_ne {c c' : StateComponent} {layer : Fin numLayers} {region : ℕ}
    (f : WriteBack (Fin maxSeqs) (Row c) → WriteBack (Fin maxSeqs) (Row c))
    (h : c' ≠ c ∨ region ≠ cache.regions layer) :
    (cache.modify c layer f).region c' region = cache.region c' region := by
  refine congrArg₂ SharedPool.mk (cache.buffers_modify_of_ne f h) (funext fun layer' => ?_)
  by_cases hregion : cache.regions layer' = region
  · have hne : c' ≠ c ∨ layer' ≠ layer := h.imp_right fun hne heq => hne (heq ▸ hregion.symm)
    rw [cache.pending_modify_of_ne f hne]
    rfl
  · exact (if_neg hregion).trans (if_neg hregion).symm

theorem oneOwner_iff : cache.OneOwner ↔ ∀ c region, (cache.region c region).Exclusive := by
  constructor
  · intro h c region layer layer' s hs hs'
    have hregion : ∀ {layer}, ((cache.region c region).view layer).Parks s →
        cache.regions layer = region := fun hs =>
      by_contra fun hne => cache.not_parks_region_view hne s hs
    refine h c layer layer' s ((hregion hs).trans (hregion hs').symm) ?_ ?_
    · rw [← cache.region_view (hregion hs)]
      exact hs
    · rw [← cache.region_view (hregion hs')]
      exact hs'
  · intro h c layer layer' s hregion hs hs'
    refine h c (cache.regions layer) layer layer' s ?_ ?_
    · rw [cache.region_view rfl]
      exact hs
    · rw [cache.region_view hregion.symm]
      exact hs'

theorem free_iff {c : StateComponent} {layer : Fin numLayers} {s : Fin maxSeqs} :
    cache.Free c layer s ↔ (cache.region c (cache.regions layer)).Free layer s := by
  refine forall_congr' fun layer' => imp_congr_right fun _ => ?_
  by_cases h : cache.regions layer' = cache.regions layer
  · rw [cache.region_view h]
    exact ⟨fun hs => hs h, fun hs _ => hs⟩
  · exact iff_of_true (fun heq => absurd heq h) (cache.not_parks_region_view h s)

/-- **A layer reads what its region holds at the slots that no other layer has pending.** -/
theorem stored_eq_logical {c : StateComponent} {layer : Fin numLayers} {s : Fin maxSeqs}
    (h : cache.Free c layer s) :
    cache.stored c (cache.regions layer) s = cache.logical c layer s := by
  rw [stored, SharedPool.value_of_free (cache.free_iff.mp h), cache.region_view rfl]
  rfl

/-- A slot that no layer of a region has pending holds the buffer's row. -/
theorem stored_eq_buffers {c : StateComponent} {region : ℕ} {s : Fin maxSeqs}
    (h : ∀ layer, cache.regions layer = region → ¬ (cache.pools c layer).Parks s) :
    cache.stored c region s = cache.buffers c region s := by
  refine SharedPool.value_of_not_parks fun layer => ?_
  by_cases hregion : cache.regions layer = region
  · rw [cache.region_view hregion]
    exact h layer hregion
  · exact cache.not_parks_region_view hregion s

variable {cache} in
/-- What a layer reads in a slot depends on its update and on the pool row alone. -/
theorem logical_congr {cache' : PagedStateCache numLayers maxSeqs Row} {c : StateComponent}
    {layer : Fin numLayers} {s : Fin maxSeqs}
    (hpending : cache'.pending c layer = cache.pending c layer)
    (hpool : (cache'.pools c layer).pool s = (cache.pools c layer).pool s) :
    cache'.logical c layer s = cache.logical c layer s := by
  have hrow : (cache'.pools c layer).row? s = (cache.pools c layer).row? s := by
    simp only [WriteBack.row?, pools, hpending]
  rw [logical, logical, WriteBack.value_eq_getD, WriteBack.value_eq_getD, hrow, hpool]

variable {cache} in
/-- What a region holds in a slot depends on the rows of that slot alone. -/
theorem stored_congr {cache' : PagedStateCache numLayers maxSeqs Row}
    (hlayout : cache'.toStateLayout = cache.toStateLayout) {c : StateComponent} {region : ℕ}
    {s : Fin maxSeqs}
    (hrow : ∀ layer, cache.regions layer = region →
      (cache'.pools c layer).row? s = (cache.pools c layer).row? s)
    (hbuffer : cache'.buffers c region s = cache.buffers c region s) :
    cache'.stored c region s = cache.stored c region s := by
  have hregions : cache'.regions = cache.regions := congrArg StateLayout.regions hlayout
  refine SharedPool.value_congr (fun layer => ?_) hbuffer
  by_cases hregion : cache.regions layer = region
  · rw [cache.region_view hregion, cache'.region_view (hregions ▸ hregion)]
    exact hrow layer hregion
  · rw [(WriteBack.row?_eq_none_iff _).mpr (cache.not_parks_region_view hregion s),
      (WriteBack.row?_eq_none_iff _).mpr (cache'.not_parks_region_view (hregions ▸ hregion) s)]

/-! ### Methods that change one component of one layer -/

/-- Nothing but the pool and the update of one component and layer differs. -/
def ChangesOnly (c : StateComponent) (layer : Fin numLayers)
    (cache cache' : PagedStateCache numLayers maxSeqs Row) : Prop :=
  cache' = cache.modify c layer fun _ => cache'.pools c layer

theorem ChangesOnly.refl (c : StateComponent) (layer : Fin numLayers) :
    ChangesOnly c layer cache cache := (cache.modify_eq_self rfl).symm

theorem changesOnly_modify (c : StateComponent) (layer : Fin numLayers)
    (f : WriteBack (Fin maxSeqs) (Row c) → WriteBack (Fin maxSeqs) (Row c)) :
    ChangesOnly c layer cache (cache.modify c layer f) :=
  cache.modify_congr (cache.pools_modify_self c layer f).symm

section

variable {cache} {cache' cache'' : PagedStateCache numLayers maxSeqs Row} {c : StateComponent}
  {layer : Fin numLayers}

theorem ChangesOnly.trans (h : ChangesOnly c layer cache cache')
    (h' : ChangesOnly c layer cache' cache'') : ChangesOnly c layer cache cache'' := by
  rw [ChangesOnly] at h h' ⊢
  rw [h, modify_modify] at h'
  exact h'

theorem ChangesOnly.toStateLayout_eq (h : ChangesOnly c layer cache cache') :
    cache'.toStateLayout = cache.toStateLayout := by
  rw [h]
  rfl

theorem ChangesOnly.pending_eq (h : ChangesOnly c layer cache cache') {c' : StateComponent}
    {layer' : Fin numLayers} (hne : c' ≠ c ∨ layer' ≠ layer) :
    cache'.pending c' layer' = cache.pending c' layer' := by
  rw [h]
  exact cache.pending_modify_of_ne _ hne

theorem ChangesOnly.buffers_eq (h : ChangesOnly c layer cache cache') {c' : StateComponent}
    {region : ℕ} (hne : c' ≠ c ∨ region ≠ cache.regions layer) :
    cache'.buffers c' region = cache.buffers c' region := by
  rw [h]
  exact cache.buffers_modify_of_ne _ hne

theorem ChangesOnly.pools_eq (h : ChangesOnly c layer cache cache') {c' : StateComponent}
    (hne : c' ≠ c) (layer' : Fin numLayers) : cache'.pools c' layer' = cache.pools c' layer' := by
  rw [h]
  exact cache.pools_modify_of_component_ne _ hne layer'

/-- **What a method does that assigns rows to slots of one component of one layer.** -/
structure Assigns (c : StateComponent) (layer : Fin numLayers)
    (cache cache' : PagedStateCache numLayers maxSeqs Row) (ids : List (Fin maxSeqs))
    (rows : List (Row c)) : Prop where
  only : ChangesOnly c layer cache cache'
  pools : (cache.pools c layer).Assigns (cache'.pools c layer) ids rows

theorem Assigns.modify {f : WriteBack (Fin maxSeqs) (Row c) → WriteBack (Fin maxSeqs) (Row c)}
    {ids : List (Fin maxSeqs)} {rows : List (Row c)}
    (h : (cache.pools c layer).Assigns (f (cache.pools c layer)) ids rows) :
    Assigns c layer cache (cache.modify c layer f) ids rows :=
  ⟨cache.changesOnly_modify c layer f, by rw [pools_modify_self]; exact h⟩

theorem Assigns.refl (cache : PagedStateCache numLayers maxSeqs Row) (c : StateComponent)
    (layer : Fin numLayers) : Assigns c layer cache cache [] [] :=
  ⟨.refl cache c layer, .refl _⟩

theorem Assigns.trans {ids : List (Fin maxSeqs)} {rows : List (Row c)}
    (h : Assigns c layer cache cache' [] []) (h' : Assigns c layer cache' cache'' ids rows) :
    Assigns c layer cache cache'' ids rows :=
  ⟨h.only.trans h'.only, h.pools.trans h'.pools⟩

variable {ids : List (Fin maxSeqs)} {rows : List (Row c)}
  (h : Assigns c layer cache cache' ids rows) (hone : cache.OneOwner)
  (hfree : ∀ s ∈ ids, cache.Free c layer s)

include h hone hfree

/-- **Layers that use slots of their own stay apart.** -/
theorem oneOwner_of_assigns : cache'.OneOwner := by
  rw [oneOwner_iff] at hone ⊢
  intro c' region
  by_cases heq : c' = c ∧ region = cache.regions layer
  · obtain ⟨rfl, rfl⟩ := heq
    have hassigns : ((cache.region c' (cache.regions layer)).view layer).Assigns
        (cache'.pools c' layer) ids rows := by
      rw [cache.region_view rfl]
      exact h.pools
    rw [h.only, region_modify]
    exact SharedPool.exclusive_modify (hone c' _) hassigns fun s hs =>
      cache.free_iff.mp (hfree s hs)
  · rw [h.only, cache.region_modify_of_ne _ (by tauto)]
    exact hone c' region

/-- What the method assigns is assigned to the region, -/
theorem stored_of_assigns (hlen : rows.length = ids.length) :
    cache'.stored c (cache.regions layer) =
      assign (cache.stored c (cache.regions layer)) ids rows := by
  rw [oneOwner_iff] at hone
  rw [h.only, stored, region_modify]
  refine SharedPool.value_modify (hone c _) ?_ (fun s hs => cache.free_iff.mp (hfree s hs)) hlen
  rw [cache.region_view rfl]
  exact h.pools

omit hone hfree in
/-- and no other region or component changes. -/
theorem stored_of_assigns_of_ne {c' : StateComponent} {region : ℕ}
    (hne : c' ≠ c ∨ region ≠ cache.regions layer) :
    cache'.stored c' region = cache.stored c' region := by
  rw [h.only, stored, cache.region_modify_of_ne _ hne]
  rfl

end

/-! ### Slots and layers -/

/-- `layer_group_ordinal`. -/
def layerGroupOrdinal (cacheIdx : Fin numLayers) : ℕ := cache.layerGroupOrdinals cacheIdx

/-- `layers_for_group_ordinal`. -/
def layersForGroupOrdinal (ordinal : ℕ) : LayerIds numLayers where
  ids := (List.finRange numLayers).filter fun idx => cache.layerGroupOrdinals idx = ordinal
  nodup := (List.nodup_finRange numLayers).filter _

theorem mem_layersForGroupOrdinal {ordinal : ℕ} {layer : Fin numLayers} :
    layer ∈ (cache.layersForGroupOrdinal ordinal).ids ↔
      cache.layerGroupOrdinal layer = ordinal := by
  simp [layersForGroupOrdinal, layerGroupOrdinal]

/-- `step_slot_ids`: the slot of each request of a step, from the mapping of the layer's
cache group or from the one mapping. -/
def stepSlotIds (stateGroupSlotMappings : Option (List (List ℤ)))
    (stateSlotMapping : Option (List ℤ)) (cacheIdx : Fin numLayers) (numRequests : ℕ) :
    Except StateCacheError (SlotIds maxSeqs) :=
  let mapping : Except StateCacheError (List ℤ) :=
    match stateGroupSlotMappings, stateSlotMapping with
    | some groups, _ =>
        match groups[cache.layerGroupOrdinal cacheIdx]? with
        | none => .error (.groupIndex (cache.layerGroupOrdinal cacheIdx))
        | some slotIds => .ok slotIds
    | none, some slotIds => .ok slotIds
    | none, none => .error .noSlotMapping
  match mapping with
  | .error e => .error e
  | .ok slotIds =>
      if slotIds.length ≠ numRequests then .error .oneSlotPerRequest
      else if hnodup : ¬ slotIds.Nodup then .error .uniqueSlots
      else
        match hslots : requireAllocatedSlots maxSeqs slotIds with
        | .error e => .error e
        | .ok slots => .ok {
            ids := slots
            nodup := List.Nodup.of_map _ ((requireAllocatedSlots_ok hslots).symm ▸
              not_not.mp hnodup) }

/-! ### Pending updates -/

/-- `set_pending_conv_state`, `set_pending_recurrent_state`.  The slots of an update are
validated as they were when its ids became a `RowUpdate`. -/
def setPending (c : StateComponent) (layer : Fin numLayers)
    (update : RowUpdate (Fin maxSeqs) (Row c)) : PagedStateCache numLayers maxSeqs Row :=
  cache.modify c layer fun w => w.park update

/-- `set_pending_conv_state`. -/
def setPendingConvState (layer : Fin numLayers)
    (update : RowUpdate (Fin maxSeqs) (Row .conv)) : PagedStateCache numLayers maxSeqs Row :=
  cache.setPending .conv layer update

/-- `set_pending_recurrent_state`. -/
def setPendingRecurrentState (layer : Fin numLayers)
    (update : RowUpdate (Fin maxSeqs) (Row .recurrent)) :
    PagedStateCache numLayers maxSeqs Row :=
  cache.setPending .recurrent layer update

/-- `clear_pending_conv_state`, `clear_pending_recurrent_state`. -/
def clearPending (c : StateComponent) (layer : Fin numLayers) :
    PagedStateCache numLayers maxSeqs Row :=
  cache.modify c layer WriteBack.clear

/-- `apply_pending_conv_state`, `apply_pending_recurrent_state`. -/
def applyPending (c : StateComponent) (layer : Fin numLayers) :
    PagedStateCache numLayers maxSeqs Row :=
  cache.modify c layer WriteBack.flush

/-- `apply_pending_conv_states`, `apply_pending_recurrent_states`. -/
def applyPendingLayers (c : StateComponent) : PagedStateCache numLayers maxSeqs Row :=
  (List.finRange numLayers).foldl (fun cache layer => cache.applyPending c layer) cache

/-- Whether a parked update touches the slots, or no slots are given. -/
def touches {R : Type*} (slotIds : Option (List ℤ))
    (pending : Option (RowUpdate (Fin maxSeqs) R)) : Bool :=
  match slotIds with
  | none => true
  | some slots =>
      match pending with
      | none => false
      | some u => u.ids.any fun s => decide ((s.val : ℤ) ∈ slots)

/-- One round of the loop of `apply_pending_states`. -/
def applyTouched (slotIds : Option (List ℤ)) (layer : Fin numLayers) :
    PagedStateCache numLayers maxSeqs Row :=
  let cache := if touches slotIds (cache.pending .conv layer) then cache.applyPending .conv layer
    else cache
  if touches slotIds (cache.pending .recurrent layer) then cache.applyPending .recurrent layer
  else cache

/-- `apply_pending_states`. -/
def applyPendingStates (slotIds : Option (List ℤ)) : PagedStateCache numLayers maxSeqs Row :=
  (List.finRange numLayers).foldl (fun cache layer => cache.applyTouched slotIds layer) cache

/-! ### Pool writes -/

/-- `write_conv_rows`, `write_recurrent_rows`. -/
def writeRows (c : StateComponent) (layer : Fin numLayers) (rows : List (Row c))
    (ids : List (Fin maxSeqs)) : PagedStateCache numLayers maxSeqs Row :=
  cache.modify c layer fun w => w.write ids rows

/-- One round of the loop of `copy_slots` and `zero_slots`: a write to the pool of every component
of a layer. -/
def writeLayer (layer : Fin numLayers)
    (write : (c : StateComponent) → (Fin maxSeqs → Row c) → Fin maxSeqs → Row c) :
    PagedStateCache numLayers maxSeqs Row :=
  cache.components.foldl (fun cache c =>
    cache.modify c layer fun w => { w with pool := write c w.pool }) cache

/-- The loop of `copy_slots` and `zero_slots`. -/
def writeLayers (layers : LayerIds numLayers)
    (write : (c : StateComponent) → (Fin maxSeqs → Row c) → Fin maxSeqs → Row c) :
    PagedStateCache numLayers maxSeqs Row :=
  layers.ids.foldl (fun cache layer => cache.writeLayer layer write) cache

/-- `copy_slots`: in every layer and component, gather the source rows, then write them to
the destinations. -/
def copySlots (srcIds dstIds : List ℤ) (layers : LayerIds numLayers) :
    Except StateCacheError (PagedStateCache numLayers maxSeqs Row) :=
  if srcIds = [] ∨ layers.ids = [] then .ok cache
  else
    match requireAllocatedSlots maxSeqs srcIds, requireAllocatedSlots maxSeqs dstIds with
    | .error e, _ => .error e
    | _, .error e => .error e
    | .ok src, .ok dst =>
        if src.length ≠ dst.length then .error .oneDstPerRow
        else .ok ((cache.applyPendingStates (some (srcIds ++ dstIds))).writeLayers layers
          fun _ pool => scatter pool dst (src.map pool))

/-- `zero_slots`. -/
def zeroSlots [∀ c, Zero (Row c)] (slotIds : List ℤ) (layers : LayerIds numLayers) :
    Except StateCacheError (PagedStateCache numLayers maxSeqs Row) :=
  if slotIds = [] ∨ layers.ids = [] then .ok cache
  else
    match requireAllocatedSlots maxSeqs slotIds with
    | .error e => .error e
    | .ok slots => .ok ((cache.applyPendingStates (some slotIds)).writeLayers layers
        fun _ pool => scatter pool slots (List.replicate slots.length 0))

/-! ### Decode views -/

/-- `conv_state_for_decode`, `recurrent_state_for_decode`: the pending update itself when its
slots are exactly the given ones, else the pool, to which a pending update of other slots is
written first. -/
def stateForDecode (c : StateComponent) (layer : Fin numLayers) (slotIds : SlotIds maxSeqs) :
    PagedStateCache numLayers maxSeqs Row × GDNDecodeStateView maxSeqs (Row c) :=
  match (cache.pools c layer).parked with
  | none => (cache, decodeStateView (List.ofFn (cache.pools c layer).pool) slotIds false)
  | some pending =>
      if pending.ids = slotIds.ids then (cache, decodeStateView pending.rows slotIds true)
      else
        let cache := cache.applyPending c layer
        (cache, decodeStateView (List.ofFn (cache.pools c layer).pool) slotIds false)

/-- `conv_state_for_decode`. -/
def convStateForDecode (layer : Fin numLayers) (slotIds : SlotIds maxSeqs) :
    PagedStateCache numLayers maxSeqs Row × GDNDecodeStateView maxSeqs (Row .conv) :=
  cache.stateForDecode .conv layer slotIds

/-- `recurrent_state_for_decode`. -/
def recurrentStateForDecode (layer : Fin numLayers) (slotIds : SlotIds maxSeqs) :
    PagedStateCache numLayers maxSeqs Row × GDNDecodeStateView maxSeqs (Row .recurrent) :=
  cache.stateForDecode .recurrent layer slotIds

/-! ### The methods as assignments -/

/-- **Setting a pending update assigns its rows to its slots.** -/
theorem assigns_setPending (c : StateComponent) (layer : Fin numLayers)
    (u : RowUpdate (Fin maxSeqs) (Row c)) :
    Assigns c layer cache (cache.setPending c layer u) u.ids u.rows :=
  .modify (WriteBack.assigns_park _ u)

/-- **Applying a pending update changes nothing.** -/
theorem assigns_applyPending (c : StateComponent) (layer : Fin numLayers) :
    Assigns c layer cache (cache.applyPending c layer) [] [] :=
  .modify (WriteBack.assigns_flush _)

/-- **Writing rows to slots that the layer has not pending assigns them.** -/
theorem assigns_writeRows {c : StateComponent} {layer : Fin numLayers} {rows : List (Row c)}
    {ids : List (Fin maxSeqs)} (hnodup : ids.Nodup) (hlen : rows.length = ids.length)
    (hparks : ∀ s ∈ ids, ¬ (cache.pools c layer).Parks s) :
    Assigns c layer cache (cache.writeRows c layer rows ids) ids rows :=
  .modify (f := fun w => w.write ids rows) (WriteBack.assigns_write _ hnodup hlen hparks)

theorem parked_applyPending (c : StateComponent) (layer : Fin numLayers) :
    ((cache.applyPending c layer).pools c layer).parked = none := by
  rw [applyPending, pools_modify_self, WriteBack.parked_flush]

theorem pool_applyPending (c : StateComponent) (layer : Fin numLayers) :
    ((cache.applyPending c layer).pools c layer).pool = cache.logical c layer := by
  rw [applyPending, pools_modify_self, WriteBack.pool_flush]
  rfl

/-- The next method may be any one of the component and layer. -/
theorem not_parks_applyPending (c : StateComponent) (layer : Fin numLayers) (s : Fin maxSeqs) :
    ¬ ((cache.applyPending c layer).pools c layer).Parks s :=
  WriteBack.not_parks_of_parked_eq_none _ (cache.parked_applyPending c layer) s

theorem pending_applyPending (c c' : StateComponent) (layer layer' : Fin numLayers) :
    (cache.applyPending c layer).pending c' layer' =
      if c' = c ∧ layer' = layer then none else cache.pending c' layer' := by
  split
  · next h =>
    obtain ⟨rfl, rfl⟩ := h
    exact cache.parked_applyPending c' layer'
  · next h => exact cache.pending_modify_of_ne _ (by tauto)

/-! ### The flushes -/

/-- What a loop of flushes leaves alone: the layout, and what the regions hold. -/
structure Flushes (cache cache' : PagedStateCache numLayers maxSeqs Row) : Prop where
  layout : cache'.toStateLayout = cache.toStateLayout
  oneOwner : cache.OneOwner → cache'.OneOwner
  stored : cache.OneOwner → cache'.stored = cache.stored

variable {cache} in
theorem Flushes.trans {cache' cache'' : PagedStateCache numLayers maxSeqs Row}
    (h : Flushes cache cache') (h' : Flushes cache' cache'') : Flushes cache cache'' where
  layout := h'.layout.trans h.layout
  oneOwner hone := h'.oneOwner (h.oneOwner hone)
  stored hone := (h'.stored (h.oneOwner hone)).trans (h.stored hone)

theorem Flushes.refl : Flushes cache cache := ⟨rfl, id, fun _ => rfl⟩

variable {cache} in
/-- A method that assigns nothing. -/
theorem Assigns.flushes {c : StateComponent} {layer : Fin numLayers}
    {cache' : PagedStateCache numLayers maxSeqs Row} (h : Assigns c layer cache cache' [] []) :
    Flushes cache cache' where
  layout := h.only.toStateLayout_eq
  oneOwner hone := oneOwner_of_assigns h hone fun _ hs => absurd hs List.not_mem_nil
  stored hone := by
    funext c' region
    by_cases heq : c' = c ∧ region = cache.regions layer
    · obtain ⟨rfl, rfl⟩ := heq
      rw [stored_of_assigns h hone (fun _ hs => absurd hs List.not_mem_nil) rfl, assign_nil]
    · exact stored_of_assigns_of_ne h (by tauto)

/-- A loop over layers whose rounds flush. -/
theorem flushes_foldl
    {g : PagedStateCache numLayers maxSeqs Row → Fin numLayers →
      PagedStateCache numLayers maxSeqs Row}
    (hg : ∀ cache layer, Flushes cache (g cache layer)) (layers : List (Fin numLayers)) :
    Flushes cache (layers.foldl g cache) := by
  induction layers generalizing cache with
  | nil => exact .refl cache
  | cons layer layers ih => exact (hg cache layer).trans (ih (g cache layer))

/-- A loop over distinct layers whose rounds change the updates of their own layer alone. -/
theorem pending_foldl_layers
    {g : PagedStateCache numLayers maxSeqs Row → Fin numLayers →
      PagedStateCache numLayers maxSeqs Row}
    {f : (c : StateComponent) →
      Option (RowUpdate (Fin maxSeqs) (Row c)) → Option (RowUpdate (Fin maxSeqs) (Row c))}
    {layers : List (Fin numLayers)} (hnodup : layers.Nodup)
    (hg : ∀ cache layer c layer', (g cache layer).pending c layer' =
      if layer' = layer then f c (cache.pending c layer') else cache.pending c layer')
    (c : StateComponent) (layer' : Fin numLayers) :
    (layers.foldl g cache).pending c layer' =
      if layer' ∈ layers then f c (cache.pending c layer') else cache.pending c layer' := by
  induction layers generalizing cache with
  | nil => simp
  | cons layer layers ih =>
    obtain ⟨hnotin, hnodup⟩ := List.nodup_cons.mp hnodup
    rw [List.foldl_cons, ih (g cache layer) hnodup, hg cache layer]
    by_cases heq : layer' = layer
    · subst heq
      simp [hnotin]
    · simp [heq]

theorem flushes_applyTouched (slotIds : Option (List ℤ)) (layer : Fin numLayers) :
    Flushes cache (cache.applyTouched slotIds layer) := by
  have happly : ∀ (cache : PagedStateCache numLayers maxSeqs Row) (c : StateComponent)
      (apply : Bool), Flushes cache (if apply then cache.applyPending c layer else cache) := by
    intro cache c apply
    cases apply with
    | false => exact .refl cache
    | true => exact (cache.assigns_applyPending c layer).flushes
  exact (happly cache .conv _).trans (happly _ .recurrent _)

theorem pending_applyTouched (slotIds : Option (List ℤ)) (layer layer' : Fin numLayers)
    (c : StateComponent) :
    (cache.applyTouched slotIds layer).pending c layer' =
      if layer' = layer then
        if touches slotIds (cache.pending c layer') then none else cache.pending c layer'
      else cache.pending c layer' := by
  have hrec : (if touches slotIds (cache.pending .conv layer) then
      cache.applyPending .conv layer else cache).pending .recurrent layer =
        cache.pending .recurrent layer := by
    split
    · exact cache.pending_modify_of_ne _ (Or.inl (by decide))
    · rfl
  simp only [applyTouched, hrec]
  by_cases heq : layer' = layer
  · subst heq
    cases c <;>
      by_cases h₁ : touches slotIds (cache.pending .conv layer') <;>
      by_cases h₂ : touches slotIds (cache.pending .recurrent layer') <;>
      simp [h₁, h₂, pending_applyPending]
  · by_cases h₁ : touches slotIds (cache.pending .conv layer) <;>
      by_cases h₂ : touches slotIds (cache.pending .recurrent layer) <;>
      simp [h₁, h₂, pending_applyPending, heq]

/-- **`apply_pending_states` leaves what the regions hold**, -/
theorem flushes_applyPendingStates (slotIds : Option (List ℤ)) :
    Flushes cache (cache.applyPendingStates slotIds) :=
  cache.flushes_foldl (fun cache layer => cache.flushes_applyTouched slotIds layer) _

/-- **and no update pending that it touches.** -/
theorem pending_applyPendingStates (slotIds : Option (List ℤ)) (c : StateComponent)
    (layer : Fin numLayers) :
    (cache.applyPendingStates slotIds).pending c layer =
      if touches slotIds (cache.pending c layer) then none else cache.pending c layer := by
  rw [applyPendingStates, cache.pending_foldl_layers
    (f := fun _ pending => if touches slotIds pending then none else pending)
    (List.nodup_finRange numLayers)
    (fun cache layer c layer' => cache.pending_applyTouched slotIds layer layer' c),
    if_pos (List.mem_finRange layer)]

theorem flushes_applyPendingLayers (c : StateComponent) :
    Flushes cache (cache.applyPendingLayers c) :=
  cache.flushes_foldl (fun cache layer => (cache.assigns_applyPending c layer).flushes) _

/-- After `apply_pending_states`, no update is parked for any of the slots. -/
theorem not_parks_applyPendingStates {slotIds : List ℤ} {s : Fin maxSeqs}
    (hs : (s.val : ℤ) ∈ slotIds) (c : StateComponent) (layer : Fin numLayers) :
    ¬ ((cache.applyPendingStates (some slotIds)).pools c layer).Parks s := by
  rintro ⟨u, hu, hmem⟩
  have hu : (cache.applyPendingStates (some slotIds)).pending c layer = some u := hu
  rw [pending_applyPendingStates] at hu
  split at hu
  · cases hu
  · next htouch =>
    refine htouch ?_
    simp only [touches, hu, List.any_eq_true, decide_eq_true_eq]
    exact ⟨s, hmem, hs⟩

/-- After `apply_pending_states` without slots, no update is parked. -/
theorem pending_applyPendingStates_none (c : StateComponent) (layer : Fin numLayers) :
    (cache.applyPendingStates none).pending c layer = none := by
  rw [pending_applyPendingStates]
  exact if_pos rfl

/-! ### The writes to the layers of a group -/

theorem writeLayer_spec (layer : Fin numLayers)
    (write : (c : StateComponent) → (Fin maxSeqs → Row c) → Fin maxSeqs → Row c) :
    (cache.writeLayer layer write).toStateLayout = cache.toStateLayout ∧
      (cache.writeLayer layer write).pending = cache.pending ∧
      ∀ c region, (cache.writeLayer layer write).buffers c region =
        if c ∈ cache.components ∧ region = cache.regions layer then
          write c (cache.buffers c region) else cache.buffers c region := by
  have hpending : ∀ (cache : PagedStateCache numLayers maxSeqs Row) (c : StateComponent),
      (cache.modify c layer fun w => { w with pool := write c w.pool }).pending =
        cache.pending := by
    intro cache c
    simp [modify, pools]
  have hbuffers : ∀ (cache : PagedStateCache numLayers maxSeqs Row) (c c' : StateComponent)
      (region : ℕ), (cache.modify c layer fun w => { w with pool := write c w.pool }).buffers
        c' region = if c' = c ∧ region = cache.regions layer then
          write c' (cache.buffers c' region) else cache.buffers c' region := by
    intro cache c c' region
    split
    · next h =>
      obtain ⟨rfl, rfl⟩ := h
      simp [modify, pools]
    · next h => exact cache.buffers_modify_of_ne _ (by tauto)
  rw [writeLayer, StateLayout.components]
  split
  · simp only [List.foldl_cons, List.foldl_nil, hpending, hbuffers]
    refine ⟨rfl, trivial, fun c region => ?_⟩
    by_cases hregion : region = cache.regions layer <;> cases c <;>
      simp [hregion]
  · simp only [List.foldl_cons, List.foldl_nil, hpending, hbuffers]
    refine ⟨rfl, trivial, fun c region => ?_⟩
    by_cases hregion : region = cache.regions layer <;> cases c <;> simp [hregion]

/-- **A write to the layers changes the buffer of each of their regions**, once for each of the
layers on it. -/
theorem writeLayers_spec (layers : LayerIds numLayers)
    (write : (c : StateComponent) → (Fin maxSeqs → Row c) → Fin maxSeqs → Row c) :
    (cache.writeLayers layers write).toStateLayout = cache.toStateLayout ∧
      (cache.writeLayers layers write).pending = cache.pending ∧
      ∀ c region, (cache.writeLayers layers write).buffers c region =
        if c ∈ cache.components then
          (write c)^[(layers.ids.map cache.regions).count region] (cache.buffers c region)
        else cache.buffers c region := by
  rw [writeLayers]
  generalize layers.ids = ids
  induction ids generalizing cache with
  | nil => simp
  | cons layer ids ih =>
    obtain ⟨hlayout, hpending, hbuffers⟩ := cache.writeLayer_spec layer write
    obtain ⟨hlayout', hpending', hbuffers'⟩ := ih (cache.writeLayer layer write)
    rw [List.foldl_cons]
    refine ⟨hlayout'.trans hlayout, hpending'.trans hpending, fun c region => ?_⟩
    rw [hbuffers', hlayout, hbuffers, List.map_cons, List.count_cons]
    by_cases hc : c ∈ cache.components
    · by_cases hregion : region = cache.regions layer
      · subst hregion
        simp [hc, Function.iterate_succ_apply]
      · have hne : ¬ cache.regions layer = region := fun heq => hregion heq.symm
        simp [hc, hregion, hne]
    · simp [hc]

/-! ### What a decode launch reads -/

/-- **Every way `*_state_for_decode` can end**: with the pending update of exactly the given
slots, or with the pool, nothing being left pending. -/
theorem stateForDecode_cases (c : StateComponent) (layer : Fin numLayers)
    (slotIds : SlotIds maxSeqs) :
    (∃ u, (cache.pools c layer).parked = some u ∧ u.ids = slotIds.ids ∧
      cache.stateForDecode c layer slotIds = (cache, decodeStateView u.rows slotIds true)) ∨
    cache.stateForDecode c layer slotIds = (cache.applyPending c layer,
      decodeStateView (List.ofFn (cache.logical c layer)) slotIds false) := by
  rw [stateForDecode, logical]
  split
  · next hnone =>
    refine Or.inr ?_
    rw [applyPending, modify_eq_self _ (WriteBack.flush_of_parked_eq_none _ hnone),
      WriteBack.value_of_parked_eq_none _ hnone]
  · next pending hsome =>
    split
    · next hids => exact Or.inl ⟨pending, hsome, hids, rfl⟩
    · refine Or.inr ?_
      simp only [applyPending, pools_modify_self, WriteBack.pool_flush]

/-- **A decode view reads the logical rows.** -/
theorem rows_stateForDecode (c : StateComponent) (layer : Fin numLayers)
    (slotIds : SlotIds maxSeqs) :
    (cache.stateForDecode c layer slotIds).2.rows = slotIds.ids.map (cache.logical c layer) := by
  obtain ⟨u, hsome, hids, heq⟩ | heq := cache.stateForDecode_cases c layer slotIds
  · rw [heq, rows_decodeStateView_compact (u.length_eq.trans (congrArg _ hids)), logical,
      WriteBack.value_of_parked_eq_some _ hsome, ← hids]
    exact (map_assign_ids u.nodup u.length_eq).symm
  · rw [heq]
    exact rows_decodeStateView_pool _ _

/-- A decode view changes nothing. -/
theorem assigns_stateForDecode (c : StateComponent) (layer : Fin numLayers)
    (slotIds : SlotIds maxSeqs) :
    Assigns c layer cache (cache.stateForDecode c layer slotIds).1 [] [] := by
  obtain ⟨u, -, -, heq⟩ | heq := cache.stateForDecode_cases c layer slotIds
  · rw [heq]
    exact .refl cache c layer
  · rw [heq]
    exact cache.assigns_applyPending c layer

end PagedStateCache
end State
end VllmMetal
