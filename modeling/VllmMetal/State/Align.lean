import VllmMetal.Runner.Request
import VllmMetal.State.GdnAcceptance

/-!
# The align-mode state manager

In align mode the state slab of a request is the block that covers its last token.  Before a
forward, `populateStepContext` moves the state of every request of the step into the block in
which the step will end: a fresh request is zeroed, a request that enters a new block is
copied forward, and the slab it leaves behind stays as a checkpoint.

## Main definitions

* `planRequest`, `planGroup` — the motion of each request of a step in one group.
* `AlignStateManager.populateStepContext` and the other methods of the manager.

## Main results

* `planGroup_spec` — what a plan says of each request.
* `stored_moveGroup` — the motions of a group, on what the regions hold.
* `stored_populateStepContext` — **the whole step**.
-/

namespace VllmMetal
namespace State

/-! ### The plan of a step -/

/-- `mamba_cache_mode`. -/
inductive MambaCacheMode where
  | none
  | align
  deriving DecidableEq

/-- The errors of `populate_step_context`. -/
inductive AlignError where
  /-- "align-mode state requires per-request mamba block ids and (num_computed,
  num_scheduled) step positions". -/
  | missingTables
  /-- "align state manager requires block ids and step positions for every request (got …
  tables / … positions for … requests)". -/
  | lengths (tables positions requests : ℕ)
  /-- `state_block_ids[req_idx][group]`. -/
  | groupIndex (group : ℕ)
  /-- "align state manager: request … scheduled … tokens". -/
  | scheduled (reqId : ReqId) (numScheduled : ℕ)
  /-- "align state manager: request … needs state block index … but its mamba block table
  has … entries". -/
  | tableTooShort (reqId : ReqId) (dstIdx entries : ℕ)
  /-- An error of the state cache. -/
  | cache (e : StateCacheError)
  /-- An error of the forward or of the acceptance. -/
  | gdn (e : GDNError)
  deriving DecidableEq

/-- What happens to the destination slab of a request before the forward. -/
inductive StateMotion where
  /-- It is zeroed, -/
  | zero
  /-- it already holds the state, -/
  | keep
  /-- or the state is copied into it. -/
  | copy (src : ℤ)
  deriving DecidableEq

/-- A request of a step: its block tables, one row for each group, and its position. -/
structure StepRequest where
  reqId : ReqId
  stateBlockIds : List (List ℤ)
  numComputed : ℕ
  numScheduled : ℕ

/-- The block in which a step ends. -/
def dstIndex (blockSize numComputed numScheduled : ℕ) : ℕ :=
  (numComputed + numScheduled - 1) / blockSize

/-- One round of the loop over the requests: the destination slab and its motion. -/
def planRequest (blockSize group : ℕ) (request : StepRequest) :
    Except AlignError (ℤ × StateMotion) :=
  match request.stateBlockIds[group]? with
  | none => .error (.groupIndex group)
  | some row =>
      if request.numScheduled = 0 then
        .error (.scheduled request.reqId request.numScheduled)
      else
        let dstIdx := dstIndex blockSize request.numComputed request.numScheduled
        match row[dstIdx]? with
        | none => .error (.tableTooShort request.reqId dstIdx row.length)
        | some dst =>
            if request.numComputed = 0 then .ok (dst, .zero)
            else
              let srcIdx := (request.numComputed - 1) / blockSize
              -- the source stands no later in the row than the destination
              let src := row.getD srcIdx dst
              if src = dst then .ok (dst, .keep) else .ok (dst, .copy src)

/-- The loop over the requests. -/
def planGroup (blockSize group : ℕ) :
    List StepRequest → Except AlignError (List (ℤ × StateMotion))
  | [] => .ok []
  | request :: requests =>
      match planRequest blockSize group request with
      | .error e => .error e
      | .ok motion =>
          match planGroup blockSize group requests with
          | .error e => .error e
          | .ok motions => .ok (motion :: motions)

/-- `zero_ids`. -/
def zeroIds (motions : List (ℤ × StateMotion)) : List ℤ :=
  motions.filterMap fun p => match p.2 with
    | .zero => some p.1
    | _ => none

/-- The pairs of `copy_src` and `copy_dst`. -/
def copyPairs (motions : List (ℤ × StateMotion)) : List (ℤ × ℤ) :=
  motions.filterMap fun p => match p.2 with
    | .copy src => some (src, p.1)
    | _ => none

/-- `copy_src`. -/
def copySrc (motions : List (ℤ × StateMotion)) : List ℤ := (copyPairs motions).map Prod.fst

/-- `copy_dst`. -/
def copyDst (motions : List (ℤ × StateMotion)) : List ℤ := (copyPairs motions).map Prod.snd

/-- `dst_ids`. -/
def dstIds (motions : List (ℤ × StateMotion)) : List ℤ := motions.map Prod.fst

theorem mem_zeroIds {motions : List (ℤ × StateMotion)} {b : ℤ} :
    b ∈ zeroIds motions ↔ (b, StateMotion.zero) ∈ motions := by
  simp only [zeroIds, List.mem_filterMap]
  constructor
  · rintro ⟨⟨dst, motion⟩, hmem, h⟩
    cases motion with
    | zero =>
      cases h
      exact hmem
    | keep => cases h
    | copy src => cases h
  · intro h
    exact ⟨_, h, rfl⟩

theorem mem_copyPairs {motions : List (ℤ × StateMotion)} {src dst : ℤ} :
    (src, dst) ∈ copyPairs motions ↔ (dst, StateMotion.copy src) ∈ motions := by
  simp only [copyPairs, List.mem_filterMap]
  constructor
  · rintro ⟨⟨dst', motion⟩, hmem, h⟩
    cases motion with
    | zero => cases h
    | keep => cases h
    | copy src' =>
      cases h
      exact hmem
  · intro h
    exact ⟨_, h, rfl⟩

/-- The copies go to some of the destinations, in their order. -/
theorem sublist_copyDst (motions : List (ℤ × StateMotion)) :
    (copyDst motions).Sublist (dstIds motions) := by
  induction motions with
  | nil => exact .slnil
  | cons p motions ih =>
    obtain ⟨dst, motion⟩ := p
    cases motion with
    | zero => exact ih.cons _
    | keep => exact ih.cons _
    | copy src => exact ih.cons_cons _

theorem mem_dstIds {motions : List (ℤ × StateMotion)} {b : ℤ} :
    b ∈ dstIds motions ↔ ∃ motion, (b, motion) ∈ motions := by
  simp [dstIds]

/-- Distinct destinations have one motion each. -/
theorem motion_unique {motions : List (ℤ × StateMotion)} (hnodup : (dstIds motions).Nodup)
    {b : ℤ} {motion motion' : StateMotion} (h : (b, motion) ∈ motions)
    (h' : (b, motion') ∈ motions) : motion = motion' :=
  congrArg Prod.snd (List.inj_on_of_nodup_map hnodup h h' rfl)

/-- **What the plan of one request says.** -/
structure RequestPlanned (blockSize group : ℕ) (request : StepRequest) (dst : ℤ)
    (motion : StateMotion) : Prop where
  scheduled : 0 < request.numScheduled
  /-- The destination is the block in which the step ends, -/
  destination : ∃ row, request.stateBlockIds[group]? = some row ∧
    row[dstIndex blockSize request.numComputed request.numScheduled]? = some dst
  /-- a fresh request is zeroed, -/
  fresh : motion = .zero ↔ request.numComputed = 0
  /-- any other keeps the block of its last token or copies it forward. -/
  source : request.numComputed ≠ 0 → ∃ row src, request.stateBlockIds[group]? = some row ∧
    row[(request.numComputed - 1) / blockSize]? = some src ∧
    (motion = .keep ∧ src = dst ∨ motion = .copy src ∧ src ≠ dst)

theorem planRequest_spec {blockSize group : ℕ} {request : StepRequest} {dst : ℤ}
    {motion : StateMotion} (h : planRequest blockSize group request = .ok (dst, motion)) :
    RequestPlanned blockSize group request dst motion := by
  rw [planRequest] at h
  cases hrow : request.stateBlockIds[group]? with
  | none =>
    rw [hrow] at h
    cases h
  | some row =>
    rw [hrow] at h
    simp only at h
    split at h
    · cases h
    · next hscheduled =>
      have hpos : 0 < request.numScheduled := Nat.pos_of_ne_zero hscheduled
      split at h
      · cases h
      · next b hdst =>
        obtain ⟨hlt, -⟩ := List.getElem?_eq_some_iff.mp hdst
        split at h
        · next hzero =>
          cases h
          exact ⟨hpos, ⟨row, hrow, hdst⟩, iff_of_true rfl hzero, fun hne => absurd hzero hne⟩
        · next hne =>
          -- the source stands before the destination, so the row has it
          have hle : (request.numComputed - 1) / blockSize ≤
              dstIndex blockSize request.numComputed request.numScheduled :=
            Nat.div_le_div_right (by omega)
          have hsrc := List.getElem?_eq_getElem (Nat.lt_of_le_of_lt hle hlt)
          rw [List.getD_eq_getElem?_getD, hsrc, Option.getD_some] at h
          split at h
          · next heq =>
            cases h
            exact ⟨hpos, ⟨row, hrow, hdst⟩, iff_of_false (by simp) hne,
              fun _ => ⟨row, _, hrow, hsrc, Or.inl ⟨rfl, heq⟩⟩⟩
          · next hsrcne =>
            cases h
            exact ⟨hpos, ⟨row, hrow, hdst⟩, iff_of_false (by simp) hne,
              fun _ => ⟨row, _, hrow, hsrc, Or.inr ⟨rfl, hsrcne⟩⟩⟩

/-- **A plan has the motion of every request, in their order.** -/
theorem planGroup_spec {blockSize group : ℕ} {requests : List StepRequest}
    {motions : List (ℤ × StateMotion)} (h : planGroup blockSize group requests = .ok motions) :
    List.Forall₂ (fun request p => RequestPlanned blockSize group request p.1 p.2)
      requests motions := by
  induction requests generalizing motions with
  | nil =>
    cases h
    exact .nil
  | cons request requests ih =>
    rw [planGroup] at h
    cases hmotion : planRequest blockSize group request with
    | error e =>
      rw [hmotion] at h
      cases h
    | ok motion =>
      rw [hmotion] at h
      cases hrest : planGroup blockSize group requests with
      | error e =>
        rw [hrest] at h
        cases h
      | ok rest =>
        rw [hrest] at h
        cases h
        exact .cons (planRequest_spec hmotion) (ih hrest)

/-! ### The manager -/

/-- `AlignStateManager`, beside the cache it drives. -/
structure AlignStateManager where
  blockSize : ℕ
  mambaCacheMode : MambaCacheMode
  needsMaterialize : Bool

variable {numLayers maxSeqs : ℕ} {Row : StateComponent → Type*}

namespace AlignStateManager

section Methods

variable (manager : AlignStateManager) (cache : PagedStateCache numLayers maxSeqs Row)

/-- `checkpoint_stride`. -/
def checkpointStride : Option ℕ :=
  if manager.mambaCacheMode = .align then some manager.blockSize else none

/-- `release_requests`. -/
def releaseRequests (reqIds : List ReqId) : AlignStateManager :=
  { manager with needsMaterialize := manager.needsMaterialize || !reqIds.isEmpty }

/-- `materialize_pending_state`. -/
def materializePendingState : AlignStateManager × PagedStateCache numLayers maxSeqs Row :=
  if manager.needsMaterialize then
    ({ manager with needsMaterialize := false }, cache.applyPendingStates none)
  else (manager, cache)

/-- Materializing leaves what the regions hold, -/
theorem flushes_materializePendingState :
    PagedStateCache.Flushes cache (manager.materializePendingState cache).2 := by
  rw [materializePendingState]
  split
  · exact cache.flushes_applyPendingStates none
  · exact .refl cache

/-- and the settings. -/
theorem settings_materializePendingState :
    (manager.materializePendingState cache).1.blockSize = manager.blockSize ∧
      (manager.materializePendingState cache).1.mambaCacheMode = manager.mambaCacheMode := by
  rw [materializePendingState]
  split <;> exact ⟨rfl, rfl⟩

variable [∀ c, Zero (Row c)]

/-- One round of the loop over the groups: zero, then copy. -/
def moveGroup (group : ℕ) (motions : List (ℤ × StateMotion)) :
    Except StateCacheError (PagedStateCache numLayers maxSeqs Row) :=
  let layerIndices := cache.layersForGroupOrdinal group
  match cache.zeroSlots (zeroIds motions) layerIndices with
  | .error e => .error e
  | .ok cache => cache.copySlots (copySrc motions) (copyDst motions) layerIndices

/-- The loop over the groups: the cache and the destination of every request. -/
def moveGroups (blockSize : ℕ) (requests : List StepRequest) :
    List ℕ → PagedStateCache numLayers maxSeqs Row →
      Except AlignError (PagedStateCache numLayers maxSeqs Row × List (List ℤ))
  | [], cache => .ok (cache, [])
  | group :: groups, cache =>
      match planGroup blockSize group requests with
      | .error e => .error e
      | .ok motions =>
          match moveGroup cache group motions with
          | .error e => .error (.cache e)
          | .ok cache =>
              match moveGroups blockSize requests groups cache with
              | .error e => .error e
              | .ok (cache, mappings) => .ok (cache, dstIds motions :: mappings)

/-- The requests of a step, from their ids, their block tables and their positions. -/
def stepRequests (reqIds : List ReqId) (tables : List (List (List ℤ)))
    (positions : List (ℕ × ℕ)) : List StepRequest :=
  (reqIds.zip (tables.zip positions)).map fun p =>
    { reqId := p.1, stateBlockIds := p.2.1, numComputed := p.2.2.1, numScheduled := p.2.2.2 }

/-- `populate_step_context`: the cache, the `state_group_slot_mappings` of the context and the
manager after it. -/
def populateStepContext (reqIds : List ReqId) (stateBlockIds : Option (List (List (List ℤ))))
    (stepPositions : Option (List (ℕ × ℕ))) :
    Except AlignError
      (AlignStateManager × PagedStateCache numLayers maxSeqs Row × List (List ℤ)) :=
  match stateBlockIds, stepPositions with
  | some tables, some positions =>
      if tables.length = positions.length ∧ positions.length = reqIds.length then
        let numGroups := (tables.headD []).length
        let align := decide (manager.mambaCacheMode = .align)
        let cache := if align then cache.applyPendingStates none else cache
        match moveGroups manager.blockSize (stepRequests reqIds tables positions)
            (List.range numGroups) cache with
        | .error e => .error e
        | .ok (cache, mappings) => .ok
            ({ manager with needsMaterialize := manager.needsMaterialize || align }, cache,
              mappings)
      else .error (.lengths tables.length positions.length reqIds.length)
  | _, _ => .error .missingTables

end Methods

/-! ### The motions on what the regions hold -/

section Motions

/-- What a motion does to the slabs of one component on one region. -/
structure Moved {R : Type*} [Zero R] (motions : List (ℤ × StateMotion))
    (m m' : Fin maxSeqs → R) : Prop where
  zero : ∀ s : Fin maxSeqs, ((s : ℤ), StateMotion.zero) ∈ motions → m' s = 0
  keep : ∀ s : Fin maxSeqs, ((s : ℤ), StateMotion.keep) ∈ motions → m' s = m s
  copy : ∀ (s : Fin maxSeqs) (src : ℤ), ((s : ℤ), StateMotion.copy src) ∈ motions →
    ∃ t : Fin maxSeqs, src = t ∧ m' s = m t

/-- A change of slabs that are no destinations may follow, -/
theorem Moved.followed {R : Type*} [Zero R] {motions : List (ℤ × StateMotion)}
    {m m' m'' : Fin maxSeqs → R} (h : Moved motions m m')
    (h' : ∀ s : Fin maxSeqs, (s : ℤ) ∈ dstIds motions → m'' s = m' s) : Moved motions m m'' where
  zero s hs := (h' s (mem_dstIds.mpr ⟨_, hs⟩)).trans (h.zero s hs)
  keep s hs := (h' s (mem_dstIds.mpr ⟨_, hs⟩)).trans (h.keep s hs)
  copy s src hs := by
    obtain ⟨t, ht, heq⟩ := h.copy s src hs
    exact ⟨t, ht, (h' s (mem_dstIds.mpr ⟨_, hs⟩)).trans heq⟩

/-- and one of slabs that are neither destinations nor sources may come before. -/
theorem Moved.preceded {R : Type*} [Zero R] {motions : List (ℤ × StateMotion)}
    {m m' m'' : Fin maxSeqs → R} (h : Moved motions m' m'')
    (h' : ∀ s : Fin maxSeqs, (s : ℤ) ∈ dstIds motions ∨ (s : ℤ) ∈ copySrc motions →
      m' s = m s) : Moved motions m m'' where
  zero := h.zero
  keep s hs := (h.keep s hs).trans (h' s (Or.inl (mem_dstIds.mpr ⟨_, hs⟩)))
  copy s src hs := by
    obtain ⟨t, rfl, heq⟩ := h.copy s src hs
    exact ⟨t, rfl, heq.trans (h' t (Or.inr (List.mem_map_of_mem (mem_copyPairs.mpr hs))))⟩

variable {cache cache' : PagedStateCache numLayers maxSeqs Row}

/-- The ids of validated slots. -/
theorem mem_of_requireAllocatedSlots {slotIds : List ℤ} {slots : List (Fin maxSeqs)}
    (h : requireAllocatedSlots maxSeqs slotIds = .ok slots) {s : Fin maxSeqs} :
    s ∈ slots ↔ (s : ℤ) ∈ slotIds := by
  rw [← requireAllocatedSlots_ok h, List.mem_map]
  refine ⟨fun hs => ⟨s, hs, rfl⟩, ?_⟩
  rintro ⟨t, ht, heq⟩
  obtain rfl : t = s := Fin.ext (Int.ofNat.inj heq)
  exact ht

/-- `zero_slots`, slot by slot. -/
theorem stored_of_zeroSlots [∀ c, Zero (Row c)] {slotIds : List ℤ} {layers : LayerIds numLayers}
    (h : cache.zeroSlots slotIds layers = .ok cache') (hone : cache.OneOwner)
    (c : StateComponent) (region : ℕ) (s : Fin maxSeqs) :
    cache'.stored c region s =
      if region ∈ layers.ids.map cache.regions ∧ c ∈ cache.components ∧ (s : ℤ) ∈ slotIds then 0
      else cache.stored c region s := by
  have hstored := PagedStateCache.stored_zeroSlots hone slotIds layers
  rw [h, EagerState.zeroSlots] at hstored
  split at hstored
  · next hempty =>
    have heq : cache'.stored = cache.stored := Except.ok.inj hstored
    rw [heq, if_neg]
    rintro ⟨hregion, -, hs⟩
    rcases hempty with hempty | hempty
    · rw [hempty] at hs
      exact List.not_mem_nil hs
    · rw [hempty] at hregion
      exact List.not_mem_nil hregion
  · cases hslots : requireAllocatedSlots maxSeqs slotIds with
    | error e =>
      rw [hslots] at hstored
      cases hstored
    | ok slots =>
      rw [hslots] at hstored
      have heq : cache'.stored = cache.stored.zeroed cache.toStateLayout slots layers :=
        Except.ok.inj hstored
      simp only [heq, EagerState.zeroed, mem_of_requireAllocatedSlots hslots]

/-- `copy_slots`, slot by slot. -/
theorem stored_of_copySlots {srcIds dstIds : List ℤ} {layers : LayerIds numLayers}
    (h : cache.copySlots srcIds dstIds layers = .ok cache') (hone : cache.OneOwner)
    (hnodup : dstIds.Nodup) (hregions : (layers.ids.map cache.regions).Nodup)
    (hlen : srcIds.length = dstIds.length) (c : StateComponent) (region : ℕ) :
    (∀ s : Fin maxSeqs, region ∉ layers.ids.map cache.regions ∨ (s : ℤ) ∉ dstIds →
      cache'.stored c region s = cache.stored c region s) ∧
    (region ∈ layers.ids.map cache.regions → c ∈ cache.components →
      ∀ (i : ℕ) (src : ℤ) (s : Fin maxSeqs),
        srcIds[i]? = some src → dstIds[i]? = some (s : ℤ) →
        ∃ t : Fin maxSeqs, src = t ∧ cache'.stored c region s = cache.stored c region t) := by
  have hstored : (cache.copySlots srcIds dstIds layers).map PagedStateCache.stored = _ :=
    PagedStateCache.stored_copySlots hone hnodup hregions
  rw [h, EagerState.copySlots] at hstored
  split at hstored
  -- nothing is copied when one side is empty
  · next hempty =>
    have heq : cache'.stored = cache.stored := Except.ok.inj hstored
    refine ⟨fun s _ => by rw [heq], fun hregion _ i src s hsrc _ => ?_⟩
    rcases hempty with hempty | hempty
    · simp [hempty] at hsrc
    · simp [hempty] at hregion
  · cases hsrcs : requireAllocatedSlots maxSeqs srcIds with
    | error e =>
      rw [hsrcs] at hstored
      cases hstored
    | ok srcs =>
      cases hdsts : requireAllocatedSlots maxSeqs dstIds with
      | error e =>
        rw [hsrcs, hdsts] at hstored
        cases hstored
      | ok dsts =>
        rw [hsrcs, hdsts] at hstored
        have hsrcs' := requireAllocatedSlots_ok hsrcs
        have hdsts' := requireAllocatedSlots_ok hdsts
        have hlen' : srcs.length = dsts.length := by
          rw [← hsrcs', ← hdsts', List.length_map, List.length_map] at hlen
          exact hlen
        simp only [hlen', ne_eq, not_true_eq_false, if_false] at hstored
        have heq : cache'.stored = cache.stored.copied cache.toStateLayout srcs dsts layers :=
          Except.ok.inj hstored
        -- the ids are valid, and the copy is the assignment of the sources' rows
        refine ⟨fun s hs => ?_, fun hregion hc i src s hsrc hdst => ?_⟩
        · rw [heq, EagerState.copied]
          split
          · next hmem =>
            refine assign_of_not_mem (by simpa using hlen') fun hsmem => ?_
            rcases hs with hs | hs
            · exact hs hmem.1
            · exact hs ((mem_of_requireAllocatedSlots hdsts).mp hsmem)
          · rfl
        · rw [← hsrcs', List.getElem?_map, Option.map_eq_some_iff] at hsrc
          rw [← hdsts', List.getElem?_map, Option.map_eq_some_iff] at hdst
          obtain ⟨t, ht, rfl⟩ := hsrc
          obtain ⟨s', hs', heqs⟩ := hdst
          obtain rfl : s' = s := Fin.ext (Int.ofNat.inj heqs)
          refine ⟨t, rfl, ?_⟩
          rw [heq, EagerState.copied, if_pos ⟨hregion, hc⟩]
          exact assign_of_getElem? (List.Nodup.of_map _ (hdsts' ▸ hnodup)) hs' (by simp [ht])

/-- The layers of a group are on regions of their own. -/
theorem nodup_regions_layersForGroupOrdinal (ordinal : ℕ) :
    ((cache.layersForGroupOrdinal ordinal).ids.map cache.regions).Nodup := by
  refine (cache.layersForGroupOrdinal ordinal).nodup.map_on fun layer hl layer' hl' heq => ?_
  rw [PagedStateCache.mem_layersForGroupOrdinal] at hl hl'
  exact cache.regions_inj layer layer' (hl.trans hl'.symm) heq

theorem mem_regions_layersForGroupOrdinal {ordinal region : ℕ} :
    region ∈ (cache.layersForGroupOrdinal ordinal).ids.map cache.regions ↔
      ∃ layer, cache.layerGroupOrdinal layer = ordinal ∧ cache.regions layer = region := by
  simp only [List.mem_map, PagedStateCache.mem_layersForGroupOrdinal]

variable [∀ c, Zero (Row c)]

theorem settles_moveGroup {group : ℕ} {motions : List (ℤ × StateMotion)}
    (h : moveGroup cache group motions = .ok cache') : PagedStateCache.Settles cache cache' := by
  rw [moveGroup] at h
  cases hzero : cache.zeroSlots (zeroIds motions) (cache.layersForGroupOrdinal group) with
  | error e =>
    rw [hzero] at h
    cases h
  | ok zeroed =>
    rw [hzero] at h
    have hzeroed := PagedStateCache.settles_zeroSlots hzero
    have hcopied := PagedStateCache.settles_copySlots h
    exact ⟨hcopied.layout.trans hzeroed.layout,
      fun hone => hcopied.oneOwner (hzeroed.oneOwner hone),
      fun hidle => hcopied.idle (hzeroed.idle hidle)⟩

/-- **The motions of a group move the slabs on the regions of its layers and no others.** -/
theorem stored_moveGroup {group : ℕ} {motions : List (ℤ × StateMotion)}
    (h : moveGroup cache group motions = .ok cache') (hone : cache.OneOwner)
    (hnodup : (dstIds motions).Nodup) (hsrc : ∀ src ∈ copySrc motions, src ∉ zeroIds motions)
    {c : StateComponent} (hc : c ∈ cache.components) :
    (∀ layer, cache.layerGroupOrdinal layer = group →
      Moved motions (cache.stored c (cache.regions layer))
        (cache'.stored c (cache.regions layer))) ∧
    ∀ (region : ℕ) (s : Fin maxSeqs),
      (∀ layer, cache.layerGroupOrdinal layer = group → cache.regions layer = region →
        (s : ℤ) ∉ dstIds motions) → cache'.stored c region s = cache.stored c region s := by
  rw [moveGroup] at h
  cases hzero : cache.zeroSlots (zeroIds motions) (cache.layersForGroupOrdinal group) with
  | error e =>
    rw [hzero] at h
    cases h
  | ok zeroed =>
    rw [hzero] at h
    have hsettles := PagedStateCache.settles_zeroSlots hzero
    have hregions : zeroed.regions = cache.regions :=
      congrArg StateLayout.regions hsettles.layout
    have hzeroed := fun region s => stored_of_zeroSlots hzero hone c region s
    have hcopies := fun region => stored_of_copySlots h (hsettles.oneOwner hone)
      ((sublist_copyDst motions).nodup hnodup)
      (by rw [hregions]; exact nodup_regions_layersForGroupOrdinal group)
      (by simp [copySrc, copyDst]) c region
    rw [hregions, hsettles.layout] at hcopies
    -- a slab that nothing is copied into is what zeroing has left
    have hnotCopied : ∀ (s : Fin maxSeqs) motion, ((s : ℤ), motion) ∈ motions →
        (∀ src, motion ≠ .copy src) → (s : ℤ) ∉ copyDst motions := by
      intro s motion hmotion hne hs
      obtain ⟨⟨src, dst⟩, hpair, heq⟩ := List.mem_map.mp hs
      subst heq
      exact hne src (motion_unique hnodup hmotion (mem_copyPairs.mp hpair))
    refine ⟨fun layer hgroup => ?_, fun region s hs => ?_⟩
    · have hregion := mem_regions_layersForGroupOrdinal.mpr ⟨layer, hgroup, rfl⟩
      obtain ⟨hframe, hcopied⟩ := hcopies (cache.regions layer)
      refine ⟨fun s hs => ?_, fun s hs => ?_, fun s src hs => ?_⟩
      · rw [hframe s (Or.inr (hnotCopied s _ hs (by simp))), hzeroed,
          if_pos ⟨hregion, hc, mem_zeroIds.mpr hs⟩]
      · rw [hframe s (Or.inr (hnotCopied s _ hs (by simp))), hzeroed, if_neg]
        rintro ⟨-, -, hz⟩
        exact absurd (motion_unique hnodup hs (mem_zeroIds.mp hz)) (by simp)
      · obtain ⟨i, hi⟩ := List.getElem?_of_mem (mem_copyPairs.mpr hs)
        have hsrcMem : src ∈ copySrc motions := List.mem_map_of_mem (mem_copyPairs.mpr hs)
        obtain ⟨t, rfl, heq⟩ := hcopied hregion hc i src s (by simp [copySrc, hi])
          (by simp [copyDst, hi])
        refine ⟨t, rfl, ?_⟩
        rw [heq, hzeroed, if_neg]
        rintro ⟨-, -, hz⟩
        exact hsrc _ hsrcMem hz
    · obtain ⟨hframe, -⟩ := hcopies region
      by_cases hregion : region ∈ (cache.layersForGroupOrdinal group).ids.map cache.regions
      · obtain ⟨layer, hgroup, heq⟩ := mem_regions_layersForGroupOrdinal.mp hregion
        have hnot := hs layer hgroup heq
        rw [hframe s (Or.inr fun hmem => hnot ((sublist_copyDst motions).subset hmem)), hzeroed,
          if_neg]
        rintro ⟨-, -, hz⟩
        exact hnot (mem_dstIds.mpr ⟨_, mem_zeroIds.mp hz⟩)
      · rw [hframe s (Or.inl hregion), hzeroed, if_neg fun h => hregion h.1]

/-- What the plans need of the block tables: distinct destinations, none of which another request
of the step reads from, in whatever group. -/
structure SeparatePlans (blockSize : ℕ) (requests : List StepRequest) : Prop where
  nodup : ∀ group motions, planGroup blockSize group requests = .ok motions →
    (dstIds motions).Nodup
  sources : ∀ group motions, planGroup blockSize group requests = .ok motions →
    ∀ src ∈ copySrc motions, src ∉ zeroIds motions
  groups : ∀ group motions group' motions', planGroup blockSize group requests = .ok motions →
    planGroup blockSize group' requests = .ok motions' → group' ≠ group →
    ∀ b, b ∈ dstIds motions ∨ b ∈ copySrc motions → b ∉ dstIds motions'

/-- **The loop over the groups moves the slabs of each layer as its group's plan says**, though
layers of several groups are on one region. -/
theorem stored_moveGroups {blockSize : ℕ} {requests : List StepRequest} {groups : List ℕ}
    {mappings : List (List ℤ)}
    (h : moveGroups blockSize requests groups cache = .ok (cache', mappings))
    (hone : cache.OneOwner) (hgroups : groups.Nodup)
    (hplans : SeparatePlans blockSize requests) :
    PagedStateCache.Settles cache cache' ∧
    (∀ c ∈ cache.components, ∀ (region : ℕ) (s : Fin maxSeqs),
      (∀ group ∈ groups, ∀ motions, planGroup blockSize group requests = .ok motions →
        ∀ layer, cache.layerGroupOrdinal layer = group → cache.regions layer = region →
          (s : ℤ) ∉ dstIds motions) → cache'.stored c region s = cache.stored c region s) ∧
    ∀ (i : ℕ) (dsts : List ℤ), mappings[i]? = some dsts →
      ∃ group motions, groups[i]? = some group ∧
        planGroup blockSize group requests = .ok motions ∧ dsts = dstIds motions ∧
        ∀ layer, cache.layerGroupOrdinal layer = group → ∀ c ∈ cache.components,
          Moved motions (cache.stored c (cache.regions layer))
            (cache'.stored c (cache.regions layer)) := by
  induction groups generalizing cache mappings with
  | nil =>
    cases h
    exact ⟨⟨rfl, id, id⟩, fun _ _ _ _ _ => rfl, by simp⟩
  | cons group groups ih =>
    obtain ⟨hnotin, hgroups⟩ := List.nodup_cons.mp hgroups
    rw [moveGroups] at h
    cases hplan : planGroup blockSize group requests with
    | error e =>
      rw [hplan] at h
      cases h
    | ok motions =>
      rw [hplan] at h
      cases hmove : moveGroup cache group motions with
      | error e =>
        simp only [hmove] at h
        cases h
      | ok moved =>
        cases hrest : moveGroups blockSize requests groups moved with
        | error e =>
          simp only [hmove, hrest] at h
          cases h
        | ok rest =>
          obtain ⟨last, restMappings⟩ := rest
          simp only [hmove, hrest, Except.ok.injEq, Prod.mk.injEq] at h
          obtain ⟨rfl, rfl⟩ := h
          have hsettles := settles_moveGroup hmove
          have hmovedGroup := fun {c} => stored_moveGroup hmove hone
            (hplans.nodup group motions hplan) (hplans.sources group motions hplan) (c := c)
          obtain ⟨hsettles', hframe, hmoved⟩ := ih hrest (hsettles.oneOwner hone) hgroups
          have hordinal : ∀ layer, moved.layerGroupOrdinal layer =
              cache.layerGroupOrdinal layer := fun layer =>
            congrArg (fun layout => layout.layerGroupOrdinals layer) hsettles.layout
          simp only [hordinal, hsettles.layout] at hframe hmoved
          refine ⟨⟨hsettles'.layout.trans hsettles.layout,
            fun hone => hsettles'.oneOwner (hsettles.oneOwner hone),
            fun hidle => hsettles'.idle (hsettles.idle hidle)⟩, fun c hc region s hs => ?_,
            fun i dsts hd => ?_⟩
          · rw [hframe c hc region s fun group' hmem => hs group' (List.mem_cons_of_mem _ hmem)]
            exact (hmovedGroup hc).2 region s (hs group List.mem_cons_self motions hplan)
          · cases i with
            | zero =>
              simp only [List.getElem?_cons_zero, Option.some.injEq] at hd
              subst hd
              refine ⟨group, motions, rfl, hplan, rfl, fun layer hl c hc => ?_⟩
              -- the groups that follow have other destinations
              refine ((hmovedGroup hc).1 layer hl).followed fun s hs => ?_
              refine hframe c hc _ s fun group' hmem motions' hplan' _ _ _ => ?_
              exact hplans.groups group motions group' motions' hplan hplan'
                (fun heq => hnotin (heq ▸ hmem)) _ (Or.inl hs)
            | succ i =>
              obtain ⟨g, motions', hg, hplan', rfl, hmoved'⟩ := hmoved i dsts hd
              refine ⟨g, motions', hg, hplan', rfl, fun layer hl c hc => ?_⟩
              have hne : group ≠ g := by
                rintro rfl
                exact hnotin (List.mem_of_getElem? hg)
              -- and so has this one, which writes to none of their sources
              refine (hmoved' layer hl c hc).preceded fun s hs => ?_
              exact (hmovedGroup hc).2 _ s fun _ _ _ =>
                hplans.groups g motions' group motions hplan' hplan hne _ hs

/-- The settings of the manager stay. -/
theorem settings_populateStepContext {manager manager' : AlignStateManager}
    {reqIds : List ReqId} {tables : Option (List (List (List ℤ)))}
    {positions : Option (List (ℕ × ℕ))} {mappings : List (List ℤ)}
    (h : manager.populateStepContext cache reqIds tables positions =
      .ok (manager', cache', mappings)) :
    manager'.blockSize = manager.blockSize ∧
      manager'.mambaCacheMode = manager.mambaCacheMode := by
  unfold populateStepContext at h
  split at h
  · split at h
    · dsimp only at h
      split at h
      · cases h
      · cases h
        exact ⟨rfl, rfl⟩
    · cases h
  · cases h

/-- **Before the forward of an align-mode step**, nothing is pending, and the slabs of every layer
have moved as its group's plan says. -/
theorem stored_populateStepContext {manager manager' : AlignStateManager}
    {reqIds : List ReqId} {tables : List (List (List ℤ))} {positions : List (ℕ × ℕ)}
    {mappings : List (List ℤ)}
    (h : manager.populateStepContext cache reqIds (some tables) (some positions) =
      .ok (manager', cache', mappings))
    (halign : manager.mambaCacheMode = .align) (hone : cache.OneOwner)
    (hplans : SeparatePlans manager.blockSize (stepRequests reqIds tables positions)) :
    cache'.toStateLayout = cache.toStateLayout ∧ cache'.Idle ∧
    (∀ c ∈ cache.components, ∀ (region : ℕ) (s : Fin maxSeqs),
      (∀ layer motions, cache.regions layer = region →
        planGroup manager.blockSize (cache.layerGroupOrdinal layer)
          (stepRequests reqIds tables positions) = .ok motions → (s : ℤ) ∉ dstIds motions) →
      cache'.stored c region s = cache.stored c region s) ∧
    ∀ layer dsts, mappings[cache.layerGroupOrdinal layer]? = some dsts →
      ∃ motions, planGroup manager.blockSize (cache.layerGroupOrdinal layer)
          (stepRequests reqIds tables positions) = .ok motions ∧
        dsts = dstIds motions ∧ ∀ c ∈ cache.components,
          Moved motions (cache.stored c (cache.regions layer))
            (cache'.stored c (cache.regions layer)) := by
  rw [populateStepContext] at h
  split at h
  · dsimp only at h
    rw [halign, decide_eq_true rfl, if_pos rfl] at h
    -- the flush in front of the moves leaves nothing pending
    have hflush := cache.flushes_applyPendingStates none
    have hidle : (cache.applyPendingStates none).Idle := cache.pending_applyPendingStates_none
    set flushed := cache.applyPendingStates none with hflushed
    cases hmoves : moveGroups manager.blockSize (stepRequests reqIds tables positions)
        (List.range (tables.headD []).length) flushed with
    | error e =>
      rw [hmoves] at h
      cases h
    | ok moves =>
      obtain ⟨moved, dstMappings⟩ := moves
      simp only [hmoves, Except.ok.injEq, Prod.mk.injEq] at h
      obtain ⟨-, rfl, rfl⟩ := h
      obtain ⟨hsettles, hframe, hmoved⟩ :=
        stored_moveGroups hmoves (hflush.oneOwner hone) List.nodup_range hplans
      have hordinal : ∀ layer, flushed.layerGroupOrdinal layer = cache.layerGroupOrdinal layer :=
        fun layer => congrArg (fun layout => layout.layerGroupOrdinals layer) hflush.layout
      simp only [hordinal, hflush.layout, hflush.stored hone] at hframe hmoved
      refine ⟨hsettles.layout.trans hflush.layout, hsettles.idle hidle, fun c hc region s hs => ?_,
        fun layer dsts hdsts => ?_⟩
      -- a slot that no group moves into keeps its row
      · exact hframe c hc region s fun group _ motions hplan layer hl hregion =>
          hs layer motions hregion (hl ▸ hplan)
      -- one that a group moves into has what the group's plan says
      · obtain ⟨g, motions, hg, hplan, rfl, hmoved'⟩ := hmoved _ dsts hdsts
        obtain ⟨hlt, heq⟩ := List.getElem?_eq_some_iff.mp hg
        rw [List.getElem_range] at heq
        subst heq
        exact ⟨motions, hplan, rfl, hmoved' layer rfl⟩
  · cases h

end Motions

end AlignStateManager

end State
end VllmMetal
