import VllmMetal.State.GdnForward
import VllmMetal.State.StepSlots

/-!
# What a forward of the gated delta net layers leaves behind

Whatever path a layer takes, its forward is one launch of the convolution and one of the
recurrence over the segments, on the rows that the layer reads.  A verification moreover leaves the
pools as they stood and the updates of all its requests parked: this is what the acceptance
starts from.  Layers that use slots of their own do not see one another.

## Main definitions

* `convSegmentKernel`, `recurrentPrefillKernel` — advance a row by a whole segment.
* `Staged` — a component whose pool keeps the rows before a launch that is parked.
* `LayerForwarded` — what a forward leaves in the cache of its layer.

## Main results

* `assigns_runConv`, `assigns_runRecurrent` — either half is a launch.
* `staged_runConv`, `staged_runRecurrent` — the verification leaves both components staged.
* `forwardLayers_spec` — all layers of a forward.
-/

namespace VllmMetal
namespace State

variable {numLayers maxSeqs stateLen : ℕ} {X Y S : Type}

/-! ### Segments -/

namespace PackedBatch

variable (batch : PackedBatch)

theorem spanLength_eq {i n : ℕ} (hn : batch.lens[i]? = some n) :
    spanLength batch.cuSeqlens i = n := getD_boundaries_sub hn

theorem spanLength_pos {i : ℕ} (hi : i < batch.lens.length) : 0 < spanLength batch.cuSeqlens i := by
  have hn : batch.lens[i]? = some batch.lens[i] := List.getElem?_eq_getElem hi
  rw [batch.spanLength_eq hn]
  exact batch.pos _ (List.getElem_mem hi)

/-- The boundaries of a batch with more rows than requests are those of a prefill batch. -/
theorem prefillBatch_eq : prefillBatch batch.totalTokens batch.numRequests batch.cuSeqlens =
    decide (batch.totalTokens > batch.numRequests) := by
  have hzero : batch.cuSeqlens[0]? = some 0 := by simp [cuSeqlens, boundaries]
  have hlast : batch.cuSeqlens.getLast? = some batch.totalTokens := by
    simp [cuSeqlens, boundaries, totalTokens, List.getLast?_eq_getElem?]
  have hspans : ((List.range batch.numRequests).all fun i =>
      decide (batch.cuSeqlens.getD (i + 1) 0 > batch.cuSeqlens.getD i 0)) = true := by
    rw [List.all_eq_true]
    intro i hi
    have hpos := batch.spanLength_pos (List.mem_range.mp hi)
    simp only [spanLength] at hpos
    simp only [decide_eq_true_eq]
    omega
  have hlen : batch.cuSeqlens.length = batch.numRequests + 1 := length_boundaries _
  rw [prefillBatch, hzero, hlast, hlen, hspans]
  simp

theorem isSpecVerify_iff : batch.isSpecVerify = true ↔
    ∃ i < batch.numDecodeRequests, 1 < spanLength batch.cuSeqlens i := by
  simp [isSpecVerify, isSpecVerifyBatch]

/-- A plain decode has one row for each request. -/
theorem eq_one_of_isPlainDecode (h : batch.isPlainDecode = true) {n : ℕ} (hn : n ∈ batch.lens) :
    n = 1 := by
  simp only [isPlainDecode, Bool.and_eq_true, beq_iff_eq, Bool.not_eq_eq_eq_not,
    Bool.not_true] at h
  obtain ⟨hall, hverify⟩ := h
  obtain ⟨i, hi, rfl⟩ := List.getElem_of_mem hn
  have hspan : ¬ 1 < spanLength batch.cuSeqlens i := by
    intro hlt
    have hnd : i < batch.numDecodeRequests := by rw [hall]; exact hi
    have := batch.isSpecVerify_iff.mpr ⟨i, hnd, hlt⟩
    rw [this] at hverify
    cases hverify
  have hpos := batch.spanLength_pos hi
  rw [batch.spanLength_eq (List.getElem?_eq_getElem hi)] at hspan hpos
  omega

/-- A verification has more rows than requests. -/
theorem lt_totalTokens_of_isSpecVerify (h : batch.isSpecVerify = true) :
    batch.numRequests < batch.totalTokens := by
  obtain ⟨i, hi, hlt⟩ := batch.isSpecVerify_iff.mp h
  have hilen : i < batch.lens.length := Nat.lt_of_lt_of_le hi batch.numDecodeRequests_le
  rw [batch.spanLength_eq (List.getElem?_eq_getElem hilen)] at hlt
  by_contra hle
  have hone := eq_one_of_sum_le batch.pos (Nat.not_lt.mp hle) (List.getElem_mem hilen)
  omega

end PackedBatch

/-- A convolution kernel that advances the window of request `i` by its whole segment. -/
def convSegmentKernel (cuSeqlens : List ℕ) (mixedQkv : List X) (i : ℕ)
    (row : Fin stateLen → X) : Unit × (Fin stateLen → X) :=
  ((), convTail row (segmentRows cuSeqlens mixedQkv i))

/-- In a plain decode, the segment of a request is its row. -/
theorem segmentRows_of_isPlainDecode {α : Type} {batch : PackedBatch} {rows : List α}
    (h : batch.isPlainDecode = true) (hrows : rows.length = batch.lens.sum) {i : ℕ}
    (hi : i < batch.lens.length) :
    ∃ a, rows[i]? = some a ∧ segmentRows batch.cuSeqlens rows i = [a] := by
  have hone : batch.lens = List.replicate batch.lens.length 1 :=
    List.eq_replicate_iff.mpr ⟨rfl, fun n hn => batch.eq_one_of_isPlainDecode h hn⟩
  have hsum : batch.lens.sum = batch.lens.length := by
    rw [hone]
    simp
  have hn : batch.lens[i]? = some 1 := by
    rw [List.getElem?_eq_getElem hi]
    exact congrArg some (batch.eq_one_of_isPlainDecode h (List.getElem_mem hi))
  have hstart : (boundaries batch.lens).getD i 0 = i := by
    rw [getD_boundaries (Nat.le_of_lt hi), hone, List.take_replicate]
    simp
    omega
  have hir : i < rows.length := by omega
  refine ⟨rows[i], List.getElem?_eq_getElem hir, ?_⟩
  rw [PackedBatch.cuSeqlens, segmentRows_boundaries hn, hstart,
    List.drop_eq_getElem_cons hir]
  rfl

/-! ### The halves of a layer -/

section Layer

variable {batch : PackedBatch} {lazy : GDNLazyKernels}
variable {cache : PagedStateCache numLayers maxSeqs (GDNRow stateLen X S)}
variable {fwd : GDNLayerForward batch numLayers maxSeqs X Y} {step : S → Y → S}

/-- The in-place loop of the convolution fallback rewrites the pool of its component. -/
theorem convInPlace_eq : convInPlace cache fwd = cache.modify .conv fwd.cacheIdx fun w =>
    { w with pool := fwd.slotIds.ids.zipIdx.foldl (fun m p => scatter m [p.1]
        [convTail (m p.1) (segmentRows batch.cuSeqlens fwd.mixedQkv p.2)]) w.pool } := by
  rw [convInPlace]
  generalize fwd.slotIds.ids.zipIdx = slots
  induction slots generalizing cache with
  | nil => exact (cache.modify_eq_self rfl).symm
  | cons p slots ih =>
    rw [List.foldl_cons, ih, PagedStateCache.writeRows, PagedStateCache.modify_modify]
    exact cache.modify_congr rfl

/-- As the slots are distinct, it writes the rows of a launch over the pool. -/
theorem convInPlace_eq_writeRows : convInPlace cache fwd = cache.writeRows .conv fwd.cacheIdx
    (launchUpdates (convSegmentKernel batch.cuSeqlens fwd.mixedQkv)
      (fwd.slotIds.ids.map (cache.pools .conv fwd.cacheIdx).pool)) fwd.slotIds.ids := by
  have hloop := foldl_scatter_eq_assign (fun i row => convTail row
    (segmentRows batch.cuSeqlens fwd.mixedQkv i)) fwd.slotIds.nodup
    (cache.pools .conv fwd.cacheIdx).pool
  rw [convInPlace_eq, PagedStateCache.writeRows]
  refine cache.modify_congr (congrArg (WriteBack.mk · _) (hloop.trans ?_))
  rw [scatter_eq_assign fwd.slotIds.nodup (by simp), launchUpdates_map]
  rfl

variable (lazy cache fwd step) in
/-- **The convolution fallback is a launch**, in place or deferred. -/
theorem assigns_convFallback : PagedStateCache.Assigns .conv fwd.cacheIdx cache
    (convFallback lazy cache fwd) fwd.slotIds.ids
    (launchUpdates (convSegmentKernel batch.cuSeqlens fwd.mixedQkv)
      (fwd.slotIds.ids.map (cache.logical .conv fwd.cacheIdx))) := by
  unfold convFallback
  split
  · exact assigns_setPending_poolUpdate cache .conv fwd.cacheIdx fwd.slotIds
      (convSegmentKernel batch.cuSeqlens fwd.mixedQkv)
  · rw [convInPlace_eq_writeRows, cache.pool_applyPending]
    exact (cache.assigns_applyPending .conv fwd.cacheIdx).trans
      (PagedStateCache.assigns_writeRows _ fwd.slotIds.nodup (by simp)
        fun s _ => cache.not_parks_applyPending .conv fwd.cacheIdx s)

variable (cache fwd step) in
/-- **The recurrent fallback is a launch.** -/
theorem assigns_recurrentFallback : PagedStateCache.Assigns .recurrent fwd.cacheIdx cache
    (recurrentFallback cache fwd step) fwd.slotIds.ids
    (launchUpdates (recurrentPrefillKernel step batch.cuSeqlens fwd.acts)
      (fwd.slotIds.ids.map (cache.logical .recurrent fwd.cacheIdx))) :=
  assigns_writeRows_poolUpdate cache .recurrent fwd.cacheIdx fwd.slotIds
    (recurrentPrefillKernel step batch.cuSeqlens fwd.acts)

/-- On the rows of a plain decode, the decode kernels do what the segment kernels do. -/
theorem convDecodeKernel_of_isPlainDecode (h : batch.isPlainDecode = true) {i : ℕ}
    (hi : i < fwd.slotIds.ids.length) (row : Fin stateLen → X) :
    (convDecodeKernel fwd.mixedQkv i row).2 =
      (convSegmentKernel batch.cuSeqlens fwd.mixedQkv i row).2 := by
  obtain ⟨input, hinput, hsegment⟩ :=
    segmentRows_of_isPlainDecode h fwd.mixedQkv_length (fwd.slots_length ▸ hi)
  simp only [convDecodeKernel, convSegmentKernel, hinput, hsegment, convStateDecode_eq_convTail]

theorem recurrentDecodeKernel_of_isPlainDecode (h : batch.isPlainDecode = true) {i : ℕ}
    (hi : i < fwd.slotIds.ids.length) (row : S) :
    (recurrentDecodeKernel step fwd.acts i row).2 =
      (recurrentPrefillKernel step batch.cuSeqlens fwd.acts i row).2 := by
  obtain ⟨act, hact, hsegment⟩ :=
    segmentRows_of_isPlainDecode h fwd.acts_length (fwd.slots_length ▸ hi)
  simp only [recurrentDecodeKernel, recurrentPrefillKernel, hact, hsegment, List.foldl_cons,
    List.foldl_nil]

theorem convPrefillKernel_eq (cuSeqlens : List ℕ) (mixedQkv : List X) :
    (convPrefillKernel cuSeqlens mixedQkv : ℕ → (Fin stateLen → X) → _) =
      convSegmentKernel cuSeqlens mixedQkv := by
  funext i row
  rw [convPrefillKernel, convSegmentKernel, convStatePrefill_eq_convTail]

/-- **`_run_conv` advances every window by its segment**, whichever path it takes. -/
theorem assigns_runConv : PagedStateCache.Assigns .conv fwd.cacheIdx cache
    (runConv lazy cache fwd) fwd.slotIds.ids
    (launchUpdates (convSegmentKernel batch.cuSeqlens fwd.mixedQkv)
      (fwd.slotIds.ids.map (cache.logical .conv fwd.cacheIdx))) := by
  unfold runConv
  by_cases hplain : batch.isPlainDecode = true
  · simp only [hplain, if_true]
    split
    · next p _ hp =>
      have hlaunched := (GDNLazyKernels.launched_tryConvDecode hp).assigns
      rwa [launchUpdates_congr fun i hi row => convDecodeKernel_of_isPlainDecode hplain
        (by simpa using hi) row] at hlaunched
    · exact assigns_convFallback lazy cache fwd
  · simp only [hplain, Bool.false_eq_true, if_false]
    split
    · next p _ hp =>
      split at hp
      · have hlaunched := (GDNLazyKernels.launched_tryConvPrefill hp).assigns
        rwa [convPrefillKernel_eq] at hlaunched
      · cases hp
    · exact assigns_convFallback lazy cache fwd

/-- **`_run_recurrent` folds every segment into its row.** -/
theorem assigns_runRecurrent
    {cache' : PagedStateCache numLayers maxSeqs (GDNRow stateLen X S)}
    (h : runRecurrent lazy cache fwd step = .ok cache') :
    PagedStateCache.Assigns .recurrent fwd.cacheIdx cache cache' fwd.slotIds.ids
      (launchUpdates (recurrentPrefillKernel step batch.cuSeqlens fwd.acts)
        (fwd.slotIds.ids.map (cache.logical .recurrent fwd.cacheIdx))) := by
  rw [runRecurrent] at h
  split at h
  · next hplain =>
    split at h
    · next p _ hp =>
      cases h
      have hlaunched := (GDNLazyKernels.launched_tryRecurrentDecode hp).assigns
      rwa [launchUpdates_congr fun i hi row => recurrentDecodeKernel_of_isPlainDecode hplain
        (by simpa using hi) row] at hlaunched
    · cases h
      exact assigns_recurrentFallback cache fwd step
  · split at h
    · split at h
      · next p _ hp =>
        cases h
        exact (GDNLazyKernels.launched_tryRecurrentPrefill hp).assigns
      · split at h
        · cases h
        · cases h
          exact assigns_recurrentFallback cache fwd step
    · cases h
      exact assigns_recurrentFallback cache fwd step

/-- What a layer reads in the slot of a request after a launch. -/
theorem logical_of_launch {Row : StateComponent → Type*}
    {cache cache' : PagedStateCache numLayers maxSeqs Row} {c : StateComponent}
    {layer : Fin numLayers} {slotIds : SlotIds maxSeqs} {kernel : ℕ → Row c → Unit × Row c}
    (h : PagedStateCache.Assigns c layer cache cache' slotIds.ids
      (launchUpdates kernel (slotIds.ids.map (cache.logical c layer))))
    {i : ℕ} {s : Fin maxSeqs} (hs : slotIds.ids[i]? = some s) :
    cache'.logical c layer s = (kernel i (cache.logical c layer s)).2 := by
  rw [PagedStateCache.logical, h.pools.value]
  refine assign_of_getElem? slotIds.nodup hs ?_
  rw [launchUpdates_map, List.getElem?_mapIdx, hs]
  rfl

/-! ### Staging -/

/-- At the slots the pool keeps the rows `before`, and an update with the given rows is parked. -/
structure Staged {R : Type} (w : WriteBack (Fin maxSeqs) R) (before : Fin maxSeqs → R)
    (slotIds : SlotIds maxSeqs) (rows : List R) : Prop where
  pool : ∀ s ∈ slotIds.ids, w.pool s = before s
  parked : ∃ u, w.parked = some u ∧ u.ids = slotIds.ids ∧ u.rows = rows

/-- An update parked over a flushed pool leaves the pool as it was. -/
theorem pool_setPending_applyPending {Row : StateComponent → Type*}
    (cache : PagedStateCache numLayers maxSeqs Row) (c : StateComponent) (layer : Fin numLayers)
    (u : RowUpdate (Fin maxSeqs) (Row c)) :
    (((cache.applyPending c layer).setPending c layer u).pools c layer).pool =
      cache.logical c layer := by
  rw [PagedStateCache.setPending, PagedStateCache.pools_modify_self, WriteBack.park,
    WriteBack.flush_of_parked_eq_none _ (cache.parked_applyPending c layer)]
  exact cache.pool_applyPending c layer

variable (cache) in
theorem staged_setPending_poolUpdate {c : StateComponent} {layer : Fin numLayers}
    {slotIds : SlotIds maxSeqs}
    {kernel : ℕ → GDNRow stateLen X S c → Unit × GDNRow stateLen X S c} :
    Staged (((cache.applyPending c layer).setPending c layer
        (poolUpdate (cache.applyPending c layer) c layer slotIds kernel)).pools c layer)
      (cache.logical c layer) slotIds
      (launchUpdates kernel (slotIds.ids.map (cache.logical c layer))) where
  pool s _ := congrFun (pool_setPending_applyPending cache c layer _) s
  parked := ⟨_, by rw [PagedStateCache.setPending, PagedStateCache.pools_modify_self,
    WriteBack.parked_park], rfl, rows_poolUpdate_applyPending cache _ _ _ _⟩

theorem isPlainDecode_of_isSpecVerify (h : batch.isSpecVerify = true) :
    batch.isPlainDecode = false := by
  simp [PackedBatch.isPlainDecode, h]

/-- **A verification leaves the convolution staged.** -/
theorem staged_runConv (hverify : batch.isSpecVerify = true) (henabled : lazy.enabled = true) :
    Staged ((runConv lazy cache fwd).pools .conv fwd.cacheIdx)
      (cache.logical .conv fwd.cacheIdx) fwd.slotIds
      (launchUpdates (convSegmentKernel batch.cuSeqlens fwd.mixedQkv)
        (fwd.slotIds.ids.map (cache.logical .conv fwd.cacheIdx))) := by
  have hdefer : shouldDeferConvState lazy batch = true := by
    simp [shouldDeferConvState, hverify, henabled]
  unfold runConv
  simp only [isPlainDecode_of_isSpecVerify hverify, Bool.false_eq_true, if_false]
  split
  · next p _ hp =>
    split at hp
    · rw [GDNLazyKernels.tryConvPrefill] at hp
      split at hp
      · cases hp
        rw [convPrefillKernel_eq]
        exact staged_setPending_poolUpdate cache
      · cases hp
    · cases hp
  · unfold convFallback
    rw [if_pos hdefer]
    exact staged_setPending_poolUpdate cache

/-- **A verification leaves the recurrence staged**, and it ran on the lazy kernels. -/
theorem staged_runRecurrent {cache' : PagedStateCache numLayers maxSeqs (GDNRow stateLen X S)}
    (hverify : batch.isSpecVerify = true) (henabled : lazy.enabled = true)
    (h : runRecurrent lazy cache fwd step = .ok cache') :
    Staged (cache'.pools .recurrent fwd.cacheIdx) (cache.logical .recurrent fwd.cacheIdx)
        fwd.slotIds (launchUpdates (recurrentPrefillKernel step batch.cuSeqlens fwd.acts)
          (fwd.slotIds.ids.map (cache.logical .recurrent fwd.cacheIdx))) ∧
      lazy.hasKernels = true ∧ recurrentShapeSupported fwd.keyHeadDim = true := by
  have htotal : batch.totalTokens > batch.numRequests :=
    batch.lt_totalTokens_of_isSpecVerify hverify
  have htry : shouldTryRecurrentPrefillLazy lazy batch = true := by
    simp [shouldTryRecurrentPrefillLazy, shouldDeferConvState, hverify, henabled, htotal]
  have hdefer : shouldDeferRecurrentPrefillState lazy fwd = true := by
    simp [shouldDeferRecurrentPrefillState, hverify, henabled]
  rw [runRecurrent, isPlainDecode_of_isSpecVerify hverify, if_neg Bool.false_ne_true,
    if_pos htry] at h
  split at h
  · next p _ hp =>
    cases h
    rw [GDNLazyKernels.tryRecurrentPrefill] at hp
    split at hp
    · next heligible =>
      cases hp
      exact ⟨staged_setPending_poolUpdate cache, heligible.1, heligible.2.2⟩
    · cases hp
  · rw [if_pos hverify] at h
    cases h

/-! ### All layers -/

/-- The slots that a layer uses. -/
def GDNLayerForward.use (fwd : GDNLayerForward batch numLayers maxSeqs X Y) :
    LayerSlots numLayers maxSeqs :=
  ⟨fwd.cacheIdx, fwd.slotIds.ids⟩

/-- A row for each slot that a layer may read. -/
abbrev LayerRows (numLayers maxSeqs : ℕ) (Row : StateComponent → Type) :=
  (c : StateComponent) → Fin numLayers → Fin maxSeqs → Row c

/-- What a forward of layers that read the rows `m` leaves in the cache of its layer. -/
structure LayerForwarded (step : S → Y → S)
    (m : LayerRows numLayers maxSeqs (GDNRow stateLen X S))
    (cache : PagedStateCache numLayers maxSeqs (GDNRow stateLen X S))
    (fwd : GDNLayerForward batch numLayers maxSeqs X Y) : Prop where
  conv : ∀ (i : ℕ) s, fwd.slotIds.ids[i]? = some s → cache.logical .conv fwd.cacheIdx s =
    convTail (m .conv fwd.cacheIdx s) (segmentRows batch.cuSeqlens fwd.mixedQkv i)
  recurrent : ∀ (i : ℕ) s, fwd.slotIds.ids[i]? = some s →
    cache.logical .recurrent fwd.cacheIdx s =
      (segmentRows batch.cuSeqlens fwd.acts i).foldl step (m .recurrent fwd.cacheIdx s)
  stagedConv : batch.isSpecVerify = true → Staged (cache.pools .conv fwd.cacheIdx)
    (m .conv fwd.cacheIdx) fwd.slotIds (launchUpdates
      (convSegmentKernel batch.cuSeqlens fwd.mixedQkv)
      (fwd.slotIds.ids.map (m .conv fwd.cacheIdx)))
  stagedRecurrent : batch.isSpecVerify = true → Staged (cache.pools .recurrent fwd.cacheIdx)
    (m .recurrent fwd.cacheIdx) fwd.slotIds (launchUpdates
      (recurrentPrefillKernel step batch.cuSeqlens fwd.acts)
      (fwd.slotIds.ids.map (m .recurrent fwd.cacheIdx)))

/-- What a forward leaves in the cache of a layer depends on the layer's updates and on the rows
in its slots alone. -/
theorem LayerForwarded.congr {m m' : LayerRows numLayers maxSeqs (GDNRow stateLen X S)}
    {cache cache' : PagedStateCache numLayers maxSeqs (GDNRow stateLen X S)}
    (h : LayerForwarded step m cache fwd)
    (hm : ∀ c, ∀ s ∈ fwd.slotIds.ids, m' c fwd.cacheIdx s = m c fwd.cacheIdx s)
    (hpending : ∀ c, cache'.pending c fwd.cacheIdx = cache.pending c fwd.cacheIdx)
    (hpool : ∀ c, ∀ s ∈ fwd.slotIds.ids,
      (cache'.pools c fwd.cacheIdx).pool s = (cache.pools c fwd.cacheIdx).pool s) :
    LayerForwarded step m' cache' fwd := by
  have hlogical : ∀ c, ∀ s ∈ fwd.slotIds.ids,
      cache'.logical c fwd.cacheIdx s = cache.logical c fwd.cacheIdx s := fun c s hs =>
    PagedStateCache.logical_congr (hpending c) (hpool c s hs)
  have hrows : ∀ c, fwd.slotIds.ids.map (m' c fwd.cacheIdx) =
      fwd.slotIds.ids.map (m c fwd.cacheIdx) := fun c => List.map_congr_left (hm c)
  have hstaged : ∀ {c rows}, Staged (cache.pools c fwd.cacheIdx) (m c fwd.cacheIdx) fwd.slotIds
      rows → Staged (cache'.pools c fwd.cacheIdx) (m' c fwd.cacheIdx) fwd.slotIds rows := by
    rintro c rows ⟨hbefore, u, hu, hids⟩
    refine ⟨fun s hs => ?_, u, (hpending c).trans hu, hids⟩
    rw [hpool c s hs, hbefore s hs, hm c s hs]
  refine ⟨fun i s hs => ?_, fun i s hs => ?_, fun hverify => ?_, fun hverify => ?_⟩
  · have hmem := List.mem_of_getElem? hs
    rw [hlogical _ s hmem, hm _ s hmem]
    exact h.conv i s hs
  · have hmem := List.mem_of_getElem? hs
    rw [hlogical _ s hmem, hm _ s hmem]
    exact h.recurrent i s hs
  · rw [hrows]
    exact hstaged (h.stagedConv hverify)
  · rw [hrows]
    exact hstaged (h.stagedRecurrent hverify)

/-- **One layer of a forward.** -/
theorem callLayer_spec {state state' : GDNStateCache numLayers maxSeqs stateLen X Y S}
    (hone : state.cache.OneOwner)
    (hfree : ∀ c, ∀ s ∈ fwd.slotIds.ids, state.cache.Free c fwd.cacheIdx s)
    (h : callLayer lazy fwd step state = .ok state') :
    LayerForwarded step state.cache.logical state'.cache fwd ∧
      PagedStateCache.Within [fwd.use] state.cache state'.cache ∧
      (state'.specVerifyStash = if batch.isSpecVerify then
        some (state.specVerifyStash.getD [] ++ [stashOf fwd]) else state.specVerifyStash) ∧
      (batch.isSpecVerify = true → lazy.hasKernels = true ∧
        recurrentShapeSupported fwd.keyHeadDim = true) := by
  rw [callLayer] at h
  split at h
  · cases h
  · next hallowed =>
    split at h
    · cases h
    · next cache' hrun =>
      cases h
      have hconv : PagedStateCache.Assigns .conv fwd.cacheIdx state.cache
          (runConv lazy state.cache fwd) _ _ := assigns_runConv
      have hrec := assigns_runRecurrent hrun
      -- either half leaves the other component of the layer as it is
      have hconvPools : cache'.pools .conv fwd.cacheIdx =
          (runConv lazy state.cache fwd).pools .conv fwd.cacheIdx :=
        hrec.only.pools_eq (by decide) fwd.cacheIdx
      have hbefore : (runConv lazy state.cache fwd).logical .recurrent fwd.cacheIdx =
          state.cache.logical .recurrent fwd.cacheIdx :=
        congrArg WriteBack.value (hconv.only.pools_eq (by decide) fwd.cacheIdx)
      have henabled : batch.isSpecVerify = true → lazy.enabled = true := fun hverify =>
        by_contra fun hne => hallowed ⟨hverify, hne⟩
      have hwithin : PagedStateCache.Within [fwd.use] state.cache
          (runConv lazy state.cache fwd) :=
        PagedStateCache.within_of_assigns hconv hone (hfree .conv) (by simp)
      have hwithin' : PagedStateCache.Within [fwd.use] (runConv lazy state.cache fwd) cache' :=
        PagedStateCache.within_of_assigns hrec hwithin.oneOwner
          (fun s hs => hwithin.free (fun use huse hne => by
            rw [List.mem_singleton] at huse
            exact absurd (congrArg LayerSlots.layer huse) hne) (hfree .recurrent s hs)) (by simp)
      refine ⟨⟨fun i s hs => ?_, fun i s hs => ?_, fun hverify => ?_, fun hverify => ?_⟩,
        (hwithin.trans hwithin').mono (by simp), ?_,
        fun hverify => (staged_runRecurrent hverify (henabled hverify) hrun).2⟩
      · exact (congrFun (congrArg WriteBack.value hconvPools) s).trans (logical_of_launch hconv hs)
      · rw [logical_of_launch hrec hs, hbefore]
        rfl
      · rw [hconvPools]
        exact staged_runConv hverify (henabled hverify)
      · have hstaged := (staged_runRecurrent hverify (henabled hverify) hrun).1
        rwa [hbefore] at hstaged
      · simp only
        split
        · next hverify =>
          obtain ⟨i, hi, hspan⟩ := batch.isSpecVerify_iff.mp hverify
          have hne : verifyRequests batch.numDecodeRequests batch.cuSeqlens ≠ [] :=
            List.ne_nil_of_mem (List.mem_filter.mpr
              ⟨List.mem_range.mpr hi, decide_eq_true hspan⟩)
          rw [stashSpecVerifyLayer, if_neg hne]
        · rfl

/-- **The layers of a forward**, each with its own cache index and slots of its own. -/
theorem forwardLayers_spec {layers : List (GDNLayerForward batch numLayers maxSeqs X Y)}
    (hnodup : (layers.map GDNLayerForward.cacheIdx).Nodup)
    {state state' : GDNStateCache numLayers maxSeqs stateLen X Y S}
    (hone : state.cache.OneOwner)
    (hapart : state.cache.Apart (layers.map GDNLayerForward.use))
    (h : forwardLayers lazy step layers state = .ok state') :
    (∀ fwd ∈ layers, LayerForwarded step state.cache.logical state'.cache fwd) ∧
      PagedStateCache.Within (layers.map GDNLayerForward.use) state.cache state'.cache ∧
      (state'.specVerifyStash = if batch.isSpecVerify ∧ layers ≠ [] then
        some (state.specVerifyStash.getD [] ++ layers.map stashOf) else state.specVerifyStash) ∧
      (batch.isSpecVerify = true → ∀ fwd ∈ layers, lazy.hasKernels = true ∧
        recurrentShapeSupported fwd.keyHeadDim = true) := by
  -- induction on the layers, with the state they start from free
  induction layers generalizing state with
  | nil =>
    cases h
    exact ⟨by simp, .refl hone, by simp, by simp⟩
  | cons fwd layers ih =>
    rw [forwardLayers] at h
    split at h
    · cases h
    · next state₁ hcall =>
      rw [List.map_cons, List.nodup_cons] at hnodup
      obtain ⟨hnotin, hnodup⟩ := hnodup
      rw [List.map_cons] at hapart
      have hhead : fwd.use ∈ fwd.use :: layers.map GDNLayerForward.use := List.mem_cons_self
      have htail : ∀ fwd' ∈ layers, fwd'.use ∈ fwd.use :: layers.map GDNLayerForward.use :=
        fun fwd' hmem => List.mem_cons_of_mem _ (List.mem_map_of_mem hmem)
      obtain ⟨hlayer, hwithin, hstash, hkernels⟩ :=
        callLayer_spec hone (hapart.free fwd.use hhead) hcall
      have hapart₁ := hapart.of_within hwithin (by simp)
      obtain ⟨hlayers, hwithins, hstashes, hkernels'⟩ :=
        ih hnodup hwithin.oneOwner (hapart₁.subset (List.subset_cons_self _ _)) h
      -- the layers of a forward have different cache indices
      have hne : ∀ fwd' ∈ layers, fwd'.cacheIdx ≠ fwd.cacheIdx := by
        intro fwd' hmem heq
        exact hnotin (heq ▸ List.mem_map_of_mem hmem)
      have hothers : ∀ use ∈ layers.map GDNLayerForward.use, use.layer ≠ fwd.cacheIdx :=
        List.forall_mem_map.mpr hne
      refine ⟨fun fwd' hmem => ?_, hwithin.trans hwithins, ?_, fun hverify fwd' hmem => ?_⟩
      · rcases List.mem_cons.mp hmem with rfl | hmem
        · -- the layers that follow leave the slots of this one alone
          exact hlayer.congr (fun _ _ _ => rfl) (fun c => hwithins.pending c _ hothers)
            fun c s hs => hwithins.agrees hapart₁ (List.subset_cons_self _ _) hhead hothers hs
        · -- and it leaves alone those of the layers that follow
          have hthis : ∀ use ∈ [fwd.use], use.layer ≠ fwd'.cacheIdx :=
            List.forall_mem_singleton.mpr (hne fwd' hmem).symm
          exact (hlayers fwd' hmem).congr (fun c s hs =>
            (hwithin.logical_eq hapart (by simp) (htail fwd' hmem) hthis hs).symm)
            (fun _ => rfl) fun _ _ _ => rfl
      · rw [hstashes, hstash]
        by_cases hverify : batch.isSpecVerify = true
        · by_cases hlayers : layers = []
          · simp [hverify, hlayers]
          · simp [hverify, hlayers]
        · simp [hverify]
      · rcases List.mem_cons.mp hmem with rfl | hmem
        · exact hkernels hverify
        · exact hkernels' hverify fwd' hmem

end Layer
end State
end VllmMetal
