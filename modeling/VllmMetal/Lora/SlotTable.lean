import VllmMetal.Lora.SlotContents

/-!
# The slot table keeps in step

Every operation of the manager, whether it returns or raises, leaves the slot table, the two
caches, the pins, the slots of every wrapped layer and the routing metadata in step.

## Main definitions

* `SlotTable astype m` — the invariant of the manager.
* `Keeps unpinned dropped m m'` — what a step leaves alone.

## Main results

* `SlotTable.deactivate`, `SlotTable.commit`, `SlotTable.activatePrepared` — the writes.
* `SlotTable.addAdapter`, `SlotTable.replaceAdapter`, `SlotTable.pinAdapter`, … — the operations.
-/

namespace VllmMetal.Lora

open LruCache LawfulLruCache

/-! ### The invariant -/

section

variable {W : Type} [Zero W] [Mul W] {C : Type → Type} [LruCache ℤ C] (astype : W → W)

/-- **The slot table, the caches, the pins, the layers and the routing are in step.** -/
structure SlotTable (m : ModelManager W C) : Prop where
  distinct : Distinct m.loraIndexToId
  active_iff : ∀ loraId, (get? m.active loraId).isSome ↔ some loraId ∈ m.loraIndexToId
  capacity_active : capacity m.active = m.loraIndexToId.length
  resident_registered : ∀ loraId, some loraId ∈ m.loraIndexToId →
    (get? m.registered loraId).isSome
  len_registered : len m.registered ≤ capacity m.registered
  modules : ∀ nm ∈ m.modules,
    ModuleOk astype (get? m.registered) m.loraIndexToId nm.1 nm.2
  pinned_registered : ∀ loraId ∈ m.pinned, (get? m.registered loraId).isSome
  pins_registered : pinnedItems m.registered = m.pinned
  pins_active : ∀ loraId, loraId ∈ pinnedItems m.active ↔
    loraId ∈ m.pinned ∧ some loraId ∈ m.loraIndexToId
  routing : ∀ mapping, m.lastMapping = some mapping →
    m.punicaWrapper = updateMetadata mapping m.loraIndexToId

variable {astype} {m : ModelManager W C}

namespace SlotTable

theorem slotForAdapter_eq_some_iff (h : SlotTable astype m) {loraId : ℤ} {slot : ℕ} :
    m.slotForAdapter loraId = some slot ↔ m.loraIndexToId[slot]? = some (some loraId) :=
  h.distinct.idxOf?_eq_some_iff

/-- What `deactivate_adapter` writes when the adapter has a slot. -/
theorem deactivate_of_slot (h : SlotTable astype m) {loraId : ℤ} {slot : ℕ}
    (hslot : m.loraIndexToId[slot]? = some (some loraId)) :
    (m.deactivateAdapter loraId).2 =
      { m with
        active := pop m.active loraId
        loraIndexToId := m.loraIndexToId.set slot none
        encoderSlot := if m.encoderSlot = some slot then none else m.encoderSlot
        modules := m.modules.map fun nm => (nm.1, nm.2.resetLora slot)
        lastMapping := none } := by
  rw [ModelManager.deactivateAdapter, h.slotForAdapter_eq_some_iff.mpr hslot]

/-- **Changing the registered cache and the pins** for adapters without a slot. -/
theorem withRegistered (h : SlotTable astype m) {registered : C (LoadedLoRA W)}
    {pinned : Finset ℤ}
    (hreg : ∀ loraId, some loraId ∈ m.loraIndexToId →
      get? registered loraId = get? m.registered loraId)
    (hlen : len registered ≤ capacity registered)
    (hpinned : ∀ loraId ∈ pinned, (get? registered loraId).isSome)
    (hpins : pinnedItems registered = pinned)
    (hresident : ∀ loraId, some loraId ∈ m.loraIndexToId →
      (loraId ∈ pinned ↔ loraId ∈ m.pinned)) :
    SlotTable astype { m with registered := registered, pinned := pinned } where
  distinct := h.distinct
  active_iff := h.active_iff
  capacity_active := h.capacity_active
  resident_registered loraId hmem := by
    rw [hreg loraId hmem]
    exact h.resident_registered loraId hmem
  len_registered := hlen
  modules nm hnm := (h.modules nm hnm).congr hreg
  pinned_registered := hpinned
  pins_registered := hpins
  pins_active loraId := by
    rw [h.pins_active loraId]
    constructor
    · rintro ⟨hpin, hmem⟩
      exact ⟨(hresident loraId hmem).mpr hpin, hmem⟩
    · rintro ⟨hpin, hmem⟩
      exact ⟨(hresident loraId hmem).mp hpin, hmem⟩
  routing := h.routing

/-- **Committing an adapter to a slot** that is free or its own, with the caches as they are
to be afterwards. -/
theorem commit (h : SlotTable astype m) {adapter : LoadedLoRA W} {loraId : ℤ} {slot : ℕ}
    {prepared : PreparedAdapterUpdate W} {registered : C (LoadedLoRA W)} {active : C Unit}
    (hslot : m.loraIndexToId[slot]? = some none ∨ m.loraIndexToId[slot]? = some (some loraId))
    (honly : ∀ s : ℕ, m.loraIndexToId[s]? = some (some loraId) → s = slot)
    (hprepared : PreparedFor astype adapter m.modules prepared)
    (hreg : ∀ k, get? registered k = if k = loraId then some adapter else get? m.registered k)
    (hlen : len registered ≤ capacity registered)
    (hpins : pinnedItems registered = m.pinned)
    (hactive : ∀ k, (get? active k).isSome ↔ k = loraId ∨ (get? m.active k).isSome)
    (hcap : capacity active = capacity m.active)
    (hactivePins : ∀ k, k ∈ pinnedItems active ↔
      k ∈ m.pinned ∧ (k = loraId ∨ some k ∈ m.loraIndexToId)) :
    SlotTable astype { m.commitAdapterUpdate loraId slot prepared with
      registered := registered, active := active } := by
  -- the ids in the table are those before, and this one
  have hiff := mem_set_some hslot
  have hother : ∀ (s : ℕ) (k : ℤ), m.loraIndexToId[s]? = some (some k) → s ≠ slot →
      get? registered k = get? m.registered k := by
    intro s k hs hne
    rw [hreg k, if_neg]
    rintro rfl
    exact hne (honly s hs)
  -- no adapter loses its registration
  have hsome : ∀ k, (get? m.registered k).isSome → (get? registered k).isSome := by
    intro k hk
    rw [hreg k]
    split
    · rfl
    · exact hk
  exact {
    distinct := h.distinct.set_some honly
    active_iff := by
      intro k
      rw [hactive k, h.active_iff k]
      exact (hiff k).symm
    capacity_active := by
      rw [hcap, h.capacity_active]
      exact List.length_set.symm
    resident_registered := by
      intro k hk
      rcases (hiff k).mp hk with rfl | hmem
      · rw [hreg k, if_pos rfl]
        rfl
      · exact hsome k (h.resident_registered k hmem)
    len_registered := hlen
    modules := moduleOk_commit hprepared h.modules (by rw [hreg loraId, if_pos rfl]) hother
    pinned_registered := by
      intro k hk
      exact hsome k (h.pinned_registered k hk)
    pins_registered := hpins
    pins_active := by
      intro k
      rw [hactivePins k]
      exact and_congr_right fun _ => (hiff k).symm
    routing := by
      intro mapping hmapping
      cases hmapping }

variable [LawfulLruCache ℤ C]

/-- **`deactivate_adapter` keeps the invariant.** -/
theorem deactivate (h : SlotTable astype m) (loraId : ℤ) :
    SlotTable astype (m.deactivateAdapter loraId).2 := by
  by_cases hmem : some loraId ∈ m.loraIndexToId
  -- the slot is freed, and everything about other slots stays
  · obtain ⟨slot, hslot⟩ := List.mem_iff_getElem?.mp hmem
    have hiff := h.distinct.mem_set_none hslot
    rw [h.deactivate_of_slot hslot]
    exact {
      distinct := h.distinct.set_none slot
      active_iff := by
        intro k
        rw [hiff k, ← h.active_iff k, get?_pop]
        split
        · next heq => simp [heq]
        · next hne => simp [hne]
      capacity_active := by
        rw [capacity_pop, h.capacity_active, List.length_set]
      resident_registered := by
        intro k hk
        exact h.resident_registered k ((hiff k).mp hk).2
      len_registered := h.len_registered
      modules := by
        intro nm hnm
        obtain ⟨nm', hnm', rfl⟩ := List.mem_map.mp hnm
        exact (h.modules nm' hnm').set (fun _ _ _ _ => rfl) rfl
      pinned_registered := h.pinned_registered
      pins_registered := h.pins_registered
      pins_active := by
        intro k
        rw [hiff k, pinnedItems_pop, Finset.mem_erase, h.pins_active k]
        tauto
      routing := by
        intro mapping hmapping
        cases hmapping }
  · rw [ModelManager.deactivate_of_not_mem hmem]
    exact h

/-- Touching a registered adapter. -/
theorem touchRegistered (h : SlotTable astype m) {loraId : ℤ}
    (hsome : (get? m.registered loraId).isSome) :
    SlotTable astype { m with registered := touch m.registered loraId } := by
  refine h.withRegistered ?_ ?_ ?_ ?_ ?_
  · intro k _
    exact get?_touch hsome k
  · rw [capacity_touch]
    refine Nat.le_trans (len_mono fun k hk => ?_) h.len_registered
    rwa [get?_touch hsome] at hk
  · intro k hk
    rw [get?_touch hsome]
    exact h.pinned_registered k hk
  · rw [pinnedItems_touch, h.pins_registered]
  · intro k _
    exact Iff.rfl

/-- Touching an active adapter. -/
theorem touchActive (h : SlotTable astype m) {loraId : ℤ}
    (hmem : some loraId ∈ m.loraIndexToId) :
    SlotTable astype { m with active := touch m.active loraId } :=
  have hsome := (h.active_iff loraId).mpr hmem
  { h with
    active_iff := fun k => by
      rw [get?_touch hsome]
      exact h.active_iff k
    capacity_active := (capacity_touch _ _).trans h.capacity_active
    pins_active := fun k => by
      rw [pinnedItems_touch]
      exact h.pins_active k }

/-! ### Slots to activate in -/

omit [LawfulLruCache ℤ C] in
/-- The resident adapters are the stored keys of the active cache. -/
theorem mem_iff_active (h : SlotTable astype m) {loraId : ℤ} :
    some loraId ∈ m.loraIndexToId ↔ (get? m.active loraId).isSome :=
  (h.active_iff loraId).symm

/-- The slot to activate in is free or has an adapter that is not pinned. -/
theorem nextActivationSlot_spec (h : SlotTable astype m) {slot : ℕ}
    (hslot : m.nextActivationSlot = .ok slot) :
    ∃ entry, m.loraIndexToId[slot]? = some entry ∧
      ∀ loraId, entry = some loraId → loraId ∉ m.pinned := by
  unfold ModelManager.nextActivationSlot at hslot
  split at hslot
  · next free hfree =>
    cases hslot
    obtain ⟨hlt, hnone, -⟩ := List.idxOf?_eq_some_iff.mp hfree
    refine ⟨none, by rw [List.getElem?_eq_getElem hlt, hnone], ?_⟩
    intro loraId heq
    cases heq
  · split at hslot
    · cases hslot
    · next evictedId hevicted =>
      split at hslot
      · cases hslot
      · next evictedSlot hfound =>
        cases hslot
        obtain ⟨hstored, hunpinned⟩ := firstUnpinned_spec hevicted
        refine ⟨some evictedId, h.slotForAdapter_eq_some_iff.mp hfound, ?_⟩
        intro loraId heq hpinned
        cases heq
        exact hunpinned ((h.pins_active _).mpr ⟨hpinned, h.mem_iff_active.mpr hstored⟩)

/-- **There is no slot to activate in exactly when each has a pinned adapter.** -/
theorem nextActivationSlot_error_iff (h : SlotTable astype m) :
    (∃ e, m.nextActivationSlot = .error e) ↔
      none ∉ m.loraIndexToId ∧ ∀ loraId, some loraId ∈ m.loraIndexToId → loraId ∈ m.pinned := by
  unfold ModelManager.nextActivationSlot
  constructor
  · rintro ⟨e, he⟩
    split at he
    · cases he
    · next hfree =>
      refine ⟨List.idxOf?_eq_none_iff.mp hfree, fun loraId hmem => ?_⟩
      split at he
      · next hnone =>
        have hstored := h.mem_iff_active.mp hmem
        exact ((h.pins_active loraId).mp (firstUnpinned_eq_none_iff.mp hnone loraId hstored)).1
      · next evictedId hevicted =>
        -- the adapter to evict has a slot, so this branch raises nothing
        have hstored := h.mem_iff_active.mpr (firstUnpinned_spec hevicted).1
        split at he
        · next hnone => exact absurd hstored (ModelManager.slotForAdapter_eq_none_iff.mp hnone)
        · cases he
  · rintro ⟨hfull, hpinned⟩
    have hnone : firstUnpinned m.active = none := by
      rw [firstUnpinned_eq_none_iff]
      intro loraId hstored
      have hmem := h.mem_iff_active.mpr hstored
      exact (h.pins_active loraId).mpr ⟨hpinned loraId hmem, hmem⟩
    rw [List.idxOf?_eq_none_iff.mpr hfull, hnone]
    exact ⟨_, rfl⟩

end SlotTable

end

/-! ### What a call leaves alone -/

section

variable {W : Type} {C : Type → Type}

/-- What a step from `m` to `m'` leaves alone: the pins but for `unpinned`, the slots of pinned
adapters but for `dropped`, and the adapter in the encoder's slot as long as that is set. -/
structure Keeps (unpinned dropped : ℤ → Prop) (m m' : ModelManager W C) : Prop where
  pinned : ∀ loraId ∈ m.pinned, ¬ unpinned loraId → loraId ∈ m'.pinned
  slot : ∀ (s : ℕ), ∀ loraId ∈ m.pinned, ¬ dropped loraId →
    m.loraIndexToId[s]? = some (some loraId) → m'.loraIndexToId[s]? = some (some loraId)
  encoder : ∀ s : ℕ, m'.encoderSlot = some s → m.encoderSlot = some s ∧
    ∀ loraId, m.loraIndexToId[s]? = some (some loraId) →
      m'.loraIndexToId[s]? = some (some loraId)

namespace Keeps

variable {unpinned dropped : ℤ → Prop} {m m' m'' : ModelManager W C}

/-- A step that writes neither the pins, nor the table, nor the encoder's slot. -/
theorem of_eq (hpinned : m'.pinned = m.pinned) (htable : m'.loraIndexToId = m.loraIndexToId)
    (hencoder : m'.encoderSlot = m.encoderSlot) : Keeps unpinned dropped m m' where
  pinned loraId hmem _ := by rwa [hpinned]
  slot s loraId _ _ hs := by rwa [htable]
  encoder s hs := by
    rw [hencoder] at hs
    rw [htable]
    exact ⟨hs, fun _ => id⟩

/-- Two steps, one after the other. -/
theorem trans (h : Keeps unpinned dropped m m') (h' : Keeps unpinned dropped m' m'')
    (hsub : ∀ loraId, unpinned loraId → dropped loraId) : Keeps unpinned dropped m m'' where
  pinned loraId hmem hnot := h'.pinned loraId (h.pinned loraId hmem hnot) hnot
  slot s loraId hmem hnot hs := by
    have hnot' : ¬ unpinned loraId := fun hun => hnot (hsub loraId hun)
    exact h'.slot s loraId (h.pinned loraId hmem hnot') hnot (h.slot s loraId hmem hnot hs)
  encoder s hs := by
    obtain ⟨hs', hkept'⟩ := h'.encoder s hs
    obtain ⟨hs'', hkept⟩ := h.encoder s hs'
    exact ⟨hs'', fun loraId hloraId => hkept' loraId (hkept loraId hloraId)⟩

/-- Dropping the slot of an adapter that is not pinned drops no pinned one. -/
theorem of_not_pinned {loraId : ℤ} (h : Keeps unpinned (· = loraId) m m')
    (hnot : loraId ∉ m.pinned) : Keeps unpinned dropped m m' where
  pinned := h.pinned
  slot s k hmem _ hs := h.slot s k hmem (fun heq => hnot (heq ▸ hmem)) hs
  encoder := h.encoder

end Keeps

/-- Nothing is unpinned, nothing is dropped. -/
abbrev KeepsAll (m m' : ModelManager W C) : Prop :=
  Keeps (fun _ => False) (fun _ => False) m m'

theorem KeepsAll.trans {m m' m'' : ModelManager W C} (h : KeepsAll m m')
    (h' : KeepsAll m' m'') : KeepsAll m m'' :=
  Keeps.trans h h' fun _ => id

end

/-! ### The operations -/

section

variable {W : Type} [Zero W] {C : Type → Type} [LruCache ℤ C] {m : ModelManager W C}

/-- `deactivate_adapter` reads and writes neither the registered cache nor the pins. -/
theorem deactivate_withRegistered (loraId : ℤ) (registered : C (LoadedLoRA W))
    (pinned : Finset ℤ) :
    (ModelManager.deactivateAdapter
        { m with registered := registered, pinned := pinned } loraId).2 =
      { (m.deactivateAdapter loraId).2 with registered := registered, pinned := pinned } := by
  have hslot : ModelManager.slotForAdapter
      { m with registered := registered, pinned := pinned } loraId = m.slotForAdapter loraId := rfl
  rw [ModelManager.deactivateAdapter, hslot, ModelManager.deactivateAdapter]
  cases m.slotForAdapter loraId <;> rfl

@[simp] theorem registered_deactivate (loraId : ℤ) :
    (m.deactivateAdapter loraId).2.registered = m.registered := by
  rw [ModelManager.deactivateAdapter]
  cases m.slotForAdapter loraId <;> rfl

@[simp] theorem pinned_deactivate (loraId : ℤ) :
    (m.deactivateAdapter loraId).2.pinned = m.pinned := by
  rw [ModelManager.deactivateAdapter]
  cases m.slotForAdapter loraId <;> rfl

variable [Mul W] {astype : W → W}

/-- Afterwards the adapter has no slot. -/
theorem SlotTable.not_mem_deactivate (h : SlotTable astype m) {loraId k : ℤ} :
    some k ∈ (m.deactivateAdapter loraId).2.loraIndexToId ↔
      k ≠ loraId ∧ some k ∈ m.loraIndexToId := by
  by_cases hmem : some loraId ∈ m.loraIndexToId
  · obtain ⟨slot, hslot⟩ := List.mem_iff_getElem?.mp hmem
    rw [h.deactivate_of_slot hslot]
    exact h.distinct.mem_set_none hslot k
  · rw [ModelManager.deactivate_of_not_mem hmem]
    constructor
    · intro hk
      refine ⟨?_, hk⟩
      rintro rfl
      exact hmem hk
    · exact And.right

/-- `deactivate_adapter` drops the slot of its adapter only. -/
theorem SlotTable.keeps_deactivate (h : SlotTable astype m) (loraId : ℤ) :
    Keeps (fun _ => False) (· = loraId) m (m.deactivateAdapter loraId).2 := by
  by_cases hmem : some loraId ∈ m.loraIndexToId
  · obtain ⟨slot, hslot⟩ := List.mem_iff_getElem?.mp hmem
    rw [h.deactivate_of_slot hslot]
    refine ⟨fun k hk _ => hk, fun s k _ hne hs => ?_, fun s hs => ?_⟩
    · show (m.loraIndexToId.set slot none)[s]? = some (some k)
      rw [List.getElem?_set_ne]
      · exact hs
      · rintro rfl
        rw [hslot] at hs
        exact hne (Option.some.inj (Option.some.inj hs)).symm
    · -- the encoder's slot was reset if it was the one that is freed
      dsimp only at hs ⊢
      split at hs
      · cases hs
      · next hne =>
        refine ⟨hs, fun k hk => ?_⟩
        rw [List.getElem?_set_ne]
        · exact hk
        · rintro rfl
          exact hne hs
  · rw [ModelManager.deactivate_of_not_mem hmem]
    exact .of_eq rfl rfl rfl

omit [LruCache ℤ C] [Mul W] in
/-- Committing an adapter to a slot that is free keeps what is in the other slots. -/
theorem keeps_commit {loraId : ℤ} {slot : ℕ} {prepared : PreparedAdapterUpdate W}
    (hslot : m.loraIndexToId[slot]? = some none ∨ m.loraIndexToId[slot]? = some (some loraId)) :
    KeepsAll m (m.commitAdapterUpdate loraId slot prepared) := by
  have htable : ∀ (s : ℕ) (k : ℤ), m.loraIndexToId[s]? = some (some k) →
      (m.loraIndexToId.set slot (some loraId))[s]? = some (some k) := by
    intro s k hs
    rw [List.getElem?_set]
    split
    · next heq =>
      subst heq
      have hlt := (List.getElem?_eq_some_iff.mp hs).1
      rcases hslot with hslot | hslot
      · rw [hslot] at hs
        simp at hs
      · rw [if_pos hlt, ← hslot, hs]
    · exact hs
  refine ⟨fun k hk _ => hk, fun s k _ _ hs => htable s k hs, fun s hs => ⟨hs, htable s⟩⟩

variable [LawfulLruCache ℤ C]

/-- Registering a new adapter in a cache with room, in which the resident and the pinned
adapters are as before. -/
theorem SlotTable.register (h : SlotTable astype m) {adapter : LoadedLoRA W}
    {registered : C (LoadedLoRA W)} (hnew : (get? m.registered adapter.loraId).isNone)
    (hroom : len registered < capacity registered)
    (hkept : ∀ k, some k ∈ m.loraIndexToId ∨ k ∈ m.pinned →
      get? registered k = get? m.registered k)
    (hpins : pinnedItems registered = m.pinned) :
    SlotTable astype
      { m with registered := LruCache.set registered adapter.loraId adapter } := by
  have hget : ∀ k, (get? m.registered k).isSome →
      some k ∈ m.loraIndexToId ∨ k ∈ m.pinned →
      get? (LruCache.set registered adapter.loraId adapter) k = get? m.registered k := by
    intro k hsome hk
    rw [get?_set _ (Or.inr hroom), if_neg, hkept k hk]
    rintro rfl
    simp_all
  refine h.withRegistered ?_ ?_ ?_ ?_ ?_
  · intro k hk
    exact hget k (h.resident_registered k hk) (Or.inl hk)
  · exact len_set_le _ (Or.inr hroom) (Nat.le_of_lt hroom)
  · intro k hk
    have hsome := h.pinned_registered k hk
    rwa [hget k hsome (Or.inr hk)]
  · rw [pinnedItems_set _ (Or.inr hroom), hpins]
  · intro k _
    exact Iff.rfl

/-- **`add_adapter`** keeps the invariant, the pins and the slots of pinned adapters. -/
theorem SlotTable.addAdapter (h : SlotTable astype m) (adapter : LoadedLoRA W) :
    SlotTable astype (m.addAdapter astype adapter).2 ∧
      KeepsAll m (m.addAdapter astype adapter).2 := by
  unfold ModelManager.addAdapter
  split
  · next hsome => exact ⟨h.touchRegistered hsome, .of_eq rfl rfl rfl⟩
  · next hsome =>
    have hnew : (get? m.registered adapter.loraId).isNone := by simpa using hsome
    split
    · exact ⟨h, .of_eq rfl rfl rfl⟩
    · split
      · split
        · exact ⟨h, .of_eq rfl rfl rfl⟩
        · next evictedId registered hpop =>
          -- the evicted adapter is registered and not pinned
          rw [popitem_eq, Option.map_eq_some_iff] at hpop
          obtain ⟨k, hevicted, heq⟩ := hpop
          obtain ⟨rfl, rfl⟩ := Prod.mk.inj heq
          obtain ⟨hstored, hunpinned⟩ := firstUnpinned_spec hevicted
          rw [h.pins_registered] at hunpinned
          have hkeeps : KeepsAll m (m.deactivateAdapter k).2 :=
            (h.keeps_deactivate k).of_not_pinned hunpinned
          dsimp only
          rw [deactivate_withRegistered k _ m.pinned, ← pinned_deactivate k]
          refine ⟨(h.deactivate k).register ?_ ?_ ?_ ?_, hkeeps.trans (.of_eq rfl rfl rfl)⟩
          · rwa [registered_deactivate]
          · rw [capacity_pop]
            exact Nat.lt_of_lt_of_le (len_pop_lt hstored) h.len_registered
          · intro k' hk'
            rw [registered_deactivate, get?_pop, if_neg]
            rintro rfl
            rcases hk' with hmem | hpinned
            · exact (h.not_mem_deactivate.mp hmem).1 rfl
            · rw [pinned_deactivate] at hpinned
              exact hunpinned hpinned
          · rw [pinnedItems_pop, h.pins_registered, Finset.erase_eq_of_notMem hunpinned,
              pinned_deactivate]
      · next hlen =>
        refine ⟨h.register hnew (not_le.mp hlen) ?_ h.pins_registered, .of_eq rfl rfl rfl⟩
        intro k _
        rfl

/-- Evicting the resident adapter of a slot, unless it is pinned, frees the slot. -/
theorem SlotTable.evictResident (h : SlotTable astype m) {slot : ℕ} {entry : Option ℤ}
    (hslot : m.loraIndexToId[slot]? = some entry)
    (hunpinned : ∀ k, entry = some k → k ∉ m.pinned) :
    SlotTable astype (m.evictResident slot) ∧ KeepsAll m (m.evictResident slot) ∧
      (m.evictResident slot).loraIndexToId = m.loraIndexToId.set slot none ∧
      (m.evictResident slot).registered = m.registered ∧
      (m.evictResident slot).pinned = m.pinned ∧
      ∀ adapter prepared, PreparedFor astype adapter m.modules prepared →
        PreparedFor astype adapter (m.evictResident slot).modules prepared := by
  have hentry : m.loraIndexToId.getD slot none = entry := by
    rw [List.getD_eq_getElem?_getD, hslot, Option.getD_some]
  rw [ModelManager.evictResident, hentry]
  cases entry with
  | none =>
    refine ⟨h, .of_eq rfl rfl rfl, ?_, rfl, rfl, fun _ _ => id⟩
    obtain ⟨hlt, hnone⟩ := List.getElem?_eq_some_iff.mp hslot
    have hself : m.loraIndexToId.set slot m.loraIndexToId[slot] = m.loraIndexToId :=
      List.set_getElem_self hlt
    rw [hnone] at hself
    exact hself.symm
  | some k =>
    have hkeeps : KeepsAll m (m.deactivateAdapter k).2 :=
      (h.keeps_deactivate k).of_not_pinned (hunpinned k rfl)
    refine ⟨h.deactivate k, hkeeps, ?_, registered_deactivate k, pinned_deactivate k, ?_⟩
    · dsimp only
      rw [h.deactivate_of_slot hslot]
    · intro adapter prepared hprepared
      dsimp only
      rw [h.deactivate_of_slot hslot]
      exact hprepared.resetLora slot

/-- **`_activate_prepared`** of a registered adapter without a slot. -/
theorem SlotTable.activatePrepared (h : SlotTable astype m) {adapter : LoadedLoRA W}
    {loraId : ℤ} {slot : ℕ} {prepared : PreparedAdapterUpdate W} {entry : Option ℤ}
    (hadapter : get? m.registered loraId = some adapter)
    (hnot : some loraId ∉ m.loraIndexToId)
    (hslot : m.loraIndexToId[slot]? = some entry)
    (hunpinned : ∀ k, entry = some k → k ∉ m.pinned)
    (hprepared : PreparedFor astype adapter m.modules prepared) :
    SlotTable astype (m.activatePrepared loraId slot prepared) ∧
      KeepsAll m (m.activatePrepared loraId slot prepared) ∧
      some loraId ∈ (m.activatePrepared loraId slot prepared).loraIndexToId ∧
      (m.activatePrepared loraId slot prepared).registered = m.registered := by
  obtain ⟨hevict, hkeeps, htable, hregistered, hpinned, hprep⟩ := h.evictResident hslot hunpinned
  set m₁ := m.evictResident slot with hm₁
  have hlt : slot < m.loraIndexToId.length := (List.getElem?_eq_some_iff.mp hslot).1
  have hfree : m₁.loraIndexToId[slot]? = some none := by
    rw [htable, List.getElem?_set_self hlt]
  have hnot₁ : some loraId ∉ m₁.loraIndexToId := by
    intro hmem
    rw [htable] at hmem
    rcases List.mem_or_eq_of_mem_set hmem with hmem | heq
    · exact hnot hmem
    · cases heq
  have hadapter₁ : get? m₁.registered loraId = some adapter := by rw [hregistered, hadapter]
  -- a free slot means that the active cache has room
  have hroom : len m₁.active < capacity m₁.active := by
    have hle : len m₁.active ≤ (m₁.loraIndexToId.filterMap id).length := by
      apply len_le_of_mem
      intro k hk
      exact List.mem_filterMap.mpr ⟨some k, hevict.mem_iff_active.mpr hk, rfl⟩
    rw [hevict.capacity_active]
    exact Nat.lt_of_le_of_lt hle (length_filterMap_lt hfree)
  have hset : ∀ k, (get? (LruCache.set m₁.active loraId ()) k).isSome ↔
      k = loraId ∨ (get? m₁.active k).isSome := by
    intro k
    rw [get?_set _ (Or.inr hroom)]
    split
    · next heq => simp [heq]
    · next hne => simp [hne]
  have hpins : ∀ k, k ∈ pinnedItems (LruCache.set m₁.active loraId ()) ↔
      k ∈ m₁.pinned ∧ some k ∈ m₁.loraIndexToId := by
    intro k
    rw [pinnedItems_set _ (Or.inr hroom)]
    exact hevict.pins_active k
  have hreg : ∀ k, get? m₁.registered k =
      if k = loraId then some adapter else get? m₁.registered k := by
    intro k
    split
    · next heq => rw [heq, hadapter₁]
    · rfl
  have honly : ∀ s : ℕ, m₁.loraIndexToId[s]? = some (some loraId) → s = slot :=
    fun s hs => absurd (List.mem_of_getElem? hs) hnot₁
  have hmem : some loraId ∈ m₁.loraIndexToId.set slot (some loraId) :=
    (mem_set_some (Or.inl hfree) loraId).mpr (Or.inl rfl)
  have hkeeps' : KeepsAll m (m₁.commitAdapterUpdate loraId slot prepared) :=
    hkeeps.trans (keeps_commit (Or.inl hfree))
  have hactive : (m₁.commitAdapterUpdate loraId slot prepared).active = m₁.active := rfl
  rw [ModelManager.activatePrepared, ← hm₁]
  dsimp only
  rw [hactive]
  split
  · next hpin =>
    have hsome := (hset loraId).mpr (Or.inl rfl)
    refine ⟨hevict.commit (Or.inl hfree) honly (hprep adapter prepared hprepared) hreg
      hevict.len_registered hevict.pins_registered ?_ ?_ ?_, hkeeps'.trans (.of_eq rfl rfl rfl),
      hmem, hregistered⟩
    · intro k
      rw [get?_pin]
      exact hset k
    · rw [capacity_pin, capacity_set]
    · intro k
      rw [pinnedItems_pin hsome, Finset.mem_insert, hpins k]
      constructor
      · rintro (rfl | ⟨hk, hmem⟩)
        · exact ⟨hpin, Or.inl rfl⟩
        · exact ⟨hk, Or.inr hmem⟩
      · rintro ⟨hk, rfl | hmem⟩
        · exact Or.inl rfl
        · exact Or.inr ⟨hk, hmem⟩
  · next hpin =>
    refine ⟨hevict.commit (Or.inl hfree) honly (hprep adapter prepared hprepared) hreg
      hevict.len_registered hevict.pins_registered hset ?_ ?_, hkeeps'.trans (.of_eq rfl rfl rfl),
      hmem, hregistered⟩
    · rw [capacity_set]
    · intro k
      rw [hpins k]
      refine and_congr_right fun hk => ⟨Or.inr, ?_⟩
      rintro (rfl | hmem)
      · exact absurd hk hpin
      · exact hmem

/-- **`activate_adapter`**: an adapter that is activated has a slot afterwards. -/
theorem SlotTable.activateAdapter (h : SlotTable astype m) (loraId : ℤ) :
    SlotTable astype (m.activateAdapter astype loraId).2 ∧
      KeepsAll m (m.activateAdapter astype loraId).2 ∧
      ∀ result, (m.activateAdapter astype loraId).1 = .ok result →
        some loraId ∈ (m.activateAdapter astype loraId).2.loraIndexToId ∧
        (get? (m.activateAdapter astype loraId).2.registered loraId).isSome := by
  unfold ModelManager.activateAdapter
  split
  · refine ⟨h, .of_eq rfl rfl rfl, ?_⟩
    intro result hresult
    cases hresult
  -- a registered adapter is touched first, whatever follows
  · next adapter hadapter =>
    have hsome : (get? m.registered loraId).isSome := by rw [hadapter]; rfl
    have htouched := h.touchRegistered hsome
    have hadapter' : get? (touch m.registered loraId) loraId = some adapter := by
      rw [get?_touch hsome, hadapter]
    dsimp only
    split
    · next hslot =>
      have hmem : some loraId ∈ m.loraIndexToId := List.isSome_idxOf?.mp hslot
      refine ⟨htouched.touchActive hmem, .of_eq rfl rfl rfl, ?_⟩
      intro result _
      exact ⟨hmem, by rw [hadapter']; rfl⟩
    · next hslot =>
      have hnot : some loraId ∉ m.loraIndexToId := by
        intro hmem
        exact hslot (List.isSome_idxOf?.mpr hmem)
      split
      · refine ⟨htouched, .of_eq rfl rfl rfl, ?_⟩
        intro result hresult
        cases hresult
      -- its weights are prepared before the slot of another adapter is given up
      · next slot hnext =>
        obtain ⟨entry, hentry, hunpinned⟩ := htouched.nextActivationSlot_spec hnext
        split
        · refine ⟨htouched, .of_eq rfl rfl rfl, ?_⟩
          intro result hresult
          cases hresult
        · next prepared hprepared =>
          obtain ⟨htable, hkeeps, hmem, hreg⟩ := htouched.activatePrepared hadapter' hnot hentry
            hunpinned (prepareAdapterUpdate_preparedFor hprepared)
          have hkept : KeepsAll m { m with registered := touch m.registered loraId } :=
            .of_eq rfl rfl rfl
          refine ⟨htable, hkept.trans hkeeps, ?_⟩
          intro result _
          exact ⟨hmem, by rw [hreg, hadapter']; rfl⟩

/-- Pinning a resident adapter in both caches. -/
theorem SlotTable.pin (h : SlotTable astype m) {loraId : ℤ}
    (hmem : some loraId ∈ m.loraIndexToId) :
    SlotTable astype
      { m with
        pinned := insert loraId m.pinned
        registered := LruCache.pin m.registered loraId
        active := LruCache.pin m.active loraId } := by
  have hregistered := h.resident_registered loraId hmem
  have hactive := h.mem_iff_active.mp hmem
  exact {
    distinct := h.distinct
    active_iff := by
      intro k
      rw [get?_pin]
      exact h.active_iff k
    capacity_active := by
      rw [capacity_pin]
      exact h.capacity_active
    resident_registered := by
      intro k hk
      rw [get?_pin]
      exact h.resident_registered k hk
    len_registered := by
      rw [capacity_pin]
      refine Nat.le_trans (len_mono fun k hk => ?_) h.len_registered
      rwa [get?_pin] at hk
    modules := by
      intro nm hnm
      refine (h.modules nm hnm).congr fun k _ => ?_
      rw [get?_pin]
    pinned_registered := by
      intro k hk
      rw [get?_pin]
      rcases Finset.mem_insert.mp hk with rfl | hk
      · exact hregistered
      · exact h.pinned_registered k hk
    pins_registered := by
      rw [pinnedItems_pin hregistered, h.pins_registered]
    pins_active := by
      intro k
      -- the pins of the active cache are the pinned adapters with a slot
      rw [pinnedItems_pin hactive, Finset.mem_insert, Finset.mem_insert, h.pins_active k]
      constructor
      · rintro (rfl | ⟨hk, hk'⟩)
        · exact ⟨Or.inl rfl, hmem⟩
        · exact ⟨Or.inr hk, hk'⟩
      · rintro ⟨rfl | hk, hk'⟩
        · exact Or.inl rfl
        · exact Or.inr ⟨hk, hk'⟩
    routing := h.routing }

/-- **`pin_adapter`** keeps the invariant, and every pin there was; the adapter that was pinned
has a slot. -/
theorem SlotTable.pinAdapter (h : SlotTable astype m) (loraId : ℤ) :
    SlotTable astype (m.pinAdapter astype loraId).2 ∧
      KeepsAll m (m.pinAdapter astype loraId).2 ∧
      ∀ result, (m.pinAdapter astype loraId).1 = .ok result →
        loraId ∈ (m.pinAdapter astype loraId).2.pinned ∧
        some loraId ∈ (m.pinAdapter astype loraId).2.loraIndexToId := by
  have hpinned : ∀ m' : ModelManager W C, KeepsAll m'
      { m' with
        pinned := insert loraId m'.pinned
        registered := LruCache.pin m'.registered loraId
        active := LruCache.pin m'.active loraId } := by
    intro m'
    refine ⟨fun k hk _ => Finset.mem_insert_of_mem hk, fun s k _ _ hs => hs, fun s hs => ?_⟩
    exact ⟨hs, fun _ => id⟩
  unfold ModelManager.pinAdapter
  split
  · refine ⟨h, .of_eq rfl rfl rfl, ?_⟩
    intro result hresult
    cases hresult
  · by_cases hactive : (get? m.active loraId).isSome
    · rw [if_pos hactive]
      have hmem := h.mem_iff_active.mpr hactive
      exact ⟨h.pin hmem, hpinned m, fun _ _ => ⟨Finset.mem_insert_self _ _, hmem⟩⟩
    -- an adapter without a slot is activated first
    · rw [if_neg hactive]
      obtain ⟨htable, hkeeps, hslot⟩ := h.activateAdapter loraId
      cases hrun : m.activateAdapter astype loraId with
      | mk result m' =>
        rw [hrun] at htable hkeeps hslot
        cases result with
        | error e =>
          refine ⟨htable, hkeeps, ?_⟩
          intro result hresult
          cases hresult
        | ok activated =>
          have hmem := (hslot activated rfl).1
          exact ⟨htable.pin hmem, hkeeps.trans (hpinned m'),
            fun _ _ => ⟨Finset.mem_insert_self _ _, hmem⟩⟩

/-- **`replace_adapter`** keeps the invariant, the pins and the slots of pinned adapters, also
when it raises after the new version was registered. -/
theorem SlotTable.replaceAdapter (h : SlotTable astype m) (adapter : LoadedLoRA W) :
    SlotTable astype (m.replaceAdapter astype adapter).2 ∧
      KeepsAll m (m.replaceAdapter astype adapter).2 := by
  unfold ModelManager.replaceAdapter
  dsimp only
  split
  · exact ⟨h, .of_eq rfl rfl rfl⟩
  · next hstored =>
    have hsome : (get? m.registered adapter.loraId).isSome := by
      rw [Option.isSome_iff_ne_none]
      intro hnone
      exact hstored (by rw [hnone]; rfl)
    set registered := touch (LruCache.set m.registered adapter.loraId adapter) adapter.loraId
      with hregistered
    have hset := fun k => get?_set adapter (Or.inl hsome : _ ∨ len m.registered < _) k
    have hstored : (get? (LruCache.set m.registered adapter.loraId adapter)
        adapter.loraId).isSome := by
      rw [hset, if_pos rfl]
      rfl
    have hreg : ∀ k, get? registered k =
        if k = adapter.loraId then some adapter else get? m.registered k := by
      intro k
      rw [hregistered, get?_touch hstored, hset]
    have hpins : pinnedItems registered = m.pinned := by
      rw [hregistered, pinnedItems_touch, pinnedItems_set _ (Or.inl hsome), h.pins_registered]
    have hlen : len registered ≤ capacity registered := by
      rw [hregistered, capacity_touch]
      refine Nat.le_trans (len_mono fun k hk => ?_)
        (len_set_le adapter (Or.inl hsome) h.len_registered)
      rwa [get?_touch hstored] at hk
    split
    · exact ⟨h, .of_eq rfl rfl rfl⟩
    · next prepared hprepared =>
      cases hslot : ModelManager.slotForAdapter { m with registered := registered }
          adapter.loraId with
      | none =>
        have hnot : some adapter.loraId ∉ m.loraIndexToId :=
          ModelManager.slotForAdapter_eq_none_iff.mp hslot
        -- without a slot the new version only has to be registered
        have htable : SlotTable astype { m with registered := registered } := by
          refine h.withRegistered ?_ hlen ?_ hpins fun _ _ => Iff.rfl
          · intro k hk
            rw [hreg k, if_neg]
            rintro rfl
            exact hnot hk
          · intro k hk
            rw [hreg k]
            split
            · rfl
            · exact h.pinned_registered k hk
        have hkept : KeepsAll m { m with registered := registered } := .of_eq rfl rfl rfl
        dsimp only
        split
        · exact ⟨htable, hkept⟩
        · next slot hnext =>
          obtain ⟨entry, hentry, hunpinned⟩ := htable.nextActivationSlot_spec hnext
          split
          · exact ⟨htable, hkept⟩
          · next prepared' hprepared' =>
            have hadapter : get? registered adapter.loraId = some adapter := by
              rw [hreg, if_pos rfl]
            obtain ⟨hactivated, hkeeps, -, -⟩ := htable.activatePrepared hadapter hnot hentry
              hunpinned (prepareAdapterUpdate_preparedFor hprepared')
            exact ⟨hactivated, hkept.trans hkeeps⟩
      | some slot =>
        have hown : m.loraIndexToId[slot]? = some (some adapter.loraId) :=
          h.slotForAdapter_eq_some_iff.mp hslot
        have hmem := List.mem_of_getElem? hown
        have hactive := h.mem_iff_active.mp hmem
        have hgetD : (m.slotForAdapter adapter.loraId).getD 0 = slot := by
          rw [h.slotForAdapter_eq_some_iff.mpr hown, Option.getD_some]
        have hkept : KeepsAll m (m.commitAdapterUpdate adapter.loraId slot prepared) :=
          keeps_commit (Or.inr hown)
        have hunchanged : (ModelManager.commitAdapterUpdate { m with registered := registered }
            adapter.loraId slot prepared).active = m.active := rfl
        dsimp only
        rw [hgetD, hunchanged]
        refine ⟨h.commit (Or.inr hown) (fun s hs => h.distinct s slot adapter.loraId hs hown)
          (prepareAdapterUpdate_preparedFor hprepared) hreg hlen hpins ?_ ?_ ?_,
          hkept.trans (.of_eq rfl rfl rfl)⟩
        · intro k
          rw [get?_touch hactive]
          constructor
          · exact Or.inr
          · rintro (rfl | hk)
            · exact hactive
            · exact hk
        · exact capacity_touch _ _
        · intro k
          rw [pinnedItems_touch, h.pins_active k]
          refine and_congr_right fun _ => ⟨Or.inr, ?_⟩
          rintro (rfl | hk)
          · exact hmem
          · exact hk

/-- **`remove_adapter`** unpins its adapter and drops its slot. -/
theorem SlotTable.removeAdapter (h : SlotTable astype m) (loraId : ℤ) :
    SlotTable astype (m.removeAdapter loraId).2 ∧
      Keeps (· = loraId) (· = loraId) m (m.removeAdapter loraId).2 := by
  have hkeeps := h.keeps_deactivate loraId
  rw [ModelManager.removeAdapter]
  dsimp only
  rw [deactivate_withRegistered loraId m.registered]
  constructor
  · refine (h.deactivate loraId).withRegistered ?_ ?_ ?_ ?_ ?_
    · intro k hk
      rw [get?_pop, if_neg (h.not_mem_deactivate.mp hk).1, registered_deactivate]
    · rw [capacity_pop]
      refine Nat.le_trans (len_mono fun k hk => ?_) h.len_registered
      rw [get?_pop] at hk
      split at hk
      · simp at hk
      · exact hk
    · intro k hk
      obtain ⟨hne, hk⟩ := Finset.mem_erase.mp hk
      rw [get?_pop, if_neg hne]
      exact h.pinned_registered k hk
    · rw [pinnedItems_pop, h.pins_registered]
    · intro k hk
      rw [pinned_deactivate, Finset.mem_erase]
      exact and_iff_right (h.not_mem_deactivate.mp hk).1
  · exact {
      pinned := by
        intro k hk hne
        exact Finset.mem_erase.mpr ⟨hne, hk⟩
      slot := hkeeps.slot
      encoder := hkeeps.encoder }

/-- The loop of `remove_all_adapters` empties the slots of the adapters it goes through. -/
theorem SlotTable.deactivateAll (h : SlotTable astype m) (loraIds : List ℤ) :
    SlotTable astype (loraIds.foldl (fun m loraId => (m.deactivateAdapter loraId).2) m) ∧
      (∀ k, some k ∈
          (loraIds.foldl (fun m loraId => (m.deactivateAdapter loraId).2) m).loraIndexToId →
        k ∉ loraIds ∧ some k ∈ m.loraIndexToId) ∧
      Keeps (fun _ => False) (fun _ => True) m
        (loraIds.foldl (fun m loraId => (m.deactivateAdapter loraId).2) m) := by
  induction loraIds generalizing m with
  | nil =>
    refine ⟨h, fun k hk => ⟨?_, hk⟩, .of_eq rfl rfl rfl⟩
    exact List.not_mem_nil
  | cons loraId loraIds ih =>
    obtain ⟨htable, hmem, hkeeps⟩ := ih (h.deactivate loraId)
    have hfirst := h.keeps_deactivate loraId
    refine ⟨htable, fun k hk => ?_, ?_⟩
    · obtain ⟨hnot, hk⟩ := hmem k hk
      obtain ⟨hne, hk⟩ := h.not_mem_deactivate.mp hk
      refine ⟨?_, hk⟩
      rw [List.mem_cons, not_or]
      exact ⟨hne, hnot⟩
    · refine Keeps.trans ⟨hfirst.pinned, ?_, hfirst.encoder⟩ hkeeps fun _ => False.elim
      intro s k _ hnot
      exact absurd trivial hnot

/-- **`remove_all_adapters`** empties everything. -/
theorem SlotTable.removeAllAdapters (h : SlotTable astype m) :
    SlotTable astype m.removeAllAdapters ∧
      Keeps (fun _ => True) (fun _ => True) m m.removeAllAdapters := by
  obtain ⟨htable, hmem, hkeeps⟩ := h.deactivateAll (m.loraIndexToId.filterMap id)
  -- deactivating every adapter of the table leaves no id in it
  have hempty : ∀ k, some k ∉ ((m.loraIndexToId.filterMap id).foldl
      (fun m loraId => (m.deactivateAdapter loraId).2) m).loraIndexToId := by
    intro k hk
    obtain ⟨hnot, hk⟩ := hmem k hk
    exact hnot (List.mem_filterMap.mpr ⟨some k, hk, rfl⟩)
  rw [ModelManager.removeAllAdapters]
  constructor
  · exact {
      distinct := htable.distinct
      active_iff := by
        intro k
        rw [get?_clear]
        constructor
        · intro hk
          cases hk
        · intro hk
          exact absurd hk (hempty k)
      capacity_active := by
        rw [capacity_clear]
        exact htable.capacity_active
      resident_registered := by
        intro k hk
        exact absurd hk (hempty k)
      len_registered := by
        have hzero : len (clear ((m.loraIndexToId.filterMap id).foldl
            (fun m loraId => (m.deactivateAdapter loraId).2) m).registered) ≤
            ([] : List ℤ).length := by
          apply len_le_of_mem
          intro k hk
          rw [get?_clear] at hk
          cases hk
        exact Nat.le_trans hzero (Nat.zero_le _)
      modules := by
        intro nm hnm
        refine (htable.modules nm hnm).congr fun k hk => ?_
        exact absurd hk (hempty k)
      pinned_registered := by
        intro k hk
        cases hk
      pins_registered := pinnedItems_clear _
      pins_active := by
        intro k
        rw [pinnedItems_clear]
        constructor
        · intro hk
          cases hk
        · intro hk
          exact absurd hk.2 (hempty k)
      routing := htable.routing }
  · refine ⟨fun k _ hnot => absurd trivial hnot, ?_, hkeeps.encoder⟩
    intro s k _ hnot
    exact absurd trivial hnot

omit [LawfulLruCache ℤ C] in
/-- `set_encoder_adapter` writes only the encoder's slot. -/
theorem SlotTable.setEncoderAdapter (h : SlotTable astype m) (loraId : Option ℤ) :
    SlotTable astype (m.setEncoderAdapter loraId).2 := by
  unfold ModelManager.setEncoderAdapter
  cases loraId with
  | none => exact { h with }
  | some loraId =>
    dsimp only
    split
    · exact h
    · split
      · exact h
      · exact { h with }

omit [LawfulLruCache ℤ C] in
/-- **`set_adapter_mapping`** writes the routing of the mapping over the table. -/
theorem SlotTable.setAdapterMapping (h : SlotTable astype m) (mapping : LoRAMapping) :
    SlotTable astype (m.setAdapterMapping mapping).2 ∧
      KeepsAll m (m.setAdapterMapping mapping).2 ∧
      ((m.setAdapterMapping mapping).1 = .ok () →
        (m.setAdapterMapping mapping).2.punicaWrapper =
          updateMetadata mapping (m.setAdapterMapping mapping).2.loraIndexToId) := by
  unfold ModelManager.setAdapterMapping
  split
  · next heq => exact ⟨h, .of_eq rfl rfl rfl, fun _ => h.routing mapping heq.symm⟩
  · dsimp only
    split
    · refine ⟨h, .of_eq rfl rfl rfl, ?_⟩
      intro hok
      cases hok
    · refine ⟨{ h with routing := ?_ }, .of_eq rfl rfl rfl, fun _ => rfl⟩
      intro mapping' heq
      cases heq
      rfl

end

end VllmMetal.Lora
