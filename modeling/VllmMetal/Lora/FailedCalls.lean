import VllmMetal.Lora.SlotRun

/-!
# Calls that raise

A call that raises leaves the manager as it was, up to the order of use in the two caches, with
one exception: `replace_adapter` registers the new version before it looks for a slot, so when
the adapter has no slot and every slot has a pinned adapter, it raises with the old version
gone.

## Main definitions

* `Unchanged m m'` — the managers differ in the order of use at most.
* `ReplaceLosesVersion astype m adapter` — the exception.

## Main results

* `failed_call_unchanged_iff` — **a call that raises changes nothing, but for the exception**.
* `replace_loses_version` — the exception is reachable.
-/

namespace VllmMetal.Lora

open LruCache LawfulLruCache

section

variable {W : Type} {C : Type → Type} [LruCache ℤ C]

/-- Two managers that differ at most in the order of use of their caches. -/
structure Unchanged (m m' : ModelManager W C) : Prop where
  registered : ∀ loraId, get? m'.registered loraId = get? m.registered loraId
  pinsRegistered : pinnedItems m'.registered = pinnedItems m.registered
  active : ∀ loraId, get? m'.active loraId = get? m.active loraId
  pinsActive : pinnedItems m'.active = pinnedItems m.active
  pinned : m'.pinned = m.pinned
  loraIndexToId : m'.loraIndexToId = m.loraIndexToId
  modules : m'.modules = m.modules
  encoderSlot : m'.encoderSlot = m.encoderSlot
  punicaWrapper : m'.punicaWrapper = m.punicaWrapper
  lastMapping : m'.lastMapping = m.lastMapping

theorem Unchanged.refl (m : ModelManager W C) : Unchanged m m where
  registered _ := rfl
  pinsRegistered := rfl
  active _ := rfl
  pinsActive := rfl
  pinned := rfl
  loraIndexToId := rfl
  modules := rfl
  encoderSlot := rfl
  punicaWrapper := rfl
  lastMapping := rfl

/-- A registered cache that answers alike. -/
theorem Unchanged.withRegistered {m : ModelManager W C} {registered : C (LoadedLoRA W)}
    (hget : ∀ loraId, get? registered loraId = get? m.registered loraId)
    (hpins : pinnedItems registered = pinnedItems m.registered) :
    Unchanged m { m with registered := registered } :=
  { Unchanged.refl m with registered := hget, pinsRegistered := hpins }

end

section

variable {W : Type} {C : Type → Type} [LruCache ℤ C]

/-- The lines of `replace_adapter` that register the new version. -/
def registerVersion (m : ModelManager W C) (adapter : LoadedLoRA W) : ModelManager W C :=
  { m with registered := touch (LruCache.set m.registered adapter.loraId adapter) adapter.loraId }

variable [Zero W] [Mul W] (astype : W → W)

/-- **The exception**: a registered adapter without a slot is to be replaced by another version
that the layers accept, and every slot has a pinned adapter. -/
structure ReplaceLosesVersion (m : ModelManager W C) (adapter : LoadedLoRA W) : Prop where
  registered : ∃ old, get? m.registered adapter.loraId = some old ∧ old ≠ adapter
  noSlot : some adapter.loraId ∉ m.loraIndexToId
  accepted : ∃ prepared, m.prepareAdapterUpdate astype adapter 0 = .ok prepared
  full : none ∉ m.loraIndexToId
  allPinned : ∀ loraId, some loraId ∈ m.loraIndexToId → loraId ∈ m.pinned

variable [LawfulLruCache ℤ C] {astype} {m m' : ModelManager W C} {e : LoRAError}

omit [LawfulLruCache ℤ C] in
/-- `add_adapter` raises before it writes. -/
theorem addAdapter_error {adapter : LoadedLoRA W}
    (h : m.addAdapter astype adapter = (.error e, m')) : m' = m := by
  unfold ModelManager.addAdapter at h
  split at h
  · cases h
  · split at h
    · cases h
      rfl
    · split at h
      · split at h
        · cases h
          rfl
        · cases h
      · cases h

/-- `activate_adapter` raises after touching the adapter at most. -/
theorem activateAdapter_error {loraId : ℤ}
    (h : m.activateAdapter astype loraId = (.error e, m')) : Unchanged m m' := by
  unfold ModelManager.activateAdapter at h
  split at h
  · cases h
    exact .refl m
  · next adapter hadapter =>
    have hsome : (get? m.registered loraId).isSome := by rw [hadapter]; rfl
    have htouched : Unchanged m { m with registered := touch m.registered loraId } :=
      .withRegistered (get?_touch hsome) (pinnedItems_touch _ _)
    dsimp only at h
    split at h
    · cases h
    · split at h
      · cases h
        exact htouched
      · split at h
        · cases h
          exact htouched
        · cases h

/-- `pin_adapter` raises where `activate_adapter` does. -/
theorem pinAdapter_error {loraId : ℤ} (h : m.pinAdapter astype loraId = (.error e, m')) :
    Unchanged m m' := by
  unfold ModelManager.pinAdapter at h
  split at h
  · cases h
    exact .refl m
  · split at h
    · next e' m₁ hactivate =>
      cases h
      split at hactivate
      · cases hactivate
      · exact activateAdapter_error hactivate
    · cases h

/-- **`replace_adapter` raises** before it writes, or in the exceptional state. -/
theorem replaceAdapter_error (hm : SlotTable astype m) {adapter : LoadedLoRA W}
    (h : m.replaceAdapter astype adapter = (.error e, m')) :
    m' = m ∨ ((get? m.registered adapter.loraId).isSome ∧
      some adapter.loraId ∉ m.loraIndexToId ∧
      (∃ prepared, m.prepareAdapterUpdate astype adapter 0 = .ok prepared) ∧
      none ∉ m.loraIndexToId ∧ (∀ loraId, some loraId ∈ m.loraIndexToId → loraId ∈ m.pinned) ∧
      m' = registerVersion m adapter) := by
  unfold ModelManager.replaceAdapter at h
  dsimp only at h
  split at h
  · cases h
    exact Or.inl rfl
  · next hstored =>
    have hsome : (get? m.registered adapter.loraId).isSome := by
      rw [Option.isSome_iff_ne_none]
      intro hnone
      exact hstored (by rw [hnone]; rfl)
    split at h
    · cases h
      exact Or.inl rfl
    · next prepared hprepared =>
      split at h
      · next hslot =>
        have hnot : some adapter.loraId ∉ m.loraIndexToId :=
          ModelManager.slotForAdapter_eq_none_iff.mp hslot
        split at h
        · next hnext =>
          have hnone := hm.nextActivationSlot_error_iff.mp ⟨_, hnext⟩
          cases h
          exact Or.inr ⟨hsome, hnot, ⟨prepared, prepareAdapterUpdate_slot hprepared⟩, hnone.1,
            hnone.2, rfl⟩
        · next slot hnext =>
          -- the update was accepted for another slot, so it is for this one
          have hagain : (registerVersion m adapter).prepareAdapterUpdate astype adapter slot =
              .ok prepared := prepareAdapterUpdate_slot hprepared
          rw [← registerVersion, hagain] at h
          cases h
      · cases h

omit [Zero W] [Mul W] in
/-- The new version is registered, and nothing else. -/
theorem get?_registerVersion {adapter : LoadedLoRA W}
    (hsome : (get? m.registered adapter.loraId).isSome) (loraId : ℤ) :
    get? (registerVersion m adapter).registered loraId =
      if loraId = adapter.loraId then some adapter else get? m.registered loraId := by
  have hset := fun k => get?_set adapter (Or.inl hsome : _ ∨ len m.registered < _) k
  have hstored : (get? (LruCache.set m.registered adapter.loraId adapter)
      adapter.loraId).isSome := by
    rw [hset, if_pos rfl]
    rfl
  rw [registerVersion, get?_touch hstored, hset]

/-- In the exceptional state it does raise, with the new version registered. -/
theorem ReplaceLosesVersion.replaceAdapter (hm : SlotTable astype m) {adapter : LoadedLoRA W}
    (h : ReplaceLosesVersion astype m adapter) :
    ∃ e, m.replaceAdapter astype adapter = (.error e, registerVersion m adapter) := by
  obtain ⟨old, hold, -⟩ := h.registered
  obtain ⟨prepared, hprepared⟩ := h.accepted
  have hslot : m.slotForAdapter adapter.loraId = none :=
    ModelManager.slotForAdapter_eq_none_iff.mpr h.noSlot
  obtain ⟨e, he⟩ := hm.nextActivationSlot_error_iff.mpr ⟨h.full, h.allPinned⟩
  have hslot' : (registerVersion m adapter).slotForAdapter adapter.loraId = none := hslot
  have he' : (registerVersion m adapter).nextActivationSlot = .error e := he
  refine ⟨e, ?_⟩
  unfold ModelManager.replaceAdapter
  dsimp only
  rw [hold, hslot, Option.getD_none, hprepared, ← registerVersion, hslot']
  dsimp only
  rw [he']
  rfl

omit [Zero W] [Mul W] in
/-- Registering the version that is registered changes nothing. -/
theorem unchanged_registerVersion {adapter : LoadedLoRA W}
    (h : get? m.registered adapter.loraId = some adapter) :
    Unchanged m (registerVersion m adapter) := by
  have hsome : (get? m.registered adapter.loraId).isSome := by rw [h]; rfl
  refine .withRegistered (fun loraId => ?_) ?_
  · refine (get?_registerVersion hsome loraId).trans ?_
    split
    · next heq => rw [heq, h]
    · rfl
  · rw [pinnedItems_touch, pinnedItems_set _ (Or.inl hsome)]

omit [Zero W] [Mul W] [LruCache ℤ C] [LawfulLruCache ℤ C] in
/-- Forgetting what a call returns keeps what it raises. -/
theorem eq_error_of_map {α : Type} {p : Except LoRAError α × ModelManager W C}
    (h : Prod.map (Except.map fun _ => ()) id p = (.error e, m')) : p = (.error e, m') := by
  obtain ⟨result, m⟩ := p
  cases result with
  | error e' =>
    cases h
    rfl
  | ok a => cases h

/-- **A call that raises changes nothing** up to the order of use in the caches, in every state
that calls lead to, exactly when it is not the exceptional call of `replace_adapter`. -/
theorem failed_call_unchanged_iff {config : LoRAConfig} {hasEncoder : Bool}
    {targets : List WrapTarget} {m₀ : ModelManager W C} {calls : List (Call W)}
    (hnew : ModelManager.new config hasEncoder targets = .ok m₀)
    (hrun : Run (Called astype) m₀ calls m) (call : Call W) :
    (∀ e m', call.run astype m = (.error e, m') → Unchanged m m') ↔
      ∀ adapter, call = .replace adapter → ¬ ReplaceLosesVersion astype m adapter := by
  have hm : SlotTable astype m := slotTable_called (slotTable_new hnew) hrun
  constructor
  -- a lost version is a change that can be seen in the registered cache
  · rintro hunchanged adapter rfl hlost
    obtain ⟨e, hraises⟩ := hlost.replaceAdapter hm
    obtain ⟨old, hold, hne⟩ := hlost.registered
    have hsame := (hunchanged e _ hraises).registered adapter.loraId
    have hsome : (get? m.registered adapter.loraId).isSome := by rw [hold]; rfl
    rw [get?_registerVersion hsome, if_pos rfl, hold] at hsame
    exact hne (Option.some.inj hsame).symm
  · intro hnot e m' hraises
    cases call with
    | add adapter => exact addAdapter_error (eq_error_of_map hraises) ▸ .refl m
    -- a replacement that raises has changed at most its registration
    | replace adapter =>
      rcases replaceAdapter_error hm hraises with rfl | ⟨hsome, hslot, hok, hfull, hpins, rfl⟩
      · exact .refl m'
      · obtain ⟨old, hold⟩ := Option.isSome_iff_exists.mp hsome
        by_cases heq : old = adapter
        · exact unchanged_registerVersion (heq ▸ hold)
        · exact absurd ⟨⟨old, hold, heq⟩, hslot, hok, hfull, hpins⟩ (hnot adapter rfl)
    | remove loraId => cases hraises
    | removeAll => cases hraises
    | pin loraId => exact pinAdapter_error (eq_error_of_map hraises)
    | activate loraId => exact activateAdapter_error (eq_error_of_map hraises)
    | deactivate loraId => cases hraises
    | setEncoder loraId =>
      have hrun : m.setEncoderAdapter loraId = (.error e, m') := hraises
      unfold ModelManager.setEncoderAdapter at hrun
      split at hrun
      · cases hrun
      · split at hrun
        · cases hrun
          exact .refl m
        · split at hrun
          · cases hrun
            exact .refl m
          · cases hrun
    | setMapping mapping =>
      have hrun : m.setAdapterMapping mapping = (.error e, m') := hraises
      unfold ModelManager.setAdapterMapping at hrun
      split at hrun
      · cases hrun
      · dsimp only at hrun
        split at hrun
        · cases hrun
          exact .refl m
        · cases hrun

end

/-- The calls that fill the one slot with a pinned adapter, with another one registered. -/
def pinnedCalls : List (Call ℤ) := [.add (tinyAdapter 7 3), .add (tinyAdapter 8 3), .pin 7]

/-- After them, activating the other adapter raises and changes nothing. -/
theorem failed_call_unchanged_iff_activate :
    ∃ m e m', Run (Called id) tinyManager pinnedCalls m ∧
      (Call.activate 8).run id m = (.error e, m') ∧ Unchanged m m' := by
  have hnew : ModelManager.new tinyConfig true [⟨"q", "LoRA", 1, 1⟩] = .ok tinyManager := rfl
  have hrun : ∃ m, Run (Called id) tinyManager pinnedCalls m ∧
      ∃ e m', (Call.activate 8).run id m = (.error e, m') :=
    ⟨_, .cons rfl (.cons rfl (.cons rfl (.nil _))), _, _, rfl⟩
  obtain ⟨m, hrun, e, m', hraises⟩ := hrun
  have hunchanged := (failed_call_unchanged_iff hnew hrun (.activate 8)).mpr
    fun adapter heq => by cases heq
  exact ⟨m, e, m', hrun, hraises, hunchanged e m' hraises⟩

/-- **A failed replacement loses the old version**: every slot is pinned, and `replace_adapter`
raises with the new version registered. -/
theorem replace_loses_version :
    ∃ m e m', Run (Called id) tinyManager pinnedCalls m ∧
      (Call.replace (tinyAdapter 8 5)).run id m = (.error e, m') ∧
      e = .allSlotsPinned ∧
      (get? m.registered 8).map LoadedLoRA.weights = some (tinyAdapter 8 3).weights ∧
      (get? m'.registered 8).map LoadedLoRA.weights = some (tinyAdapter 8 5).weights ∧
      (tinyAdapter 8 3).weights ≠ (tinyAdapter 8 5).weights := by
  refine ⟨_, _, _, .cons rfl (.cons rfl (.cons rfl (.nil _))), rfl, rfl, rfl, rfl, ?_⟩
  intro heq
  have hlookup := congrArg (fun d => d.get? "q") heq
  revert hlookup
  decide

end VllmMetal.Lora
