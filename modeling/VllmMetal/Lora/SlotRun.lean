import VllmMetal.Lib.Run
import VllmMetal.Lora.SlotTable

/-!
# Runs of calls on the manager

The invariant of the slot table over runs of calls, with the pinned adapters and the adapter
that the encoder was set for.

## Main definitions

* `Call.unpins`, `Call.drops` — what a call takes from a pinned adapter.
* `encoderTarget` — the adapter that the encoder was last set for.

## Main results

* `SlotTable.call`, `slotTable_called` — every call, every run of calls, keeps the invariant.
* `pinned_run` — a pinned adapter over a run.
* `slot_table_in_step` — **the slot table keeps in step over every run of successful calls**.
-/

namespace VllmMetal.Lora

open LruCache LawfulLruCache

section

variable {W : Type} [Zero W] [Mul W] {C : Type → Type} [LruCache ℤ C] [LawfulLruCache ℤ C]
  {m : ModelManager W C} {astype : W → W}

/-! ### Calls and runs -/

/-- The adapters that a call unpins. -/
def Call.unpins : Call W → ℤ → Prop
  | .remove loraId, k => k = loraId
  | .removeAll, _ => True
  | _, _ => False

/-- The adapters whose slot a call drops even when they are pinned. -/
def Call.drops : Call W → ℤ → Prop
  | .remove loraId, k => k = loraId
  | .deactivate loraId, k => k = loraId
  | .removeAll, _ => True
  | _, _ => False

/-- The adapter that the encoder was last set for. -/
def encoderTarget (calls : List (Call W)) : Option ℤ :=
  calls.foldl (fun target call => match call with
    | .setEncoder loraId => loraId
    | _ => target) none

/-- **Every call keeps the invariant**, whether it returns or raises. -/
theorem SlotTable.call (h : SlotTable astype m) (call : Call W) :
    SlotTable astype (call.run astype m).2 := by
  cases call with
  | add adapter => exact (h.addAdapter adapter).1
  | replace adapter => exact (h.replaceAdapter adapter).1
  | remove loraId => exact (h.removeAdapter loraId).1
  | removeAll => exact h.removeAllAdapters.1
  | pin loraId => exact (h.pinAdapter loraId).1
  | activate loraId => exact (h.activateAdapter loraId).1
  | deactivate loraId => exact h.deactivate loraId
  | setEncoder loraId => exact h.setEncoderAdapter loraId
  | setMapping mapping => exact (h.setAdapterMapping mapping).1

/-- **What a call does to pinned adapters and to the encoder's slot**, unless it sets that. -/
theorem Keeps.call (h : SlotTable astype m) (call : Call W)
    (hencoder : ∀ loraId, call ≠ .setEncoder loraId) :
    Keeps call.unpins call.drops m (call.run astype m).2 := by
  cases call with
  | add adapter => exact (h.addAdapter adapter).2
  | replace adapter => exact (h.replaceAdapter adapter).2
  | remove loraId => exact (h.removeAdapter loraId).2
  | removeAll => exact h.removeAllAdapters.2
  | pin loraId => exact (h.pinAdapter loraId).2.1
  | activate loraId => exact (h.activateAdapter loraId).2.1
  | deactivate loraId => exact h.keeps_deactivate loraId
  | setEncoder loraId => exact absurd rfl (hencoder loraId)
  | setMapping mapping => exact (h.setAdapterMapping mapping).2.1

omit [Zero W] [Mul W] [LruCache ℤ C] [LawfulLruCache ℤ C] in
/-- Setting the encoder's adapter touches neither the table nor the pins. -/
theorem setEncoderAdapter_spec (loraId : Option ℤ) :
    (m.setEncoderAdapter loraId).2.pinned = m.pinned ∧
      (m.setEncoderAdapter loraId).2.loraIndexToId = m.loraIndexToId ∧
      ((m.setEncoderAdapter loraId).1 = .ok () →
        ∀ s, (m.setEncoderAdapter loraId).2.encoderSlot = some s →
          ∃ k, loraId = some k ∧ m.slotForAdapter k = some s) := by
  unfold ModelManager.setEncoderAdapter
  cases loraId with
  | none =>
    refine ⟨rfl, rfl, ?_⟩
    intro _ s hs
    cases hs
  | some k =>
    dsimp only
    split
    · refine ⟨rfl, rfl, ?_⟩
      intro hok
      cases hok
    · split
      · refine ⟨rfl, rfl, ?_⟩
        intro hok
        cases hok
      · next slot hslot =>
        refine ⟨rfl, rfl, ?_⟩
        intro _ s hs
        cases hs
        exact ⟨k, rfl, hslot⟩

/-- **A pinned adapter** stays pinned through calls that do not unpin it, and keeps its slot
through calls that do not drop it. -/
theorem pinned_call (h : SlotTable astype m) (call : Call W) {loraId : ℤ}
    (hpinned : loraId ∈ m.pinned) :
    (¬ call.unpins loraId → loraId ∈ (call.run astype m).2.pinned) ∧
      (¬ call.drops loraId → ∀ s : ℕ, m.loraIndexToId[s]? = some (some loraId) →
        (call.run astype m).2.loraIndexToId[s]? = some (some loraId)) := by
  by_cases hencoder : ∃ k, call = .setEncoder k
  · obtain ⟨k, rfl⟩ := hencoder
    obtain ⟨hpins, htable, -⟩ := setEncoderAdapter_spec (m := m) k
    rw [Call.run, hpins, htable]
    exact ⟨fun _ => hpinned, fun _ _ => id⟩
  · have hkeeps := Keeps.call h call fun k hk => hencoder ⟨k, hk⟩
    exact ⟨hkeeps.pinned loraId hpinned, fun hnot s => hkeeps.slot s loraId hpinned hnot⟩

/-- The encoder's slot, when set, is that of the adapter it was set for. -/
def EncoderOk (m : ModelManager W C) (target : Option ℤ) : Prop :=
  ∀ s : ℕ, m.encoderSlot = some s →
    ∃ loraId, target = some loraId ∧ m.loraIndexToId[s]? = some (some loraId)

/-- A successful call keeps the encoder's slot that of its adapter, or resets it. -/
theorem EncoderOk.call (h : SlotTable astype m) {past : List (Call W)} {call : Call W}
    {m' : ModelManager W C} (henc : EncoderOk m (encoderTarget past))
    (hcall : Succeeded astype m call m') : EncoderOk m' (encoderTarget (past ++ [call])) := by
  have hm' : (call.run astype m).2 = m' := congrArg Prod.snd hcall
  intro s hs
  by_cases hencoder : ∃ k, call = .setEncoder k
  · obtain ⟨k, rfl⟩ := hencoder
    obtain ⟨-, htable, hslot⟩ := setEncoderAdapter_spec (m := m) k
    have hrun : m.setEncoderAdapter k = (.ok (), m') := hcall
    rw [hrun] at htable hslot
    obtain ⟨loraId, rfl, hfound⟩ := hslot rfl s hs
    refine ⟨loraId, ?_, ?_⟩
    · rw [encoderTarget, List.foldl_append]
      rfl
    · rw [htable]
      exact h.slotForAdapter_eq_some_iff.mp hfound
  · have hkeeps := Keeps.call h call fun k hk => hencoder ⟨k, hk⟩
    rw [hm'] at hkeeps
    obtain ⟨hs', hkept⟩ := hkeeps.encoder s hs
    obtain ⟨loraId, htarget, hloraId⟩ := henc s hs'
    refine ⟨loraId, ?_, hkept loraId hloraId⟩
    rw [← htarget, encoderTarget, List.foldl_append]
    cases call with
    | setEncoder k => exact absurd ⟨k, rfl⟩ hencoder
    | _ => rfl

omit [LawfulLruCache ℤ C] in
/-- The layers that are wrapped hold nothing. -/
theorem moduleOk_wrapTargetModules (config : LoRAConfig) (targets : List WrapTarget)
    (registered : ℤ → Option (LoadedLoRA W)) :
    ∀ nm ∈ ModelManager.wrapTargetModules (W := W) config targets,
      ModuleOk astype registered (List.replicate config.maxLoras none) nm.1 nm.2 := by
  -- a module that is wrapped has nothing in any slot
  have hinit : ∀ (name loraName : String) (inputSize outputSize : ℕ),
      ModuleOk astype registered (List.replicate config.maxLoras none) name
        (.init loraName inputSize outputSize config.maxLoras config.maxLoraRank) := by
    intro name loraName inputSize outputSize
    refine ⟨?_, fun s entry hs => ?_⟩
    · rw [WrappedModule.init, List.length_replicate, List.length_replicate]
    · rw [List.getElem?_replicate] at hs
      split at hs
      · next hlt =>
        cases hs
        refine ⟨_, ?_, rfl⟩
        rw [WrappedModule.init, List.getElem?_replicate, if_pos (by omega)]
        rfl
      · cases hs
  -- wrapping one more, under a new name or a known one
  have hset : ∀ (modules : List (String × WrappedModule W)) (t : WrapTarget),
      (∀ nm ∈ modules, ModuleOk astype registered (List.replicate config.maxLoras none)
        nm.1 nm.2) →
      ∀ nm ∈ ModelManager.setModule modules t.name
        (.init t.loraName t.inputSize t.outputSize config.maxLoras config.maxLoraRank),
        ModuleOk astype registered (List.replicate config.maxLoras none) nm.1 nm.2 := by
    intro modules t hmodules nm hnm
    rw [ModelManager.setModule] at hnm
    split at hnm
    · obtain ⟨nm', hnm', rfl⟩ := List.mem_map.mp hnm
      split
      · exact hinit _ _ _ _
      · exact hmodules nm' hnm'
    · rcases List.mem_append.mp hnm with hnm | hnm
      · exact hmodules nm hnm
      · rw [List.mem_singleton] at hnm
        subst hnm
        exact hinit _ _ _ _
  have hfold : ∀ modules : List (String × WrappedModule W),
      (∀ nm ∈ modules, ModuleOk astype registered (List.replicate config.maxLoras none)
        nm.1 nm.2) →
      ∀ nm ∈ targets.foldl (fun modules t => ModelManager.setModule modules t.name
        (.init t.loraName t.inputSize t.outputSize config.maxLoras config.maxLoraRank)) modules,
        ModuleOk astype registered (List.replicate config.maxLoras none) nm.1 nm.2 := by
    induction targets with
    | nil => exact fun _ => id
    | cons t targets ih => exact fun modules hmodules => ih _ (hset modules t hmodules)
  apply hfold []
  intro nm hnm
  exact absurd hnm List.not_mem_nil

/-- **A new manager** has the invariant. -/
theorem slotTable_new {config : LoRAConfig} {hasEncoder : Bool} {targets : List WrapTarget}
    (h : ModelManager.new config hasEncoder targets = .ok m) : SlotTable astype m := by
  unfold ModelManager.new at h
  split at h
  · cases h
  split at h
  · cases h
  · cases h
    have hnone : ∀ k : ℤ, some k ∉ List.replicate config.maxLoras (none : Option ℤ) := by
      intro k hk
      cases List.eq_of_mem_replicate hk
    exact {
      distinct := Distinct.replicate_none _
      active_iff := by
        intro k
        rw [get?_empty]
        constructor
        · intro hk
          cases hk
        · intro hk
          exact absurd hk (hnone k)
      capacity_active := by
        rw [capacity_empty, List.length_replicate]
      resident_registered := by
        intro k hk
        exact absurd hk (hnone k)
      len_registered := by
        have hzero : len (empty config.capacity : C (LoadedLoRA W)) ≤ ([] : List ℤ).length := by
          apply len_le_of_mem
          intro k hk
          rw [get?_empty] at hk
          cases hk
        exact Nat.le_trans hzero (Nat.zero_le _)
      modules := moduleOk_wrapTargetModules config targets _
      pinned_registered := by
        intro k hk
        cases hk
      pins_registered := pinnedItems_empty _
      pins_active := by
        intro k
        rw [pinnedItems_empty]
        constructor
        · intro hk
          cases hk
        · intro hk
          exact absurd hk.2 (hnone k)
      routing := by
        intro mapping hmapping
        cases hmapping }

omit [Mul W] [LawfulLruCache ℤ C] in
theorem encoderSlot_new {config : LoRAConfig} {hasEncoder : Bool} {targets : List WrapTarget}
    (h : ModelManager.new config hasEncoder targets = .ok m) : m.encoderSlot = none := by
  unfold ModelManager.new at h
  split at h
  · cases h
  split at h
  · cases h
  · cases h
    rfl

/-- **Every state that calls lead to**, returning or raising, has the invariant. -/
theorem slotTable_called {m₀ : ModelManager W C} {calls : List (Call W)}
    (h : SlotTable astype m₀) (hrun : Run (Called astype) m₀ calls m) : SlotTable astype m := by
  refine hrun.invariant (I := SlotTable astype) (fun s call s' hs hcall => ?_) h
  rw [← (hcall : (call.run astype s).2 = s')]
  exact hs.call call

omit [LawfulLruCache ℤ C] in
/-- A call that returned was made. -/
theorem Succeeded.called {m' : ModelManager W C} {call : Call W}
    (h : Succeeded astype m call m') : Called astype m call m' :=
  congrArg Prod.snd h

/-- **A pinned adapter over a run**: pinned as long as nothing unpins it, in its slot as long
as nothing drops that. -/
theorem pinned_run {m' : ModelManager W C} {calls : List (Call W)} {loraId : ℤ}
    (h : SlotTable astype m) (hrun : Run (Succeeded astype) m calls m')
    (hpinned : loraId ∈ m.pinned) (hunpins : ∀ call ∈ calls, ¬ call.unpins loraId) :
    loraId ∈ m'.pinned ∧
      ((∀ call ∈ calls, ¬ call.drops loraId) → ∀ s : ℕ,
        m.loraIndexToId[s]? = some (some loraId) →
        m'.loraIndexToId[s]? = some (some loraId)) := by
  induction hrun with
  | nil m => exact ⟨hpinned, fun _ _ => id⟩
  | @cons m m₁ m' call calls hcall _ ih =>
    obtain ⟨hkept, hslot⟩ := pinned_call h call hpinned
    rw [hcall.called] at hkept hslot
    have htable : SlotTable astype m₁ := hcall.called ▸ h.call call
    obtain ⟨hfirst, hrest⟩ := List.forall_mem_cons.mp hunpins
    obtain ⟨hpinned', hslot'⟩ := ih htable (hkept hfirst) hrest
    refine ⟨hpinned', fun hdrops s hs => ?_⟩
    obtain ⟨hdrop, hdrops⟩ := List.forall_mem_cons.mp hdrops
    exact hslot' hdrops s (hslot hdrop s hs)

/-- **The slot table keeps in step** over every run of successful calls on a new manager: no
adapter has two slots, the adapters with a slot are the active ones and registered, every slot
of every wrapped layer holds the registered version of its adapter, a pinned adapter keeps its
registration until it is removed and its slot until it is removed or deactivated, the encoder's
slot is that of the adapter it was set for, and the routing after `set_adapter_mapping` is that
of the mapping over the slot table. -/
theorem slot_table_in_step {config : LoRAConfig} {hasEncoder : Bool}
    {targets : List WrapTarget} {m₀ : ModelManager W C} {calls : List (Call W)}
    (hnew : ModelManager.new config hasEncoder targets = .ok m₀)
    (hrun : Run (Succeeded astype) m₀ calls m) :
    (∀ (s s' : ℕ) (loraId : ℤ), m.loraIndexToId[s]? = some (some loraId) →
      m.loraIndexToId[s']? = some (some loraId) → s = s') ∧
    (∀ loraId, (get? m.active loraId).isSome ↔ some loraId ∈ m.loraIndexToId) ∧
    (∀ loraId, some loraId ∈ m.loraIndexToId → (get? m.registered loraId).isSome) ∧
    (∀ nm ∈ m.modules, ∀ (s : ℕ) (entry : Option ℤ), m.loraIndexToId[s]? = some entry →
      ∃ c, nm.2.slots[s]? = some c ∧ SlotOk astype (get? m.registered) nm.1 nm.2 entry c) ∧
    (∀ loraId m', m.pinAdapter astype loraId = (.ok true, m') →
      loraId ∈ m'.pinned ∧ some loraId ∈ m'.loraIndexToId) ∧
    (∀ later m', Run (Succeeded astype) m later m' → ∀ loraId ∈ m.pinned,
      (∀ call ∈ later, ¬ call.unpins loraId) →
      loraId ∈ m'.pinned ∧ (get? m'.registered loraId).isSome ∧
        ((∀ call ∈ later, ¬ call.drops loraId) → ∀ s : ℕ,
          m.loraIndexToId[s]? = some (some loraId) →
          m'.loraIndexToId[s]? = some (some loraId))) ∧
    (∀ s : ℕ, m.encoderSlot = some s → ∃ loraId, encoderTarget calls = some loraId ∧
      m.loraIndexToId[s]? = some (some loraId)) ∧
    (∀ mapping m', m.setAdapterMapping mapping = (.ok (), m') →
      m'.punicaWrapper = updateMetadata mapping m'.loraIndexToId) := by
  have hstart : SlotTable astype m₀ := slotTable_new hnew
  have h : SlotTable astype m := slotTable_called hstart (hrun.mono fun _ _ _ => Succeeded.called)
  -- what the encoder routes to is a function of the calls, so the history is part of the
  -- invariant
  have hstart' : SlotTable astype m₀ ∧ EncoderOk m₀ (encoderTarget ([] : List (Call W))) := by
    refine ⟨hstart, fun s hs => ?_⟩
    rw [encoderSlot_new hnew] at hs
    cases hs
  have henc : SlotTable astype m ∧ EncoderOk m (encoderTarget calls) := by
    refine hrun.history_invariant
      (I := fun past m => SlotTable astype m ∧ EncoderOk m (encoderTarget past)) ?_ hstart'
    intro past s call s' hs hcall
    exact ⟨hcall.called ▸ hs.1.call call, hs.2.call hs.1 hcall⟩
  refine ⟨h.distinct, h.active_iff, h.resident_registered, ?_, ?_, ?_, henc.2, ?_⟩
  · intro nm hnm
    exact (h.modules nm hnm).slot
  · intro loraId m' hpin
    have hslot := (h.pinAdapter loraId).2.2
    rw [hpin] at hslot
    exact hslot true rfl
  · intro later m' hlater loraId hpinned hunpins
    obtain ⟨hpinned', hslot⟩ := pinned_run h hlater hpinned hunpins
    have h' : SlotTable astype m' :=
      slotTable_called h (hlater.mono fun _ _ _ => Succeeded.called)
    exact ⟨hpinned', h'.pinned_registered loraId hpinned', hslot⟩
  · intro mapping m' hset
    have hrouting := (h.setAdapterMapping mapping).2.2
    rw [hset] at hrouting
    exact hrouting rfl

end

/-! ### Runs of two adapters on one slot -/

/-- An adapter of rank one for the layer `q`, of one input and one output. -/
def tinyAdapter (loraId weight : ℤ) : LoadedLoRA ℤ where
  loraId := loraId
  weights := (∅ : Dict String (LoRALayerWeights ℤ)).set "q"
    ⟨⟨[1, 1], [weight]⟩, ⟨[1, 1], [weight]⟩, 2⟩

/-- One slot, two registered adapters. -/
def tinyConfig : LoRAConfig := ⟨1, some 2, 1⟩

/-- A new manager of one layer. -/
def tinyManager : ModelManager ℤ (PinnedCache ℤ) where
  registered := empty 2
  active := empty 1
  pinned := ∅
  loraIndexToId := [none]
  modules := [("q", .init "LoRA" 1 1 1 1)]
  hasEncoder := true
  encoderSlot := none
  punicaWrapper := .init
  lastMapping := none

example : (((tinyManager.addAdapter id (tinyAdapter 7 3)).2.activateAdapter id 7).2.modules.map
    fun nm => nm.2.slots.map fun s => (s.loraA, s.loraB, s.rank)) =
      [[([[3]], [[6]], 1), ([[0]], [[0]], 0)]] := by decide

/-- The adapter is added, pinned, used by the encoder and by a mapping. -/
theorem slot_table_in_step_pinned :
    ∃ m, Run (Succeeded id) tinyManager
      [.add (tinyAdapter 7 3), .pin 7, .setEncoder (some 7), .setMapping ⟨[7, 7], [7], true⟩] m ∧
      m.encoderSlot = some 0 ∧ ∃ loraId, m.loraIndexToId[0]? = some (some loraId) := by
  have hnew : ModelManager.new tinyConfig true [⟨"q", "LoRA", 1, 1⟩] = .ok tinyManager := rfl
  have hrun : ∃ m, Run (Succeeded id) tinyManager
      [.add (tinyAdapter 7 3), .pin 7, .setEncoder (some 7), .setMapping ⟨[7, 7], [7], true⟩] m ∧
      m.encoderSlot = some 0 :=
    ⟨_, .cons rfl (.cons rfl (.cons rfl (.cons rfl (.nil _)))), rfl⟩
  obtain ⟨m, hrun, hslot⟩ := hrun
  obtain ⟨-, -, -, -, -, -, hencoder, -⟩ := slot_table_in_step hnew hrun
  obtain ⟨loraId, -, hloraId⟩ := hencoder 0 hslot
  exact ⟨m, hrun, hslot, loraId, hloraId⟩

/-- **A pinned adapter that is deactivated** stays pinned and registered, without a slot: it was
not removed. -/
theorem pinned_adapter_loses_slot :
    ∃ m m' : ModelManager ℤ (PinnedCache ℤ),
      Run (Succeeded id) tinyManager [.add (tinyAdapter 7 3), .pin 7] m ∧
      Run (Succeeded id) m [.deactivate 7] m' ∧
      7 ∈ m.pinned ∧ m.slotForAdapter 7 = some 0 ∧ 7 ∈ m'.pinned ∧ m'.slotForAdapter 7 = none :=
  ⟨_, _, .cons rfl (.cons rfl (.nil _)), .cons rfl (.nil _), by decide, by decide, by decide,
    by decide⟩

end VllmMetal.Lora
