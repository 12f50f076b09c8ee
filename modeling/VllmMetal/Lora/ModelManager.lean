import VllmMetal.Lib.LruCache
import VllmMetal.Lora.Weights
import VllmMetal.Lora.Routing
import Mathlib.Data.List.Dedup
import Mathlib.Algebra.Ring.Int.Defs

/-!
# The LoRA model manager

`MLXLoRAModelManager` (`model_manager.py`): a cache of registered adapters, a table of
resident slots with its own cache of active adapters, a set of pins, the slot weights of every
wrapped layer, the encoder's slot and the routing metadata of the last mapping.  An operation
returns its result or what it raised, and in both cases the manager as it left it.

## Main definitions

* `ModelManager` — the state of the manager; `ModelManager.new` — a new one.
* `prepareAdapterUpdate`, `commitAdapterUpdate`, `activatePrepared`, `nextActivationSlot`.
* `addAdapter`, `replaceAdapter`, `removeAdapter`, `removeAllAdapters`, `pinAdapter`,
  `activateAdapter`, `deactivateAdapter`, `setEncoderAdapter`, `setAdapterMapping`.
* `Call`, `Call.run` — the operations as labels.
-/

namespace VllmMetal.Lora

open LruCache

/-- The fields of `LoRAConfig` that the manager reads. -/
structure LoRAConfig where
  maxLoras : ℕ
  maxCpuLoras : Option ℕ
  maxLoraRank : ℕ

/-- `capacity`: `max_cpu_loras or lora_slots`. -/
def LoRAConfig.capacity (config : LoRAConfig) : ℕ :=
  match config.maxCpuLoras with
  | none => config.maxLoras
  | some n => if n = 0 then config.maxLoras else n

/-- A layer to wrap: its name with the prefix of its root, and its sizes. -/
structure WrapTarget where
  name : String
  loraName : String
  inputSize : ℕ
  outputSize : ℕ

/-- `MLXLoRAModelManager`. -/
structure ModelManager (W : Type) (C : Type → Type) where
  registered : C (LoadedLoRA W)
  active : C Unit
  pinned : Finset ℤ
  loraIndexToId : List (Option ℤ)
  modules : List (String × WrappedModule W)
  /-- `encoder is not None`. -/
  hasEncoder : Bool
  /-- `encoder_punica_wrapper.slot`. -/
  encoderSlot : Option ℕ
  /-- The fields of `punica_wrapper` that `update_metadata` writes. -/
  punicaWrapper : RoutingMetadata
  lastMapping : Option LoRAMapping

/-- `_PreparedAdapterUpdate`: for each wrapped layer, in order, what its slot is to hold. -/
structure PreparedAdapterUpdate (W : Type) where
  moduleUpdates : List (Option (SlotWeights W))
  loadedModules : ℕ

namespace ModelManager

variable {W : Type} {C : Type → Type} [LruCache ℤ C]

section

variable [Zero W]

/-- `self.modules[name] = w`: a name that is there keeps its place. -/
def setModule (modules : List (String × WrappedModule W)) (name : String)
    (w : WrappedModule W) : List (String × WrappedModule W) :=
  if name ∈ modules.map Prod.fst then
    modules.map fun nm => if nm.1 = name then (name, w) else nm
  else modules ++ [(name, w)]

/-- `_wrap_target_modules`, over the layers selected in the model and in the encoder. -/
def wrapTargetModules (config : LoRAConfig) (targets : List WrapTarget) :
    List (String × WrappedModule W) :=
  targets.foldl (fun modules t => setModule modules t.name
    (.init t.loraName t.inputSize t.outputSize config.maxLoras config.maxLoraRank)) []

/-- `__init__`. -/
def new (config : LoRAConfig) (hasEncoder : Bool) (targets : List WrapTarget) :
    Except LoRAError (ModelManager W C) :=
  if ∃ n ∈ config.maxCpuLoras, n < config.maxLoras then .error .maxCpuLorasTooSmall
  else if targets = [] then .error .noTargetModules
  else .ok
    { registered := empty config.capacity
      active := empty config.maxLoras
      pinned := ∅
      loraIndexToId := List.replicate config.maxLoras none
      modules := wrapTargetModules config targets
      hasEncoder := hasEncoder
      encoderSlot := none
      punicaWrapper := .init
      lastMapping := none }

end

/-! ### Slots -/

/-- `_slot_for_adapter`. -/
def slotForAdapter (m : ModelManager W C) (loraId : ℤ) : Option ℕ :=
  m.loraIndexToId.idxOf? (some loraId)

omit [LruCache ℤ C] in
theorem slotForAdapter_eq_none_iff {m : ModelManager W C} {loraId : ℤ} :
    m.slotForAdapter loraId = none ↔ some loraId ∉ m.loraIndexToId :=
  List.idxOf?_eq_none_iff

/-- `_next_activation_slot`: a free slot, or the slot of the least recently used unpinned
adapter. -/
def nextActivationSlot (m : ModelManager W C) : Except LoRAError ℕ :=
  match m.loraIndexToId.idxOf? none with
  | some slot => .ok slot
  | none =>
    match firstUnpinned m.active with
    | none => .error .allSlotsPinned
    | some evictedId =>
      match m.slotForAdapter evictedId with
      | none => .error (.inconsistentCache evictedId)
      | some evictedSlot => .ok evictedSlot

section

variable [Zero W]

/-- `deactivate_adapter`. -/
def deactivateAdapter (m : ModelManager W C) (loraId : ℤ) : Bool × ModelManager W C :=
  match m.slotForAdapter loraId with
  | none => (false, m)
  | some slot =>
    (true,
      { m with
        active := pop m.active loraId
        loraIndexToId := m.loraIndexToId.set slot none
        encoderSlot := if m.encoderSlot = some slot then none else m.encoderSlot
        modules := m.modules.map fun nm => (nm.1, nm.2.resetLora slot)
        lastMapping := none })

/-- `deactivate_adapter` of an adapter without a slot does nothing. -/
theorem deactivate_of_not_mem {m : ModelManager W C} {loraId : ℤ}
    (hnot : some loraId ∉ m.loraIndexToId) : m.deactivateAdapter loraId = (false, m) := by
  rw [deactivateAdapter, slotForAdapter_eq_none_iff.mpr hnot]

variable [Mul W] (astype : W → W)

/-- `_prepare_adapter_update`: check an adapter against every wrapped layer. -/
def prepareAdapterUpdate (m : ModelManager W C) (adapter : LoadedLoRA W) (slot : ℕ) :
    Except LoRAError (PreparedAdapterUpdate W) :=
  match m.modules.mapM fun nm => prepareModule astype adapter slot nm.1 nm.2 with
  | .error e => .error e
  | .ok updates =>
    let loaded := updates.countP Option.isSome
    if loaded = 0 then
      .error (.matchedNoModule adapter.loraId
        ((m.modules.map Prod.fst).mergeSort fun n n' => n ≤ n'))
    else .ok ⟨updates, loaded⟩

omit [Mul W] in
/-- `_commit_adapter_update`: write the prepared slot of every layer. -/
def commitAdapterUpdate (m : ModelManager W C) (loraId : ℤ) (slot : ℕ)
    (prepared : PreparedAdapterUpdate W) : ModelManager W C :=
  { m with
    modules := List.zipWith
      (fun nm update => (nm.1, match update with
        | none => nm.2.resetLora slot
        | some weights => nm.2.setPreparedLora slot weights))
      m.modules prepared.moduleUpdates
    loraIndexToId := m.loraIndexToId.set slot (some loraId)
    lastMapping := none }

omit [Mul W] in
/-- The first lines of `_activate_prepared`: evict the resident adapter of the slot. -/
def evictResident (m : ModelManager W C) (slot : ℕ) : ModelManager W C :=
  match m.loraIndexToId.getD slot none with
  | none => m
  | some residentId => (m.deactivateAdapter residentId).2

omit [Mul W] in
/-- `_activate_prepared`: evict the resident adapter of the slot, commit, activate. -/
def activatePrepared (m : ModelManager W C) (loraId : ℤ) (slot : ℕ)
    (prepared : PreparedAdapterUpdate W) : ModelManager W C :=
  let m := m.evictResident slot
  let m := m.commitAdapterUpdate loraId slot prepared
  let m := { m with active := LruCache.set m.active loraId () }
  if loraId ∈ m.pinned then { m with active := pin m.active loraId } else m

/-! ### The operations -/

/-- `add_adapter`.  A new adapter is checked before anything is evicted for it. -/
def addAdapter (m : ModelManager W C) (adapter : LoadedLoRA W) :
    Except LoRAError Bool × ModelManager W C :=
  if (get? m.registered adapter.loraId).isSome then
    (.ok false, { m with registered := touch m.registered adapter.loraId })
  else
    match m.prepareAdapterUpdate astype adapter 0 with
    | .error e => (.error e, m)
    | .ok _ =>
      if len m.registered ≥ capacity m.registered then
        match popitem m.registered with
        | none => (.error .allItemsPinned, m)
        | some (evictedId, registered) =>
          let m := (deactivateAdapter { m with registered := registered } evictedId).2
          (.ok true,
            { m with registered := LruCache.set m.registered adapter.loraId adapter })
      else
        (.ok true, { m with registered := LruCache.set m.registered adapter.loraId adapter })

/-- `replace_adapter`.  The new version is registered before a slot is looked for. -/
def replaceAdapter (m : ModelManager W C) (adapter : LoadedLoRA W) :
    Except LoRAError Unit × ModelManager W C :=
  let loraId := adapter.loraId
  if (get? m.registered loraId).isNone then (.error (.notRegistered loraId), m)
  else
    let slot := (m.slotForAdapter loraId).getD 0
    match m.prepareAdapterUpdate astype adapter slot with
    | .error e => (.error e, m)
    | .ok prepared =>
      let m := { m with registered := touch (LruCache.set m.registered loraId adapter) loraId }
      match m.slotForAdapter loraId with
      | none =>
        match m.nextActivationSlot with
        | .error e => (.error e, m)
        | .ok slot =>
          match m.prepareAdapterUpdate astype adapter slot with
          | .error e => (.error e, m)
          | .ok prepared => (.ok (), m.activatePrepared loraId slot prepared)
      | some _ =>
        let m := m.commitAdapterUpdate loraId slot prepared
        (.ok (), { m with active := touch m.active loraId })

omit [Mul W] in
/-- `remove_adapter`. -/
def removeAdapter (m : ModelManager W C) (loraId : ℤ) : Bool × ModelManager W C :=
  let m := { m with pinned := m.pinned.erase loraId }
  let m := (m.deactivateAdapter loraId).2
  ((get? m.registered loraId).isSome, { m with registered := pop m.registered loraId })

omit [Mul W] in
/-- `remove_all_adapters`. -/
def removeAllAdapters (m : ModelManager W C) : ModelManager W C :=
  let m := (m.loraIndexToId.filterMap id).foldl (fun m loraId => (m.deactivateAdapter loraId).2) m
  { m with registered := clear m.registered, active := clear m.active, pinned := ∅ }

/-- `activate_adapter`. -/
def activateAdapter (m : ModelManager W C) (loraId : ℤ) :
    Except LoRAError Bool × ModelManager W C :=
  match get? m.registered loraId with
  | none => (.error (.notRegistered loraId), m)
  | some adapter =>
    let m := { m with registered := touch m.registered loraId }
    if (m.slotForAdapter loraId).isSome then
      (.ok false, { m with active := touch m.active loraId })
    else
      match m.nextActivationSlot with
      | .error e => (.error e, m)
      | .ok slot =>
        match m.prepareAdapterUpdate astype adapter slot with
        | .error e => (.error e, m)
        | .ok prepared => (.ok true, m.activatePrepared loraId slot prepared)

/-- `pin_adapter`: pin an adapter in both caches, activating it first. -/
def pinAdapter (m : ModelManager W C) (loraId : ℤ) :
    Except LoRAError Bool × ModelManager W C :=
  if (get? m.registered loraId).isNone then (.error (.pinNotRegistered loraId), m)
  else
    match if (get? m.active loraId).isSome then (.ok true, m)
      else m.activateAdapter astype loraId with
    | (.error e, m) => (.error e, m)
    | (.ok _, m) =>
      (.ok true,
        { m with
          pinned := insert loraId m.pinned
          registered := pin m.registered loraId
          active := pin m.active loraId })

omit [Zero W] [Mul W] in
/-- `set_encoder_adapter`: route the next encoder calls through an adapter, or the base. -/
def setEncoderAdapter (m : ModelManager W C) :
    Option ℤ → Except LoRAError Unit × ModelManager W C
  | none => (.ok (), { m with encoderSlot := none })
  | some loraId =>
    if m.hasEncoder = false then (.error .noEncoder, m)
    else
      match m.slotForAdapter loraId with
      | none => (.error (.encoderNotActive loraId), m)
      | some slot => (.ok (), { m with encoderSlot := some slot })

omit [Zero W] [Mul W] in
/-- `set_adapter_mapping`. -/
def setAdapterMapping (m : ModelManager W C) (mapping : LoRAMapping) :
    Except LoRAError Unit × ModelManager W C :=
  if some mapping = m.lastMapping then (.ok (), m)
  else
    let missing := ((mapping.indexMapping ++ mapping.promptMapping).filter fun loraId =>
      loraId ≠ 0 ∧ some loraId ∉ m.loraIndexToId).dedup
    if missing ≠ [] then
      (.error (.mappingNotActive (missing.mergeSort fun a b => a ≤ b) m.loraIndexToId), m)
    else
      (.ok (),
        { m with
          punicaWrapper := updateMetadata mapping m.loraIndexToId
          lastMapping := some mapping })

end

end ModelManager

/-- A call on the manager. -/
inductive Call (W : Type)
  | add (adapter : LoadedLoRA W)
  | replace (adapter : LoadedLoRA W)
  | remove (loraId : ℤ)
  | removeAll
  | pin (loraId : ℤ)
  | activate (loraId : ℤ)
  | deactivate (loraId : ℤ)
  | setEncoder (loraId : Option ℤ)
  | setMapping (mapping : LoRAMapping)

section

variable {W : Type} {C : Type → Type} [LruCache ℤ C] [Zero W] [Mul W] (astype : W → W)

/-- What a call raises, if anything, and the manager afterwards. -/
def Call.run (m : ModelManager W C) : Call W → Except LoRAError Unit × ModelManager W C
  | .add adapter => Prod.map (Except.map fun _ => ()) id (m.addAdapter astype adapter)
  | .replace adapter => m.replaceAdapter astype adapter
  | .remove loraId => (.ok (), (m.removeAdapter loraId).2)
  | .removeAll => (.ok (), m.removeAllAdapters)
  | .pin loraId => Prod.map (Except.map fun _ => ()) id (m.pinAdapter astype loraId)
  | .activate loraId => Prod.map (Except.map fun _ => ()) id (m.activateAdapter astype loraId)
  | .deactivate loraId => (.ok (), (m.deactivateAdapter loraId).2)
  | .setEncoder loraId => m.setEncoderAdapter loraId
  | .setMapping mapping => m.setAdapterMapping mapping

/-- A call that was made, whether it raised or not. -/
def Called (m : ModelManager W C) (call : Call W) (m' : ModelManager W C) : Prop :=
  (call.run astype m).2 = m'

/-- A call that returned. -/
def Succeeded (m : ModelManager W C) (call : Call W) (m' : ModelManager W C) : Prop :=
  call.run astype m = (.ok (), m')

end

end VllmMetal.Lora
