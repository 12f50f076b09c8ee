import VllmMetal.Lib.Dict
import Mathlib.Data.Int.Basic

/-!
# LoRA weights and the slots of a wrapped layer

A wrapped linear layer (`layers.py`) keeps one pair of weight matrices and a rank for each
adapter slot.  `prepare_lora_weights` checks the shapes of an adapter's matrices and pads them
to the layer's maximal rank; `_lookup_weights_for_module` (`model_manager.py`) finds the
matrices an adapter has for a layer, by name or by a unique trailing suffix.

## Main definitions

* `MxArray`, `LoRALayerWeights`, `LoadedLoRA` — the weights of an adapter.
* `WrappedModule`, `SlotWeights` — a wrapped layer and what one slot of it holds.
* `WrappedModule.prepareLoraWeights`, `WrappedModule.Accepts` — the checks and the padding.
* `lookupWeightsForModule`, `prepareModule` — what an adapter has for a layer.
* `Holds` — a slot of a layer holds the weights and the rank of an adapter.

## Main results

* `prepareModule_holds` — what was prepared for a layer is what the adapter has for it.
* `prepareModule_slot` — whether a layer accepts an adapter does not depend on the slot.
-/

namespace VllmMetal.Lora

/-- What an operation of the manager can raise. -/
inductive LoRAError
  /-- `A and B must be 2-D`. -/
  | notTwoDimensional (loraName : String) (slot aNdim bNdim : ℕ)
  /-- `A rank .. does not match B rank ..`. -/
  | rankMismatch (loraName : String) (slot rank inDim outDim bRank : ℕ)
  /-- `expected in=.., out=..`. -/
  | shapeMismatch (loraName : String) (slot rank inDim outDim inputSize outputSize : ℕ)
  /-- `rank .. exceeds max_lora_rank ..`. -/
  | rankTooLarge (loraName : String) (rank maxLoraRank : ℕ)
  /-- `has ambiguous suffix matches for wrapped module ..`. -/
  | ambiguousSuffix (loraId : ℤ) (moduleName : String) (names : List String)
  /-- `matched 0 wrapped modules`. -/
  | matchedNoModule (loraId : ℤ) (wrapped : List String)
  /-- `LoRA adapter .. is not registered`. -/
  | notRegistered (loraId : ℤ)
  /-- `Pinning failed. LoRA .. is not registered.` -/
  | pinNotRegistered (loraId : ℤ)
  /-- `All resident LoRA slots are pinned; cannot activate another adapter.` -/
  | allSlotsPinned
  /-- `Resident LoRA cache is inconsistent: adapter .. has no slot.` -/
  | inconsistentCache (loraId : ℤ)
  /-- The registered cache has nothing to evict: all its items are pinned. -/
  | allItemsPinned
  /-- `Encoder LoRA routing requested but no multimodal encoder was wrapped`. -/
  | noEncoder
  /-- `LoRA adapter .. is not active in a LoRA slot`. -/
  | encoderNotActive (loraId : ℤ)
  /-- `LoRA mapping references adapters that are not active in LoRA slots`. -/
  | mappingNotActive (missing : List ℤ) (table : List (Option ℤ))
  /-- `LoRAConfig.max_cpu_loras must be greater than or equal to LoRAConfig.max_loras`. -/
  | maxCpuLorasTooSmall
  /-- `found no LoRA target modules to wrap`. -/
  | noTargetModules
  deriving DecidableEq

/-- The rows of a matrix. -/
abbrev Rows (W : Type) := List (List W)

/-- The matrix of the given numbers of rows and columns with the given entries. -/
def Rows.ofFn {W : Type} (rows cols : ℕ) (f : ℕ → ℕ → W) : Rows W :=
  (List.range rows).map fun r => (List.range cols).map (f r)

/-- The entry of a row and a column, `0` outside. -/
def Rows.entry {W : Type} [Zero W] (m : Rows W) (r c : ℕ) : W := (m.getD r []).getD c 0

theorem Rows.entry_ofFn {W : Type} [Zero W] {rows cols r c : ℕ} (f : ℕ → ℕ → W)
    (hr : r < rows) (hc : c < cols) : (Rows.ofFn rows cols f).entry r c = f r c := by
  simp [Rows.entry, Rows.ofFn, List.getD, hr, hc]

/-- An array: its shape, and its entries in row-major order. -/
structure MxArray (W : Type) where
  shape : List ℕ
  data : List W
  deriving DecidableEq

namespace MxArray

variable {W : Type}

def ndim (a : MxArray W) : ℕ := a.shape.length

/-- `shape[i]`. -/
def dim (a : MxArray W) (i : ℕ) : ℕ := a.shape.getD i 0

/-- The entry of a row and a column of a 2-D array. -/
def entry [Zero W] (a : MxArray W) (r c : ℕ) : W := a.data.getD (r * a.dim 1 + c) 0

/-- The array times a scalar. -/
def scale [Mul W] (a : MxArray W) (s : W) : MxArray W :=
  { a with data := a.data.map fun x => x * s }

end MxArray

/-- `LoRALayerWeightsMLX`: what an adapter has for one module. -/
structure LoRALayerWeights (W : Type) where
  loraA : MxArray W
  loraB : MxArray W
  scaling : W
  deriving DecidableEq

/-- `LoadedLoRA`: an adapter, with its weights by module name. -/
structure LoadedLoRA (W : Type) where
  loraId : ℤ
  weights : Dict String (LoRALayerWeights W)

/-- What one slot of a layer holds: `lora_a_stacked[slot]`, `lora_b_stacked[slot]` and
`_lora_ranks[slot]`. -/
structure SlotWeights (W : Type) where
  loraA : Rows W
  loraB : Rows W
  rank : ℕ
  deriving DecidableEq

/-- `_LoRALinearBase`: a wrapped layer, plain or quantized. -/
structure WrappedModule (W : Type) where
  /-- `LoRA` or `QLoRA`, for error texts. -/
  loraName : String
  inputSize : ℕ
  outputSize : ℕ
  maxLoraRank : ℕ
  slots : List (SlotWeights W)
  deriving DecidableEq

namespace WrappedModule

variable {W : Type} [Zero W]

/-- The zero matrices and rank `0` of a slot without an adapter. -/
def zeroSlot (w : WrappedModule W) : SlotWeights W where
  loraA := Rows.ofFn w.maxLoraRank w.inputSize fun _ _ => 0
  loraB := Rows.ofFn w.outputSize w.maxLoraRank fun _ _ => 0
  rank := 0

/-- `__init__`: one slot for each adapter and one more. -/
def init (loraName : String) (inputSize outputSize maxLoras maxLoraRank : ℕ) :
    WrappedModule W :=
  let w : WrappedModule W := ⟨loraName, inputSize, outputSize, maxLoraRank, []⟩
  { w with slots := List.replicate (maxLoras + 1) w.zeroSlot }

/-- The last lines of `prepare_lora_weights`: zero matrices of the layer's sizes, into which
the adapter's entries are written.  The parameter `astype` converts an entry to the layer's
data type. -/
def padLoraWeights (astype : W → W) (w : WrappedModule W) (rank : ℕ) (loraA loraB : MxArray W) :
    Rows W × Rows W :=
  (Rows.ofFn w.maxLoraRank w.inputSize fun r c =>
      if r < rank then astype (loraA.entry r c) else 0,
    Rows.ofFn w.outputSize w.maxLoraRank fun r c =>
      if c < rank then astype (loraB.entry r c) else 0)

/-- `prepare_lora_weights`: check the shapes, pad the matrices to the maximal rank. -/
def prepareLoraWeights (astype : W → W) (w : WrappedModule W) (slot : ℕ)
    (loraA loraB : MxArray W) : Except LoRAError (Rows W × Rows W) :=
  if loraA.ndim ≠ 2 ∨ loraB.ndim ≠ 2 then
    .error (.notTwoDimensional w.loraName slot loraA.ndim loraB.ndim)
  else
    let rank := loraA.dim 0
    let inDim := loraA.dim 1
    let outDim := loraB.dim 0
    let bRank := loraB.dim 1
    if bRank ≠ rank then
      .error (.rankMismatch w.loraName slot rank inDim outDim bRank)
    else if (inDim, outDim) ≠ (w.inputSize, w.outputSize) then
      .error (.shapeMismatch w.loraName slot rank inDim outDim w.inputSize w.outputSize)
    else if rank > w.maxLoraRank then
      .error (.rankTooLarge w.loraName rank w.maxLoraRank)
    else
      .ok (w.padLoraWeights astype rank loraA loraB)

/-- The shapes a layer accepts. -/
structure Accepts (w : WrappedModule W) (loraA loraB : MxArray W) : Prop where
  ndim : loraA.ndim = 2 ∧ loraB.ndim = 2
  rank : loraB.dim 1 = loraA.dim 0
  dims : loraA.dim 1 = w.inputSize ∧ loraB.dim 0 = w.outputSize
  rank_le : loraA.dim 0 ≤ w.maxLoraRank

/-- The checks pass exactly on the accepted shapes, whatever the slot. -/
theorem prepareLoraWeights_eq_ok_iff {astype : W → W} {w : WrappedModule W} {slot : ℕ}
    {loraA loraB : MxArray W} {p : Rows W × Rows W} :
    w.prepareLoraWeights astype slot loraA loraB = .ok p ↔
      w.Accepts loraA loraB ∧ w.padLoraWeights astype (loraA.dim 0) loraA loraB = p := by
  unfold prepareLoraWeights
  dsimp only
  constructor
  · intro h
    split_ifs at h with hndim hrank hdims hle
    rw [not_or, not_not, not_not] at hndim
    rw [not_not, Prod.mk.injEq] at hdims
    exact ⟨⟨hndim, not_not.mp hrank, hdims, not_lt.mp hle⟩, Except.ok.inj h⟩
  · rintro ⟨⟨hndim, hrank, hdims, hle⟩, rfl⟩
    rw [if_neg (by simp [hndim]), if_neg (not_not.mpr hrank), if_neg (by simp [hdims]),
      if_neg (not_lt.mpr hle)]

/-- `set_prepared_lora`. -/
def setPreparedLora (w : WrappedModule W) (slot : ℕ) (s : SlotWeights W) : WrappedModule W :=
  { w with slots := w.slots.set slot s }

/-- `reset_lora`. -/
def resetLora (w : WrappedModule W) (slot : ℕ) : WrappedModule W :=
  w.setPreparedLora slot w.zeroSlot

omit [Zero W] in
@[simp] theorem length_slots_setPreparedLora (w : WrappedModule W) (slot : ℕ)
    (s : SlotWeights W) : (w.setPreparedLora slot s).slots.length = w.slots.length :=
  List.length_set

end WrappedModule

section

variable {W : Type}

/-- `n.endswith("." + m)`. -/
def endsWithDotted (n m : String) : Bool := ("." ++ m).toList.isSuffixOf n.toList

/-- `_lookup_weights_for_module`: a direct hit first, then a unique trailing suffix. -/
def lookupWeightsForModule (adapter : LoadedLoRA W) (moduleName : String) :
    Except LoRAError (Option (LoRALayerWeights W)) :=
  match adapter.weights.get? moduleName with
  | some w => .ok (some w)
  | none =>
    let candidates := adapter.weights.entries.filter fun e =>
      endsWithDotted e.1 moduleName || endsWithDotted moduleName e.1
    match candidates with
    | [] => .ok none
    | [e] => .ok (some e.2)
    | _ => .error (.ambiguousSuffix adapter.loraId moduleName
        ((candidates.map Sigma.fst).mergeSort fun n m => n ≤ m))

end

section

variable {W : Type} [Zero W] [Mul W] (astype : W → W)

/-- The body of the loop of `_prepare_adapter_update`: what a layer is to hold in a slot for
an adapter, `none` when the adapter has no weights for it. -/
def prepareModule (adapter : LoadedLoRA W) (slot : ℕ) (name : String) (w : WrappedModule W) :
    Except LoRAError (Option (SlotWeights W)) :=
  match lookupWeightsForModule adapter name with
  | .error e => .error e
  | .ok none => .ok none
  | .ok (some weights) =>
    match w.prepareLoraWeights astype slot weights.loraA
        (weights.loraB.scale weights.scaling) with
    | .error e => .error e
    | .ok (loraA, loraB) => .ok (some ⟨loraA, loraB, weights.loraA.dim 0⟩)

/-- A slot of the layer `w`, wrapped under `name`, holds the weights and the rank of an
adapter: zero matrices and rank `0` when the adapter has no weights for the layer, and
otherwise its matrices, the second one times the scaling, padded with zeros. -/
inductive Holds (adapter : LoadedLoRA W) (name : String) (w : WrappedModule W) :
    SlotWeights W → Prop
  /-- The adapter has no weights for the layer. -/
  | absent : lookupWeightsForModule adapter name = .ok none → Holds adapter name w w.zeroSlot
  /-- The adapter has weights for the layer. -/
  | present {weights : LoRALayerWeights W} {s : SlotWeights W} :
      lookupWeightsForModule adapter name = .ok (some weights) →
      s.rank = weights.loraA.dim 0 →
      (∀ r < w.maxLoraRank, ∀ c < w.inputSize, s.loraA.entry r c =
        if r < s.rank then astype (weights.loraA.entry r c) else 0) →
      (∀ r < w.outputSize, ∀ c < w.maxLoraRank, s.loraB.entry r c =
        if c < s.rank then astype ((weights.loraB.scale weights.scaling).entry r c) else 0) →
      Holds adapter name w s

variable {astype} {adapter : LoadedLoRA W} {slot slot' : ℕ} {name : String}
  {w w' : WrappedModule W}

/-- Only the sizes of a layer matter for what it is to hold, not what it holds now. -/
theorem Holds.congr {s : SlotWeights W} (hin : w'.inputSize = w.inputSize)
    (hout : w'.outputSize = w.outputSize) (hrank : w'.maxLoraRank = w.maxLoraRank)
    (h : Holds astype adapter name w s) : Holds astype adapter name w' s := by
  cases h with
  | absent hlookup =>
    have hzero : w'.zeroSlot = w.zeroSlot := by
      simp only [WrappedModule.zeroSlot, hin, hout, hrank]
    rw [← hzero]
    exact .absent hlookup
  | present hlookup hr ha hb =>
    refine .present hlookup hr ?_ ?_
    · rwa [hin, hrank]
    · rwa [hout, hrank]

omit [Mul W] in
/-- The matrices a layer accepts, entry by entry. -/
theorem prepareLoraWeights_entries {loraA loraB : MxArray W} {a b : Rows W}
    (h : w.prepareLoraWeights astype slot loraA loraB = .ok (a, b)) :
    (∀ r < w.maxLoraRank, ∀ c < w.inputSize, a.entry r c =
      if r < loraA.dim 0 then astype (loraA.entry r c) else 0) ∧
    (∀ r < w.outputSize, ∀ c < w.maxLoraRank, b.entry r c =
      if c < loraA.dim 0 then astype (loraB.entry r c) else 0) := by
  obtain ⟨_, hpad⟩ := WrappedModule.prepareLoraWeights_eq_ok_iff.mp h
  obtain ⟨rfl, rfl⟩ := Prod.mk.inj hpad
  constructor
  · intro r hr c hc
    exact Rows.entry_ofFn _ hr hc
  · intro r hr c hc
    exact Rows.entry_ofFn _ hr hc

/-- **What was prepared for a layer is what the adapter has for it.** -/
theorem prepareModule_holds {u : Option (SlotWeights W)}
    (h : prepareModule astype adapter slot name w = .ok u) :
    Holds astype adapter name w (u.getD w.zeroSlot) := by
  unfold prepareModule at h
  split at h
  · cases h
  · next hlookup =>
    cases h
    exact .absent hlookup
  · next weights hlookup =>
    split at h
    · cases h
    · next a b hprep =>
      cases h
      obtain ⟨ha, hb⟩ := prepareLoraWeights_entries hprep
      exact .present hlookup rfl ha hb

/-- **Whether a layer accepts an adapter does not depend on the slot.** -/
theorem prepareModule_slot {u : Option (SlotWeights W)}
    (h : prepareModule astype adapter slot name w = .ok u) :
    prepareModule astype adapter slot' name w = .ok u := by
  unfold prepareModule at h ⊢
  cases hlookup : lookupWeightsForModule adapter name with
  | error e => simp [hlookup] at h
  | ok weights =>
    cases weights with
    | none => simpa [hlookup] using h
    | some weights =>
      simp only [hlookup] at h ⊢
      split at h
      · cases h
      · next a b hprep =>
        have hslot := WrappedModule.prepareLoraWeights_eq_ok_iff.mp hprep
        rwa [WrappedModule.prepareLoraWeights_eq_ok_iff.mpr hslot]

end

end VllmMetal.Lora
