import VllmMetal.Lib.Dict
import VllmMetal.Lib.Gather
import VllmMetal.Lib.NdArray

/-!
# The layout policy of an architecture

`llama.cpp` stores some tensors in another order than the model: the rows of q and k with the halves
of each head interleaved, the value heads of a Gated DeltaNet tiled across the key heads.  The
adapter keeps an index for each such tensor.

A tensor name `blk.{bid}.{tensor}` is a pair here, and a parameter path is split at its last dot.

## Main definitions

* `ropePermuteIndex`, `vHeadUntileIndex` — the indices.
* `buildPermuteIndex`, `buildVHeadIndex` — the tables of an architecture.
* `GGUFModelAdapter.fromModel` — the adapter.
-/

namespace VllmMetal
namespace Gguf

/-- The name of a tensor in a file. -/
inductive TensorName where
  | blk (bid : ℕ) (tensor : String)
  | global (name : String)
  deriving DecidableEq

/-- The path of a parameter in the model. -/
structure LivePath where
  modulePath : String
  paramName : String
  deriving DecidableEq

/-- `GGUFPlainTransform`. -/
inductive GGUFPlainTransform where
  /-- The file squeezes a conv kernel `(C, K, 1)` to `(C, K)`. -/
  | squeezedUnitAxis
  /-- The file stores `-exp(x)`. -/
  | negatedExp
  deriving DecidableEq

namespace GGUFPlainTransform

/-- The shape the file stores a parameter in. -/
def sourceShape : GGUFPlainTransform → List ℕ → List ℕ
  | squeezedUnitAxis, modelShape => modelShape.dropLast
  | negatedExp, modelShape => modelShape

def apply {K : Type} [Neg K] (log : K → K) : GGUFPlainTransform → NdArray K → NdArray K
  | squeezedUnitAxis, source => source.expandLast
  | negatedExp, source => source.map fun x => log (-x)

end GGUFPlainTransform

/-- The architectures that are allowed. -/
inductive Arch where
  | qwen2
  | qwen3
  | llama
  | qwen35
  deriving DecidableEq

/-- How `llama.cpp` stores an architecture. -/
structure GGUFArchSpec where
  layerTransforms : List (String × GGUFPlainTransform) := []
  ropePermutedQk : Bool := false
  tiledVHeads : Bool := false

/-- `_ARCH_SPECS`. -/
def archSpecs : Arch → GGUFArchSpec
  | .qwen2 => {}
  | .qwen3 => {}
  | .llama => { ropePermutedQk := true }
  | .qwen35 =>
    { layerTransforms := [("ssm_a", .negatedExp), ("ssm_conv1d.weight", .squeezedUnitAxis)]
      tiledVHeads := true }

/-- The counts of a Gated DeltaNet. -/
structure GatedDeltaNet where
  numKHeads : ℕ
  numVHeads : ℕ
  headVDim : ℕ
  keyDim : ℕ

/-- What the loader reads of a built model. -/
structure Model where
  numAttentionHeads : ℕ
  numKeyValueHeads : ℕ
  /-- Rows of the first layer's `q_proj.weight`. -/
  qRows : ℕ
  /-- Rows of the first layer's `k_proj.weight`. -/
  kRows : ℕ
  /-- The layers, with their `linear_attn`. -/
  layers : List (Option GatedDeltaNet)
  hasModule : String → Bool
  shape : LivePath → Option (List ℕ)

/-- An index cannot be built. -/
inductive IndexError where
  | zeroDivision
  | reshape (size : ℕ) (shape : List ℕ)
  deriving DecidableEq

/-! ### The indices -/

/-- The entries of `arange(size).reshape(a, b, c)`. -/
def arange3 (size a b c : ℕ) : Except IndexError (ℕ → ℕ → ℕ → ℕ) :=
  if size = a * (b * c) then .ok fun i j k => (i * b + j) * c + k
  else .error (.reshape size [a, b, c])

/-- `_rope_permute_index`. -/
def ropePermuteIndex (outFeatures nHead : ℕ) : Except IndexError (List ℕ) :=
  if nHead = 0 then .error .zeroDivision
  else do
    let pairs := outFeatures / nHead / 2
    let entries ← arange3 outFeatures nHead pairs 2
    -- `.swapaxes(1, 2).reshape(out_features)`
    return grid3 nHead 2 pairs fun h s j => entries h j s

/-- `_v_head_untile_index`. -/
def vHeadUntileIndex (numKHeads numVHeads headDim : ℕ) : Except IndexError (List ℕ) :=
  if numKHeads = 0 then .error .zeroDivision
  else do
    let groups := numVHeads / numKHeads
    let entries ← arange3 (numVHeads * headDim) groups numKHeads headDim
    -- `.swapaxes(0, 1).reshape(-1)`
    return grid3 numKHeads groups headDim fun k g c => entries g k c

/-! ### The tables -/

/-- A dictionary of entries, stored one after the other. -/
def ofEntries {V : Type} (entries : List (TensorName × V)) : Dict TensorName V :=
  entries.foldl (fun d p => d.set p.1 p.2) ∅

/-- `_build_permute_index`. -/
def buildPermuteIndex (model : Model) (numHiddenLayers : ℕ) :
    Except IndexError (Dict TensorName (List ℕ)) := do
  let idxQ ← ropePermuteIndex model.qRows model.numAttentionHeads
  let idxK ← ropePermuteIndex model.kRows model.numKeyValueHeads
  return ofEntries ((List.range numHiddenLayers).flatMap fun i =>
    [(.blk i "attn_q.weight", idxQ), (.blk i "attn_q.bias", idxQ),
      (.blk i "attn_k.weight", idxK), (.blk i "attn_k.bias", idxK)])

/-- The rows and columns of one layer in `_build_v_head_index`. -/
def vHeadEntries (i : ℕ) (gdn : GatedDeltaNet) :
    Except IndexError (List (TensorName × List ℕ) × List (TensorName × List ℕ)) :=
  if gdn.numVHeads = gdn.numKHeads then .ok ([], [])
  else do
    let heads ← vHeadUntileIndex gdn.numKHeads gdn.numVHeads 1
    let values ← vHeadUntileIndex gdn.numKHeads gdn.numVHeads gdn.headVDim
    let qkRows := 2 * gdn.keyDim
    let qkv := List.range qkRows ++ values.map (qkRows + ·)
    return ([(.blk i "attn_qkv.weight", qkv), (.blk i "ssm_conv1d.weight", qkv),
      (.blk i "attn_gate.weight", values), (.blk i "ssm_alpha.weight", heads),
      (.blk i "ssm_beta.weight", heads), (.blk i "ssm_a", heads), (.blk i "ssm_dt.bias", heads)],
      [(.blk i "ssm_out.weight", values)])

/-- `_build_v_head_index`, from layer `i` on. -/
def vHeadEntriesFrom (i : ℕ) : List (Option GatedDeltaNet) →
    Except IndexError (List (TensorName × List ℕ) × List (TensorName × List ℕ))
  | [] => .ok ([], [])
  | none :: layers => vHeadEntriesFrom (i + 1) layers
  | some gdn :: layers => do
      let (rows, columns) ← vHeadEntries i gdn
      let (rows', columns') ← vHeadEntriesFrom (i + 1) layers
      return (rows ++ rows', columns ++ columns')

/-- `_build_v_head_index`. -/
def buildVHeadIndex (model : Model) :
    Except IndexError (Dict TensorName (List ℕ) × Dict TensorName (List ℕ)) := do
  let (rows, columns) ← vHeadEntriesFrom 0 model.layers
  return (ofEntries rows, ofEntries columns)

/-! ### The adapter -/

/-- `GGUFModelAdapter`. -/
structure GGUFModelAdapter where
  /-- No path stands for a tensor without a counterpart. -/
  translationMap : Dict TensorName (Option LivePath)
  permuteIndex : Dict TensorName (List ℕ)
  columnIndex : Dict TensorName (List ℕ)
  plainTransforms : Dict TensorName GGUFPlainTransform

namespace GGUFModelAdapter

/-- `translate`; nothing for an unmapped tensor. -/
def translate (adapter : GGUFModelAdapter) (name : TensorName) : Option (Option LivePath) :=
  adapter.translationMap.get? name

def rowPermuteIndex (adapter : GGUFModelAdapter) (name : TensorName) : Option (List ℕ) :=
  adapter.permuteIndex.get? name

def columnPermuteIndex (adapter : GGUFModelAdapter) (name : TensorName) : Option (List ℕ) :=
  adapter.columnIndex.get? name

def plainTransform (adapter : GGUFModelAdapter) (name : TensorName) : Option GGUFPlainTransform :=
  adapter.plainTransforms.get? name

/-- `from_model`, with the translation map. -/
def fromModel (model : Model) (arch : Arch) (numHiddenLayers : ℕ)
    (translationMap : Dict TensorName (Option LivePath)) : Except IndexError GGUFModelAdapter := do
  let spec := archSpecs arch
  let (vHeadRows, vHeadColumns) ← if spec.tiledVHeads then buildVHeadIndex model else .ok (∅, ∅)
  let ropeRows ← if spec.ropePermutedQk then buildPermuteIndex model numHiddenLayers else .ok ∅
  return {
    translationMap := translationMap
    permuteIndex := ropeRows.update vHeadRows
    columnIndex := vHeadColumns
    plainTransforms := ofEntries ((List.range numHiddenLayers).flatMap fun i =>
      spec.layerTransforms.map fun p => (.blk i p.1, p.2)) }

end GGUFModelAdapter

end Gguf
end VllmMetal
