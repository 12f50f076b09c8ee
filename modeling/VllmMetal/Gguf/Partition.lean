import VllmMetal.Gguf.Adapter
import VllmMetal.Gguf.Layout

/-!
# Routing the tensors of a file

The loader goes through the tensors of a file.  A quantized weight becomes a tensor to install, a
plain one a value to load, and a bias waits for whether its weight is quantized.  Rows, columns and
values are put back into the order of the model on the way.

## Main definitions

* `FileTensor` — a tensor as the reader gives it.
* `placeTensor`, `partition` — the loop, and what it leaves.
-/

namespace VllmMetal
namespace Gguf

/-- The type of a quantized tensor in a file. -/
inductive QuantType where
  | affine (qtype : AffineType)
  | raw (qtype : RawKernelType)
  deriving DecidableEq

/-- What a file stores for a tensor: numbers, or blocks. -/
inductive Payload (K : Type) where
  | plain (data : List K)
  | quant (qtype : QuantType) (blockData : List UInt8)

/-- A tensor of a file, its dimensions fastest first. -/
structure FileTensor (K : Type) where
  name : TensorName
  shape : List ℕ
  payload : Payload K

/-- A load fails. -/
inductive LoadError where
  /-- "Unmapped GGUF tensor …". -/
  | unmapped (name : TensorName)
  /-- "GGUF tensor … maps to … but module … is absent from the model." -/
  | absentModule (name : TensorName) (path : LivePath)
  /-- The module has no such parameter. -/
  | absentParam (path : LivePath)
  /-- "GGUF tensor … dims … != model …". -/
  | quantShape (name : TensorName) (actual : ℕ × ℕ) (modulePath : String) (expected : List ℕ)
  /-- "GGUF tensor … shape … != expected … for model …". -/
  | plainShape (name : TensorName) (actual expected : List ℕ) (path : LivePath)
  /-- The data does not fill the shape. -/
  | reshape (name : TensorName) (shape : List ℕ)
  | quant (e : QuantError)
  deriving DecidableEq

/-- `_PartitionedTensors`. -/
structure PartitionedTensors (K : Type) where
  quant : Dict String (GGUFTensor K)
  plain : Dict LivePath (NdArray K)
  biases : Dict String (NdArray K)

/-- What the loader is given besides the file: the repacking of affine types, the values of halves,
`mx.log`, the cast to the compute dtype and the parameters it is for. -/
structure GGUFModelLoader (K : Type) where
  affineFromRawBlocks : List UInt8 → List ℤ → AffineType →
    Except AffineError (GGUFMLXQuantizedTensor K)
  half : ℕ → K
  log : K → K
  toTargetDtype : K → K
  castPredicate : LivePath → Bool

namespace FileTensor

/-- `_logical_shape`. -/
def logicalShape {K : Type} (tensor : FileTensor K) : List ℕ := tensor.shape.reverse

end FileTensor

namespace GGUFModelLoader

variable {K : Type} [Ring K] (loader : GGUFModelLoader K)

/-- `_quant_tensor`. -/
def quantTensor (logical : List ℕ) (qtype : QuantType) (blockData : List UInt8) :
    Except QuantError (GGUFQuantTensor K) :=
  let logical := logical.map fun d : ℕ => (d : ℤ)
  match qtype with
  | .affine qtype =>
      (liftError .affine (loader.affineFromRawBlocks blockData logical qtype)).map .affine
  | .raw qtype =>
      (liftError .raw (GGUFRawBlockTensor.fromRawBlocks blockData logical qtype)).map .raw

/-- `_plain_tensor`; blocks do not fill the shape. -/
def plainTensor (tensor : FileTensor K) : Except LoadError (NdArray K) :=
  match tensor.payload with
  | .plain data =>
      if data.length = tensor.logicalShape.prod then
        .ok (NdArray.ofFlat 0 tensor.logicalShape data)
      else .error (.reshape tensor.name tensor.logicalShape)
  | .quant _ _ => .error (.reshape tensor.name tensor.logicalShape)

/-- `_validate_quant_shape`. -/
def validateQuantShape (model : Model) (modulePath : String) (qt : GGUFQuantTensor K)
    (name : TensorName) : Except LoadError Unit :=
  match model.shape ⟨modulePath, "weight"⟩ with
  | none => .error (.absentParam ⟨modulePath, "weight"⟩)
  | some expected =>
      if [qt.outFeatures, qt.inFeatures] ≠ expected then
        .error (.quantShape name (qt.outFeatures, qt.inFeatures) modulePath expected)
      else .ok ()

/-- `_validate_plain_shape`. -/
def validatePlainShape (model : Model) (path : LivePath) (array : NdArray K) (name : TensorName)
    (transform : Option GGUFPlainTransform) : Except LoadError Unit :=
  match model.shape path with
  | none => .error (.absentParam path)
  | some expected =>
      let expected := match transform with
        | none => expected
        | some transform => transform.sourceShape expected
      if array.shape ≠ expected then .error (.plainShape name array.shape expected path) else .ok ()

/-- The bias branch of the loop. -/
def placeBias (model : Model) (adapter : GGUFModelAdapter) (tensor : FileTensor K)
    (path : LivePath) : Except LoadError (NdArray K) := do
  let bias := (← plainTensor tensor).map loader.toTargetDtype
  validatePlainShape model path bias tensor.name none
  return match adapter.rowPermuteIndex tensor.name with
    | some permute => bias.takeRows permute
    | none => bias

/-- The branch of a quantized weight. -/
def placeQuant (model : Model) (adapter : GGUFModelAdapter) (tensor : FileTensor K)
    (path : LivePath) (qtype : QuantType) (blockData : List UInt8) :
    Except LoadError (GGUFTensor K) := do
  let qt ← liftError .quant (loader.quantTensor tensor.logicalShape qtype blockData)
  validateQuantShape model path.modulePath qt tensor.name
  let qt ← match adapter.rowPermuteIndex tensor.name with
    | some permute => liftError .quant (qt.permuteRows permute)
    | none => .ok qt
  return match adapter.columnPermuteIndex tensor.name with
    | some columns => .columnPermuted qt columns
    | none => .stored qt

/-- The branch of a plain tensor. -/
def placePlain (model : Model) (adapter : GGUFModelAdapter) (tensor : FileTensor K)
    (path : LivePath) : Except LoadError (NdArray K) := do
  let transform := adapter.plainTransform tensor.name
  let weight ← plainTensor tensor
  validatePlainShape model path weight tensor.name transform
  let weight := match transform with
    | some transform => transform.apply loader.log weight
    | none => weight
  let weight := match adapter.rowPermuteIndex tensor.name with
    | some permute => weight.takeRows permute
    | none => weight
  let weight := match adapter.columnPermuteIndex tensor.name with
    | some columns => weight.takeColumns columns
    | none => weight
  return if loader.castPredicate path then weight.map loader.toTargetDtype else weight

/-- The body of the loop. -/
def placeTensor (model : Model) (tied : Bool) (adapter : GGUFModelAdapter)
    (parts : PartitionedTensors K) (tensor : FileTensor K) :
    Except LoadError (PartitionedTensors K) :=
  match adapter.translate tensor.name with
  | none => .error (.unmapped tensor.name)
  | some none => .ok parts
  | some (some path) =>
      -- the tied head uses the embedding
      if tied ∧ path = ⟨"lm_head", "weight"⟩ then .ok parts
      else if !model.hasModule path.modulePath then .error (.absentModule tensor.name path)
      else if path.paramName = "bias" then do
        let bias ← loader.placeBias model adapter tensor path
        return { parts with biases := parts.biases.set path.modulePath bias }
      else match tensor.payload with
        | .quant qtype blockData => do
            let qt ← loader.placeQuant model adapter tensor path qtype blockData
            return { parts with quant := parts.quant.set path.modulePath qt }
        | .plain _ => do
            let weight ← loader.placePlain model adapter tensor path
            return { parts with plain := parts.plain.set path weight }

/-- A bias whose weight is plain is loaded like it. -/
def movePlainBiases (parts : PartitionedTensors K) : PartitionedTensors K :=
  (parts.biases.keys.filter fun path => path ∉ parts.quant).foldl (fun parts modulePath =>
    match parts.biases.get? modulePath with
    | none => parts
    | some bias =>
        { parts with
          plain := parts.plain.set ⟨modulePath, "bias"⟩ bias
          biases := parts.biases.pop modulePath }) parts

/-- `_partition`. -/
def partition (model : Model) (tied : Bool) (adapter : GGUFModelAdapter)
    (tensors : List (FileTensor K)) : Except LoadError (PartitionedTensors K) := do
  let parts ← tensors.foldlM (loader.placeTensor model tied adapter) ⟨∅, ∅, ∅⟩
  return movePlainBiases parts

end GGUFModelLoader

end Gguf
end VllmMetal
