import VllmMetal.Gguf.RawBlockSound
import VllmMetal.Lib.Gather
import Mathlib.Data.Nat.Bitwise

/-!
# Quantized tensors in another layout

A quantized weight is either a triple of packed codes, scales and biases, or raw blocks.  Its rows
can be gathered as they are packed.  Its columns cannot: a tensor with permuted columns gathers the
activations into the stored order instead, and the columns of the rows it decodes.

## Main definitions

* `GGUFMLXQuantizedTensor` — the triple, with `mx.dequantize` and `mx.quantized_matmul` on it.
* `GGUFQuantTensor` — either of the two.
* `GGUFTensor` — one of them, or one with permuted columns.
-/

namespace VllmMetal
namespace Gguf

open GGUFRawBlockTensor

/-! ### Packed triples -/

/-- The types that are repacked. -/
inductive AffineType where
  | q8_0
  | q4_0
  | q4_1
  | q5_0
  | q5_1
  | q4K
  | q5K
  | iq4Nl
  | iq4Xs
  | iq3S
  deriving DecidableEq

/-- `_BITS`. -/
def AffineType.bits : AffineType → ℕ
  | .q8_0 | .iq4Nl | .iq4Xs => 8
  | .q5_0 | .q5_1 | .q5K => 5
  | .q4_0 | .q4_1 | .q4K | .iq3S => 4

/-- `_GROUP_SIZE`. -/
def groupSize : ℕ := 32

/-- A weight as packed codes with a scale and a bias for each group. -/
structure GGUFMLXQuantizedTensor (K : Type) where
  qweight : List (List (BitVec 32))
  scales : List (List K)
  biases : List (List K)
  qweightType : AffineType
  numGroups : ℕ
  scales_rows : scales.length = qweight.length
  biases_rows : biases.length = qweight.length
  qweight_length : ∀ row ∈ qweight, row.length = numGroups * qweightType.bits
  scales_length : ∀ row ∈ scales, row.length = numGroups
  biases_length : ∀ row ∈ biases, row.length = numGroups
  numGroups_pos : 0 < numGroups

/-- The `ValueError`s of the triple. -/
inductive AffineError where
  /-- The blocks cannot be repacked. -/
  | rawBlocks (qtype : AffineType) (logicalShape : List ℤ)
  /-- `quantized_matmul` gets another last dimension. -/
  | lastDim (qtype : AffineType) (inFeatures got : ℕ)
  /-- "permute_rows index must be 1-D of length …". -/
  | indexLength (outFeatures got : ℕ)
  /-- "permute_rows index must be a permutation of range(…)". -/
  | indexRange (outFeatures : ℕ)
  deriving DecidableEq

namespace GGUFMLXQuantizedTensor

section

variable {K : Type} [Ring K] (t : GGUFMLXQuantizedTensor K)

def outFeatures : ℕ := t.qweight.length

def inFeatures : ℕ := t.numGroups * groupSize

/-- Code `e` of a packed row, the least significant bits first. -/
def packedCode (bits : ℕ) (words : List (BitVec 32)) (e : ℕ) : ℕ :=
  Nat.ofBits fun q : Fin bits => streamBit 32 words (e * bits + q)

/-- `mx.dequantize` of a row. -/
def dequantizeRow (words : List (BitVec 32)) (scales biases : List K) : List K :=
  (List.range t.inFeatures).map fun e =>
    scales.getD (e / groupSize) 0 * (packedCode t.qweightType.bits words e : K) +
      biases.getD (e / groupSize) 0

/-- The rows of the weight that `ids` select. -/
def dequantizeIds (ids : List ℕ) : List (List K) :=
  ids.map fun i => t.dequantizeRow (t.qweight.getD i []) (t.scales.getD i []) (t.biases.getD i [])

/-- `matmul`, by `mx.quantized_matmul`. -/
def matmul (x : Activations K) : Except AffineError (List ℕ × List K) :=
  if x.last ≠ t.inFeatures then .error (.lastDim t.qweightType t.inFeatures x.last)
  else .ok (x.lead ++ [t.outFeatures], (reshapeRows t.inFeatures x.data).flatMap fun row =>
    (t.dequantizeIds (List.range t.outFeatures)).map (dot row))

/-- `embedding`, of ids in range. -/
def embedding (ids : List ℕ) : List (List K) := t.dequantizeIds ids

end

variable {K : Type} (t : GGUFMLXQuantizedTensor K)

/-- Rows of one length, gathered. -/
theorem length_gather_row {α : Type} {rows : List (List α)} {n : ℕ} {index : List ℕ}
    (hrows : ∀ row ∈ rows, row.length = n) (hindex : ∀ i ∈ index, i < rows.length) :
    ∀ row ∈ gather [] rows index, row.length = n := by
  intro row hrow
  obtain ⟨i, hi, rfl⟩ := List.mem_map.mp hrow
  rw [List.getD_eq_getElem _ _ (hindex i hi)]
  exact hrows _ (List.getElem_mem _)

/-- The rows of all three in the order of an index. -/
def gatherRows (index : List ℕ) (h : ∀ i ∈ index, i < t.outFeatures) :
    GGUFMLXQuantizedTensor K where
  qweight := gather [] t.qweight index
  scales := gather [] t.scales index
  biases := gather [] t.biases index
  qweightType := t.qweightType
  numGroups := t.numGroups
  scales_rows := by rw [length_gather, length_gather]
  biases_rows := by rw [length_gather, length_gather]
  qweight_length := length_gather_row t.qweight_length h
  scales_length := length_gather_row t.scales_length (t.scales_rows ▸ h)
  biases_length := length_gather_row t.biases_length (t.biases_rows ▸ h)
  numGroups_pos := t.numGroups_pos

/-- `permute_rows`. -/
def permuteRows (index : List ℤ) : Except AffineError (GGUFMLXQuantizedTensor K) :=
  if index.length ≠ t.outFeatures then .error (.indexLength t.outFeatures index.length)
  else if h : index.mergeSort = (List.range t.outFeatures).map fun i : ℕ => (i : ℤ) then
    .ok (t.gatherRows (index.map Int.toNat) (toNat_lt_of_mergeSort h))
  else .error (.indexRange t.outFeatures)

end GGUFMLXQuantizedTensor

/-! ### Either kind -/

/-- `GGUFQuantTensor`. -/
inductive GGUFQuantTensor (K : Type) where
  | affine (t : GGUFMLXQuantizedTensor K)
  | raw (t : GGUFRawBlockTensor)

/-- The errors of either kind. -/
inductive QuantError where
  | affine (e : AffineError)
  | raw (e : RawBlockError)
  deriving DecidableEq

/-- An error of one kind. -/
def liftError {E E' α : Type} (f : E → E') : Except E α → Except E' α
  | .error e => .error (f e)
  | .ok a => .ok a

namespace GGUFQuantTensor

variable {K : Type}

def outFeatures : GGUFQuantTensor K → ℕ
  | affine t => t.outFeatures
  | raw t => t.outFeatures

def inFeatures : GGUFQuantTensor K → ℕ
  | affine t => t.inFeatures
  | raw t => t.inFeatures

def permuteRows (index : List ℕ) : GGUFQuantTensor K → Except QuantError (GGUFQuantTensor K)
  | affine t => (liftError .affine (t.permuteRows (index.map fun i : ℕ => (i : ℤ)))).map affine
  | raw t => (liftError .raw (t.permuteRows (index.map fun i : ℕ => (i : ℤ)))).map raw

variable [Ring K] (half : ℕ → K)

def matmul (x : Activations K) : GGUFQuantTensor K → Except QuantError (List ℕ × List K)
  | affine t => liftError .affine (t.matmul x)
  | raw t => liftError .raw (t.matmul half x)

def embedding (ids : List ℕ) : GGUFQuantTensor K → List (List K)
  | affine t => t.embedding ids
  | raw t => t.embedding half ids

end GGUFQuantTensor

/-! ### Permuted columns -/

/-- `mx.take(x, index, axis=-1)`. -/
def takeLast {K : Type} [Zero K] (index : List ℕ) (x : Activations K) : Activations K where
  lead := x.lead
  last := index.length
  data := (List.range x.lead.prod).flatMap fun r => index.map fun j =>
    x.data.getD (r * x.last + j) 0
  length_data := by simp

/-- `GGUFTensor`: a quantized tensor, or `GGUFColumnPermutedTensor` of one. -/
inductive GGUFTensor (K : Type) where
  | stored (tensor : GGUFQuantTensor K)
  | columnPermuted (tensor : GGUFQuantTensor K) (columnIndex : List ℕ)

namespace GGUFTensor

variable {K : Type} [Ring K] (half : ℕ → K)

def matmul (x : Activations K) : GGUFTensor K → Except QuantError (List ℕ × List K)
  | stored tensor => tensor.matmul half x
  -- `_stored_order` is the `argsort` of the index
  | columnPermuted tensor columnIndex => tensor.matmul half (takeLast (argsort columnIndex) x)

def embedding (ids : List ℕ) : GGUFTensor K → List (List K)
  | stored tensor => tensor.embedding half ids
  | columnPermuted tensor columnIndex =>
      (tensor.embedding half ids).map fun row => gather 0 row columnIndex

end GGUFTensor

end Gguf
end VllmMetal
