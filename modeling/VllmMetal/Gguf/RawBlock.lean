import VllmMetal.Gguf.BlockFormat
import VllmMetal.Lib.BitStream
import VllmMetal.Lib.Gather
import VllmMetal.Lib.Striding

/-!
# Weights kept as raw blocks

A `Q2_K`, `Q3_K` or `Q6_K` weight keeps its block bytes, and Metal kernels compute from them: one
decodes weight by weight, the other multiplies with activations and decodes sixteen weights at a
time.  The kernels are over any ring, with `half` for the value of a half's pattern.  An array never
has `2 ^ 31` entries, so the unsigned indices of the kernels are natural numbers.

## Main definitions

* `dequantElem` — the kernels that decode.
* `groupTerm`, `qmvKernel` — the kernels that multiply.
* `GGUFRawBlockTensor` — the weight.
-/

namespace VllmMetal
namespace Gguf

/-- `device const uint8_t* b = blocks + offset`. -/
def pointer (blocks : List UInt8) (offset : ℕ) : ℕ → ℕ := fun i => byteAt blocks (offset + i)

/-! ### The kernel that decodes -/

/-- What `_Q2K_DEQUANT_SOURCE` decodes. -/
def q2kDequantCode (b : ℕ → ℕ) (e : ℕ) : Code :=
  let sc := b (e / 16)
  { low := (b (16 + e / 128 * 32 + e % 32) >>> (2 * (e / 32 % 4))) &&& 3
    high := 0
    scale := ((sc &&& 0x0F : ℕ) : ℤ)
    min := sc >>> 4 }

/-- What `_Q3K_DEQUANT_SOURCE` decodes. -/
def q3kDequantCode (b : ℕ → ℕ) (e : ℕ) : Code :=
  let g := e / 16
  let lo := if g < 8 then b (96 + g) &&& 0x0F else b (96 + g - 8) >>> 4
  let hi := (b (104 + g % 4) >>> (2 * (g / 4))) &&& 3
  { low := (b (32 + e / 128 * 32 + e % 32) >>> (2 * (e / 32 % 4))) &&& 3
    high := (b (e % 32) >>> (e / 32)) &&& 1
    scale := ((lo ||| (hi <<< 4) : ℕ) : ℤ) - 32
    min := 0 }

/-- What `_Q6K_DEQUANT_SOURCE` decodes. -/
def q6kDequantCode (b : ℕ → ℕ) (within : ℕ) : Code :=
  let halfIdx := within / 128
  let e := within % 128
  let lowbyte := b (halfIdx * 64 + (e &&& 63))
  { low := if e < 64 then lowbyte &&& 0x0F else lowbyte >>> 4
    high := (b (128 + halfIdx * 32 + (e &&& 31)) >>> (2 * (e / 32))) &&& 3
    scale := int8Of (b (192 + within / 16))
    min := 0 }

def dequantCode : RawKernelType → (ℕ → ℕ) → ℕ → Code
  | .q2K => q2kDequantCode
  | .q3K => q3kDequantCode
  | .q6K => q6kDequantCode

section Kernels

variable {K : Type*} [Ring K]

/-- `_Q2K_DEQUANT_SOURCE`. -/
def q2kDequant (half : ℕ → K) (blocks : List UInt8) (elem : ℕ) : K :=
  let b := pointer blocks (elem / 256 * 84)
  let d := half (loadU16 b 80)
  let dmin := half (loadU16 b 82)
  let c := q2kDequantCode b (elem % 256)
  d * (c.scale : K) * (c.low : K) - dmin * (c.min : K)

/-- `_Q3K_DEQUANT_SOURCE`. -/
def q3kDequant (half : ℕ → K) (blocks : List UInt8) (elem : ℕ) : K :=
  let b := pointer blocks (elem / 256 * 110)
  let d := half (loadU16 b 108)
  let c := q3kDequantCode b (elem % 256)
  let q : ℤ := (c.low : ℤ) - (((1 - c.high) <<< 2 : ℕ) : ℤ)
  d * (c.scale : K) * (q : K)

/-- `_Q6K_DEQUANT_SOURCE`. -/
def q6kDequant (half : ℕ → K) (blocks : List UInt8) (elem : ℕ) : K :=
  let b := pointer blocks (elem / 256 * 210)
  let d := half (loadU16 b 208)
  let c := q6kDequantCode b (elem % 256)
  let q : ℤ := ((c.low ||| (c.high <<< 4) : ℕ) : ℤ) - 32
  d * (c.scale : K) * (q : K)

/-- `_DEQUANT_KERNELS`, thread `elem`. -/
def dequantElem : RawKernelType → (ℕ → K) → List UInt8 → ℕ → K
  | .q2K => q2kDequant
  | .q3K => q3kDequant
  | .q6K => q6kDequant

/-! ### The kernel that multiplies -/

/-- What a group decodes to: its sixteen weights share a sub-scale and a sub-minimum. -/
structure GroupCode where
  low : ℕ → ℕ
  high : ℕ → ℕ
  scale : ℤ
  min : ℕ

/-- Weight `i` of the group. -/
def GroupCode.code (c : GroupCode) (i : ℕ) : Code := ⟨c.low i, c.high i, c.scale, c.min⟩

/-- What `_Q2K_QMV_SOURCE` decodes for group `grp`. -/
def q2kGroupCode (b : ℕ → ℕ) (grp : ℕ) : GroupCode :=
  let scm := b grp
  let shift := 2 * (grp / 2 % 4)
  let qb := 16 + grp / 8 * 32 + grp % 2 * 16
  { low := fun i => (b (qb + i) >>> shift) &&& 3
    high := fun _ => 0
    scale := ((scm &&& 0x0F : ℕ) : ℤ)
    min := scm >>> 4 }

/-- What `_Q3K_QMV_SOURCE` decodes for group `grp`. -/
def q3kGroupCode (b : ℕ → ℕ) (grp : ℕ) : GroupCode :=
  let lo := if grp < 8 then b (96 + grp) &&& 0x0F else b (96 + grp - 8) >>> 4
  let hi := (b (104 + grp % 4) >>> (2 * (grp / 4))) &&& 3
  let shift := 2 * (grp / 2 % 4)
  let hbit := grp / 2
  let qb := 32 + grp / 8 * 32 + grp % 2 * 16
  let hb := grp % 2 * 16
  { low := fun i => (b (qb + i) >>> shift) &&& 3
    high := fun i => (b (hb + i) >>> hbit) &&& 1
    scale := ((lo ||| (hi <<< 4) : ℕ) : ℤ) - 32
    min := 0 }

/-- What `_Q6K_QMV_SOURCE` decodes for group `grp`. -/
def q6kGroupCode (b : ℕ → ℕ) (grp : ℕ) : GroupCode :=
  let halfIdx := grp / 8
  let e0 := grp % 8 * 16
  let shift := 2 * (e0 / 32)
  let qlb := halfIdx * 64 + (e0 &&& 63)
  let qhb := 128 + halfIdx * 32 + (e0 &&& 31)
  { low := fun i => if e0 < 64 then b (qlb + i) &&& 0x0F else b (qlb + i) >>> 4
    high := fun i => (b (qhb + i) >>> shift) &&& 3
    scale := int8Of (b (192 + grp))
    min := 0 }

def groupCode : RawKernelType → (ℕ → ℕ) → ℕ → GroupCode
  | .q2K => q2kGroupCode
  | .q3K => q3kGroupCode
  | .q6K => q6kGroupCode

/-- The loop body of `_Q2K_QMV_SOURCE`: what group `g` of a row adds for a batch row. -/
def q2kTerm (half : ℕ → K) (blocks : List UInt8) (x : List K) (blocksPerRow row g batch : ℕ) : K :=
  let blk := g / 16
  let grp := g % 16
  let b := pointer blocks ((row * blocksPerRow + blk) * 84)
  let d := half (loadU16 b 80)
  let dmin := half (loadU16 b 82)
  let c := q2kGroupCode b grp
  let s := d * (c.scale : K)
  let m := dmin * (c.min : K)
  let w := fun i => (c.low i : K)
  let xg := batch * blocksPerRow * 256 + (blk * 256 + grp * 16)
  let part := (List.range 16).foldl (fun part i => part + x.getD (xg + i) 0 * w i) 0
  let xsum := (List.range 16).foldl (fun xsum i => xsum + x.getD (xg + i) 0) 0
  s * part - m * xsum

/-- The loop body of `_Q3K_QMV_SOURCE`. -/
def q3kTerm (half : ℕ → K) (blocks : List UInt8) (x : List K) (blocksPerRow row g batch : ℕ) : K :=
  let blk := g / 16
  let grp := g % 16
  let b := pointer blocks ((row * blocksPerRow + blk) * 110)
  let d := half (loadU16 b 108)
  let c := q3kGroupCode b grp
  let sc := d * (c.scale : K)
  let w := fun i => sc * ((c.low i : ℤ) - (((1 - c.high i) <<< 2 : ℕ) : ℤ) : ℤ)
  let xg := batch * blocksPerRow * 256 + (blk * 256 + grp * 16)
  (List.range 16).foldl (fun part i => part + x.getD (xg + i) 0 * w i) 0

/-- The loop body of `_Q6K_QMV_SOURCE`. -/
def q6kTerm (half : ℕ → K) (blocks : List UInt8) (x : List K) (blocksPerRow row g batch : ℕ) : K :=
  let blk := g / 16
  let grp := g % 16
  let b := pointer blocks ((row * blocksPerRow + blk) * 210)
  let halfIdx := grp / 8
  let e0 := grp % 8 * 16
  let d := half (loadU16 b 208)
  let c := q6kGroupCode b grp
  let s := d * (c.scale : K)
  let w := fun i => ((((c.low i ||| (c.high i <<< 4) : ℕ) : ℤ) - 32 : ℤ) : K)
  let xg := batch * blocksPerRow * 256 + (blk * 256 + halfIdx * 128 + e0)
  let part := (List.range 16).foldl (fun part i => part + x.getD (xg + i) 0 * w i) 0
  s * part

def groupTerm : RawKernelType → (ℕ → K) → List UInt8 → List K → ℕ → ℕ → ℕ → ℕ → K
  | .q2K => q2kTerm
  | .q3K => q3kTerm
  | .q6K => q6kTerm

/-- `_KERNEL_THREADGROUP`. -/
def kernelThreadgroup : ℕ := 256

/-- `_QMV_PROLOGUE`: what thread `t` accumulates for each of `nb` batch rows. -/
def threadAcc (term : ℕ → ℕ → K) (nb totalGroups t : ℕ) : List K :=
  (strided t totalGroups 256).foldl (fun acc g => acc.mapIdx fun batch a => a + term g batch)
    (List.replicate nb 0)

/-- `simd_sum(acc[batch])`, for the simdgroup of thread `t`. -/
def simdSum (acc : ℕ → List K) (t batch : ℕ) : K :=
  sumOver 32 fun lane => (acc (t / 32 * 32 + lane)).getD batch 0

/-- The first threads of the simdgroups, which write the shared memory. -/
def simdLeaders : List ℕ := (List.range kernelThreadgroup).filter fun t => t &&& 31 = 0

/-- `shared`, at the barrier. -/
def sharedSums (acc : ℕ → List K) (nb : ℕ) : List K :=
  scatterRows (List.replicate (8 * nb) 0)
    (simdLeaders.flatMap fun t => (List.range nb).map fun batch => t / 32 * nb + batch)
    (simdLeaders.flatMap fun t => (List.range nb).map fun batch => simdSum acc t batch)

/-- The total of thread `t`, past the barrier. -/
def rowTotal (acc : ℕ → List K) (nb t : ℕ) : K :=
  (List.range 8).foldl (fun total i => total + (sharedSums acc nb).getD (i * nb + t) 0) 0

/-- The threads that write a row of `y`. -/
def rowWriters (nb : ℕ) : List ℕ := (List.range kernelThreadgroup).filter fun t => t < nb

/-- `_QMV_KERNELS`: a threadgroup for each row. -/
def qmvKernel (qtype : RawKernelType) (half : ℕ → K) (blocks : List UInt8) (x : List K)
    (nb blocksPerRow outFeatures : ℕ) : List K :=
  let acc := fun row => threadAcc (groupTerm qtype half blocks x blocksPerRow row) nb
    (blocksPerRow * 16)
  scatterRows (List.replicate (nb * outFeatures) 0)
    ((List.range outFeatures).flatMap fun row => (rowWriters nb).map fun t => t * outFeatures + row)
    ((List.range outFeatures).flatMap fun row => (rowWriters nb).map fun t =>
      rowTotal (acc row) nb t)

end Kernels

/-! ### The tensor -/

/-- A weight kept as raw blocks, a list of bytes a row. -/
structure GGUFRawBlockTensor where
  qweight : List (List UInt8)
  qweightType : RawKernelType
  rowBytes : ℕ
  row_length : ∀ row ∈ qweight, row.length = rowBytes
  blockBytes_le : qweightType.blockBytes ≤ rowBytes
  blockBytes_dvd : qweightType.blockBytes ∣ rowBytes

/-- The `ValueError`s of the tensor. -/
inductive RawBlockError where
  /-- "logical_shape must be 2-D and positive". -/
  | logicalShape (qtype : RawKernelType) (logicalShape : List ℤ)
  /-- "in_features … is not a multiple of the …-element superblock". -/
  | inFeatures (qtype : RawKernelType) (inFeatures : ℕ)
  /-- "raw block data has … bytes; logical shape … needs …". -/
  | size (qtype : RawKernelType) (size expectedBytes : ℕ)
  /-- "row byte width … is not a positive multiple of the …-byte superblock". -/
  | rowBytes (qtype : RawKernelType) (rowBytes : ℕ)
  /-- "matmul expects last dim …, got …". -/
  | lastDim (qtype : RawKernelType) (inFeatures got : ℕ)
  /-- "permute_rows index must be 1-D of length …". -/
  | indexLength (outFeatures got : ℕ)
  /-- "permute_rows index must be a permutation of range(…)". -/
  | indexRange (outFeatures : ℕ)
  deriving DecidableEq

/-- Activations of any leading shape, row-major. -/
structure Activations (K : Type*) where
  lead : List ℕ
  last : ℕ
  data : List K
  length_data : data.length = lead.prod * last

namespace GGUFRawBlockTensor

variable (t : GGUFRawBlockTensor)

def outFeatures : ℕ := t.qweight.length

/-- Superblocks of a row. -/
def blocksPerRow : ℕ := t.rowBytes / t.qweightType.blockBytes

def inFeatures : ℕ := t.blocksPerRow * 256

section Ops

variable {K : Type*} [Ring K] (half : ℕ → K)

/-- `_dequantize_rows`, over rows of `blocksPerRow` superblocks. -/
def dequantizeRows (packedRows : List (List UInt8)) : List (List K) :=
  let nElements := packedRows.length * t.inFeatures
  reshapeRows t.inFeatures
    ((List.range nElements).map (dequantElem t.qweightType half packedRows.flatten))

/-- `_qmv`, over `batch` rows. -/
def qmv (x : List K) (batch : ℕ) : List K :=
  qmvKernel t.qweightType half t.qweight.flatten x batch (t.inFeatures / 256) t.outFeatures

/-- The dot product of two rows. -/
def dot (x w : List K) : K := (List.zipWith (· * ·) x w).sum

/-- `_QMV_MAX_BATCH`. -/
def qmvMaxBatch : ℕ := 8

/-- `matmul`: the shape and the entries of the product. -/
def matmul (x : Activations K) : Except RawBlockError (List ℕ × List K) :=
  if x.last ≠ t.inFeatures then .error (.lastDim t.qweightType t.inFeatures x.last)
  else
    let shape := x.lead ++ [t.outFeatures]
    let flat := reshapeRows t.inFeatures x.data
    let rows := flat.length
    if rows = 0 then .ok (shape, List.replicate shape.prod 0)
    else if rows ≤ qmvMaxBatch then .ok (shape, t.qmv half x.data rows)
    else
      let dense := t.dequantizeRows half t.qweight
      .ok (shape, flat.flatMap fun row => dense.map (dot row))

/-- `embedding`, of ids in range. -/
def embedding (ids : List ℕ) : List (List K) :=
  t.dequantizeRows half (ids.map fun i => t.qweight.getD i [])

end Ops

/-- The rows in the order of an index. -/
def gatherRows (index : List ℕ) (h : ∀ i ∈ index, i < t.outFeatures) : GGUFRawBlockTensor where
  qweight := index.map fun i => t.qweight.getD i []
  qweightType := t.qweightType
  rowBytes := t.rowBytes
  row_length := by
    intro row hrow
    obtain ⟨i, hi, rfl⟩ := List.mem_map.mp hrow
    rw [List.getD_eq_getElem _ _ (h i hi)]
    exact t.row_length _ (List.getElem_mem _)
  blockBytes_le := t.blockBytes_le
  blockBytes_dvd := t.blockBytes_dvd

/-- `permute_rows`. -/
def permuteRows (index : List ℤ) : Except RawBlockError GGUFRawBlockTensor :=
  if index.length ≠ t.outFeatures then .error (.indexLength t.outFeatures index.length)
  else if h : index.mergeSort = (List.range t.outFeatures).map fun i : ℕ => (i : ℤ) then
    .ok (t.gatherRows (index.map Int.toNat) (toNat_lt_of_mergeSort h))
  else .error (.indexRange t.outFeatures)

/-- `from_raw_blocks`. -/
def fromRawBlocks (blockData : List UInt8) (logicalShape : List ℤ) (qtype : RawKernelType) :
    Except RawBlockError GGUFRawBlockTensor :=
  match logicalShape with
  | [outFeatures, inFeatures] =>
    if outFeatures < 1 ∨ inFeatures < 1 then .error (.logicalShape qtype logicalShape)
    else if inFeatures.toNat % 256 ≠ 0 then .error (.inFeatures qtype inFeatures.toNat)
    else
      let expectedBytes := outFeatures.toNat * (inFeatures.toNat / 256) * qtype.blockBytes
      if blockData.length ≠ expectedBytes then .error (.size qtype blockData.length expectedBytes)
      else
        let rowBytes := inFeatures.toNat / 256 * qtype.blockBytes
        if h : qtype.blockBytes ≤ rowBytes then .ok
          { qweight := reshapeRows rowBytes blockData
            qweightType := qtype
            rowBytes := rowBytes
            row_length := fun _ hrow => length_of_mem_reshapeRows hrow
            blockBytes_le := h
            blockBytes_dvd := Nat.dvd_mul_left _ _ }
        else .error (.rowBytes qtype rowBytes)
  | _ => .error (.logicalShape qtype logicalShape)

end GGUFRawBlockTensor

end Gguf
end VllmMetal
