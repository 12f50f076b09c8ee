import VllmMetal.Lib.BitStream
import VllmMetal.Lib.FoldMax
import VllmMetal.Lib.RoundEven
import Mathlib.Algebra.Order.Field.Rat
import Mathlib.Tactic.FieldSimp
import Mathlib.Tactic.Linarith
import Mathlib.Tactic.NormNum
import Mathlib.Tactic.Positivity

/-!
# TurboQuant key quantization

A block of 32 keys is stored as small indices on a uniform grid, with the grid's step and its zero
point in half precision.  The arithmetic is taken over the rationals, the rounding to the nearest
integer kept.  The step has a floor; the zero point is a quotient by the step and has none.

## Main definitions

* `quantParams` — the key formats.
* `quantizeBlock`, `quantize` — the quantizer of the host.
* `tqEncodeK` — the key half of the encoder kernel, on one simdgroup.
* `gridBlock` — both branches of the quantizer, as one grid over an interval of indices.

## Main results

* `quantize_representable_iff` — what is stored is right exactly on the blocks whose offset is not
  too far out for their spread.
-/

namespace VllmMetal
namespace TurboQuant

/-- `BLOCK_SIZE`. -/
def blockSize : ℕ := 32

/-- `TQ_MIN_SCALE`, the smallest normal half. -/
def tqMinScale : ℚ := 1 / 2 ^ 14

/-- The largest finite half. -/
def halfMax : ℤ := 65504

/-- The integer types of the indices. -/
inductive IndexDtype where
  | int8
  | uint8
  deriving DecidableEq

/-- `astype`, on an integer. -/
def IndexDtype.cast : IndexDtype → ℤ → ℤ
  | .int8, n => n.bmod 256
  | .uint8, n => n % 256

/-- An entry of `QUANT_PARAMS`. -/
structure QuantParams where
  signed : Bool
  bits : ℕ
  dtype : IndexDtype
  blockSize : ℕ
  deriving DecidableEq

/-- The keys of `QUANT_PARAMS`. -/
inductive QuantType where
  | q8_0
  | int8
  | uint8
  | q5_0
  | q4_0
  | int4
  | uint4
  | int2
  | uint2
  deriving DecidableEq

/-- `QUANT_PARAMS`. -/
def quantParams : QuantType → QuantParams
  | .q8_0 => ⟨true, 8, .int8, 32⟩
  | .int8 => ⟨true, 8, .int8, 32⟩
  | .uint8 => ⟨false, 8, .uint8, 32⟩
  | .q5_0 => ⟨false, 5, .uint8, 32⟩
  | .q4_0 => ⟨false, 4, .uint8, 32⟩
  | .int4 => ⟨false, 4, .uint8, 32⟩
  | .uint4 => ⟨false, 4, .uint8, 32⟩
  | .int2 => ⟨false, 2, .uint8, 32⟩
  | .uint2 => ⟨false, 2, .uint8, 32⟩

/-- The keys in sorted order, under their names in the table. -/
def quantTypeNames : List (String × QuantType) :=
  [("int2", .int2), ("int4", .int4), ("int8", .int8), ("q4_0", .q4_0), ("q5_0", .q5_0),
    ("q8_0", .q8_0), ("uint2", .uint2), ("uint4", .uint4), ("uint8", .uint8)]

/-- What the quantizer can refuse. -/
inductive QuantError where
  /-- "Unsupported quantization type: ... Available: ...". -/
  | unsupported (outputType : String) (available : List String)
  /-- A last dimension the block size does not divide. -/
  | reshape
  deriving DecidableEq

/-! ### The quantizer of the host -/

/-- A quantized block. -/
structure QuantBlock where
  indices : List ℤ
  scale : ℚ
  zeroPoint : ℤ
  deriving DecidableEq

/-- The least element of a block. -/
def blockMin (x : List ℚ) : ℚ := x.tail.foldl min (x.headD 0)

/-- The greatest element of a block. -/
def blockMax (x : List ℚ) : ℚ := x.tail.foldl max (x.headD 0)

/-- `_block_scale`. -/
def blockScale (xMin xMax levels : ℚ) : ℚ :=
  let scale := (xMax - xMin) / levels
  let fallback := max (max |xMin| |xMax| / levels) tqMinScale
  if scale < tqMinScale then fallback else scale

/-- `quantize`, on one block. -/
def quantizeBlock (p : QuantParams) (x : List ℚ) : QuantBlock :=
  let xMin := blockMin x
  let xMax := blockMax x
  if p.signed then
    let maxVal : ℤ := 2 ^ (p.bits - 1) - 1
    let scale := blockScale xMin xMax (2 * maxVal)
    let zeroPoint := roundEven ((xMax + xMin) / (2 * scale))
    { indices := x.map fun v =>
        p.dtype.cast (clipTo (-maxVal) maxVal (roundEven (v / scale - zeroPoint)))
      scale := scale
      zeroPoint := zeroPoint }
  else
    let maxVal : ℤ := 2 ^ p.bits - 1
    let scale := blockScale xMin xMax maxVal
    let zeroPoint := roundEven (xMin / scale)
    { indices := x.map fun v =>
        p.dtype.cast (clipTo 0 maxVal (roundEven (v / scale - zeroPoint)))
      scale := scale
      zeroPoint := zeroPoint }

/-- `quantize`, on one row: the indices flattened, and a step and a zero point a block. -/
def quantize (x : List ℚ) (outputType : String) :
    Except QuantError (List ℤ × List ℚ × List ℤ) :=
  match quantTypeNames.lookup outputType with
  | none => .error (.unsupported outputType (quantTypeNames.map Prod.fst))
  | some t =>
    let p := quantParams t
    if x.length % p.blockSize ≠ 0 then .error .reshape
    else
      let blocks := (reshapeRows p.blockSize x).map (quantizeBlock p)
      .ok (blocks.flatMap (·.indices), blocks.map (·.scale), blocks.map (·.zeroPoint))

/-- `dequantize`, on one block. -/
def dequantizeBlock (q : QuantBlock) : List ℚ :=
  q.indices.map fun (i : ℤ) => ((i : ℚ) + q.zeroPoint) * q.scale

/-! ### The encoder kernel -/

/-- What the encoder kernel writes for one simdgroup. -/
structure EncodedK where
  /-- `k_idx_i` of each lane. -/
  kIdx : List ℤ
  /-- The byte of each lane: written to the cache, or staged for the packer. -/
  kByte : List (BitVec 8)
  keyScale : ℚ
  keyZero : ℤ
  deriving DecidableEq

/-- The byte of `k_idx_i`: `uchar(uint(k_idx_i) & 0xFF)`, or the mask of a narrower index. -/
def kByte (bits : ℕ) (i : ℤ) : BitVec 8 :=
  if bits = 8 then ((BitVec.ofInt 32 i) &&& 0xFF).setWidth 8
  else ((BitVec.ofInt 32 i) &&& ((1#32 <<< bits) - 1)).setWidth 8

/-- The key half of `tq_encode`, on the lanes of one simdgroup. -/
def tqEncodeK (signed : Bool) (bits : ℕ) (lanes : List ℚ) : EncodedK :=
  let kMin := blockMin lanes
  let kMax := blockMax lanes
  let kAbsMax := max |kMin| |kMax|
  if signed then
    let maxVal : ℤ := 2 ^ (bits - 1) - 1
    let raw := (kMax - kMin) / (2 * maxVal)
    let kScale := if raw < tqMinScale then max (kAbsMax / (2 * maxVal)) tqMinScale else raw
    let kSum := kMax + kMin
    let kZp := roundEven (kSum / (2 * kScale))
    let kIdx := lanes.map fun v => clipTo (-maxVal) maxVal (roundEven (v / kScale - kZp))
    ⟨kIdx, kIdx.map (kByte bits), kScale, kZp⟩
  else
    let maxVal : ℤ := 2 ^ bits - 1
    let raw := (kMax - kMin) / maxVal
    let kScale := if raw < tqMinScale then max (kAbsMax / maxVal) tqMinScale else raw
    let kZp := roundEven (kMin / kScale)
    let kIdx := lanes.map fun v => clipTo 0 maxVal (roundEven (v / kScale - kZp))
    ⟨kIdx, kIdx.map (kByte bits), kScale, kZp⟩

/-! ### Both branches as one grid -/

/-- The least index of a format. -/
def idxLo (p : QuantParams) : ℤ := if p.signed then -(2 ^ (p.bits - 1) - 1) else 0

/-- The greatest index of a format. -/
def idxHi (p : QuantParams) : ℤ := if p.signed then 2 ^ (p.bits - 1) - 1 else 2 ^ p.bits - 1

/-- The steps a format has between the ends of its grid. -/
def levels (p : QuantParams) : ℚ := idxHi p - idxLo p

/-- The element of the block that index 0 stands for: its middle, or its least element. -/
def gridOffset (p : QuantParams) (x : List ℚ) : ℚ :=
  if p.signed then (blockMax x + blockMin x) / 2 else blockMin x

/-- A block on the grid of a format. -/
def gridBlock (p : QuantParams) (x : List ℚ) : QuantBlock :=
  let scale := blockScale (blockMin x) (blockMax x) (levels p)
  let zeroPoint := roundEven (gridOffset p x / scale)
  { indices := x.map fun v =>
      p.dtype.cast (clipTo (idxLo p) (idxHi p) (roundEven (v / scale - zeroPoint)))
    scale := scale
    zeroPoint := zeroPoint }

theorem quantizeBlock_eq_gridBlock (p : QuantParams) (x : List ℚ) :
    quantizeBlock p x = gridBlock p x := by
  rcases p with ⟨signed, bits, dtype, size⟩
  cases signed with
  | false => simp [quantizeBlock, gridBlock, levels, idxLo, idxHi, gridOffset]
  | true =>
    -- the grid is symmetric, and the middle is halved before the quotient or with it
    have hlevels : ((2 ^ (bits - 1) - 1 : ℤ) : ℚ) - ((-(2 ^ (bits - 1) - 1) : ℤ) : ℚ)
        = 2 * ((2 ^ (bits - 1) - 1 : ℤ) : ℚ) := by
      push_cast
      ring
    simp only [quantizeBlock, gridBlock, levels, idxLo, idxHi, gridOffset, if_true, hlevels,
      div_div]

theorem gridBlock_length (p : QuantParams) (x : List ℚ) :
    (gridBlock p x).indices.length = x.length := by
  simp [gridBlock]

/-! ### The formats -/

theorem idxLo_lt_idxHi (t : QuantType) : idxLo (quantParams t) < idxHi (quantParams t) := by
  cases t <;> decide

theorem levels_pos (t : QuantType) : 0 < levels (quantParams t) := by
  have h : (idxLo (quantParams t) : ℚ) < idxHi (quantParams t) := by
    exact_mod_cast idxLo_lt_idxHi t
  unfold levels
  linarith

theorem levels_le (t : QuantType) : levels (quantParams t) ≤ 255 := by
  have h : idxHi (quantParams t) - idxLo (quantParams t) ≤ 255 := by
    cases t <;> decide
  unfold levels
  exact_mod_cast h

/-- An index of a format goes through its integer type unchanged. -/
theorem cast_idx (t : QuantType) {i : ℤ} (hlo : idxLo (quantParams t) ≤ i)
    (hhi : i ≤ idxHi (quantParams t)) : (quantParams t).dtype.cast i = i := by
  cases t <;> simp [quantParams, idxLo, idxHi, IndexDtype.cast, Int.bmod] at hlo hhi ⊢ <;> omega

/-! ### The least and the greatest element -/

theorem blockMin_le {x : List ℚ} {v : ℚ} (hv : v ∈ x) : blockMin x ≤ v := by
  cases x with
  | nil => cases hv
  | cons w xs =>
    rcases List.mem_cons.mp hv with rfl | hv
    · exact (foldl_min_le xs v).1
    · exact (foldl_min_le xs w).2 v hv

theorem le_blockMax {x : List ℚ} {v : ℚ} (hv : v ∈ x) : v ≤ blockMax x := by
  cases x with
  | nil => cases hv
  | cons w xs =>
    rcases List.mem_cons.mp hv with rfl | hv
    · exact (le_foldl_max xs v).1
    · exact (le_foldl_max xs w).2 v hv

/-! ### The step of a block -/

theorem tqMinScale_pos : 0 < tqMinScale := by
  norm_num [tqMinScale]

theorem tqMinScale_le_blockScale (xMin xMax l : ℚ) : tqMinScale ≤ blockScale xMin xMax l := by
  simp only [blockScale]
  split_ifs with hlt
  · exact le_max_right _ _
  · exact not_lt.mp hlt

theorem blockScale_pos (xMin xMax l : ℚ) : 0 < blockScale xMin xMax l :=
  tqMinScale_pos.trans_le (tqMinScale_le_blockScale xMin xMax l)

/-- The grid covers the spread of the block, in both branches of the fallback. -/
theorem spread_le_mul_blockScale {l : ℚ} (hl : 0 < l) (xMin xMax : ℚ) :
    xMax - xMin ≤ l * blockScale xMin xMax l := by
  rw [← div_le_iff₀' hl]
  simp only [blockScale]
  split_ifs with hlt
  · exact hlt.le.trans (le_max_right _ _)
  · exact le_refl _

/-- Where the raw step is under the floor, the grid reaches back to zero. -/
theorem abs_le_mul_blockScale {l : ℚ} (hl : 0 < l) {xMin xMax : ℚ}
    (hlt : (xMax - xMin) / l < tqMinScale) :
    max |xMin| |xMax| ≤ l * blockScale xMin xMax l := by
  rw [← div_le_iff₀' hl, blockScale, if_pos hlt]
  exact le_max_left _ _

theorem blockScale_of_le {l xMin xMax : ℚ} (hge : tqMinScale ≤ (xMax - xMin) / l) :
    blockScale xMin xMax l = (xMax - xMin) / l := by
  rw [blockScale, if_neg (not_lt.mpr hge)]

/-! ### The indices -/

/-- A block of finite half precision keys. -/
structure KeyBlock where
  values : List ℚ
  length_eq : values.length = blockSize
  finite : ∀ v ∈ values, |v| ≤ halfMax

/-- Every element is within the ends of the grid around the offset. -/
theorem sub_gridOffset_mem (t : QuantType) {x : List ℚ} {v : ℚ} (hv : v ∈ x) :
    let p := quantParams t
    let scale := blockScale (blockMin x) (blockMax x) (levels p)
    idxLo p * scale ≤ v - gridOffset p x ∧ v - gridOffset p x ≤ idxHi p * scale := by
  intro p scale
  have hspread := spread_le_mul_blockScale (levels_pos t) (blockMin x) (blockMax x)
  have hmin := blockMin_le hv
  have hmax := le_blockMax hv
  have hsplit : levels p * scale = idxHi p * scale - idxLo p * scale := by
    rw [levels, sub_mul]
  change blockMax x - blockMin x ≤ _ at hspread
  rw [show levels (quantParams t) * _ = levels p * scale from rfl, hsplit] at hspread
  cases hs : p.signed with
  | false =>
    have hoff : gridOffset p x = blockMin x := by simp [gridOffset, hs]
    have hlo : idxLo p = 0 := by simp [idxLo, hs]
    rw [hlo] at hspread ⊢
    rw [hoff]
    push_cast at hspread ⊢
    constructor <;> linarith
  | true =>
    -- the middle is half a spread from both ends
    have hoff : gridOffset p x = (blockMax x + blockMin x) / 2 := by simp [gridOffset, hs]
    have hlo : idxLo p = -idxHi p := by simp [idxLo, idxHi, hs]
    rw [hlo] at hspread ⊢
    rw [hoff]
    push_cast at hspread ⊢
    constructor <;> linarith

/-- An element's index is at most half a step from the element on the shifted grid. -/
theorem abs_index_sub_le (t : QuantType) {x : List ℚ} {v : ℚ} (hv : v ∈ x) :
    let p := quantParams t
    let q := gridBlock p x
    |(clipTo (idxLo p) (idxHi p) (roundEven (v / q.scale - q.zeroPoint)) : ℚ)
      - (v / q.scale - q.zeroPoint)| ≤ 1 / 2 := by
  intro p q
  have hpos : 0 < q.scale := blockScale_pos _ _ _
  obtain ⟨hlo, hhi⟩ := sub_gridOffset_mem t hv
  have hzero := abs_le.mp (abs_roundEven_sub_le (gridOffset p x / q.scale))
  have hlo' : (idxLo p : ℚ) ≤ v / q.scale - gridOffset p x / q.scale := by
    rw [← sub_div, le_div_iff₀ hpos]
    exact hlo
  have hhi' : v / q.scale - gridOffset p x / q.scale ≤ idxHi p := by
    rw [← sub_div, div_le_iff₀ hpos]
    exact hhi
  have hzp : q.zeroPoint = roundEven (gridOffset p x / q.scale) := rfl
  rw [← hzp] at hzero
  apply abs_clipTo_roundEven_sub_le (idxLo_lt_idxHi t).le
  · linarith [hzero.2]
  · linarith [hzero.1]

/-- The indices of a block, without the integer type they are stored in. -/
theorem gridBlock_indices (t : QuantType) (x : List ℚ) :
    let p := quantParams t
    let q := gridBlock p x
    q.indices = x.map fun v =>
      clipTo (idxLo p) (idxHi p) (roundEven (v / q.scale - q.zeroPoint)) := by
  intro p q
  apply List.map_congr_left
  intro v _
  obtain ⟨hlo, hhi⟩ := clipTo_mem (idxLo_lt_idxHi t).le (roundEven (v / q.scale - q.zeroPoint))
  exact cast_idx t hlo hhi

theorem index_mem (t : QuantType) (x : List ℚ) {i : ℤ}
    (hi : i ∈ (gridBlock (quantParams t) x).indices) :
    idxLo (quantParams t) ≤ i ∧ i ≤ idxHi (quantParams t) := by
  rw [gridBlock_indices] at hi
  obtain ⟨v, -, rfl⟩ := List.mem_map.mp hi
  exact clipTo_mem (idxLo_lt_idxHi t).le _

/-- A dequantized element is at most half a step away. -/
theorem abs_dequantize_sub_le (t : QuantType) (x : List ℚ) :
    List.Forall₂ (fun v y => |y - v| ≤ (gridBlock (quantParams t) x).scale / 2) x
      (dequantizeBlock (gridBlock (quantParams t) x)) := by
  rw [dequantizeBlock, gridBlock_indices, List.map_map, List.forall₂_map_right_iff,
    List.forall₂_same]
  intro v hv
  have hnear := abs_index_sub_le t hv
  set q := gridBlock (quantParams t) x
  have hpos : 0 < q.scale := blockScale_pos _ _ _
  set i : ℚ := (clipTo (idxLo (quantParams t)) (idxHi (quantParams t))
    (roundEven (v / q.scale - q.zeroPoint)) : ℚ)
  show |(i + q.zeroPoint) * q.scale - v| ≤ q.scale / 2
  have hval : (i + q.zeroPoint) * q.scale - v = (i - (v / q.scale - q.zeroPoint)) * q.scale := by
    field_simp
    ring
  rw [hval, abs_mul, abs_of_pos hpos]
  calc |i - (v / q.scale - q.zeroPoint)| * q.scale ≤ 1 / 2 * q.scale :=
        mul_le_mul_of_nonneg_right hnear hpos.le
    _ = q.scale / 2 := by ring

/-! ### The zero point -/

/-- The offset of the block is not too far out for its spread, or the fallback is taken. -/
def ZeroPointFits (p : QuantParams) (x : List ℚ) : Prop :=
  blockMax x - blockMin x < levels p * tqMinScale ∨
    levels p * |gridOffset p x| ≤ (halfMax + 1 / 2) * (blockMax x - blockMin x)

instance decidableZeroPointFits (p : QuantParams) (x : List ℚ) : Decidable (ZeroPointFits p x) :=
  inferInstanceAs (Decidable (_ ∨ _))

theorem abs_gridOffset_le (p : QuantParams) (x : List ℚ) :
    |gridOffset p x| ≤ max |blockMin x| |blockMax x| := by
  have hmin := abs_le.mp (le_max_left |blockMin x| |blockMax x|)
  have hmax := abs_le.mp (le_max_right |blockMin x| |blockMax x|)
  unfold gridOffset
  split_ifs
  · rw [abs_le]
    constructor <;> linarith [hmin.1, hmin.2, hmax.1, hmax.2]
  · exact le_max_left _ _

/-- The stored zero point is finite exactly on the blocks that fit. -/
theorem zeroPoint_le_iff (t : QuantType) (x : List ℚ) :
    |(gridBlock (quantParams t) x).zeroPoint| ≤ halfMax ↔ ZeroPointFits (quantParams t) x := by
  set p := quantParams t
  set scale := blockScale (blockMin x) (blockMax x) (levels p) with hscale
  have hl : 0 < levels p := levels_pos t
  have hpos : 0 < scale := blockScale_pos _ _ _
  have hround : |(gridBlock p x).zeroPoint| ≤ halfMax ↔
      |gridOffset p x| ≤ (halfMax + 1 / 2) * scale := by
    show |roundEven (gridOffset p x / scale)| ≤ halfMax ↔ _
    rw [abs_roundEven_le_iff (by decide), abs_div, abs_of_pos hpos, div_le_iff₀ hpos]
  rw [hround, ZeroPointFits, ← div_lt_iff₀' hl]
  rcases lt_or_ge ((blockMax x - blockMin x) / levels p) tqMinScale with hlt | hge
  · -- under the floor the quotient is at most the number of levels
    have hoff := (abs_gridOffset_le p x).trans (abs_le_mul_blockScale hl hlt)
    have hbound : levels p * scale ≤ (halfMax + 1 / 2) * scale := by
      apply mul_le_mul_of_nonneg_right _ hpos.le
      exact (levels_le t).trans (by norm_num [halfMax])
    exact iff_of_true (hoff.trans hbound) (Or.inl hlt)
  · rw [hscale, blockScale_of_le hge, or_iff_right (not_lt.mpr hge), ← mul_div_assoc,
      le_div_iff₀' hl]

/-! ### The encoder kernel -/

/-- The low bits of a 32-bit register, cut to a byte. -/
theorem toNat_and_lowMask_byte {w : ℕ} (hw : w < 32) (i : ℤ) :
    ((BitVec.ofInt 32 i &&& lowMask 32 w).setWidth 8).toNat
      = (i % 4294967296).toNat % 2 ^ w % 256 := by
  rw [BitVec.toNat_setWidth, BitVec.toNat_and, toNat_lowMask hw, Nat.and_two_pow_sub_one_eq_mod,
    BitVec.toNat_ofInt]
  rfl

theorem byte_idx (i : ℤ) : (BitVec.ofInt 32 i &&& 0xFF).setWidth 8 = BitVec.ofInt 8 i := by
  have hmask : (0xFF : BitVec 32) = lowMask 32 8 := by decide
  apply BitVec.eq_of_toNat_eq
  rw [hmask, toNat_and_lowMask_byte (by decide), BitVec.toNat_ofInt]
  omega

theorem lowBits_idx {bits : ℕ} (hbits : bits ≤ 8) {i : ℤ} (hlo : 0 ≤ i) (hhi : i < 2 ^ bits) :
    (BitVec.ofInt 32 i &&& ((1#32 <<< bits) - 1)).setWidth 8 = BitVec.ofInt 8 i := by
  obtain ⟨n, rfl⟩ := Int.eq_ofNat_of_zero_le hlo
  have hn : n < 2 ^ bits := by exact_mod_cast hhi
  have h8 : 2 ^ bits ≤ 2 ^ 8 := Nat.pow_le_pow_right (by decide) hbits
  have hlow : ((n : ℤ) % 4294967296).toNat = n := by omega
  apply BitVec.eq_of_toNat_eq
  show ((BitVec.ofInt 32 (n : ℤ) &&& lowMask 32 bits).setWidth 8).toNat = _
  rw [toNat_and_lowMask_byte (by omega), BitVec.toNat_ofInt, hlow, Nat.mod_eq_of_lt hn]
  omega

/-- The byte the kernel writes for an index is the index of the host. -/
theorem kByte_idx (t : QuantType) {i : ℤ} (hlo : idxLo (quantParams t) ≤ i)
    (hhi : i ≤ idxHi (quantParams t)) :
    kByte (quantParams t).bits i = BitVec.ofInt 8 i := by
  unfold kByte
  split_ifs with h8
  · exact byte_idx i
  · -- only the unsigned formats are narrower than a byte
    have hnarrow : (quantParams t).bits ≤ 8 ∧ idxLo (quantParams t) = 0 ∧
        idxHi (quantParams t) = 2 ^ (quantParams t).bits - 1 := by
      revert h8
      cases t <;> decide
    obtain ⟨hbits, hzero, htop⟩ := hnarrow
    rw [hzero] at hlo
    rw [htop] at hhi
    exact lowBits_idx hbits hlo (Int.lt_of_le_sub_one hhi)

/-- The kernel computes the grid of the format, lane by lane. -/
theorem tqEncodeK_eq (p : QuantParams) (x : List ℚ) :
    let q := gridBlock p x
    let kIdx := x.map fun v =>
      clipTo (idxLo p) (idxHi p) (roundEven (v / q.scale - q.zeroPoint))
    tqEncodeK p.signed p.bits x = ⟨kIdx, kIdx.map (kByte p.bits), q.scale, q.zeroPoint⟩ := by
  rcases p with ⟨signed, bits, dtype, size⟩
  cases signed with
  | false => simp [tqEncodeK, gridBlock, blockScale, levels, idxLo, idxHi, gridOffset]
  | true =>
    have hlevels : ((2 ^ (bits - 1) - 1 : ℤ) : ℚ) - ((-(2 ^ (bits - 1) - 1) : ℤ) : ℚ)
        = 2 * ((2 ^ (bits - 1) - 1 : ℤ) : ℚ) := by
      push_cast
      ring
    simp only [tqEncodeK, gridBlock, blockScale, levels, idxLo, idxHi, gridOffset, if_true, hlevels,
      div_div]

/-! ### What is stored -/

/-- What the quantizer is for: the step, the indices and the zero point are in range, every element
comes back within one step, and the encoder kernel writes the same. -/
structure Representable (t : QuantType) (b : KeyBlock) : Prop where
  scale : tqMinScale ≤ (quantizeBlock (quantParams t) b.values).scale
  length : (quantizeBlock (quantParams t) b.values).indices.length = blockSize
  indices : ∀ i ∈ (quantizeBlock (quantParams t) b.values).indices,
    idxLo (quantParams t) ≤ i ∧ i ≤ idxHi (quantParams t)
  zeroPoint : |(quantizeBlock (quantParams t) b.values).zeroPoint| ≤ halfMax
  dequantize : List.Forall₂
    (fun v y => |y - v| ≤ (quantizeBlock (quantParams t) b.values).scale) b.values
    (dequantizeBlock (quantizeBlock (quantParams t) b.values))
  encoder : tqEncodeK (quantParams t).signed (quantParams t).bits b.values =
    let q := quantizeBlock (quantParams t) b.values
    ⟨q.indices, q.indices.map (BitVec.ofInt 8), q.scale, q.zeroPoint⟩

/-- The kernel writes the indices of the host. -/
theorem tqEncodeK_eq_gridBlock (t : QuantType) (x : List ℚ) :
    let q := gridBlock (quantParams t) x
    tqEncodeK (quantParams t).signed (quantParams t).bits x
      = ⟨q.indices, q.indices.map (BitVec.ofInt 8), q.scale, q.zeroPoint⟩ := by
  intro q
  have hbyte : q.indices.map (kByte (quantParams t).bits) = q.indices.map (BitVec.ofInt 8) := by
    apply List.map_congr_left
    intro i hi
    obtain ⟨hlo, hhi⟩ := index_mem t x hi
    exact kByte_idx t hlo hhi
  rw [tqEncodeK_eq, ← hbyte, gridBlock_indices]

/-- **A block is stored right exactly when its zero point fits.** -/
theorem quantize_representable_iff (t : QuantType) (b : KeyBlock) :
    Representable t b ↔ ZeroPointFits (quantParams t) b.values := by
  have hgrid := quantizeBlock_eq_gridBlock (quantParams t) b.values
  constructor
  · intro h
    have hzero := h.zeroPoint
    rw [hgrid] at hzero
    exact (zeroPoint_le_iff t b.values).mp hzero
  · intro h
    have hpos := blockScale_pos (blockMin b.values) (blockMax b.values) (levels (quantParams t))
    have hnear := abs_dequantize_sub_le t b.values
    constructor <;> rw [hgrid]
    case scale => exact tqMinScale_le_blockScale _ _ _
    case length => exact (gridBlock_length _ _).trans b.length_eq
    case indices => exact fun i hi => index_mem t b.values hi
    case zeroPoint => exact (zeroPoint_le_iff t b.values).mpr h
    case dequantize => exact hnear.imp fun v y hvy => hvy.trans (half_le_self hpos.le)
    case encoder => exact tqEncodeK_eq_gridBlock t b.values

/-- 100, and 31 times the next half above it. -/
def farValues : List ℚ := 100 :: List.replicate 31 (100 + 1 / 16)

/-- A block whose spread is small but over the floor, far from zero. -/
def farBlock : KeyBlock where
  values := farValues
  length_eq := rfl
  finite := by decide +kernel

/-- The zero point of a block can be too large for a half. -/
theorem quantize_not_representable : ¬ ∀ t b, Representable t b := by
  intro h
  have hzero := (h .uint8 farBlock).zeroPoint
  have hval : (quantizeBlock (quantParams .uint8) farBlock.values).zeroPoint = 408000 := by
    decide +kernel
  rw [hval] at hzero
  exact absurd hzero (by decide)

end TurboQuant
end VllmMetal
