import VllmMetal.Lib.Ragged
import Mathlib.Algebra.Ring.Defs
import Mathlib.Data.Nat.Bitwise

/-!
# Superblocks of 256 weights

The block formats `Q2_K`, `Q3_K` and `Q6_K`, each as the loops that write the 256 weights of a
superblock in order.  A field of a byte is a quotient and a remainder here; the decoders shift and
mask.

## Main definitions

* `byteAt`, `loadU16` — reads of a byte string.
* `Code` — the low bits, high bits, sub-scale and sub-minimum of one weight.
* `blockCodes` — the codes of a superblock, in the order of its weights.
* `decodeBlock`, `decodeRow` — the weights of a superblock and of a row.

## Main results

* `blockCodes_eq_map` — the loops, weight by weight.
* `shiftRight_and`, `or_shiftLeft` — shifts and masks as quotients and remainders.
-/

namespace VllmMetal
namespace Gguf

/-! ### Bytes -/

/-- A byte of a byte string. -/
def byteAt (mem : List UInt8) (i : ℕ) : ℕ := (mem.getD i 0).toNat

theorem byteAt_lt (mem : List UInt8) (i : ℕ) : byteAt mem i < 256 := (mem.getD i 0).toNat_lt

/-- The pattern of a little-endian half at `b + i`. -/
def loadU16 (b : ℕ → ℕ) (i : ℕ) : ℕ := b i + 256 * b (i + 1)

/-- A byte as an `int8`. -/
def int8Of (v : ℕ) : ℤ := if v < 128 then v else v - 256

/-- A field of a number. -/
theorem shiftRight_and (v s w : ℕ) : (v >>> s) &&& (2 ^ w - 1) = v / 2 ^ s % 2 ^ w := by
  rw [Nat.and_two_pow_sub_one_eq_mod, Nat.shiftRight_eq_div_pow]

/-- High bits put in front of low bits. -/
theorem or_shiftLeft {lo w : ℕ} (h : lo < 2 ^ w) (hi : ℕ) :
    lo ||| (hi <<< w) = lo + 2 ^ w * hi := by
  rw [Nat.or_comm, ← Nat.shiftLeft_add_eq_or_of_lt h, Nat.shiftLeft_eq, Nat.mul_comm, Nat.add_comm]

/-! ### Codes -/

/-- The types of `RAW_KERNEL_GGUF_TYPES`. -/
inductive RawKernelType where
  | q2K
  | q3K
  | q6K
  deriving DecidableEq

/-- The bytes of a superblock, from `GGML_QUANT_SIZES`. -/
def RawKernelType.blockBytes : RawKernelType → ℕ
  | .q2K => 84
  | .q3K => 110
  | .q6K => 210

theorem RawKernelType.blockBytes_pos (qtype : RawKernelType) : 0 < qtype.blockBytes := by
  cases qtype <;> decide

/-- What one weight is made of; a part that its format lacks is `0`. -/
@[ext] structure Code where
  low : ℕ
  high : ℕ
  scale : ℤ
  min : ℕ
  deriving DecidableEq

/-- Weight `l` of 16-element group `h` of run `j` of half `n` of a `Q2_K` superblock. -/
def q2kCode (b : ℕ → ℕ) (n j h l : ℕ) : Code where
  low := b (16 + (32 * n + (16 * h + l))) / 4 ^ j % 4
  high := 0
  scale := b (8 * n + (2 * j + h)) % 16
  min := b (8 * n + (2 * j + h)) / 16

/-- Sub-scale `k` of a `Q3_K` superblock: four bits of the first eight bytes, two of the last
four. -/
def q3kScale (b : ℕ → ℕ) (k : ℕ) : ℤ :=
  (((if k < 8 then b (96 + k) % 16 else b (96 + (k - 8)) / 16) +
    16 * (b (104 + k % 4) / 4 ^ (k / 4) % 4) : ℕ) : ℤ) - 32

/-- Weight `l` of group `h` of run `j` of half `n` of a `Q3_K` superblock. -/
def q3kCode (b : ℕ → ℕ) (n j h l : ℕ) : Code where
  low := b (32 + (32 * n + (16 * h + l))) / 4 ^ j % 4
  high := b (16 * h + l) / 2 ^ (4 * n + j) % 2
  scale := q3kScale b (8 * n + (2 * j + h))
  min := 0

/-- Weight `l` of group `h` of run `j` of half `n` of a `Q6_K` superblock. -/
def q6kCode (b : ℕ → ℕ) (n j h l : ℕ) : Code where
  low :=
    let pair := b (64 * n + (32 * (j % 2) + (16 * h + l)))
    if j < 2 then pair % 16 else pair / 16
  high := b (128 + (32 * n + (16 * h + l))) / 4 ^ j % 4
  scale := int8Of (b (192 + (8 * n + (2 * j + h))))
  min := 0

/-- A weight of a superblock, by its place in the loops. -/
def codeAt : RawKernelType → (ℕ → ℕ) → ℕ → ℕ → ℕ → ℕ → Code
  | .q2K => q2kCode
  | .q3K => q3kCode
  | .q6K => q6kCode

/-- The codes of a superblock: two halves of four runs of two groups of sixteen weights. -/
def blockCodes (qtype : RawKernelType) (b : ℕ → ℕ) : List Code :=
  (List.range 2).flatMap fun n => (List.range 4).flatMap fun j => (List.range 2).flatMap fun h =>
    (List.range 16).map fun l => codeAt qtype b n j h l

/-- Weight `e` of a superblock. -/
def codeOf (qtype : RawKernelType) (b : ℕ → ℕ) (e : ℕ) : Code :=
  codeAt qtype b (e / 128) (e / 32 % 4) (e / 16 % 2) (e % 16)

/-- **The loops write weight `e` at place `e`.** -/
theorem blockCodes_eq_map (qtype : RawKernelType) (b : ℕ → ℕ) :
    blockCodes qtype b = (List.range 256).map (codeOf qtype b) := by
  have hgroups : ∀ n j : ℕ, ((List.range 2).flatMap fun h => (List.range 16).map fun l =>
      codeAt qtype b n j h l) = (List.range 32).map fun k => codeAt qtype b n j (k / 16) (k % 16) :=
    fun n j => flatMap_range_map 2 16 _
  have hruns : ∀ n : ℕ, ((List.range 4).flatMap fun j => (List.range 2).flatMap fun h =>
      (List.range 16).map fun l => codeAt qtype b n j h l)
        = (List.range 128).map fun k =>
          codeAt qtype b n (k / 32) (k % 32 / 16) (k % 32 % 16) := by
    intro n
    rw [List.flatMap_congr fun j _ => hgroups n j]
    exact flatMap_range_map 4 32 _
  rw [blockCodes, List.flatMap_congr fun n _ => hruns n, flatMap_range_map 2 128]
  apply List.map_congr_left
  intro e _
  rw [codeOf]
  congr 1 <;> omega

/-! ### Weights -/

section Weights

variable {K : Type*} [Ring K]

/-- The weight of a code, from the scale `d` and the scale of minimums `dmin` of its superblock. -/
def codeWeight (qtype : RawKernelType) (d dmin : K) (c : Code) : K :=
  match qtype with
  | .q2K => d * (c.scale : K) * (c.low : K) - dmin * (c.min : K)
  | .q3K => d * (c.scale : K) * (((c.low : ℤ) - if c.high = 1 then 0 else 4 : ℤ) : K)
  | .q6K => d * (c.scale : K) * (((c.low + 16 * c.high : ℕ) - 32 : ℤ) : K)

/-- Where the scale of a superblock is, and the scale of minimums or the scale again. -/
def RawKernelType.scaleOffsets : RawKernelType → ℕ × ℕ
  | .q2K => (80, 82)
  | .q3K => (108, 108)
  | .q6K => (208, 208)

/-- The 256 weights of a superblock; `half` reads the pattern of a half. -/
def decodeBlock (qtype : RawKernelType) (half : ℕ → K) (b : ℕ → ℕ) : List K :=
  (blockCodes qtype b).map (codeWeight qtype (half (loadU16 b qtype.scaleOffsets.1))
    (half (loadU16 b qtype.scaleOffsets.2)))

/-- The weights of a row of superblocks. -/
def decodeRow (qtype : RawKernelType) (half : ℕ → K) (row : List UInt8) : List K :=
  (List.range (row.length / qtype.blockBytes)).flatMap fun block =>
    decodeBlock qtype half fun i => byteAt row (block * qtype.blockBytes + i)

end Weights

end Gguf
end VllmMetal
