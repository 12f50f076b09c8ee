import VllmMetal.Gguf.Half
import VllmMetal.Gguf.Layout
import Mathlib.Algebra.Ring.Int.Defs
import Mathlib.Data.Int.Cast.Lemmas
import Mathlib.Data.Rat.Init
import Mathlib.Algebra.Field.Rat

/-!
# Block formats of the affine types

The ten block formats whose weights are an affine function of a small code, the same for a run of
32 weights.  A field of a byte is a quotient and a remainder here; the parsers shift and mask.

## Main definitions

* `AffineType.blockElems`, `AffineType.blockBytes` — the size of a block.
* `Codebooks` — the tables that two of the formats look weights up in.
* `HalvesFit` — the halves of a block and its biases are finite.
* `blockWeight` — weight `e` of a block.
-/

namespace VllmMetal
namespace Gguf

namespace AffineType

/-- The groups of 32 weights of a block, from `GGML_QUANT_SIZES`. -/
def blockGroups : AffineType → ℕ
  | .q8_0 | .q4_0 | .q4_1 | .q5_0 | .q5_1 | .iq4Nl => 1
  | .q4K | .q5K | .iq4Xs | .iq3S => 8

/-- The weights of a block. -/
def blockElems (qtype : AffineType) : ℕ := qtype.blockGroups * 32

/-- The bytes of a block, from `GGML_QUANT_SIZES`. -/
def blockBytes : AffineType → ℕ
  | .q8_0 => 34
  | .q4_0 => 18
  | .q4_1 => 20
  | .q5_0 => 22
  | .q5_1 => 24
  | .q4K => 144
  | .q5K => 176
  | .iq4Nl => 18
  | .iq4Xs => 136
  | .iq3S => 110

theorem blockBytes_pos (qtype : AffineType) : 0 < qtype.blockBytes := by cases qtype <;> decide

theorem blockGroups_pos (qtype : AffineType) : 0 < qtype.blockGroups := by cases qtype <;> decide

theorem blockElems_pos (qtype : AffineType) : 0 < qtype.blockElems := by cases qtype <;> decide

theorem div_lt_blockGroups {qtype : AffineType} {e : ℕ} (he : e < qtype.blockElems) :
    e / 32 < qtype.blockGroups := by
  rw [blockElems] at he
  exact Nat.div_lt_of_lt_mul (by omega)

theorem mul_blockElems_div (qtype : AffineType) (n : ℕ) :
    n * qtype.blockElems / 32 = n * qtype.blockGroups := by
  rw [blockElems, ← Nat.mul_assoc, Nat.mul_div_cancel _ (by decide)]

theorem dvd_mul_blockElems (qtype : AffineType) (n : ℕ) : 32 ∣ n * qtype.blockElems := by
  rw [blockElems, ← Nat.mul_assoc]
  exact Nat.dvd_mul_left _ _

end AffineType

/-! ### Halves -/

/-- The power of two that the bias of a group takes from its scale as a half. -/
def AffineType.biasShift : AffineType → ℕ
  | .q8_0 | .iq4Nl => 7
  | .q5_0 => 4
  | .q4_0 => 3
  | .q4_1 | .q5_1 | .q4K | .q5K | .iq4Xs | .iq3S => 0

/-- The types whose blocks hold a second half. -/
def AffineType.hasMin : AffineType → Bool
  | .q4_1 | .q5_1 | .q4K | .q5K => true
  | .q8_0 | .q4_0 | .q5_0 | .iq4Nl | .iq4Xs | .iq3S => false

/-- The halves of a block are finite, and a bias that is multiplied as a half is too: the scale is
below 512 in `Q8_0` and `IQ4_NL`, 4096 in `Q5_0` and 8192 in `Q4_0`. -/
structure HalvesFit (qtype : AffineType) (b : ℕ → ℕ) : Prop where
  scale : loadU16 b 0 / 1024 % 32 + qtype.biasShift < 31
  min : qtype.hasMin = true → loadU16 b 2 / 1024 % 32 < 31

instance (qtype : AffineType) (b : ℕ → ℕ) : Decidable (HalvesFit qtype b) :=
  decidable_of_iff (loadU16 b 0 / 1024 % 32 + qtype.biasShift < 31 ∧
      (qtype.hasMin = true → loadU16 b 2 / 1024 % 32 < 31))
    ⟨fun h => ⟨h.1, h.2⟩, fun h => ⟨h.scale, h.min⟩⟩

/-! ### Codebooks -/

/-- The tables of the package `gguf`: the values of an IQ4 nibble and the grid of `IQ3_S`. -/
structure Codebooks where
  kvalues : List ℤ
  grid : List (List ℕ)
  length_kvalues : kvalues.length = 16
  kvalues_int8 : ∀ v ∈ kvalues, -128 ≤ v ∧ v < 128
  length_grid : grid.length = 512
  grid_row : ∀ row ∈ grid, row.length = 4 ∧ ∀ m ∈ row, m % 2 = 1 ∧ m ≤ 15

/-- The values of the IQ4 nibbles, with a grid of one row. -/
def iq4Codebooks : Codebooks where
  kvalues := [-127, -104, -83, -65, -49, -35, -22, -10, 1, 13, 25, 38, 53, 69, 89, 113]
  grid := List.replicate 512 [1, 3, 5, 7]
  length_kvalues := rfl
  kvalues_int8 := by decide
  length_grid := List.length_replicate
  grid_row := by
    intro row hrow
    rw [List.eq_of_mem_replicate hrow]
    decide

namespace Codebooks

variable (books : Codebooks)

/-- The value of a nibble. -/
def kvalue (q : ℕ) : ℤ := books.kvalues.getD q 0

/-- Magnitude `k` of a row of the grid. -/
def magnitude (row k : ℕ) : ℕ := (books.grid.getD row []).getD k 0

theorem kvalue_int8 {q : ℕ} (hq : q < 16) : -128 ≤ books.kvalue q ∧ books.kvalue q < 128 := by
  rw [← books.length_kvalues] at hq
  rw [kvalue, List.getD_eq_getElem _ _ hq]
  exact books.kvalues_int8 _ (List.getElem_mem hq)

theorem length_grid_row {row : ℕ} (hrow : row < 512) : (books.grid.getD row []).length = 4 := by
  rw [← books.length_grid] at hrow
  rw [List.getD_eq_getElem _ _ hrow]
  exact (books.grid_row _ (List.getElem_mem hrow)).1

theorem magnitude_spec {row k : ℕ} (hrow : row < 512) (hk : k < 4) :
    books.magnitude row k % 2 = 1 ∧ books.magnitude row k ≤ 15 := by
  have hlen := books.length_grid_row hrow
  rw [← books.length_grid] at hrow
  rw [magnitude, List.getD_eq_getElem (books.grid.getD row []) _ (by omega)]
  refine (books.grid_row (books.grid.getD row []) ?_).2 _ (List.getElem_mem _)
  rw [List.getD_eq_getElem _ _ hrow]
  exact List.getElem_mem hrow

end Codebooks

/-! ### Fields -/

/-- Bit `i` of the bytes at `off`. -/
def bitAt (b : ℕ → ℕ) (off i : ℕ) : ℕ := b (off + i / 8) / 2 ^ (i % 8) % 2

/-- Nibble `e` of sixteen bytes at `off`: the low nibbles come first. -/
def halvesNibble (b : ℕ → ℕ) (off e : ℕ) : ℕ :=
  if e < 16 then b (off + e) % 16 else b (off + (e - 16)) / 16

/-- Nibble `j` of bytes at `off`, byte by byte. -/
def pairNibble (b : ℕ → ℕ) (off j : ℕ) : ℕ :=
  if j % 2 = 0 then b (off + j / 2) % 16 else b (off + j / 2) / 16

/-- Nibble `e` of a superblock whose bytes at `off` hold two groups for every 32 of them. -/
def chunkNibble (b : ℕ → ℕ) (off e : ℕ) : ℕ :=
  let byte := b (off + (32 * (e / 64) + e % 32))
  if e / 32 % 2 = 0 then byte % 16 else byte / 16

/-- The sub-scale of group `g` of a superblock of `Q4_K` or `Q5_K`. -/
def kquantScale (b : ℕ → ℕ) (g : ℕ) : ℕ :=
  if g < 4 then b (4 + g) % 64 else b (8 + g) % 16 + 16 * (b g / 64)

/-- The sub-minimum of group `g`. -/
def kquantMin (b : ℕ → ℕ) (g : ℕ) : ℕ :=
  if g < 4 then b (8 + g) % 64 else b (8 + g) / 16 + 16 * (b (4 + g) / 64)

/-- The sub-scale of group `g` of an `IQ4_XS` superblock. -/
def iq4xsScale (b : ℕ → ℕ) (g : ℕ) : ℤ :=
  ((pairNibble b 4 g + 16 * (loadU16 b 2 / 4 ^ g % 4) : ℕ) : ℤ) - 32

/-- The grid row that holds weight `e` of an `IQ3_S` superblock. -/
def iq3sRow (b : ℕ → ℕ) (e : ℕ) : ℕ := b (2 + e / 4) + 256 * bitAt b 66 (e / 4)

/-- Weight `e` of an `IQ3_S` superblock, before it is scaled. -/
def iq3sValue (books : Codebooks) (b : ℕ → ℕ) (e : ℕ) : ℤ :=
  let m : ℤ := books.magnitude (iq3sRow b e) (e % 4)
  if bitAt b 74 e = 1 then -m else m

/-! ### Weights -/

section Weights

variable {K : Type*} [CommRing K]

/-- Weight `e` of a block with the bytes `b`; `half` reads the pattern of a half. -/
def blockWeight (books : Codebooks) (half : ℕ → K) (qtype : AffineType) (b : ℕ → ℕ) (e : ℕ) : K :=
  let d := half (loadU16 b 0)
  let second := half (loadU16 b 2)
  match qtype with
  | .q8_0 => d * (int8Of (b (2 + e)) : K)
  | .q4_0 => d * (((halvesNibble b 2 e : ℤ) - 8 : ℤ) : K)
  | .q4_1 => d * (halvesNibble b 4 e : K) + second
  | .q5_0 => d * (((halvesNibble b 6 e + 16 * bitAt b 2 e : ℕ) - 16 : ℤ) : K)
  | .q5_1 => d * ((halvesNibble b 8 e + 16 * bitAt b 4 e : ℕ) : K) + second
  | .q4K => d * (kquantScale b (e / 32) : K) * (chunkNibble b 16 e : K)
      - second * (kquantMin b (e / 32) : K)
  | .q5K => d * (kquantScale b (e / 32) : K)
        * ((chunkNibble b 48 e + 16 * (b (16 + e % 32) / 2 ^ (e / 32) % 2) : ℕ) : K)
      - second * (kquantMin b (e / 32) : K)
  | .iq4Nl => d * (books.kvalue (halvesNibble b 2 e) : K)
  | .iq4Xs => d * (iq4xsScale b (e / 32) : K)
      * (books.kvalue (halvesNibble b (8 + 16 * (e / 32)) (e % 32)) : K)
  | .iq3S => d * ((1 + 2 * pairNibble b 106 (e / 32) : ℕ) : K) * (iq3sValue books b e : K)

end Weights

end Gguf
end VllmMetal
