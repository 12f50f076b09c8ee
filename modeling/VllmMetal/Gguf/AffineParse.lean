import VllmMetal.Gguf.Affine
import Mathlib.Tactic.Ring
import Mathlib.Tactic.LinearCombination
import Mathlib.Tactic.NormNum

/-!
# The parsers decode their blocks

Every operation of a parser on the bytes of a block is an operation index by index, so that a
parsed array is a function of the index.  The functions are compared with the formats by arithmetic
on quotients and remainders.

## Main definitions

* `Decodes` — a parsed block has the weights of its format.

## Main results

* `splitNibbles_range`, `byteBits_range`, `stackNibbles_range` — the operations, index by index.
* `parseBlock_decodes` — every parser decodes its blocks.
-/

namespace VllmMetal
namespace Gguf

/-! ### Index by index -/

theorem map_range_append {α : Type*} (m n : ℕ) (f g : ℕ → α) :
    (List.range m).map f ++ (List.range n).map g =
      (List.range (m + n)).map fun i => if i < m then f i else g (i - m) := by
  rw [List.range_add, List.map_append, List.map_map]
  congr 1
  · apply List.map_congr_left
    intro i hi
    rw [if_pos (List.mem_range.mp hi)]
  · apply List.map_congr_left
    intro i _
    simp only [Function.comp_apply]
    rw [if_neg (by omega), Nat.add_sub_cancel_left]

theorem zipWith_range {α β γ : Type*} (h : α → β → γ) (n : ℕ) (f : ℕ → α) (g : ℕ → β) :
    List.zipWith h ((List.range n).map f) ((List.range n).map g) =
      (List.range n).map fun i => h (f i) (g i) := by
  rw [List.zipWith_map, List.zipWith_self]

/-- A byte of a block. -/
def blockByte (block : List UInt8) (i : ℕ) : BitVec 8 := (block.getD i 0).toBitVec

@[simp] theorem toNat_blockByte (block : List UInt8) (i : ℕ) :
    (blockByte block i).toNat = byteAt block i := rfl

theorem bytesOf_eq {block : List UInt8} {lo hi : ℕ} (h : hi ≤ block.length) :
    bytesOf block lo hi = (List.range (hi - lo)).map fun i => blockByte block (lo + i) := by
  apply List.ext_getElem
  · rw [bytesOf, List.length_map, List.length_take, List.length_drop, List.length_map,
      List.length_range]
    omega
  · intro i hi' hi''
    rw [List.length_map, List.length_range] at hi''
    simp only [bytesOf, List.getElem_map, List.getElem_take, List.getElem_drop, List.getElem_range,
      blockByte]
    rw [List.getD_eq_getElem _ _ (by omega)]

theorem splitNibbles_range (n : ℕ) (f : ℕ → BitVec 8) : splitNibbles ((List.range n).map f) =
    (List.range (n + n)).map fun e => if e < n then f e &&& 0x0F#8 else f (e - n) >>> 4 := by
  rw [splitNibbles, List.map_map, List.map_map, map_range_append]
  rfl

theorem byteBits_range (n : ℕ) (f : ℕ → BitVec 8) : byteBits ((List.range n).map f) =
    (List.range (n * 8)).map fun k => (f (k / 8) >>> (k % 8)) &&& 1#8 := by
  rw [byteBits, List.flatMap_map]
  exact flatMap_range_map n 8 fun i j => (f i >>> j) &&& 1#8

theorem stackNibbles_range (n : ℕ) (f : ℕ → BitVec 8) : stackNibbles ((List.range n).map f) =
    (List.range (n * 2)).map fun k =>
      if k % 2 = 0 then f (k / 2) &&& 0x0F#8 else f (k / 2) >>> 4 := by
  have hpair : ∀ i, [f i &&& 0x0F#8, f i >>> 4] =
      (List.range 2).map fun j => if j = 0 then f i &&& 0x0F#8 else f i >>> 4 := fun _ => rfl
  rw [stackNibbles, List.flatMap_map, List.flatMap_congr fun i _ => hpair i]
  exact flatMap_range_map n 2 fun i j => if j = 0 then f i &&& 0x0F#8 else f i >>> 4

/-! The same of the bytes of a block. -/

theorem splitNibbles_bytesOf {block : List UInt8} (off n : ℕ) (h : off + n ≤ block.length) :
    splitNibbles (bytesOf block off (off + n)) = (List.range (n + n)).map fun e =>
      if e < n then blockByte block (off + e) &&& 0x0F#8
      else blockByte block (off + (e - n)) >>> 4 := by
  rw [bytesOf_eq h, Nat.add_sub_cancel_left]
  exact splitNibbles_range n _

theorem byteBits_bytesOf {block : List UInt8} (off n : ℕ) (h : off + n ≤ block.length) :
    byteBits (bytesOf block off (off + n)) =
      (List.range (n * 8)).map fun k => (blockByte block (off + k / 8) >>> (k % 8)) &&& 1#8 := by
  rw [bytesOf_eq h, Nat.add_sub_cancel_left]
  exact byteBits_range n _

theorem stackNibbles_bytesOf {block : List UInt8} (off n : ℕ) (h : off + n ≤ block.length) :
    stackNibbles (bytesOf block off (off + n)) = (List.range (n * 2)).map fun k =>
      if k % 2 = 0 then blockByte block (off + k / 2) &&& 0x0F#8
      else blockByte block (off + k / 2) >>> 4 := by
  rw [bytesOf_eq h, Nat.add_sub_cancel_left]
  exact stackNibbles_range n _

/-- Rows of `a` bytes, split row by row. -/
theorem splitNibbles_rows {a : ℕ} (ha : 0 < a) (n : ℕ) (f : ℕ → BitVec 8) :
    (reshapeRows a ((List.range (n * a)).map f)).flatMap splitNibbles =
      (List.range (n * (a + a))).map fun k =>
        if k % (a + a) < a then f (k / (a + a) * a + k % (a + a)) &&& 0x0F#8
        else f (k / (a + a) * a + (k % (a + a) - a)) >>> 4 := by
  rw [reshapeRows_map_range ha, List.flatMap_map,
    List.flatMap_congr fun r _ => splitNibbles_range a fun j => f (r * a + j)]
  exact flatMap_range_map n (a + a) fun r e =>
    if e < a then f (r * a + e) &&& 0x0F#8 else f (r * a + (e - a)) >>> 4

/-! ### Fields of a byte -/

theorem toNat_and_fifteen (x : BitVec 8) : (x &&& 0x0F#8).toNat = x.toNat % 16 := by
  rw [BitVec.toNat_and]
  exact Nat.and_two_pow_sub_one_eq_mod _ 4

theorem toNat_and_sixtyThree (x : BitVec 8) : (x &&& 0x3F#8).toNat = x.toNat % 64 := by
  rw [BitVec.toNat_and]
  exact Nat.and_two_pow_sub_one_eq_mod _ 6

theorem toNat_shiftRight (x : BitVec 8) (i : ℕ) : (x >>> i).toNat = x.toNat / 2 ^ i := by
  rw [BitVec.toNat_ushiftRight, Nat.shiftRight_eq_div_pow]

theorem toNat_bit (x : BitVec 8) (i : ℕ) : ((x >>> i) &&& 1#8).toNat = x.toNat / 2 ^ i % 2 := by
  rw [BitVec.toNat_and, toNat_shiftRight]
  exact Nat.and_two_pow_sub_one_eq_mod _ 1

theorem toNat_or_shiftLeft {low high : BitVec 8} (hlow : low.toNat < 16) (hhigh : high.toNat < 16) :
    (low ||| (high <<< 4)).toNat = low.toNat + 16 * high.toNat := by
  rw [BitVec.toNat_or, BitVec.toNat_shiftLeft, Nat.shiftLeft_eq, Nat.mod_eq_of_lt (by omega),
    ← Nat.shiftLeft_eq]
  exact or_shiftLeft (w := 4) hlow _

/-- Four bits, and the two topmost ones of another byte. -/
theorem toNat_or_topBits {low : BitVec 8} (hlow : low.toNat < 16) (x : BitVec 8) :
    (low ||| ((x >>> 6) <<< 4)).toNat = low.toNat + 16 * (x.toNat / 64) := by
  have hhigh := toNat_shiftRight x 6
  have hx := x.isLt
  rw [toNat_or_shiftLeft hlow (by omega), hhigh]
  rfl

section Blocks

variable (block : List UInt8)

/-- The low nibbles, then the high ones. -/
theorem toNat_halves (off e : ℕ) :
    (if e < 16 then blockByte block (off + e) &&& 0x0F#8
      else blockByte block (off + (e - 16)) >>> 4).toNat = halvesNibble (byteAt block) off e := by
  unfold halvesNibble
  split
  · exact toNat_and_fifteen _
  · exact toNat_shiftRight _ 4

theorem halvesNibble_lt (off e : ℕ) : halvesNibble (byteAt block) off e < 16 := by
  have h := byteAt_lt block (off + (e - 16))
  unfold halvesNibble
  split <;> omega

theorem toNat_pair (off j : ℕ) :
    (if j % 2 = 0 then blockByte block (off + j / 2) &&& 0x0F#8
      else blockByte block (off + j / 2) >>> 4).toNat = pairNibble (byteAt block) off j := by
  unfold pairNibble
  split
  · exact toNat_and_fifteen _
  · exact toNat_shiftRight _ 4

theorem pairNibble_lt (off j : ℕ) : pairNibble (byteAt block) off j < 16 := by
  have h := byteAt_lt block (off + j / 2)
  unfold pairNibble
  split <;> omega

/-- The nibbles of a superblock, two groups for every 32 bytes. -/
theorem toNat_chunk (off e : ℕ) :
    (if e % 64 < 32 then blockByte block (off + (e / 64 * 32 + e % 64)) &&& 0x0F#8
      else blockByte block (off + (e / 64 * 32 + (e % 64 - 32))) >>> 4).toNat =
      chunkNibble (byteAt block) off e := by
  unfold chunkNibble
  by_cases h : e % 64 < 32
  · have hplace : off + (e / 64 * 32 + e % 64) = off + (32 * (e / 64) + e % 32) := by omega
    simp only [if_pos h, if_pos (show e / 32 % 2 = 0 by omega), hplace]
    exact toNat_and_fifteen _
  · have hplace : off + (e / 64 * 32 + (e % 64 - 32)) = off + (32 * (e / 64) + e % 32) := by omega
    simp only [if_neg h, if_neg (show ¬ e / 32 % 2 = 0 by omega), hplace]
    exact toNat_shiftRight _ 4

theorem chunkNibble_lt (off e : ℕ) : chunkNibble (byteAt block) off e < 16 := by
  have h := byteAt_lt block (off + (32 * (e / 64) + e % 32))
  unfold chunkNibble
  simp only
  split <;> omega

theorem toNat_bitAt (off i : ℕ) : ((blockByte block (off + i / 8) >>> (i % 8)) &&& 1#8).toNat =
    bitAt (byteAt block) off i := toNat_bit _ _

theorem bitAt_lt (off i : ℕ) : bitAt (byteAt block) off i < 2 := Nat.mod_lt _ (by decide)

end Blocks

/-! ### The blocks -/

section Decodes

variable {K : Type} [CommRing K] {books : Codebooks} {half : ℕ → K} {block : List UInt8}

/-- A parsed block: its codes fit, and with its scales and biases they are its weights. -/
structure Decodes (books : Codebooks) (half : ℕ → K) (qtype : AffineType) (block : List UInt8)
    (p : Parsed K) : Prop where
  length_codes : p.codes.length = qtype.blockElems
  length_scales : p.scales.length = qtype.blockGroups
  length_biases : p.biases.length = qtype.blockGroups
  code_lt : ∀ e < qtype.blockElems, (p.codes.getD e 0).toNat < 2 ^ qtype.bits
  weight : ReadsHalves half → HalvesFit qtype (byteAt block) → ∀ e < qtype.blockElems,
    p.scales.getD (e / 32) 0 * ((p.codes.getD e 0).toNat : K) + p.biases.getD (e / 32) 0 =
      blockWeight books half qtype (byteAt block) e

/-- A block whose arrays are functions of the index. -/
theorem Decodes.of_range {qtype : AffineType} {p : Parsed K} (code : ℕ → BitVec 8)
    (scale bias : ℕ → K) (hcodes : p.codes = (List.range qtype.blockElems).map code)
    (hscales : p.scales = (List.range qtype.blockGroups).map scale)
    (hbiases : p.biases = (List.range qtype.blockGroups).map bias)
    (h : ∀ e < qtype.blockElems, (code e).toNat < 2 ^ qtype.bits ∧
      (ReadsHalves half → HalvesFit qtype (byteAt block) →
        scale (e / 32) * ((code e).toNat : K) + bias (e / 32) =
          blockWeight books half qtype (byteAt block) e)) :
    Decodes books half qtype block p := by
  have hget : ∀ {α : Type} (n : ℕ) (f : ℕ → α) (d : α) {i : ℕ}, i < n →
      ((List.range n).map f).getD i d = f i := by
    intro α n f d i hi
    rw [List.getD_eq_getElem _ _ (by simpa using hi), List.getElem_map, List.getElem_range]
  refine ⟨?_, ?_, ?_, ?_, ?_⟩
  · rw [hcodes, List.length_map, List.length_range]
  · rw [hscales, List.length_map, List.length_range]
  · rw [hbiases, List.length_map, List.length_range]
  · intro e he
    rw [hcodes, hget _ _ _ he]
    exact (h e he).1
  · intro hhalf hfit e he
    have hgroup := AffineType.div_lt_blockGroups he
    rw [hcodes, hscales, hbiases, hget _ _ _ he, hget _ _ _ hgroup, hget _ _ _ hgroup]
    exact (h e he).2 hhalf hfit

/-- A bias that fits is the product. -/
theorem scaleTimes_eq {qtype : AffineType} (hhalf : ReadsHalves half)
    (hfit : HalvesFit qtype (byteAt block)) :
    scaleTimes half block qtype.biasShift =
      half (loadU16 (byteAt block) 0) * -(2 ^ qtype.biasShift) := by
  have hlo := byteAt_lt block 0
  have hhi := byteAt_lt block (0 + 1)
  have hlt : loadU16 (byteAt block) 0 < 2 ^ 16 := by
    rw [loadU16]
    omega
  exact hhalf.product hlt hfit.scale

theorem parseQ80_decodes (h : block.length = 34) : Decodes books half .q8_0 block
    (parseQ80 half block) := by
  have hcode : ∀ x : BitVec 8, ((x ^^^ 0x80#8).toNat : ℤ) = int8Of x.toNat + 128 := by
    decide +kernel
  refine .of_range (fun e => blockByte block (2 + e) ^^^ 0x80#8)
    (fun _ => half (loadU16 (byteAt block) 0))
    (fun _ => scaleTimes half block 7) ?_ rfl rfl fun e _ => ?_
  · simp only [parseQ80]
    rw [bytesOf_eq (by omega), List.map_map]
    rfl
  · refine ⟨BitVec.isLt _, fun hhalf hfit => ?_⟩
    have hcast : (((blockByte block (2 + e) ^^^ 0x80#8).toNat : ℕ) : K) =
        (int8Of (byteAt block (2 + e)) : K) + 128 := by
      rw [← Int.cast_natCast, hcode, toNat_blockByte]
      push_cast
      rfl
    have hbias : scaleTimes half block 7 = _ := scaleTimes_eq hhalf hfit
    simp only [blockWeight]
    rw [hcast, hbias, AffineType.biasShift]
    ring

theorem parseQ40_decodes (h : block.length = 18) : Decodes books half .q4_0 block
    (parseQ40 half block) := by
  refine .of_range (fun e => if e < 16 then blockByte block (2 + e) &&& 0x0F#8
      else blockByte block (2 + (e - 16)) >>> 4)
    (fun _ => half (loadU16 (byteAt block) 0))
    (fun _ => scaleTimes half block 3) ?_ rfl rfl fun e _ => ?_
  · exact splitNibbles_bytesOf 2 16 (by omega)
  · rw [toNat_halves]
    refine ⟨halvesNibble_lt block 2 e, fun hhalf hfit => ?_⟩
    have hbias : scaleTimes half block 3 = _ := scaleTimes_eq hhalf hfit
    simp only [blockWeight]
    rw [hbias, AffineType.biasShift]
    push_cast
    ring

theorem parseQ41_decodes (h : block.length = 20) : Decodes books half .q4_1 block
    (parseQ41 half block) := by
  refine .of_range (fun e => if e < 16 then blockByte block (4 + e) &&& 0x0F#8
      else blockByte block (4 + (e - 16)) >>> 4)
    (fun _ => half (loadU16 (byteAt block) 0))
    (fun _ => half (loadU16 (byteAt block) 2)) ?_ rfl rfl fun e _ => ?_
  · exact splitNibbles_bytesOf 4 16 (by omega)
  · rw [toNat_halves]
    exact ⟨halvesNibble_lt block 4 e, fun _ _ => rfl⟩

/-- The nibbles with their fifth bits, index by index. -/
theorem joinFifthBits_eq (off offQh : ℕ) (h : off + 16 ≤ block.length)
    (hqh : offQh + 4 ≤ block.length) :
    joinFifthBits (splitNibbles (bytesOf block off (off + 16))) (bytesOf block offQh (offQh + 4)) =
      (List.range 32).map fun e => (if e < 16 then blockByte block (off + e) &&& 0x0F#8
        else blockByte block (off + (e - 16)) >>> 4) |||
          (((blockByte block (offQh + e / 8) >>> (e % 8)) &&& 1#8) <<< 4) := by
  rw [splitNibbles_bytesOf off 16 h, joinFifthBits, byteBits_bytesOf offQh 4 hqh]
  exact zipWith_range _ 32 _ _

theorem toNat_fifth (off offQh e : ℕ) :
    ((if e < 16 then blockByte block (off + e) &&& 0x0F#8
        else blockByte block (off + (e - 16)) >>> 4) |||
      (((blockByte block (offQh + e / 8) >>> (e % 8)) &&& 1#8) <<< 4)).toNat =
      halvesNibble (byteAt block) off e + 16 * bitAt (byteAt block) offQh e := by
  have hlow := toNat_halves block off e
  have hhigh := toNat_bitAt block offQh e
  have hnibble := halvesNibble_lt block off e
  have hbit := bitAt_lt block offQh e
  rw [toNat_or_shiftLeft (by omega) (by omega), hlow, hhigh]

theorem parseQ50_decodes (h : block.length = 22) : Decodes books half .q5_0 block
    (parseQ50 half block) := by
  refine .of_range (fun e => (if e < 16 then blockByte block (6 + e) &&& 0x0F#8
      else blockByte block (6 + (e - 16)) >>> 4) |||
        (((blockByte block (2 + e / 8) >>> (e % 8)) &&& 1#8) <<< 4))
    (fun _ => half (loadU16 (byteAt block) 0))
    (fun _ => scaleTimes half block 4) ?_ rfl rfl fun e _ => ?_
  · exact joinFifthBits_eq 6 2 (by omega) (by omega)
  · have hnibble := halvesNibble_lt block 6 e
    have hbit := bitAt_lt block 2 e
    rw [toNat_fifth]
    refine ⟨by simp only [AffineType.bits]; omega, fun hhalf hfit => ?_⟩
    have hbias : scaleTimes half block 4 = _ := scaleTimes_eq hhalf hfit
    simp only [blockWeight]
    rw [hbias, AffineType.biasShift]
    push_cast
    ring

theorem parseQ51_decodes (h : block.length = 24) : Decodes books half .q5_1 block
    (parseQ51 half block) := by
  refine .of_range (fun e => (if e < 16 then blockByte block (8 + e) &&& 0x0F#8
      else blockByte block (8 + (e - 16)) >>> 4) |||
        (((blockByte block (4 + e / 8) >>> (e % 8)) &&& 1#8) <<< 4))
    (fun _ => half (loadU16 (byteAt block) 0))
    (fun _ => half (loadU16 (byteAt block) 2)) ?_ rfl rfl fun e _ => ?_
  · exact joinFifthBits_eq 8 4 (by omega) (by omega)
  · have hnibble := halvesNibble_lt block 8 e
    have hbit := bitAt_lt block 4 e
    rw [toNat_fifth]
    exact ⟨by simp only [AffineType.bits]; omega, fun _ _ => rfl⟩

/-! ### The superblocks of `Q4_K` and `Q5_K` -/

/-- The sub-scales and sub-minimums of a header, index by index. -/
theorem parseKquantScaleMins_eq (half : ℕ → K) (h : 16 ≤ block.length) :
    parseKquantScaleMins half block =
    ((List.range 8).map fun g => half (loadU16 (byteAt block) 0) *
        (kquantScale (byteAt block) g : K),
      (List.range 8).map fun g => -(half (loadU16 (byteAt block) 2) *
        (kquantMin (byteAt block) g : K))) := by
  -- the first four sub-scales are whole bytes, the others get their top bits from there
  have hscale : ∀ g : ℕ, (if g < 4 then blockByte block (4 + g) &&& 0x3F#8 else
      (blockByte block (12 + (g - 4)) &&& 0x0F#8) |||
        ((blockByte block (4 + (g - 4)) >>> 6) <<< 4)).toNat = kquantScale (byteAt block) g := by
    intro g
    unfold kquantScale
    split
    · exact toNat_and_sixtyThree _
    · next hg =>
      have hlow := toNat_and_fifteen (blockByte block (12 + (g - 4)))
      rw [toNat_or_topBits (by omega), hlow, toNat_blockByte, toNat_blockByte,
        show 12 + (g - 4) = 8 + g by omega, show 4 + (g - 4) = g by omega]
  -- and so are the sub-minimums
  have hmin : ∀ g : ℕ, (if g < 4 then blockByte block (8 + g) &&& 0x3F#8 else
      (blockByte block (12 + (g - 4)) >>> 4) |||
        ((blockByte block (8 + (g - 4)) >>> 6) <<< 4)).toNat = kquantMin (byteAt block) g := by
    intro g
    unfold kquantMin
    split
    · exact toNat_and_sixtyThree _
    · next hg =>
      have hlow := toNat_shiftRight (blockByte block (12 + (g - 4))) 4
      have hbyte := byteAt_lt block (12 + (g - 4))
      rw [toNat_blockByte] at hlow
      rw [toNat_or_topBits (by omega), hlow, toNat_blockByte,
        show 12 + (g - 4) = 8 + g by omega, show 8 + (g - 4) = 4 + g by omega]
      rfl
  have hfirst : bytesOf block 4 8 = (List.range 4).map fun i => blockByte block (4 + i) :=
    bytesOf_eq (by omega)
  have hmid : bytesOf block 8 12 = (List.range 4).map fun i => blockByte block (8 + i) :=
    bytesOf_eq (by omega)
  have hlast : bytesOf block 12 16 = (List.range 4).map fun i => blockByte block (12 + i) :=
    bytesOf_eq (by omega)
  simp only [parseKquantScaleMins, hfirst, hmid, hlast, zipWith_range, List.map_map,
    map_range_append]
  congr 1
  · apply List.map_congr_left
    intro g _
    simp only [Function.comp_apply, hscale]
    rfl
  · apply List.map_congr_left
    intro g _
    simp only [Function.comp_apply, hmin]
    rfl

/-- The nibbles of a superblock, index by index. -/
theorem splitNibbleChunks_eq (off : ℕ) (h : off + 128 ≤ block.length) :
    splitNibbleChunks (bytesOf block off (off + 128)) = (List.range 256).map fun e =>
      if e % 64 < 32 then blockByte block (off + (e / 64 * 32 + e % 64)) &&& 0x0F#8
      else blockByte block (off + (e / 64 * 32 + (e % 64 - 32))) >>> 4 := by
  rw [bytesOf_eq h, Nat.add_sub_cancel_left, splitNibbleChunks]
  exact splitNibbles_rows (by decide) 4 fun i => blockByte block (off + i)

theorem parseQ4K_decodes (h : block.length = 144) : Decodes books half .q4K block
    (parseQ4K half block) := by
  have hheader : 16 ≤ block.length := by omega
  refine .of_range (fun e =>
      if e % 64 < 32 then blockByte block (16 + (e / 64 * 32 + e % 64)) &&& 0x0F#8
      else blockByte block (16 + (e / 64 * 32 + (e % 64 - 32))) >>> 4)
    (fun g => half (loadU16 (byteAt block) 0) * (kquantScale (byteAt block) g : K))
    (fun g => -(half (loadU16 (byteAt block) 2) * (kquantMin (byteAt block) g : K)))
    ?_ ?_ ?_ fun e _ => ?_
  · exact splitNibbleChunks_eq 16 (by omega)
  · simp only [parseQ4K, parseKquantScaleMins_eq half hheader]
    rfl
  · simp only [parseQ4K, parseKquantScaleMins_eq half hheader]
    rfl
  · rw [toNat_chunk]
    refine ⟨chunkNibble_lt block 16 e, fun _ _ => ?_⟩
    simp only [blockWeight]
    ring

theorem parseQ5K_decodes (h : block.length = 176) : Decodes books half .q5K block
    (parseQ5K half block) := by
  have hheader : 16 ≤ block.length := by omega
  refine .of_range (fun e =>
      (if e % 64 < 32 then blockByte block (48 + (e / 64 * 32 + e % 64)) &&& 0x0F#8
        else blockByte block (48 + (e / 64 * 32 + (e % 64 - 32))) >>> 4) |||
      (((blockByte block (16 + e % 32) >>> (e / 32)) &&& 1#8) <<< 4))
    (fun g => half (loadU16 (byteAt block) 0) * (kquantScale (byteAt block) g : K))
    (fun g => -(half (loadU16 (byteAt block) 2) * (kquantMin (byteAt block) g : K)))
    ?_ ?_ ?_ fun e _ => ?_
  · have hlow : splitNibbleChunks (bytesOf block 48 176) = _ := splitNibbleChunks_eq 48 (by omega)
    have hhigh : bytesOf block 16 48 = (List.range 32).map fun i => blockByte block (16 + i) :=
      bytesOf_eq (by omega)
    -- bit `g` of the high bytes belongs to chunk `g`
    have hbits : ((List.range 8).flatMap fun g => (bytesOf block 16 48).map fun byte : BitVec 8 =>
        ((byte >>> g) &&& 1#8) <<< 4) = (List.range 256).map fun k =>
          ((blockByte block (16 + k % 32) >>> (k / 32)) &&& 1#8) <<< 4 := by
      simp only [hhigh, List.map_map]
      exact flatMap_range_map 8 32 fun g i => ((blockByte block (16 + i) >>> g) &&& 1#8) <<< 4
    simp only [parseQ5K, hbits]
    rw [hlow]
    exact zipWith_range _ 256 _ _
  · simp only [parseQ5K, parseKquantScaleMins_eq half hheader]
    rfl
  · simp only [parseQ5K, parseKquantScaleMins_eq half hheader]
    rfl
  · have hlow := toNat_chunk block 48 e
    have hhigh := toNat_bit (blockByte block (16 + e % 32)) (e / 32)
    have hnibble := chunkNibble_lt block 48 e
    rw [toNat_blockByte] at hhigh
    -- the fifth bit stands above the nibble
    rw [toNat_or_shiftLeft (by omega) (by omega), hlow, hhigh]
    refine ⟨by simp only [AffineType.bits]; omega, fun _ _ => ?_⟩
    simp only [blockWeight]
    ring

/-! ### The codebooks -/

/-- The code of a nibble is its value plus 128. -/
theorem toNat_iq4Code (books : Codebooks) {q : ℕ} (hq : q < 16) :
    ((((iq4Codes books).getD q 0).toNat : ℕ) : ℤ) = books.kvalue q + 128 := by
  have hvalue := books.kvalue_int8 hq
  have hcode : (iq4Codes books).getD q 0 = BitVec.ofInt 8 (books.kvalue q + 128) := by
    rw [← books.length_kvalues] at hq
    rw [iq4Codes, List.getD_eq_getElem _ _ (by simpa using hq), List.getElem_map,
      Codebooks.kvalue, List.getD_eq_getElem _ _ hq]
  rw [hcode, BitVec.toNat_ofInt]
  omega

theorem cast_iq4Code (books : Codebooks) {q : ℕ} (hq : q < 16) :
    ((((iq4Codes books).getD q 0).toNat : ℕ) : K) = (books.kvalue q : K) + 128 := by
  rw [← Int.cast_natCast, toNat_iq4Code books hq]
  push_cast
  rfl

theorem parseIq4NL_decodes (h : block.length = 18) : Decodes books half .iq4Nl block
    (parseIq4NL books half block) := by
  refine .of_range (fun e => (iq4Codes books).getD
      (if e < 16 then blockByte block (2 + e) &&& 0x0F#8
        else blockByte block (2 + (e - 16)) >>> 4).toNat 0)
    (fun _ => half (loadU16 (byteAt block) 0))
    (fun _ => scaleTimes half block 7) ?_ rfl rfl fun e _ => ?_
  · have hnibbles : splitNibbles (bytesOf block 2 18) = (List.range 32).map fun e =>
        if e < 16 then blockByte block (2 + e) &&& 0x0F#8
        else blockByte block (2 + (e - 16)) >>> 4 := splitNibbles_bytesOf 2 16 (by omega)
    simp only [parseIq4NL, hnibbles, List.map_map]
    rfl
  · refine ⟨BitVec.isLt _, fun hhalf hfit => ?_⟩
    have hbias : scaleTimes half block 7 = _ := scaleTimes_eq hhalf hfit
    simp only [toNat_halves, blockWeight]
    rw [cast_iq4Code books (halvesNibble_lt block 2 e), hbias, AffineType.biasShift]
    ring

theorem parseIq4XS_decodes (h : block.length = 136) : Decodes books half .iq4Xs block
    (parseIq4XS books half block) := by
  have hscales : (parseIq4XS books half block).scales = (List.range 8).map fun g =>
      half (loadU16 (byteAt block) 0) * (iq4xsScale (byteAt block) g : K) := by
    have hlow : stackNibbles (bytesOf block 4 8) = (List.range 8).map fun j =>
        if j % 2 = 0 then blockByte block (4 + j / 2) &&& 0x0F#8
        else blockByte block (4 + j / 2) >>> 4 := stackNibbles_bytesOf 4 4 (by omega)
    simp only [parseIq4XS, hlow, zipWith_range, List.map_map]
    apply List.map_congr_left
    intro g _
    have hlow := pairNibble_lt block 4 g
    -- the word of the high bits keeps its sixteen bits
    have hword : loadU16 (byteAt block) 2 < 2 ^ 16 := by
      have h2 := byteAt_lt block 2
      have h3 := byteAt_lt block (2 + 1)
      rw [loadU16]
      omega
    have hhigh : ((BitVec.ofNat 16 (loadU16 (byteAt block) 2) >>> (2 * g)) &&& 3#16).toNat =
        loadU16 (byteAt block) 2 / 4 ^ g % 4 := by
      rw [BitVec.toNat_and, BitVec.toNat_ushiftRight, BitVec.toNat_ofNat,
        Nat.mod_eq_of_lt hword, show (3#16).toNat = 2 ^ 2 - 1 from rfl, shiftRight_and, Nat.pow_mul]
      rfl
    simp only [Function.comp_apply, toNat_pair, hhigh, iq4xsScale, viewHalf]
    rw [or_shiftLeft (w := 4) hlow]
    rfl
  refine .of_range (fun e => (iq4Codes books).getD
      (if e % 32 < 16 then blockByte block (8 + (e / 32 * 16 + e % 32)) &&& 0x0F#8
        else blockByte block (8 + (e / 32 * 16 + (e % 32 - 16))) >>> 4).toNat 0)
    (fun g => half (loadU16 (byteAt block) 0) * (iq4xsScale (byteAt block) g : K))
    (fun g => half (loadU16 (byteAt block) 0) * (iq4xsScale (byteAt block) g : K) * -128)
    ?_ hscales ?_ fun e _ => ?_
  -- the chunks of sixteen bytes are split into their low and high nibbles
  · have hnibbles : (reshapeRows 16 (bytesOf block 8 136)).flatMap splitNibbles =
        (List.range 256).map fun e =>
          if e % 32 < 16 then blockByte block (8 + (e / 32 * 16 + e % 32)) &&& 0x0F#8
          else blockByte block (8 + (e / 32 * 16 + (e % 32 - 16))) >>> 4 := by
      rw [bytesOf_eq (by omega)]
      exact splitNibbles_rows (by decide) 8 fun i => blockByte block (8 + i)
    simp only [parseIq4XS, hnibbles, List.map_map]
    rfl
  · have hbiases : (parseIq4XS books half block).biases =
        (parseIq4XS books half block).scales.map (· * -128) := rfl
    rw [hbiases, hscales, List.map_map]
    rfl
  · have hnibble := halvesNibble_lt block (8 + 16 * (e / 32)) (e % 32)
    have hplace : 8 + (e / 32 * 16 + e % 32) = 8 + 16 * (e / 32) + e % 32 := by omega
    have hplace' : 8 + (e / 32 * 16 + (e % 32 - 16)) = 8 + 16 * (e / 32) + (e % 32 - 16) := by
      omega
    refine ⟨BitVec.isLt _, fun _ _ => ?_⟩
    simp only [hplace, hplace', toNat_halves, blockWeight]
    rw [cast_iq4Code books hnibble]
    ring

/-! ### The grid -/

/-- The grid row of a code with its ninth bit. -/
theorem toNat_gridRow (i : ℕ) :
    ((blockByte block (2 + i)).setWidth 16 |||
      (((blockByte block (66 + i / 8) >>> (i % 8)) &&& 1#8).setWidth 16 <<< 8)).toNat =
      byteAt block (2 + i) + 256 * bitAt (byteAt block) 66 i := by
  have hbyte := byteAt_lt block (2 + i)
  have hbit := bitAt_lt block 66 i
  have hhigh := toNat_bitAt block 66 i
  rw [BitVec.toNat_or, BitVec.toNat_shiftLeft, BitVec.toNat_setWidth, BitVec.toNat_setWidth,
    toNat_blockByte, hhigh, Nat.mod_eq_of_lt (by omega), Nat.mod_eq_of_lt (by omega),
    Nat.shiftLeft_eq, Nat.mod_eq_of_lt (by omega), ← Nat.shiftLeft_eq]
  exact or_shiftLeft (w := 8) hbyte _

theorem gridRow_lt (block : List UInt8) (i : ℕ) :
    byteAt block (2 + i) + 256 * bitAt (byteAt block) 66 i < 512 := by
  have hbyte := byteAt_lt block (2 + i)
  have hbit := bitAt_lt block 66 i
  omega

/-- The magnitudes of a row of the grid. -/
theorem getD_iq3sGrid (books : Codebooks) {row : ℕ} (hrow : row < 512) :
    (iq3sGrid books).getD row [] =
      (List.range 4).map fun k => BitVec.ofNat 8 (books.magnitude row k) := by
  have hlen := books.length_grid_row hrow
  have hgrid : (iq3sGrid books).getD row [] = (books.grid.getD row []).map (BitVec.ofNat 8) := by
    rw [← books.length_grid] at hrow
    rw [iq3sGrid, List.getD_eq_getElem _ _ (by simpa using hrow), List.getElem_map,
      List.getD_eq_getElem _ _ hrow]
  rw [hgrid, ← map_getD_range (books.grid.getD row []) 0 hlen, List.map_map]
  rfl

/-- The code of a signed magnitude. -/
theorem toNat_signedCode {n m : BitVec 8} (hm : m.toNat ≤ 15) :
    ((if n = 0 then 15 + m else 15 - m) >>> 1).toNat =
      if n.toNat = 0 then (15 + m.toNat) / 2 else (15 - m.toNat) / 2 := by
  have hzero : n = 0 ↔ n.toNat = 0 := by
    rw [BitVec.toNat_eq]
    rfl
  rw [toNat_shiftRight]
  simp only [hzero]
  split
  · rw [BitVec.toNat_add, Nat.mod_eq_of_lt]
    · rfl
    · show 15 + m.toNat < 256
      omega
  · rw [BitVec.toNat_sub_of_le]
    · rfl
    · exact hm

/-- The magnitudes of a superblock, index by index. -/
theorem gridMagnitudes_eq (books : Codebooks) {block : List UInt8} (h : 74 ≤ block.length) :
    (List.zipWith (fun q h : BitVec 8 => q.setWidth 16 ||| (h.setWidth 16 <<< 8))
      (bytesOf block 2 66) (byteBits (bytesOf block 66 74))).flatMap
        (fun row => (iq3sGrid books).getD row.toNat []) = (List.range 256).map fun e =>
          BitVec.ofNat 8 (books.magnitude (iq3sRow (byteAt block) e) (e % 4)) := by
  have hlow : bytesOf block 2 66 = (List.range 64).map fun i => blockByte block (2 + i) :=
    bytesOf_eq (by omega)
  have hhigh : byteBits (bytesOf block 66 74) = (List.range 64).map fun i =>
      (blockByte block (66 + i / 8) >>> (i % 8)) &&& 1#8 := byteBits_bytesOf 66 8 h
  rw [hlow, hhigh, zipWith_range, List.flatMap_map, List.flatMap_congr fun i _ => by
    rw [toNat_gridRow, getD_iq3sGrid books (gridRow_lt block i)]]
  exact flatMap_range_map 64 4 fun i k => BitVec.ofNat 8
    (books.magnitude (byteAt block (2 + i) + 256 * bitAt (byteAt block) 66 i) k)

/-- A code of four bits that stands for an odd value from `-15` to `15`. -/
theorem signedCode_spec {m sign : ℕ} (hodd : m % 2 = 1) (hle : m ≤ 15) (hsign : sign < 2) :
    let code := if sign = 0 then (15 + m) / 2 else (15 - m) / 2
    code < 2 ^ 4 ∧ 2 * (code : ℤ) - 15 = if sign = 1 then -(m : ℤ) else m := by
  intro code
  rcases Nat.lt_or_ge sign 1 with hzero | hone
  · have hcode : code = (15 + m) / 2 := if_pos (by omega)
    rw [hcode, if_neg (by omega)]
    omega
  · have hcode : code = (15 - m) / 2 := if_neg (by omega)
    rw [hcode, if_pos (by omega)]
    omega

theorem parseIq3S_decodes (h : block.length = 110) : Decodes books half .iq3S block
    (parseIq3S books half block) := by
  have hscales : ((stackNibbles (bytesOf block 106 110)).map fun n : BitVec 8 =>
      half (loadU16 (byteAt block) 0) * (1 + 2 * (n.toNat : K))) = (List.range 8).map fun g =>
        half (loadU16 (byteAt block) 0) * (1 + 2 * (pairNibble (byteAt block) 106 g : K)) := by
    -- the scales, two to a byte
    have hnibbles : stackNibbles (bytesOf block 106 110) = (List.range 8).map fun j =>
        if j % 2 = 0 then blockByte block (106 + j / 2) &&& 0x0F#8
        else blockByte block (106 + j / 2) >>> 4 := stackNibbles_bytesOf 106 4 (by omega)
    rw [hnibbles, List.map_map]
    apply List.map_congr_left
    intro g _
    simp only [Function.comp_apply, toNat_pair]
  have hnegative : byteBits (bytesOf block 74 106) = (List.range 256).map fun e =>
      (blockByte block (74 + e / 8) >>> (e % 8)) &&& 1#8 := byteBits_bytesOf 74 32 (by omega)
  have hmagnitudes := gridMagnitudes_eq books (show 74 ≤ block.length by omega)
  -- the code is the signed magnitude, shifted to be non-negative and halved
  refine .of_range (fun e =>
      (if (blockByte block (74 + e / 8) >>> (e % 8)) &&& 1#8 = 0 then
        15 + BitVec.ofNat 8 (books.magnitude (iq3sRow (byteAt block) e) (e % 4))
      else 15 - BitVec.ofNat 8 (books.magnitude (iq3sRow (byteAt block) e) (e % 4))) >>> 1)
    (fun g => half (loadU16 (byteAt block) 0) *
      (1 + 2 * (pairNibble (byteAt block) 106 g : K)) * 2)
    (fun g => half (loadU16 (byteAt block) 0) *
      (1 + 2 * (pairNibble (byteAt block) 106 g : K)) * -15) ?_ ?_ ?_ fun e he => ?_
  · simp only [parseIq3S, hmagnitudes, hnegative]
    exact zipWith_range _ 256 _ _
  · simp only [parseIq3S, viewHalf, hscales, List.map_map]
    rfl
  · simp only [parseIq3S, viewHalf, hscales, List.map_map]
    rfl
  · obtain ⟨hodd, hle⟩ := books.magnitude_spec (gridRow_lt block (e / 4))
      (Nat.mod_lt e (by decide : 0 < 4))
    rw [← iq3sRow] at hodd hle
    generalize hm : books.magnitude (iq3sRow (byteAt block) e) (e % 4) = m at hodd hle ⊢
    have hm8 : (BitVec.ofNat 8 m).toNat = m := by
      rw [BitVec.toNat_ofNat, Nat.mod_eq_of_lt (by omega)]
    obtain ⟨hlt, hvalue⟩ := signedCode_spec hodd hle (bitAt_lt block 74 e)
    rw [toNat_signedCode (by omega), hm8, toNat_bitAt]
    refine ⟨hlt, fun _ _ => ?_⟩
    simp only [blockWeight, iq3sValue, hm, ← hvalue]
    generalize (if bitAt (byteAt block) 74 e = 0 then (15 + m) / 2 else (15 - m) / 2) = code
    push_cast
    ring

/-- **Every parser decodes its blocks.** -/
theorem parseBlock_decodes (books : Codebooks) (half : ℕ → K) {qtype : AffineType}
    {block : List UInt8} (h : block.length = qtype.blockBytes) :
    Decodes books half qtype block (parseBlock books half qtype block) := by
  cases qtype with
  | q8_0 => exact parseQ80_decodes h
  | q4_0 => exact parseQ40_decodes h
  | q4_1 => exact parseQ41_decodes h
  | q5_0 => exact parseQ50_decodes h
  | q5_1 => exact parseQ51_decodes h
  | q4K => exact parseQ4K_decodes h
  | q5K => exact parseQ5K_decodes h
  | iq4Nl => exact parseIq4NL_decodes h
  | iq4Xs => exact parseIq4XS_decodes h
  | iq3S => exact parseIq3S_decodes h

end Decodes

end Gguf
end VllmMetal
