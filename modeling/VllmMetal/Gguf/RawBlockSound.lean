import VllmMetal.Gguf.RawBlock
import VllmMetal.Lib.Gather
import Mathlib.Tactic.Ring

/-!
# The fast path of raw blocks is the slow path

Both kernels decode the codes of the block format, by different arithmetic on the index.  The fast
one adds every group of a row once, so that it returns the dot products with the rows that the slow
one writes.

## Main definitions

* `RawBlockExact` — what the kernels and the operations of a tensor keep to.

## Main results

* `dequantCode_eq`, `groupCode_eq` — both decoders are the block format.
* `qmv_eq` — the fast path is the dot products with the decoded rows.
* `raw_block_exact` — all of it, for every tensor.
-/

namespace VllmMetal
namespace Gguf

/-! ### Both decoders are the block format -/

/-- A two-bit field. -/
theorem shiftRight_and_three (v j : ℕ) : (v >>> (2 * j)) &&& 3 = v / 4 ^ j % 4 := by
  have h := shiftRight_and v (2 * j) 2
  rwa [Nat.pow_mul] at h

/-- A one-bit field. -/
theorem shiftRight_and_one (v j : ℕ) : (v >>> j) &&& 1 = v / 2 ^ j % 2 := shiftRight_and v j 1

theorem and_fifteen (v : ℕ) : v &&& 0x0F = v % 16 := Nat.and_two_pow_sub_one_eq_mod v 4

theorem shiftRight_four (v : ℕ) : v >>> 4 = v / 16 := Nat.shiftRight_eq_div_pow v 4

theorem and_sixty_three (v : ℕ) : v &&& 63 = v % 64 := Nat.and_two_pow_sub_one_eq_mod v 6

theorem and_thirty_one (v : ℕ) : v &&& 31 = v % 32 := Nat.and_two_pow_sub_one_eq_mod v 5

/-- Four low bits with two high bits in front. -/
theorem or_shiftLeft_four {lo : ℕ} (h : lo < 16) (hi : ℕ) : lo ||| (hi <<< 4) = lo + 16 * hi :=
  or_shiftLeft (w := 4) h hi

section Codes

variable {b : ℕ → ℕ} (hb : ∀ i, b i < 256)

include hb

/-- The sub-scale of both `Q3_K` decoders. -/
theorem q3kScale_eq (g : ℕ) :
    (((if g < 8 then b (96 + g) &&& 0x0F else b (96 + g - 8) >>> 4) |||
      (((b (104 + g % 4) >>> (2 * (g / 4))) &&& 3) <<< 4) : ℕ) : ℤ) - 32 = q3kScale b g := by
  have hlow : (if g < 8 then b (96 + g) &&& 0x0F else b (96 + g - 8) >>> 4) < 16 := by
    rw [and_fifteen, shiftRight_four]
    have := hb (96 + g - 8)
    split_ifs <;> omega
  rw [or_shiftLeft_four hlow, shiftRight_and_three, and_fifteen, shiftRight_four, q3kScale]
  split_ifs with hg
  · rfl
  · rw [Nat.add_sub_assoc (not_lt.mp hg)]

/-- **The kernel that decodes reads the block format.** -/
theorem dequantCode_eq (qtype : RawKernelType) (e : ℕ) :
    dequantCode qtype b e = codeOf qtype b e := by
  -- where an element lies in its block, format by format; the shifts and masks are quotients
  cases qtype
  case q2K =>
    have hlow : 16 + e / 128 * 32 + e % 32
        = 16 + (32 * (e / 128) + (16 * (e / 16 % 2) + e % 16)) := by omega
    have hscale : e / 16 = 8 * (e / 128) + (2 * (e / 32 % 4) + e / 16 % 2) := by omega
    ext
    case low =>
      show (b (16 + e / 128 * 32 + e % 32) >>> (2 * (e / 32 % 4))) &&& 3 = _
      rw [shiftRight_and_three, hlow]
      rfl
    case high => rfl
    case scale =>
      show ((b (e / 16) &&& 0x0F : ℕ) : ℤ) = _
      rw [and_fifteen, hscale]
      rfl
    case min =>
      show b (e / 16) >>> 4 = _
      rw [shiftRight_four, hscale]
      rfl
  case q3K =>
    have hlow : 32 + e / 128 * 32 + e % 32
        = 32 + (32 * (e / 128) + (16 * (e / 16 % 2) + e % 16)) := by omega
    have hhigh : e % 32 = 16 * (e / 16 % 2) + e % 16 := by omega
    have hbit : e / 32 = 4 * (e / 128) + e / 32 % 4 := by omega
    have hscale : e / 16 = 8 * (e / 128) + (2 * (e / 32 % 4) + e / 16 % 2) := by omega
    ext
    case low =>
      show (b (32 + e / 128 * 32 + e % 32) >>> (2 * (e / 32 % 4))) &&& 3 = _
      rw [shiftRight_and_three, hlow]
      rfl
    case high =>
      show (b (e % 32) >>> (e / 32)) &&& 1 = b (16 * (e / 16 % 2) + e % 16) /
        2 ^ (4 * (e / 128) + e / 32 % 4) % 2
      rw [shiftRight_and_one, ← hhigh, ← hbit]
    case scale =>
      refine (q3kScale_eq hb (e / 16)).trans ?_
      rw [hscale]
      rfl
    case min => rfl
  case q6K =>
    have hpair : e / 128 * 64 + e % 128 % 64
        = 64 * (e / 128) + (32 * (e / 32 % 4 % 2) + (16 * (e / 16 % 2) + e % 16)) := by omega
    have hrun : e % 128 < 64 ↔ e / 32 % 4 < 2 := by omega
    have hhigh : 128 + e / 128 * 32 + e % 128 % 32
        = 128 + (32 * (e / 128) + (16 * (e / 16 % 2) + e % 16)) := by omega
    have hshift : e % 128 / 32 = e / 32 % 4 := by omega
    have hscale : e / 16 = 8 * (e / 128) + (2 * (e / 32 % 4) + e / 16 % 2) := by omega
    ext
    case low =>
      show (if e % 128 < 64 then b (e / 128 * 64 + (e % 128 &&& 63)) &&& 0x0F
        else b (e / 128 * 64 + (e % 128 &&& 63)) >>> 4) = _
      rw [and_sixty_three, and_fifteen, shiftRight_four, hpair]
      simp only [hrun]
      rfl
    case high =>
      show (b (128 + e / 128 * 32 + (e % 128 &&& 31)) >>> (2 * (e % 128 / 32))) &&& 3 = _
      rw [shiftRight_and_three, and_thirty_one, hhigh, hshift]
      rfl
    case scale =>
      show int8Of (b (192 + e / 16)) = _
      rw [hscale]
      rfl
    case min => rfl

/-- **The kernel that multiplies reads it too.** -/
theorem groupCode_eq (qtype : RawKernelType) (grp : ℕ) {i : ℕ} (hi : i < 16) :
    (groupCode qtype b grp).code i = codeOf qtype b (grp * 16 + i) := by
  -- the two kernels index one block differently: by element, and by group and place
  rw [← dequantCode_eq hb qtype]
  cases qtype
  case q2K =>
    have hlow : 16 + grp / 8 * 32 + grp % 2 * 16 + i
        = 16 + (grp * 16 + i) / 128 * 32 + (grp * 16 + i) % 32 := by omega
    have hshift : grp / 2 % 4 = (grp * 16 + i) / 32 % 4 := by omega
    have hscale : grp = (grp * 16 + i) / 16 := by omega
    ext
    case low =>
      show (b (16 + grp / 8 * 32 + grp % 2 * 16 + i) >>> (2 * (grp / 2 % 4))) &&& 3 = _
      rw [hlow, hshift]
      rfl
    case high => rfl
    case scale =>
      show ((b grp &&& 0x0F : ℕ) : ℤ) = ((b ((grp * 16 + i) / 16) &&& 0x0F : ℕ) : ℤ)
      rw [← hscale]
    case min =>
      show b grp >>> 4 = b ((grp * 16 + i) / 16) >>> 4
      rw [← hscale]
  case q3K =>
    have hlow : 32 + grp / 8 * 32 + grp % 2 * 16 + i
        = 32 + (grp * 16 + i) / 128 * 32 + (grp * 16 + i) % 32 := by omega
    have hshift : grp / 2 % 4 = (grp * 16 + i) / 32 % 4 := by omega
    have hhigh : grp % 2 * 16 + i = (grp * 16 + i) % 32 := by omega
    have hbit : grp / 2 = (grp * 16 + i) / 32 := by omega
    have hscale : (grp * 16 + i) / 16 = grp := by omega
    ext
    case low =>
      show (b (32 + grp / 8 * 32 + grp % 2 * 16 + i) >>> (2 * (grp / 2 % 4))) &&& 3 = _
      rw [hlow, hshift]
      rfl
    case high =>
      show (b (grp % 2 * 16 + i) >>> (grp / 2)) &&& 1 = _
      rw [hhigh, hbit]
      rfl
    case scale =>
      refine (q3kScale_eq hb grp).trans ((q3kScale_eq hb ((grp * 16 + i) / 16)).trans ?_).symm
      rw [hscale]
    case min => rfl
  case q6K =>
    have hlow : grp / 8 * 64 + grp % 8 * 16 % 64 + i
        = (grp * 16 + i) / 128 * 64 + (grp * 16 + i) % 128 % 64 := by omega
    have hside : grp % 8 * 16 < 64 ↔ (grp * 16 + i) % 128 < 64 := by omega
    have hhigh : 128 + grp / 8 * 32 + grp % 8 * 16 % 32 + i
        = 128 + (grp * 16 + i) / 128 * 32 + (grp * 16 + i) % 128 % 32 := by omega
    have hshift : grp % 8 * 16 / 32 = (grp * 16 + i) % 128 / 32 := by omega
    have hscale : (grp * 16 + i) / 16 = grp := by omega
    ext
    case low =>
      show (if grp % 8 * 16 < 64 then b (grp / 8 * 64 + (grp % 8 * 16 &&& 63) + i) &&& 0x0F
          else b (grp / 8 * 64 + (grp % 8 * 16 &&& 63) + i) >>> 4)
        = if (grp * 16 + i) % 128 < 64
          then b ((grp * 16 + i) / 128 * 64 + ((grp * 16 + i) % 128 &&& 63)) &&& 0x0F
          else b ((grp * 16 + i) / 128 * 64 + ((grp * 16 + i) % 128 &&& 63)) >>> 4
      rw [and_sixty_three, and_sixty_three, hlow]
      simp only [hside]
    case high =>
      show (b (128 + grp / 8 * 32 + (grp % 8 * 16 &&& 31) + i) >>> (2 * (grp % 8 * 16 / 32))) &&& 3
        = (b (128 + (grp * 16 + i) / 128 * 32 + ((grp * 16 + i) % 128 &&& 31)) >>>
          (2 * ((grp * 16 + i) % 128 / 32))) &&& 3
      rw [and_thirty_one, and_thirty_one, hhigh, hshift]
    case scale =>
      show int8Of (b (192 + grp)) = int8Of (b (192 + (grp * 16 + i) / 16))
      rw [hscale]
    case min => rfl

/-- The bits of a code fit their fields. -/
theorem low_codeOf_lt (e : ℕ) : (codeOf .q6K b e).low < 16 := by
  show (if e / 32 % 4 < 2 then b _ % 16 else b _ / 16) < 16
  have := hb (64 * (e / 128) + (32 * (e / 32 % 4 % 2) + (16 * (e / 16 % 2) + e % 16)))
  split_ifs <;> omega

omit hb in
theorem high_codeOf_lt (e : ℕ) : (codeOf .q3K b e).high < 2 := Nat.mod_lt _ (by decide)

end Codes

theorem pointer_lt (blocks : List UInt8) (offset i : ℕ) : pointer blocks offset i < 256 :=
  byteAt_lt blocks (offset + i)

/-- A set high bit leaves the low bits alone; a clear one takes four. -/
theorem low_sub_shift (c : Code) (h : c.high < 2) :
    (c.low : ℤ) - (((1 - c.high) <<< 2 : ℕ) : ℤ) = (c.low : ℤ) - if c.high = 1 then 0 else 4 := by
  obtain hzero | hone : c.high = 0 ∨ c.high = 1 := by omega
  · rw [hzero]
    rfl
  · rw [hone]
    rfl

section Weights

variable {K : Type*} [CommRing K] (qtype : RawKernelType) (half : ℕ → K) (blocks : List UInt8)

/-- Weight `e` of superblock `block`, by the block format. -/
def weightAt (block e : ℕ) : K :=
  let b := pointer blocks (block * qtype.blockBytes)
  codeWeight qtype (half (loadU16 b qtype.scaleOffsets.1)) (half (loadU16 b qtype.scaleOffsets.2))
    (codeOf qtype b e)

/-- **The kernel that decodes writes the weights of the block format.** -/
theorem dequantElem_eq (elem : ℕ) :
    dequantElem qtype half blocks elem = weightAt qtype half blocks (elem / 256) (elem % 256) := by
  cases qtype
  case q2K =>
    have hcode : q2kDequantCode (pointer blocks (elem / 256 * 84)) (elem % 256) = _ :=
      dequantCode_eq (pointer_lt blocks _) .q2K (elem % 256)
    simp only [dequantElem, q2kDequant, hcode]
    rfl
  case q3K =>
    have hcode : q3kDequantCode (pointer blocks (elem / 256 * 110)) (elem % 256) = _ :=
      dequantCode_eq (pointer_lt blocks _) .q3K (elem % 256)
    simp only [dequantElem, q3kDequant, hcode, low_sub_shift _ (high_codeOf_lt (elem % 256))]
    rfl
  case q6K =>
    have hcode : q6kDequantCode (pointer blocks (elem / 256 * 210)) (elem % 256) = _ :=
      dequantCode_eq (pointer_lt blocks _) .q6K (elem % 256)
    simp only [dequantElem, q6kDequant, hcode,
      or_shiftLeft_four (low_codeOf_lt (pointer_lt blocks _) (elem % 256))]
    rfl

/-- A scaled sum of products, weight by weight. -/
theorem mul_sumOver_mul (n : ℕ) (s : K) (x w : ℕ → K) :
    s * sumOver n (fun i => x i * w i) = sumOver n fun i => x i * (s * w i) := by
  rw [sumOver_mul_left]
  exact sumOver_congr fun i _ => mul_left_comm s (x i) (w i)

/-- **A group of the kernel that multiplies adds its sixteen products.** -/
theorem groupTerm_eq (x : List K) (blocksPerRow row g batch : ℕ) :
    groupTerm qtype half blocks x blocksPerRow row g batch = sumOver 16 fun i =>
      x.getD (batch * (blocksPerRow * 256) + (g * 16 + i)) 0 *
        weightAt qtype half blocks (row * blocksPerRow + g / 16) (g % 16 * 16 + i) := by
  have hoffset : ∀ i : ℕ, batch * blocksPerRow * 256 + (g / 16 * 256 + g % 16 * 16) + i
      = batch * (blocksPerRow * 256) + (g * 16 + i) := by
    intro i
    rw [Nat.mul_assoc]
    omega
  -- each format takes the scale out of the sum in its own way
  cases qtype
  case q2K =>
    simp only [groupTerm, q2kTerm, foldl_range_eq_sumOver]
    rw [mul_sumOver_mul, sumOver_mul_left, sumOver_sub]
    apply sumOver_congr
    intro i hi
    have hcode := groupCode_eq (pointer_lt blocks ((row * blocksPerRow + g / 16) * 84)) .q2K
      (g % 16) hi
    rw [hoffset, weightAt, RawKernelType.blockBytes, ← hcode]
    show _ = _ * (_ * _ * _ - _ * _)
    rw [mul_sub, mul_comm (_ * _) (x.getD _ 0)]
    rfl
  case q3K =>
    simp only [groupTerm, q3kTerm, foldl_range_eq_sumOver]
    apply sumOver_congr
    intro i hi
    have hb := pointer_lt blocks ((row * blocksPerRow + g / 16) * 110)
    have hcode := groupCode_eq hb .q3K (g % 16) hi
    have hhigh : ((groupCode .q3K (pointer blocks ((row * blocksPerRow + g / 16) * 110))
        (g % 16)).code i).high < 2 := by
      rw [hcode]
      exact high_codeOf_lt _
    rw [hoffset, weightAt, RawKernelType.blockBytes, ← hcode, codeWeight, ← low_sub_shift _ hhigh]
    rfl
  case q6K =>
    simp only [groupTerm, q6kTerm, foldl_range_eq_sumOver]
    rw [mul_sumOver_mul]
    apply sumOver_congr
    intro i hi
    have hb := pointer_lt blocks ((row * blocksPerRow + g / 16) * 210)
    have hcode := groupCode_eq hb .q6K (g % 16) hi
    have hlow : ((groupCode .q6K (pointer blocks ((row * blocksPerRow + g / 16) * 210))
        (g % 16)).code i).low < 16 := by
      rw [hcode]
      exact low_codeOf_lt hb _
    have hhalf : g / 16 * 256 + g % 16 / 8 * 128 + g % 16 % 8 * 16 =
      g / 16 * 256 + g % 16 * 16 := by
      omega
    rw [hhalf, hoffset, weightAt, RawKernelType.blockBytes, ← hcode, codeWeight,
      ← or_shiftLeft_four hlow]
    rfl

end Weights

/-! ### The reduction -/

section Reduction

variable {K : Type*} [CommRing K]

/-- A thread sums its groups, for each batch row. -/
theorem getD_threadAcc (term : ℕ → ℕ → K) {nb batch : ℕ} (hbatch : batch < nb) (totalGroups t : ℕ) :
    (threadAcc term nb totalGroups t).getD batch 0
      = ((strided t totalGroups 256).map fun g => term g batch).sum := by
  have hfold : ∀ (l : List ℕ) (acc : List K),
      (l.foldl (fun acc g => acc.mapIdx fun batch a => a + term g batch) acc)[batch]?
        = acc[batch]?.map fun a => a + (l.map fun g => term g batch).sum := by
    intro l
    induction l with
    | nil =>
      intro acc
      simp
    | cons g l ih =>
      intro acc
      rw [List.foldl_cons, ih, List.getElem?_mapIdx, Option.map_map]
      congr 1
      funext a
      show a + term g batch + _ = _
      rw [add_assoc, List.map_cons, List.sum_cons]
  rw [threadAcc, List.getD_eq_getElem?_getD, hfold, List.getElem?_replicate_of_lt hbatch,
    Option.map_some, Option.getD_some, zero_add]

theorem simdLeaders_eq : simdLeaders = (List.range 8).map fun sg => sg * 32 := by decide +kernel

theorem rowWriters_eq {nb : ℕ} (h : nb ≤ kernelThreadgroup) : rowWriters nb = List.range nb := by
  obtain ⟨k, hk⟩ := Nat.exists_eq_add_of_le h
  have hwriters : ∀ t ∈ List.range nb, decide (t < nb) = true := by
    intro t ht
    exact decide_eq_true (List.mem_range.mp ht)
  have hothers : ∀ t ∈ (List.range k).map (nb + ·), ¬ decide (t < nb) = true := by
    intro t ht
    obtain ⟨j, -, rfl⟩ := List.mem_map.mp ht
    simp
  rw [rowWriters, hk, List.range_add, List.filter_append, List.filter_eq_self.mpr hwriters,
    List.filter_eq_nil_iff.mpr hothers, List.append_nil]

/-- The shared memory holds the sum of each simdgroup. -/
theorem getD_sharedSums (acc : ℕ → List K) {nb sg batch : ℕ} (hsg : sg < 8) (hbatch : batch < nb) :
    (sharedSums acc nb).getD (sg * nb + batch) 0 = simdSum acc (sg * 32) batch := by
  have hplaces : (simdLeaders.flatMap fun t => (List.range nb).map fun b => t / 32 * nb + b)
      = List.range (8 * nb) := by
    rw [simdLeaders_eq, List.flatMap_map, range_mul_eq_flatMap]
    apply List.flatMap_congr
    intro i _
    rw [Nat.mul_div_cancel _ (by decide), List.range'_eq_map_range]
  have hplace : sg * nb + batch < 8 * nb := by
    have := Nat.mul_le_mul_right nb (Nat.succ_le_of_lt hsg)
    rw [Nat.succ_mul] at this
    omega
  have hvalue : (simdLeaders.flatMap fun t => (List.range nb).map fun b => simdSum acc t b)[
      sg * nb + batch]? = some (simdSum acc (sg * 32) batch) := by
    rw [simdLeaders_eq, List.flatMap_map, getElem?_flatMap_of_length (fun _ => by simp)
      (List.getElem?_range hsg) hbatch, List.getElem?_map, List.getElem?_range hbatch,
      Option.map_some]
  rw [sharedSums, hplaces, List.getD_eq_getElem?_getD, getElem?_scatterRows List.nodup_range
    (List.getElem?_range hplace) hvalue (by simpa using hplace), Option.getD_some]

/-- **The reduction adds every group of the row once.** -/
theorem rowTotal_eq (term : ℕ → ℕ → K) {nb batch : ℕ} (hbatch : batch < nb) (totalGroups : ℕ) :
    rowTotal (threadAcc term nb totalGroups) nb batch
      = sumOver totalGroups fun g => term g batch := by
  have hsimd : ∀ sg, sg < 8 →
      (sharedSums (threadAcc term nb totalGroups) nb).getD (sg * nb + batch) 0
        = sumOver 32 fun lane =>
          ((strided (sg * 32 + lane) totalGroups 256).map fun g => term g batch).sum := by
    intro sg hsg
    rw [getD_sharedSums _ hsg hbatch, simdSum, Nat.mul_div_cancel _ (by decide)]
    exact sumOver_congr fun lane _ => getD_threadAcc term hbatch totalGroups _
  calc rowTotal (threadAcc term nb totalGroups) nb batch
      = sumOver 8 fun sg =>
          (sharedSums (threadAcc term nb totalGroups) nb).getD (sg * nb + batch) 0 :=
        foldl_range_eq_sumOver 8 _
    _ = sumOver 8 fun sg => sumOver 32 fun lane =>
          ((strided (sg * 32 + lane) totalGroups 256).map fun g => term g batch).sum :=
        sumOver_congr hsimd
    _ = sumOver (8 * 32) fun t => ((strided t totalGroups 256).map fun g => term g batch).sum :=
        (sumOver_mul 8 32 fun t =>
          ((strided t totalGroups 256).map fun g => term g batch).sum).symm
    _ = sumOver totalGroups fun g => term g batch := sumOver_strided (by decide) totalGroups _

end Reduction

section Product

variable {K : Type*} [CommRing K] (qtype : RawKernelType) (half : ℕ → K) (blocks : List UInt8)

/-- **Entry `(batch, row)` of the kernel's output is a dot product with the row's weights.** -/
theorem getElem?_qmvKernel (x : List K) {nb blocksPerRow outFeatures batch row : ℕ}
    (hnb : nb ≤ kernelThreadgroup) (hbatch : batch < nb) (hrow : row < outFeatures) :
    (qmvKernel qtype half blocks x nb blocksPerRow outFeatures)[batch * outFeatures + row]?
      = some (sumOver (blocksPerRow * 256) fun j => x.getD (batch * (blocksPerRow * 256) + j) 0 *
          dequantElem qtype half blocks (row * (blocksPerRow * 256) + j)) := by
  have hplace : batch * outFeatures + row < nb * outFeatures := by
    have := Nat.mul_le_mul_right outFeatures (Nat.succ_le_of_lt hbatch)
    rw [Nat.succ_mul] at this
    omega
  have hweights : ∀ g i : ℕ, i < 16 →
      weightAt qtype half blocks (row * blocksPerRow + g / 16) (g % 16 * 16 + i)
        = dequantElem qtype half blocks (row * (blocksPerRow * 256) + (g * 16 + i)) := by
    intro g i hi
    rw [dequantElem_eq]
    congr 1 <;> rw [← Nat.mul_assoc] <;> omega
  -- the groups of the threads are the columns of the row, sixteen by sixteen
  have htotal : rowTotal (threadAcc (groupTerm qtype half blocks x blocksPerRow row) nb
      (blocksPerRow * 16)) nb batch = sumOver (blocksPerRow * 256) fun j =>
        x.getD (batch * (blocksPerRow * 256) + j) 0 *
          dequantElem qtype half blocks (row * (blocksPerRow * 256) + j) := by
    rw [rowTotal_eq _ hbatch]
    have hsize : blocksPerRow * 256 = blocksPerRow * 16 * 16 := by omega
    conv_rhs => rw [hsize]
    rw [sumOver_mul (blocksPerRow * 16) 16]
    apply sumOver_congr
    intro g _
    rw [groupTerm_eq]
    apply sumOver_congr
    intro i hi
    rw [hweights g i hi, ← hsize]
  rw [qmvKernel, rowWriters_eq hnb]
  -- the writer of the entry holds its total
  apply getElem?_scatterRows (nodup_columns outFeatures nb) (k := row * nb + batch)
  · rw [getElem?_flatMap_of_length (fun _ => by simp) (List.getElem?_range hrow) hbatch,
      List.getElem?_map, List.getElem?_range hbatch, Option.map_some]
  · rw [getElem?_flatMap_of_length (fun _ => by simp) (List.getElem?_range hrow) hbatch,
      List.getElem?_map, List.getElem?_range hbatch, Option.map_some, htotal]
  · rwa [List.length_replicate]

end Product

/-! ### Rows -/

/-- A code depends on the bytes of its superblock only. -/
theorem codeOf_congr (qtype : RawKernelType) {b b' : ℕ → ℕ}
    (h : ∀ i, i < qtype.blockBytes → b i = b' i) {e : ℕ} (he : e < 256) :
    codeOf qtype b e = codeOf qtype b' e := by
  -- the bytes that a code is read from lie in its superblock
  cases qtype
  case q2K =>
    have hlow := h (16 + (32 * (e / 128) + (16 * (e / 16 % 2) + e % 16)))
      (by show _ < 84; omega)
    have hscale := h (8 * (e / 128) + (2 * (e / 32 % 4) + e / 16 % 2)) (by show _ < 84; omega)
    simp only [codeOf, codeAt, q2kCode, hlow, hscale]
  case q3K =>
    have hlow := h (32 + (32 * (e / 128) + (16 * (e / 16 % 2) + e % 16)))
      (by show _ < 110; omega)
    have hhigh := h (16 * (e / 16 % 2) + e % 16) (by show _ < 110; omega)
    have hscale : ∀ k, k < 16 → q3kScale b k = q3kScale b' k := by
      intro k hk
      have hfront := h (104 + k % 4) (by show _ < 110; omega)
      have hback : ∀ j, j < 8 → b (96 + j) = b' (96 + j) :=
        fun j hj => h _ (by show _ < 110; omega)
      unfold q3kScale
      rw [hfront]
      split_ifs with hk8
      · rw [hback k hk8]
      · rw [hback (k - 8) (by omega)]
    simp only [codeOf, codeAt, q3kCode, hlow, hhigh,
      hscale (8 * (e / 128) + (2 * (e / 32 % 4) + e / 16 % 2)) (by omega)]
  case q6K =>
    have hlow := h (64 * (e / 128) + (32 * (e / 32 % 4 % 2) + (16 * (e / 16 % 2) + e % 16)))
      (by show _ < 210; omega)
    have hhigh := h (128 + (32 * (e / 128) + (16 * (e / 16 % 2) + e % 16)))
      (by show _ < 210; omega)
    have hscale := h (192 + (8 * (e / 128) + (2 * (e / 32 % 4) + e / 16 % 2)))
      (by show _ < 210; omega)
    simp only [codeOf, codeAt, q6kCode, hlow, hhigh, hscale]

theorem scaleOffsets_lt (qtype : RawKernelType) :
    qtype.scaleOffsets.1 + 1 < qtype.blockBytes ∧ qtype.scaleOffsets.2 + 1 < qtype.blockBytes := by
  cases qtype <;> decide

namespace GGUFRawBlockTensor

variable {K : Type*} [CommRing K] (t : GGUFRawBlockTensor) (half : ℕ → K)

theorem rowBytes_eq : t.rowBytes = t.blocksPerRow * t.qweightType.blockBytes :=
  (Nat.div_mul_cancel t.blockBytes_dvd).symm

theorem inFeatures_pos : 0 < t.inFeatures :=
  Nat.mul_pos (Nat.div_pos t.blockBytes_le t.qweightType.blockBytes_pos) (by decide)

/-- Superblock `block` of row `r`, in memory. -/
theorem pointer_flatten {rows : List (List UInt8)} (hrows : ∀ row ∈ rows, row.length = t.rowBytes)
    {r block i : ℕ} {row : List UInt8} (hrow : rows[r]? = some row)
    (hblock : block < t.blocksPerRow)
    (hi : i < t.qweightType.blockBytes) :
    pointer rows.flatten ((r * t.blocksPerRow + block) * t.qweightType.blockBytes) i
      = byteAt row (block * t.qweightType.blockBytes + i) := by
  have hplace : block * t.qweightType.blockBytes + i < t.rowBytes := by
    have := Nat.mul_le_mul_right t.qweightType.blockBytes (Nat.succ_le_of_lt hblock)
    rw [Nat.succ_mul, ← rowBytes_eq] at this
    omega
  have hindex : (r * t.blocksPerRow + block) * t.qweightType.blockBytes + i
      = r * t.rowBytes + (block * t.qweightType.blockBytes + i) := by
    rw [rowBytes_eq, Nat.add_mul, Nat.mul_assoc, Nat.add_assoc]
  rw [pointer, byteAt, byteAt, List.getD_eq_getElem?_getD, List.getD_eq_getElem?_getD, hindex,
    getElem?_flatten_of_length hrows hrow hplace]

/-- The weights of a superblock in memory are those of its row. -/
theorem weightAt_flatten {rows : List (List UInt8)} (hrows : ∀ row ∈ rows, row.length = t.rowBytes)
    {r block e : ℕ} {row : List UInt8} (hrow : rows[r]? = some row)
    (hblock : block < t.blocksPerRow)
    (he : e < 256) :
    weightAt t.qweightType half rows.flatten (r * t.blocksPerRow + block) e
      = let b := fun i => byteAt row (block * t.qweightType.blockBytes + i)
        codeWeight t.qweightType (half (loadU16 b t.qweightType.scaleOffsets.1))
          (half (loadU16 b t.qweightType.scaleOffsets.2)) (codeOf t.qweightType b e) := by
  have hbytes := fun i hi => pointer_flatten t hrows hrow hblock (i := i) hi
  obtain ⟨hd, hdmin⟩ := scaleOffsets_lt t.qweightType
  have hload : ∀ o, o + 1 < t.qweightType.blockBytes →
      loadU16 (pointer rows.flatten ((r * t.blocksPerRow + block) * t.qweightType.blockBytes)) o
        = loadU16 (fun i => byteAt row (block * t.qweightType.blockBytes + i)) o := by
    intro o ho
    rw [loadU16, loadU16, hbytes o (by omega), hbytes (o + 1) ho]
  rw [weightAt, codeOf_congr t.qweightType hbytes he, hload _ hd, hload _ hdmin]

/-- **The kernel that decodes writes the rows of the block format.** -/
theorem dequantizeRows_eq {rows : List (List UInt8)}
    (hrows : ∀ row ∈ rows, row.length = t.rowBytes) :
    t.dequantizeRows half rows = rows.map (decodeRow t.qweightType half) := by
  rw [dequantizeRows, reshapeRows_map_range (inFeatures_pos t)]
  apply List.ext_getElem
  · rw [List.length_map, List.length_map, List.length_range]
  intro r hr hr'
  rw [List.length_map] at hr'
  rw [List.getElem_map, List.getElem_map, List.getElem_range, decodeRow,
    hrows _ (List.getElem_mem hr')]
  simp only [decodeBlock, blockCodes_eq_map, List.map_map]
  rw [flatMap_range_map]
  apply List.map_congr_left
  intro j hj
  rw [List.mem_range] at hj
  have hsplit : (r * t.inFeatures + j) / 256 = r * t.blocksPerRow + j / 256 ∧
      (r * t.inFeatures + j) % 256 = j % 256 := by
    rw [inFeatures, ← Nat.mul_assoc]
    omega
  have hblock : j / 256 < t.blocksPerRow := by
    rw [inFeatures] at hj
    omega
  rw [dequantElem_eq, hsplit.1, hsplit.2, weightAt_flatten t half hrows
    (List.getElem?_eq_getElem hr') hblock (Nat.mod_lt j (by decide))]
  rfl

theorem length_dequantizeRows (rows : List (List UInt8)) :
    (t.dequantizeRows half rows).length = rows.length := by
  rw [dequantizeRows, reshapeRows_map_range (inFeatures_pos t), List.length_map, List.length_range]

/-- A dot product is the sum of its products. -/
theorem dot_map_range {n : ℕ} {x : List K} (hx : x.length = n) (w : ℕ → K) :
    dot x ((List.range n).map w) = sumOver n fun j => x.getD j 0 * w j := by
  rw [dot, sumOver]
  congr 1
  apply List.ext_getElem
  · simp [hx]
  · intro j hj _
    rw [List.length_zipWith, hx] at hj
    rw [List.getElem_zipWith, List.getElem_map, List.getElem_map, List.getElem_range,
      List.getD_eq_getElem]

/-- **The fast path returns the dot products with the decoded rows.** -/
theorem qmv_eq {x : List K} {nb : ℕ} (hnb : nb ≤ kernelThreadgroup)
    (hx : x.length = nb * t.inFeatures) :
    t.qmv half x nb = (reshapeRows t.inFeatures x).flatMap fun row =>
      (t.dequantizeRows half t.qweight).map (dot row) := by
  have hin := inFeatures_pos t
  have hrows : x.length / t.inFeatures = nb := by rw [hx, Nat.mul_div_cancel _ hin]
  have hlength : ∀ row : List K,
      ((t.dequantizeRows half t.qweight).map (dot row)).length = t.outFeatures := by
    intro row
    rw [List.length_map, length_dequantizeRows]
    rfl
  have hblocks : t.inFeatures / 256 = t.blocksPerRow := Nat.mul_div_cancel _ (by decide)
  have htotal : (t.qmv half x nb).length = nb * t.outFeatures := by
    rw [qmv, qmvKernel, length_scatterRows, List.length_replicate]
  apply List.ext_getElem?
  intro k
  -- entry `k` is row `k % outFeatures` of batch `k / outFeatures`
  rcases Nat.lt_or_ge k (nb * t.outFeatures) with hk | hk
  · have hout : 0 < t.outFeatures := Nat.pos_of_mul_pos_left (Nat.zero_lt_of_lt hk)
    have hbatch : k / t.outFeatures < nb := (Nat.div_lt_iff_lt_mul hout).mpr hk
    have hrow : k % t.outFeatures < t.outFeatures := Nat.mod_lt _ hout
    have hplace : k / t.outFeatures * t.outFeatures + k % t.outFeatures = k := by
      rw [Nat.mul_comm]
      exact Nat.div_add_mod k t.outFeatures
    rw [← hplace, getElem?_flatMap_of_length hlength
      (getElem?_reshapeRows (hrows.symm ▸ hbatch)) hrow, List.getElem?_map, dequantizeRows,
      reshapeRows_map_range hin, List.getElem?_map,
      List.getElem?_range (show k % t.outFeatures < t.qweight.length from hrow), Option.map_some,
      Option.map_some, qmv, getElem?_qmvKernel _ _ _ _ hnb hbatch hrow, hblocks]
    have hslice : ((x.drop (k / t.outFeatures * t.inFeatures)).take t.inFeatures).length
        = t.inFeatures := by
      have hle := Nat.mul_le_mul_right t.inFeatures (Nat.succ_le_of_lt hbatch)
      rw [Nat.succ_mul] at hle
      rw [List.length_take, List.length_drop]
      omega
    rw [dot_map_range hslice]
    congr 1
    apply sumOver_congr
    intro j hj
    congr 1
    rw [List.getD_eq_getElem?_getD, List.getD_eq_getElem?_getD,
      List.getElem?_take_of_lt (show j < t.inFeatures from hj), List.getElem?_drop]
    rfl
  -- behind the last entry both are empty
  · rw [List.getElem?_eq_none (htotal.trans_le hk), List.getElem?_eq_none]
    rw [length_flatMap_reshapeRows hlength, hrows]
    exact hk

/-! ### The operations -/

/-- **Both paths of `matmul` are one product.** -/
theorem matmul_eq {x : Activations K} (hlast : x.last = t.inFeatures) :
    t.matmul half x = .ok (x.lead ++ [t.outFeatures],
      (reshapeRows t.inFeatures x.data).flatMap fun row =>
        (t.dequantizeRows half t.qweight).map (dot row)) := by
  have hin := inFeatures_pos t
  have hdata : x.data.length = x.lead.prod * t.inFeatures := hlast ▸ x.length_data
  have hrows : (reshapeRows t.inFeatures x.data).length = x.lead.prod := by
    rw [reshapeRows, List.length_map, List.length_range, hdata, Nat.mul_div_cancel _ hin]
  unfold matmul
  rw [if_neg (not_not.mpr hlast)]
  dsimp only
  rw [hrows]
  split_ifs with hzero hsmall
  · -- no rows: the output is empty
    have hnil : reshapeRows t.inFeatures x.data = [] :=
      List.length_eq_zero_iff.mp (hrows.trans hzero)
    rw [hnil, List.prod_append, hzero, Nat.zero_mul]
    rfl
  · rw [qmv_eq t half (hsmall.trans (by decide)) hdata]
  · rfl

/-- **An embedding is the decoded rows of its ids.** -/
theorem embedding_eq {ids : List ℕ} (hids : ∀ i ∈ ids, i < t.outFeatures) :
    t.embedding half ids = ids.map fun i => (t.dequantizeRows half t.qweight).getD i [] := by
  have hrows : ∀ row ∈ ids.map (fun i => t.qweight.getD i []), row.length = t.rowBytes :=
    (t.gatherRows ids hids).row_length
  rw [embedding, dequantizeRows_eq t half hrows, dequantizeRows_eq t half t.row_length,
    List.map_map]
  apply List.map_congr_left
  intro i hi
  have hlt : i < t.qweight.length := hids i hi
  rw [Function.comp_apply, List.getD_eq_getElem _ _ hlt,
    List.getD_eq_getElem _ _ (by rwa [List.length_map]), List.getElem_map]

/-- What an accepted index does. -/
theorem permuteRows_cases {index : List ℤ} {t' : GGUFRawBlockTensor}
    (h : t.permuteRows index = .ok t') :
    ∃ hids : ∀ i ∈ index.map Int.toNat, i < t.outFeatures,
      t' = t.gatherRows (index.map Int.toNat) hids := by
  unfold permuteRows at h
  split_ifs at h
  cases h
  exact ⟨_, rfl⟩

/-- A permutation of the rows is accepted. -/
theorem permuteRows_ok {index : List ℤ}
    (hperm : index.Perm ((List.range t.outFeatures).map fun i : ℕ => (i : ℤ))) :
    ∃ t', t.permuteRows index = .ok t' := by
  have hlength : index.length = t.outFeatures := by
    rw [hperm.length_eq, List.length_map, List.length_range]
  unfold permuteRows
  rw [if_neg (not_not.mpr hlength), dif_pos (mergeSort_of_perm hperm)]
  exact ⟨_, rfl⟩

/-- **Permuted rows decode to the permuted decoded rows.** -/
theorem permuteRows_eq {index : List ℤ} {t' : GGUFRawBlockTensor}
    (h : t.permuteRows index = .ok t') :
    t'.dequantizeRows half t'.qweight
      = index.map fun i => (t.dequantizeRows half t.qweight).getD i.toNat [] := by
  obtain ⟨hids, rfl⟩ := permuteRows_cases t h
  have hrows := embedding_eq t half hids
  rw [List.map_map] at hrows
  exact hrows

end GGUFRawBlockTensor

/-! ### The fast path -/

open GGUFRawBlockTensor

/-- What the kernels and the operations of a tensor keep to. -/
structure RawBlockExact {K : Type*} [CommRing K] (t : GGUFRawBlockTensor) (half : ℕ → K) :
    Prop where
  /-- The threads of a threadgroup take every group of a row once. -/
  groups : ((List.range kernelThreadgroup).flatMap fun thread =>
    strided thread (t.blocksPerRow * 16) kernelThreadgroup).Perm (List.range (t.blocksPerRow * 16))
  /-- Both kernels decode the codes of the block format. -/
  codes : ∀ offset grp i, grp < 16 → i < 16 →
    let b := pointer t.qweight.flatten offset
    (groupCode t.qweightType b grp).code i = dequantCode t.qweightType b (grp * 16 + i) ∧
      (blockCodes t.qweightType b)[grp * 16 + i]?
        = some (dequantCode t.qweightType b (grp * 16 + i))
  /-- The kernel that decodes writes the rows of the block format. -/
  dequantized : t.dequantizeRows half t.qweight = t.qweight.map (decodeRow t.qweightType half)
  /-- The kernel that multiplies returns the dot products with these rows. -/
  qmv : ∀ (x : List K) (nb : ℕ), 1 ≤ nb → nb ≤ qmvMaxBatch → x.length = nb * t.inFeatures →
    t.qmv half x nb = (reshapeRows t.inFeatures x).flatMap fun row =>
      (t.dequantizeRows half t.qweight).map (dot row)
  /-- So does `matmul`, of any number of rows. -/
  matmul : ∀ x : Activations K, x.last = t.inFeatures →
    t.matmul half x = .ok (x.lead ++ [t.outFeatures],
      (reshapeRows t.inFeatures x.data).flatMap fun row =>
        (t.dequantizeRows half t.qweight).map (dot row))
  embedding : ∀ ids : List ℕ, (∀ i ∈ ids, i < t.outFeatures) →
    t.embedding half ids = ids.map fun i => (t.dequantizeRows half t.qweight).getD i []
  permuteRows : ∀ index : List ℤ,
    index.Perm ((List.range t.outFeatures).map fun i : ℕ => (i : ℤ)) →
    ∃ t', t.permuteRows index = .ok t' ∧ t'.dequantizeRows half t'.qweight
      = index.map fun i => (t.dequantizeRows half t.qweight).getD i.toNat []

/-- **The fast path of raw blocks is the slow path**, and the slow path is the block format. -/
theorem raw_block_exact {K : Type*} [CommRing K] (t : GGUFRawBlockTensor) (half : ℕ → K) :
    RawBlockExact t half where
  groups := perm_strided (by decide) _
  codes := by
    intro offset grp i hgrp hi b
    have hb : ∀ j, b j < 256 := pointer_lt t.qweight.flatten offset
    rw [groupCode_eq hb t.qweightType grp hi, dequantCode_eq hb, blockCodes_eq_map,
      List.getElem?_map,
      List.getElem?_range (by omega), Option.map_some]
    exact ⟨rfl, rfl⟩
  dequantized := dequantizeRows_eq t half t.row_length
  qmv := fun _ _ _ hnb hx => qmv_eq t half (hnb.trans (by decide)) hx
  matmul := fun _ hlast => matmul_eq t half hlast
  embedding := fun _ hids => embedding_eq t half hids
  permuteRows := by
    intro index hperm
    obtain ⟨t', ht'⟩ := permuteRows_ok t hperm
    exact ⟨t', ht', permuteRows_eq t half ht'⟩

end Gguf
end VllmMetal
