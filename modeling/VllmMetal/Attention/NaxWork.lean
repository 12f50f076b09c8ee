import VllmMetal.Attention.NaxTiles
import Mathlib.Algebra.BigOperators.Intervals
import Mathlib.Algebra.Field.Rat
import Mathlib.Tactic.Ring

/-!
# Tile counts on the host

The host weighs the tiles of full and of partial blocks before a launch, without running it.
`nax_tile_work` counts them segment by segment; `nax_prefill_work` has closed forms for one segment
without a window.

## Main definitions

* `naxTileWork`, `naxPrefillWork` — the counts of the host.
* `naxLaunchBlocks`, `naxVisited` — the blocks of a launch, and the tiles their loops visit.

## Main results

* `naxTileWork_eq_visited` — the counts of the host are those of the loops.
* `naxPrefillVisits_eq_sum`, `naxPrefillEdgeBlocks_eq_card` — the closed forms.
-/

namespace VllmMetal
namespace Attention

/-! ### `nax_tile_work` -/

/-- Tile counts for each kind of block. -/
structure NaxTileWork where
  fullBlocks : ℤ
  fullTiles : ℤ
  partialTiles : ℤ
  deriving DecidableEq

/-- `_tiles`. -/
def tiles (kvEnd : ℤ) : ℤ := (kvEnd + 32 - 1) / 32

/-- `first_tile`. -/
def firstTile (slidingWindow qAbs : ℤ) : ℤ :=
  if slidingWindow < 0 then 0 else max 0 ((qAbs + 1 - slidingWindow) / 32)

/-- The loop body of `nax_tile_work`, for segment `i` of `kv` keys. -/
def NaxTileWork.addSegment (cuSeqlens : List ℕ) (slidingWindow : ℤ) (work : NaxTileWork)
    (segment : ℕ × ℕ) : NaxTileWork :=
  let kv : ℤ := segment.1
  let q : ℤ := cuSeqlens.getD (segment.2 + 1) 0 - cuSeqlens.getD segment.2 0
  if q ≤ 0 then work
  else
    let context := kv - q
    let nFull := q / 64
    let fullTiles := (List.range nFull.toNat).map fun j : ℕ =>
      tiles (context + j * 64 + 64) - firstTile slidingWindow (context + j * 64)
    let partialTiles :=
      if q % 64 ≠ 0 then tiles kv - firstTile slidingWindow (context + nFull * 64) else 0
    ⟨work.fullBlocks + nFull, work.fullTiles + fullTiles.sum, work.partialTiles + partialTiles⟩

/-- `nax_tile_work`; `none` is the raised `ValueError`. -/
def naxTileWork (cuSeqlens kvLens : List ℕ) (slidingWindow : ℤ) : Option NaxTileWork :=
  if cuSeqlens.length ≠ kvLens.length + 1 then none
  else some (kvLens.zipIdx.foldl (NaxTileWork.addSegment cuSeqlens slidingWindow) ⟨0, 0, 0⟩)

/-! ### `nax_prefill_work` -/

/-- `NaxPrefillWork`. -/
structure NaxPrefillWork where
  issued : ℚ
  active : ℚ
  guarded : ℚ
  guardedQ : ℚ
  kvEdge : ℚ
  fast : ℚ
  stream : ℚ
  tailStream : ℚ
  groups : ℤ
  fullBlocks : ℤ

/-- `visits`. -/
def naxPrefillVisits (q prefixLen bq : ℤ) : ℤ :=
  let full := q.tdiv bq
  let prefixTiles := (prefixLen + 31).tdiv 32
  if bq = 64 then full * prefixTiles + full * (full + 1)
  else full * prefixTiles + (full * full).tdiv 4 +
    (if prefixLen.tmod 32 = 0 ∨ 16 < prefixLen.tmod 32 then 1 else 0) * (full + 1).tdiv 2

/-- `edge_blocks`. -/
def naxPrefillEdgeBlocks (q prefixLen bq : ℤ) : ℤ :=
  let full := q.tdiv bq
  let fullEnd := (prefixLen + q).tdiv 32 * 32
  full - min full ((max 0 (fullEnd - prefixLen)).tdiv bq)

/-- `nax_prefill_work`. -/
def naxPrefillWork (q prefixLen heads kvHeads bq : ℤ) (split : Bool) : NaxPrefillWork :=
  let full := q.tdiv bq
  let tail := q.tmod bq
  let visits := naxPrefillVisits q prefixLen bq
  let stop := if tail ≠ 0 then (prefixLen + q + 31).tdiv 32 else 0
  let edgeBlocks := naxPrefillEdgeBlocks q prefixLen bq
  let fastVisits := if split then visits - edgeBlocks else 0
  let slices := bq.tdiv 16
  let qBlocks := full + if tail ≠ 0 then 1 else 0
  let issued : ℚ := heads * slices * (visits + stop)
  let fast : ℚ := heads * slices * fastVisits
  { issued := issued
    active := heads * (slices * visits + (tail + 15).tdiv 16 * stop)
    fast := fast
    guarded := issued - fast
    guardedQ := heads * slices * stop
    kvEdge := heads * slices * edgeBlocks
    stream := (visits + stop) / qBlocks
    tailStream := stop
    groups := (if bq = 64 then heads else kvHeads) * qBlocks
    fullBlocks := full }

/-! ### The loops -/

/-- The blocks of a launch over a batch. -/
def naxLaunchBlocks (cuSeqlensQ contextLens : List ℕ) (slidingWindow : ℤ) : List NaxBlock :=
  (List.range (cuSeqlensQ.getLastD 0 / 64 + contextLens.length)).flatMap fun y =>
    (naxBlock cuSeqlensQ contextLens contextLens.length slidingWindow y).toList

/-- What the loops of some blocks visit. -/
def naxVisited (blocks : List NaxBlock) : NaxTileWork :=
  let full := blocks.filter fun b => decide (b.validQ = naxBQ)
  let rest := blocks.filter fun b => !decide (b.validQ = naxBQ)
  ⟨full.length, (full.map fun b => (b.unsplitTiles.length : ℤ)).sum,
    (rest.map fun b => (b.unsplitTiles.length : ℤ)).sum⟩

/-- The counts of two parts of a launch. -/
def NaxTileWork.add (work work' : NaxTileWork) : NaxTileWork :=
  ⟨work.fullBlocks + work'.fullBlocks, work.fullTiles + work'.fullTiles,
    work.partialTiles + work'.partialTiles⟩

theorem naxVisited_append (blocks blocks' : List NaxBlock) :
    naxVisited (blocks ++ blocks') = (naxVisited blocks).add (naxVisited blocks') := by
  simp [naxVisited, NaxTileWork.add]

/-- Blocks that are all full. -/
theorem naxVisited_full {blocks : List NaxBlock} (h : ∀ b ∈ blocks, b.validQ = naxBQ) :
    naxVisited blocks =
      ⟨blocks.length, (blocks.map fun b => (b.unsplitTiles.length : ℤ)).sum, 0⟩ := by
  unfold naxVisited
  simp only
  rw [List.filter_eq_self.mpr fun b hb => decide_eq_true (h b hb),
    List.filter_eq_nil_iff.mpr fun b hb => by simp [h b hb]]
  rfl

/-- A block that is not. -/
theorem naxVisited_cut {b : NaxBlock} (h : b.validQ ≠ naxBQ) :
    naxVisited [b] = ⟨0, 0, b.unsplitTiles.length⟩ := by
  simp [naxVisited, h]

/-- Block `t` of a segment. -/
def segmentBlock (q kv : ℕ) (slidingWindow : ℤ) (t : ℕ) : NaxBlock := ⟨kv, q, t * 64, slidingWindow⟩

section Segment

variable {q kv : ℕ} {slidingWindow : ℤ} {t : ℕ}

theorem wellFormed_segmentBlock (ht : t * 64 < q) (hkv : q ≤ kv) :
    (segmentBlock q kv slidingWindow t).WellFormed := by
  unfold segmentBlock
  constructor
  · dsimp only
    omega
  · dsimp only
    omega
  · dsimp only
    omega

/-- **The tiles of a block.** -/
theorem length_unsplitTiles {b : NaxBlock} (h : b.WellFormed) : (b.unsplitTiles.length : ℤ) =
    tiles (b.lastRow + 1) - firstTile b.slidingWindow (b.contextLen + b.qPosStart) := by
  have hle := h.kbStart_le_kbEnd
  have hstart := b.kbStart_eq
  rw [NaxBlock.unsplitTiles, h.unsplitFrom_eq, length_forTiles, max_eq_right (by omega), h.kbEnd_eq,
    tiles, firstTile, hstart]
  by_cases hsw : 0 ≤ b.slidingWindow
  · rw [if_pos hsw, if_neg (by omega)]
    omega
  · rw [if_neg hsw, if_pos (by omega)]
    omega

/-- The full blocks of a segment. -/
theorem naxVisited_fullBlocks (hkv : q ≤ kv) {n : ℕ} (hn : n ≤ q / 64) :
    naxVisited ((List.range n).map (segmentBlock q kv slidingWindow)) =
      ⟨n, ((List.range n).map fun j : ℕ => tiles (kv - q + j * 64 + 64) -
        firstTile slidingWindow (kv - q + j * 64)).sum, 0⟩ := by
  have hvalid : ∀ j < n, (segmentBlock q kv slidingWindow j).validQ = naxBQ := by
    intro j hj
    unfold segmentBlock NaxBlock.validQ naxBQ
    dsimp only
    omega
  rw [naxVisited_full fun b hb => ?_]
  · rw [List.length_map, List.length_range, List.map_map]
    congr 2
    refine List.map_congr_left fun j hj => ?_
    rw [List.mem_range] at hj
    have hwell : (segmentBlock q kv slidingWindow j).WellFormed :=
      wellFormed_segmentBlock (by omega) hkv
    rw [Function.comp_apply, length_unsplitTiles hwell, NaxBlock.lastRow, hvalid j hj]
    unfold segmentBlock NaxBlock.contextLen naxBQ
    dsimp only
    congr 2
    omega
  · obtain ⟨j, hj, rfl⟩ := List.mem_map.mp hb
    exact hvalid j (List.mem_range.mp hj)

/-- The block of the last rows of a segment. -/
theorem naxVisited_tail (hkv : q ≤ kv) (htail : q % 64 ≠ 0) :
    naxVisited [segmentBlock q kv slidingWindow (q / 64)] =
      ⟨0, 0, tiles kv - firstTile slidingWindow (kv - q + (q / 64 : ℕ) * 64)⟩ := by
  have hvalid : (segmentBlock q kv slidingWindow (q / 64)).validQ = q - (q / 64 : ℕ) * 64 := by
    unfold segmentBlock NaxBlock.validQ naxBQ
    dsimp only
    omega
  have hwell : (segmentBlock q kv slidingWindow (q / 64)).WellFormed :=
    wellFormed_segmentBlock (by omega) hkv
  rw [naxVisited_cut, length_unsplitTiles hwell, NaxBlock.lastRow, hvalid]
  · unfold segmentBlock NaxBlock.contextLen
    dsimp only
    congr 3
    omega
  · rw [hvalid]
    unfold naxBQ
    omega

/-- **The loop body of the host counts the tiles of its segment.** -/
theorem addSegment_eq {cuSeqlens : List ℕ} {i : ℕ} (hkv : q ≤ kv)
    (hq : (cuSeqlens.getD (i + 1) 0 : ℤ) - cuSeqlens.getD i 0 = q) (work : NaxTileWork) :
    work.addSegment cuSeqlens slidingWindow (kv, i) = work.add
      (naxVisited ((List.range ((q + 64 - 1) / 64)).map (segmentBlock q kv slidingWindow))) := by
  unfold NaxTileWork.addSegment
  simp only [hq]
  have hfull : ((q : ℤ) / 64).toNat = q / 64 := by omega
  by_cases htail : q % 64 = 0
  · -- no rows are left for a last block
    have hcount : (q + 64 - 1) / 64 = q / 64 := by omega
    rw [hcount, naxVisited_fullBlocks hkv (Nat.le_refl _), hfull]
    split
    · next hzero =>
      obtain rfl : q = 0 := by omega
      simp [NaxTileWork.add]
    · rw [if_neg (by omega)]
      simp only [NaxTileWork.add]
      congr 1
  · have hcount : (q + 64 - 1) / 64 = q / 64 + 1 := by omega
    rw [hcount, List.range_succ, List.map_append, List.map_singleton, naxVisited_append,
      naxVisited_fullBlocks hkv (Nat.le_refl _), naxVisited_tail hkv htail, if_neg (by omega),
      if_pos (by omega), hfull]
    simp only [NaxTileWork.add, add_zero, zero_add]
    congr 1

end Segment

/-! ### A batch -/

theorem NaxTileWork.add_add (work work' work'' : NaxTileWork) :
    (work.add work').add work'' = work.add (work'.add work'') := by
  simp only [NaxTileWork.add, Int.add_assoc]

theorem NaxTileWork.none_add (work : NaxTileWork) : NaxTileWork.add ⟨0, 0, 0⟩ work = work := by
  simp [NaxTileWork.add]

/-- The loop over the segments, its body counting the tiles of one. -/
theorem foldl_addSegment {cuSeqlens : List ℕ} {slidingWindow : ℤ} (blocks : ℕ × ℕ → List NaxBlock)
    (segments : List (ℕ × ℕ)) (work : NaxTileWork) (h : ∀ segment ∈ segments, ∀ work : NaxTileWork,
      work.addSegment cuSeqlens slidingWindow segment = work.add (naxVisited (blocks segment))) :
    segments.foldl (NaxTileWork.addSegment cuSeqlens slidingWindow) work =
      work.add (naxVisited (segments.flatMap blocks)) := by
  induction segments generalizing work with
  | nil => simp [naxVisited, NaxTileWork.add]
  | cons segment segments ih =>
    rw [List.foldl_cons, h segment List.mem_cons_self,
      ih _ fun segment' hmem => h segment' (List.mem_cons_of_mem segment hmem),
      NaxTileWork.add_add, List.flatMap_cons, naxVisited_append]

/-- **The threadgroups of a launch have the blocks of its segments.** -/
theorem naxLaunchBlocks_eq {lens kvLens : List ℕ} (hlen : kvLens.length = lens.length)
    (slidingWindow : ℤ) : naxLaunchBlocks (boundaries lens) kvLens slidingWindow =
      (List.range lens.length).flatMap fun s => (List.range ((lens.getD s 0 + 64 - 1) / 64)).map
        (segmentBlock (lens.getD s 0) (kvLens.getD s 0) slidingWindow) := by
  have hblock :
    (fun y => (naxBlock (boundaries lens) kvLens kvLens.length slidingWindow y).toList) =
      fun y => (fun s t => if lens.getD s 0 ≤ t * 64 then [] else
        [segmentBlock (lens.getD s 0) (kvLens.getD s 0) slidingWindow t])
        (qBlockSegment 64 (boundaries lens) lens.length y)
        (y - ((boundaries lens).getD (qBlockSegment 64 (boundaries lens) lens.length y) 0 / 64 +
          qBlockSegment 64 (boundaries lens) lens.length y)) := by
    funext y
    unfold naxBlock segmentBlock
    simp only [hlen, getD_boundaries_sub_getD]
    split
    · rfl
    · rw [Option.toList_some, Nat.cast_mul]
      rfl
  -- the q-blocks of the launch are the tiles of its segments
  have hlaunch := @flatMap_qBlocks lens 64 NaxBlock (by omega) (fun s t =>
      if lens.getD s 0 ≤ t * 64 then [] else
        [segmentBlock (lens.getD s 0) (kvLens.getD s 0) slidingWindow t])
    (fun s t ht => if_pos ht) 0 lens.length (Nat.zero_add _)
  have hzero : (boundaries lens).getD 0 0 = 0 := by
    rw [getD_boundaries (Nat.zero_le _), List.take_zero, List.sum_nil]
  rw [hzero, Nat.zero_div, Nat.zero_add, Nat.sub_zero, ← List.range_eq_range',
    ← List.range_eq_range'] at hlaunch
  rw [naxLaunchBlocks, hblock, getLastD_boundaries, hlen, hlaunch]
  refine List.flatMap_congr fun s _ => ?_
  rw [List.map_eq_flatMap]
  refine List.flatMap_congr fun t ht => if_neg ?_
  rw [List.mem_range] at ht
  omega

/-- **The counts of the host are those of the loops.**  For every batch of segments, each with no
more queries than keys, and every window: `nax_tile_work` counts the full blocks of the launch, the
tiles its loops visit for them, and the tiles its loops visit for the others. -/
theorem naxTileWork_eq_visited {lens kvLens : List ℕ} (hlen : kvLens.length = lens.length)
    (hkv : ∀ i, lens.getD i 0 ≤ kvLens.getD i 0) (slidingWindow : ℤ) :
    naxTileWork (boundaries lens) kvLens slidingWindow =
      some (naxVisited (naxLaunchBlocks (boundaries lens) kvLens slidingWindow)) := by
  have hcu : ¬(boundaries lens).length ≠ kvLens.length + 1 := by simp [hlen]
  have hsegments : kvLens.zipIdx = (List.range lens.length).map fun i => (kvLens.getD i 0, i) := by
    refine List.ext_getElem (by simp [hlen]) fun i hi hi' => ?_
    rw [List.length_zipIdx] at hi
    simp [List.getD_eq_getElem?_getD, List.getElem?_eq_getElem hi]
  rw [naxTileWork, if_neg hcu, naxLaunchBlocks_eq hlen, hsegments,
    foldl_addSegment (fun segment => (List.range ((lens.getD segment.2 0 + 64 - 1) / 64)).map
      (segmentBlock (lens.getD segment.2 0) segment.1 slidingWindow)), NaxTileWork.none_add,
    List.flatMap_map]
  intro segment hmem work
  obtain ⟨i, hi, rfl⟩ := List.mem_map.mp hmem
  refine addSegment_eq (hkv i) ?_ work
  have hle := getD_boundaries_mono (Nat.le_succ i) (List.mem_range.mp hi)
  rw [← Nat.cast_sub hle, getD_boundaries_sub_getD]

/-! ### Closed forms -/

/-- The tiles of the first `n` blocks of 64 rows. -/
theorem sum_tiles_64 (prefixLen : ℤ) (n : ℕ) :
    ∑ j ∈ Finset.range n, tiles (prefixLen + ((j : ℤ) + 1) * 64) =
      n * ((prefixLen + 31) / 32) + n * ((n : ℤ) + 1) := by
  induction n with
  | zero => simp
  | succ n ih =>
    have hterm : tiles (prefixLen + ((n : ℤ) + 1) * 64) =
        (prefixLen + 31) / 32 + 2 * ((n : ℤ) + 1) := by
      unfold tiles
      omega
    rw [Finset.sum_range_succ, ih, hterm]
    push_cast
    ring

/-- A quarter of consecutive squares. -/
theorem succ_mul_succ_div_four (n : ℕ) :
    ((n : ℤ) + 1) * ((n : ℤ) + 1) / 4 = (n : ℤ) * n / 4 + ((n : ℤ) + 1) / 2 := by
  obtain ⟨m, rfl | rfl⟩ := Nat.even_or_odd' n
  · have hsq : ((2 * m : ℕ) : ℤ) * ((2 * m : ℕ) : ℤ) = 4 * ((m : ℤ) * m) := by
      push_cast
      ring
    have hsucc : (((2 * m : ℕ) : ℤ) + 1) * (((2 * m : ℕ) : ℤ) + 1) =
        4 * ((m : ℤ) * m + m) + 1 := by
      push_cast
      ring
    rw [hsq, hsucc]
    omega
  · have hsq : ((2 * m + 1 : ℕ) : ℤ) * ((2 * m + 1 : ℕ) : ℤ) = 4 * ((m : ℤ) * m + m) + 1 := by
      push_cast
      ring
    have hsucc : (((2 * m + 1 : ℕ) : ℤ) + 1) * (((2 * m + 1 : ℕ) : ℤ) + 1) =
        4 * ((m : ℤ) * m + 2 * m + 1) := by
      push_cast
      ring
    rw [hsq, hsucc]
    omega

/-- The tiles of the first `n` blocks of 16 rows: two blocks to a tile, and one more for every
second block where the prefix ends in the last half of a tile, or at one. -/
theorem sum_tiles_16 {prefixLen : ℤ} (n : ℕ) :
    ∑ j ∈ Finset.range n, tiles (prefixLen + ((j : ℤ) + 1) * 16) =
      n * ((prefixLen + 31) / 32) + (n : ℤ) * n / 4 +
        (if prefixLen % 32 = 0 ∨ 16 < prefixLen % 32 then 1 else 0) * (((n : ℤ) + 1) / 2) := by
  induction n with
  | zero => simp
  | succ n ih =>
    have hsq := succ_mul_succ_div_four n
    have hmul : ((n : ℤ) + 1) * ((prefixLen + 31) / 32) =
        n * ((prefixLen + 31) / 32) + (prefixLen + 31) / 32 := by ring
    rw [Finset.sum_range_succ, ih, Nat.cast_succ, hsq, hmul]
    unfold tiles
    split
    · next h => omega
    · next h => omega

/-- Indices from `m` on. -/
theorem card_range_filter_le (n m : ℕ) : ((Finset.range n).filter fun j => m ≤ j).card = n - m := by
  have hico : (Finset.range n).filter (fun j => m ≤ j) = Finset.Ico m n := by
    ext j
    rw [Finset.mem_filter, Finset.mem_range, Finset.mem_Ico]
    exact and_comm
  rw [hico, Nat.card_Ico]

section Prefill

variable {q prefixLen bq : ℤ} (hq : 0 < q) (hlen : 0 ≤ prefixLen) (hbq : bq = 64 ∨ bq = 16)
include hq hlen hbq

/-- **`visits` is the number of tiles of the full blocks.** -/
theorem naxPrefillVisits_eq_sum : naxPrefillVisits q prefixLen bq =
    ∑ j ∈ Finset.range (q / bq).toNat, tiles (prefixLen + ((j : ℤ) + 1) * bq) := by
  have hdiv : ∀ x : ℤ, 0 ≤ x → ∀ d : ℤ, x.tdiv d = x / d := fun x hx d =>
    Int.tdiv_eq_ediv_of_nonneg hx
  rcases hbq with rfl | rfl
  · have hfull : ((q / 64).toNat : ℤ) = q / 64 := Int.toNat_of_nonneg (by omega)
    rw [sum_tiles_64, hfull, naxPrefillVisits]
    simp only [if_true]
    rw [hdiv q (by omega), hdiv _ (by omega)]
  · have hfull : ((q / 16).toNat : ℤ) = q / 16 := Int.toNat_of_nonneg (by omega)
    have hsq : 0 ≤ q / 16 * (q / 16) := Int.mul_nonneg (by omega) (by omega)
    rw [sum_tiles_16, hfull, naxPrefillVisits, if_neg (by omega), hdiv q (by omega),
      hdiv _ (by omega), hdiv _ hsq, hdiv _ (by omega), Int.tmod_eq_emod_of_nonneg hlen]

/-- **`edge_blocks` counts the full blocks whose last tile reaches behind the segment.** -/
theorem naxPrefillEdgeBlocks_eq_card : naxPrefillEdgeBlocks q prefixLen bq =
    ((Finset.range (q / bq).toNat).filter fun j : ℕ =>
      ¬tiles (prefixLen + ((j : ℤ) + 1) * bq) * 32 ≤ prefixLen + q).card := by
  have hdiv : ∀ x : ℤ, 0 ≤ x → ∀ d : ℤ, x.tdiv d = x / d := fun x hx d =>
    Int.tdiv_eq_ediv_of_nonneg hx
  have hpos : 0 < bq := by omega
  have hfull : ((q / bq).toNat : ℤ) = q / bq :=
    Int.toNat_of_nonneg (Int.ediv_nonneg (by omega) (by omega))
  -- a block whose causal range ends below the last whole tile
  have hedge : ∀ j : ℕ, ¬tiles (prefixLen + ((j : ℤ) + 1) * bq) * 32 ≤ prefixLen + q ↔
      (max 0 ((prefixLen + q) / 32 * 32 - prefixLen) / bq).toNat ≤ j := by
    intro j
    unfold tiles
    rcases hbq with rfl | rfl
    · omega
    · omega
  rw [Finset.filter_congr fun j _ => hedge j, card_range_filter_le, naxPrefillEdgeBlocks,
    hdiv q (by omega), hdiv (prefixLen + q) (by omega), hdiv _ (by omega)]
  have hnonneg : 0 ≤ max 0 ((prefixLen + q) / 32 * 32 - prefixLen) / bq :=
    Int.ediv_nonneg (by omega) (by omega)
  omega

end Prefill

/-- **The tile counts of the host are those of the loops.**  For every batch of segments, each with
no more queries than keys, and every window, `nax_tile_work` counts the full blocks of the launch,
the tiles its loops visit for them, and those its loops visit for the others; and for one segment
without a window, `visits` is the sum of the tiles of the full blocks, and `edge_blocks` the number
of full blocks whose causal range ends in a tile that is not entirely below the segment's end. -/
theorem host_counts_equal_loops :
    (∀ lens kvLens : List ℕ, kvLens.length = lens.length →
      (∀ i, lens.getD i 0 ≤ kvLens.getD i 0) → ∀ slidingWindow : ℤ,
        naxTileWork (boundaries lens) kvLens slidingWindow =
          some (naxVisited (naxLaunchBlocks (boundaries lens) kvLens slidingWindow))) ∧
    ∀ q prefixLen bq : ℤ, 0 < q → 0 ≤ prefixLen → bq = 64 ∨ bq = 16 →
      naxPrefillVisits q prefixLen bq =
        ∑ j ∈ Finset.range (q / bq).toNat, tiles (prefixLen + ((j : ℤ) + 1) * bq) ∧
      naxPrefillEdgeBlocks q prefixLen bq =
        ((Finset.range (q / bq).toNat).filter fun j : ℕ =>
          ¬tiles (prefixLen + ((j : ℤ) + 1) * bq) * 32 ≤ prefixLen + q).card :=
  ⟨fun _ _ hlen hkv slidingWindow => naxTileWork_eq_visited hlen hkv slidingWindow,
    fun _ _ _ hq hlen hbq => ⟨naxPrefillVisits_eq_sum hq hlen hbq,
      naxPrefillEdgeBlocks_eq_card hq hlen hbq⟩⟩

/-- A segment of 130 queries behind a prefix, an empty one and a decode row, under a window of 100;
and 40 queries behind a prefix of 20. -/
theorem host_counts_equal_loops_mixed :
    naxTileWork (boundaries [130, 0, 1]) [200, 0, 300] 100 =
        some (naxVisited (naxLaunchBlocks (boundaries [130, 0, 1]) [200, 0, 300] 100)) ∧
      naxPrefillVisits 40 20 16 =
        ∑ j ∈ Finset.range ((40 : ℤ) / 16).toNat, tiles (20 + ((j : ℤ) + 1) * 16) := by
  have hkv : ∀ i, [130, 0, 1].getD i 0 ≤ [200, 0, 300].getD i 0
    | 0 => by simp
    | 1 => by simp
    | 2 => by simp
    | i + 3 => by simp
  constructor
  · exact host_counts_equal_loops.1 [130, 0, 1] [200, 0, 300] rfl hkv 100
  · exact (host_counts_equal_loops.2 40 20 16 (by simp) (by simp) (Or.inr rfl)).1

end Attention
end VllmMetal
