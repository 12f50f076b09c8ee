import VllmMetal.Attention.WorkAssignment
import Mathlib.Data.Int.Order.Basic

/-!
# The tile loops of the NAX kernel

A threadgroup of `paged_attention_nax` computes a block of at most 64 rows of a segment and walks
the keys of the segment in tiles of 32.  The unsplit pipeline has one loop, which stops at the
first tile behind the last row of the block; the split pipeline computes where that is, and has a
loop without guards for the tiles that need none before a loop with guards for the others.

## Main definitions

* `NaxBlock` — what a threadgroup knows of its block; `kbStart`, `kbFullEnd`, `kbEnd` its bounds.
* `unsplitTiles`, `forTiles` — the tiles of the loops, in order.
* `naxBlock` — the block of a threadgroup.

## Main results

* `NaxBlock.unsplitTiles_eq` — both pipelines visit the same tiles in the same order.
* `NaxBlock.visible_imp_mem` — a key that a row sees is in a tile that is visited.
-/

namespace VllmMetal
namespace Attention

/-! ### Loops -/

/-- The tiles of `for (int kb = start; kb < stop; kb++)`. -/
def forTiles (kb stop : ℤ) : List ℤ :=
  if kb < stop then kb :: forTiles (kb + 1) stop else []
termination_by (stop - kb).toNat

theorem mem_forTiles {lo hi kb : ℤ} : kb ∈ forTiles lo hi ↔ lo ≤ kb ∧ kb < hi := by
  fun_induction forTiles lo hi with
  | case1 lo h ih =>
    rw [List.mem_cons, ih]
    omega
  | case2 lo h =>
    simp only [List.not_mem_nil, false_iff]
    omega

theorem length_forTiles (lo hi : ℤ) : ((forTiles lo hi).length : ℤ) = max 0 (hi - lo) := by
  fun_induction forTiles lo hi with
  | case1 lo h ih =>
    rw [List.length_cons]
    omega
  | case2 lo h =>
    rw [List.length_nil]
    omega

/-- Consecutive loops are one loop. -/
theorem forTiles_append {lo mid hi : ℤ} (hlo : lo ≤ mid) (hhi : mid ≤ hi) :
    forTiles lo mid ++ forTiles mid hi = forTiles lo hi := by
  fun_induction forTiles lo mid with
  | case1 lo h ih =>
    conv_rhs => rw [forTiles, if_pos (by omega)]
    rw [List.cons_append, ih (by omega)]
  | case2 lo h =>
    obtain rfl : lo = mid := by omega
    rfl

/-! ### Blocks -/

/-- `BQ`. -/
def naxBQ : ℤ := 64

/-- `TILE_KV`. -/
def naxTileKv : ℤ := 32

/-- A block of query rows: the keys and the queries of its segment, the position of its first row
among the queries, and the window, if it is not negative. -/
structure NaxBlock where
  seqLen : ℤ
  curBatchQueryLen : ℤ
  qPosStart : ℤ
  slidingWindow : ℤ
  deriving DecidableEq

namespace NaxBlock

/-- `context_len`. -/
def contextLen (b : NaxBlock) : ℤ := b.seqLen - b.curBatchQueryLen

/-- `valid_q`. -/
def validQ (b : NaxBlock) : ℤ := min naxBQ (b.curBatchQueryLen - b.qPosStart)

/-- `row_lim` of a simdgroup. -/
def rowLim (b : NaxBlock) (sg : ℤ) : ℤ := b.validQ - sg * 16

/-- `q_abs_sg`, `min_q_abs_sg`. -/
def qAbsSg (b : NaxBlock) (sg : ℤ) : ℤ := b.contextLen + b.qPosStart + sg * 16

/-- The position of the last row. -/
def lastRow (b : NaxBlock) : ℤ := b.contextLen + b.qPosStart + b.validQ - 1

/-- `kb_start`. -/
def kbStart (b : NaxBlock) : ℤ :=
  if 0 ≤ b.slidingWindow then
    max 0 ((b.contextLen + b.qPosStart + 1 - b.slidingWindow).tdiv naxTileKv)
  else 0

/-- `num_kv_tiles`. -/
def numKvTiles (b : NaxBlock) : ℤ := (b.seqLen + naxTileKv - 1).tdiv naxTileKv

/-- `kb_end`. -/
def kbEnd (b : NaxBlock) : ℤ := min b.numKvTiles (b.lastRow.tdiv naxTileKv + 1)

/-- `kb_full_end`. -/
def kbFullEnd (b : NaxBlock) : ℤ :=
  if b.validQ = naxBQ then max b.kbStart (min b.kbEnd (b.seqLen.tdiv naxTileKv)) else b.kbStart

/-- The bounds of both loops of the split pipeline, as a simdgroup computes them. -/
def splitBounds (b : NaxBlock) (_sg : ℤ) : ℤ × ℤ × ℤ := (b.kbStart, b.kbFullEnd, b.kbEnd)

/-- The loop of the unsplit pipeline from `kb` on. -/
def unsplitFrom (b : NaxBlock) (kb : ℤ) : List ℤ :=
  if kb < b.numKvTiles then
    if b.lastRow < kb * naxTileKv then []
    else kb :: b.unsplitFrom (kb + 1)
  else []
termination_by (b.numKvTiles - kb).toNat

/-- The tiles the unsplit pipeline visits. -/
def unsplitTiles (b : NaxBlock) : List ℤ := b.unsplitFrom b.kbStart

/-- Whether the row at position `qAbs` sees a key. -/
def Visible (b : NaxBlock) (qAbs kvPos : ℤ) : Prop :=
  kvPos ≤ qAbs ∧ kvPos < b.seqLen ∧ (0 ≤ b.slidingWindow → qAbs + 1 - b.slidingWindow ≤ kvPos)

/-- A block that does not return: it has a first row, and its segment no more queries than keys. -/
structure WellFormed (b : NaxBlock) : Prop where
  qPosStart_nonneg : 0 ≤ b.qPosStart
  qPosStart_lt : b.qPosStart < b.curBatchQueryLen
  query_le : b.curBatchQueryLen ≤ b.seqLen

/-! ### Bounds -/

variable {b : NaxBlock}

theorem WellFormed.validQ_pos (h : b.WellFormed) : 0 < b.validQ := by
  have := h.qPosStart_lt
  unfold validQ naxBQ
  omega

theorem WellFormed.lastRow_nonneg (h : b.WellFormed) : 0 ≤ b.lastRow := by
  have := h.validQ_pos
  have := h.query_le
  have := h.qPosStart_nonneg
  unfold lastRow contextLen
  omega

theorem lastRow_lt (b : NaxBlock) : b.lastRow < b.seqLen := by
  have : b.validQ ≤ b.curBatchQueryLen - b.qPosStart := min_le_right _ _
  unfold lastRow contextLen
  omega

/-- The first tile: the one before the window of the first row closes. -/
theorem kbStart_eq (b : NaxBlock) : b.kbStart =
    if 0 ≤ b.slidingWindow then max 0 ((b.contextLen + b.qPosStart + 1 - b.slidingWindow) / 32)
    else 0 := by
  unfold kbStart naxTileKv
  split
  · rcases Int.le_total 0 (b.contextLen + b.qPosStart + 1 - b.slidingWindow) with h | h
    · rw [Int.tdiv_eq_ediv_of_nonneg h]
    · -- division truncates towards zero, and the maximum takes both
      have htrunc : (b.contextLen + b.qPosStart + 1 - b.slidingWindow).tdiv 32 =
          -(-(b.contextLen + b.qPosStart + 1 - b.slidingWindow) / 32) := by
        rw [← Int.tdiv_eq_ediv_of_nonneg (by omega), Int.neg_tdiv, neg_neg]
      omega
  · rfl

/-- **The end is the tile behind the last row**: there are always that many. -/
theorem WellFormed.kbEnd_eq (h : b.WellFormed) : b.kbEnd = b.lastRow / 32 + 1 := by
  have hlast := h.lastRow_nonneg
  have hlt := b.lastRow_lt
  unfold kbEnd numKvTiles naxTileKv
  rw [Int.tdiv_eq_ediv_of_nonneg (by omega), Int.tdiv_eq_ediv_of_nonneg hlast]
  omega

theorem WellFormed.kbStart_le_kbEnd (h : b.WellFormed) : b.kbStart ≤ b.kbEnd := by
  have hvalid := h.validQ_pos
  have hlast := h.lastRow_nonneg
  rw [h.kbEnd_eq, kbStart_eq]
  unfold lastRow at hlast ⊢
  split <;> omega

/-- The two loops of the split pipeline are consecutive. -/
theorem WellFormed.kbFullEnd_mem (h : b.WellFormed) :
    b.kbStart ≤ b.kbFullEnd ∧ b.kbFullEnd ≤ b.kbEnd := by
  have hle := h.kbStart_le_kbEnd
  unfold kbFullEnd
  split <;> omega

/-- The unsplit loop stops where the split pipeline computes its end. -/
theorem WellFormed.unsplitFrom_eq (h : b.WellFormed) (kb : ℤ) :
    b.unsplitFrom kb = forTiles kb b.kbEnd := by
  have hend := h.kbEnd_eq
  have hmin : b.kbEnd ≤ b.numKvTiles := min_le_left _ _
  fun_induction unsplitFrom b kb with
  | case1 kb hlt hbreak =>
    rw [forTiles, if_neg]
    unfold naxTileKv at hbreak
    omega
  | case2 kb hlt hbreak ih =>
    rw [ih]
    conv_rhs => rw [forTiles]
    unfold naxTileKv at hbreak
    rw [if_pos (by omega)]
  | case3 kb hlt =>
    rw [forTiles, if_neg (by omega)]

/-- **Both pipelines visit the same tiles in the same order.** -/
theorem WellFormed.unsplitTiles_eq (h : b.WellFormed) :
    b.unsplitTiles = forTiles b.kbStart b.kbFullEnd ++ forTiles b.kbFullEnd b.kbEnd := by
  rw [forTiles_append h.kbFullEnd_mem.1 h.kbFullEnd_mem.2]
  exact h.unsplitFrom_eq _

/-- **A key that a row of the block sees is in a tile that is visited.** -/
theorem WellFormed.mem_of_visible (h : b.WellFormed) {row kb kvPos : ℤ} (hrow : 0 ≤ row)
    (hrow' : row < b.validQ) (hkb : 0 ≤ kb) (hlo : kb * 32 ≤ kvPos) (hhi : kvPos < kb * 32 + 32)
    (hvisible : b.Visible (b.contextLen + b.qPosStart + row) kvPos) : kb ∈ b.unsplitTiles := by
  obtain ⟨hcausal, -, hwindow⟩ := hvisible
  have hend := h.kbEnd_eq
  have hstart := b.kbStart_eq
  rw [unsplitTiles, h.unsplitFrom_eq, mem_forTiles]
  unfold lastRow at hend
  constructor
  · rw [hstart]
    split
    · next hsw =>
      have := hwindow hsw
      omega
    · exact hkb
  · omega

/-- The tiles of the first loop: a full block, and no key behind the segment. -/
theorem WellFormed.full_of_mem (h : b.WellFormed) {kb : ℤ}
    (hkb : kb ∈ forTiles b.kbStart b.kbFullEnd) :
    b.validQ = naxBQ ∧ 0 ≤ kb ∧ kb * 32 + 32 ≤ b.seqLen := by
  rw [mem_forTiles] at hkb
  have hseq : 0 ≤ b.seqLen := by
    have := h.lastRow_nonneg
    have := b.lastRow_lt
    omega
  have hstart : 0 ≤ b.kbStart := by
    rw [kbStart_eq]
    split <;> omega
  have hfull : b.kbFullEnd = if b.validQ = naxBQ then
      max b.kbStart (min b.kbEnd (b.seqLen.tdiv naxTileKv)) else b.kbStart := rfl
  unfold naxTileKv at hfull
  rw [Int.tdiv_eq_ediv_of_nonneg hseq] at hfull
  split at hfull
  · next hvalid => exact ⟨hvalid, by omega, by omega⟩
  · omega

end NaxBlock

/-! ### Threadgroups -/

/-- The block of a threadgroup, unless it returns. -/
def naxBlock (cuSeqlensQ contextLens : List ℕ) (numSeqs : ℕ) (slidingWindow : ℤ)
    (qBlockGlobalIdx : ℕ) : Option NaxBlock :=
  let seqIdx := qBlockSegment 64 cuSeqlensQ numSeqs qBlockGlobalIdx
  let qSeqStart := cuSeqlensQ.getD seqIdx 0
  let curBatchQueryLen := cuSeqlensQ.getD (seqIdx + 1) 0 - qSeqStart
  let qPosStart := (qBlockGlobalIdx - (qSeqStart / 64 + seqIdx)) * 64
  if curBatchQueryLen ≤ qPosStart then none
  else some ⟨contextLens.getD seqIdx 0, curBatchQueryLen, qPosStart, slidingWindow⟩

end Attention
end VllmMetal
