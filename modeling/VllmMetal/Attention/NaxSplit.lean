import VllmMetal.Attention.NaxTiles
import Mathlib.Algebra.BigOperators.Group.Finset.Basic
import Mathlib.Algebra.Field.Rat
import Mathlib.Algebra.Order.Ring.Rat

/-!
# The split pipeline of the NAX kernel

One tile of the online softmax, row by row: the keys and values it reads, the scores it masks, and
what it makes of the running maximum, sum and output of a row.  The tile of the first loop of the
split pipeline has no guards; the one of the second loop, and the body of the unsplit loop, guard
the query rows, the key rows and the mask.

Numbers are those of a field; exponential, tangent and the masked score are parameters.

## Main definitions

* `NaxLaunch` — the arrays and numbers of a launch, for one head.
* `naxKvTile`, `unsplitKvTile` — the tile of the split pipeline, with or without guards, and the
  loop body of the unsplit one.
* `splitLoop`, `unsplitLoop` — the pipelines.

## Main results

* `NaxLaunch.naxKvTile_unguarded` — where the first loop runs, a tile needs no guards.
* `nax_split_equals_unsplit` — the split pipeline does the work of the unsplit one.
-/

namespace VllmMetal
namespace Attention

/-- The arrays and numbers of a launch, for one head of one sequence; `qBase` is the first row of
each simdgroup. -/
structure NaxLaunch (K : Type) where
  headSize : ℕ
  blockSize : ℤ
  q : ℤ → K
  kCache : ℤ → K
  vCache : ℤ → K
  blockTables : ℤ → ℤ
  btRow : ℤ
  qBase : ℤ → ℤ
  qStride : ℤ
  kvBlockStride : ℤ
  kvTokenStride : ℤ
  kvHeadIdx : ℤ
  kvHeadStride : ℤ
  scaleLog2 : K
  softcapping : K
  log2e : K
  finiteMin : K
  exp2 : K → K
  tanh : K → K

/-- The running state of a row. -/
structure NaxRow (K : Type) where
  out : ℕ → K
  maxScore : K
  sumScore : K

variable {K : Type} [Field K] [LinearOrder K]

namespace NaxLaunch

variable (l : NaxLaunch K) (b : NaxBlock)

/-! ### What a tile reads -/

/-- The base of the eight tokens from `tok` on. -/
def halfBase (tok : ℤ) : ℤ :=
  l.blockTables (l.btRow + tok / l.blockSize) * l.kvBlockStride +
    tok % l.blockSize * l.kvTokenStride + l.kvHeadIdx * l.kvHeadStride

/-- The base and the valid rows of half `h` of a tile. -/
def naxHalf (guarded : Bool) (tileStart : ℤ) (h : ℤ) : ℤ × ℤ :=
  let tok := tileStart + h * 8
  if !guarded || tok < b.seqLen then
    (l.halfBase tok, if guarded then min 8 (b.seqLen - tok) else 8)
  else (0, 0)

/-- Where row `col` of a tile starts in the caches, if it is valid. -/
def naxKvRow (guarded : Bool) (tileStart : ℤ) (col : ℤ) : Option ℤ :=
  let half := l.naxHalf b guarded tileStart (col / 8)
  if !guarded || col % 8 < half.2 then some (half.1 + col % 8 * l.kvTokenStride) else none

/-- The same in the unsplit loop. -/
def unsplitKvRow (tileStart : ℤ) (col : ℤ) : Option ℤ :=
  let tok := tileStart + col / 8 * 8
  let half := if tok < b.seqLen then (l.halfBase tok, min 8 (b.seqLen - tok)) else (0, 0)
  if col % 8 < half.2 then some (half.1 + col % 8 * l.kvTokenStride) else none

/-- Element `d` of a row of a cache, zero where the row is not valid. -/
def readRow (cache : ℤ → K) (row : Option ℤ) (d : ℤ) : K :=
  match row with
  | some start => cache (start + d)
  | none => 0

/-- Where query row `row` of a simdgroup starts, if it is valid. -/
def naxQRow (guarded : Bool) (sg row : ℤ) : Option ℤ :=
  if !guarded || row < b.rowLim sg then some (l.qBase sg + row * l.qStride) else none

/-! ### Scores -/

/-- `S = Q K^T`. -/
def rawScore (qRow kRow : Option ℤ) : K :=
  ∑ d ∈ Finset.range l.headSize, readRow l.q qRow d * readRow l.kCache kRow d

/-- A score with its scale and softcap. -/
def softcapped (s : K) : K :=
  let s := s * l.scaleLog2
  if 0 < l.softcapping then l.softcapping * l.tanh (s / l.log2e / l.softcapping) * l.log2e else s

/-- The masked score of a row and a column, from what the tile reads. -/
def naxScore (guarded : Bool) (tileStart sg row col : ℤ) (qRow kRow : Option ℤ) : K :=
  let tileNoMask := decide (tileStart + naxTileKv - 1 < b.qAbsSg sg) &&
    decide (l.softcapping ≤ 0) && decide (b.slidingWindow < 0) &&
    (!guarded || (decide (tileStart + naxTileKv ≤ b.seqLen) && decide (16 ≤ b.rowLim sg)))
  if tileNoMask then l.rawScore qRow kRow * l.scaleLog2
  else
    let qAbs := b.qAbsSg sg + row
    let kvPos := tileStart + col
    let masked := decide (qAbs < kvPos)
    let masked := if guarded then
      masked || decide (b.rowLim sg ≤ row) || decide (b.seqLen ≤ kvPos) else masked
    let masked := if 0 ≤ b.slidingWindow then
      masked || decide (kvPos < qAbs + 1 - b.slidingWindow) else masked
    if masked then l.finiteMin else l.softcapped (l.rawScore qRow kRow)

/-- The same in the unsplit loop. -/
def unsplitScore (tileStart sg row col : ℤ) (qRow kRow : Option ℤ) : K :=
  let tileNoMask := decide (tileStart + naxTileKv - 1 < b.qAbsSg sg) &&
    decide (tileStart + naxTileKv ≤ b.seqLen) && decide (l.softcapping ≤ 0) &&
    decide (b.slidingWindow < 0) && decide (16 ≤ b.rowLim sg)
  if tileNoMask then l.rawScore qRow kRow * l.scaleLog2
  else
    let qAbs := b.contextLen + b.qPosStart + sg * 16 + row
    let kvPos := tileStart + col
    let masked := decide (b.rowLim sg ≤ row) || decide (qAbs < kvPos) || decide (b.seqLen ≤ kvPos)
    let masked := if 0 ≤ b.slidingWindow then
      masked || decide (kvPos < qAbs + 1 - b.slidingWindow) else masked
    if masked then l.finiteMin else l.softcapped (l.rawScore qRow kRow)

/-! ### Tiles -/

/-- The columns of a tile. -/
def tileCols : List ℤ := (List.range 32).map fun c : ℕ => (c : ℤ)

/-- The online softmax of a row over a tile: its masked scores, and the values of its columns. -/
def onlineSoftmax (score : ℤ → K) (vRow : ℤ → Option ℤ) (state : NaxRow K) : NaxRow K :=
  let newMax := (tileCols.map score).foldl max state.maxScore
  let factor := l.exp2 (state.maxScore - newMax)
  let p := fun col => if score col = l.finiteMin then 0 else l.exp2 (score col - newMax)
  { out := fun d => state.out d * factor +
      (tileCols.map fun col => p col * readRow l.vCache (vRow col) d).sum
    maxScore := newMax
    sumScore := state.sumScore * factor + (tileCols.map p).sum }

/-- `nax_kv_tile` for a row of a simdgroup. -/
def naxKvTile (guarded : Bool) (tileStart sg row : ℤ) : NaxRow K → NaxRow K :=
  let kvRow := l.naxKvRow b guarded tileStart
  l.onlineSoftmax
    (fun col => l.naxScore b guarded tileStart sg row col (l.naxQRow b guarded sg row) (kvRow col))
    kvRow

/-- The loop body of the unsplit pipeline. -/
def unsplitKvTile (tileStart sg row : ℤ) : NaxRow K → NaxRow K :=
  let kvRow := l.unsplitKvRow b tileStart
  let qRow := if row < b.rowLim sg then some (l.qBase sg + row * l.qStride) else none
  l.onlineSoftmax (fun col => l.unsplitScore b tileStart sg row col qRow (kvRow col)) kvRow

/-- Both loops of the split pipeline. -/
def splitLoop (sg row : ℤ) (state : NaxRow K) : NaxRow K :=
  let bounds := b.splitBounds sg
  let state := (forTiles bounds.1 bounds.2.1).foldl
    (fun state kb => l.naxKvTile b false (kb * naxTileKv) sg row state) state
  (forTiles bounds.2.1 bounds.2.2).foldl
    (fun state kb => l.naxKvTile b true (kb * naxTileKv) sg row state) state

/-- The loop of the unsplit pipeline. -/
def unsplitLoop (sg row : ℤ) (state : NaxRow K) : NaxRow K :=
  b.unsplitTiles.foldl (fun state kb => l.unsplitKvTile b (kb * naxTileKv) sg row state) state

/-! ### The guarded tile is the unsplit one -/

variable {b}

omit [LinearOrder K] [Field K] in
theorem unsplitKvRow_eq (tileStart col : ℤ) :
    l.unsplitKvRow b tileStart col = l.naxKvRow b true tileStart col := by
  unfold unsplitKvRow naxKvRow naxHalf
  simp only [Bool.not_true, Bool.false_or, decide_eq_true_eq, if_true]

theorem unsplitScore_eq (tileStart sg row col : ℤ) (qRow kRow : Option ℤ) :
    l.unsplitScore b tileStart sg row col qRow kRow =
      l.naxScore b true tileStart sg row col qRow kRow := by
  unfold unsplitScore naxScore
  simp only [Bool.not_true, Bool.false_or, if_true]
  have hnomask : ∀ a b c d e : Bool, (a && b && c && d && e) = (a && c && d && (b && e)) := by
    decide
  have hmasked : ∀ a b c : Bool, (a || b || c) = (b || a || c) := by decide
  rw [hnomask, hmasked (decide (b.rowLim sg ≤ row))]
  rfl

theorem unsplitKvTile_eq (tileStart sg row : ℤ) :
    l.unsplitKvTile b tileStart sg row = l.naxKvTile b true tileStart sg row := by
  unfold unsplitKvTile naxKvTile naxQRow
  simp only [unsplitScore_eq, Bool.not_true, Bool.false_or, decide_eq_true_eq]
  have hkv : l.unsplitKvRow b tileStart = l.naxKvRow b true tileStart :=
    funext fun col => l.unsplitKvRow_eq tileStart col
  rw [hkv]

/-! ### A tile without guards -/

/-- A tile is what its columns are. -/
theorem onlineSoftmax_congr {score score' : ℤ → K} {vRow vRow' : ℤ → Option ℤ}
    (hscore : ∀ col ∈ tileCols, score col = score' col)
    (hv : ∀ col ∈ tileCols, vRow col = vRow' col) :
    l.onlineSoftmax score vRow = l.onlineSoftmax score' vRow' := by
  funext state
  have hmax : tileCols.map score = tileCols.map score' := List.map_congr_left hscore
  unfold onlineSoftmax
  simp only [hmax, NaxRow.mk.injEq, true_and]
  constructor
  · funext d
    congr 2
    exact List.map_congr_left fun col hcol => by rw [hscore col hcol, hv col hcol]
  · congr 2
    exact List.map_congr_left fun col hcol => by rw [hscore col hcol]

section Unguarded

variable {tileStart : ℤ} (hend : tileStart + 32 ≤ b.seqLen)
include hend

omit [LinearOrder K] [Field K] in
/-- Every key row of a tile within the segment is valid. -/
theorem naxKvRow_unguarded {col : ℤ} (hcol : 0 ≤ col) (hcol' : col < 32) :
    l.naxKvRow b false tileStart col = l.naxKvRow b true tileStart col := by
  have htok : tileStart + col / 8 * 8 < b.seqLen := by omega
  have hrows : col % 8 < min 8 (b.seqLen - (tileStart + col / 8 * 8)) := by omega
  unfold naxKvRow naxHalf
  simp only [Bool.not_false, Bool.true_or, Bool.not_true, Bool.false_or, if_true,
    decide_eq_true_eq, if_pos htok, if_pos hrows]

omit hend in
omit [LinearOrder K] [Field K] in
/-- Every query row of a full block is valid. -/
theorem naxQRow_unguarded {sg row : ℤ} (hrow : row < b.rowLim sg) :
    l.naxQRow b false sg row = l.naxQRow b true sg row := by
  unfold naxQRow
  simp only [Bool.not_false, Bool.true_or, Bool.not_true, Bool.false_or, if_true,
    decide_eq_true_eq, if_pos hrow]

/-- The guards of the mask hold. -/
theorem naxScore_unguarded {sg row col : ℤ} (hlim : 16 ≤ b.rowLim sg) (hrow : row < 16)
    (hcol' : col < 32) (qRow kRow : Option ℤ) :
    l.naxScore b false tileStart sg row col qRow kRow =
      l.naxScore b true tileStart sg row col qRow kRow := by
  have hrow' : ¬b.rowLim sg ≤ row := by omega
  have hkv : ¬b.seqLen ≤ tileStart + col := by omega
  have hend' : tileStart + naxTileKv ≤ b.seqLen := hend
  unfold naxScore
  simp only [decide_eq_true hend', decide_eq_true hlim, decide_eq_false hrow', decide_eq_false hkv,
    Bool.not_false, Bool.not_true, Bool.true_or, Bool.false_or, Bool.and_true, Bool.or_false,
    Bool.false_eq_true, if_true, if_false]

/-- **A tile within the segment, of a simdgroup whose rows are all valid, needs no guards.** -/
theorem naxKvTile_unguarded {sg row : ℤ} (hlim : 16 ≤ b.rowLim sg) (hrow : row < 16) :
    l.naxKvTile b false tileStart sg row = l.naxKvTile b true tileStart sg row := by
  have hcols : ∀ col ∈ tileCols, 0 ≤ col ∧ col < 32 := by
    intro col hcol
    obtain ⟨c, hc, rfl⟩ := List.mem_map.mp hcol
    rw [List.mem_range] at hc
    omega
  have hkv : ∀ col ∈ tileCols, l.naxKvRow b false tileStart col = l.naxKvRow b true tileStart col :=
    fun col hcol => l.naxKvRow_unguarded hend (hcols col hcol).1 (hcols col hcol).2
  have hscore : ∀ col ∈ tileCols,
      l.naxScore b false tileStart sg row col (l.naxQRow b false sg row)
          (l.naxKvRow b false tileStart col) =
        l.naxScore b true tileStart sg row col (l.naxQRow b true sg row)
          (l.naxKvRow b true tileStart col) := by
    intro col hcol
    rw [hkv col hcol, l.naxQRow_unguarded (by omega),
      l.naxScore_unguarded hend hlim hrow (hcols col hcol).2]
  exact l.onlineSoftmax_congr hscore hkv

end Unguarded

/-! ### The pipelines -/

/-- **Both pipelines compute the same of a row.** -/
theorem splitLoop_eq (h : b.WellFormed) {sg row : ℤ} (hsg : 0 ≤ sg) (hsg' : sg < 4)
    (hrow : row < 16)
    (state : NaxRow K) : l.splitLoop b sg row state = l.unsplitLoop b sg row state := by
  unfold splitLoop unsplitLoop NaxBlock.splitBounds
  dsimp only
  rw [h.unsplitTiles_eq, List.foldl_append]
  simp only [unsplitKvTile_eq]
  congr 1
  refine List.foldl_ext _ _ state fun state kb hkb => ?_
  obtain ⟨hvalid, -, hend⟩ := h.full_of_mem hkb
  unfold naxTileKv
  rw [l.naxKvTile_unguarded hend]
  · unfold NaxBlock.rowLim
    rw [hvalid]
    unfold naxBQ
    omega
  · exact hrow

end NaxLaunch

/-- **The split pipeline does the work of the unsplit one.**  For a block of 64 rows of any segment
and any window: its two loops are consecutive and visit the tiles the unsplit loop visits, in the
same order; in the first one all rows are valid and all keys within the segment, so that its tiles
read the same query, key and value rows and mask the same scores as tiles with guards; a key that a
row sees is in a tile that is visited; the bounds of the loops do not depend on the simdgroup; and
both pipelines leave every row in the same state. -/
theorem nax_split_equals_unsplit (l : NaxLaunch K) {b : NaxBlock} (h : b.WellFormed) :
    (b.kbStart ≤ b.kbFullEnd ∧ b.kbFullEnd ≤ b.kbEnd ∧
      forTiles b.kbStart b.kbFullEnd ++ forTiles b.kbFullEnd b.kbEnd = b.unsplitTiles) ∧
    (∀ kb ∈ forTiles b.kbStart b.kbFullEnd,
      (∀ sg row : ℤ, 0 ≤ sg → sg < 4 → 0 ≤ row → row < 16 → row < b.rowLim sg) ∧
      (∀ col : ℤ, 0 ≤ col → col < 32 → kb * naxTileKv + col < b.seqLen) ∧
      ∀ sg row : ℤ, 0 ≤ sg → sg < 4 → 0 ≤ row → row < 16 →
        l.naxQRow b false sg row = l.naxQRow b true sg row ∧
        (∀ col : ℤ, 0 ≤ col → col < 32 →
          l.naxKvRow b false (kb * naxTileKv) col = l.naxKvRow b true (kb * naxTileKv) col ∧
          ∀ qRow kRow, l.naxScore b false (kb * naxTileKv) sg row col qRow kRow =
            l.naxScore b true (kb * naxTileKv) sg row col qRow kRow) ∧
        l.naxKvTile b false (kb * naxTileKv) sg row = l.naxKvTile b true (kb * naxTileKv) sg row) ∧
    (∀ kb row kvPos : ℤ, 0 ≤ kb → kb ∉ b.unsplitTiles → 0 ≤ row → row < b.validQ →
      kb * naxTileKv ≤ kvPos → kvPos < kb * naxTileKv + naxTileKv →
      ¬b.Visible (b.contextLen + b.qPosStart + row) kvPos) ∧
    (∀ sg sg' : ℤ, b.splitBounds sg = b.splitBounds sg') ∧
    ∀ sg row : ℤ, 0 ≤ sg → sg < 4 → 0 ≤ row → row < 16 → ∀ state,
      l.splitLoop b sg row state = l.unsplitLoop b sg row state := by
  refine ⟨⟨h.kbFullEnd_mem.1, h.kbFullEnd_mem.2, h.unsplitTiles_eq.symm⟩, fun kb hkb => ?_,
    fun kb row kvPos hkb hskipped hrow hrow' hlo hhi hvisible => ?_, fun _ _ => rfl,
    fun sg row hsg hsg' _ hrow state => l.splitLoop_eq h hsg hsg' hrow state⟩
  -- a full tile is inside every bound, so its guards hold
  · obtain ⟨hvalid, -, hend⟩ := h.full_of_mem hkb
    have hlim : ∀ sg : ℤ, 0 ≤ sg → sg < 4 → 16 ≤ b.rowLim sg := by
      intro sg hsg hsg'
      unfold NaxBlock.rowLim
      rw [hvalid]
      unfold naxBQ
      omega
    refine ⟨fun sg row hsg hsg' _ hrow => ?_, fun col _ hcol => ?_,
      fun sg row hsg hsg' _ hrow => ?_⟩
    · have := hlim sg hsg hsg'
      omega
    · unfold naxTileKv
      omega
    · have hlim := hlim sg hsg hsg'
      refine ⟨l.naxQRow_unguarded (by omega), fun col hcol hcol' =>
        ⟨l.naxKvRow_unguarded hend hcol hcol',
          fun qRow kRow => l.naxScore_unguarded hend hlim hrow hcol' qRow kRow⟩,
        l.naxKvTile_unguarded hend hlim hrow⟩
  -- a tile outside the range has no key that a row sees
  · exact hskipped (h.mem_of_visible hrow hrow' hkb hlo hhi hvisible)

/-- A launch over a constant cache of one page. -/
def unitLaunch : NaxLaunch ℚ :=
  ⟨32, 16, fun i => i, fun i => i, fun i => i, fun _ => 0, 0, fun sg => sg * 512, 32, 512, 32, 0,
    32, 1, 0, 1, -1000, fun x => x + 1, id⟩

/-- A full block of a segment of 100 keys: three tiles without guards, and one with. -/
theorem nax_split_equals_unsplit_edge :
    (⟨100, 64, 0, 20⟩ : NaxBlock).kbFullEnd = 3 ∧ (⟨100, 64, 0, 20⟩ : NaxBlock).kbEnd = 4 ∧
      unitLaunch.splitLoop ⟨100, 64, 0, 20⟩ 1 5 ⟨fun _ => 0, -1000, 0⟩ =
        unitLaunch.unsplitLoop ⟨100, 64, 0, 20⟩ 1 5 ⟨fun _ => 0, -1000, 0⟩ := by
  have hblock : (⟨100, 64, 0, 20⟩ : NaxBlock).WellFormed := ⟨by simp, by simp, by simp⟩
  obtain ⟨-, -, -, -, hstates⟩ := nax_split_equals_unsplit unitLaunch hblock
  exact ⟨by decide, by decide, hstates 1 5 (by simp) (by simp) (by simp) (by simp) _⟩

end Attention
end VllmMetal
