import VllmMetal.Lib.Ragged
import Mathlib.Data.List.Nodup

/-!
# Work assignment of the attention kernels

Which packed query rows a threadgroup of each attention kernel computes.  The prefill kernels
take tiles of `BQ` rows of a segment, which they find by a search over the first tile of every
segment; the launch counts `total / BQ + num_seqs` tiles, more than there are.  The per-token
kernel takes one row, the window mode a few rows of a segment, and a mixed batch is launched in
two parts, its one-row segments in front of the others.

## Main definitions

* `qBlockPlan`, `qBlockRows` — the launch of the prefill kernels, and the rows of a q-block.
* `perTokenRow`, `gqaDecodeRow`, `windowRows` — the rows of the other threadgroups.
* `batchRows` — the rows of a batch, segment by segment.

## Main results

* `flatMap_qBlockRows` — the q-blocks from the first one of a segment on give the rows from
  that segment on.
* `every_query_row_once` — **every launch computes every row of its batch exactly once**.
-/

namespace VllmMetal
namespace Attention

/-! ### The launches -/

/-- The first q-block of every segment, the key of the search. -/
def qBlockKeys (BQ : ℕ) (cuSeqlensQ : List ℕ) : List ℕ :=
  cuSeqlensQ.mapIdx fun i cu => cu / BQ + i

/-- The segment that the search of a prefill kernel ends with. -/
def qBlockSegment (BQ : ℕ) (cuSeqlensQ : List ℕ) (numSeqs qBlockGlobalIdx : ℕ) : ℕ :=
  bisect (qBlockKeys BQ cuSeqlensQ) qBlockGlobalIdx numSeqs 0 numSeqs

/-- The rows of a q-block, as segments and positions: from `q_pos_start` on `valid_q` rows, or
none when the block returns. -/
def qBlockRows (BQ : ℕ) (cuSeqlensQ : List ℕ) (numSeqs qBlockGlobalIdx : ℕ) : List (ℕ × ℕ) :=
  let seqIdx := qBlockSegment BQ cuSeqlensQ numSeqs qBlockGlobalIdx
  let qSeqStart := cuSeqlensQ.getD seqIdx 0
  let curBatchQueryLen := cuSeqlensQ.getD (seqIdx + 1) 0 - qSeqStart
  let qBlockStart := qSeqStart / BQ + seqIdx
  let qPosStart := (qBlockGlobalIdx - qBlockStart) * BQ
  if curBatchQueryLen ≤ qPosStart then []
  else
    let validQ := min BQ (curBatchQueryLen - qPosStart)
    (List.range' qPosStart validQ).map fun pos => (seqIdx, pos)

/-- `make_tiled_attention_plan`, `make_nax_attention_plan`: the number of q-blocks, or `none`
for an offset that is out of range. -/
def qBlockPlan (BQ totalQTokens numSeqs qBlockOffset : ℕ) : Option ℕ :=
  let totalQBlocks := totalQTokens / BQ + numSeqs
  if totalQBlocks < qBlockOffset then none else some (totalQBlocks - qBlockOffset)

/-- The rows that a launch of a prefill kernel computes for a head, threadgroup by threadgroup. -/
def prefillLaunch (BQ : ℕ) (cuSeqlensQ : List ℕ) (numSeqs qBlocks qBlockOffset : ℕ) :
    List (ℕ × ℕ) :=
  (List.range qBlocks).flatMap fun y => qBlockRows BQ cuSeqlensQ numSeqs (y + qBlockOffset)

/-- The row of a threadgroup of the per-token kernel; `find_seq_idx` is the search for it. -/
def perTokenRow (cuSeqlensQ : List ℕ) (numSeqs qTokenIdx : ℕ) : ℕ × ℕ :=
  let seqIdx := searchSegment cuSeqlensQ qTokenIdx numSeqs
  (seqIdx, qTokenIdx - cuSeqlensQ.getD seqIdx 0)

/-- The row of a sequence in the GQA decode kernel, which reads query row `seq_idx`. -/
def gqaDecodeRow (cuSeqlensQ : List ℕ) (seqIdx : ℕ) : ℕ × ℕ :=
  (seqIdx, seqIdx - cuSeqlensQ.getD seqIdx 0)

/-- `window_q`: the sub-windows of a segment. -/
def windowQ (windowSeqlenQ windowRows : ℕ) : ℕ := (windowSeqlenQ + windowRows - 1) / windowRows

/-- The rows of a threadgroup in window mode, at most `PA_WINDOW_ROWS` of them. -/
def windowRows (paWindowRows windowQ : ℕ) (cuSeqlensQ : List ℕ) (y : ℕ) : List (ℕ × ℕ) :=
  let seqIdx := y / windowQ
  let rowStart := (y % windowQ) * paWindowRows
  let qLen := cuSeqlensQ.getD (seqIdx + 1) 0 - cuSeqlensQ.getD seqIdx 0
  let numRows := min (qLen - rowStart) paWindowRows
  (List.range' rowStart numRows).map fun pos => (seqIdx, pos)

/-- The heads of a launch with `headsPerTg` heads to a threadgroup. -/
def launchHeads (numHeads headsPerTg : ℕ) : List ℕ :=
  (List.range (numHeads / headsPerTg)).flatMap fun x =>
    (List.range headsPerTg).map fun sg => x * headsPerTg + sg

/-! ### The rows of a batch -/

/-- The rows of `count` segments from `first` on. -/
def segmentsRows (lens : List ℕ) (first count : ℕ) : List (ℕ × ℕ) :=
  (List.range' first count).flatMap fun s => (List.range (lens.getD s 0)).map fun pos => (s, pos)

/-- The rows of a batch, segment by segment. -/
def batchRows (lens : List ℕ) : List (ℕ × ℕ) := segmentsRows lens 0 lens.length

theorem segmentsRows_append (lens : List ℕ) (first m n : ℕ) :
    segmentsRows lens first m ++ segmentsRows lens (first + m) n =
      segmentsRows lens first (m + n) := by
  rw [segmentsRows, segmentsRows, segmentsRows, ← List.flatMap_append, List.range'_append_1]

theorem mem_segmentsRows {lens : List ℕ} {first count s pos : ℕ} :
    (s, pos) ∈ segmentsRows lens first count ↔
      first ≤ s ∧ s < first + count ∧ pos < lens.getD s 0 := by
  rw [segmentsRows, List.mem_flatMap]
  constructor
  · rintro ⟨s', hs', hpos⟩
    obtain ⟨pos', hpos', heq⟩ := List.mem_map.mp hpos
    obtain ⟨rfl, rfl⟩ := Prod.mk.inj heq
    rw [List.mem_range'_1] at hs'
    exact ⟨hs'.1, hs'.2, List.mem_range.mp hpos'⟩
  · rintro ⟨hlo, hhi, hpos⟩
    exact ⟨s, List.mem_range'_1.mpr ⟨hlo, hhi⟩,
      List.mem_map.mpr ⟨pos, List.mem_range.mpr hpos, rfl⟩⟩

theorem nodup_segmentsRows (lens : List ℕ) (first count : ℕ) :
    (segmentsRows lens first count).Nodup := by
  rw [segmentsRows, List.nodup_flatMap]
  refine ⟨fun s _ => ?_, ?_⟩
  · exact List.nodup_range.map fun pos pos' h => (Prod.mk.inj h).2
  · refine (@List.nodup_range' first count 1 Nat.one_pos).pairwise_of_forall_ne
      fun s _ s' _ hne => ?_
    refine fun row hrow hrow' => hne ?_
    obtain ⟨pos, -, rfl⟩ := List.mem_map.mp hrow
    obtain ⟨pos', -, heq⟩ := List.mem_map.mp hrow'
    exact (Prod.mk.inj heq).1.symm

/-! ### Prefill kernels -/

section Prefill

variable {lens : List ℕ} {BQ : ℕ}

theorem getD_qBlockKeys {s : ℕ} (hs : s ≤ lens.length) :
    (qBlockKeys BQ (boundaries lens)).getD s 0 = (boundaries lens).getD s 0 / BQ + s := by
  have hlt : s < (boundaries lens).length := by
    rw [length_boundaries]
    omega
  rw [qBlockKeys, List.getD_eq_getElem?_getD, List.getElem?_mapIdx,
    List.getD_eq_getElem?_getD, List.getElem?_eq_getElem hlt]
  rfl

/-- The first q-blocks of the segments are strictly increasing, so that a search among them
finds the segment of a q-block. -/
theorem qBlockSegment_eq {s y : ℕ} (hs : s < lens.length)
    (hlo : (boundaries lens).getD s 0 / BQ + s ≤ y)
    (hhi : y < (boundaries lens).getD (s + 1) 0 / BQ + (s + 1)) :
    qBlockSegment BQ (boundaries lens) lens.length y = s := by
  refine bisect_eq (fun i j hij hj => ?_) hs ?_ ?_
  · rw [getD_qBlockKeys (by omega), getD_qBlockKeys hj]
    exact Nat.add_le_add (Nat.div_le_div_right (getD_boundaries_mono hij hj)) hij
  · rwa [getD_qBlockKeys (by omega)]
  · rwa [getD_qBlockKeys (by omega)]

/-- The q-blocks of a segment are enough for its rows. -/
theorem len_le_qBlocks (hBQ : 0 < BQ) {s n : ℕ} (hs : lens[s]? = some n) :
    (boundaries lens).getD s 0 / BQ + s < (boundaries lens).getD (s + 1) 0 / BQ + (s + 1) ∧
    n ≤ ((boundaries lens).getD (s + 1) 0 / BQ + (s + 1) -
      ((boundaries lens).getD s 0 / BQ + s)) * BQ := by
  rw [getD_boundaries_succ hs]
  set c := (boundaries lens).getD s 0 with hc
  have hle : c / BQ ≤ (c + n) / BQ := Nat.div_le_div_right (Nat.le_add_right c n)
  refine ⟨by omega, ?_⟩
  have hdiv := Nat.div_add_mod (c + n) BQ
  have hmod := Nat.mod_lt (c + n) hBQ
  have hdiv' := Nat.div_mul_le_self c BQ
  obtain ⟨d, hd⟩ := Nat.exists_eq_add_of_le hle
  have hcount : (c + n) / BQ + (s + 1) - (c / BQ + s) = d + 1 := by omega
  rw [hcount, Nat.succ_mul]
  rw [hd, Nat.mul_comm, Nat.add_mul] at hdiv
  omega

/-- The q-blocks of a segment are its tiles, and empty ones. -/
theorem flatMap_qBlocks_segment {α : Type*} (hBQ : 0 < BQ) {tile : ℕ → ℕ → List α}
    (htile : ∀ s t, lens.getD s 0 ≤ t * BQ → tile s t = []) {s : ℕ} (hs : s < lens.length) :
    (List.range' ((boundaries lens).getD s 0 / BQ + s)
      ((boundaries lens).getD (s + 1) 0 / BQ + (s + 1) -
        ((boundaries lens).getD s 0 / BQ + s))).flatMap (fun y =>
          tile (qBlockSegment BQ (boundaries lens) lens.length y)
            (y - ((boundaries lens).getD (qBlockSegment BQ (boundaries lens) lens.length y) 0 / BQ +
              qBlockSegment BQ (boundaries lens) lens.length y))) =
      (List.range ((lens.getD s 0 + BQ - 1) / BQ)).flatMap (tile s) := by
  have hlen : lens[s]? = some (lens.getD s 0) := by
    rw [List.getD_eq_getElem?_getD, List.getElem?_eq_getElem hs, Option.getD_some]
  obtain ⟨hlt, hcover⟩ := len_le_qBlocks hBQ hlen
  set first := (boundaries lens).getD s 0 / BQ + s with hfirst
  set count := (boundaries lens).getD (s + 1) 0 / BQ + (s + 1) - first with hcount
  have hrange : List.range' first count = (List.range count).map fun t => first + t := by
    rw [List.range_eq_range', List.map_add_range', Nat.add_zero]
  -- the search finds the segment for each of its q-blocks
  have hblock : ∀ t ∈ List.range count, tile
        (qBlockSegment BQ (boundaries lens) lens.length (first + t))
        (first + t - ((boundaries lens).getD
          (qBlockSegment BQ (boundaries lens) lens.length (first + t)) 0 / BQ +
            qBlockSegment BQ (boundaries lens) lens.length (first + t))) = tile s t := by
    intro t ht
    rw [List.mem_range] at ht
    rw [qBlockSegment_eq hs (Nat.le_add_right _ _) (by omega), ← hfirst, Nat.add_sub_cancel_left]
  -- the q-blocks of a segment are at least its tiles
  have hceil : (lens.getD s 0 + BQ - 1) / BQ ≤ count := by
    refine Nat.lt_succ_iff.mp (Nat.div_lt_of_lt_mul ?_)
    rw [Nat.mul_succ, Nat.mul_comm]
    omega
  rw [hrange, List.flatMap_map, List.flatMap_congr hblock]
  refine flatMap_range_of_nil hceil fun t ht _ => htile s t ?_
  have hdiv := Nat.lt_div_mul_add hBQ (a := lens.getD s 0 + BQ - 1)
  have hmul : (lens.getD s 0 + BQ - 1) / BQ * BQ ≤ t * BQ := Nat.mul_le_mul_right BQ ht
  omega

/-- **The q-blocks from the first one of a segment on are the tiles of the segments from it on.** -/
theorem flatMap_qBlocks {α : Type*} (hBQ : 0 < BQ) {tile : ℕ → ℕ → List α}
    (htile : ∀ s t, lens.getD s 0 ≤ t * BQ → tile s t = []) {first count : ℕ}
    (hcount : first + count = lens.length) :
    (List.range' ((boundaries lens).getD first 0 / BQ + first)
      (lens.sum / BQ + lens.length - ((boundaries lens).getD first 0 / BQ + first))).flatMap
        (fun y => tile (qBlockSegment BQ (boundaries lens) lens.length y)
          (y - ((boundaries lens).getD (qBlockSegment BQ (boundaries lens) lens.length y) 0 / BQ +
            qBlockSegment BQ (boundaries lens) lens.length y))) =
      (List.range' first count).flatMap fun s =>
        (List.range ((lens.getD s 0 + BQ - 1) / BQ)).flatMap (tile s) := by
  -- induction on the segments left, with the first one free
  induction count generalizing first with
  | zero =>
    obtain rfl : first = lens.length := hcount
    rw [getD_boundaries (Nat.le_refl _), List.take_length, Nat.sub_self]
    rfl
  | succ count ih =>
    have hs : first < lens.length := by omega
    have hlen : lens[first]? = some (lens.getD first 0) := by
      rw [List.getD_eq_getElem?_getD, List.getElem?_eq_getElem hs, Option.getD_some]
    obtain ⟨hlt, -⟩ := len_le_qBlocks hBQ hlen
    have hend : (boundaries lens).getD (first + 1) 0 ≤ (boundaries lens).getD lens.length 0 :=
      getD_boundaries_mono hs (Nat.le_refl _)
    rw [getD_boundaries (Nat.le_refl lens.length), List.take_length] at hend
    have hkey := Nat.div_le_div_right (c := BQ) hend
    have hsplit := List.range'_append_1 (s := (boundaries lens).getD first 0 / BQ + first)
      (m := (boundaries lens).getD (first + 1) 0 / BQ + (first + 1) -
        ((boundaries lens).getD first 0 / BQ + first))
      (n := lens.sum / BQ + lens.length -
        ((boundaries lens).getD (first + 1) 0 / BQ + (first + 1)))
    rw [Nat.add_sub_cancel' (Nat.le_of_lt hlt)] at hsplit
    have hcountEq : (boundaries lens).getD (first + 1) 0 / BQ + (first + 1) -
        ((boundaries lens).getD first 0 / BQ + first) +
        (lens.sum / BQ + lens.length - ((boundaries lens).getD (first + 1) 0 / BQ + (first + 1))) =
        lens.sum / BQ + lens.length - ((boundaries lens).getD first 0 / BQ + first) := by omega
    rw [hcountEq] at hsplit
    rw [← hsplit, List.flatMap_append, flatMap_qBlocks_segment hBQ htile hs,
      ih (by omega : first + 1 + count = lens.length), List.range'_succ, List.flatMap_cons]

/-- **The q-blocks from the first one of a segment on give the rows from that segment on.** -/
theorem flatMap_qBlockRows (hBQ : 0 < BQ) {first count : ℕ} (hcount : first + count = lens.length) :
    (List.range' ((boundaries lens).getD first 0 / BQ + first)
      (lens.sum / BQ + lens.length - ((boundaries lens).getD first 0 / BQ + first))).flatMap
        (qBlockRows BQ (boundaries lens) lens.length) =
      segmentsRows lens first count := by
  have htile : ∀ s t, lens.getD s 0 ≤ t * BQ →
      (tileRows BQ (lens.getD s 0) t).map (fun pos => (s, pos)) = [] := by
    intro s t ht
    rw [tileRows, if_pos ht, List.map_nil]
  have hblock : qBlockRows BQ (boundaries lens) lens.length = fun y =>
      (tileRows BQ (lens.getD (qBlockSegment BQ (boundaries lens) lens.length y) 0)
        (y - ((boundaries lens).getD (qBlockSegment BQ (boundaries lens) lens.length y) 0 / BQ +
          qBlockSegment BQ (boundaries lens) lens.length y))).map
        fun pos => (qBlockSegment BQ (boundaries lens) lens.length y, pos) := by
    funext y
    rw [qBlockRows, tileRows]
    simp only
    rw [getD_boundaries_sub_getD]
    split <;> rfl
  rw [hblock, flatMap_qBlocks hBQ htile hcount, segmentsRows]
  refine List.flatMap_congr fun s _ => ?_
  rw [← List.map_flatMap, flatMap_tileRows, Nat.min_eq_left]
  have hdiv := Nat.lt_div_mul_add hBQ (a := lens.getD s 0 + BQ - 1)
  omega

end Prefill

/-! ### One row and a few rows to a threadgroup -/

section Rows

variable {lens : List ℕ}

/-- A row of the per-token grid is resolved to its own segment. -/
theorem perTokenRow_eq {numSeqs s n pos : ℕ} (hseqs : numSeqs ≤ lens.length) (hs : s < numSeqs)
    (hn : lens[s]? = some n) (hpos : pos < n) :
    perTokenRow (boundaries lens) numSeqs ((boundaries lens).getD s 0 + pos) = (s, pos) := by
  have hsearch :
    searchSegment (boundaries lens) ((boundaries lens).getD s 0 + pos) numSeqs = s := by
    refine bisect_eq (fun i j hij hj => getD_boundaries_mono hij (Nat.le_trans hj hseqs)) hs
      (Nat.le_add_right _ _) ?_
    rw [getD_boundaries_succ hn]
    omega
  rw [perTokenRow, hsearch, Nat.add_sub_cancel_left]

/-- **The per-token grid over the rows of some leading segments gives them once.** -/
theorem map_perTokenRow {numSeqs count : ℕ} (hseqs : numSeqs ≤ lens.length)
    (hcount : count ≤ numSeqs) :
    (List.range ((boundaries lens).getD count 0)).map (perTokenRow (boundaries lens) numSeqs) =
      segmentsRows lens 0 count := by
  induction count with
  | zero =>
    rw [getD_boundaries (Nat.zero_le _)]
    rfl
  | succ count ih =>
    have hlt : count < lens.length := by omega
    have hn : lens[count]? = some (lens.getD count 0) := by
      rw [List.getD_eq_getElem?_getD, List.getElem?_eq_getElem hlt, Option.getD_some]
    have hrow : ∀ pos ∈ List.range (lens.getD count 0),
        perTokenRow (boundaries lens) numSeqs ((boundaries lens).getD count 0 + pos) =
          (count, pos) :=
      fun pos hpos => perTokenRow_eq hseqs hcount hn (List.mem_range.mp hpos)
    rw [getD_boundaries_succ hn, List.range_add, List.map_append, ih (Nat.le_of_lt hcount),
      List.map_map, ← segmentsRows_append lens 0 count 1, Nat.zero_add]
    congr 1
    refine (List.map_congr_left hrow).trans ?_
    simp [segmentsRows]

/-- In front of the other segments, one-row segments are at their own row. -/
theorem getD_boundaries_of_one {count : ℕ} (hcount : count ≤ lens.length)
    (hone : ∀ s < count, lens[s]? = some 1) : (boundaries lens).getD count 0 = count := by
  induction count with
  | zero => rw [getD_boundaries hcount, List.take_zero, List.sum_nil]
  | succ count ih =>
    rw [getD_boundaries_succ (hone count (Nat.lt_succ_self count)),
      ih (Nat.le_of_lt hcount) fun s hs => hone s (Nat.lt_succ_of_lt hs)]

/-- **The GQA decode grid over leading one-row segments gives their rows once.** -/
theorem map_gqaDecodeRow {count : ℕ} (hcount : count ≤ lens.length)
    (hone : ∀ s < count, lens[s]? = some 1) :
    (List.range count).map (gqaDecodeRow (boundaries lens)) = segmentsRows lens 0 count := by
  have hrow : ∀ s ∈ List.range count,
      (List.range (lens.getD s 0)).map (fun pos => (s, pos)) =
        [gqaDecodeRow (boundaries lens) s] := by
    intro s hs
    rw [List.mem_range] at hs
    have hat : (boundaries lens).getD s 0 = s :=
      getD_boundaries_of_one (by omega) fun s' hs' => hone s' (by omega)
    rw [gqaDecodeRow, hat, List.getD_eq_getElem?_getD, hone s hs, Nat.sub_self]
    rfl
  rw [segmentsRows, ← List.range_eq_range', List.flatMap_congr hrow, List.map_eq_flatMap]

/-- A threadgroup of window mode has a tile of its segment. -/
theorem windowRows_eq {paWindowRows windowQ s w : ℕ} (hs : s < lens.length) (hw : w < windowQ) :
    windowRows paWindowRows windowQ (boundaries lens) (s * windowQ + w) =
      (tileRows paWindowRows (lens.getD s 0) w).map fun pos => (s, pos) := by
  have hlen : lens[s]? = some (lens.getD s 0) := by
    rw [List.getD_eq_getElem?_getD, List.getElem?_eq_getElem hs, Option.getD_some]
  have hpos : 0 < windowQ := by omega
  have hdiv : (s * windowQ + w) / windowQ = s := by
    rw [Nat.mul_comm, Nat.mul_add_div hpos, Nat.div_eq_of_lt hw, Nat.add_zero]
  have hmod : (s * windowQ + w) % windowQ = w := by
    rw [Nat.mul_comm, Nat.mul_add_mod, Nat.mod_eq_of_lt hw]
  rw [windowRows, hdiv, hmod, getD_boundaries_sub hlen, tileRows, Nat.min_comm]
  split
  · next hdone => rw [Nat.sub_eq_zero_of_le hdone, Nat.min_zero]; rfl
  · rfl

/-- **The window grid gives every row once**, when the hint is no less than every segment. -/
theorem flatMap_windowRows {paWindowRows windowSeqlenQ : ℕ} (hrows : 0 < paWindowRows)
    (hlongest : ∀ n ∈ lens, n ≤ windowSeqlenQ) :
    (List.range (lens.length * windowQ windowSeqlenQ paWindowRows)).flatMap
        (windowRows paWindowRows (windowQ windowSeqlenQ paWindowRows) (boundaries lens)) =
      batchRows lens := by
  set w := windowQ windowSeqlenQ paWindowRows with hw
  have hcover : windowSeqlenQ ≤ w * paWindowRows := by
    have hdiv := Nat.div_add_mod (windowSeqlenQ + paWindowRows - 1) paWindowRows
    have hmod := Nat.mod_lt (windowSeqlenQ + paWindowRows - 1) hrows
    rw [Nat.mul_comm] at hdiv
    have hval : w = (windowSeqlenQ + paWindowRows - 1) / paWindowRows := rfl
    rw [hval]
    omega
  rw [range_mul_eq_flatMap, List.flatMap_assoc, batchRows, segmentsRows, ← List.range_eq_range']
  refine List.flatMap_congr fun s hs => ?_
  rw [List.mem_range] at hs
  have hmem : lens.getD s 0 ∈ lens := by
    rw [List.getD_eq_getElem _ _ hs]
    exact List.getElem_mem hs
  have htile : ∀ t ∈ List.range w,
      windowRows paWindowRows w (boundaries lens) (s * w + t) =
        (tileRows paWindowRows (lens.getD s 0) t).map fun pos => (s, pos) :=
    fun t ht => windowRows_eq hs (List.mem_range.mp ht)
  have hrange : List.range' (s * w) w = (List.range w).map fun t => s * w + t := by
    rw [List.range_eq_range', List.map_add_range', Nat.add_zero]
  rw [hrange, List.flatMap_map, List.flatMap_congr htile, ← List.map_flatMap, flatMap_tileRows,
    Nat.min_eq_left (Nat.le_trans (hlongest _ hmem) hcover)]

theorem length_windowRows_le (paWindowRows windowQ : ℕ) (cuSeqlensQ : List ℕ) (y : ℕ) :
    (windowRows paWindowRows windowQ cuSeqlensQ y).length ≤ paWindowRows := by
  rw [windowRows, List.length_map, List.length_range']
  exact Nat.min_le_right _ _

/-- Every head is in one threadgroup of a launch. -/
theorem launchHeads_eq {numHeads headsPerTg : ℕ} (hdvd : headsPerTg ∣ numHeads) :
    launchHeads numHeads headsPerTg = List.range numHeads := by
  have hrange : ∀ x ∈ List.range (numHeads / headsPerTg),
      ((List.range headsPerTg).map fun sg => x * headsPerTg + sg) =
        List.range' (x * headsPerTg) headsPerTg := by
    intro x _
    rw [List.range_eq_range', List.map_add_range', Nat.add_zero]
  rw [launchHeads, List.flatMap_congr hrange, ← range_mul_eq_flatMap, Nat.div_mul_cancel hdvd]

end Rows

/-! ### Every row once -/

/-- The rows of a launch are those of a batch, each once. -/
structure Partitions (launch : List (ℕ × ℕ)) (lens : List ℕ) : Prop where
  rows : launch = batchRows lens
  mem : ∀ s pos, (s, pos) ∈ launch ↔ pos < lens.getD s 0
  nodup : launch.Nodup

theorem Partitions.of_eq {launch : List (ℕ × ℕ)} {lens : List ℕ} (h : launch = batchRows lens) :
    Partitions launch lens where
  rows := h
  mem := fun s pos => by
    rw [h, batchRows, mem_segmentsRows]
    refine ⟨fun hmem => hmem.2.2, fun hpos => ⟨Nat.zero_le s, ?_, hpos⟩⟩
    by_contra hge
    rw [List.getD_eq_default _ _ (by omega)] at hpos
    exact Nat.not_lt_zero pos hpos
  nodup := h ▸ nodup_segmentsRows lens 0 lens.length

/-- The search ends inside the batch for every q-block that is launched. -/
theorem qBlockSegment_lt {lens : List ℕ} {BQ y : ℕ} (hy : y < lens.sum / BQ + lens.length) :
    qBlockSegment BQ (boundaries lens) lens.length y < lens.length := by
  have hmono : ∀ s t, s ≤ t → t ≤ lens.length →
      (qBlockKeys BQ (boundaries lens)).getD s 0 ≤ (qBlockKeys BQ (boundaries lens)).getD t 0 := by
    intro s t hst ht
    rw [getD_qBlockKeys (by omega), getD_qBlockKeys ht]
    exact Nat.add_le_add (Nat.div_le_div_right (getD_boundaries_mono hst ht)) hst
  have hfirst : (qBlockKeys BQ (boundaries lens)).getD 0 0 = 0 := by
    rw [getD_qBlockKeys (Nat.zero_le _), getD_boundaries (Nat.zero_le _), List.take_zero,
      List.sum_nil, Nat.zero_div]
  obtain ⟨hle, hat, -⟩ := bisect_spec (qBlockKeys BQ (boundaries lens)) y lens.length hmono
    lens.length 0 lens.length (by omega) (Nat.zero_le _) (Nat.le_refl _)
    (by rw [hfirst]; exact Nat.zero_le y) fun t ht htn => by omega
  refine Nat.lt_of_le_of_ne hle fun heq => ?_
  rw [qBlockSegment] at heq
  rw [heq, getD_qBlockKeys (Nat.le_refl _), getD_boundaries (Nat.le_refl _),
    List.take_length] at hat
  omega

/-- A launch from the first q-block of a segment on. -/
theorem prefillLaunch_eq {lens : List ℕ} {BQ : ℕ} (hBQ : 0 < BQ) {first : ℕ}
    (hfirst : first ≤ lens.length) :
    ∃ qBlocks, qBlockPlan BQ lens.sum lens.length ((boundaries lens).getD first 0 / BQ + first) =
        some qBlocks ∧
      (∀ y < qBlocks, qBlockSegment BQ (boundaries lens) lens.length
        (y + ((boundaries lens).getD first 0 / BQ + first)) < lens.length) ∧
      prefillLaunch BQ (boundaries lens) lens.length qBlocks
          ((boundaries lens).getD first 0 / BQ + first) =
        segmentsRows lens first (lens.length - first) := by
  have hend := getD_boundaries_mono hfirst (Nat.le_refl lens.length)
  rw [getD_boundaries (Nat.le_refl lens.length), List.take_length] at hend
  have hkey := Nat.div_le_div_right (c := BQ) hend
  refine ⟨lens.sum / BQ + lens.length - ((boundaries lens).getD first 0 / BQ + first),
    if_neg (by omega), fun y hy => qBlockSegment_lt (by omega), ?_⟩
  have hrange : ∀ offset n : ℕ, List.range' offset n = (List.range n).map fun y => y + offset := by
    intro offset n
    have hcomm : (fun y => y + offset) = fun y => offset + y :=
      funext fun y => Nat.add_comm y offset
    rw [hcomm, List.range_eq_range', List.map_add_range', Nat.add_zero]
  rw [prefillLaunch, ← flatMap_qBlockRows hBQ (Nat.add_sub_cancel' hfirst), hrange,
    List.flatMap_map]

/-- **Every launch computes every row of its batch exactly once.**  For any batch of segments
and any tile of rows: the search of a prefill kernel ends inside the batch for every q-block
that is launched, and their rows partition those of the batch; so do the rows of the decode
kernels on leading one-row segments with those of the prefill kernel on the q-blocks behind
them, whose offset is in range; the rows of the per-token grid; and those of the window grid
for a hint no less than the longest segment, at most `PA_WINDOW_ROWS` of which are in a
threadgroup.  Every head is in one threadgroup of a launch. -/
theorem every_query_row_once {lens : List ℕ} {BQ paWindowRows : ℕ} (hBQ : 0 < BQ)
    (hwindow : 0 < paWindowRows) :
    (∃ qBlocks, qBlockPlan BQ lens.sum lens.length 0 = some qBlocks ∧
      (∀ y < qBlocks, qBlockSegment BQ (boundaries lens) lens.length y < lens.length) ∧
      Partitions (prefillLaunch BQ (boundaries lens) lens.length qBlocks 0) lens) ∧
    (∀ D ≤ lens.length, (∀ s < D, lens[s]? = some 1) → ∃ qBlocks,
      qBlockPlan BQ lens.sum lens.length (D / BQ + D) = some qBlocks ∧
      (∀ y < qBlocks,
        qBlockSegment BQ (boundaries lens) lens.length (y + (D / BQ + D)) < lens.length) ∧
      Partitions ((List.range D).map (perTokenRow (boundaries lens) lens.length) ++
        prefillLaunch BQ (boundaries lens) lens.length qBlocks (D / BQ + D)) lens ∧
      Partitions ((List.range D).map (gqaDecodeRow (boundaries lens)) ++
        prefillLaunch BQ (boundaries lens) lens.length qBlocks (D / BQ + D)) lens) ∧
    Partitions ((List.range lens.sum).map (perTokenRow (boundaries lens) lens.length)) lens ∧
    (∀ windowSeqlenQ, (∀ n ∈ lens, n ≤ windowSeqlenQ) →
      Partitions ((List.range (lens.length * windowQ windowSeqlenQ paWindowRows)).flatMap
        (windowRows paWindowRows (windowQ windowSeqlenQ paWindowRows) (boundaries lens))) lens ∧
      ∀ y, (windowRows paWindowRows (windowQ windowSeqlenQ paWindowRows)
        (boundaries lens) y).length ≤ paWindowRows) ∧
    ∀ numHeads headsPerTg : ℕ, headsPerTg ∣ numHeads →
      launchHeads numHeads headsPerTg = List.range numHeads := by
  refine ⟨?whole, fun D hD hone => ?mixed, ?token, fun windowSeqlenQ hlongest => ?window,
    fun numHeads headsPerTg hdvd => launchHeads_eq hdvd⟩
  case whole =>
    have hzero : (boundaries lens).getD 0 0 / BQ + 0 = 0 := by
      rw [getD_boundaries (Nat.zero_le _), List.take_zero, List.sum_nil, Nat.zero_div]
    obtain ⟨qBlocks, hplan, hsearch, hrows⟩ := prefillLaunch_eq hBQ (Nat.zero_le lens.length)
    rw [hzero] at hplan hsearch hrows
    exact ⟨qBlocks, hplan, hsearch, .of_eq hrows⟩
  case mixed =>
    have hat := getD_boundaries_of_one hD hone
    obtain ⟨qBlocks, hplan, hsearch, hrows⟩ := prefillLaunch_eq hBQ hD
    rw [hat] at hplan hsearch hrows
    -- the decode rows and the prefill rows are the rows of the batch
    have hall : segmentsRows lens 0 D ++ segmentsRows lens D (lens.length - D) =
      batchRows lens := by
      have happend := segmentsRows_append lens 0 D (lens.length - D)
      rwa [Nat.zero_add, Nat.add_sub_cancel' hD] at happend
    refine ⟨qBlocks, hplan, hsearch, .of_eq ?_, .of_eq ?_⟩
    · have htoken := map_perTokenRow (Nat.le_refl lens.length) hD
      rw [hat] at htoken
      rw [htoken, hrows, hall]
    · rw [map_gqaDecodeRow hD hone, hrows, hall]
  case token =>
    have htoken := map_perTokenRow (Nat.le_refl lens.length) (Nat.le_refl lens.length)
    rw [getD_boundaries (Nat.le_refl _), List.take_length] at htoken
    exact .of_eq htoken
  case window =>
    exact ⟨.of_eq (flatMap_windowRows hwindow hlongest), length_windowRows_le _ _ _⟩

/-- Two decode rows in front of segments of five rows and of one row, in tiles of four. -/
theorem every_query_row_once_mixed : ∃ qBlocks, qBlockPlan 4 8 4 (2 / 4 + 2) = some qBlocks ∧
    Partitions ((List.range 2).map (perTokenRow (boundaries [1, 1, 5, 1]) 4) ++
      prefillLaunch 4 (boundaries [1, 1, 5, 1]) 4 qBlocks (2 / 4 + 2)) [1, 1, 5, 1] := by
  have hBQ : 0 < 4 := by decide
  have hwindow : 0 < 2 := by decide
  obtain ⟨-, hmixed, -⟩ := @every_query_row_once [1, 1, 5, 1] 4 2 hBQ hwindow
  obtain ⟨qBlocks, hplan, -, hrows, -⟩ := hmixed 2 (by decide) (by decide)
  exact ⟨qBlocks, hplan, hrows⟩

end Attention
end VllmMetal
