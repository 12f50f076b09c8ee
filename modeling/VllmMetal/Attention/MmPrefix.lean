import VllmMetal.Lib.Ragged
import Mathlib.Data.Int.Notation
import Mathlib.Algebra.Order.Ring.Int

/-!
# Image blocks in the prefill kernel

The rows of an image block attend to the whole block.  The tiled prefill kernel is told so by
a pair of inclusive bounds for every packed row, and unmasks the keys between them on top of
the causal rule before it applies the sliding window.

## Main definitions

* `buildMmPrefixRows` — the bounds of every packed row.
* `kernelAllows`, `kernelKeys` — the mask of the kernel, and the keys it leaves a row.

## Main results

* `mmPrefixRow_buildMmPrefixRows` — the bounds of a packed row, as a fold over the ranges.
* `foldl_tagRow_of_mem`, `foldl_tagRow_cases` — what that fold is.
-/

namespace VllmMetal
namespace Attention

/-! ### Bounds of a row -/

/-- `rows[lo:hi] = v`. -/
def assignSlice {α : Type} (rows : List α) (lo hi : ℕ) (v : α) : List α :=
  rows.mapIdx fun k row => if lo ≤ k ∧ k < hi then v else row

/-- One round of the loop over the ranges of a segment; the flag says that a row lies inside a
block.  A range is half-open, its bounds in a row are inclusive. -/
def markRange (qStart n qLo : ℕ) (acc : List (ℤ × ℤ) × Bool) (range : ℕ × ℕ) :
    List (ℤ × ℤ) × Bool :=
  if range.2 - range.1 ≤ 1 then acc
  else
    let a := max range.1 qLo
    let b := min range.2 (qLo + n)
    if b ≤ a then acc
    else
      (assignSlice acc.1 (qStart + (a - qLo)) (qStart + (b - qLo))
        ((range.1 : ℤ), (range.2 : ℤ) - 1), true)

/-- The loop over the segments, from segment `i` on. -/
def markSegments (cuSeqlens contextLens : List ℕ) :
    ℕ → List (Option (List (ℕ × ℕ))) → List (ℤ × ℤ) × Bool → List (ℤ × ℤ) × Bool
  | _, [], acc => acc
  | i, ranges :: segments, acc =>
      let qStart := cuSeqlens.getD i 0
      let n := cuSeqlens.getD (i + 1) 0 - qStart
      markSegments cuSeqlens contextLens (i + 1) segments
        ((ranges.getD []).foldl (markRange qStart n (contextLens.getD i 0 - n)) acc)

/-- `build_mm_prefix_rows`: `none` when no row lies inside a block. -/
def buildMmPrefixRows (cuSeqlens contextLens : List ℕ)
    (segmentBidiRanges : List (Option (List (ℕ × ℕ)))) : Option (List (ℤ × ℤ)) :=
  let total := cuSeqlens.getLastD 0
  let marked := markSegments cuSeqlens contextLens 0 segmentBidiRanges
    (List.replicate total (-1, -1), false)
  if marked.2 then some marked.1 else none

/-- `[r_start, r_end]` of a packed row in the kernel, which is off for every row without the
buffer. -/
def mmPrefixRow (rows : Option (List (ℤ × ℤ))) (k : ℕ) : ℤ × ℤ :=
  match rows with
  | some rows => rows.getD k (-1, -1)
  | none => (-1, -1)

/-! ### The mask of the kernel -/

/-- Whether the tiled prefill kernel leaves a key to a row: (causal OR same image block) AND
window, below the context length. -/
def kernelAllows (slidingWindow : ℤ) (seqLen : ℕ) (rowBounds : ℤ × ℤ) (qAbsPos kvPos : ℕ) : Bool :=
  let inBlock : Bool := rowBounds.1 ≤ kvPos && (kvPos : ℤ) ≤ rowBounds.2
  let masked : Bool := (qAbsPos < kvPos && !inBlock) || seqLen ≤ kvPos
  !(masked || (0 ≤ slidingWindow && (kvPos : ℤ) < qAbsPos + 1 - slidingWindow))

/-- The keys that the kernel leaves a row. -/
def kernelKeys (slidingWindow : ℤ) (seqLen : ℕ) (rowBounds : ℤ × ℤ) (qAbsPos : ℕ) : List ℕ :=
  (List.range seqLen).filter (kernelAllows slidingWindow seqLen rowBounds qAbsPos)

/-! ### The bounds that are built -/

/-- A range of at least two tokens holds a position. -/
def InBlock (range : ℕ × ℕ) (q : ℕ) : Prop := 1 < range.2 - range.1 ∧ range.1 ≤ q ∧ q < range.2

instance (range : ℕ × ℕ) (q : ℕ) : Decidable (InBlock range q) :=
  inferInstanceAs (Decidable (_ ∧ _))

/-- The bounds of a row after one more range. -/
def tagRow (q : ℕ) (old : ℤ × ℤ) (range : ℕ × ℕ) : ℤ × ℤ :=
  if InBlock range q then ((range.1 : ℤ), (range.2 : ℤ) - 1) else old

theorem getElem?_assignSlice {α : Type} (rows : List α) (lo hi : ℕ) (v : α) (k : ℕ) :
    (assignSlice rows lo hi v)[k]? = rows[k]?.map fun row =>
      if lo ≤ k ∧ k < hi then v else row := by
  rw [assignSlice, List.getElem?_mapIdx]

/-- A range marks its rows of the segment, -/
theorem getElem?_markRange_self (qStart n qLo : ℕ) (acc : List (ℤ × ℤ) × Bool) (range : ℕ × ℕ)
    {j : ℕ} (hj : j < n) :
    (markRange qStart n qLo acc range).1[qStart + j]? =
      acc.1[qStart + j]?.map fun row => tagRow (qLo + j) row range := by
  rw [markRange]
  split
  · next hone =>
    have hnot : ¬ InBlock range (qLo + j) := fun h => by
      have := h.1
      omega
    simp only [tagRow, if_neg hnot, Option.map_id']
  · next hone =>
    simp only
    split
    · next hempty =>
      have hnot : ¬ InBlock range (qLo + j) := fun h => by
        obtain ⟨-, h1, h2⟩ := h
        omega
      simp only [tagRow, if_neg hnot, Option.map_id']
    · next hsome =>
      rw [getElem?_assignSlice]
      congr 1
      funext row
      rw [tagRow]
      refine if_congr ⟨fun h => ⟨?_, ?_, ?_⟩, fun h => ?_⟩ rfl rfl
      · omega
      · omega
      · omega
      · obtain ⟨-, h1, h2⟩ := h
        omega

/-- and no other row. -/
theorem getElem?_markRange_of_ne (qStart n qLo : ℕ) (acc : List (ℤ × ℤ) × Bool) (range : ℕ × ℕ)
    {k : ℕ} (hk : k < qStart ∨ qStart + n ≤ k) :
    (markRange qStart n qLo acc range).1[k]? = acc.1[k]? := by
  rw [markRange]
  split
  · rfl
  · simp only
    split
    · rfl
    · rw [getElem?_assignSlice]
      have hnot : ∀ row v : ℤ × ℤ, (if qStart + (max range.1 qLo - qLo) ≤ k ∧
          k < qStart + (min range.2 (qLo + n) - qLo) then v else row) = row := by
        intro row v
        exact if_neg (by omega)
      simp only [hnot, Option.map_id']

theorem getElem?_foldl_markRange_self (qStart n qLo : ℕ) (ranges : List (ℕ × ℕ)) {j : ℕ}
    (hj : j < n) (acc : List (ℤ × ℤ) × Bool) :
    (ranges.foldl (markRange qStart n qLo) acc).1[qStart + j]? =
      acc.1[qStart + j]?.map fun row => ranges.foldl (tagRow (qLo + j)) row := by
  induction ranges generalizing acc with
  | nil => simp
  | cons range ranges ih =>
    rw [List.foldl_cons, ih, getElem?_markRange_self _ _ _ _ _ hj, Option.map_map]
    rfl

theorem getElem?_foldl_markRange_of_ne (qStart n qLo : ℕ) (ranges : List (ℕ × ℕ)) {k : ℕ}
    (hk : k < qStart ∨ qStart + n ≤ k) (acc : List (ℤ × ℤ) × Bool) :
    (ranges.foldl (markRange qStart n qLo) acc).1[k]? = acc.1[k]? := by
  induction ranges generalizing acc with
  | nil => rfl
  | cons range ranges ih =>
    rw [List.foldl_cons, ih, getElem?_markRange_of_ne _ _ _ _ _ hk]

/-- The loop over the segments leaves the rows before its first segment, -/
theorem getElem?_markSegments_of_lt {lens contextLens : List ℕ}
    (segments : List (Option (List (ℕ × ℕ)))) {i : ℕ} (hi : i + segments.length ≤ lens.length)
    (acc : List (ℤ × ℤ) × Bool) {k : ℕ} (hk : k < (boundaries lens).getD i 0) :
    (markSegments (boundaries lens) contextLens i segments acc).1[k]? = acc.1[k]? := by
  induction segments generalizing i acc with
  | nil => rfl
  | cons ranges segments ih =>
    rw [List.length_cons] at hi
    have hmono := getD_boundaries_mono (Nat.le_add_right i 1) (by omega : i + 1 ≤ lens.length)
    rw [markSegments, ih (by omega) _ (by omega),
      getElem?_foldl_markRange_of_ne _ _ _ _ (Or.inl hk)]

/-- and marks a row by the ranges of its segment. -/
theorem getElem?_markSegments {lens contextLens : List ℕ}
    (segments : List (Option (List (ℕ × ℕ)))) {i : ℕ} (hi : i + segments.length ≤ lens.length)
    (acc : List (ℤ × ℤ) × Bool) {t n j : ℕ} {ranges : Option (List (ℕ × ℕ))}
    (hranges : segments[t]? = some ranges) (hn : lens[i + t]? = some n) (hj : j < n) :
    (markSegments (boundaries lens) contextLens i segments acc).1[
        (boundaries lens).getD (i + t) 0 + j]? =
      acc.1[(boundaries lens).getD (i + t) 0 + j]?.map fun row =>
        (ranges.getD []).foldl (tagRow (contextLens.getD (i + t) 0 - n + j)) row := by
  induction segments generalizing i acc t with
  | nil => simp at hranges
  | cons ranges' segments ih =>
    rw [List.length_cons] at hi
    rw [markSegments]
    cases t with
    -- the segment itself is marked now, and the later ones begin behind it
    | zero =>
      simp only [List.getElem?_cons_zero, Option.some.injEq] at hranges
      subst hranges
      simp only [Nat.add_zero] at hn ⊢
      have hnext := getD_boundaries_succ hn
      rw [getElem?_markSegments_of_lt segments (by omega) _ (by rw [hnext]; omega),
        getD_boundaries_sub hn, getElem?_foldl_markRange_self _ _ _ _ hj]
    -- a later segment is marked by the rest of the loop, and this one ends before it
    | succ t =>
      have hlt : i + (t + 1) < lens.length := (List.getElem?_eq_some_iff.mp hn).1
      have hmono : (boundaries lens).getD (i + 1) 0 ≤ (boundaries lens).getD (i + (t + 1)) 0 :=
        getD_boundaries_mono (by omega) (Nat.le_of_lt hlt)
      have hlen : lens[i]? = some lens[i] := List.getElem?_eq_getElem (by omega)
      have hnext := getD_boundaries_succ hlen
      have hrow : i + (t + 1) = i + 1 + t := by omega
      rw [hrow] at hn ⊢
      rw [ih (by omega) _ hranges hn,
        getElem?_foldl_markRange_of_ne _ _ _ _ (Or.inr (by
          rw [getD_boundaries_sub hlen, ← hrow]
          omega))]

theorem snd_foldl_markRange (qStart n qLo : ℕ) (ranges : List (ℕ × ℕ))
    (acc : List (ℤ × ℤ) × Bool) (h : (ranges.foldl (markRange qStart n qLo) acc).2 = false) :
    ranges.foldl (markRange qStart n qLo) acc = acc := by
  induction ranges generalizing acc with
  | nil => rfl
  | cons range ranges ih =>
    rw [List.foldl_cons] at h ⊢
    have hstep := ih _ h
    rw [hstep] at h ⊢
    -- a range that marks a row raises the flag
    rw [markRange] at h ⊢
    split
    · rfl
    · next hone =>
      rw [if_neg hone] at h
      dsimp only at h ⊢
      split
      · rfl
      · next hsome =>
        rw [if_neg hsome] at h
        cases h

/-- Without a row inside a block nothing has been marked. -/
theorem markSegments_eq_of_snd (cuSeqlens contextLens : List ℕ)
    (segments : List (Option (List (ℕ × ℕ)))) (i : ℕ) (acc : List (ℤ × ℤ) × Bool)
    (h : (markSegments cuSeqlens contextLens i segments acc).2 = false) :
    markSegments cuSeqlens contextLens i segments acc = acc := by
  induction segments generalizing i acc with
  | nil => rfl
  | cons ranges segments ih =>
    rw [markSegments] at h ⊢
    have hstep := ih _ _ h
    rw [hstep] at h ⊢
    exact snd_foldl_markRange _ _ _ _ _ h

/-- **The bounds of a packed row** are those of the last range around it. -/
theorem mmPrefixRow_buildMmPrefixRows {lens contextLens : List ℕ}
    {segments : List (Option (List (ℕ × ℕ)))} (hlen : segments.length = lens.length)
    {i n j : ℕ} {ranges : Option (List (ℕ × ℕ))} (hranges : segments[i]? = some ranges)
    (hn : lens[i]? = some n) (hj : j < n) :
    mmPrefixRow (buildMmPrefixRows (boundaries lens) contextLens segments)
        ((boundaries lens).getD i 0 + j) =
      (ranges.getD []).foldl (tagRow (contextLens.getD i 0 - n + j)) (-1, -1) := by
  have hlt : i + 1 ≤ lens.length := (List.getElem?_eq_some_iff.mp hn).1
  have hend := getD_boundaries_mono hlt (Nat.le_refl lens.length)
  rw [getD_boundaries_succ hn, getD_boundaries (Nat.le_refl _), List.take_length] at hend
  have hfit : 0 + segments.length ≤ lens.length := by omega
  have hn' : lens[0 + i]? = some n := by rwa [Nat.zero_add]
  have hmark := fun acc => @getElem?_markSegments lens contextLens segments 0 hfit acc i n j ranges
    hranges hn' hj
  have hrow := hmark (List.replicate ((boundaries lens).getLastD 0) (-1, -1), false)
  rw [Nat.zero_add, getLastD_boundaries, List.getElem?_replicate, if_pos (by omega),
    Option.map_some] at hrow
  rw [buildMmPrefixRows, getLastD_boundaries]
  split
  · rw [mmPrefixRow, List.getD_eq_getElem?_getD, hrow, Option.getD_some]
  · next hfound =>
    rw [markSegments_eq_of_snd _ _ _ _ _ (by simpa using hfound), List.getElem?_replicate,
      if_pos (by omega)] at hrow
    exact Option.some.inj hrow

/-! ### Disjoint ranges -/

/-- Sorted and disjoint ranges; an empty one may stand anywhere. -/
def SortedDisjoint (ranges : List (ℕ × ℕ)) : Prop :=
  ranges.Pairwise fun range range' =>
    range.1 < range.2 → range'.1 < range'.2 → range.2 ≤ range'.1

/-- The ranges leave the bounds of one of them that holds the position, if there is any. -/
theorem foldl_tagRow_cases (q : ℕ) (ranges : List (ℕ × ℕ)) (old : ℤ × ℤ) :
    (∃ range ∈ ranges, InBlock range q ∧
      ranges.foldl (tagRow q) old = ((range.1 : ℤ), (range.2 : ℤ) - 1)) ∨
    ((∀ range ∈ ranges, ¬ InBlock range q) ∧ ranges.foldl (tagRow q) old = old) := by
  induction ranges generalizing old with
  | nil => exact Or.inr ⟨by simp, rfl⟩
  | cons range ranges ih =>
    rw [List.foldl_cons]
    rcases ih (tagRow q old range) with ⟨range', hmem, hin, heq⟩ | ⟨hnone, heq⟩
    · exact Or.inl ⟨range', List.mem_cons_of_mem _ hmem, hin, heq⟩
    · by_cases hin : InBlock range q
      · exact Or.inl ⟨range, List.mem_cons_self, hin, by rw [heq, tagRow, if_pos hin]⟩
      · exact Or.inr ⟨List.forall_mem_cons.mpr ⟨hin, hnone⟩, by rw [heq, tagRow, if_neg hin]⟩

/-- A position is in one range at most. -/
theorem SortedDisjoint.eq_of_mem {ranges : List (ℕ × ℕ)} (h : SortedDisjoint ranges)
    {range range' : ℕ × ℕ} (hr : range ∈ ranges) (hr' : range' ∈ ranges) {q : ℕ}
    (hq : range.1 ≤ q ∧ q < range.2) (hq' : range'.1 ≤ q ∧ q < range'.2) : range = range' := by
  refine List.Pairwise.forall_of_forall_of_flip (R := fun range range' =>
    range.1 ≤ q ∧ q < range.2 → range'.1 ≤ q ∧ q < range'.2 → range = range')
    (fun _ _ _ _ => rfl) ?_ ?_ hr hr' hq hq'
  · refine h.imp fun hbefore hq hq' => ?_
    have := hbefore (by omega) (by omega)
    omega
  · refine h.imp fun hbefore hq hq' => ?_
    have := hbefore (by omega) (by omega)
    omega

theorem foldl_tagRow_of_mem {q : ℕ} {ranges : List (ℕ × ℕ)} (h : SortedDisjoint ranges)
    {range : ℕ × ℕ} (hr : range ∈ ranges) (hq : InBlock range q) (old : ℤ × ℤ) :
    ranges.foldl (tagRow q) old = ((range.1 : ℤ), (range.2 : ℤ) - 1) := by
  rcases foldl_tagRow_cases q ranges old with ⟨range', hmem, hin, heq⟩ | ⟨hnone, -⟩
  · rw [heq, h.eq_of_mem hmem hr hin.2 hq.2]
  · exact absurd hq (hnone range hr)

end Attention
end VllmMetal
