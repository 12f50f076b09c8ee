import Mathlib.Algebra.Group.Basic
import Mathlib.Data.List.Basic
import Mathlib.Data.List.Range

/-!
# Labelled rows, by segments and by indices

The rows of a batch carry labels.  A list of segments splits the rows in order, each segment
with one label; a list of indices picks the rows of one label.  Both give back the batch: the
segments by joining their parts, the indices by adding into the rows they name.

## Main definitions

* `rowsOfSegment`, `Segments` — the rows of a segment; a list of segments that splits a list.
* `scatterAdd` — add rows into the rows at given indices.

## Main results

* `Segments.concat`, `Segments.extend` — one more row, in a new segment or in the last one.
* `flatten_segments` — joining what a function of the row gives on each segment.
* `scatterAdd_map_range` — adding at distinct indices changes exactly the rows they name.
-/

namespace VllmMetal

variable {σ V : Type*}

/-! ### Segments -/

/-- The rows of the segment `(label, start, stop)`. -/
def rowsOfSegment (seg : σ × ℕ × ℕ) : List ℕ := List.range' seg.2.1 (seg.2.2 - seg.2.1)

theorem mem_rowsOfSegment {seg : σ × ℕ × ℕ} {t : ℕ} :
    t ∈ rowsOfSegment seg ↔ seg.2.1 ≤ t ∧ t < seg.2.2 := by
  rw [rowsOfSegment, List.mem_range'_1]
  omega

/-- The segments split the rows in order, none is empty, and every row of a segment has the
segment's label. -/
structure Segments (segs : List (σ × ℕ × ℕ)) (labels : List σ) : Prop where
  rows : segs.flatMap rowsOfSegment = List.range labels.length
  nonempty : ∀ seg ∈ segs, seg.2.1 < seg.2.2
  label : ∀ seg ∈ segs, ∀ t ∈ rowsOfSegment seg, labels[t]? = some seg.1

namespace Segments

variable {segs : List (σ × ℕ × ℕ)} {labels : List σ}

theorem nil : Segments ([] : List (σ × ℕ × ℕ)) [] where
  rows := rfl
  nonempty := by simp
  label := by simp

theorem stop_le (h : Segments segs labels) {seg : σ × ℕ × ℕ} (hseg : seg ∈ segs) :
    seg.2.2 ≤ labels.length := by
  have hlast : seg.2.2 - 1 ∈ segs.flatMap rowsOfSegment := by
    refine List.mem_flatMap.mpr ⟨seg, hseg, mem_rowsOfSegment.mpr ?_⟩
    have hne := h.nonempty seg hseg
    omega
  rw [h.rows, List.mem_range] at hlast
  omega

/-- One more row in a segment of its own. -/
theorem concat (h : Segments segs labels) (label : σ) :
    Segments (segs ++ [(label, labels.length, labels.length + 1)]) (labels ++ [label]) where
  rows := by
    rw [List.flatMap_append, h.rows, List.length_append, List.length_singleton,
      List.range_succ]
    simp [rowsOfSegment]
  nonempty seg hseg := by
    rcases List.mem_append.mp hseg with hseg | hseg
    · exact h.nonempty seg hseg
    · rw [List.mem_singleton.mp hseg]
      exact Nat.lt_succ_self _
  label seg hseg t ht := by
    rcases List.mem_append.mp hseg with hseg | hseg
    · have hlt := (mem_rowsOfSegment.mp ht).2
      rw [List.getElem?_append_left (Nat.lt_of_lt_of_le hlt (h.stop_le hseg))]
      exact h.label seg hseg t ht
    · rw [List.mem_singleton.mp hseg] at ht ⊢
      obtain rfl : t = labels.length := by
        have := mem_rowsOfSegment.mp ht
        dsimp only at this
        omega
      exact List.getElem?_concat_length

/-- One more row in the last segment. -/
theorem extend {label : σ} {start : ℕ}
    (h : Segments (segs ++ [(label, start, labels.length)]) labels) :
    Segments (segs ++ [(label, start, labels.length + 1)]) (labels ++ [label]) where
  rows := by
    have hlt := h.nonempty _ (List.mem_append_right _ (List.mem_singleton_self _))
    have hrows := h.rows
    dsimp only at hlt
    rw [List.flatMap_append, List.flatMap_singleton, rowsOfSegment] at hrows
    rw [List.flatMap_append, List.flatMap_singleton, rowsOfSegment, List.length_append,
      List.length_singleton, List.range_succ, ← hrows]
    dsimp only
    rw [Nat.succ_sub (Nat.le_of_lt hlt), List.range'_1_concat, List.append_assoc]
    congr 3
    omega
  nonempty seg hseg := by
    rcases List.mem_append.mp hseg with hseg | hseg
    · exact h.nonempty seg (List.mem_append_left _ hseg)
    · have hlt := h.nonempty _ (List.mem_append_right _ (List.mem_singleton_self _))
      rw [List.mem_singleton.mp hseg]
      exact Nat.lt_succ_of_lt hlt
  label seg hseg t ht := by
    -- a row before the new one is a row of the segments as they were
    have hold : ∀ seg' ∈ segs ++ [(label, start, labels.length)], t ∈ rowsOfSegment seg' →
        (labels ++ [label])[t]? = some seg'.1 := by
      intro seg' hseg' ht'
      have hlt := (mem_rowsOfSegment.mp ht').2
      rw [List.getElem?_append_left (Nat.lt_of_lt_of_le hlt (h.stop_le hseg'))]
      exact h.label seg' hseg' t ht'
    rcases List.mem_append.mp hseg with hseg | hseg
    · exact hold seg (List.mem_append_left _ hseg) ht
    · rw [List.mem_singleton.mp hseg] at ht ⊢
      obtain ⟨hle, hlt⟩ := mem_rowsOfSegment.mp ht
      dsimp only at hle hlt
      rcases Nat.lt_or_eq_of_le (Nat.le_of_lt_succ hlt) with hbefore | rfl
      · exact hold (label, start, labels.length)
          (List.mem_append_right _ (List.mem_singleton_self _))
            (mem_rowsOfSegment.mpr ⟨hle, hbefore⟩)
      · exact List.getElem?_concat_length

end Segments

/-- A slice of a list, read row by row. -/
theorem slice_eq_map [Zero V] {l : List V} (start : ℕ) {stop : ℕ} (h : stop ≤ l.length) :
    (l.drop start).take (stop - start)
      = (List.range' start (stop - start)).map fun t => l.getD t 0 := by
  apply List.ext_getElem?
  intro i
  rw [List.getElem?_take, List.getElem?_map]
  split
  · next hi =>
    rw [List.getElem?_range' hi, List.getElem?_drop, Option.map_some, Nat.one_mul]
    have hlt : start + i < l.length := by omega
    simp [List.getD, hlt]
  · next hi =>
    rw [List.getElem?_eq_none (by rw [List.length_range']; omega)]
    rfl

/-- Joining what a function of the row gives on each segment. -/
theorem flatten_segments {segs : List (σ × ℕ × ℕ)} {n : ℕ} (f : ℕ → V)
    (h : segs.flatMap rowsOfSegment = List.range n) :
    (segs.map fun seg => (rowsOfSegment seg).map f).flatten = (List.range n).map f := by
  rw [← h, List.map_flatMap, List.flatMap_def]

/-! ### Indices -/

/-- Add rows into the rows at the indices, one after the other. -/
def scatterAdd [Add V] (rows : List V) (indices : List ℕ) (delta : List V) : List V :=
  (indices.zip delta).foldl (fun acc p => acc.modify p.1 (· + p.2)) rows

/-- **Adding at distinct indices** changes exactly the rows they name. -/
theorem scatterAdd_map_range [Add V] {n : ℕ} {indices : List ℕ} (hnodup : indices.Nodup)
    (g f : ℕ → V) :
    scatterAdd ((List.range n).map g) indices (indices.map f)
      = (List.range n).map fun t => if t ∈ indices then g t + f t else g t := by
  induction indices generalizing g with
  | nil => simp [scatterAdd]
  | cons i indices ih =>
    obtain ⟨hi, hnodup⟩ := List.nodup_cons.mp hnodup
    have hfirst : ((List.range n).map g).modify i (· + f i)
        = (List.range n).map fun t => if t = i then g t + f i else g t := by
      apply List.ext_getElem?
      intro t
      rw [List.getElem?_modify, List.getElem?_map, List.getElem?_map]
      by_cases hlt : t < n
      · rw [List.getElem?_range hlt]
        by_cases hti : i = t
        · simp [hti]
        · simp [hti, Ne.symm hti]
      · rw [List.getElem?_eq_none (by simpa using hlt)]
        rfl
    unfold scatterAdd at ih ⊢
    rw [List.map_cons, List.zip_cons_cons, List.foldl_cons, hfirst, ih hnodup]
    apply List.map_congr_left
    intro t _
    by_cases hti : t = i
    · subst hti
      rw [if_neg hi, if_pos rfl, if_pos List.mem_cons_self]
    · rw [if_neg hti]
      simp only [List.mem_cons, hti, false_or]

end VllmMetal
