import Mathlib.Data.Multiset.Sort
import Mathlib.Data.List.TakeWhile

/-!
# Descending lists

In a list whose values go down, what an upward closed property keeps is a first part.  Selections by
value and selections by rank can therefore be made one after the other in any order.

## Main results

* `filter_isPrefix` — what an upward closed property keeps.
* `sort_coe_of_descending` — a descending list is its own descending order.
* `filter_rank_filter` — the `k`-th value as a threshold, before or after another selection.
-/

namespace VllmMetal

section Descending

variable {K : Type*} [LinearOrder K] {l : List K}

/-- A property that goes up. -/
def UpwardClosed (q : K → Prop) : Prop := ∀ x y, x ≤ y → q x → q y

/-- What an upward closed property keeps of a descending list is a first part of it. -/
theorem filter_isPrefix (hl : l.Pairwise (· ≥ ·)) {q : K → Prop} [DecidablePred q]
    (hq : UpwardClosed q) : l.filter q <+: l := by
  induction l with
  | nil => exact List.prefix_rfl
  | cons x l ih =>
    obtain ⟨hhead, htail⟩ := List.pairwise_cons.mp hl
    by_cases hx : q x
    · rw [List.filter_cons_of_pos (by simpa using hx)]
      exact (List.prefix_cons_inj x).mpr (ih htail)
    · -- nothing behind the first value that goes
      have hnone : l.filter q = [] := by
        rw [List.filter_eq_nil_iff]
        intro y hy
        simpa using fun hqy => hx (hq y x (hhead y hy) hqy)
      rw [List.filter_cons_of_neg (by simpa using hx), hnone]
      exact List.nil_prefix

theorem sort_coe_of_descending (hl : l.Pairwise (· ≥ ·)) :
    Multiset.sort (↑l : Multiset K) (· ≥ ·) = l := by
  rw [Multiset.coe_sort]
  exact List.mergeSort_eq_self (· ≥ ·) hl

theorem getElem?_le_of_descending (hl : l.Pairwise (· ≥ ·)) {i j : ℕ} (hij : i ≤ j) {x y : K}
    (hx : l[i]? = some x) (hy : l[j]? = some y) : y ≤ x := by
  rcases Nat.lt_or_eq_of_le hij with hlt | rfl
  · obtain ⟨hi, rfl⟩ := List.getElem?_eq_some_iff.mp hx
    obtain ⟨hj, rfl⟩ := List.getElem?_eq_some_iff.mp hy
    exact List.pairwise_iff_getElem.mp hl i j hi hj hlt
  · rw [Option.some.inj (hx.symm.trans hy)]

/-- **The value at a rank, before or after another selection.**  Where the selection leaves nothing
at the rank, the threshold of the whole list takes nothing more away. -/
theorem filter_rank_filter (hl : l.Pairwise (· ≥ ·)) {q : K → Prop} [DecidablePred q]
    (hq : UpwardClosed q) {n : ℕ} {v : K} (hv : l[n]? = some v) :
    (match (l.filter q)[n]? with
      | some v' => (l.filter q).filter fun x => v' ≤ x
      | none => l.filter q) = (l.filter q).filter fun x => v ≤ x := by
  obtain ⟨rest, hrest⟩ := filter_isPrefix hl hq
  cases hn : (l.filter q)[n]? with
  | some v' =>
    have hlt := (List.getElem?_eq_some_iff.mp hn).1
    have hsame : l[n]? = some v' := by
      rw [← hrest, List.getElem?_append_left hlt, hn]
    rw [Option.some.inj (hsame.symm.trans hv)]
  | none =>
    have hle := List.getElem?_eq_none_iff.mp hn
    refine (List.filter_eq_self.mpr fun x hx => decide_eq_true ?_).symm
    obtain ⟨i, hi⟩ := List.mem_iff_getElem?.mp hx
    have hi : (l.filter q)[i]? = some x := hi
    have hlt := (List.getElem?_eq_some_iff.mp hi).1
    have hget : l[i]? = some x := by
      conv_lhs => rw [← hrest]
      rw [List.getElem?_append_left hlt, hi]
    exact getElem?_le_of_descending hl (Nat.le_trans hlt.le hle) hget hv

end Descending

end VllmMetal
