import VllmMetal.Lib.Ragged
import Mathlib.Algebra.BigOperators.Group.List.Basic
import Mathlib.Algebra.Ring.Defs
import Mathlib.Data.List.GetD
import Mathlib.Data.Multiset.Bind

/-!
# Gathers

An index gathers the entries of a list in another order.  The indices here are permutations: what
`argsort` gives for one undoes it, a dot product does not see one that is taken of both its
arguments, and reordering the axes of a grid gives one.

## Main definitions

* `gather` — the entries of a list at an index.
* `argsort` — the index that sorts.
* `grid3` — a grid of three axes, row-major.

## Main results

* `gather_gather_argsort` — an index undoes its `argsort`.
* `sum_zipWith_gather_argsort` — a dot product with a gathered vector.
* `perm_grid3_swap_12`, `perm_grid3_swap_01` — grids with swapped axes.
-/

namespace VllmMetal

variable {α β : Type*}

/-! ### Indices -/

/-- The entries at an index. -/
def gather (dflt : α) (xs : List α) (index : List ℕ) : List α := index.map fun i => xs.getD i dflt

@[simp] theorem length_gather (dflt : α) (xs : List α) (index : List ℕ) :
    (gather dflt xs index).length = index.length := List.length_map _

theorem getD_gather (dflt : α) (xs : List α) {index : List ℕ} {j : ℕ} (hj : j < index.length) :
    (gather dflt xs index).getD j dflt = xs.getD (index.getD j 0) dflt := by
  rw [gather, List.getD_eq_getElem _ _ (by rwa [List.length_map]), List.getElem_map,
    List.getD_eq_getElem _ _ hj]

theorem gather_range (dflt : α) {xs : List α} {n : ℕ} (hlength : xs.length = n) :
    gather dflt xs (List.range n) = xs := by
  refine List.ext_getElem (by simp [hlength]) fun i hi hi' => ?_
  simp [gather, hi']

theorem gather_gather (dflt : α) (xs : List α) {index index' : List ℕ}
    (h : ∀ j ∈ index', j < index.length) :
    gather dflt (gather dflt xs index) index' = gather dflt xs (gather 0 index index') := by
  have hmap : gather dflt xs (gather 0 index index') =
      index'.map fun j => xs.getD (index.getD j 0) dflt := List.map_map
  rw [hmap, gather]
  exact List.map_congr_left fun j hj => getD_gather dflt xs (h j hj)

/-- The index that sorts. -/
def argsort (index : List ℕ) : List ℕ :=
  (List.range index.length).mergeSort fun i j => index.getD i 0 ≤ index.getD j 0

theorem perm_argsort (index : List ℕ) : (argsort index).Perm (List.range index.length) :=
  List.mergeSort_perm _ _

@[simp] theorem length_argsort (index : List ℕ) : (argsort index).length = index.length := by
  rw [(perm_argsort index).length_eq, List.length_range]

section Permutations

variable {index : List ℕ} {n : ℕ}

theorem length_of_perm_range (h : index.Perm (List.range n)) : index.length = n := by
  rw [h.length_eq, List.length_range]

theorem lt_of_perm_range (h : index.Perm (List.range n)) {i : ℕ} (hi : i ∈ index) : i < n :=
  List.mem_range.mp (h.subset hi)

/-- A permutation at its `argsort`. -/
theorem gather_argsort (h : index.Perm (List.range n)) :
    gather 0 index (argsort index) = List.range n := by
  have hperm : (gather 0 index (argsort index)).Perm (List.range n) := by
    have hmap := (perm_argsort index).map fun i => index.getD i 0
    exact hmap.trans ((List.Perm.of_eq (gather_range 0 rfl)).trans h)
  refine @List.Perm.eq_of_pairwise ℕ (fun a b => a ≤ b) _ _ (fun a b _ _ => le_antisymm) ?_ ?_ hperm
  · rw [gather, List.pairwise_map]
    have hsorted := @List.pairwise_mergeSort ℕ
      (fun i j => decide (index.getD i 0 ≤ index.getD j 0))
      (by simpa using fun a b c => le_trans) (by simpa using fun a b => le_total _ _)
      (List.range index.length)
    exact hsorted.imp fun h => of_decide_eq_true h
  · exact List.pairwise_lt_range.imp Nat.le_of_lt

/-- The `argsort` of a permutation, at it. -/
theorem argsort_gather (h : index.Perm (List.range n)) :
    gather 0 (argsort index) index = List.range n := by
  have hlength := length_of_perm_range h
  have hnodup : index.Nodup := h.nodup_iff.mpr List.nodup_range
  refine List.ext_getElem (by simp [hlength]) fun i hi _ => ?_
  have hi' : i < index.length := by simpa using hi
  have hlt : index[i] < n := lt_of_perm_range h (List.getElem_mem hi')
  have hsort : index[i] < (argsort index).length := by rw [length_argsort, hlength]; exact hlt
  have harg : (argsort index)[index[i]] < index.length :=
    List.mem_range.mp ((perm_argsort index).subset (List.getElem_mem hsort))
  -- the permutation takes both places to the same entry
  have hentry : index[(argsort index)[index[i]]] = index[i] := by
    have hgather : (gather 0 index (argsort index)).getD index[i] 0 =
        (List.range n).getD index[i] 0 := by rw [gather_argsort h]
    rw [getD_gather 0 index hsort, List.getD_eq_getElem _ _ hsort,
      List.getD_eq_getElem _ _ harg, List.getD_eq_getElem _ _ (by simpa using hlt),
      List.getElem_range] at hgather
    exact hgather
  have hplace := (List.Nodup.getElem_inj_iff hnodup).mp hentry
  simp only [gather, List.getElem_map, List.getElem_range]
  rw [List.getD_eq_getElem _ _ hsort, hplace]

/-- **An index undoes its `argsort`.** -/
theorem gather_gather_argsort (h : index.Perm (List.range n)) (dflt : α) {xs : List α}
    (hxs : xs.length = n) : gather dflt (gather dflt xs (argsort index)) index = xs := by
  have hlength := length_of_perm_range h
  rw [gather_gather dflt xs fun j hj => ?_, argsort_gather h, gather_range dflt hxs]
  rw [length_argsort, hlength]
  exact lt_of_perm_range h hj

variable {K : Type*} [Semiring K]

/-- A dot product of vectors that are gathered alike. -/
theorem sum_zipWith_gather (h : index.Perm (List.range n)) {xs ys : List K} (hxs : xs.length = n)
    (hys : ys.length = n) :
    (List.zipWith (· * ·) (gather 0 xs index) (gather 0 ys index)).sum =
      (List.zipWith (· * ·) xs ys).sum := by
  have hzip : ∀ index' : List ℕ, List.zipWith (· * ·) (gather 0 xs index') (gather 0 ys index') =
      index'.map fun i => xs.getD i 0 * ys.getD i 0 := by
    intro index'
    rw [gather, gather, List.zipWith_map, List.zipWith_self]
  conv_rhs => rw [← gather_range 0 hxs, ← gather_range 0 hys]
  rw [hzip, hzip]
  exact (h.map _).sum_eq

/-- **A dot product with a gathered vector.** -/
theorem sum_zipWith_gather_argsort (h : index.Perm (List.range n)) {xs ys : List K}
    (hxs : xs.length = n) (hys : ys.length = n) :
    (List.zipWith (· * ·) (gather 0 xs (argsort index)) ys).sum =
      (List.zipWith (· * ·) xs (gather 0 ys index)).sum := by
  have hlength := length_of_perm_range h
  rw [← sum_zipWith_gather h (by rw [length_gather, length_argsort, hlength]) hys,
    gather_gather_argsort h 0 hxs]

end Permutations

/-! ### Indices of integers -/

/-- An index that sorts to a range stays inside it. -/
theorem toNat_lt_of_mergeSort {index : List ℤ} {n : ℕ}
    (h : index.mergeSort = (List.range n).map fun i : ℕ => (i : ℤ)) :
    ∀ i ∈ index.map Int.toNat, i < n := by
  intro i hi
  obtain ⟨z, hz, rfl⟩ := List.mem_map.mp hi
  have hsorted : z ∈ index.mergeSort := (List.mergeSort_perm index _).symm.subset hz
  rw [h] at hsorted
  obtain ⟨k, hk, rfl⟩ := List.mem_map.mp hsorted
  exact List.mem_range.mp hk

/-- A permutation sorts to a range. -/
theorem mergeSort_of_perm {index : List ℤ} {n : ℕ}
    (hperm : index.Perm ((List.range n).map fun i : ℕ => (i : ℤ))) :
    index.mergeSort = (List.range n).map fun i : ℕ => (i : ℤ) := by
  refine @List.Perm.eq_of_pairwise ℤ (fun a b => a ≤ b) _ _ ?_ ?_ ?_ ?_
  · exact fun a b _ _ => le_antisymm
  · have hsort := @List.pairwise_mergeSort ℤ (fun a b => decide (a ≤ b))
      (by simpa using fun a b c => le_trans) (by simpa using le_total) index
    simpa using hsort
  · rw [List.pairwise_map]
    exact List.pairwise_lt_range.imp fun h => by exact_mod_cast h.le
  · exact (List.mergeSort_perm index _).trans hperm

/-! ### Grids -/

/-- The entries of a grid of three axes, row-major. -/
def grid3 (a b c : ℕ) (f : ℕ → ℕ → ℕ → α) : List α :=
  (List.range a).flatMap fun i => (List.range b).flatMap fun j =>
    (List.range c).map fun k => f i j k

/-- A grid, entry by entry. -/
theorem grid3_eq_map (a b c : ℕ) (f : ℕ → ℕ → ℕ → α) :
    grid3 a b c f =
      (List.range (a * (b * c))).map fun e =>
        f (e / (b * c)) (e % (b * c) / c) (e % (b * c) % c) := by
  rw [grid3, List.flatMap_congr fun i _ => flatMap_range_map b c (f i), flatMap_range_map]

/-- The indices of a grid. -/
theorem grid3_index (a b c : ℕ) :
    grid3 a b c (fun i j k => (i * b + j) * c + k) = List.range (a * (b * c)) := by
  rw [grid3_eq_map]
  refine (List.map_congr_left fun e _ => ?_).trans (List.map_id _)
  have houter := Nat.div_add_mod' e (b * c)
  have hinner := Nat.div_add_mod' (e % (b * c)) c
  rw [id_eq, Nat.add_mul, Nat.add_assoc, hinner, Nat.mul_assoc, houter]

/-- Two axes of a grid, the other way round. -/
theorem perm_flatMap_range (a b : ℕ) (f : ℕ → ℕ → List α) :
    ((List.range a).flatMap fun i => (List.range b).flatMap fun j => f i j).Perm
      ((List.range b).flatMap fun j => (List.range a).flatMap fun i => f i j) := by
  have h := Multiset.bind_bind (List.range a : Multiset ℕ) (List.range b : Multiset ℕ)
    (f := fun i j => (f i j : Multiset α))
  simpa only [Multiset.coe_bind, Multiset.coe_eq_coe] using h

/-- **A grid with its first two axes swapped.** -/
theorem perm_grid3_swap_01 (a b c : ℕ) (f : ℕ → ℕ → ℕ → α) :
    (grid3 b a c fun j i k => f i j k).Perm (grid3 a b c f) :=
  perm_flatMap_range b a fun j i => (List.range c).map fun k => f i j k

/-- **A grid with its last two axes swapped.** -/
theorem perm_grid3_swap_12 (a b c : ℕ) (f : ℕ → ℕ → ℕ → α) :
    (grid3 a c b fun i k j => f i j k).Perm (grid3 a b c f) := by
  refine List.Perm.flatMap_left _ fun i _ => ?_
  have h := perm_flatMap_range c b fun k j => [f i j k]
  simpa only [List.flatMap_singleton', List.map_eq_flatMap] using h

end VllmMetal
