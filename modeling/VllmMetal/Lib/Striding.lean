import VllmMetal.Lib.Ragged
import VllmMetal.Lib.SparseRows
import Mathlib.Algebra.BigOperators.Group.List.Basic
import Mathlib.Algebra.BigOperators.Ring.List
import Mathlib.Data.List.Nodup
import Mathlib.Data.List.Range

/-!
# Work strided over threads

The threads of a group share a loop by striding it: thread `t` of `n` takes the indices `t`,
`t + n`, and so on.  Every index is taken once, so that sums over the threads are sums over the
loop.

## Main definitions

* `strided start stop stride` — the indices of a strided loop.
* `sumOver n f` — the sum of `f` below `n`.

## Main results

* `perm_strided` — the threads of a group take every index once.
* `sumOver_strided` — a sum over the threads is a sum over the loop.
* `sumOver_mul` — a sum over a grid, row by row.
-/

namespace VllmMetal

/-! ### Strided loops -/

/-- The indices of `for (i = start; i < stop; i += stride)`. -/
def strided (start stop stride : ℕ) : List ℕ :=
  List.range' start ((stop - start + stride - 1) / stride) stride

/-- A strided loop has the indices of its residue. -/
theorem mem_strided {t stop n i : ℕ} (ht : t < n) :
    i ∈ strided t stop n ↔ i < stop ∧ i % n = t := by
  have hn : 0 < n := by omega
  rw [strided, List.mem_range']
  constructor
  · rintro ⟨k, hk, rfl⟩
    have hmul : (k + 1) * n ≤ stop - t + n - 1 := (Nat.le_div_iff_mul_le hn).mp hk
    rw [Nat.succ_mul, Nat.mul_comm] at hmul
    refine ⟨by omega, ?_⟩
    rw [Nat.add_mul_mod_self_left, Nat.mod_eq_of_lt ht]
  · rintro ⟨hi, hmod⟩
    have hsplit := Nat.div_add_mod i n
    rw [hmod] at hsplit
    refine ⟨i / n, ?_, by omega⟩
    apply (Nat.le_div_iff_mul_le hn).mpr
    show (i / n + 1) * n ≤ _
    rw [Nat.succ_mul, Nat.mul_comm]
    omega

theorem nodup_strided (start stop : ℕ) {stride : ℕ} (h : 0 < stride) :
    (strided start stop stride).Nodup := List.nodup_range' stride h

/-- **The threads of a group take every index of the loop once.** -/
theorem perm_strided {n : ℕ} (hn : 0 < n) (stop : ℕ) :
    ((List.range n).flatMap fun t => strided t stop n).Perm (List.range stop) := by
  have hnodup : ((List.range n).flatMap fun t => strided t stop n).Nodup := by
    rw [List.nodup_flatMap]
    refine ⟨fun t _ => nodup_strided t stop hn, ?_⟩
    apply (List.nodup_range (n := n)).imp_of_mem
    intro t u ht hu hne i hi hi'
    rw [List.mem_range] at ht hu
    rw [mem_strided ht] at hi
    rw [mem_strided hu] at hi'
    exact hne (hi.2.symm.trans hi'.2)
  rw [List.perm_ext_iff_of_nodup hnodup List.nodup_range]
  intro i
  rw [List.mem_flatMap, List.mem_range]
  constructor
  · rintro ⟨t, ht, hi⟩
    exact ((mem_strided (List.mem_range.mp ht)).mp hi).1
  · intro hi
    have hmod := Nat.mod_lt i hn
    exact ⟨i % n, List.mem_range.mpr hmod, (mem_strided hmod).mpr ⟨hi, rfl⟩⟩

/-- The places of a grid that is written column by column. -/
theorem nodup_columns (m n : ℕ) :
    ((List.range m).flatMap fun i => (List.range n).map fun j => j * m + i).Nodup := by
  rw [List.nodup_flatMap]
  constructor
  · intro i hi
    rw [List.mem_range] at hi
    apply List.nodup_range.map
    intro j j' h
    exact Nat.eq_of_mul_eq_mul_right (by omega) (Nat.add_right_cancel h)
  · apply (List.nodup_range (n := m)).imp_of_mem
    intro i i' hi hi' hne p hp hp'
    rw [List.mem_range] at hi hi'
    obtain ⟨j, -, rfl⟩ := List.mem_map.mp hp
    obtain ⟨j', -, h⟩ := List.mem_map.mp hp'
    have hmod := congrArg (· % m) h
    simp only [Nat.mul_comm _ m, Nat.mul_add_mod, Nat.mod_eq_of_lt hi, Nat.mod_eq_of_lt hi'] at hmod
    exact hne hmod.symm

/-! ### Sums -/

section Sums

variable {K : Type*} [AddCommMonoid K]

/-- The sum of `f` below `n`. -/
def sumOver (n : ℕ) (f : ℕ → K) : K := ((List.range n).map f).sum

theorem sumOver_congr {n : ℕ} {f g : ℕ → K} (h : ∀ i, i < n → f i = g i) :
    sumOver n f = sumOver n g := by
  unfold sumOver
  rw [List.map_congr_left fun i hi => h i (List.mem_range.mp hi)]

/-- An accumulating loop is a sum. -/
theorem foldl_add_eq_sum (l : List ℕ) (f : ℕ → K) (a : K) :
    l.foldl (fun acc i => acc + f i) a = a + (l.map f).sum := by
  induction l generalizing a with
  | nil => simp
  | cons i l ih => rw [List.foldl_cons, ih, List.map_cons, List.sum_cons, add_assoc]

theorem foldl_range_eq_sumOver (n : ℕ) (f : ℕ → K) :
    (List.range n).foldl (fun acc i => acc + f i) 0 = sumOver n f := by
  rw [foldl_add_eq_sum, zero_add]
  rfl

theorem sum_map_flatMap {α : Type*} (l : List α) (g : α → List ℕ) (f : ℕ → K) :
    ((l.flatMap g).map f).sum = (l.map fun a => ((g a).map f).sum).sum := by
  induction l with
  | nil => rfl
  | cons a l ih => rw [List.flatMap_cons, List.map_append, List.sum_append, ih, List.map_cons,
      List.sum_cons]

/-- **A sum over the threads is a sum over the loop.** -/
theorem sumOver_strided {n : ℕ} (hn : 0 < n) (stop : ℕ) (f : ℕ → K) :
    sumOver n (fun t => ((strided t stop n).map f).sum) = sumOver stop f := by
  rw [sumOver, ← sum_map_flatMap]
  exact ((perm_strided hn stop).map f).sum_eq

/-- **A sum over a grid, row by row.** -/
theorem sumOver_mul (m n : ℕ) (f : ℕ → K) :
    sumOver (m * n) f = sumOver m fun i => sumOver n fun j => f (i * n + j) := by
  rw [sumOver, range_mul_eq_flatMap, sum_map_flatMap]
  apply sumOver_congr
  intro i _
  rw [List.range'_eq_map_range, List.map_map]
  rfl

end Sums

theorem sumOver_mul_left {K : Type*} [NonUnitalNonAssocSemiring K] (n : ℕ) (a : K) (f : ℕ → K) :
    a * sumOver n f = sumOver n fun i => a * f i := by
  unfold sumOver
  rw [List.sum_map_mul_left]

theorem sumOver_sub {K : Type*} [AddCommGroup K] (n : ℕ) (f g : ℕ → K) :
    sumOver n f - sumOver n g = sumOver n fun i => f i - g i := by
  unfold sumOver
  induction List.range n with
  | nil => simp
  | cons i l ih =>
    simp only [List.map_cons, List.sum_cons]
    rw [← ih, add_sub_add_comm]

end VllmMetal
