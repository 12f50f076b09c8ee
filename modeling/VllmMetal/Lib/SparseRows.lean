import Mathlib.Data.List.ReduceOption
import Mathlib.Data.List.Basic

/-!
# Sparse rows

A list of optional rows can be kept as a mask and the list of the rows that are there, in
order.  Such a pair is written window by window, and read back by placing the rows where the
mask is set, or by scattering them over a list of other rows.

## Main definitions

* `setSlice` — overwrite a window of a list.
* `placed` — the optional rows of a mask and a list of rows.
* `whereTrue`, `scatterRows` — the indices of a mask, and a scatter at indices.

## Main results

* `reduceOption_setSlice` — writing into the blank end of a list appends to its rows.
* `placed_reduceOption` — the mask and the rows of a list give it back.
* `scatterRows_whereTrue` — the scatter replaces exactly the rows that are there.
-/

namespace VllmMetal

variable {α β : Type*}

/-! ### Windows -/

/-- Overwrite the window that starts at `k`. -/
def setSlice (l : List α) (k : ℕ) (new : List α) : List α :=
  l.take k ++ new ++ l.drop (k + new.length)

theorem map_setSlice (f : α → β) (l : List α) (k : ℕ) (new : List α) :
    (setSlice l k new).map f = setSlice (l.map f) k (new.map f) := by
  simp [setSlice, List.map_take, List.map_drop]

theorem getElem?_setSlice {l new : List α} {k : ℕ} (h : k + new.length ≤ l.length) (i : ℕ) :
    (setSlice l k new)[i]? = if k ≤ i ∧ i < k + new.length then new[i - k]? else l[i]? := by
  have htake : (l.take k).length = k := by
    rw [List.length_take]
    omega
  unfold setSlice
  split
  · next hi =>
    rw [List.getElem?_append_left (by rw [List.length_append, htake]; exact hi.2),
      List.getElem?_append_right (by rw [htake]; exact hi.1), htake]
  · next hi =>
    by_cases hk : i < k
    · rw [List.append_assoc, List.getElem?_append_left (by rw [htake]; exact hk),
        List.getElem?_take, if_pos hk]
    · rw [List.getElem?_append_right (by rw [List.length_append, htake]; omega),
        List.getElem?_drop, List.length_append, htake]
      congr 1
      omega

theorem setSlice_nil (l : List α) (k : ℕ) : setSlice l k [] = l := by
  simp [setSlice]

/-- A window that holds what is written already. -/
theorem setSlice_eq_self {l new : List α} {k : ℕ} (h : (l.drop k).take new.length = new) :
    setSlice l k new = l := by
  unfold setSlice
  conv_rhs => rw [← List.take_append_drop k l, ← List.take_append_drop new.length (l.drop k)]
  rw [h, List.drop_drop, List.append_assoc]

/-! ### Optional rows -/

theorem reduceOption_eq_nil {l : List (Option α)} (h : ∀ x ∈ l, x = none) :
    l.reduceOption = [] := List.filterMap_eq_nil_iff.mpr h

/-- **Writing into the blank end of a list appends to its rows.** -/
theorem reduceOption_setSlice {l new : List (Option α)} {k : ℕ}
    (hblank : ∀ x ∈ l.drop k, x = none) :
    (setSlice l k new).reduceOption = l.reduceOption ++ new.reduceOption := by
  have hrest : (l.drop (k + new.length)).reduceOption = [] := by
    refine reduceOption_eq_nil fun x hx => hblank x ?_
    rw [← List.drop_drop] at hx
    exact List.mem_of_mem_drop hx
  have hhead : l.reduceOption = (l.take k).reduceOption := by
    conv_lhs => rw [← List.take_append_drop k l]
    rw [List.reduceOption_append, reduceOption_eq_nil hblank, List.append_nil]
  rw [setSlice, List.reduceOption_append, List.reduceOption_append, hrest, List.append_nil, hhead]

/-- Writing nothing into the blank end of a list changes nothing. -/
theorem setSlice_blank {l new : List (Option α)} {k : ℕ} (hblank : ∀ x ∈ l.drop k, x = none)
    (hnone : ∀ x ∈ new, x = none) (hfit : k + new.length ≤ l.length) : setSlice l k new = l := by
  refine setSlice_eq_self ?_
  rw [List.eq_replicate_of_mem fun x hx => hblank x (List.mem_of_mem_take hx),
    List.eq_replicate_of_mem hnone, List.length_take, List.length_drop, List.length_replicate]
  congr 1
  omega

/-- The rows placed where the mask is set, in order. -/
def placed : List Bool → List α → List (Option α)
  | [], _ => []
  | false :: mask, rows => none :: placed mask rows
  | true :: mask, rows => rows.head? :: placed mask rows.tail

/-- **The mask and the rows of a list give it back.** -/
theorem placed_reduceOption (l : List (Option α)) :
    placed (l.map Option.isSome) l.reduceOption = l := by
  induction l with
  | nil => rfl
  | cons x l ih =>
    cases x with
    | none => rw [List.reduceOption_cons_of_none, List.map_cons, Option.isSome_none, placed, ih]
    | some a => rw [List.reduceOption_cons_of_some, List.map_cons, Option.isSome_some, placed,
        List.head?_cons, List.tail_cons, ih]

/-- A list has as many rows as its mask has bits set. -/
theorem length_reduceOption_eq_count (l : List (Option α)) :
    l.reduceOption.length = (l.map Option.isSome).count true := by
  induction l with
  | nil => rfl
  | cons x l ih =>
    cases x with
    | none => rw [List.reduceOption_cons_of_none, ih, List.map_cons, Option.isSome_none,
        List.count_cons_of_ne Bool.false_ne_true]
    | some a => rw [List.reduceOption_cons_of_some, List.length_cons, ih, List.map_cons,
        Option.isSome_some, List.count_cons_self]

/-! ### Scatter -/

/-- The indices where a mask is set, counted from `k`. -/
def whereTrue : ℕ → List Bool → List ℕ
  | _, [] => []
  | k, b :: mask => if b then k :: whereTrue (k + 1) mask else whereTrue (k + 1) mask

/-- Write rows at indices, one after the other. -/
def scatterRows (old : List α) (positions : List ℕ) (rows : List α) : List α :=
  (positions.zip rows).foldl (fun acc p => acc.set p.1 p.2) old

@[simp] theorem length_scatterRows (old : List α) (positions : List ℕ) (rows : List α) :
    (scatterRows old positions rows).length = old.length := by
  unfold scatterRows
  induction positions.zip rows generalizing old with
  | nil => rfl
  | cons p ps ih => rw [List.foldl_cons, ih, List.length_set]

theorem getElem?_scatterRows_of_not_mem (old : List α) {positions : List ℕ} (rows : List α) {i : ℕ}
    (hi : i ∉ positions) : (scatterRows old positions rows)[i]? = old[i]? := by
  induction positions generalizing old rows with
  | nil => rfl
  | cons position positions ih =>
    rw [List.mem_cons, not_or] at hi
    cases rows with
    | nil => rfl
    | cons row rows =>
      have hrest := ih (old.set position row) rows hi.2
      rw [List.getElem?_set_ne (Ne.symm hi.1)] at hrest
      exact hrest

/-- Rows written at distinct indices are found there. -/
theorem getElem?_scatterRows {old : List α} {positions : List ℕ} {rows : List α} {k i : ℕ} {row : α}
    (hnodup : positions.Nodup) (hposition : positions[k]? = some i) (hrow : rows[k]? = some row)
    (hi : i < old.length) : (scatterRows old positions rows)[i]? = some row := by
  induction positions generalizing old rows k with
  | nil => simp at hposition
  | cons position positions ih =>
    rw [List.nodup_cons] at hnodup
    cases rows with
    | nil => simp at hrow
    | cons head rows =>
      have hstep : scatterRows old (position :: positions) (head :: rows) =
          scatterRows (old.set position head) positions rows := rfl
      rw [hstep]
      cases k with
      | zero =>
        obtain rfl : position = i := by simpa using hposition
        obtain rfl : head = row := by simpa using hrow
        rw [getElem?_scatterRows_of_not_mem _ rows hnodup.1, List.getElem?_set_self hi]
      | succ k =>
        exact ih hnodup.2 (by simpa using hposition) (by simpa using hrow) (by simpa using hi)

theorem scatterRows_append (l : List (Option α)) (front old : List α)
    (hlen : l.length = old.length) :
    scatterRows (front ++ old) (whereTrue front.length (l.map Option.isSome)) l.reduceOption =
      front ++ List.zipWith (fun x row => x.getD row) l old := by
  induction l generalizing front old with
  | nil =>
    obtain rfl : old = [] := List.length_eq_zero_iff.mp hlen.symm
    rfl
  | cons x l ih =>
    cases old with
    | nil => cases hlen
    | cons row old =>
      have htail : l.length = old.length := Nat.succ.inj hlen
      have hgrow : ∀ r : α, front ++ r :: old = (front ++ [r]) ++ old := fun r => by simp
      have hlength : ∀ r : α, (front ++ [r]).length = front.length + 1 := fun r => by simp
      cases x with
      | none =>
        rw [List.reduceOption_cons_of_none, List.map_cons, Option.isSome_none, whereTrue,
          if_neg Bool.false_ne_true, hgrow, ← hlength row, ih _ _ htail, List.append_assoc]
        rfl
      | some a =>
        have hset : (front ++ row :: old).set front.length a = (front ++ [a]) ++ old := by
          rw [List.set_append_right _ _ (Nat.le_refl _), Nat.sub_self, List.set_cons_zero, hgrow]
        rw [List.reduceOption_cons_of_some, List.map_cons, Option.isSome_some, whereTrue,
          if_pos rfl, scatterRows, List.zip_cons_cons, List.foldl_cons, hset, ← hlength a,
          ← scatterRows, ih _ _ htail, List.append_assoc]
        rfl

/-- **The scatter replaces exactly the rows that are there.** -/
theorem scatterRows_whereTrue (l : List (Option α)) (old : List α) (hlen : l.length = old.length) :
    scatterRows old (whereTrue 0 (l.map Option.isSome)) l.reduceOption =
      List.zipWith (fun x row => x.getD row) l old :=
  scatterRows_append l [] old hlen

end VllmMetal
