import Mathlib.Order.Lattice
import Mathlib.Order.MinMax

/-!
# The largest of a list

## Main results

* `le_foldl_max`, `foldl_max_le` — a running maximum is the least bound of the start and the list.
* `foldl_min_le` — a running minimum is below both.
-/

namespace VllmMetal

variable {α : Type*} [LinearOrder α]

/-- A running maximum is above its start and its list, -/
theorem le_foldl_max (l : List α) (a : α) : a ≤ l.foldl max a ∧ ∀ x ∈ l, x ≤ l.foldl max a := by
  induction l generalizing a with
  | nil => simp
  | cons b l ih =>
    obtain ⟨hstart, hmem⟩ := ih (max a b)
    refine ⟨(le_max_left a b).trans hstart, fun x hx => ?_⟩
    rcases List.mem_cons.mp hx with rfl | hx
    · exact (le_max_right a x).trans hstart
    · exact hmem x hx

/-- and below every other bound of them. -/
theorem foldl_max_le {l : List α} {a bound : α} (ha : a ≤ bound) (h : ∀ x ∈ l, x ≤ bound) :
    l.foldl max a ≤ bound := by
  induction l generalizing a with
  | nil => exact ha
  | cons b l ih =>
    exact ih (max_le ha (h b List.mem_cons_self)) fun x hx => h x (List.mem_cons_of_mem b hx)

/-- A running minimum is below its start and its list. -/
theorem foldl_min_le (l : List α) (a : α) : l.foldl min a ≤ a ∧ ∀ x ∈ l, l.foldl min a ≤ x :=
  @le_foldl_max αᵒᵈ _ l a

end VllmMetal
