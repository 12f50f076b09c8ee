import Mathlib.Data.List.Basic
import Mathlib.Data.List.GetD

/-!
# Splicing rows in order

Some rows of a list are replaced, from the first to the last, by pieces that are collected and
concatenated once.  A cursor says how far the pieces reach; the rows beyond it are the old ones.

## Main definitions

* `Splice` — the pieces so far, and the row they reach to.
* `Settled` — which rows the pieces and the old rows already give as they have to be.

## Main results

* `Settled.splice` — one piece more.
* `Settled.getElem?_rows`, `Settled.length_rows` — the rows in the end.
-/

namespace VllmMetal

/-- The pieces collected so far and the row they reach to. -/
structure Splice (α : Type*) where
  cursor : ℕ
  pieces : List (List α)

namespace Splice

variable {α : Type*}

/-- Nothing spliced. -/
def start : Splice α := ⟨0, []⟩

/-- The pieces, and the old rows behind them. -/
def rows (s : Splice α) (old : List α) : List α :=
  if s.pieces = [] then old else s.pieces.flatten ++ old.drop s.cursor

/-- The old rows up to a row, and then some new ones. -/
def push (s : Splice α) (old : List α) (rowStart : ℕ) (new : List α) : Splice α :=
  ⟨rowStart + new.length, s.pieces ++ [(old.drop s.cursor).take (rowStart - s.cursor), new]⟩

/-- Below the cursor the pieces are the target; beyond it the old rows are, except where it is
still open. -/
structure Settled (old : List α) (target : ℕ → Option α) (stillOpen : ℕ → Prop)
    (s : Splice α) : Prop where
  length : s.pieces.flatten.length = s.cursor
  nil : s.pieces = [] → s.cursor = 0
  below : ∀ k, k < s.cursor → s.pieces.flatten[k]? = target k
  beyond : ∀ k, s.cursor ≤ k → ¬ stillOpen k → old[k]? = target k

variable {old : List α} {target : ℕ → Option α} {stillOpen stillOpen' : ℕ → Prop} {s : Splice α}

theorem settled_start (h : ∀ k, ¬ stillOpen k → old[k]? = target k) :
    Settled old target stillOpen (start : Splice α) where
  length := rfl
  nil := fun _ => rfl
  below := fun k hk => absurd hk (Nat.not_lt_zero k)
  beyond := fun k _ hk => h k hk

/-- Rows are closed where the old ones are the target. -/
theorem Settled.close (h : Settled old target stillOpen s)
    (hclose : ∀ k, s.cursor ≤ k → stillOpen k → ¬ stillOpen' k → old[k]? = target k) :
    Settled old target stillOpen' s where
  length := h.length
  nil := h.nil
  below := h.below
  beyond := fun k hk hnot => by
    by_cases ho : stillOpen k
    · exact hclose k hk ho hnot
    · exact h.beyond k hk ho

/-- **One piece more** settles its own rows, and those between the cursor and it. -/
theorem Settled.splice (h : Settled old target stillOpen s) {rowStart : ℕ} {new : List α}
    (hstart : s.cursor ≤ rowStart) (hlen : rowStart ≤ old.length)
    (hgap : ∀ k, s.cursor ≤ k → k < rowStart → ¬ stillOpen k)
    (hnew : ∀ t, t < new.length → new[t]? = target (rowStart + t))
    (hopen : ∀ k, rowStart + new.length ≤ k → stillOpen k → stillOpen' k) :
    Settled old target stillOpen' (s.push old rowStart new) := by
  have hflatten : (s.push old rowStart new).pieces.flatten =
      s.pieces.flatten ++ ((old.drop s.cursor).take (rowStart - s.cursor) ++ new) := by
    simp [push]
  have hgapLen : ((old.drop s.cursor).take (rowStart - s.cursor)).length =
      rowStart - s.cursor := by
    rw [List.length_take, List.length_drop]
    omega
  constructor
  case length =>
    change _ = rowStart + new.length
    rw [hflatten, List.length_append, List.length_append, h.length, hgapLen]
    omega
  case nil =>
    intro hnil
    simp [push] at hnil
  case below =>
    intro k hk
    rw [hflatten]
    -- rows below the old cursor, rows of the gap, and rows of the new piece
    rcases Nat.lt_or_ge k s.cursor with hlt | hge
    · rw [List.getElem?_append_left (by rwa [h.length]), h.below k hlt]
    · rw [List.getElem?_append_right (by rwa [h.length]), h.length]
      rcases Nat.lt_or_ge k rowStart with hlt | hge'
      · rw [List.getElem?_append_left (by rw [hgapLen]; omega),
          List.getElem?_take_of_lt (by omega), List.getElem?_drop, Nat.add_sub_cancel' hge]
        exact h.beyond k hge (hgap k hge hlt)
      · have hk' : k < rowStart + new.length := hk
        rw [List.getElem?_append_right (by rw [hgapLen]; omega), hgapLen,
          hnew _ (by omega)]
        congr 1
        omega
  case beyond =>
    intro k hk hnot
    have hk' : rowStart + new.length ≤ k := hk
    exact h.beyond k (by omega) fun ho => hnot (hopen k hk' ho)

/-- **When nothing is open, the rows are the target.** -/
theorem Settled.getElem?_rows (h : Settled old target stillOpen s) (hopen : ∀ k, ¬ stillOpen k)
    (k : ℕ) : (s.rows old)[k]? = target k := by
  rw [rows]
  split
  · next hnil => exact h.beyond k (by rw [h.nil hnil]; exact Nat.zero_le k) (hopen k)
  · rcases Nat.lt_or_ge k s.cursor with hlt | hge
    · rw [List.getElem?_append_left (by rwa [h.length]), h.below k hlt]
    · rw [List.getElem?_append_right (by rwa [h.length]), h.length, List.getElem?_drop,
        Nat.add_sub_cancel' hge]
      exact h.beyond k hge (hopen k)

theorem Settled.length_rows (h : Settled old target stillOpen s) (hcursor : s.cursor ≤ old.length) :
    (s.rows old).length = old.length := by
  rw [rows]
  split
  · rfl
  · rw [List.length_append, List.length_drop, h.length]
    omega

end Splice

end VllmMetal
