import Mathlib.Data.List.FinRange
import VllmMetal.Lib.WriteBack

/-!
# Pools that several users share

A pool of rows in which each of several users may have one update parked.  A user reads its own
update and the pool, and does not know of the others': it is the owner of the slots that keeps
them apart.  The *value* of a slot is the row that some user has parked for it, else the pool's.
As long as no two users have a row parked for one slot, whatever a user assigns to slots that no
other user has parked is assigned to the value.

## Main definitions

* `SharedPool n S R` — a pool and an update of each of `n` users.
* `view`, `modify` — what one user reads, and what it does.
* `Free i s` — nobody but user `i` has a row parked for the slot.
* `Exclusive` — no slot has the rows of two users parked.

## Main results

* `value_of_free` — a user reads the value of a slot that is free for it.
* `exclusive_modify`, `value_modify` — **what a user assigns to free slots**.
-/

namespace VllmMetal

variable {n : ℕ} {S R : Type*} [DecidableEq S]

/-- A pool of rows, and at most one update parked beside it by each user. -/
structure SharedPool (n : ℕ) (S R : Type*) where
  /-- The stable rows. -/
  pool : S → R
  /-- The updates not yet written to the pool. -/
  parked : Fin n → Option (RowUpdate S R)

namespace SharedPool

variable (p : SharedPool n S R)

/-- What a user reads: the pool and its own update. -/
def view (i : Fin n) : WriteBack S R := ⟨p.pool, p.parked i⟩

/-- What a user does. -/
def modify (i : Fin n) (f : WriteBack S R → WriteBack S R) : SharedPool n S R where
  pool := (f (p.view i)).pool
  parked := Function.update p.parked i (f (p.view i)).parked

/-- No other user has a row parked for the slot. -/
def Free (i : Fin n) (s : S) : Prop := ∀ j, j ≠ i → ¬ (p.view j).Parks s

/-- No two users have a row parked for one slot. -/
def Exclusive : Prop := ∀ i j s, (p.view i).Parks s → (p.view j).Parks s → i = j

/-- The row of a slot: the one that is parked for it, else the pool's. -/
def value : S → R := fun s =>
  ((List.finRange n).findSome? fun i => (p.view i).row? s).getD (p.pool s)

omit [DecidableEq S] in
@[simp] theorem view_modify_self (i : Fin n) (f : WriteBack S R → WriteBack S R) :
    (p.modify i f).view i = f (p.view i) := by
  simp [view, modify]

omit [DecidableEq S] in
theorem parked_modify_of_ne {i j : Fin n} (f : WriteBack S R → WriteBack S R) (h : j ≠ i) :
    (p.modify i f).parked j = p.parked j :=
  Function.update_of_ne h _ _

omit [DecidableEq S] in
/-- Others see what a user writes to the pool, but keep what they have parked. -/
theorem parks_modify_of_ne {i j : Fin n} {f : WriteBack S R → WriteBack S R} {s : S}
    (h : j ≠ i) : ((p.modify i f).view j).Parks s ↔ (p.view j).Parks s := by
  simp only [WriteBack.Parks, view, p.parked_modify_of_ne f h]

omit [DecidableEq S] in
theorem free_modify {i : Fin n} {f : WriteBack S R → WriteBack S R} {s : S} :
    (p.modify i f).Free i s ↔ p.Free i s :=
  forall_congr' fun _ => imp_congr_right fun h => not_congr (p.parks_modify_of_ne h)

variable {p}

/-- The value of a slot depends on the rows of that slot alone. -/
theorem value_congr {p' : SharedPool n S R} {s : S}
    (hrow : ∀ i, (p'.view i).row? s = (p.view i).row? s) (hpool : p'.pool s = p.pool s) :
    p'.value s = p.value s := by
  simp only [value, hrow, hpool]

/-- **A user reads the value of a slot that no other user has parked.** -/
theorem value_of_free {i : Fin n} {s : S} (h : p.Free i s) : p.value s = (p.view i).value s := by
  have hfind : ((List.finRange n).findSome? fun j => (p.view j).row? s) = (p.view i).row? s := by
    cases hfind : (List.finRange n).findSome? fun j => (p.view j).row? s with
    | none => exact (List.findSome?_eq_none_iff.mp hfind i (List.mem_finRange i)).symm
    | some r =>
      obtain ⟨j, -, hj⟩ := List.exists_of_findSome?_eq_some hfind
      by_cases hji : j = i
      · rw [← hj, hji]
      · rw [(p.view j).row?_eq_none_iff.mpr (h j hji)] at hj
        cases hj
  rw [value, hfind]
  exact ((p.view i).value_eq_getD s).symm

/-- A slot that nobody has parked has the pool's row. -/
theorem value_of_not_parks {s : S} (h : ∀ i, ¬ (p.view i).Parks s) : p.value s = p.pool s := by
  have hfind : ((List.finRange n).findSome? fun j => (p.view j).row? s) = none :=
    List.findSome?_eq_none_iff.mpr fun j _ => (p.view j).row?_eq_none_iff.mpr (h j)
  rw [value, hfind, Option.getD_none]

omit [DecidableEq S] in
/-- A slot that one user has parked is free for that user. -/
theorem Exclusive.free (h : p.Exclusive) {i : Fin n} {s : S} (hs : (p.view i).Parks s) :
    p.Free i s := fun j hne hj => hne (h j i s hj hs)

section Modify

variable {i : Fin n} {f : WriteBack S R → WriteBack S R} {ids : List S} {rows : List R}
  (hp : p.Exclusive) (h : (p.view i).Assigns (f (p.view i)) ids rows)
  (hfree : ∀ s ∈ ids, p.Free i s)

include hp h hfree

/-- **A user that assigns to free slots keeps the users apart.** -/
theorem exclusive_modify : (p.modify i f).Exclusive := by
  -- what the user has parked now is one of the slots, or was parked before
  have hself : ∀ s, ((p.modify i f).view i).Parks s → s ∈ ids ∨ (p.view i).Parks s := fun s hs =>
    h.parks s (p.view_modify_self i f ▸ hs)
  have hother : ∀ j s, j ≠ i → ((p.modify i f).view i).Parks s →
      ¬ ((p.modify i f).view j).Parks s := by
    intro j s hne hs hj
    rw [p.parks_modify_of_ne hne] at hj
    rcases hself s hs with hmem | hs
    · exact hfree s hmem j hne hj
    · exact hne (hp j i s hj hs)
  intro j k s hj hk
  by_cases hji : j = i
  · subst hji
    by_contra hne
    exact hother k s (fun heq => hne heq.symm) hj hk
  · by_cases hki : k = i
    · subst hki
      exact absurd hj (hother j s hji hk)
    · exact hp j k s ((p.parks_modify_of_ne hji).mp hj) ((p.parks_modify_of_ne hki).mp hk)

/-- **What a user assigns to free slots is assigned to the value.** -/
theorem value_modify (hlen : rows.length = ids.length) :
    (p.modify i f).value = assign p.value ids rows := by
  have hview : ∀ s, p.Free i s → (p.modify i f).value s = assign p.value ids rows s := by
    intro s hs
    rw [value_of_free ((p.free_modify).mpr hs), view_modify_self, h.value]
    exact assign_congr hlen fun _ => (value_of_free hs).symm
  funext s
  by_cases hs : p.Free i s
  · exact hview s hs
  · -- another user has a row parked for the slot, and keeps it
    obtain ⟨j, hne, hj⟩ : ∃ j, j ≠ i ∧ (p.view j).Parks s := by
      simpa only [Free, not_forall, not_not, exists_prop] using hs
    have hnot : s ∉ ids := fun hmem => hfree s hmem j hne hj
    have hj' : ((p.modify i f).view j).Parks s := (p.parks_modify_of_ne hne).mpr hj
    rw [assign_of_not_mem hlen hnot, value_of_free (hp.free hj),
      value_of_free ((exclusive_modify hp h hfree).free hj'), WriteBack.value_eq_getD,
      WriteBack.value_eq_getD]
    have hrow : ((p.modify i f).view j).row? s = (p.view j).row? s := by
      simp only [WriteBack.row?, view, p.parked_modify_of_ne f hne]
    cases hrow' : (p.view j).row? s with
    | none => exact absurd hj ((p.view j).row?_eq_none_iff.mp hrow')
    | some r => rw [hrow, hrow', Option.getD_some, Option.getD_some]

end Modify

end SharedPool

end VllmMetal
