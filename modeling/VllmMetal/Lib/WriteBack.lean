import Mathlib.Data.List.Basic
import Mathlib.Data.List.Nodup
import Mathlib.Logic.Function.Basic

/-!
# Maps with a parked update

A map from slots to rows whose latest batch of writes may still be parked beside it: the
map proper is the *pool*, the parked batch is a list of distinct slots with one row each,
and the *value* of a slot is its parked row when it has one and its pool row otherwise.
Parking an update, flushing it and discarding one that a write has superseded are all
accounted for on the value, where the update was made at once.

## Main definitions

* `assign m ids rows` — the map with the rows assigned to the slots.
* `scatter m ids rows` — the same, written row by row.
* `setRows ids rows updateIds updates` — a batch of rows with some of them replaced.
* `RowUpdate S R` — distinct slots with one row each.
* `WriteBack S R` — a pool and at most one parked update.
* `Assigns w w' ids rows` — on the value, `w'` is `w` with the rows assigned to the slots, and
  nothing else was parked or written.

## Main results

* `scatter_eq_assign`, `foldl_scatter_eq_assign` — writing row by row to distinct slots
  assigns the rows.
* `value_flush`, `value_park`, `value_write` — the operations, on the value.
* `value_clear_write`, `value_park_clear` — a superseded update may be discarded.
* `assigns_flush`, `assigns_park`, `assigns_write` and the others — the operations as assignments.
-/

namespace VllmMetal

variable {S R : Type*} [DecidableEq S]

/-! ### Assigning rows to slots -/

/-- The map that has the `i`-th row at the `i`-th slot and is unchanged elsewhere. -/
def assign (m : S → R) (ids : List S) (rows : List R) : S → R := fun s =>
  (rows[ids.idxOf s]?).getD (m s)

@[simp] theorem assign_nil (m : S → R) (ids : List S) : assign m ids [] = m := by
  funext s; simp [assign]

/-- A slot that is not named keeps its row. -/
theorem assign_of_not_mem {m : S → R} {ids : List S} {rows : List R} {s : S}
    (hlen : rows.length = ids.length) (hs : s ∉ ids) : assign m ids rows s = m s := by
  rw [assign, List.idxOf_eq_length hs, List.getElem?_eq_none (Nat.le_of_eq hlen), Option.getD_none]

/-- The `i`-th of distinct slots gets the `i`-th row. -/
theorem assign_of_getElem? {m : S → R} {ids : List S} {rows : List R} {i : ℕ} {s : S} {r : R}
    (hnodup : ids.Nodup) (hs : ids[i]? = some s) (hr : rows[i]? = some r) :
    assign m ids rows s = r := by
  obtain ⟨hi, rfl⟩ := List.getElem?_eq_some_iff.mp hs
  rw [assign, hnodup.idxOf_getElem i hi, hr, Option.getD_some]

/-- What the rows assign at the named slots does not depend on the map before. -/
theorem assign_congr {m m' : S → R} {ids : List S} {rows : List R} {s : S}
    (hlen : rows.length = ids.length) (hs : s ∉ ids → m s = m' s) :
    assign m ids rows s = assign m' ids rows s := by
  by_cases hmem : s ∈ ids
  · have hlt : ids.idxOf s < rows.length := hlen ▸ List.idxOf_lt_length_of_mem hmem
    simp only [assign, List.getElem?_eq_getElem hlt, Option.getD_some]
  · rw [assign_of_not_mem hlen hmem, assign_of_not_mem hlen hmem, hs hmem]

/-- A second batch of rows for the same slots replaces the first. -/
theorem assign_assign_same {m : S → R} {ids : List S} {rows rows' : List R}
    (hlen : rows.length = ids.length) (hlen' : rows'.length = ids.length) :
    assign (assign m ids rows) ids rows' = assign m ids rows' := by
  funext s
  exact assign_congr hlen' fun hs => assign_of_not_mem hlen hs

/-- Reading back at the slots gives the rows. -/
theorem map_assign_ids {m : S → R} {ids : List S} {rows : List R} (hnodup : ids.Nodup)
    (hlen : rows.length = ids.length) : ids.map (assign m ids rows) = rows := by
  refine List.ext_getElem (by simp [hlen]) fun i hi hi' => ?_
  rw [List.getElem_map]
  exact assign_of_getElem? hnodup (List.getElem?_eq_getElem (by simpa using hi))
    (List.getElem?_eq_getElem hi')

/-- The rows written one after the other. -/
def scatter (m : S → R) (ids : List S) (rows : List R) : S → R :=
  (ids.zip rows).foldl (fun m' p => Function.update m' p.1 p.2) m

@[simp] theorem scatter_nil (m : S → R) (rows : List R) : scatter m [] rows = m := rfl

@[simp] theorem scatter_cons (m : S → R) (s : S) (ids : List S) (r : R) (rows : List R) :
    scatter m (s :: ids) (r :: rows) = scatter (Function.update m s r) ids rows := rfl

theorem scatter_of_not_mem {m : S → R} {ids : List S} {rows : List R} {s : S} (hs : s ∉ ids) :
    scatter m ids rows s = m s := by
  induction ids generalizing m rows with
  | nil => rfl
  | cons t ids ih =>
    cases rows with
    | nil => rfl
    | cons r rows =>
      rw [List.mem_cons, not_or] at hs
      rw [scatter_cons, ih hs.2, Function.update_of_ne hs.1]

/-- **A slot is left as it was, or holds one of the rows written to it.** -/
theorem scatter_cases (m : S → R) {ids : List S} {rows : List R} (hlen : ids.length ≤ rows.length)
    (s : S) : (s ∉ ids ∧ scatter m ids rows s = m s) ∨
      ∃ i : ℕ, ids[i]? = some s ∧ rows[i]? = some (scatter m ids rows s) := by
  induction ids generalizing m rows with
  | nil => exact .inl ⟨List.not_mem_nil, rfl⟩
  | cons t ids ih =>
    cases rows with
    | nil => simp at hlen
    | cons r rows =>
      rw [scatter_cons]
      rcases ih (Function.update m t r) (by simpa using hlen) with ⟨hmem, hval⟩ | ⟨i, hi, hrow⟩
      · by_cases hst : s = t
        · subst hst
          refine .inr ⟨0, rfl, ?_⟩
          rw [hval, Function.update_self]
          rfl
        · refine .inl ⟨?_, ?_⟩
          · rw [List.mem_cons, not_or]
            exact ⟨hst, hmem⟩
          · rw [hval, Function.update_of_ne hst]
      · exact .inr ⟨i + 1, hi, hrow⟩

/-- What is written at the slots depends on the map before at these slots alone. -/
theorem scatter_congr {m m' : S → R} {ids : List S} {rows : List R} {s : S}
    (h : ∀ t ∈ s :: ids, m t = m' t) : scatter m ids rows s = scatter m' ids rows s := by
  induction ids generalizing m m' rows with
  | nil => exact h s (by simp)
  | cons t ids ih =>
    cases rows with
    | nil => exact h s (by simp)
    | cons r rows =>
      rw [scatter_cons, scatter_cons]
      refine ih fun a ha => ?_
      rcases eq_or_ne a t with rfl | hat
      · simp
      · rw [Function.update_of_ne hat, Function.update_of_ne hat]
        exact h a (by simp only [List.mem_cons] at ha ⊢; tauto)

/-- **Writing row by row to distinct slots assigns the rows.** -/
theorem scatter_eq_assign {m : S → R} {ids : List S} {rows : List R} (hnodup : ids.Nodup)
    (hlen : rows.length = ids.length) : scatter m ids rows = assign m ids rows := by
  induction ids generalizing m rows with
  | nil =>
    obtain rfl : rows = [] := List.length_eq_zero_iff.mp hlen
    simp
  | cons t ids ih =>
    cases rows with
    | nil => simp at hlen
    | cons r rows =>
      obtain ⟨ht, hnodup⟩ := List.nodup_cons.mp hnodup
      have hlen' : rows.length = ids.length := by simpa using hlen
      funext s
      rw [scatter_cons, ih hnodup hlen']
      by_cases hst : s = t
      · rw [hst, assign_of_not_mem hlen' ht, Function.update_self]
        simp [assign]
      · have hidx : (t :: ids).idxOf s = ids.idxOf s + 1 := List.idxOf_cons_ne _ (Ne.symm hst)
        rw [assign, assign, hidx, List.getElem?_cons_succ, Function.update_of_ne hst]

/-- Records with distinct slots each leave their row. -/
theorem scatter_map_of_mem {β : Type*} {l : List β} {slot : β → S} {row : β → R} (m : S → R)
    (hnodup : (l.map slot).Nodup) {b : β} (hb : b ∈ l) :
    scatter m (l.map slot) (l.map row) (slot b) = row b := by
  obtain ⟨i, hi⟩ := List.mem_iff_getElem?.mp hb
  rw [scatter_eq_assign hnodup (by simp)]
  refine assign_of_getElem? hnodup (i := i) ?_ ?_
  · rw [List.getElem?_map, hi]
    rfl
  · rw [List.getElem?_map, hi]
    rfl

/-- One row written to every slot of a list, which may name a slot twice. -/
theorem scatter_replicate (m : S → R) (ids : List S) (r : R) (s : S) :
    scatter m ids (List.replicate ids.length r) s = if s ∈ ids then r else m s := by
  induction ids generalizing m with
  | nil => simp
  | cons t ids ih =>
    rw [List.length_cons, List.replicate_succ, scatter_cons, ih]
    by_cases hs : s ∈ ids
    · simp [hs]
    · by_cases hst : s = t
      · simp [hst]
      · simp [hs, hst]

/-- Rewriting distinct slots one after the other, each from the row it has by then. -/
theorem foldl_scatter_singleton (f : ℕ → R → R) {ids : List S} (hnodup : ids.Nodup) (m : S → R)
    (k : ℕ) : (ids.zipIdx k).foldl (fun m p => scatter m [p.1] [f p.2 (m p.1)]) m = fun s =>
      if s ∈ ids then f (k + ids.idxOf s) (m s) else m s := by
  induction ids generalizing m k with
  | nil => simp
  | cons t ids ih =>
    obtain ⟨ht, hnodup⟩ := List.nodup_cons.mp hnodup
    rw [List.zipIdx_cons, List.foldl_cons, ih hnodup]
    funext s
    by_cases hst : s = t
    · subst hst
      simp [ht]
    · have hidx : (t :: ids).idxOf s = ids.idxOf s + 1 := List.idxOf_cons_ne _ (Ne.symm hst)
      simp [hst, hidx, Nat.add_assoc, Nat.add_comm 1]

/-- **Rewriting distinct slots one after the other is rewriting them at once.** -/
theorem foldl_scatter_eq_assign (f : ℕ → R → R) {ids : List S} (hnodup : ids.Nodup)
    (m : S → R) : ids.zipIdx.foldl (fun m p => scatter m [p.1] [f p.2 (m p.1)]) m =
      assign m ids (ids.mapIdx fun i s => f i (m s)) := by
  rw [foldl_scatter_singleton f hnodup]
  funext s
  split
  · next hs =>
    have hlt := List.idxOf_lt_length_of_mem hs
    simp [assign, List.getElem?_mapIdx, List.getElem?_eq_getElem hlt]
  · next hs => exact (assign_of_not_mem (by simp) hs).symm

/-- Replacing the row of a named slot updates the assigned map there. -/
theorem assign_set {m : S → R} {ids : List S} {rows : List R} {t : S} (r : R)
    (hlen : rows.length = ids.length) (ht : t ∈ ids) :
    assign m ids (rows.set (ids.idxOf t) r) = Function.update (assign m ids rows) t r := by
  have hlt : ids.idxOf t < rows.length := hlen ▸ List.idxOf_lt_length_of_mem ht
  funext s
  by_cases hst : s = t
  · rw [hst, Function.update_self, assign, List.getElem?_set_self hlt, Option.getD_some]
  · rw [Function.update_of_ne hst, assign, assign]
    by_cases hs : s ∈ ids
    · have hne : ids.idxOf t ≠ ids.idxOf s := fun heq =>
        hst ((List.idxOf_inj hs).mp heq.symm)
      rw [List.getElem?_set_ne hne]
    · have hidx : ids.idxOf s = ids.length := List.idxOf_eq_length hs
      rw [hidx, List.getElem?_eq_none (by simp [hlen]), List.getElem?_eq_none (by omega)]

/-- Replace the rows of named slots, one after the other. -/
def setRows (ids : List S) (rows : List R) (updateIds : List S) (updates : List R) : List R :=
  (updateIds.zip updates).foldl (fun rows p => rows.set (ids.idxOf p.1) p.2) rows

@[simp] theorem length_setRows (ids : List S) (rows : List R) (updateIds : List S)
    (updates : List R) : (setRows ids rows updateIds updates).length = rows.length := by
  rw [setRows]
  generalize updateIds.zip updates = pairs
  induction pairs generalizing rows with
  | nil => rfl
  | cons p pairs ih => rw [List.foldl_cons, ih, List.length_set]

/-- **Replacing the rows of named slots assigns them on top.** -/
theorem assign_setRows {m : S → R} {ids : List S} {rows : List R} {updateIds : List S}
    {updates : List R} (hlen : rows.length = ids.length) (hmem : ∀ s ∈ updateIds, s ∈ ids) :
    assign m ids (setRows ids rows updateIds updates) =
      scatter (assign m ids rows) updateIds updates := by
  induction updateIds generalizing rows updates with
  | nil => rfl
  | cons t updateIds ih =>
    cases updates with
    | nil => rfl
    | cons r updates =>
      rw [scatter_cons, ← assign_set r hlen (hmem t (by simp))]
      exact ih (by simpa using hlen) fun s hs => hmem s (List.mem_cons_of_mem t hs)

/-! ### Pools with a parked update -/

/-- Distinct slots with one row each. -/
structure RowUpdate (S R : Type*) where
  /-- The slots. -/
  ids : List S
  /-- The compact rows, in the order of the slots. -/
  rows : List R
  /-- No slot is named twice. -/
  nodup : ids.Nodup
  /-- There is one row for each slot. -/
  length_eq : rows.length = ids.length

/-- The row of a slot, if it is one of the update's. -/
def RowUpdate.row? (u : RowUpdate S R) (s : S) : Option R := u.rows[u.ids.idxOf s]?

theorem RowUpdate.row?_eq_none_iff {u : RowUpdate S R} {s : S} : u.row? s = none ↔ s ∉ u.ids := by
  rw [row?, List.getElem?_eq_none_iff, u.length_eq, ← List.idxOf_lt_length_iff, Nat.not_lt]

/-- A pool of rows and at most one update parked beside it. -/
structure WriteBack (S R : Type*) where
  /-- The stable rows. -/
  pool : S → R
  /-- The update not yet written to the pool. -/
  parked : Option (RowUpdate S R)

namespace WriteBack

variable (w : WriteBack S R)

/-- The row of a slot: the parked one if there is one, else the pool's. -/
def value : S → R :=
  match w.parked with
  | none => w.pool
  | some u => assign w.pool u.ids u.rows

/-- Write rows to the pool. -/
def write (ids : List S) (rows : List R) : WriteBack S R :=
  { w with pool := scatter w.pool ids rows }

/-- Drop the parked update. -/
def clear : WriteBack S R := { w with parked := none }

/-- Write the parked update to the pool. -/
def flush : WriteBack S R :=
  match w.parked with
  | none => w
  | some u => (w.write u.ids u.rows).clear

/-- Park an update, writing the one parked before to the pool. -/
def park (u : RowUpdate S R) : WriteBack S R := { w.flush with parked := some u }

@[simp] theorem parked_flush : w.flush.parked = none := by
  unfold flush; split <;> simp_all [clear]

theorem flush_of_parked_eq_none (h : w.parked = none) : w.flush = w := by
  unfold flush; rw [h]

omit [DecidableEq S] in
theorem clear_of_parked_eq_none (h : w.parked = none) : w.clear = w := by
  unfold clear; rw [← h]

@[simp] theorem parked_park (u : RowUpdate S R) : (w.park u).parked = some u := rfl

@[simp] theorem parked_write (ids : List S) (rows : List R) :
    (w.write ids rows).parked = w.parked := rfl

theorem value_of_parked_eq_none (h : w.parked = none) : w.value = w.pool := by
  unfold value; rw [h]

theorem value_of_parked_eq_some {u : RowUpdate S R} (h : w.parked = some u) :
    w.value = assign w.pool u.ids u.rows := by
  unfold value; rw [h]

/-- **Flushing does not change a value.** -/
@[simp] theorem value_flush : w.flush.value = w.value := by
  rw [value_of_parked_eq_none _ w.parked_flush, flush, value]
  cases w.parked with
  | none => rfl
  | some u => exact scatter_eq_assign u.nodup u.length_eq

theorem pool_flush : w.flush.pool = w.value := by
  rw [← value_flush, value_of_parked_eq_none _ w.parked_flush]

/-- **Parking an update assigns its rows.** -/
theorem value_park (u : RowUpdate S R) : (w.park u).value = assign w.value u.ids u.rows := by
  rw [value_of_parked_eq_some _ (w.parked_park u), ← pool_flush]
  rfl

/-- The pool row of a slot with nothing parked is its value. -/
theorem value_of_not_parked {s : S} (h : ∀ u, w.parked = some u → s ∉ u.ids) :
    w.value s = w.pool s := by
  cases hp : w.parked with
  | none => rw [value_of_parked_eq_none _ hp]
  | some u => rw [value_of_parked_eq_some _ hp, assign_of_not_mem u.length_eq (h u hp)]

/-- **Writing rows to slots with nothing parked writes them to the value.** -/
theorem value_write {ids : List S} {rows : List R}
    (h : ∀ u, w.parked = some u → ∀ s ∈ ids, s ∉ u.ids) :
    (w.write ids rows).value = scatter w.value ids rows := by
  funext s
  by_cases hs : s ∈ ids
  · have hnone : ∀ u, w.parked = some u → s ∉ u.ids := fun u hu => h u hu s hs
    rw [value_of_not_parked _ (by simpa using hnone)]
    refine scatter_congr fun t ht => (value_of_not_parked _ fun u hu => h u hu t ?_).symm
    rcases List.mem_cons.mp ht with rfl | ht
    · exact hs
    · exact ht
  · rw [scatter_of_not_mem hs]
    cases hp : w.parked with
    | none =>
      rw [value_of_parked_eq_none _ (by simpa using hp), value_of_parked_eq_none _ hp]
      exact scatter_of_not_mem hs
    | some u =>
      rw [value_of_parked_eq_some _ (by simpa using hp), value_of_parked_eq_some _ hp]
      exact assign_congr u.length_eq fun _ => scatter_of_not_mem hs

/-- **An update whose slots have all been written again may be dropped.** -/
theorem value_clear_write {u : RowUpdate S R} {rows : List R} (h : w.parked = some u)
    (hlen : rows.length = u.ids.length) :
    ((w.write u.ids rows).clear).value = assign w.value u.ids rows := by
  rw [value_of_parked_eq_none _ rfl, value_of_parked_eq_some _ h,
    assign_assign_same u.length_eq hlen]
  exact scatter_eq_assign u.nodup hlen

/-- **An update may be dropped for another of the same slots.** -/
theorem value_park_clear {u u' : RowUpdate S R} (h : w.parked = some u) (hids : u'.ids = u.ids) :
    (w.clear.park u').value = assign w.value u'.ids u'.rows := by
  rw [value_park, value_of_parked_eq_some _ h, hids,
    assign_assign_same u.length_eq (u'.length_eq.trans (congrArg _ hids))]
  rfl

/-! ### Operations as assignments -/

/-- A row is parked for the slot. -/
def Parks (s : S) : Prop := ∃ u, w.parked = some u ∧ s ∈ u.ids

instance : DecidablePred w.Parks := fun s =>
  match h : w.parked with
  | none => isFalse fun ⟨_, hu, _⟩ => by cases h.symm.trans hu
  | some u => decidable_of_iff (s ∈ u.ids)
      ⟨fun hs => ⟨u, h, hs⟩, fun ⟨_, hu, hs⟩ => Option.some.inj (h.symm.trans hu) ▸ hs⟩

/-- The row parked for the slot. -/
def row? (s : S) : Option R := w.parked.bind fun u => u.row? s

theorem row?_eq_none_iff {s : S} : w.row? s = none ↔ ¬ w.Parks s := by
  rw [row?, Option.bind_eq_none_iff]
  constructor
  · rintro h ⟨u, hu, hs⟩
    exact RowUpdate.row?_eq_none_iff.mp (h u hu) hs
  · intro h u hu
    exact RowUpdate.row?_eq_none_iff.mpr fun hs => h ⟨u, hu, hs⟩

theorem value_eq_getD (s : S) : w.value s = (w.row? s).getD (w.pool s) := by
  cases h : w.parked with
  | none => rw [value_of_parked_eq_none _ h, row?, h, Option.bind_none, Option.getD_none]
  | some u => rw [value_of_parked_eq_some _ h, row?, h, Option.bind_some, RowUpdate.row?, assign]

omit [DecidableEq S] in
theorem not_parks_of_parked_eq_none (h : w.parked = none) (s : S) : ¬ w.Parks s := by
  rintro ⟨u, hu, -⟩
  cases h.symm.trans hu

theorem value_of_not_parks {s : S} (h : ¬ w.Parks s) : w.value s = w.pool s := by
  rw [value_eq_getD, w.row?_eq_none_iff.mpr h, Option.getD_none]

/-- **What an operation that assigns rows to slots does**: the value has the rows, and beside these
slots no row was parked and none was written, save one that was parked before. -/
structure Assigns (w w' : WriteBack S R) (ids : List S) (rows : List R) : Prop where
  value : w'.value = assign w.value ids rows
  parks : ∀ s, w'.Parks s → s ∈ ids ∨ w.Parks s
  pool : ∀ s, s ∉ ids → ¬ w.Parks s → w'.pool s = w.pool s

variable {w} {w' w'' : WriteBack S R} {ids : List S} {rows : List R}

theorem Assigns.refl (w : WriteBack S R) : w.Assigns w [] [] :=
  ⟨(assign_nil _ _).symm, fun _ h => Or.inr h, fun _ _ _ => rfl⟩

/-- An operation that assigns nothing may come before. -/
theorem Assigns.trans (h : w.Assigns w' [] []) (h' : w'.Assigns w'' ids rows) :
    w.Assigns w'' ids rows where
  value := by rw [h'.value, h.value, assign_nil]
  parks s hs := (h'.parks s hs).imp_right fun hs => (h.parks s hs).resolve_left List.not_mem_nil
  pool s hs hparks := (h'.pool s hs fun h' => hparks
    ((h.parks s h').resolve_left List.not_mem_nil)).trans (h.pool s List.not_mem_nil hparks)

theorem assigns_flush (w : WriteBack S R) : w.Assigns w.flush [] [] where
  value := by rw [value_flush, assign_nil]
  parks s hs := absurd hs (w.flush.not_parks_of_parked_eq_none w.parked_flush s)
  pool s _ hparks := by rw [pool_flush, value_of_not_parks _ hparks]

theorem assigns_park (w : WriteBack S R) (u : RowUpdate S R) :
    w.Assigns (w.park u) u.ids u.rows where
  value := w.value_park u
  parks s := by
    rintro ⟨u', hu', hs⟩
    rw [parked_park, Option.some.injEq] at hu'
    exact Or.inl (hu' ▸ hs)
  pool s _ hparks := w.assigns_flush.pool s List.not_mem_nil hparks

theorem assigns_write (w : WriteBack S R) (hnodup : ids.Nodup) (hlen : rows.length = ids.length)
    (hparks : ∀ s ∈ ids, ¬ w.Parks s) : w.Assigns (w.write ids rows) ids rows where
  value := (w.value_write fun u hu s hs hmem => hparks s hs ⟨u, hu, hmem⟩).trans
    (scatter_eq_assign hnodup hlen)
  parks _ h := Or.inr h
  pool _ hs _ := scatter_of_not_mem hs

theorem assigns_clear_write {u : RowUpdate S R} (h : w.parked = some u)
    (hlen : rows.length = u.ids.length) :
    w.Assigns ((w.write u.ids rows).clear) u.ids rows where
  value := w.value_clear_write h hlen
  parks s hs := absurd hs (not_parks_of_parked_eq_none _ rfl s)
  pool _ hs _ := scatter_of_not_mem hs

theorem assigns_park_clear {u u' : RowUpdate S R} (h : w.parked = some u) (hids : u'.ids = u.ids) :
    w.Assigns (w.clear.park u') u'.ids u'.rows where
  value := w.value_park_clear h hids
  parks s := by
    rintro ⟨v, hv, hs⟩
    rw [parked_park, Option.some.injEq] at hv
    exact Or.inl (hv ▸ hs)
  pool _ _ _ := by
    rw [park, flush_of_parked_eq_none _ rfl]
    rfl

end WriteBack

end VllmMetal
