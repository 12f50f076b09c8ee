import Mathlib.Data.List.AList

/-!
# Dictionaries

A dictionary is a finite map with at most one entry for each key; Mathlib's
`AList` is that structure, its `nodupKeys` field being the well-formedness proof.
The operations below are the ones a program makes on a dictionary, and each comes
with the one equation proofs use: what a lookup answers afterwards.

## Main definitions

* `Dict K V` — finite maps from `K` to `V`.
* `Dict.get?`, `Dict.set`, `Dict.pop`, `Dict.setDefault` — lookup and updates.
* `Dict.popAll`, `Dict.keep` — removal of several keys.
* `Dict.update` — the entries of another dictionary stored.
-/

namespace VllmMetal

/-- A finite map with at most one entry for each key. -/
abbrev Dict (K V : Type*) := AList fun _ : K => V

namespace Dict

variable {K V : Type*} [DecidableEq K]

/-- The value stored under `k`, if any. -/
def get? (d : Dict K V) (k : K) : Option V := d.lookup k

/-- The value stored under `k`, or `v` when there is none. -/
def getD (d : Dict K V) (k : K) (v : V) : V := (d.get? k).getD v

/-- Store `v` under `k`, replacing what was there. -/
def set (d : Dict K V) (k : K) (v : V) : Dict K V := d.insert k v

/-- Remove the entry of `k`, if any. -/
def pop (d : Dict K V) (k : K) : Dict K V := d.erase k

/-- Store `v` under `k` unless the key is present. -/
def setDefault (d : Dict K V) (k : K) (v : V) : Dict K V :=
  if (d.get? k).isSome then d else d.set k v

/-- Remove the entries of all of `ks`, one after the other. -/
def popAll (d : Dict K V) (ks : List K) : Dict K V := ks.foldl pop d

/-- Remove every key that `p` rejects. -/
def keep (d : Dict K V) (p : K → Bool) : Dict K V := d.popAll (d.keys.filter fun k => !p k)

@[simp] theorem get?_empty (k : K) : get? (∅ : Dict K V) k = none := AList.lookup_empty k

@[simp] theorem get?_set (d : Dict K V) (k k' : K) (v : V) :
    (d.set k v).get? k' = if k' = k then some v else d.get? k' := by
  unfold get? set
  split
  · next h => subst h; exact AList.lookup_insert d
  · next h => exact AList.lookup_insert_ne h

theorem isSome_get?_set (d : Dict K V) (k : K) {k' : K} (v : V) (h : (d.get? k').isSome) :
    ((d.set k v).get? k').isSome := by
  rw [get?_set]
  split
  · rfl
  · exact h

@[simp] theorem get?_pop (d : Dict K V) (k k' : K) :
    (d.pop k).get? k' = if k' = k then none else d.get? k' := by
  unfold get? pop
  split
  · next h => subst h; exact AList.lookup_erase k' d
  · next h => exact AList.lookup_erase_ne h

theorem get?_setDefault (d : Dict K V) (k k' : K) (v : V) :
    (d.setDefault k v).get? k' = if k' = k then some (d.getD k v) else d.get? k' := by
  unfold setDefault getD
  cases h : d.get? k with
  | none => simp
  | some w =>
    by_cases hk : k' = k
    · subst hk; simp [h]
    · simp [hk]

@[simp] theorem get?_popAll (d : Dict K V) (ks : List K) (k : K) :
    (d.popAll ks).get? k = if k ∈ ks then none else d.get? k := by
  unfold popAll
  induction ks generalizing d with
  | nil => simp
  | cons a ks ih =>
    rw [List.foldl_cons, ih, get?_pop]
    by_cases h : k ∈ ks
    · simp [h]
    · by_cases ha : k = a <;> simp [h, ha]

theorem mem_keys {d : Dict K V} {k : K} : k ∈ d.keys ↔ (d.get? k).isSome := by
  unfold get?
  rw [AList.lookup_isSome, AList.mem_keys]

@[simp] theorem get?_keep (d : Dict K V) (p : K → Bool) (k : K) :
    (d.keep p).get? k = if p k then d.get? k else none := by
  unfold keep
  rw [get?_popAll]
  cases hp : p k with
  | true => simp [hp]
  | false =>
    cases hk : d.get? k with
    | none => simp
    | some v => simp [hp, mem_keys, hk]

/-- Store every entry of `u`, replacing what was there. -/
def update (d u : Dict K V) : Dict K V := u ∪ d

@[simp] theorem get?_update (d u : Dict K V) (k : K) :
    (d.update u).get? k = (u.get? k).or (d.get? k) := by
  unfold get? update
  cases h : u.lookup k with
  | none =>
    rw [Option.none_or]
    refine AList.lookup_union_right ?_
    rwa [← AList.lookup_eq_none]
  | some v =>
    rw [Option.some_or]
    rw [AList.lookup_union_left, h]
    rw [← AList.lookup_isSome, h]
    rfl

/-- Storing entries leaves the other keys as they are. -/
theorem get?_foldl_set_of_not_mem {l : List (K × V)} {k : K} (d : Dict K V)
    (h : k ∉ l.map Prod.fst) : (l.foldl (fun d p => d.set p.1 p.2) d).get? k = d.get? k := by
  induction l generalizing d with
  | nil => rfl
  | cons p l ih =>
    rw [List.map_cons, List.mem_cons, not_or] at h
    rw [List.foldl_cons, ih _ h.2, get?_set, if_neg h.1]

/-- Storing entries with distinct keys stores each of them. -/
theorem get?_foldl_set {l : List (K × V)} {k : K} {v : V} (d : Dict K V)
    (hnodup : (l.map Prod.fst).Nodup) (h : (k, v) ∈ l) :
    (l.foldl (fun d p => d.set p.1 p.2) d).get? k = some v := by
  induction l generalizing d with
  | nil => cases h
  | cons p l ih =>
    obtain ⟨hnotin, hnodup⟩ := List.nodup_cons.mp hnodup
    rw [List.foldl_cons]
    rcases List.mem_cons.mp h with rfl | h
    · rw [get?_foldl_set_of_not_mem _ hnotin, get?_set, if_pos rfl]
    · exact ih _ hnodup h

end Dict

end VllmMetal
