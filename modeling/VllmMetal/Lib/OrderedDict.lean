import Mathlib.Data.List.Nodup
import Mathlib.Data.Finset.Card
import Mathlib.Algebra.BigOperators.Group.Finset.Basic
import Mathlib.Algebra.BigOperators.Group.List.Basic
import Mathlib.Algebra.Order.BigOperators.Group.Finset
import Mathlib.Algebra.GroupWithZero.Nat

/-!
# Ordered dictionaries

A finite map whose entries stand in an order: a new key goes to the end, a stored key keeps
its place until it is moved.  This is the data structure under a least-recently-used cache.

## Main definitions

* `OrderedDict K V` — entries with distinct keys.
* `get?`, `set`, `pop`, `moveToEnd`, `restrict` — lookup and updates.
* `total` — the sum of the sizes of the entries.

## Main results

* `get?_set`, `get?_pop`, `get?_moveToEnd` — lookup after each update.
* `total_set_of_not_mem`, `total_pop`, `total_moveToEnd` — the sum after each update.
* `total_le_of_get?_le` — comparing the sums of two dictionaries key by key.
-/

namespace VllmMetal

/-- Entries with distinct keys, in their order. -/
structure OrderedDict (K V : Type*) where
  entries : List (K × V)
  nodup : (entries.map Prod.fst).Nodup

namespace OrderedDict

variable {K V : Type*}

/-- The keys, in their order. -/
def keys (d : OrderedDict K V) : List K := d.entries.map Prod.fst

theorem nodup_keys (d : OrderedDict K V) : d.keys.Nodup := d.nodup

/-- No entry. -/
def empty : OrderedDict K V := ⟨[], List.nodup_nil⟩

/-- Some of the entries, in their order. -/
def restrict (d : OrderedDict K V) (entries : List (K × V)) (h : entries.Sublist d.entries) :
    OrderedDict K V :=
  ⟨entries, (h.map Prod.fst).nodup d.nodup⟩

variable [DecidableEq K]

/-- The value stored under a key, if any. -/
def get? (d : OrderedDict K V) (k : K) : Option V :=
  (d.entries.find? fun p => p.1 = k).map Prod.snd

theorem get?_eq_some_iff {d : OrderedDict K V} {k : K} {v : V} :
    d.get? k = some v ↔ (k, v) ∈ d.entries := by
  rw [get?, Option.map_eq_some_iff]
  constructor
  · rintro ⟨⟨k', v'⟩, hfind, rfl⟩
    have hkey : k' = k := by simpa using List.find?_some hfind
    exact hkey ▸ List.mem_of_find?_eq_some hfind
  · intro hmem
    cases hfind : d.entries.find? fun p => p.1 = k with
    | none =>
      have hne := List.find?_eq_none.mp hfind (k, v) hmem
      simp at hne
    | some p =>
      have hkey : p.1 = k := by simpa using List.find?_some hfind
      have heq := List.inj_on_of_nodup_map d.nodup (List.mem_of_find?_eq_some hfind) hmem hkey
      exact ⟨p, rfl, congrArg Prod.snd heq⟩

theorem get?_isSome_iff {d : OrderedDict K V} {k : K} : (d.get? k).isSome ↔ k ∈ d.keys := by
  rw [Option.isSome_iff_exists, keys, List.mem_map]
  constructor
  · rintro ⟨v, hv⟩
    exact ⟨(k, v), get?_eq_some_iff.mp hv, rfl⟩
  · rintro ⟨⟨k', v⟩, hmem, rfl⟩
    exact ⟨v, get?_eq_some_iff.mpr hmem⟩

theorem get?_eq_none_iff {d : OrderedDict K V} {k : K} : d.get? k = none ↔ k ∉ d.keys := by
  rw [← get?_isSome_iff, Option.not_isSome_iff_eq_none]

@[simp] theorem get?_empty (k : K) : (empty : OrderedDict K V).get? k = none := rfl

/-- Two entry lists with the same members answer the same lookups. -/
theorem get?_congr {d d' : OrderedDict K V} {k : K}
    (h : ∀ v, (k, v) ∈ d.entries ↔ (k, v) ∈ d'.entries) : d.get? k = d'.get? k := by
  refine Option.ext fun v => ?_
  rw [get?_eq_some_iff, get?_eq_some_iff]
  exact h v

/-! ### Updates -/

/-- Remove the entry of a key, if any. -/
def pop (d : OrderedDict K V) (k : K) : OrderedDict K V :=
  d.restrict (d.entries.filter fun p => p.1 ≠ k) List.filter_sublist

@[simp] theorem get?_pop (d : OrderedDict K V) (k k' : K) :
    (d.pop k).get? k' = if k' = k then none else d.get? k' := by
  split
  · next heq =>
    subst heq
    rw [get?_eq_none_iff, keys, pop, restrict]
    simp
  · next hne => exact get?_congr fun v => by simp [pop, restrict, hne]

/-- Store a value: a new key goes to the end, a stored key keeps its place. -/
def set (d : OrderedDict K V) (k : K) (v : V) : OrderedDict K V :=
  if h : k ∈ d.keys then
    { entries := d.entries.map fun p => if p.1 = k then (k, v) else p
      nodup := by
        have hmap : (d.entries.map fun p => if p.1 = k then (k, v) else p).map Prod.fst =
            d.entries.map Prod.fst := by
          rw [List.map_map]
          refine List.map_congr_left fun p _ => ?_
          simp only [Function.comp_apply]
          split
          · next heq => exact heq.symm
          · rfl
        rw [hmap]
        exact d.nodup }
  else
    { entries := d.entries ++ [(k, v)]
      nodup := by
        rw [List.map_append, List.nodup_append]
        refine ⟨d.nodup, List.nodup_singleton _, fun a ha b hb => ?_⟩
        rintro rfl
        simp only [List.map_cons, List.map_nil, List.mem_singleton] at hb
        exact h (hb ▸ ha) }

@[simp] theorem get?_set (d : OrderedDict K V) (k k' : K) (v : V) :
    (d.set k v).get? k' = if k' = k then some v else d.get? k' := by
  by_cases h : k ∈ d.keys
  · have hentries : (d.set k v).entries =
        d.entries.map fun p => if p.1 = k then (k, v) else p := by
      rw [set, dif_pos h]
    split
    · next heq =>
      subst heq
      obtain ⟨p, hp, hkey⟩ := List.mem_map.mp h
      rw [get?_eq_some_iff, hentries]
      exact List.mem_map.mpr ⟨p, hp, if_pos hkey⟩
    · next hne =>
      refine get?_congr fun w => ?_
      rw [hentries, List.mem_map]
      constructor
      · rintro ⟨p, hp, heq⟩
        split at heq
        · exact absurd (congrArg Prod.fst heq).symm hne
        · exact heq ▸ hp
      · intro hp
        exact ⟨_, hp, if_neg hne⟩
  · have hentries : (d.set k v).entries = d.entries ++ [(k, v)] := by
      rw [set, dif_neg h]
    split
    · next heq =>
      subst heq
      rw [get?_eq_some_iff, hentries]
      simp
    · next hne => exact get?_congr fun w => by simp [hentries, hne]

/-- Move a key to the end; a key that is not stored moves nothing. -/
def moveToEnd (d : OrderedDict K V) (k : K) : OrderedDict K V :=
  match d.get? k with
  | none => d
  | some v => (d.pop k).set k v

@[simp] theorem get?_moveToEnd (d : OrderedDict K V) (k k' : K) :
    (d.moveToEnd k).get? k' = d.get? k' := by
  rw [moveToEnd]
  split
  · rfl
  · next v hv =>
    rw [get?_set, get?_pop]
    split
    · next heq => rw [heq, hv]
    · rfl

theorem mem_keys_set {d : OrderedDict K V} {k k' : K} {v : V} :
    k' ∈ (d.set k v).keys ↔ k' = k ∨ k' ∈ d.keys := by
  rw [← get?_isSome_iff, ← get?_isSome_iff, get?_set]
  by_cases heq : k' = k <;> simp [heq]

theorem mem_keys_pop {d : OrderedDict K V} {k k' : K} :
    k' ∈ (d.pop k).keys ↔ k' ≠ k ∧ k' ∈ d.keys := by
  rw [← get?_isSome_iff, ← get?_isSome_iff, get?_pop]
  by_cases heq : k' = k <;> simp [heq]

/-- Moving a stored key to the end keeps the order of the others. -/
theorem keys_moveToEnd {d : OrderedDict K V} {k : K} (h : k ∈ d.keys) :
    (d.moveToEnd k).keys = d.keys.filter (fun k' => k' ≠ k) ++ [k] := by
  obtain ⟨v, hv⟩ := Option.isSome_iff_exists.mp (get?_isSome_iff.mpr h)
  have hnot : k ∉ (d.pop k).keys := fun hmem => (mem_keys_pop.mp hmem).1 rfl
  have hmove : d.moveToEnd k = (d.pop k).set k v := by
    rw [moveToEnd, hv]
  rw [hmove, set, dif_neg hnot, keys, List.map_append, pop, restrict, keys, List.filter_map]
  rfl

/-- Looking up in some of the entries. -/
theorem get?_restrict {d : OrderedDict K V} {entries : List (K × V)}
    (h : entries.Sublist d.entries) {k : K} (hk : k ∈ entries.map Prod.fst) :
    (d.restrict entries h).get? k = d.get? k := by
  obtain ⟨p, hp, rfl⟩ := List.mem_map.mp hk
  have hmem : (p.1, p.2) ∈ (d.restrict entries h).entries := hp
  rw [get?_eq_some_iff.mpr hmem, get?_eq_some_iff.mpr (h.subset hp)]

/-! ### Sums over the entries -/

variable (size : V → ℕ)

/-- The sum of the sizes of the entries. -/
def total (d : OrderedDict K V) : ℕ := (d.entries.map fun p => size p.2).sum

/-- The size of the entry of a key, `0` if there is none. -/
def sizeAt (d : OrderedDict K V) (k : K) : ℕ := ((d.get? k).map size).getD 0

theorem sizeAt_of_get? {d : OrderedDict K V} {k : K} {v : V} (h : d.get? k = some v) :
    d.sizeAt size k = size v := by
  rw [sizeAt, h, Option.map_some, Option.getD_some]

theorem sizeAt_of_not_mem {d : OrderedDict K V} {k : K} (h : k ∉ d.keys) :
    d.sizeAt size k = 0 := by
  rw [sizeAt, get?_eq_none_iff.mpr h]
  rfl

/-- The sum over the entries is the sum over the keys, -/
theorem total_eq_sum_keys (d : OrderedDict K V) :
    d.total size = ∑ k ∈ d.keys.toFinset, d.sizeAt size k := by
  rw [List.sum_toFinset _ d.nodup_keys, total, keys, List.map_map]
  refine congrArg List.sum (List.map_congr_left fun p hp => ?_)
  exact (sizeAt_of_get? size (get?_eq_some_iff.mpr hp)).symm

/-- and over any larger set. -/
theorem total_eq_sum {d : OrderedDict K V} {s : Finset K} (h : ∀ k ∈ d.keys, k ∈ s) :
    d.total size = ∑ k ∈ s, d.sizeAt size k := by
  rw [total_eq_sum_keys]
  refine Finset.sum_subset (fun k hk => h k (List.mem_toFinset.mp hk)) fun k _ hk => ?_
  exact sizeAt_of_not_mem size fun hmem => hk (List.mem_toFinset.mpr hmem)

/-- **Sums are compared key by key.** -/
theorem total_le_of_get?_le {V' : Type*} {size' : V' → ℕ} {d : OrderedDict K V}
    {d' : OrderedDict K V'} {w : K → ℕ} {s : Finset K} (hs : ∀ k ∈ d'.keys, k ∈ s)
    (h : ∀ k v, d.get? k = some v → k ∈ s ∧ size v ≤ d'.sizeAt size' k + w k) :
    d.total size ≤ d'.total size' + ∑ k ∈ s, w k := by
  rw [total_eq_sum size (s := s) fun k hk => ?_, total_eq_sum size' hs, ← Finset.sum_add_distrib]
  · refine Finset.sum_le_sum fun k _ => ?_
    cases hv : d.get? k with
    | none => simp [sizeAt, hv]
    | some v =>
      rw [sizeAt_of_get? size hv]
      exact (h k v hv).2
  · obtain ⟨v, hv⟩ := Option.isSome_iff_exists.mp (get?_isSome_iff.mpr hk)
    exact (h k v hv).1

theorem total_set_of_not_mem {d : OrderedDict K V} {k : K} (v : V) (h : k ∉ d.keys) :
    (d.set k v).total size = d.total size + size v := by
  rw [total, set, dif_neg h]
  simp [total]

theorem total_set_of_get? {d : OrderedDict K V} {k : K} {v : V} (v' : V) (h : d.get? k = some v) :
    (d.set k v').total size + size v = d.total size + size v' := by
  have hmem : k ∈ d.keys := get?_isSome_iff.mp (by rw [h]; rfl)
  have hkeys : ∀ k' ∈ (d.set k v').keys, k' ∈ d.keys.toFinset := by
    intro k' hk'
    rw [List.mem_toFinset]
    rcases mem_keys_set.mp hk' with rfl | hk'
    · exact hmem
    · exact hk'
  rw [total_eq_sum size hkeys, total_eq_sum_keys, ← Finset.add_sum_erase _ _
      (List.mem_toFinset.mpr hmem), ← Finset.add_sum_erase (a := k) _
      (fun k' => d.sizeAt size k') (List.mem_toFinset.mpr hmem)]
  have hother : ∀ k' ∈ d.keys.toFinset.erase k,
      (d.set k v').sizeAt size k' = d.sizeAt size k' := by
    intro k' hk'
    simp [sizeAt, Finset.ne_of_mem_erase hk']
  have hself : (d.set k v').sizeAt size k = size v' := by simp [sizeAt]
  rw [Finset.sum_congr rfl hother, hself, sizeAt_of_get? size h]
  exact Nat.add_right_comm _ _ _ |>.trans (by rw [Nat.add_comm (size v'), Nat.add_right_comm])

theorem total_pop {d : OrderedDict K V} (k : K) :
    (d.pop k).total size + d.sizeAt size k = d.total size := by
  rw [total_eq_sum size (s := insert k d.keys.toFinset) fun k' hk' => ?_,
    total_eq_sum size (s := insert k d.keys.toFinset) fun k' hk' => ?_]
  · rw [← Finset.add_sum_erase _ _ (Finset.mem_insert_self k _),
      ← Finset.add_sum_erase (a := k) _ (fun k' => d.sizeAt size k')
        (Finset.mem_insert_self k _)]
    have hself : (d.pop k).sizeAt size k = 0 := by simp [sizeAt]
    have hother : ∀ k' ∈ (insert k d.keys.toFinset).erase k,
        (d.pop k).sizeAt size k' = d.sizeAt size k' := by
      intro k' hk'
      simp [sizeAt, Finset.ne_of_mem_erase hk']
    rw [hself, Finset.sum_congr rfl hother, Nat.zero_add, Nat.add_comm]
  · exact Finset.mem_insert_of_mem (List.mem_toFinset.mpr hk')
  · exact Finset.mem_insert_of_mem (List.mem_toFinset.mpr (mem_keys_pop.mp hk').2)

@[simp] theorem total_moveToEnd (d : OrderedDict K V) (k : K) :
    (d.moveToEnd k).total size = d.total size := by
  rw [moveToEnd]
  split
  · rfl
  · next v hv =>
    have hnot : k ∉ (d.pop k).keys := fun h => (mem_keys_pop.mp h).1 rfl
    rw [total_set_of_not_mem size v hnot, ← sizeAt_of_get? size hv]
    exact total_pop size k

end OrderedDict

end VllmMetal
