import VllmMetal.Lib.OrderedDict
import Mathlib.Data.Finset.Basic

/-!
# Least-recently-used caches with pinned items

The interface of a bounded cache whose entries stand in the order of their last use, and in
which some entries can be pinned: eviction takes the least recently used entry that is not
pinned.  A program is verified over the interface and its laws; `PinnedCache` shows that the
laws have a model.

## Main definitions

* `LruCache K C` — the operations of such a cache, for keys `K` and every type of values.
* `LawfulLruCache K C` — what the operations do to lookups, pins and capacity.
* `LruCache.len`, `LruCache.firstUnpinned` — the number of entries, the entry to evict.
* `PinnedCache` — a cache kept as an ordered dictionary and a set of pins.

## Main results

* `LruCache.firstUnpinned_eq_none_iff` — nothing can be evicted exactly when all is pinned.
* `LruCache.len_mono`, `LruCache.len_pop_lt`, `LruCache.len_set_le` — the number of entries
  after an operation.
-/

namespace VllmMetal

/-- The operations of a least-recently-used cache with pinned items. -/
class LruCache (K : outParam Type) (C : Type → Type) where
  /-- The most entries the cache holds. -/
  capacity {V : Type} : C V → ℕ
  /-- The keys, least recently used first. -/
  order {V : Type} : C V → List K
  /-- The keys that eviction passes over. -/
  pinnedItems {V : Type} : C V → Finset K
  /-- The value stored under a key, if any. -/
  get? {V : Type} : C V → K → Option V
  /-- A cache of the given capacity without entries. -/
  empty {V : Type} : ℕ → C V
  /-- Make a key the most recently used one. -/
  touch {V : Type} : C V → K → C V
  /-- Store a value. -/
  set {V : Type} : C V → K → V → C V
  /-- Remove a key, if it is there. -/
  pop {V : Type} : C V → K → C V
  /-- Pin a key. -/
  pin {V : Type} : C V → K → C V
  /-- Remove the least recently used key that is not pinned; `none` when there is none. -/
  popitem {V : Type} : C V → Option (K × C V)
  /-- Remove every entry, the pinned ones too. -/
  clear {V : Type} : C V → C V

namespace LruCache

variable {K : Type} {C : Type → Type} [LruCache K C] {V : Type}

/-- The number of entries. -/
def len (c : C V) : ℕ := (order c).length

/-- The least recently used key that is not pinned. -/
def firstUnpinned [DecidableEq K] (c : C V) : Option K :=
  (order c).find? fun k => k ∉ pinnedItems c

end LruCache

open LruCache

/-- What the operations of a cache do to its lookups, its pins and its capacity.  A key may
be touched or pinned when it is stored, and a new key may be stored below capacity. -/
class LawfulLruCache (K : outParam Type) [DecidableEq K] (C : Type → Type) [LruCache K C] :
    Prop where
  nodup_order {V : Type} (c : C V) : (order c).Nodup
  mem_order {V : Type} {c : C V} {k : K} : k ∈ order c ↔ (get? c k).isSome
  get?_empty {V : Type} (n : ℕ) (k : K) : get? (empty n : C V) k = none
  pinnedItems_empty {V : Type} (n : ℕ) : pinnedItems (empty n : C V) = ∅
  capacity_empty {V : Type} (n : ℕ) : capacity (empty n : C V) = n
  get?_touch {V : Type} {c : C V} {k : K} (h : (get? c k).isSome) (k' : K) :
    get? (touch c k) k' = get? c k'
  pinnedItems_touch {V : Type} (c : C V) (k : K) : pinnedItems (touch c k) = pinnedItems c
  capacity_touch {V : Type} (c : C V) (k : K) : capacity (touch c k) = capacity c
  get?_set {V : Type} {c : C V} {k : K} (v : V)
    (h : (get? c k).isSome ∨ len c < capacity c) (k' : K) :
    get? (set c k v) k' = if k' = k then some v else get? c k'
  pinnedItems_set {V : Type} {c : C V} {k : K} (v : V)
    (h : (get? c k).isSome ∨ len c < capacity c) : pinnedItems (set c k v) = pinnedItems c
  capacity_set {V : Type} (c : C V) (k : K) (v : V) : capacity (set c k v) = capacity c
  get?_pop {V : Type} (c : C V) (k k' : K) :
    get? (pop c k) k' = if k' = k then none else get? c k'
  pinnedItems_pop {V : Type} (c : C V) (k : K) :
    pinnedItems (pop c k) = (pinnedItems c).erase k
  capacity_pop {V : Type} (c : C V) (k : K) : capacity (pop c k) = capacity c
  get?_pin {V : Type} (c : C V) (k k' : K) : get? (pin c k) k' = get? c k'
  pinnedItems_pin {V : Type} {c : C V} {k : K} (h : (get? c k).isSome) :
    pinnedItems (pin c k) = insert k (pinnedItems c)
  capacity_pin {V : Type} (c : C V) (k : K) : capacity (pin c k) = capacity c
  popitem_eq {V : Type} (c : C V) : popitem c = (firstUnpinned c).map fun k => (k, pop c k)
  get?_clear {V : Type} (c : C V) (k : K) : get? (clear c) k = none
  pinnedItems_clear {V : Type} (c : C V) : pinnedItems (clear c) = ∅
  capacity_clear {V : Type} (c : C V) : capacity (clear c) = capacity c

attribute [simp] LawfulLruCache.get?_empty LawfulLruCache.pinnedItems_empty
  LawfulLruCache.capacity_empty LawfulLruCache.pinnedItems_touch LawfulLruCache.capacity_touch
  LawfulLruCache.capacity_set LawfulLruCache.get?_pop LawfulLruCache.pinnedItems_pop
  LawfulLruCache.capacity_pop LawfulLruCache.get?_pin LawfulLruCache.capacity_pin
  LawfulLruCache.get?_clear LawfulLruCache.pinnedItems_clear LawfulLruCache.capacity_clear

namespace LruCache

variable {K : Type} [DecidableEq K] {C : Type → Type} [LruCache K C] [LawfulLruCache K C]
variable {V : Type} {c : C V} {k : K}

open LawfulLruCache

/-- The key to evict is stored and not pinned. -/
theorem firstUnpinned_spec (h : firstUnpinned c = some k) :
    (get? c k).isSome ∧ k ∉ pinnedItems c := by
  constructor
  · exact mem_order.mp (List.mem_of_find?_eq_some h)
  · simpa using List.find?_some h

/-- Nothing can be evicted exactly when every key is pinned. -/
theorem firstUnpinned_eq_none_iff :
    firstUnpinned c = none ↔ ∀ k, (get? c k).isSome → k ∈ pinnedItems c := by
  rw [firstUnpinned, List.find?_eq_none]
  constructor
  · intro h k hk
    simpa using h k (mem_order.mpr hk)
  · intro h k hk
    simpa using h k (mem_order.mp hk)

/-- A cache whose keys stand in a list is no longer than the list. -/
theorem len_le_of_mem {l : List K} (h : ∀ k, (get? c k).isSome → k ∈ l) :
    len c ≤ l.length := by
  refine (List.Nodup.subperm (nodup_order c) fun k hk => ?_).length_le
  exact h k (mem_order.mp hk)

/-- A cache with fewer keys is no longer. -/
theorem len_mono {V' : Type} {c' : C V'} (h : ∀ k, (get? c' k).isSome → (get? c k).isSome) :
    len c' ≤ len c := by
  apply len_le_of_mem
  intro k hk
  exact mem_order.mpr (h k hk)

/-- Removing a stored key makes room. -/
theorem len_pop_lt (h : (get? c k).isSome) : len (pop c k) < len c := by
  have hmem : k ∈ order c := mem_order.mpr h
  have hle : len (pop c k) ≤ ((order c).erase k).length := by
    apply len_le_of_mem
    intro k' hk'
    rw [get?_pop] at hk'
    split at hk'
    · simp at hk'
    · next hne => exact (List.mem_erase_of_ne hne).mpr (mem_order.mpr hk')
  have hlen := List.length_erase_of_mem hmem
  have hpos := List.length_pos_of_mem hmem
  rw [len] at hle ⊢
  rw [len]
  omega

/-- Storing a value where there is room keeps the cache within its capacity. -/
theorem len_set_le (v : V) (hroom : (get? c k).isSome ∨ len c < capacity c)
    (hle : len c ≤ capacity c) : len (set c k v) ≤ capacity (set c k v) := by
  rw [capacity_set]
  rcases hroom with hsome | hlt
  · refine Nat.le_trans (len_mono fun k' hk' => ?_) hle
    rw [get?_set v (Or.inl hsome)] at hk'
    split at hk'
    · next heq => exact heq ▸ hsome
    · exact hk'
  · have hcons : len (set c k v) ≤ (k :: order c).length := by
      apply len_le_of_mem
      intro k' hk'
      rw [get?_set v (Or.inr hlt)] at hk'
      split at hk'
      · next heq => exact heq ▸ List.mem_cons_self
      · exact List.mem_cons_of_mem _ (mem_order.mpr hk')
    rw [List.length_cons] at hcons
    exact Nat.le_trans hcons hlt

end LruCache

/-! ### A model of the laws -/

/-- A cache kept as a dictionary in the order of use, and a set of pins. -/
structure PinnedCache (K V : Type) where
  bound : ℕ
  items : OrderedDict K V
  pins : Finset K

namespace PinnedCache

variable {K : Type} [DecidableEq K] {V : Type}

/-- Remove a key and its pin. -/
def pop (c : PinnedCache K V) (k : K) : PinnedCache K V :=
  { c with items := c.items.pop k, pins := c.pins.erase k }

/-- The least recently used key that is not pinned. -/
def victim (c : PinnedCache K V) : Option K := c.items.keys.find? fun k => k ∉ c.pins

/-- A new key at capacity first evicts an entry. -/
def makeRoom (c : PinnedCache K V) (k : K) : PinnedCache K V :=
  if (c.items.get? k).isSome ∨ c.items.keys.length < c.bound then c
  else (c.victim.map c.pop).getD c

instance : LruCache K (PinnedCache K) where
  capacity c := c.bound
  order c := c.items.keys
  pinnedItems c := c.pins
  get? c k := c.items.get? k
  empty n := ⟨n, .empty, ∅⟩
  touch c k := { c with items := c.items.moveToEnd k }
  set c k v := { c.makeRoom k with items := ((c.makeRoom k).items.set k v).moveToEnd k }
  pop := pop
  pin c k := { c with pins := insert k c.pins }
  popitem c := c.victim.map fun k => (k, c.pop k)
  clear c := ⟨c.bound, .empty, ∅⟩

theorem makeRoom_of_room {c : PinnedCache K V} {k : K}
    (h : (LruCache.get? c k).isSome ∨ len c < capacity c) : c.makeRoom k = c :=
  if_pos h

theorem bound_makeRoom (c : PinnedCache K V) (k : K) : (c.makeRoom k).bound = c.bound := by
  unfold makeRoom
  split
  · rfl
  · cases c.victim <;> rfl

instance : LawfulLruCache K (PinnedCache K) where
  nodup_order c := c.items.nodup_keys
  mem_order := OrderedDict.get?_isSome_iff.symm
  get?_empty _ _ := rfl
  pinnedItems_empty _ := rfl
  capacity_empty _ := rfl
  get?_touch _ _ := OrderedDict.get?_moveToEnd _ _ _
  pinnedItems_touch _ _ := rfl
  capacity_touch _ _ := rfl
  get?_set v h k' := by
    simp only [LruCache.set, LruCache.get?, makeRoom_of_room h, OrderedDict.get?_moveToEnd,
      OrderedDict.get?_set]
  pinnedItems_set v h := by
    simp only [LruCache.set, LruCache.pinnedItems, makeRoom_of_room h]
  capacity_set c k _ := bound_makeRoom c k
  get?_pop c k k' := OrderedDict.get?_pop _ _ _
  pinnedItems_pop _ _ := rfl
  capacity_pop _ _ := rfl
  get?_pin _ _ _ := rfl
  pinnedItems_pin _ := rfl
  capacity_pin _ _ := rfl
  popitem_eq _ := rfl
  get?_clear _ _ := rfl
  pinnedItems_clear _ := rfl
  capacity_clear _ := rfl

end PinnedCache

end VllmMetal
