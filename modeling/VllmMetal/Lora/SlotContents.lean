import VllmMetal.Lib.Raising
import VllmMetal.Lora.ModelManager

/-!
# What the slots hold

The slot table names an adapter for each slot; every wrapped layer holds weights for each slot.
The lemmas below say what writing one entry of the table, and one slot of each layer, does.

## Main definitions

* `Distinct table` — no adapter has two slots.
* `SlotOk`, `ModuleOk` — a slot of a layer, a layer, holds what the table says.
* `PreparedFor` — what was prepared for the layers is what an adapter has for them.

## Main results

* `ModuleOk.set` — writing one entry of the table and one slot of a layer.
* `moduleOk_commit` — committing what was prepared to every layer.
-/

namespace VllmMetal.Lora

/-! ### Tables of slots -/

/-- No adapter has two slots. -/
def Distinct (table : List (Option ℤ)) : Prop :=
  ∀ (s s' : ℕ) (loraId : ℤ), table[s]? = some (some loraId) →
    table[s']? = some (some loraId) → s = s'

namespace Distinct

variable {table : List (Option ℤ)}

theorem replicate_none (n : ℕ) : Distinct (List.replicate n none) := by
  intro s s' loraId hs _
  rw [List.getElem?_replicate] at hs
  split at hs <;> simp at hs

/-- Freeing a slot. -/
theorem set_none (h : Distinct table) (slot : ℕ) : Distinct (table.set slot none) := by
  intro s s' loraId hs hs'
  rw [List.getElem?_set] at hs hs'
  split at hs
  · split at hs <;> simp at hs
  · split at hs'
    · split at hs' <;> simp at hs'
    · exact h s s' loraId hs hs'

/-- Filling a slot with an adapter that has no other. -/
theorem set_some (h : Distinct table) {slot : ℕ} {loraId : ℤ}
    (honly : ∀ s : ℕ, table[s]? = some (some loraId) → s = slot) :
    Distinct (table.set slot (some loraId)) := by
  intro s s' loraId' hs hs'
  rw [List.getElem?_set] at hs hs'
  split at hs
  · next heq =>
    split at hs'
    · next heq' => exact heq.symm.trans heq'
    · split at hs
      · obtain rfl : loraId = loraId' := Option.some.inj (Option.some.inj hs)
        exact heq.symm.trans (honly s' hs').symm
      · cases hs
  · split at hs'
    · next heq' =>
      split at hs'
      · obtain rfl : loraId = loraId' := Option.some.inj (Option.some.inj hs')
        exact (honly s hs).trans heq'
      · cases hs'
    · exact h s s' loraId' hs hs'

/-- The slot that is found for an adapter is its only one. -/
theorem idxOf?_eq_some_iff (h : Distinct table) {loraId : ℤ} {slot : ℕ} :
    table.idxOf? (some loraId) = some slot ↔ table[slot]? = some (some loraId) := by
  rw [List.idxOf?_eq_some_iff]
  constructor
  · rintro ⟨hlt, heq, -⟩
    rw [List.getElem?_eq_getElem hlt, heq]
  · intro hslot
    obtain ⟨hlt, heq⟩ := List.getElem?_eq_some_iff.mp hslot
    refine ⟨hlt, heq, fun j hj hfound => ?_⟩
    have hj' : table[j]? = some (some loraId) := by
      rw [List.getElem?_eq_getElem (Nat.lt_trans hj hlt), hfound]
    exact absurd (h j slot loraId hj' hslot) (Nat.ne_of_lt hj)

/-- Freeing the slot of an adapter takes only that adapter out of the table. -/
theorem mem_set_none (h : Distinct table) {slot : ℕ} {loraId : ℤ}
    (hslot : table[slot]? = some (some loraId)) (k : ℤ) :
    some k ∈ table.set slot none ↔ k ≠ loraId ∧ some k ∈ table := by
  constructor
  · intro hmem
    obtain ⟨s, hs⟩ := List.mem_iff_getElem?.mp hmem
    rw [List.getElem?_set] at hs
    split at hs
    · split at hs <;> simp at hs
    · next hne =>
      refine ⟨?_, List.mem_of_getElem? hs⟩
      rintro rfl
      exact hne (h slot s k hslot hs)
  · rintro ⟨hne, hmem⟩
    obtain ⟨s, hs⟩ := List.mem_iff_getElem?.mp hmem
    refine List.mem_iff_getElem?.mpr ⟨s, ?_⟩
    rw [List.getElem?_set_ne]
    · exact hs
    · rintro rfl
      rw [hslot] at hs
      exact hne (Option.some.inj (Option.some.inj hs)).symm

end Distinct

/-- Filling a free slot, or the slot of the adapter itself, adds the adapter to the table. -/
theorem mem_set_some {table : List (Option ℤ)} {slot : ℕ} {loraId : ℤ}
    (hslot : table[slot]? = some none ∨ table[slot]? = some (some loraId)) (k : ℤ) :
    some k ∈ table.set slot (some loraId) ↔ k = loraId ∨ some k ∈ table := by
  have hlt : slot < table.length := by
    rcases hslot with hslot | hslot
    · exact (List.getElem?_eq_some_iff.mp hslot).1
    · exact (List.getElem?_eq_some_iff.mp hslot).1
  constructor
  · intro hmem
    rcases List.mem_or_eq_of_mem_set hmem with hmem | heq
    · exact Or.inr hmem
    · exact Or.inl (Option.some.inj heq)
  · rintro (rfl | hmem)
    · exact List.mem_set hlt _
    · obtain ⟨s, hs⟩ := List.mem_iff_getElem?.mp hmem
      rcases eq_or_ne slot s with rfl | hne
      · -- the slot was not free, so it was the adapter's own
        rcases hslot with hslot | hslot
        · rw [hslot] at hs
          simp at hs
        · rw [hslot] at hs
          obtain rfl : loraId = k := Option.some.inj (Option.some.inj hs)
          exact List.mem_set hlt _
      · refine List.mem_iff_getElem?.mpr ⟨s, ?_⟩
        rw [List.getElem?_set_ne hne]
        exact hs

/-- A table with a free slot names fewer adapters than it has slots. -/
theorem length_filterMap_lt {table : List (Option ℤ)} {slot : ℕ}
    (hfree : table[slot]? = some none) : (table.filterMap id).length < table.length := by
  rw [List.length_filterMap_lt_length_iff_exists]
  exact ⟨none, List.mem_of_getElem? hfree, rfl⟩

/-! ### What a layer holds -/

section

variable {W : Type} [Zero W] [Mul W] (astype : W → W)

/-- What a slot of a layer holds when the table has `entry` there. -/
def SlotOk (registered : ℤ → Option (LoadedLoRA W)) (name : String) (w : WrappedModule W)
    (entry : Option ℤ) (s : SlotWeights W) : Prop :=
  match entry with
  | none => s = w.zeroSlot
  | some loraId => ∃ adapter, registered loraId = some adapter ∧ Holds astype adapter name w s

/-- A layer holds, slot by slot, what the table says. -/
structure ModuleOk (registered : ℤ → Option (LoadedLoRA W)) (table : List (Option ℤ))
    (name : String) (w : WrappedModule W) : Prop where
  length : w.slots.length = table.length + 1
  slot : ∀ (s : ℕ) (entry : Option ℤ), table[s]? = some entry →
    ∃ c, w.slots[s]? = some c ∧ SlotOk astype registered name w entry c

variable {astype} {registered registered' : ℤ → Option (LoadedLoRA W)}
  {table : List (Option ℤ)} {name : String} {w : WrappedModule W}

/-- Only the registered versions of the resident adapters matter. -/
theorem SlotOk.congr {entry : Option ℤ} {s : SlotWeights W}
    (h : SlotOk astype registered name w entry s)
    (hreg : ∀ loraId, entry = some loraId → registered' loraId = registered loraId) :
    SlotOk astype registered' name w entry s := by
  cases entry with
  | none => exact h
  | some loraId =>
    obtain ⟨adapter, hadapter, hholds⟩ := h
    exact ⟨adapter, (hreg loraId rfl).trans hadapter, hholds⟩

/-- Writing a slot changes nothing that the others are to hold. -/
theorem SlotOk.setPreparedLora {entry : Option ℤ} {s : SlotWeights W}
    (h : SlotOk astype registered name w entry s) (slot : ℕ) (c : SlotWeights W) :
    SlotOk astype registered name (w.setPreparedLora slot c) entry s := by
  cases entry with
  | none => exact h
  | some loraId =>
    obtain ⟨adapter, hadapter, hholds⟩ := h
    refine ⟨adapter, hadapter, ?_⟩
    apply hholds.congr <;> rfl

theorem ModuleOk.congr (h : ModuleOk astype registered table name w)
    (hreg : ∀ loraId, some loraId ∈ table → registered' loraId = registered loraId) :
    ModuleOk astype registered' table name w := by
  refine ⟨h.length, fun s entry hs => ?_⟩
  obtain ⟨c, hc, hok⟩ := h.slot s entry hs
  refine ⟨c, hc, hok.congr fun loraId heq => hreg loraId ?_⟩
  exact List.mem_of_getElem? (heq ▸ hs)

/-- **Writing one slot of the table and of a layer.**  The other adapters of the table keep
their registered versions. -/
theorem ModuleOk.set (h : ModuleOk astype registered table name w) {slot : ℕ}
    {entry : Option ℤ} {c : SlotWeights W}
    (hreg : ∀ (s : ℕ) (loraId : ℤ), table[s]? = some (some loraId) → s ≠ slot →
      registered' loraId = registered loraId)
    (hok : SlotOk astype registered' name w entry c) :
    ModuleOk astype registered' (table.set slot entry) name (w.setPreparedLora slot c) := by
  refine ⟨?_, fun s entry' hs => ?_⟩
  · rw [WrappedModule.length_slots_setPreparedLora, h.length, List.length_set]
  · rw [List.getElem?_set] at hs
    rw [WrappedModule.setPreparedLora, List.getElem?_set]
    split at hs
    · next heq =>
      subst heq
      split at hs
      · next hlt =>
        cases hs
        have hlt' : slot < w.slots.length := by
          have hlength := h.length
          omega
        exact ⟨c, by rw [if_pos rfl, if_pos hlt'], hok.setPreparedLora slot c⟩
      · cases hs
    · next hne =>
      obtain ⟨c', hc', hok'⟩ := h.slot s entry' hs
      refine ⟨c', by rw [if_neg hne]; exact hc', ?_⟩
      refine (hok'.congr fun loraId heq => ?_).setPreparedLora slot c
      exact hreg s loraId (heq ▸ hs) (Ne.symm hne)

end

/-! ### What was prepared -/

section

variable {W : Type} [Zero W] [Mul W] {C : Type → Type} (astype : W → W)

/-- What was prepared for the layers is what the adapter has for them. -/
def PreparedFor (adapter : LoadedLoRA W) (modules : List (String × WrappedModule W))
    (prepared : PreparedAdapterUpdate W) : Prop :=
  List.Forall₂ (fun nm update => Holds astype adapter nm.1 nm.2 (update.getD nm.2.zeroSlot))
    modules prepared.moduleUpdates

variable {astype} {m : ModelManager W C} {adapter : LoadedLoRA W}
  {prepared : PreparedAdapterUpdate W}

theorem prepareAdapterUpdate_spec {slot : ℕ}
    (h : m.prepareAdapterUpdate astype adapter slot = .ok prepared) :
    List.Forall₂ (fun nm update => prepareModule astype adapter slot nm.1 nm.2 = .ok update)
        m.modules prepared.moduleUpdates ∧
      prepared.moduleUpdates.countP Option.isSome ≠ 0 ∧
      prepared.loadedModules = prepared.moduleUpdates.countP Option.isSome := by
  unfold ModelManager.prepareAdapterUpdate at h
  split at h
  · cases h
  · next updates hupdates =>
    dsimp only at h
    split at h
    · cases h
    · next hloaded =>
      cases h
      exact ⟨mapM_eq_ok_iff.mp hupdates, hloaded, rfl⟩

/-- Every layer was prepared for what the adapter has for it. -/
theorem prepareAdapterUpdate_preparedFor {slot : ℕ}
    (h : m.prepareAdapterUpdate astype adapter slot = .ok prepared) :
    PreparedFor astype adapter m.modules prepared :=
  (prepareAdapterUpdate_spec h).1.imp fun _ _ hnm => prepareModule_holds hnm

/-- Whether an adapter is accepted does not depend on the slot. -/
theorem prepareAdapterUpdate_slot {slot slot' : ℕ}
    (h : m.prepareAdapterUpdate astype adapter slot = .ok prepared) :
    m.prepareAdapterUpdate astype adapter slot' = .ok prepared := by
  obtain ⟨hall, hloaded, hcount⟩ := prepareAdapterUpdate_spec h
  have hmap : (m.modules.mapM fun nm => prepareModule astype adapter slot' nm.1 nm.2) =
      .ok prepared.moduleUpdates :=
    mapM_eq_ok_iff.mpr (hall.imp fun _ _ hnm => prepareModule_slot hnm)
  rw [ModelManager.prepareAdapterUpdate, hmap]
  dsimp only
  rw [if_neg hloaded, ← hcount]

/-- Clearing a slot of every layer changes nothing for what was prepared. -/
theorem PreparedFor.resetLora {modules : List (String × WrappedModule W)}
    (h : PreparedFor astype adapter modules prepared) (slot : ℕ) :
    PreparedFor astype adapter (modules.map fun nm => (nm.1, nm.2.resetLora slot)) prepared := by
  refine List.forall₂_map_left_iff.mpr (h.imp fun nm update hnm => ?_)
  apply hnm.congr <;> rfl

variable {registered registered' : ℤ → Option (LoadedLoRA W)} {table : List (Option ℤ)}

/-- **Committing an update to every layer.** -/
theorem moduleOk_commit {loraId : ℤ} {slot : ℕ} {modules : List (String × WrappedModule W)}
    {updates : List (Option (SlotWeights W))}
    (h : List.Forall₂
      (fun nm update => Holds astype adapter nm.1 nm.2 (update.getD nm.2.zeroSlot))
      modules updates)
    (hmodules : ∀ nm ∈ modules, ModuleOk astype registered table nm.1 nm.2)
    (hadapter : registered' loraId = some adapter)
    (hreg : ∀ (s : ℕ) (loraId' : ℤ), table[s]? = some (some loraId') → s ≠ slot →
      registered' loraId' = registered loraId') :
    ∀ nm ∈ List.zipWith
        (fun (nm : String × WrappedModule W) update => (nm.1, match update with
          | none => nm.2.resetLora slot
          | some weights => nm.2.setPreparedLora slot weights)) modules updates,
      ModuleOk astype registered' (table.set slot (some loraId)) nm.1 nm.2 := by
  induction h with
  | nil => simp
  | @cons nm update modules updates hnm _ ih =>
    obtain ⟨hhead, htail⟩ := List.forall_mem_cons.mp hmodules
    rw [List.zipWith_cons_cons]
    refine List.forall_mem_cons.mpr ⟨?_, ih htail⟩
    cases update with
    | none => exact hhead.set hreg ⟨adapter, hadapter, hnm⟩
    | some weights => exact hhead.set hreg ⟨adapter, hadapter, hnm⟩

end

end VllmMetal.Lora
