import Mathlib.Data.List.Dedup
import Mathlib.Data.List.Nodup
import Mathlib.Data.List.Perm.Basic

/-!
# Interning

Keys are given consecutive codes in the order in which they first appear.

## Main definitions

* `intern keys k` — the keys with `k` among them.
* `internAll keys ks` — the keys with all of `ks` among them, and the code of each of `ks`.

## Main results

* `exists_code` — the code of a key leads back to the key.
* `length_internAll` — as many keys are added as are new.
-/

namespace VllmMetal

variable {α : Type*} [DecidableEq α]

/-- Append a key that is not there yet. -/
def intern (keys : List α) (k : α) : List α := if k ∈ keys then keys else keys ++ [k]

/-- Intern keys one after the other: the keys then, and the code of each at its turn. -/
def internAll : List α → List α → List α × List ℕ
  | keys, [] => (keys, [])
  | keys, k :: ks =>
    let rest := internAll (intern keys k) ks
    (rest.1, (intern keys k).idxOf k :: rest.2)

/-- An entry of a prefix stays where it is. -/
theorem getElem?_of_prefix {β : Type*} {l l' : List β} (h : l <+: l') {i : ℕ} {b : β}
    (hb : l[i]? = some b) : l'[i]? = some b := by
  obtain ⟨rest, rfl⟩ := h
  rw [List.getElem?_append_left (List.getElem?_eq_some_iff.mp hb).1]
  exact hb

theorem mem_intern {keys : List α} {k a : α} : a ∈ intern keys k ↔ a ∈ keys ∨ a = k := by
  unfold intern
  split_ifs with hk
  · constructor
    · exact Or.inl
    · rintro (ha | rfl)
      · exact ha
      · exact hk
  · rw [List.mem_append, List.mem_singleton]

theorem prefix_intern (keys : List α) (k : α) : keys <+: intern keys k := by
  unfold intern
  split_ifs
  · exact List.prefix_refl keys
  · exact List.prefix_append keys [k]

theorem nodup_intern {keys : List α} (h : keys.Nodup) (k : α) : (intern keys k).Nodup := by
  unfold intern
  split_ifs with hk
  · exact h
  · rw [List.nodup_append]
    refine ⟨h, List.nodup_singleton k, ?_⟩
    intro a ha b hb
    rw [List.mem_singleton] at hb
    rintro rfl
    exact hk (hb ▸ ha)

/-- Codes do not change when more keys come in. -/
theorem prefix_internAll (keys ks : List α) : keys <+: (internAll keys ks).1 := by
  induction ks generalizing keys with
  | nil => exact List.prefix_refl keys
  | cons k ks ih => exact (prefix_intern keys k).trans (ih (intern keys k))

theorem mem_internAll {keys ks : List α} {a : α} :
    a ∈ (internAll keys ks).1 ↔ a ∈ keys ∨ a ∈ ks := by
  induction ks generalizing keys with
  | nil => simp [internAll]
  | cons k ks ih =>
    show a ∈ (internAll (intern keys k) ks).1 ↔ _
    rw [ih, mem_intern, List.mem_cons, or_assoc]

theorem nodup_internAll {keys : List α} (h : keys.Nodup) (ks : List α) :
    (internAll keys ks).1.Nodup := by
  induction ks generalizing keys with
  | nil => exact h
  | cons k ks ih => exact ih (nodup_intern h k)

@[simp] theorem length_codes (keys ks : List α) : (internAll keys ks).2.length = ks.length := by
  induction ks generalizing keys with
  | nil => rfl
  | cons k ks ih => exact congrArg (· + 1) (ih (intern keys k))

/-- **The code of a key leads back to the key.** -/
theorem exists_code (keys : List α) {ks : List α} {j : ℕ} {k : α} (hk : ks[j]? = some k) :
    ∃ c, (internAll keys ks).2[j]? = some c ∧ (internAll keys ks).1[c]? = some k := by
  induction ks generalizing keys j with
  | nil => simp at hk
  | cons k' ks ih =>
    cases j with
    | zero =>
      rw [List.getElem?_cons_zero, Option.some.injEq] at hk
      subst hk
      have hmem : k' ∈ intern keys k' := mem_intern.mpr (Or.inr rfl)
      have hlt : (intern keys k').idxOf k' < (intern keys k').length :=
        List.idxOf_lt_length_of_mem hmem
      refine ⟨(intern keys k').idxOf k', rfl, ?_⟩
      -- the code was given before the rest came in
      apply getElem?_of_prefix (prefix_internAll (intern keys k') ks)
      rw [List.getElem?_eq_getElem hlt, List.getElem_idxOf hlt]
    | succ j =>
      rw [List.getElem?_cons_succ] at hk
      exact ih (intern keys k') hk

/-- **As many keys are added as are new.** -/
theorem length_internAll {keys : List α} (h : keys.Nodup) (ks : List α) :
    (internAll keys ks).1.length = keys.length + (ks.filter (· ∉ keys)).dedup.length := by
  obtain ⟨new, hnew⟩ := prefix_internAll keys ks
  have hnodup := nodup_internAll h ks
  rw [← hnew, List.nodup_append] at hnodup
  have hmem : ∀ a, a ∈ new ↔ a ∈ (ks.filter (· ∉ keys)).dedup := by
    intro a
    have hall : a ∈ (internAll keys ks).1 ↔ _ := mem_internAll
    rw [← hnew, List.mem_append] at hall
    simp only [List.mem_dedup, List.mem_filter, decide_eq_true_eq]
    constructor
    · intro ha
      have hout : a ∉ keys := fun hin => hnodup.2.2 a hin a ha rfl
      exact ⟨(hall.mp (Or.inr ha)).resolve_left hout, hout⟩
    · rintro ⟨ha, hout⟩
      exact (hall.mpr (Or.inr ha)).resolve_left hout
  have hperm : new.Perm (ks.filter (· ∉ keys)).dedup :=
    (List.perm_ext_iff_of_nodup hnodup.2.1 (List.nodup_dedup _)).mpr hmem
  rw [← hnew, List.length_append, hperm.length_eq]

end VllmMetal
