import Mathlib.Data.List.Nodup
import Mathlib.Logic.Function.Basic

/-!
# Loops over the items of a batch

A loop that handles one item after the other, each one through the entry of its own key, and appends
to an output or raises.  Where the items of a batch have distinct keys, every item finds the entry
that was there before the loop.

## Main definitions

* `forEach` — the loop.
* `acted` — what one item makes of an entry.

## Main results

* `forEach_ok`, `forEach_spec` — the entries and the output of a loop whose items do not raise.
* `forEach_total`, `forEach_both` — a loop whose items never raise, and two loops over the same
  items that put out the same.
* `forEach_same`, `forEach_rel`, `forEach_map` — loops that change nothing, little, or what a change
  of the entries commutes with.
* `forEach_invariant` — what every item preserves of an entry, the loop preserves.
* `sublist_flatMap_keys`, `filter_flatMap_of_mem` — the keys of the output.
-/

namespace VllmMetal

variable {E A B K V : Type} [DecidableEq K] (key : A → K) (act : A → V → Except E (V × List B))

/-- The loop. -/
def forEach : List A → (K → V) → Except E ((K → V) × List B)
  | [], entries => .ok (entries, [])
  | a :: items, entries =>
      match act a (entries (key a)) with
      | .error e => .error e
      | .ok (v, b) =>
          match forEach items (Function.update entries (key a) v) with
          | .error e => .error e
          | .ok (entries, bs) => .ok (entries, b ++ bs)

/-- What an item makes of an entry, and what it puts out. -/
def acted (a : A) (v : V) : V × List B :=
  match act a v with
  | .error _ => (v, [])
  | .ok result => result

variable {key act}

theorem acted_of_ok {a : A} {v : V} {result : V × List B} (h : act a v = .ok result) :
    acted act a v = result := by
  rw [acted, h]

/-- **A loop over items with distinct keys.** -/
theorem forEach_ok {items : List A} {entries : K → V} (hnodup : (items.map key).Nodup)
    (hok : ∀ a ∈ items, ∃ result, act a (entries (key a)) = .ok result) :
    ∃ entries', forEach key act items entries
        = .ok (entries', items.flatMap fun a => (acted act a (entries (key a))).2) ∧
      (∀ a ∈ items, entries' (key a) = (acted act a (entries (key a))).1) ∧
      ∀ k ∉ items.map key, entries' k = entries k := by
  induction items generalizing entries with
  | nil => exact ⟨entries, rfl, fun a ha => absurd ha List.not_mem_nil, fun _ _ => rfl⟩
  | cons a items ih =>
    rw [List.map_cons, List.nodup_cons] at hnodup
    obtain ⟨⟨v, b⟩, hact⟩ := hok a List.mem_cons_self
    -- the other items do not see the change
    have hother : ∀ a' ∈ items,
        Function.update entries (key a) v (key a') = entries (key a') := by
      intro a' ha'
      refine Function.update_of_ne (fun heq => hnodup.1 ?_) _ _
      rw [← heq]
      exact List.mem_map_of_mem ha'
    have hrest : ∀ a' ∈ items, ∃ result,
        act a' (Function.update entries (key a) v (key a')) = .ok result := by
      intro a' ha'
      rw [hother a' ha']
      exact hok a' (List.mem_cons_of_mem a ha')
    obtain ⟨entries', hloop, hmem, hframe⟩ := ih hnodup.2 hrest
    refine ⟨entries', ?_, fun a' ha' => ?_, fun k hk => ?_⟩
    · rw [forEach, hact]
      simp only [hloop]
      rw [List.flatMap_cons, acted_of_ok hact, List.flatMap_congr fun a' ha' => by
        rw [hother a' ha']]
    · rcases List.mem_cons.mp ha' with rfl | ha'
      · rw [hframe _ hnodup.1, Function.update_self, acted_of_ok hact]
      · rw [hmem a' ha', hother a' ha']
    · rw [List.map_cons, List.mem_cons, not_or] at hk
      rw [hframe k hk.2, Function.update_of_ne hk.1]

/-- A loop over items with distinct keys, each of which is handled with a result of its own. -/
theorem forEach_spec (key : A → K) (act : A → V → Except E (V × List B))
    (Q : A → V → List B → Prop) {items : List A} (entries : K → V) (hnodup : (items.map key).Nodup)
    (hok : ∀ a ∈ items, ∃ v b, act a (entries (key a)) = .ok (v, b) ∧ Q a v b) :
    ∃ entries' outs, forEach key act items entries = .ok (entries', items.flatMap outs) ∧
      (∀ a ∈ items, Q a (entries' (key a)) (outs a)) ∧
      ∀ k ∉ items.map key, entries' k = entries k := by
  obtain ⟨entries', hloop, hmem, hframe⟩ := forEach_ok hnodup fun a ha =>
    let ⟨v, b, h, _⟩ := hok a ha
    ⟨(v, b), h⟩
  refine ⟨entries', _, hloop, fun a ha => ?_, hframe⟩
  obtain ⟨v, b, h, hQ⟩ := hok a ha
  rw [hmem a ha, acted_of_ok h]
  exact hQ

/-- **Two loops over the same items**, each of which puts out the same in both. -/
theorem forEach_both (key : A → K) {act act' : A → V → Except E (V × List B)}
    (Q : A → List B → V → V → Prop) {items : List A} (entries entries' : K → V)
    (hnodup : (items.map key).Nodup)
    (hok : ∀ a ∈ items, ∃ v v' b, act a (entries (key a)) = .ok (v, b) ∧
      act' a (entries' (key a)) = .ok (v', b) ∧ Q a b v v') :
    ∃ after after' outs, forEach key act items entries = .ok (after, items.flatMap outs) ∧
      forEach key act' items entries' = .ok (after', items.flatMap outs) ∧
      (∀ a ∈ items, Q a (outs a) (after (key a)) (after' (key a))) ∧
      (∀ k ∉ items.map key, after k = entries k) ∧ ∀ k ∉ items.map key, after' k = entries' k := by
  obtain ⟨after, hloop, hmem, hframe⟩ := forEach_ok hnodup fun a ha =>
    let ⟨v, _, b, h, _, _⟩ := hok a ha
    ⟨(v, b), h⟩
  obtain ⟨after', hloop', hmem', hframe'⟩ := forEach_ok hnodup fun a ha =>
    let ⟨_, v', b, _, h, _⟩ := hok a ha
    ⟨(v', b), h⟩
  have hsame : ∀ a ∈ items, (acted act' a (entries' (key a))).2 =
    (acted act a (entries (key a))).2 := by
    intro a ha
    obtain ⟨v, v', b, h, h', -⟩ := hok a ha
    rw [acted_of_ok h, acted_of_ok h']
  rw [List.flatMap_congr hsame] at hloop'
  refine ⟨after, after', _, hloop, hloop', fun a ha => ?_, hframe, hframe'⟩
  obtain ⟨v, v', b, h, h', hQ⟩ := hok a ha
  rw [hmem a ha, hmem' a ha, acted_of_ok h, acted_of_ok h']
  exact hQ

/-- A loop whose items leave the entries as they are. -/
theorem forEach_same {items : List A} {entries : K → V} {outs : A → List B}
    (h : ∀ a ∈ items, act a (entries (key a)) = .ok (entries (key a), outs a)) :
    forEach key act items entries = .ok (entries, items.flatMap outs) := by
  induction items with
  | nil => rfl
  | cons a items ih =>
    rw [forEach, h a List.mem_cons_self]
    simp only [Function.update_eq_self, ih fun a' ha' => h a' (List.mem_cons_of_mem a ha')]
    rw [List.flatMap_cons]

/-- A loop whose items never raise. -/
theorem forEach_total (hact : ∀ a v, ∃ result, act a v = .ok result) (items : List A)
    (entries : K → V) : ∃ result, forEach key act items entries = .ok result := by
  induction items generalizing entries with
  | nil => exact ⟨_, rfl⟩
  | cons a items ih =>
    obtain ⟨⟨v, b⟩, hok⟩ := hact a (entries (key a))
    obtain ⟨⟨after, bs⟩, hloop⟩ := ih (Function.update entries (key a) v)
    refine ⟨(after, b ++ bs), ?_⟩
    rw [forEach, hok]
    simp only [hloop]

/-- What every item may do to an entry, the loop may do to it. -/
theorem forEach_rel {R : V → V → Prop} (hrefl : ∀ v, R v v)
    (htrans : ∀ u v w, R u v → R v w → R u w) {items : List A} {entries entries' : K → V}
    {bs : List B} (h : ∀ a ∈ items, ∀ v v' b, act a v = .ok (v', b) → R v v')
    (hloop : forEach key act items entries = .ok (entries', bs)) (k : K) :
    R (entries k) (entries' k) := by
  induction items generalizing entries entries' bs with
  | nil =>
    cases hloop
    exact hrefl _
  | cons a items ih =>
    rw [forEach] at hloop
    cases hact : act a (entries (key a)) with
    | error e =>
      rw [hact] at hloop
      cases hloop
    | ok result =>
      obtain ⟨v, b⟩ := result
      rw [hact] at hloop
      simp only at hloop
      cases hrest : forEach key act items (Function.update entries (key a) v) with
      | error e =>
        rw [hrest] at hloop
        cases hloop
      | ok result =>
        obtain ⟨entries₁, bs₁⟩ := result
        rw [hrest] at hloop
        cases hloop
        have hstep := ih (fun a' ha' => h a' (List.mem_cons_of_mem a ha')) hrest
        -- the entry is this item's, or a later one's
        by_cases hk : k = key a
        · subst hk
          rw [Function.update_self] at hstep
          exact htrans _ _ _ (h a List.mem_cons_self _ _ _ hact) hstep
        · rw [Function.update_of_ne hk] at hstep
          exact hstep

/-- **What every item preserves of an entry, the loop preserves.** -/
theorem forEach_invariant {I : K → V → Prop} {items : List A} {entries entries' : K → V}
    {bs : List B}
    (h : ∀ a ∈ items, ∀ v v' b, act a v = .ok (v', b) → I (key a) v → I (key a) v')
    (hloop : forEach key act items entries = .ok (entries', bs))
    (hI : ∀ k, I k (entries k)) (k : K) :
    I k (entries' k) := by
  induction items generalizing entries bs with
  | nil =>
    cases hloop
    exact hI k
  | cons a items ih =>
    rw [forEach] at hloop
    split at hloop
    · cases hloop
    next v b hact =>
    split at hloop
    · cases hloop
    next after bs' hrest =>
    cases hloop
    refine ih (fun a' ha' => h a' (List.mem_cons_of_mem a ha')) hrest fun k => ?_
    by_cases hk : k = key a
    · subst hk
      rw [Function.update_self]
      exact h a List.mem_cons_self _ _ _ hact (hI _)
    · rw [Function.update_of_ne hk]
      exact hI k

/-- A loop leaves the entries alone that none of its items have. -/
theorem forEach_frame {items : List A} {entries entries' : K → V} {bs : List B}
    (hloop : forEach key act items entries = .ok (entries', bs)) {k : K}
    (hk : k ∉ items.map key) : entries' k = entries k := by
  induction items generalizing entries entries' bs with
  | nil =>
    cases hloop
    rfl
  | cons a items ih =>
    rw [List.map_cons, List.mem_cons, not_or] at hk
    rw [forEach] at hloop
    cases hact : act a (entries (key a)) with
    | error e =>
      rw [hact] at hloop
      cases hloop
    | ok result =>
      rw [hact] at hloop
      simp only at hloop
      cases hrest : forEach key act items (Function.update entries (key a) result.1) with
      | error e =>
        rw [hrest] at hloop
        cases hloop
      | ok result' =>
        rw [hrest] at hloop
        cases hloop
        rw [ih hrest hk.2, Function.update_of_ne hk.1]

/-- **A change of the entries that the items do not notice commutes with the loop.** -/
theorem forEach_map {φ : K → V → V} {items : List A}
    (h : ∀ a ∈ items, ∀ v, act a (φ (key a) v) = (act a v).map fun r => (φ (key a) r.1, r.2))
    (entries : K → V) : forEach key act items (fun k => φ k (entries k)) =
      (forEach key act items entries).map fun r => (fun k => φ k (r.1 k), r.2) := by
  induction items generalizing entries with
  | nil => rfl
  | cons a items ih =>
    rw [forEach, forEach, h a List.mem_cons_self]
    cases hact : act a (entries (key a)) with
    | error e => rfl
    | ok result =>
      obtain ⟨v, b⟩ := result
      have hupdate : Function.update (fun k => φ k (entries k)) (key a) (φ (key a) v) =
          fun k => φ k (Function.update entries (key a) v k) := by
        funext k
        by_cases hk : k = key a
        · subst hk
          rw [Function.update_self, Function.update_self]
        · rw [Function.update_of_ne hk, Function.update_of_ne hk]
      simp only [Except.map, hupdate]
      rw [ih fun a' ha' => h a' (List.mem_cons_of_mem a ha')]
      cases forEach key act items (Function.update entries (key a) v) <;> rfl

/-- Items that put out one thing each. -/
theorem forall₂_flatMap {R : A → B → Prop} {outs : A → List B} {items : List A}
    (h : ∀ a ∈ items, ∃ b, outs a = [b] ∧ R a b) : List.Forall₂ R items (items.flatMap outs) := by
  induction items with
  | nil => exact List.Forall₂.nil
  | cons a items ih =>
    obtain ⟨b, hb, hR⟩ := h a List.mem_cons_self
    rw [List.flatMap_cons, hb, List.singleton_append]
    exact List.Forall₂.cons hR (ih fun a' ha' => h a' (List.mem_cons_of_mem a ha'))

/-- What an element of the second list is related to. -/
theorem exists_of_forall₂ {R : A → B → Prop} {items : List A} {results : List B}
    (h : List.Forall₂ R items results) {i : ℕ} {b : B} (hb : results[i]? = some b) :
    ∃ a, items[i]? = some a ∧ R a b := by
  induction h generalizing i with
  | nil => cases hb
  | cons hR _ ih =>
    cases i with
    | zero =>
      obtain rfl := Option.some.inj hb
      exact ⟨_, rfl, hR⟩
    | succ i => exact ih hb

/-! ### What the items put out -/

section Outputs

variable {outKey : B → K} {outs : A → List B}

omit [DecidableEq K] in
/-- Items that put out at most one thing, under their own key, keep the keys distinct. -/
theorem sublist_flatMap_keys {items : List A}
    (h : ∀ a ∈ items, outs a = [] ∨ ∃ b, outs a = [b] ∧ outKey b = key a) :
    ((items.flatMap outs).map outKey).Sublist (items.map key) := by
  induction items with
  | nil => exact List.Sublist.refl _
  | cons a items ih =>
    have hrest := ih fun a' ha' => h a' (List.mem_cons_of_mem a ha')
    rw [List.flatMap_cons, List.map_append, List.map_cons]
    obtain hnone | ⟨b, hb, hkey⟩ := h a List.mem_cons_self
    · rw [hnone]
      exact hrest.cons _
    · rw [hb, List.map_singleton, hkey, List.singleton_append]
      exact hrest.cons_cons _

/-- What was put out under a key that no item has. -/
theorem filter_flatMap_of_notMem {items : List A} {k : K} (hk : k ∉ items.map key)
    (h : ∀ a ∈ items, ∀ b ∈ outs a, outKey b = key a) :
    (items.flatMap outs).filter (fun b => outKey b = k) = [] := by
  rw [List.filter_eq_nil_iff]
  intro b hb
  obtain ⟨a, ha, hba⟩ := List.mem_flatMap.mp hb
  rw [h a ha b hba, decide_eq_true_iff]
  intro heq
  exact hk (heq ▸ List.mem_map_of_mem ha)

/-- What was put out under the key of an item. -/
theorem filter_flatMap_of_mem {items : List A} (hnodup : (items.map key).Nodup)
    (h : ∀ a ∈ items, ∀ b ∈ outs a, outKey b = key a) {a : A} (ha : a ∈ items) :
    (items.flatMap outs).filter (fun b => outKey b = key a) = outs a := by
  induction items with
  | nil => exact absurd ha List.not_mem_nil
  | cons a' items ih =>
    rw [List.map_cons, List.nodup_cons] at hnodup
    have hrest := fun a ha => h a (List.mem_cons_of_mem a' ha)
    rw [List.flatMap_cons, List.filter_append]
    rcases List.mem_cons.mp ha with rfl | ha
    · rw [filter_flatMap_of_notMem hnodup.1 hrest, List.append_nil, List.filter_eq_self]
      intro b hb
      exact decide_eq_true (h a List.mem_cons_self b hb)
    · rw [ih hnodup.2 hrest ha, List.filter_eq_nil_iff.mpr, List.nil_append]
      intro b hb
      rw [h a' List.mem_cons_self b hb, decide_eq_true_iff]
      intro heq
      exact hnodup.1 (heq ▸ List.mem_map_of_mem ha)

end Outputs

end VllmMetal
