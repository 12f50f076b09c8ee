import Mathlib.Data.List.Basic
import Mathlib.Data.List.ReduceOption

/-!
# Multimodal features

A feature of a prompt (an image, say) takes a range of placeholder positions, of which a mask
says which receive a row of the encoder's output.

## Main definitions

* `PlaceholderRange` — the positions of a feature and their mask.
* `MultiModalFeatureSpec` — a feature: its identifier and its positions.
* `sortFeatures` — the features of a request in the order of their positions.
* `PlaceholderRange.embedsBefore` — how many of the first positions receive a row.
* `embedAt` — the encoder row that a position of the prompt receives.

## Main results

* `PlaceholderRange.reduceOption_embedAt` — the rows that a window of a range receives.
* `pairwise_sortFeatures` — disjoint ranges follow one another when they are sorted.
-/

namespace VllmMetal.Multimodal

/-- The placeholder positions of a feature.  No mask means that all of them receive a row. -/
structure PlaceholderRange where
  offset : ℕ
  length : ℕ
  isEmbed : Option (List Bool)
  isEmbed_length : ∀ mask, isEmbed = some mask → mask.length = length

/-- A feature of a prompt. -/
structure MultiModalFeatureSpec where
  identifier : ℕ
  mmPosition : PlaceholderRange

/-- `sorted(mm_features, key=lambda f: f.mm_position.offset)`, which is stable. -/
def sortFeatures (features : List MultiModalFeatureSpec) : List MultiModalFeatureSpec :=
  features.mergeSort fun f g => f.mmPosition.offset ≤ g.mmPosition.offset

namespace PlaceholderRange

/-- The mask, written out. -/
def embedMask (p : PlaceholderRange) : List Bool := p.isEmbed.getD (List.replicate p.length true)

/-- How many of the first positions receive a row. -/
def embedsBefore (p : PlaceholderRange) (k : ℕ) : ℕ := (p.embedMask.take k).count true

@[simp] theorem length_embedMask (p : PlaceholderRange) : p.embedMask.length = p.length := by
  unfold embedMask
  cases h : p.isEmbed with
  | none => simp
  | some mask => simpa using p.isEmbed_length mask h

/-- The row that a position of the prompt receives, as an index into the encoder's output. -/
def embedAt (p : PlaceholderRange) (pos : ℕ) : Option ℕ :=
  if p.offset ≤ pos ∧ p.embedMask[pos - p.offset]? = some true then
    some (p.embedsBefore (pos - p.offset))
  else none

theorem embedAt_of_lt {p : PlaceholderRange} {pos : ℕ} (h : pos < p.offset) :
    p.embedAt pos = none := if_neg fun hpos => absurd hpos.1 (Nat.not_le_of_lt h)

theorem embedAt_of_ge {p : PlaceholderRange} {pos : ℕ} (h : p.offset + p.length ≤ pos) :
    p.embedAt pos = none := by
  refine if_neg fun hpos => ?_
  have hlt := (List.getElem?_eq_some_iff.mp hpos.2).1
  rw [length_embedMask] at hlt
  omega

/-- Only positions of the range receive a row. -/
theorem embedAt_ne_none {p : PlaceholderRange} {pos : ℕ} (h : p.embedAt pos ≠ none) :
    p.offset ≤ pos ∧ pos < p.offset + p.length := by
  by_contra hnot
  rcases Nat.lt_or_ge pos p.offset with hlt | hge
  · exact h (embedAt_of_lt hlt)
  · exact h (embedAt_of_ge (by omega))

/-- A position receives a row when the mask is set there. -/
theorem isSome_embedAt (p : PlaceholderRange) (k : ℕ) :
    (p.embedAt (p.offset + k)).isSome = (p.embedMask[k]?).getD false := by
  unfold embedAt
  rw [Nat.add_sub_cancel_left]
  cases p.embedMask[k]? with
  | none => simp
  | some b => cases b <;> simp

theorem embedsBefore_succ (p : PlaceholderRange) (k : ℕ) :
    p.embedsBefore (k + 1) = p.embedsBefore k + if p.embedMask[k]? = some true then 1 else 0 := by
  unfold embedsBefore
  rw [List.take_add_one, List.count_append]
  congr 1
  cases p.embedMask[k]? with
  | none => rfl
  | some b => cases b <;> rfl

theorem embedsBefore_mono (p : PlaceholderRange) {a b : ℕ} (h : a ≤ b) :
    p.embedsBefore a ≤ p.embedsBefore b := by
  induction h with
  | refl => exact Nat.le_refl _
  | step _ ih =>
    rw [embedsBefore_succ]
    exact Nat.le_trans ih (Nat.le_add_right _ _)

/-- **The rows of a window of the range** are a window of the encoder's output. -/
theorem reduceOption_embedAt (p : PlaceholderRange) (a n : ℕ) :
    ((List.range n).map fun t => p.embedAt (p.offset + a + t)).reduceOption =
      List.range' (p.embedsBefore a) (p.embedsBefore (a + n) - p.embedsBefore a) := by
  induction n with
  | zero => simp
  | succ n ih =>
    have hmono := p.embedsBefore_mono (Nat.le_add_right a n)
    have hsub : p.offset + a + n - p.offset = a + n := by omega
    rw [List.range_succ, List.map_append, List.reduceOption_append, ih, ← Nat.add_assoc,
      embedsBefore_succ, List.map_singleton, List.reduceOption_singleton]
    unfold embedAt
    rw [hsub]
    by_cases hmask : p.embedMask[a + n]? = some true
    · have hlen : p.embedsBefore (a + n) + 1 - p.embedsBefore a =
          p.embedsBefore (a + n) - p.embedsBefore a + 1 := by omega
      have hlast : p.embedsBefore a + (p.embedsBefore (a + n) - p.embedsBefore a) =
          p.embedsBefore (a + n) := by omega
      rw [if_pos ⟨by omega, hmask⟩, if_pos hmask, hlen, List.range'_1_concat, hlast]
      rfl
    · rw [if_neg fun h => hmask h.2, if_neg hmask, Nat.add_zero]
      exact List.append_nil _

/-- The row of a position is one of the rows of the range. -/
theorem lt_of_embedAt {p : PlaceholderRange} {pos j : ℕ} (h : p.embedAt pos = some j) :
    j < p.embedsBefore p.length := by
  unfold embedAt at h
  split at h
  · next hpos =>
    cases h
    have hlt := (List.getElem?_eq_some_iff.mp hpos.2).1
    rw [length_embedMask] at hlt
    have hmono := p.embedsBefore_mono hlt
    rw [Nat.succ_eq_add_one, embedsBefore_succ, if_pos hpos.2] at hmono
    exact hmono
  · cases h

/-- A window with rows to receive holds a position that receives one. -/
theorem exists_embedAt (p : PlaceholderRange) {a n : ℕ}
    (h : p.embedsBefore a < p.embedsBefore (a + n)) :
    ∃ t < n, p.embedAt (p.offset + a + t) ≠ none := by
  by_contra hall
  have hempty : ((List.range n).map fun t => p.embedAt (p.offset + a + t)).reduceOption = [] := by
    refine List.filterMap_eq_nil_iff.mpr fun x hx => ?_
    obtain ⟨t, ht, rfl⟩ := List.mem_map.mp hx
    by_contra hsome
    exact hall ⟨t, List.mem_range.mp ht, hsome⟩
  rw [reduceOption_embedAt, List.range'_eq_nil_iff] at hempty
  omega

end PlaceholderRange

/-! ### The features of a prompt -/

/-- The encoder row that a position of the prompt receives: whose output it is from, and its
index there. -/
def embedAt (features : List MultiModalFeatureSpec) (pos : ℕ) : Option (ℕ × ℕ) :=
  features.findSome? fun feature =>
    (feature.mmPosition.embedAt pos).map fun j => (feature.identifier, j)

/-- No position belongs to two placeholder ranges. -/
def DisjointRanges (features : List MultiModalFeatureSpec) : Prop :=
  features.Pairwise fun f g => ∀ pos,
    f.mmPosition.offset ≤ pos → pos < f.mmPosition.offset + f.mmPosition.length →
    ¬ (g.mmPosition.offset ≤ pos ∧ pos < g.mmPosition.offset + g.mmPosition.length)

section

variable {features features' : List MultiModalFeatureSpec} {pos : ℕ}

theorem embedAt_append (features features' : List MultiModalFeatureSpec) (pos : ℕ) :
    embedAt (features ++ features') pos = (embedAt features pos).or (embedAt features' pos) :=
  List.findSome?_append

theorem embedAt_singleton (feature : MultiModalFeatureSpec) (pos : ℕ) :
    embedAt [feature] pos =
      (feature.mmPosition.embedAt pos).map fun j => (feature.identifier, j) := by
  unfold embedAt
  rw [List.findSome?_singleton]

theorem embedAt_eq_none (h : ∀ feature ∈ features, feature.mmPosition.embedAt pos = none) :
    embedAt features pos = none := by
  refine List.findSome?_eq_none_iff.mpr fun feature hmem => ?_
  rw [h feature hmem]
  rfl

/-- Of disjoint ranges the one that holds a position decides. -/
theorem embedAt_eq_some_iff (hdisjoint : DisjointRanges features) {e : ℕ × ℕ} :
    embedAt features pos = some e ↔ ∃ feature ∈ features, ∃ j,
      feature.mmPosition.embedAt pos = some j ∧ e = (feature.identifier, j) := by
  induction features with
  | nil => simp [embedAt]
  | cons f features ih =>
    obtain ⟨hhead, htail⟩ := List.pairwise_cons.mp hdisjoint
    have hsplit := embedAt_append [f] features pos
    rw [List.singleton_append, embedAt_singleton] at hsplit
    rw [hsplit]
    cases hf : f.mmPosition.embedAt pos with
    | none =>
      rw [Option.map_none, Option.none_or, ih htail]
      simp [hf]
    | some j =>
      rw [Option.map_some, Option.some_or]
      constructor
      · intro h
        exact ⟨f, List.mem_cons_self, j, hf, (Option.some.inj h).symm⟩
      · rintro ⟨g, hg, i, hi, rfl⟩
        rcases List.mem_cons.mp hg with rfl | hg
        · rw [hf] at hi
          cases hi
          rfl
        · obtain ⟨hlo, hhi⟩ := PlaceholderRange.embedAt_ne_none (by rw [hf]; exact nofun)
          exact absurd (PlaceholderRange.embedAt_ne_none (by rw [hi]; exact nofun))
            (hhead g hg pos hlo hhi)

theorem DisjointRanges.perm (h : DisjointRanges features) (hperm : features.Perm features') :
    DisjointRanges features' := by
  refine (List.Perm.pairwise_iff ?_ hperm).mp h
  intro f g hfg pos hlo hhi hg
  exact hfg pos hg.1 hg.2 ⟨hlo, hhi⟩

/-- The order of the features does not matter. -/
theorem embedAt_perm (h : DisjointRanges features) (hperm : features.Perm features') (pos : ℕ) :
    embedAt features' pos = embedAt features pos := by
  refine Option.ext fun e => ?_
  rw [embedAt_eq_some_iff h, embedAt_eq_some_iff (h.perm hperm)]
  constructor
  · rintro ⟨f, hf, hrest⟩
    exact ⟨f, hperm.mem_iff.mpr hf, hrest⟩
  · rintro ⟨f, hf, hrest⟩
    exact ⟨f, hperm.mem_iff.mp hf, hrest⟩

theorem sortFeatures_perm (features : List MultiModalFeatureSpec) :
    (sortFeatures features).Perm features := List.mergeSort_perm _ _

/-- Sorting the features changes no position's row. -/
theorem embedAt_sortFeatures (h : DisjointRanges features) (pos : ℕ) :
    embedAt (sortFeatures features) pos = embedAt features pos :=
  embedAt_perm h (sortFeatures_perm features).symm pos

/-- **Of sorted disjoint ranges the earlier ones end before the later ones**, unless these are
empty. -/
theorem pairwise_sortFeatures (h : DisjointRanges features) :
    (sortFeatures features).Pairwise fun f g => 0 < g.mmPosition.length →
      ∀ pos, g.mmPosition.offset ≤ pos → f.mmPosition.embedAt pos = none := by
  have hsorted : (sortFeatures features).Pairwise fun f g =>
      f.mmPosition.offset ≤ g.mmPosition.offset := by
    have hle : (sortFeatures features).Pairwise fun f g =>
        decide (f.mmPosition.offset ≤ g.mmPosition.offset) = true := by
      refine List.pairwise_mergeSort (fun f g k hfg hgk => ?_) (fun f g => ?_) features
      · exact decide_eq_true (Nat.le_trans (of_decide_eq_true hfg) (of_decide_eq_true hgk))
      · simpa using Nat.le_total f.mmPosition.offset g.mmPosition.offset
    exact hle.imp fun hfg => of_decide_eq_true hfg
  refine (hsorted.and (h.perm (sortFeatures_perm features).symm)).imp ?_
  rintro f g ⟨hle, hdisjoint⟩ hpos pos hge
  by_contra hne
  obtain ⟨hlo, hhi⟩ := PlaceholderRange.embedAt_ne_none hne
  exact hdisjoint g.mmPosition.offset hle (by omega) ⟨Nat.le_refl _, by omega⟩

end

end VllmMetal.Multimodal
