import VllmMetal.State.Cache

/-!
# The slots of a step

In a step each layer uses slots of its own.  Layers of different groups may be on one region, so
what one of them does is seen by the others at the slots it uses, and at those that it had pending
before; everywhere else the caches agree.

## Main definitions

* `LayerSlots` — a layer and the slots that it uses.
* `Apart` — the layers of a step use slots that no other layer of their region uses or has pending.
* `Within` — a step that uses no other slots.

## Main results

* `within_of_assigns`, `within_of_reparked` — a method of one layer.
* `Within.trans` — steps one after the other.
* `Within.agrees`, `Within.free` — what a step leaves to the layers that it does not name.
-/

namespace VllmMetal
namespace State

variable {numLayers maxSeqs : ℕ} {Row : StateComponent → Type*}

/-- A layer and the slots that it uses. -/
structure LayerSlots (numLayers maxSeqs : ℕ) where
  layer : Fin numLayers
  ids : List (Fin maxSeqs)

namespace PagedStateCache

variable {cache cache' cache'' : PagedStateCache numLayers maxSeqs Row}
variable {uses uses' : List (LayerSlots numLayers maxSeqs)}

/-- **The layers of a step keep apart**: no slot that one of them uses is used by another layer of
its region, or pending there. -/
structure Apart (cache : PagedStateCache numLayers maxSeqs Row)
    (uses : List (LayerSlots numLayers maxSeqs)) : Prop where
  separate : ∀ use ∈ uses, ∀ use' ∈ uses, use'.layer ≠ use.layer →
    cache.regions use'.layer = cache.regions use.layer → ∀ s ∈ use.ids, s ∉ use'.ids
  free : ∀ use ∈ uses, ∀ c, ∀ s ∈ use.ids, cache.Free c use.layer s

/-- **A step that uses these slots alone.** -/
structure Within (uses : List (LayerSlots numLayers maxSeqs))
    (cache cache' : PagedStateCache numLayers maxSeqs Row) : Prop where
  layout : cache'.toStateLayout = cache.toStateLayout
  oneOwner : cache'.OneOwner
  /-- The other layers keep their updates, -/
  pending : ∀ c layer, (∀ use ∈ uses, use.layer ≠ layer) →
    cache'.pending c layer = cache.pending c layer
  /-- a layer has nothing else pending than before and in the slots it uses, -/
  parks : ∀ c layer s, (cache'.pools c layer).Parks s →
    (cache.pools c layer).Parks s ∨ ∃ use ∈ uses, use.layer = layer ∧ s ∈ use.ids
  /-- no other slot is written, save those of updates that were pending, -/
  buffers : ∀ c region s, (∀ use ∈ uses, cache.regions use.layer = region →
    s ∉ use.ids ∧ ¬ (cache.pools c use.layer).Parks s) →
    cache'.buffers c region s = cache.buffers c region s
  /-- and the regions hold what they held in every other slot. -/
  stored : ∀ c region s, (∀ use ∈ uses, cache.regions use.layer = region → s ∉ use.ids) →
    cache'.stored c region s = cache.stored c region s

theorem Within.regions_eq (h : Within uses cache cache') : cache'.regions = cache.regions :=
  congrArg StateLayout.regions h.layout

theorem Within.refl (hone : cache.OneOwner) : Within [] cache cache :=
  ⟨rfl, hone, fun _ _ _ => rfl, fun _ _ _ h => Or.inl h, fun _ _ _ _ => rfl,
    fun _ _ _ _ => rfl⟩

theorem Within.mono (h : Within uses cache cache') (hsub : uses ⊆ uses') :
    Within uses' cache cache' where
  layout := h.layout
  oneOwner := h.oneOwner
  pending c layer hnot := h.pending c layer fun use huse => hnot use (hsub huse)
  parks c layer s hs := (h.parks c layer s hs).imp_right fun ⟨use, huse, hmem⟩ =>
    ⟨use, hsub huse, hmem⟩
  buffers c region s hnot := h.buffers c region s fun use huse => hnot use (hsub huse)
  stored c region s hnot := h.stored c region s fun use huse => hnot use (hsub huse)

/-- **Steps one after the other.** -/
theorem Within.trans (h : Within uses cache cache') (h' : Within uses' cache' cache'') :
    Within (uses ++ uses') cache cache'' where
  layout := h'.layout.trans h.layout
  oneOwner := h'.oneOwner
  pending c layer hnot :=
    (h'.pending c layer fun use huse => hnot use (List.mem_append_right _ huse)).trans
      (h.pending c layer fun use huse => hnot use (List.mem_append_left _ huse))
  parks c layer s hs := by
    rcases h'.parks c layer s hs with hs | ⟨use, huse, hmem⟩
    · rcases h.parks c layer s hs with hs | ⟨use, huse, hmem⟩
      · exact Or.inl hs
      · exact Or.inr ⟨use, List.mem_append_left _ huse, hmem⟩
    · exact Or.inr ⟨use, List.mem_append_right _ huse, hmem⟩
  buffers c region s hnot := by
    refine (h'.buffers c region s fun use huse hregion => ?_).trans
      (h.buffers c region s fun use huse => hnot use (List.mem_append_left _ huse))
    rw [h.regions_eq] at hregion
    obtain ⟨hids, hparks⟩ := hnot use (List.mem_append_right _ huse) hregion
    refine ⟨hids, fun hs => ?_⟩
    rcases h.parks c use.layer s hs with hs | ⟨use', huse', heq, hmem⟩
    · exact hparks hs
    · exact (hnot use' (List.mem_append_left _ huse') (heq ▸ hregion)).1 hmem
  stored c region s hnot := by
    refine (h'.stored c region s fun use huse hregion => ?_).trans
      (h.stored c region s fun use huse => hnot use (List.mem_append_left _ huse))
    rw [h.regions_eq] at hregion
    exact hnot use (List.mem_append_right _ huse) hregion

/-- **A layer that a part of a step does not name** keeps its update, and its rows in the slots that
it uses. -/
theorem Within.agrees (h : Within uses' cache cache') (hapart : cache.Apart uses)
    (hsub : uses' ⊆ uses) {use : LayerSlots numLayers maxSeqs} (huse : use ∈ uses)
    (hlayer : ∀ use' ∈ uses', use'.layer ≠ use.layer) {c : StateComponent} {s : Fin maxSeqs}
    (hs : s ∈ use.ids) :
    (cache'.pools c use.layer).pool s = (cache.pools c use.layer).pool s := by
  rw [pools, pools, h.regions_eq]
  refine h.buffers c _ s fun use' huse' hregion => ⟨?_, ?_⟩
  · exact hapart.separate use huse use' (hsub huse') (hlayer use' huse') hregion s hs
  · exact hapart.free use huse c s hs use'.layer (hlayer use' huse') hregion

theorem Within.logical_eq (h : Within uses' cache cache') (hapart : cache.Apart uses)
    (hsub : uses' ⊆ uses) {use : LayerSlots numLayers maxSeqs} (huse : use ∈ uses)
    (hlayer : ∀ use' ∈ uses', use'.layer ≠ use.layer) {c : StateComponent} {s : Fin maxSeqs}
    (hs : s ∈ use.ids) : cache'.logical c use.layer s = cache.logical c use.layer s :=
  logical_congr (h.pending c use.layer hlayer) (h.agrees hapart hsub huse hlayer hs)

/-- A slot that is free for a layer, and that no other layer of its region uses, stays free. -/
theorem Within.free (h : Within uses cache cache') {c : StateComponent} {layer : Fin numLayers}
    {s : Fin maxSeqs} (hs : ∀ use ∈ uses, use.layer ≠ layer →
      cache.regions use.layer = cache.regions layer → s ∉ use.ids)
    (hfree : cache.Free c layer s) : cache'.Free c layer s := by
  intro layer' hne hregion hparks
  rw [h.regions_eq] at hregion
  rcases h.parks c layer' s hparks with hparks | ⟨use, huse, rfl, hmem⟩
  · exact hfree layer' hne hregion hparks
  · exact hs use huse hne hregion hmem

/-- The layers of a step that has run in part are still apart. -/
theorem Apart.of_within (hapart : cache.Apart uses) (h : Within uses' cache cache')
    (hsub : uses' ⊆ uses) : cache'.Apart uses where
  separate use huse use' huse' hne hregion := by
    rw [h.regions_eq] at hregion
    exact hapart.separate use huse use' huse' hne hregion
  free use huse c s hs := h.free (fun use' huse' hne hregion =>
    hapart.separate use huse use' (hsub huse') hne hregion s hs) (hapart.free use huse c s hs)

theorem Apart.subset (hapart : cache.Apart uses) (hsub : uses' ⊆ uses) : cache.Apart uses' where
  separate use huse use' huse' := hapart.separate use (hsub huse) use' (hsub huse')
  free use huse := hapart.free use (hsub huse)

/-- **A method that assigns rows to free slots of a layer uses these slots.** -/
theorem within_of_assigns {c : StateComponent} {layer : Fin numLayers} {ids : List (Fin maxSeqs)}
    {rows : List (Row c)} (h : Assigns c layer cache cache' ids rows) (hone : cache.OneOwner)
    (hfree : ∀ s ∈ ids, cache.Free c layer s) (hlen : rows.length = ids.length) :
    Within [⟨layer, ids⟩] cache cache' where
  layout := h.only.toStateLayout_eq
  oneOwner := oneOwner_of_assigns h hone hfree
  pending c' layer' hnot := h.only.pending_eq (Or.inr fun heq => hnot _ List.mem_cons_self heq.symm)
  parks c' layer' s hs := by
    by_cases heq : c' = c ∧ layer' = layer
    · obtain ⟨rfl, rfl⟩ := heq
      exact (h.pools.parks s hs).symm.imp_right fun hs => ⟨_, List.mem_cons_self, rfl, hs⟩
    · refine Or.inl ?_
      simpa only [WriteBack.Parks, pools, h.only.pending_eq (by tauto)] using hs
  buffers c' region s hnot := by
    by_cases heq : c' = c ∧ region = cache.regions layer
    · obtain ⟨rfl, rfl⟩ := heq
      obtain ⟨hids, hparks⟩ := hnot _ List.mem_cons_self rfl
      have hpool := h.pools.pool s hids hparks
      rw [pools, pools, congrArg StateLayout.regions h.only.toStateLayout_eq] at hpool
      exact hpool
    · rw [h.only.buffers_eq (by tauto)]
  stored c' region s hnot := by
    by_cases heq : c' = c ∧ region = cache.regions layer
    · obtain ⟨rfl, rfl⟩ := heq
      rw [stored_of_assigns h hone hfree hlen]
      exact assign_of_not_mem hlen (hnot _ List.mem_cons_self rfl)
    · rw [stored_of_assigns_of_ne h (by tauto)]

/-- **A layer that parks other rows for the slots that it had parked** uses these slots. -/
theorem within_of_reparked {layer : Fin numLayers} {ids : List (Fin maxSeqs)}
    (hlayout : cache'.toStateLayout = cache.toStateLayout) (hone : cache.OneOwner)
    (hpending : ∀ c layer', layer' ≠ layer → cache'.pending c layer' = cache.pending c layer')
    (hbuffers : cache'.buffers = cache.buffers)
    (hparked : ∀ c, ∃ u u', cache.pending c layer = some u ∧ cache'.pending c layer = some u' ∧
      u.ids = ids ∧ u'.ids = ids) :
    Within [⟨layer, ids⟩] cache cache' := by
  have hregions : cache'.regions = cache.regions := congrArg StateLayout.regions hlayout
  have hother : ∀ c layer', layer' ≠ layer → ∀ s,
      ((cache'.pools c layer').Parks s ↔ (cache.pools c layer').Parks s) := by
    intro c layer' hne s
    simp only [WriteBack.Parks, pools, hpending c layer' hne]
  have hself : ∀ c s, ((cache'.pools c layer).Parks s ↔ (cache.pools c layer).Parks s) := by
    intro c s
    obtain ⟨u, u', hu, hu', hids, hids'⟩ := hparked c
    simp only [WriteBack.Parks, pools, hu, hu', Option.some.injEq, exists_eq_left', hids, hids']
  have hparks : ∀ c layer' s,
      (cache'.pools c layer').Parks s ↔ (cache.pools c layer').Parks s := by
    intro c layer' s
    by_cases heq : layer' = layer
    · rw [heq]
      exact hself c s
    · exact hother c layer' heq s
  refine ⟨hlayout, ?_, fun c layer' hnot => hpending c layer' fun heq =>
    hnot _ List.mem_cons_self heq.symm, fun c layer' s hs => Or.inl ((hparks c layer' s).mp hs),
    fun c region s _ => by rw [hbuffers], fun c region s hnot => ?_⟩
  · intro c layer' layer'' s hregion hs hs'
    rw [hregions] at hregion
    exact hone c layer' layer'' s hregion ((hparks _ _ _).mp hs) ((hparks _ _ _).mp hs')
  · refine stored_congr hlayout (fun layer' hregion => ?_) (by rw [hbuffers])
    by_cases heq : layer' = layer
    · subst heq
      -- the slot is none of those that the layer has pending
      obtain ⟨u, u', hu, hu', hids, hids'⟩ := hparked c
      have hs := hnot _ List.mem_cons_self hregion
      simp only [WriteBack.row?, pools, hu, hu', Option.bind_some]
      rw [RowUpdate.row?_eq_none_iff.mpr (by rw [hids']; exact hs),
        RowUpdate.row?_eq_none_iff.mpr (by rw [hids]; exact hs)]
    · simp only [WriteBack.row?, pools, hpending c layer' heq]

end PagedStateCache
end State
end VllmMetal
