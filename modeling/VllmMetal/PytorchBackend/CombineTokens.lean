import VllmMetal.PytorchBackend.TokenRows

/-!
# Combining sampled and draft tokens

The rows of the logits are the last rows of each query.  Before the step, those from the prefill
length on still hold placeholders: the first gets the last sampled token, the others the drafts.

## Main definitions

* `logitRows` — the rows of the logits, request by request.
* `lanePlaces` — the places that the lanes write, those of padding lanes behind them.
* `CombineExact` — what the operation does.

## Main results

* `WidthsFit.pairwise_lanePlaces` — no place is written twice.
* `WidthsFit.combine_drafts`, `WidthsFit.combine_one` — the two branches.
-/

namespace VllmMetal.PytorchBackend

/-! ### Sampled and draft tokens -/

/-- Row `j` of the logits of request `i`: the last rows of its query. -/
def logitRow (lens widths : List ℕ) (i j : ℕ) : ℕ :=
  (boundaries lens).getD (i + 1) 0 - widths.getD i 0 + j

/-- The rows of the logits, request by request. -/
def logitRows (lens widths : List ℕ) : List ℕ :=
  (List.range widths.length).flatMap fun i =>
    (List.range (widths.getD i 0)).map (logitRow lens widths i)

/-- No request has more rows of logits than its query has rows. -/
structure WidthsFit (lens widths : List ℕ) : Prop where
  length_eq : widths.length = lens.length
  le : ∀ i, widths.getD i 0 ≤ lens.getD i 0

section Combine

variable {lens widths : List ℕ} {i j lane : ℕ}

theorem length_flatMap_logitRow (lens widths : List ℕ) :
    ((List.range widths.length).map fun i =>
      ((List.range (widths.getD i 0)).map (logitRow lens widths i)).length) = widths := by
  simp only [List.length_map, List.length_range]
  exact map_getD_range widths 0 rfl

theorem length_logitRows (lens widths : List ℕ) : (logitRows lens widths).length = widths.sum := by
  rw [logitRows, List.length_flatMap, length_flatMap_logitRow]

theorem getElem?_logitRows (h : Owns widths i j lane) :
    (logitRows lens widths)[lane]? = some (logitRow lens widths i j) := by
  obtain ⟨w, hw, hj, rfl⟩ := h
  have hi : i < widths.length := (List.getElem?_eq_some_iff.mp hw).1
  have hw' : widths.getD i 0 = w :=
    getD_of_getElem? _ hw
  have hrow := @getElem?_flatMap_boundary ℕ ℕ (List.range widths.length)
    (fun i => (List.range (widths.getD i 0)).map (logitRow lens widths i)) i j i
    (List.getElem?_range hi) (by rw [List.length_map, List.length_range, hw']; exact hj)
  rw [length_flatMap_logitRow, hw', List.getElem?_map, List.getElem?_range hj] at hrow
  exact hrow

theorem mem_logitRows {k : ℕ} : k ∈ logitRows lens widths ↔
    ∃ i j, i < widths.length ∧ j < widths.getD i 0 ∧ k = logitRow lens widths i j := by
  simp only [logitRows, List.mem_flatMap, List.mem_map, List.mem_range]
  constructor
  · rintro ⟨i, hi, j, hj, rfl⟩
    exact ⟨i, j, hi, hj, rfl⟩
  · rintro ⟨i, j, hi, hj, rfl⟩
    exact ⟨i, hi, j, hj, rfl⟩

/-- The places that the lanes of the logits write: padding lanes write behind the batch. -/
def lanePlaces (lens widths : List ℕ) (numLogits : ℕ) : List ℕ :=
  logitRows lens widths ++
    (List.range (numLogits - widths.sum)).map fun k => lens.sum + k

theorem WidthsFit.le_stop (hfit : WidthsFit lens widths) (i : ℕ) (hi : i < lens.length) :
    widths.getD i 0 + (boundaries lens).getD i 0 ≤ (boundaries lens).getD (i + 1) 0 := by
  have hle := hfit.le i
  have hget : lens[i]? = some (lens.getD i 0) := by
    rw [List.getD_eq_getElem _ _ hi, List.getElem?_eq_getElem hi]
  rw [getD_boundaries_succ hget]
  omega

/-- A row of the logits lies in the query of its request. -/
theorem WidthsFit.logitRow_mem (hfit : WidthsFit lens widths) (hi : i < lens.length)
    (hj : j < widths.getD i 0) : (boundaries lens).getD i 0 ≤ logitRow lens widths i j ∧
      logitRow lens widths i j < (boundaries lens).getD (i + 1) 0 := by
  have := hfit.le_stop i hi
  unfold logitRow
  omega

/-- **The lanes write places in order.** -/
theorem WidthsFit.pairwise_lanePlaces (hfit : WidthsFit lens widths) (numLogits : ℕ) :
    (lanePlaces lens widths numLogits).Pairwise (· < ·) := by
  have hrows : (logitRows lens widths).Pairwise (· < ·) := by
    rw [logitRows, List.pairwise_flatMap]
    constructor
    · intro i _
      rw [List.pairwise_map]
      exact List.pairwise_lt_range.imp fun h => Nat.add_lt_add_left h _
    · refine List.pairwise_lt_range.imp_of_mem fun {i i'} hi hi' hlt => ?_
      rw [List.mem_range, hfit.length_eq] at hi hi'
      intro k hk k' hk'
      obtain ⟨j, hj, rfl⟩ := List.mem_map.mp hk
      obtain ⟨j', hj', rfl⟩ := List.mem_map.mp hk'
      rw [List.mem_range] at hj hj'
      have hstop := (hfit.logitRow_mem hi hj).2
      have hstart := (hfit.logitRow_mem hi' hj').1
      have hmono := @getD_boundaries_mono lens (i + 1) i' hlt (Nat.le_of_lt hi')
      omega
  refine List.pairwise_append.mpr ⟨hrows, ?_, ?_⟩
  · rw [List.pairwise_map]
    exact List.pairwise_lt_range.imp fun h => Nat.add_lt_add_left h _
  · intro k hk k' hk'
    obtain ⟨i, j, hi, hj, rfl⟩ := mem_logitRows.mp hk
    obtain ⟨d, -, rfl⟩ := List.mem_map.mp hk'
    rw [hfit.length_eq] at hi
    have hstop := (hfit.logitRow_mem hi hj).2
    have hsum : (boundaries lens).getD (i + 1) 0 ≤ lens.sum := getD_boundaries_le_sum lens hi
    omega

/-- The last request ends the queries and the rows of the logits. -/
theorem WidthsFit.last_stop (hfit : WidthsFit lens widths) :
    (boundaries lens).getD (widths.length - 1 + 1) 0 = lens.sum ∧
      (boundaries widths).getD (widths.length - 1) 0 + widths.getD (widths.length - 1) 0 =
        widths.sum := by
  have hlens : (boundaries lens).getD lens.length 0 = lens.sum := by
    rw [getD_boundaries (Nat.le_refl _), List.take_length]
  have hwidths : (boundaries widths).getD widths.length 0 = widths.sum := by
    rw [getD_boundaries (Nat.le_refl _), List.take_length]
  rcases Nat.eq_zero_or_pos widths.length with hzero | hpos
  · obtain rfl := List.eq_nil_of_length_eq_zero hzero
    obtain rfl := List.eq_nil_of_length_eq_zero (hfit.length_eq ▸ hzero)
    simp [boundaries]
  · have hlast : widths.length - 1 < widths.length := by omega
    have hget : widths[widths.length - 1]? = some (widths.getD (widths.length - 1) 0) := by
      rw [List.getD_eq_getElem _ _ hlast, List.getElem?_eq_getElem hlast]
    have hsucc := getD_boundaries_succ hget
    rw [Nat.sub_add_cancel hpos] at hsucc ⊢
    exact ⟨hfit.length_eq ▸ hlens, by omega⟩

/-- The index that a lane computes. -/
theorem WidthsFit.lanePlaces_eq (hfit : WidthsFit lens widths) {numLogits : ℕ}
    (hlogits : widths.sum ≤ numLogits) :
    ((tokenRows (boundaries widths) numLogits).mapIdx fun offset row =>
      ((boundaries lens).getD (row + 1) 0 : ℤ) - (diff (boundaries widths)).getD row 0 +
        (offset - (boundaries widths).getD row 0)) =
      (lanePlaces lens widths numLogits).map fun k : ℕ => (k : ℤ) := by
  have hlength : (lanePlaces lens widths numLogits).length = numLogits := by
    rw [lanePlaces, List.length_append, length_logitRows, List.length_map, List.length_range]
    omega
  rw [diff_boundaries]
  refine List.ext_getElem? fun lane => ?_
  by_cases hlane : lane < numLogits
  · rw [List.getElem?_mapIdx, List.getElem?_map, lanePlaces]
    -- a row of some request
    by_cases hsum : lane < widths.sum
    · obtain ⟨i, j, howns⟩ := exists_owns hsum
      rw [getElem?_tokenRows howns hlane, List.getElem?_append_left (by rwa [length_logitRows]),
        getElem?_logitRows howns, Option.map_some, Option.map_some]
      have hstop := hfit.le_stop i (hfit.length_eq ▸ howns.lt_length)
      obtain ⟨w, -, -, rfl⟩ := howns
      congr 1
      unfold logitRow
      omega
    -- a row behind all requests
    · rw [List.getElem?_append_right (by rw [length_logitRows]; omega), length_logitRows,
        List.getElem?_map, List.getElem?_range (by omega), Option.map_some, Option.map_some]
      have hrow := tokenRows_padding (Nat.not_lt.mp hsum) hlane
      rw [List.getD_eq_getElem _ _ (by rwa [length_tokenRows])] at hrow
      rw [List.getElem?_eq_getElem (by rwa [length_tokenRows]), hrow, Option.map_some]
      have hlast := hfit.last_stop
      congr 1
      omega
  · rw [List.getElem?_eq_none (by rw [List.length_mapIdx, length_tokenRows]; omega),
      List.getElem?_eq_none (by rw [List.length_map, hlength]; omega)]

end Combine

/-- What the combined ids and indices are: the rows of the logits of every request, with the tokens
from the prefill length on replaced. -/
structure CombineExact (ids : List Token) (mapping lens widths lengths : List ℕ) (last : ℕ → Token)
    (prefill : ℕ → ℕ) (drafts : ℕ → ℕ → Token) (draftCols numLogits : ℕ)
    (out : List Token × List ℤ) : Prop where
  indices : out.2.take widths.sum = (logitRows lens widths).map fun k : ℕ => (k : ℤ)
  replaced : ∀ i j slot w, mapping[i]? = some slot → widths[i]? = some w → j < w → j ≤ draftCols →
    logitRow lens widths i j < ids.length → out.1[logitRow lens widths i j]? =
      if (prefill slot : ℤ) ≤ lengths.getD i 0 - w + j then
        some (if j = 0 then last slot else drafts slot (j - 1))
      else ids[logitRow lens widths i j]?
  kept : ∀ k < lens.sum, k ∉ logitRows lens widths → out.1[k]? = ids[k]?
  exact : numLogits = widths.sum → out.2.length = widths.sum ∧
    ∀ k ∉ logitRows lens widths, out.1[k]? = ids[k]?

theorem writeIds_natCast (ids : List Token) (places : List ℕ) (values : List Token) :
    writeIds ids (places.map fun k : ℕ => (k : ℤ)) values = scatterRows ids places values := by
  have hwrap : (wrapIndex ids.length ∘ fun k : ℕ => (k : ℤ)) = id :=
    funext fun k => wrapIndex_natCast ids.length k
  rw [writeIds, List.map_map, hwrap, List.map_id]

section CombineRun

variable {ids : List Token} {mapping lens widths lengths : List ℕ} {last : ℕ → Token}
  {prefill : ℕ → ℕ} {drafts : ℕ → ℕ → Token} {draftCols numLogits : ℕ}

/-- A scatter over the lanes' places, of the right values at the lanes of the requests. -/
theorem WidthsFit.combineExact (hfit : WidthsFit lens widths) {m : ℕ} {values : List Token}
    (hm : numLogits = widths.sum → m = widths.sum)
    (hvalues : ∀ i j lane slot w, Owns widths i j lane → mapping[i]? = some slot →
      widths[i]? = some w → j ≤ draftCols → values[lane]? = some
        (if (prefill slot : ℤ) ≤ lengths.getD i 0 - w + j then
          if j = 0 then last slot else drafts slot (j - 1)
        else ids.getD (logitRow lens widths i j) 0)) :
    CombineExact ids mapping lens widths lengths last prefill drafts draftCols numLogits
      (writeIds ids ((lanePlaces lens widths m).map fun k : ℕ => (k : ℤ)) values,
        (lanePlaces lens widths m).map fun k : ℕ => (k : ℤ)) := by
  have hnodup : (lanePlaces lens widths m).Nodup :=
    (hfit.pairwise_lanePlaces m).imp fun h => Nat.ne_of_lt h
  rw [writeIds_natCast]
  refine ⟨?_, fun i j slot w hslot hw hj hcols hplace => ?_, fun k hk hrows => ?_, fun heq => ?_⟩
  · simp only [lanePlaces]
    rw [List.map_append, List.take_left' (by rw [List.length_map, length_logitRows])]
  -- a lane of a request writes its own row
  · have howns : Owns widths i j ((boundaries widths).getD i 0 + j) := ⟨w, hw, hj, rfl⟩
    have hat : (lanePlaces lens widths m)[(boundaries widths).getD i 0 + j]? =
        some (logitRow lens widths i j) := by
      rw [lanePlaces, List.getElem?_append_left (by rw [length_logitRows]; exact howns.lt_sum),
        getElem?_logitRows howns]
    have hget := getElem?_scatterRows hnodup hat (hvalues i j _ slot w howns hslot hw hcols) hplace
    rw [List.getD_eq_getElem _ _ hplace] at hget
    simp only [hget, List.getElem?_eq_getElem hplace]
    split <;> rfl
  -- a row that no lane has keeps what it had
  · refine getElem?_scatterRows_of_not_mem ids values fun hmem => ?_
    rcases List.mem_append.mp hmem with hmem | hmem
    · exact hrows hmem
    · obtain ⟨d, -, rfl⟩ := List.mem_map.mp hmem
      omega
  · have hplaces : lanePlaces lens widths m = logitRows lens widths := by
      rw [lanePlaces, hm heq, Nat.sub_self, List.range_zero, List.map_nil, List.append_nil]
    simp only [hplaces]
    refine ⟨by rw [List.length_map, length_logitRows], fun k hk => ?_⟩
    exact getElem?_scatterRows_of_not_mem ids values hk

/-- With a table of drafts. -/
theorem WidthsFit.combine_drafts (hfit : WidthsFit lens widths) (hcols : draftCols ≠ 0)
    (hlogits : widths.sum ≤ numLogits)
    (hdrafts : ∀ i slot w : ℕ, mapping[i]? = some slot → widths[i]? = some w → 2 ≤ w →
      (prefill slot : ℤ) - 1 ≤ lengths.getD i 0 - w) :
    CombineExact ids mapping lens widths lengths last prefill drafts draftCols numLogits
      (combineSampledAndDraftTokens ids mapping last (boundaries lens) lengths prefill drafts
        draftCols (boundaries widths) numLogits) := by
  have hplaces := hfit.lanePlaces_eq hlogits
  simp only [combineSampledAndDraftTokens]
  rw [if_pos hcols, hplaces]
  refine hfit.combineExact id fun i j lane slot w howns hslot hw hj => ?_
  -- the slot, the width and the first row of the request, as the kernel reads them
  have hmap : mapping.getD i 0 = slot :=
    getD_of_getElem? _ hslot
  have hwidth : (diff (boundaries widths)).getD i 0 = w := by
    rw [diff_boundaries, List.getD_eq_getElem?_getD, hw]; rfl
  have hat : ((lanePlaces lens widths numLogits).map fun k : ℕ => (k : ℤ)).getD lane 0 =
      (logitRow lens widths i j : ℕ) := by
    rw [List.getD_eq_getElem?_getD, List.getElem?_map, lanePlaces, List.getElem?_append_left
      (by rw [length_logitRows]; exact howns.lt_sum), getElem?_logitRows howns]
    rfl
  -- the kernel writes past the prefill length, for the sampled token and for each draft
  have hfew := hdrafts i slot w hslot hw
  rw [List.getElem?_mapIdx, getElem?_tokenRows howns (howns.lt_sum.trans_le hlogits),
    Option.map_some, hmap, hwidth, hat, wrapIndex_natCast]
  obtain ⟨w', hw', hjw, rfl⟩ := howns
  obtain rfl : w = w' := Option.some.inj (hw.symm.trans hw')
  rw [Nat.add_sub_cancel_left]
  congr 1
  rcases Nat.eq_zero_or_pos j with rfl | hpos
  · -- the sampled token: its row is past the prefill length by itself
    refine if_congr ?_ (by simp) rfl
    simp
    omega
  · -- a draft: the drafts begin at the prefill length or later
    have hdraft : decide (1 ≤ j) = true := decide_eq_true hpos
    have hgap := hfew (by omega)
    have hcol : min (j - 1) (draftCols - 1) = j - 1 := by omega
    refine if_congr ?_ ?_ rfl
    · simp only [hdraft, true_or, and_true]
      omega
    · rw [if_pos hdraft, hcol, if_neg (Nat.pos_iff_ne_zero.mp hpos)]

/-- The rows of the logits, one for each request. -/
theorem logitRows_one (hone : ∀ w ∈ widths, w = 1) : logitRows lens widths =
    (List.range widths.length).map fun i => logitRow lens widths i 0 := by
  rw [logitRows, List.map_eq_flatMap]
  refine List.flatMap_congr fun i hi => ?_
  rw [List.mem_range] at hi
  have hwidth : widths.getD i 0 = 1 := by
    rw [List.getD_eq_getElem _ _ hi]
    exact hone _ (List.getElem_mem hi)
  rw [hwidth]
  rfl

/-- Without drafts, and one row of logits for each request. -/
theorem WidthsFit.combine_one (hfit : WidthsFit lens widths) (hone : ∀ w ∈ widths, w = 1) :
    CombineExact ids mapping lens widths lengths last prefill drafts 0 numLogits
      (combineSampledAndDraftTokens ids mapping last (boundaries lens) lengths prefill drafts
        0 (boundaries widths) numLogits) := by
  have hplaces : ((boundaries lens).tail.map fun stop : ℕ => (stop : ℤ) - 1) =
      (lanePlaces lens widths widths.sum).map fun k : ℕ => (k : ℤ) := by
    rw [lanePlaces, Nat.sub_self, List.range_zero, List.map_nil, List.append_nil,
      logitRows_one hone, tail_boundaries, List.map_map, List.map_map, hfit.length_eq]
    refine List.map_congr_left fun i hi => ?_
    rw [List.mem_range] at hi
    have hstop := hfit.le_stop i hi
    have hwidth : widths.getD i 0 = 1 := by
      rw [List.getD_eq_getElem _ _ (hfit.length_eq ▸ hi)]
      exact hone _ (List.getElem_mem _)
    simp only [Function.comp_apply, logitRow]
    omega
  simp only [combineSampledAndDraftTokens]
  rw [if_neg (fun h => h rfl), hplaces]
  refine hfit.combineExact (fun _ => rfl) fun i j lane slot w howns hslot hw hj => ?_
  obtain rfl : j = 0 := Nat.le_zero.mp hj
  obtain rfl : w = 1 := hone w (List.mem_of_getElem? hw)
  have hi := howns.lt_length
  -- every request has one row: its lane is its number
  have hlane : lane = i := by
    obtain ⟨w, hw', -, rfl⟩ := howns
    rw [List.eq_replicate_of_mem hone, getD_boundaries_replicate_one (Nat.le_of_lt hi),
      Nat.add_zero]
  subst hlane
  have hat : ((lanePlaces lens widths widths.sum).map fun k : ℕ => (k : ℤ)).getD lane 0 =
      (logitRow lens widths lane 0 : ℕ) := by
    rw [List.getD_eq_getElem?_getD, List.getElem?_map, lanePlaces, List.getElem?_append_left
      (by rw [length_logitRows]; exact howns.lt_sum), getElem?_logitRows howns]
    rfl
  have hiff : prefill slot < lengths.getD lane 0 ↔
      (prefill slot : ℤ) ≤ (lengths.getD lane 0 : ℤ) - (1 : ℕ) + (0 : ℕ) := by omega
  rw [List.getElem?_mapIdx, hslot, Option.map_some, hat, wrapIndex_natCast]
  simp only [hiff, if_true]

end CombineRun

end VllmMetal.PytorchBackend
