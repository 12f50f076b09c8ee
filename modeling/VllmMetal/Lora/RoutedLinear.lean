import VllmMetal.Lib.RowSegments
import VllmMetal.Lib.Raising
import VllmMetal.Lora.Routing
import VllmMetal.Lora.SlotContents
import Mathlib.Data.Finset.Sort
import Mathlib.Data.Matrix.Mul

/-!
# Adapter deltas of packed rows

`PunicaWrapperMLX.add_lora_linear` (`punica_wrapper.py`) adds the delta of each row's adapter to
the output of a linear layer, run by run or slot by slot as `update_metadata` chose.  Both ways
are the sum that each row would have on its own.

## Main definitions

* `LoraStack` — the stacked weights and the ranks of the slots.
* `RoutingMetadata.addLoraLinear` — the layer's output with the deltas added.
* `LoraStack.update` — what one slot adds to a row, `scale * B_s A_s x`.

## Main results

* `updateMetadata_runs`, `updateMetadata_indices` — the runs split the rows, the lists of indices
  are the rows of each slot.
* `addLoraLinear_of_runs`, `addLoraLinear_of_indices` — either way adds to each row the delta of
  its slot.
* `add_lora_linear_rows` — the layer's output row by row, for any mapping and slot table.
-/

namespace VllmMetal.Lora

open Matrix

/-! ### The layer's output -/

/-- What `add_lora_linear` can raise. -/
inductive LinearError
  /-- `LoRA routing row count mismatch: metadata=.., x=.., y=..`. -/
  | rowCountMismatch (metadata x y : ℕ)
  /-- The slot is outside the stacked weights or the ranks. -/
  | slotOutOfRange (slot : ℕ)
  deriving DecidableEq

/-- `lora_a_stacked`, `lora_b_stacked` and `lora_ranks`, slot by slot. -/
structure LoraStack (K : Type) (maxRank inDim outDim : ℕ) where
  loraAStacked : List (Matrix (Fin maxRank) (Fin inDim) K)
  loraBStacked : List (Matrix (Fin outDim) (Fin maxRank) K)
  loraRanks : Option (List ℕ)

section

variable {K : Type} {m n : ℕ}

/-- `a[:rank]`. -/
def firstRows (a : Matrix (Fin m) (Fin n) K) (rank : ℕ) : Matrix (Fin (min rank m)) (Fin n) K :=
  fun r c => a (r.castLE (Nat.min_le_right rank m)) c

/-- `b[:, :rank]`. -/
def firstCols (b : Matrix (Fin m) (Fin n) K) (rank : ℕ) : Matrix (Fin m) (Fin (min rank n)) K :=
  fun r c => b r (c.castLE (Nat.min_le_right rank n))

/-- `mx.matmul(rows, w)`. -/
def matmul [CommRing K] (rows : List (Fin m → K)) (w : Matrix (Fin m) (Fin n) K) :
    List (Fin n → K) :=
  rows.map fun row => row ᵥ* w

end

section

variable {K : Type} [CommRing K] [DecidableEq K] {maxRank inDim outDim : ℕ}

namespace LoraStack

/-- `ranks`: the ranks passed in, or the maximal rank for each of the wrapper's slots. -/
def ranks (stack : LoraStack K maxRank inDim outDim) (maxLoras : ℕ) : List ℕ :=
  match stack.loraRanks with
  | some loraRanks => loraRanks
  | none => List.replicate maxLoras maxRank

/-- `delta`: the rows through the first `rank` rows of the slot's `A` and columns of its `B`. -/
def delta (stack : LoraStack K maxRank inDim outDim) (scale : K) (slot rank : ℕ)
    (rows : List (Fin inDim → K)) : Except LinearError (List (Fin outDim → K)) :=
  match stack.loraAStacked[slot]?, stack.loraBStacked[slot]? with
  | some a, some b =>
    let delta := matmul (matmul rows (firstRows a rank)ᵀ) (firstCols b rank)ᵀ
    .ok (if scale ≠ 1 then delta.map fun row => scale • row else delta)
  | _, _ => .error (.slotOutOfRange slot)

end LoraStack

/-- One run of the contiguous path: its part of the output goes to `outputs`. -/
def addRun (stack : LoraStack K maxRank inDim outDim) (maxLoras : ℕ) (scale : K)
    (y : List (Fin outDim → K)) (x : List (Fin inDim → K))
    (acc : List (List (Fin outDim → K)) × Bool) (run : Option ℕ × ℕ × ℕ) :
    Except LinearError (List (List (Fin outDim → K)) × Bool) :=
  let yRun := (y.drop run.2.1).take (run.2.2 - run.2.1)
  match run.1 with
  | none => .ok (acc.1 ++ [yRun], acc.2)
  | some slot =>
    match (stack.ranks maxLoras)[slot]? with
    | none => .error (.slotOutOfRange slot)
    | some 0 => .ok (acc.1 ++ [yRun], acc.2)
    | some rank => do
      let xRun := (x.drop run.2.1).take (run.2.2 - run.2.1)
      let delta ← stack.delta scale slot rank xRun
      .ok (acc.1 ++ [List.zipWith (· + ·) yRun delta], true)

/-- One slot of the indexed path: its delta is added at the slot's rows. -/
def addIndexed (stack : LoraStack K maxRank inDim outDim) (maxLoras : ℕ) (scale : K)
    (x : List (Fin inDim → K)) (output : List (Fin outDim → K)) (entry : ℕ × List ℕ) :
    Except LinearError (List (Fin outDim → K)) :=
  match (stack.ranks maxLoras)[entry.1]? with
  | none => .error (.slotOutOfRange entry.1)
  | some 0 => .ok output
  | some rank => do
    let delta ← stack.delta scale entry.1 rank (entry.2.map fun t => x.getD t 0)
    .ok (scatterAdd output entry.2 delta)

/-- `add_lora_linear`. -/
def RoutingMetadata.addLoraLinear (md : RoutingMetadata) (maxLoras : ℕ)
    (y : List (Fin outDim → K)) (x : List (Fin inDim → K))
    (stack : LoraStack K maxRank inDim outDim) (scale : K) :
    Except LinearError (List (Fin outDim → K)) :=
  if md.noLora then .ok y
  else if x.length ≠ md.numTokens ∨ y.length ≠ md.numTokens then
    .error (.rowCountMismatch md.numTokens x.length y.length)
  else if md.contiguousRuns ≠ [] then do
    let (outputs, hasLoraDelta) ← md.contiguousRuns.foldlM
      (addRun stack maxLoras scale y x) ([], false)
    if !hasLoraDelta then .ok y
    else match outputs with
      | [output] => .ok output
      | outputs => .ok outputs.flatten
  else md.tokenIndicesBySlot.foldlM (addIndexed stack maxLoras scale x) y

/-- The wrapper's `update_metadata`, from whatever the step before left. -/
def RoutingMetadata.update (md : RoutingMetadata) (mapping : LoRAMapping)
    (loraIndexToId : List (Option ℤ)) : RoutingMetadata :=
  { md with
    contiguousRuns := (updateMetadata mapping loraIndexToId).contiguousRuns
    tokenIndicesBySlot := (updateMetadata mapping loraIndexToId).tokenIndicesBySlot
    numTokens := (updateMetadata mapping loraIndexToId).numTokens
    noLora := (updateMetadata mapping loraIndexToId).noLora }

end

/-! ### The slot of a row -/

theorem slotOf_concat (table : List (Option ℤ)) (entry : Option ℤ) :
    slotOf (table ++ [entry]) = match entry with
      | none => slotOf table
      | some aid => (slotOf table).set aid table.length := by
  simp only [slotOf, List.zipIdx_append, List.foldl_append, Nat.zero_add]
  cases entry <;> rfl

/-- Looking an adapter up in `slot_of` finds its slot in the table. -/
theorem get?_slotOf {table : List (Option ℤ)} (h : Distinct table) (aid : ℤ) (s : ℕ) :
    (slotOf table).get? aid = some s ↔ table[s]? = some (some aid) := by
  -- induction from the end of the table, where the loop writes last
  induction table using List.reverseRecOn generalizing s with
  | nil => simp [slotOf]
  | append_singleton table entry ih =>
    have hinit : Distinct table := by
      intro i j loraId hi hj
      have hlift : ∀ k : ℕ, table[k]? = some (some loraId) →
          (table ++ [entry])[k]? = some (some loraId) := by
        intro k hk
        rw [List.getElem?_append_left (List.getElem?_eq_some_iff.mp hk).1, hk]
      exact h i j loraId (hlift i hi) (hlift j hj)
    have hlast : (table ++ [entry])[table.length]? = some entry := List.getElem?_concat_length
    have hbefore : ∀ k : ℕ, k ≠ table.length → (table ++ [entry])[k]? = table[k]? := by
      intro k hk
      rcases Nat.lt_or_gt_of_ne hk with hlt | hgt
      · exact List.getElem?_append_left hlt
      · rw [List.getElem?_eq_none (by rw [List.length_append, List.length_singleton]; omega),
          List.getElem?_eq_none (Nat.le_of_lt hgt)]
    rw [slotOf_concat]
    cases entry with
    | none =>
      rw [ih hinit]
      by_cases hs : s = table.length
      · subst hs
        rw [hlast]
        simp
      · rw [hbefore s hs]
    | some aid' =>
      -- a later slot of the same adapter would overwrite the first one, but names are distinct
      rw [Dict.get?_set]
      split
      · next heq =>
        subst heq
        constructor
        · intro hs
          rw [← Option.some.inj hs]
          exact hlast
        · intro hs
          rw [h s table.length aid hs hlast]
      · next hne =>
        rw [ih hinit]
        by_cases hs : s = table.length
        · subst hs
          rw [hlast, List.getElem?_eq_none (Nat.le_refl _)]
          simp [Ne.symm hne]
        · rw [hbefore s hs]

/-- The slot of each packed row. -/
def rowSlots (mapping : LoRAMapping) (table : List (Option ℤ)) : List (Option ℕ) :=
  mapping.indexMapping.map fun adapterId => (slotOf table).get? adapterId

/-! ### The runs -/

theorem scanRuns_concat (slots : List (Option ℕ)) (slot : Option ℕ) :
    scanRuns (slots ++ [slot]) = (scanRuns slots).step slot slots.length := by
  simp only [scanRuns, List.zipIdx_append, List.foldl_append, Nat.zero_add]
  rfl

/-- The slots of the rows seen so far are the active ones. -/
theorem mem_activeSlots (slots : List (Option ℕ)) (s : ℕ) :
    s ∈ (scanRuns slots).activeSlots ↔ some s ∈ slots := by
  induction slots using List.reverseRecOn with
  | nil => simp [scanRuns]
  | append_singleton slots slot ih =>
    have hstep : ((scanRuns slots).step slot slots.length).activeSlots = match slot with
        | none => (scanRuns slots).activeSlots
        | some s => insert s (scanRuns slots).activeSlots := by
      unfold RunScan.step
      cases slot <;> dsimp only <;> split_ifs <;> rfl
    rw [scanRuns_concat, hstep]
    cases slot with
    | none => simp [ih]
    | some s' => simp [ih, or_comm]

/-- The runs closed so far, and the open one, split the rows seen so far. -/
theorem segments_scanRuns {slots : List (Option ℕ)} (hne : slots ≠ []) :
    Segments ((scanRuns slots).runs ++
      [((scanRuns slots).runSlot, (scanRuns slots).runStart, slots.length)]) slots := by
  induction slots using List.reverseRecOn with
  | nil => exact absurd rfl hne
  | append_singleton slots slot ih =>
    -- the step writes the active slots on the side
    have hscan : ∀ scan : RunScan, (scan.step slot slots.length).runs ++
        [((scan.step slot slots.length).runSlot, (scan.step slot slots.length).runStart,
          slots.length + 1)] =
        if slots.length = 0 then scan.runs ++ [(slot, scan.runStart, slots.length + 1)]
        else if slot ≠ scan.runSlot then
          scan.runs ++ [(scan.runSlot, scan.runStart, slots.length)]
            ++ [(slot, slots.length, slots.length + 1)]
        else scan.runs ++ [(scan.runSlot, scan.runStart, slots.length + 1)] := by
      intro scan
      unfold RunScan.step
      cases slot <;> dsimp only <;> split_ifs <;> rfl
    rw [scanRuns_concat, List.length_append, List.length_singleton, hscan]
    cases hlength : slots.length with
    | zero =>
      obtain rfl := List.length_eq_zero_iff.mp hlength
      exact Segments.nil.concat slot
    | succ k =>
      have hsegs := ih (by rintro rfl; simp at hlength)
      rw [if_neg (Nat.succ_ne_zero k), ← hlength]
      split_ifs with hslot
      · exact hsegs.concat slot
      · rw [not_not] at hslot
        rw [← hslot] at hsegs ⊢
        exact hsegs.extend

/-! ### The indices -/

/-- The rows of a slot, in order. -/
def rowsOf (slots : List (Option ℕ)) (s : ℕ) : List ℕ :=
  (List.range slots.length).filter fun t => slots[t]? = some (some s)

theorem mem_rowsOf {slots : List (Option ℕ)} {s t : ℕ} :
    t ∈ rowsOf slots s ↔ slots[t]? = some (some s) := by
  rw [rowsOf, List.mem_filter, List.mem_range, decide_eq_true_iff]
  exact ⟨fun h => h.2, fun h => ⟨(List.getElem?_eq_some_iff.mp h).1, h⟩⟩

theorem nodup_rowsOf (slots : List (Option ℕ)) (s : ℕ) : (rowsOf slots s).Nodup :=
  List.nodup_range.filter _

theorem rowsOf_concat (slots : List (Option ℕ)) (slot : Option ℕ) (s : ℕ) :
    rowsOf (slots ++ [slot]) s = rowsOf slots s ++
      if slot = some s then [slots.length] else [] := by
  unfold rowsOf
  rw [List.length_append, List.length_singleton, List.range_succ, List.filter_append]
  congr 1
  · apply List.filter_congr
    intro t ht
    rw [List.getElem?_append_left (List.mem_range.mp ht)]
  · rw [List.filter_singleton, List.getElem?_concat_length]
    by_cases hslot : slot = some s <;> simp [hslot]

theorem tokenIndicesBySlot_concat (slots : List (Option ℕ)) (slot : Option ℕ) :
    tokenIndicesBySlot (slots ++ [slot]) = match slot with
      | none => tokenIndicesBySlot slots
      | some s => (tokenIndicesBySlot slots).set s
          ((tokenIndicesBySlot slots).getD s [] ++ [slots.length]) := by
  simp only [tokenIndicesBySlot, List.zipIdx_append, List.foldl_append, Nat.zero_add]
  cases slot <;> rfl

/-- Each slot that some row has is listed with all its rows. -/
theorem get?_tokenIndicesBySlot (slots : List (Option ℕ)) (s : ℕ) :
    (tokenIndicesBySlot slots).get? s =
      if rowsOf slots s = [] then none else some (rowsOf slots s) := by
  induction slots using List.reverseRecOn with
  | nil => simp [tokenIndicesBySlot, rowsOf]
  | append_singleton slots slot ih =>
    have hget : (tokenIndicesBySlot slots).getD s [] = rowsOf slots s := by
      rw [Dict.getD, ih]
      split_ifs with hrows
      · exact hrows.symm
      · rfl
    rw [tokenIndicesBySlot_concat, rowsOf_concat]
    cases slot with
    | none => simpa using ih
    | some s' =>
      dsimp only
      rw [Dict.get?_set]
      by_cases hs : s = s'
      · subst hs
        rw [if_pos rfl, hget]
        simp
      · have hother : (if some s' = some s then [slots.length] else []) = [] :=
          if_neg fun h => hs (Option.some.inj h).symm
        rw [if_neg hs, hother, List.append_nil, ih]

/-- The lists are the rows of the slots that some row has, each slot once, in order. -/
structure Indexed (entries : List (ℕ × List ℕ)) (slots : List (Option ℕ)) : Prop where
  ascending : (entries.map Prod.fst).Pairwise (· < ·)
  mem_iff : ∀ s rows, (s, rows) ∈ entries ↔ rows = rowsOf slots s ∧ rows ≠ []

/-- The lists split the rows that have a slot. -/
theorem Indexed.perm {entries : List (ℕ × List ℕ)} {slots : List (Option ℕ)}
    (h : Indexed entries slots) :
    (entries.flatMap Prod.snd).Perm
      ((List.range slots.length).filter fun t => slots[t]?.join.isSome) := by
  have hrows : ∀ e ∈ entries, e.2 = rowsOf slots e.1 := fun e he => ((h.mem_iff e.1 e.2).mp he).1
  apply (List.perm_ext_iff_of_nodup ?_ (List.nodup_range.filter _)).mpr
  · intro t
    rw [List.mem_flatMap, List.mem_filter, List.mem_range, Option.isSome_iff_exists]
    constructor
    · rintro ⟨e, he, ht⟩
      rw [hrows e he, mem_rowsOf] at ht
      exact ⟨(List.getElem?_eq_some_iff.mp ht).1, e.1, Option.join_eq_some_iff.mpr ht⟩
    · rintro ⟨-, s, hs⟩
      have ht := mem_rowsOf.mpr (Option.join_eq_some_iff.mp hs)
      exact ⟨(s, rowsOf slots s), (h.mem_iff s _).mpr ⟨rfl, List.ne_nil_of_mem ht⟩, ht⟩
  · rw [List.nodup_flatMap]
    refine ⟨fun e he => ?_, ?_⟩
    · rw [hrows e he]
      exact nodup_rowsOf slots e.1
    · refine (List.pairwise_map.mp h.ascending).imp_of_mem fun {e e'} he he' hlt t ht ht' => ?_
      -- a row has one slot
      rw [hrows e he, mem_rowsOf] at ht
      rw [hrows e' he', mem_rowsOf, ht] at ht'
      exact absurd (Option.some.inj (Option.some.inj ht')) (Nat.ne_of_lt hlt)

theorem indexed_mergeSort (slots : List (Option ℕ)) :
    Indexed (((tokenIndicesBySlot slots).entries.map fun e => (e.1, e.2)).mergeSort
      fun a b => a.1 ≤ b.1) slots where
  ascending := by
    have hkeys : (tokenIndicesBySlot slots).keys.Nodup := (tokenIndicesBySlot slots).keys_nodup
    have hsorted := @List.pairwise_mergeSort (ℕ × List ℕ) (fun a b => decide (a.1 ≤ b.1))
      (by simpa using fun a b c => Nat.le_trans) (by simpa using fun a b => Nat.le_total a b)
      ((tokenIndicesBySlot slots).entries.map fun e => (e.1, e.2))
    have hperm := (List.mergeSort_perm ((tokenIndicesBySlot slots).entries.map
      fun e => (e.1, e.2)) fun a b => decide (a.1 ≤ b.1)).map Prod.fst
    rw [List.map_map] at hperm
    have hnodup := hperm.nodup_iff.mpr hkeys
    rw [List.pairwise_map]
    refine (hsorted.and (List.pairwise_map.mp hnodup)).imp fun h => ?_
    exact Nat.lt_of_le_of_ne (of_decide_eq_true h.1) h.2
  mem_iff s rows := by
    rw [(List.mergeSort_perm _ _).mem_iff]
    -- the entries of the dictionary are its lookups
    have hlookup : (s, rows) ∈ (tokenIndicesBySlot slots).entries.map (fun e => (e.1, e.2)) ↔
        (tokenIndicesBySlot slots).get? s = some rows := by
      rw [Dict.get?, ← Option.mem_def, AList.mem_lookup_iff]
      constructor
      · rintro hmem
        obtain ⟨e, he, heq⟩ := List.mem_map.mp hmem
        cases heq
        exact he
      · exact fun he => List.mem_map.mpr ⟨_, he, rfl⟩
    rw [hlookup, get?_tokenIndicesBySlot]
    split_ifs with hrows
    · simp [hrows]
    · constructor
      · intro h
        rw [← Option.some.inj h]
        exact ⟨rfl, hrows⟩
      · rintro ⟨rfl, -⟩
        rfl

/-! ### The routing of a mapping -/

section

variable (mapping : LoRAMapping) (table : List (Option ℤ))

theorem updateMetadata_numTokens :
    (updateMetadata mapping table).numTokens = (rowSlots mapping table).length :=
  (List.length_map _).symm

theorem updateMetadata_noLora :
    (updateMetadata mapping table).noLora = true ↔ ∀ s, some s ∉ rowSlots mapping table := by
  have hactive := mem_activeSlots (rowSlots mapping table)
  change decide ((scanRuns (rowSlots mapping table)).activeSlots = ∅) = true ↔ _
  rw [decide_eq_true_iff, Finset.eq_empty_iff_forall_notMem]
  exact forall_congr' fun s => not_congr (hactive s)

/-- **The runs of the contiguous path split the packed rows in order.** -/
theorem updateMetadata_runs (h : (updateMetadata mapping table).contiguousRuns ≠ []) :
    Segments (updateMetadata mapping table).contiguousRuns (rowSlots mapping table) := by
  have hne : mapping.indexMapping ≠ [] := by
    intro hempty
    refine h ?_
    unfold updateMetadata
    dsimp only
    rw [hempty]
    rfl
  have hslots : rowSlots mapping table ≠ [] := fun h => hne (List.map_eq_nil_iff.mp h)
  have hsegs := segments_scanRuns hslots
  unfold updateMetadata at h ⊢
  dsimp only at h ⊢
  rw [if_neg hne] at h ⊢
  split_ifs at h ⊢ with huse
  · rw [rowSlots, List.length_map] at hsegs
    exact hsegs
  · exact absurd rfl h

/-- **The lists of the indexed path are the rows of each slot.** -/
theorem updateMetadata_indices (h : (updateMetadata mapping table).contiguousRuns = []) :
    Indexed (updateMetadata mapping table).tokenIndicesBySlot (rowSlots mapping table) := by
  unfold updateMetadata at h ⊢
  dsimp only at h ⊢
  by_cases hempty : mapping.indexMapping = []
  · -- without rows no slot is active
    have hactive : (scanRuns (mapping.indexMapping.map
        fun adapterId => (slotOf table).get? adapterId)).activeSlots = ∅ := by
      rw [hempty]
      rfl
    rw [if_neg fun huse => huse.1 hactive]
    exact indexed_mergeSort (rowSlots mapping table)
  · rw [if_neg hempty] at h
    split_ifs at h with huse
    · simp at h
    · rw [if_neg hempty, if_neg huse]
      exact indexed_mergeSort (rowSlots mapping table)

end

/-! ### What the slots add -/

section

variable {K : Type} [CommRing K] [DecidableEq K] {maxRank inDim outDim : ℕ}

namespace LoraStack

/-- `B_s A_s`, cut to the rank of the slot. -/
def product (stack : LoraStack K maxRank inDim outDim) (maxLoras s : ℕ) :
    Matrix (Fin outDim) (Fin inDim) K :=
  let rank := (stack.ranks maxLoras).getD s 0
  firstCols (stack.loraBStacked.getD s 0) rank * firstRows (stack.loraAStacked.getD s 0) rank

/-- A row of the output, with the delta of its slot. -/
def routedRow (stack : LoraStack K maxRank inDim outDim) (maxLoras : ℕ) (scale : K)
    (slot : Option ℕ) (yRow : Fin outDim → K) (xRow : Fin inDim → K) : Fin outDim → K :=
  match slot with
  | none => yRow
  | some s => yRow + scale • (stack.product maxLoras s *ᵥ xRow)

/-- The stacks and the ranks have the slot. -/
structure Has (stack : LoraStack K maxRank inDim outDim) (maxLoras s : ℕ) : Prop where
  loraA : s < stack.loraAStacked.length
  loraB : s < stack.loraBStacked.length
  rank : s < (stack.ranks maxLoras).length

variable (stack : LoraStack K maxRank inDim outDim) {maxLoras s : ℕ} (scale : K)

/-- The two products of `delta` are one. -/
theorem delta_eq (h : stack.Has maxLoras s) (rows : List (Fin inDim → K)) :
    stack.delta scale s ((stack.ranks maxLoras).getD s 0) rows
      = .ok (rows.map fun row => scale • (stack.product maxLoras s *ᵥ row)) := by
  have hproduct : ∀ row : Fin inDim → K,
      (row ᵥ* (firstRows (stack.loraAStacked.getD s 0) ((stack.ranks maxLoras).getD s 0))ᵀ)
        ᵥ* (firstCols (stack.loraBStacked.getD s 0) ((stack.ranks maxLoras).getD s 0))ᵀ
      = stack.product maxLoras s *ᵥ row := by
    intro row
    rw [vecMul_transpose, vecMul_transpose, mulVec_mulVec]
    rfl
  have ha : stack.loraAStacked[s]? = some (stack.loraAStacked.getD s 0) := by
    simp [List.getD, h.loraA]
  have hb : stack.loraBStacked[s]? = some (stack.loraBStacked.getD s 0) := by
    simp [List.getD, h.loraB]
  unfold delta
  rw [ha, hb]
  dsimp only
  congr 1
  split_ifs with hscale
  · rw [matmul, matmul, List.map_map, List.map_map]
    exact List.map_congr_left fun row _ => congrArg (scale • ·) (hproduct row)
  · rw [not_not] at hscale
    rw [matmul, matmul, List.map_map, hscale]
    exact List.map_congr_left fun row _ => (hproduct row).trans (one_smul K _).symm

omit [DecidableEq K] in
/-- A slot of rank `0` adds nothing. -/
theorem product_of_rank_zero (h : (stack.ranks maxLoras).getD s 0 = 0) :
    stack.product maxLoras s = 0 := by
  have hempty : IsEmpty (Fin (min 0 maxRank)) := by
    rw [Nat.zero_min]
    infer_instance
  unfold product
  rw [h]
  ext r c
  rw [Matrix.mul_apply, Matrix.zero_apply]
  exact Finset.sum_of_isEmpty _

omit [CommRing K] [DecidableEq K] in
theorem getElem?_ranks (h : stack.Has maxLoras s) :
    (stack.ranks maxLoras)[s]? = some ((stack.ranks maxLoras).getD s 0) := by
  simp [List.getD, h.rank]

end LoraStack

/-! ### The two paths -/

variable (stack : LoraStack K maxRank inDim outDim) (maxLoras : ℕ) (scale : K)
  {slots : List (Option ℕ)} {y : List (Fin outDim → K)} {x : List (Fin inDim → K)}

/-- Row `t` of the output. -/
def routedAt (slots : List (Option ℕ)) (y : List (Fin outDim → K)) (x : List (Fin inDim → K))
    (t : ℕ) : Fin outDim → K :=
  stack.routedRow maxLoras scale (slots.getD t none) (y.getD t 0) (x.getD t 0)

/-- The output that each row has on its own. -/
def routedRows (slots : List (Option ℕ)) (y : List (Fin outDim → K))
    (x : List (Fin inDim → K)) : List (Fin outDim → K) :=
  (List.range slots.length).map (routedAt stack maxLoras scale slots y x)

omit [DecidableEq K] in
theorem eq_map_getD {n : ℕ} {l : List (Fin n → K)} {k : ℕ} (h : l.length = k) :
    l = (List.range k).map fun t => l.getD t 0 := by
  subst h
  apply List.ext_getElem
  · simp
  · intro t ht _
    simp [List.getD, ht]

/-- One run: its rows, each with the delta of the run's slot.  Nothing is added as long as the
flag is down. -/
theorem addRun_spec {run : Option ℕ × ℕ × ℕ} (hy : y.length = slots.length)
    (hx : x.length = slots.length) (hstop : run.2.2 ≤ slots.length)
    (hlabel : ∀ t ∈ rowsOfSegment run, slots[t]? = some run.1)
    (hhas : ∀ s, run.1 = some s → stack.Has maxLoras s)
    (acc : List (List (Fin outDim → K)) × Bool) :
    ∃ flag, addRun stack maxLoras scale y x acc run
        = .ok (acc.1 ++ [(rowsOfSegment run).map (routedAt stack maxLoras scale slots y x)], flag) ∧
      (flag = false → acc.2 = false ∧
        ∀ t ∈ rowsOfSegment run, routedAt stack maxLoras scale slots y x t = y.getD t 0) := by
  have hyRun := slice_eq_map run.2.1 (hstop.trans_eq hy.symm)
  have hslot : ∀ t ∈ rowsOfSegment run, slots.getD t none = run.1 := by
    intro t ht
    rw [List.getD, hlabel t ht]
    rfl
  -- what a run without a delta gives
  have hplain : (∀ t ∈ rowsOfSegment run,
      routedAt stack maxLoras scale slots y x t = y.getD t 0) →
      (y.drop run.2.1).take (run.2.2 - run.2.1)
        = (rowsOfSegment run).map (routedAt stack maxLoras scale slots y x) := by
    intro h
    rw [hyRun]
    exact List.map_congr_left fun t ht => (h t ht).symm
  unfold addRun
  cases hrun : run.1 with
  | none =>
    have hkeep : ∀ t ∈ rowsOfSegment run,
        routedAt stack maxLoras scale slots y x t = y.getD t 0 := by
      intro t ht
      rw [routedAt, hslot t ht, hrun]
      rfl
    dsimp only
    rw [hplain hkeep]
    exact ⟨acc.2, rfl, fun h => ⟨h, hkeep⟩⟩
  | some s =>
    have hs := hhas s hrun
    have hrow : ∀ t ∈ rowsOfSegment run, routedAt stack maxLoras scale slots y x t
        = y.getD t 0 + scale • (stack.product maxLoras s *ᵥ x.getD t 0) := by
      intro t ht
      rw [routedAt, hslot t ht, hrun]
      rfl
    dsimp only
    rw [stack.getElem?_ranks hs]
    cases hrank : (stack.ranks maxLoras).getD s 0 with
    | zero =>
      have hkeep : ∀ t ∈ rowsOfSegment run,
          routedAt stack maxLoras scale slots y x t = y.getD t 0 := by
        intro t ht
        rw [hrow t ht, stack.product_of_rank_zero hrank, zero_mulVec, smul_zero, add_zero]
      rw [hplain hkeep]
      exact ⟨acc.2, rfl, fun h => ⟨h, hkeep⟩⟩
    | succ r =>
      refine ⟨true, ?_, fun h => nomatch h⟩
      have hdelta := stack.delta_eq scale hs
        ((x.drop run.2.1).take (run.2.2 - run.2.1))
      rw [hrank] at hdelta
      change (stack.delta scale s (r + 1) _ >>= fun delta =>
        Except.ok (acc.1 ++ [List.zipWith (· + ·) _ delta], true)) = _
      rw [hdelta]
      have hxRun := slice_eq_map run.2.1 (hstop.trans_eq hx.symm)
      have hjoin : List.zipWith (· + ·) ((y.drop run.2.1).take (run.2.2 - run.2.1))
          (((x.drop run.2.1).take (run.2.2 - run.2.1)).map
            fun row => scale • (stack.product maxLoras s *ᵥ row))
          = (rowsOfSegment run).map (routedAt stack maxLoras scale slots y x) := by
        rw [hyRun, hxRun, List.map_map, List.zipWith_map, List.zipWith_self]
        exact List.map_congr_left fun t ht => (hrow t ht).symm
      rw [← hjoin]
      rfl

/-- **The contiguous path** gives each row the delta of its slot. -/
theorem addRuns_eq {runs : List (Option ℕ × ℕ × ℕ)} (hruns : Segments runs slots)
    (hy : y.length = slots.length) (hx : x.length = slots.length)
    (hhas : ∀ s, some s ∈ slots → stack.Has maxLoras s) :
    ∃ outputs flag, runs.foldlM (addRun stack maxLoras scale y x) ([], false)
        = .ok (outputs, flag) ∧
      outputs.flatten = routedRows stack maxLoras scale slots y x ∧
      (flag = false → y = routedRows stack maxLoras scale slots y x) := by
  have hloop := foldlM_returns
    (f := addRun stack maxLoras scale y x)
    (P := fun done acc => acc.1 = done.map (fun seg =>
        (rowsOfSegment seg).map (routedAt stack maxLoras scale slots y x)) ∧
      (acc.2 = false → ∀ seg ∈ done, ∀ t ∈ rowsOfSegment seg,
        routedAt stack maxLoras scale slots y x t = y.getD t 0))
    (l := runs)
    ?step (s := ([], false)) ?init
  case step =>
    rintro done acc run ⟨houtputs, hkept⟩ hdone
    have hrun : run ∈ runs := hdone.subset (List.mem_append_right _ (List.mem_singleton_self _))
    have hrunHas : ∀ s, run.1 = some s → stack.Has maxLoras s := by
      intro s hs
      have hfirst := hruns.label run hrun run.2.1
        (mem_rowsOfSegment.mpr ⟨Nat.le_refl _, hruns.nonempty run hrun⟩)
      rw [hs] at hfirst
      exact hhas s (List.mem_of_getElem? hfirst)
    obtain ⟨flag, hadd, hflag⟩ := addRun_spec stack maxLoras scale hy hx (hruns.stop_le hrun)
      (hruns.label run hrun) hrunHas acc
    refine ⟨_, hadd, ?_, ?_⟩
    · rw [houtputs, List.map_append]
      rfl
    · intro hdown seg hseg
      obtain ⟨hacc, hlast⟩ := hflag hdown
      rcases List.mem_append.mp hseg with hseg | hseg
      · exact hkept hacc seg hseg
      · rw [List.mem_singleton.mp hseg]
        exact hlast
  case init => exact ⟨rfl, by simp⟩
  obtain ⟨⟨outputs, flag⟩, hok, houtputs, hkept⟩ := hloop
  refine ⟨outputs, flag, hok, ?_, ?_⟩
  · rw [show outputs = _ from houtputs]
    exact flatten_segments _ hruns.rows
  · intro hdown
    refine (eq_map_getD hy).trans (List.map_congr_left fun t ht => ?_)
    -- every row is in some run
    rw [← hruns.rows, List.mem_flatMap] at ht
    obtain ⟨seg, hseg, hmem⟩ := ht
    exact (hkept hdown seg hseg t hmem).symm

/-- One slot of the indexed path: its rows get their deltas. -/
theorem addIndexed_spec {s : ℕ} (hhas : stack.Has maxLoras s) (done : List ℕ) (hs : s ∉ done) :
    addIndexed stack maxLoras scale x
        ((List.range slots.length).map fun t =>
          if ∃ s' ∈ done, slots.getD t none = some s' then
            routedAt stack maxLoras scale slots y x t
          else y.getD t 0) (s, rowsOf slots s)
      = .ok ((List.range slots.length).map fun t =>
          if ∃ s' ∈ done ++ [s], slots.getD t none = some s' then
            routedAt stack maxLoras scale slots y x t
          else y.getD t 0) := by
  have hrow : ∀ t, slots.getD t none = some s → routedAt stack maxLoras scale slots y x t
      = y.getD t 0 + scale • (stack.product maxLoras s *ᵥ x.getD t 0) := by
    intro t ht
    rw [routedAt, ht]
    rfl
  have hmem : ∀ t, t ∈ rowsOf slots s ↔ slots.getD t none = some s := by
    intro t
    rw [mem_rowsOf, List.getD]
    cases slots[t]? <;> simp
  -- a row of this slot is a row of no slot before
  have hsplit : ∀ t, (∃ s' ∈ done ++ [s], slots.getD t none = some s') ↔
      (∃ s' ∈ done, slots.getD t none = some s') ∨ slots.getD t none = some s := by
    intro t
    simp only [List.mem_append, List.mem_singleton, or_and_right, exists_or, exists_eq_left]
  have hfresh : ∀ t, slots.getD t none = some s →
      ¬∃ s' ∈ done, slots.getD t none = some s' := by
    rintro t ht ⟨s', hs', hslot⟩
    rw [ht] at hslot
    exact hs (Option.some.inj hslot ▸ hs')
  unfold addIndexed
  dsimp only
  rw [stack.getElem?_ranks hhas]
  cases hrank : (stack.ranks maxLoras).getD s 0 with
  | zero =>
    refine congrArg Except.ok (List.map_congr_left fun t _ => ?_)
    by_cases ht : slots.getD t none = some s
    · rw [if_neg (hfresh t ht), if_pos ((hsplit t).mpr (Or.inr ht)), hrow t ht,
        stack.product_of_rank_zero hrank, zero_mulVec, smul_zero, add_zero]
    · simp only [hsplit, ht, or_false]
  | succ r =>
    have hdelta := stack.delta_eq scale hhas ((rowsOf slots s).map fun t => x.getD t 0)
    rw [hrank, List.map_map] at hdelta
    change (stack.delta scale s (r + 1) _ >>= fun delta =>
      Except.ok (scatterAdd _ (rowsOf slots s) delta)) = _
    rw [hdelta]
    change Except.ok (scatterAdd _ _ _) = _
    rw [scatterAdd_map_range (nodup_rowsOf slots s)]
    refine congrArg Except.ok (List.map_congr_left fun t _ => ?_)
    by_cases ht : slots.getD t none = some s
    · rw [if_pos ((hmem t).mpr ht), if_neg (hfresh t ht), if_pos ((hsplit t).mpr (Or.inr ht)),
        hrow t ht]
      rfl
    · rw [if_neg (fun h => ht ((hmem t).mp h))]
      simp only [hsplit, ht, or_false]

/-- **The indexed path** gives each row the delta of its slot. -/
theorem addIndexed_eq {entries : List (ℕ × List ℕ)} (hentries : Indexed entries slots)
    (hy : y.length = slots.length) (hhas : ∀ s, some s ∈ slots → stack.Has maxLoras s) :
    entries.foldlM (addIndexed stack maxLoras scale x) y
      = .ok (routedRows stack maxLoras scale slots y x) := by
  -- the slots that are done have their rows, and the loop never meets one of them again
  have hloop := foldlM_returns
    (f := addIndexed stack maxLoras scale x)
    (P := fun done out => out = (List.range slots.length).map fun t =>
      if ∃ s' ∈ done.map Prod.fst, slots.getD t none = some s' then
        routedAt stack maxLoras scale slots y x t
      else y.getD t 0)
    (l := entries)
    ?step (s := y) ?init
  case step =>
    -- the next slot is a new one, since the slots are ascending
    rintro done out ⟨s, rows⟩ rfl hdone
    have hentry : (s, rows) ∈ entries :=
      hdone.subset (List.mem_append_right _ (List.mem_singleton_self _))
    obtain ⟨rfl, hne⟩ := (hentries.mem_iff s rows).mp hentry
    have hnew : s ∉ done.map Prod.fst := by
      intro hs
      have hsub := hentries.ascending.sublist (hdone.sublist.map Prod.fst)
      rw [List.map_append] at hsub
      have hlt := (List.pairwise_append.mp hsub).2.2 s hs s (by simp)
      exact Nat.lt_irrefl s hlt
    obtain ⟨t, ht⟩ := List.exists_mem_of_ne_nil _ hne
    have hslot := hhas s (List.mem_of_getElem? (mem_rowsOf.mp ht))
    refine ⟨_, addIndexed_spec stack maxLoras scale hslot _ hnew, ?_⟩
    rw [List.map_append]
    rfl
  case init =>
    simpa using eq_map_getD hy
  obtain ⟨out, hok, rfl⟩ := hloop
  rw [hok, routedRows]
  congr 1
  apply List.map_congr_left
  intro t _
  split_ifs with hlisted
  · rfl
  · -- a row that no list has is a row without a slot
    cases hslot : slots.getD t none with
    | none =>
      rw [routedAt, hslot]
      rfl
    | some s =>
      have ht : t ∈ rowsOf slots s := by
        rw [mem_rowsOf]
        rw [List.getD] at hslot
        cases hget : slots[t]? with
        | none =>
          rw [hget] at hslot
          cases hslot
        | some slot =>
          rw [hget] at hslot
          exact congrArg some hslot
      have hentry := (hentries.mem_iff s _).mpr ⟨rfl, List.ne_nil_of_mem ht⟩
      exact absurd ⟨s, List.mem_map.mpr ⟨_, hentry, rfl⟩, hslot⟩ hlisted

/-- The layer's output over the metadata of a routing. -/
theorem addLoraLinear_eq {md : RoutingMetadata} (hnum : md.numTokens = slots.length)
    (hnoLora : md.noLora = true ↔ ∀ s, some s ∉ slots)
    (hruns : md.contiguousRuns ≠ [] → Segments md.contiguousRuns slots)
    (hindices : md.contiguousRuns = [] → Indexed md.tokenIndicesBySlot slots)
    (hy : y.length = slots.length) (hx : x.length = slots.length)
    (hhas : ∀ s, some s ∈ slots → stack.Has maxLoras s) :
    md.addLoraLinear maxLoras y x stack scale
      = .ok (routedRows stack maxLoras scale slots y x) := by
  unfold RoutingMetadata.addLoraLinear
  split_ifs with hno hrows hcontiguous
  · -- no row has a slot
    refine congrArg Except.ok ((eq_map_getD hy).trans (List.map_congr_left fun t _ => ?_))
    have hslot : slots.getD t none = none := by
      cases hget : slots[t]? with
      | none => rw [List.getD, hget, Option.getD_none]
      | some slot =>
        cases slot with
        | none => rw [List.getD, hget, Option.getD_some]
        | some s => exact absurd (List.mem_of_getElem? hget) (hnoLora.mp hno s)
    rw [routedAt, hslot]
    rfl
  · rw [hnum] at hrows
    exact absurd hrows (not_or.mpr ⟨not_not.mpr hx, not_not.mpr hy⟩)
  · obtain ⟨outputs, flag, hok, hflatten, hkept⟩ :=
      addRuns_eq stack maxLoras scale (hruns hcontiguous) hy hx hhas
    rw [hok]
    cases flag with
    | false =>
      rw [← hkept rfl]
      rfl
    | true =>
      rw [← hflatten]
      rcases outputs with _ | ⟨output, _ | ⟨output', outputs⟩⟩
      · rfl
      · change Except.ok output = _
        rw [List.flatten_singleton]
      · rfl
  · exact addIndexed_eq stack maxLoras scale (hindices (not_not.mp hcontiguous)) hy hhas

/-- The stacks and the ranks have a slot for each entry of the table. -/
structure LoraStack.Covers (stack : LoraStack K maxRank inDim outDim) (maxLoras : ℕ)
    (table : List (Option ℤ)) : Prop where
  loraA : table.length ≤ stack.loraAStacked.length
  loraB : table.length ≤ stack.loraBStacked.length
  ranks : table.length ≤ (stack.ranks maxLoras).length

/-- **Adapter deltas, row by row.**  Whatever the wrapper routed before: over a mapping and a
table that names no adapter twice, row `t` of the output is `y[t] + scale * B_s A_s x[t]` for the
slot `s` of its adapter, and `y[t]` when the table does not name its adapter (`0` is the id of no
adapter).  The runs split the rows in order, the lists of indices split those that have a slot. -/
theorem add_lora_linear_rows (old : RoutingMetadata) (mapping : LoRAMapping)
    {table : List (Option ℤ)} (hdistinct : Distinct table)
    {stack : LoraStack K maxRank inDim outDim} {maxLoras : ℕ}
    (hcovers : stack.Covers maxLoras table)
    (scale : K) {y : List (Fin outDim → K)} {x : List (Fin inDim → K)}
    (hy : y.length = mapping.indexMapping.length) (hx : x.length = mapping.indexMapping.length) :
    let md := old.update mapping table
    (∃ out : List (Fin outDim → K), md.addLoraLinear maxLoras y x stack scale = .ok out ∧
      out.length = y.length ∧
      ∀ (t : ℕ) adapterId yRow xRow, mapping.indexMapping[t]? = some adapterId → y[t]? = some yRow →
        x[t]? = some xRow →
        (∀ s : ℕ, table[s]? = some (some adapterId) →
          out[t]? = some (yRow + scale • (stack.product maxLoras s *ᵥ xRow))) ∧
        (some adapterId ∉ table → out[t]? = some yRow)) ∧
    (md.contiguousRuns ≠ [] → Segments md.contiguousRuns (rowSlots mapping table)) ∧
    (md.contiguousRuns = [] → Indexed md.tokenIndicesBySlot (rowSlots mapping table) ∧
      (md.tokenIndicesBySlot.flatMap Prod.snd).Perm ((List.range mapping.indexMapping.length).filter
        fun t => (rowSlots mapping table)[t]?.join.isSome)) ∧
    ∀ (t : ℕ) adapterId, mapping.indexMapping[t]? = some adapterId → ∀ s : ℕ,
      (rowSlots mapping table)[t]? = some (some s) ↔ table[s]? = some (some adapterId) := by
  have hlength : (rowSlots mapping table).length = mapping.indexMapping.length :=
    List.length_map _
  have hslots : ∀ (t : ℕ) adapterId, mapping.indexMapping[t]? = some adapterId →
      (rowSlots mapping table)[t]? = some ((slotOf table).get? adapterId) := by
    intro t adapterId ht
    rw [rowSlots, List.getElem?_map, ht]
    rfl
  have hhas : ∀ s, some s ∈ rowSlots mapping table → stack.Has maxLoras s := by
    intro s hs
    obtain ⟨adapterId, -, hget⟩ := List.mem_map.mp hs
    have hlt := (List.getElem?_eq_some_iff.mp ((get?_slotOf hdistinct adapterId s).mp hget)).1
    exact ⟨hlt.trans_le hcovers.loraA, hlt.trans_le hcovers.loraB, hlt.trans_le hcovers.ranks⟩
  -- all three routing paths return the routed rows
  have hrows := addLoraLinear_eq stack maxLoras scale (updateMetadata_numTokens mapping table)
    (updateMetadata_noLora mapping table) (updateMetadata_runs mapping table)
    (updateMetadata_indices mapping table) (hy.trans hlength.symm) (hx.trans hlength.symm) hhas
  refine ⟨⟨_, hrows, ?_, ?_⟩, updateMetadata_runs mapping table, ?_, ?_⟩
  · rw [routedRows, List.length_map, List.length_range, hlength, hy]
  · intro t adapterId yRow xRow hid hyRow hxRow
    have hlt : t < (rowSlots mapping table).length := by
      rw [hlength]
      exact (List.getElem?_eq_some_iff.mp hid).1
    -- row `t` is routed by the slot of its adapter
    have hout : (routedRows stack maxLoras scale (rowSlots mapping table) y x)[t]?
        = some (stack.routedRow maxLoras scale ((slotOf table).get? adapterId) yRow xRow) := by
      rw [routedRows, List.getElem?_map, List.getElem?_range hlt, Option.map_some, routedAt,
        List.getD, List.getD, List.getD, hslots t adapterId hid, hyRow, hxRow]
      rfl
    rw [hout]
    constructor
    · intro s hs
      rw [(get?_slotOf hdistinct adapterId s).mpr hs]
      rfl
    · intro hnone
      cases hget : (slotOf table).get? adapterId with
      | none => rfl
      | some s =>
        exact absurd (List.mem_of_getElem? ((get?_slotOf hdistinct adapterId s).mp hget)) hnone
  · intro hindexed
    have hentries := updateMetadata_indices mapping table hindexed
    have hperm := hentries.perm
    rw [hlength] at hperm
    exact ⟨hentries, hperm⟩
  · intro t adapterId hid s
    rw [hslots t adapterId hid, Option.some_inj]
    exact get?_slotOf hdistinct adapterId s

/-- Two adapters interleaved with a row of no adapter, in slots of rank `1` and `0`. -/
theorem add_lora_linear_rows_interleaved :
    ∃ out, ((RoutingMetadata.init.update ⟨[7, 8, 0, 7], [], false⟩ [some 8, some 7]).addLoraLinear
        2 [fun _ => 1, fun _ => 1, fun _ => 1, fun _ => 1]
        [fun _ => 1, fun _ => 2, fun _ => 3, fun _ => 4]
        (⟨[fun _ _ => 5, fun _ _ => 6], [fun _ _ => 1, fun _ _ => 1], some [0, 1]⟩ :
          LoraStack ℚ 1 1 1) 2) = .ok out ∧ out.length = 4 ∧ out[0]? = some (fun _ => 13) ∧
      out[2]? = some fun _ => 1 := by
  have hdistinct : Distinct [some 8, some 7] := by
    rintro (_ | _ | s) (_ | _ | s') loraId hs hs' <;> simp_all <;> omega
  have hcovers : (⟨[fun _ _ => 5, fun _ _ => 6], [fun _ _ => 1, fun _ _ => 1], some [0, 1]⟩ :
      LoraStack ℚ 1 1 1).Covers 2 [some 8, some 7] := ⟨by decide, by decide, by decide⟩
  obtain ⟨⟨out, hok, hlength, hrows⟩, -⟩ := add_lora_linear_rows RoutingMetadata.init
    ⟨[7, 8, 0, 7], [], false⟩ hdistinct hcovers 2
    (y := [fun _ => 1, fun _ => 1, fun _ => 1, fun _ => 1])
    (x := [fun _ => 1, fun _ => 2, fun _ => 3, fun _ => 4]) rfl rfl
  have hseven := (hrows 0 7 (fun _ => 1) (fun _ => 1) rfl rfl rfl).1 1 rfl
  have hnone := (hrows 2 0 (fun _ => 1) (fun _ => 3) rfl rfl rfl).2 (by decide)
  exact ⟨out, hok, hlength, hseven.trans (by decide +kernel), hnone⟩

end

end VllmMetal.Lora
