import VllmMetal.PytorchBackend.CombineTokens

/-!
# The gathers are the loops over the requests

Every read that a lane makes of foreign data, its index clamped, is masked: the lanes of a request
get what its own loop gives them, and all others keep what they hold.

## Main definitions

* `PrefillExact`, `PosSeqLensExact`, `SlotsExact`, `DraftExact`, `FlattenExact` — what each
  operation does.
* `RaggedBatch` — the requests of a batch.

## Main results

* `input_ops_per_request` — all of them, for every batch.
* `combine_empty_query` — a batch without drafts has no empty query.
-/

namespace VllmMetal.PytorchBackend

/-! ### Tokens and positions -/

/-- What each request has, as one step of the loop gives it. -/
theorem getElem?_zipWith_diff {γ : Type} {f : ℕ → ℕ → γ} {mapping lens : List ℕ} {i slot n : ℕ}
    (hslot : mapping[i]? = some slot) (hn : lens[i]? = some n) :
    (List.zipWith f mapping (diff (boundaries lens)))[i]? = some (f slot n) := by
  rw [diff_boundaries, List.getElem?_zipWith, hslot, hn]

/-- A scatter at the slots of the requests. -/
theorem scatter_mapping {V : Type} (m : ℕ → V) {mapping : List ℕ} (hnodup : mapping.Nodup)
    {values : List V} (hlength : values.length = mapping.length) {i slot : ℕ} {v : V}
    (hslot : mapping[i]? = some slot) (hv : values[i]? = some v) :
    scatter m mapping values slot = v := by
  rw [scatter_eq_assign hnodup (by omega)]
  exact assign_of_getElem? hnodup hslot hv

section Prefill

variable {ids : List Token} {lookahead : List (ℕ → Token)} {mapping lens : List ℕ}
  {allIds : ℕ → ℕ → Token} {width : ℕ} {prefill computed : ℕ → ℕ}

/-- A lane of a request that is in its prefill gets its token. -/
theorem preparePrefillInputs_active {i j lane slot : ℕ} (howns : Owns lens i j lane)
    (hslot : mapping[i]? = some slot) (hlane : lane < ids.length)
    (hprefill : computed slot < prefill slot) (hwidth : computed slot + j < width) :
    (preparePrefillInputs ids lookahead mapping (boundaries lens) allIds width prefill
      computed).1[lane]? = some (allIds slot (computed slot + j)) := by
  have hrow := getD_tokenRows howns hlane
  have hmap : mapping.getD i 0 = slot :=
    getD_of_getElem? _ hslot
  have hsum := howns.lt_sum
  obtain ⟨n, -, -, hj⟩ := howns
  have hposition : min (computed slot + lane - (boundaries lens).getD i 0) (width - 1) =
      computed slot + j := by omega
  simp only [preparePrefillInputs]
  rw [List.getElem?_mapIdx, List.getElem?_eq_getElem hlane, Option.map_some, hrow, hmap, hposition,
    getLastD_boundaries, if_pos ⟨hsum, hprefill⟩]

/-- Every other lane keeps its token. -/
theorem preparePrefillInputs_other {lane : ℕ}
    (hother : ∀ i j slot, Owns lens i j lane → mapping[i]? = some slot →
      prefill slot ≤ computed slot) (hmapping : mapping.length = lens.length) :
    (preparePrefillInputs ids lookahead mapping (boundaries lens) allIds width prefill
      computed).1[lane]? = ids[lane]? := by
  simp only [preparePrefillInputs]
  rw [List.getElem?_mapIdx]
  by_cases hlane : lane < ids.length
  · rw [List.getElem?_eq_getElem hlane, Option.map_some, if_neg]
    rw [getLastD_boundaries]
    rintro ⟨hsum, hprefill⟩
    obtain ⟨i, j, howns⟩ := exists_owns hsum
    rw [getD_tokenRows howns hlane] at hprefill
    have hi : i < mapping.length := hmapping ▸ howns.lt_length
    have hle := hother i j mapping[i] howns (List.getElem?_eq_getElem hi)
    rw [List.getD_eq_getElem _ _ hi] at hprefill
    omega
  · rw [List.getElem?_eq_none (by omega)]
    rfl

variable (ids allIds width prefill computed) in
/-- The rows of the lookahead. -/
theorem preparePrefillInputs_lookahead (hmapping : mapping.length = lens.length)
    (hnodup : mapping.Nodup) {k : ℕ} {row : ℕ → Token} (hrow : lookahead[k]? = some row) :
    ∃ row', (preparePrefillInputs ids lookahead mapping (boundaries lens) allIds width prefill
        computed).2[k]? = some row' ∧
      (∀ i slot n : ℕ, mapping[i]? = some slot → lens[i]? = some n → row' slot =
        if computed slot + n + k < prefill slot then
          allIds slot (min (computed slot + n + k) (width - 1)) else 0) ∧
      ∀ slot ∉ mapping, row' slot = row slot := by
  let nextPos := List.zipWith (fun slot len => computed slot + len) mapping (diff (boundaries lens))
  refine ⟨scatter row mapping (List.zipWith (fun slot next =>
    if next + k < prefill slot then allIds slot (min (next + k) (width - 1)) else 0)
      mapping nextPos),
    ?_, fun i slot n hslot hn => ?_, fun slot hslot => ?_⟩
  · simp only [preparePrefillInputs]
    rw [List.getElem?_mapIdx, hrow, Option.map_some]
  · refine scatter_mapping row hnodup ?_ hslot ?_
    · rw [List.length_zipWith, List.length_zipWith, diff_boundaries, hmapping, Nat.min_self,
        Nat.min_self]
    · rw [List.getElem?_zipWith, hslot, getElem?_zipWith_diff hslot hn]
  · exact scatter_of_not_mem hslot

end Prefill

/-- What the prefill inputs are. -/
structure PrefillExact (ids : List Token) (lookahead : List (ℕ → Token)) (mapping lens : List ℕ)
    (allIds : ℕ → ℕ → Token) (width : ℕ) (prefill computed : ℕ → ℕ)
    (out : List Token × List (ℕ → Token)) : Prop where
  active : ∀ i j lane slot, Owns lens i j lane → mapping[i]? = some slot → lane < ids.length →
    computed slot < prefill slot → computed slot + j < width →
    out.1[lane]? = some (allIds slot (computed slot + j))
  other : ∀ lane, (∀ i j slot, Owns lens i j lane → mapping[i]? = some slot →
    prefill slot ≤ computed slot) → out.1[lane]? = ids[lane]?
  ahead : ∀ k row, lookahead[k]? = some row → ∃ row', out.2[k]? = some row' ∧
    (∀ i slot n : ℕ, mapping[i]? = some slot → lens[i]? = some n →
    prefill slot ≤ width → row' slot =
      if computed slot + n + k < prefill slot then allIds slot (computed slot + n + k) else 0) ∧
    ∀ slot ∉ mapping, row' slot = row slot

theorem preparePrefillInputs_exact {mapping lens : List ℕ} (hmapping : mapping.length = lens.length)
    (hnodup : mapping.Nodup) (ids : List Token) (lookahead : List (ℕ → Token))
    (allIds : ℕ → ℕ → Token) (width : ℕ) (prefill computed : ℕ → ℕ) :
    PrefillExact ids lookahead mapping lens allIds width prefill computed
      (preparePrefillInputs ids lookahead mapping (boundaries lens) allIds width prefill computed)
    where
  active _ _ _ _ howns hslot hlane hprefill hwidth :=
    preparePrefillInputs_active howns hslot hlane hprefill hwidth
  other _ hother := preparePrefillInputs_other hother hmapping
  ahead k row hrow := by
    obtain ⟨row', hrow', hslots, hrest⟩ := preparePrefillInputs_lookahead ids allIds width
      prefill computed hmapping hnodup hrow
    refine ⟨row', hrow', fun i slot n hslot hn hwidth => ?_, hrest⟩
    rw [hslots i slot n hslot hn]
    by_cases hlt : computed slot + n + k < prefill slot
    · rw [if_pos hlt, if_pos hlt, Nat.min_eq_left (by omega)]
    · rw [if_neg hlt, if_neg hlt]

/-- What the positions and lengths are. -/
structure PosSeqLensExact (mapping lens : List ℕ) (computed : ℕ → ℕ) (numPos numSeqs : ℕ)
    (out : List ℕ × List ℕ) : Prop where
  position : ∀ i j lane slot, Owns lens i j lane → mapping[i]? = some slot → lane < numPos →
    out.1[lane]? = some (computed slot + j)
  seqLen : ∀ i slot n : ℕ, mapping[i]? = some slot → lens[i]? = some n →
    out.2[i]? = some (computed slot + n)
  rest : ∀ k, mapping.length ≤ k → k < numSeqs → out.2[k]? = some 0

theorem preparePosSeqLens_exact {mapping lens : List ℕ} (hmapping : mapping.length = lens.length)
    (computed : ℕ → ℕ) (numPos numSeqs : ℕ) : PosSeqLensExact mapping lens computed numPos numSeqs
      (preparePosSeqLens mapping (boundaries lens) computed numPos numSeqs) := by
  have hlength : (List.zipWith (fun slot len => computed slot + len) mapping
      (diff (boundaries lens))).length = mapping.length := by
    rw [List.length_zipWith, diff_boundaries, hmapping, Nat.min_self]
  simp only [preparePosSeqLens]
  refine ⟨fun i j lane slot howns hslot hlane => ?_, fun i slot n hslot hn => ?_,
    fun k hk hnum => ?_⟩
  · have hmap : mapping.getD i 0 = slot := getD_of_getElem? _ hslot
    rw [List.getElem?_mapIdx, getElem?_tokenRows howns hlane, Option.map_some, hmap]
    obtain ⟨n, -, -, rfl⟩ := howns
    congr 1
    omega
  · have hi : i < mapping.length := (List.getElem?_eq_some_iff.mp hslot).1
    rw [List.getElem?_append_left (by omega), getElem?_zipWith_diff hslot hn]
  · rw [List.getElem?_append_right (by omega), hlength, List.getElem?_replicate, if_pos (by omega)]

/-! ### Cache slots -/

section Slots

variable {blockTables : List BlockTable} {mapping : List ℤ} {lens positions : List ℕ}
  {numTokensPadded : ℕ} {g : ℕ} {table : BlockTable} {row : List ℤ}

/-- The row of a cache group that maps no slots. -/
theorem computeSlotMappings_disabled (htable : blockTables[g]? = some table)
    (hoff : table.slotMappingEnabled = false) :
    (computeSlotMappings blockTables mapping (boundaries lens) positions numTokensPadded)[g]? =
      some (List.replicate numTokensPadded (-1)) := by
  simp only [computeSlotMappings]
  rw [List.getElem?_map, htable, Option.map_some, hoff]
  rfl

variable (mapping lens positions) in
/-- What a lane of an enabled cache group gets, from the request it finds. -/
theorem getElem?_computeSlotMappings (htable : blockTables[g]? = some table)
    (hon : table.slotMappingEnabled = true) {lane : ℕ} (hlane : lane < numTokensPadded) :
    ∃ row, (computeSlotMappings blockTables mapping (boundaries lens) positions
        numTokensPadded)[g]? = some row ∧ row[lane]? = some
      (if hp : lane < positions.length then
        if lane < lens.sum ∧
            0 ≤ mapping.getD ((tokenRows (boundaries lens) positions.length).getD lane 0) 0 then
          ((table.gpu (mapping.getD
              ((tokenRows (boundaries lens) positions.length).getD lane 0) 0).toNat
            (positions[lane] / table.blockSize) * table.blockSize +
              positions[lane] % table.blockSize : ℕ) : ℤ)
        else -1
      else -1) := by
  simp only [computeSlotMappings]
  refine ⟨_, by rw [List.getElem?_map, htable, Option.map_some, if_pos hon], ?_⟩
  rw [List.getElem?_take_of_lt hlane]
  by_cases hp : lane < positions.length
  · rw [List.getElem?_append_left (by rw [List.length_mapIdx]; exact hp), List.getElem?_mapIdx,
      List.getElem?_eq_getElem hp, Option.map_some, getLastD_boundaries, dif_pos hp]
    congr 1
    split <;> rfl
  · rw [List.getElem?_append_right (by rw [List.length_mapIdx]; omega), List.length_mapIdx,
      List.getElem?_replicate, if_pos (by omega), dif_neg hp]

/-- **A lane of a real request gets its slot.** -/
theorem computeSlotMappings_real (htable : blockTables[g]? = some table)
    (hon : table.slotMappingEnabled = true) {i j lane position : ℕ} {slot : ℤ}
    (howns : Owns lens i j lane) (hslot : mapping[i]? = some slot) (hreal : 0 ≤ slot)
    (hposition : positions[lane]? = some position) (hlane : lane < numTokensPadded) :
    ∃ row, (computeSlotMappings blockTables mapping (boundaries lens) positions
        numTokensPadded)[g]? = some row ∧ row[lane]? = some
      ((table.gpu slot.toNat (position / table.blockSize) * table.blockSize +
        position % table.blockSize : ℕ) : ℤ) := by
  obtain ⟨hp, rfl⟩ := List.getElem?_eq_some_iff.mp hposition
  obtain ⟨row, hrow, hvalue⟩ := getElem?_computeSlotMappings mapping lens positions htable hon
    hlane
  have hmap : mapping.getD i 0 = slot :=
    getD_of_getElem? _ hslot
  rw [dif_pos hp, getD_tokenRows howns hp, hmap, if_pos ⟨howns.lt_sum, hreal⟩] at hvalue
  exact ⟨row, hrow, hvalue⟩

/-- The lanes of a dummy request, and those behind the batch, get none. -/
theorem computeSlotMappings_masked (htable : blockTables[g]? = some table)
    (hon : table.slotMappingEnabled = true) {lane : ℕ} (hlane : lane < numTokensPadded)
    (hmasked : ∀ i j slot, Owns lens i j lane → mapping[i]? = some slot → slot < 0)
    (hmapping : mapping.length = lens.length) :
    ∃ row, (computeSlotMappings blockTables mapping (boundaries lens) positions
        numTokensPadded)[g]? = some row ∧ row[lane]? = some (-1) := by
  obtain ⟨row, hrow, hvalue⟩ := getElem?_computeSlotMappings mapping lens positions htable hon
    hlane
  refine ⟨row, hrow, hvalue.trans (congrArg some ?_)⟩
  split
  · next hp =>
    refine if_neg ?_
    rintro ⟨hsum, hreal⟩
    obtain ⟨i, j, howns⟩ := exists_owns hsum
    have hi : i < mapping.length := hmapping ▸ howns.lt_length
    have hneg := hmasked i j mapping[i] howns (List.getElem?_eq_getElem hi)
    rw [getD_tokenRows howns hp, List.getD_eq_getElem _ _ hi] at hreal
    omega
  · rfl

end Slots

/-- What the cache slots are. -/
structure SlotsExact (blockTables : List BlockTable) (mapping : List ℤ) (lens positions : List ℕ)
    (numTokensPadded : ℕ) (out : List (List ℤ)) : Prop where
  disabled : ∀ (g : ℕ) (table : BlockTable), blockTables[g]? = some table →
    table.slotMappingEnabled = false →
    out[g]? = some (List.replicate numTokensPadded (-1))
  real : ∀ (g : ℕ) (table : BlockTable) (i j lane position : ℕ) (slot : ℤ),
    blockTables[g]? = some table →
    table.slotMappingEnabled = true → Owns lens i j lane → mapping[i]? = some slot → 0 ≤ slot →
    positions[lane]? = some position → lane < numTokensPadded →
    ∃ row, out[g]? = some row ∧ row[lane]? = some
      ((table.gpu slot.toNat (position / table.blockSize) * table.blockSize +
        position % table.blockSize : ℕ) : ℤ)
  masked : ∀ (g : ℕ) (table : BlockTable) (lane : ℕ), blockTables[g]? = some table →
    table.slotMappingEnabled = true → lane < numTokensPadded →
    (∀ i j slot, Owns lens i j lane → mapping[i]? = some slot → slot < 0) →
    ∃ row, out[g]? = some row ∧ row[lane]? = some (-1)

theorem computeSlotMappings_exact {mapping : List ℤ} {lens : List ℕ}
    (hmapping : mapping.length = lens.length) (blockTables : List BlockTable) (positions : List ℕ)
    (numTokensPadded : ℕ) : SlotsExact blockTables mapping lens positions numTokensPadded
      (computeSlotMappings blockTables mapping (boundaries lens) positions numTokensPadded) where
  disabled _ _ htable hoff := computeSlotMappings_disabled htable hoff
  real _ _ _ _ _ _ _ htable hon howns hslot hreal hposition hlane :=
    computeSlotMappings_real htable hon howns hslot hreal hposition hlane
  masked _ _ _ htable hon hlane hmasked :=
    computeSlotMappings_masked htable hon hlane hmasked hmapping

/-! ### The draft model -/

section Draft

variable {lastIndices : List ℤ} {step : List ℕ} {buffers : DraftBuffers} {inputIds : List Token}
  {positions seqLens : List ℕ} {total : ℕ} {mapping lens sampled rejected : List ℕ}
  {last lookahead : ℕ → Token} {i n slot s r : ℕ}

/-- Where the query of a request ends for the draft model. -/
theorem getElem?_ends (hn : lens[i]? = some n) (hr : rejected[i]? = some r) :
    (List.zipWith (fun stop r : ℕ => (stop : ℤ) - r - 1) (boundaries lens).tail rejected)[i]? =
      some (((boundaries lens).getD i 0 : ℤ) + n - r - 1) := by
  have hi : i < lens.length := (List.getElem?_eq_some_iff.mp hn).1
  rw [List.getElem?_zipWith, tail_boundaries, List.getElem?_map, List.getElem?_range hi,
    Option.map_some, hr, getD_boundaries_succ hn]
  simp only [Nat.cast_add]

/-- **A query is shifted by one, up to its end.** -/
theorem prepareDraftInputs_inputIds (hslot : mapping[i]? = some slot) (hn : lens[i]? = some n)
    (hs : sampled[i]? = some s) (hr : rejected[i]? = some r)
    (htotal : lens.sum ≤ total) {j : ℕ} (hj : j + r < n) :
    (prepareDraftInputs lastIndices step buffers inputIds positions seqLens total mapping
        (boundaries lens)
          sampled rejected last lookahead).1.inputIds[(boundaries lens).getD i 0 + j]? =
      some (if j + r + 1 = n then if 0 < s then last slot else lookahead slot
        else inputIds.getD ((boundaries lens).getD i 0 + (j + 1)) 0) := by
  have howns : Owns lens i j ((boundaries lens).getD i 0 + j) := ⟨n, hn, by omega, rfl⟩
  have hlane := howns.lt_sum.trans_le htotal
  have hends : (List.zipWith (fun stop r : ℕ => (stop : ℤ) - r - 1) (boundaries lens).tail
      rejected).getD i 0 = ((boundaries lens).getD i 0 : ℤ) + n - r - 1 := by
    rw [List.getD_eq_getElem?_getD, getElem?_ends hn hr, Option.getD_some]
  have hnext : (List.zipWith (fun s slot => if 0 < s then last slot else lookahead slot) sampled
      mapping).getD i 0 = if 0 < s then last slot else lookahead slot := by
    rw [List.getD_eq_getElem?_getD, List.getElem?_zipWith, hs, hslot, Option.getD_some]
  simp only [prepareDraftInputs]
  rw [List.getElem?_append_left (by rw [List.length_mapIdx, length_tokenRows]; exact hlane),
    List.getElem?_mapIdx, getElem?_tokenRows howns hlane, Option.map_some, hends, hnext]
  congr 1
  by_cases hend : j + r + 1 = n
  · rw [if_pos hend, if_pos (by omega)]
  · -- the next row is of the same query
    have hnextrow : Owns lens i (j + 1) ((boundaries lens).getD i 0 + (j + 1)) :=
      ⟨n, hn, by omega, rfl⟩
    have hclamp := hnextrow.lt_sum
    have hmin : min ((boundaries lens).getD i 0 + j + 1) (total - 1) =
        (boundaries lens).getD i 0 + (j + 1) := by omega
    rw [if_neg hend, if_neg (by omega), hmin]

end Draft

/-- What the inputs of the draft model are. -/
structure DraftExact (lastIndices : List ℤ) (buffers : DraftBuffers) (inputIds : List Token)
    (positions seqLens : List ℕ) (total : ℕ) (mapping lens sampled rejected : List ℕ)
    (last lookahead : ℕ → Token) (out : DraftBuffers × List ℤ × List ℕ) : Prop where
  inputId : ∀ i j slot n s r : ℕ, mapping[i]? = some slot → lens[i]? = some n →
    sampled[i]? = some s → rejected[i]? = some r → j + r < n →
    out.1.inputIds[(boundaries lens).getD i 0 + j]? = some
      (if j + r + 1 = n then if 0 < s then last slot else lookahead slot
        else inputIds.getD ((boundaries lens).getD i 0 + (j + 1)) 0)
  lastIndex : ∀ i n r : ℕ, lens[i]? = some n → rejected[i]? = some r →
    out.2.1[i]? = some (((boundaries lens).getD i 0 : ℤ) + n - r - 1)
  lastRest : ∀ k, lens.length ≤ k → k < lastIndices.length → out.2.1[k]? = some 0
  position : ∀ k < total, out.1.positions[k]? = positions[k]?
  queryStart : ∀ k ≤ lens.length, out.1.queryStartLoc[k]? = some ((boundaries lens).getD k 0)
  queryRest : ∀ k, lens.length < k → k < buffers.queryStartLoc.length →
    out.1.queryStartLoc[k]? = some total
  seqLen : ∀ k < lens.length, out.1.seqLens[k]? = seqLens[k]?
  seqRest : ∀ k, lens.length ≤ k → k < buffers.seqLens.length → out.1.seqLens[k]? = some 0
  step : ∀ k ∈ out.2.2, k = 0

theorem prepareDraftInputs_exact {mapping lens rejected : List ℕ}
    (hmapping : mapping.length = lens.length) (hrejected : rejected.length = lens.length)
    {positions seqLens : List ℕ} {total : ℕ} (htotal : lens.sum ≤ total)
    (hpositions : total ≤ positions.length) (hseqLens : lens.length ≤ seqLens.length)
    (lastIndices : List ℤ) (step : List ℕ) (buffers : DraftBuffers) (inputIds : List Token)
    (sampled : List ℕ) (last lookahead : ℕ → Token) :
    DraftExact lastIndices buffers inputIds positions seqLens total mapping lens sampled rejected
      last lookahead (prepareDraftInputs lastIndices step buffers inputIds positions seqLens total
        mapping (boundaries lens) sampled rejected last lookahead) := by
  have hends : (List.zipWith (fun stop r : ℕ => (stop : ℤ) - r - 1) (boundaries lens).tail
      rejected).length = lens.length := by
    rw [List.length_zipWith, List.length_tail, length_boundaries, hrejected, Nat.add_sub_cancel,
      Nat.min_self]
  -- the buffers: what the requests fill in front, and the padding behind it
  refine ⟨fun i j slot n s r hslot hn hs hr hj =>
    prepareDraftInputs_inputIds hslot hn hs hr htotal hj, ?_, ?_, ?_, ?_, ?_, ?_, ?_, ?_⟩ <;>
    simp only [prepareDraftInputs, hmapping]
  · intro i n r hn hr
    have hi : i < lens.length := (List.getElem?_eq_some_iff.mp hn).1
    rw [List.getElem?_append_left (by omega), getElem?_ends hn hr]
  · intro k hk hlt
    rw [List.getElem?_append_right (by omega), hends, List.getElem?_replicate, if_pos (by omega)]
  · intro k hk
    rw [List.getElem?_append_left (by rw [List.length_take]; omega), List.getElem?_take_of_lt hk]
  · intro k hk
    have hlt : k < (boundaries lens).length := by rw [length_boundaries]; omega
    rw [List.getElem?_append_left hlt, List.getD_eq_getElem _ _ hlt, List.getElem?_eq_getElem]
  · intro k hk hlt
    rw [List.getElem?_append_right (by rw [length_boundaries]; omega), length_boundaries,
      List.getElem?_replicate, if_pos (by omega)]
  · intro k hk
    rw [List.getElem?_append_left (by rw [List.length_take]; omega), List.getElem?_take_of_lt hk]
  · intro k hk hlt
    rw [List.getElem?_append_right (by rw [List.length_take]; omega), List.length_take,
      List.getElem?_replicate, if_pos (by omega)]
  · exact fun k hk => List.eq_of_mem_replicate hk

section Flatten

variable {output : List Token} {sampled : List (List Token)} {numCols : ℕ}
  {numSampled widths : List ℕ}

/-- A lane gets its token, if its request has sampled so many. -/
theorem flattenSampled_lane {i j lane count : ℕ} {tokens : List Token}
    (howns : Owns widths i j lane) (hlane : lane < output.length)
    (hcount : numSampled[i]? = some count) (htokens : sampled[i]? = some tokens)
    (hcols : count ≤ numCols) :
    (flattenSampled output sampled numCols numSampled (boundaries widths))[lane]? =
      if j < count then some (tokens.getD j 0) else output[lane]? := by
  have hnum : numSampled.getD i 0 = count :=
    getD_of_getElem? _ hcount
  have htok : sampled.getD i [] = tokens :=
    getD_of_getElem? _ htokens
  simp only [flattenSampled]
  rw [List.getElem?_mapIdx, List.getElem?_eq_getElem hlane, Option.map_some,
    getD_tokenRows howns hlane, hnum, htok]
  obtain ⟨w, -, -, rfl⟩ := howns
  rw [Nat.add_sub_cancel_left]
  by_cases hj : j < count
  · rw [if_pos hj, if_pos hj, Nat.min_eq_left (by omega)]
  · rw [if_neg hj, if_neg hj]

/-- The lanes behind the batch stay. -/
theorem flattenSampled_padding {lane : ℕ} (hsum : widths.sum ≤ lane)
    (hfew : ∀ i, numSampled.getD i 0 ≤ widths.getD i 0) :
    (flattenSampled output sampled numCols numSampled (boundaries widths))[lane]? =
      output[lane]? := by
  simp only [flattenSampled]
  rw [List.getElem?_mapIdx]
  by_cases hlane : lane < output.length
  · rw [List.getElem?_eq_getElem hlane, Option.map_some, tokenRows_padding hsum hlane, if_neg]
    have hlast := ((⟨rfl, fun _ => Nat.le_refl _⟩ : WidthsFit widths widths).last_stop).2
    have hle := hfew (widths.length - 1)
    omega
  · rw [List.getElem?_eq_none (Nat.not_lt.mp hlane)]
    rfl

end Flatten

/-- What the flat tokens are. -/
structure FlattenExact (output : List Token) (sampled : List (List Token))
    (numSampled widths : List ℕ) (out : List Token) : Prop where
  lane : ∀ i j lane count tokens, Owns widths i j lane → lane < output.length →
    numSampled[i]? = some count → sampled[i]? = some tokens →
    out[lane]? = if j < count then tokens[j]? else output[lane]?
  padding : ∀ lane, widths.sum ≤ lane → out[lane]? = output[lane]?

theorem flattenSampled_exact {sampled : List (List Token)} {numCols : ℕ}
    {numSampled widths : List ℕ}
    (hcols : ∀ tokens ∈ sampled, tokens.length = numCols)
    (hcount : ∀ count ∈ numSampled, count ≤ numCols)
    (hfew : ∀ i, numSampled.getD i 0 ≤ widths.getD i 0) (output : List Token) :
    FlattenExact output sampled numSampled widths
      (flattenSampled output sampled numCols numSampled (boundaries widths)) where
  lane i j lane count tokens howns hlane hnum htokens := by
    have hle := hcount count (List.mem_of_getElem? hnum)
    have hlength := hcols tokens (List.mem_of_getElem? htokens)
    rw [flattenSampled_lane howns hlane hnum htokens hle]
    refine ite_congr rfl (fun hj => ?_) fun _ => rfl
    rw [List.getElem?_eq_getElem (by omega), List.getD_eq_getElem _ _ (by omega)]
  padding _ hsum := flattenSampled_padding hsum hfew

/-! ### All of them -/

/-- A ragged batch of distinct slots: `query_start_loc` begins with zero and never decreases. -/
structure RaggedBatch where
  mapping : List ℕ
  cu : List ℕ
  head_eq : cu.head? = some 0
  sorted : cu.Pairwise (· ≤ ·)
  length_eq : cu.length = mapping.length + 1
  distinct : mapping.Nodup

/-- The lengths of the queries. -/
def RaggedBatch.lens (b : RaggedBatch) : List ℕ := diff b.cu

theorem RaggedBatch.length_lens (b : RaggedBatch) : b.mapping.length = b.lens.length := by
  rw [lens, diff, List.length_map, spans, List.length_zip, List.length_tail, b.length_eq]
  omega

/-- `query_start_loc` is the boundaries of the queries. -/
theorem RaggedBatch.cu_eq (b : RaggedBatch) : b.cu = boundaries b.lens := by
  have hlens := b.length_lens
  have hlength := b.length_eq
  have hstep : ∀ s < b.lens.length, b.lens[s]? = some (b.cu.getD (s + 1) 0 - b.cu.getD s 0) := by
    intro s hs
    have hlt : s + 1 < b.cu.length := by omega
    have hpair : (spans b.cu)[s]? = some (b.cu.getD s 0, b.cu.getD (s + 1) 0) := by
      rw [spans, List.getElem?_zip_eq_some, List.getElem?_tail, List.getD_eq_getElem _ _ hlt,
        List.getD_eq_getElem _ _ (Nat.lt_of_succ_lt hlt)]
      exact ⟨List.getElem?_eq_getElem _, List.getElem?_eq_getElem hlt⟩
    rw [lens, diff, List.getElem?_map, hpair, Option.map_some]
  have hget : ∀ s ≤ b.lens.length, b.cu.getD s 0 = (boundaries b.lens).getD s 0 := by
    intro s hs
    induction s with
    | zero =>
      rw [getD_boundaries (Nat.zero_le _), List.take_zero, List.sum_nil,
        List.getD_eq_getElem?_getD, ← List.head?_eq_getElem?, b.head_eq, Option.getD_some]
    | succ s ih =>
      have hle : b.cu.getD s 0 ≤ b.cu.getD (s + 1) 0 := by
        rw [List.getD_eq_getElem _ _ (by omega : s + 1 < b.cu.length),
          List.getD_eq_getElem _ _ (by omega : s < b.cu.length)]
        exact List.pairwise_iff_getElem.mp b.sorted _ _ _ _ (Nat.lt_succ_self s)
      rw [getD_boundaries_succ (hstep s hs), ← ih (Nat.le_of_succ_le hs)]
      omega
  refine List.ext_getElem (by rw [length_boundaries]; omega) fun s hs hs' => ?_
  have := hget s (by omega)
  rwa [List.getD_eq_getElem _ _ hs, List.getD_eq_getElem _ _ hs'] at this

/-- **The input operations do for each request what its loop does.** -/
theorem input_ops_per_request (b : RaggedBatch) :
    (∀ size i j lane, Owns b.lens i j lane → lane < size →
      (tokenRows b.cu size)[lane]? = some i) ∧
    (∀ ids lookahead allIds width prefill computed,
      PrefillExact ids lookahead b.mapping b.lens allIds width prefill computed
        (preparePrefillInputs ids lookahead b.mapping b.cu allIds width prefill computed)) ∧
    (∀ computed numPos numSeqs, PosSeqLensExact b.mapping b.lens computed numPos numSeqs
      (preparePosSeqLens b.mapping b.cu computed numPos numSeqs)) ∧
    (∀ ids last lengths prefill drafts draftCols widths numLogits,
      WidthsFit b.lens widths → widths.sum ≤ numLogits →
      (∀ i slot w : ℕ, b.mapping[i]? = some slot → widths[i]? = some w → 2 ≤ w →
        (prefill slot : ℤ) - 1 ≤ lengths.getD i 0 - w) →
      (draftCols ≠ 0 ∨ ∀ w ∈ widths, w = 1) →
      CombineExact ids b.mapping b.lens widths lengths last prefill drafts draftCols numLogits
        (combineSampledAndDraftTokens ids b.mapping last b.cu lengths prefill drafts draftCols
          (boundaries widths) numLogits)) ∧
    (∀ blockTables mapping positions numTokensPadded, mapping.length = b.lens.length →
      SlotsExact blockTables mapping b.lens positions numTokensPadded
        (computeSlotMappings blockTables mapping b.cu positions numTokensPadded)) ∧
    (∀ lastIndices step buffers inputIds positions seqLens total sampled rejected last lookahead,
      rejected.length = b.lens.length → b.lens.sum ≤ total → total ≤ positions.length →
      b.lens.length ≤ seqLens.length →
      DraftExact lastIndices buffers inputIds positions seqLens total b.mapping b.lens sampled
        rejected last lookahead (prepareDraftInputs lastIndices step buffers inputIds positions
          seqLens total b.mapping b.cu sampled rejected last lookahead)) ∧
    (∀ output sampled numCols numSampled widths,
      (∀ tokens ∈ sampled, tokens.length = numCols) → (∀ count ∈ numSampled, count ≤ numCols) →
      (∀ i, numSampled.getD i 0 ≤ widths.getD i 0) →
      FlattenExact output sampled numSampled widths
        (flattenSampled output sampled numCols numSampled (boundaries widths))) := by
  rw [b.cu_eq]
  refine ⟨fun size i j lane howns hlane => getElem?_tokenRows howns hlane, ?_, ?_, ?_, ?_, ?_, ?_⟩
  · exact preparePrefillInputs_exact b.length_lens b.distinct
  · exact preparePosSeqLens_exact b.length_lens
  -- a table without columns has no drafts to combine
  · intro ids last lengths prefill drafts draftCols widths numLogits hfit hlogits hdrafts hcols
    by_cases hzero : draftCols = 0
    · subst hzero
      exact hfit.combine_one (hcols.resolve_left fun h => h rfl)
    · exact hfit.combine_drafts hzero hlogits hdrafts
  · exact fun blockTables mapping positions numTokensPadded hmapping =>
      computeSlotMappings_exact hmapping blockTables positions numTokensPadded
  · intro lastIndices step buffers inputIds positions seqLens total sampled rejected last lookahead
      hrejected htotal hpositions hseqLens
    exact prepareDraftInputs_exact b.length_lens hrejected htotal hpositions hseqLens lastIndices
      step buffers inputIds sampled last lookahead
  · exact fun output sampled numCols numSampled widths hcols hcount hfew =>
      flattenSampled_exact hcols hcount hfew output

/-- Three requests: one with two drafts, one without a query and one without drafts. -/
def threeRequests : RaggedBatch where
  mapping := [4, 1, 2]
  cu := [0, 3, 3, 5]
  head_eq := rfl
  sorted := by decide
  length_eq := rfl
  distinct := by decide

theorem input_ops_per_request_three :
    (tokenRows threeRequests.cu 7)[3]? = some 2 ∧
    (combineSampledAndDraftTokens [1, 1, 1, 2, 2, 0, 0] threeRequests.mapping
      (fun slot => 50 + slot) threeRequests.cu [9, 3, 6] (fun _ => 6)
      (fun slot j => 70 + 10 * slot + j) 2 (boundaries [3, 0, 1]) 4).1[2]? = some 111 ∧
    (flattenSampled [0, 0, 0, 0] [[5, 6, 0], [0, 0, 0], [8, 0, 0]] 3 [2, 0, 1]
      (boundaries [3, 0, 1]))[3]? = some 8 := by
  have h := input_ops_per_request threeRequests
  have hfit : WidthsFit threeRequests.lens [3, 0, 1] := ⟨rfl, fun i => by
    rcases i with _ | _ | _ | i
    · decide
    · decide
    · decide
    · exact Nat.le_refl _⟩
  have hdrafts : ∀ i slot w : ℕ, threeRequests.mapping[i]? = some slot →
      [3, 0, 1][i]? = some w → 2 ≤ w →
        ((6 : ℕ) : ℤ) - 1 ≤ (([9, 3, 6] : List ℕ).getD i 0 : ℕ) - w := by
    rintro (_ | _ | _ | i) slot w - hw hle
    · obtain rfl : 3 = w := by simpa using hw
      simp
    · obtain rfl : 0 = w := by simpa using hw
      omega
    · obtain rfl : 1 = w := by simpa using hw
      omega
    · simp at hw
  refine ⟨h.1 7 2 0 3 ⟨2, rfl, by decide, rfl⟩ (by decide), ?_, ?_⟩
  · have hcombine := h.2.2.2.1 [1, 1, 1, 2, 2, 0, 0] (fun slot => 50 + slot) [9, 3, 6]
      (fun _ => 6) (fun slot j => 70 + 10 * slot + j) 2 [3, 0, 1] 4 hfit (by decide) hdrafts
      (Or.inl (by decide))
    exact hcombine.replaced 0 2 4 3 rfl rfl (by decide) (by decide) (by decide)
  · have hflatten := h.2.2.2.2.2.2 [0, 0, 0, 0] [[5, 6, 0], [0, 0, 0], [8, 0, 0]] 3 [2, 0, 1]
      [3, 0, 1] (by decide) (by decide) (fun i => by
        rcases i with _ | _ | _ | i
        · decide
        · decide
        · decide
        · exact Nat.le_refl _)
    exact hflatten.lane 2 0 3 1 [8, 0, 0] ⟨1, rfl, by decide, rfl⟩ (by decide) rfl rfl

/-- Without drafts a request without a query returns the row of the request before it, and its
sampled token lands there. -/
theorem combine_empty_query :
    WidthsFit [1, 0] [1, 0] ∧
    combineSampledAndDraftTokens [7] [0, 1] (fun slot => 50 + slot) (boundaries [1, 0]) [5, 3]
      (fun _ => 2) (fun _ _ => 0) 0 (boundaries [1, 0]) 1 = ([51], [0, 0]) ∧
    logitRows [1, 0] [1, 0] = [0] :=
  ⟨⟨rfl, fun _ => Nat.le_refl _⟩, by decide, by decide⟩

end VllmMetal.PytorchBackend
