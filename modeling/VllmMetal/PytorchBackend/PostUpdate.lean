import VllmMetal.Lib.WriteBack
import VllmMetal.PytorchBackend.RejectionSample

/-!
# The state of the requests after a verification round

The MPS backend keeps the tokens, the counts and the positions of all requests in tables that
are indexed by slot.  After a round one scatter for each table writes the new values; rows of
no request are taken out of every tensor first, and columns that a request does not use write
the value that is there to a safe place.

## Main definitions

* `RequestTables` — the tables.
* `getNumSampledAndRejected`, `postUpdate` — the kernels.

## Main results

* `updateTables_row`, `updateTables_other` — what one request, and what the others, are left with.
* `verification_round_exact` — **a greedy verification round keeps the tables exact**.
-/

namespace VllmMetal.PytorchBackend

/-! ### The kernels -/

/-- The tables of the requests, by slot. -/
structure RequestTables where
  computed : ℕ → ℤ
  /-- `last[slot, 0]`. -/
  last : ℕ → Token
  /-- The counts of the penalties, by slot and token. -/
  bins : Option (ℕ × ℕ → ℤ)
  /-- By slot and position. -/
  allIds : ℕ × ℕ → Token
  total : ℕ → ℕ

/-- The slot that an index means; negative ones count from the end. -/
def wrapIndex (size : ℕ) (i : ℤ) : ℕ := if i < 0 then (size + i).toNat else i.toNat

theorem wrapIndex_natCast (size slot : ℕ) : wrapIndex size slot = slot := by
  unfold wrapIndex
  rw [if_neg (by omega), Int.toNat_natCast]

/-- `get_num_sampled_and_rejected`: what a request has sampled and rejected, and nothing as long
as it is in its prefill. -/
def getNumSampledAndRejected (size : ℕ) (count : List ℕ) (lengths : List ℤ) (cuLogits : List ℕ)
    (mapping : List ℤ) (prefill : ℕ → ℤ) : List ℕ × List ℤ :=
  let active := List.zipWith (fun len slot => decide (prefill (wrapIndex size slot) ≤ len))
    (lengths.take mapping.length) mapping
  let count := List.zipWith (fun a c => if a then c else 0) active count
  (count, List.zipWith (fun a p => if a then p else 0) active
    (List.zipWith (fun (width c : ℕ) => (width : ℤ) - c) (diff cuLogits) count))

/-- One row of the tensors of `post_update`. -/
structure PostRow where
  slot : ℕ
  tokens : List Token
  count : ℕ
  delta : ℤ

/-- The columns of `all_ids` and of the penalty counts that column `i` of the tokens writes. -/
def writeColumn (rows : List PostRow) (oldTotal : ℕ → ℕ)
    (tables : (ℕ × ℕ → Token) × Option (ℕ × ℕ → ℤ)) (i : ℕ) :
    (ℕ × ℕ → Token) × Option (ℕ × ℕ → ℤ) :=
  -- only unused columns get a safe index
  let cell (r : PostRow) : ℕ × ℕ := (r.slot, if i < r.count then oldTotal r.slot + i else 0)
  let bin (r : PostRow) : ℕ × ℕ := (r.slot, (r.tokens.getD i 0).toNat)
  (scatter tables.1 (rows.map cell) (rows.map fun r =>
      if i < r.count then r.tokens.getD i 0 else tables.1 (cell r)),
    tables.2.map fun bins => scatter bins (rows.map bin) (rows.map fun r =>
      bins (bin r) + if i < r.count then 1 else 0))

/-- The scatters of `post_update`. -/
def updateTables (numCols : ℕ) (rows : List PostRow) (s : RequestTables) : RequestTables :=
  let written := (List.range numCols).foldl (writeColumn rows s.total) (s.allIds, s.bins)
  { last := scatter s.last (rows.map (·.slot)) (rows.map fun r =>
      if 0 < r.count then r.tokens.getD (r.count - 1) 0 else s.last r.slot)
    allIds := written.1
    bins := written.2
    total := scatter s.total (rows.map (·.slot)) (rows.map fun r =>
      s.total r.slot + if 0 < r.count then r.count else 0)
    computed := scatter s.computed (rows.map (·.slot)) (rows.map fun r =>
      s.computed r.slot + r.delta) }

/-- `post_update` behind the re-packing: all rows have a slot. -/
def postRows (mapping : List ℤ) (tokens : List (List Token)) (count : List ℕ)
    (rejected : List ℤ) (cu : Option (List ℕ)) : List PostRow :=
  (List.range mapping.length).map fun k =>
    { slot := (mapping.getD k 0).toNat
      tokens := tokens.getD k []
      count := count.getD k 0
      delta := ((cu.map fun cu => ((diff cu).getD k 0 : ℤ)).getD 0) - rejected.getD k 0 }

/-- `tensor[keep]`. -/
def gather {α : Type} (keep : List ℕ) (l : List α) (default : α) : List α :=
  keep.map fun k => l.getD k default

/-- `post_update`. -/
def postUpdate (mapping : List ℤ) (tokens : List (List Token)) (count : List ℕ)
    (rejected : List ℤ) (cu : Option (List ℕ)) (s : RequestTables) : RequestTables :=
  let numCols := (tokens.headD []).length
  if mapping.all fun slot => decide (0 ≤ slot) then
    updateTables numCols (postRows mapping tokens count rejected cu) s
  else
    let keep := (List.range mapping.length).filter fun k => decide (0 ≤ mapping.getD k 0)
    if keep.isEmpty then s
    else
      -- every per-row tensor is packed again, and the boundaries are those of the rows kept
      let cu := cu.map fun cu => boundaries (gather keep (diff cu) 0)
      updateTables numCols (postRows (gather keep mapping 0) (gather keep tokens [])
        (gather keep count 0) (gather keep rejected 0) cu) s

/-! ### One row -/

section

variable {rows : List PostRow} {numCols : ℕ} {s : RequestTables} {r : PostRow}

/-- Rows with distinct slots have distinct cells. -/
theorem nodup_cells (hnodup : (rows.map (·.slot)).Nodup) (f : PostRow → ℕ) :
    (rows.map fun r => (r.slot, f r)).Nodup := by
  refine List.Nodup.of_map Prod.fst ?_
  rw [List.map_map]
  exact hnodup

/-- A scatter at one cell for each slot, on the cells of a row. -/
theorem scatter_cells {V : Type} (m : ℕ × ℕ → V) (hnodup : (rows.map (·.slot)).Nodup)
    (f : PostRow → ℕ) (v : PostRow → V) (hr : r ∈ rows) (p : ℕ) :
    scatter m (rows.map fun r => (r.slot, f r)) (rows.map v) (r.slot, p) =
      if p = f r then v r else m (r.slot, p) := by
  split
  · next hp =>
    subst hp
    exact scatter_map_of_mem m (nodup_cells hnodup f) hr
  · next hp =>
    refine scatter_of_not_mem fun hmem => ?_
    obtain ⟨r', hr', heq⟩ := List.mem_map.mp hmem
    obtain ⟨hslot, hcell⟩ := Prod.mk.inj heq
    have hsame : r' = r := List.inj_on_of_nodup_map hnodup hr' hr hslot
    subst hsame
    exact hp hcell.symm

/-- A slot that no row has keeps its cells. -/
theorem scatter_cells_other {V : Type} (m : ℕ × ℕ → V) (f : PostRow → ℕ) (v : PostRow → V)
    {slot : ℕ} (hslot : slot ∉ rows.map (·.slot)) (p : ℕ) :
    scatter m (rows.map fun r => (r.slot, f r)) (rows.map v) (slot, p) = m (slot, p) := by
  refine scatter_of_not_mem fun hmem => hslot ?_
  obtain ⟨r', hr', heq⟩ := List.mem_map.mp hmem
  exact List.mem_map.mpr ⟨r', hr', (Prod.mk.inj heq).1⟩

/-- **One column** writes the token of a row that uses it behind its old ones. -/
theorem writeColumn_ids (hnodup : (rows.map (·.slot)).Nodup) (oldTotal : ℕ → ℕ)
    (tables : (ℕ × ℕ → Token) × Option (ℕ × ℕ → ℤ)) (hr : r ∈ rows) (i p : ℕ) :
    (writeColumn rows oldTotal tables i).1 (r.slot, p) =
      if i < r.count ∧ p = oldTotal r.slot + i then r.tokens.getD i 0
      else tables.1 (r.slot, p) := by
  unfold writeColumn
  dsimp only
  rw [scatter_cells _ hnodup (fun r => if i < r.count then oldTotal r.slot + i else 0) _ hr]
  by_cases hcount : i < r.count
  · simp only [hcount, if_true, true_and]
  · -- the safe cell is given the value that it has
    simp only [hcount, if_false, false_and]
    split
    · next hp => rw [hp]
    · rfl

/-- One column counts the token of a row that uses it. -/
theorem writeColumn_bins (hnodup : (rows.map (·.slot)).Nodup) (oldTotal : ℕ → ℕ)
    (allIds : ℕ × ℕ → Token) (bins : ℕ × ℕ → ℤ) (hr : r ∈ rows) (i : ℕ) :
    ∃ bins', (writeColumn rows oldTotal (allIds, some bins) i).2 = some bins' ∧
      ∀ v, bins' (r.slot, v) = bins (r.slot, v) +
        if i < r.count ∧ (r.tokens.getD i 0).toNat = v then 1 else 0 := by
  refine ⟨_, rfl, fun v => ?_⟩
  dsimp only
  rw [scatter_cells _ hnodup (fun r => (r.tokens.getD i 0).toNat) _ hr]
  by_cases hv : v = (r.tokens.getD i 0).toNat
  · subst hv
    simp
  · rw [if_neg hv, if_neg fun h => hv h.2.symm, Int.add_zero]

/-- The columns of a row write its tokens behind the old ones. -/
theorem foldl_writeColumn_ids (hnodup : (rows.map (·.slot)).Nodup) (oldTotal : ℕ → ℕ)
    (tables : (ℕ × ℕ → Token) × Option (ℕ × ℕ → ℤ)) (hr : r ∈ rows) (n p : ℕ) :
    ((List.range n).foldl (writeColumn rows oldTotal) tables).1 (r.slot, p) =
      if oldTotal r.slot ≤ p ∧ p < oldTotal r.slot + min n r.count then
        r.tokens.getD (p - oldTotal r.slot) 0 else tables.1 (r.slot, p) := by
  induction n with
  | zero =>
    rw [if_neg (by omega)]
    rfl
  | succ n ih =>
    rw [List.range_succ, List.foldl_append, List.foldl_cons, List.foldl_nil,
      writeColumn_ids hnodup oldTotal _ hr, ih]
    by_cases hnew : n < r.count ∧ p = oldTotal r.slot + n
    · have hcol : p - oldTotal r.slot = n := by omega
      rw [if_pos hnew, if_pos (by omega), hcol]
    · have hiff : (oldTotal r.slot ≤ p ∧ p < oldTotal r.slot + min n r.count) ↔
          (oldTotal r.slot ≤ p ∧ p < oldTotal r.slot + min (n + 1) r.count) := by omega
      rw [if_neg hnew]
      simp only [hiff]

/-- The columns of a row count its tokens. -/
theorem foldl_writeColumn_bins (hnodup : (rows.map (·.slot)).Nodup) (oldTotal : ℕ → ℕ)
    (allIds : ℕ × ℕ → Token) (bins : ℕ × ℕ → ℤ) (hr : r ∈ rows) (n : ℕ) :
    ∃ bins', ((List.range n).foldl (writeColumn rows oldTotal) (allIds, some bins)).2 =
        some bins' ∧ ∀ v, bins' (r.slot, v) = bins (r.slot, v) +
          ((List.range (min n r.count)).countP fun i =>
            decide ((r.tokens.getD i 0).toNat = v) : ℕ) := by
  induction n with
  | zero => exact ⟨bins, rfl, fun v => by simp⟩
  | succ n ih =>
    obtain ⟨bins', hbins', hcount⟩ := ih
    rw [List.range_succ, List.foldl_append, List.foldl_cons, List.foldl_nil]
    obtain ⟨bins'', hbins'', hcount'⟩ := writeColumn_bins hnodup oldTotal
      ((List.range n).foldl (writeColumn rows oldTotal) (allIds, some bins)).1 bins' hr n
    refine ⟨bins'', ?_, fun v => ?_⟩
    · rw [← hbins'', ← hbins']
    · rw [hcount', hcount]
      by_cases hlt : n < r.count
      · have hmin : min (n + 1) r.count = n + 1 := by omega
        have hlast : min n r.count = n := by omega
        rw [hmin, hlast, List.range_succ, List.countP_append, List.countP_singleton]
        simp only [hlt, true_and, decide_eq_true_eq]
        split <;> omega
      · have hmin : min (n + 1) r.count = min n r.count := by omega
        rw [hmin, if_neg fun h => hlt h.1, Int.add_zero]

/-- The columns leave a slot alone that no row has. -/
theorem foldl_writeColumn_other (oldTotal : ℕ → ℕ)
    (tables : (ℕ × ℕ → Token) × Option (ℕ × ℕ → ℤ)) {slot : ℕ}
    (hslot : slot ∉ rows.map (·.slot)) (n p : ℕ) :
    ((List.range n).foldl (writeColumn rows oldTotal) tables).1 (slot, p) = tables.1 (slot, p) ∧
      ((List.range n).foldl (writeColumn rows oldTotal) tables).2.map (· (slot, p)) =
        tables.2.map (· (slot, p)) := by
  induction n with
  | zero => exact ⟨rfl, rfl⟩
  | succ n ih =>
    rw [List.range_succ, List.foldl_append, List.foldl_cons, List.foldl_nil]
    refine ⟨?_, ?_⟩
    · exact (scatter_cells_other _ _ _ hslot p).trans ih.1
    · rw [← ih.2]
      show Option.map _ (Option.map _ _) = _
      rw [Option.map_map]
      congr 1
      funext bins
      exact scatter_cells_other _ _ _ hslot p

/-- **What a request is left with.** -/
theorem updateTables_row (hnodup : (rows.map (·.slot)).Nodup) (hr : r ∈ rows)
    (hcols : r.count ≤ numCols) :
    let s' := updateTables numCols rows s
    s'.total r.slot = s.total r.slot + r.count ∧
    s'.computed r.slot = s.computed r.slot + r.delta ∧
    s'.last r.slot = (if 0 < r.count then r.tokens.getD (r.count - 1) 0 else s.last r.slot) ∧
    (∀ p, s'.allIds (r.slot, p) =
      if s.total r.slot ≤ p ∧ p < s.total r.slot + r.count then
        r.tokens.getD (p - s.total r.slot) 0 else s.allIds (r.slot, p)) ∧
    (∀ bins, s.bins = some bins → ∃ bins', s'.bins = some bins' ∧ ∀ v, bins' (r.slot, v) =
      bins (r.slot, v) + ((List.range r.count).countP fun i =>
        decide ((r.tokens.getD i 0).toNat = v) : ℕ)) := by
  intro s'
  have hmin : min numCols r.count = r.count := by omega
  refine ⟨?_, ?_, ?_, fun p => ?_, fun bins hbins => ?_⟩
  · refine (scatter_map_of_mem s.total hnodup hr).trans ?_
    split <;> omega
  · exact scatter_map_of_mem s.computed hnodup hr
  · exact scatter_map_of_mem s.last hnodup hr
  · refine (foldl_writeColumn_ids hnodup s.total (s.allIds, s.bins) hr numCols p).trans ?_
    rw [hmin]
  · obtain ⟨bins', hbins', hcount⟩ := foldl_writeColumn_bins hnodup s.total s.allIds bins hr numCols
    rw [hmin] at hcount
    refine ⟨bins', ?_, hcount⟩
    rw [← hbins', ← hbins]
    rfl

/-- **What the others are left with**: all they had. -/
theorem updateTables_other {slot : ℕ} (hslot : slot ∉ rows.map (·.slot)) :
    let s' := updateTables numCols rows s
    s'.total slot = s.total slot ∧ s'.computed slot = s.computed slot ∧
    s'.last slot = s.last slot ∧ (∀ p, s'.allIds (slot, p) = s.allIds (slot, p)) ∧
    ∀ v, s'.bins.map (· (slot, v)) = s.bins.map (· (slot, v)) := by
  intro s'
  refine ⟨scatter_of_not_mem hslot, scatter_of_not_mem hslot, scatter_of_not_mem hslot,
    fun p => ?_, fun v => ?_⟩
  · exact (foldl_writeColumn_other s.total (s.allIds, s.bins) hslot numCols p).1
  · exact (foldl_writeColumn_other s.total (s.allIds, s.bins) hslot numCols v).2

/-! ### The batch -/

variable {mapping : List ℤ} {tokens : List (List Token)} {count : List ℕ} {rejected : List ℤ}
  {lens : List ℕ}

/-- The row of a request in the batch. -/
def postRow (mapping : List ℤ) (tokens : List (List Token)) (count : List ℕ)
    (rejected : List ℤ) (lens : List ℕ) (k : ℕ) : PostRow :=
  { slot := (mapping.getD k 0).toNat
    tokens := tokens.getD k []
    count := count.getD k 0
    delta := (lens.getD k 0 : ℤ) - rejected.getD k 0 }

theorem postRow_eq {k c len : ℕ} {slot rej : ℤ} {t : List Token} (hslot : mapping[k]? = some slot)
    (ht : tokens[k]? = some t) (hc : count[k]? = some c) (hrej : rejected[k]? = some rej)
    (hlen : lens[k]? = some len) :
    postRow mapping tokens count rejected lens k = ⟨slot.toNat, t, c, (len : ℤ) - rej⟩ := by
  unfold postRow
  simp only [List.getD_eq_getElem?_getD, hslot, ht, hc, hrej, hlen, Option.getD_some]

theorem postRows_eq (mapping : List ℤ) (tokens : List (List Token)) (count : List ℕ)
    (rejected : List ℤ) (lens : List ℕ) :
    postRows mapping tokens count rejected (some (boundaries lens)) =
      (List.range mapping.length).map (postRow mapping tokens count rejected lens) := by
  unfold postRows
  simp only [Option.map_some, Option.getD_some, diff_boundaries]
  rfl

theorem getD_gather {α : Type} (keep : List ℕ) (l : List α) (default : α) {j : ℕ}
    (hj : j < keep.length) :
    (gather keep l default).getD j default = l.getD (keep.getD j 0) default := by
  unfold gather
  rw [List.getD_eq_getElem _ _ (by simpa using hj), List.getElem_map,
    List.getD_eq_getElem _ _ hj]

/-- **The packed tensors hold the rows that were kept.** -/
theorem postRows_gather (keep : List ℕ) :
    postRows (gather keep mapping 0) (gather keep tokens []) (gather keep count 0)
      (gather keep rejected 0) (some (boundaries (gather keep (diff (boundaries lens)) 0))) =
      keep.map (postRow mapping tokens count rejected lens) := by
  rw [postRows_eq, diff_boundaries]
  have hlen : (gather keep mapping 0).length = keep.length := List.length_map _
  refine List.ext_getElem (by simp [hlen]) fun j hj hj' => ?_
  have hj : j < keep.length := by simpa using hj'
  rw [List.getElem_map, List.getElem_range, List.getElem_map]
  unfold postRow
  rw [getD_gather keep _ _ hj, getD_gather keep _ _ hj, getD_gather keep _ _ hj,
    getD_gather keep _ _ hj, getD_gather keep _ _ hj, List.getD_eq_getElem _ _ hj]

/-- The rows of the requests with a slot. -/
def keptRows (mapping : List ℤ) : List ℕ :=
  (List.range mapping.length).filter fun k => decide (0 ≤ mapping.getD k 0)

/-- **`post_update` updates the tables with the rows of the requests that have a slot.** -/
theorem postUpdate_eq (mapping : List ℤ) (tokens : List (List Token)) (count : List ℕ)
    (rejected : List ℤ) (lens : List ℕ) (s : RequestTables) :
    postUpdate mapping tokens count rejected (some (boundaries lens)) s =
      updateTables (tokens.headD []).length
        ((keptRows mapping).map (postRow mapping tokens count rejected lens)) s ∨
    keptRows mapping = [] ∧
      postUpdate mapping tokens count rejected (some (boundaries lens)) s = s := by
  unfold postUpdate
  dsimp only
  split
  · next hall =>
    left
    have hkept : keptRows mapping = List.range mapping.length := by
      refine List.filter_eq_self.mpr fun k hk => ?_
      have hlt := List.mem_range.mp hk
      rw [List.getD_eq_getElem _ _ hlt]
      exact List.all_eq_true.mp hall _ (List.getElem_mem hlt)
    rw [hkept, postRows_eq]
  · split
    · next hempty => exact .inr ⟨List.isEmpty_iff.mp hempty, rfl⟩
    · left
      rw [Option.map_some, postRows_gather]
      rfl

/-- Distinct slots stay distinct among the rows kept. -/
theorem nodup_keptRows (hslots : (mapping.filter fun slot => decide (0 ≤ slot)).Nodup) :
    (((keptRows mapping).map (postRow mapping tokens count rejected lens)).map (·.slot)).Nodup := by
  rw [List.map_map]
  refine List.Nodup.map_on ?_ (List.Nodup.filter _ List.nodup_range)
  intro i hi j hj heq
  obtain ⟨hi, hipos⟩ := List.mem_filter.mp hi
  obtain ⟨hj, hjpos⟩ := List.mem_filter.mp hj
  have hi := List.mem_range.mp hi
  have hj := List.mem_range.mp hj
  have heq : (mapping.getD i 0).toNat = (mapping.getD j 0).toNat := heq
  have hpairs := List.pairwise_iff_getElem.mp (List.pairwise_filter.mp hslots)
  rw [List.getD_eq_getElem _ _ hi] at hipos heq
  rw [List.getD_eq_getElem _ _ hj] at hjpos heq
  have hsame : mapping[i] = mapping[j] := by
    have := of_decide_eq_true hipos
    have := of_decide_eq_true hjpos
    omega
  rcases Nat.lt_trichotomy i j with hlt | rfl | hlt
  · exact absurd hsame (hpairs i j hi hj hlt hipos hjpos)
  · rfl
  · exact absurd hsame.symm (hpairs j i hj hi hlt hjpos hipos)

/-- **A request that emitted some tokens**: its tables before and after. -/
structure RoundExact (s s' : RequestTables) (slot : ℕ) (emitted : List Token) (delta : ℤ) :
    Prop where
  total : s'.total slot = s.total slot + emitted.length
  computed : s'.computed slot = s.computed slot + delta
  last : s'.last slot = emitted.getLastD (s.last slot)
  allIds : ∀ p, s'.allIds (slot, p) =
    if s.total slot ≤ p ∧ p < s.total slot + emitted.length then
      emitted.getD (p - s.total slot) 0 else s.allIds (slot, p)
  bins : ∀ bins, s.bins = some bins → ∃ bins', s'.bins = some bins' ∧
    ∀ v : ℕ, bins' (slot, v) = bins (slot, v) + (emitted.count (v : ℤ) : ℕ)

/-- Counting tokens by index. -/
theorem countP_getD {l : List Token} (hpos : ∀ t ∈ l, 0 ≤ t) (v : ℕ) :
    ((List.range l.length).countP fun i => decide ((l.getD i 0).toNat = v)) =
      l.count (v : ℤ) := by
  have hread : (List.range l.length).map (fun i => l.getD i 0) = l := by
    refine List.ext_getElem (by simp) fun i hi hi' => ?_
    rw [List.getElem_map, List.getElem_range, List.getD_eq_getElem _ _ hi']
  rw [List.count]
  conv_rhs => rw [← hread, List.countP_map]
  refine List.countP_congr fun i hi => ?_
  have hlt := List.mem_range.mp hi
  have hnonneg : (0 : ℤ) ≤ l.getD i 0 := hpos (l.getD i 0) (by
    rw [List.getD_eq_getElem _ _ hlt]
    exact List.getElem_mem hlt)
  simp only [Function.comp, decide_eq_true_eq, beq_iff_eq]
  omega

theorem roundExact_of_row {given pad : List Token} (hnodup : (rows.map (·.slot)).Nodup)
    (hr : r ∈ rows) (htokens : r.tokens = given ++ pad) (hcount : r.count = given.length)
    (hcols : r.count ≤ numCols) (hpos : ∀ t ∈ given, 0 ≤ t) :
    RoundExact s (updateTables numCols rows s) r.slot given r.delta := by
  obtain ⟨htotal, hcomputed, hlast, hids, hbins⟩ := updateTables_row (s := s) hnodup hr hcols
  have hread : ∀ i < given.length, r.tokens.getD i 0 = given.getD i 0 := by
    intro i hi
    rw [htokens, List.getD_append _ _ _ _ hi]
  rw [hcount] at htotal hlast hbins
  simp only [hcount] at hids
  refine ⟨htotal, hcomputed, ?_, fun p => ?_, fun bins hsome => ?_⟩
  · rw [hlast]
    split
    · next hlt =>
      rw [hread _ (by omega), List.getD_eq_getElem _ _ (by omega), List.getLastD_eq_getLast?,
        List.getLast?_eq_getElem?, List.getElem?_eq_getElem (by omega), Option.getD_some]
    · next hzero =>
      obtain rfl : given = [] := List.length_eq_zero_iff.mp (by omega)
      rfl
  · rw [hids]
    split
    · next hp => exact hread _ (by omega)
    · rfl
  · obtain ⟨bins', hbins', hcount'⟩ := hbins bins hsome
    refine ⟨bins', hbins', fun v => ?_⟩
    rw [hcount', ← countP_getD hpos]
    congr 2
    refine List.countP_congr fun i hi => ?_
    rw [hread i (List.mem_range.mp hi)]

/-- What a request is given by `get_num_sampled_and_rejected`. -/
theorem getNumSampledAndRejected_spec {size : ℕ} {lengths : List ℤ} {widths : List ℕ}
    {prefill : ℕ → ℤ} {i c width : ℕ} {slot len : ℤ} (hc : count[i]? = some c)
    (hlen : lengths[i]? = some len) (hslot : mapping[i]? = some slot)
    (hwidth : widths[i]? = some width) :
    (getNumSampledAndRejected size count lengths (boundaries widths) mapping prefill).1[i]? =
        some (if prefill (wrapIndex size slot) ≤ len then c else 0) ∧
      (getNumSampledAndRejected size count lengths (boundaries widths) mapping prefill).2[i]? =
        some (if prefill (wrapIndex size slot) ≤ len then (width : ℤ) - c else 0) := by
  have hi : i < mapping.length := (List.getElem?_eq_some_iff.mp hslot).1
  unfold getNumSampledAndRejected
  dsimp only
  rw [diff_boundaries]
  have htake : (lengths.take mapping.length)[i]? = some len := by
    rw [List.getElem?_take, if_pos hi, hlen]
  simp only [List.getElem?_zipWith, htake, hslot, hc, hwidth]
  by_cases hactive : prefill (wrapIndex size slot) ≤ len <;> simp [hactive]

end

/-- The emitted tokens are token ids. -/
theorem emitted_nonneg {Logits : Type} {argmax : Logits → ℕ} {logits : List Logits}
    {draftTokens : List Token} {start width : ℕ} (hwidth : 1 ≤ width) :
    ∀ t ∈ emitted argmax logits draftTokens start width, 0 ≤ t := by
  intro t ht
  rw [emitted_eq_take hwidth] at ht
  obtain ⟨col, -, rfl⟩ := List.mem_map.mp (List.mem_of_mem_take ht)
  exact Int.natCast_nonneg _

/-- The tables of a slot, unchanged. -/
structure RoundSame (s s' : RequestTables) (slot : ℕ) : Prop where
  total : s'.total slot = s.total slot
  computed : s'.computed slot = s.computed slot
  last : s'.last slot = s.last slot
  allIds : ∀ p, s'.allIds (slot, p) = s.allIds (slot, p)
  bins : ∀ v, s'.bins.map (· (slot, v)) = s.bins.map (· (slot, v))

/-- **A greedy verification round keeps the tables exact.**  Every request of the batch, in
whatever company, is given the drafts of its own rows that agree with the target, then the
target's own token, and `-1` behind.  A request that reaches its prefill length has these tokens
behind the old ones, and its counts and positions follow; one that does not emits nothing; and
slots that are not in the batch keep what they had. -/
theorem verification_round_exact {Logits : Type} (argmax : Logits → ℕ) (logits : List Logits)
    (draftTokens : List Token) (numSteps size : ℕ) (widths queryLens : List ℕ)
    (lengths mapping : List ℤ) (prefill : ℕ → ℤ) (s : RequestTables)
    (hwidths : ∀ w ∈ widths, 1 ≤ w ∧ w ≤ numSteps + 1) (hrows : widths.sum ≤ logits.length)
    (hslots : (mapping.filter fun slot => decide (0 ≤ slot)).Nodup) :
    let sampled := rejectionSample argmax logits draftTokens (boundaries widths) numSteps
    let counts := getNumSampledAndRejected size (sampled.map (·.2)) lengths (boundaries widths)
      mapping prefill
    let s' := postUpdate mapping (sampled.map (·.1)) counts.1 counts.2
      (some (boundaries queryLens)) s
    (∀ i width, widths[i]? = some width →
      let start := (boundaries widths).getD i 0
      let accepted := acceptedDrafts argmax logits draftTokens start width
      sampled[i]? = some (emitted argmax logits draftTokens start width ++
        List.replicate (numSteps - accepted) (-1), accepted + 1) ∧
      (emitted argmax logits draftTokens start width).length = accepted + 1) ∧
    (∀ i (slot width q : ℕ) (len : ℤ), mapping[i]? = some (slot : ℤ) → widths[i]? = some width →
      queryLens[i]? = some q → lengths[i]? = some len →
      let start := (boundaries widths).getD i 0
      let tokens := emitted argmax logits draftTokens start width
      (prefill slot ≤ len →
        RoundExact s s' slot tokens ((q : ℤ) - ((width : ℤ) - tokens.length)) ∧
        (s.computed slot + q = s.total slot + ((width : ℤ) - 1) →
          s'.computed slot + 1 = s'.total slot)) ∧
      (len < prefill slot → RoundExact s s' slot [] q)) ∧
    ∀ slot : ℕ, (slot : ℤ) ∉ mapping → RoundSame s s' slot := by
  intro sampled counts s'
  have hsampled : ∀ i width, widths[i]? = some width → sampled[i]? =
      some (emitted argmax logits draftTokens ((boundaries widths).getD i 0) width ++
        List.replicate (numSteps - acceptedDrafts argmax logits draftTokens
          ((boundaries widths).getD i 0) width) (-1),
        acceptedDrafts argmax logits draftTokens ((boundaries widths).getD i 0) width + 1) :=
    fun i width hi => rejectionSample_spec hwidths hrows hi
  refine ⟨fun i width hi => ⟨hsampled i width hi,
    length_emitted (hwidths width (List.mem_of_getElem? hi)).1⟩, ?_, ?_⟩
  · intro i slot width q len hslot hwidth hq hlen start tokens
    obtain ⟨hpos, hle⟩ := hwidths width (List.mem_of_getElem? hwidth)
    have hi : i < mapping.length := (List.getElem?_eq_some_iff.mp hslot).1
    have hkept : i ∈ keptRows mapping := by
      refine List.mem_filter.mpr ⟨List.mem_range.mpr hi, ?_⟩
      rw [List.getD_eq_getElem?_getD, hslot]
      simp
    have hs' : s' = updateTables ((sampled.map (·.1)).headD []).length ((keptRows mapping).map
        (postRow mapping (sampled.map (·.1)) counts.1 counts.2 queryLens)) s := by
      rcases postUpdate_eq mapping (sampled.map (·.1)) counts.1 counts.2 queryLens s with h | ⟨h, -⟩
      · exact h
      · rw [h] at hkept
        cases hkept
    have hcols : numSteps + 1 ≤ ((sampled.map (·.1)).headD []).length := by
      cases widths with
      | nil => cases hwidth
      | cons w widths =>
        have hhead := hsampled 0 w rfl
        have hlength := @length_emitted _ argmax logits draftTokens
          ((boundaries (w :: widths)).getD 0 0) w (hwidths w List.mem_cons_self).1
        rw [List.headD_eq_head?_getD, List.head?_map, List.head?_eq_getElem?, hhead,
          Option.map_some, Option.getD_some, List.length_append, hlength, List.length_replicate]
        omega
    have hlength := @length_emitted _ argmax logits draftTokens start width hpos
    have hlt := @acceptedDrafts_lt _ argmax logits draftTokens start width hpos
    have hnodup := @nodup_keptRows mapping (sampled.map (·.1)) counts.1 counts.2 queryLens hslots
    -- the row of the request
    have hcount : (sampled.map (·.2))[i]? =
        some (acceptedDrafts argmax logits draftTokens start width + 1) := by
      rw [List.getElem?_map, hsampled i width hwidth]
      rfl
    obtain ⟨hcounts, hrejected⟩ := @getNumSampledAndRejected_spec mapping _ size lengths widths
      prefill i _ width slot len hcount hlen hslot hwidth
    have hmem := List.mem_map_of_mem (f := postRow mapping (sampled.map (·.1)) counts.1 counts.2
      queryLens) hkept
    have hfits : (emitted argmax logits draftTokens start width).length ≤
        ((sampled.map (·.1)).headD []).length := by omega
    have htokens : (sampled.map (·.1))[i]? = some (tokens ++ List.replicate (numSteps -
        acceptedDrafts argmax logits draftTokens start width) (-1)) := by
      rw [List.getElem?_map, hsampled i width hwidth]
      rfl
    rw [postRow_eq hslot htokens hcounts hrejected hq, wrapIndex_natCast, Int.toNat_natCast,
      ← hlength] at hmem
    refine ⟨fun hactive => ?_, fun hprefill => ?_⟩
    · rw [if_pos hactive, if_pos hactive] at hmem
      have hround : RoundExact s s' slot tokens ((q : ℤ) - ((width : ℤ) - tokens.length)) := by
        rw [hs']
        exact @roundExact_of_row _ _ s _ tokens _ hnodup hmem rfl rfl hfits (emitted_nonneg hpos)
      refine ⟨hround, fun hbefore => ?_⟩
      have htotal := hround.total
      have hcomputed := hround.computed
      rw [htotal, hcomputed]
      push_cast
      omega
    · rw [if_neg (not_le.mpr hprefill), if_neg (not_le.mpr hprefill), Int.sub_zero] at hmem
      rw [hs']
      exact @roundExact_of_row _ _ s _ [] _ hnodup hmem rfl rfl (Nat.zero_le _) nofun
  · intro slot hslot
    rcases postUpdate_eq mapping (sampled.map (·.1)) counts.1 counts.2 queryLens s with h | ⟨-, h⟩
    · have hother : slot ∉ ((keptRows mapping).map (postRow mapping (sampled.map (·.1)) counts.1
          counts.2 queryLens)).map (·.slot) := by
        intro hmem
        obtain ⟨r, hr, rfl⟩ := List.mem_map.mp hmem
        obtain ⟨k, hk, rfl⟩ := List.mem_map.mp hr
        obtain ⟨hk, hpos⟩ := List.mem_filter.mp hk
        have hk := List.mem_range.mp hk
        rw [List.getD_eq_getElem _ _ hk] at hpos
        refine hslot ?_
        unfold postRow
        dsimp only
        rw [List.getD_eq_getElem _ _ hk, Int.toNat_of_nonneg (of_decide_eq_true hpos)]
        exact List.getElem_mem hk
      have hs' : s' = _ := h
      rw [hs']
      obtain ⟨htotal, hcomputed, hlast, hids, hbins⟩ := updateTables_other (s := s) hother
      exact ⟨htotal, hcomputed, hlast, hids, hbins⟩
    · have hs' : s' = s := h
      rw [hs']
      exact ⟨rfl, rfl, rfl, fun _ => rfl, fun _ => rfl⟩

/-- Empty tables, but for a request in slot 3 with nine tokens. -/
def tinyTables : RequestTables where
  computed := fun slot => if slot = 3 then 8 else 0
  last := fun _ => 7
  bins := some fun _ => 0
  allIds := fun _ => 0
  total := fun slot => if slot = 3 then 9 else 0

/-- One request whose only draft is accepted, and a row of no request. -/
theorem verification_round_exact_batch :
    RoundExact tinyTables (postUpdate [3, -1]
      ((rejectionSample id [5, 9, 4] [7, 5, 4] (boundaries [2, 1]) 1).map (·.1))
      (getNumSampledAndRejected 4 ((rejectionSample id [5, 9, 4] [7, 5, 4] (boundaries [2, 1])
        1).map (·.2)) [10, 1] (boundaries [2, 1]) [3, -1] fun _ => 3).1
      (getNumSampledAndRejected 4 ((rejectionSample id [5, 9, 4] [7, 5, 4] (boundaries [2, 1])
        1).map (·.2)) [10, 1] (boundaries [2, 1]) [3, -1] fun _ => 3).2
      (some (boundaries [2, 1])) tinyTables) 3 [5, 9] 2 := by
  have hround := verification_round_exact id [5, 9, 4] [7, 5, 4] 1 4 [2, 1] [2, 1] [10, 1] [3, -1]
    (fun _ => 3) tinyTables (by decide) (by decide) (by decide)
  exact ((hround.2.1 0 3 2 2 10 rfl rfl rfl rfl).1 (by decide)).1

end VllmMetal.PytorchBackend
