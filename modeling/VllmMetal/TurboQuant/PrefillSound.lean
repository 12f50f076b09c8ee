import VllmMetal.Lib.Paged
import VllmMetal.Lib.Ragged
import VllmMetal.TurboQuant.PrefillPlan

/-!
# A TurboQuant prefill plan is sound

The admission keeps one invariant: its bytes are inside the limit, its rows lead to the kernel
blocks of their sequences, and every block it holds is one of those.  The plan reads the invariant
off at the end.

## Main definitions

* `PackedInput` — a batch packed from sequences, with its kernel metadata.
* `Admitted` — the invariant of the admission.
* `PlanSound` — what a plan keeps to.

## Main results

* `selectForPlan_admitted` — the admission keeps the invariant, in both passes.
* `turboquant_prefill_plan_sound` — every plan that is returned is sound.
-/

namespace VllmMetal
namespace TurboQuant

/-- A batch of sequences packed one after the other, with the kernel metadata built from it. -/
structure PackedInput (lens : List ℕ) (p : PlanInput) : Prop where
  cuSeqlens : p.cuSeqlens = boundaries lens
  contextLens : p.contextLens.length = lens.length
  seqLens : p.md.seqLens = p.contextLens
  cuSeqlensQ : p.md.cuSeqlensQ = p.cuSeqlens
  blockSize_pos : 0 < p.md.blockSize
  cacheBlockSize_pos : 0 < p.cacheBlockSize
  dvd : p.md.blockSize ∣ p.cacheBlockSize

section Packed

variable {lens : List ℕ} {p : PlanInput} (h : PackedInput lens p)

include h

/-! ### The batch -/

theorem lengths_eq : p.lengths = lens := by
  rw [PlanInput.lengths, h.cuSeqlens]
  exact map_sub_boundaries lens

theorem ratio_pos : 0 < p.ratio :=
  Nat.div_pos (Nat.le_of_dvd h.cacheBlockSize_pos h.dvd) h.blockSize_pos

theorem blockSize_mul_ratio : p.md.blockSize * p.ratio = p.cacheBlockSize :=
  Nat.mul_div_cancel' h.dvd

theorem bytesPerBlock_pos : 0 < p.bytesPerBlock :=
  Nat.mul_pos h.blockSize_pos (Nat.succ_pos _)

/-- A position of the context is in one of its kernel blocks. -/
theorem div_lt_numBlocks {i pos : ℕ} (hpos : pos < p.contextLens.getD i 0) :
    pos / p.md.blockSize < p.numBlocks i := by
  rw [PlanInput.numBlocks, Nat.div_lt_iff_lt_mul h.blockSize_pos]
  have hsplit := Nat.div_add_mod (p.contextLens.getD i 0 + p.md.blockSize - 1) p.md.blockSize
  have hmod := Nat.mod_lt (p.contextLens.getD i 0 + p.md.blockSize - 1) h.blockSize_pos
  rw [Nat.mul_comm] at hsplit
  omega

/-- The kernel block of a position holds the scheduler's page, at the offset of the position. -/
theorem source_page {i pos : ℕ} :
    p.source i (pos / p.md.blockSize) / p.ratio
      = pageOf p.cacheBlockSize (p.rawBlockTables.getD i []) pos := by
  have hratio := ratio_pos h
  rw [PlanInput.source, Nat.mul_comm, Nat.mul_add_div hratio,
    Nat.div_eq_of_lt (Nat.mod_lt _ hratio), Nat.add_zero, Nat.div_div_eq_div_mul,
    blockSize_mul_ratio h]
  rfl

theorem source_offset {i pos : ℕ} :
    p.source i (pos / p.md.blockSize) % p.ratio * p.md.blockSize + pos % p.md.blockSize
      = pos % p.cacheBlockSize := by
  have hratio := ratio_pos h
  rw [PlanInput.source, Nat.mul_comm _ p.ratio, Nat.mul_add_mod, Nat.mod_mod,
    ← blockSize_mul_ratio h, Nat.mod_mul, Nat.add_comm, Nat.mul_comm p.md.blockSize]

/-- The kernel block of a position is the block of its slot. -/
theorem source_eq_slot {i pos : ℕ} :
    p.source i (pos / p.md.blockSize)
      = cellOf p.cacheBlockSize (p.rawBlockTables.getD i []) pos / p.md.blockSize := by
  have hblock := h.blockSize_pos
  have hcell : cellOf p.cacheBlockSize (p.rawBlockTables.getD i []) pos
      = p.md.blockSize * p.source i (pos / p.md.blockSize) + pos % p.md.blockSize := by
    rw [cellOf, ← source_page h, ← source_offset h, ← blockSize_mul_ratio h]
    conv_rhs => rw [← Nat.div_add_mod (p.source i (pos / p.md.blockSize)) p.ratio]
    ring
  rw [hcell, Nat.mul_add_div hblock, Nat.div_eq_of_lt (Nat.mod_lt _ hblock), Nat.add_zero]

end Packed

/-! ### The invariant of the admission -/

/-- A row of the plan leads to the kernel blocks of its sequence. -/
structure RowOf (p : PlanInput) (blocks : List ℕ) (i : ℕ) (row : List ℕ) : Prop where
  length : row.length = p.numBlocks i
  source : ∀ j, j < p.numBlocks i → ∃ c, row[j]? = some c ∧ blocks[c]? = some (p.source i j)

/-- The invariant of the admission, after the sequences of `done`. -/
structure Admitted (p : PlanInput) (limit : ℤ) (split : Bool) (done : List ℕ) (acc : Selection) :
    Prop where
  ids : acc.prefillIds.Sublist done
  rows : List.Forall₂ (RowOf p acc.sourceBlocks) acc.prefillIds acc.rows
  nodup : acc.sourceBlocks.Nodup
  referenced : ∀ s, s ∈ acc.sourceBlocks ↔
    ∃ i ∈ acc.prefillIds, ∃ j, j < p.numBlocks i ∧ p.source i j = s
  covered : ∀ i ∈ acc.prefillIds,
    p.numBlocks i ≤ (p.rawBlockTables.getD i []).length * p.ratio ∧ p.numBlocks i ≤ acc.tableWidth
  bytes : acc.prefillIds ≠ [] →
    (p.selectionBytes split acc.sourceBlocks.length acc.rows.length acc.tableWidth : ℤ) ≤ limit

/-- More blocks behind the ones a row leads to leave the row right. -/
theorem RowOf.mono {p : PlanInput} {blocks blocks' : List ℕ} {i : ℕ} {row : List ℕ}
    (h : RowOf p blocks i row) (hpre : blocks <+: blocks') : RowOf p blocks' i row := by
  refine ⟨h.length, ?_⟩
  intro j hj
  obtain ⟨c, hc, hblock⟩ := h.source j hj
  exact ⟨c, hc, getElem?_of_prefix hpre hblock⟩

/-- The interned sources of a sequence are a row of it. -/
theorem rowOf_internAll (p : PlanInput) (blocks : List ℕ) (i : ℕ) :
    let interned := internAll blocks ((List.range (p.numBlocks i)).map (p.source i))
    RowOf p interned.1 i interned.2 := by
  intro interned
  refine ⟨by simp [interned], ?_⟩
  intro j hj
  apply exists_code blocks
  rw [List.getElem?_map, List.getElem?_range hj, Option.map_some]

theorem Admitted.init (p : PlanInput) (limit : ℤ) (split : Bool) :
    Admitted p limit split [] Selection.empty where
  ids := List.Sublist.refl []
  rows := List.Forall₂.nil
  nodup := List.nodup_nil
  referenced := by simp [Selection.empty]
  covered := by simp [Selection.empty]
  bytes := by simp [Selection.empty]

/-- A sequence that is skipped leaves the selection alone; one that is admitted brings its row and
its new blocks, inside the limit. -/
theorem selectRow_cases {p : PlanInput} {limit : ℤ} {split : Bool} {acc acc' : Selection} {i : ℕ}
    (hacc : acc.sourceBlocks.Nodup) (h : selectRow p limit split acc i = .ok acc') :
    acc' = acc ∨
      (let interned := internAll acc.sourceBlocks ((List.range (p.numBlocks i)).map (p.source i))
      p.numBlocks i ≤ (p.rawBlockTables.getD i []).length * p.ratio ∧
      acc' = ⟨interned.1, acc.prefillIds ++ [i], acc.rows ++ [interned.2],
        max acc.tableWidth (p.numBlocks i)⟩ ∧
      (p.selectionBytes split acc'.sourceBlocks.length acc'.rows.length acc'.tableWidth : ℤ)
        ≤ limit) := by
  unfold selectRow at h
  by_cases hlimit : max 0 limit / p.bytesPerBlock < p.numBlocks i
  · rw [if_pos hlimit] at h
    cases h
    exact Or.inl rfl
  rw [if_neg hlimit] at h
  unfold PlanInput.sources at h
  by_cases htable : (p.rawBlockTables.getD i []).length * p.ratio < p.numBlocks i
  · rw [if_pos htable] at h
    cases h
  rw [if_neg htable] at h
  dsimp only at h
  rw [← length_internAll hacc] at h
  split_ifs at h with hbytes
  · cases h
    exact Or.inl rfl
  · cases h
    refine Or.inr ⟨not_lt.mp htable, rfl, ?_⟩
    rw [List.length_append]
    exact not_lt.mp hbytes

/-- **One step of the admission keeps the invariant.** -/
theorem Admitted.step {p : PlanInput} {limit : ℤ} {split : Bool} {done : List ℕ}
    {acc acc' : Selection} {i : ℕ} (h : Admitted p limit split done acc)
    (hstep : selectRow p limit split acc i = .ok acc') :
    Admitted p limit split (done ++ [i]) acc' := by
  rcases selectRow_cases h.nodup hstep with rfl | ⟨hcovered, rfl, hbytes⟩
  · exact { h with ids := h.ids.trans (List.sublist_append_left done [i]) }
  -- the request is admitted, and its pages are interned behind those that are
  · set interned := internAll acc.sourceBlocks ((List.range (p.numBlocks i)).map (p.source i))
    have hpre : acc.sourceBlocks <+: interned.1 := prefix_internAll _ _
    constructor
    case ids => exact h.ids.append (List.Sublist.refl [i])
    case rows =>
      apply List.rel_append
      · exact h.rows.imp fun _ _ hrow => hrow.mono hpre
      · exact List.Forall₂.cons (rowOf_internAll p acc.sourceBlocks i) List.Forall₂.nil
    case nodup => exact nodup_internAll h.nodup _
    case referenced =>
      intro s
      show s ∈ interned.1 ↔ ∃ i' ∈ acc.prefillIds ++ [i], _
      rw [mem_internAll, h.referenced s]
      simp only [List.mem_append, List.mem_singleton, List.mem_map, List.mem_range]
      constructor
      · rintro (⟨i', hi', hs⟩ | ⟨j, hj, hs⟩)
        · exact ⟨i', Or.inl hi', hs⟩
        · exact ⟨i, Or.inr rfl, j, hj, hs⟩
      · rintro ⟨i', hi' | rfl, hs⟩
        · exact Or.inl ⟨i', hi', hs⟩
        · exact Or.inr hs
    case covered =>
      intro i' hi'
      rcases List.mem_append.mp hi' with hi' | hi'
      · obtain ⟨htable, hwidth⟩ := h.covered i' hi'
        exact ⟨htable, hwidth.trans (le_max_left _ _)⟩
      · rw [List.mem_singleton] at hi'
        subst hi'
        exact ⟨hcovered, le_max_right _ _⟩
    case bytes => exact fun _ => hbytes

/-- **The whole admission keeps it.** -/
theorem selectRows_admitted {p : PlanInput} {limit : ℤ} {split : Bool} {sel : Selection}
    (h : selectRows p limit split = .ok sel) : Admitted p limit split p.candidates sel :=
  foldlM_ok_induction (fun _ _ _ _ hacc hstep => hacc.step hstep) h (Admitted.init p limit split)

/-! ### Both passes -/

theorem candidates_sublist (p : PlanInput) : p.candidates.Sublist (List.range p.lengths.length) :=
  List.filter_sublist

theorem Admitted.ids_sublist {p : PlanInput} {limit : ℤ} {split : Bool} {sel : Selection}
    (h : Admitted p limit split p.candidates sel) :
    sel.prefillIds.Sublist (List.range p.lengths.length) := h.ids.trans (candidates_sublist p)

theorem Admitted.length_ids_le {p : PlanInput} {limit : ℤ} {split : Bool} {sel : Selection}
    (h : Admitted p limit split p.candidates sel) : sel.prefillIds.length ≤ p.lengths.length := by
  have hlen := h.ids_sublist.length_le
  rwa [List.length_range] at hlen

/-- The bytes of a plan: what was selected, and with sequences left behind the split. -/
def planBytes (p : PlanInput) (sel : Selection) : ℕ :=
  p.selectionBytes false sel.sourceBlocks.length sel.rows.length sel.tableWidth +
    if sel.prefillIds.length = p.lengths.length then 0
    else p.routing + p.splitBytes (p.lengths.length - sel.rows.length)

/-- A selection with the split reserved fits with the split paid for. -/
theorem planBytes_le_of_split {p : PlanInput} {limit : ℤ} {sel : Selection}
    (h : Admitted p (limit - p.routing) true p.candidates sel) (hne : sel.prefillIds ≠ []) :
    (planBytes p sel : ℤ) ≤ limit := by
  have hbytes := h.bytes hne
  simp only [PlanInput.selectionBytes, if_true] at hbytes
  simp only [planBytes, PlanInput.selectionBytes, Bool.false_eq_true, if_false, Nat.add_zero]
  split_ifs <;> push_cast at hbytes ⊢ <;> omega

/-- **Both passes keep the invariant, and the plan fits the limit.** -/
theorem selectForPlan_admitted {p : PlanInput} {sel : Selection} (h : selectForPlan p = .ok sel)
    (hne : sel.prefillIds ≠ []) :
    (∃ limit split, Admitted p limit split p.candidates sel) ∧
      planBytes p sel ≤ p.md.tqPrefillWorkspaceBytes := by
  unfold selectForPlan at h
  obtain ⟨first, hfirst, h⟩ := except_bind_ok h
  have hadmitted := selectRows_admitted hfirst
  have hle := hadmitted.length_ids_le
  split_ifs at h with hagain
  · -- the second pass reserves the split
    have hsecond := selectRows_admitted h
    exact ⟨⟨_, _, hsecond⟩, by exact_mod_cast planBytes_le_of_split hsecond hne⟩
  · cases h
    refine ⟨⟨_, _, hadmitted⟩, ?_⟩
    by_cases hmust : p.candidates.length < p.lengths.length
    · rw [decide_eq_true hmust, if_pos rfl] at hadmitted
      exact_mod_cast planBytes_le_of_split hadmitted hne
    · -- nothing was left behind, so there is no split to pay for
      rw [decide_eq_false hmust, if_neg Bool.false_ne_true, sub_zero] at hadmitted
      have hpos : 0 < sel.prefillIds.length := List.length_pos_of_ne_nil hne
      have hall : sel.prefillIds.length = p.lengths.length := by
        by_contra hless
        exact hagain ⟨decide_eq_false hmust, hpos, lt_of_le_of_ne hle hless⟩
      have hbytes := hadmitted.bytes hne
      rw [planBytes, if_pos hall, Nat.add_zero]
      exact_mod_cast hbytes

/-! ### Sequences admitted and left behind -/

/-- The sequences left behind. -/
def fallbackOf (p : PlanInput) (sel : Selection) : List ℕ :=
  (List.range p.lengths.length).filter (· ∉ sel.prefillIds)

/-- A sublist of distinct entries and the rest are a partition. -/
theorem perm_append_filter_not_mem {l ids : List ℕ} (hnodup : l.Nodup) (hsub : ids.Sublist l) :
    (ids ++ l.filter (· ∉ ids)).Perm l := by
  have hids : ids.Nodup := hnodup.sublist hsub
  have hdisjoint : (ids ++ l.filter (· ∉ ids)).Nodup := by
    rw [List.nodup_append]
    refine ⟨hids, hnodup.filter _, ?_⟩
    rintro a ha b hb rfl
    simp [ha] at hb
  rw [List.perm_ext_iff_of_nodup hdisjoint hnodup]
  intro a
  simp only [List.mem_append, List.mem_filter, decide_eq_true_eq]
  constructor
  · rintro (ha | ⟨ha, -⟩)
    · exact hsub.subset ha
    · exact ha
  · intro ha
    by_cases hmem : a ∈ ids
    · exact Or.inl hmem
    · exact Or.inr ⟨ha, hmem⟩

section Partition

variable {p : PlanInput} {limit : ℤ} {split : Bool} {sel : Selection}
  (h : Admitted p limit split p.candidates sel)

include h

theorem Admitted.partition :
    (sel.prefillIds ++ fallbackOf p sel).Perm (List.range p.lengths.length) :=
  perm_append_filter_not_mem List.nodup_range h.ids_sublist

theorem Admitted.length_fallback :
    (fallbackOf p sel).length = p.lengths.length - sel.rows.length := by
  have hlen := h.partition.length_eq
  rw [List.length_append, List.length_range, h.rows.length_eq] at hlen
  omega

/-- With nothing left behind, the batch is in its order. -/
theorem Admitted.ids_eq_range (hnone : fallbackOf p sel = []) :
    sel.prefillIds = List.range p.lengths.length := by
  have hlen := h.partition.length_eq
  rw [hnone, List.append_nil, List.length_range] at hlen
  exact h.ids_sublist.eq_of_length (by rw [hlen, List.length_range])

theorem Admitted.fallback_eq_nil_iff :
    fallbackOf p sel = [] ↔ sel.prefillIds.length = p.lengths.length := by
  have hlen := h.length_fallback
  have hle := h.length_ids_le
  rw [← h.rows.length_eq] at hlen
  rw [← List.length_eq_zero_iff, hlen]
  omega

end Partition

/-- Entries of related lists at one place are related. -/
theorem getElem?_forall₂ {α β : Type*} {R : α → β → Prop} {l : List α} {l' : List β}
    (h : List.Forall₂ R l l') {k : ℕ} {a : α} (ha : l[k]? = some a) :
    ∃ b, l'[k]? = some b ∧ R a b := by
  induction h generalizing k with
  | nil => simp at ha
  | cons hab _ ih =>
    cases k with
    | zero =>
      rw [List.getElem?_cons_zero, Option.some.injEq] at ha
      subst ha
      exact ⟨_, rfl, hab⟩
    | succ k => exact ih ha

theorem exists_of_mem_forall₂ {α β : Type*} {R : α → β → Prop} {l : List α} {l' : List β}
    (h : List.Forall₂ R l l') {b : β} (hb : b ∈ l') : ∃ a ∈ l, R a b := by
  obtain ⟨k, hk⟩ := List.mem_iff_getElem?.mp hb
  obtain ⟨a, ha, hab⟩ := getElem?_forall₂ h.flip hk
  exact ⟨a, List.mem_of_getElem? ha, hab⟩

/-! ### Query rows -/

theorem queryRows_eq_segmentRows {lens : List ℕ} {p : PlanInput} (h : PackedInput lens p) {i : ℕ}
    (hi : i < lens.length) :
    p.queryRows i = segmentRows (boundaries lens) (List.range lens.sum) i := by
  have hmono := getD_boundaries_mono (Nat.succ_le_of_lt hi) (Nat.le_refl lens.length)
  rw [getD_boundaries (Nat.le_refl _), List.take_length] at hmono
  rw [PlanInput.queryRows, h.cuSeqlens, segmentRows, List.range_eq_range', List.drop_range',
    List.take_range'_of_length_ge (Nat.sub_le_sub_right hmono _), Nat.zero_add, Nat.mul_one]

/-- All sequences together have all rows, in order. -/
theorem flatMap_queryRows {lens : List ℕ} {p : PlanInput} (h : PackedInput lens p) :
    (List.range lens.length).flatMap p.queryRows = List.range lens.sum := by
  have hrows : ∀ i ∈ List.range lens.length,
      p.queryRows i = segmentRows (boundaries lens) (List.range lens.sum) i := by
    intro i hi
    exact queryRows_eq_segmentRows h (List.mem_range.mp hi)
  rw [List.flatMap_congr hrows]
  exact flatMap_segmentRows List.length_range

/-- The rows of the sequences of a partition are all rows, once. -/
theorem queryOrder_perm {lens : List ℕ} {p : PlanInput} (h : PackedInput lens p)
    {ids rest : List ℕ} (hperm : (ids ++ rest).Perm (List.range lens.length)) :
    (ids.flatMap p.queryRows ++ rest.flatMap p.queryRows).Perm (List.range lens.sum) := by
  rw [← List.flatMap_append, ← flatMap_queryRows h]
  exact hperm.flatMap_right _

/-- Rows restored from an order that has every row once are where they were. -/
theorem restore_order {order : List ℕ} {n : ℕ} (hperm : order.Perm (List.range n)) {q : ℕ}
    (hq : q < n) :
    ∃ k, (scatterRows (List.replicate order.length 0) order (List.range order.length))[q]? =
      some k ∧
      order[k]? = some q := by
  have hmem : q ∈ order := hperm.mem_iff.mpr (List.mem_range.mpr hq)
  obtain ⟨k, hk⟩ := List.mem_iff_getElem?.mp hmem
  have hnodup : order.Nodup := hperm.nodup_iff.mpr List.nodup_range
  have hlt : k < order.length := (List.getElem?_eq_some_iff.mp hk).1
  have hlen : order.length = n := by rw [hperm.length_eq, List.length_range]
  refine ⟨k, ?_, hk⟩
  apply getElem?_scatterRows hnodup hk
  · exact List.getElem?_range hlt
  · rw [List.length_replicate, hlen]
    exact hq

/-! ### What a plan keeps to -/

/-- The metadata of some sequences of a batch. -/
structure BatchOf (lens : List ℕ) (p : PlanInput) (ids : List ℕ) (batch : AttentionBatch) :
    Prop where
  /-- Its query rows, all of them where none are picked. -/
  rows : batch.queryIndices.getD (List.range lens.sum) = ids.flatMap p.queryRows
  seqLens : batch.seqLens = ids.map fun i => p.contextLens.getD i 0
  cuSeqlensQ : batch.cuSeqlensQ = boundaries (ids.map fun i => lens.getD i 0)

/-- What a plan keeps to, with the sequences it admitted and those it left behind. -/
structure PlanSound (lens : List ℕ) (p : PlanInput) (ids rest : List ℕ) (plan : PrefillPlan) :
    Prop where
  bytes_le : plan.workspaceBytes ≤ p.md.tqPrefillWorkspaceBytes
  /-- The gathered pages, the padded tables, and with a split its copies and metadata. -/
  bytes_eq : plan.workspaceBytes =
    plan.poolPages.length * prefillBytesPerToken p.geometry +
      (plan.prefill.blockTables.map List.length).sum * 4 +
      if rest = [] then 0
      else routingBytes p.geometry lens.sum +
        splitMetadataBytes lens.length rest.length p.fallbackWidth
  partition : (ids ++ rest).Perm (List.range lens.length)
  threshold : ∀ i ∈ ids, p.minTokens.getD i 0 ≤ lens.getD i 0
  prefill : BatchOf lens p ids plan.prefill
  fallback_none : rest = [] → plan.fallback = none ∧ plan.restoreIndices = none ∧
    ids.flatMap p.queryRows = List.range lens.sum
  fallback_some : rest ≠ [] → ∃ batch restore, plan.fallback = some batch ∧
    plan.restoreIndices = some restore ∧ BatchOf lens p rest batch ∧
    (let order := ids.flatMap p.queryRows ++ rest.flatMap p.queryRows
    order.Perm (List.range lens.sum) ∧ restore.length = lens.sum ∧
      ∀ q, q < lens.sum → ∃ k, restore[q]? = some k ∧ order[k]? = some q)
  /-- A position reached through the plan is in the page and at the offset of its slot. -/
  address : ∀ k i : ℕ, ids[k]? = some i → ∀ pos, pos < p.contextLens.getD i 0 →
    ∃ row c page, plan.prefill.blockTables[k]? = some row ∧ row[pos / p.md.blockSize]? = some c ∧
      (p.rawBlockTables.getD i [])[pos / p.cacheBlockSize]? = some page ∧
      plan.poolPages[c * p.md.blockSize + pos % p.md.blockSize]? = some page ∧
      plan.poolOffsets[c * p.md.blockSize + pos % p.md.blockSize]? = some (pos % p.cacheBlockSize)
  /-- Every referenced kernel block is gathered once. -/
  gathered : ∃ blocks : List ℕ, blocks.Nodup ∧
    plan.poolPages = (blocks.flatMap fun b => List.replicate p.md.blockSize (b / p.ratio)) ∧
    plan.poolOffsets = (blocks.flatMap fun b =>
      (List.range p.md.blockSize).map fun t => b % p.ratio * p.md.blockSize + t) ∧
    ∀ s, s ∈ blocks ↔ ∃ i ∈ ids, ∃ pos, pos < p.contextLens.getD i 0 ∧
      cellOf p.cacheBlockSize (p.rawBlockTables.getD i []) pos / p.md.blockSize = s

section Sound

variable {lens : List ℕ} {p : PlanInput} (h : PackedInput lens p)

include h

/-- The metadata built for a split batch is that of its sequences. -/
theorem batchOf_split (ids : List ℕ) (tables : List (List ℕ)) :
    BatchOf lens p ids (attentionBatch p false ids tables) := by
  refine ⟨rfl, rfl, ?_⟩
  show ids.foldl (fun cu i => cu ++ [cu.getLastD 0 + p.lengths.getD i 0]) [0] = _
  rw [← foldl_eq_boundaries, List.foldl_map, lengths_eq h]

/-- The metadata of the whole batch is that of all sequences. -/
theorem batchOf_whole (tables : List (List ℕ)) :
    BatchOf lens p (List.range lens.length)
      (attentionBatch p true (List.range lens.length) tables) := by
  refine ⟨(flatMap_queryRows h).symm, ?_, ?_⟩
  · rw [map_getD_range _ 0 h.contextLens]
    exact h.seqLens
  · rw [map_getD_range lens 0 rfl]
    exact h.cuSeqlensQ.trans h.cuSeqlens

omit h in
theorem length_poolPages (p : PlanInput) (sel : Selection) :
    (planOfSelection p sel).poolPages.length = sel.sourceBlocks.length * p.md.blockSize := by
  show (sel.sourceBlocks.flatMap fun b => List.replicate p.md.blockSize (b / p.ratio)).length = _
  rw [List.length_flatMap, List.map_congr_left fun b _ => List.length_replicate, List.map_const',
    List.sum_replicate_nat]

omit h in
theorem blockTables_planOfSelection (p : PlanInput) (sel : Selection) :
    (planOfSelection p sel).prefill.blockTables
      = sel.rows.map fun row => row ++ List.replicate (sel.tableWidth - row.length) 0 := by
  show (attentionBatch p _ _ _).blockTables = _
  unfold attentionBatch
  split_ifs <;> rfl

omit h in
/-- The plan with nothing left behind. -/
theorem planOfSelection_whole {p : PlanInput} {sel : Selection} (hnone : fallbackOf p sel = []) :
    (∃ tables, (planOfSelection p sel).prefill = attentionBatch p true sel.prefillIds tables) ∧
      (planOfSelection p sel).fallback = none ∧ (planOfSelection p sel).restoreIndices = none ∧
      (planOfSelection p sel).workspaceBytes =
        sel.sourceBlocks.length * p.bytesPerBlock + sel.rows.length * sel.tableWidth * 4 := by
  have hfilter : (List.range p.lengths.length).filter (· ∉ sel.prefillIds) = [] := hnone
  simp only [planOfSelection, hfilter, List.isEmpty_nil, if_true, Nat.add_zero]
  exact ⟨⟨_, rfl⟩, trivial, trivial, trivial⟩

omit h in
/-- The plan of a split batch. -/
theorem planOfSelection_split {p : PlanInput} {sel : Selection} (hsome : fallbackOf p sel ≠ []) :
    let order := sel.prefillIds.flatMap p.queryRows ++ (fallbackOf p sel).flatMap p.queryRows
    (∃ tables, (planOfSelection p sel).prefill = attentionBatch p false sel.prefillIds tables) ∧
      (∃ tables, (planOfSelection p sel).fallback
        = some (attentionBatch p false (fallbackOf p sel) tables)) ∧
      (planOfSelection p sel).restoreIndices = some
        (scatterRows (List.replicate order.length 0) order (List.range order.length)) ∧
      (planOfSelection p sel).workspaceBytes =
        sel.sourceBlocks.length * p.bytesPerBlock + sel.rows.length * sel.tableWidth * 4 +
          (p.routing + p.splitBytes (fallbackOf p sel).length) := by
  have hwhole : ((List.range p.lengths.length).filter (· ∉ sel.prefillIds)).isEmpty = false := by
    rw [List.isEmpty_eq_false_iff]
    exact hsome
  simp only [planOfSelection, hwhole, Bool.false_eq_true, if_false]
  exact ⟨⟨_, rfl⟩, ⟨_, rfl⟩, rfl, rfl⟩

/-- The kernel blocks below the count of a sequence are those of its positions. -/
theorem exists_source_iff {i s : ℕ} :
    (∃ j, j < p.numBlocks i ∧ p.source i j = s) ↔
      ∃ pos, pos < p.contextLens.getD i 0 ∧
        cellOf p.cacheBlockSize (p.rawBlockTables.getD i []) pos / p.md.blockSize = s := by
  have hblock := h.blockSize_pos
  constructor
  · rintro ⟨j, hj, rfl⟩
    refine ⟨j * p.md.blockSize, ?_, ?_⟩
    · rw [PlanInput.numBlocks, Nat.lt_div_iff_mul_lt hblock] at hj
      have := Nat.mul_comm j p.md.blockSize
      omega
    · rw [← source_eq_slot h, Nat.mul_div_cancel _ hblock]
  · rintro ⟨pos, hpos, rfl⟩
    exact ⟨pos / p.md.blockSize, div_lt_numBlocks h hpos, source_eq_slot h⟩

variable {limit : ℤ} {split : Bool} {sel : Selection}
  (hsel : Admitted p limit split p.candidates sel)

include hsel

omit h in
/-- The padded tables are as wide as the widest row. -/
theorem tables_bytes :
    ((planOfSelection p sel).prefill.blockTables.map List.length).sum * 4
      = sel.rows.length * sel.tableWidth * 4 := by
  have hwidth : ∀ row ∈ sel.rows,
      (row ++ List.replicate (sel.tableWidth - row.length) 0).length = sel.tableWidth := by
    intro row hrow
    obtain ⟨i, hi, hrowOf⟩ := exists_of_mem_forall₂ hsel.rows hrow
    have hlen := (hsel.covered i hi).2
    rw [← hrowOf.length] at hlen
    rw [List.length_append, List.length_replicate]
    omega
  rw [blockTables_planOfSelection, List.map_map]
  show (sel.rows.map fun row => (row ++ List.replicate _ 0).length).sum * 4 = _
  rw [List.map_congr_left hwidth, List.map_const', List.sum_replicate_nat]

/-- A position of an admitted sequence is reached in the page and at the offset of its slot. -/
theorem admitted_address {k i pos : ℕ} (hk : sel.prefillIds[k]? = some i)
    (hpos : pos < p.contextLens.getD i 0) :
    ∃ row c page, (planOfSelection p sel).prefill.blockTables[k]? = some row ∧
      row[pos / p.md.blockSize]? = some c ∧
      (p.rawBlockTables.getD i [])[pos / p.cacheBlockSize]? = some page ∧
      (planOfSelection p sel).poolPages[c * p.md.blockSize + pos % p.md.blockSize]? = some page ∧
      (planOfSelection p sel).poolOffsets[c * p.md.blockSize + pos % p.md.blockSize]?
        = some (pos % p.cacheBlockSize) := by
  have hblock := h.blockSize_pos
  have hratio := ratio_pos h
  have hj := div_lt_numBlocks h hpos
  have hmod : pos % p.md.blockSize < p.md.blockSize := Nat.mod_lt _ hblock
  obtain ⟨row, hrow, hrowOf⟩ := getElem?_forall₂ hsel.rows hk
  obtain ⟨c, hc, hsource⟩ := hrowOf.source _ hj
  -- the raw table holds the page, or admission would have raised
  have hpage : pos / p.cacheBlockSize < (p.rawBlockTables.getD i []).length := by
    have hcovered := (hsel.covered i (List.mem_of_getElem? hk)).1
    rw [← blockSize_mul_ratio h, ← Nat.div_div_eq_div_mul, Nat.div_lt_iff_lt_mul hratio]
    exact hj.trans_le hcovered
  have hpageOf : (p.rawBlockTables.getD i [])[pos / p.cacheBlockSize]?
      = some (pageOf p.cacheBlockSize (p.rawBlockTables.getD i []) pos) := by
    rw [pageOf, List.getD_eq_getElem _ _ hpage, List.getElem?_eq_getElem hpage]
  have htables : (planOfSelection p sel).prefill.blockTables[k]?
      = some (row ++ List.replicate (sel.tableWidth - row.length) 0) := by
    rw [blockTables_planOfSelection, List.getElem?_map, hrow, Option.map_some]
  refine ⟨_, c, _, htables, getElem?_of_prefix (List.prefix_append _ _) hc, hpageOf, ?_, ?_⟩
  · show (sel.sourceBlocks.flatMap fun b => List.replicate _ (b / p.ratio))[_]? = _
    rw [getElem?_flatMap_of_length (fun b => List.length_replicate) hsource hmod,
      List.getElem?_replicate_of_lt hmod, source_page h]
  · show (sel.sourceBlocks.flatMap fun b => (List.range _).map _)[_]? = _
    rw [getElem?_flatMap_of_length (fun b => by rw [List.length_map, List.length_range]) hsource
      hmod, List.getElem?_map, List.getElem?_range hmod, Option.map_some, source_offset h]

/-- **The plan of an admission inside the limit is sound.** -/
theorem planOfSelection_sound (hbytes : planBytes p sel ≤ p.md.tqPrefillWorkspaceBytes) :
    PlanSound lens p sel.prefillIds (fallbackOf p sel) (planOfSelection p sel) := by
  have hlens : p.lengths = lens := lengths_eq h
  have hpartition := hsel.partition
  rw [hlens] at hpartition
  have horder := queryOrder_perm h hpartition
  have hrouting : p.routing = routingBytes p.geometry lens.sum := by
    rw [PlanInput.routing, h.cuSeqlens, getLastD_boundaries]
  -- the bytes that are counted for the gather are the bytes of its pages
  have hgathered : (planOfSelection p sel).poolPages.length * prefillBytesPerToken p.geometry
      = sel.sourceBlocks.length * p.bytesPerBlock := by
    rw [length_poolPages, PlanInput.bytesPerBlock, Nat.mul_assoc]
  -- the bytes of the plan are those it was admitted with
  have hsame : (planOfSelection p sel).workspaceBytes = planBytes p sel := by
    unfold planBytes PlanInput.selectionBytes
    by_cases hnone : fallbackOf p sel = []
    · rw [(planOfSelection_whole hnone).2.2.2, if_pos (hsel.fallback_eq_nil_iff.mp hnone),
        if_neg Bool.false_ne_true]
      rfl
    · rw [(planOfSelection_split hnone).2.2.2, if_neg (mt hsel.fallback_eq_nil_iff.mpr hnone),
        if_neg Bool.false_ne_true, hsel.length_fallback]
      rfl
  constructor
  -- by parts, each with all requests admitted and with some left to the fallback
  case bytes_le =>
    rw [hsame]
    exact hbytes
  case bytes_eq =>
    rw [hgathered, tables_bytes hsel]
    by_cases hnone : fallbackOf p sel = []
    · rw [(planOfSelection_whole hnone).2.2.2, if_pos hnone]
      rfl
    · rw [(planOfSelection_split hnone).2.2.2, if_neg hnone, hrouting, PlanInput.splitBytes, hlens]
  case partition => exact hpartition
  case threshold =>
    intro i hi
    have hcandidate := (List.mem_filter.mp (hsel.ids.subset hi)).2
    rw [hlens] at hcandidate
    exact of_decide_eq_true hcandidate
  case prefill =>
    by_cases hnone : fallbackOf p sel = []
    · obtain ⟨⟨tables, hprefill⟩, -⟩ := planOfSelection_whole hnone
      rw [hprefill, hsel.ids_eq_range hnone, hlens]
      exact batchOf_whole h tables
    · obtain ⟨⟨tables, hprefill⟩, -⟩ := planOfSelection_split hnone
      rw [hprefill]
      exact batchOf_split h _ tables
  case fallback_none =>
    intro hnone
    obtain ⟨-, hfallback, hrestore, -⟩ := planOfSelection_whole hnone
    refine ⟨hfallback, hrestore, ?_⟩
    rw [hsel.ids_eq_range hnone, hlens]
    exact flatMap_queryRows h
  case fallback_some =>
    intro hsome
    obtain ⟨-, ⟨tables, hfallback⟩, hrestore, -⟩ := planOfSelection_split hsome
    refine ⟨_, _, hfallback, hrestore, batchOf_split h _ tables, horder, ?_, ?_⟩
    · rw [length_scatterRows, List.length_replicate, horder.length_eq, List.length_range]
    · exact fun q hq => restore_order horder hq
  case address => exact fun k i hk pos hpos => admitted_address h hsel hk hpos
  case gathered =>
    refine ⟨sel.sourceBlocks, hsel.nodup, rfl, rfl, ?_⟩
    intro s
    rw [hsel.referenced s]
    simp only [exists_source_iff h]

end Sound

/-! ### The memos of a forward -/

/-- One forward and cache group: packed sequences, and the kernel metadata built from them. -/
structure PackedForward where
  lens : List ℕ
  contextLens : List ℕ
  md : KernelMetadata
  rawBlockTables : List (List ℕ)
  cacheBlockSize : ℕ
  contextLens_length : contextLens.length = lens.length
  seqLens_eq : md.seqLens = contextLens
  cuSeqlensQ_eq : md.cuSeqlensQ = boundaries lens
  blockSize_pos : 0 < md.blockSize
  cacheBlockSize_pos : 0 < cacheBlockSize
  dvd : md.blockSize ∣ cacheBlockSize

namespace PackedForward

variable (b : PackedForward)

/-- What the plan of a layer is computed from. -/
def input (g : HeadGeometry) (f : KvFormat) : PlanInput :=
  ⟨b.contextLens, boundaries b.lens, b.md, b.rawBlockTables, b.cacheBlockSize, g,
    thresholds b.contextLens g f⟩

theorem packedInput (g : HeadGeometry) (f : KvFormat) : PackedInput b.lens (b.input g f) :=
  ⟨rfl, b.contextLens_length, b.seqLens_eq, b.cuSeqlensQ_eq, b.blockSize_pos, b.cacheBlockSize_pos,
    b.dvd⟩

/-- The memos hold what this forward computed. -/
structure MemoSound (memo : PlanMemo) : Prop where
  plans : ∀ key plan, memo.prefillPlans.get? key = some plan →
    freshPlan (inputOf b.contextLens (boundaries b.lens) b.md b.rawBlockTables key) = .ok plan
  minTokens : ∀ g f ts, memo.minTokens.get? (g, f) = some ts → ts = thresholds b.contextLens g f

theorem memoSound_empty : b.MemoSound ⟨∅, ∅⟩ := by
  constructor
  · intro key plan hplan
    rw [Dict.get?_empty] at hplan
    cases hplan
  · intro g f ts hts
    rw [Dict.get?_empty] at hts
    cases hts

/-- **A layer gets the plan that would be computed afresh**, and leaves the memos sound for the next
one. -/
theorem plan_fresh {g : HeadGeometry} {f : KvFormat} {memo memo' : PlanMemo}
    {plan : Option PrefillPlan} (hmemo : b.MemoSound memo)
    (h : turboquantPrefillPlan b.contextLens (some (boundaries b.lens)) b.md b.rawBlockTables
      b.cacheBlockSize g f memo = .ok (plan, memo')) :
    (b.md.tqPrefillWorkspaceBytes = 0 ∧ plan = none ∨ freshPlan (b.input g f) = .ok plan) ∧
      b.MemoSound memo' := by
  unfold turboquantPrefillPlan at h
  split_ifs at h with hlimit
  · cases h
    exact ⟨Or.inl ⟨hlimit, rfl⟩, hmemo⟩
  -- the thresholds come out the same from the memo
  have hthresholds : (memo.minTokens.get? (g, f)).getD (thresholds b.contextLens g f)
      = thresholds b.contextLens g f := by
    cases hget : memo.minTokens.get? (g, f) with
    | none => rfl
    | some ts => exact hmemo.minTokens g f ts hget
  have hset : b.MemoSound { memo with
      minTokens := memo.minTokens.setDefault (g, f) (thresholds b.contextLens g f) } := by
    refine ⟨hmemo.plans, ?_⟩
    intro g' f' ts hts
    rw [Dict.get?_setDefault] at hts
    split_ifs at hts with hkey
    · obtain ⟨rfl, rfl⟩ := Prod.mk.inj hkey
      cases hts
      exact hthresholds
    · exact hmemo.minTokens g' f' ts hts
  dsimp only at h
  rw [hthresholds] at h
  -- a plan of the memo is the one that would be computed
  cases hget : memo.prefillPlans.get? ⟨b.cacheBlockSize, g, b.md.tqPrefillWorkspaceBytes,
      thresholds b.contextLens g f⟩ with
  | some found =>
    rw [hget] at h
    cases h
    exact ⟨Or.inr (hmemo.plans _ _ hget), hset⟩
  | none =>
    rw [hget] at h
    have hinput : inputOf b.contextLens (boundaries b.lens) b.md b.rawBlockTables
        ⟨b.cacheBlockSize, g, b.md.tqPrefillWorkspaceBytes, thresholds b.contextLens g f⟩
        = b.input g f := rfl
    dsimp only at h
    rw [hinput] at h
    cases hfresh : freshPlan (b.input g f) with
    | error e =>
      rw [hfresh] at h
      cases h
    | ok computed =>
      rw [hfresh] at h
      cases h
      -- and so is what the memo has gained
      refine ⟨Or.inr rfl, ?_, hset.minTokens⟩
      intro key found hfound
      dsimp only at hfound
      rw [Dict.get?_set] at hfound
      split_ifs at hfound with hkey
      · cases hfound
        rw [hkey]
        exact hfresh
      · exact hmemo.plans key found hfound

end PackedForward

/-- Eight query heads and two key heads of 128. -/
def smallGeometry : HeadGeometry := ⟨8, 2, 128, by decide⟩

/-- A chunk of 128 rows and a decode row, sharing a page of 16 that splits in two. -/
def sharedForward : PackedForward where
  lens := [128, 1]
  contextLens := [136, 20]
  md := ⟨[136, 20], [0, 128, 129], [List.range 18, [0, 1, 20, 21]], 8, 136, 2 ^ 24⟩
  rawBlockTables := [List.range 9, [0, 10]]
  cacheBlockSize := 16
  contextLens_length := rfl
  seqLens_eq := rfl
  cuSeqlensQ_eq := rfl
  blockSize_pos := by decide
  cacheBlockSize_pos := by decide
  dvd := ⟨2, rfl⟩

/-- The plan of the forward for eight-bit keys and three-bit values, with empty memos. -/
def sharedPlan : Except PrefillPlanError (Option PrefillPlan × PlanMemo) :=
  turboquantPrefillPlan sharedForward.contextLens (some (boundaries sharedForward.lens))
    sharedForward.md sharedForward.rawBlockTables sharedForward.cacheBlockSize smallGeometry
    ⟨some .q8_0, some 3⟩ ⟨∅, ∅⟩

end TurboQuant
end VllmMetal
