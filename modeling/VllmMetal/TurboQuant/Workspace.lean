import VllmMetal.Attention.Addressing
import VllmMetal.Lib.FoldMax
import VllmMetal.TurboQuant.PrefillSound
import Mathlib.Algebra.Group.Action.Defs
import Mathlib.Algebra.Order.BigOperators.Group.List

/-!
# The workspace of a TurboQuant prefill

The workspace is reserved before any batch is known, from the limits of the scheduler.  It is enough
for every batch with no more segments than the scheduler may run requests; an expanded verification
window has a segment a row, and can be too much.

## Main definitions

* `workspaceUpperBound` — the reserved bytes.
* `kernelMetadata` — the metadata of one cache group.
* `ScheduledStep` — a step inside the limits of the scheduler.
* `AdmitsAll` — every candidate of a step is admitted.

## Main results

* `selectRows_admits_all` — an admission with room for all candidates admits them.
* `workspace_bound_admits_all` — the reserved bytes are room for all candidates.
-/

namespace VllmMetal
namespace TurboQuant

open Attention

/-! ### The reserved bytes -/

/-- `workspace_upper_bound`. -/
def workspaceUpperBound (maxModelLen maxNumSeqs maxNumBatchedTokens : ℕ) (g : HeadGeometry)
    (blockSize : ℕ) (f : KvFormat) : ℕ :=
  let queries := min maxNumBatchedTokens (maxNumSeqs * maxModelLen)
  let minimum := minPrefillTokens g (some maxModelLen) f
  if maxModelLen < minimum then 0
  else
    let candidates := min maxNumSeqs (queries / minimum)
    if candidates = 0 then 0
    else
      let tokens := (maxModelLen + blockSize - 1) / blockSize * blockSize
      let tableWidth := tokens / 8
      let materialized := candidates * (tokens * prefillBytesPerToken g + tableWidth * 4)
      if maxNumSeqs = 1 then materialized
      else materialized + routingBytes g queries + splitMetadataBytes maxNumSeqs
        maxNumSeqs tableWidth

/-- The least kernel block size. -/
theorem eight_le_of_mem_kernelBlockSizes {kbs : ℕ} (h : kbs ∈ kernelBlockSizes) : 8 ≤ kbs := by
  revert kbs
  decide

/-- A longer context never needs more rows. -/
theorem minPrefillTokens_anti (g : HeadGeometry) (f : KvFormat) {m n : ℕ} (hmn : m ≤ n) :
    minPrefillTokens g (some n) f ≤ minPrefillTokens g (some m) f := by
  unfold minPrefillTokens
  split_ifs with hn hm hm
  · exact le_refl 64
  · exact le_max_of_le_left (le_max_of_le_left (by decide))
  · -- the shorter context is measured, so the longer one is too
    exfalso
    apply hn
    simp only [Option.any_some, Bool.and_eq_true, decide_eq_true_eq] at hm ⊢
    exact ⟨⟨⟨hm.1.1.1.trans hmn, hm.1.1.2⟩, hm.1.2⟩, hm.2⟩
  · exact le_refl _

theorem minPrefillTokens_pos (g : HeadGeometry) (contextLen : Option ℕ) (f : KvFormat) :
    0 < minPrefillTokens g contextLen f := by
  unfold minPrefillTokens
  split_ifs
  · decide
  · exact lt_max_of_lt_left (lt_max_of_lt_left (by decide))

/-! ### An admission with room for all -/

/-- Room for all candidates, with `blocks` the most blocks one of them can have. -/
structure RoomForAll (p : PlanInput) (limit : ℤ) (split : Bool) (blocks : ℕ) : Prop where
  numBlocks_le : ∀ i ∈ p.candidates, p.numBlocks i ≤ blocks
  covered : ∀ i ∈ p.candidates, p.numBlocks i ≤ (p.rawBlockTables.getD i []).length * p.ratio
  room : ∀ k, k < p.candidates.length →
    (p.selectionBytes split ((k + 1) * blocks) (k + 1) blocks : ℤ) ≤ limit

/-- More blocks and wider tables take more bytes. -/
theorem selectionBytes_mono (p : PlanInput) (split : Bool) {blocks blocks' width width' : ℕ}
    (rows : ℕ) (hblocks : blocks ≤ blocks') (hwidth : width ≤ width') :
    p.selectionBytes split blocks rows width ≤ p.selectionBytes split blocks' rows width' := by
  unfold PlanInput.selectionBytes
  have hgather := Nat.mul_le_mul_right p.bytesPerBlock hblocks
  have htables := Nat.mul_le_mul_right 4 (Nat.mul_le_mul_left rows hwidth)
  omega

/-- The admission so far has admitted everything, with at most `blocks` blocks each. -/
structure AllAdmitted (blocks : ℕ) (done : List ℕ) (acc : Selection) : Prop where
  ids : acc.prefillIds = done
  rows : acc.rows.length = done.length
  nodup : acc.sourceBlocks.Nodup
  blocks_le : acc.sourceBlocks.length ≤ done.length * blocks
  width_le : acc.tableWidth ≤ blocks

/-- With room for it, the next candidate is admitted. -/
theorem AllAdmitted.step {p : PlanInput} {limit : ℤ} {split : Bool} {blocks i : ℕ} {done : List ℕ}
    {acc : Selection} (hpos : 0 < p.bytesPerBlock) (hroom : RoomForAll p limit split blocks)
    (h : AllAdmitted blocks done acc) (hpre : done ++ [i] <+: p.candidates) :
    ∃ acc', selectRow p limit split acc i = .ok acc' ∧ AllAdmitted blocks (done ++ [i]) acc' := by
  have hmem : i ∈ p.candidates := hpre.subset (by simp)
  have hlt : done.length < p.candidates.length := by
    have := hpre.length_le
    rw [List.length_append, List.length_singleton] at this
    omega
  have hle := hroom.numBlocks_le i hmem
  have hbytes := hroom.room _ hlt
  set sources := (List.range (p.numBlocks i)).map (p.source i) with hsources
  set additions := (sources.filter (· ∉ acc.sourceBlocks)).dedup with hadditions
  have hnew : additions.length ≤ blocks := by
    have hdedup := (List.dedup_sublist (sources.filter (· ∉ acc.sourceBlocks))).length_le
    have hfilter := List.length_filter_le (fun s => decide (s ∉ acc.sourceBlocks)) sources
    have hlength : sources.length = p.numBlocks i := by simp [hsources]
    rw [hadditions]
    omega
  have hgrown : acc.sourceBlocks.length + additions.length ≤ (done.length + 1) * blocks := by
    have := h.blocks_le
    rw [Nat.succ_mul]
    omega
  have hnext : (p.selectionBytes split (acc.sourceBlocks.length + additions.length)
      (acc.rows.length + 1) (max acc.tableWidth (p.numBlocks i)) : ℤ) ≤ limit := by
    rw [h.rows]
    have hmono := selectionBytes_mono p split (done.length + 1) hgrown (max_le h.width_le hle)
    exact le_trans (by exact_mod_cast hmono) hbytes
  -- one candidate alone is below the limit
  have halone : ¬ max 0 limit / (p.bytesPerBlock : ℤ) < p.numBlocks i := by
    have hgather : p.numBlocks i * p.bytesPerBlock
        ≤ p.selectionBytes split ((done.length + 1) * blocks) (done.length + 1) blocks := by
      have hmul := Nat.mul_le_mul_right p.bytesPerBlock
        (hle.trans (Nat.le_mul_of_pos_left blocks (Nat.succ_pos done.length)))
      exact hmul.trans ((Nat.le_add_right _ _).trans (Nat.le_add_right _ _))
    rw [not_lt, Int.le_ediv_iff_mul_le (by exact_mod_cast hpos)]
    apply le_max_of_le_right
    exact le_trans (by exact_mod_cast hgather) hbytes
  refine ⟨⟨(internAll acc.sourceBlocks sources).1, acc.prefillIds ++ [i],
    acc.rows ++ [(internAll acc.sourceBlocks sources).2],
      max acc.tableWidth (p.numBlocks i)⟩, ?_, ?_⟩
  · unfold selectRow PlanInput.sources
    rw [if_neg halone, if_neg (not_lt.mpr (hroom.covered i hmem))]
    exact if_neg (not_lt.mpr hnext)
  · constructor
    case ids => exact congrArg (· ++ [i]) h.ids
    case rows => simp [h.rows]
    case nodup => exact nodup_internAll h.nodup sources
    case blocks_le =>
      show (internAll acc.sourceBlocks sources).1.length ≤ _
      rw [length_internAll h.nodup, List.length_append, List.length_singleton]
      exact hgrown
    case width_le => exact max_le h.width_le hle

/-- **An admission with room for all candidates admits them.** -/
theorem selectRows_admits_all {p : PlanInput} {limit : ℤ} {split : Bool} {blocks : ℕ}
    (hpos : 0 < p.bytesPerBlock) (hroom : RoomForAll p limit split blocks) :
    ∃ sel, selectRows p limit split = .ok sel ∧ sel.prefillIds = p.candidates := by
  have hinit : AllAdmitted blocks [] Selection.empty :=
    ⟨rfl, rfl, List.nodup_nil, Nat.zero_le _, Nat.zero_le _⟩
  obtain ⟨sel, hsel, hall⟩ := foldlM_returns
    (fun _ _ _ hacc hpre => hacc.step hpos hroom hpre) hinit
  exact ⟨sel, hsel, hall.ids⟩

/-- Room for all in the pass that is made, with the copies of a split where there is one. -/
theorem selectForPlan_admits_all {p : PlanInput} {blocks : ℕ} (hpos : 0 < p.bytesPerBlock)
    (hwhole : p.candidates.length = p.lengths.length →
      RoomForAll p p.md.tqPrefillWorkspaceBytes false blocks)
    (hsplit : p.candidates.length < p.lengths.length →
      RoomForAll p (p.md.tqPrefillWorkspaceBytes - p.routing) true blocks) :
    ∃ sel, selectForPlan p = .ok sel ∧ sel.prefillIds = p.candidates := by
  have hle : p.candidates.length ≤ p.lengths.length := by
    have := (candidates_sublist p).length_le
    rwa [List.length_range] at this
  unfold selectForPlan
  rcases hle.lt_or_eq with hlt | heq
  · obtain ⟨sel, hsel, hids⟩ := selectRows_admits_all hpos (hsplit hlt)
    refine ⟨sel, ?_, hids⟩
    simp only [decide_eq_true hlt, if_true, hsel]
    rfl
  · -- nothing is left behind, so there is no second pass
    obtain ⟨sel, hsel, hids⟩ := selectRows_admits_all hpos (hwhole heq)
    refine ⟨sel, ?_, hids⟩
    have hnot : ¬ p.candidates.length < p.lengths.length := by omega
    simp only [decide_eq_false hnot, Bool.false_eq_true, if_false, sub_zero, hsel]
    show (if _ then _ else _) = _
    rw [if_neg]
    rw [hids]
    omega

/-! ### The reserved bytes are room for all -/

/-- A batch inside the limits of the scheduler, with the reserved workspace. -/
structure WithinLimits (maxModelLen maxNumSeqs maxNumBatchedTokens : ℕ) (f : KvFormat)
    (lens : List ℕ) (p : PlanInput) : Prop where
  packed : PackedInput lens p
  blockSize_ge : 8 ≤ p.md.blockSize
  minTokens : p.minTokens = thresholds p.contextLens p.geometry f
  limit : p.md.tqPrefillWorkspaceBytes =
    workspaceUpperBound maxModelLen maxNumSeqs maxNumBatchedTokens p.geometry p.cacheBlockSize f
  segments : lens.length ≤ maxNumSeqs
  tokens : lens.sum ≤ maxNumBatchedTokens
  length_le : ∀ i, i < lens.length → lens.getD i 0 ≤ p.contextLens.getD i 0
  context_le : ∀ i, i < lens.length → p.contextLens.getD i 0 ≤ maxModelLen
  mapped : ∀ i, i < lens.length →
    Mapped p.cacheBlockSize (p.rawBlockTables.getD i []) (p.contextLens.getD i 0)
  width : p.fallbackWidth ≤ (maxModelLen + p.cacheBlockSize - 1) / p.cacheBlockSize * p.ratio

/-- Kernel blocks that cover a number of positions. -/
theorem ceilDiv_le {n k m : ℕ} (hk : 0 < k) (h : n ≤ m * k) : (n + k - 1) / k ≤ m := by
  rw [Nat.div_le_iff_le_mul_add_pred hk, Nat.mul_comm]
  omega

theorem le_ceilDiv_mul_self {k : ℕ} (hk : 0 < k) (n : ℕ) : n ≤ (n + k - 1) / k * k := by
  have hsplit := Nat.div_add_mod (n + k - 1) k
  have hmod := Nat.mod_lt (n + k - 1) hk
  rw [Nat.mul_comm] at hsplit
  omega

section Limits

variable {maxModelLen maxNumSeqs maxNumBatchedTokens : ℕ} {f : KvFormat} {lens : List ℕ}
  {p : PlanInput} (h : WithinLimits maxModelLen maxNumSeqs maxNumBatchedTokens f lens p)

include h

theorem mem_candidates {i : ℕ} (hi : i ∈ p.candidates) :
    i < lens.length ∧ minPrefillTokens p.geometry (some (p.contextLens.getD i 0)) f
      ≤ lens.getD i 0 := by
  rw [PlanInput.candidates, lengths_eq h.packed, List.mem_filter, List.mem_range,
    decide_eq_true_eq, h.minTokens] at hi
  refine ⟨hi.1, ?_⟩
  have hctx : i < p.contextLens.length := h.packed.contextLens ▸ hi.1
  have hthreshold := hi.2
  rw [thresholds, List.getD_eq_getElem _ _ (by simpa using hctx), List.getElem_map,
    ← List.getD_eq_getElem _ 0 hctx] at hthreshold
  exact hthreshold

/-- A candidate has at least the rows of the longest context. -/
theorem minimum_le {i : ℕ} (hi : i ∈ p.candidates) :
    minPrefillTokens p.geometry (some maxModelLen) f ≤ lens.getD i 0 := by
  obtain ⟨hlt, hle⟩ := mem_candidates h hi
  exact (minPrefillTokens_anti p.geometry f (h.context_le i hlt)).trans hle

/-- The rows of a step are bounded by the queries. -/
theorem sum_le_queries : lens.sum ≤ min maxNumBatchedTokens (maxNumSeqs * maxModelLen) := by
  refine le_min h.tokens ?_
  have hall : ∀ n ∈ lens, n ≤ maxModelLen := by
    intro n hn
    obtain ⟨i, hi⟩ := List.mem_iff_getElem?.mp hn
    have hlt : i < lens.length := (List.getElem?_eq_some_iff.mp hi).1
    have hget : lens.getD i 0 = n := by rw [List.getD_eq_getElem?_getD, hi, Option.getD_some]
    exact hget ▸ (h.length_le i hlt).trans (h.context_le i hlt)
  have hsum := List.sum_le_card_nsmul lens maxModelLen hall
  rw [smul_eq_mul] at hsum
  exact hsum.trans (Nat.mul_le_mul_right _ h.segments)

/-- There are no more candidates than the bound counts. -/
theorem candidates_le :
    p.candidates.length ≤ min maxNumSeqs (min maxNumBatchedTokens (maxNumSeqs * maxModelLen)
      / minPrefillTokens p.geometry (some maxModelLen) f) := by
  have hsublist : p.candidates.Sublist (List.range lens.length) := by
    rw [← lengths_eq h.packed]
    exact candidates_sublist p
  refine le_min ?_ ?_
  · have := hsublist.length_le
    rw [List.length_range] at this
    exact this.trans h.segments
  · rw [Nat.le_div_iff_mul_le (minPrefillTokens_pos _ _ _)]
    have hcount := List.card_nsmul_le_sum (p.candidates.map fun i => lens.getD i 0)
      (minPrefillTokens p.geometry (some maxModelLen) f) (by
        intro n hn
        obtain ⟨i, hi, rfl⟩ := List.mem_map.mp hn
        exact minimum_le h hi)
    rw [List.length_map, smul_eq_mul] at hcount
    have hpart : (p.candidates.map fun i => lens.getD i 0).sum
        ≤ ((List.range lens.length).map fun i => lens.getD i 0).sum :=
      (hsublist.map _).sum_le_sum fun _ _ => Nat.zero_le _
    rw [map_getD_range lens 0 rfl] at hpart
    exact hcount.trans (hpart.trans (sum_le_queries h))

/-- The kernel blocks of the longest context, in whole pages. -/
def historyBlocks (p : PlanInput) (maxModelLen : ℕ) : ℕ :=
  (maxModelLen + p.cacheBlockSize - 1) / p.cacheBlockSize * p.ratio

/-- They hold the tokens the bound counts. -/
theorem historyBlocks_mul :
    historyBlocks p maxModelLen * p.md.blockSize
      = (maxModelLen + p.cacheBlockSize - 1) / p.cacheBlockSize * p.cacheBlockSize := by
  rw [historyBlocks, Nat.mul_assoc, Nat.mul_comm p.ratio, blockSize_mul_ratio h.packed]

theorem historyBlocks_le_width :
    historyBlocks p maxModelLen
      ≤ (maxModelLen + p.cacheBlockSize - 1) / p.cacheBlockSize * p.cacheBlockSize / 8 := by
  rw [Nat.le_div_iff_mul_le (by decide), ← historyBlocks_mul h]
  exact Nat.mul_le_mul_left _ h.blockSize_ge

theorem numBlocks_le_history {i : ℕ} (hi : i ∈ p.candidates) :
    p.numBlocks i ≤ historyBlocks p maxModelLen := by
  apply ceilDiv_le h.packed.blockSize_pos
  rw [historyBlocks_mul h]
  exact (h.context_le i (mem_candidates h hi).1).trans
    (le_ceilDiv_mul_self h.packed.cacheBlockSize_pos maxModelLen)

theorem numBlocks_le_table {i : ℕ} (hi : i ∈ p.candidates) :
    p.numBlocks i ≤ (p.rawBlockTables.getD i []).length * p.ratio := by
  apply ceilDiv_le h.packed.blockSize_pos
  have hmapped := h.mapped i (mem_candidates h hi).1
  rwa [Mapped, ← blockSize_mul_ratio h.packed, Nat.mul_comm, Nat.mul_comm p.md.blockSize,
    ← Nat.mul_assoc] at hmapped

/-- What is gathered for some candidates is what the bound counts for them. -/
theorem gathered_le {k count : ℕ} (hk : k ≤ count) :
    k * historyBlocks p maxModelLen * p.bytesPerBlock + k * historyBlocks p maxModelLen * 4
      ≤ count * ((maxModelLen + p.cacheBlockSize - 1) / p.cacheBlockSize * p.cacheBlockSize
          * prefillBytesPerToken p.geometry
        + (maxModelLen + p.cacheBlockSize - 1) / p.cacheBlockSize * p.cacheBlockSize / 8 * 4) := by
  have hbytes : historyBlocks p maxModelLen * p.bytesPerBlock
      = (maxModelLen + p.cacheBlockSize - 1) / p.cacheBlockSize * p.cacheBlockSize
        * prefillBytesPerToken p.geometry := by
    rw [PlanInput.bytesPerBlock, ← Nat.mul_assoc, historyBlocks_mul h]
  calc k * historyBlocks p maxModelLen * p.bytesPerBlock + k * historyBlocks p maxModelLen * 4
      = k * (historyBlocks p maxModelLen * p.bytesPerBlock + historyBlocks p maxModelLen * 4) := by
        ring
    _ ≤ count * _ := by
        apply Nat.mul_le_mul hk
        rw [hbytes]
        exact Nat.add_le_add_left (Nat.mul_le_mul_right 4 (historyBlocks_le_width h)) _

/-- The split metadata of a step is what the bound counts. -/
theorem splitBytes_le (rows : ℕ) :
    p.splitBytes (p.lengths.length - rows) ≤ splitMetadataBytes maxNumSeqs maxNumSeqs
      ((maxModelLen + p.cacheBlockSize - 1) / p.cacheBlockSize * p.cacheBlockSize / 8) := by
  have hwidth := h.width.trans (historyBlocks_le_width h)
  have hsegments := h.segments
  rw [PlanInput.splitBytes, lengths_eq h.packed]
  unfold splitMetadataBytes
  have hrows : (lens.length - rows) * (p.fallbackWidth + 1) ≤ maxNumSeqs *
      ((maxModelLen + p.cacheBlockSize - 1) / p.cacheBlockSize * p.cacheBlockSize / 8 + 1) :=
    Nat.mul_le_mul (by omega) (Nat.succ_le_succ hwidth)
  omega

/-- The bound, where there is a candidate. -/
theorem workspaceUpperBound_eq (hne : p.candidates ≠ []) :
    let queries := min maxNumBatchedTokens (maxNumSeqs * maxModelLen)
    let tokens := (maxModelLen + p.cacheBlockSize - 1) / p.cacheBlockSize * p.cacheBlockSize
    ∃ count, p.candidates.length ≤ count ∧
      p.md.tqPrefillWorkspaceBytes =
        count * (tokens * prefillBytesPerToken p.geometry + tokens / 8 * 4) +
          if maxNumSeqs = 1 then 0
          else routingBytes p.geometry queries
            + splitMetadataBytes maxNumSeqs maxNumSeqs (tokens / 8) := by
  intro queries tokens
  have hcount := candidates_le h
  have hpos : 0 < p.candidates.length := List.length_pos_of_ne_nil hne
  refine ⟨_, hcount, ?_⟩
  obtain ⟨i, hi⟩ := List.exists_mem_of_ne_nil _ hne
  have hlong : ¬ maxModelLen < minPrefillTokens p.geometry (some maxModelLen) f := by
    have hlt := (mem_candidates h hi).1
    exact not_lt.mpr ((minimum_le h hi).trans ((h.length_le i hlt).trans (h.context_le i hlt)))
  rw [h.limit, workspaceUpperBound]
  dsimp only
  rw [if_neg hlong, if_neg (by omega)]
  split_ifs
  · rfl
  · exact Nat.add_assoc _ _ _

/-- Copies of all rows are what the bound counts. -/
theorem routing_le : p.routing ≤
    routingBytes p.geometry (min maxNumBatchedTokens (maxNumSeqs * maxModelLen)) := by
  rw [PlanInput.routing, h.packed.cuSeqlens, getLastD_boundaries]
  exact Nat.mul_le_mul_right _ (sum_le_queries h)

theorem roomForAll_whole :
    RoomForAll p p.md.tqPrefillWorkspaceBytes false (historyBlocks p maxModelLen) := by
  refine ⟨fun i hi => numBlocks_le_history h hi, fun i hi => numBlocks_le_table h hi, ?_⟩
  intro k hk
  have hne : p.candidates ≠ [] := List.ne_nil_of_length_pos (by omega)
  obtain ⟨count, hcount, hlimit⟩ := workspaceUpperBound_eq h hne
  have hle : k + 1 ≤ count := (Nat.succ_le_of_lt hk).trans hcount
  have hgathered := gathered_le h hle
  rw [hlimit]
  unfold PlanInput.selectionBytes
  rw [if_neg Bool.false_ne_true]
  exact_mod_cast (by omega)

theorem roomForAll_split (hless : p.candidates.length < p.lengths.length) :
    RoomForAll p (p.md.tqPrefillWorkspaceBytes - p.routing) true (historyBlocks p maxModelLen) := by
  refine ⟨fun i hi => numBlocks_le_history h hi, fun i hi => numBlocks_le_table h hi, ?_⟩
  intro k hk
  have hne : p.candidates ≠ [] := List.ne_nil_of_length_pos (by omega)
  obtain ⟨count, hcount, hlimit⟩ := workspaceUpperBound_eq h hne
  have hle : k + 1 ≤ count := (Nat.succ_le_of_lt hk).trans hcount
  have hgathered := gathered_le h hle
  have hsplit := splitBytes_le h (k + 1)
  have hrouting := routing_le h
  -- a candidate and a sequence that is none are two
  have htwo : maxNumSeqs ≠ 1 := by
    have := h.segments
    rw [lengths_eq h.packed] at hless
    omega
  rw [if_neg htwo] at hlimit
  unfold PlanInput.selectionBytes
  rw [if_pos rfl, le_sub_iff_add_le, hlimit]
  exact_mod_cast (by omega)

/-- **Every candidate of a batch inside the limits is admitted.** -/
theorem WithinLimits.admits_all :
    ∃ sel, selectForPlan p = .ok sel ∧ sel.prefillIds = p.candidates :=
  selectForPlan_admits_all (bytesPerBlock_pos h.packed) (fun _ => roomForAll_whole h)
    (roomForAll_split h)

/-- Where nothing is reserved, no batch has a candidate. -/
theorem candidates_eq_nil (hzero : p.md.tqPrefillWorkspaceBytes = 0) : p.candidates = [] := by
  by_contra hne
  obtain ⟨count, hcount, hlimit⟩ := workspaceUpperBound_eq h hne
  obtain ⟨i, hi⟩ := List.exists_mem_of_ne_nil _ hne
  have hlt := (mem_candidates h hi).1
  have hlong : 0 < maxModelLen :=
    (minPrefillTokens_pos p.geometry (some maxModelLen) f).trans_le
      ((minimum_le h hi).trans ((h.length_le i hlt).trans (h.context_le i hlt)))
  have htokens := hlong.trans_le (le_ceilDiv_mul_self h.packed.cacheBlockSize_pos maxModelLen)
  have hgathered : 0 < (maxModelLen + p.cacheBlockSize - 1) / p.cacheBlockSize * p.cacheBlockSize
      * prefillBytesPerToken p.geometry := Nat.mul_pos htokens (Nat.succ_pos _)
  have hone : 0 < count := (List.length_pos_of_ne_nil hne).trans_le hcount
  have := Nat.mul_pos hone (Nat.add_pos_left hgathered
    ((maxModelLen + p.cacheBlockSize - 1) / p.cacheBlockSize * p.cacheBlockSize / 8 * 4))
  omega

/-- The fresh plan of a batch inside the limits is one of all candidates. -/
theorem freshPlan_admits_all :
    ∃ plan, freshPlan p = .ok plan ∧
      ((p.candidates = [] ∧ plan = none) ∨
        ∃ found, plan = some found ∧ BatchOf p.lengths p p.candidates found.prefill) := by
  have hzip : ¬ p.lengths.length ≠ p.minTokens.length := by
    rw [not_not, lengths_eq h.packed, h.minTokens, thresholds, List.length_map,
      h.packed.contextLens]
  unfold freshPlan
  rw [if_neg hzip]
  by_cases hnone : p.candidates = []
  · rw [if_pos hnone]
    exact ⟨none, rfl, Or.inl ⟨hnone, rfl⟩⟩
  · rw [if_neg hnone]
    obtain ⟨sel, hsel, hids⟩ := h.admits_all
    have hsome : sel.prefillIds ≠ [] := by rwa [hids]
    obtain ⟨⟨limit, split, hadmitted⟩, hbytes⟩ := selectForPlan_admitted hsel hsome
    have hsound := planOfSelection_sound h.packed hadmitted hbytes
    refine ⟨some (planOfSelection p sel), ?_, Or.inr ⟨_, rfl, ?_⟩⟩
    · rw [hsel]
      exact if_neg hsome
    · rw [lengths_eq h.packed, ← hids]
      exact hsound.prefill

end Limits

/-! ### Steps of the scheduler -/

/-- `_kernel_metadata`; `none` is an error of a block size or of an empty batch. -/
def kernelMetadata (contextLens cuSeqlens : List ℕ) (rawBlockTables : List (List ℕ))
    (cacheBlockSize workspaceBytes : ℕ) : Option KernelMetadata :=
  if contextLens = [] then none
  else
    (buildBlockTables kernelBlockSizes rawBlockTables cacheBlockSize).map fun tables =>
      { seqLens := contextLens
        cuSeqlensQ := cuSeqlens
        blockTables := tables.1
        blockSize := tables.2
        maxSeqLen := contextLens.foldl max 0
        tqPrefillWorkspaceBytes := workspaceBytes }

/-- Tables of at most `pages` pages are padded to at most `pages` pages. -/
theorem length_padTables_le {raw : List (List ℕ)} {pages : ℕ}
    (hpages : ∀ table ∈ raw, table.length ≤ pages) : ∀ row ∈ padTables raw, row.length ≤ pages := by
  intro row hrow
  obtain ⟨table, htable, rfl⟩ := List.mem_map.mp hrow
  have hlen := hpages table htable
  have hall : (raw.map List.length).foldl max 0 ≤ pages :=
    foldl_max_le (Nat.zero_le _) fun n hn => by
      obtain ⟨t, ht, rfl⟩ := List.mem_map.mp hn
      exact hpages t ht
  rw [List.length_append, List.length_replicate]
  omega

/-- The kernel tables of raw tables of at most `pages` pages. -/
theorem buildBlockTables_spec {sizes : List ℕ} {raw : List (List ℕ)} {B pages : ℕ} (hB : 0 < B)
    (hraw : raw ≠ []) (hsizes : ∃ kbs ∈ sizes, kbs ∣ B)
    (hpages : ∀ table ∈ raw, table.length ≤ pages) :
    ∃ tables kbs, buildBlockTables sizes raw B = some (tables, kbs) ∧ kbs ∈ sizes ∧ kbs ∣ B ∧
      (tables.headD []).length ≤ pages * (B / kbs) := by
  have hhead : ∀ tables : List (List ℕ), (∀ row ∈ tables, row.length ≤ pages) →
      (tables.headD []).length ≤ pages := by
    intro tables hrows
    cases tables with
    | nil => exact Nat.zero_le _
    | cons row tables => exact hrows row List.mem_cons_self
  have hpadded := hhead _ (length_padTables_le hpages)
  unfold buildBlockTables
  rw [if_neg hraw]
  -- the block size itself, or the kernel size that divides it
  by_cases hmem : B ∈ sizes
  · refine ⟨_, B, if_pos hmem, hmem, dvd_refl B, ?_⟩
    rw [Nat.div_self hB, Nat.mul_one]
    exact hpadded
  · obtain ⟨kbs, hkbs, hdvd⟩ := hsizes
    have hpick : (pickKernelBlockSize sizes B).isSome := by
      rw [pickKernelBlockSize, List.find?_isSome]
      exact ⟨kbs, hkbs, decide_eq_true (Nat.mod_eq_zero_of_dvd hdvd)⟩
    obtain ⟨kernelBs, hkernelBs⟩ := Option.isSome_iff_exists.mp hpick
    refine ⟨_, kernelBs, by rw [if_neg hmem, hkernelBs, Option.map_some], ?_, ?_, ?_⟩
    · exact List.mem_of_find?_eq_some hkernelBs
    · exact Nat.dvd_of_mod_eq_zero (of_decide_eq_true
        (List.find?_some (p := fun kbs => decide (B % kbs = 0)) hkernelBs))
    · cases hpad : padTables raw with
      | nil => exact Nat.zero_le _
      | cons row rows =>
        rw [hpad] at hpadded
        rw [List.map_cons, List.headD_cons, length_splitTable]
        exact Nat.mul_le_mul_right _ hpadded

/-- A step the scheduler may run: its requests, each a span of rows, are inside the limits, and its
block tables reach their rows and no further than the longest context. -/
structure ScheduledStep (maxModelLen maxNumSeqs maxNumBatchedTokens : ℕ) (blockSizes : List ℕ) where
  decodeRequests : List DecodeRequest
  prefillRequests : List PrefillRequest
  nonempty : requestSpans decodeRequests prefillRequests ≠ []
  requests_le : (requestSpans decodeRequests prefillRequests).length ≤ maxNumSeqs
  tokens_le : ((requestSpans decodeRequests prefillRequests).map Segment.rows).sum
    ≤ maxNumBatchedTokens
  context_le : ∀ s ∈ requestSpans decodeRequests prefillRequests, s.first + s.rows ≤ maxModelLen
  covered : ∀ s ∈ requestSpans decodeRequests prefillRequests,
    Covered blockSizes s.blockIds (s.first + s.rows)
  pages_le : ∀ s ∈ requestSpans decodeRequests prefillRequests, ∀ i B : ℕ,
    blockSizes[i]? = some B → (s.table i).length ≤ (maxModelLen + B - 1) / B

section Steps

variable {maxModelLen maxNumSeqs maxNumBatchedTokens : ℕ} {blockSizes : List ℕ}

/-- The segments of a step, in the layout of its verification windows. -/
def ScheduledStep.segments (s : ScheduledStep maxModelLen maxNumSeqs maxNumBatchedTokens blockSizes)
    (merge : Bool) : List Segment := stepSegments s.decodeRequests s.prefillRequests merge

/-- The input and the plan of the first layer of cache group `i` of a step. -/
def planOfStep (s : ScheduledStep maxModelLen maxNumSeqs maxNumBatchedTokens blockSizes)
    (merge : Bool) (i : ℕ) (g : HeadGeometry) (f : KvFormat) (workspaceBytes : ℕ) :
    Option (PlanInput × Option PrefillPlan) :=
  match prepareGrouped s.decodeRequests s.prefillRequests blockSizes merge with
  | .error _ => none
  | .ok ctx =>
    match ctx.kvGroups[i]? with
    | none => none
    | some group =>
      match kernelMetadata ctx.contextLens ctx.cuSeqlens group.blockTables group.blockSize
        workspaceBytes with
      | none => none
      | some md =>
        match turboquantPrefillPlan ctx.contextLens (some ctx.cuSeqlens) md group.blockTables
          group.blockSize g f ⟨∅, ∅⟩ with
        | .error _ => none
        | .ok (plan, _) =>
          some (⟨ctx.contextLens, ctx.cuSeqlens, md, group.blockTables, group.blockSize, g,
            thresholds ctx.contextLens g f⟩, plan)

/-- The plan of a step admits every candidate. -/
def AdmitsAll (s : ScheduledStep maxModelLen maxNumSeqs maxNumBatchedTokens blockSizes)
    (merge : Bool) (i : ℕ) (g : HeadGeometry) (f : KvFormat) (workspaceBytes : ℕ) : Prop :=
  ∃ p plan, planOfStep s merge i g f workspaceBytes = some (p, plan) ∧
    ((p.candidates = [] ∧ plan = none) ∨
      ∃ found, plan = some found ∧ BatchOf p.lengths p p.candidates found.prefill)

/-- A segment is part of the span of its request. -/
theorem exists_span_of_mem_segments
    (s : ScheduledStep maxModelLen maxNumSeqs maxNumBatchedTokens blockSizes) {merge : Bool}
    {seg : Segment} (hseg : seg ∈ s.segments merge) :
    ∃ span ∈ requestSpans s.decodeRequests s.prefillRequests, seg.blockIds = span.blockIds ∧
      seg.first + seg.rows ≤ span.first + span.rows := by
  rw [ScheduledStep.segments, stepSegments, List.mem_append, List.mem_flatMap, List.mem_map] at hseg
  unfold requestSpans
  rcases hseg with ⟨r, hr, hseg⟩ | ⟨r, hr, rfl⟩
  · refine ⟨⟨r.blockIds, r.seqLen, r.numTokens⟩,
      List.mem_append_left _ (List.mem_map.mpr ⟨r, hr, rfl⟩), ?_⟩
    unfold DecodeRequest.segments at hseg
    split at hseg
    · obtain ⟨pos, hpos, rfl⟩ := List.mem_map.mp hseg
      rw [List.mem_range'_1] at hpos
      exact ⟨rfl, hpos.2⟩
    · rw [List.mem_singleton] at hseg
      subst hseg
      exact ⟨rfl, le_refl _⟩
  · exact ⟨r.segment, List.mem_append_right _ (List.mem_map.mpr ⟨r, hr, rfl⟩), rfl, le_refl _⟩

/-- Both layouts have the rows of the requests. -/
theorem sum_rows_segments
    (s : ScheduledStep maxModelLen maxNumSeqs maxNumBatchedTokens blockSizes) (merge : Bool) :
    ((s.segments merge).map Segment.rows).sum
      = ((requestSpans s.decodeRequests s.prefillRequests).map Segment.rows).sum := by
  have htokens := congrArg List.length
    (tokens_stepSegments s.decodeRequests s.prefillRequests merge)
  unfold packedTokens at htokens
  rw [List.length_flatMap, List.length_flatMap] at htokens
  simp only [length_tokens] at htokens
  exact htokens

/-- The merged layout has a segment a request. -/
theorem length_segments_merged
    (s : ScheduledStep maxModelLen maxNumSeqs maxNumBatchedTokens blockSizes) :
    (s.segments true).length = (requestSpans s.decodeRequests s.prefillRequests).length := by
  have hone : ∀ r : DecodeRequest, (r.segments true).length = 1 := by
    intro r
    unfold DecodeRequest.segments
    rw [if_neg (by simp)]
    rfl
  unfold ScheduledStep.segments stepSegments requestSpans
  rw [List.length_append, List.length_append, List.length_flatMap,
    List.map_congr_left fun r _ => hone r, List.map_const', List.sum_replicate_nat, Nat.mul_one,
    List.length_map, List.length_map]

theorem segments_ne_nil
    (s : ScheduledStep maxModelLen maxNumSeqs maxNumBatchedTokens blockSizes) (merge : Bool) :
    s.segments merge ≠ [] := by
  intro hnil
  obtain ⟨hdecode, hprefill⟩ := List.append_eq_nil_iff.mp hnil
  apply s.nonempty
  have hnone : s.decodeRequests = [] := by
    rw [List.eq_nil_iff_forall_not_mem]
    intro r hr
    have hsegments := List.flatMap_eq_nil_iff.mp hdecode r hr
    unfold DecodeRequest.segments at hsegments
    split at hsegments
    · next hexpanded =>
      have hlen := congrArg List.length hsegments
      rw [List.length_map, List.length_range', List.length_nil] at hlen
      omega
    · cases hsegments
  rw [requestSpans, hnone, hprefill]
  rfl

/-- What the plan of a step is computed from. -/
structure InputOf (s : ScheduledStep maxModelLen maxNumSeqs maxNumBatchedTokens blockSizes)
    (merge : Bool) (i B : ℕ) (g : HeadGeometry) (f : KvFormat) (workspaceBytes : ℕ)
    (p : PlanInput) : Prop where
  packed : PackedInput ((s.segments merge).map Segment.rows) p
  geometry : p.geometry = g
  cacheBlockSize : p.cacheBlockSize = B
  limit : p.md.tqPrefillWorkspaceBytes = workspaceBytes
  minTokens : p.minTokens = thresholds p.contextLens g f
  contextLens : p.contextLens = (s.segments merge).map fun seg => seg.first + seg.rows
  rawBlockTables : p.rawBlockTables = (s.segments merge).map (Segment.table i)
  blockSize_ge : 8 ≤ p.md.blockSize
  width : p.fallbackWidth ≤ (maxModelLen + B - 1) / B * p.ratio

/-- The plan of a step is the fresh plan of its input. -/
theorem planOfStep_eq
    (s : ScheduledStep maxModelLen maxNumSeqs maxNumBatchedTokens blockSizes) (merge : Bool)
    {i B : ℕ} (hB : blockSizes[i]? = some B) (hpos : 0 < B)
    (hkernel : ∃ kbs ∈ kernelBlockSizes, kbs ∣ B) (g : HeadGeometry) (f : KvFormat)
    (workspaceBytes : ℕ) :
    ∃ p, InputOf s merge i B g f workspaceBytes p ∧
      planOfStep s merge i g f workspaceBytes =
        if workspaceBytes = 0 then some (p, none)
        else (freshPlan p).toOption.map fun plan => (p, plan) := by
  -- the context of the step has a group for the layer, with the segments' slots and tables
  have hgroups : blockSizes ≠ [] := by
    rintro rfl
    cases hB
  obtain ⟨ctx, hctx, hof, -⟩ := prepareGrouped_ok hgroups
    (fun r hr => s.covered ⟨r.blockIds, r.seqLen, r.numTokens⟩
      (List.mem_append_left _ (List.mem_map.mpr ⟨r, hr, rfl⟩)))
    (fun r hr => s.covered r.segment (List.mem_append_right _ (List.mem_map.mpr ⟨r, hr, rfl⟩)))
    merge
  have hgroup : ctx.kvGroups[i]? = some
      ⟨(s.segments merge).flatMap (Segment.slots B i), (s.segments merge).map (Segment.table i),
        B⟩ := by
    rw [hof.kvGroups, getElem?_groupsOf, hB, Option.map_some, Nat.zero_add]
    rfl
  have hne := segments_ne_nil s merge
  have hpages : ∀ table ∈ (s.segments merge).map (Segment.table i),
      table.length ≤ (maxModelLen + B - 1) / B := by
    intro table htable
    obtain ⟨seg, hseg, rfl⟩ := List.mem_map.mp htable
    obtain ⟨span, hspan, hblocks, -⟩ := exists_span_of_mem_segments s hseg
    rw [Segment.table, hblocks]
    exact s.pages_le span hspan i B hB
  -- its tables, split for the kernel
  obtain ⟨tables, kbs, hbuild, hmem, hdvd, hwidth⟩ := buildBlockTables_spec hpos
    (mt List.map_eq_nil_iff.mp hne) hkernel hpages
  have hcontext : ctx.contextLens ≠ [] := by
    rw [hof.contextLens]
    exact mt List.map_eq_nil_iff.mp hne
  have height := eight_le_of_mem_kernelBlockSizes hmem
  refine ⟨⟨ctx.contextLens, ctx.cuSeqlens,
    ⟨ctx.contextLens, ctx.cuSeqlens, tables, kbs, ctx.contextLens.foldl max 0, workspaceBytes⟩,
    (s.segments merge).map (Segment.table i), B, g, thresholds ctx.contextLens g f⟩, ?_, ?_⟩
  · constructor
    case packed =>
      refine ⟨hof.cuSeqlens, ?_, rfl, rfl, (by decide : 0 < 8).trans_le height, hpos, hdvd⟩
      show ctx.contextLens.length = _
      rw [hof.contextLens, List.length_map, List.length_map]
      rfl
    case contextLens => exact hof.contextLens
    case blockSize_ge => exact height
    case width => exact hwidth
    all_goals rfl
  -- the plan is computed from these
  · unfold planOfStep kernelMetadata
    simp only [hctx, hgroup, if_neg hcontext, hbuild, Option.map_some]
    unfold turboquantPrefillPlan
    by_cases hzero : workspaceBytes = 0
    · simp only [if_pos hzero]
    · simp only [if_neg hzero, Dict.get?_empty, Option.getD_none]
      unfold inputOf
      cases freshPlan _ with
      | error e => rfl
      | ok plan => rfl

/-- With no more segments than requests the scheduler may run, a step is inside its limits. -/
theorem InputOf.withinLimits
    {s : ScheduledStep maxModelLen maxNumSeqs maxNumBatchedTokens blockSizes} {merge : Bool}
    {i B : ℕ} (hB : blockSizes[i]? = some B) {g : HeadGeometry} {f : KvFormat} {p : PlanInput}
    (h : InputOf s merge i B g f (workspaceUpperBound maxModelLen maxNumSeqs maxNumBatchedTokens g B
      f) p)
    (hsegments : (s.segments merge).length ≤ maxNumSeqs) :
    WithinLimits maxModelLen maxNumSeqs maxNumBatchedTokens f ((s.segments merge).map Segment.rows)
      p := by
  -- request `k` of the plan is segment `k` of the step
  have hget : ∀ k, k < ((s.segments merge).map Segment.rows).length →
      ∃ seg ∈ s.segments merge, ((s.segments merge).map Segment.rows).getD k 0 = seg.rows ∧
        p.contextLens.getD k 0 = seg.first + seg.rows ∧
        p.rawBlockTables.getD k [] = seg.table i := by
    intro k hk
    rw [List.length_map] at hk
    refine ⟨(s.segments merge)[k], List.getElem_mem hk, ?_, ?_, ?_⟩
    · rw [List.getD_eq_getElem _ _ (by rwa [List.length_map]), List.getElem_map]
    · rw [h.contextLens, List.getD_eq_getElem _ _ (by rwa [List.length_map]), List.getElem_map]
    · rw [h.rawBlockTables, List.getD_eq_getElem _ _ (by rwa [List.length_map]), List.getElem_map]
  constructor
  case packed => exact h.packed
  case blockSize_ge => exact h.blockSize_ge
  case minTokens => rw [h.minTokens, h.geometry]
  case limit => rw [h.limit, h.geometry, h.cacheBlockSize]
  case segments => rwa [List.length_map]
  case tokens =>
    rw [sum_rows_segments]
    exact s.tokens_le
  case length_le =>
    intro k hk
    obtain ⟨seg, -, hrows, hcontext, -⟩ := hget k hk
    rw [hrows, hcontext]
    exact Nat.le_add_left _ _
  case context_le =>
    intro k hk
    obtain ⟨seg, hseg, -, hcontext, -⟩ := hget k hk
    obtain ⟨span, hspan, -, hstop⟩ := exists_span_of_mem_segments s hseg
    rw [hcontext]
    exact hstop.trans (s.context_le span hspan)
  case mapped =>
    intro k hk
    obtain ⟨seg, hseg, -, hcontext, htable⟩ := hget k hk
    obtain ⟨span, hspan, hblocks, hstop⟩ := exists_span_of_mem_segments s hseg
    obtain ⟨table, hspanTable, hmapped⟩ := s.covered span hspan i B hB
    rw [hcontext, htable, h.cacheBlockSize, Segment.table, hblocks, List.getD_eq_getElem?_getD,
      hspanTable]
    exact hmapped.mono hstop
  case width =>
    rw [h.cacheBlockSize]
    exact h.width

/-- **The reserved bytes are room for all candidates**, where no step has more segments than the
scheduler may run requests. -/
theorem workspace_bound_admits_all
    (s : ScheduledStep maxModelLen maxNumSeqs maxNumBatchedTokens blockSizes) (merge : Bool)
    {i B : ℕ} (hB : blockSizes[i]? = some B) (hpos : 0 < B)
    (hkernel : ∃ kbs ∈ kernelBlockSizes, kbs ∣ B) (g : HeadGeometry) (f : KvFormat)
    (hsegments : merge = true ∨ (s.segments merge).length ≤ maxNumSeqs) :
    AdmitsAll s merge i g f
      (workspaceUpperBound maxModelLen maxNumSeqs maxNumBatchedTokens g B f) := by
  have hcount : (s.segments merge).length ≤ maxNumSeqs := by
    rcases hsegments with rfl | hle
    · rw [length_segments_merged]
      exact s.requests_le
    · exact hle
  obtain ⟨p, hinput, hplan⟩ := planOfStep_eq s merge hB hpos hkernel g f
    (workspaceUpperBound maxModelLen maxNumSeqs maxNumBatchedTokens g B f)
  have hlimits := hinput.withinLimits hB hcount
  unfold AdmitsAll
  rw [hplan]
  split_ifs with hzero
  · exact ⟨p, none, rfl, Or.inl ⟨candidates_eq_nil hlimits (hinput.limit.trans hzero), rfl⟩⟩
  · obtain ⟨plan, hfresh, hadmits⟩ := freshPlan_admits_all hlimits
    exact ⟨p, plan, by rw [hfresh]; rfl, hadmits⟩

end Steps

/-- A window of `rows` rows at 200, and a chunk of 128 rows that ends at 256, in pages of 16. -/
def windowAndChunk (rows maxNumBatchedTokens : ℕ) (hrows : rows ≤ 56)
    (htokens : rows + 128 ≤ maxNumBatchedTokens) :
    ScheduledStep 256 2 maxNumBatchedTokens [16] where
  decodeRequests := [⟨[List.range 16], 200, rows⟩]
  prefillRequests := [⟨[List.range' 16 16], 128, 128⟩]
  nonempty := by simp [requestSpans]
  requests_le := le_refl 2
  tokens_le := htokens
  context_le := by
    intro s hs
    simp only [requestSpans, List.map_cons, List.map_nil, List.cons_append, List.nil_append,
      List.mem_cons, List.not_mem_nil, or_false] at hs
    rcases hs with rfl | rfl
    · show 200 + rows ≤ 256
      omega
    · exact le_refl 256
  covered := by
    intro s hs g B hB
    cases g with
    | succ g => cases hB
    | zero =>
      cases hB
      simp only [requestSpans, List.map_cons, List.map_nil, List.cons_append, List.nil_append,
        List.mem_cons, List.not_mem_nil, or_false] at hs
      rcases hs with rfl | rfl
      · refine ⟨_, rfl, ?_⟩
        show 200 + rows ≤ 16 * (List.range 16).length
        rw [List.length_range]
        omega
      · exact ⟨_, rfl, le_refl 256⟩
  pages_le := by
    intro s hs i B hB
    cases i with
    | succ i => cases hB
    | zero =>
      cases hB
      simp only [requestSpans, List.map_cons, List.map_nil, List.cons_append, List.nil_append,
        List.mem_cons, List.not_mem_nil, or_false] at hs
      rcases hs with rfl | rfl
      · exact le_refl 16
      · exact le_refl 16

theorem workspace_bound_admits_all_window :
    AdmitsAll (windowAndChunk 8 136 (by decide) (by decide)) true 0 smallGeometry ⟨none, none⟩
        (workspaceUpperBound 256 2 136 smallGeometry 16 ⟨none, none⟩) ∧
      AdmitsAll (windowAndChunk 1 136 (by decide) (by decide)) false 0 smallGeometry ⟨none, none⟩
        (workspaceUpperBound 256 2 136 smallGeometry 16 ⟨none, none⟩) :=
  ⟨workspace_bound_admits_all _ true rfl (by decide) ⟨16, by decide, dvd_refl 16⟩ _ _ (Or.inl rfl),
    workspace_bound_admits_all _ false rfl (by decide) ⟨16, by decide, dvd_refl 16⟩ _ _
      (Or.inr (by decide))⟩

/-- Expanded, the window of eight rows makes nine segments, and their metadata leaves too little for
the chunk. -/
theorem workspace_bound_expanded_window :
    ¬ ∀ (maxModelLen maxNumSeqs maxNumBatchedTokens : ℕ) (blockSizes : List ℕ)
      (s : ScheduledStep maxModelLen maxNumSeqs maxNumBatchedTokens blockSizes) (merge : Bool)
      (i B : ℕ), blockSizes[i]? = some B → 0 < B → (∃ kbs ∈ kernelBlockSizes, kbs ∣ B) →
      ∀ (g : HeadGeometry) (f : KvFormat), AdmitsAll s merge i g f
        (workspaceUpperBound maxModelLen maxNumSeqs maxNumBatchedTokens g B f) := by
  intro h
  have hplan : (planOfStep (windowAndChunk 8 136 (by decide) (by decide)) false 0 smallGeometry
      ⟨none, none⟩ (workspaceUpperBound 256 2 136 smallGeometry 16 ⟨none, none⟩)).map
        (fun found => (found.1.candidates, found.2.isSome)) = some ([8], false) := by
    decide +kernel
  obtain ⟨p, plan, heq, hadmits⟩ := h 256 2 136 [16] (windowAndChunk 8 136 (by decide) (by decide))
    false 0 16 rfl (by decide) ⟨16, by decide, dvd_refl 16⟩ smallGeometry ⟨none, none⟩
  rw [heq, Option.map_some, Option.some.injEq, Prod.mk.injEq] at hplan
  rcases hadmits with ⟨hnone, -⟩ | ⟨found, rfl, -⟩
  · rw [hnone] at hplan
    cases hplan.1
  · cases hplan.2

end TurboQuant
end VllmMetal
