import VllmMetal.Attention.Context
import Mathlib.Data.List.Dedup

/-!
# The metadata addresses one memory

The writers of a forward use scheduler blocks, its readers kernel blocks, and a window is
packed in one of two layouts.  All of them name the same cells: the rows are those of the
requests in order, and whatever a kernel computes for a row from the boundaries, context
lengths, offsets and its own tables is what the request says.

## Main definitions

* `Segment` — a span of rows with one set of tables.
* `packedTokens` — the rows of a step, by request and position.
* `Covered` — the block tables of a request reach its last row.
* `Addressed` — the metadata gives every row its slot, position, keys and cells.

## Main results

* `prepareGrouped_ok` — the metadata is that of the segments.
* `prepareGrouped_addresses_one_memory` — **both layouts address one memory.**
-/

namespace VllmMetal
namespace Attention

/-! ### Segments -/

/-- Consecutive positions of one request. -/
structure Segment where
  blockIds : List (List ℕ)
  first : ℕ
  rows : ℕ

/-- The block table of a segment in a group. -/
def Segment.table (g : ℕ) (s : Segment) : List ℕ := s.blockIds.getD g []

/-- The rows of a segment, each with its request's tables and its position. -/
def Segment.tokens (s : Segment) : List (List (List ℕ) × ℕ) :=
  (List.range' s.first s.rows).map fun pos => (s.blockIds, pos)

/-- The slots of a segment in a group. -/
def Segment.slots (B g : ℕ) (s : Segment) : List ℕ :=
  (List.range' s.first s.rows).map (cellOf B (s.table g))

/-- The segments of a decode request in either layout. -/
def DecodeRequest.segments (mergeVerifyWindows : Bool) (r : DecodeRequest) : List Segment :=
  if 1 < r.numTokens ∧ mergeVerifyWindows = false then
    (List.range' r.seqLen r.numTokens).map fun pos => ⟨r.blockIds, pos, 1⟩
  else [⟨r.blockIds, r.seqLen, r.numTokens⟩]

/-- The segment of a prefill request. -/
def PrefillRequest.segment (r : PrefillRequest) : Segment := ⟨r.blockIds, r.startPos, r.numTokens⟩

/-- The segments of a step. -/
def stepSegments (decodeRequests : List DecodeRequest) (prefillRequests : List PrefillRequest)
    (mergeVerifyWindows : Bool) : List Segment :=
  decodeRequests.flatMap (DecodeRequest.segments mergeVerifyWindows) ++
    prefillRequests.map PrefillRequest.segment

/-- The requests of a step, each as one span of rows. -/
def requestSpans (decodeRequests : List DecodeRequest) (prefillRequests : List PrefillRequest) :
    List Segment :=
  decodeRequests.map (fun r => ⟨r.blockIds, r.seqLen, r.numTokens⟩) ++
    prefillRequests.map PrefillRequest.segment

/-- The packed rows of a step. -/
def packedTokens (decodeRequests : List DecodeRequest) (prefillRequests : List PrefillRequest) :
    List (List (List ℕ) × ℕ) :=
  (requestSpans decodeRequests prefillRequests).flatMap Segment.tokens

theorem tokens_segments (merge : Bool) (r : DecodeRequest) :
    (r.segments merge).flatMap Segment.tokens =
      Segment.tokens ⟨r.blockIds, r.seqLen, r.numTokens⟩ := by
  unfold DecodeRequest.segments
  split
  · rw [List.flatMap_map]
    simp only [Segment.tokens, List.range'_one, List.map_singleton]
    exact List.map_eq_flatMap.symm
  · exact List.flatMap_singleton _ _

/-- **Both layouts pack the same rows.** -/
theorem tokens_stepSegments (decodeRequests : List DecodeRequest)
    (prefillRequests : List PrefillRequest) (merge : Bool) :
    (stepSegments decodeRequests prefillRequests merge).flatMap Segment.tokens =
      packedTokens decodeRequests prefillRequests := by
  unfold stepSegments packedTokens requestSpans
  rw [List.flatMap_append, List.flatMap_append, List.flatMap_assoc,
    List.flatMap_map fun r : DecodeRequest => Segment.mk r.blockIds r.seqLen r.numTokens]
  congr 1
  exact List.flatMap_congr fun r _ => tokens_segments merge r

/-! ### The packing computes the segments' metadata -/

/-- The tables reach every position below `stop`, in each group. -/
def Covered (blockSizes : List ℕ) (blockIds : List (List ℕ)) (stop : ℕ) : Prop :=
  ∀ g B : ℕ, blockSizes[g]? = some B →
    ∃ table : List ℕ, blockIds[g]? = some table ∧ Mapped B table stop

/-- The tables have a block for each of the `n` positions from `start` on, in each group. -/
def Reached (blockSizes : List ℕ) (blockIds : List (List ℕ)) (start n : ℕ) : Prop :=
  ∀ g B : ℕ, blockSizes[g]? = some B →
    ∃ table : List ℕ, blockIds[g]? = some table ∧
      ∀ pos, start ≤ pos → pos < start + n → pos / B < table.length

theorem Covered.reached {blockSizes : List ℕ} {blockIds : List (List ℕ)} {start n : ℕ}
    (h : Covered blockSizes blockIds (start + n)) : Reached blockSizes blockIds start n := by
  intro g B hB
  obtain ⟨table, htable, hmapped⟩ := h g B hB
  exact ⟨table, htable, fun pos _ hpos => hmapped.div_lt hpos⟩

/-- The group contexts of a list of segments, for the groups from `i` on. -/
def groupsOf (segs : List Segment) : ℕ → List ℕ → List PagedKVGroupContext
  | _, [] => []
  | i, B :: blockSizes =>
      ⟨segs.flatMap (Segment.slots B i), segs.map (Segment.table i), B⟩ ::
        groupsOf segs (i + 1) blockSizes

theorem getElem?_groupsOf (segs : List Segment) (blockSizes : List ℕ) (i g : ℕ) :
    (groupsOf segs i blockSizes)[g]? = (blockSizes[g]?).map fun B =>
      ⟨segs.flatMap (Segment.slots B (i + g)), segs.map (Segment.table (i + g)), B⟩ := by
  induction blockSizes generalizing i g with
  | nil => simp [groupsOf]
  | cons B blockSizes ih =>
    cases g with
    | zero => simp [groupsOf]
    | succ g =>
      rw [groupsOf, List.getElem?_cons_succ, ih, List.getElem?_cons_succ]
      simp only [show i + 1 + g = i + (g + 1) by omega]

theorem groupsOf_nil (blockSizes : List ℕ) (i : ℕ) :
    groupsOf [] i blockSizes = blockSizes.map fun blockSize => ⟨[], [], blockSize⟩ := by
  induction blockSizes generalizing i with
  | nil => rfl
  | cons B blockSizes ih => simp [groupsOf, ih]

theorem slotsFrom_ok {B : ℕ} {table : List ℕ} (groupIndex start n : ℕ)
    (hreach : ∀ pos, start ≤ pos → pos < start + n → pos / B < table.length) :
    slotsFrom groupIndex B table start n =
      .ok ((List.range' start n).map (cellOf B table)) := by
  induction n generalizing start with
  | zero => rfl
  | succ n ih =>
    have hlt : start / B < table.length := hreach start (Nat.le_refl _) (by omega)
    have hget : table[start / B]? = some (pageOf B table start) := (pageOf_eq_iff hlt).mp rfl
    have hrest := ih (start + 1) fun pos hle hlt => hreach pos (by omega) (by omega)
    rw [slotsFrom, hget, hrest, List.range'_succ, List.map_cons]
    rfl

/-- The loop over the groups appends the segments of the request. -/
theorem pushGroups_ok (blockIds : List (List ℕ)) (start n : ℕ) (new : List Segment)
    (hblocks : ∀ s ∈ new, s.blockIds = blockIds)
    (hrows : new.flatMap (fun s => List.range' s.first s.rows) = List.range' start n)
    (segs : List Segment) (blockSizes : List ℕ) (i : ℕ)
    (hcov : ∀ g B : ℕ, blockSizes[g]? = some B →
      ∃ table : List ℕ, blockIds[i + g]? = some table ∧
        ∀ pos, start ≤ pos → pos < start + n → pos / B < table.length) :
    pushGroups blockIds start n new.length i (groupsOf segs i blockSizes) =
      .ok (groupsOf (segs ++ new) i blockSizes) := by
  induction blockSizes generalizing i with
  | nil => rfl
  | cons B blockSizes ih =>
    obtain ⟨table, htable, hreach⟩ := hcov 0 B rfl
    rw [Nat.add_zero] at htable
    have hrest := ih (i + 1) fun g B' hB' => by
      have h := hcov (g + 1) B' hB'
      rwa [show i + (g + 1) = i + 1 + g by omega] at h
    have htab : ∀ s ∈ new, s.table i = table := by
      intro s hs
      rw [Segment.table, hblocks s hs, List.getD_eq_getElem?_getD, htable]
      rfl
    have hslots : new.flatMap (Segment.slots B i) =
        (List.range' start n).map (cellOf B table) := by
      rw [← hrows, List.map_flatMap]
      apply List.flatMap_congr
      intro s hs
      rw [Segment.slots, htab s hs]
    have htables : new.map (Segment.table i) = List.replicate new.length table := by
      rw [List.map_congr_left htab, List.map_const']
    simp only [groupsOf, pushGroups, htable, slotsFrom_ok i start n hreach, hrest,
      List.flatMap_append, List.map_append, hslots, htables]

/-- The packed lists are those of the segments. -/
structure Represents (blockSizes : List ℕ) (segs : List Segment) (p : Packed) : Prop where
  groups : p.groups = groupsOf segs 0 blockSizes
  cuSeqlens : p.cuSeqlens = boundaries (segs.map Segment.rows)
  contextLens : p.contextLens = segs.map fun s => s.first + s.rows
  offsets : p.offsets = segs.map Segment.first

/-- The metadata of one more segment, once its group contexts are in place. -/
theorem Represents.pushSegment {blockSizes : List ℕ} {segs : List Segment} {p : Packed}
    {s : Segment} (hgroups : p.groups = groupsOf (segs ++ [s]) 0 blockSizes)
    (hcu : p.cuSeqlens = boundaries (segs.map Segment.rows))
    (hctx : p.contextLens = segs.map fun s => s.first + s.rows)
    (hoff : p.offsets = segs.map Segment.first) :
    Represents blockSizes (segs ++ [s]) (p.pushSegment s.first s.rows) where
  groups := hgroups
  cuSeqlens := by
    rw [List.map_append, List.map_singleton, boundaries_concat]
    simp only [Packed.pushSegment, hcu, getLastD_boundaries]
  contextLens := by simp [Packed.pushSegment, hctx]
  offsets := by simp [Packed.pushSegment, hoff]

section Push

variable {blockSizes : List ℕ} {segs : List Segment} {p : Packed}

/-- The row segments of an expanded window, pushed one by one. -/
theorem foldl_pushSegment (blockIds : List (List ℕ)) (all : List Segment) (positions : List ℕ)
    (segs : List Segment) (p : Packed)
    (hall : all = segs ++ positions.map fun pos => ⟨blockIds, pos, 1⟩)
    (hgroups : p.groups = groupsOf all 0 blockSizes)
    (hcu : p.cuSeqlens = boundaries (segs.map Segment.rows))
    (hctx : p.contextLens = segs.map fun s => s.first + s.rows)
    (hoff : p.offsets = segs.map Segment.first) :
    Represents blockSizes all (positions.foldl (fun p pos => p.pushSegment pos 1) p) := by
  induction positions generalizing segs p with
  | nil =>
    rw [List.map_nil, List.append_nil] at hall
    subst hall
    exact ⟨hgroups, hcu, hctx, hoff⟩
  | cons pos positions ih =>
    rw [List.foldl_cons]
    apply ih (segs ++ [⟨blockIds, pos, 1⟩]) (p.pushSegment pos 1)
    · simpa using hall
    · exact hgroups
    · rw [List.map_append, List.map_singleton, boundaries_concat]
      simp only [Packed.pushSegment, hcu, getLastD_boundaries]
    · simp [Packed.pushSegment, hctx]
    · simp [Packed.pushSegment, hoff]

theorem maxDecodeContextLen_foldl (positions : List ℕ) (p : Packed) :
    (positions.foldl (fun p pos => p.pushSegment pos 1) p).maxDecodeContextLen =
      p.maxDecodeContextLen := by
  induction positions generalizing p with
  | nil => rfl
  | cons pos positions ih => exact ih _

theorem pushDecode_ok (merge : Bool) {r : DecodeRequest} (h : Represents blockSizes segs p)
    (hcov : Reached blockSizes r.blockIds r.seqLen r.numTokens) :
    ∃ p', pushDecode merge p r = .ok p' ∧ Represents blockSizes (segs ++ r.segments merge) p' ∧
      p'.maxDecodeContextLen = max p.maxDecodeContextLen (r.seqLen + r.numTokens) := by
  have hgroups := fun new hblocks hrows => pushGroups_ok r.blockIds r.seqLen r.numTokens new
    hblocks hrows segs blockSizes 0 fun g B hB => by
      rw [Nat.zero_add]
      exact hcov g B hB
  unfold pushDecode DecodeRequest.segments
  by_cases hexp : 1 < r.numTokens ∧ merge = false
  · -- one segment a row
    have hpush := hgroups ((List.range' r.seqLen r.numTokens).map fun pos => ⟨r.blockIds, pos, 1⟩)
      (fun s hs => by obtain ⟨pos, -, rfl⟩ := List.mem_map.mp hs; rfl) (by simp [List.flatMap_map])
    rw [List.length_map, List.length_range'] at hpush
    simp only [hexp, and_self, if_true, h.groups, hpush]
    refine ⟨_, rfl, foldl_pushSegment r.blockIds _ _ segs _ rfl rfl h.cuSeqlens h.contextLens
      h.offsets, maxDecodeContextLen_foldl _ _⟩
  · -- the request is one segment
    have hpush := hgroups [⟨r.blockIds, r.seqLen, r.numTokens⟩] (by simp) (by simp)
    rw [List.length_singleton] at hpush
    simp only [hexp, if_false, h.groups, hpush]
    have hrep := Represents.pushSegment (p := { p with
        groups := groupsOf (segs ++ [⟨r.blockIds, r.seqLen, r.numTokens⟩]) 0 blockSizes
        numDecodeTokens := p.numDecodeTokens + r.numTokens
        maxDecodeContextLen := max p.maxDecodeContextLen (r.seqLen + r.numTokens) })
      rfl h.cuSeqlens h.contextLens h.offsets
    exact ⟨_, rfl, ⟨hrep.groups, hrep.cuSeqlens, hrep.contextLens, hrep.offsets⟩, rfl⟩

theorem pushPrefill_ok {r : PrefillRequest} (h : Represents blockSizes segs p)
    (hcov : Reached blockSizes r.blockIds r.startPos r.numTokens) :
    ∃ p', pushPrefill p r = .ok p' ∧ Represents blockSizes (segs ++ [r.segment]) p' ∧
      p'.maxDecodeContextLen = p.maxDecodeContextLen := by
  have hpush := pushGroups_ok r.blockIds r.startPos r.numTokens [r.segment]
    (by simp [PrefillRequest.segment]) (by simp [PrefillRequest.segment])
    segs blockSizes 0 fun g B hB => by
      rw [Nat.zero_add]
      exact hcov g B hB
  rw [List.length_singleton] at hpush
  simp only [pushPrefill, h.groups, hpush]
  exact ⟨_, rfl, Represents.pushSegment (s := r.segment) rfl h.cuSeqlens h.contextLens h.offsets,
    rfl⟩

theorem pushDecodes_ok (merge : Bool) (rs : List DecodeRequest)
    (hcov : ∀ r ∈ rs, Reached blockSizes r.blockIds r.seqLen r.numTokens)
    (h : Represents blockSizes segs p) : ∃ p', rs.foldlM (pushDecode merge) p = .ok p' ∧
      Represents blockSizes (segs ++ rs.flatMap (DecodeRequest.segments merge)) p' ∧
      p'.maxDecodeContextLen =
        (rs.map fun r => r.seqLen + r.numTokens).foldl max p.maxDecodeContextLen := by
  induction rs generalizing segs p with
  | nil => exact ⟨p, rfl, by simpa using h, rfl⟩
  | cons r rs ih =>
    obtain ⟨p₁, hpush, hrep, hmax⟩ := pushDecode_ok merge h (hcov r List.mem_cons_self)
    obtain ⟨p', hrest, hrep', hmax'⟩ :=
      ih (fun r' hr' => hcov r' (List.mem_cons_of_mem _ hr')) hrep
    refine ⟨p', ?_, by simpa using hrep', by rw [hmax', hmax]; rfl⟩
    rw [List.foldlM_cons, hpush]
    exact hrest

theorem pushPrefills_ok (rs : List PrefillRequest)
    (hcov : ∀ r ∈ rs, Reached blockSizes r.blockIds r.startPos r.numTokens)
    (h : Represents blockSizes segs p) : ∃ p', rs.foldlM pushPrefill p = .ok p' ∧
      Represents blockSizes (segs ++ rs.map PrefillRequest.segment) p' ∧
      p'.maxDecodeContextLen = p.maxDecodeContextLen := by
  induction rs generalizing segs p with
  | nil => exact ⟨p, rfl, by simpa using h, rfl⟩
  | cons r rs ih =>
    obtain ⟨p₁, hpush, hrep, hmax⟩ := pushPrefill_ok h (hcov r List.mem_cons_self)
    obtain ⟨p', hrest, hrep', hmax'⟩ :=
      ih (fun r' hr' => hcov r' (List.mem_cons_of_mem _ hr')) hrep
    refine ⟨p', ?_, by simpa using hrep', hmax'.trans hmax⟩
    rw [List.foldlM_cons, hpush]
    exact hrest

end Push

/-- The metadata of a list of segments. -/
structure ContextOf (blockSizes : List ℕ) (segs : List Segment) (ctx : PagedAttentionContext) :
    Prop where
  kvGroups : ctx.kvGroups = groupsOf segs 0 blockSizes
  cuSeqlens : ctx.cuSeqlens = boundaries (segs.map Segment.rows)
  contextLens : ctx.contextLens = segs.map fun s => s.first + s.rows
  offsets : ctx.offsets = segs.map Segment.first

/-- The longest decode context after the step. -/
def maxDecodeContext (decodeRequests : List DecodeRequest) : ℕ :=
  (decodeRequests.map fun r => r.seqLen + r.numTokens).foldl max 0

/-- The metadata of requests whose rows all have blocks, in either layout. -/
theorem prepareGrouped_reached {decodeRequests : List DecodeRequest}
    {prefillRequests : List PrefillRequest} {blockSizes : List ℕ} (hgroups : blockSizes ≠ [])
    (hdecode : ∀ r ∈ decodeRequests, Reached blockSizes r.blockIds r.seqLen r.numTokens)
    (hprefill : ∀ r ∈ prefillRequests, Reached blockSizes r.blockIds r.startPos r.numTokens)
    (merge : Bool) : ∃ ctx,
      prepareGrouped decodeRequests prefillRequests blockSizes merge = .ok ctx ∧
      ContextOf blockSizes (stepSegments decodeRequests prefillRequests merge) ctx ∧
      ctx.maxDecodeContextLen = maxDecodeContext decodeRequests := by
  have hempty : Represents blockSizes []
      ⟨blockSizes.map fun blockSize => ⟨[], [], blockSize⟩, [0], [], [], 1, 0, 0⟩ :=
    ⟨(groupsOf_nil blockSizes 0).symm, rfl, rfl, rfl⟩
  obtain ⟨p₁, hp₁, hrep₁, hmax₁⟩ := pushDecodes_ok merge decodeRequests hdecode hempty
  obtain ⟨p₂, hp₂, hrep₂, hmax₂⟩ := pushPrefills_ok prefillRequests hprefill hrep₁
  rw [List.nil_append] at hrep₂
  unfold prepareGrouped
  simp only [hp₁, hp₂]
  cases hg : p₂.groups with
  | nil =>
    have hlen := congrArg List.length (hrep₂.groups.symm.trans hg)
    cases blockSizes with
    | nil => exact absurd rfl hgroups
    | cons B blockSizes => simp [groupsOf] at hlen
  | cons group groups =>
    exact ⟨_, rfl, ⟨hg.symm.trans hrep₂.groups, hrep₂.cuSeqlens, hrep₂.contextLens,
      hrep₂.offsets⟩, hmax₂.trans hmax₁⟩

/-- **The metadata is that of the segments**, in either layout. -/
theorem prepareGrouped_ok {decodeRequests : List DecodeRequest}
    {prefillRequests : List PrefillRequest} {blockSizes : List ℕ} (hgroups : blockSizes ≠ [])
    (hdecode : ∀ r ∈ decodeRequests, Covered blockSizes r.blockIds (r.seqLen + r.numTokens))
    (hprefill : ∀ r ∈ prefillRequests, Covered blockSizes r.blockIds (r.startPos + r.numTokens))
    (merge : Bool) : ∃ ctx,
      prepareGrouped decodeRequests prefillRequests blockSizes merge = .ok ctx ∧
      ContextOf blockSizes (stepSegments decodeRequests prefillRequests merge) ctx ∧
      ctx.maxDecodeContextLen = maxDecodeContext decodeRequests :=
  prepareGrouped_reached hgroups (fun r hr => (hdecode r hr).reached)
    (fun r hr => (hprefill r hr).reached) merge

/-! ### Rows -/

section Rows

variable {blockSizes : List ℕ} {segs : List Segment} {ctx : PagedAttentionContext}

theorem length_tokens (s : Segment) : s.tokens.length = s.rows := by simp [Segment.tokens]

/-- The kernel's search finds the segment of a packed row. -/
theorem ContextOf.row (h : ContextOf blockSizes segs ctx) {k : ℕ} {blockIds : List (List ℕ)}
    {pos : ℕ} (hk : (segs.flatMap Segment.tokens)[k]? = some (blockIds, pos)) :
    ∃ s j, segs[rowSegment ctx k]? = some s ∧ j < s.rows ∧
      ctx.cuSeqlens.getD (rowSegment ctx k) 0 + j = k ∧ s.blockIds = blockIds ∧
      s.first + j = pos := by
  have hlens : segs.map (fun s => s.tokens.length) = segs.map Segment.rows :=
    List.map_congr_left fun s _ => length_tokens s
  have htotal : k < (segs.map Segment.rows).sum := by
    have := (List.getElem?_eq_some_iff.mp hk).1
    rwa [List.length_flatMap, hlens] at this
  obtain ⟨i, n, hi, hn, hlo, hhi⟩ := searchSegment_spec htotal
  have hrow : rowSegment ctx k = i := by
    rw [rowSegment, h.cuSeqlens, h.contextLens, ← hi]
    simp
  rw [List.getElem?_map, Option.map_eq_some_iff] at hn
  obtain ⟨s, hs, rfl⟩ := hn
  refine ⟨s, k - (boundaries (segs.map Segment.rows)).getD i 0, by rw [hrow]; exact hs, by omega,
    by rw [hrow, h.cuSeqlens]; omega, ?_⟩
  have htoken := getElem?_flatMap_boundary (f := Segment.tokens) hs
    (j := k - (boundaries (segs.map Segment.rows)).getD i 0) (by rw [length_tokens]; omega)
  rw [hlens, Nat.add_sub_cancel' hlo, hk, Segment.tokens, List.getElem?_map,
    List.getElem?_range' (by omega)] at htoken
  simp only [Option.map_some, Option.some.injEq, Prod.mk.injEq, Nat.one_mul] at htoken
  exact ⟨htoken.1.symm, htoken.2.symm⟩

/-- **A packed row has its position, and sees exactly the positions up to it.** -/
theorem ContextOf.rowPosition (h : ContextOf blockSizes segs ctx) {k : ℕ}
    {blockIds : List (List ℕ)} {pos : ℕ}
    (hk : (segs.flatMap Segment.tokens)[k]? = some (blockIds, pos)) :
    rowPosition ctx k = pos ∧ rowVisible ctx k = pos + 1 := by
  obtain ⟨s, j, hs, hj, hcu, -, hpos⟩ := h.row hk
  have hoff : ctx.offsets.getD (rowSegment ctx k) 0 = s.first := by
    rw [h.offsets, List.getD_eq_getElem?_getD, List.getElem?_map, hs]
    rfl
  have hctx : ctx.contextLens.getD (rowSegment ctx k) 0 = s.first + s.rows := by
    rw [h.contextLens, List.getD_eq_getElem?_getD, List.getElem?_map, hs]
    rfl
  have hnext : ctx.cuSeqlens.getD (rowSegment ctx k + 1) 0 =
      ctx.cuSeqlens.getD (rowSegment ctx k) 0 + s.rows := by
    rw [h.cuSeqlens]
    exact getD_boundaries_succ (by rw [List.getElem?_map, hs]; rfl)
  constructor
  · rw [Attention.rowPosition, hoff]
    omega
  · simp only [rowVisible, hctx, hnext]
    omega

/-- The `k`-th slot of a group is the cell of the `k`-th packed row. -/
theorem slots_eq_map_tokens (B g : ℕ) (segs : List Segment) :
    segs.flatMap (Segment.slots B g) = (segs.flatMap Segment.tokens).map fun token =>
      cellOf B (token.1.getD g []) token.2 := by
  rw [List.map_flatMap]
  apply List.flatMap_congr
  intro s _
  rw [Segment.slots, Segment.tokens, List.map_map]
  rfl

/-- **The kernel's tables name the scheduler's cells.** -/
theorem kernelCell_buildBlockTables {sizes : List ℕ} {tables : List (List ℕ)} {B : ℕ}
    (hB : 0 < B) {kernelTables : List (List ℕ) × ℕ}
    (h : buildBlockTables sizes tables B = some kernelTables) {i p : ℕ} {table : List ℕ}
    (htable : tables[i]? = some table) (hp : p / B < table.length) :
    kernelCell kernelTables i p = cellOf B table p := by
  have hpad : ∃ padding, (padTables tables).getD i [] = table ++ padding := by
    refine ⟨List.replicate ((tables.map List.length).foldl max 0 - table.length) 0, ?_⟩
    rw [padTables, List.getD_eq_getElem?_getD, List.getElem?_map, htable]
    rfl
  obtain ⟨padding, hpad⟩ := hpad
  unfold buildBlockTables at h
  split at h
  · next hnil => simp [hnil] at htable
  · split at h
    · rw [Option.some.injEq] at h
      rw [← h, kernelCell, hpad, cellOf_append B padding hp]
    · rw [Option.map_eq_some_iff] at h
      obtain ⟨kernelBs, hpick, rfl⟩ := h
      have hdvd : kernelBs ∣ B :=
        Nat.dvd_of_mod_eq_zero (by simpa using List.find?_some hpick)
      have hsplit : ((padTables tables).map (splitTable (B / kernelBs))).getD i [] =
          splitTable (B / kernelBs) ((padTables tables).getD i []) := by
        rw [List.getD_eq_getElem?_getD, List.getD_eq_getElem?_getD, List.getElem?_map]
        cases (padTables tables)[i]? <;> rfl
      have hratio : 0 < B / kernelBs := Nat.div_pos (Nat.le_of_dvd hB hdvd)
        (Nat.pos_of_dvd_of_pos hdvd hB)
      have hmul : kernelBs * (B / kernelBs) = B := Nat.mul_div_cancel' hdvd
      rw [kernelCell, hsplit, hpad, cellOf_splitTable hratio _ (by
        rw [hmul, List.length_append]; omega), hmul, cellOf_append B padding hp]

end Rows

/-! ### Disjoint writes -/

/-- The blocks a span of rows writes, in a group. -/
def Segment.writtenBlocks (B g : ℕ) (s : Segment) : List ℕ :=
  ((List.range' s.first s.rows).map (· / B)).dedup.map fun i => (s.table g).getD i 0

theorem Segment.mem_writtenBlocks {B g p : ℕ} {s : Segment}
    (hp : p ∈ List.range' s.first s.rows) : pageOf B (s.table g) p ∈ s.writtenBlocks B g :=
  List.mem_map_of_mem (List.mem_dedup.mpr (List.mem_map_of_mem hp))

/-- **Rows that write disjoint blocks write disjoint slots.** -/
theorem nodup_slots {B g : ℕ} (hB : 0 < B) {spans : List Segment}
    (h : (spans.flatMap (Segment.writtenBlocks B g)).Nodup) :
    (spans.flatMap (Segment.slots B g)).Nodup := by
  rw [List.nodup_flatMap] at h ⊢
  obtain ⟨hself, hdisjoint⟩ := h
  constructor
  · intro s hs
    apply List.Nodup.map_on _ List.nodup_range'
    intro p hp q hq hcell
    obtain ⟨hblock, hoff⟩ := (cellOf_eq_iff hB).mp hcell
    have hdiv : p / B = q / B := List.inj_on_of_nodup_map (hself s hs)
      (List.mem_dedup.mpr (List.mem_map_of_mem hp)) (List.mem_dedup.mpr (List.mem_map_of_mem hq))
      hblock
    rw [← Nat.div_add_mod p B, ← Nat.div_add_mod q B, hdiv, hoff]
  · apply hdisjoint.imp
    intro s t hst slot hs ht
    obtain ⟨p, hp, rfl⟩ := List.mem_map.mp hs
    obtain ⟨q, hq, hcell⟩ := List.mem_map.mp ht
    have hblock := ((cellOf_eq_iff hB).mp hcell).1
    exact hst (Segment.mem_writtenBlocks hp) (hblock ▸ Segment.mem_writtenBlocks hq)

/-! ### One memory -/

/-- The metadata gives every packed row its slot, its position and its keys, and every
segment's kernel tables reach the scheduler's cells. -/
structure Addressed (sizes blockSizes : List ℕ) (tokens : List (List (List ℕ) × ℕ))
    (ctx : PagedAttentionContext) : Prop where
  rows : ∀ (k : ℕ) blockIds pos, tokens[k]? = some (blockIds, pos) →
    rowPosition ctx k = pos ∧ rowVisible ctx k = pos + 1
  groups : ∀ g B : ℕ, blockSizes[g]? = some B → ∃ group tables,
    ctx.kvGroups[g]? = some group ∧
    group.slotMapping = tokens.map (fun token => cellOf B (token.1.getD g []) token.2) ∧
    buildBlockTables sizes group.blockTables group.blockSize = some tables ∧
    (∀ i p : ℕ, p < ctx.contextLens.getD i 0 →
      kernelCell tables i p = cellOf B (group.blockTables.getD i []) p) ∧
    ∀ (k : ℕ) blockIds pos, tokens[k]? = some (blockIds, pos) → ∀ p, p ≤ pos →
      kernelCell tables (rowSegment ctx k) p = cellOf B (blockIds.getD g []) p

/-- Every segment of a layout is covered where its request is. -/
theorem covered_of_mem_stepSegments {decodeRequests : List DecodeRequest}
    {prefillRequests : List PrefillRequest} {blockSizes : List ℕ} {merge : Bool} {s : Segment}
    (hdecode : ∀ r ∈ decodeRequests, Covered blockSizes r.blockIds (r.seqLen + r.numTokens))
    (hprefill : ∀ r ∈ prefillRequests, Covered blockSizes r.blockIds (r.startPos + r.numTokens))
    (hs : s ∈ stepSegments decodeRequests prefillRequests merge) :
    Covered blockSizes s.blockIds (s.first + s.rows) := by
  rw [stepSegments, List.mem_append, List.mem_flatMap, List.mem_map] at hs
  rcases hs with ⟨r, hr, hs⟩ | ⟨r, hr, rfl⟩
  · have hcov := hdecode r hr
    unfold DecodeRequest.segments at hs
    split at hs
    · obtain ⟨pos, hpos, rfl⟩ := List.mem_map.mp hs
      intro g B hB
      obtain ⟨table, htable, hmapped⟩ := hcov g B hB
      rw [List.mem_range'_1] at hpos
      exact ⟨table, htable, hmapped.mono hpos.2⟩
    · rw [List.mem_singleton] at hs
      subst hs
      exact hcov
  · exact hprefill r hr

theorem ContextOf.addressed {sizes blockSizes : List ℕ} {segs : List Segment}
    {ctx : PagedAttentionContext} (h : ContextOf blockSizes segs ctx)
    (hpos : ∀ B ∈ blockSizes, 0 < B)
    (hcov : ∀ s ∈ segs, Covered blockSizes s.blockIds (s.first + s.rows))
    (hsizes : ∀ B ∈ blockSizes, ∃ kbs ∈ sizes, kbs ∣ B) :
    Addressed sizes blockSizes (segs.flatMap Segment.tokens) ctx where
  rows := fun k blockIds pos hk => h.rowPosition hk
  groups := by
    intro g B hB
    have hgroup : ctx.kvGroups[g]? = some
        ⟨segs.flatMap (Segment.slots B g), segs.map (Segment.table g), B⟩ := by
      rw [h.kvGroups, getElem?_groupsOf, hB, Nat.zero_add]
      rfl
    obtain ⟨kbs, hkbs, hdvd⟩ := hsizes B (List.mem_of_getElem? hB)
    obtain ⟨tables, htables⟩ : ∃ tables,
        buildBlockTables sizes (segs.map (Segment.table g)) B = some tables := by
      unfold buildBlockTables
      split
      · exact ⟨_, rfl⟩
      · split
        · exact ⟨_, rfl⟩
        · cases hpick : pickKernelBlockSize sizes B with
          | none =>
            rw [pickKernelBlockSize, List.find?_eq_none] at hpick
            exact absurd (Nat.mod_eq_zero_of_dvd hdvd) (by simpa using hpick kbs hkbs)
          | some k => exact ⟨_, rfl⟩
    -- every key of a segment is in a block its table has
    have hkey : ∀ i s, segs[i]? = some s → ∀ p, p < s.first + s.rows →
        kernelCell tables i p = cellOf B (s.table g) p := by
      intro i s hs p hp
      obtain ⟨table, htable, hmapped⟩ := hcov s (List.mem_of_getElem? hs) g B hB
      have htab : s.table g = table := by
        rw [Segment.table, List.getD_eq_getElem?_getD, htable]
        rfl
      rw [htab]
      apply kernelCell_buildBlockTables (hpos B (List.mem_of_getElem? hB)) htables _
        (hmapped.div_lt hp)
      rw [List.getElem?_map, hs, ← htab]
      rfl
    refine ⟨_, tables, hgroup, slots_eq_map_tokens B g segs, htables, fun i p hp => ?_,
      fun k blockIds pos hk p hp => ?_⟩
    · rw [h.contextLens, List.getD_eq_getElem?_getD, List.getElem?_map] at hp
      cases hs : segs[i]? with
      | none => simp [hs] at hp
      | some s =>
        rw [hs] at hp
        rw [hkey i s hs p hp, List.getD_eq_getElem?_getD, List.getElem?_map, hs]
        rfl
    · obtain ⟨s, j, hs, hj, -, hblocks, hpos⟩ := h.row hk
      rw [hkey _ s hs p (by omega), Segment.table, hblocks]

/-- **The metadata of a step addresses one memory.**  For any requests whose tables reach
their last rows, any groups and any kernel block sizes of which one divides each group's,
both layouts are computed; each gives the `k`-th row its slot, its absolute position and
exactly the positions up to it as keys, and reaches every key of a segment in the cell its
writer used; the layouts agree row by row; the decode context length is the maximum; and
rows that write disjoint blocks share no slot. -/
theorem prepareGrouped_addresses_one_memory {decodeRequests : List DecodeRequest}
    {prefillRequests : List PrefillRequest} {blockSizes sizes : List ℕ}
    (hgroups : blockSizes ≠ []) (hpos : ∀ B ∈ blockSizes, 0 < B)
    (hdecode : ∀ r ∈ decodeRequests, Covered blockSizes r.blockIds (r.seqLen + r.numTokens))
    (hprefill : ∀ r ∈ prefillRequests, Covered blockSizes r.blockIds (r.startPos + r.numTokens))
    (hsizes : ∀ B ∈ blockSizes, ∃ kbs ∈ sizes, kbs ∣ B) :
    ∃ merged expanded,
      prepareGrouped decodeRequests prefillRequests blockSizes true = .ok merged ∧
      prepareGrouped decodeRequests prefillRequests blockSizes false = .ok expanded ∧
      Addressed sizes blockSizes (packedTokens decodeRequests prefillRequests) merged ∧
      Addressed sizes blockSizes (packedTokens decodeRequests prefillRequests) expanded ∧
      (∀ k, k < (packedTokens decodeRequests prefillRequests).length →
        rowPosition merged k = rowPosition expanded k ∧
        rowVisible merged k = rowVisible expanded k) ∧
      merged.kvGroups.map PagedKVGroupContext.slotMapping =
        expanded.kvGroups.map PagedKVGroupContext.slotMapping ∧
      merged.maxDecodeContextLen = maxDecodeContext decodeRequests ∧
      expanded.maxDecodeContextLen = maxDecodeContext decodeRequests ∧
      ∀ g B : ℕ, blockSizes[g]? = some B →
        ((requestSpans decodeRequests prefillRequests).flatMap
          (Segment.writtenBlocks B g)).Nodup →
        ∀ group ∈ [merged.kvGroups[g]?, expanded.kvGroups[g]?],
          ∀ c, group = some c → c.slotMapping.Nodup := by
  obtain ⟨merged, hmerged, hctx, hmax⟩ := prepareGrouped_ok hgroups hdecode hprefill true
  obtain ⟨expanded, hexpanded, hctx', hmax'⟩ := prepareGrouped_ok hgroups hdecode hprefill false
  have haddr := hctx.addressed hpos
    (fun s hs => covered_of_mem_stepSegments hdecode hprefill hs) hsizes
  have haddr' := hctx'.addressed hpos
    (fun s hs => covered_of_mem_stepSegments hdecode hprefill hs) hsizes
  rw [tokens_stepSegments] at haddr haddr'
  refine ⟨merged, expanded, hmerged, hexpanded, haddr, haddr', fun k hk => ?_, ?_, hmax, hmax',
    fun g B hB hwritten group hgroup c hc => ?_⟩
  -- a row of either form belongs to its token
  · have htoken := List.getElem?_eq_getElem hk
    have hrow := haddr.rows k _ _ htoken
    have hrow' := haddr'.rows k _ _ htoken
    exact ⟨hrow.1.trans hrow'.1.symm, hrow.2.trans hrow'.2.symm⟩
  -- the slots of a group are those of the tokens, whichever way they are grouped
  · rw [hctx.kvGroups, hctx'.kvGroups]
    apply List.ext_getElem?
    intro g
    rw [List.getElem?_map, List.getElem?_map, getElem?_groupsOf, getElem?_groupsOf]
    cases blockSizes[g]? with
    | none => rfl
    | some B =>
      simp only [Option.map_some, slots_eq_map_tokens, tokens_stepSegments]
  -- no two tokens write one cell, so no slot occurs twice in either form
  · have hslots : ∀ d : PagedAttentionContext,
        Addressed sizes blockSizes (packedTokens decodeRequests prefillRequests) d →
        d.kvGroups[g]? = some c → c.slotMapping.Nodup := by
      intro d hd hget
      obtain ⟨group', -, hgroup', hmap, -⟩ := hd.groups g B hB
      rw [hget, Option.some.injEq] at hgroup'
      rw [hgroup', hmap, packedTokens, ← slots_eq_map_tokens]
      exact nodup_slots (hpos B (List.mem_of_getElem? hB)) hwritten
    simp only [List.mem_cons, List.not_mem_nil, or_false] at hgroup
    rcases hgroup with rfl | rfl
    · exact hslots merged haddr hc
    · exact hslots expanded haddr' hc

/-- A window of three rows across a block boundary and a prefill chunk, in one group whose
blocks of 24 split into kernel blocks of 8. -/
theorem prepareGrouped_addresses_window : ∃ merged expanded,
    prepareGrouped [⟨[[4, 2]], 22, 3⟩] [⟨[[7]], 2, 0⟩] [24] true = .ok merged ∧
    prepareGrouped [⟨[[4, 2]], 22, 3⟩] [⟨[[7]], 2, 0⟩] [24] false = .ok expanded ∧
    Addressed kernelBlockSizes [24] (packedTokens [⟨[[4, 2]], 22, 3⟩] [⟨[[7]], 2, 0⟩]) merged ∧
    Addressed kernelBlockSizes [24] (packedTokens [⟨[[4, 2]], 22, 3⟩] [⟨[[7]], 2, 0⟩])
      expanded := by
  have hcov : ∀ (table : List ℕ) (stop : ℕ), stop ≤ 24 * table.length →
      Covered [24] [table] stop := by
    intro table stop hstop g B hB
    cases g with
    | zero =>
      obtain rfl := Option.some.inj hB
      exact ⟨table, rfl, hstop⟩
    | succ g => simp at hB
  obtain ⟨merged, expanded, hmerged, hexpanded, haddr, haddr', -⟩ :=
    @prepareGrouped_addresses_one_memory [⟨[[4, 2]], 22, 3⟩] [⟨[[7]], 2, 0⟩] [24]
      kernelBlockSizes (by simp) (by simp) (by simpa using hcov [4, 2] 25 (by simp))
      (by simpa using hcov [7] 2 (by simp)) (by simpa using ⟨8, by decide, by decide⟩)
  exact ⟨merged, expanded, hmerged, hexpanded, haddr, haddr'⟩

end Attention
end VllmMetal
