import VllmMetal.Lib.Ragged

/-!
# Scratch of the GQA decode path

A pure decode batch is computed in two passes: a producer writes a partial result for every
partition of every context and query head, and a reducer merges them.  The partials are laid out
densely, with room for the longest context at every sequence, or compactly, by the prefix sums of
the partition counts; the host chooses, and checks the size against a budget by dividing it.

## Main definitions

* `gqaDecodeLengthPlan`, `gqaCompactOffsets`, `gqaScratchFits` — the host.
* `gqaProducerWrites`, `gqaReducerReads` — the partials the kernels address, with their slots.
* `gqaScratchSlots`, `gqaScratchBytes` — what is allocated.

## Main results

* `mem_gqaProducerWrites`, `mem_gqaReducerReads` — both kernels address the same partials.
* `compactSlot_inj`, `compactSlot_lt` — the compact slots are distinct and allocated.
* `gqa_scratch_disjoint_and_bounded` — the layouts as a whole.
-/

namespace VllmMetal
namespace Attention

/-! ### The host -/

/-- `DIVIDE_ROUND_UP`. -/
def divideRoundUp (n k : ℕ) : ℕ := (n + k - 1) / k

/-- `kGqaMaxScratchBytes`. -/
def gqaMaxScratchBytes : ℕ := 512 * 1024 * 1024

/-- `GqaDecodeLengthPlan`, its pairs in the order of `kGqaPartitionSizes`: 512, then 256. -/
structure GqaDecodeLengthPlan where
  numRequests : ℕ
  maxLength : ℕ
  totalLength : ℕ
  fullPartitions : ℕ × ℕ
  partitionOffsets : Option (List ℕ × List ℕ)
  deriving DecidableEq

/-- The empty plan. -/
def GqaDecodeLengthPlan.empty : GqaDecodeLengthPlan := ⟨0, 0, 0, (0, 0), none⟩

/-- `row.push_back(row.back() + ...)`. -/
def pushOffset (partition length : ℕ) (row : List ℕ) : List ℕ :=
  row ++ [row.getLastD 0 + divideRoundUp length partition]

/-- The loop body of `gqa_decode_length_plan`, on the plan and the offsets. -/
def GqaDecodeLengthPlan.pushLength (state : GqaDecodeLengthPlan × Option (List ℕ × List ℕ))
    (length : ℤ) : Option (GqaDecodeLengthPlan × Option (List ℕ × List ℕ)) :=
  if length ≤ 0 then none
  else
    let n := length.toNat
    let plan := state.1
    some (
      { plan with
        numRequests := plan.numRequests + 1
        maxLength := max plan.maxLength n
        totalLength := plan.totalLength + n
        fullPartitions := (plan.fullPartitions.1 + n / 512, plan.fullPartitions.2 + n / 256) },
      state.2.map fun offsets => (pushOffset 512 n offsets.1, pushOffset 256 n offsets.2))

/-- `gqa_decode_length_plan`. -/
def gqaDecodeLengthPlan (contextLens : List ℤ) : GqaDecodeLengthPlan :=
  let offsets := if 1 < contextLens.length then some ([0], [0]) else none
  match contextLens.foldlM GqaDecodeLengthPlan.pushLength (.empty, offsets) with
  | none => .empty
  | some (plan, offsets) =>
      if 0 < plan.numRequests then { plan with partitionOffsets := offsets } else plan

/-- `gqa_compact_offsets`. -/
def gqaCompactOffsets (plan : GqaDecodeLengthPlan) (partition maxPartitions : ℕ) :
    Option (List ℕ) :=
  match plan.partitionOffsets with
  | none => none
  | some offsets =>
      let offsets := if partition = 512 then offsets.1 else offsets.2
      if offsets.getLastD 0 < plan.numRequests * maxPartitions then some offsets else none

/-- One round of the loop of `gqa_scratch_fits`. -/
def divideBudget (remaining count : ℕ) : Option ℕ :=
  if count = 0 ∨ remaining < count then none else some (remaining / count)

/-- `gqa_scratch_fits`. -/
def gqaScratchFits (requests heads partitions headSize itemSize : ℕ) (offsets : Option (List ℕ)) :
    Bool :=
  let bytesPerPartition := headSize * itemSize + 2 * 4
  let offsetBytes := match offsets with
    | some offsets => offsets.length * 8
    | none => 0
  if gqaMaxScratchBytes ≤ offsetBytes then false
  else
    let remaining := (gqaMaxScratchBytes - offsetBytes) / bytesPerPartition
    let slots := match offsets with
      | some offsets => offsets.getLastD 0
      | none => requests * partitions
    ([heads, slots].foldlM divideBudget remaining).isSome

/-! ### The kernels -/

/-- `paged_attention_reduce_offset`. -/
def pagedAttentionReduceOffset (queryToken head numHeads partitions headSize : ℕ) : ℕ :=
  (queryToken * numHeads + head) * partitions * headSize

/-- `paged_attention_compact_offset`. -/
def pagedAttentionCompactOffset (sequence head numHeads : ℕ) (partitionOffsets : List ℕ) : ℕ :=
  let start := partitionOffsets.getD sequence 0
  let count := partitionOffsets.getD (sequence + 1) 0 - start
  start * numHeads + head * count

/-- A partial result, and the slot a kernel computes for it. -/
structure GqaPartial where
  sequence : ℕ
  head : ℕ
  partition : ℕ
  slot : ℕ
  deriving DecidableEq

section Kernels

variable (offsets : Option (List ℕ)) (contextLens : List ℕ) (P : ℕ)

/-- The partials that `paged_attention_gqa_decode` writes: a threadgroup for each partition of the
grid, key head and sequence, a simdgroup for each query head of the group. -/
def gqaProducerWrites (numKvHeads group maxNumPartitions : ℕ) : List GqaPartial :=
  (List.range contextLens.length).flatMap fun seqIdx =>
    (List.range numKvHeads).flatMap fun kvHeadIdx =>
      (List.range group).flatMap fun sg =>
        (List.range maxNumPartitions).flatMap fun partitionIdx =>
          let t0 := partitionIdx * P
          if contextLens.getD seqIdx 0 ≤ t0 then []
          else
            let headIdx := kvHeadIdx * group + sg
            let numHeads := numKvHeads * group
            let start := match offsets with
              | some offsets => pagedAttentionCompactOffset seqIdx headIdx numHeads offsets
              | none => (seqIdx * numHeads + headIdx) * maxNumPartitions
            [⟨seqIdx, headIdx, partitionIdx, start + partitionIdx⟩]

/-- The partials that `paged_attention_v2_reduce` reads: a threadgroup for each head and query
token. -/
def gqaReducerReads (cuSeqlensQ : List ℕ) (totalQTokens numHeads maxNumPartitions : ℕ) :
    List GqaPartial :=
  (List.range totalQTokens).flatMap fun qTokenIdx =>
    (List.range numHeads).flatMap fun headIdx =>
      let seqIdx := searchSegment cuSeqlensQ qTokenIdx contextLens.length
      let qSeqStart := cuSeqlensQ.getD seqIdx 0
      let qLen := cuSeqlensQ.getD (seqIdx + 1) 0 - qSeqStart
      let qPosInSeq := qTokenIdx - qSeqStart
      let effectiveContextLen := contextLens.getD seqIdx 0 - qLen + qPosInSeq + 1
      let numPartitions := divideRoundUp effectiveContextLen P
      let statsOffset := match offsets with
        | some offsets => pagedAttentionCompactOffset seqIdx headIdx numHeads offsets
        | none => pagedAttentionReduceOffset qTokenIdx headIdx numHeads maxNumPartitions 1
      (List.range numPartitions).map fun i => ⟨seqIdx, headIdx, i, statsOffset + i⟩

/-- The slots of the scratch arrays. -/
def gqaScratchSlots (requests numHeads partitions : ℕ) : ℕ :=
  match offsets with
  | some offsets => offsets.getLastD 0 * numHeads
  | none => requests * numHeads * partitions

/-- The bytes of the partial outputs, both statistics and the offsets. -/
def gqaScratchBytes (requests numHeads partitions headSize itemSize : ℕ) : ℕ :=
  let slots := gqaScratchSlots offsets requests numHeads partitions
  slots * headSize * itemSize + slots * 4 + slots * 4 + match offsets with
    | some offsets => offsets.length * 8
    | none => 0

/-- The dimensions of the allocated arrays. -/
def gqaScratchDims (requests numHeads partitions headSize : ℕ) : List ℕ :=
  match offsets with
  | some offsets => [offsets.getLastD 0, numHeads, headSize, offsets.length]
  | none => [requests, numHeads, partitions, headSize]

end Kernels

/-! ### The offsets of a plan -/

/-- The partitions of every context. -/
def partitionCounts (P : ℕ) (lens : List ℕ) : List ℕ := lens.map fun n => divideRoundUp n P

theorem pushOffset_boundaries (P n : ℕ) (lens : List ℕ) :
    pushOffset P n (boundaries (partitionCounts P lens)) =
      boundaries (partitionCounts P (lens ++ [n])) := by
  rw [pushOffset, getLastD_boundaries, partitionCounts, partitionCounts, List.map_append,
    List.map_singleton, boundaries_concat]

/-- The loop over positive lengths keeps the prefix sums. -/
theorem foldlM_pushLength (done lens : List ℕ) (hpos : ∀ n ∈ lens, 0 < n)
    (plan : GqaDecodeLengthPlan) (hnum : plan.numRequests = done.length) :
    ∃ plan', (lens.map fun n : ℕ => (n : ℤ)).foldlM GqaDecodeLengthPlan.pushLength
        (plan, some
          (boundaries (partitionCounts 512 done), boundaries (partitionCounts 256 done))) =
      some (plan', some (boundaries (partitionCounts 512 (done ++ lens)),
        boundaries (partitionCounts 256 (done ++ lens)))) ∧
      plan'.numRequests = (done ++ lens).length := by
  induction lens generalizing done plan with
  | nil => exact ⟨plan, by simp, by simpa using hnum⟩
  | cons n lens ih =>
    have hn := hpos n List.mem_cons_self
    obtain ⟨plan', hrest, hnum'⟩ :=
      ih (done ++ [n]) (fun m hm => hpos m (List.mem_cons_of_mem n hm))
      { plan with
        numRequests := plan.numRequests + 1
        maxLength := max plan.maxLength n
        totalLength := plan.totalLength + n
        fullPartitions := (plan.fullPartitions.1 + n / 512, plan.fullPartitions.2 + n / 256) }
      (by simp [hnum])
    rw [List.append_assoc, List.singleton_append] at hrest hnum'
    refine ⟨plan', ?_, hnum'⟩
    rw [List.map_cons, List.foldlM_cons, GqaDecodeLengthPlan.pushLength, if_neg (by omega)]
    simp only [Int.toNat_natCast, Option.map_some, pushOffset_boundaries]
    exact hrest

/-- **The offsets of a plan are the prefix sums of the partition counts.** -/
theorem partitionOffsets_gqaDecodeLengthPlan {lens : List ℕ} (hlen : 2 ≤ lens.length)
    (hpos : ∀ n ∈ lens, 0 < n) :
    (gqaDecodeLengthPlan (lens.map fun n : ℕ => (n : ℤ))).partitionOffsets =
        some (boundaries (partitionCounts 512 lens), boundaries (partitionCounts 256 lens)) ∧
      (gqaDecodeLengthPlan (lens.map fun n : ℕ => (n : ℤ))).numRequests = lens.length := by
  obtain ⟨plan, hplan, hnum⟩ := foldlM_pushLength [] lens hpos .empty rfl
  rw [List.nil_append] at hplan hnum
  have hinit : (some ([0], [0]) : Option (List ℕ × List ℕ)) =
      some (boundaries (partitionCounts 512 []), boundaries (partitionCounts 256 [])) := rfl
  unfold gqaDecodeLengthPlan
  rw [List.length_map, if_pos (by omega), hinit]
  simp only [hplan]
  rw [if_pos (by omega)]
  exact ⟨rfl, hnum⟩

/-! ### What the kernels address -/

/-- The slot of the first partition of a sequence and a head. -/
def gqaStart (offsets : Option (List ℕ)) (numHeads maxNumPartitions seqIdx headIdx : ℕ) : ℕ :=
  match offsets with
  | some offsets => pagedAttentionCompactOffset seqIdx headIdx numHeads offsets
  | none => (seqIdx * numHeads + headIdx) * maxNumPartitions

/-- The partial of a partition of a context, under its slot. -/
structure IsGqaPartial (offsets : Option (List ℕ)) (lens : List ℕ) (P numHeads maxNumPartitions : ℕ)
    (a : GqaPartial) : Prop where
  sequence_lt : a.sequence < lens.length
  head_lt : a.head < numHeads
  partition_lt : a.partition < divideRoundUp (lens.getD a.sequence 0) P
  slot_eq : a.slot = gqaStart offsets numHeads maxNumPartitions a.sequence a.head + a.partition

theorem lt_divideRoundUp {i n P : ℕ} (hP : 0 < P) : i < divideRoundUp n P ↔ i * P < n := by
  rw [divideRoundUp, ← Nat.succ_le_iff, Nat.le_div_iff_mul_le hP, Nat.succ_mul]
  omega

section Kernels

variable {offsets : Option (List ℕ)} {lens : List ℕ} {P : ℕ}

/-- **The producer writes the partitions of every context.** -/
theorem mem_gqaProducerWrites (hP : 0 < P) {numKvHeads group maxNumPartitions : ℕ}
    (hmax : ∀ n ∈ lens, divideRoundUp n P ≤ maxNumPartitions) {a : GqaPartial} :
    a ∈ gqaProducerWrites offsets lens P numKvHeads group maxNumPartitions ↔
      IsGqaPartial offsets lens P (numKvHeads * group) maxNumPartitions a := by
  simp only [gqaProducerWrites, List.mem_flatMap, List.mem_range]
  constructor
  · rintro ⟨seqIdx, hseq, kvHeadIdx, hkv, sg, hsg, partitionIdx, hpart, hmem⟩
    split at hmem
    · cases hmem
    · next hin =>
      obtain rfl := List.mem_singleton.mp hmem
      refine ⟨hseq, ?_, (lt_divideRoundUp hP).mpr (Nat.lt_of_not_le hin), rfl⟩
      calc kvHeadIdx * group + sg < kvHeadIdx * group + group := Nat.add_lt_add_left hsg _
        _ = (kvHeadIdx + 1) * group := (Nat.succ_mul _ _).symm
        _ ≤ numKvHeads * group := Nat.mul_le_mul_right group hkv
  · intro h
    have hlen : lens.getD a.sequence 0 ∈ lens := by
      rw [List.getD_eq_getElem _ _ h.sequence_lt]
      exact List.getElem_mem h.sequence_lt
    have hgroup : 0 < group := Nat.pos_of_ne_zero fun hzero => by
      have := h.head_lt
      rw [hzero, Nat.mul_zero] at this
      omega
    refine ⟨a.sequence, h.sequence_lt, a.head / group,
      Nat.div_lt_of_lt_mul (by rw [Nat.mul_comm]; exact h.head_lt), a.head % group,
      Nat.mod_lt _ hgroup, a.partition, Nat.lt_of_lt_of_le h.partition_lt (hmax _ hlen), ?_⟩
    rw [if_neg (Nat.not_le_of_lt ((lt_divideRoundUp hP).mp h.partition_lt)), Nat.div_add_mod',
      List.mem_singleton]
    obtain ⟨sequence, head, partition, slot⟩ := a
    exact congrArg (GqaPartial.mk sequence head partition) h.slot_eq

/-- **The reducer reads the partitions of every context.** -/
theorem mem_gqaReducerReads (hpos : ∀ n ∈ lens, 0 < n) {numHeads maxNumPartitions : ℕ}
    {a : GqaPartial} :
    a ∈ gqaReducerReads offsets lens P (boundaries (List.replicate lens.length 1)) lens.length
        numHeads maxNumPartitions ↔
      IsGqaPartial offsets lens P numHeads maxNumPartitions a := by
  simp only [gqaReducerReads, List.mem_flatMap, List.mem_range, List.mem_map]
  -- the row of a sequence is the only one, and sees its whole context
  have hrow : ∀ s < lens.length,
      searchSegment (boundaries (List.replicate lens.length 1)) s lens.length = s ∧
      lens.getD s 0 - ((boundaries (List.replicate lens.length 1)).getD (s + 1) 0 -
        (boundaries (List.replicate lens.length 1)).getD s 0) +
        (s - (boundaries (List.replicate lens.length 1)).getD s 0) + 1 = lens.getD s 0 := by
    intro s hs
    constructor
    · have hsearch := @searchSegment_row (List.replicate lens.length 1) s 1 0
        (by rw [List.getElem?_replicate, if_pos hs]) Nat.one_pos
      rwa [getD_boundaries_replicate_one (Nat.le_of_lt hs), Nat.add_zero,
        List.length_replicate] at hsearch
    · have hlen := hpos (lens.getD s 0) (by
        rw [List.getD_eq_getElem _ _ hs]
        exact List.getElem_mem hs)
      rw [getD_boundaries_replicate_one (Nat.le_of_lt hs), getD_boundaries_replicate_one hs]
      omega
  have hoffset : ∀ q h : ℕ, pagedAttentionReduceOffset q h numHeads maxNumPartitions 1 =
      (q * numHeads + h) * maxNumPartitions := fun q h => Nat.mul_one _
  constructor
  · rintro ⟨q, hq, h, hh, i, hi, rfl⟩
    obtain ⟨hseq, hctx⟩ := hrow q hq
    rw [hseq] at hi ⊢
    rw [hctx] at hi
    refine ⟨hq, hh, hi, ?_⟩
    unfold gqaStart
    simp only [hoffset]
  · intro h
    obtain ⟨hseq, hctx⟩ := hrow a.sequence h.sequence_lt
    refine ⟨a.sequence, h.sequence_lt, a.head, h.head_lt, a.partition, ?_, ?_⟩
    · rw [hseq, hctx]
      exact h.partition_lt
    · have hslot := h.slot_eq
      unfold gqaStart at hslot
      simp only [hseq, hoffset]
      obtain ⟨sequence, head, partition, slot⟩ := a
      exact congrArg (GqaPartial.mk sequence head partition) hslot.symm

end Kernels

/-! ### Slots -/

/-- An offset below the stride is read off. -/
theorem mul_add_inj {a b m i j : ℕ} (hi : i < m) (hj : j < m) (h : a * m + i = b * m + j) :
    a = b ∧ i = j := by
  have hm : 0 < m := Nat.lt_of_le_of_lt (Nat.zero_le i) hi
  have hdiv := congrArg (· / m) h
  simp only [Nat.add_comm (_ * m), Nat.add_mul_div_right _ _ hm, Nat.div_eq_of_lt hi,
    Nat.div_eq_of_lt hj, Nat.zero_add] at hdiv
  subst hdiv
  exact ⟨rfl, Nat.add_left_cancel h⟩

theorem mul_add_lt {a m i n : ℕ} (ha : a < n) (hi : i < m) : a * m + i < n * m :=
  calc a * m + i < a * m + m := Nat.add_lt_add_left hi _
    _ = (a + 1) * m := (Nat.succ_mul _ _).symm
    _ ≤ n * m := Nat.mul_le_mul_right m ha

section Slots

variable {counts : List ℕ} {s h i : ℕ} {numHeads : ℕ}

/-- The slot of a partial in the compact layout. -/
def compactSlot (counts : List ℕ) (numHeads s h i : ℕ) : ℕ :=
  pagedAttentionCompactOffset s h numHeads (boundaries counts) + i

theorem compactSlot_eq (counts : List ℕ) (numHeads s h i : ℕ) :
    compactSlot counts numHeads s h i =
      (boundaries counts).getD s 0 * numHeads + (h * counts.getD s 0 + i) := by
  rw [compactSlot, pagedAttentionCompactOffset, getD_boundaries_sub_getD, Nat.add_assoc]

/-- **The partials of a sequence lie between its offsets**, times the heads. -/
theorem compactSlot_mem (hs : s < counts.length) (hh : h < numHeads) (hi : i < counts.getD s 0) :
    (boundaries counts).getD s 0 * numHeads ≤ compactSlot counts numHeads s h i ∧
      compactSlot counts numHeads s h i < (boundaries counts).getD (s + 1) 0 * numHeads := by
  have hsucc : (boundaries counts).getD (s + 1) 0 =
      (boundaries counts).getD s 0 + counts.getD s 0 :=
    getD_boundaries_succ (by rw [List.getD_eq_getElem?_getD, List.getElem?_eq_getElem hs]; rfl)
  rw [compactSlot_eq, hsucc, Nat.add_mul, Nat.mul_comm (counts.getD s 0)]
  exact ⟨Nat.le_add_right _ _, Nat.add_lt_add_left (mul_add_lt hh hi) _⟩

/-- **The compact slots are allocated.** -/
theorem compactSlot_lt (hs : s < counts.length) (hh : h < numHeads) (hi : i < counts.getD s 0) :
    compactSlot counts numHeads s h i < (boundaries counts).getLastD 0 * numHeads := by
  have hmono := getD_boundaries_mono (Nat.succ_le_of_lt hs) (Nat.le_refl counts.length)
  rw [getD_boundaries (Nat.le_refl _), List.take_length] at hmono
  rw [getLastD_boundaries]
  exact Nat.lt_of_lt_of_le (compactSlot_mem hs hh hi).2 (Nat.mul_le_mul_right numHeads hmono)

/-- **The compact slots are distinct.** -/
theorem compactSlot_inj {s' h' i' : ℕ} (hs : s < counts.length) (hs' : s' < counts.length)
    (hh : h < numHeads) (hh' : h' < numHeads) (hi : i < counts.getD s 0)
    (hi' : i' < counts.getD s' 0)
    (heq : compactSlot counts numHeads s h i = compactSlot counts numHeads s' h' i') :
    s = s' ∧ h = h' ∧ i = i' := by
  obtain ⟨hlo, hhi⟩ := compactSlot_mem hs hh hi
  obtain ⟨hlo', hhi'⟩ := compactSlot_mem hs' hh' hi'
  -- the ranges of two sequences do not meet
  have hbefore : ∀ {a b : ℕ}, a < b → b < counts.length →
      (boundaries counts).getD (a + 1) 0 * numHeads ≤ (boundaries counts).getD b 0 * numHeads :=
    fun hab hb => Nat.mul_le_mul_right numHeads (getD_boundaries_mono hab (Nat.le_of_lt hb))
  rcases Nat.lt_trichotomy s s' with hlt | rfl | hlt
  · have := hbefore hlt hs'
    omega
  · rw [compactSlot_eq, compactSlot_eq] at heq
    exact ⟨rfl, mul_add_inj hi hi' (Nat.add_left_cancel heq)⟩
  · have := hbefore hlt hs
    omega

end Slots

/-! ### The budget -/

/-- **A budget that is divided bounds the product.** -/
theorem mul_le_of_divideBudget {total unit heads slots : ℕ} (hunit : 0 < unit)
    (h : ([heads, slots].foldlM divideBudget (total / unit)).isSome = true) :
    0 < heads ∧ 0 < slots ∧ slots * heads * unit ≤ total := by
  simp only [List.foldlM_cons, List.foldlM_nil, divideBudget] at h
  by_cases hheads : heads = 0 ∨ total / unit < heads
  · rw [if_pos hheads] at h
    cases h
  · rw [if_neg hheads] at h
    by_cases hslots : slots = 0 ∨ total / unit / heads < slots
    · simp [hslots] at h
    · have hpos : 0 < heads := by omega
      have hle : slots * heads ≤ total / unit :=
        (Nat.le_div_iff_mul_le hpos).mp (Nat.le_of_not_lt fun hlt => hslots (Or.inr hlt))
      exact ⟨hpos, by omega, (Nat.le_div_iff_mul_le hunit).mp hle⟩

/-- **An accepted scratch is within the budget**, and its dimensions fit. -/
theorem le_of_gqaScratchFits {requests heads partitions headSize itemSize : ℕ}
    {offsets : Option (List ℕ)} (hitem : 0 < itemSize)
    (h : gqaScratchFits requests heads partitions headSize itemSize offsets = true) :
    gqaScratchBytes offsets requests heads partitions headSize itemSize ≤ gqaMaxScratchBytes ∧
      ∀ d ∈ gqaScratchDims offsets requests heads partitions headSize, d < 2 ^ 31 := by
  have hunit : 0 < headSize * itemSize + 2 * 4 := by omega
  have hbytes : ∀ slots : ℕ, slots * headSize * itemSize + slots * 4 + slots * 4 =
      slots * (headSize * itemSize + 2 * 4) := fun slots => by
    rw [Nat.mul_add, Nat.mul_assoc]
    omega
  have hsize : headSize ≤ headSize * itemSize + 2 * 4 :=
    Nat.le_trans (Nat.le_mul_of_pos_right headSize hitem) (Nat.le_add_right _ _)
  -- a factor of a positive product is at most the product
  have hfactors : ∀ {slots : ℕ}, 0 < heads → 0 < slots →
      slots ≤ slots * heads * (headSize * itemSize + 2 * 4) ∧
      heads ≤ slots * heads * (headSize * itemSize + 2 * 4) ∧
      headSize ≤ slots * heads * (headSize * itemSize + 2 * 4) := by
    intro slots hheads hslots
    have hprod : 0 < slots * heads := Nat.mul_pos hslots hheads
    refine ⟨?_, ?_, Nat.le_trans hsize (Nat.le_mul_of_pos_left _ hprod)⟩
    · exact Nat.le_trans (Nat.le_mul_of_pos_right slots hheads) (Nat.le_mul_of_pos_right _ hunit)
    · exact Nat.le_trans (Nat.le_mul_of_pos_left heads hslots) (Nat.le_mul_of_pos_right _ hunit)
  unfold gqaScratchFits gqaMaxScratchBytes at h
  cases offsets with
  | some offsets =>
    simp only at h
    split at h
    · cases h
    · obtain ⟨hheads, hslots, hle⟩ := mul_le_of_divideBudget hunit h
      obtain ⟨hslots', hheads', hsize'⟩ := hfactors hheads hslots
      constructor
      · unfold gqaScratchBytes gqaScratchSlots gqaMaxScratchBytes
        simp only
        rw [hbytes]
        omega
      · intro d hd
        simp only [gqaScratchDims, List.mem_cons, List.not_mem_nil, or_false] at hd
        omega
  | none =>
    simp only at h
    split at h
    · cases h
    · obtain ⟨hheads, hslots, hle⟩ := mul_le_of_divideBudget hunit h
      obtain ⟨hslots', hheads', hsize'⟩ := hfactors hheads hslots
      have hrequests : requests ≤ requests * partitions :=
        Nat.le_mul_of_pos_right _ (Nat.pos_of_mul_pos_left hslots)
      have hpartitions : partitions ≤ requests * partitions :=
        Nat.le_mul_of_pos_left _ (Nat.pos_of_mul_pos_right hslots)
      constructor
      · unfold gqaScratchBytes gqaScratchSlots gqaMaxScratchBytes
        simp only
        rw [hbytes, Nat.mul_right_comm requests heads partitions]
        omega
      · intro d hd
        simp only [gqaScratchDims, List.mem_cons, List.not_mem_nil, or_false] at hd
        omega

/-! ### The layouts -/

section Layouts

variable {lens : List ℕ} {P numHeads maxNumPartitions : ℕ}

theorem getD_partitionCounts {s : ℕ} (hs : s < lens.length) :
    (partitionCounts P lens).getD s 0 = divideRoundUp (lens.getD s 0) P := by
  rw [partitionCounts, List.getD_eq_getElem?_getD, List.getElem?_map, List.getElem?_eq_getElem hs,
    List.getD_eq_getElem _ _ hs]
  rfl

theorem divideRoundUp_mono {n n' : ℕ} (h : n ≤ n') (P : ℕ) :
    divideRoundUp n P ≤ divideRoundUp n' P :=
  Nat.div_le_div_right (Nat.sub_le_sub_right (Nat.add_le_add_right h P) 1)

/-- Two partials of one layout, under one slot. -/
theorem IsGqaPartial.eq_of_slot {layout : Option (List ℕ)} {a b : GqaPartial}
    (hlayout : layout = some (boundaries (partitionCounts P lens)) ∨ layout = none)
    (hmax : ∀ n ∈ lens, divideRoundUp n P ≤ maxNumPartitions)
    (ha : IsGqaPartial layout lens P numHeads maxNumPartitions a)
    (hb : IsGqaPartial layout lens P numHeads maxNumPartitions b)
    (h : a.slot = b.slot) : a = b := by
  have hstride : ∀ s < lens.length, divideRoundUp (lens.getD s 0) P ≤ maxNumPartitions := by
    intro s hs
    rw [List.getD_eq_getElem _ _ hs]
    exact hmax _ (List.getElem_mem hs)
  have hindices : a.sequence = b.sequence ∧ a.head = b.head ∧ a.partition = b.partition := by
    have hslot := ha.slot_eq.symm.trans (h.trans hb.slot_eq)
    rcases hlayout with rfl | rfl
    · have hcount : ∀ s < lens.length, s < (partitionCounts P lens).length := fun s hs => by
        rwa [partitionCounts, List.length_map]
      exact compactSlot_inj (hcount _ ha.sequence_lt)
        (hcount _ hb.sequence_lt) ha.head_lt hb.head_lt
        (by rw [getD_partitionCounts ha.sequence_lt]; exact ha.partition_lt)
        (by rw [getD_partitionCounts hb.sequence_lt]; exact hb.partition_lt) hslot
    · obtain ⟨hrow, hpart⟩ := mul_add_inj
        (Nat.lt_of_lt_of_le ha.partition_lt (hstride _ ha.sequence_lt))
        (Nat.lt_of_lt_of_le hb.partition_lt (hstride _ hb.sequence_lt)) hslot
      obtain ⟨hseq, hhead⟩ := mul_add_inj ha.head_lt hb.head_lt hrow
      exact ⟨hseq, hhead, hpart⟩
  obtain ⟨sequence, head, partition, slot⟩ := a
  obtain ⟨sequence', head', partition', slot'⟩ := b
  obtain ⟨rfl, rfl, rfl⟩ := hindices
  exact congrArg (GqaPartial.mk sequence head partition) h

/-- The slots of a layout are allocated. -/
theorem IsGqaPartial.slot_lt {layout : Option (List ℕ)} {a : GqaPartial}
    (hlayout : layout = some (boundaries (partitionCounts P lens)) ∨ layout = none)
    (hmax : ∀ n ∈ lens, divideRoundUp n P ≤ maxNumPartitions)
    (ha : IsGqaPartial layout lens P numHeads maxNumPartitions a) :
    a.slot < gqaScratchSlots layout lens.length numHeads maxNumPartitions := by
  rw [ha.slot_eq]
  rcases hlayout with rfl | rfl
  · exact compactSlot_lt (by rw [partitionCounts, List.length_map]; exact ha.sequence_lt) ha.head_lt
      (by rw [getD_partitionCounts ha.sequence_lt]; exact ha.partition_lt)
  · have hstride : divideRoundUp (lens.getD a.sequence 0) P ≤ maxNumPartitions := by
      rw [List.getD_eq_getElem _ _ ha.sequence_lt]
      exact hmax _ (List.getElem_mem ha.sequence_lt)
    exact mul_add_lt (mul_add_lt ha.sequence_lt ha.head_lt)
      (Nat.lt_of_lt_of_le ha.partition_lt hstride)

end Layouts

/-- **The scratch of the GQA decode path.**  For two or more positive context lengths, either
partition size, any heads and any bound on the lengths: the offsets of the plan are the prefix sums
of the partition counts; in the compact and in the dense layout, the producer writes the partials of
the partitions of every context and every head, those are the ones the reducer reads, each under the
same slot, no two under one slot, and every slot is allocated; a scratch that is accepted stays
within the budget, with dimensions that fit an `int`; and the compact layout is chosen only where it
has fewer slots. -/
theorem gqa_scratch_disjoint_and_bounded {lens : List ℕ} (hlen : 2 ≤ lens.length)
    (hpos : ∀ n ∈ lens, 0 < n) {P : ℕ} (hP : P = 512 ∨ P = 256) {numKvHeads group maxSeqLen : ℕ}
    (hmax : ∀ n ∈ lens, n ≤ maxSeqLen) :
    let numHeads := numKvHeads * group
    let partitions := divideRoundUp maxSeqLen P
    let plan := gqaDecodeLengthPlan (lens.map fun n : ℕ => (n : ℤ))
    let offsets := boundaries (partitionCounts P lens)
    plan.partitionOffsets.map (fun pair => if P = 512 then pair.1 else pair.2) = some offsets ∧
    (∀ layout : Option (List ℕ), layout = some offsets ∨ layout = none →
      let writes := gqaProducerWrites layout lens P numKvHeads group partitions
      (∀ a, a ∈ writes ↔ a ∈ gqaReducerReads layout lens P
        (boundaries (List.replicate lens.length 1)) lens.length numHeads partitions) ∧
      (∀ s h i, s < lens.length → h < numHeads → i < divideRoundUp (lens.getD s 0) P →
        ⟨s, h, i, gqaStart layout numHeads partitions s h + i⟩ ∈ writes) ∧
      (∀ a ∈ writes, a.partition < divideRoundUp (lens.getD a.sequence 0) P ∧
        a.slot < gqaScratchSlots layout lens.length numHeads partitions ∧
        ∀ b ∈ writes, a.slot = b.slot → a = b)) ∧
    (∀ layout headSize itemSize, 0 < itemSize →
      gqaScratchFits lens.length numHeads partitions headSize itemSize layout = true →
      gqaScratchBytes layout lens.length numHeads partitions headSize itemSize ≤
          gqaMaxScratchBytes ∧
        ∀ d ∈ gqaScratchDims layout lens.length numHeads partitions headSize, d < 2 ^ 31) ∧
    ∀ chosen, gqaCompactOffsets plan P partitions = some chosen → chosen = offsets ∧
      (0 < numHeads → gqaScratchSlots (some chosen) lens.length numHeads partitions <
        gqaScratchSlots none lens.length numHeads partitions) := by
  obtain ⟨hoffsets, hnum⟩ := partitionOffsets_gqaDecodeLengthPlan hlen hpos
  have hPpos : 0 < P := by omega
  have hmax' : ∀ n ∈ lens, divideRoundUp n P ≤ divideRoundUp maxSeqLen P :=
    fun n hn => divideRoundUp_mono (hmax n hn) P
  have hpick : (if P = 512 then boundaries (partitionCounts 512 lens)
      else boundaries (partitionCounts 256 lens)) = boundaries (partitionCounts P lens) := by
    rcases hP with rfl | rfl <;> rfl
  refine ⟨?_, fun layout hlayout => ⟨fun a => ?_, fun s h i hs hh hi => ?_, fun a ha => ?_⟩,
    fun layout headSize itemSize hitem hfits => le_of_gqaScratchFits hitem hfits,
    fun chosen hchosen => ?_⟩
  · rw [hoffsets, Option.map_some, hpick]
  -- what a context's partitions write is what its reducer reads
  · rw [mem_gqaProducerWrites hPpos hmax', mem_gqaReducerReads hpos]
  · exact (mem_gqaProducerWrites hPpos hmax').mpr ⟨hs, hh, hi, rfl⟩
  -- the slot determines the head, the context and the partition
  · rw [mem_gqaProducerWrites hPpos hmax'] at ha
    refine ⟨ha.partition_lt, ha.slot_lt hlayout hmax', fun b hb hslot => ?_⟩
    rw [mem_gqaProducerWrites hPpos hmax'] at hb
    exact ha.eq_of_slot hlayout hmax' hb hslot
  · unfold gqaCompactOffsets at hchosen
    simp only [hoffsets, hnum, hpick] at hchosen
    split at hchosen
    -- the compact layout is chosen only for fewer slots
    · next hfewer =>
      obtain rfl := Option.some.inj hchosen
      refine ⟨rfl, fun hheads => ?_⟩
      unfold gqaScratchSlots
      simp only
      rw [Nat.mul_right_comm]
      exact Nat.mul_lt_mul_of_pos_right hfewer hheads
    · cases hchosen

/-- Contexts of one, of 600 and of 512 tokens, sixteen heads over two key heads, and a bound of
4096: compact, and within the budget. -/
theorem gqa_scratch_disjoint_and_bounded_mixed :
    (gqaDecodeLengthPlan [1, 600, 512]).partitionOffsets.map (fun pair => pair.1) =
        some [0, 1, 3, 4] ∧
      gqaScratchFits 3 16 8 256 2 (some [0, 1, 3, 4]) = true ∧
      gqaScratchBytes (some [0, 1, 3, 4]) 3 16 8 256 2 ≤ gqaMaxScratchBytes ∧
      ∀ a, a ∈ gqaProducerWrites (some [0, 1, 3, 4]) [1, 600, 512] 512 2 8 8 ↔
        a ∈ gqaReducerReads (some [0, 1, 3, 4]) [1, 600, 512] 512 [0, 1, 2, 3] 3 16 8 := by
  obtain ⟨hoffsets, hlayouts, hbudget, -⟩ := @gqa_scratch_disjoint_and_bounded [1, 600, 512]
    (by simp) (by simp) 512 (Or.inl rfl) 2 8 4096 (by simp)
  have hfits : gqaScratchFits 3 16 8 256 2 (some [0, 1, 3, 4]) = true := by decide
  exact ⟨hoffsets, hfits, (hbudget _ 256 2 (by simp) hfits).1, (hlayouts _ (Or.inl rfl)).1⟩

end Attention
end VllmMetal
