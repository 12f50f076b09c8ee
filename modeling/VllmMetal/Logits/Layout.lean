import VllmMetal.Lib.Ragged
import VllmMetal.SpecDecode.Verify

/-!
# The logits rows of a packed step

The packed order of a step is its decode and verify segments, then its prefill chunks.  The
output head either projects every packed row, or only the rows the sampler reads; the
boundaries that come with the layout index the rows that were projected.

## Main definitions

* `PrefillRequest`, `packedSeqlens` — the prefill chunks of a step, and its boundaries.
* `pagedLogitsLayout`, `stepLogitsLayout` — the rows to project, and their boundaries.
* `projectLogits` — the head on all rows, or on selected ones.

## Main results

* `stepLogitsLayout_cases` — either all rows and the packed boundaries, or the decode rows
  and the last row of each chunk, with boundaries that count each chunk as one row.
* `stepLogitsLayout_boundaries` — the boundaries of the layout are those of segments.
-/

namespace VllmMetal
namespace Logits

open SpecDecode

/-- `PrefillRequest`, without the fields of the cache, the adapters and the generators. -/
structure PrefillRequest where
  reqId : ReqId
  /-- Suffix slice forwarded through the model. -/
  tokenIds : List Token
  samplingParams : SamplingParams
  /-- Full prompt length, `None` for intermediate chunks. -/
  promptLen : Option ℕ
  startPos : ℕ
  /-- Full prompt for sampling metadata. -/
  fullPromptTokenIds : Option (List Token)

/-- How the head projects this step's packed rows; `None` as indices means all of them. -/
structure PagedLogitsLayout where
  indices : Option (List ℕ)
  cuSeqlens : List ℕ
  deriving DecidableEq

/-- The branches of the forward that produce logits. -/
inductive ForwardBranch where
  | text
  /-- `callLmHiddenStates`: the adapter has a `call_lm_hidden_states`. -/
  | mm (callLmHiddenStates : Bool)
  | pipeline
  deriving DecidableEq

/-- The rows of each decode segment. -/
def segmentLens (segments : List PagedDecodeSegment) : List ℕ :=
  segments.map PagedDecodeSegment.numQueryTokens

/-- The rows of each prefill chunk. -/
def chunkLens (prefillReqs : List PrefillRequest) : List ℕ :=
  prefillReqs.map fun pr => pr.tokenIds.length

/-- The `cu_seqlens` of the packed step. -/
def packedSeqlens (segments : List PagedDecodeSegment) (prefillReqs : List PrefillRequest) :
    List ℕ :=
  (segmentLens segments ++ chunkLens prefillReqs).foldl (fun cu n => cu ++ [cu.getLastD 0 + n]) [0]

/-- `_paged_logits_layout`.  A boundary past the decode prefix is the end of a chunk, which has
at least one row. -/
def pagedLogitsLayout (selectiveLogitsSupported : Bool) (cuSeqlens : List ℕ)
    (numDecodeSegments : ℕ) : PagedLogitsLayout :=
  let decodeBounds := cuSeqlens.take (numDecodeSegments + 1)
  let prefillEnds := cuSeqlens.drop (numDecodeSegments + 1)
  let numDecodeRows := decodeBounds.getLastD 0
  let numSelected := numDecodeRows + prefillEnds.length
  if !selectiveLogitsSupported || decide (numSelected = cuSeqlens.getLastD 0) then
    ⟨none, cuSeqlens⟩
  else
    ⟨some (List.range numDecodeRows ++ prefillEnds.map (· - 1)),
      decodeBounds ++ List.range' (numDecodeRows + 1) (numSelected - numDecodeRows)⟩

/-- `_needs_prompt_logprob_rows`, `wants` being the tracker's active requests. -/
def needsPromptLogprobRows (wants : ReqId → Bool) (prefillReqs : List PrefillRequest) : Bool :=
  prefillReqs.any fun pr => wants pr.reqId

/-- Whether a branch of the forward asks for a layout: `_mm_forward_selects_rows` decides for the
multimodal one. -/
def ForwardBranch.asksForLayout (selectiveLogitsSupported : Bool) : ForwardBranch → Bool
  | .text => true
  | .mm callLmHiddenStates => selectiveLogitsSupported && callLmHiddenStates
  | .pipeline => false

/-- The layout `_start_paged_forward` ends up with. -/
def stepLogitsLayout (selectiveLogitsSupported : Bool) (branch : ForwardBranch)
    (wants : ReqId → Bool) (segments : List PagedDecodeSegment)
    (prefillReqs : List PrefillRequest) : PagedLogitsLayout :=
  let cuSeqlens := packedSeqlens segments prefillReqs
  if branch.asksForLayout selectiveLogitsSupported && !needsPromptLogprobRows wants prefillReqs then
    pagedLogitsLayout selectiveLogitsSupported cuSeqlens segments.length
  else ⟨none, cuSeqlens⟩

/-- `project_logits`: the head, row by row, on all hidden states or on the selected ones. -/
def projectLogits {H Row : Type*} (head : H → Row) (hiddenStates : List H) :
    Option (List ℕ) → List Row
  | none => hiddenStates.map head
  | some indices => (indices.filterMap fun i => hiddenStates[i]?).map head

/-! ### The boundaries -/

@[simp] theorem length_segmentLens (segments : List PagedDecodeSegment) :
    (segmentLens segments).length = segments.length := List.length_map _

@[simp] theorem length_chunkLens (prefillReqs : List PrefillRequest) :
    (chunkLens prefillReqs).length = prefillReqs.length := List.length_map _

theorem packedSeqlens_eq (segments : List PagedDecodeSegment) (prefillReqs : List PrefillRequest) :
    packedSeqlens segments prefillReqs =
      boundaries (segmentLens segments ++ chunkLens prefillReqs) := foldl_eq_boundaries _

/-- Every chunk counted as one row. -/
theorem boundaries_append_ones (lens : List ℕ) (n : ℕ) :
    boundaries (lens ++ List.replicate n 1) = boundaries lens ++ List.range' (lens.sum + 1) n := by
  rw [boundaries_append, List.length_replicate, List.range'_eq_map_range]
  congr 1
  apply List.map_congr_left
  intro s hs
  rw [List.mem_range] at hs
  rw [List.take_replicate, List.sum_replicate_nat, Nat.min_eq_left (by omega), Nat.mul_one]
  omega

/-- The decode prefix of packed boundaries. -/
theorem take_boundaries_append (lens lens' : List ℕ) :
    (boundaries (lens ++ lens')).take (lens.length + 1) = boundaries lens := by
  rw [boundaries_append, List.take_left' (length_boundaries lens)]

/-- The segment ends past the decode prefix. -/
theorem drop_boundaries_append (lens lens' : List ℕ) :
    (boundaries (lens ++ lens')).drop (lens.length + 1) =
      (List.range lens'.length).map fun s => lens.sum + (lens'.take (s + 1)).sum := by
  rw [boundaries_append, List.drop_left' (length_boundaries lens)]

/-- What the selective layout is when it is taken: the decode rows and the last row of every
chunk. -/
theorem pagedLogitsLayout_boundaries (supported : Bool) (lens lens' : List ℕ) :
    pagedLogitsLayout supported (boundaries (lens ++ lens')) lens.length =
      if !supported || decide (lens.sum + lens'.length = (lens ++ lens').sum) then
        ⟨none, boundaries (lens ++ lens')⟩
      else ⟨some (List.range lens.sum ++ (List.range lens'.length).map fun s =>
          lens.sum + (lens'.take (s + 1)).sum - 1),
        boundaries (lens ++ List.replicate lens'.length 1)⟩ := by
  simp only [pagedLogitsLayout, take_boundaries_append, drop_boundaries_append,
    getLastD_boundaries, List.length_map, List.length_range, List.map_map, Nat.add_sub_cancel_left,
    boundaries_append_ones]
  rfl

/-- **Either all rows, or the rows that are read.** -/
theorem stepLogitsLayout_cases (supported : Bool) (branch : ForwardBranch) (wants : ReqId → Bool)
    (segments : List PagedDecodeSegment) (prefillReqs : List PrefillRequest) :
    stepLogitsLayout supported branch wants segments prefillReqs =
        ⟨none, boundaries (segmentLens segments ++ chunkLens prefillReqs)⟩ ∨
      needsPromptLogprobRows wants prefillReqs = false ∧
        stepLogitsLayout supported branch wants segments prefillReqs =
          ⟨some (List.range (segmentLens segments).sum ++
              (List.range prefillReqs.length).map fun s =>
                (segmentLens segments).sum + ((chunkLens prefillReqs).take (s + 1)).sum - 1),
            boundaries (segmentLens segments ++ List.replicate prefillReqs.length 1)⟩ := by
  have hlayout := pagedLogitsLayout_boundaries supported (segmentLens segments)
    (chunkLens prefillReqs)
  rw [length_segmentLens, length_chunkLens] at hlayout
  simp only [stepLogitsLayout, packedSeqlens_eq, hlayout]
  cases hneeds : needsPromptLogprobRows wants prefillReqs with
  | true =>
    left
    simp
  | false =>
    simp only [Bool.not_false, Bool.and_true, true_and]
    split
    · split
      · exact Or.inl rfl
      · exact Or.inr rfl
    · exact Or.inl rfl

/-- A step that needs prompt logprobs projects all rows. -/
theorem stepLogitsLayout_of_needs (supported : Bool) (branch : ForwardBranch)
    {wants : ReqId → Bool} (segments : List PagedDecodeSegment) {prefillReqs : List PrefillRequest}
    (h : needsPromptLogprobRows wants prefillReqs = true) :
    stepLogitsLayout supported branch wants segments prefillReqs =
      ⟨none, packedSeqlens segments prefillReqs⟩ := by
  simp [stepLogitsLayout, h]

/-- **The boundaries of the layout are those of segments**: of the decode segments, and of as
many rows of each chunk as are projected, its last one at least. -/
theorem stepLogitsLayout_boundaries (supported : Bool) (branch : ForwardBranch)
    (wants : ReqId → Bool) (segments : List PagedDecodeSegment)
    {prefillReqs : List PrefillRequest} (hchunks : ∀ pr ∈ prefillReqs, 0 < pr.tokenIds.length) :
    ∃ projected : List ℕ, projected.length = prefillReqs.length ∧ (∀ n ∈ projected, 0 < n) ∧
      (stepLogitsLayout supported branch wants segments prefillReqs).cuSeqlens =
        boundaries (segmentLens segments ++ projected) := by
  rcases stepLogitsLayout_cases supported branch wants segments prefillReqs with hall | ⟨-, hsel⟩
  · refine ⟨chunkLens prefillReqs, by simp, ?_, by rw [hall]⟩
    intro n hn
    obtain ⟨pr, hpr, rfl⟩ := List.mem_map.mp hn
    exact hchunks pr hpr
  · refine ⟨List.replicate prefillReqs.length 1, by simp, ?_, by rw [hsel]⟩
    intro n hn
    rw [List.eq_of_mem_replicate hn]
    exact Nat.one_pos

/-! ### Projected rows -/

theorem getElem?_filterMap_of_isSome {α β : Type*} {f : α → Option β} {l : List α}
    (h : ∀ a ∈ l, (f a).isSome) (k : ℕ) : (l.filterMap f)[k]? = l[k]?.bind f := by
  induction l generalizing k with
  | nil => rfl
  | cons a l ih =>
    obtain ⟨b, hb⟩ := Option.isSome_iff_exists.mp (h a (by simp))
    rw [List.filterMap_cons_some hb]
    cases k with
    | zero => exact hb.symm
    | succ k => exact ih (fun a' ha' => h a' (List.mem_cons_of_mem a ha')) k

section Projected

variable {H Row : Type*} (head : H → Row) {hiddenStates : List H} {indices : List ℕ}

/-- A selected row is the row of the full projection at its index. -/
theorem getElem?_projectLogits (h : ∀ i ∈ indices, i < hiddenStates.length) (k : ℕ) :
    (projectLogits head hiddenStates (some indices))[k]? =
      indices[k]?.bind fun i => (projectLogits head hiddenStates none)[i]? := by
  have hsome : ∀ i ∈ indices, (hiddenStates[i]?).isSome := by
    intro i hi
    rw [List.getElem?_eq_getElem (h i hi)]
    rfl
  simp only [projectLogits]
  rw [List.getElem?_map, getElem?_filterMap_of_isSome hsome]
  cases indices[k]? with
  | none => rfl
  | some i => rw [Option.bind_some, Option.bind_some, List.getElem?_map]

theorem length_projectLogits (h : ∀ i ∈ indices, i < hiddenStates.length) :
    (projectLogits head hiddenStates (some indices)).length = indices.length := by
  rw [projectLogits, List.length_map]
  induction indices with
  | nil => rfl
  | cons i indices ih =>
    rw [List.filterMap_cons_some (List.getElem?_eq_getElem (h i (by simp))), List.length_cons,
      List.length_cons, ih fun j hj => h j (List.mem_cons_of_mem i hj)]

end Projected

end Logits
end VllmMetal
