import VllmMetal.Lib.Run
import VllmMetal.Runner.Request
import VllmMetal.Multimodal.Features

/-!
# Image blocks of a request, chunk by chunk

An image block has to be attended bidirectionally as a whole or causally as a whole.  The
runner decides it chunk by chunk, from the blocks of the request, the start of its first chunk
and a flag that an earlier block did not fit its step; it forgets all three when the request is
evicted, resumed or re-admitted.

## Main definitions

* `bidiRangesForChunk` — the ranges that a chunk may attend bidirectionally.
* `reconcileRequestLifecycle`, `readmitRequest` — the events that drop the state of a request.
* `Life`, `Step` — what the chunks of a request computed, and the steps of the runner.
* `BlocksWhole` — the law of the image blocks.

## Main results

* `scanRanges_spec` — the ranges kept are the blocks that a chunk meets.
* `decideChunk_cases` — what a chunk returns, and the flag after it.
-/

namespace VllmMetal.Multimodal

/-- `_MMBidiState`: the image blocks of a request, as half-open ranges of its soft tokens. -/
structure MMBidiState where
  ranges : List (ℕ × ℕ)
  firstPrefillStart : ℕ
  /-- A block did not fit one step: the whole request stays causal. -/
  causalOnly : Bool
  deriving DecidableEq

/-- The image blocks of a request; `extract_embeds_range` gives inclusive bounds. -/
def featureRanges (extractEmbedsRange : PlaceholderRange → List (ℕ × ℕ))
    (features : List MultiModalFeatureSpec) : List (ℕ × ℕ) :=
  features.flatMap fun feature =>
    (extractEmbedsRange feature.mmPosition).map fun bounds => (bounds.1, bounds.2 + 1)

/-- The loop over the blocks: the ranges kept, or `none` at the first that does not fit. -/
def scanRanges (startPos chunkEnd firstPrefillStart : ℕ) :
    List (ℕ × ℕ) → Option (List (ℕ × ℕ))
  | [] => some []
  | (r0, r1) :: ranges =>
      -- already computed, or not reached yet
      if r1 ≤ startPos ∨ chunkEnd ≤ r0 then scanRanges startPos chunkEnd firstPrefillStart ranges
      else if r1 ≤ chunkEnd ∧ (startPos ≤ r0 ∨ r0 < firstPrefillStart) then
        (scanRanges startPos chunkEnd firstPrefillStart ranges).map ((r0, r1) :: ·)
      else none

/-- The state that a chunk decides with: the one remembered, or a new one. -/
def seedState (remembered : Option MMBidiState) (startPos : ℕ) (ranges : List (ℕ × ℕ)) :
    MMBidiState :=
  remembered.getD ⟨ranges, startPos, false⟩

/-- What a chunk returns, and the state after it. -/
def decideChunk (state : MMBidiState) (startPos numTokens : ℕ) :
    Option (List (ℕ × ℕ)) × MMBidiState :=
  if state.causalOnly then (none, state)
  else match scanRanges startPos (startPos + numTokens) state.firstPrefillStart state.ranges with
    | none => (none, { state with causalOnly := true })
    | some [] => (none, state)
    | some kept => (some kept, state)

/-- `_bidi_ranges_for_chunk`, with the states of all requests before and after. -/
def bidiRangesForChunk (states : Dict ReqId MMBidiState) (reqId : ReqId) (startPos numTokens : ℕ)
    (ranges : List (ℕ × ℕ)) : Option (List (ℕ × ℕ)) × Dict ReqId MMBidiState :=
  let decided := decideChunk (seedState (states.get? reqId) startPos ranges) startPos numTokens
  (decided.1, states.set reqId decided.2)

/-- What `_reconcile_request_lifecycle` does to the states. -/
def reconcileRequestLifecycle (states : Dict ReqId MMBidiState) (evicted resumed : List ReqId) :
    Dict ReqId MMBidiState :=
  (states.popAll evicted).popAll resumed

/-- What `_readmit_request` does to the states. -/
def readmitRequest (states : Dict ReqId MMBidiState) (reqId : ReqId) : Dict ReqId MMBidiState :=
  states.pop reqId

/-! ### What a chunk returns -/

section

variable {startPos numTokens chunkEnd first : ℕ} {ranges kept : List (ℕ × ℕ)} {b : ℕ × ℕ}
  {state : MMBidiState}

/-- A chunk meets a block that still has rows to compute. -/
def Meets (startPos chunkEnd : ℕ) (b : ℕ × ℕ) : Prop := startPos < b.2 ∧ b.1 < chunkEnd

/-- The ranges kept are the blocks that the chunk meets, and all of them fit. -/
theorem scanRanges_spec (h : scanRanges startPos chunkEnd first ranges = some kept) :
    (∀ b, b ∈ kept ↔ b ∈ ranges ∧ Meets startPos chunkEnd b) ∧
      ∀ b ∈ ranges, Meets startPos chunkEnd b → b.2 ≤ chunkEnd := by
  induction ranges generalizing kept with
  | nil =>
    cases h
    simp
  | cons r ranges ih =>
    obtain ⟨r0, r1⟩ := r
    unfold scanRanges at h
    split at h
    -- the block ends before the chunk, or begins behind it
    · next hskip =>
      obtain ⟨hmem, hfit⟩ := ih h
      have hnot : ¬ Meets startPos chunkEnd (r0, r1) := by
        rintro ⟨hlo, hhi⟩
        dsimp only at hlo hhi
        omega
      refine ⟨fun b => ?_, fun b hb hmeets => ?_⟩
      · rw [hmem b, List.mem_cons]
        constructor
        · rintro ⟨hb, hmeets⟩
          exact ⟨.inr hb, hmeets⟩
        · rintro ⟨rfl | hb, hmeets⟩
          · exact absurd hmeets hnot
          · exact ⟨hb, hmeets⟩
      · rcases List.mem_cons.mp hb with rfl | hb
        · exact absurd hmeets hnot
        · exact hfit b hb hmeets
    · next hmet =>
      split at h
      -- the block meets the chunk and fits it
      · next hfits =>
        obtain ⟨rest, hrest, rfl⟩ := Option.map_eq_some_iff.mp h
        obtain ⟨hmem, hfit⟩ := ih hrest
        have hmeets : Meets startPos chunkEnd (r0, r1) := by
          refine ⟨?_, ?_⟩ <;> dsimp only <;> omega
        refine ⟨fun b => ?_, fun b hb hb' => ?_⟩
        · rw [List.mem_cons, hmem b, List.mem_cons]
          constructor
          · rintro (rfl | ⟨hb, hb'⟩)
            · exact ⟨.inl rfl, hmeets⟩
            · exact ⟨.inr hb, hb'⟩
          · rintro ⟨rfl | hb, hb'⟩
            · exact .inl rfl
            · exact .inr ⟨hb, hb'⟩
        · rcases List.mem_cons.mp hb with rfl | hb
          · exact hfits.1
          · exact hfit b hb hb'
      -- a block that meets the chunk without fitting gives up all ranges
      · cases h

/-- **What a chunk decides**: it returns nothing and stays or becomes causal, or its ranges
are the blocks it meets, none of which it cuts at its end. -/
theorem decideChunk_cases (state : MMBidiState) (startPos numTokens : ℕ) :
    (decideChunk state startPos numTokens).2.ranges = state.ranges ∧
      ((decideChunk state startPos numTokens).1 = none ∧
          (decideChunk state startPos numTokens).2.causalOnly = true ∨
        state.causalOnly = false ∧
          (decideChunk state startPos numTokens).2.causalOnly = false ∧
          (∀ b, b ∈ (decideChunk state startPos numTokens).1.getD [] ↔
            b ∈ state.ranges ∧ Meets startPos (startPos + numTokens) b) ∧
          (∀ b ∈ state.ranges, Meets startPos (startPos + numTokens) b →
            b.2 ≤ startPos + numTokens) ∧
          (decideChunk state startPos numTokens).1 ≠ some []) := by
  unfold decideChunk
  cases hcausal : state.causalOnly with
  | true => exact ⟨rfl, .inl ⟨rfl, hcausal⟩⟩
  | false =>
    rw [if_neg Bool.false_ne_true]
    split
    · exact ⟨rfl, .inl ⟨rfl, rfl⟩⟩
    · next hscan =>
      obtain ⟨hmem, hfit⟩ := scanRanges_spec hscan
      exact ⟨rfl, .inr ⟨rfl, hcausal, hmem, hfit, nofun⟩⟩
    · next kept hne hscan =>
      obtain ⟨hmem, hfit⟩ := scanRanges_spec hscan
      refine ⟨rfl, .inr ⟨rfl, hcausal, hmem, hfit, ?_⟩⟩
      intro hnil
      exact hne (Option.some.inj hnil)

end

/-! ### Lives of requests -/

/-- A chunk that was computed: its rows, what it was given, and the flag after it. -/
structure Chunk where
  startPos : ℕ
  numTokens : ℕ
  ranges : Option (List (ℕ × ℕ))
  fellBack : Bool

/-- A request between its arrival and its eviction, as the scheduler sees it: the next row to
compute, the chunks so far, and for each row in use the chunk that wrote it.  Rows of a prefix
hit have none. -/
structure Life where
  features : List MultiModalFeatureSpec
  done : ℕ
  log : List Chunk
  wrote : ℕ → Option ℕ

namespace Life

/-- A new request, with a prefix hit up to a boundary. -/
def start (features : List MultiModalFeatureSpec) (boundary : ℕ) : Life :=
  ⟨features, boundary, [], fun _ => none⟩

/-- A chunk is computed. -/
def compute (life : Life) (numTokens : ℕ) (ranges : Option (List (ℕ × ℕ))) (fellBack : Bool) :
    Life :=
  { life with
    done := life.done + numTokens
    log := life.log ++ [⟨life.done, numTokens, ranges, fellBack⟩]
    wrote := fun q =>
      if life.done ≤ q ∧ q < life.done + numTokens then some life.log.length else life.wrote q }

/-- The request goes back to a boundary; the rows below it stay in use. -/
def resume (life : Life) (boundary : ℕ) : Life :=
  { life with
    done := boundary
    wrote := fun q => if q < boundary then life.wrote q else none }

/-- The row was computed in a chunk that was given the range of the block. -/
def Bidirectional (life : Life) (b : ℕ × ℕ) (q : ℕ) : Prop :=
  ∃ i c, life.wrote q = some i ∧ life.log[i]? = some c ∧ b ∈ c.ranges.getD []

end Life

/-- The image blocks of a request. -/
def Life.blocks (extractEmbedsRange : PlaceholderRange → List (ℕ × ℕ)) (life : Life) :
    List (ℕ × ℕ) :=
  featureRanges extractEmbedsRange (sortFeatures life.features)

/-- **The law of the image blocks.** -/
structure BlocksWhole (blocks : List (ℕ × ℕ)) (life : Life) : Prop where
  /-- All rows of a block in use were computed in one chunk that was given its range, or none. -/
  whole : ∀ b ∈ blocks,
    (∃ i, ∀ q, b.1 ≤ q → q < b.2 → life.wrote q ≠ none →
      life.wrote q = some i ∧ life.Bidirectional b q) ∨
    ∀ q, b.1 ≤ q → q < b.2 → ¬ life.Bidirectional b q
  /-- A range lies inside its chunk, but for rows that were there before the first chunk. -/
  inside : ∀ c ∈ life.log, ∀ b ∈ c.ranges.getD [], b.2 ≤ c.startPos + c.numTokens ∧
    ∀ q, b.1 ≤ q → q < c.startPos → ∃ c₀, life.log.head? = some c₀ ∧ q < c₀.startPos
  /-- Once a request has fallen back no later chunk is given a range. -/
  sticky : life.log.Pairwise fun c c' => c.fellBack = true → c'.ranges = none

/-! ### Runs of the runner -/

/-- The runner's states, and the lives of its requests. -/
structure Runner where
  mmBidiStates : Dict ReqId MMBidiState
  lives : Dict ReqId Life

/-- Nothing yet. -/
def Runner.init : Runner := ⟨∅, ∅⟩

/-- What happens to the requests. -/
inductive Event
  | add (reqId : ReqId) (features : List MultiModalFeatureSpec) (boundary : ℕ)
  | reconcile (evicted resumed : List ReqId) (boundary : ReqId → ℕ)
  | readmission (reqId : ReqId) (boundary : ℕ)
  | chunk (reqId : ReqId) (numTokens : ℕ)

/-- The lives of resumed requests go back to their boundaries. -/
def resumeLives (resumed : List ReqId) (boundary : ReqId → ℕ) (lives : Dict ReqId Life) :
    Dict ReqId Life :=
  resumed.foldl (fun lives reqId => match lives.get? reqId with
    | none => lives
    | some life => lives.set reqId (life.resume (boundary reqId))) lives

/-- The steps of the runner.  A boundary never lies beyond the rows that are in the cache. -/
inductive Step (extractEmbedsRange : PlaceholderRange → List (ℕ × ℕ)) :
    Runner → Event → Runner → Prop
  | add {r : Runner} {reqId : ReqId} {features : List MultiModalFeatureSpec} {boundary : ℕ} :
      r.lives.get? reqId = none →
      Step extractEmbedsRange r (.add reqId features boundary)
        { r with lives := r.lives.set reqId (.start features boundary) }
  | reconcile {r : Runner} {evicted resumed : List ReqId} {boundary : ReqId → ℕ} :
      (∀ reqId ∈ resumed, ∀ life, r.lives.get? reqId = some life → boundary reqId ≤ life.done) →
      Step extractEmbedsRange r (.reconcile evicted resumed boundary)
        ⟨reconcileRequestLifecycle r.mmBidiStates evicted resumed,
          resumeLives resumed boundary (r.lives.popAll evicted)⟩
  | readmission {r : Runner} {reqId : ReqId} {boundary : ℕ} {life : Life} :
      r.lives.get? reqId = some life → boundary ≤ life.done →
      Step extractEmbedsRange r (Event.readmission reqId boundary)
        ⟨readmitRequest r.mmBidiStates reqId, r.lives.set reqId (life.resume boundary)⟩
  | chunk {r : Runner} {reqId : ReqId} {numTokens : ℕ} {life : Life}
      {ranges : Option (List (ℕ × ℕ))} {states : Dict ReqId MMBidiState} :
      r.lives.get? reqId = some life →
      bidiRangesForChunk r.mmBidiStates reqId life.done numTokens
        (life.blocks extractEmbedsRange) = (ranges, states) →
      Step extractEmbedsRange r (.chunk reqId numTokens)
        ⟨states, r.lives.set reqId (life.compute numTokens ranges
          ((states.get? reqId).any (·.causalOnly)))⟩

end VllmMetal.Multimodal
