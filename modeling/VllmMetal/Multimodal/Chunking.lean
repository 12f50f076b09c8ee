import VllmMetal.Multimodal.Splice

/-!
# A prompt in chunks

However a prompt is cut into chunks, and however these are packed with the rows of other
requests, its positions receive the same encoder rows.

## Main definitions

* `Covers` — chunks that follow one another through a prompt.
* `received` — what the positions of a request receive in a step.

## Main results

* `received_spec` — the rows received in a step.
* `mm_splice_chunking` — **the splice does not depend on the chunks**.
-/

namespace VllmMetal.Multimodal

open SpecDecode

variable {R : Type}

/-! ### Chunks -/

/-- Chunks, each a start and a length, that follow one another from `a` to `b`. -/
def Covers : ℕ → List (ℕ × ℕ) → ℕ → Prop
  | a, [], b => a = b
  | a, (startPos, n) :: chunks, b => startPos = a ∧ Covers (a + n) chunks b

/-- Reading chunk by chunk reads every position once, in order. -/
theorem Covers.flatMap {α : Type*} (f : ℕ → α) {chunks : List (ℕ × ℕ)} {a b : ℕ}
    (h : Covers a chunks b) :
    a ≤ b ∧ chunks.flatMap (fun c => (List.range c.2).map fun k => f (c.1 + k)) =
      (List.range' a (b - a)).map f := by
  induction chunks generalizing a with
  | nil =>
    obtain rfl : a = b := h
    exact ⟨Nat.le_refl a, by simp⟩
  | cons c chunks ih =>
    obtain ⟨startPos, n⟩ := c
    obtain ⟨rfl, hrest⟩ := h
    obtain ⟨hle, hread⟩ := ih hrest
    refine ⟨by omega, ?_⟩
    have hsplit : List.range' startPos (b - startPos) =
        List.range' startPos n ++ List.range' (startPos + n) (b - (startPos + n)) := by
      rw [List.range'_append_1]
      congr 1
      omega
    have hfirst : List.range' startPos n = (List.range n).map (startPos + ·) :=
      List.range'_eq_map_range
    rw [List.flatMap_cons, hread, hsplit, List.map_append, hfirst, List.map_map]
    rfl

/-- The chunks of a request in a step. -/
def MmStep.chunks (step : MmStep R) (reqId : ReqId) : List (ℕ × ℕ) :=
  (step.prefillReqs.filter fun pr => decide (pr.reqId = reqId)).map fun pr =>
    (pr.startPos, pr.tokenIds.length)

/-! ### What a request receives -/

/-- The rows of a request among those of the prefill segments, with their positions. -/
def chunkReceived (reqId : ReqId) : List PrefillRequest → List (Option R) → List (ℕ × Option R)
  | [], _ => []
  | pr :: prs, rows =>
      (if pr.reqId = reqId then
        (List.range' pr.startPos pr.tokenIds.length).zip (rows.take pr.tokenIds.length) else []) ++
        chunkReceived reqId prs (rows.drop pr.tokenIds.length)

/-- What the positions of a request receive in a step: the row of the embeds passed to the
merge where the mask is set, and none elsewhere. -/
def received (adapter : Adapter R)
    (getEmbedsIndicesInRange : PlaceholderRange → ℕ → ℕ → ℕ × ℕ) (reqId : ReqId)
    (step : MmStep R) : List (ℕ × Option R) :=
  match runMmPagedForward adapter getEmbedsIndicesInRange step with
  | .error _ => []
  | .ok out => chunkReceived reqId step.prefillReqs
      ((placed out.visualPosMasks out.mmEmbeds).drop
        ((step.decodeSegments.map (·.numQueryTokens)).sum))

section

variable {adapter : Adapter R} {encoder : ℕ → MultimodalEncodeResult R} {layerCount : Option ℕ}
  {step : MmStep R} {getEmbedsIndicesInRange : PlaceholderRange → ℕ → ℕ → ℕ × ℕ}
  {features : List MultiModalFeatureSpec} {reqId : ReqId}

/-- The chunks of a request hold the rows of its positions. -/
theorem chunkReceived_flatMap (f : Option (ℕ × ℕ) → Option R) (prs : List PrefillRequest)
    (hfeatures : ∀ pr ∈ prs, pr.reqId = reqId → step.features reqId = features) :
    chunkReceived reqId prs ((prs.flatMap fun pr =>
      chunkRows (step.features pr.reqId) pr.startPos pr.tokenIds.length).map f) =
    ((prs.filter fun pr => decide (pr.reqId = reqId)).map fun pr =>
      (pr.startPos, pr.tokenIds.length)).flatMap fun c =>
        (List.range c.2).map fun k => (c.1 + k, f (embedAt features (c.1 + k))) := by
  induction prs with
  | nil => rfl
  | cons pr prs ih =>
    have ih := ih fun p hp => hfeatures p (List.mem_cons_of_mem pr hp)
    have hlen : ((chunkRows (step.features pr.reqId) pr.startPos pr.tokenIds.length).map
        f).length = pr.tokenIds.length := by
      rw [List.length_map, length_chunkRows]
    rw [chunkReceived, List.flatMap_cons, List.map_append, List.take_left' hlen,
      List.drop_left' hlen, ih]
    by_cases hreq : pr.reqId = reqId
    · rw [if_pos hreq, List.filter_cons_of_pos (by simpa using hreq), List.map_cons,
        List.flatMap_cons, hreq, hfeatures pr List.mem_cons_self hreq]
      congr 1
      unfold chunkRows
      rw [List.map_map, List.range'_eq_map_range, List.zip_map']
      rfl
    · rw [if_neg hreq, List.filter_cons_of_neg (by simpa using hreq), List.nil_append]

/-- **What a request receives in a step.** -/
theorem received_spec (hget : ∀ (p : PlaceholderRange) (a b : ℕ), a ≤ b → b ≤ p.length →
      getEmbedsIndicesInRange p a b = (p.embedsBefore a, p.embedsBefore b))
    (hmrope : ∀ prompt features,
      (adapter.getMropeInputPositions prompt features).1.length = prompt.length)
    (hok : StepOk encoder layerCount step)
    (hfeatures : ∀ pr ∈ step.prefillReqs, pr.reqId = reqId → step.features reqId = features) :
    received adapter getEmbedsIndicesInRange reqId step =
      (step.chunks reqId).flatMap fun c => (List.range c.2).map fun k =>
        (c.1 + k, (embedAt features (c.1 + k)).bind (hiddenRow encoder)) := by
  obtain ⟨out, hrun, hout⟩ := runMmPagedForward_spec hget hmrope hok
  have hplaced : placed out.visualPosMasks out.mmEmbeds =
      (packedRows step).map (·.bind (hiddenRow encoder)) := by
    rw [hout.mask, ← map_isSome_resolve encoder fun e he => hok.hiddenRow_isSome he,
      eq_reduceOption_resolve hout.embeds, placed_reduceOption]
  have hdecode : ((step.decodeSegments.flatMap fun segment =>
      List.replicate segment.numQueryTokens (none : Option (ℕ × ℕ))).map
        (·.bind (hiddenRow encoder))).length =
      (step.decodeSegments.map (·.numQueryTokens)).sum := by
    simp [List.length_flatMap]
  unfold received
  rw [hrun]
  dsimp only
  rw [hplaced, packedRows, List.map_append, List.drop_left' hdecode]
  exact chunkReceived_flatMap _ _ hfeatures

end

/-- **The splice does not depend on the chunks.**  A prompt with disjoint placeholder ranges is
cut into chunks in any way, and these are packed with the rows of other requests in any way.
Every step hands to the language model what it has to; the positions of a chunk are those of
the prompt at the same indices; and over the run every position of the prompt is computed once
and receives its own encoder row, or none. -/
theorem mm_splice_chunking (adapter : Adapter R)
    (getEmbedsIndicesInRange : PlaceholderRange → ℕ → ℕ → ℕ × ℕ)
    (encoder : ℕ → MultimodalEncodeResult R) (layerCount : Option ℕ)
    (hget : ∀ (p : PlaceholderRange) (a b : ℕ), a ≤ b → b ≤ p.length →
      getEmbedsIndicesInRange p a b = (p.embedsBefore a, p.embedsBefore b))
    (hmrope : ∀ prompt features,
      (adapter.getMropeInputPositions prompt features).1.length = prompt.length)
    (steps : List (MmStep R)) (hok : ∀ step ∈ steps, StepOk encoder layerCount step)
    (reqId : ReqId) (features : List MultiModalFeatureSpec) (prompt : List Token)
    (hrequest : ∀ step ∈ steps, ∀ pr ∈ step.prefillReqs, pr.reqId = reqId →
      step.features reqId = features ∧ (features ≠ [] → pr.fullPromptTokenIds = some prompt))
    (hcover : Covers 0 (steps.flatMap (·.chunks reqId)) prompt.length) :
    (∀ step ∈ steps, ∃ out, runMmPagedForward adapter getEmbedsIndicesInRange step = .ok out ∧
      ForwardOk adapter encoder layerCount step out) ∧
    (∀ step ∈ steps, ∀ pr ∈ step.prefillReqs, pr.reqId = reqId → features ≠ [] →
      prefillPositions adapter step pr = (List.range pr.tokenIds.length).map fun k =>
        (adapter.getMropeInputPositions prompt (sortFeatures features)).1[pr.startPos + k]?) ∧
    steps.flatMap (received adapter getEmbedsIndicesInRange reqId) =
      (List.range prompt.length).map fun pos =>
        (pos, (embedAt features pos).bind (hiddenRow encoder)) := by
  refine ⟨fun step hstep => runMmPagedForward_spec hget hmrope (hok step hstep), ?_, ?_⟩
  · intro step hstep pr hpr hreq hne
    obtain ⟨hfeatures, hprompt⟩ := hrequest step hstep pr hpr hreq
    -- the chunk of a request with features is multimodal
    have hmm : step.isMmRequest pr.reqId = true := by
      by_contra hnot
      rw [← hreq] at hfeatures
      exact hne (hfeatures.symm.trans (features_of_not_mm (Bool.eq_false_iff.mpr hnot)))
    refine List.map_congr_left fun k _ => ?_
    rw [hmm, if_pos rfl, hprompt hne, hreq, hfeatures]
    rfl
  -- what a step hands over is what its chunks of the request hold
  have hsteps : steps.flatMap (received adapter getEmbedsIndicesInRange reqId) =
      (steps.flatMap (·.chunks reqId)).flatMap fun c => (List.range c.2).map fun k =>
        (c.1 + k, (embedAt features (c.1 + k)).bind (hiddenRow encoder)) := by
    rw [List.flatMap_assoc]
    refine List.flatMap_congr fun step hstep => ?_
    exact received_spec hget hmrope (hok step hstep) fun pr hpr hreq =>
      (hrequest step hstep pr hpr hreq).1
  -- the chunks cover the prompt once, in order
  have hread := (hcover.flatMap fun pos =>
    (pos, (embedAt features pos).bind (hiddenRow encoder))).2
  rw [hsteps, hread, Nat.sub_zero, List.range_eq_range']

/-! ### One image in two chunks -/

/-- An image at positions 1 and 2. -/
def twoTokenImage : MultiModalFeatureSpec := ⟨0, ⟨1, 2, none, nofun⟩⟩

/-- Two rows for the image, in one deepstack layer as well. -/
def twoRowEncoder (_ : ℕ) : MultimodalEncodeResult ℕ := ⟨[7, 8], some [[70, 80]]⟩

/-- Text positions for a model whose embeddings are all zero. -/
def countingAdapter : Adapter ℕ where
  embedTokens := fun _ => 0
  getMropeInputPositions := fun prompt _ =>
    ((List.range prompt.length).map fun k => Position.broadcast k, 0)
  suppliesSegmentPositions := true

/-- A chunk of request 1, packed behind a decode row of request 2. -/
def imageStep (startPos n : ℕ) : MmStep ℕ where
  inputIds := List.replicate (1 + n) 0
  prefillReqs := [⟨1, List.replicate n 0, startPos, some [10, 99, 99]⟩]
  decodeSegments := [⟨2, [5], 0, 1, [], 4, [], rfl, rfl⟩]
  mmFeatures := (∅ : Dict ReqId (List MultiModalFeatureSpec)).set 1 [twoTokenImage]
  encoderOutputs := (∅ : Dict ℕ (MultimodalEncodeResult ℕ)).set 0 (twoRowEncoder 0)
  requestStates := ∅

theorem imageStep_ok {startPos n : ℕ} (h : startPos + n ≤ 3) :
    StepOk twoRowEncoder (some 1) (imageStep startPos n) where
  single := fun segment hsegment => by
    cases List.mem_singleton.mp hsegment
    exact Nat.le_refl 1
  packed := by
    rw [length_packedRows]
    simp [imageStep]
  nodup := List.nodup_singleton _
  prompt := fun pr hpr _ => by
    cases List.mem_singleton.mp hpr
    exact ⟨[10, 99, 99], rfl, by simpa using h⟩
  disjoint := fun pr hpr => by
    cases List.mem_singleton.mp hpr
    exact List.pairwise_singleton _ _
  encodes := fun pr hpr feature hf => by
    cases List.mem_singleton.mp hpr
    cases List.mem_singleton.mp (show feature ∈ [twoTokenImage] from hf)
    refine ⟨rfl, rfl, ?_⟩
    rintro layers hlayers layer hlayer
    cases hlayers
    cases List.mem_singleton.mp hlayer
    rfl
  gate := fun pr hpr feature hf _ _ _ => by
    cases List.mem_singleton.mp hpr
    cases List.mem_singleton.mp (show feature ∈ [twoTokenImage] from hf)
    rfl

/-- The border of the chunks falls inside the image. -/
theorem mm_splice_chunking_image :
    (∀ step ∈ [imageStep 0 2, imageStep 2 1], ∃ out, runMmPagedForward countingAdapter
      (fun p a b => (p.embedsBefore a, p.embedsBefore b)) step = .ok out ∧
        ForwardOk countingAdapter twoRowEncoder (some 1) step out) ∧
    (∀ step ∈ [imageStep 0 2, imageStep 2 1], ∀ pr ∈ step.prefillReqs, pr.reqId = 1 →
      [twoTokenImage] ≠ [] → prefillPositions countingAdapter step pr =
        (List.range pr.tokenIds.length).map fun k => (countingAdapter.getMropeInputPositions
          [10, 99, 99] (sortFeatures [twoTokenImage])).1[pr.startPos + k]?) ∧
    [imageStep 0 2, imageStep 2 1].flatMap (received countingAdapter
      (fun p a b => (p.embedsBefore a, p.embedsBefore b)) 1) =
      [(0, none), (1, some 7), (2, some 8)] := by
  refine mm_splice_chunking countingAdapter _ twoRowEncoder (some 1) (fun _ _ _ _ _ => rfl)
    (fun prompt _ => by simp [countingAdapter]) [imageStep 0 2, imageStep 2 1] ?_ 1
    [twoTokenImage] [10, 99, 99] ?_ ?_
  · intro step hstep
    rcases List.mem_cons.mp hstep with rfl | hstep
    · exact imageStep_ok (by decide)
    · cases List.mem_singleton.mp hstep
      exact imageStep_ok (by decide)
  · intro step hstep pr hpr _
    rcases List.mem_cons.mp hstep with rfl | hstep
    · cases List.mem_singleton.mp hpr
      exact ⟨rfl, fun _ => rfl⟩
    · cases List.mem_singleton.mp hstep
      cases List.mem_singleton.mp hpr
      exact ⟨rfl, fun _ => rfl⟩
  · exact ⟨rfl, rfl, rfl⟩

end VllmMetal.Multimodal
