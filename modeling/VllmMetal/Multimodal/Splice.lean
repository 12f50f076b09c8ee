import VllmMetal.Multimodal.PagedForward

/-!
# What the multimodal forward splices

Every packed row of a step is given the encoder row of the position it holds, or none; the
mask, the merged embeddings and the rows of every deepstack layer are those of that list.

## Main definitions

* `packedRows`, `packedPositions` — the encoder row and the position of every packed row.
* `StepOk` — what the scheduler, the encoder gate and the encoder promise of a step.
* `ForwardOk` — what the forward hands to the language model.

## Main results

* `spliceFeature_spec`, `spliceFeatures_spec` — one feature, all features of a chunk.
* `runMmPagedForward_spec` — the whole step.
-/

namespace VllmMetal.Multimodal

open SpecDecode

variable {R : Type}

/-! ### Specification -/

/-- The features of a request. -/
def MmStep.features (step : MmStep R) (reqId : ReqId) : List MultiModalFeatureSpec :=
  (step.mmFeatures.get? reqId).getD []

/-- The encoder rows of a chunk, position by position. -/
def chunkRows (features : List MultiModalFeatureSpec) (startPos n : ℕ) : List (Option (ℕ × ℕ)) :=
  (List.range n).map fun k => embedAt features (startPos + k)

/-- The encoder row of every packed row. -/
def packedRows (step : MmStep R) : List (Option (ℕ × ℕ)) :=
  step.decodeSegments.flatMap (fun segment => List.replicate segment.numQueryTokens none) ++
    step.prefillReqs.flatMap fun pr =>
      chunkRows (step.features pr.reqId) pr.startPos pr.tokenIds.length

/-- The positions of a decode segment. -/
def decodePositions (step : MmStep R) (segment : PagedDecodeSegment) : List (Option Position) :=
  (List.range segment.numQueryTokens).map fun k => some (Position.broadcast
    ((segment.cacheStartPos + k : ℕ) +
      ((step.requestStates.get? segment.reqId).bind (·.mropePositionDelta)).getD 0))

/-- The positions of a prefill chunk: those of the prompt at the same indices, and for text the
indices themselves. -/
def prefillPositions (adapter : Adapter R) (step : MmStep R) (pr : PrefillRequest) :
    List (Option Position) :=
  (List.range pr.tokenIds.length).map fun k =>
    if step.isMmRequest pr.reqId then
      (adapter.getMropeInputPositions (pr.fullPromptTokenIds.getD [])
        (sortFeatures (step.features pr.reqId))).1[pr.startPos + k]?
    else some (Position.broadcast (pr.startPos + k : ℕ))

/-- The positions of the packed rows, segment by segment. -/
def packedPositions (adapter : Adapter R) (step : MmStep R) : List (List (Option Position)) :=
  step.decodeSegments.map (decodePositions step) ++
    step.prefillReqs.map (prefillPositions adapter step)

/-- What the adapter is given for a decode segment: its positions, once the request has a delta. -/
def decodeGiven (step : MmStep R) (segment : PagedDecodeSegment) :
    Option (List (Option Position)) :=
  ((step.requestStates.get? segment.reqId).bind (·.mropePositionDelta)).map fun _ =>
    decodePositions step segment

/-- What the adapter is given for a prefill chunk: its positions, if the request is multimodal. -/
def prefillGiven (adapter : Adapter R) (step : MmStep R) (pr : PrefillRequest) :
    Option (List (Option Position)) :=
  if step.isMmRequest pr.reqId then some (prefillPositions adapter step pr) else none

/-- What the adapter is given, segment by segment. -/
def givenPositions (adapter : Adapter R) (step : MmStep R) :
    List (Option (List (Option Position))) :=
  step.decodeSegments.map (decodeGiven step) ++ step.prefillReqs.map (prefillGiven adapter step)

/-- A row of the encoder's output. -/
def hiddenRow (encoder : ℕ → MultimodalEncodeResult R) (e : ℕ × ℕ) : Option R :=
  (encoder e.1).hiddenStates[e.2]?

/-- A row of a deepstack layer. -/
def layerRow (encoder : ℕ → MultimodalEncodeResult R) (l : ℕ) (e : ℕ × ℕ) : Option R :=
  (((encoder e.1).deepstackVisualEmbeds).bind (·[l]?)).bind (·[e.2]?)

/-- The encoder returns a row for every embed position of a feature, in every layer. -/
structure EncodesFeature (encoder : ℕ → MultimodalEncodeResult R) (layerCount : Option ℕ)
    (feature : MultiModalFeatureSpec) : Prop where
  hidden : (encoder feature.identifier).hiddenStates.length =
    feature.mmPosition.embedsBefore feature.mmPosition.length
  present : (encoder feature.identifier).deepstackVisualEmbeds.map List.length = layerCount
  layers : ∀ layers, (encoder feature.identifier).deepstackVisualEmbeds = some layers →
    ∀ layer ∈ layers, layer.length = feature.mmPosition.embedsBefore feature.mmPosition.length

/-- **What a step is promised** by the scheduler, the encoder gate and the encoder. -/
structure StepOk (encoder : ℕ → MultimodalEncodeResult R) (layerCount : Option ℕ)
    (step : MmStep R) : Prop where
  /-- No request is verified speculatively next to a multimodal one. -/
  single : ∀ segment ∈ step.decodeSegments, segment.numQueryTokens ≤ 1
  packed : step.inputIds.length = (packedRows step).length
  nodup : (step.prefillReqs.map (·.reqId)).Nodup
  prompt : ∀ pr ∈ step.prefillReqs, step.isMmRequest pr.reqId = true →
    ∃ fullPrompt, pr.fullPromptTokenIds = some fullPrompt ∧
      pr.startPos + pr.tokenIds.length ≤ fullPrompt.length
  disjoint : ∀ pr ∈ step.prefillReqs, DisjointRanges (step.features pr.reqId)
  encodes : ∀ pr ∈ step.prefillReqs, ∀ feature ∈ step.features pr.reqId,
    EncodesFeature encoder layerCount feature
  /-- The output of a feature is there when a chunk holds one of its embed positions. -/
  gate : ∀ pr ∈ step.prefillReqs, ∀ feature ∈ step.features pr.reqId, ∀ k < pr.tokenIds.length,
    feature.mmPosition.embedAt (pr.startPos + k) ≠ none →
    step.encoderOutputs.get? feature.identifier = some (encoder feature.identifier)

/-- **What the forward hands to the language model.** -/
structure ForwardOk (adapter : Adapter R) (encoder : ℕ → MultimodalEncodeResult R)
    (layerCount : Option ℕ) (step : MmStep R) (out : MmForward R) : Prop where
  /-- The mask marks the rows of embed positions. -/
  mask : out.visualPosMasks = (packedRows step).map Option.isSome
  /-- The embeds are the encoder rows of these positions, in packed order. -/
  embeds : out.mmEmbeds.map some = (packedRows step).reduceOption.map (hiddenRow encoder)
  /-- The merge puts them there and leaves the other rows. -/
  merged : out.inputsEmbeds = List.zipWith (fun e row => (e.bind (hiddenRow encoder)).getD row)
    (packedRows step) (step.inputIds.map adapter.embedTokens)
  /-- The rows of every deepstack layer are in the same order. -/
  deepstack : out.deepstackVisualEmbeds.map (fun layers => layers.map (·.map some)) =
    if (packedRows step).reduceOption = [] ∨ layerCount.getD 0 = 0 then none
    else some ((List.range (layerCount.getD 0)).map fun l =>
      (packedRows step).reduceOption.map (layerRow encoder l))
  positions : out.positionIds.map some = (packedPositions adapter step).flatten
  /-- An adapter that asks for them gets the positions of every multimodal segment. -/
  segments : out.segmentPositions.map (fun given => given.map (·.map (·.map some))) =
    if adapter.suppliesSegmentPositions then some (givenPositions adapter step) else none

/-! ### Slices of the encoder's output -/

/-- A slice of a list, index by index. -/
theorem map_some_slice {α : Type*} {l : List α} {a n : ℕ} (h : a + n ≤ l.length) :
    ((l.drop a).take n).map some = (List.range n).map fun k => l[a + k]? := by
  have hlen : ((l.drop a).take n).length = n := by
    rw [List.length_take, List.length_drop]
    omega
  refine List.ext_getElem ?_ fun i hi hi' => ?_
  · rw [List.length_map, hlen, List.length_map, List.length_range]
  · rw [List.getElem_map, List.getElem_map, List.getElem_range, List.getElem_take,
      List.getElem_drop, List.getElem?_eq_getElem]

theorem map_some_slice_range' {α : Type*} {l : List α} {a b : ℕ} (hab : a ≤ b)
    (hb : b ≤ l.length) :
    ((l.drop a).take (b - a)).map some = (List.range' a (b - a)).map (l[·]?) := by
  rw [map_some_slice (by omega), List.range'_eq_map_range, List.map_map]
  rfl

/-! ### One feature -/

section

variable {encoder : ℕ → MultimodalEncodeResult R} {layerCount : Option ℕ} {step : MmStep R}
  {getEmbedsIndicesInRange : PlaceholderRange → ℕ → ℕ → ℕ × ℕ}
  {target target' : List (Option (ℕ × ℕ))} {s s' : Splicing R}

/-- **What the loops have spliced**: the encoder rows of `target`. -/
structure Spliced (encoder : ℕ → MultimodalEncodeResult R) (layerCount : Option ℕ)
    (target : List (Option (ℕ × ℕ))) (s : Splicing R) : Prop where
  mask : s.mask = target.map Option.isSome
  embeds : s.mmEmbedsParts.flatten.map some = target.reduceOption.map (hiddenRow encoder)
  parts : s.mmEmbedsParts = [] ↔ target.reduceOption = []
  present : s.deepstackPresent =
    if target.reduceOption = [] then none else some layerCount.isSome
  layers : s.deepstackPerLayer.map (fun parts => parts.flatten.map some) =
    if target.reduceOption = [] then []
    else (List.range (layerCount.getD 0)).map fun l => target.reduceOption.map (layerRow encoder l)

/-- The encoder rows of a window of a feature. -/
def featurePiece (feature : MultiModalFeatureSpec) (a n : ℕ) : List (Option (ℕ × ℕ)) :=
  (List.range n).map fun t =>
    (feature.mmPosition.embedAt (feature.mmPosition.offset + a + t)).map (feature.identifier, ·)

theorem length_featurePiece (feature : MultiModalFeatureSpec) (a n : ℕ) :
    (featurePiece feature a n).length = n := by
  simp [featurePiece]

theorem getElem_featurePiece (feature : MultiModalFeatureSpec) (a n i : ℕ)
    (hi : i < (featurePiece feature a n).length) : (featurePiece feature a n)[i] =
      (feature.mmPosition.embedAt (feature.mmPosition.offset + a + i)).map
        (feature.identifier, ·) := by
  simp [featurePiece]

theorem reduceOption_featurePiece (feature : MultiModalFeatureSpec) (a n : ℕ) :
    (featurePiece feature a n).reduceOption =
      (List.range' (feature.mmPosition.embedsBefore a)
        (feature.mmPosition.embedsBefore (a + n) - feature.mmPosition.embedsBefore a)).map
        (feature.identifier, ·) := by
  have hmap : featurePiece feature a n =
      ((List.range n).map fun t =>
        feature.mmPosition.embedAt (feature.mmPosition.offset + a + t)).map
        (Option.map (feature.identifier, ·)) := by
    rw [List.map_map]
    rfl
  rw [hmap, List.reduceOption_map, PlaceholderRange.reduceOption_embedAt]

/-- The slice of the mask that the forward copies. -/
theorem map_isSome_featurePiece (feature : MultiModalFeatureSpec) {a n : ℕ}
    (h : a + n ≤ feature.mmPosition.length) :
    (match feature.mmPosition.isEmbed with
      | none => List.replicate n true
      | some isEmbed => (isEmbed.drop a).take n) =
      (featurePiece feature a n).map Option.isSome := by
  have hslice : (match feature.mmPosition.isEmbed with
      | none => List.replicate n true
      | some isEmbed => (isEmbed.drop a).take n) =
      (feature.mmPosition.embedMask.drop a).take n := by
    unfold PlaceholderRange.embedMask
    cases feature.mmPosition.isEmbed with
    | none =>
      simp only [Option.getD_none, List.drop_replicate, List.take_replicate]
      congr 1
      omega
    | some isEmbed => rfl
  have hlen : a + n ≤ feature.mmPosition.embedMask.length := by
    rw [PlaceholderRange.length_embedMask]
    exact h
  rw [hslice]
  refine List.ext_getElem ?_ fun i hi hi' => ?_
  · rw [List.length_map, length_featurePiece, List.length_take, List.length_drop]
    omega
  · have hi : i < n := by
      rw [List.length_map, length_featurePiece] at hi'
      exact hi'
    rw [List.getElem_take, List.getElem_drop, List.getElem_map, getElem_featurePiece,
      Option.isSome_map, Nat.add_assoc, PlaceholderRange.isSome_embedAt,
      List.getElem?_eq_getElem (by omega), Option.getD_some]

/-- The rows of a window of a feature, as indices into the encoder's output. -/
def pieceRows (feature : MultiModalFeatureSpec) (embedStart embedEnd : ℕ) : List (ℕ × ℕ) :=
  (List.range' embedStart (embedEnd - embedStart)).map (feature.identifier, ·)

/-- The slice of the encoder's output is the rows of the window. -/
theorem EncodesFeature.hidden_slice {feature : MultiModalFeatureSpec}
    (h : EncodesFeature encoder layerCount feature) {a b : ℕ} (hab : a ≤ b)
    (hb : b ≤ feature.mmPosition.embedsBefore feature.mmPosition.length) :
    (((encoder feature.identifier).hiddenStates.drop a).take (b - a)).map some =
      (pieceRows feature a b).map (hiddenRow encoder) := by
  rw [map_some_slice_range' hab (by rw [h.hidden]; exact hb), pieceRows, List.map_map]
  rfl

/-- The same for the layers. -/
theorem EncodesFeature.layer_slice {feature : MultiModalFeatureSpec}
    (h : EncodesFeature encoder layerCount feature) {a b : ℕ} (hab : a ≤ b)
    (hb : b ≤ feature.mmPosition.embedsBefore feature.mmPosition.length)
    {layers : List (List R)} (hlayers : (encoder feature.identifier).deepstackVisualEmbeds =
      some layers) {l : ℕ} {layer : List R} (hl : layers[l]? = some layer) :
    ((layer.drop a).take (b - a)).map some = (pieceRows feature a b).map (layerRow encoder l) := by
  have hlength := h.layers layers hlayers layer (List.mem_of_getElem? hl)
  rw [map_some_slice_range' hab (by rw [hlength]; exact hb), pieceRows, List.map_map]
  refine List.map_congr_left fun j _ => ?_
  unfold layerRow
  simp only [Function.comp, hlayers, Option.bind_some, hl]

/-- **The deepstack part of a feature** appends its rows to those of every layer. -/
theorem spliceDeepstack_spec {feature : MultiModalFeatureSpec}
    (h : EncodesFeature encoder layerCount feature) {a b : ℕ} (hab : a ≤ b)
    (hb : b ≤ feature.mmPosition.embedsBefore feature.mmPosition.length) (reqId : ReqId)
    {rows : List (ℕ × ℕ)} {s : Splicing R}
    (hpresent : s.deepstackPresent = if rows = [] then none else some layerCount.isSome)
    (hperLayer : s.deepstackPerLayer.map (fun parts => parts.flatten.map some) =
      if rows = [] then []
      else (List.range (layerCount.getD 0)).map fun l => rows.map (layerRow encoder l)) :
    ∃ grown, spliceDeepstack reqId a b (encoder feature.identifier).deepstackVisualEmbeds s =
        .ok { s with deepstackPresent := some layerCount.isSome, deepstackPerLayer := grown } ∧
      grown.map (fun parts => parts.flatten.map some) = (List.range (layerCount.getD 0)).map
        fun l => (rows ++ pieceRows feature a b).map (layerRow encoder l) := by
  have hsome : (encoder feature.identifier).deepstackVisualEmbeds.isSome = layerCount.isSome := by
    rw [← h.present, Option.isSome_map]
  have hagree : s.deepstackPresent.getD layerCount.isSome = layerCount.isSome := by
    rw [hpresent]
    split <;> rfl
  unfold spliceDeepstack
  simp only [hsome, hagree, ne_eq, not_true_eq_false, if_false]
  cases hlayers : (encoder feature.identifier).deepstackVisualEmbeds with
  | none =>
    have hnone : layerCount = none := by
      rw [← h.present, hlayers]
      rfl
    refine ⟨s.deepstackPerLayer, rfl, ?_⟩
    rw [hperLayer, hnone]
    split <;> rfl
  | some layers =>
    have hcount : layerCount = some layers.length := by
      rw [← h.present, hlayers]
      rfl
    -- the feature's rows of layer `l` that the overlap keeps
    have hslice : ∀ l layer, layers[l]? = some layer →
        ((layer.drop a).take (b - a)).map some =
          (pieceRows feature a b).map (layerRow encoder l) :=
      fun l layer hl => h.layer_slice hab hb hlayers hl
    rw [hcount] at hperLayer ⊢
    dsimp only [Option.getD_some] at hperLayer ⊢
    by_cases hempty : s.deepstackPerLayer = []
    · -- no rows yet, or no layers at all
      rw [hempty, List.isEmpty_nil, if_pos rfl]
      refine ⟨_, rfl, ?_⟩
      rw [List.map_map]
      refine List.ext_getElem (by simp) fun l hl hl' => ?_
      have hl : l < layers.length := by simpa using hl
      have hrows : rows = [] := by
        by_contra hne
        rw [hempty, if_neg hne, List.map_nil] at hperLayer
        have hzero := congrArg List.length hperLayer
        rw [List.length_nil, List.length_map, List.length_range] at hzero
        omega
      rw [List.getElem_map, List.getElem_map, List.getElem_range, hrows, List.nil_append,
        ← hslice l layers[l] (List.getElem?_eq_getElem hl)]
      simp
    -- rows are there already, one list for each layer
    · have hrows : rows ≠ [] := by
        intro hnil
        rw [if_pos hnil, List.map_eq_nil_iff] at hperLayer
        exact hempty hperLayer
      rw [if_neg hrows] at hperLayer
      have hlength : s.deepstackPerLayer.length = layers.length := by
        have hlen := congrArg List.length hperLayer
        rw [List.length_map, List.length_map, List.length_range] at hlen
        exact hlen
      have hnonempty : s.deepstackPerLayer.isEmpty = false := by
        rw [List.isEmpty_eq_false_iff]
        exact hempty
      rw [hnonempty, if_neg Bool.false_ne_true, if_neg (by rw [hlength]; simp)]
      refine ⟨_, rfl, ?_⟩
      refine List.ext_getElem (by simp [hlength]) fun l hl hl' => ?_
      have hl : l < layers.length := by simpa using hl'
      have hold := List.getElem_of_eq hperLayer
        (i := l) (by rw [List.length_map, hlength]; exact hl)
      rw [List.getElem_map, List.getElem_map, List.getElem_range] at hold
      rw [List.getElem_map, List.getElem_map, List.getElem_range, List.getElem_zipWith,
        List.flatten_append, List.map_append, hold, List.map_append,
        ← hslice l layers[l] (List.getElem?_eq_getElem hl)]
      simp

/-- What the loop over the features leaves alone. -/
structure SameSegment (s s' : Splicing R) : Prop where
  cursor : s'.cursor = s.cursor
  segmentPositions : s'.segmentPositions = s.segmentPositions
  positionIdsParts : s'.positionIdsParts = s.positionIdsParts

theorem SameSegment.refl (s : Splicing R) : SameSegment s s := ⟨rfl, rfl, rfl⟩

theorem SameSegment.trans {s₁ s₂ s₃ : Splicing R} (h : SameSegment s₁ s₂)
    (h' : SameSegment s₂ s₃) : SameSegment s₁ s₃ :=
  ⟨h'.cursor.trans h.cursor, h'.segmentPositions.trans h.segmentPositions,
    h'.positionIdsParts.trans h.positionIdsParts⟩

/-- The window of a chunk that a feature covers: its start in the chunk, in the feature, and
its length. -/
def overlap (startPos n : ℕ) (p : PlaceholderRange) : ℕ × ℕ × ℕ :=
  (max p.offset startPos - startPos, max p.offset startPos - p.offset,
    min (p.offset + p.length) (startPos + n) - max p.offset startPos)

/-- The list after a feature of a chunk that is packed from `cursor` on. -/
def withFeature (target : List (Option (ℕ × ℕ))) (cursor startPos n : ℕ)
    (feature : MultiModalFeatureSpec) : List (Option (ℕ × ℕ)) :=
  let window := overlap startPos n feature.mmPosition
  setSlice target (cursor + window.1) (featurePiece feature window.2.1 window.2.2)

/-- **One feature of a chunk** is spliced into the blank end of the rows. -/
theorem spliceFeature_spec (hget : ∀ (p : PlaceholderRange) (a b : ℕ), a ≤ b → b ≤ p.length →
      getEmbedsIndicesInRange p a b = (p.embedsBefore a, p.embedsBefore b))
    {feature : MultiModalFeatureSpec} (h : EncodesFeature encoder layerCount feature)
    (hs : Spliced encoder layerCount target s) (pr : PrefillRequest)
    (hfit : s.cursor + pr.tokenIds.length ≤ target.length)
    (hgate : ∀ k < pr.tokenIds.length, feature.mmPosition.embedAt (pr.startPos + k) ≠ none →
      step.encoderOutputs.get? feature.identifier = some (encoder feature.identifier))
    (hblank : 0 < (overlap pr.startPos pr.tokenIds.length feature.mmPosition).2.2 →
      ∀ x ∈ target.drop (s.cursor +
        (overlap pr.startPos pr.tokenIds.length feature.mmPosition).1), x = none) :
    ∃ s', spliceFeature getEmbedsIndicesInRange step pr s feature = .ok s' ∧ SameSegment s s' ∧
      Spliced encoder layerCount
        (withFeature target s.cursor pr.startPos pr.tokenIds.length feature) s' := by
  obtain ⟨chunkLocal, hchunk⟩ : ∃ k, k = max feature.mmPosition.offset pr.startPos - pr.startPos :=
    ⟨_, rfl⟩
  obtain ⟨local', hlocal⟩ : ∃ k, k =
      max feature.mmPosition.offset pr.startPos - feature.mmPosition.offset := ⟨_, rfl⟩
  obtain ⟨n, hn⟩ : ∃ k, k = min (feature.mmPosition.offset + feature.mmPosition.length)
      (pr.startPos + pr.tokenIds.length) - max feature.mmPosition.offset pr.startPos := ⟨_, rfl⟩
  have hwindow : overlap pr.startPos pr.tokenIds.length feature.mmPosition =
      (chunkLocal, local', n) := by
    rw [overlap, ← hchunk, ← hlocal, ← hn]
  rw [withFeature, hwindow]
  rw [hwindow] at hblank
  dsimp only at hblank ⊢
  unfold spliceFeature
  dsimp only
  rw [← hchunk, ← hlocal, ← hn]
  split
  · next hnone =>
    have hzero : n = 0 := by omega
    refine ⟨s, rfl, .refl s, ?_⟩
    rw [hzero, show featurePiece feature local' 0 = [] from rfl, setSlice_nil]
    exact hs
  · next hoverlap =>
    have hpos : 0 < n := by omega
    have hinside : local' + n ≤ feature.mmPosition.length := by omega
    have hroom : chunkLocal + n ≤ pr.tokenIds.length := by omega
    have hstart : feature.mmPosition.offset + local' = pr.startPos + chunkLocal := by omega
    have hblank := hblank hpos
    have hmono := feature.mmPosition.embedsBefore_mono (Nat.le_add_right local' n)
    have hend := feature.mmPosition.embedsBefore_mono hinside
    rw [hget _ _ _ (Nat.le_add_right local' n) hinside]
    dsimp only
    have hpiece := reduceOption_featurePiece feature local' n
    split
    · next hmarker =>
      -- only marker tokens: what is written is blank already
      refine ⟨s, rfl, .refl s, ?_⟩
      have hnone : ∀ x ∈ featurePiece feature local' n, x = none := by
        refine List.filterMap_eq_nil_iff.mp (hpiece.trans ?_)
        rw [← hmarker, Nat.sub_self]
        rfl
      have hself := setSlice_blank (k := s.cursor + chunkLocal) hblank hnone
        (by rw [length_featurePiece]; omega)
      rw [hself]
      exact hs
    · next hrows =>
      have hlt : feature.mmPosition.embedsBefore local' <
          feature.mmPosition.embedsBefore (local' + n) := by omega
      have hfound : step.encoderOutputs.get? feature.identifier =
          some (encoder feature.identifier) := by
        obtain ⟨t, ht, hsome⟩ := feature.mmPosition.exists_embedAt hlt
        refine hgate (chunkLocal + t) (by omega) ?_
        rw [← Nat.add_assoc, ← hstart]
        exact hsome
      rw [hfound]
      dsimp only
      have htarget : (setSlice target (s.cursor + chunkLocal)
          (featurePiece feature local' n)).reduceOption = target.reduceOption ++
            pieceRows feature (feature.mmPosition.embedsBefore local')
              (feature.mmPosition.embedsBefore (local' + n)) := by
        rw [reduceOption_setSlice hblank, hpiece]
        rfl
      have hne : target.reduceOption ++ pieceRows feature
          (feature.mmPosition.embedsBefore local')
            (feature.mmPosition.embedsBefore (local' + n)) ≠ [] := by
        intro hnil
        have hright := (List.append_eq_nil_iff.mp hnil).2
        rw [pieceRows, List.map_eq_nil_iff, List.range'_eq_nil_iff] at hright
        omega
      obtain ⟨grown, hgrown, hlayers⟩ := spliceDeepstack_spec h (Nat.le_of_lt hlt) hend pr.reqId
        (s := { s with
          mask := setSlice s.mask (s.cursor + chunkLocal) (match feature.mmPosition.isEmbed with
            | none => List.replicate n true
            | some isEmbed => (isEmbed.drop local').take n)
          mmEmbedsParts := s.mmEmbedsParts ++
            [((encoder feature.identifier).hiddenStates.drop
              (feature.mmPosition.embedsBefore local')).take
              (feature.mmPosition.embedsBefore (local' + n) -
                feature.mmPosition.embedsBefore local')] })
        hs.present hs.layers
      refine ⟨_, hgrown, ⟨rfl, rfl, rfl⟩, ?_, ?_, ?_, ?_, ?_⟩
      · rw [map_setSlice, ← hs.mask, map_isSome_featurePiece feature hinside]
      · rw [htarget, List.flatten_append, List.map_append, hs.embeds, List.map_append,
          ← h.hidden_slice (Nat.le_of_lt hlt) hend]
        simp
      · rw [htarget]
        constructor
        · intro hnil
          cases List.append_eq_nil_iff.mp hnil |>.2
        · intro hnil
          exact absurd hnil hne
      · rw [htarget, if_neg hne]
      · rw [htarget, if_neg hne]
        exact hlayers

/-! ### A chunk -/

theorem length_chunkRows (features : List MultiModalFeatureSpec) (startPos n : ℕ) :
    (chunkRows features startPos n).length = n := by
  simp [chunkRows]

theorem getElem?_chunkRows (features : List MultiModalFeatureSpec) {startPos n k : ℕ}
    (hk : k < n) : (chunkRows features startPos n)[k]? =
      some (embedAt features (startPos + k)) := by
  rw [chunkRows, List.getElem?_map, List.getElem?_range hk]
  rfl

theorem chunkRows_nil (startPos n : ℕ) : chunkRows [] startPos n = List.replicate n none := by
  refine List.eq_replicate_iff.mpr ⟨length_chunkRows [] startPos n, fun x hx => ?_⟩
  obtain ⟨k, -, rfl⟩ := List.mem_map.mp hx
  rfl

/-- The rows of a chunk between those before it and the blank ones behind. -/
def chunkBetween (front : List (Option (ℕ × ℕ))) (features : List MultiModalFeatureSpec)
    (startPos n m : ℕ) : List (Option (ℕ × ℕ)) :=
  front ++ chunkRows features startPos n ++ List.replicate m none

theorem length_chunkBetween (front : List (Option (ℕ × ℕ)))
    (features : List MultiModalFeatureSpec) (startPos n m : ℕ) :
    (chunkBetween front features startPos n m).length = front.length + n + m := by
  rw [chunkBetween, List.length_append, List.length_append, length_chunkRows,
    List.length_replicate]

theorem getElem?_chunkBetween (front : List (Option (ℕ × ℕ)))
    (features : List MultiModalFeatureSpec) (startPos n m i : ℕ) :
    (chunkBetween front features startPos n m)[i]? =
      if i < front.length then front[i]?
      else if i < front.length + n then some (embedAt features (startPos + (i - front.length)))
      else if i < front.length + n + m then some none else none := by
  have hlen : (front ++ chunkRows features startPos n).length = front.length + n := by
    rw [List.length_append, length_chunkRows]
  unfold chunkBetween
  split
  · next hi =>
    rw [List.getElem?_append_left (by omega), List.getElem?_append_left hi]
  · next hi =>
    split
    · next hi' =>
      rw [List.getElem?_append_left (by omega), List.getElem?_append_right (by omega),
        getElem?_chunkRows features (by omega)]
    · next hi' =>
      rw [List.getElem?_append_right (by omega), List.getElem?_replicate, hlen]
      split
      · next hm => rw [if_pos (by omega)]
      · next hm => rw [if_neg (by omega)]

/-- **A feature behind the earlier ones** adds its rows to the chunk. -/
theorem withFeature_chunkBetween (front : List (Option (ℕ × ℕ)))
    {features : List MultiModalFeatureSpec} {feature : MultiModalFeatureSpec}
    (hclear : 0 < feature.mmPosition.length →
      ∀ pos, feature.mmPosition.offset ≤ pos → embedAt features pos = none)
    (startPos n m : ℕ) :
    withFeature (chunkBetween front features startPos n m) front.length startPos n feature =
      chunkBetween front (features ++ [feature]) startPos n m := by
  have hfit : front.length + (overlap startPos n feature.mmPosition).1 +
      (featurePiece feature (overlap startPos n feature.mmPosition).2.1
        (overlap startPos n feature.mmPosition).2.2).length ≤ front.length + n + m ∨
      (overlap startPos n feature.mmPosition).2.2 = 0 := by
    rw [length_featurePiece]
    unfold overlap
    dsimp only
    omega
  -- a position outside the window is not one of the feature
  have houtside : ∀ k < n, ¬ ((overlap startPos n feature.mmPosition).1 ≤ k ∧
      k < (overlap startPos n feature.mmPosition).1 +
        (overlap startPos n feature.mmPosition).2.2) →
      feature.mmPosition.embedAt (startPos + k) = none := by
    intro k hk hnot
    unfold overlap at hnot
    dsimp only at hnot
    rcases Nat.lt_or_ge (startPos + k) feature.mmPosition.offset with hlt | hge
    · exact PlaceholderRange.embedAt_of_lt hlt
    · exact PlaceholderRange.embedAt_of_ge (by omega)
  refine List.ext_getElem? fun i => ?_
  rw [getElem?_chunkBetween]
  rcases Nat.eq_zero_or_pos (overlap startPos n feature.mmPosition).2.2 with hzero | hpos
  · rw [withFeature, hzero, show featurePiece feature _ 0 = [] from rfl, setSlice_nil,
      getElem?_chunkBetween]
    split
    · rfl
    · split
      · next hi hi' =>
        rw [embedAt_append, embedAt_singleton, houtside _ (by omega) (by omega), Option.map_none,
          Option.or_none]
      · rfl
  · have hfit := hfit.resolve_right (by omega)
    rw [withFeature, getElem?_setSlice (by rw [length_chunkBetween]; exact hfit),
      length_featurePiece, getElem?_chunkBetween]
    split
    · next hi =>
      have hlen : 0 < feature.mmPosition.length := by
        unfold overlap at hpos
        dsimp only at hpos
        omega
      have hin : front.length ≤ i ∧ i < front.length + n := by
        unfold overlap at hi
        dsimp only at hi
        omega
      have hge : feature.mmPosition.offset ≤ startPos + (i - front.length) := by
        unfold overlap at hi
        dsimp only at hi
        omega
      have hpos' : feature.mmPosition.offset + (overlap startPos n feature.mmPosition).2.1 +
          (i - (front.length + (overlap startPos n feature.mmPosition).1)) =
          startPos + (i - front.length) := by
        unfold overlap at hi ⊢
        dsimp only at hi ⊢
        omega
      rw [if_neg (by omega), if_pos hin.2, embedAt_append, hclear hlen _ hge, Option.none_or,
        embedAt_singleton,
        List.getElem?_eq_getElem (by rw [length_featurePiece]; omega), getElem_featurePiece, hpos']
    · next hi =>
      split
      · rfl
      · split
        · next hlo hhi =>
          rw [embedAt_append, embedAt_singleton, houtside _ (by omega) (by omega),
            Option.map_none, Option.or_none]
        · rfl

/-- **All features of a chunk**, in the order of their positions. -/
theorem spliceFeatures_spec (hget : ∀ (p : PlaceholderRange) (a b : ℕ), a ≤ b → b ≤ p.length →
      getEmbedsIndicesInRange p a b = (p.embedsBefore a, p.embedsBefore b))
    (pr : PrefillRequest) (front : List (Option (ℕ × ℕ))) (m : ℕ)
    (features done : List MultiModalFeatureSpec)
    (hsorted : (done ++ features).Pairwise fun f g => 0 < g.mmPosition.length →
      ∀ pos, g.mmPosition.offset ≤ pos → f.mmPosition.embedAt pos = none)
    (hencodes : ∀ feature ∈ features, EncodesFeature encoder layerCount feature)
    (hgate : ∀ feature ∈ features, ∀ k < pr.tokenIds.length,
      feature.mmPosition.embedAt (pr.startPos + k) ≠ none →
      step.encoderOutputs.get? feature.identifier = some (encoder feature.identifier))
    (s : Splicing R) (hcursor : s.cursor = front.length)
    (hs : Spliced encoder layerCount
      (chunkBetween front done pr.startPos pr.tokenIds.length m) s) :
    ∃ s', spliceFeatures getEmbedsIndicesInRange step pr features s = .ok s' ∧
      SameSegment s s' ∧ Spliced encoder layerCount
        (chunkBetween front (done ++ features) pr.startPos pr.tokenIds.length m) s' := by
  -- induction on the features left, with the rows of those done
  induction features generalizing done s with
  | nil =>
    rw [List.append_nil]
    exact ⟨s, rfl, .refl s, hs⟩
  | cons feature features ih =>
    -- the features come in order, so the rows of this one are still blank
    have hclear : 0 < feature.mmPosition.length →
        ∀ pos, feature.mmPosition.offset ≤ pos → embedAt done pos = none := by
      intro hpos pos hge
      refine embedAt_eq_none fun f hf => ?_
      exact (List.pairwise_append.mp hsorted).2.2 f hf feature List.mem_cons_self hpos pos hge
    obtain ⟨s₁, hone, hsame, hs₁⟩ := spliceFeature_spec hget
      (hencodes feature List.mem_cons_self) hs pr
      (by rw [hcursor, length_chunkBetween]; omega) (hgate feature List.mem_cons_self) (by
        intro hoverlap x hx
        obtain ⟨i, hi⟩ := List.mem_iff_getElem?.mp hx
        rw [List.getElem?_drop, hcursor, getElem?_chunkBetween, if_neg (by omega)] at hi
        have hlen : 0 < feature.mmPosition.length := by
          unfold overlap at hoverlap
          dsimp only at hoverlap
          omega
        split at hi
        · rw [hclear hlen _ (by unfold overlap; dsimp only; omega)] at hi
          exact (Option.some.inj hi).symm
        · split at hi
          · exact (Option.some.inj hi).symm
          · cases hi)
    -- the blank rows from the feature on are filled in, and the rest stays blank
    rw [hcursor, withFeature_chunkBetween front hclear] at hs₁
    have hassoc : done ++ feature :: features = (done ++ [feature]) ++ features := by simp
    rw [hassoc] at hsorted ⊢
    obtain ⟨s', hrest, hsame', hs'⟩ := ih (done ++ [feature]) hsorted
      (fun f hf => hencodes f (List.mem_cons_of_mem _ hf))
      (fun f hf => hgate f (List.mem_cons_of_mem _ hf)) s₁ (hsame.cursor.trans hcursor) hs₁
    refine ⟨s', ?_, hsame.trans hsame', hs'⟩
    rw [spliceFeatures, hone]
    exact hrest

/-! ### The segments -/

/-- **What the loops over the segments have packed**: the encoder rows `rows`, the positions
`positions` and of these the `given` ones, and `m` rows are still to come. -/
structure Packed (encoder : ℕ → MultimodalEncodeResult R) (layerCount : Option ℕ)
    (rows : List (Option (ℕ × ℕ))) (positions : List (List (Option Position)))
    (given : List (Option (List (Option Position)))) (m : ℕ) (s : Splicing R) : Prop where
  cursor : s.cursor = rows.length
  spliced : Spliced encoder layerCount (rows ++ List.replicate m none) s
  positionIds : s.positionIdsParts.map (·.map some) = positions
  segments : s.segmentPositions.map (·.map (·.map some)) = given

variable {rows : List (Option (ℕ × ℕ))} {positions : List (List (Option Position))}
  {given : List (Option (List (Option Position)))} {m : ℕ}

theorem packed_start (total : ℕ) :
    Packed encoder layerCount [] [] [] total (Splicing.start total : Splicing R) where
  cursor := rfl
  spliced := by
    have hnone : (List.replicate total (none : Option (ℕ × ℕ))).reduceOption = [] :=
      List.reduceOption_replicate_none
    refine ⟨?_, ?_, ?_, ?_, ?_⟩
    · simp [Splicing.start]
    · rw [List.nil_append, hnone]
      rfl
    · rw [List.nil_append, hnone]
      exact ⟨fun _ => rfl, fun _ => rfl⟩
    · rw [List.nil_append, hnone]
      rfl
    · rw [List.nil_append, hnone]
      rfl
  positionIds := rfl
  segments := rfl

theorem Spliced.congr (h : Spliced encoder layerCount target s) (hmask : s'.mask = s.mask)
    (hparts : s'.mmEmbedsParts = s.mmEmbedsParts)
    (hpresent : s'.deepstackPresent = s.deepstackPresent)
    (hlayers : s'.deepstackPerLayer = s.deepstackPerLayer) :
    Spliced encoder layerCount target s' := by
  refine ⟨?_, ?_, ?_, ?_, ?_⟩
  · rw [hmask, h.mask]
  · rw [hparts, h.embeds]
  · rw [hparts, h.parts]
  · rw [hpresent, h.present]
  · rw [hlayers, h.layers]

/-- One more segment, packed. -/
theorem Packed.segment {n : ℕ} {new : List (Option (ℕ × ℕ))} {passed : Option (List Position)}
    {got : List Position} {want : List (Option Position)} {wanted : Option (List (Option Position))}
    (h : Packed encoder layerCount rows positions given (n + m) s) (hnew : new.length = n)
    (hcursor : s'.cursor = s.cursor + n)
    (hspliced : Spliced encoder layerCount (rows ++ new ++ List.replicate m none) s')
    (hsegments : s'.segmentPositions = s.segmentPositions ++ [passed])
    (hpositions : s'.positionIdsParts = s.positionIdsParts ++ [got])
    (hgot : got.map some = want) (hpassed : passed.map (·.map some) = wanted) :
    Packed encoder layerCount (rows ++ new) (positions ++ [want]) (given ++ [wanted]) m s' where
  cursor := by rw [hcursor, h.cursor, List.length_append, hnew]
  spliced := hspliced
  positionIds := by rw [hpositions, List.map_append, h.positionIds, ← hgot]; rfl
  segments := by
    rw [hsegments, List.map_append, h.segments, ← hpassed]
    rfl

theorem replicate_add_none (rows : List (Option (ℕ × ℕ))) (n m : ℕ) :
    rows ++ List.replicate (n + m) none =
      rows ++ List.replicate n none ++ List.replicate m none := by
  rw [List.append_assoc, List.replicate_append_replicate]

/-- **A decode segment** takes no encoder row. -/
theorem Packed.decodeSegment (segment : PagedDecodeSegment)
    (h : Packed encoder layerCount rows positions given (segment.numQueryTokens + m) s) :
    Packed encoder layerCount (rows ++ List.replicate segment.numQueryTokens none)
      (positions ++ [decodePositions step segment]) (given ++ [decodeGiven step segment]) m
      (decodeSegment step s segment) := by
  refine h.segment List.length_replicate rfl ?_ rfl rfl ?_ ?_
  · rw [← replicate_add_none]
    exact h.spliced.congr rfl rfl rfl rfl
  · rw [decodePositions, List.map_map]
    rfl
  · rw [decodeGiven, Option.map_map]
    refine Option.map_congr fun delta _ => ?_
    rw [decodePositions, Function.comp_apply, List.map_map]
    rfl

/-- **All decode segments.** -/
theorem Packed.decodeSegments (segments : List PagedDecodeSegment)
    (h : Packed encoder layerCount rows positions given
      ((segments.map (·.numQueryTokens)).sum + m) s) :
    Packed encoder layerCount
      (rows ++ segments.flatMap fun segment => List.replicate segment.numQueryTokens none)
      (positions ++ segments.map (decodePositions step))
      (given ++ segments.map (decodeGiven step)) m
      (segments.foldl (VllmMetal.Multimodal.decodeSegment step) s) := by
  induction segments generalizing rows positions given s with
  | nil => simpa using h
  | cons segment segments ih =>
    rw [List.map_cons, List.sum_cons, Nat.add_assoc] at h
    have hone := @Packed.decodeSegment _ _ _ step _ _ _ _ _ segment h
    rw [List.flatMap_cons, List.map_cons, List.map_cons, List.foldl_cons, ← List.append_assoc,
      List.append_cons positions, List.append_cons given]
    exact ih hone

/-- What `mm_request_meta` holds for a multimodal prefill request. -/
def requestMetaOf (adapter : Adapter R) (step : MmStep R) (pr : PrefillRequest) : MmRequestMeta :=
  let sorted := sortFeatures (step.features pr.reqId)
  let positions := adapter.getMropeInputPositions (pr.fullPromptTokenIds.getD []) sorted
  (positions.1, positions.2, sorted)

/-- **The loop that fills `mm_request_meta`**: an entry for every multimodal request. -/
theorem mmRequestMeta_spec (adapter : Adapter R) (step : MmStep R) (prs : List PrefillRequest)
    (hnodup : (prs.map (·.reqId)).Nodup)
    (hprompt : ∀ pr ∈ prs, step.isMmRequest pr.reqId = true →
      pr.fullPromptTokenIds.isSome = true) (found : Dict ReqId MmRequestMeta) :
    ∃ filled, mmRequestMeta adapter step prs found = .ok filled ∧
      (∀ pr ∈ prs, step.isMmRequest pr.reqId = true →
        filled.get? pr.reqId = some (requestMetaOf adapter step pr)) ∧
      ∀ reqId, (reqId ∈ prs.map (·.reqId) → step.isMmRequest reqId = false) →
        filled.get? reqId = found.get? reqId := by
  induction prs generalizing found with
  | nil => exact ⟨found, rfl, nofun, fun _ _ => rfl⟩
  | cons pr prs ih =>
    obtain ⟨hnotin, hnodup⟩ := List.nodup_cons.mp hnodup
    have hprompt' := fun p hp => hprompt p (List.mem_cons_of_mem pr hp)
    unfold mmRequestMeta
    cases hmm : step.isMmRequest pr.reqId with
    -- a text request adds no entry
    | false =>
      obtain ⟨filled, hok, hall, hother⟩ := ih hnodup hprompt' found
      rw [if_neg Bool.false_ne_true]
      refine ⟨filled, hok, fun p hp hpmm => ?_, fun reqId hreq => hother reqId fun hmem =>
        hreq (List.mem_cons_of_mem _ hmem)⟩
      rcases List.mem_cons.mp hp with rfl | hp
      · rw [hmm] at hpmm
        cases hpmm
      · exact hall p hp hpmm
    -- a multimodal one adds its own, which no later request overwrites
    | true =>
      obtain ⟨fullPrompt, hfull⟩ := Option.isSome_iff_exists.mp
        (hprompt pr List.mem_cons_self hmm)
      rw [if_pos rfl, hfull]
      obtain ⟨filled, hok, hall, hother⟩ := ih hnodup hprompt'
        (found.set pr.reqId (requestMetaOf adapter step pr))
      refine ⟨filled, ?_, fun p hp hpmm => ?_, fun reqId hreq => ?_⟩
      · rw [requestMetaOf, hfull] at hok
        exact hok
      · rcases List.mem_cons.mp hp with rfl | hp
        · rw [hother p.reqId fun hmem => absurd hmem hnotin, Dict.get?_set, if_pos rfl]
        · exact hall p hp hpmm
      · have hne : reqId ≠ pr.reqId := by
          rintro rfl
          rw [hreq List.mem_cons_self] at hmm
          cases hmm
        rw [hother reqId fun hmem => hreq (List.mem_cons_of_mem _ hmem), Dict.get?_set,
          if_neg hne]

/-- The features of a request that is not multimodal. -/
theorem features_of_not_mm {reqId : ReqId} (h : step.isMmRequest reqId = false) :
    step.features reqId = [] := by
  unfold MmStep.isMmRequest at h
  unfold MmStep.features
  cases hget : step.mmFeatures.get? reqId with
  | none => rfl
  | some features =>
    rw [hget] at h
    simpa using h

variable {adapter : Adapter R}

/-- **A prefill segment** takes the encoder rows of its chunk. -/
theorem Packed.prefillSegment (hget : ∀ (p : PlaceholderRange) (a b : ℕ), a ≤ b → b ≤ p.length →
      getEmbedsIndicesInRange p a b = (p.embedsBefore a, p.embedsBefore b))
    (hmrope : ∀ prompt features,
      (adapter.getMropeInputPositions prompt features).1.length = prompt.length)
    (hok : StepOk encoder layerCount step) {pr : PrefillRequest} (hpr : pr ∈ step.prefillReqs)
    {requestMeta : Dict ReqId MmRequestMeta}
    (hmeta : requestMeta.get? pr.reqId =
      if step.isMmRequest pr.reqId then some (requestMetaOf adapter step pr) else none)
    (h : Packed encoder layerCount rows positions given (pr.tokenIds.length + m) s) :
    ∃ s', VllmMetal.Multimodal.prefillSegment getEmbedsIndicesInRange step requestMeta s pr =
        .ok s' ∧
      Packed encoder layerCount
        (rows ++ chunkRows (step.features pr.reqId) pr.startPos pr.tokenIds.length)
        (positions ++ [prefillPositions adapter step pr])
        (given ++ [prefillGiven adapter step pr]) m s' := by
  unfold VllmMetal.Multimodal.prefillSegment
  -- the rows of a text request have no feature
  cases hmm : step.isMmRequest pr.reqId with
  | false =>
    rw [hmm, if_neg Bool.false_ne_true] at hmeta
    rw [hmeta]
    refine ⟨_, rfl, h.segment (length_chunkRows _ _ _) rfl ?_ rfl rfl ?_ ?_⟩
    · rw [features_of_not_mm hmm, chunkRows_nil, ← replicate_add_none]
      exact h.spliced.congr rfl rfl rfl rfl
    · rw [prefillPositions, List.map_map]
      refine List.map_congr_left fun k _ => ?_
      rw [hmm, if_neg Bool.false_ne_true]
      rfl
    · rw [prefillGiven, hmm, if_neg Bool.false_ne_true]
      rfl
  | true =>
    rw [hmm, if_pos rfl] at hmeta
    rw [hmeta, requestMetaOf]
    obtain ⟨fullPrompt, hfull, hfits⟩ := hok.prompt pr hpr hmm
    -- before the splice the chunk is blank
    have hblank : Spliced encoder layerCount
        (chunkBetween rows [] pr.startPos pr.tokenIds.length m) s := by
      rw [chunkBetween, chunkRows_nil, ← replicate_add_none]
      exact h.spliced
    have hmem : ∀ {feature}, feature ∈ sortFeatures (step.features pr.reqId) →
        feature ∈ step.features pr.reqId := (sortFeatures_perm _).mem_iff.mp
    -- the positions of the chunk are a slice of those of the prompt
    have hslice : ((((adapter.getMropeInputPositions (pr.fullPromptTokenIds.getD [])
        (sortFeatures (step.features pr.reqId))).1.drop pr.startPos).take
          pr.tokenIds.length).map some) = prefillPositions adapter step pr := by
      rw [map_some_slice (by rw [hmrope, hfull]; exact hfits), prefillPositions]
      refine List.map_congr_left fun k _ => ?_
      rw [hmm, if_pos rfl]
    dsimp only
    obtain ⟨s', hsplice, hsame, hs'⟩ := spliceFeatures_spec hget pr rows m
      (sortFeatures (step.features pr.reqId)) [] (pairwise_sortFeatures (hok.disjoint pr hpr))
      (fun feature hf => hok.encodes pr hpr feature (hmem hf))
      (fun feature hf => hok.gate pr hpr feature (hmem hf))
      { s with
        segmentPositions := s.segmentPositions ++ [some
          (((adapter.getMropeInputPositions (pr.fullPromptTokenIds.getD [])
            (sortFeatures (step.features pr.reqId))).1.drop pr.startPos).take
              pr.tokenIds.length)]
        positionIdsParts := s.positionIdsParts ++
          [((adapter.getMropeInputPositions (pr.fullPromptTokenIds.getD [])
            (sortFeatures (step.features pr.reqId))).1.drop pr.startPos).take
              pr.tokenIds.length] }
      h.cursor (hblank.congr rfl rfl rfl rfl)
    rw [hsplice]
    refine ⟨_, rfl, h.segment (length_chunkRows _ _ _) ?_ ?_ hsame.segmentPositions
      hsame.positionIdsParts hslice ?_⟩
    · dsimp only
      rw [hsame.cursor]
    -- the features of a chunk splice alike in either order
    · have hrows : chunkBetween rows (sortFeatures (step.features pr.reqId)) pr.startPos
          pr.tokenIds.length m = rows ++
            chunkRows (step.features pr.reqId) pr.startPos pr.tokenIds.length ++
              List.replicate m none := by
        unfold chunkBetween chunkRows
        simp only [embedAt_sortFeatures (hok.disjoint pr hpr)]
      rw [List.nil_append, hrows] at hs'
      exact hs'.congr rfl rfl rfl rfl
    · rw [prefillGiven, hmm, if_pos rfl, Option.map_some, hslice]

/-- **All prefill segments.** -/
theorem Packed.prefillSegments (hget : ∀ (p : PlaceholderRange) (a b : ℕ), a ≤ b → b ≤ p.length →
      getEmbedsIndicesInRange p a b = (p.embedsBefore a, p.embedsBefore b))
    (hmrope : ∀ prompt features,
      (adapter.getMropeInputPositions prompt features).1.length = prompt.length)
    (hok : StepOk encoder layerCount step) {requestMeta : Dict ReqId MmRequestMeta}
    (prs : List PrefillRequest) (hsub : ∀ pr ∈ prs, pr ∈ step.prefillReqs)
    (hmeta : ∀ pr ∈ prs, requestMeta.get? pr.reqId =
      if step.isMmRequest pr.reqId then some (requestMetaOf adapter step pr) else none)
    (h : Packed encoder layerCount rows positions given
      ((prs.map (·.tokenIds.length)).sum + m) s) :
    ∃ s', VllmMetal.Multimodal.prefillSegments getEmbedsIndicesInRange step requestMeta prs s =
        .ok s' ∧
      Packed encoder layerCount
        (rows ++ prs.flatMap fun pr =>
          chunkRows (step.features pr.reqId) pr.startPos pr.tokenIds.length)
        (positions ++ prs.map (prefillPositions adapter step))
        (given ++ prs.map (prefillGiven adapter step)) m s' := by
  induction prs generalizing rows positions given s with
  | nil => exact ⟨s, rfl, by simpa using h⟩
  | cons pr prs ih =>
    rw [List.map_cons, List.sum_cons, Nat.add_assoc] at h
    obtain ⟨s₁, hone, hs₁⟩ := h.prefillSegment hget hmrope hok (hsub pr List.mem_cons_self)
      (hmeta pr List.mem_cons_self)
    obtain ⟨s', hrest, hs'⟩ := ih (fun p hp => hsub p (List.mem_cons_of_mem pr hp))
      (fun p hp => hmeta p (List.mem_cons_of_mem pr hp)) hs₁
    refine ⟨s', ?_, ?_⟩
    · rw [VllmMetal.Multimodal.prefillSegments, hone]
      exact hrest
    · rw [List.flatMap_cons, List.map_cons, List.map_cons, ← List.append_assoc,
        List.append_cons positions, List.append_cons given]
      exact hs'

/-! ### The step -/

/-- A row of the encoder's output is there. -/
theorem hiddenRow_isSome {feature : MultiModalFeatureSpec}
    (h : EncodesFeature encoder layerCount feature) {pos j : ℕ}
    (hj : feature.mmPosition.embedAt pos = some j) :
    (hiddenRow encoder (feature.identifier, j)).isSome = true := by
  have hlt : j < (encoder feature.identifier).hiddenStates.length := by
    rw [h.hidden]
    exact PlaceholderRange.lt_of_embedAt hj
  unfold hiddenRow
  rw [List.getElem?_eq_getElem hlt]
  rfl

/-- All rows that a step places are rows of the encoder's output. -/
theorem StepOk.hiddenRow_isSome (hok : StepOk encoder layerCount step) {e : ℕ × ℕ}
    (he : some e ∈ packedRows step) : (hiddenRow encoder e).isSome = true := by
  rcases List.mem_append.mp he with he | he
  · obtain ⟨segment, -, he⟩ := List.mem_flatMap.mp he
    cases (List.mem_replicate.mp he).2
  · obtain ⟨pr, hpr, he⟩ := List.mem_flatMap.mp he
    obtain ⟨k, -, hk⟩ := List.mem_map.mp he
    obtain ⟨feature, hf, j, hj, rfl⟩ := (embedAt_eq_some_iff (hok.disjoint pr hpr)).mp hk
    exact VllmMetal.Multimodal.hiddenRow_isSome (hok.encodes pr hpr feature hf) hj

/-- The resolved rows of a list. -/
theorem map_isSome_resolve (encoder : ℕ → MultimodalEncodeResult R)
    {l : List (Option (ℕ × ℕ))} (h : ∀ e, some e ∈ l → (hiddenRow encoder e).isSome = true) :
    (l.map (·.bind (hiddenRow encoder))).map Option.isSome = l.map Option.isSome := by
  rw [List.map_map]
  refine List.map_congr_left fun x hx => ?_
  cases x with
  | none => rfl
  | some e => exact h e hx

/-- The encoder's rows of a list, when they are all there. -/
theorem eq_reduceOption_resolve {l : List (Option (ℕ × ℕ))} {given : List R}
    (h : given.map some = l.reduceOption.map (hiddenRow encoder)) :
    given = (l.map (·.bind (hiddenRow encoder))).reduceOption := by
  induction l generalizing given with
  | nil => simpa using h
  | cons x l ih =>
    cases x with
    | none =>
      rw [List.map_cons, Option.bind_none, List.reduceOption_cons_of_none]
      exact ih h
    | some e =>
      rw [List.reduceOption_cons_of_some, List.map_cons] at h
      cases given with
      | nil => cases h
      | cons r given =>
        obtain ⟨hr, hgiven⟩ := List.cons.inj h
        rw [List.map_cons, Option.bind_some, ← hr, List.reduceOption_cons_of_some, ← ih hgiven]

theorem length_packedRows (step : MmStep R) : (packedRows step).length =
    (step.decodeSegments.map (·.numQueryTokens)).sum +
      (step.prefillReqs.map (·.tokenIds.length)).sum := by
  simp [packedRows, List.length_flatMap, length_chunkRows]

/-- **The merge of a step** puts the encoder's rows in their places. -/
theorem Spliced.merged (hs : Spliced encoder layerCount (packedRows step) s)
    (hok : StepOk encoder layerCount step) :
    spliceEmbeds adapter step s =
      .ok (List.zipWith (fun e row => (e.bind (hiddenRow encoder)).getD row) (packedRows step)
        (step.inputIds.map adapter.embedTokens)) := by
  have hlength : ((packedRows step).map (·.bind (hiddenRow encoder))).length =
      (step.inputIds.map adapter.embedTokens).length := by
    rw [List.length_map, List.length_map, hok.packed]
  have hrows := eq_reduceOption_resolve hs.embeds
  have hmask : s.mask =
      ((packedRows step).map (·.bind (hiddenRow encoder))).map Option.isSome := by
    rw [hs.mask, map_isSome_resolve encoder fun e he => hok.hiddenRow_isSome he]
  have hscatter := scatterRows_whereTrue _ _ hlength
  rw [← hmask, ← hrows, List.zipWith_map_left] at hscatter
  unfold spliceEmbeds
  dsimp only
  by_cases hparts : s.mmEmbedsParts = []
  · -- nothing to merge: the scatter of no rows
    have hnone : s.mmEmbedsParts.flatten = [] := by
      rw [hparts]
      rfl
    rw [hparts, List.isEmpty_nil, if_pos rfl, ← hscatter, hnone, scatterRows, List.zip_nil_right]
    rfl
  · have hne : s.mmEmbedsParts.isEmpty = false := by
      rw [List.isEmpty_eq_false_iff]
      exact hparts
    have hcount : s.mmEmbedsParts.flatten.length = s.mask.count true := by
      rw [hmask, hrows, length_reduceOption_eq_count]
    have hshape : s.mask.length = (step.inputIds.map adapter.embedTokens).length := by
      rw [hmask, List.length_map, hlength]
    rw [hne, if_neg Bool.false_ne_true, mergeMultimodalEmbeddings, if_neg (not_not.mpr hshape),
      if_neg (not_not.mpr hcount), hscatter]

/-- **The deepstack rows of a step.** -/
theorem Spliced.deepstack (hs : Spliced encoder layerCount target s) :
    (if s.deepstackPerLayer.isEmpty then none
      else some (s.deepstackPerLayer.map List.flatten)).map
        (fun layers : List (List R) => layers.map (·.map some)) =
    if target.reduceOption = [] ∨ layerCount.getD 0 = 0 then none
    else some ((List.range (layerCount.getD 0)).map fun l =>
      target.reduceOption.map (layerRow encoder l)) := by
  have hlayers := hs.layers
  by_cases hnone : target.reduceOption = [] ∨ layerCount.getD 0 = 0
  · rw [if_pos hnone]
    have hempty : s.deepstackPerLayer = [] := by
      rw [← List.map_eq_nil_iff, hlayers]
      rcases hnone with hnil | hzero
      · rw [if_pos hnil]
      · rw [hzero]
        split <;> rfl
    rw [hempty]
    rfl
  · rw [not_or] at hnone
    rw [if_neg hnone.1] at hlayers
    have hne : s.deepstackPerLayer.isEmpty = false := by
      rw [List.isEmpty_eq_false_iff]
      intro hempty
      rw [hempty, List.map_nil] at hlayers
      have hlen := congrArg List.length hlayers
      rw [List.length_nil, List.length_map, List.length_range] at hlen
      exact hnone.2 hlen.symm
    rw [if_neg (not_or.mpr hnone), hne, if_neg Bool.false_ne_true, Option.map_some, List.map_map,
      ← hlayers]
    rfl

/-- **The multimodal forward of a step** returns, and hands over what it has to. -/
theorem runMmPagedForward_spec (hget : ∀ (p : PlaceholderRange) (a b : ℕ), a ≤ b → b ≤ p.length →
      getEmbedsIndicesInRange p a b = (p.embedsBefore a, p.embedsBefore b))
    (hmrope : ∀ prompt features,
      (adapter.getMropeInputPositions prompt features).1.length = prompt.length)
    (hok : StepOk encoder layerCount step) :
    ∃ out, runMmPagedForward adapter getEmbedsIndicesInRange step = .ok out ∧
      ForwardOk adapter encoder layerCount step out := by
  -- no decode segment has drafts, so the guard lets the step through
  have hsingle : (step.decodeSegments.any fun segment => decide (1 < segment.numQueryTokens)) =
      false := by
    rw [List.any_eq_false]
    intro segment hsegment
    have := hok.single segment hsegment
    simpa using this
  obtain ⟨requestMeta, hmeta, hmm, hother⟩ := mmRequestMeta_spec adapter step step.prefillReqs
    hok.nodup (fun pr hpr hpmm => by
      obtain ⟨fullPrompt, hfull, -⟩ := hok.prompt pr hpr hpmm
      rw [hfull]
      rfl) ∅
  have hentry : ∀ pr ∈ step.prefillReqs, requestMeta.get? pr.reqId =
      if step.isMmRequest pr.reqId then some (requestMetaOf adapter step pr) else none := by
    intro pr hpr
    cases hpmm : step.isMmRequest pr.reqId with
    | true => exact hmm pr hpr hpmm
    | false => exact (hother pr.reqId fun _ => hpmm).trans (Dict.get?_empty _)
  -- before the loop nothing is spliced, and every row is open
  have hstart : Packed encoder layerCount [] [] []
      ((step.decodeSegments.map (·.numQueryTokens)).sum +
        ((step.prefillReqs.map (·.tokenIds.length)).sum + 0))
      (Splicing.start step.inputIds.length) := by
    rw [Nat.add_zero, ← length_packedRows, ← hok.packed]
    exact packed_start _
  have hdecoded := @Packed.decodeSegments _ _ _ step _ _ _ _ _ step.decodeSegments hstart
  obtain ⟨s, hloop, hs⟩ := hdecoded.prefillSegments hget hmrope hok step.prefillReqs
    (fun _ hpr => hpr) hentry
  rw [List.nil_append] at hs
  have hrows : Spliced encoder layerCount (packedRows step) s := by
    have hspliced := hs.spliced
    rw [List.replicate_zero, List.append_nil] at hspliced
    exact hspliced
  have hmerged : spliceEmbeds adapter step s = _ := hrows.merged hok
  have hrun : runMmPagedForward adapter getEmbedsIndicesInRange step =
      .ok (forwardArguments adapter s (List.zipWith (fun e row =>
        (e.bind (hiddenRow encoder)).getD row) (packedRows step)
          (step.inputIds.map adapter.embedTokens))) := by
    unfold runMmPagedForward
    rw [hsingle, if_neg Bool.false_ne_true, hmeta]
    dsimp only [bind, Except.bind]
    rw [hloop]
    dsimp only
    rw [hmerged]
    rfl
  -- what the forward is handed, argument by argument
  refine ⟨_, hrun, hrows.mask, hrows.embeds, rfl, hrows.deepstack, ?_, ?_⟩
  · unfold forwardArguments
    rw [List.map_flatten, hs.positionIds]
    rfl
  · have hgiven := hs.segments
    rw [List.nil_append] at hgiven
    unfold forwardArguments
    dsimp only
    split
    · rw [Option.map_some, hgiven]
      rfl
    · rfl

end

end VllmMetal.Multimodal
