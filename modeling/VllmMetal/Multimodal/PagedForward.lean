import VllmMetal.Lib.SparseRows
import VllmMetal.Multimodal.Features
import VllmMetal.SpecDecode.Verify

/-!
# The multimodal forward

A step packs the rows of its decode requests and of its prefill chunks.  The forward computes
the position of every row and splices the encoder's output into the embeddings of the text:
every chunk takes the encoder rows whose placeholders it holds, and marks their rows in one
mask.

## Main definitions

* `Adapter`, `MmStep` — what the model brings, and what a step works on.
* `spliceFeature`, `prefillSegment`, `decodeSegment` — the bodies of the loops.
* `runMmPagedForward` — the arguments of the language model.
-/

namespace VllmMetal.Multimodal

open SpecDecode

/-- The three M-RoPE coordinates of a row. -/
abbrev Position := ℤ × ℤ × ℤ

/-- `mx.broadcast_to(offset, (3, 1, n))`, for one row. -/
def Position.broadcast (offset : ℤ) : Position := (offset, offset, offset)

/-- What the encoder returns for a feature; rows are of type `R`. -/
structure MultimodalEncodeResult (R : Type) where
  hiddenStates : List R
  deepstackVisualEmbeds : Option (List (List R))

/-- What the model brings. -/
structure Adapter (R : Type) where
  embedTokens : Token → R
  /-- The positions of a prompt, and the delta of the positions after it. -/
  getMropeInputPositions : List Token → List MultiModalFeatureSpec → List Position × ℤ
  suppliesSegmentPositions : Bool

/-- A packed prefill chunk. -/
structure PrefillRequest where
  reqId : ReqId
  tokenIds : List Token
  startPos : ℕ
  fullPromptTokenIds : Option (List Token)

/-- What a step works on. -/
structure MmStep (R : Type) where
  inputIds : List Token
  prefillReqs : List PrefillRequest
  decodeSegments : List PagedDecodeSegment
  mmFeatures : Dict ReqId (List MultiModalFeatureSpec)
  encoderOutputs : Dict ℕ (MultimodalEncodeResult R)
  requestStates : Dict ReqId RequestState

/-- The errors of the forward. -/
inductive MmError where
  /-- "Speculative decode is not supported on the multimodal paged path yet". -/
  | speculativeDecode
  /-- "mm prefill request … reached paged forward without full_prompt_token_ids". -/
  | missingFullPrompt (reqId : ReqId)
  /-- "Encoder output for feature … of request … is missing". -/
  | missingEncoderOutput (identifier : ℕ) (reqId : ReqId)
  /-- "Mixed deepstack presence across features for request …". -/
  | mixedDeepstack (reqId : ReqId)
  /-- "Inconsistent deepstack layer count across features for request …: expected …, got …". -/
  | deepstackLayerCount (reqId : ReqId) (expected got : ℕ)
  /-- "Multimodal mask shape … must match inputs_embeds leading shape …". -/
  | maskShape (mask rows : ℕ)
  /-- "Attempted to assign … multimodal tokens to … placeholders". -/
  | placeholderCount (actual expected : ℕ)

/-- The arguments of the language model, and what the caller keeps. -/
structure MmForward (R : Type) where
  inputsEmbeds : List R
  positionIds : List Position
  visualPosMasks : List Bool
  /-- The parts passed to the merge, concatenated. -/
  mmEmbeds : List R
  deepstackVisualEmbeds : Option (List (List R))
  /-- `ctx.segment_positions`. -/
  segmentPositions : Option (List (Option (List Position)))

/-- What the loops build up. -/
structure Splicing (R : Type) where
  cursor : ℕ
  mask : List Bool
  mmEmbedsParts : List (List R)
  deepstackPresent : Option Bool
  /-- For each layer the parts so far. -/
  deepstackPerLayer : List (List (List R))
  segmentPositions : List (Option (List Position))
  positionIdsParts : List (List Position)

/-- `_is_mm_request`. -/
def MmStep.isMmRequest {R : Type} (step : MmStep R) (reqId : ReqId) : Bool :=
  (step.mmFeatures.get? reqId).any fun features => !features.isEmpty

/-- The positions, the delta and the sorted features of a multimodal prefill request. -/
abbrev MmRequestMeta := List Position × ℤ × List MultiModalFeatureSpec

section

variable {R : Type} (adapter : Adapter R)
  (getEmbedsIndicesInRange : PlaceholderRange → ℕ → ℕ → ℕ × ℕ) (step : MmStep R)

/-- The loop that fills `mm_request_meta`. -/
def mmRequestMeta : List PrefillRequest → Dict ReqId MmRequestMeta →
    Except MmError (Dict ReqId MmRequestMeta)
  | [], found => .ok found
  | pr :: prs, found =>
      if step.isMmRequest pr.reqId then
        match pr.fullPromptTokenIds with
        | none => .error (.missingFullPrompt pr.reqId)
        | some fullPrompt =>
            let sorted := sortFeatures ((step.mmFeatures.get? pr.reqId).getD [])
            let positions := adapter.getMropeInputPositions fullPrompt sorted
            mmRequestMeta prs (found.set pr.reqId (positions.1, positions.2, sorted))
      else mmRequestMeta prs found

/-- The body of the loop over the decode segments. -/
def decodeSegment (s : Splicing R) (segment : PagedDecodeSegment) : Splicing R :=
  let n := segment.numQueryTokens
  let delta := (step.requestStates.get? segment.reqId).bind (·.mropePositionDelta)
  let positions := (List.range n).map fun k =>
    Position.broadcast ((segment.cacheStartPos + k : ℕ) + delta.getD 0)
  { s with
    cursor := s.cursor + n
    segmentPositions := s.segmentPositions ++ [delta.map fun _ => positions]
    positionIdsParts := s.positionIdsParts ++ [positions] }

/-- The deepstack part of the loop over the features. -/
def spliceDeepstack (reqId : ReqId) (embedStart embedEnd : ℕ) (layers : Option (List (List R)))
    (s : Splicing R) : Except MmError (Splicing R) :=
  let slice (layer : List R) := (layer.drop embedStart).take (embedEnd - embedStart)
  let present := s.deepstackPresent.getD layers.isSome
  if present ≠ layers.isSome then .error (.mixedDeepstack reqId)
  else
    let s := { s with deepstackPresent := some present }
    match layers with
    | none => .ok s
    | some layers =>
        if s.deepstackPerLayer.isEmpty then
          .ok { s with deepstackPerLayer := layers.map fun layer => [slice layer] }
        else if s.deepstackPerLayer.length ≠ layers.length then
          .error (.deepstackLayerCount reqId s.deepstackPerLayer.length layers.length)
        else
          let grown := List.zipWith (fun parts layer => parts ++ [slice layer])
            s.deepstackPerLayer layers
          .ok { s with deepstackPerLayer := grown }

/-- The body of the loop over the features of a chunk. -/
def spliceFeature (pr : PrefillRequest) (s : Splicing R) (feature : MultiModalFeatureSpec) :
    Except MmError (Splicing R) :=
  let position := feature.mmPosition
  let fStart := position.offset
  let fEnd := fStart + position.length
  let chunkStart := pr.startPos
  let chunkEnd := pr.startPos + pr.tokenIds.length
  let interStart := max fStart chunkStart
  let interEnd := min fEnd chunkEnd
  -- the feature does not overlap this chunk
  if interEnd ≤ interStart then .ok s
  else
    let length := interEnd - interStart
    let chunkLocal := interStart - chunkStart
    let featureLocal := interStart - fStart
    let embeds := getEmbedsIndicesInRange position featureLocal (featureLocal + length)
    -- only marker tokens landed in this chunk
    if embeds.1 = embeds.2 then .ok s
    else match step.encoderOutputs.get? feature.identifier with
      | none => .error (.missingEncoderOutput feature.identifier pr.reqId)
      | some result =>
          let packedStart := s.cursor + chunkLocal
          let marked := match position.isEmbed with
            | none => List.replicate length true
            | some isEmbed => (isEmbed.drop featureLocal).take length
          spliceDeepstack pr.reqId embeds.1 embeds.2 result.deepstackVisualEmbeds
            { s with
              mask := setSlice s.mask packedStart marked
              mmEmbedsParts := s.mmEmbedsParts ++
                [(result.hiddenStates.drop embeds.1).take (embeds.2 - embeds.1)] }

/-- The loop over the features of a chunk. -/
def spliceFeatures (pr : PrefillRequest) :
    List MultiModalFeatureSpec → Splicing R → Except MmError (Splicing R)
  | [], s => .ok s
  | feature :: features, s => do
      spliceFeatures pr features (← spliceFeature getEmbedsIndicesInRange step pr s feature)

/-- The body of the loop over the prefill requests. -/
def prefillSegment (requestMeta : Dict ReqId MmRequestMeta) (s : Splicing R)
    (pr : PrefillRequest) : Except MmError (Splicing R) := do
  let n := pr.tokenIds.length
  match requestMeta.get? pr.reqId with
  | some (fullPositions, _, sorted) =>
      let positions := (fullPositions.drop pr.startPos).take n
      let s ← spliceFeatures getEmbedsIndicesInRange step pr sorted
        { s with
          segmentPositions := s.segmentPositions ++ [some positions]
          positionIdsParts := s.positionIdsParts ++ [positions] }
      return { s with cursor := s.cursor + n }
  | none =>
      let positions := (List.range n).map fun k => Position.broadcast (pr.startPos + k : ℕ)
      return { s with
        cursor := s.cursor + n
        segmentPositions := s.segmentPositions ++ [none]
        positionIdsParts := s.positionIdsParts ++ [positions] }

/-- The loop over the prefill requests. -/
def prefillSegments (requestMeta : Dict ReqId MmRequestMeta) :
    List PrefillRequest → Splicing R → Except MmError (Splicing R)
  | [], s => .ok s
  | pr :: prs, s => do
      prefillSegments requestMeta prs
        (← prefillSegment getEmbedsIndicesInRange step requestMeta s pr)

/-- `merge_multimodal_embeddings`. -/
def mergeMultimodalEmbeddings (inputsEmbeds mmEmbeds : List R) (mask : List Bool) :
    Except MmError (List R) :=
  if mask.length ≠ inputsEmbeds.length then .error (.maskShape mask.length inputsEmbeds.length)
  else if mmEmbeds.length ≠ mask.count true then
    .error (.placeholderCount mmEmbeds.length (mask.count true))
  else .ok (scatterRows inputsEmbeds (whereTrue 0 mask) mmEmbeds)

/-- Before the loops. -/
def Splicing.start (total : ℕ) : Splicing R :=
  ⟨0, List.replicate total false, [], none, [], [], []⟩

/-- The embeddings of a step: those of the text when there is nothing to splice. -/
def spliceEmbeds (s : Splicing R) : Except MmError (List R) :=
  let text := step.inputIds.map adapter.embedTokens
  if s.mmEmbedsParts.isEmpty then .ok text
  else mergeMultimodalEmbeddings text s.mmEmbedsParts.flatten s.mask

/-- The arguments of the language model, after the loops and the merge. -/
def forwardArguments (s : Splicing R) (inputsEmbeds : List R) : MmForward R where
  inputsEmbeds := inputsEmbeds
  positionIds := s.positionIdsParts.flatten
  visualPosMasks := s.mask
  mmEmbeds := s.mmEmbedsParts.flatten
  deepstackVisualEmbeds :=
    if s.deepstackPerLayer.isEmpty then none else some (s.deepstackPerLayer.map List.flatten)
  segmentPositions := if adapter.suppliesSegmentPositions then some s.segmentPositions else none

/-- `_run_mm_paged_forward`, up to the call of the language model. -/
def runMmPagedForward : Except MmError (MmForward R) :=
  if step.decodeSegments.any fun segment => decide (1 < segment.numQueryTokens) then
    .error .speculativeDecode
  else do
    let requestMeta ← mmRequestMeta adapter step step.prefillReqs ∅
    let s ← prefillSegments getEmbedsIndicesInRange step requestMeta step.prefillReqs
      (step.decodeSegments.foldl (decodeSegment step) (.start step.inputIds.length))
    let inputsEmbeds ← spliceEmbeds adapter step s
    return forwardArguments adapter s inputsEmbeds

end

end VllmMetal.Multimodal
