import VllmMetal.Lib.FoldMax
import VllmMetal.Runner.Request
import Mathlib.Algebra.GroupWithZero.Nat

/-!
# Speculative verification

The target-side contract of speculative decoding: each decode request of a step becomes a
*segment* of packed rows, its last token followed by the drafts the scheduler handed over,
and the rows' argmax tokens decide how many of the drafts are committed.

## Main definitions

* `PagedDecodeSegment`, `buildDecodeSegments` — the row spans of a step.
* `verifyGreedy` — the tokens each segment commits.
* `decodeTokenIds` — what every decode request of a step samples, drafts or not.

## Main results

* `buildDecodeSegments_ok` — the segments of a step whose handoff is valid.
* `acceptDrafts_length` — between one token and one more than there are drafts.
-/

namespace VllmMetal
namespace SpecDecode

/-- Logits-row metadata for one paged decode request; the checks of `__post_init__` are
fields. -/
structure PagedDecodeSegment where
  reqId : ReqId
  /-- The verification span: the last token, then the drafts. -/
  inputTokenIds : List Token
  startRow : ℕ
  numQueryTokens : ℕ
  draftTokenIds : List Token
  cacheStartPos : ℕ
  blockIds : List (List ℕ)
  rows_input : numQueryTokens = inputTokenIds.length
  rows_bonus : numQueryTokens = draftTokenIds.length + 1

/-- The errors of the handoff and of the verification. -/
inductive SpecDecodeError where
  /-- "Speculative decode scheduler handoff referenced requests outside the current decode
  set". -/
  | outsideDecodeSet (reqIds : List ReqId)
  /-- "... does not support invalid draft-token sentinels yet." -/
  | invalidSentinel
  /-- "... does not support scheduler-invalid draft-token sentinels yet." -/
  | invalidCounts
  /-- "... inconsistent token accounting for `reqId`: expected ..., got ...". -/
  | accounting (reqId : ReqId) (expected : ℕ) (got : Option ℕ)
  /-- "decode_reqs and decode_segments must have equal length". -/
  | lengthMismatch
  /-- "... received mismatched request metadata". -/
  | requestMismatch (reqId segmentReqId : ReqId)
  /-- "... currently supports greedy sampling only". -/
  | notGreedy
  /-- "Speculative decoding on Metal requires synchronous scheduling". -/
  | asyncScheduling
  deriving DecidableEq

/-! ### Segments -/

/-- The segment of one request. -/
def segmentOf (seqLens : Dict ReqId ℕ) (startRow : ℕ) (reqId : ReqId) (state : RequestState)
    (drafts : List Token) : PagedDecodeSegment where
  reqId := reqId
  inputTokenIds := state.tokenIds.getLastD 0 :: drafts
  startRow := startRow
  numQueryTokens := drafts.length + 1
  draftTokenIds := drafts
  cacheStartPos := seqLens.getD reqId (state.tokenIds.length - 1)
  blockIds := state.blockIds
  rows_input := by simp
  rows_bonus := rfl

/-- The loop of `build_decode_segments`. -/
def segmentsFrom (specTokens : Dict ReqId (List Token)) (seqLens : Dict ReqId ℕ) :
    ℕ → List (ReqId × RequestState) → Except SpecDecodeError (List PagedDecodeSegment)
  | _, [] => .ok []
  | startRow, (reqId, state) :: reqs =>
      let drafts := specTokens.getD reqId []
      if drafts.any (fun t => decide (t < 0)) then .error .invalidSentinel
      else
        let segment := segmentOf seqLens startRow reqId state drafts
        match segmentsFrom specTokens seqLens (startRow + segment.numQueryTokens) reqs with
        | .error e => .error e
        | .ok segments => .ok (segment :: segments)

/-- `build_decode_segments`. -/
def buildDecodeSegments (decodeReqs : List (ReqId × RequestState))
    (specTokens : Dict ReqId (List Token)) (seqLens : Dict ReqId ℕ) :
    Except SpecDecodeError (List PagedDecodeSegment) :=
  let unexpected := specTokens.keys.filter fun id => decide (id ∉ decodeReqs.map Prod.fst)
  if unexpected ≠ [] then .error (.outsideDecodeSet unexpected)
  else segmentsFrom specTokens seqLens 0 decodeReqs

/-- The segments of a step whose drafts are all valid, from row `startRow` on. -/
def segmentList (specTokens : Dict ReqId (List Token)) (seqLens : Dict ReqId ℕ) :
    ℕ → List (ReqId × RequestState) → List PagedDecodeSegment
  | _, [] => []
  | startRow, (reqId, state) :: reqs =>
      let drafts := specTokens.getD reqId []
      segmentOf seqLens startRow reqId state drafts ::
        segmentList specTokens seqLens (startRow + (drafts.length + 1)) reqs

theorem segmentsFrom_ok {specTokens : Dict ReqId (List Token)} {seqLens : Dict ReqId ℕ}
    (hnonneg : ∀ id, ∀ t ∈ specTokens.getD id [], 0 ≤ t) (reqs : List (ReqId × RequestState))
    (startRow : ℕ) : segmentsFrom specTokens seqLens startRow reqs =
      .ok (segmentList specTokens seqLens startRow reqs) := by
  induction reqs generalizing startRow with
  | nil => rfl
  | cons req reqs ih =>
    obtain ⟨reqId, state⟩ := req
    have hvalid : ((specTokens.getD reqId []).any fun t => decide (t < 0)) = false := by
      rw [List.any_eq_false]
      intro t ht
      simpa using hnonneg reqId t ht
    simp only [segmentsFrom, hvalid, Bool.false_eq_true, if_false, segmentList, ih]
    rfl

/-- **The segments of a step whose handoff is valid.** -/
theorem buildDecodeSegments_ok {reqs : List (ReqId × RequestState)}
    {specTokens : Dict ReqId (List Token)} {seqLens : Dict ReqId ℕ}
    (hkeys : ∀ id, (specTokens.get? id).isSome → id ∈ reqs.map Prod.fst)
    (hnonneg : ∀ id, ∀ t ∈ specTokens.getD id [], 0 ≤ t) :
    buildDecodeSegments reqs specTokens seqLens = .ok (segmentList specTokens seqLens 0 reqs) := by
  have hnone : (specTokens.keys.filter fun id => decide (id ∉ reqs.map Prod.fst)) = [] := by
    rw [List.filter_eq_nil_iff]
    intro id hid
    simpa using hkeys id (Dict.mem_keys.mp hid)
  simp only [buildDecodeSegments, hnone, ne_eq, not_true_eq_false, if_false]
  exact segmentsFrom_ok hnonneg reqs 0

/-- The segments of a step that was not refused. -/
theorem segmentsFrom_eq {specTokens : Dict ReqId (List Token)} {seqLens : Dict ReqId ℕ}
    {reqs : List (ReqId × RequestState)} {startRow : ℕ} {segments : List PagedDecodeSegment}
    (h : segmentsFrom specTokens seqLens startRow reqs = .ok segments) :
    segments = segmentList specTokens seqLens startRow reqs := by
  induction reqs generalizing startRow segments with
  | nil =>
    cases h
    rfl
  | cons req reqs ih =>
    simp only [segmentsFrom] at h
    split at h
    · cases h
    · split at h
      · cases h
      · next rest hrest =>
        cases h
        rw [segmentList, ih hrest]
        rfl

theorem buildDecodeSegments_eq {reqs : List (ReqId × RequestState)}
    {specTokens : Dict ReqId (List Token)} {seqLens : Dict ReqId ℕ}
    {segments : List PagedDecodeSegment}
    (h : buildDecodeSegments reqs specTokens seqLens = .ok segments) :
    segments = segmentList specTokens seqLens 0 reqs := by
  simp only [buildDecodeSegments] at h
  split at h
  · cases h
  · exact segmentsFrom_eq h

/-! ### Verification -/

/-- The loop of `verify_greedy` over one segment: drafts are committed as long as they are
the target's own tokens, then comes the target's token at the first miss, or the bonus. -/
def acceptDrafts : List Token → List Token → List Token
  | [], _ => []
  | target :: _, [] => [target]
  | target :: rowTokens, draft :: drafts =>
      if target = draft then draft :: acceptDrafts rowTokens drafts else [target]

/-- `verify_greedy`, `argmax i` being the argmax token of packed row `i`. -/
def verifyGreedy (argmax : ℕ → Token) (decodeReqs : List (ReqId × RequestState))
    (segments : List PagedDecodeSegment) : Except SpecDecodeError (List (List Token)) :=
  if decodeReqs.length ≠ segments.length then .error .lengthMismatch
  else if segments = [] then .ok []
  else
    match (decodeReqs.zip segments).find? fun pair => decide (pair.1.1 ≠ pair.2.reqId) with
    | some pair => .error (.requestMismatch pair.1.1 pair.2.reqId)
    | none =>
        if decodeReqs.any fun req =>
            !req.2.samplingParams.greedySampling req.2.generatedTokens then .error .notGreedy
        else
          let numDecodeRows :=
            (segments.map fun segment => segment.startRow + segment.numQueryTokens).foldl max 0
          let flatTargetTokens := (List.range numDecodeRows).map argmax
          .ok (segments.map fun segment =>
            acceptDrafts ((flatTargetTokens.drop segment.startRow).take segment.numQueryTokens)
              segment.draftTokenIds)

/-- Put the verified and the plainly sampled rows back into the order of the segments. -/
def mergeRows : List PagedDecodeSegment → List (List Token) → List Token → List (List Token)
  | [], _, _ => []
  | segment :: segments, verified, plain =>
      if segment.draftTokenIds = [] then
        (plain.head?.toList) :: mergeRows segments verified plain.tail
      else (verified.headD []) :: mergeRows segments verified.tail plain

/-- The sampling of `_sample_paged_batch` for the decode rows: with drafts in the step,
spans are verified and the other rows sampled from their own `start_row`; without, row `i`
belongs to request `i`.  `sample i state` is the sampler's token for row `i`. -/
def decodeTokenIds (argmax : ℕ → Token) (sample : ℕ → RequestState → Token)
    (decodeReqs : List (ReqId × RequestState)) (segments : List PagedDecodeSegment) :
    Except SpecDecodeError (List (List Token)) :=
  if segments.any fun segment => !segment.draftTokenIds.isEmpty then
    let items := decodeReqs.zip segments
    let specItems := items.filter fun item => !item.2.draftTokenIds.isEmpty
    let plainItems := items.filter fun item => item.2.draftTokenIds.isEmpty
    match verifyGreedy argmax (specItems.map Prod.fst) (specItems.map Prod.snd) with
    | .error e => .error e
    | .ok verified =>
        .ok (mergeRows segments verified
          (plainItems.map fun item => sample item.2.startRow item.1.2))
  else .ok (decodeReqs.mapIdx fun i req => [sample i req.2])

/-! ### What the verification returns -/

@[simp] theorem length_segmentList (specTokens : Dict ReqId (List Token))
    (seqLens : Dict ReqId ℕ) (startRow : ℕ) (reqs : List (ReqId × RequestState)) :
    (segmentList specTokens seqLens startRow reqs).length = reqs.length := by
  induction reqs generalizing startRow with
  | nil => rfl
  | cons req reqs ih => simp [segmentList, ih]

/-- Every request of the step is paired with its own segment. -/
theorem mem_zip_segmentList {specTokens : Dict ReqId (List Token)} {seqLens : Dict ReqId ℕ}
    {reqs : List (ReqId × RequestState)} {startRow : ℕ}
    {item : (ReqId × RequestState) × PagedDecodeSegment}
    (h : item ∈ reqs.zip (segmentList specTokens seqLens startRow reqs)) :
    item.1 ∈ reqs ∧ ∃ row, item.2 =
      segmentOf seqLens row item.1.1 item.1.2 (specTokens.getD item.1.1 []) := by
  induction reqs generalizing startRow with
  | nil => simp [segmentList] at h
  | cons req reqs ih =>
    simp only [segmentList, List.zip_cons_cons, List.mem_cons] at h
    rcases h with rfl | h
    · exact ⟨List.mem_cons_self, startRow, rfl⟩
    · obtain ⟨hmem, hrow⟩ := ih h
      exact ⟨List.mem_cons_of_mem _ hmem, hrow⟩

/-- A step without drafts gives every request one row, in order. -/
theorem startRow_of_no_drafts {specTokens : Dict ReqId (List Token)} {seqLens : Dict ReqId ℕ}
    {reqs : List (ReqId × RequestState)} {startRow : ℕ}
    (h : ∀ segment ∈ segmentList specTokens seqLens startRow reqs, segment.draftTokenIds = []) :
    ∀ i (segment : PagedDecodeSegment),
      (segmentList specTokens seqLens startRow reqs)[i]? = some segment →
      segment.startRow = startRow + i := by
  induction reqs generalizing startRow with
  | nil => intro i segment hi; simp [segmentList] at hi
  | cons req reqs ih =>
    obtain ⟨reqId, state⟩ := req
    simp only [segmentList, List.mem_cons, forall_eq_or_imp] at h
    obtain ⟨hdrafts, hrest⟩ := h
    have hlen : specTokens.getD reqId [] = [] := hdrafts
    intro i segment hi
    cases i with
    | zero =>
      simp only [segmentList, List.getElem?_cons_zero, Option.some.injEq] at hi
      rw [← hi]
      rfl
    | succ i =>
      simp only [segmentList, List.getElem?_cons_succ] at hi
      rw [ih hrest i segment hi, hlen, List.length_nil]
      omega

/-- The tokens the argmax rows of a segment commit. -/
def verifiedRow (argmax : ℕ → Token) (segment : PagedDecodeSegment) : List Token :=
  acceptDrafts ((List.range segment.numQueryTokens).map fun k => argmax (segment.startRow + k))
    segment.draftTokenIds

theorem drop_take_map_range {α : Type*} (f : ℕ → α) {start n stop : ℕ} (h : start + n ≤ stop) :
    (((List.range stop).map f).drop start).take n =
      (List.range n).map fun k => f (start + k) := by
  apply List.ext_getElem?
  intro i
  rw [List.getElem?_take]
  split
  · next hi =>
    rw [List.getElem?_drop, List.getElem?_map, List.getElem?_map, List.getElem?_range (by omega),
      List.getElem?_range hi]
    rfl
  · next hi => simp [Nat.not_lt.mp hi]

/-- **Verification of rows that match their segments.** -/
theorem verifyGreedy_ok (argmax : ℕ → Token)
    (items : List ((ReqId × RequestState) × PagedDecodeSegment))
    (hids : ∀ item ∈ items, item.2.reqId = item.1.1)
    (hgreedy : ∀ item ∈ items,
      item.1.2.samplingParams.greedySampling item.1.2.generatedTokens = true) :
    verifyGreedy argmax (items.map Prod.fst) (items.map Prod.snd) =
      .ok ((items.map Prod.snd).map (verifiedRow argmax)) := by
  unfold verifyGreedy
  rw [if_neg (by simp)]
  split
  · next hnil => rw [hnil]; rfl
  · have hmatch : (((items.map Prod.fst).zip (items.map Prod.snd)).find?
        fun pair => decide (pair.1.1 ≠ pair.2.reqId)) = none := by
      rw [List.zip_map', List.find?_eq_none]
      intro pair hpair
      obtain ⟨item, hitem, rfl⟩ := List.mem_map.mp hpair
      simpa using (hids item hitem).symm
    have hall : ((items.map Prod.fst).any fun req =>
        !req.2.samplingParams.greedySampling req.2.generatedTokens) = false := by
      rw [List.any_eq_false]
      intro req hreq
      obtain ⟨item, hitem, rfl⟩ := List.mem_map.mp hreq
      simp [hgreedy item hitem]
    simp only [hmatch, hall, Bool.false_eq_true, if_false, Except.ok.injEq]
    apply List.map_congr_left
    intro segment hsegment
    rw [verifiedRow, drop_take_map_range]
    exact (le_foldl_max _ 0).2 _ (List.mem_map_of_mem hsegment)

/-- The rows put back in order, item by item. -/
theorem mergeRows_items {α : Type*} (items : List (α × PagedDecodeSegment))
    (g : PagedDecodeSegment → List Token) (h : α × PagedDecodeSegment → Token) :
    mergeRows (items.map Prod.snd)
      (((items.filter fun item => !item.2.draftTokenIds.isEmpty).map Prod.snd).map g)
      ((items.filter fun item => item.2.draftTokenIds.isEmpty).map h) =
      items.map fun item => if item.2.draftTokenIds = [] then [h item] else g item.2 := by
  induction items with
  | nil => rfl
  | cons item items ih =>
    by_cases hdrafts : item.2.draftTokenIds = []
    · simpa [mergeRows, hdrafts] using ih
    · simpa [mergeRows, hdrafts] using ih

/-- **What the decode rows of a valid step sample**: a span its verified tokens, a plain row
the sampler's token for its own row. -/
theorem decodeTokenIds_ok (argmax : ℕ → Token) (sample : ℕ → RequestState → Token)
    (seqLens : Dict ReqId ℕ) {reqs : List (ReqId × RequestState)}
    {specTokens : Dict ReqId (List Token)}
    (hgreedy : ∀ req ∈ reqs, specTokens.getD req.1 [] ≠ [] →
      req.2.samplingParams.greedySampling req.2.generatedTokens = true) :
    decodeTokenIds argmax sample reqs (segmentList specTokens seqLens 0 reqs) =
      .ok ((reqs.zip (segmentList specTokens seqLens 0 reqs)).map fun item =>
        if item.2.draftTokenIds = [] then [sample item.2.startRow item.1.2]
        else verifiedRow argmax item.2) := by
  set segments := segmentList specTokens seqLens 0 reqs with hsegments
  have hlen : segments.length = reqs.length := length_segmentList specTokens seqLens 0 reqs
  have hsnd : (reqs.zip segments).map Prod.snd = segments :=
    List.map_snd_zip (by rw [hlen])
  unfold decodeTokenIds
  by_cases hany : (segments.any fun segment => !segment.draftTokenIds.isEmpty) = true
  -- with drafts, the spans that have them are verified and the others sampled
  · have hverify := verifyGreedy_ok argmax
      ((reqs.zip segments).filter fun item => !item.2.draftTokenIds.isEmpty)
      (by
        intro item hitem
        obtain ⟨-, row, hrow⟩ := mem_zip_segmentList (List.mem_of_mem_filter hitem)
        rw [hrow]
        rfl)
      (by
        intro item hitem
        obtain ⟨hmem, hdrafts⟩ := List.mem_filter.mp hitem
        obtain ⟨hreq, row, hrow⟩ := mem_zip_segmentList hmem
        rw [hrow] at hdrafts
        exact hgreedy item.1 hreq (by simpa [segmentOf] using hdrafts))
    simp only [hany, if_true, hverify]
    rw [← mergeRows_items, hsnd]
  -- without drafts the rows of the segments are the rows of the requests
  · have hempty : ∀ segment ∈ segments, segment.draftTokenIds = [] := by
      rw [Bool.not_eq_true, List.any_eq_false] at hany
      intro segment hsegment
      simpa using hany segment hsegment
    simp only [hany, Bool.false_eq_true, if_false, Except.ok.injEq]
    apply List.ext_getElem?
    intro i
    rw [List.getElem?_mapIdx, List.getElem?_map]
    rcases Nat.lt_or_ge i reqs.length with hi | hi
    · have hi' : i < segments.length := by omega
      have hzip : (reqs.zip segments)[i]? = some (reqs[i], segments[i]) := by
        rw [List.getElem?_zip_eq_some]
        exact ⟨List.getElem?_eq_getElem hi, List.getElem?_eq_getElem hi'⟩
      -- each segment is one row, so its first row is its place
      have hrow := startRow_of_no_drafts hempty i segments[i] (List.getElem?_eq_getElem hi')
      rw [hzip, List.getElem?_eq_getElem hi]
      simp [hempty _ (List.getElem_mem hi'), hrow]
    · rw [List.getElem?_eq_none hi, List.getElem?_eq_none (by simp; omega)]
      rfl

/-- Verification reads the rows of its segments only. -/
theorem verifyGreedy_congr {argmax argmax' : ℕ → Token} {numRows : ℕ}
    (hargmax : ∀ r < numRows, argmax r = argmax' r) (reqs : List (ReqId × RequestState))
    (segments : List PagedDecodeSegment)
    (hrows : ∀ segment ∈ segments, segment.startRow + segment.numQueryTokens ≤ numRows) :
    verifyGreedy argmax reqs segments = verifyGreedy argmax' reqs segments := by
  have hbound : (segments.map fun segment =>
      segment.startRow + segment.numQueryTokens).foldl max 0 ≤ numRows :=
    foldl_max_le (Nat.zero_le _) fun n hn => by
      obtain ⟨segment, hsegment, rfl⟩ := List.mem_map.mp hn
      exact hrows segment hsegment
  have hflat : (List.range ((segments.map fun segment =>
        segment.startRow + segment.numQueryTokens).foldl max 0)).map argmax =
      (List.range ((segments.map fun segment =>
        segment.startRow + segment.numQueryTokens).foldl max 0)).map argmax' := by
    apply List.map_congr_left
    intro r hr
    exact hargmax r (Nat.lt_of_lt_of_le (List.mem_range.mp hr) hbound)
  simp only [verifyGreedy, hflat]

/-- The decode rows of a step read the rows of their segments only. -/
theorem decodeTokenIds_congr {argmax argmax' : ℕ → Token}
    {sample sample' : ℕ → RequestState → Token} {numRows : ℕ}
    (hargmax : ∀ r < numRows, argmax r = argmax' r)
    (hsample : ∀ r < numRows, sample r = sample' r) {reqs : List (ReqId × RequestState)}
    {segments : List PagedDecodeSegment}
    (hrows : ∀ segment ∈ segments, segment.startRow + segment.numQueryTokens ≤ numRows)
    (hreqs : reqs.length ≤ numRows) :
    decodeTokenIds argmax sample reqs segments = decodeTokenIds argmax' sample' reqs segments := by
  have hzip : ∀ item ∈ reqs.zip segments, item.2 ∈ segments := fun item hitem =>
    (List.of_mem_zip hitem).2
  -- the verified spans read rows of their segments only, and so do the plain rows
  have hverify := verifyGreedy_congr hargmax
    (((reqs.zip segments).filter fun item => !item.2.draftTokenIds.isEmpty).map Prod.fst)
    (((reqs.zip segments).filter fun item => !item.2.draftTokenIds.isEmpty).map Prod.snd)
    (by
      intro segment hsegment
      obtain ⟨item, hitem, rfl⟩ := List.mem_map.mp hsegment
      exact hrows _ (hzip item (List.mem_of_mem_filter hitem)))
  have hplain : (((reqs.zip segments).filter fun item => item.2.draftTokenIds.isEmpty).map
        fun item => sample item.2.startRow item.1.2) =
      (((reqs.zip segments).filter fun item => item.2.draftTokenIds.isEmpty).map
        fun item => sample' item.2.startRow item.1.2) := by
    apply List.map_congr_left
    intro item hitem
    have hrow := hrows _ (hzip item (List.mem_of_mem_filter hitem))
    have hpos := item.2.rows_bonus
    rw [hsample _ (by omega)]
  have hall : (reqs.mapIdx fun i req => [sample i req.2]) =
      reqs.mapIdx fun i req => [sample' i req.2] := by
    apply List.ext_getElem?
    intro i
    rw [List.getElem?_mapIdx, List.getElem?_mapIdx]
    rcases Nat.lt_or_ge i reqs.length with hi | hi
    · rw [hsample i (by omega)]
    · rw [List.getElem?_eq_none hi]
      rfl
  simp only [decodeTokenIds, hverify, hplain, hall]

/-- **At least one token, and at most one more than there are drafts.** -/
theorem acceptDrafts_length (rowTokens drafts : List Token)
    (hlen : rowTokens.length = drafts.length + 1) :
    1 ≤ (acceptDrafts rowTokens drafts).length ∧
      (acceptDrafts rowTokens drafts).length ≤ drafts.length + 1 := by
  induction drafts generalizing rowTokens with
  | nil =>
    cases rowTokens with
    | nil => simp at hlen
    | cons target rowTokens => simp [acceptDrafts]
  | cons draft drafts ih =>
    cases rowTokens with
    | nil => simp at hlen
    | cons target rowTokens =>
      rw [acceptDrafts]
      split
      · have h := ih rowTokens (by simpa using hlen)
        simp only [List.length_cons]
        omega
      · simp

/-- All committed tokens but the last are drafts. -/
theorem take_acceptDrafts (rowTokens drafts : List Token) {i : ℕ}
    (hi : i < (acceptDrafts rowTokens drafts).length) :
    (acceptDrafts rowTokens drafts).take i = drafts.take i := by
  induction drafts generalizing rowTokens i with
  | nil =>
    cases rowTokens with
    | nil => simp [acceptDrafts] at hi
    | cons target rowTokens =>
      obtain rfl : i = 0 := by simpa [acceptDrafts] using hi
      rfl
  | cons draft drafts ih =>
    cases rowTokens with
    | nil => simp [acceptDrafts] at hi
    | cons target rowTokens =>
      cases i with
      | zero => rfl
      | succ i =>
        rw [acceptDrafts] at hi ⊢
        split at hi
        · next htarget =>
          rw [if_pos htarget, List.take_succ_cons, List.take_succ_cons]
          rw [ih rowTokens (by simpa using hi)]
        · simp at hi

/-- The segment of the `i`-th request starts behind the rows of the requests before it. -/
theorem getElem?_segmentList {specTokens : Dict ReqId (List Token)} {seqLens : Dict ReqId ℕ}
    {reqs : List (ReqId × RequestState)} {i : ℕ} {req : ReqId × RequestState}
    (hi : reqs[i]? = some req) (startRow : ℕ) :
    (segmentList specTokens seqLens startRow reqs)[i]? = some (segmentOf seqLens
      (startRow + ((reqs.map fun r => (specTokens.getD r.1 []).length + 1).take i).sum)
      req.1 req.2 (specTokens.getD req.1 [])) := by
  induction reqs generalizing startRow i with
  | nil => simp at hi
  | cons head reqs ih =>
    cases i with
    | zero =>
      obtain rfl : head = req := by simpa using hi
      simp [segmentList]
    | succ i =>
      have hrest := ih (by simpa using hi)
        (startRow + ((specTokens.getD head.1 []).length + 1))
      simp only [segmentList, List.getElem?_cons_succ, hrest, List.map_cons, List.take_succ_cons,
        List.sum_cons, Nat.add_assoc]

end SpecDecode
end VllmMetal
