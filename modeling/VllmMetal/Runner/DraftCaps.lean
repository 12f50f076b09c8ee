import VllmMetal.Runner.Request

/-!
# Draft caps

Under align-mode state caching a verification must not cross into the next state block, so
the runner caps the next draft of every request at the boundary and the proposer cuts its
drafts there, and at the output limit of the request.

## Main definitions

* `hybridDraftCap` — the cap of one request; `hybridDraftCaps` — of all of a step.
* `trimDraft` — how the proposer cuts a draft.

## Main results

* `span_within_block` — a capped draft and the token before it end in the block in which they
  start.
-/

namespace VllmMetal

/-- The cap of a request whose next span starts at a position. -/
def hybridDraftCap (stride nextSpanStart : ℕ) : ℕ := stride - nextSpanStart % stride - 1

/-- `_hybrid_draft_caps`: a cap for the request of every decode segment, after its committed
tokens, and of every prefill, after its chunk. -/
def hybridDraftCaps (stateCheckpointStride : Option ℕ) (decodeSegments : List (ReqId × ℕ))
    (decodeTokenIds : List (List Token)) (prefillReqs : List (ReqId × ℕ × List Token)) :
    Option (Dict ReqId ℕ) :=
  match stateCheckpointStride with
  | none => none
  | some stride =>
      if stride ≤ 1 then none
      else
        let caps : Dict ReqId ℕ := (decodeSegments.zip decodeTokenIds).foldl (fun caps p =>
          caps.set p.1.1 (hybridDraftCap stride (p.1.2 + p.2.length))) ∅
        let caps := prefillReqs.foldl (fun caps pr =>
          caps.set pr.1 (hybridDraftCap stride (pr.2.1 + pr.2.2.length))) caps
        if caps.keys = [] then none else some caps

/-- The cut of a draft by the positional cap and by what `max_tokens` leaves. -/
def trimDraft (cap maxTokens : Option ℕ) (generatedTokens : ℕ) (draft : List Token) :
    List Token :=
  let cap := match maxTokens with
    | none => cap
    | some maxTokens =>
        -- verification also emits a correction or bonus token
        let remaining := maxTokens - generatedTokens - 1
        some ((cap.map fun c => min c remaining).getD remaining)
  match cap with
  | none => draft
  | some cap => if draft.length > cap then draft.take cap else draft

/-- The entries of `caps`, in the order in which the two loops store them. -/
def draftCapEntries (stride : ℕ) (decodeSegments : List (ReqId × ℕ))
    (decodeTokenIds : List (List Token)) (prefillReqs : List (ReqId × ℕ × List Token)) :
    List (ReqId × ℕ) :=
  (decodeSegments.zip decodeTokenIds).map (fun p =>
    (p.1.1, hybridDraftCap stride (p.1.2 + p.2.length))) ++
  prefillReqs.map fun pr => (pr.1, hybridDraftCap stride (pr.2.1 + pr.2.2.length))

/-- **Every request of a step gets the cap of its own next span.** -/
theorem get?_hybridDraftCaps {stride : ℕ} (hstride : 1 < stride)
    {decodeSegments : List (ReqId × ℕ)} {decodeTokenIds : List (List Token)}
    {prefillReqs : List (ReqId × ℕ × List Token)} {reqId : ReqId} {cap : ℕ}
    (hnodup : ((draftCapEntries stride decodeSegments decodeTokenIds prefillReqs).map
      Prod.fst).Nodup)
    (h : (reqId, cap) ∈ draftCapEntries stride decodeSegments decodeTokenIds prefillReqs) :
    (hybridDraftCaps (some stride) decodeSegments decodeTokenIds prefillReqs).bind
      (fun caps => caps.get? reqId) = some cap := by
  have hget := Dict.get?_foldl_set (∅ : Dict ReqId ℕ) hnodup h
  rw [draftCapEntries, List.foldl_append, List.foldl_map, List.foldl_map] at hget
  have hkeys := List.ne_nil_of_mem (Dict.mem_keys.mpr (Option.isSome_of_eq_some hget))
  rw [hybridDraftCaps]
  simp only [Nat.not_le.mpr hstride, if_false, if_neg hkeys, Option.bind_some]
  exact hget

theorem length_trimDraft_le {cap : ℕ} (maxTokens : Option ℕ) (generatedTokens : ℕ)
    (draft : List Token) :
    (trimDraft (some cap) maxTokens generatedTokens draft).length ≤ cap := by
  have hcut : ∀ c ≤ cap, (if draft.length > c then draft.take c else draft).length ≤ cap := by
    intro c hc
    split
    · rw [List.length_take]
      omega
    · omega
  cases maxTokens with
  | none => exact hcut cap (Nat.le_refl cap)
  | some m => exact hcut _ (Nat.min_le_left _ _)

/-- **A span within its cap ends in the block in which it starts.** -/
theorem span_within_block {stride start drafts : ℕ} (hstride : 0 < stride)
    (h : drafts ≤ hybridDraftCap stride start) : (start + drafts) / stride = start / stride := by
  have hlt := Nat.mod_lt start hstride
  have hmod := Nat.div_add_mod start stride
  rw [hybridDraftCap] at h
  refine Nat.div_eq_of_lt_le ?_ ?_
  · have := Nat.div_mul_le_self start stride
    omega
  · rw [Nat.add_mul, Nat.one_mul, Nat.mul_comm]
    omega

end VllmMetal
