import VllmMetal.Logits.Readers

/-!
# The prompt-logprobs tracker

A prefill chunk forwards the prompt positions `[start_pos, start_pos + num_tokens)`; the row of a
position scores the token behind it.  The tracker keeps what a request has so far and hands the
tensors over with the chunk that reaches the end of the prompt.

The tracker's two dictionaries are keyed by request id, and every method touches the entries of one
id; they are kept here as one entry for each request.

## Main definitions

* `promptLogprobsWindow` — which rows of a chunk score prompt tokens.
* `PromptLogprobsAccumulator`, `TrackerEntry` — what is kept for a request.
* `TrackerEntry.observeChunk` — one chunk.

## Main results

* `window_intermediate`, `window_completes` — the window of a chunk inside its prompt.
* `observeChunk_intermediate`, `observeChunk_completes` — what a chunk leaves, and hands over.
-/

namespace VllmMetal
namespace PromptLogprobs

open Logits

/-! ### The window of a chunk -/

/-- Which rows of a prefill chunk produce prompt logprobs. -/
structure PromptLogprobsWindow where
  startPos : ℕ
  numLogits : ℕ
  completes : Bool

/-- `first_target`. -/
def PromptLogprobsWindow.firstTarget (window : PromptLogprobsWindow) : ℕ := window.startPos + 1

/-- `prompt_logprobs_window`. -/
def promptLogprobsWindow (startPos numTokens promptLen : ℕ) : PromptLogprobsWindow :=
  let numRemaining : ℤ := promptLen - (startPos + 1)
  if (numTokens : ℤ) ≤ numRemaining then ⟨startPos, numTokens, false⟩
  else ⟨startPos, (max numRemaining 0).toNat, true⟩

/-- A chunk that leaves some of the prompt. -/
theorem window_intermediate {startPos numTokens promptLen : ℕ}
    (h : startPos + numTokens < promptLen) :
    promptLogprobsWindow startPos numTokens promptLen = ⟨startPos, numTokens, false⟩ :=
  if_pos (by omega)

/-- A chunk that reaches the end of the prompt: its last row scores nothing. -/
theorem window_completes {startPos numTokens promptLen : ℕ} (hpos : 0 < numTokens)
    (h : startPos + numTokens = promptLen) :
    promptLogprobsWindow startPos numTokens promptLen = ⟨startPos, numTokens - 1, true⟩ := by
  unfold promptLogprobsWindow
  rw [if_neg (by omega)]
  congr 1
  omega

/-! ### The entry of a request -/

variable {Row Scored : Type}

/-- Tensors that are filled row by row; a row that was never filled holds whatever the memory
held. -/
abbrev LogprobsTensors (Scored : Type) := List (Option Scored)

/-- `PromptLogprobsAccumulator`. -/
structure PromptLogprobsAccumulator (Scored : Type) where
  promptLen : ℕ
  numLogprobs : ℤ
  tensors : LogprobsTensors Scored

/-- What the tracker keeps for one request: its entry of `_active` and of `_in_progress`. -/
structure TrackerEntry (Scored : Type) where
  active : Option ℤ
  inProgress : Option (PromptLogprobsAccumulator Scored)

/-- What the tracker raises. -/
inductive TrackerError where
  /-- The request is not active. -/
  | keyError
  /-- "prompt_len must be at least 1". -/
  | promptLen
  /-- "logits_rows must be (num_targets, vocab); got shape ... for ... targets". -/
  | shape (rows targets : ℕ)
  /-- A copy of rows into another number of rows. -/
  | copy (rows slots : ℕ)
  deriving DecidableEq

/-- `PromptLogprobsAccumulator.__init__`. -/
def PromptLogprobsAccumulator.init (promptLen : ℕ) (numLogprobs : ℤ) :
    Except TrackerError (PromptLogprobsAccumulator Scored) :=
  if promptLen < 1 then .error .promptLen
  else .ok ⟨promptLen, numLogprobs, List.replicate (promptLen - 1) none⟩

/-- `tensors[start:end].copy_(chunk)`, one row being copied into all of them. -/
def copyRows (tensors : LogprobsTensors Scored) (start stop : ℕ) (chunk : List Scored) :
    Except TrackerError (LogprobsTensors Scored) :=
  let slots := ((tensors.take stop).drop start).length
  if chunk.length = slots then
    .ok (tensors.take start ++ chunk.map some ++ tensors.drop (start + slots))
  else if chunk.length = 1 then
    .ok (tensors.take start ++ List.replicate slots chunk.head? ++ tensors.drop (start + slots))
  else .error (.copy chunk.length slots)

/-- `PromptLogprobsAccumulator.fill`. -/
def PromptLogprobsAccumulator.fill (acc : PromptLogprobsAccumulator Scored)
    (window : PromptLogprobsWindow) (chunk : List Scored) :
    Except TrackerError (PromptLogprobsAccumulator Scored) :=
  match copyRows acc.tensors window.startPos (window.startPos + window.numLogits) chunk with
  | .error e => .error e
  | .ok tensors => .ok { acc with tensors := tensors }

/-- `gather_prompt_logprobs`; `score` is vLLM's scoring of a row against a target. -/
def gatherPromptLogprobs (score : ℤ → Row → Token → Scored) (logitsRows : List Row)
    (targetTokenIds : List Token) (numLogprobs : ℤ) : Except TrackerError (List Scored) :=
  if logitsRows.length ≠ targetTokenIds.length then
    .error (.shape logitsRows.length targetTokenIds.length)
  else .ok (List.zipWith (score numLogprobs) logitsRows targetTokenIds)

/-- `_resolve_num_logprobs`. -/
def resolveNumLogprobs (numLogprobs vocabSize : ℤ) : ℤ :=
  if numLogprobs = -1 then vocabSize else numLogprobs

namespace TrackerEntry

/-- The entry of a request that the tracker does not have. -/
def none : TrackerEntry Scored := ⟨.none, .none⟩

/-- `register`. -/
def register (numLogprobs : ℤ) (entry : TrackerEntry Scored) : TrackerEntry Scored :=
  { entry with active := some numLogprobs }

/-- `wants`. -/
def wants (entry : TrackerEntry Scored) : Bool := entry.active.isSome

/-- The accumulator of the request, a new one for its first chunk. -/
def accumulator (vocabSize : ℤ) (promptLen : ℕ) (entry : TrackerEntry Scored) :
    Except TrackerError (PromptLogprobsAccumulator Scored) :=
  match entry.inProgress with
  | some acc => .ok acc
  | .none =>
      match entry.active with
      | .none => .error .keyError
      | some numLogprobs =>
          PromptLogprobsAccumulator.init promptLen (resolveNumLogprobs numLogprobs vocabSize)

/-- `observe_chunk`. -/
def observeChunk (score : ℤ → Row → Token → Scored) (vocabSize : ℤ) (chunk : PromptChunk Row)
    (entry : TrackerEntry Scored) :
    Except TrackerError (TrackerEntry Scored × Option (LogprobsTensors Scored)) := do
  let promptLen := chunk.promptTokenIds.length
  let window := promptLogprobsWindow chunk.startPos chunk.numTokens promptLen
  let acc ← entry.accumulator vocabSize promptLen
  let acc ← if 0 < window.numLogits then do
      let targets := (chunk.promptTokenIds.take (window.firstTarget + window.numLogits)).drop
        window.firstTarget
      let rows ← gatherPromptLogprobs score (chunk.chunkLogits.take window.numLogits) targets
        acc.numLogprobs
      acc.fill window rows
    else .ok acc
  if !window.completes then .ok ({ entry with inProgress := some acc }, .none)
  else .ok (none, some acc.tensors)

end TrackerEntry

/-! ### One chunk -/

/-- Copying as many rows as there are. -/
theorem copyRows_ok {tensors : LogprobsTensors Scored} {start : ℕ} {chunk : List Scored}
    (h : start + chunk.length ≤ tensors.length) :
    ∃ tensors', copyRows tensors start (start + chunk.length) chunk = .ok tensors' ∧
      tensors'.length = tensors.length ∧
      ∀ i, tensors'[i]? = if start ≤ i ∧ i < start + chunk.length then
        chunk[i - start]?.map some else tensors[i]? := by
  have hslots : ((tensors.take (start + chunk.length)).drop start).length = chunk.length := by
    rw [List.length_drop, List.length_take]
    omega
  refine ⟨tensors.take start ++ chunk.map some ++ tensors.drop (start + chunk.length), ?_, ?_,
    fun i => ?_⟩
  · rw [copyRows, hslots, if_pos rfl]
  · rw [List.length_append, List.length_append, List.length_take, List.length_map,
      List.length_drop]
    omega
  · have hfirst : (tensors.take start ++ chunk.map some).length = start + chunk.length := by
      rw [List.length_append, List.length_take, List.length_map]
      omega
    rcases Nat.lt_or_ge i start with hlt | hge
    · rw [List.getElem?_append_left (by omega), List.getElem?_append_left (by
        rw [List.length_take]; omega), List.getElem?_take_of_lt hlt, if_neg (by omega)]
    · rcases Nat.lt_or_ge i (start + chunk.length) with hin | hout
      · rw [List.getElem?_append_left (by omega), List.getElem?_append_right (by
          rw [List.length_take]; omega), List.getElem?_map, List.length_take,
          Nat.min_eq_left (by omega), if_pos ⟨hge, hin⟩]
      · rw [List.getElem?_append_right (by omega), hfirst, List.getElem?_drop, if_neg (by omega)]
        congr 1
        omega

section Chunks

variable (score : ℤ → Row → Token → Scored) (numLogprobs : ℤ) (prompt : List Token)

/-- The tensors hold, for each position that is done, its row scored against the token behind it. -/
structure Filled (rows : ℕ → Row) (done : ℕ) (tensors : LogprobsTensors Scored) : Prop where
  length : tensors.length = prompt.length - 1
  filled : ∀ i < done, i < prompt.length - 1 →
    tensors[i]? = some (some (score numLogprobs (rows i) (prompt.getD (i + 1) 0)))

/-- What the tracker has of a prompt of which `done` positions are forwarded. -/
def InProgress (vocabSize k : ℤ) (rows : ℕ → Row) (done : ℕ) (entry : TrackerEntry Scored) : Prop :=
  entry.active = some k ∧
    ((entry.inProgress = none ∧ done = 0) ∨ ∃ acc, entry.inProgress = some acc ∧
      acc.numLogprobs = resolveNumLogprobs k vocabSize ∧
      Filled score (resolveNumLogprobs k vocabSize) prompt rows done acc.tensors)

/-- The rows of the positions after a chunk. -/
def afterChunk (rows chunkRows : ℕ → Row) (start n : ℕ) (i : ℕ) : Row :=
  if start ≤ i ∧ i < start + n then chunkRows i else rows i

variable {score numLogprobs prompt} {rows chunkRows : ℕ → Row} {vocabSize k : ℤ} {start n : ℕ}

variable (score numLogprobs chunkRows) in
/-- The rows of a chunk, scored. -/
theorem gatherPromptLogprobs_ok {m : ℕ} (hm : m ≤ n) (htargets : start + m < prompt.length) :
    ∃ scored, gatherPromptLogprobs score
        (((List.range n).map fun j => chunkRows (start + j)).take m)
        ((prompt.take (start + 1 + m)).drop (start + 1)) numLogprobs = .ok scored ∧
      scored.length = m ∧ ∀ j < m, scored[j]? =
        some (score numLogprobs (chunkRows (start + j)) (prompt.getD (start + j + 1) 0)) := by
  have hrows : (((List.range n).map fun j => chunkRows (start + j)).take m).length = m := by
    rw [List.length_take, List.length_map, List.length_range, Nat.min_eq_left hm]
  have hlen : ((prompt.take (start + 1 + m)).drop (start + 1)).length = m := by
    rw [List.length_drop, List.length_take]
    omega
  refine ⟨List.zipWith (score numLogprobs)
    (((List.range n).map fun j => chunkRows (start + j)).take m)
    ((prompt.take (start + 1 + m)).drop (start + 1)), ?_, ?_, fun j hj => ?_⟩
  · rw [gatherPromptLogprobs, hrows, hlen, if_neg (by simp)]
  · rw [List.length_zipWith, hrows, hlen, Nat.min_self]
  · have htarget : ((prompt.take (start + 1 + m)).drop (start + 1))[j]?
        = some (prompt.getD (start + j + 1) 0) := by
      rw [List.getElem?_drop, List.getElem?_take_of_lt (by omega),
        List.getElem?_eq_getElem (by omega), List.getD_eq_getElem _ _ (by omega)]
      congr 2
      omega
    rw [List.getElem?_zipWith, htarget, List.getElem?_take_of_lt hj, List.getElem?_map,
      List.getElem?_range (by omega)]
    rfl

/-- Filling the rows of a chunk. -/
theorem Filled.fill {acc : PromptLogprobsAccumulator Scored} {m : ℕ}
    (h : Filled score numLogprobs prompt rows start acc.tensors)
    (hm : m ≤ n) (htargets : start + m < prompt.length) (hdone : start + n ≤ start + m + 1)
    (hall : start + n < prompt.length → m = n) (completes : Bool) {scored : List Scored}
    (hlen : scored.length = m) (hscored : ∀ j < m, scored[j]? =
      some (score numLogprobs (chunkRows (start + j)) (prompt.getD (start + j + 1) 0))) :
    ∃ tensors', acc.fill ⟨start, m, completes⟩ scored = .ok { acc with tensors := tensors' } ∧
      Filled score numLogprobs prompt (afterChunk rows chunkRows start n) (start + n) tensors' := by
  subst hlen
  have hroom : start + scored.length ≤ acc.tensors.length := by
    rw [h.length]
    omega
  obtain ⟨tensors', hcopy, hlength, hget⟩ := copyRows_ok hroom
  refine ⟨tensors', by simp only [PromptLogprobsAccumulator.fill, hcopy], hlength.trans h.length,
    fun i hi hbound => ?_⟩
  rw [hget]
  split
  · next hin =>
    have hj := hscored (i - start) (by omega)
    rw [hj, Option.map_some, Nat.add_sub_cancel' hin.1, afterChunk, if_pos ⟨hin.1, hi⟩]
  · next hout =>
    have hlt : i < start := by
      by_contra hge
      by_cases hshort : start + n < prompt.length
      · have := hall hshort
        omega
      · omega
    rw [h.filled i hlt hbound, afterChunk, if_neg (by omega)]

/-- The accumulator of a chunk holds what is done before it. -/
theorem InProgress.accumulator_ok {entry : TrackerEntry Scored} (hprompt : 0 < prompt.length)
    (h : InProgress score prompt vocabSize k rows start entry) :
    ∃ acc, entry.accumulator vocabSize prompt.length = .ok acc ∧
      acc.numLogprobs = resolveNumLogprobs k vocabSize ∧
      Filled score (resolveNumLogprobs k vocabSize) prompt rows start acc.tensors := by
  obtain ⟨hactive, ⟨hnone, rfl⟩ | ⟨acc, hacc, hnum, hfilled⟩⟩ := h
  · refine ⟨⟨prompt.length, resolveNumLogprobs k vocabSize,
      List.replicate (prompt.length - 1) none⟩,
      ?_, rfl, List.length_replicate, fun i hi => absurd hi (Nat.not_lt_zero i)⟩
    simp only [TrackerEntry.accumulator, hnone, hactive]
    exact if_neg (by omega)
  · exact ⟨acc, by simp only [TrackerEntry.accumulator, hacc], hnum, hfilled⟩

/-- The chunk of a prompt from `start` on, with its rows. -/
def chunkOf (reqId : ReqId) (prompt : List Token) (chunkRows : ℕ → Row) (start n : ℕ) :
    PromptChunk Row :=
  ⟨reqId, prompt, start, n, (List.range n).map fun j => chunkRows (start + j)⟩

variable (chunkRows) in
/-- **A chunk that leaves some of the prompt** is scored, and nothing is handed over. -/
theorem observeChunk_intermediate (reqId : ReqId) {entry : TrackerEntry Scored}
    (h : InProgress score prompt vocabSize k rows start entry) (hpos : 0 < n)
    (hlt : start + n < prompt.length) :
    ∃ entry', entry.observeChunk score vocabSize (chunkOf reqId prompt chunkRows start n)
        = .ok (entry', none) ∧
      InProgress score prompt vocabSize k (afterChunk rows chunkRows start n)
        (start + n) entry' := by
  obtain ⟨acc, hacc, hnum, hfilled⟩ := h.accumulator_ok (by omega)
  obtain ⟨scored, hgather, hlen, hscored⟩ := gatherPromptLogprobs_ok score acc.numLogprobs
    chunkRows (Nat.le_refl n) hlt
  rw [← hnum] at hfilled
  obtain ⟨tensors', hfill, hfilled'⟩ := hfilled.fill (Nat.le_refl n) hlt (Nat.le_succ _)
    (fun _ => rfl) false hlen hscored
  refine ⟨{ entry with inProgress := some { acc with tensors := tensors' } }, ?_, h.1,
    Or.inr ⟨_, rfl, hnum, hnum ▸ hfilled'⟩⟩
  unfold TrackerEntry.observeChunk
  simp only [chunkOf, window_intermediate hlt, hacc, PromptLogprobsWindow.firstTarget]
  simp only [bind, Except.bind]
  rw [if_pos hpos]
  simp only [hgather, hfill]
  rfl

variable (chunkRows) in
/-- **A chunk that reaches the end of the prompt** hands the tensors over, every row of them
filled. -/
theorem observeChunk_completes (reqId : ReqId) {entry : TrackerEntry Scored}
    (h : InProgress score prompt vocabSize k rows start entry) (hpos : 0 < n)
    (hend : start + n = prompt.length) :
    ∃ tensors, entry.observeChunk score vocabSize (chunkOf reqId prompt chunkRows start n)
        = .ok (TrackerEntry.none, some tensors) ∧
      Filled score (resolveNumLogprobs k vocabSize) prompt (afterChunk rows chunkRows start n)
        prompt.length tensors := by
  obtain ⟨acc, hacc, hnum, hfilled⟩ := h.accumulator_ok (by omega)
  rw [← hnum] at hfilled
  have htargets : start + (n - 1) < prompt.length := by omega
  obtain ⟨scored, hgather, hlen, hscored⟩ := gatherPromptLogprobs_ok score acc.numLogprobs
    chunkRows (Nat.sub_le n 1) htargets
  obtain ⟨tensors', hfill, hfilled'⟩ := hfilled.fill (Nat.sub_le n 1) htargets (by omega)
    (by omega) true hlen hscored
  rw [hnum, hend] at hfilled'
  rcases Nat.eq_zero_or_pos (n - 1) with hone | hmore
  · -- the chunk is the last position alone, and scores nothing
    refine ⟨acc.tensors, ?_, hfilled.length, fun i hi hbound => ?_⟩
    · unfold TrackerEntry.observeChunk
      simp only [chunkOf, window_completes hpos hend, hacc, hone]
      rfl
    · rw [hfilled.filled i (by omega) hbound, hnum, afterChunk, if_neg (by omega)]
  · refine ⟨tensors', ?_, hfilled'⟩
    unfold TrackerEntry.observeChunk
    simp only [chunkOf, window_completes hpos hend, hacc, PromptLogprobsWindow.firstTarget]
    simp only [bind, Except.bind]
    rw [if_pos hmore]
    simp only [hgather, hfill]
    rfl

end Chunks

end PromptLogprobs
end VllmMetal
