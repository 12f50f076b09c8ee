import VllmMetal.Multimodal.BidiRanges

/-!
# Image blocks over runs

When a request resumes, the runner forgets the flag that made it causal, and takes the boundary
at which it resumes for the start of its first chunk.  The image blocks stay whole in the runs
where neither matters.

## Main definitions

* `ResumeOk`, `ChunkOk`, `EventOk` — the condition on a step.
* `LifeInv` — the invariant of a request.

## Main results

* `LifeInv.resume`, `LifeInv.compute` — the invariant over the two things that happen to a request.
* `image_blocks_whole` — **the image blocks are whole in every run whose steps meet the condition**.
* `resumed_block_mixed` — a run that does not, in which a block is attended half and half.
-/

namespace VllmMetal.Multimodal

/-! ### The condition -/

/-- No block with the boundary inside has a row below it that was computed bidirectionally. -/
def ResumeOk (blocks : List (ℕ × ℕ)) (life : Life) (boundary : ℕ) : Prop :=
  ∀ b ∈ blocks, b.1 < boundary → boundary < b.2 →
    ∀ q, b.1 ≤ q → q < boundary → ¬ life.Bidirectional b q

/-- While the flag of a request that fell back is forgotten, a chunk that meets a block ends
inside one. -/
def ChunkOk (blocks : List (ℕ × ℕ)) (life : Life) (remembered : Option MMBidiState)
    (numTokens : ℕ) : Prop :=
  (∃ c ∈ life.log, c.fellBack = true) → remembered.any (·.causalOnly) = false →
    (∃ b ∈ blocks, Meets life.done (life.done + numTokens) b) →
    ∃ b ∈ blocks, b.1 < life.done + numTokens ∧ life.done + numTokens < b.2

/-- The condition on a step. -/
def EventOk (extractEmbedsRange : PlaceholderRange → List (ℕ × ℕ)) (r : Runner) : Event → Prop
  | .add _ _ _ => True
  | .reconcile evicted resumed boundary => ∀ reqId ∈ resumed, reqId ∉ evicted →
      ∀ life, r.lives.get? reqId = some life →
        ResumeOk (life.blocks extractEmbedsRange) life (boundary reqId)
  | Event.readmission reqId boundary => ∀ life, r.lives.get? reqId = some life →
      ResumeOk (life.blocks extractEmbedsRange) life boundary
  | .chunk reqId numTokens => ∀ life, r.lives.get? reqId = some life →
      ChunkOk (life.blocks extractEmbedsRange) life (r.mmBidiStates.get? reqId) numTokens

/-- A step that meets the condition. -/
def OkStep (extractEmbedsRange : PlaceholderRange → List (ℕ × ℕ)) (r : Runner) (e : Event)
    (r' : Runner) : Prop :=
  EventOk extractEmbedsRange r e ∧ Step extractEmbedsRange r e r'

/-! ### The invariant of a request -/

/-- **The invariant of a request**, with the state the runner remembers of it. -/
structure LifeInv (blocks : List (ℕ × ℕ)) (remembered : Option MMBidiState) (life : Life) :
    Prop where
  ranges : ∀ state, remembered = some state → state.ranges = blocks
  wrote : ∀ q i, life.wrote q = some i → q < life.done ∧ i < life.log.length
  own : ∀ c₀, life.log.head? = some c₀ → ∀ q, c₀.startPos ≤ q → q < life.done →
    life.wrote q ≠ none
  /-- Of a block that is half in the cache no row is bidirectional. -/
  half : ∀ b ∈ blocks, b.1 < life.done → life.done < b.2 →
    ∀ q, b.1 ≤ q → q < life.done → ¬ life.Bidirectional b q
  /-- Until the request falls back all its rows are bidirectional. -/
  eager : (∀ c ∈ life.log, c.fellBack = false) → ∀ b ∈ blocks, ∀ q, b.1 ≤ q → q < b.2 →
    life.wrote q ≠ none → life.Bidirectional b q
  law : BlocksWhole blocks life

section

variable {blocks : List (ℕ × ℕ)} {remembered : Option MMBidiState} {life : Life}
  {b : ℕ × ℕ} {q boundary : ℕ}

theorem lifeInv_start (features : List MultiModalFeatureSpec) (boundary : ℕ) :
    LifeInv blocks none (.start features boundary) where
  ranges := nofun
  wrote := nofun
  own := nofun
  half := by
    rintro b - - - q - - ⟨i, c, hi, -⟩
    cases hi
  eager := fun _ b _ q _ _ h => absurd rfl h
  law := {
    whole := fun b _ => .inl ⟨0, fun q _ _ h => absurd rfl h⟩
    inside := nofun
    sticky := .nil }

/-! ### Resumption -/

theorem Life.wrote_resume (life : Life) (boundary q : ℕ) :
    (life.resume boundary).wrote q = if q < boundary then life.wrote q else none := rfl

theorem Life.Bidirectional.of_resume (h : (life.resume boundary).Bidirectional b q) :
    life.Bidirectional b q := by
  obtain ⟨i, c, hi, hc, hb⟩ := h
  rw [Life.wrote_resume] at hi
  split at hi
  · exact ⟨i, c, hi, hc, hb⟩
  · cases hi

theorem Life.Bidirectional.resume (h : life.Bidirectional b q) (hq : q < boundary) :
    (life.resume boundary).Bidirectional b q := by
  obtain ⟨i, c, hi, hc, hb⟩ := h
  exact ⟨i, c, by rw [Life.wrote_resume, if_pos hq, hi], hc, hb⟩

/-- A row in use after a resumption was in use before it, and lies below the boundary. -/
theorem Life.of_wrote_resume (h : (life.resume boundary).wrote q ≠ none) :
    q < boundary ∧ life.wrote q ≠ none := by
  rw [Life.wrote_resume] at h
  split at h
  · next hq => exact ⟨hq, h⟩
  · exact absurd rfl h

/-- **Resumption keeps the invariant**, at a boundary that meets the condition. -/
theorem LifeInv.resume (h : LifeInv blocks remembered life) (hle : boundary ≤ life.done)
    (hok : ResumeOk blocks life boundary) : LifeInv blocks none (life.resume boundary) where
  ranges := nofun
  wrote := fun q i hi => by
    rw [Life.wrote_resume] at hi
    split at hi
    · next hq => exact ⟨hq, (h.wrote q i hi).2⟩
    · cases hi
  own := fun c₀ hc₀ q hlo (hhi : q < boundary) => by
    rw [Life.wrote_resume, if_pos hhi]
    exact h.own c₀ hc₀ q hlo (lt_of_lt_of_le hhi hle)
  half := fun b hb hlo hhi q hq hq' hbidi => hok b hb hlo hhi q hq hq' hbidi.of_resume
  eager := fun hnever b hb q hlo hhi hw => by
    obtain ⟨hq, hw⟩ := Life.of_wrote_resume hw
    exact (h.eager hnever b hb q hlo hhi hw).resume hq
  law := {
    whole := fun b hb => by
      rcases h.law.whole b hb with ⟨i, hall⟩ | hnone
      · refine .inl ⟨i, fun q hlo hhi hw => ?_⟩
        obtain ⟨hq, hw⟩ := Life.of_wrote_resume hw
        obtain ⟨hi, hbidi⟩ := hall q hlo hhi hw
        refine ⟨?_, hbidi.resume hq⟩
        rw [Life.wrote_resume, if_pos hq, hi]
      · exact .inr fun q hlo hhi hbidi => hnone q hlo hhi hbidi.of_resume
    inside := h.law.inside
    sticky := h.law.sticky }

/-! ### One more chunk -/

section

variable {numTokens : ℕ} {ranges : Option (List (ℕ × ℕ))} {fellBack : Bool}

/-- A chunk writes its own rows and leaves the others. -/
theorem Life.wrote_compute (life : Life) (numTokens : ℕ) (ranges : Option (List (ℕ × ℕ)))
    (fellBack : Bool) (q : ℕ) : (life.compute numTokens ranges fellBack).wrote q =
      if life.done ≤ q ∧ q < life.done + numTokens then some life.log.length
      else life.wrote q := rfl

/-- The rows of a chunk are bidirectional over the ranges it was given. -/
theorem Life.bidirectional_new (hlo : life.done ≤ q) (hhi : q < life.done + numTokens) :
    (life.compute numTokens ranges fellBack).Bidirectional b q ↔ b ∈ ranges.getD [] := by
  have hq : life.done ≤ q ∧ q < life.done + numTokens := ⟨hlo, hhi⟩
  have hnew : (life.log ++ [⟨life.done, numTokens, ranges, fellBack⟩])[life.log.length]? =
      some (⟨life.done, numTokens, ranges, fellBack⟩ : Chunk) := List.getElem?_concat_length
  constructor
  · rintro ⟨i, c, hi, hc, hb⟩
    rw [Life.wrote_compute, if_pos hq] at hi
    cases hi
    cases hnew.symm.trans hc
    exact hb
  · intro hb
    exact ⟨_, _, by rw [Life.wrote_compute, if_pos hq], hnew, hb⟩

/-- The rows below a chunk stay as they are. -/
theorem Life.bidirectional_old (hlog : ∀ i, life.wrote q = some i → i < life.log.length)
    (hq : q < life.done) :
    (life.compute numTokens ranges fellBack).Bidirectional b q ↔ life.Bidirectional b q := by
  have hw : (life.compute numTokens ranges fellBack).wrote q = life.wrote q := by
    rw [Life.wrote_compute, if_neg (by omega)]
  have hold : ∀ i, life.wrote q = some i →
      (life.compute numTokens ranges fellBack).log[i]? = life.log[i]? := fun i hi =>
    List.getElem?_append_left (hlog i hi)
  constructor
  · rintro ⟨i, c, hi, hc, hb⟩
    rw [hw] at hi
    rw [hold i hi] at hc
    exact ⟨i, c, hi, hc, hb⟩
  · rintro ⟨i, c, hi, hc, hb⟩
    exact ⟨i, c, hw.trans hi, (hold i hi).trans hc, hb⟩

/-- A row in use after a chunk is one of its own or was in use before it. -/
theorem Life.of_wrote_compute (hlt : ∀ q i, life.wrote q = some i → q < life.done)
    (hw : (life.compute numTokens ranges fellBack).wrote q ≠ none) :
    life.done ≤ q ∧ q < life.done + numTokens ∨ q < life.done ∧ life.wrote q ≠ none := by
  rw [Life.wrote_compute] at hw
  split at hw
  · next hq => exact .inl hq
  · obtain ⟨i, hi⟩ := Option.ne_none_iff_exists'.mp hw
    exact .inr ⟨hlt q i hi, hw⟩

theorem LifeInv.written (h : LifeInv blocks remembered life) (q : ℕ) :
    ∀ i, life.wrote q = some i → i < life.log.length := fun i hi => (h.wrote q i hi).2

/-- The rows a chunk writes lie below its end, and it is the last chunk so far. -/
theorem LifeInv.wrote_compute (h : LifeInv blocks remembered life) (q i : ℕ)
    (hi : (life.compute numTokens ranges fellBack).wrote q = some i) :
    q < (life.compute numTokens ranges fellBack).done ∧
      i < (life.compute numTokens ranges fellBack).log.length := by
  have hdone : (life.compute numTokens ranges fellBack).done = life.done + numTokens := rfl
  have hlog : (life.compute numTokens ranges fellBack).log.length = life.log.length + 1 :=
    List.length_append
  rw [Life.wrote_compute] at hi
  split at hi
  · next hq =>
    cases hi
    exact ⟨by omega, by omega⟩
  · obtain ⟨hq, hlt⟩ := h.wrote q i hi
    exact ⟨by omega, by omega⟩

/-- The first chunk stays the first. -/
theorem Life.first_compute {c : Chunk} (hc : life.log.head? = some c) :
    (life.compute numTokens ranges fellBack).log.head? = some c := by
  unfold Life.compute
  rw [List.head?_append, hc]
  rfl

theorem Life.first_of_nil (hnil : life.log = []) :
    (life.compute numTokens ranges fellBack).log.head? =
      some ⟨life.done, numTokens, ranges, fellBack⟩ := by
  unfold Life.compute
  rw [hnil]
  rfl

/-- After a chunk all rows from the first chunk on are the request's own. -/
theorem LifeInv.own_compute (h : LifeInv blocks remembered life) (c₀ : Chunk)
    (hc₀ : (life.compute numTokens ranges fellBack).log.head? = some c₀) (q : ℕ)
    (hlo : c₀.startPos ≤ q) (hhi : q < life.done + numTokens) :
    (life.compute numTokens ranges fellBack).wrote q ≠ none := by
  rw [Life.wrote_compute]
  split
  · exact nofun
  · next hold =>
    -- an old row, so there was a first chunk before this one
    cases hfirst : life.log.head? with
    | none =>
      rw [Life.first_of_nil (List.head?_eq_none_iff.mp hfirst)] at hc₀
      cases hc₀
      exact absurd ⟨hlo, hhi⟩ hold
    | some c =>
      rw [Life.first_compute hfirst] at hc₀
      cases hc₀
      exact h.own c₀ hfirst q hlo (by omega)

/-- A block that a chunk does not meet stays whole. -/
theorem LifeInv.whole_of_not_meets (h : LifeInv blocks remembered life) (hb : b ∈ blocks)
    (hnot : ¬ Meets life.done (life.done + numTokens) b) :
    (∃ i, ∀ q, b.1 ≤ q → q < b.2 → (life.compute numTokens ranges fellBack).wrote q ≠ none →
      (life.compute numTokens ranges fellBack).wrote q = some i ∧
        (life.compute numTokens ranges fellBack).Bidirectional b q) ∨
    ∀ q, b.1 ≤ q → q < b.2 → ¬ (life.compute numTokens ranges fellBack).Bidirectional b q := by
  have hold : ∀ q, b.1 ≤ q → q < b.2 →
      ¬ (life.done ≤ q ∧ q < life.done + numTokens) := by
    rintro q hlo hhi ⟨hq, hq'⟩
    have hmeets : Meets life.done (life.done + numTokens) b := ⟨by omega, by omega⟩
    exact hnot hmeets
  have hbelow : ∀ q, b.1 ≤ q → q < b.2 →
      (life.compute numTokens ranges fellBack).wrote q ≠ none → q < life.done := by
    intro q hlo hhi hw
    rcases Life.of_wrote_compute (fun q i hi => (h.wrote q i hi).1) hw with hnew | ⟨hq, -⟩
    · exact absurd hnew (hold q hlo hhi)
    · exact hq
  rcases h.law.whole b hb with ⟨i, hall⟩ | hnone
  · refine .inl ⟨i, fun q hlo hhi hw => ?_⟩
    have hq := hbelow q hlo hhi hw
    rw [Life.wrote_compute, if_neg (hold q hlo hhi)] at hw ⊢
    rw [Life.bidirectional_old (h.written q) hq]
    exact hall q hlo hhi hw
  · refine .inr fun q hlo hhi hbidi => ?_
    obtain ⟨i, c, hi, hrest⟩ := hbidi
    have hq := hbelow q hlo hhi (by rw [hi]; exact nofun)
    exact hnone q hlo hhi ((Life.bidirectional_old (h.written q) hq).mp ⟨i, c, hi, hrest⟩)

/-- Of a block that is half in the cache the rows below the chunk are not bidirectional. -/
theorem LifeInv.old_of_meets (h : LifeInv blocks remembered life) (hb : b ∈ blocks)
    (hmeets : Meets life.done (life.done + numTokens) b) (hlo : b.1 ≤ q) (hq : q < life.done) :
    ¬ life.Bidirectional b q :=
  h.half b hb (by omega) hmeets.1 q hlo hq

/-- **A chunk without ranges keeps the invariant**: the request has fallen back. -/
theorem LifeInv.computeCausal (h : LifeInv blocks remembered life) {state : MMBidiState}
    (hstate : state.ranges = blocks) :
    LifeInv blocks (some state) (life.compute numTokens none true) where
  ranges := fun s hs => by
    cases hs
    exact hstate
  wrote := h.wrote_compute
  own := h.own_compute
  half := fun b hb hlo (hhi : life.done + numTokens < b.2) q hq hq' hbidi => by
    by_cases hold : q < life.done
    · rw [Life.bidirectional_old (h.written q) hold] at hbidi
      exact h.half b hb (by omega) (by omega) q hq hold hbidi
    · rw [Life.bidirectional_new (Nat.le_of_not_lt hold) hq'] at hbidi
      cases hbidi
  eager := fun hnever => by
    have hlast := hnever ⟨life.done, numTokens, none, true⟩
      (List.mem_append_right _ (List.mem_singleton_self _))
    cases hlast
  law := {
    whole := fun b hb => by
      by_cases hmeets : Meets life.done (life.done + numTokens) b
      · refine .inr fun q hlo hhi hbidi => ?_
        by_cases hold : q < life.done
        · rw [Life.bidirectional_old (h.written q) hold] at hbidi
          exact h.old_of_meets hb hmeets hlo hold hbidi
        · obtain ⟨i, c, hi, hrest⟩ := hbidi
          have hq := (h.wrote_compute q i hi).1
          have hnew := (Life.bidirectional_new (Nat.le_of_not_lt hold) hq).mp ⟨i, c, hi, hrest⟩
          cases hnew
      · exact h.whole_of_not_meets hb hmeets
    inside := fun c hc b hb => by
      rcases List.mem_append.mp hc with hc | hc
      · obtain ⟨hend, hhead⟩ := h.law.inside c hc b hb
        refine ⟨hend, fun q hlo hhi => ?_⟩
        obtain ⟨c₀, hc₀, hq⟩ := hhead q hlo hhi
        exact ⟨c₀, Life.first_compute hc₀, hq⟩
      · cases List.mem_singleton.mp hc
        cases hb
    sticky := by
      refine List.pairwise_append.mpr ⟨h.law.sticky, List.pairwise_singleton _ _, ?_⟩
      intro c _ c' hc' _
      cases List.mem_singleton.mp hc'
      rfl }

/-- **A chunk that is given the blocks it meets keeps the invariant**, unless the request has
fallen back and it meets one. -/
theorem LifeInv.computeKept (h : LifeInv blocks remembered life) {state : MMBidiState}
    (hstate : state.ranges = blocks)
    (hmem : ∀ b, b ∈ ranges.getD [] ↔ b ∈ blocks ∧ Meets life.done (life.done + numTokens) b)
    (hfit : ∀ b ∈ blocks, Meets life.done (life.done + numTokens) b →
      b.2 ≤ life.done + numTokens)
    (hsticky : (∃ c ∈ life.log, c.fellBack = true) → ranges = none) :
    LifeInv blocks (some state) (life.compute numTokens ranges false) := by
  -- a block that is met and has a row below the chunk has none in use: such a row would be
  -- bidirectional, as all rows are until the request falls back
  have hfresh : ∀ b ∈ blocks, Meets life.done (life.done + numTokens) b → ∀ q, b.1 ≤ q →
      q < life.done → life.wrote q = none := by
    intro b hb hmeets q hlo hq
    by_contra hw
    refine h.old_of_meets hb hmeets hlo hq (h.eager ?_ b hb q hlo (by have := hmeets.1; omega) hw)
    intro c hc
    by_contra hfell
    have hnone := hsticky ⟨c, hc, by simpa using hfell⟩
    have hgiven := (hmem b).mpr ⟨hb, hmeets⟩
    rw [hnone] at hgiven
    cases hgiven
  refine ⟨fun s hs => ?_, h.wrote_compute, h.own_compute, fun b hb hlo hhi => ?_, fun hnever => ?_,
    ⟨fun b hb => ?_, fun c hc b hb => ?_, ?_⟩⟩
  · cases hs
    exact hstate
  · -- a block that the chunk cut would not fit
    have hhi : life.done + numTokens < b.2 := hhi
    have hlo : b.1 < life.done + numTokens := hlo
    have := hfit b hb ⟨by omega, hlo⟩
    omega
  · intro b hb q hlo hhi hw
    rcases Life.of_wrote_compute (fun q i hi => (h.wrote q i hi).1) hw with ⟨hq, hq'⟩ | ⟨hq, hw⟩
    · rw [Life.bidirectional_new hq hq', hmem b]
      exact ⟨hb, by omega, by omega⟩
    · rw [Life.bidirectional_old (h.written q) hq]
      exact h.eager (fun c hc => hnever c (List.mem_append_left _ hc)) b hb q hlo hhi hw
  · by_cases hmeets : Meets life.done (life.done + numTokens) b
    · refine .inl ⟨life.log.length, fun q hlo hhi hw => ?_⟩
      rcases Life.of_wrote_compute (fun q i hi => (h.wrote q i hi).1) hw with ⟨hq, hq'⟩ | ⟨hq, hw⟩
      · refine ⟨by rw [Life.wrote_compute, if_pos ⟨hq, hq'⟩], ?_⟩
        rw [Life.bidirectional_new hq hq', hmem b]
        exact ⟨hb, hmeets⟩
      · exact absurd (hfresh b hb hmeets q hlo hq) hw
    · exact h.whole_of_not_meets hb hmeets
  · rcases List.mem_append.mp hc with hc | hc
    · obtain ⟨hend, hhead⟩ := h.law.inside c hc b hb
      refine ⟨hend, fun q hlo hhi => ?_⟩
      obtain ⟨c₀, hc₀, hq⟩ := hhead q hlo hhi
      exact ⟨c₀, Life.first_compute hc₀, hq⟩
    · cases List.mem_singleton.mp hc
      obtain ⟨hb, hmeets⟩ := (hmem b).mp hb
      refine ⟨hfit b hb hmeets, fun q hlo hq => ?_⟩
      cases hfirst : life.log.head? with
      | none => exact ⟨_, Life.first_of_nil (List.head?_eq_none_iff.mp hfirst), hq⟩
      | some c₀ =>
        refine ⟨c₀, Life.first_compute hfirst, ?_⟩
        by_contra hge
        exact h.own c₀ hfirst q (Nat.le_of_not_lt hge) hq (hfresh b hb hmeets q hlo hq)
  · refine List.pairwise_append.mpr ⟨h.law.sticky, List.pairwise_singleton _ _, ?_⟩
    intro c hc c' hc' hfell
    cases List.mem_singleton.mp hc'
    exact hsticky ⟨c, hc, hfell⟩

end

/-- **A chunk keeps the invariant**, when it meets the condition. -/
theorem LifeInv.compute (h : LifeInv blocks remembered life) (numTokens : ℕ)
    (hok : ChunkOk blocks life remembered numTokens) :
    let decided := decideChunk (seedState remembered life.done blocks) life.done numTokens
    LifeInv blocks (some decided.2) (life.compute numTokens decided.1 decided.2.causalOnly) := by
  intro decided
  have hseed : (seedState remembered life.done blocks).ranges = blocks := by
    cases remembered with
    | none => rfl
    | some state => exact h.ranges state rfl
  obtain ⟨hranges, ⟨hnone, hcausal⟩ | ⟨hflag, hcausal, hmem, hfit, hne⟩⟩ :=
    decideChunk_cases (seedState remembered life.done blocks) life.done numTokens
  · have hstate : decided.2.ranges = blocks := hranges.trans hseed
    have hnone : decided.1 = none := hnone
    have hcausal : decided.2.causalOnly = true := hcausal
    rw [hnone, hcausal]
    exact h.computeCausal hstate
  · have hstate : decided.2.ranges = blocks := hranges.trans hseed
    have hcausal : decided.2.causalOnly = false := hcausal
    rw [hseed] at hmem hfit
    rw [hcausal]
    refine h.computeKept hstate hmem hfit fun hfell => ?_
    -- the flag is forgotten, so a chunk that met a block would cut one
    have hforgot : remembered.any (·.causalOnly) = false := by
      cases remembered with
      | none => rfl
      | some state => exact hflag
    cases hgiven : decided.1 with
    | none => rfl
    | some kept =>
      cases kept with
      | nil => exact absurd hgiven hne
      | cons b kept =>
        have hb : b ∈ decided.1.getD [] := by
          rw [hgiven]
          exact List.mem_cons_self
        obtain ⟨b', hb', hlo, hhi⟩ := hok hfell hforgot ⟨b, (hmem b).mp hb⟩
        have hcut := hfit b' hb' ⟨by omega, hlo⟩
        omega

end

/-! ### The invariant of the runner -/

/-- Every live request has its invariant, and only live requests are remembered. -/
def RunnerInv (extractEmbedsRange : PlaceholderRange → List (ℕ × ℕ)) (r : Runner) : Prop :=
  ∀ reqId, match r.lives.get? reqId with
    | none => r.mmBidiStates.get? reqId = none
    | some life => LifeInv (life.blocks extractEmbedsRange) (r.mmBidiStates.get? reqId) life

section

variable {extractEmbedsRange : PlaceholderRange → List (ℕ × ℕ)} {r r' : Runner}

theorem runnerInv_init : RunnerInv extractEmbedsRange .init := fun _ => rfl

theorem RunnerInv.life (h : RunnerInv extractEmbedsRange r) {reqId : ReqId} {life : Life}
    (hlife : r.lives.get? reqId = some life) :
    LifeInv (life.blocks extractEmbedsRange) (r.mmBidiStates.get? reqId) life := by
  have hreq := h reqId
  rw [hlife] at hreq
  exact hreq

theorem RunnerInv.forgotten (h : RunnerInv extractEmbedsRange r) {reqId : ReqId}
    (hlife : r.lives.get? reqId = none) : r.mmBidiStates.get? reqId = none := by
  have hreq := h reqId
  rw [hlife] at hreq
  exact hreq

theorem Life.resume_resume (life : Life) (boundary : ℕ) :
    (life.resume boundary).resume boundary = life.resume boundary := by
  unfold Life.resume
  congr 1
  funext q
  by_cases hq : q < boundary <;> simp [hq]

/-- Resumed requests go back to their boundaries, the others stay. -/
theorem get?_resumeLives (resumed : List ReqId) (boundary : ReqId → ℕ) (lives : Dict ReqId Life)
    (reqId : ReqId) :
    (resumeLives resumed boundary lives).get? reqId =
      if reqId ∈ resumed then (lives.get? reqId).map (·.resume (boundary reqId))
      else lives.get? reqId := by
  induction resumed generalizing lives with
  | nil => rfl
  | cons k resumed ih =>
    have hstep : resumeLives (k :: resumed) boundary lives =
        resumeLives resumed boundary (match lives.get? k with
          | none => lives
          | some life => lives.set k (life.resume (boundary k))) := rfl
    rw [hstep, ih]
    by_cases hk : reqId = k
    · subst hk
      rw [if_pos List.mem_cons_self]
      cases hget : lives.get? reqId with
      | none => simp [hget]
      | some life => simp [Life.resume_resume]
    · have hother : (match lives.get? k with
          | none => lives
          | some life => lives.set k (life.resume (boundary k))).get? reqId = lives.get? reqId := by
        cases lives.get? k with
        | none => rfl
        | some life => simp [hk]
      rw [hother]
      simp [hk]

/-- **Every step that meets the condition keeps the invariant.** -/
theorem RunnerInv.step (h : RunnerInv extractEmbedsRange r) {e : Event}
    (hstep : OkStep extractEmbedsRange r e r') : RunnerInv extractEmbedsRange r' := by
  obtain ⟨hok, hstep⟩ := hstep
  intro k
  -- one case for each event: only the requests it names change
  cases hstep with
  | @add reqId features boundary hnew =>
    dsimp only
    rw [Dict.get?_set]
    by_cases hk : k = reqId
    · subst hk
      rw [if_pos rfl, h.forgotten hnew]
      exact lifeInv_start features boundary
    · rw [if_neg hk]
      exact h k
  | @reconcile evicted resumed boundary hle =>
    dsimp only
    rw [get?_resumeLives, reconcileRequestLifecycle, Dict.get?_popAll, Dict.get?_popAll,
      Dict.get?_popAll]
    by_cases hevicted : k ∈ evicted
    · simp [hevicted]
    · rw [if_neg hevicted, if_neg hevicted]
      by_cases hresumed : k ∈ resumed
      · rw [if_pos hresumed, if_pos hresumed]
        cases hlife : r.lives.get? k with
        | none => rfl
        -- a resumed request keeps its life, from a boundary it has reached
        | some life =>
          exact (h.life hlife).resume (hle k hresumed life hlife)
            (hok k hresumed hevicted life hlife)
      · rw [if_neg hresumed, if_neg hresumed]
        exact h k
  | @readmission reqId boundary life hlife hle =>
    dsimp only
    rw [Dict.get?_set, readmitRequest, Dict.get?_pop]
    by_cases hk : k = reqId
    · subst hk
      rw [if_pos rfl, if_pos rfl]
      exact (h.life hlife).resume hle (hok life hlife)
    · rw [if_neg hk, if_neg hk]
      exact h k
  | @chunk reqId numTokens life ranges states hlife hdecide =>
    unfold bidiRangesForChunk at hdecide
    cases hdecide
    dsimp only
    rw [Dict.get?_set]
    by_cases hk : k = reqId
    · subst hk
      rw [if_pos rfl, Dict.get?_set, if_pos rfl]
      exact (h.life hlife).compute numTokens (hok life hlife)
    · rw [if_neg hk, Dict.get?_set, if_neg hk]
      exact h k

end

/-! ### Whole runs -/

/-- **The image blocks are whole in every run whose steps meet the condition**: in every state
reached, for every request, each block is bidirectional or causal as a whole, ranges lie inside
their chunks, and no chunk after a fallback is given a range. -/
theorem image_blocks_whole (extractEmbedsRange : PlaceholderRange → List (ℕ × ℕ)) (r : Runner)
    (events : List Event) (hrun : Run (OkStep extractEmbedsRange) .init events r) (reqId : ReqId)
    (life : Life) (hlife : r.lives.get? reqId = some life) :
    BlocksWhole (life.blocks extractEmbedsRange) life := by
  have hinv : RunnerInv extractEmbedsRange r :=
    hrun.invariant (fun _ _ _ h hstep => h.step hstep) runnerInv_init
  exact (hinv.life hlife).law

/-! ### One image -/

/-- Every position of a placeholder is a soft token. -/
def wholeRange (p : PlaceholderRange) : List (ℕ × ℕ) := [(p.offset, p.offset + p.length - 1)]

/-- An image whose block is `[4, 8)`. -/
def image : MultiModalFeatureSpec := ⟨0, ⟨4, 4, none, nofun⟩⟩

/-- A request with that image. -/
def arrived : Life := .start [image] 0

theorem featureRanges_image : featureRanges wholeRange (sortFeatures [image]) = [(4, 8)] := by
  unfold sortFeatures
  rw [List.mergeSort_singleton]
  rfl

/-- A request that goes back to the start of its image, and computes it again as a whole. -/
theorem image_blocks_whole_resumed :
    ∃ life, (∃ r events, Run (OkStep wholeRange) .init events r ∧ r.lives.get? 0 = some life) ∧
      life.wrote 4 = some 1 ∧ BlocksWhole (life.blocks wholeRange) life := by
  -- a whole chunk, then the image again from its start
  let whole : Life := arrived.compute 8 (some [(4, 8)]) false
  let again : Life := (whole.resume 4).compute 6 (some [(4, 8)]) false
  let r₁ : Runner := ⟨∅, (∅ : Dict ReqId Life).set 0 arrived⟩
  let r₂ : Runner := ⟨(∅ : Dict ReqId MMBidiState).set 0 ⟨[(4, 8)], 0, false⟩, r₁.lives.set 0 whole⟩
  let r₃ : Runner := ⟨readmitRequest r₂.mmBidiStates 0, r₂.lives.set 0 (whole.resume 4)⟩
  let r₄ : Runner := ⟨r₃.mmBidiStates.set 0 ⟨[(4, 8)], 4, false⟩, r₃.lives.set 0 again⟩
  have h₁ : OkStep wholeRange .init (.add 0 [image] 0) r₁ := ⟨trivial, .add rfl⟩
  have h₂ : OkStep wholeRange r₁ (.chunk 0 8) r₂ := by
    refine ⟨?_, @Step.chunk _ r₁ 0 8 arrived (some [(4, 8)]) _ rfl ?_⟩
    · intro life hlife
      cases hlife
      rintro ⟨c, hc, -⟩
      cases hc
    · rw [Life.blocks, show arrived.features = [image] from rfl, featureRanges_image]
      rfl
  have h₃ : OkStep wholeRange r₂ (Event.readmission 0 4) r₃ := by
    refine ⟨?_, @Step.readmission _ r₂ 0 4 whole rfl (by decide)⟩
    intro life hlife
    cases hlife
    rw [Life.blocks, show whole.features = [image] from rfl, featureRanges_image]
    intro b hb hlo
    cases List.mem_singleton.mp hb
    exact absurd hlo (by decide)
  have h₄ : OkStep wholeRange r₃ (.chunk 0 6) r₄ := by
    refine ⟨?_, @Step.chunk _ r₃ 0 6 (whole.resume 4) (some [(4, 8)]) _ rfl ?_⟩
    · intro life hlife
      cases hlife
      rintro ⟨c, hc, hfell⟩
      cases List.mem_singleton.mp hc
      cases hfell
    · rw [Life.blocks, show (whole.resume 4).features = [image] from rfl, featureRanges_image]
      rfl
  -- every step meets the condition
  have hrun : Run (OkStep wholeRange) .init _ r₄ :=
    .cons h₁ (.cons h₂ (.cons h₃ (.cons h₄ (.nil r₄))))
  exact ⟨again, ⟨r₄, _, hrun, rfl⟩, rfl, image_blocks_whole wholeRange r₄ _ hrun 0 again rfl⟩

/-- **A block half causal and half bidirectional**: the first chunk cuts the image and falls
back, the request is resumed at row 6, and the next chunk is given the range. -/
theorem resumed_block_mixed :
    ¬ ∀ (extractEmbedsRange : PlaceholderRange → List (ℕ × ℕ)) (r : Runner) (events : List Event),
      Run (Step extractEmbedsRange) .init events r →
      ∀ reqId life, r.lives.get? reqId = some life →
        BlocksWhole (life.blocks extractEmbedsRange) life := by
  intro hall
  let cut : Life := arrived.compute 6 none true
  let mixed : Life := (cut.resume 6).compute 4 (some [(4, 8)]) false
  let r₁ : Runner := ⟨∅, (∅ : Dict ReqId Life).set 0 arrived⟩
  let r₂ : Runner := ⟨(∅ : Dict ReqId MMBidiState).set 0 ⟨[(4, 8)], 0, true⟩, r₁.lives.set 0 cut⟩
  let r₃ : Runner := ⟨reconcileRequestLifecycle r₂.mmBidiStates [] [0],
    resumeLives [0] (fun _ => 6) (r₂.lives.popAll [])⟩
  let r₄ : Runner := ⟨r₃.mmBidiStates.set 0 ⟨[(4, 8)], 6, false⟩, r₃.lives.set 0 mixed⟩
  have h₁ : Step wholeRange .init (.add 0 [image] 0) r₁ := .add rfl
  have h₂ : Step wholeRange r₁ (.chunk 0 6) r₂ := by
    refine @Step.chunk _ r₁ 0 6 arrived none _ rfl ?_
    rw [Life.blocks, show arrived.features = [image] from rfl, featureRanges_image]
    rfl
  have h₃ : Step wholeRange r₂ (.reconcile [] [0] fun _ => 6) r₃ := by
    refine .reconcile fun reqId hreq life hlife => ?_
    cases List.mem_singleton.mp hreq
    cases hlife
    exact le_rfl
  have h₄ : Step wholeRange r₃ (.chunk 0 4) r₄ := by
    refine @Step.chunk _ r₃ 0 4 (cut.resume 6) (some [(4, 8)]) _ rfl ?_
    rw [Life.blocks, show (cut.resume 6).features = [image] from rfl, featureRanges_image]
    rfl
  have hrun : Run (Step wholeRange) .init _ r₄ :=
    .cons h₁ (.cons h₂ (.cons h₃ (.cons h₄ (.nil r₄))))
  have hlaw := hall wholeRange r₄ _ hrun 0 mixed rfl
  have hblock : ((4, 8) : ℕ × ℕ) ∈ mixed.blocks wholeRange := by
    rw [Life.blocks, show mixed.features = [image] from rfl, featureRanges_image]
    exact List.mem_singleton_self _
  have hcausal : mixed.wrote 4 = some 0 := rfl
  have hbidi : mixed.Bidirectional (4, 8) 6 := ⟨1, _, rfl, rfl, List.mem_singleton_self _⟩
  -- row 4 is causal and row 6 bidirectional
  rcases hlaw.whole (4, 8) hblock with ⟨i, hrows⟩ | hnone
  · obtain ⟨hfour, -⟩ := hrows 4 le_rfl (by decide) (by rw [hcausal]; exact nofun)
    obtain ⟨hsix, -⟩ := hrows 6 (by decide) (by decide) nofun
    rw [hcausal] at hfour
    cases hfour
    cases hsix
  · exact hnone 6 (by decide) (by decide) hbidi

end VllmMetal.Multimodal
