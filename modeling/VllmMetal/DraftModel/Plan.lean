import VllmMetal.DraftModel.Proposer

/-!
# What a plan says

`PlanSpec` is everything a plan of `collectDraftPlan` says, in terms of the row: which
tokens the request has committed, where the ingest starts and ends, and what the ledger
recorded for every position the ingest skips.

## Main definitions

* `Round.knownTokens` — the tokens the request has committed by this round.
* `PrefillRow.Consistent` — a prefill row shows a chunk of its prompt.
* `PlanSpec` — the content of a plan.

## Main results

* `collectDraftPlan_spec`, `collectDraftPlan_none` — inversion of the planning functions.
-/

namespace VllmMetal
namespace DraftModel

/-! ### The request's tokens -/

@[simp] theorem PrefillRow.extended_startPos (row : PrefillRow) (d : Bool) :
    (row.extended d).startPos = row.startPos := by
  unfold extended; split <;> rfl

@[simp] theorem PrefillRow.extended_blockIds (row : PrefillRow) (d : Bool) :
    (row.extended d).blockIds = row.blockIds := by
  unfold extended; split <;> rfl

@[simp] theorem PrefillRow.extended_fullPromptTokenIds (row : PrefillRow) (d : Bool) :
    (row.extended d).fullPromptTokenIds = row.fullPromptTokenIds := by
  unfold extended; split <;> rfl

/-- The tokens the request has committed by this round: all of them on a decode row, the
prompt through the chunk on a prefill row, and the sample where the round drafts from it. -/
def Round.knownTokens (cfg : ProposerConfig) (r : Round) : List Token :=
  match r.row with
  | .decode row => row.tokenIds
  | .prefill row =>
      (match row.fullPromptTokenIds with
        | some full => full.take row.startPos
        | none => []) ++ (row.extended (isDraftingReq cfg r)).tokenIds

/-- A prefill row shows a chunk of its prompt, with the prompt itself on every later chunk;
only a final chunk samples, and so only it can be drafted from. -/
structure PrefillRow.Consistent (row : PrefillRow) (eligible : Bool) : Prop where
  chunk : ∀ full, row.fullPromptTokenIds = some full →
    row.startPos ≤ full.length ∧ row.tokenIds <+: full.drop row.startPos
  first : row.fullPromptTokenIds = none → row.startPos = 0
  final : eligible = true → row.stateLen = row.startPos + row.tokenIds.length + 1 ∧
    ∀ full, row.fullPromptTokenIds = some full →
      full.length = row.startPos + row.tokenIds.length

/-- The content of a plan; `n` is the recorded or seeded boundary. -/
structure PlanSpec (cfg : ProposerConfig) (s : ProposerState) (r : Round) (n : ℕ)
    (plan : DraftPlan) : Prop where
  blockIds : plan.blockIds = r.blockIds
  le_start : n ≤ plan.draftSeqLen
  start_lt : plan.draftSeqLen < plan.committedLen
  le_known : plan.committedLen ≤ (r.knownTokens cfg).length
  tokens : plan.ingestTokens =
    ((r.knownTokens cfg).take plan.committedLen).drop plan.draftSeqLen
  mapped : Mapped cfg.blockSize r.blockIds
    (plan.committedLen + lookaheadRows r.numSpeculativeTokens plan.isDrafting)
  drafting : plan.isDrafting = true → plan.committedLen = (r.knownTokens cfg).length
  /-- Every skipped position is one the ledger vouches for, on a decode row. -/
  skipped : ∀ p, n ≤ p → p < plan.draftSeqLen → ∃ row w b t, r.row = .decode row ∧
    plan.committedLen = min row.tokenIds.length cfg.maxModelLen ∧
    s.specKvWrites = some w ∧ w.get? p = some (b, t) ∧
    row.blockIds[p / cfg.blockSize]? = some b ∧ row.tokenIds[p]? = some t

/-! ### The planning functions -/

theorem mapped_of_validateSchedulerBlocks {B : ℕ} (hB : 0 < B) {blockIds : List ℕ} {n : ℕ}
    {u : Unit} (h : validateSchedulerBlocks blockIds B n = .ok u) : Mapped B blockIds n := by
  unfold validateSchedulerBlocks at h
  simp only at h
  split at h
  · exact absurd h (by simp)
  · next hle => exact mapped_of_ceil_le hB (Nat.le_of_not_lt hle)

/-- The walk stays in its range, and the ledger vouches for every position it passes. -/
theorem validThroughFrom_spec (writes : Ledger) (tokenIds : List Token) (blockIds : List ℕ)
    (B : ℕ) : ∀ (k p : ℕ),
      p ≤ validThroughFrom writes tokenIds blockIds B k p ∧
      ∀ j, p ≤ j → j < validThroughFrom writes tokenIds blockIds B k p →
        ∃ b t, writes.get? j = some (b, t) ∧ blockIds[j / B]? = some b ∧
          tokenIds[j]? = some t := by
  intro k
  induction k with
  | zero => intro p; exact ⟨le_rfl, fun j h1 h2 => by simp only [validThroughFrom] at h2; omega⟩
  | succ k ih =>
    intro p
    unfold validThroughFrom
    cases hw : writes.get? p with
    | none => exact ⟨le_rfl, fun j h1 h2 => absurd h2 (Nat.not_lt.mpr h1)⟩
    | some entry =>
      obtain ⟨b, t⟩ := entry
      simp only
      split
      · next hmatch =>
        obtain ⟨hle, hall⟩ := ih (p + 1)
        refine ⟨by omega, fun j h1 h2 => ?_⟩
        rcases Nat.eq_or_lt_of_le h1 with heq | hlt
        · subst heq; exact ⟨b, t, hw, hmatch⟩
        · exact hall j hlt h2
      · exact ⟨le_rfl, fun j h1 h2 => by omega⟩

theorem makeDecodePlan_spec {cfg : ProposerConfig} {s s' : ProposerState} {r : Round}
    {row : DecodeRow} (hrow : r.row = .decode row) {plan : DraftPlan}
    (h : makeDecodePlan cfg s row r.numSpeculativeTokens (isDraftingReq cfg r) =
      .ok (s', some plan)) :
    s' = (s.seed r.boundary).2 ∧ PlanSpec cfg s r (s.seed r.boundary).1 plan := by
  have hknown : r.knownTokens cfg = row.tokenIds := by unfold Round.knownTokens; rw [hrow]
  have hblocks : r.blockIds = row.blockIds := by unfold Round.blockIds; rw [hrow]
  have hbound : r.boundary = row.numComputedTokens := by unfold Round.boundary; rw [hrow]
  unfold makeDecodePlan at h
  simp only at h
  rw [← hbound] at h
  split at h
  · exact absurd h (by simp)
  · next hlt =>
    cases hv : validateSchedulerBlocks row.blockIds cfg.blockSize
      (min row.tokenIds.length cfg.maxModelLen +
        lookaheadRows r.numSpeculativeTokens (isDraftingReq cfg r)) with
    | error e => rw [hv] at h; exact absurd h (by simp)
    | ok u =>
      rw [hv] at h
      simp only [Except.ok.injEq, Prod.mk.injEq, Option.some.injEq] at h
      obtain ⟨rfl, rfl⟩ := h
      refine ⟨rfl, ?_⟩
      -- the seed only moves the end of the valid cells, never the record of writes
      have hwrites : (s.seed r.boundary).2.specKvWrites = s.specKvWrites := rfl
      have hwalk : (s.seed r.boundary).1 ≤ speculativeKvValidThrough s.specKvWrites row.tokenIds
          row.blockIds cfg.blockSize (s.seed r.boundary).1
          (min row.tokenIds.length cfg.maxModelLen) := by
        unfold speculativeKvValidThrough
        cases s.specKvWrites with
        | none => exact le_rfl
        | some w => exact (validThroughFrom_spec w _ _ _ _ _).1
      constructor
      · exact hblocks.symm
      · simp only [hwrites]; omega
      · simp only; omega
      · simp only [hknown]; omega
      · simp only [hknown]
      · simp only [hblocks]; exact mapped_of_validateSchedulerBlocks cfg.blockSize_pos hv
      · -- a drafting request fits, so its tokens end below the limit
        intro hd
        simp only [hknown, isDraftingReq, hrow, Bool.and_eq_true, decide_eq_true_eq] at hd ⊢
        omega
      -- a position that is skipped has a matching write on record
      · intro p h1 h2
        simp only [hwrites] at h2
        cases hw : s.specKvWrites with
        | none => rw [hw] at h2; simp only [speculativeKvValidThrough] at h2; omega
        | some w =>
          rw [hw] at h2
          obtain ⟨b, t, hget, hb, ht⟩ := (validThroughFrom_spec w row.tokenIds row.blockIds
            cfg.blockSize _ _).2 p h1 (lt_of_lt_of_le h2 (min_le_left _ _))
          exact ⟨row, w, b, t, hrow, rfl, rfl, hget, hb, ht⟩

/-- The tail of a prefix, read from a later start. -/
theorem drop_take_of_le {α : Type*} (l : List α) {start n stop : ℕ} (h : start ≤ n) :
    (l.take stop).drop n = ((l.drop start).take (stop - start)).drop (n - start) := by
  rw [← List.drop_take, List.drop_drop, show start + (n - start) = n by omega]

/-- The committed tokens of a prefill row: those before the chunk, then the chunk. -/
theorem knownTokens_prefill (cfg : ProposerConfig) {r : Round} {row : PrefillRow}
    (hrow : r.row = .prefill row) (hcons : row.Consistent r.eligible) :
    (r.knownTokens cfg).drop row.startPos = (row.extended (isDraftingReq cfg r)).tokenIds ∧
    (r.knownTokens cfg).length =
      row.startPos + (row.extended (isDraftingReq cfg r)).tokenIds.length := by
  unfold Round.knownTokens
  rw [hrow]
  simp only
  cases hfull : row.fullPromptTokenIds with
  | none => simp [hcons.first hfull]
  | some full =>
    have hlen : (full.take row.startPos).length = row.startPos := by
      rw [List.length_take]; exact min_eq_left (hcons.chunk full hfull).1
    refine ⟨?_, by rw [List.length_append, hlen]⟩
    simp only
    rw [List.drop_append, hlen, Nat.sub_self, List.drop_zero, List.drop_of_length_le hlen.le]
    rfl

/-- The ingest of a prefill row is the missing range of the committed tokens. -/
theorem selectPrefillIngestTokens_spec {cfg : ProposerConfig} {r : Round} {row : PrefillRow}
    (hrow : r.row = .prefill row) (hcons : row.Consistent r.eligible) {n stop : ℕ}
    (hstop : stop ≤ (r.knownTokens cfg).length)
    (hdraft : isDraftingReq cfg r = true → stop = (r.knownTokens cfg).length)
    {ts : List Token}
    (h : selectPrefillIngestTokens (row.extended (isDraftingReq cfg r)) n stop = .ok ts) :
    ts = ((r.knownTokens cfg).take stop).drop n := by
  obtain ⟨hdrop, hlen⟩ := knownTokens_prefill cfg hrow hcons
  unfold selectPrefillIngestTokens at h
  simp only [PrefillRow.extended_startPos] at h
  split at h
  · exact absurd h (by simp)
  · next toks htoks =>
    split at h
    · exact absurd h (by simp)
    · simp only [Except.ok.injEq] at h
      subst h
      split at htoks
      · -- the range starts before the chunk: it comes from the full prompt
        next hlt =>
        rw [PrefillRow.extended_fullPromptTokenIds] at htoks
        cases hfull : row.fullPromptTokenIds with
        | none => rw [hfull] at htoks; exact absurd htoks (by simp)
        | some full =>
          rw [hfull] at htoks
          simp only [Except.ok.injEq] at htoks
          obtain ⟨hstart, hchunk⟩ := hcons.chunk full hfull
          have hchunkLen := hchunk.length_le
          rw [List.length_drop] at hchunkLen
          rw [← htoks]
          congr 1
          have hknown : r.knownTokens cfg =
              full.take row.startPos ++ (row.extended (isDraftingReq cfg r)).tokenIds := by
            unfold Round.knownTokens; rw [hrow]; simp only [hfull]
          cases hd : isDraftingReq cfg r with
          | false =>
            -- the chunk alone is committed, and lies inside the prompt
            simp only [hd, PrefillRow.extended, Bool.false_eq_true, if_false] at hknown hlen ⊢
            rw [if_neg (by omega), hknown]
            obtain ⟨rest, hrest⟩ := hchunk
            have hsplit : full = full.take row.startPos ++ (row.tokenIds ++ rest) := by
              rw [hrest, List.take_append_drop]
            conv_lhs => rw [hsplit]
            rw [← List.append_assoc, List.take_append_of_le_length]
            rw [← hknown]; exact hstop
          | true =>
            -- the chunk is final, and the sample follows the whole prompt
            have helig : r.eligible = true := by
              unfold isDraftingReq at hd
              simp only [Bool.and_eq_true] at hd
              exact hd.1.1
            have hend := (hcons.final helig).2 full hfull
            have hchunkEq : row.tokenIds = full.drop row.startPos :=
              hchunk.eq_of_length (by rw [List.length_drop]; omega)
            have hstopEq := hdraft hd
            simp only [hd, PrefillRow.extended, if_true] at hknown hlen ⊢
            rw [List.length_append, List.length_singleton] at hlen
            rw [if_pos (by omega), hknown, show full.length - row.startPos = row.tokenIds.length by
              omega, List.drop_append, Nat.sub_self, List.drop_zero, List.drop_length,
              List.nil_append, ← List.append_assoc]
            conv_rhs => rw [hchunkEq, List.take_append_drop]
      · next hge =>
        simp only [Except.ok.injEq] at htoks
        rw [← htoks, drop_take_of_le _ (Nat.le_of_not_lt hge), hdrop]

theorem makePrefillPlan_spec {cfg : ProposerConfig} {s s' : ProposerState} {r : Round}
    {row : PrefillRow} (hrow : r.row = .prefill row) (hcons : row.Consistent r.eligible)
    {plan : DraftPlan}
    (h : makePrefillPlan cfg s (row.extended (isDraftingReq cfg r)) r.numSpeculativeTokens
      (isDraftingReq cfg r) = .ok (s', some plan)) :
    s' = (s.seed r.boundary).2 ∧ PlanSpec cfg s r (s.seed r.boundary).1 plan := by
  obtain ⟨-, hlen⟩ := knownTokens_prefill cfg hrow hcons
  have hblocks : r.blockIds = (row.extended (isDraftingReq cfg r)).blockIds := by
    rw [PrefillRow.extended_blockIds]; unfold Round.blockIds; rw [hrow]
  have hbound : r.boundary = row.startPos := by unfold Round.boundary; rw [hrow]
  unfold makePrefillPlan at h
  simp only [PrefillRow.extended_startPos] at h
  rw [← hbound] at h
  split at h
  · exact absurd h (by simp)
  · split at h
    · exact absurd h (by simp)
    · next hlt =>
      -- drafting fits behind the computed suffix, so nothing is clipped
      have hfit : isDraftingReq cfg r = true →
          (row.extended (isDraftingReq cfg r)).tokenIds.length ≤ cfg.maxModelLen - r.boundary := by
        intro hd
        have hd' := hd
        simp only [isDraftingReq, hrow, Bool.and_eq_true, decide_eq_true_eq] at hd'
        have hfinal := (hcons.final hd'.1.1).1
        rw [hd, PrefillRow.extended, if_pos rfl]
        simp only [List.length_append, List.length_singleton]
        omega
      have hstop : r.boundary + ((row.extended (isDraftingReq cfg r)).tokenIds.take
          (cfg.maxModelLen - r.boundary)).length ≤ (r.knownTokens cfg).length := by
        rw [hlen, List.length_take, hbound]; omega
      have hdraft : isDraftingReq cfg r = true →
          r.boundary + ((row.extended (isDraftingReq cfg r)).tokenIds.take
            (cfg.maxModelLen - r.boundary)).length = (r.knownTokens cfg).length := by
        intro hd
        have := hfit hd
        rw [hlen, List.length_take, hbound]; omega
      split at h
      · exact absurd h (by simp)
      · next ts hts =>
        have htoks := selectPrefillIngestTokens_spec hrow hcons hstop hdraft hts
        split at h
        · exact absurd h (by simp)
        · next u hv =>
          simp only [Except.ok.injEq, Prod.mk.injEq, Option.some.injEq] at h
          obtain ⟨rfl, rfl⟩ := h
          refine ⟨rfl, ?_⟩
          constructor
          · exact hblocks.symm
          · exact le_rfl
          · exact Nat.lt_of_not_le hlt
          · exact hstop
          · exact htoks
          · rw [hblocks]; exact mapped_of_validateSchedulerBlocks cfg.blockSize_pos hv
          · intro hd
            simp only [Bool.and_eq_true] at hd
            exact hdraft hd.2
          · intro p h1 h2
            simp only at h2
            omega

/-- **Inversion of a plan.** -/
theorem collectDraftPlan_spec {cfg : ProposerConfig} {s s' : ProposerState} {r : Round}
    (hcons : ∀ row, r.row = .prefill row → row.Consistent r.eligible) {plan : DraftPlan}
    (h : collectDraftPlan cfg s r = .ok (s', some plan)) :
    s' = (s.seed r.boundary).2 ∧ PlanSpec cfg s r (s.seed r.boundary).1 plan := by
  unfold collectDraftPlan at h
  simp only at h
  cases hrow : r.row with
  | decode row => rw [hrow] at h; exact makeDecodePlan_spec hrow h
  | prefill row => rw [hrow] at h; exact makePrefillPlan_spec hrow (hcons row hrow) h

/-- Planning without a plan at most seeds the boundary. -/
theorem collectDraftPlan_none {cfg : ProposerConfig} {s s' : ProposerState} {r : Round}
    (h : collectDraftPlan cfg s r = .ok (s', none)) : s' = s ∨ s' = (s.seed r.boundary).2 := by
  unfold collectDraftPlan makeDecodePlan makePrefillPlan at h
  unfold Round.boundary
  cases hrow : r.row with
  | decode row =>
    rw [hrow] at h
    simp only at h
    split at h
    · simp only [Except.ok.injEq, Prod.mk.injEq, and_true] at h
      exact Or.inr h.symm
    · split at h <;> simp at h
  | prefill row =>
    rw [hrow] at h
    simp only [PrefillRow.extended_startPos] at h
    split at h
    · simp only [Except.ok.injEq, Prod.mk.injEq, and_true] at h
      exact Or.inl h.symm
    · split at h
      · simp only [Except.ok.injEq, Prod.mk.injEq, and_true] at h
        exact Or.inr h.symm
      · split at h
        · exact absurd h (by simp)
        · split at h <;> simp at h

end DraftModel
end VllmMetal
