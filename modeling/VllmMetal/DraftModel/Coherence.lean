import VllmMetal.DraftModel.Plan
import VllmMetal.DraftModel.Cells
import VllmMetal.Lib.Run

/-!
# Coherence of the draft cache

The draft cache is coherent when every committed position, read through the request's
current block table, holds the cell of the committed tokens.  Rounds keep it so as long as
the ledger of speculative writes is not consulted after a round has overwritten its
beginning: the walk compares each position with the ledger, but the cell it vouches for was
computed from the whole drafted prefix, and a round that ingests without drafting replaces
a rejected prefix while the ledger stays.

## Main definitions

* `System`, `Legal`, `after` — a request's run: rounds and releases in any order.
* `StaleSkip` — the ledger is consulted past an entry that was overwritten.
* `Coherent` — what a round that ingests must leave behind.

## Main results

* `Inv.step` — the invariant of the ledger and the written cells.
* `coherent_of_run` — **runs without a stale skip keep the cache coherent.**
* `staleRun_not_coherent` — a run in which the cache is not.
-/

namespace VllmMetal
namespace DraftModel

variable {Cell : Type*}

/-! ### Runs of one request -/

/-- The proposer's entries for the request, the cache, and what the last round saw of the
request: its committed tokens and its block table. -/
structure System (Cell : Type*) where
  state : ProposerState
  pool : KVPool Cell
  committed : List Token
  table : List ℕ

/-- A request the proposer knows nothing of. -/
def System.fresh (pool : KVPool Cell) : System Cell := ⟨ProposerState.fresh, pool, [], []⟩

/-- An event of the run: a round, or the `release_requests` of an eviction, preemption or
resume, after which other requests may have written to the blocks given back. -/
inductive Event (Cell : Type*) where
  | round (r : Round)
  | release (pool : KVPool Cell)

/-- The promises of the runner and the scheduler for a round: committed tokens are only
appended, a table maps no block twice, and the boundary a request is admitted at is one up
to which the prefix cache holds its cells. -/
structure Legal (net : DraftNet Cell) (cfg : ProposerConfig) (s : System Cell) (r : Round) :
    Prop where
  nodup : r.blockIds.Nodup
  commits : s.committed <+: r.knownTokens cfg
  boundary : s.state.draftSeqLen = none →
    Holds net cfg.blockSize r.blockIds s.pool (r.knownTokens cfg) r.boundary
  prefill : ∀ row, r.row = .prefill row → row.Consistent r.eligible

/-- The state after a round. -/
def after (cfg : ProposerConfig) (r : Round) (out : RoundResult Cell) : System Cell :=
  ⟨out.state, out.pool, r.knownTokens cfg, r.blockIds⟩

/-- The walk would leave its start, at the recorded boundary, although an earlier entry of
the ledger records a token that is not the committed one. -/
def StaleSkip (cfg : ProposerConfig) (s : System Cell) (r : Round) : Prop :=
  ∃ row n w b t, r.row = .decode row ∧ s.state.draftSeqLen = some n ∧
    s.state.specKvWrites = some w ∧ n + 1 < min row.tokenIds.length cfg.maxModelLen ∧
    w.get? n = some (b, t) ∧ row.blockIds[n / cfg.blockSize]? = some b ∧
    row.tokenIds[n]? = some t ∧
    ∃ p, p < n ∧ ∃ b' t', w.get? p = some (b', t') ∧ row.tokenIds[p]? ≠ some t'

/-- The condition under which a round is sound: the table still maps the positions below the
recorded boundary to the blocks they were written in, and the walk does not skip behind an
overwritten entry. -/
structure Sound (cfg : ProposerConfig) (s : System Cell) (r : Round) : Prop where
  table : ∀ n, s.state.draftSeqLen = some n →
    ∀ i, i * cfg.blockSize < n → r.blockIds[i]? = s.table[i]?
  ledger : ¬ StaleSkip cfg s r

/-- The steps of a request. -/
inductive Step (net : DraftNet Cell) (cfg : ProposerConfig) :
    System Cell → Event Cell → System Cell → Prop
  | round {s : System Cell} {r : Round} {out : RoundResult Cell} : Legal net cfg s r →
      propose net cfg s.state s.pool r = .ok out → Step net cfg s (.round r) (after cfg r out)
  | release (s : System Cell) (pool : KVPool Cell) :
      Step net cfg s (.release pool) ⟨releaseRequests s.state, pool, [], []⟩

/-- The steps of a request all of whose rounds are sound. -/
def SoundStep (net : DraftNet Cell) (cfg : ProposerConfig) (s : System Cell) (e : Event Cell)
    (s' : System Cell) : Prop :=
  Step net cfg s e s' ∧ ∀ r, e = .round r → Sound cfg s r

/-- What a round that got past the ingest must leave behind: every committed position holds
its cell, and so did, before the round, every position that the ingest skipped. -/
def Coherent (net : DraftNet Cell) (cfg : ProposerConfig) (s : System Cell) (r : Round)
    (out : RoundResult Cell) : Prop :=
  ∀ plan, out.plan = some plan →
    Holds net cfg.blockSize r.blockIds out.pool (r.knownTokens cfg) plan.committedLen ∧
    Holds net cfg.blockSize r.blockIds s.pool (r.knownTokens cfg) plan.draftSeqLen

/-! ### The invariant -/

/-- The ledger was written behind the tokens `base` with the tokens `drafts`, and what it
wrote at `n` and above is still there, in every block that no written position now uses. -/
structure LedgerOk (net : DraftNet Cell) (B : ℕ) (s : System Cell) (w : Ledger) (n : ℕ)
    (base drafts : List Token) : Prop where
  base_committed : base <+: s.committed
  base_le : base.length ≤ n
  range : ∀ p, (w.get? p).isSome ↔ base.length ≤ p ∧ p < base.length + drafts.length
  token : ∀ p b t, w.get? p = some (b, t) → (base ++ drafts)[p]? = some t
  cell : ∀ p b t, w.get? p = some (b, t) → n ≤ p →
    (∀ i, i * B < n → s.table[i]? = some b → i = p / B) →
    some (s.pool b (p % B)) = (cellsOf net.kv (base ++ drafts))[p]?

/-- The invariant of a run. -/
structure Inv (net : DraftNet Cell) (B : ℕ) (s : System Cell) : Prop where
  holds : ∀ n, s.state.draftSeqLen = some n → Holds net B s.table s.pool s.committed n
  ledger : ∀ w, s.state.specKvWrites = some w → ∃ n base drafts,
    s.state.draftSeqLen = some n ∧ LedgerOk net B s w n base drafts

theorem inv_fresh (net : DraftNet Cell) (B : ℕ) (pool : KVPool Cell) :
    Inv net B (System.fresh pool) :=
  ⟨fun n h => absurd h (by simp [System.fresh, ProposerState.fresh]),
    fun w h => absurd h (by simp [System.fresh, ProposerState.fresh])⟩

section Round

variable {net : DraftNet Cell} {cfg : ProposerConfig} {s : System Cell} {r : Round}

/-- The seeded boundary is one up to which the cells are right. -/
theorem Inv.holds_seed (hinv : Inv net cfg.blockSize s) (hlegal : Legal net cfg s r)
    (hsound : Sound cfg s r) : Holds net cfg.blockSize r.blockIds s.pool (r.knownTokens cfg)
      (s.state.seed r.boundary).1 := by
  cases hn : s.state.draftSeqLen with
  | none =>
    simp only [ProposerState.seed, hn, Option.getD_none]
    exact hlegal.boundary hn
  | some n =>
    simp only [ProposerState.seed, hn, Option.getD_some]
    exact ((hinv.holds n hn).extend hlegal.commits).congr_table cfg.blockSize_pos
      (hsound.table n hn)

/-- The ledger of a round that leaves it alone, seen through the new table and tokens. -/
theorem LedgerOk.retable {w : Ledger} {n : ℕ} {base drafts : List Token} {state : ProposerState}
    (h : LedgerOk net cfg.blockSize s w n base drafts) (hlegal : Legal net cfg s r)
    (htable : ∀ i, i * cfg.blockSize < n → r.blockIds[i]? = s.table[i]?) :
    LedgerOk net cfg.blockSize ⟨state, s.pool, r.knownTokens cfg, r.blockIds⟩ w n base drafts where
  base_committed := h.base_committed.trans hlegal.commits
  base_le := h.base_le
  range := h.range
  token := h.token
  cell := fun p b t hp hn hfree => h.cell p b t hp hn fun i hi hb =>
    hfree i hi (by rw [← hb]; exact htable i hi)

/-- A round that runs no forward keeps the invariant. -/
theorem Inv.seed (hinv : Inv net cfg.blockSize s) (hlegal : Legal net cfg s r)
    (hsound : Sound cfg s r) {state : ProposerState}
    (hstate : state = s.state ∨ state = (s.state.seed r.boundary).2) :
    Inv net cfg.blockSize ⟨state, s.pool, r.knownTokens cfg, r.blockIds⟩ := by
  have hwrites : state.specKvWrites = s.state.specKvWrites := by
    rcases hstate with rfl | rfl <;> rfl
  have hlen : ∀ n, state.draftSeqLen = some n → n = (s.state.seed r.boundary).1 := by
    intro n hn
    rcases hstate with rfl | rfl
    · simp [ProposerState.seed, hn]
    · simpa [ProposerState.seed] using hn.symm
  constructor
  · intro n hn
    rw [hlen n hn]
    exact hinv.holds_seed hlegal hsound
  · intro w hw
    rw [hwrites] at hw
    obtain ⟨n, base, drafts, hn, hok⟩ := hinv.ledger w hw
    refine ⟨n, base, drafts, ?_, hok.retable hlegal (hsound.table n hn)⟩
    rcases hstate with rfl | rfl
    · exact hn
    · simp [ProposerState.seed, hn]

/-- **Every position the ingest skips already holds its cell.** -/
theorem Inv.holds_start (hinv : Inv net cfg.blockSize s) (hlegal : Legal net cfg s r)
    (hsound : Sound cfg s r) {plan : DraftPlan}
    (hplan : PlanSpec cfg s.state r (s.state.seed r.boundary).1 plan) :
    Holds net cfg.blockSize r.blockIds s.pool (r.knownTokens cfg) plan.draftSeqLen := by
  set n := (s.state.seed r.boundary).1 with hnDef
  have hseed := hinv.holds_seed hlegal hsound
  rw [← hnDef] at hseed
  have hle := hplan.start_lt.le.trans hplan.le_known
  refine ⟨hle, hplan.mapped.mono (by have := hplan.start_lt; omega), fun p hp => ?_⟩
  rcases Nat.lt_or_ge p n with hlt | hge
  · exact hseed.cell p hlt
  · -- a skipped position: the ledger wrote it, behind tokens that are all committed
    obtain ⟨row, w, b, t, hrow, hlen, hw, hget, hblock, htok⟩ := hplan.skipped p hge hp
    obtain ⟨n', base, drafts, hn', hok⟩ := hinv.ledger w hw
    have hnn : n = n' := by rw [hnDef]; simp [ProposerState.seed, hn']
    subst hnn
    have hknown : r.knownTokens cfg = row.tokenIds := by unfold Round.knownTokens; rw [hrow]
    have hblocks : r.blockIds = row.blockIds := by unfold Round.blockIds; rw [hrow]
    -- the walk left its start, so no earlier entry was overwritten
    have hstartEntry : ∃ b₀ t₀, w.get? n = some (b₀, t₀) ∧
        row.blockIds[n / cfg.blockSize]? = some b₀ ∧ row.tokenIds[n]? = some t₀ := by
      obtain ⟨row₀, w₀, b₀, t₀, hrow₀, -, hw₀, h₀⟩ := hplan.skipped n le_rfl (by omega)
      obtain rfl : row = row₀ := by rw [hrow] at hrow₀; exact ActiveRow.decode.inj hrow₀
      obtain rfl : w = w₀ := by rw [hw] at hw₀; exact Option.some.inj hw₀
      exact ⟨b₀, t₀, h₀⟩
    obtain ⟨b₀, t₀, hget₀, hb₀, ht₀⟩ := hstartEntry
    have hbefore : ∀ q b' t', q < n → w.get? q = some (b', t') → row.tokenIds[q]? = some t' := by
      intro q b' t' hq hq'
      by_contra hne
      exact hsound.ledger ⟨row, n, w, b₀, t₀, hrow, hn', hw, by have := hplan.start_lt; omega,
        hget₀, hb₀, ht₀, q, hq, b', t', hq', hne⟩
    -- hence the drafted prefix is the committed one
    have hsame : (base ++ drafts).take (p + 1) = row.tokenIds.take (p + 1) := by
      apply List.ext_getElem?
      intro q
      rw [List.getElem?_take, List.getElem?_take]
      split
      · next hq =>
        rcases Nat.lt_or_ge q base.length with hqb | hqb
        · have hpre := hok.base_committed.trans hlegal.commits
          rw [hknown] at hpre
          rw [List.getElem?_append_left hqb, List.getElem?_eq_getElem hqb,
            List.prefix_iff_getElem?.mp hpre q hqb]
        · have hrange := (hok.range p).mp (by simp [hget])
          obtain ⟨⟨b', t'⟩, hq'⟩ := Option.isSome_iff_exists.mp ((hok.range q).mpr ⟨hqb, by omega⟩)
          rw [hok.token q b' t' hq']
          rcases Nat.lt_or_ge q n with hqn | hqn
          · exact (hbefore q b' t' hqn hq').symm
          · obtain ⟨row₁, w₁, b₁, t₁, hrow₁, -, hw₁, hget₁, -, htok₁⟩ :=
              hplan.skipped q hqn (by omega)
            obtain rfl : row = row₁ := by rw [hrow] at hrow₁; exact ActiveRow.decode.inj hrow₁
            obtain rfl : w = w₁ := by rw [hw] at hw₁; exact Option.some.inj hw₁
            rw [hq'] at hget₁
            simp only [Option.some.injEq, Prod.mk.injEq] at hget₁
            rw [htok₁, hget₁.2]
      · rfl
    -- and the block is still the one it was written in
    have hmapped : p / cfg.blockSize < r.blockIds.length := by
      rw [hblocks]; exact (List.getElem?_eq_some_iff.mp hblock).1
    have hfree : ∀ i, i * cfg.blockSize < n → s.table[i]? = some b → i = p / cfg.blockSize := by
      intro i hi hb
      rw [← hsound.table n hn' i hi, hblocks] at hb
      obtain ⟨hi₁, hi₂⟩ := List.getElem?_eq_some_iff.mp hb
      obtain ⟨hp₁, hp₂⟩ := List.getElem?_eq_some_iff.mp hblock
      have hnd := hlegal.nodup
      rw [hblocks] at hnd
      exact (List.Nodup.getElem_inj_iff hnd).mp (hi₂.trans hp₂.symm)
    have hpage : pageOf cfg.blockSize r.blockIds p = b := by
      rw [pageOf_eq_iff hmapped, hblocks]; exact hblock
    rw [pagedGet, hpage, hok.cell p b t hget hge hfree, hknown]
    exact getElem?_cellsOf_of_take_eq net.kv hsame

/-- The cells are right up to the committed end once the ingest has run. -/
theorem holds_ingest (hnd : r.blockIds.Nodup) {pool : KVPool Cell} {plan : DraftPlan} {n : ℕ}
    (hplan : PlanSpec cfg s.state r n plan)
    (hstart : Holds net cfg.blockSize r.blockIds pool (r.knownTokens cfg) plan.draftSeqLen) :
    Holds net cfg.blockSize r.blockIds
      (ingestAndDraftFirst net cfg r.otherIngest plan pool).1 (r.knownTokens cfg)
      plan.committedLen := by
  have hlt := hplan.start_lt
  have hlen : plan.ingestTokens.length = plan.committedLen - plan.draftSeqLen := by
    have := hplan.le_known
    rw [hplan.tokens, List.length_drop, List.length_take]; omega
  rw [ingestAndDraftFirst_eq, hplan.blockIds]
  have h := holds_forwardRows hnd plan.ingestTokens pool 0 plan.draftSeqLen hstart
    (hplan.mapped.mono (by omega)) (by
      rw [hplan.tokens, List.drop_take]
      exact List.take_prefix _ _)
  rwa [hlen, show plan.draftSeqLen + (plan.committedLen - plan.draftSeqLen) =
    plan.committedLen by omega] at h

/-- The ledger of a round that ingests without drafting: what it wrote at the new end and
above is not touched by the ingest. -/
theorem LedgerOk.ingest {w : Ledger} {n : ℕ} {base drafts : List Token} {state : ProposerState}
    {plan : DraftPlan} (h : LedgerOk net cfg.blockSize s w n base drafts)
    (hlegal : Legal net cfg s r) (hplan : PlanSpec cfg s.state r n plan)
    (htable : ∀ i, i * cfg.blockSize < n → r.blockIds[i]? = s.table[i]?) :
    LedgerOk net cfg.blockSize
      ⟨state, (ingestAndDraftFirst net cfg r.otherIngest plan s.pool).1, r.knownTokens cfg,
        r.blockIds⟩ w plan.committedLen base drafts := by
  have hlt := hplan.start_lt
  have hle := hplan.le_start
  have hlen : plan.ingestTokens.length = plan.committedLen - plan.draftSeqLen := by
    have := hplan.le_known
    rw [hplan.tokens, List.length_drop, List.length_take]; omega
  refine ⟨h.base_committed.trans hlegal.commits, h.base_le.trans (by omega), h.range, h.token, ?_⟩
  intro p b t hget hp hfree
  have hframe : (ingestAndDraftFirst net cfg r.otherIngest plan s.pool).1 b (p % cfg.blockSize)
      = s.pool b (p % cfg.blockSize) := by
    rw [ingestAndDraftFirst_eq, hplan.blockIds]
    apply forwardRows_frame
    rintro q hq₁ hq₂ ⟨hblock, hoff⟩
    -- a row of the ingest in this block sits at the ledger position's own index
    have hqmap : q / cfg.blockSize < r.blockIds.length := hplan.mapped.div_lt (by omega)
    have hindex := hfree (q / cfg.blockSize)
      ((Nat.div_mul_le_self q _).trans_lt (by omega)) ((pageOf_eq_iff hqmap).mp hblock.symm)
    have : q = p := by
      rw [← Nat.div_add_mod q cfg.blockSize, ← Nat.div_add_mod p cfg.blockSize, hindex, hoff]
    omega
  simp only [hframe]
  exact h.cell p b t hget (by omega) fun i hi hb =>
    hfree i (by omega) (by rw [← hb]; exact htable i hi)

/-! ### The ledger of a drafting round -/

/-- The ledger records the positions of the fed drafts, and no other. -/
theorem get?_recordWrites (B : ℕ) (plan : DraftPlan) (row : List Token) (k p : ℕ) :
    (recordWrites B plan (k + 1) row).get? p =
      if plan.committedLen ≤ p ∧ p < plan.committedLen + k then
        some (plan.blockIds.getD (p / B) 0, row.getD (p - plan.committedLen) 0) else none := by
  unfold recordWrites
  rw [Nat.add_sub_cancel]
  induction k with
  | zero =>
    rw [if_neg (by omega)]
    simp
  | succ k ih =>
    rw [List.range_succ, List.foldl_append, List.foldl_cons, List.foldl_nil, Dict.get?_set, ih]
    by_cases hp : p = plan.committedLen + k
    · subst hp
      rw [if_pos rfl, if_pos (by omega), Nat.add_sub_cancel_left]
    · rw [if_neg hp]
      by_cases hr : plan.committedLen ≤ p ∧ p < plan.committedLen + k
      · rw [if_pos hr, if_pos (by omega)]
      · rw [if_neg hr, if_neg (by omega)]

/-- The cells of a longer sequence are those of its prefix, as far as that reaches. -/
theorem Holds.restrict {B : ℕ} {table : List ℕ} {pool : KVPool Cell} {toks toks' : List Token}
    {n : ℕ} (h : Holds net B table pool toks' n) (hpre : toks <+: toks') (hn : n ≤ toks.length) :
    Holds net B table pool toks n := by
  refine ⟨hn, h.mapped, fun p hp => ?_⟩
  have hlt : p < (cellsOf net.kv toks).length := by rw [length_cellsOf]; omega
  rw [h.cell p hp, List.prefix_iff_getElem?.mp (cellsOf_mono net.kv hpre) p hlt,
    List.getElem?_eq_getElem hlt]

/-- The ledger after a drafting round records what its lookahead steps wrote. -/
theorem ledgerOk_recordWrites {plan : DraftPlan} {n k : ℕ} {pool : KVPool Cell}
    {row : List Token} {state : ProposerState} (hplan : PlanSpec cfg s.state r n plan)
    (hend : plan.committedLen = (r.knownTokens cfg).length) (hrow : row.length = k + 1)
    (hholds : Holds net cfg.blockSize r.blockIds pool (r.knownTokens cfg ++ row.take k)
      ((r.knownTokens cfg).length + k)) :
    LedgerOk net cfg.blockSize ⟨state, pool, r.knownTokens cfg, r.blockIds⟩
      (recordWrites cfg.blockSize plan (k + 1) row) plan.committedLen (r.knownTokens cfg)
      (row.take k) := by
  have hlen : (row.take k).length = k := by rw [List.length_take]; omega
  refine ⟨List.prefix_rfl, hend.ge, fun p => ?_, fun p b t hget => ?_, fun p b t hget _ _ => ?_⟩
  · rw [get?_recordWrites, hlen, ← hend]
    split <;> simp_all
  · rw [get?_recordWrites] at hget
    split at hget
    · next hr =>
      simp only [Option.some.injEq, Prod.mk.injEq] at hget
      rw [List.getElem?_append_right (by omega), List.getElem?_take, if_pos (by omega), ← hget.2,
        ← hend, List.getD_eq_getElem _ _ (by omega)]
      exact List.getElem?_eq_getElem _
    · exact absurd hget (by simp)
  · rw [get?_recordWrites] at hget
    split at hget
    · next hr =>
      simp only [Option.some.injEq, Prod.mk.injEq] at hget
      rw [← hholds.cell p (by omega), pagedGet, pageOf, ← hget.1, hplan.blockIds]
    · exact absurd hget (by simp)

/-! ### The step -/

/-- **A sound round keeps the invariant, and leaves a coherent cache.** -/
theorem Inv.round (hinv : Inv net cfg.blockSize s) (hlegal : Legal net cfg s r)
    (hsound : Sound cfg s r) {out : RoundResult Cell}
    (h : propose net cfg s.state s.pool r = .ok out) :
    Inv net cfg.blockSize (after cfg r out) ∧ Coherent net cfg s r out := by
  unfold propose at h
  split at h
  · -- deferred: the boundary is seeded, nothing runs
    simp only [Except.ok.injEq] at h
    subst h
    exact ⟨hinv.seed hlegal hsound (Or.inr rfl), fun plan hp => absurd hp (by simp)⟩
  · split at h
    · exact absurd h (by simp)
    · next state hnone =>
      simp only [Except.ok.injEq] at h
      subst h
      exact ⟨hinv.seed hlegal hsound (collectDraftPlan_none hnone),
        fun plan hp => absurd hp (by simp)⟩
    · next state plan hsome =>
      obtain ⟨rfl, hplan⟩ := collectDraftPlan_spec hlegal.prefill hsome
      have hstart := hinv.holds_start hlegal hsound hplan
      have hholds := holds_ingest hlegal.nodup hplan hstart
      set n := (s.state.seed r.boundary).1 with hnDef
      -- a round that does not draft keeps the ledger it found
      have hquiet : Inv net cfg.blockSize
          ⟨{ (s.state.seed r.boundary).2 with draftSeqLen := some plan.committedLen },
            (ingestAndDraftFirst net cfg r.otherIngest plan s.pool).1, r.knownTokens cfg,
            r.blockIds⟩ := by
        constructor
        · intro m hm
          simp only [Option.some.injEq] at hm
          subst hm
          exact hholds
        · intro w hw
          obtain ⟨n', base, drafts, hn', hok⟩ := hinv.ledger w hw
          have hnn : n = n' := by rw [hnDef]; simp [ProposerState.seed, hn']
          subst hnn
          exact ⟨plan.committedLen, base, drafts, rfl,
            hok.ingest hlegal hplan (hsound.table n hn')⟩
      simp only at h
      split at h
      · simp only [Except.ok.injEq] at h
        subst h
        refine ⟨hquiet, fun plan' hp => ?_⟩
        simp only [Option.some.injEq] at hp
        subst hp
        exact ⟨hholds, hstart⟩
      · next hK =>
        split at h
        · simp only [Except.ok.injEq] at h
          subst h
          refine ⟨hquiet, fun plan' hp => ?_⟩
          simp only [Option.some.injEq] at hp
          subst hp
          exact ⟨hholds, hstart⟩
        · next hdraft =>
          -- a drafting round replaces the ledger by what its lookahead steps write
          have hdrafting : plan.isDrafting = true := by simpa using hdraft
          have hend := hplan.drafting hdrafting
          obtain ⟨k, hk⟩ : ∃ k, r.numSpeculativeTokens = k + 1 :=
            ⟨r.numSpeculativeTokens - 1, by omega⟩
          simp only [Except.ok.injEq] at h
          have hmapped := hplan.mapped
          rw [lookaheadRows, if_pos hdrafting, hend] at hmapped
          rw [hend] at hholds
          have hsteps := holds_draftSteps hlegal.nodup (r.numSpeculativeTokens - 1) _
            (r.knownTokens cfg) (ingestAndDraftFirst net cfg r.otherIngest plan s.pool).2 hholds
            hmapped
          have hlen := length_draftSteps net cfg.blockSize r.blockIds
            (r.numSpeculativeTokens - 1) (ingestAndDraftFirst net cfg r.otherIngest plan s.pool).1
            (r.knownTokens cfg).length (ingestAndDraftFirst net cfg r.otherIngest plan s.pool).2
          set ingested := ingestAndDraftFirst net cfg r.otherIngest plan s.pool with hingested
          rw [hend, hplan.blockIds] at h
          have hknown := (hsteps.mono (Nat.le_add_right _ _)).restrict (List.prefix_append _ _)
            le_rfl
          subst h
          refine ⟨⟨fun m hm => ?_, fun w hw => ?_⟩, fun plan' hp => ?_⟩
          · simp only [after, Option.some.injEq] at hm
            subst hm
            exact hknown
          · simp only [after, Option.some.injEq] at hw
            subst hw
            rw [hk, Nat.add_sub_cancel] at hsteps hlen
            refine ⟨plan.committedLen, r.knownTokens cfg,
              (ingested.2 :: (draftSteps net cfg.blockSize r.blockIds k ingested.1
                (r.knownTokens cfg).length ingested.2).2).take k, by simp only [after, hend], ?_⟩
            simp only [hk, Nat.add_sub_cancel]
            exact ledgerOk_recordWrites hplan hend (by simp [hlen]) hsteps
          · simp only [Option.some.injEq] at hp
            subst hp
            rw [hend]
            exact ⟨hknown, hstart⟩

end Round

/-- A sound step keeps the invariant. -/
theorem Inv.step {net : DraftNet Cell} {cfg : ProposerConfig} {s s' : System Cell}
    {e : Event Cell} (hinv : Inv net cfg.blockSize s) (h : SoundStep net cfg s e s') :
    Inv net cfg.blockSize s' := by
  obtain ⟨hstep, hsound⟩ := h
  cases hstep with
  | round hlegal hprop => exact (hinv.round hlegal (hsound _ rfl) hprop).1
  | release pool => exact inv_fresh net cfg.blockSize pool

/-! ### Runs -/

/-- **In a run whose rounds are all sound, every round that gets past the ingest leaves a
coherent cache, and skips only positions that already hold their cells.** -/
theorem coherent_of_run {net : DraftNet Cell} {cfg : ProposerConfig} {pool : KVPool Cell}
    {evs : List (Event Cell)} {s : System Cell} {r : Round} {out : RoundResult Cell}
    (hrun : Run (SoundStep net cfg) (System.fresh pool) evs s) (hlegal : Legal net cfg s r)
    (hsound : Sound cfg s r) (h : propose net cfg s.state s.pool r = .ok out) :
    Coherent net cfg s r out := by
  have hinv : Inv net cfg.blockSize s :=
    hrun.invariant (fun _ _ _ hi hs => hi.step hs) (inv_fresh net cfg.blockSize pool)
  exact (hinv.round hlegal hsound h).2

/-! ### A run with a stale skip -/

section StaleRun

/-- The network whose cells list the tokens they were computed from; it always drafts `7`. -/
def traceNet : DraftNet (List Token) := ⟨fun t reads => reads.getLastD [] ++ [t], fun _ _ => 7⟩

private def staleConfig : ProposerConfig :=
  { blockSize := 4, blockSize_pos := by decide, maxModelLen := 6, ingestChunk := 0,
    allowDeferredZeroKIngest := true }

/-- The first round drafts three tokens behind the prompt and its first output. -/
private def draftingRound : Round :=
  { numSpeculativeTokens := 3, eligible := true, otherIngest := 0,
    row := .prefill ⟨[5], 0, some [5], [0, 1], false, 6, 2⟩ }

/-- The decode rows that follow. -/
private def decodeRound (k : ℕ) (tokenIds : List Token) : Round :=
  { numSpeculativeTokens := k, eligible := true, otherIngest := 0,
    row := .decode ⟨tokenIds, [0, 1], tokenIds.length - 1⟩ }

/-- What a round leaves, as a system. -/
private def playRound (s : System (List Token)) (r : Round) : System (List Token) :=
  match propose traceNet staleConfig s.state s.pool r with
  | .ok out => after staleConfig r out
  | .error _ => s

private def emptySystem : System (List Token) := System.fresh fun _ _ => []

/-- After the drafts `7, 7, 7` for positions 2 to 4. -/
private def drafted : System (List Token) := playRound emptySystem draftingRound

/-- The target rejected them for `8`, and five more drafts do not fit: an ingest only. -/
private def ingested : System (List Token) := playRound drafted (decodeRound 5 [5, 6, 8])

/-- The next token is `7`; the round is deferred. -/
private def deferred : System (List Token) := playRound ingested (decodeRound 0 [5, 6, 8, 7])

private theorem legal_drafting : Legal traceNet staleConfig emptySystem draftingRound where
  nodup := by decide
  commits := by decide
  boundary := fun _ => ⟨Nat.zero_le _, Nat.zero_le _, fun p hp => absurd hp (Nat.not_lt_zero p)⟩
  prefill := by
    rintro row hrow
    simp only [draftingRound, ActiveRow.prefill.injEq] at hrow
    subst hrow
    exact ⟨by simp, by simp, by simp⟩

private theorem legal_decode {s : System (List Token)} {k : ℕ} {tokenIds : List Token}
    (hcommits : s.committed <+: tokenIds) (hseen : s.state.draftSeqLen.isSome) :
    Legal traceNet staleConfig s (decodeRound k tokenIds) where
  nodup := by simp [Round.blockIds, decodeRound]
  commits := hcommits
  boundary := fun h => absurd h (Option.isSome_iff_ne_none.mp hseen)
  prefill := fun row hrow => absurd hrow (by simp [decodeRound])

private theorem step_drafted :
    Step traceNet staleConfig emptySystem (.round draftingRound) drafted :=
  .round legal_drafting rfl

private theorem legal_ingested :
    Legal traceNet staleConfig drafted (decodeRound 5 [5, 6, 8]) :=
  legal_decode (by decide) rfl

private theorem step_ingested :
    Step traceNet staleConfig drafted (.round (decodeRound 5 [5, 6, 8])) ingested :=
  .round legal_ingested rfl

private theorem step_deferred :
    Step traceNet staleConfig ingested (.round (decodeRound 0 [5, 6, 8, 7])) deferred :=
  .round (legal_decode (by decide) rfl) rfl

/-- The ingest behind the rejected drafts is sound: its cache is coherent. -/
theorem coherent_ingested : ∃ out, propose traceNet staleConfig drafted.state drafted.pool
      (decodeRound 5 [5, 6, 8]) = .ok out ∧
    Coherent traceNet staleConfig drafted (decodeRound 5 [5, 6, 8]) out := by
  have hrun : Run (SoundStep traceNet staleConfig) emptySystem [.round draftingRound] drafted :=
    .cons ⟨step_drafted, fun r hr => ⟨fun n hn => absurd hn (by
      simp [emptySystem, System.fresh, ProposerState.fresh]), by
      rintro ⟨row, n, w, b, t, -, hn, -⟩
      exact absurd hn (by simp [emptySystem, System.fresh, ProposerState.fresh])⟩⟩ (.nil _)
  have hsound : Sound staleConfig drafted (decodeRound 5 [5, 6, 8]) := by
    refine ⟨fun n hn i hi => rfl, ?_⟩
    rintro ⟨row, n, w, b, t, -, hn, hw, -, -, -, -, p, hp, b', t', hget, -⟩
    obtain rfl : 2 = n := Option.some.inj hn
    have hbelow : ∀ p < 2, (drafted.state.specKvWrites.bind (Dict.get? · p)) = none := by decide
    have hnone := hbelow p hp
    rw [hw, Option.bind_some, hget] at hnone
    exact absurd hnone (by simp)
  exact ⟨_, rfl, coherent_of_run hrun legal_ingested hsound rfl⟩

/-- **A run in which the ingest skips a stale cell**: the round that drafts, one that only
ingests, a deferred one, and one whose skip finds the drafted token `7` behind the rejected
one.  The skipped cell was computed from the rejected token. -/
theorem staleRun_not_coherent :
    ∃ s out, Run (Step traceNet staleConfig) emptySystem
        [.round draftingRound, .round (decodeRound 5 [5, 6, 8]),
          .round (decodeRound 0 [5, 6, 8, 7])] s ∧
      Legal traceNet staleConfig s (decodeRound 1 [5, 6, 8, 7, 3]) ∧
      propose traceNet staleConfig s.state s.pool (decodeRound 1 [5, 6, 8, 7, 3]) = .ok out ∧
      ¬ Coherent traceNet staleConfig s (decodeRound 1 [5, 6, 8, 7, 3]) out := by
  refine ⟨deferred, _, .cons step_drafted (.cons step_ingested (.cons step_deferred (.nil _))),
    legal_decode (by decide) rfl, rfl, fun h => ?_⟩
  -- position 3 still holds the cell of the drafts: 5, 6, 7, 7
  exact absurd ((h _ rfl).1.cell 3 (by decide)) (by decide)

end StaleRun

end DraftModel
end VllmMetal
