import VllmMetal.BlockDraft.Advance

/-!
# Pages of the block drafter

Two facts about pages carry the drafter's coverage.  A published block is mapped at one index
only, by requests whose tokens agree up to its end; a block that is not published has one
owner.  A block may be published, and hit, before the step that computes its rows: until then
its cells are *due*, to be written by a request scheduled for that step.  Every event between
two steps keeps these facts.

## Main definitions

* `Due`, `Held` — the cell of a position, written or about to be.
* `Inv` — the invariant of a run.

## Main results

* `Inv.drop`, `Inv.arrive`, `Inv.grow`, `Inv.schedule`, `Inv.publish` — every event but a step
  keeps the invariant.
-/

namespace VllmMetal
namespace BlockDraft

open SpecDecode

variable {F Cell : Type*} {cfg : DrafterConfig} {net : DrafterNet F Cell}
  {feat : List Token → F} {s s' : System Cell}

/-! ### Cells -/

/-- The slot of position `p` in block `b`. -/
def slotOf (cfg : DrafterConfig) (b p : ℕ) : ℕ := b * cfg.blockSize + p % cfg.blockSize

theorem cellOf_eq_slotOf {table : List ℕ} {b p : ℕ} (h : table[p / cfg.blockSize]? = some b) :
    cellOf cfg.blockSize table p = slotOf cfg b p := by
  rw [cellOf, pageOf, List.getD_eq_getElem?_getD, h, Option.getD_some, slotOf]

theorem slotOf_inj {b b' p q : ℕ} (h : slotOf cfg b p = slotOf cfg b' q) :
    b = b' ∧ p % cfg.blockSize = q % cfg.blockSize := by
  have hp := Nat.mod_lt p cfg.blockSize_pos
  have hq := Nat.mod_lt q cfg.blockSize_pos
  have hdiv : ∀ c r, r < cfg.blockSize → (c * cfg.blockSize + r) / cfg.blockSize = c := by
    intro c r hr
    rw [Nat.mul_comm, Nat.mul_add_div cfg.blockSize_pos, Nat.div_eq_of_lt hr, Nat.add_zero]
  unfold slotOf at h
  have hb : b = b' := by rw [← hdiv b _ hp, h, hdiv b' _ hq]
  subst hb
  exact ⟨rfl, by omega⟩

/-- Two positions of one index and one offset are one position. -/
theorem position_eq {B p q : ℕ} (hdiv : p / B = q / B) (hmod : p % B = q % B) : p = q := by
  rw [← Nat.div_add_mod p B, ← Nat.div_add_mod q B, hdiv, hmod]

/-- The projected target feature of the committed token at position `p`. -/
def committedCell (net : DrafterNet F Cell) (feat : List Token → F) (tokens : List Token)
    (p : ℕ) : Cell :=
  net.contextCell (feat (tokens.take (p + 1))) p

/-- A request scheduled for the coming step commits position `p` of block `b`, with the tokens
`tokens` up to there. -/
def Due (cfg : DrafterConfig) (s : System Cell) (tokens : List Token) (b p : ℕ) : Prop :=
  ∃ id r, s.live.get? id = some r ∧ (r.table cfg)[p / cfg.blockSize]? = some b ∧
    r.computed ≤ p ∧ p < r.reach ∧ r.tokens.take (p + 1) = tokens.take (p + 1)

/-- The slot holds the committed token's cell, or will after the coming step. -/
def Held (cfg : DrafterConfig) (net : DrafterNet F Cell) (feat : List Token → F)
    (s : System Cell) (tokens : List Token) (b p : ℕ) : Prop :=
  s.cache (slotOf cfg b p) = committedCell net feat tokens p ∨ Due cfg s tokens b p

theorem Held.congr {tokens tokens' : List Token} {b p : ℕ}
    (h : Held cfg net feat s tokens b p) (htake : tokens.take (p + 1) = tokens'.take (p + 1)) :
    Held cfg net feat s tokens' b p := by
  rcases h with hcell | ⟨id, r, hlive, htable, hlow, hhigh, hsame⟩
  · exact .inl (by rw [hcell, committedCell, committedCell, htake])
  · exact .inr ⟨id, r, hlive, htable, hlow, hhigh, hsame.trans htake⟩

/-- What is due stays due while its request does. -/
theorem Held.mono {tokens : List Token} {b p : ℕ} (h : Held cfg net feat s tokens b p)
    (hcache : s'.cache = s.cache)
    (hdue : ∀ id r, s.live.get? id = some r → r.computed < r.reach → ∃ r',
      s'.live.get? id = some r' ∧ r'.computed = r.computed ∧ r'.reach = r.reach ∧
      r'.tokens = r.tokens ∧
      ∀ i b : ℕ, (r.table cfg)[i]? = some b → (r'.table cfg)[i]? = some b) :
    Held cfg net feat s' tokens b p := by
  rcases h with hcell | ⟨id, r, hlive, htable, hlow, hhigh, hsame⟩
  · exact .inl (by rw [hcache, hcell])
  · obtain ⟨r', hlive', hcomputed, hreach, htokens, hmapped⟩ := hdue id r hlive (by omega)
    exact .inr ⟨id, r', hlive', hmapped _ _ htable, by omega, by omega, by rw [htokens, hsame]⟩

/-- A request that is not scheduled has nothing due. -/
theorem LiveRequest.reach_le {r : LiveRequest} (h : r.scheduled = none) : r.reach ≤ r.computed := by
  rw [LiveRequest.reach, h, Option.getD_none, Nat.add_zero]
  exact Nat.min_le_left _ _

/-! ### The invariant -/

/-- The invariant of a run. -/
structure Inv (cfg : DrafterConfig) (net : DrafterNet F Cell) (feat : List Token → F)
    (s : System Cell) : Prop where
  requests : ∀ id r, s.live.get? id = some r → RequestOk cfg s id r
  ends : ∀ id r, s.live.get? id = some r →
    s.validEnds.get? id = if r.ingested then some (min r.computed cfg.maxModelLen) else none
  ends_dead : ∀ id, s.live.get? id = none → s.validEnds.get? id = none
  /-- A request that has not reached the drafter's context yet is about to prefill. -/
  unseen : ∀ id r, s.live.get? id = some r → r.ingested = false →
    r.computed < cfg.maxModelLen → r.state.generatedTokens = 0 ∧
      (cfg.enablePrefixCaching = false → r.computed = 0)
  full : ∀ b prefixTokens, s.published b = some prefixTokens →
    ∃ j, prefixTokens.length = (j + 1) * cfg.blockSize
  /-- A published block is mapped at one index, by requests with its tokens. -/
  shared : ∀ b prefixTokens, s.published b = some prefixTokens → ∀ (id : ReqId) (r : LiveRequest)
    (i : ℕ), s.live.get? id = some r → (r.table cfg)[i]? = some b →
    (i + 1) * cfg.blockSize ≤ r.tokens.length ∧
      prefixTokens = r.tokens.take ((i + 1) * cfg.blockSize)
  /-- Any other block has one owner. -/
  owned : ∀ b, s.published b = none → ∀ (id : ReqId) (r : LiveRequest) (i : ℕ)
    (id' : ReqId) (r' : LiveRequest) (i' : ℕ), s.live.get? id = some r →
    (r.table cfg)[i]? = some b → s.live.get? id' = some r' → (r'.table cfg)[i']? = some b →
    id = id' ∧ i = i'
  covered : ∀ id r, s.live.get? id = some r → ∀ p < r.computed, p < cfg.maxModelLen →
    ∃ b, (r.table cfg)[p / cfg.blockSize]? = some b ∧ Held cfg net feat s r.tokens b p
  publishedHeld : ∀ b prefixTokens, s.published b = some prefixTokens →
    ∀ p < prefixTokens.length, prefixTokens.length ≤ p + cfg.blockSize → p < cfg.maxModelLen →
      Held cfg net feat s prefixTokens b p

theorem inv_start (cache : ℕ → Cell) : Inv cfg net feat (System.start cache) := by
  constructor <;> simp [System.start]

/-- A published block ends at the end of its index. -/
theorem Inv.index_eq (hinv : Inv cfg net feat s) {b : ℕ} {prefixTokens : List Token}
    (hpub : s.published b = some prefixTokens) {id : ReqId} {r : LiveRequest} {i p : ℕ}
    (hlive : s.live.get? id = some r) (htable : (r.table cfg)[i]? = some b)
    (hlow : prefixTokens.length ≤ p + cfg.blockSize) (hhigh : p < prefixTokens.length) :
    p / cfg.blockSize = i := by
  obtain ⟨hle, htake⟩ := hinv.shared b prefixTokens hpub id r i hlive htable
  have hlen : prefixTokens.length = (i + 1) * cfg.blockSize := by
    rw [htake, List.length_take, Nat.min_eq_left hle]
  rw [hlen] at hlow hhigh
  have hsucc : (i + 1) * cfg.blockSize = i * cfg.blockSize + cfg.blockSize := Nat.succ_mul _ _
  exact Nat.div_eq_of_lt_le (by omega) (by omega)

/-! ### Evictions, preemptions and admissions -/

/-- Dropping requests that are not scheduled. -/
theorem Inv.drop (hinv : Inv cfg net feat s) {ids : List ReqId} (hids : Unscheduled s ids)
    (hlive : s'.live = s.live.popAll ids) (hends : s'.validEnds = s.validEnds.popAll ids)
    (hcache : s'.cache = s.cache) (hpub : s'.published = s.published)
    (hseq : ∀ id, id ∉ ids → s'.seqLens.get? id = s.seqLens.get? id) :
    Inv cfg net feat s' := by
  have hold : ∀ id r, s'.live.get? id = some r → id ∉ ids ∧ s.live.get? id = some r := by
    intro id r h
    rw [hlive, Dict.get?_popAll] at h
    split at h
    · cases h
    · next hnot => exact ⟨hnot, h⟩
  -- a drop leaves the cells; only owners that were due could be missed, and none is dropped
  have hheld : ∀ tokens b p, Held cfg net feat s tokens b p → Held cfg net feat s' tokens b p := by
    intro tokens b p h
    refine h.mono hcache fun id r hr hdue => ?_
    have hnot : id ∉ ids := by
      intro hmem
      have := LiveRequest.reach_le (hids id hmem r hr)
      omega
    exact ⟨r, by rw [hlive, Dict.get?_popAll, if_neg hnot, hr], rfl, rfl, rfl, fun _ _ h => h⟩
  constructor
  · intro id r h
    obtain ⟨hnot, hr⟩ := hold id r h
    have hok := hinv.requests id r hr
    exact { hok with
      decoding := fun hgen => by
        obtain ⟨hlast, hlen⟩ := hok.decoding hgen
        exact ⟨hlast, by rw [hseq id hnot, hlen]⟩ }
  · intro id r h
    obtain ⟨hnot, hr⟩ := hold id r h
    rw [hends, Dict.get?_popAll, if_neg hnot]
    exact hinv.ends id r hr
  · intro id h
    rw [hends, Dict.get?_popAll]
    split
    · rfl
    · next hnot =>
      rw [hlive, Dict.get?_popAll, if_neg hnot] at h
      exact hinv.ends_dead id h
  · intro id r h
    exact hinv.unseen id r (hold id r h).2
  · rw [hpub]
    exact hinv.full
  · rw [hpub]
    intro b prefixTokens hb id r i h
    exact hinv.shared b prefixTokens hb id r i (hold id r h).2
  · rw [hpub]
    intro b hb id r i id' r' i' h htable h' htable'
    exact hinv.owned b hb id r i id' r' i' (hold id r h).2 htable (hold id' r' h').2 htable'
  · intro id r h p hp hlimit
    obtain ⟨b, htable, hb⟩ := hinv.covered id r (hold id r h).2 p hp hlimit
    exact ⟨b, htable, hheld _ _ _ hb⟩
  · rw [hpub]
    intro b prefixTokens hb p hp hlow hlimit
    exact hheld _ _ _ (hinv.publishedHeld b prefixTokens hb p hp hlow hlimit)

theorem forgetBlocks_some {published : ℕ → Option (List Token)} {fresh : List ℕ} {b : ℕ}
    {prefixTokens : List Token} (h : forgetBlocks published fresh b = some prefixTokens) :
    b ∉ fresh ∧ published b = some prefixTokens := by
  rw [forgetBlocks] at h
  split at h
  · cases h
  · next hnot => exact ⟨hnot, h⟩

theorem forgetBlocks_none {published : ℕ → Option (List Token)} {fresh : List ℕ} {b : ℕ}
    (h : forgetBlocks published fresh b = none) : b ∈ fresh ∨ published b = none := by
  rw [forgetBlocks] at h
  split at h
  · next hmem => exact .inl hmem
  · exact .inr h

/-- A hit is published under the request's own tokens. -/
theorem Admissible.hit_of_lt {id : ReqId} {state : DraftRequest} {hits fresh : List ℕ}
    {computed : ℕ} (h : Admissible cfg s id state hits fresh computed) {i b : ℕ}
    (hb : (hits ++ fresh)[i]? = some b) (hi : i < hits.length) :
    (i + 1) * cfg.blockSize ≤ state.tokenIds.length ∧
      s.published b = some (state.tokenIds.take ((i + 1) * cfg.blockSize)) :=
  h.hit i b (by rwa [List.getElem?_append_left hi] at hb)

/-- Any other block of an admitted request is a fresh one. -/
theorem mem_fresh_of_ge {hits fresh : List ℕ} {i b : ℕ} (hb : (hits ++ fresh)[i]? = some b)
    (hi : hits.length ≤ i) : fresh[i - hits.length]? = some b ∧ b ∈ fresh := by
  rw [List.getElem?_append_right hi] at hb
  exact ⟨hb, List.mem_of_getElem? hb⟩

/-- **An admission behind published blocks keeps the invariant.** -/
theorem Inv.arrive (hinv : Inv cfg net feat s) {id : ReqId} {state : DraftRequest}
    {hits fresh : List ℕ} {computed : ℕ} (resumed : Bool)
    (h : Admissible cfg s id state hits fresh computed) :
    Inv cfg net feat (admitted s id state fresh computed resumed) := by
  set r₀ : LiveRequest := ⟨state, computed, none, false⟩ with hr₀
  have htable₀ : r₀.table cfg = hits ++ fresh := by
    rw [LiveRequest.table, List.getD_eq_getElem?_getD, hr₀, h.blocks, Option.getD_some]
  -- a live request is the admitted one, or was live
  have hget : ∀ id' r', (admitted s id state fresh computed resumed).live.get? id' = some r' →
      (id' = id ∧ r' = r₀) ∨ (id' ≠ id ∧ s.live.get? id' = some r') := by
    intro id' r' h'
    simp only [admitted, Dict.get?_set] at h'
    split at h'
    · next heq => exact .inl ⟨heq, (Option.some.inj h').symm⟩
    · next hne => exact .inr ⟨hne, h'⟩
  have hlive : ∀ id' r', s.live.get? id' = some r' →
      (admitted s id state fresh computed resumed).live.get? id' = some r' := by
    intro id' r' h'
    have hne : id' ≠ id := by
      rintro rfl
      rw [h.notLive] at h'
      cases h'
    simp only [admitted, Dict.get?_set, if_neg hne, h']
  have hheld : ∀ tokens b p, Held cfg net feat s tokens b p →
      Held cfg net feat (admitted s id state fresh computed resumed) tokens b p := by
    intro tokens b p hb
    exact hb.mono rfl fun id' r' hr' _ => ⟨r', hlive id' r' hr', rfl, rfl, rfl, fun _ _ h => h⟩
  -- a re-admission releases an end that is not recorded any more
  have hends : ∀ id', (admitted s id state fresh computed resumed).validEnds.get? id' =
      s.validEnds.get? id' := by
    intro id'
    cases resumed with
    | false => rfl
    | true =>
      simp only [admitted, if_true, releaseRequests, Dict.get?_popAll, List.mem_singleton]
      split
      · next heq => rw [heq, hinv.ends_dead id h.notLive]
      · rfl
  have hseq : ∀ id', id' ≠ id → (admitted s id state fresh computed resumed).seqLens.get? id' =
      s.seqLens.get? id' := by
    intro id' hne
    simp only [admitted]
    split
    · rw [Dict.get?_pop, if_neg hne]
    · rfl
  constructor
  · intro id' r' h'
    rcases hget id' r' h' with ⟨rfl, rfl⟩ | ⟨hne, hr'⟩
    · have hcomputed : computed ≤ state.tokenIds.length := by
        rcases Nat.eq_zero_or_pos hits.length with hzero | hpos
        · have := h.start
          rw [hzero, Nat.zero_mul] at this
          omega
        · obtain ⟨b, hb⟩ : ∃ b, hits[hits.length - 1]? = some b :=
            ⟨_, List.getElem?_eq_getElem (by omega)⟩
          have hlast := (h.hit _ b hb).1
          rw [Nat.sub_add_cancel hpos] at hlast
          exact h.start.trans hlast
      refine
        { group := by rw [htable₀]; exact h.blocks
          prompt := h.prompt
          generated := h.generated.ge
          computed := hcomputed
          scheduled := by simp [hr₀]
          decoding := fun hgen => absurd h.generated hgen
          prefilling := fun _ => by simpa [hr₀] using hcomputed }
    · have hok := hinv.requests id' r' hr'
      exact { hok with
        decoding := fun hgen => by
          obtain ⟨hlast, hlen⟩ := hok.decoding hgen
          exact ⟨hlast, by rw [hseq id' hne, hlen]⟩ }
  · intro id' r' h'
    rw [hends]
    rcases hget id' r' h' with ⟨rfl, rfl⟩ | ⟨-, hr'⟩
    · simpa [hr₀] using hinv.ends_dead id' h.notLive
    · exact hinv.ends id' r' hr'
  · intro id' h'
    rw [hends]
    refine hinv.ends_dead id' ?_
    simp only [admitted, Dict.get?_set] at h'
    split at h'
    · cases h'
    · exact h'
  · intro id' r' h' hingested hlimit
    rcases hget id' r' h' with ⟨rfl, rfl⟩ | ⟨-, hr'⟩
    · refine ⟨h.generated, fun hcaching => ?_⟩
      have hstart := h.start
      rw [h.caching hcaching, List.length_nil, Nat.zero_mul] at hstart
      exact Nat.le_zero.mp hstart
    · exact hinv.unseen id' r' hr' hingested hlimit
  · intro b prefixTokens hb
    exact hinv.full b prefixTokens (forgetBlocks_some hb).2
  · intro b prefixTokens hb id' r' i h' htable
    obtain ⟨hnot, hpub⟩ := forgetBlocks_some hb
    rcases hget id' r' h' with ⟨rfl, rfl⟩ | ⟨-, hr'⟩
    · rw [htable₀] at htable
      -- a hit block has the tokens of the prefix; a fresh one is forgotten
      rcases Nat.lt_or_ge i hits.length with hi | hi
      · obtain ⟨hle, hhit⟩ := h.hit_of_lt htable hi
        exact ⟨hle, Option.some.inj (hpub.symm.trans hhit)⟩
      · exact absurd (mem_fresh_of_ge htable hi).2 hnot
    · exact hinv.shared b prefixTokens hpub id' r' i hr' htable
  · -- a fresh block belongs to the admitted request alone, at one index
    have hnew : ∀ b i : ℕ, forgetBlocks s.published fresh b = none → (hits ++ fresh)[i]? = some b →
        b ∈ fresh ∧ fresh[i - hits.length]? = some b ∧ hits.length ≤ i := by
      intro b i hb htable
      rcases Nat.lt_or_ge i hits.length with hi | hi
      · have hmem : b ∈ hits := by
          rw [List.getElem?_append_left hi] at htable
          exact List.mem_of_getElem? htable
        have hhit := (h.hit_of_lt htable hi).2
        rcases forgetBlocks_none hb with hfresh | hnone
        · exact absurd hmem (h.fresh_free b hfresh).2
        · rw [hnone] at hhit
          cases hhit
      · obtain ⟨hindex, hmem⟩ := mem_fresh_of_ge htable hi
        exact ⟨hmem, hindex, hi⟩
    have hother : ∀ (b : ℕ) (id' : ReqId) (r' : LiveRequest) (i : ℕ), b ∈ fresh →
      s.live.get? id' = some r' →
        (r'.table cfg)[i]? ≠ some b := by
      intro b id' r' i hb hr' htable
      exact (h.fresh_free b hb).1 id' r' hr' (List.mem_of_getElem? htable)
    intro b hb id' r' i id'' r'' i' h' htable h'' htable'
    rcases hget id' r' h' with ⟨rfl, rfl⟩ | ⟨hne, hr'⟩ <;>
      rcases hget id'' r'' h'' with ⟨rfl, rfl⟩ | ⟨hne', hr''⟩
    · rw [htable₀] at htable htable'
      obtain ⟨-, hi, hge⟩ := hnew b i hb htable
      obtain ⟨-, hi', hge'⟩ := hnew b i' hb htable'
      have hlt := (List.getElem?_eq_some_iff.mp hi).1
      have heq : i - hits.length = i' - hits.length :=
        (List.getElem?_inj hlt h.fresh_nodup).mp (hi.trans hi'.symm)
      exact ⟨rfl, by omega⟩
    · rw [htable₀] at htable
      exact absurd htable' (hother b id'' r'' i' (hnew b i hb htable).1 hr'')
    · rw [htable₀] at htable'
      exact absurd htable (hother b id' r' i (hnew b i' hb htable').1 hr')
    · rcases forgetBlocks_none hb with hfresh | hnone
      · exact absurd htable (hother b id' r' i hfresh hr')
      · exact hinv.owned b hnone id' r' i id'' r'' i' hr' htable hr'' htable'
  · intro id' r' h' p hp hlimit
    rcases hget id' r' h' with ⟨rfl, rfl⟩ | ⟨-, hr'⟩
    -- what the admission counts as computed lies in the hit blocks
    · have hindex : p / cfg.blockSize < hits.length :=
        Nat.div_lt_of_lt_mul (by rw [Nat.mul_comm]; exact hp.trans_le h.start)
      obtain ⟨b, hb⟩ : ∃ b, (hits ++ fresh)[p / cfg.blockSize]? = some b :=
        ⟨hits[p / cfg.blockSize], by
          rw [List.getElem?_append_left hindex, List.getElem?_eq_getElem hindex]⟩
      obtain ⟨hle, hpub⟩ := h.hit_of_lt hb hindex
      have hlt : p < (p / cfg.blockSize + 1) * cfg.blockSize :=
        Nat.lt_mul_of_div_lt (Nat.lt_succ_self _) cfg.blockSize_pos
      have hge : (p / cfg.blockSize + 1) * cfg.blockSize ≤ p + cfg.blockSize := by
        rw [Nat.succ_mul]
        exact Nat.add_le_add_right (Nat.div_mul_le_self _ _) _
      have hlen : (state.tokenIds.take ((p / cfg.blockSize + 1) * cfg.blockSize)).length =
          (p / cfg.blockSize + 1) * cfg.blockSize := by
        rw [List.length_take, Nat.min_eq_left hle]
      refine ⟨b, by rw [htable₀]; exact hb, hheld _ _ _ ?_⟩
      refine (hinv.publishedHeld b _ hpub p (by omega) (by omega) hlimit).congr ?_
      rw [List.take_take, Nat.min_eq_left (by omega)]
    · obtain ⟨b, htable, hb⟩ := hinv.covered id' r' hr' p hp hlimit
      exact ⟨b, htable, hheld _ _ _ hb⟩
  · intro b prefixTokens hb p hp hlow hlimit
    exact hheld _ _ _
      (hinv.publishedHeld b prefixTokens (forgetBlocks_some hb).2 p hp hlow hlimit)

/-! ### Pages, schedules and publications -/

section Retouch

variable {id : ReqId} {r : LiveRequest}

/-- A request that is replaced by one with the same tokens and position, and with at least
its pages and its rows. -/
structure Retouched (cfg : DrafterConfig) (r r' : LiveRequest) : Prop where
  tokens : r'.tokens = r.tokens
  computed : r'.computed = r.computed
  ingested : r'.ingested = r.ingested
  generated : r'.state.generatedTokens = r.state.generatedTokens
  prompt : r'.state.promptLen = r.state.promptLen
  group : r'.state.blockIds[cfg.groupIndex]? = some (r'.table cfg)
  table : r.table cfg <+: r'.table cfg
  scheduled : ∀ n, r'.scheduled = some n → 0 < n
  prefilling : r.state.generatedTokens = 0 → r.computed + r'.scheduled.getD 0 ≤ r.tokens.length
  reach : r.computed < r.reach → r'.reach = r.reach

theorem getElem?_set_live (hlive : s'.live = s.live.set id r) {id' : ReqId} {r' : LiveRequest}
    (h : s'.live.get? id' = some r') :
    (id' = id ∧ r' = r) ∨ (id' ≠ id ∧ s.live.get? id' = some r') := by
  rw [hlive, Dict.get?_set] at h
  split at h
  · next heq => exact .inl ⟨heq, (Option.some.inj h).symm⟩
  · next hne => exact .inr ⟨hne, h⟩

/-- What is due stays due when a request is retouched. -/
theorem Held.retouch {r' : LiveRequest} (hget : s.live.get? id = some r)
    (hlive : s'.live = s.live.set id r') (htouch : Retouched cfg r r')
    (hcache : s'.cache = s.cache) {tokens : List Token} {b p : ℕ}
    (h : Held cfg net feat s tokens b p) : Held cfg net feat s' tokens b p := by
  refine h.mono hcache fun id₁ r₁ hr₁ hdue => ?_
  by_cases hid : id₁ = id
  · subst hid
    rw [hget, Option.some.injEq] at hr₁
    subst hr₁
    refine ⟨r', by rw [hlive, Dict.get?_set, if_pos rfl], htouch.computed, htouch.reach hdue,
      htouch.tokens, fun i b hb => ?_⟩
    obtain ⟨rest, hrest⟩ := htouch.table
    rw [← hrest, List.getElem?_append_left (List.getElem?_eq_some_iff.mp hb).1, hb]
  · exact ⟨r₁, by rw [hlive, Dict.get?_set, if_neg hid, hr₁], rfl, rfl, rfl, fun _ _ h => h⟩

/-- **New pages that are nobody's, and rows to schedule, keep the invariant.** -/
theorem Inv.retouch (hinv : Inv cfg net feat s) {r' : LiveRequest} {fresh : List ℕ}
    (hget : s.live.get? id = some r) (htouch : Retouched cfg r r')
    (htable : r'.table cfg = r.table cfg ++ fresh) (hnodup : fresh.Nodup)
    (hfree : ∀ b ∈ fresh, Unmapped cfg s b)
    (hlive : s'.live = s.live.set id r') (hends : s'.validEnds = s.validEnds)
    (hcache : s'.cache = s.cache) (hseq : s'.seqLens = s.seqLens)
    (hpub : s'.published = forgetBlocks s.published fresh) : Inv cfg net feat s' := by
  have hheld : ∀ {tokens b p}, Held cfg net feat s tokens b p → Held cfg net feat s' tokens b p :=
    fun h => h.retouch hget hlive htouch hcache
  -- an old block of a request, and the request it belonged to
  have hold : ∀ (b : ℕ) (id₁ : ReqId) (r₁ : LiveRequest) (i : ℕ), b ∉ fresh →
      s'.live.get? id₁ = some r₁ → (r₁.table cfg)[i]? = some b → ∃ r₂,
        s.live.get? id₁ = some r₂ ∧ (r₂.table cfg)[i]? = some b ∧ r₂.tokens = r₁.tokens := by
    intro b id₁ r₁ i hb h₁ htable₁
    rcases getElem?_set_live hlive h₁ with ⟨rfl, rfl⟩ | ⟨-, hr₁⟩
    · refine ⟨r, hget, ?_, htouch.tokens.symm⟩
      rw [htable] at htable₁
      rcases Nat.lt_or_ge i (r.table cfg).length with hi | hi
      · rwa [List.getElem?_append_left hi] at htable₁
      · exact absurd (mem_fresh_of_ge htable₁ hi).2 hb
    · exact ⟨r₁, hr₁, htable₁, rfl⟩
  -- a fresh block is the retouched request's
  have hnew : ∀ (b : ℕ) (id₁ : ReqId) (r₁ : LiveRequest) (i : ℕ), b ∈ fresh →
      s'.live.get? id₁ = some r₁ → (r₁.table cfg)[i]? = some b →
        id₁ = id ∧ fresh[i - (r.table cfg).length]? = some b ∧ (r.table cfg).length ≤ i := by
    intro b id₁ r₁ i hb h₁ htable₁
    rcases getElem?_set_live hlive h₁ with ⟨rfl, rfl⟩ | ⟨-, hr₁⟩
    · rw [htable] at htable₁
      rcases Nat.lt_or_ge i (r.table cfg).length with hi | hi
      · rw [List.getElem?_append_left hi] at htable₁
        exact absurd (List.mem_of_getElem? htable₁) (hfree b hb _ r hget)
      · exact ⟨rfl, (mem_fresh_of_ge htable₁ hi).1, hi⟩
    · exact absurd (List.mem_of_getElem? htable₁) (hfree b hb id₁ r₁ hr₁)
  constructor
  · intro id₁ r₁ h₁
    rcases getElem?_set_live hlive h₁ with ⟨rfl, rfl⟩ | ⟨-, hr₁⟩
    · have hok := hinv.requests _ r hget
      exact
        { group := htouch.group
          prompt := by rw [htouch.prompt, htouch.tokens]; exact hok.prompt
          generated := by rw [htouch.generated]; exact hok.generated
          computed := by rw [htouch.computed, htouch.tokens]; exact hok.computed
          scheduled := htouch.scheduled
          decoding := by
            rw [htouch.generated, htouch.computed, htouch.tokens, hseq]
            exact hok.decoding
          prefilling := by
            rw [htouch.generated, htouch.computed, htouch.tokens]
            exact htouch.prefilling }
    · have hok := hinv.requests id₁ r₁ hr₁
      exact { hok with decoding := by rw [hseq]; exact hok.decoding }
  · intro id₁ r₁ h₁
    rw [hends]
    rcases getElem?_set_live hlive h₁ with ⟨rfl, rfl⟩ | ⟨-, hr₁⟩
    · rw [htouch.ingested, htouch.computed]
      exact hinv.ends _ r hget
    · exact hinv.ends id₁ r₁ hr₁
  · intro id₁ h₁
    rw [hends]
    refine hinv.ends_dead id₁ ?_
    rw [hlive, Dict.get?_set] at h₁
    split at h₁
    · cases h₁
    · exact h₁
  · intro id₁ r₁ h₁
    rcases getElem?_set_live hlive h₁ with ⟨rfl, rfl⟩ | ⟨-, hr₁⟩
    · rw [htouch.ingested, htouch.computed, htouch.generated]
      exact hinv.unseen _ r hget
    · exact hinv.unseen id₁ r₁ hr₁
  · intro b prefixTokens hb
    rw [hpub] at hb
    exact hinv.full b prefixTokens (forgetBlocks_some hb).2
  · intro b prefixTokens hb id₁ r₁ i h₁ htable₁
    rw [hpub] at hb
    obtain ⟨hnot, hb⟩ := forgetBlocks_some hb
    obtain ⟨r₂, hr₂, htable₂, htokens⟩ := hold b id₁ r₁ i hnot h₁ htable₁
    rw [← htokens]
    exact hinv.shared b prefixTokens hb id₁ r₂ i hr₂ htable₂
  · intro b hb id₁ r₁ i id₂ r₂ i' h₁ htable₁ h₂ htable₂
    rw [hpub] at hb
    by_cases hmem : b ∈ fresh
    · obtain ⟨rfl, hi, hge⟩ := hnew b id₁ r₁ i hmem h₁ htable₁
      obtain ⟨rfl, hi', hge'⟩ := hnew b id₂ r₂ i' hmem h₂ htable₂
      have hlt := (List.getElem?_eq_some_iff.mp hi).1
      have heq : i - (r.table cfg).length = i' - (r.table cfg).length :=
        (List.getElem?_inj hlt hnodup).mp (hi.trans hi'.symm)
      exact ⟨rfl, by omega⟩
    · obtain ⟨q₁, hq₁, hqtable₁, -⟩ := hold b id₁ r₁ i hmem h₁ htable₁
      obtain ⟨q₂, hq₂, hqtable₂, -⟩ := hold b id₂ r₂ i' hmem h₂ htable₂
      rcases forgetBlocks_none hb with hfresh | hnone
      · exact absurd hfresh hmem
      · exact hinv.owned b hnone id₁ q₁ i id₂ q₂ i' hq₁ hqtable₁ hq₂ hqtable₂
  · intro id₁ r₁ h₁ p hp hlimit
    rcases getElem?_set_live hlive h₁ with ⟨rfl, rfl⟩ | ⟨-, hr₁⟩
    · rw [htouch.computed] at hp
      obtain ⟨b, hb, hcell⟩ := hinv.covered _ r hget p hp hlimit
      refine ⟨b, ?_, by rw [htouch.tokens]; exact hheld hcell⟩
      rw [htable, List.getElem?_append_left (List.getElem?_eq_some_iff.mp hb).1, hb]
    · obtain ⟨b, hb, hcell⟩ := hinv.covered id₁ r₁ hr₁ p hp hlimit
      exact ⟨b, hb, hheld hcell⟩
  · intro b prefixTokens hb p hp hlow hlimit
    rw [hpub] at hb
    exact hheld (hinv.publishedHeld b prefixTokens (forgetBlocks_some hb).2 p hp hlow hlimit)

end Retouch

theorem forgetBlocks_nil (published : ℕ → Option (List Token)) :
    forgetBlocks published [] = published := by
  funext b
  simp [forgetBlocks]

/-- Blocks of every group, appended. -/
theorem table_grow {r : LiveRequest} {newBlocks : List (List ℕ)}
    (hgroup : r.state.blockIds[cfg.groupIndex]? = some (r.table cfg))
    (hlen : newBlocks.length = r.state.blockIds.length) :
    (r.grow newBlocks).state.blockIds[cfg.groupIndex]? =
      some (r.table cfg ++ newBlocks.getD cfg.groupIndex []) := by
  have hlt : cfg.groupIndex < newBlocks.length :=
    hlen ▸ (List.getElem?_eq_some_iff.mp hgroup).1
  rw [LiveRequest.grow, List.getElem?_zipWith_eq_some]
  exact ⟨_, _, hgroup, List.getElem?_eq_getElem hlt, by rw [List.getD_eq_getElem _ _ hlt]⟩

theorem Inv.grow (hinv : Inv cfg net feat s) {id : ReqId} {r : LiveRequest}
    {newBlocks : List (List ℕ)} (hget : s.live.get? id = some r)
    (hlen : newBlocks.length = r.state.blockIds.length)
    (hnodup : (newBlocks.getD cfg.groupIndex []).Nodup)
    (hfree : ∀ b ∈ newBlocks.getD cfg.groupIndex [], Unmapped cfg s b) :
    Inv cfg net feat { s with
      live := s.live.set id (r.grow newBlocks)
      published := forgetBlocks s.published (newBlocks.getD cfg.groupIndex []) } := by
  have hok := hinv.requests id r hget
  have hgroup := table_grow hok.group hlen
  have htable : (r.grow newBlocks).table cfg =
      r.table cfg ++ newBlocks.getD cfg.groupIndex [] := by
    rw [LiveRequest.table, List.getD_eq_getElem?_getD, hgroup, Option.getD_some]
  refine hinv.retouch hget ?_ htable hnodup hfree rfl rfl rfl rfl rfl
  exact
    { tokens := rfl
      computed := rfl
      ingested := rfl
      generated := rfl
      prompt := rfl
      group := by rw [hgroup, htable]
      table := by rw [htable]; exact List.prefix_append _ _
      scheduled := hok.scheduled
      prefilling := hok.prefilling
      reach := fun _ => rfl }

theorem Inv.schedule (hinv : Inv cfg net feat s) {id : ReqId} {r : LiveRequest} {n : ℕ}
    (hget : s.live.get? id = some r) (hnone : r.scheduled = none) (hpos : 0 < n)
    (hfit : r.state.generatedTokens = 0 → r.computed + n ≤ r.tokens.length) :
    Inv cfg net feat { s with live := s.live.set id { r with scheduled := some n } } := by
  have hok := hinv.requests id r hget
  have htouch : Retouched cfg r { r with scheduled := some n } :=
    { tokens := rfl
      computed := rfl
      ingested := rfl
      generated := rfl
      prompt := rfl
      group := hok.group
      table := List.prefix_rfl
      scheduled := fun m hm => by
        obtain rfl : n = m := Option.some.inj hm
        exact hpos
      prefilling := hfit
      reach := fun hdue => by
        have := LiveRequest.reach_le hnone
        omega }
  exact hinv.retouch hget htouch (List.append_nil _).symm List.nodup_nil (by simp) rfl rfl rfl rfl
    (forgetBlocks_nil _).symm

/-- **Publishing a block whose rows are computed or scheduled keeps the invariant.** -/
theorem Inv.publish (hinv : Inv cfg net feat s) {id : ReqId} {r : LiveRequest} {j b : ℕ}
    (hget : s.live.get? id = some r) (htable : (r.table cfg)[j]? = some b)
    (hreach : (j + 1) * cfg.blockSize ≤ r.reach) :
    Inv cfg net feat (s.publish b (r.tokens.take ((j + 1) * cfg.blockSize))) := by
  have hsucc : (j + 1) * cfg.blockSize = j * cfg.blockSize + cfg.blockSize := Nat.succ_mul _ _
  have hknown : (j + 1) * cfg.blockSize ≤ r.tokens.length := hreach.trans (Nat.min_le_right _ _)
  have hlen : (r.tokens.take ((j + 1) * cfg.blockSize)).length = (j + 1) * cfg.blockSize := by
    rw [List.length_take, Nat.min_eq_left hknown]
  have hheld : ∀ {tokens b' p}, Held cfg net feat s tokens b' p →
      Held cfg net feat (s.publish b (r.tokens.take ((j + 1) * cfg.blockSize))) tokens b' p :=
    fun h => h.mono rfl fun id₁ r₁ hr₁ _ => ⟨r₁, hr₁, rfl, rfl, rfl, fun _ _ h => h⟩
  -- a published block is the new one, or was published
  have hpub : ∀ b' prefixTokens,
      (s.publish b (r.tokens.take ((j + 1) * cfg.blockSize))).published b' = some prefixTokens →
      (b' = b ∧ prefixTokens = r.tokens.take ((j + 1) * cfg.blockSize)) ∨
        (b' ≠ b ∧ s.published b' = some prefixTokens) := by
    intro b' prefixTokens h
    rw [System.published_publish] at h
    split at h
    · next heq => exact .inl ⟨heq, (Option.some.inj h).symm⟩
    · next hne => exact .inr ⟨hne, h⟩
  constructor
  · exact fun id₁ r₁ h₁ => { hinv.requests id₁ r₁ h₁ with }
  · exact hinv.ends
  · exact hinv.ends_dead
  · exact hinv.unseen
  · intro b' prefixTokens h
    rcases hpub b' prefixTokens h with ⟨-, rfl⟩ | ⟨-, hold⟩
    · exact ⟨j, hlen⟩
    · exact hinv.full b' prefixTokens hold
  · intro b' prefixTokens h id₁ r₁ i h₁ htable₁
    rcases hpub b' prefixTokens h with ⟨rfl, rfl⟩ | ⟨-, hold⟩
    · -- the block was published under the same tokens, or had one owner
      cases hb : s.published b' with
      | none =>
        obtain ⟨rfl, rfl⟩ := hinv.owned b' hb id r j id₁ r₁ i hget htable h₁ htable₁
        obtain rfl : r = r₁ := Option.some.inj (hget.symm.trans h₁)
        exact ⟨hknown, rfl⟩
      | some earlier =>
        obtain ⟨-, hown⟩ := hinv.shared b' earlier hb id r j hget htable
        obtain ⟨hle, hother⟩ := hinv.shared b' earlier hb id₁ r₁ i h₁ htable₁
        exact ⟨hle, hown.symm.trans hother⟩
    · exact hinv.shared b' prefixTokens hold id₁ r₁ i h₁ htable₁
  · intro b' h
    rw [System.published_publish] at h
    split at h
    · cases h
    · exact hinv.owned b' h
  · intro id₁ r₁ h₁ p hp hlimit
    obtain ⟨b', hb', hcell⟩ := hinv.covered id₁ r₁ h₁ p hp hlimit
    exact ⟨b', hb', hheld hcell⟩
  · intro b' prefixTokens h p hp hlow hlimit
    rcases hpub b' prefixTokens h with ⟨rfl, rfl⟩ | ⟨-, hold⟩
    · rw [hlen] at hp hlow
      have hindex : p / cfg.blockSize = j := Nat.div_eq_of_lt_le (by omega) (by omega)
      have htake : r.tokens.take (p + 1) =
          (r.tokens.take ((j + 1) * cfg.blockSize)).take (p + 1) := by
        rw [List.take_take, Nat.min_eq_left (by omega)]
      -- a computed position has its cell in the request's own block
      rcases Nat.lt_or_ge p r.computed with hdone | htodo
      · obtain ⟨b'', hb'', hcell⟩ := hinv.covered id r hget p hdone hlimit
        rw [hindex, htable, Option.some.injEq] at hb''
        subst hb''
        exact hheld (hcell.congr htake)
      · -- the coming step computes the position
        exact .inr ⟨id, r, hget, by rw [hindex]; exact htable, htodo, by omega, htake⟩
    · exact hheld (hinv.publishedHeld b' prefixTokens hold p hp hlow hlimit)

end BlockDraft
end VllmMetal
