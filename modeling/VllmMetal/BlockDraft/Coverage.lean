import VllmMetal.BlockDraft.Pages

/-!
# Coverage of the block drafter

The recorded end of every request that has reached the drafter's context is the number of its
computed positions, cut at the drafter's context limit, and every slot below it holds the
projected target feature of the committed token there.  A temporary block lies behind all known
tokens, so it never reaches a published block, and in its own pages it lies behind the recorded
end.

## Main results

* `Inv.stepped` — a step keeps the invariant.
* `block_draft_coverage` — **the recorded ends are contiguous and what lies below them is
  committed context.**
-/

namespace VllmMetal
namespace BlockDraft

open SpecDecode

variable {F Cell : Type*} {cfg : DrafterConfig} {net : DrafterNet F Cell}
  {feat : List Token → F} {s s' : System Cell}

/-! ### Steps -/

section Step

variable {inp : StepInput} {out : Proposal Cell}

/-- **The rows of a legal step continue the recorded ends.** -/
theorem Inv.contiguous (hinv : Inv cfg net feat s) (hlegal : Legal s inp) :
    Contiguous cfg s.validEnds (stepContext cfg feat s inp) := by
  constructor
  · simp [stepContext]
  · intro row hrow hcommits
    obtain ⟨r, r', hmoved⟩ := advance_of_mem hinv.requests hlegal hrow
    have hadv := hmoved.advance
    refine ⟨?_, by rw [hadv.groups, (hinv.requests _ r hmoved.before).group]; rfl⟩
    have hlimit : r.computed < cfg.maxModelLen := by
      rw [← hadv.start]
      exact hcommits.trans_le (Nat.min_le_right _ _)
    have hends := hinv.ends _ r hmoved.before
    rw [IngestRow.Continues, Dict.getD, hends, hadv.start, hadv.isPrefill]
    cases hingested : r.ingested with
    | true =>
      rw [if_pos rfl, Option.getD_some]
      omega
    | false =>
      -- the first span of the request: a prefill, behind a hit or from the start
      obtain ⟨hgen, hzero⟩ := hinv.unseen _ r hmoved.before hingested hlimit
      rw [if_neg (by simp), Option.getD_none, decide_eq_true hgen, Bool.true_and]
      cases hcaching : cfg.enablePrefixCaching with
      | true => rfl
      | false => rw [hzero hcaching]; rfl
  · intro row hrow
    obtain ⟨hmem, hcommits⟩ := List.mem_filter.mp hrow
    obtain ⟨r, r', hmoved⟩ := advance_of_mem hinv.requests hlegal hmem
    have hadv := hmoved.advance
    have hpos := hadv.count_pos
    have hlast := hadv.rows (row.count - 1) (by omega)
    have hlt := (List.getElem?_eq_some_iff.mp hlast).1
    have hstop : row.stop cfg ≤ row.start + row.count := Nat.min_le_left _ _
    have hcommits' : row.start < row.stop cfg := of_decide_eq_true hcommits
    exact ⟨hcommits'.le, by omega⟩

/-- A row of the step commits below the context limit exactly when it starts below it, and
then up to the new position of its request. -/
theorem Advance.stop_eq {features : List F} {r r' : LiveRequest} {row : IngestRow}
    (h : Advance cfg feat features r r' row) :
    row.stop cfg = min r'.computed cfg.maxModelLen ∧
      (row.Commits cfg ↔ r.computed < cfg.maxModelLen) := by
  have hpos := h.count_pos
  have hstart := h.start
  have hcount := h.count
  have hstop : row.stop cfg = min r'.computed cfg.maxModelLen := by
    rw [IngestRow.stop, hstart, hcount]
  refine ⟨hstop, ?_⟩
  rw [IngestRow.Commits, hstop]
  omega

/-- **The recorded ends after a step.** -/
theorem Inv.ends_step (hinv : Inv cfg net feat s) (hlegal : Legal s inp)
    {ends : Dict ReqId ℕ} (hends : ∀ id, ends.get? id =
      ((newEnds cfg ∅ (committing cfg (stepRows (stepContext cfg feat s inp)))).get? id).or
        (s.validEnds.get? id)) (id : ReqId) :
    ends.get? id = match (nextLive cfg s.live inp).get? id with
      | some r => if r.ingested then some (min r.computed cfg.maxModelLen) else none
      | none => none := by
  have hnodup : ((committing cfg (stepRows (stepContext cfg feat s inp))).map
      IngestRow.reqId).Nodup := by
    refine List.Nodup.sublist (List.Sublist.map _ List.filter_sublist) ?_
    rw [map_reqId_stepRows]
    exact hlegal.nodup
  have hset : newEnds cfg ∅ (committing cfg (stepRows (stepContext cfg feat s inp))) =
      ((committing cfg (stepRows (stepContext cfg feat s inp))).map fun row =>
        (row.reqId, row.stop cfg)).foldl (fun d p => d.set p.1 p.2) ∅ := by
    rw [List.foldl_map]
    rfl
  have hfst : ((committing cfg (stepRows (stepContext cfg feat s inp))).map fun row =>
      (row.reqId, row.stop cfg)).map Prod.fst =
        (committing cfg (stepRows (stepContext cfg feat s inp))).map IngestRow.reqId := by
    rw [List.map_map]
    rfl
  rw [hends]
  by_cases hid : id ∈ inp.reqIds
  · obtain ⟨r, r', row, hmoved, rfl⟩ := exists_row feat hinv.requests hlegal hid
    have hadv := hmoved.advance
    obtain ⟨hstop, hiff⟩ := hadv.stop_eq
    rw [hmoved.after hlegal]
    simp only
    -- a request whose rows begin below the limit commits, and its end is recorded
    by_cases hlimit : r.computed < cfg.maxModelLen
    · have hmem : (row.reqId, row.stop cfg) ∈
          (committing cfg (stepRows (stepContext cfg feat s inp))).map fun row =>
            (row.reqId, row.stop cfg) :=
        List.mem_map.mpr ⟨row, List.mem_filter.mpr
          ⟨hmoved.mem, decide_eq_true (hiff.mpr hlimit)⟩, rfl⟩
      rw [hset, Dict.get?_foldl_set ∅ (by rwa [hfst]) hmem, Option.some_or, hadv.ingested,
        decide_eq_true hlimit, Bool.or_true, if_pos rfl, hstop]
    -- one that had reached the limit keeps the end it has
    · have hnot : row.reqId ∉ ((committing cfg (stepRows (stepContext cfg feat s inp))).map
          fun row => (row.reqId, row.stop cfg)).map Prod.fst := by
        rw [hfst]
        intro hmem
        obtain ⟨row', hrow', hsame⟩ := List.mem_map.mp hmem
        obtain ⟨hmem', hcommits⟩ := List.mem_filter.mp hrow'
        obtain ⟨r₁, r₁', hmoved'⟩ := advance_of_mem hinv.requests hlegal hmem'
        obtain ⟨rfl, -, -⟩ := hmoved.unique hlegal hmoved' hsame
        exact hlimit (hiff.mp (of_decide_eq_true hcommits))
      have hcomputed := hadv.count
      rw [hset, Dict.get?_foldl_set_of_not_mem ∅ hnot, Dict.get?_empty, Option.none_or,
        hinv.ends _ r hmoved.before, hadv.ingested, decide_eq_false hlimit, Bool.or_false]
      split
      · rw [Nat.min_eq_right (Nat.not_lt.mp hlimit), Nat.min_eq_right (by omega)]
      · rfl
  -- the step records nothing for a request it does not schedule
  · have hnot : id ∉ ((committing cfg (stepRows (stepContext cfg feat s inp))).map
        fun row => (row.reqId, row.stop cfg)).map Prod.fst := by
      rw [hfst]
      intro hmem
      refine hid ?_
      rw [← @map_reqId_stepRows _ _ cfg feat s]
      exact (List.Sublist.map _ List.filter_sublist).subset hmem
    rw [hset, Dict.get?_foldl_set_of_not_mem ∅ hnot, Dict.get?_empty, Option.none_or,
      get?_nextLive_of_not_mem hid]
    cases hlive : s.live.get? id with
    | none => exact hinv.ends_dead id hlive
    | some r => exact hinv.ends id r hlive

/-- **Every request that may be drafted for ends at its recorded end.** -/
theorem Inv.anchored (hinv : Inv cfg net feat s) (hlegal : Legal s inp)
    (hwidth : 0 < inp.width) {ends : Dict ReqId ℕ} (hends : ∀ id, ends.get? id =
      ((newEnds cfg ∅ (committing cfg (stepRows (stepContext cfg feat s inp)))).get? id).or
        (s.validEnds.get? id)) {req : ReqId × DraftRequest}
    (hreq : req ∈ draftEligibleRequests (stepContext cfg feat s inp)) :
    Anchored cfg inp.width ends req := by
  obtain ⟨r, r', row, hmoved, hid, hstate, hlast, -⟩ :=
    eligible_advance hinv.requests hlegal hreq
  have hadv := hmoved.advance
  have hcount := hadv.count
  have hpos := hadv.count_pos
  intro hfits
  have hlast' : r'.computed + 1 = req.2.tokenIds.length := by
    rw [← hstate]
    exact hlast
  have hstop : req.2.tokenIds.length - 1 = r'.computed := by omega
  have hlimit : r'.computed < cfg.maxModelLen := by omega
  rw [hstop, Dict.getD, hinv.ends_step hlegal hends, ← hid, hmoved.after hlegal]
  simp only
  rw [hadv.ingested, decide_eq_true (by omega : r.computed < cfg.maxModelLen), Bool.or_true,
    if_pos rfl, Option.getD_some, Nat.min_eq_left hlimit.le]

/-- **A legal step never finds a gap.** -/
theorem Inv.no_gap (hinv : Inv cfg net feat s) (hlegal : Legal s inp) {e : ProposeError}
    (h : propose cfg net s.validEnds s.cache (stepContext cfg feat s inp) = .error e) :
    ¬ e.Gap :=
  propose_error (hinv.contiguous hlegal)
    (fun hwidth _ hends _ hreq => hinv.anchored hlegal hwidth hends hreq) h

/-- The state after a step. -/
def stepped (cfg : DrafterConfig) (s : System Cell) (inp : StepInput) (out : Proposal Cell) :
    System Cell :=
  { s with
    live := nextLive cfg s.live inp
    seqLens := nextSeqLens cfg s.seqLens inp
    validEnds := out.validEnds
    cache := out.cache }

variable (feat) in
/-- A request in flight after a step, as it was before. -/
theorem before_step (hok : ∀ id r, s.live.get? id = some r → RequestOk cfg s id r)
    (hlegal : Legal s inp) {id : ReqId} {r' : LiveRequest}
    (h : (nextLive cfg s.live inp).get? id = some r') :
    (id ∉ inp.reqIds ∧ s.live.get? id = some r') ∨
      ∃ r row, Moved cfg feat s inp r r' row ∧ row.reqId = id := by
  by_cases hid : id ∈ inp.reqIds
  · obtain ⟨r, r₁, row, hmoved, rfl⟩ := exists_row feat hok hlegal hid
    obtain rfl : r₁ = r' := Option.some.inj ((hmoved.after hlegal).symm.trans h)
    exact .inr ⟨r, row, hmoved, rfl⟩
  · rw [get?_nextLive_of_not_mem hid] at h
    exact .inl ⟨hid, h⟩

/-- What a request after a step has kept of the request before. -/
theorem kept_step (hok : ∀ id r, s.live.get? id = some r → RequestOk cfg s id r)
    (hlegal : Legal s inp) {id : ReqId} {r' : LiveRequest}
    (h : (nextLive cfg s.live inp).get? id = some r') :
    ∃ r, s.live.get? id = some r ∧ r'.table cfg = r.table cfg ∧ r.tokens <+: r'.tokens := by
  rcases before_step (fun _ => ()) hok hlegal h with ⟨-, hr⟩ | ⟨r, row, hmoved, rfl⟩
  · exact ⟨r', hr, rfl, List.prefix_rfl⟩
  · exact ⟨r, hmoved.before, hmoved.advance.table, hmoved.advance.tokens⟩

/-- The tokens of a prefix, cut within it. -/
theorem take_of_isPrefix {tokens tokens' : List Token} (h : tokens <+: tokens') {n : ℕ}
    (hn : n ≤ tokens.length) : tokens'.take n = tokens.take n := by
  obtain ⟨rest, rfl⟩ := h
  exact List.take_append_of_le_length hn

/-- **A cell survives a step**, or is written by it, when nothing but its own tokens is
committed to its slot and no temporary block reaches it. -/
theorem cell_step (hinv : Inv cfg net feat s) (hlegal : Legal s inp)
    (hout : propose cfg net s.validEnds s.cache (stepContext cfg feat s inp) = .ok out)
    {tokens : List Token} {b p : ℕ} (hlimit : p < cfg.maxModelLen)
    (hsource : Held cfg net feat s tokens b p ∨
      ∃ r r' row, Moved cfg feat s inp r r' row ∧ row.Writes cfg p (slotOf cfg b p))
    (hsame : ∀ r r' row q, Moved cfg feat s inp r r' row →
      (r.table cfg)[q / cfg.blockSize]? = some b →
      q % cfg.blockSize = p % cfg.blockSize → r.computed ≤ q → q < r'.computed →
      q = p ∧ r'.tokens.take (p + 1) = tokens.take (p + 1))
    (htemporary : ∀ r r' row q, Moved cfg feat s inp r r' row →
      (r.table cfg)[q / cfg.blockSize]? = some b → q % cfg.blockSize = p % cfg.blockSize →
      r'.computed + 1 = r'.tokens.length → r.tokens.length < r'.tokens.length →
      q < r'.computed) :
    out.cache (slotOf cfg b p) = committedCell net feat tokens p := by
  obtain ⟨written, hcommitted, hdraft⟩ := propose_ok (hinv.contiguous hlegal) hout
  -- no temporary block reaches the slot
  have hkeep : out.cache (slotOf cfg b p) = written (slotOf cfg b p) := by
    rcases hdraft (slotOf cfg b p) with hkeep | ⟨req, hreq, table, q, htable, hlow, hmapped, hcell⟩
    · exact hkeep
    · obtain ⟨r, r', row, hmoved, -, hstate, hlast, hgrow⟩ :=
        eligible_advance hinv.requests hlegal hreq
      have hgroup := (hinv.requests _ r hmoved.before).group
      rw [← hstate, hmoved.advance.blockIds, hgroup, Option.some.injEq] at htable
      subst htable
      have hentry : (r.table cfg)[q / cfg.blockSize]? = some (r.table cfg)[q / cfg.blockSize] :=
        List.getElem?_eq_getElem hmapped
      rw [cellOf_eq_slotOf hentry] at hcell
      obtain ⟨hb, hmod⟩ := slotOf_inj hcell
      rw [hb] at hentry
      have hbelow := htemporary r r' row q hmoved hentry hmod hlast hgrow
      have hlast' : r'.computed + 1 = req.2.tokenIds.length := by
        rw [← hstate]
        exact hlast
      omega
  rw [hkeep]
  rcases hcommitted.cells (slotOf cfg b p) with ⟨hold, hnone⟩ | ⟨row, hrow, q, f, hwrite, hf, hval⟩
  · -- nothing was committed to the slot: it held the cell already
    rw [hold]
    have hwrites : ∀ r r' row, Moved cfg feat s inp r r' row →
        ¬ row.Writes cfg p (slotOf cfg b p) := by
      intro r r' row hmoved hwrite
      refine hnone row (List.mem_filter.mpr ⟨hmoved.mem, decide_eq_true ?_⟩) p hwrite
      exact hwrite.1.trans_lt hwrite.2.1
    rcases hsource with (hcell | ⟨id, r, hlive, htable, hlow, hhigh, -⟩) | ⟨r, r', row, hmoved, hw⟩
    · exact hcell
    · have hscheduled : r.scheduled.isSome := by
        by_contra hcon
        rw [Bool.not_eq_true, Option.isSome_eq_false_iff, Option.isNone_iff_eq_none] at hcon
        have := LiveRequest.reach_le hcon
        omega
      obtain ⟨r₁, r', row, hmoved, rfl⟩ :=
        exists_row feat hinv.requests hlegal (hlegal.all id r hlive hscheduled)
      obtain rfl : r₁ = r := Option.some.inj (hmoved.before.symm.trans hlive)
      have hadv := hmoved.advance
      have hreach := hadv.reach
      obtain ⟨hstop, -⟩ := hadv.stop_eq
      refine absurd ⟨by rw [hadv.start]; exact hlow, by rw [hstop]; omega, ?_⟩
        (hwrites r₁ r' row hmoved)
      have hrowTable : row.table cfg = r₁.table cfg := by
        rw [IngestRow.table, hadv.groups, LiveRequest.table]
      rw [hrowTable, cellOf_eq_slotOf htable]
    · exact absurd hw (hwrites r r' row hmoved)
  · -- the committed row is one of the same tokens at the same position
    obtain ⟨hmem, -⟩ := List.mem_filter.mp hrow
    obtain ⟨r, r', hmoved⟩ := advance_of_mem hinv.requests hlegal hmem
    have hadv := hmoved.advance
    obtain ⟨hstop, -⟩ := hadv.stop_eq
    obtain ⟨hlow, hhigh, hcell⟩ := hwrite
    have hrowTable : row.table cfg = r.table cfg := by
      rw [IngestRow.table, hadv.groups, LiveRequest.table]
    have hmapped : q / cfg.blockSize < (r.table cfg).length :=
      hrowTable ▸ (hcommitted.mapped row hrow).div_lt hhigh
    have hentry : (r.table cfg)[q / cfg.blockSize]? = some (r.table cfg)[q / cfg.blockSize] :=
      List.getElem?_eq_getElem hmapped
    rw [hrowTable, cellOf_eq_slotOf hentry] at hcell
    obtain ⟨hb, hmod⟩ := slotOf_inj hcell
    rw [hb] at hentry
    rw [hadv.start] at hlow
    obtain ⟨rfl, htake⟩ := hsame r r' row q hmoved hentry hmod hlow (by omega)
    have hcount := hadv.count
    have hstart := hadv.start
    have hrows := hadv.rows (q - row.start) (by omega)
    rw [hf, Option.some.injEq, show r.computed + (q - row.start) + 1 = q + 1 by omega] at hrows
    rw [hval, hrows, htake, committedCell]

end Step

/-! ### The tracked lengths -/

theorem get?_foldl_advance {specTokens : Dict ReqId (List Token)} {decodes : List DecodeItem}
    (seqLens : Dict ReqId ℕ) (id : ReqId) (hnodup : (decodes.map DecodeItem.reqId).Nodup) :
    (decodes.foldl (fun seqLens d => advanceSeqLen seqLens d.reqId
      (d.next cfg specTokens).state.toRequestState (d.sampled specTokens).length) seqLens).get? id =
      match decodes.find? fun d => decide (d.reqId = id) with
      | none => seqLens.get? id
      | some d => some (seqLens.getD id ((d.next cfg specTokens).state.tokenIds.length -
          (d.sampled specTokens).length - 1) + (d.sampled specTokens).length) := by
  induction decodes generalizing seqLens with
  | nil => rfl
  | cons d decodes ih =>
    rw [List.map_cons, List.nodup_cons] at hnodup
    rw [List.foldl_cons, ih _ hnodup.2, List.find?_cons]
    by_cases hid : d.reqId = id
    · subst hid
      have hnone : (decodes.find? fun d' => decide (d'.reqId = d.reqId)) = none := by
        rw [List.find?_eq_none]
        intro d' hd'
        rw [decide_eq_true_eq]
        intro hsame
        exact hnodup.1 (hsame ▸ List.mem_map_of_mem hd')
      rw [hnone, decide_eq_true rfl]
      simp only
      rw [get?_advanceSeqLen, if_pos rfl]
    · rw [decide_eq_false hid]
      simp only [Dict.getD]
      rw [get?_advanceSeqLen, if_neg (Ne.symm hid)]

/-- A request that the step leaves out keeps its tracked length. -/
theorem get?_nextSeqLens_of_not_mem {seqLens : Dict ReqId ℕ} {inp : StepInput} {id : ReqId}
    (hnodup : inp.reqIds.Nodup) (hid : id ∉ inp.reqIds) :
    (nextSeqLens cfg seqLens inp).get? id = seqLens.get? id := by
  rw [StepInput.reqIds, List.mem_append, not_or] at hid
  have hprefills : id ∉ (inp.prefills.map fun p =>
      (p.reqId, p.prefill.startPos + p.prefill.tokenIds.length)).map Prod.fst := by
    rw [List.map_map]
    exact hid.2
  have hfold := Dict.get?_foldl_set_of_not_mem (inp.decodes.foldl (fun seqLens d =>
    advanceSeqLen seqLens d.reqId (d.next cfg inp.specTokens).state.toRequestState
      (d.sampled inp.specTokens).length) seqLens) hprefills
  rw [List.foldl_map] at hfold
  have hnone : (inp.decodes.find? fun d => decide (d.reqId = id)) = none := by
    rw [List.find?_eq_none]
    intro d hd
    rw [decide_eq_true_eq]
    intro hsame
    exact hid.1 (hsame ▸ List.mem_map_of_mem hd)
  have hdecodes := @get?_foldl_advance cfg inp.specTokens _ seqLens id
    (List.nodup_append.mp hnodup).1
  rw [hnone] at hdecodes
  exact hfold.trans hdecodes

/-- A prefill row sets the tracked length to the end of its chunk. -/
theorem get?_nextSeqLens_prefill {seqLens : Dict ReqId ℕ} {inp : StepInput} {p : PrefillItem}
    (hnodup : inp.reqIds.Nodup) (hp : p ∈ inp.prefills) :
    (nextSeqLens cfg seqLens inp).get? p.reqId =
      some (p.prefill.startPos + p.prefill.tokenIds.length) := by
  have hmem : (p.reqId, p.prefill.startPos + p.prefill.tokenIds.length) ∈
      inp.prefills.map fun p => (p.reqId, p.prefill.startPos + p.prefill.tokenIds.length) :=
    List.mem_map_of_mem hp
  have hnodup' : ((inp.prefills.map fun p =>
      (p.reqId, p.prefill.startPos + p.prefill.tokenIds.length)).map Prod.fst).Nodup := by
    rw [List.map_map]
    exact (List.nodup_append.mp hnodup).2.1
  have hfold := Dict.get?_foldl_set (inp.decodes.foldl (fun seqLens d =>
    advanceSeqLen seqLens d.reqId (d.next cfg inp.specTokens).state.toRequestState
      (d.sampled inp.specTokens).length) seqLens) hnodup' hmem
  rw [List.foldl_map] at hfold
  exact hfold

/-- A decode row advances the tracked length by what it samples. -/
theorem get?_nextSeqLens_decode {seqLens : Dict ReqId ℕ} {inp : StepInput} {d : DecodeItem}
    (hnodup : inp.reqIds.Nodup) (hd : d ∈ inp.decodes) {n : ℕ}
    (hn : seqLens.get? d.reqId = some n) : (nextSeqLens cfg seqLens inp).get? d.reqId =
      some (n + (d.sampled inp.specTokens).length) := by
  obtain ⟨hdecodes, -, hdisjoint⟩ := List.nodup_append.mp hnodup
  have hprefills : d.reqId ∉ (inp.prefills.map fun p =>
      (p.reqId, p.prefill.startPos + p.prefill.tokenIds.length)).map Prod.fst := by
    rw [List.map_map]
    intro hmem
    exact hdisjoint d.reqId (List.mem_map_of_mem hd) d.reqId hmem rfl
  have hfold := Dict.get?_foldl_set_of_not_mem (inp.decodes.foldl (fun seqLens d =>
    advanceSeqLen seqLens d.reqId (d.next cfg inp.specTokens).state.toRequestState
      (d.sampled inp.specTokens).length) seqLens) hprefills
  rw [List.foldl_map] at hfold
  have hfind : (inp.decodes.find? fun d' => decide (d'.reqId = d.reqId)) = some d := by
    cases hsome : inp.decodes.find? fun d' => decide (d'.reqId = d.reqId) with
    | none =>
      rw [List.find?_eq_none] at hsome
      exact absurd (decide_eq_true rfl) (hsome d hd)
    | some d' =>
      have hid : d'.reqId = d.reqId := by simpa using List.find?_some hsome
      rw [List.inj_on_of_nodup_map hdecodes (List.mem_of_find?_eq_some hsome) hd hid]
  have hadvance := @get?_foldl_advance cfg inp.specTokens _ seqLens d.reqId
    hdecodes
  rw [hfind] at hadvance
  simp only [Dict.getD, hn, Option.getD_some] at hadvance
  exact hfold.trans hadvance

/-! ### The invariant after a step -/

section Step

variable {inp : StepInput} {out : Proposal Cell}

/-- **A request that the step moves is as it should be.** -/
theorem RequestOk.step (hok : ∀ id r, s.live.get? id = some r → RequestOk cfg s id r)
    (hlegal : Legal s inp) {id : ReqId} {r' : LiveRequest}
    (h : (nextLive cfg s.live inp).get? id = some r') :
    RequestOk cfg (stepped cfg s inp out) id r' := by
  by_cases hid : id ∈ inp.reqIds
  · rcases List.mem_append.mp hid with hmem | hmem
    -- a decode request, which commits what it sampled
    · obtain ⟨d, hd, rfl⟩ := List.mem_map.mp hmem
      obtain ⟨i, hi⟩ := List.mem_iff_getElem?.mp hd
      have hmoved := moved_decode (fun _ => ()) hok hlegal hi
      obtain rfl : d.next cfg inp.specTokens = r' :=
        Option.some.inj ((hmoved.after hlegal).symm.trans h)
      obtain ⟨hlive, hgen, -, -⟩ := hlegal.decode d hd
      have hreq := hok _ _ hlive
      obtain ⟨hlast, hseq⟩ := hreq.decoding hgen
      have hlen : (d.next cfg inp.specTokens).tokens.length =
          d.request.tokens.length + (d.sampled inp.specTokens).length := List.length_append
      have hnonneg := hreq.generated
      have hcomputed : (d.next cfg inp.specTokens).computed =
          d.request.computed + (d.sampled inp.specTokens).length := rfl
      have hgenerated : (d.next cfg inp.specTokens).state.generatedTokens =
          d.request.state.generatedTokens + (d.sampled inp.specTokens).length := rfl
      exact
        { group := hreq.group
          prompt := by rw [hlen]; exact hreq.prompt.trans (Nat.le_add_right _ _)
          generated := by rw [hgenerated]; omega
          computed := hmoved.advance.computed
          scheduled := fun n hn => by cases hn
          decoding := fun _ => ⟨by omega, get?_nextSeqLens_decode hlegal.nodup hd hseq⟩
          prefilling := fun hzero => by rw [hgenerated] at hzero; omega }
    -- a prefill request, which gets a token only when its chunk ends the prompt
    · obtain ⟨p, hp, rfl⟩ := List.mem_map.mp hmem
      obtain ⟨i, hi⟩ := List.mem_iff_getElem?.mp hp
      have hmoved := moved_prefill (fun _ => ()) hok hlegal hi
      obtain rfl : p.next cfg = r' := Option.some.inj ((hmoved.after hlegal).symm.trans h)
      obtain ⟨hlive, hgen, -⟩ := hlegal.prefill p hp
      have hreq := hok _ _ hlive
      obtain ⟨hlen, hpos, hfit⟩ := length_prefill hok hlegal hp
      have hseq := @get?_nextSeqLens_prefill cfg s.seqLens _ _ hlegal.nodup hp
      have hcomputed : (p.next cfg).computed = p.request.computed + p.count := rfl
      have hadv := hmoved.advance
      have htokens := @tokens_prefilled cfg p.request p.sampled
      have hprompt := hreq.prompt
      have hprompt' : (p.next cfg).state.promptLen = p.request.state.promptLen := by
        simp only [PrefillItem.next, LiveRequest.prefilled]
        split <;> rfl
      have hgenerated : (p.next cfg).state.generatedTokens =
          if p.request.isIntermediate then 0
          else ((p.request.tokens.length + 1 : ℕ) : ℤ) - p.request.state.promptLen := by
        simp only [PrefillItem.next, LiveRequest.prefilled]
        split
        · exact hgen
        · simp
      refine
        { group := ?_
          prompt := ?_
          generated := ?_
          computed := hadv.computed
          scheduled := fun n hn => by cases hn
          decoding := fun hdecode => ?_
          prefilling := fun _ => hadv.computed }
      · rw [hadv.blockIds, hadv.table]
        exact hreq.group
      · rw [hprompt']
        exact hprompt.trans hadv.tokens.length_le
      · rw [hgenerated]
        split <;> omega
      · cases hmode : p.request.isIntermediate with
        | true => exact absurd (by rw [hgenerated, hmode, if_pos rfl]) hdecode
        | false =>
          have hend : p.request.tokens.length ≤ p.request.computed + p.count := by
            simpa [LiveRequest.isIntermediate, PrefillItem.count] using hmode
          refine ⟨?_, ?_⟩
          · rw [PrefillItem.next, htokens, hmode, if_neg (by simp), List.length_append,
              List.length_singleton, ← PrefillItem.next, hcomputed]
            omega
          · rw [hlen] at hseq
            exact hseq
  -- a request that the step leaves alone
  · rw [get?_nextLive_of_not_mem hid] at h
    have hreq := hok id r' h
    exact { hreq with
      decoding := fun hgen => by
        obtain ⟨hlast, hseq⟩ := hreq.decoding hgen
        exact ⟨hlast, by rw [stepped, get?_nextSeqLens_of_not_mem hlegal.nodup hid, hseq]⟩ }

/-- A position of a published block lies below the end of every request that maps it. -/
theorem Inv.below_published (hinv : Inv cfg net feat s) {b : ℕ} {prefixTokens : List Token}
    (hpub : s.published b = some prefixTokens) {id : ReqId} {r : LiveRequest} {q : ℕ}
    (hlive : s.live.get? id = some r) (htable : (r.table cfg)[q / cfg.blockSize]? = some b) :
    q < r.tokens.length :=
  (Nat.lt_mul_of_div_lt (Nat.lt_succ_self _) cfg.blockSize_pos).trans_le
    (hinv.shared b prefixTokens hpub id r _ hlive htable).1

/-- **Every covered position of a request holds its cell after the step.** -/
theorem Inv.covered_step (hinv : Inv cfg net feat s) (hlegal : Legal s inp)
    (hout : propose cfg net s.validEnds s.cache (stepContext cfg feat s inp) = .ok out)
    {id : ReqId} {r' : LiveRequest} (h : (nextLive cfg s.live inp).get? id = some r') {p : ℕ}
    (hp : p < r'.computed) (hlimit : p < cfg.maxModelLen) :
    ∃ b, (r'.table cfg)[p / cfg.blockSize]? = some b ∧
      out.cache (slotOf cfg b p) = committedCell net feat r'.tokens p := by
  obtain ⟨r, hlive, htable, htokens⟩ := kept_step hinv.requests hlegal h
  have hcomputed := (hinv.requests id r hlive).computed
  -- the page, and why its slot holds the cell or is about to
  obtain ⟨b, hb, hsource⟩ : ∃ b, (r.table cfg)[p / cfg.blockSize]? = some b ∧
      (Held cfg net feat s r'.tokens b p ∨ ∃ r₁ r₁' row, Moved cfg feat s inp r₁ r₁' row ∧
        row.Writes cfg p (slotOf cfg b p)) := by
    rcases Nat.lt_or_ge p r.computed with hdone | htodo
    · obtain ⟨b, hb, hcell⟩ := hinv.covered id r hlive p hdone hlimit
      exact ⟨b, hb, .inl (hcell.congr (take_of_isPrefix htokens (by omega)).symm)⟩
    · rcases before_step feat hinv.requests hlegal h with ⟨-, hr⟩ | ⟨r₁, row, hmoved, rfl⟩
      · obtain rfl : r = r' := Option.some.inj (hlive.symm.trans hr)
        omega
      · obtain rfl : r₁ = r := Option.some.inj (hmoved.before.symm.trans hlive)
        have hadv := hmoved.advance
        obtain ⟨hstop, hiff⟩ := hadv.stop_eq
        obtain ⟨written, hcommitted, -⟩ := propose_ok (hinv.contiguous hlegal) hout
        have hrowTable : row.table cfg = r₁.table cfg := by
          rw [IngestRow.table, hadv.groups, LiveRequest.table]
        have hrow : row ∈ committing cfg (stepRows (stepContext cfg feat s inp)) :=
          List.mem_filter.mpr ⟨hmoved.mem, decide_eq_true (hiff.mpr (by omega))⟩
        have hmapped : p / cfg.blockSize < (r₁.table cfg).length :=
          hrowTable ▸ (hcommitted.mapped row hrow).div_lt (by omega)
        have hentry : (r₁.table cfg)[p / cfg.blockSize]? =
            some (r₁.table cfg)[p / cfg.blockSize] := List.getElem?_eq_getElem hmapped
        refine ⟨_, hentry, .inr ⟨r₁, r', row, hmoved, ?_, by omega, ?_⟩⟩
        · rw [hadv.start]
          exact htodo
        · rw [hrowTable, cellOf_eq_slotOf hentry]
  refine ⟨b, htable ▸ hb, cell_step hinv hlegal hout hlimit hsource ?_ ?_⟩
  · -- whoever commits to the slot commits this position with these tokens
    intro r₁ r₁' row q hmoved hq hmod _ _
    cases hpub : s.published b with
    | none =>
      obtain ⟨hid, hindex⟩ := hinv.owned b hpub _ r₁ _ id r _ hmoved.before hq hlive hb
      obtain rfl := position_eq hindex hmod
      have hafter := hmoved.after hlegal
      rw [hid, h, Option.some.injEq] at hafter
      exact ⟨rfl, by rw [hafter]⟩
    | some prefixTokens =>
      obtain ⟨hle, hown⟩ := hinv.shared b prefixTokens hpub id r _ hlive hb
      obtain ⟨hle₁, hother⟩ := hinv.shared b prefixTokens hpub _ r₁ _ hmoved.before hq
      have hp := hinv.below_published hpub hlive hb
      have hindex : q / cfg.blockSize = p / cfg.blockSize := by
        have hlen := congrArg List.length (hown.symm.trans hother)
        rw [List.length_take, List.length_take, Nat.min_eq_left hle, Nat.min_eq_left hle₁] at hlen
        have := Nat.eq_of_mul_eq_mul_right cfg.blockSize_pos hlen
        omega
      obtain rfl := position_eq hindex hmod
      have hlt : q < (q / cfg.blockSize + 1) * cfg.blockSize :=
        Nat.lt_mul_of_div_lt (Nat.lt_succ_self _) cfg.blockSize_pos
      have hcut := congrArg (List.take (q + 1)) (hown.symm.trans hother)
      rw [List.take_take, List.take_take, Nat.min_eq_left (by omega)] at hcut
      refine ⟨rfl, ?_⟩
      rw [take_of_isPrefix hmoved.advance.tokens (by omega),
        take_of_isPrefix htokens (by omega), hcut]
  · intro r₁ r₁' row q hmoved hq hmod hlast hgrow
    cases hpub : s.published b with
    | none =>
      obtain ⟨hid, hindex⟩ := hinv.owned b hpub _ r₁ _ id r _ hmoved.before hq hlive hb
      obtain rfl := position_eq hindex hmod
      have hafter := hmoved.after hlegal
      rw [hid, h, Option.some.injEq] at hafter
      rw [← hafter]
      exact hp
    | some prefixTokens =>
      have := hinv.below_published hpub hmoved.before hq
      omega

/-- **Every published block holds its cells after the step.** -/
theorem Inv.published_step (hinv : Inv cfg net feat s) (hlegal : Legal s inp)
    (hout : propose cfg net s.validEnds s.cache (stepContext cfg feat s inp) = .ok out)
    {b : ℕ} {prefixTokens : List Token} (hpub : s.published b = some prefixTokens) {p : ℕ}
    (hp : p < prefixTokens.length) (hlow : prefixTokens.length ≤ p + cfg.blockSize)
    (hlimit : p < cfg.maxModelLen) :
    out.cache (slotOf cfg b p) = committedCell net feat prefixTokens p := by
  refine cell_step hinv hlegal hout hlimit
    (.inl (hinv.publishedHeld b prefixTokens hpub p hp hlow hlimit)) ?_ ?_
  · intro r r' row q hmoved hq hmod _ _
    have hindex := hinv.index_eq hpub hmoved.before hq hlow hp
    obtain rfl := position_eq hindex.symm hmod
    have hbelow := hinv.below_published hpub hmoved.before hq
    obtain ⟨hle, htake⟩ := hinv.shared b prefixTokens hpub _ r _ hmoved.before hq
    have hlt : q < (q / cfg.blockSize + 1) * cfg.blockSize :=
      Nat.lt_mul_of_div_lt (Nat.lt_succ_self _) cfg.blockSize_pos
    refine ⟨rfl, ?_⟩
    rw [take_of_isPrefix hmoved.advance.tokens (by omega), htake, List.take_take,
      Nat.min_eq_left (by omega)]
  · intro r r' row q hmoved hq _ hlast hgrow
    have := hinv.below_published hpub hmoved.before hq
    omega

/-- **A step keeps the invariant.** -/
theorem Inv.stepped (hinv : Inv cfg net feat s) (hlegal : Legal s inp)
    (hout : propose cfg net s.validEnds s.cache (stepContext cfg feat s inp) = .ok out) :
    Inv cfg net feat (stepped cfg s inp out) := by
  obtain ⟨written, hcommitted, -⟩ := propose_ok (hinv.contiguous hlegal) hout
  have hends := hinv.ends_step hlegal hcommitted.ends
  constructor
  · exact fun id r h => RequestOk.step hinv.requests hlegal h
  · intro id r h
    have hget := hends id
    rw [show (nextLive cfg s.live inp).get? id = some r from h] at hget
    exact hget
  · intro id h
    have hget := hends id
    rw [show (nextLive cfg s.live inp).get? id = none from h] at hget
    exact hget
  · intro id r' h hingested hlimit
    rcases before_step feat hinv.requests hlegal h with ⟨-, hr⟩ | ⟨r, row, hmoved, rfl⟩
    · exact hinv.unseen id r' hr hingested hlimit
    · -- a request that the step moves has reached the drafter's context, or starts behind it
      have hadv := hmoved.advance
      have hcount := hadv.count
      rw [hadv.ingested, Bool.or_eq_false_iff, decide_eq_false_iff_not] at hingested
      omega
  · exact hinv.full
  -- published blocks keep their tokens, since tables and token lists only grow
  · intro b prefixTokens hpub id r' i h htable
    obtain ⟨r, hlive, hsame, htokens⟩ := kept_step hinv.requests hlegal h
    rw [hsame] at htable
    obtain ⟨hle, htake⟩ := hinv.shared b prefixTokens hpub id r i hlive htable
    exact ⟨hle.trans htokens.length_le, by rw [htake, take_of_isPrefix htokens hle]⟩
  · intro b hpub id r i id' r' i' h htable h' htable'
    obtain ⟨q, hlive, hsame, -⟩ := kept_step hinv.requests hlegal h
    obtain ⟨q', hlive', hsame', -⟩ := kept_step hinv.requests hlegal h'
    rw [hsame] at htable
    rw [hsame'] at htable'
    exact hinv.owned b hpub id q i id' q' i' hlive htable hlive' htable'
  -- the cells: what the committed rows write, and what was there
  · intro id r' h p hp hlimit
    obtain ⟨b, hb, hcell⟩ := hinv.covered_step hlegal hout h hp hlimit
    exact ⟨b, hb, .inl hcell⟩
  · intro b prefixTokens hpub p hp hlow hlimit
    exact .inl (hinv.published_step hlegal hout hpub hp hlow hlimit)

end Step

/-! ### Runs -/

/-- **Every event keeps the invariant.** -/
theorem Inv.step (hinv : Inv cfg net feat s) {e : Event} (h : Step cfg net feat s e s') :
    Inv cfg net feat s' := by
  cases h with
  | evict hids =>
    refine hinv.drop hids rfl rfl rfl rfl fun id hid => ?_
    rw [Dict.get?_popAll, if_neg hid]
  | preempt hids => exact hinv.drop hids rfl rfl rfl rfl fun _ _ => rfl
  | arrive resumed hadmissible => exact hinv.arrive resumed hadmissible
  | grow hget hlen hnodup hfree => exact hinv.grow hget hlen hnodup hfree
  | schedule hget hnone hpos hfit => exact hinv.schedule hget hnone hpos hfit
  | publish _ hget htable hreach => exact hinv.publish hget htable hreach
  | step hlegal hout => exact hinv.stepped hlegal hout

theorem inv_of_run {cache : ℕ → Cell} {events : List Event}
    (h : Run (Step cfg net feat) (System.start cache) events s) : Inv cfg net feat s :=
  h.invariant (fun _ _ _ hinv hstep => Inv.step hinv hstep) (inv_start cache)

/-- What a call of `propose` leaves behind for a request in flight: the recorded end, and the
cells below it. -/
structure Covered (cfg : DrafterConfig) (net : DrafterNet F Cell) (feat : List Token → F)
    (s : System Cell) (id : ReqId) (r : LiveRequest) : Prop where
  decode : r.ingested = true → r.state.generatedTokens ≠ 0 →
    s.validEnds.get? id = some (min (r.tokens.length - 1) cfg.maxModelLen)
  chunked : r.ingested = true → r.state.generatedTokens = 0 →
    s.validEnds.get? id = some (min r.computed cfg.maxModelLen)
  cells : ∀ stop, s.validEnds.get? id = some stop → ∀ p < stop,
    p / cfg.blockSize < (r.table cfg).length ∧
      s.cache (cellOf cfg.blockSize (r.table cfg) p) = committedCell net feat r.tokens p

/-- **The block drafter's coverage is contiguous.**  In every state that a run reaches, a step
that the scheduler may make raises neither the discontinuous-context nor the anchor error; and
when `propose` returns, every request in flight that has reached the drafter's context has its
computed positions recorded, cut at the context limit, with the target feature of the committed
token at each of them, and no other request has an end recorded. -/
theorem block_draft_coverage {cache : ℕ → Cell} {events : List Event}
    (hrun : Run (Step cfg net feat) (System.start cache) events s) {inp : StepInput}
    (hlegal : Legal s inp) :
    (∀ e, propose cfg net s.validEnds s.cache (stepContext cfg feat s inp) = .error e →
      (∀ id, e ≠ .discontinuous id) ∧ e ≠ .anchor) ∧
    ∀ out, propose cfg net s.validEnds s.cache (stepContext cfg feat s inp) = .ok out →
      (∀ id r, (stepped cfg s inp out).live.get? id = some r →
        Covered cfg net feat (stepped cfg s inp out) id r) ∧
      ∀ id, (stepped cfg s inp out).live.get? id = none →
        (stepped cfg s inp out).validEnds.get? id = none := by
  have hinv := inv_of_run hrun
  constructor
  · intro e herror
    have hgap := hinv.no_gap hlegal herror
    exact ⟨fun id heq => hgap (by rw [heq]; trivial), fun heq => hgap (by rw [heq]; trivial)⟩
  · intro out hout
    have hinv' := hinv.stepped hlegal hout
    refine ⟨fun id r h => ?_, hinv'.ends_dead⟩
    have hends := hinv'.ends id r h
    refine ⟨fun hingested hgen => ?_, fun hingested _ => ?_, fun stop hstop p hp => ?_⟩
    · have hlast := ((hinv'.requests id r h).decoding hgen).1
      rw [hends, if_pos hingested, ← hlast, Nat.add_sub_cancel]
    · rw [hends, if_pos hingested]
    · rw [hends] at hstop
      split at hstop
      · have hle := Option.some.inj hstop
        obtain ⟨b, hb, hcell⟩ := hinv.covered_step hlegal hout h (p := p) (by omega) (by omega)
        exact ⟨(List.getElem?_eq_some_iff.mp hb).1, by rw [cellOf_eq_slotOf hb]; exact hcell⟩
      · cases hstop

/-! ### A chunked prompt -/

/-- Two positions to a block, and one draft behind its anchor. -/
def smallConfig : DrafterConfig where
  blockSize := 2
  blockSize_pos := by decide
  numBlocks := 4
  maxModelLen := 16
  numDraftTokens := 1
  extraSlots := 1
  groupIndex := 0
  enablePrefixCaching := true

/-- A network whose cells show what was written. -/
def traceNet : DrafterNet (List Token) (List Token × ℕ) where
  contextCell := fun feature p => (feature, p)
  blockCell := fun _ _ anchors _ i => (anchors, i)
  blockTokens := fun width _ anchors _ => anchors.map fun anchor => List.replicate width anchor

/-- A prompt of three tokens. -/
def promptRequest : DraftRequest where
  tokenIds := [5, 6, 7]
  promptLen := 3
  samplingParams := .greedy
  generatedTokens := 0
  blockIds := [[0, 1, 2]]
  mropePositionDelta := none
  numComputedTokens := 0
  maxTokens := none
  eosTokenId := none
  stopTokenIds := []

/-- Its first two tokens. -/
def firstChunk : StepInput where
  decodes := []
  prefills := [⟨0, ⟨promptRequest, 0, some 2, false⟩, 0, true⟩]
  specTokens := ∅
  width := 0

/-- The last token of the prompt, after which the step drafts. -/
def lastChunk : StepInput where
  decodes := []
  prefills := [⟨0, ⟨promptRequest, 2, some 1, true⟩, 8, false⟩]
  specTokens := ∅
  width := 1

/-- Admission of the prompt, its first chunk, and the schedule of the last. -/
def chunkedPrompt : List Event :=
  [.arrive 0 promptRequest [] [0, 1, 2] 0 false, .schedule 0 2, .step firstChunk, .schedule 0 1]

/-- A step that prefills the one request there is. -/
theorem legal_single {s : System (List Token × ℕ)} {live : Dict ReqId LiveRequest}
    {r : LiveRequest} {sampled : Token} {isNew : Bool} {width : ℕ}
    (hlive : s.live = live.set 0 r) (hother : ∀ id, id ≠ 0 → live.get? id = none)
    (hgen : r.state.generatedTokens = 0) (hsched : r.scheduled.isSome) :
    Legal s ⟨[], [⟨0, r, sampled, isNew⟩], ∅, width⟩ where
  nodup := by simp [StepInput.reqIds]
  decode := fun d hd => absurd hd List.not_mem_nil
  prefill := fun p hp => by
    obtain rfl := List.mem_singleton.mp hp
    exact ⟨by rw [hlive, Dict.get?_set, if_pos rfl], hgen, hsched⟩
  all := fun id q hq _ => by
    rw [hlive, Dict.get?_set] at hq
    split at hq
    · next hid => simp [StepInput.reqIds, hid]
    · next hid =>
      rw [hother id hid] at hq
      cases hq

/-- The prompt is admitted, and its first chunk scheduled. -/
def scheduledPrompt : System (List Token × ℕ) where
  live := ((∅ : Dict ReqId LiveRequest).set 0 ⟨promptRequest, 0, none, false⟩).set 0
    ⟨promptRequest, 0, some 2, false⟩
  seqLens := ∅
  awaiting := fun id => if id = 0 then false else false
  validEnds := ∅
  cache := fun _ => ([], 0)
  published := forgetBlocks (fun _ => none) [0, 1, 2]

theorem run_scheduledPrompt : Run (Step smallConfig traceNet id) (System.start fun _ => ([], 0))
    [.arrive 0 promptRequest [] [0, 1, 2] 0 false, .schedule 0 2] scheduledPrompt := by
  have hadmissible : Admissible smallConfig (System.start fun _ => (([] : List Token), 0)) 0
      promptRequest [] [0, 1, 2] 0 :=
    { notLive := rfl
      generated := rfl
      prompt := by decide
      blocks := rfl
      hit := nofun
      fresh_nodup := by decide
      fresh_free := fun b _ => ⟨fun i r h => by simp [System.start] at h, List.not_mem_nil⟩
      start := by decide
      caching := fun _ => rfl }
  exact .cons (.arrive false hadmissible) (.cons (.schedule (r := ⟨promptRequest, 0, none, false⟩)
    rfl rfl (by decide) fun _ => by decide) (.nil _))

theorem get?_scheduledPrompt {id : ReqId} (h : id ≠ 0) : Dict.get?
    ((∅ : Dict ReqId LiveRequest).set 0 ⟨promptRequest, 0, none, false⟩) id = none := by
  rw [Dict.get?_set, if_neg h, Dict.get?_empty]

theorem legal_firstChunk : Legal scheduledPrompt firstChunk :=
  legal_single rfl (fun _ => get?_scheduledPrompt) rfl rfl

theorem propose_firstChunk : ∃ out, propose smallConfig traceNet scheduledPrompt.validEnds
    scheduledPrompt.cache (stepContext smallConfig id scheduledPrompt firstChunk) = .ok out :=
  ⟨_, rfl⟩

/-- The chunked prompt leads to a state in which its last step is one the scheduler may make. -/
theorem run_chunkedPrompt : ∃ s : System (List Token × ℕ),
    Run (Step smallConfig traceNet id) (System.start fun _ => ([], 0)) chunkedPrompt s ∧
      Legal s lastChunk := by
  obtain ⟨out, hout⟩ := propose_firstChunk
  have hchunk : Step (F := List Token) smallConfig traceNet id scheduledPrompt
      (.step firstChunk) (stepped smallConfig scheduledPrompt firstChunk out) :=
    .step legal_firstChunk hout
  have hother : ∀ i, i ≠ 0 →
      (nextLive smallConfig scheduledPrompt.live firstChunk).get? i = none := by
    intro i hi
    have hnot : i ∉ firstChunk.reqIds := by simpa [StepInput.reqIds, firstChunk] using hi
    rw [get?_nextLive_of_not_mem (s := scheduledPrompt) hnot, scheduledPrompt, Dict.get?_set,
      if_neg hi, get?_scheduledPrompt hi]
  let s₃ := stepped smallConfig scheduledPrompt firstChunk out
  have hschedule : Step (F := List Token) smallConfig traceNet id s₃ (.schedule 0 1)
      { s₃ with live := s₃.live.set 0 ⟨promptRequest, 2, some 1, true⟩ } :=
    .schedule (r := ⟨promptRequest, 2, none, true⟩) rfl rfl (by decide) fun _ => by decide
  exact ⟨_, (run_scheduledPrompt.snoc hchunk).snoc hschedule, legal_single rfl hother rfl rfl⟩

/-- A prompt in two chunks, and what its last step may do. -/
theorem block_draft_coverage_chunked :
    ∃ s : System (List Token × ℕ),
      Run (Step smallConfig traceNet id) (System.start fun _ => ([], 0)) chunkedPrompt s ∧
      (∀ e, propose smallConfig traceNet s.validEnds s.cache
        (stepContext smallConfig id s lastChunk) = .error e →
        (∀ id, e ≠ .discontinuous id) ∧ e ≠ .anchor) ∧
      ∀ out, propose smallConfig traceNet s.validEnds s.cache
        (stepContext smallConfig id s lastChunk) = .ok out →
        (∀ i r, (stepped smallConfig s lastChunk out).live.get? i = some r →
          Covered smallConfig traceNet id (stepped smallConfig s lastChunk out) i r) ∧
        ∀ i, (stepped smallConfig s lastChunk out).live.get? i = none →
          (stepped smallConfig s lastChunk out).validEnds.get? i = none := by
  obtain ⟨s, hrun, hlegal⟩ := run_chunkedPrompt
  exact ⟨s, hrun, block_draft_coverage hrun hlegal⟩

end BlockDraft
end VllmMetal
