import VllmMetal.BlockDraft.Proposer
import VllmMetal.Lib.Ragged

/-!
# What a step of the block-draft proposer does

One lemma for each part of `propose`: rows that continue the recorded ends are all ingested,
a committed span leaves the projected feature at every one of its positions and nothing
elsewhere, and a block touches only positions behind the requests it was drafted for.

## Main results

* `ingestAll_ok` — rows that continue the recorded ends are ingested.
* `commitContext_spec` — the cells and the ends after the committed rows are written.
* `draftStep_spec` — what drafting may overwrite.
* `propose_ok`, `propose_error` — the whole call, and which errors it cannot raise.
-/

namespace VllmMetal
namespace BlockDraft

variable {F Cell : Type*} {cfg : DrafterConfig} {net : DrafterNet F Cell}

/-- The errors that say the committed context has a gap. -/
def ProposeError.Gap : ProposeError → Prop
  | .discontinuous _ | .anchor => True
  | _ => False

/-! ### Ingesting -/

namespace IngestRow

/-- One past the last position that the row commits. -/
def stop (cfg : DrafterConfig) (r : IngestRow) : ℕ := min (r.start + r.count) cfg.maxModelLen

/-- The row commits something within the context limit. -/
def Commits (cfg : DrafterConfig) (r : IngestRow) : Prop := r.start < r.stop cfg

instance (cfg : DrafterConfig) (r : IngestRow) : Decidable (r.Commits cfg) :=
  inferInstanceAs (Decidable (_ < _))

/-- The scheduler's blocks in the drafter's group. -/
def table (cfg : DrafterConfig) (r : IngestRow) : List ℕ := r.groups.getD cfg.groupIndex []

/-- The span that the row adds. -/
def span (cfg : DrafterConfig) (r : IngestRow) : Span :=
  ⟨r.table cfg, r.start, r.stop cfg - r.start⟩

/-- The packed rows of that span. -/
def slice (cfg : DrafterConfig) (r : IngestRow) : ℕ × ℕ := (r.row, r.row + r.stop cfg - r.start)

/-- The row starts at the recorded end, or adopts the coverage it starts at. -/
def Continues (cfg : DrafterConfig) (validEnds : Dict ReqId ℕ) (r : IngestRow) : Prop :=
  r.start = validEnds.getD r.reqId (if r.isPrefill && cfg.enablePrefixCaching then r.start else 0)

end IngestRow

/-- The rows that commit something. -/
def committing (cfg : DrafterConfig) (rows : List IngestRow) : List IngestRow :=
  rows.filter fun r => decide (r.Commits cfg)

/-- The ends that the rows record. -/
def newEnds (cfg : DrafterConfig) (updates : Dict ReqId ℕ) (rows : List IngestRow) :
    Dict ReqId ℕ :=
  rows.foldl (fun updates r => updates.set r.reqId (r.stop cfg)) updates

/-- What a loop over rows that continue the recorded ends collects. -/
def Ingested.extend (cfg : DrafterConfig) (acc : Ingested) (rows : List IngestRow) : Ingested where
  spans := acc.spans ++ rows.map (IngestRow.span cfg)
  slices := acc.slices ++ rows.map (IngestRow.slice cfg)
  updates := newEnds cfg acc.updates rows

theorem ingest_ok {validEnds : Dict ReqId ℕ} {r : IngestRow} (acc : Ingested)
    (h : r.Commits cfg → r.Continues cfg validEnds ∧ (r.groups[cfg.groupIndex]?).isSome) :
    ingest cfg validEnds acc r = .ok (acc.extend cfg (committing cfg [r])) := by
  by_cases hcommits : r.Commits cfg
  · obtain ⟨hcont, hgroup⟩ := h hcommits
    obtain ⟨blocks, hblocks⟩ := Option.isSome_iff_exists.mp hgroup
    have hlt : ¬ r.start ≥ min (r.start + r.count) cfg.maxModelLen := Nat.not_le.mpr hcommits
    have htable : r.table cfg = blocks := by
      rw [IngestRow.table, List.getD_eq_getElem?_getD, hblocks, Option.getD_some]
    simp only [ingest, if_neg hlt, IngestRow.Continues] at hcont ⊢
    rw [if_neg (not_not.mpr hcont), hblocks, committing, List.filter_singleton,
      decide_eq_true hcommits]
    simp only [Ingested.extend, newEnds, cond_true, List.map_singleton, List.foldl_cons,
      List.foldl_nil, IngestRow.span, IngestRow.slice, htable]
    rfl
  · have hge : r.start ≥ min (r.start + r.count) cfg.maxModelLen := Nat.not_lt.mp hcommits
    simp only [ingest, if_pos hge, committing, List.filter_singleton, decide_eq_false hcommits,
      Ingested.extend, newEnds, cond_false, List.map_nil, List.append_nil, List.foldl_nil]

theorem Ingested.extend_append (acc : Ingested) (rows rows' : List IngestRow) :
    (acc.extend cfg rows).extend cfg rows' = acc.extend cfg (rows ++ rows') := by
  simp [Ingested.extend, newEnds]

/-- **Rows that continue the recorded ends are ingested.** -/
theorem ingestAll_ok {validEnds : Dict ReqId ℕ} {rows : List IngestRow} (acc : Ingested)
    (h : ∀ r ∈ rows, r.Commits cfg →
      r.Continues cfg validEnds ∧ (r.groups[cfg.groupIndex]?).isSome) :
    ingestAll cfg validEnds acc rows = .ok (acc.extend cfg (committing cfg rows)) := by
  induction rows generalizing acc with
  | nil => simp [ingestAll, Ingested.extend, committing, newEnds]
  | cons r rows ih =>
    have hrest : committing cfg (r :: rows) = committing cfg [r] ++ committing cfg rows := by
      rw [committing, committing, committing, ← List.filter_append, List.singleton_append]
    rw [ingestAll, ingest_ok acc (h r List.mem_cons_self), hrest]
    simp only
    rw [ih _ fun r' hr' => h r' (List.mem_cons_of_mem r hr'), Ingested.extend_append]

/-- The rows of a step, decode segments first. -/
def stepRows (ctx : ProposeContext F) : List IngestRow :=
  List.zipWith decodeIngest ctx.decodeSegments ctx.decodeTokenIds ++
    ctx.prefillReqs.mapIdx fun i =>
      prefillIngest (ctx.cuSeqlens.getD (ctx.numDecodeSegments + i) 0)

theorem ingestStep_ok {validEnds : Dict ReqId ℕ} {ctx : ProposeContext F}
    (hlen : ctx.decodeSegments.length = ctx.decodeTokenIds.length)
    (h : ∀ r ∈ stepRows ctx, r.Commits cfg →
      r.Continues cfg validEnds ∧ (r.groups[cfg.groupIndex]?).isSome) :
    ingestStep cfg validEnds ctx =
      .ok ((⟨[], [], ∅⟩ : Ingested).extend cfg (committing cfg (stepRows ctx))) := by
  rw [ingestStep, ingestAll_ok _ fun r hr => h r (List.mem_append_left _ hr)]
  simp only
  rw [if_neg (not_not.mpr hlen), ingestAll_ok _ fun r hr => h r (List.mem_append_right _ hr),
    Ingested.extend_append, committing, committing, ← List.filter_append]
  rfl

/-! ### Slots -/

theorem slots_ok {span : Span} {ids : List ℕ} (h : slots cfg span = .ok ids) :
    ids = span.slots cfg.blockSize ∧
      Mapped cfg.blockSize span.blocks (span.start + span.count) := by
  simp only [slots] at h
  split at h
  · cases h
  · next hused =>
    split at h
    · cases h
    · exact ⟨(Except.ok.inj h).symm, mapped_of_ceil_le cfg.blockSize_pos (Nat.not_lt.mp hused)⟩

theorem slots_error {span : Span} {e : ProposeError} (h : slots cfg span = .error e) :
    ¬ e.Gap := by
  simp only [slots] at h
  split at h
  · cases h
    exact id
  · split at h
    · cases h
      exact id
    · cases h

theorem packedSlots_ok {limit : ProposeError} {lowStart lowCount : ℕ} {spans : List Span}
    {ids : List ℕ} (h : packedSlots cfg limit lowStart lowCount spans = .ok ids) :
    ids = spans.flatMap (Span.slots cfg.blockSize) ∧
      ∀ span ∈ spans, Mapped cfg.blockSize span.blocks (span.start + span.count) := by
  induction spans generalizing ids with
  | nil =>
    cases h
    simp
  | cons span spans ih =>
    rw [packedSlots] at h
    split at h
    · cases h
    · cases hslots : slots cfg span with
      | error e => simp [hslots] at h
      | ok here =>
        cases hrest : packedSlots cfg limit lowStart lowCount spans with
        | error e => simp [hslots, hrest] at h
        | ok rest =>
          simp only [hslots, hrest, Except.ok.injEq] at h
          obtain ⟨rfl, hmapped⟩ := slots_ok hslots
          obtain ⟨rfl, hall⟩ := ih hrest
          refine ⟨by rw [← h, List.flatMap_cons], ?_⟩
          intro span' hspan'
          rcases List.mem_cons.mp hspan' with rfl | hspan'
          · exact hmapped
          · exact hall span' hspan'

theorem packedSlots_error {limit e : ProposeError} {lowStart lowCount : ℕ} {spans : List Span}
    (hlimit : ¬ limit.Gap) (h : packedSlots cfg limit lowStart lowCount spans = .error e) :
    ¬ e.Gap := by
  induction spans with
  | nil => cases h
  | cons span spans ih =>
    rw [packedSlots] at h
    split at h
    · cases h
      exact hlimit
    · cases hslots : slots cfg span with
      | error e' =>
        simp only [hslots, Except.error.injEq] at h
        exact h ▸ slots_error hslots
      | ok here =>
        cases hrest : packedSlots cfg limit lowStart lowCount spans with
        | error e' =>
          simp only [hslots, hrest, Except.error.injEq] at h
          exact ih (h ▸ hrest)
        | ok rest => simp [hslots, hrest] at h

theorem mem_span_slots {B : ℕ} {span : Span} {slot : ℕ} :
    slot ∈ span.slots B ↔
      ∃ p, span.start ≤ p ∧ p < span.start + span.count ∧ cellOf B span.blocks p = slot := by
  simp only [Span.slots, List.mem_map, List.mem_range'_1, and_assoc]

/-! ### Committed cells -/

theorem getElem?_sliceRows {α : Type*} {rows : List α} {a b j : ℕ} {x : α}
    (h : (sliceRows rows (a, b))[j]? = some x) : rows[a + j]? = some x := by
  rw [sliceRows, List.getElem?_drop, List.getElem?_take] at h
  split at h
  · exact h
  · cases h

theorem length_sliceRows {α : Type*} {rows : List α} {a b : ℕ} (h : b ≤ rows.length) :
    (sliceRows rows (a, b)).length = b - a := by
  rw [sliceRows, List.length_drop, List.length_take, Nat.min_eq_left h]

/-- The slot `slot` is one that the row commits. -/
def IngestRow.Writes (cfg : DrafterConfig) (r : IngestRow) (p slot : ℕ) : Prop :=
  r.start ≤ p ∧ p < r.stop cfg ∧ cellOf cfg.blockSize (r.table cfg) p = slot

/-- The row's packed features are there. -/
def IngestRow.HasRows (cfg : DrafterConfig) (features : List F) (r : IngestRow) : Prop :=
  r.start ≤ r.stop cfg ∧ r.row + r.stop cfg - r.start ≤ features.length

/-- Rows and positions that a step commits, in packed order. -/
def committedPositions (cfg : DrafterConfig) (rows : List IngestRow) : List (IngestRow × ℕ) :=
  rows.flatMap fun r => (List.range' r.start (r.stop cfg - r.start)).map fun p => (r, p)

theorem map_slot_committedPositions (rows : List IngestRow) :
    (rows.map (IngestRow.span cfg)).flatMap (Span.slots cfg.blockSize) =
      (committedPositions cfg rows).map fun w =>
        cellOf cfg.blockSize (w.1.table cfg) w.2 := by
  rw [committedPositions, List.flatMap_map, List.map_flatMap]
  simp [Span.slots, IngestRow.span, Function.comp_def]

theorem map_snd_committedPositions (rows : List IngestRow) :
    (rows.map (IngestRow.span cfg)).flatMap (fun span => List.range' span.start span.count) =
      (committedPositions cfg rows).map Prod.snd := by
  rw [committedPositions, List.flatMap_map, List.map_flatMap]
  simp [IngestRow.span, Function.comp_def]

/-- **A committed span leaves the projected feature at each of its positions**, and every
other slot as it was. -/
theorem writeContext_spec {cache cache' : ℕ → Cell} {features : List F} {rows : List IngestRow}
    (hrows : ∀ r ∈ rows, r.HasRows cfg features)
    (h : writeContext cfg net cache
      ((rows.map (IngestRow.slice cfg)).flatMap (sliceRows features))
      (rows.map (IngestRow.span cfg)) = .ok cache') (slot : ℕ) :
    (cache' slot = cache slot ∧ ∀ r ∈ rows, ∀ p, ¬ r.Writes cfg p slot) ∨
      ∃ r ∈ rows, ∃ p f, r.Writes cfg p slot ∧ features[r.row + (p - r.start)]? = some f ∧
        cache' slot = net.contextCell f p := by
  rw [writeContext] at h
  cases hids : packedSlots cfg .spanLimit 0 1 (rows.map (IngestRow.span cfg)) with
  | error e => simp [hids] at h
  | ok ids =>
    obtain ⟨rfl, -⟩ := packedSlots_ok hids
    simp only [hids] at h
    split at h
    · cases h
    · next hcount =>
      rw [map_slot_committedPositions, map_snd_committedPositions, List.flatMap_map] at h
      rw [map_snd_committedPositions, List.flatMap_map, not_not] at hcount
      have hcache := Except.ok.inj h
      set packed := rows.flatMap fun r => sliceRows features (r.slice cfg) with hpacked
      have hlen : ((committedPositions cfg rows).map fun w =>
          cellOf cfg.blockSize (w.1.table cfg) w.2).length ≤ (List.zipWith net.contextCell packed
            ((committedPositions cfg rows).map Prod.snd)).length := by
        rw [List.length_zipWith, hcount, List.length_map, List.length_map, Nat.min_self]
      rcases scatter_cases cache hlen slot with ⟨hmem, hval⟩ | ⟨i, hi, hrow⟩
      -- no row of the step has the slot
      · refine .inl ⟨by rw [← hcache, hval], ?_⟩
        rintro r hr p ⟨hlow, hhigh, hcell⟩
        refine hmem (List.mem_map.mpr ⟨(r, p), ?_, hcell⟩)
        exact List.mem_flatMap.mpr ⟨r, hr, List.mem_map.mpr
          ⟨p, List.mem_range'_1.mpr ⟨hlow, by omega⟩, rfl⟩⟩
      · -- the slot was written: by which row, at which of its positions
        refine .inr ?_
        rw [List.getElem?_map, Option.map_eq_some_iff] at hi
        obtain ⟨⟨r, p⟩, hw, hcell⟩ := hi
        rw [List.getElem?_zipWith_eq_some] at hrow
        obtain ⟨f, p', hf, hp', hval⟩ := hrow
        rw [List.getElem?_map, hw, Option.map_some, Option.some.injEq] at hp'
        obtain rfl : p = p' := hp'
        -- a row's positions and its slice of the features have one length
        have hseg : ∀ r ∈ rows,
            ((List.range' r.start (r.stop cfg - r.start)).map fun p => (r, p)).length =
              (sliceRows features (r.slice cfg)).length := by
          intro r hr
          obtain ⟨hle, hfit⟩ := hrows r hr
          rw [List.length_map, List.length_range', IngestRow.slice, length_sliceRows hfit]
          omega
        obtain ⟨r', hr', j, hj, hfj⟩ := getElem?_flatMap_pair hseg hw hf
        rw [List.getElem?_map, Option.map_eq_some_iff] at hj
        obtain ⟨q, hq, hpair⟩ := hj
        obtain ⟨rfl, rfl⟩ := Prod.mk.inj hpair
        obtain ⟨hjlt, hqval⟩ := List.getElem?_eq_some_iff.mp hq
        rw [List.getElem_range', Nat.one_mul] at hqval
        rw [List.length_range'] at hjlt
        refine ⟨r', hr', q, f, ⟨by omega, by omega, hcell⟩, ?_, by rw [← hcache, ← hval]⟩
        have hrowIndex := getElem?_sliceRows hfj
        rwa [show q - r'.start = j by omega]

/-- What the committed rows of a step leave behind. -/
structure Committed (cfg : DrafterConfig) (net : DrafterNet F Cell) (features : List F)
    (rows : List IngestRow) (validEnds validEnds' : Dict ReqId ℕ) (cache cache' : ℕ → Cell) :
    Prop where
  ends : ∀ id, validEnds'.get? id = ((newEnds cfg ∅ rows).get? id).or (validEnds.get? id)
  mapped : ∀ r ∈ rows, Mapped cfg.blockSize (r.table cfg) (r.stop cfg)
  cells : ∀ slot, (cache' slot = cache slot ∧ ∀ r ∈ rows, ∀ p, ¬ r.Writes cfg p slot) ∨
    ∃ r ∈ rows, ∃ p f, r.Writes cfg p slot ∧ features[r.row + (p - r.start)]? = some f ∧
      cache' slot = net.contextCell f p

/-- **The cells and the ends after the committed rows are written.** -/
theorem commitContext_spec {validEnds validEnds' : Dict ReqId ℕ} {cache cache' : ℕ → Cell}
    {features : List F} {rows : List IngestRow} (hrows : ∀ r ∈ rows, r.HasRows cfg features)
    (h : commitContext cfg net validEnds cache features
      ((⟨[], [], ∅⟩ : Ingested).extend cfg rows) = .ok (validEnds', cache')) :
    Committed cfg net features rows validEnds validEnds' cache cache' := by
  simp only [commitContext, Ingested.extend, List.nil_append, List.map_eq_nil_iff] at h
  split at h
  · next hnil =>
    subst hnil
    obtain ⟨rfl, rfl⟩ := Prod.mk.inj (Except.ok.inj h)
    exact ⟨by simp [newEnds], by simp, fun slot => .inl ⟨rfl, by simp⟩⟩
  · cases hwrite : writeContext cfg net cache
        ((rows.map (IngestRow.slice cfg)).flatMap (sliceRows features))
        (rows.map (IngestRow.span cfg)) with
    | error e => simp [hwrite] at h
    | ok written =>
      simp only [hwrite] at h
      obtain ⟨rfl, rfl⟩ := Prod.mk.inj (Except.ok.inj h)
      refine ⟨fun id => Dict.get?_update _ _ _, ?_, writeContext_spec hrows hwrite⟩
      intro r hr
      cases hids : packedSlots cfg .spanLimit 0 1 (rows.map (IngestRow.span cfg)) with
      | error e => simp [writeContext, hids] at hwrite
      | ok ids =>
        have hmapped := (packedSlots_ok hids).2 (r.span cfg) (List.mem_map_of_mem hr)
        have hle := (hrows r hr).1
        rwa [show (r.span cfg).start + (r.span cfg).count = r.stop cfg by
          simp only [IngestRow.span]; omega] at hmapped

theorem writeContext_error {cache : ℕ → Cell} {features : List F} {spans : List Span}
    {e : ProposeError} (h : writeContext cfg net cache features spans = .error e) : ¬ e.Gap := by
  rw [writeContext] at h
  cases hids : packedSlots cfg .spanLimit 0 1 spans with
  | error e' =>
    simp only [hids, Except.error.injEq] at h
    exact h ▸ packedSlots_error id hids
  | ok ids =>
    simp only [hids] at h
    split at h
    · cases h
      exact id
    · cases h

theorem commitContext_error {validEnds : Dict ReqId ℕ} {cache : ℕ → Cell} {features : List F}
    {acc : Ingested} {e : ProposeError}
    (h : commitContext cfg net validEnds cache features acc = .error e) : ¬ e.Gap := by
  rw [commitContext] at h
  split at h
  · cases h
  · cases hwrite : writeContext cfg net cache (acc.slices.flatMap (sliceRows features))
        acc.spans with
    | error e' =>
      simp only [hwrite, Except.error.injEq] at h
      exact h ▸ writeContext_error hwrite
    | ok written => simp [hwrite] at h

/-! ### Drafting -/

/-- The request's context ends where the proposer has it recorded, if a block fits behind. -/
def Anchored (cfg : DrafterConfig) (width : ℕ) (validEnds : Dict ReqId ℕ)
    (req : ReqId × DraftRequest) : Prop :=
  req.2.tokenIds.length - 1 + width + cfg.extraSlots ≤ cfg.maxModelLen →
    req.2.tokenIds.length - 1 = validEnds.getD req.1 0

theorem selectRow_ok {width : ℕ} {validEnds : Dict ReqId ℕ} {req : ReqId × DraftRequest}
    {row : DraftRow} (h : selectRow cfg width validEnds req = .ok (some row)) :
    req.2.blockIds[cfg.groupIndex]? = some row.blocks ∧
      row.stop = req.2.tokenIds.length - 1 := by
  simp only [selectRow] at h
  split at h
  · cases h
  · split at h
    · cases h
    · split at h
      · cases h
      · split at h
        · cases h
        · split at h
          · cases h
          · next blocks hblocks =>
            obtain rfl := Option.some.inj (Except.ok.inj h)
            exact ⟨hblocks, rfl⟩

theorem selectRow_error {width : ℕ} {validEnds : Dict ReqId ℕ} {req : ReqId × DraftRequest}
    {e : ProposeError} (hanchored : Anchored cfg width validEnds req)
    (h : selectRow cfg width validEnds req = .error e) : ¬ e.Gap := by
  simp only [selectRow] at h
  split at h
  · cases h
  · split at h
    · cases h
    · split at h
      · cases h
      · next hfits =>
        rw [if_neg (not_not.mpr (hanchored (Nat.not_lt.mp hfits)))] at h
        split at h
        · cases h
          exact id
        · cases h

theorem selectRows_ok {width : ℕ} {validEnds : Dict ReqId ℕ} {reqs : List (ReqId × DraftRequest)}
    {rows : List DraftRow} (h : selectRows cfg width validEnds reqs = .ok rows) :
    ∀ row ∈ rows, ∃ req ∈ reqs, selectRow cfg width validEnds req = .ok (some row) := by
  induction reqs generalizing rows with
  | nil =>
    cases h
    simp
  | cons req reqs ih =>
    rw [selectRows] at h
    cases hrow : selectRow cfg width validEnds req with
    | error e => simp [hrow] at h
    | ok row =>
      cases hrest : selectRows cfg width validEnds reqs with
      | error e => simp [hrow, hrest] at h
      | ok rest =>
        simp only [hrow, hrest, Except.ok.injEq] at h
        subst h
        intro row' hrow'
        rcases List.mem_append.mp hrow' with hmem | hmem
        · exact ⟨req, List.mem_cons_self, by rw [hrow, Option.mem_toList.mp hmem]⟩
        · obtain ⟨req', hreq', hsel⟩ := ih hrest row' hmem
          exact ⟨req', List.mem_cons_of_mem req hreq', hsel⟩

theorem selectRows_error {width : ℕ} {validEnds : Dict ReqId ℕ}
    {reqs : List (ReqId × DraftRequest)} {e : ProposeError}
    (hanchored : ∀ req ∈ reqs, Anchored cfg width validEnds req)
    (h : selectRows cfg width validEnds reqs = .error e) : ¬ e.Gap := by
  induction reqs with
  | nil => cases h
  | cons req reqs ih =>
    rw [selectRows] at h
    cases hrow : selectRow cfg width validEnds req with
    | error e' =>
      simp only [hrow, Except.error.injEq] at h
      exact h ▸ selectRow_error (hanchored req List.mem_cons_self) hrow
    | ok row =>
      cases hrest : selectRows cfg width validEnds reqs with
      | error e' =>
        simp only [hrow, hrest, Except.error.injEq] at h
        exact ih (fun req' hreq' => hanchored req' (List.mem_cons_of_mem req hreq')) (h ▸ hrest)
      | ok rest => simp [hrow, hrest] at h

/-- A slot that a temporary block may overwrite: one behind the committed context of a
request it is drafted for, in that request's own pages. -/
def Temporary (cfg : DrafterConfig) (ctx : ProposeContext F) (slot : ℕ) : Prop :=
  ∃ req ∈ draftEligibleRequests ctx, ∃ table p, req.2.blockIds[cfg.groupIndex]? = some table ∧
    req.2.tokenIds.length - 1 ≤ p ∧ p / cfg.blockSize < table.length ∧
    cellOf cfg.blockSize table p = slot

theorem draftBlock_cells {cache cache' : ℕ → Cell} {width : ℕ} {rows : List DraftRow}
    {tokens : List (List Token)} (h : draftBlock cfg net cache width rows = .ok (cache', tokens))
    (slot : ℕ) : cache' slot = cache slot ∨ ∃ row ∈ rows, ∃ p, row.stop ≤ p ∧
      p / cfg.blockSize < row.blocks.length ∧ cellOf cfg.blockSize row.blocks p = slot := by
  rw [draftBlock] at h
  cases hids : packedSlots cfg .blockLimit 1 0 (rows.map (DraftRow.span cfg width)) with
  | error e => simp [hids] at h
  | ok ids =>
    simp only [hids, Except.ok.injEq, Prod.mk.injEq] at h
    by_cases hmem : slot ∈ ids
    · obtain ⟨rfl, hmapped⟩ := packedSlots_ok hids
      obtain ⟨span, hspan, hslot⟩ := List.mem_flatMap.mp hmem
      obtain ⟨row, hrow, rfl⟩ := List.mem_map.mp hspan
      obtain ⟨p, hlow, hhigh, hcell⟩ := mem_span_slots.mp hslot
      exact .inr ⟨row, hrow, p, hlow, (hmapped _ hspan).div_lt hhigh, hcell⟩
    · exact .inl (by rw [← h.1, scatter_of_not_mem hmem])

theorem draftBlock_error {cache : ℕ → Cell} {width : ℕ} {rows : List DraftRow} {e : ProposeError}
    (h : draftBlock cfg net cache width rows = .error e) : ¬ e.Gap := by
  rw [draftBlock] at h
  cases hids : packedSlots cfg .blockLimit 1 0 (rows.map (DraftRow.span cfg width)) with
  | error e' =>
    simp only [hids, Except.error.injEq] at h
    exact h ▸ packedSlots_error id hids
  | ok ids => simp [hids] at h

/-- **Drafting keeps the recorded ends and touches temporary slots alone.** -/
theorem draftStep_spec {validEnds : Dict ReqId ℕ} {cache : ℕ → Cell} {ctx : ProposeContext F}
    {out : Proposal Cell} (h : draftStep cfg net validEnds cache ctx = .ok out) :
    out.validEnds = validEnds ∧
      ∀ slot, out.cache slot = cache slot ∨ Temporary cfg ctx slot := by
  rw [draftStep] at h
  cases hrows : draftRows cfg validEnds ctx with
  | error e => simp [hrows] at h
  | ok rows =>
    simp only [hrows] at h
    split at h
    · obtain rfl := Except.ok.inj h
      exact ⟨rfl, fun slot => .inl rfl⟩
    · next hne =>
      cases hblock : draftBlock cfg net cache (draftWidth rows) rows with
      | error e => simp [hblock] at h
      | ok result =>
        simp only [hblock] at h
        obtain rfl := Except.ok.inj h
        refine ⟨rfl, fun slot => ?_⟩
        rcases draftBlock_cells hblock slot with hkeep | ⟨row, hrow, p, hlow, hmapped, hcell⟩
        · exact .inl hkeep
        · rw [draftRows] at hrows
          split at hrows
          · exact absurd (Except.ok.inj hrows).symm hne
          · obtain ⟨req, hreq, hsel⟩ := selectRows_ok hrows row hrow
            obtain ⟨htable, hstop⟩ := selectRow_ok hsel
            exact .inr ⟨req, hreq, row.blocks, p, htable, hstop ▸ hlow, hmapped, hcell⟩

theorem draftStep_error {validEnds : Dict ReqId ℕ} {cache : ℕ → Cell} {ctx : ProposeContext F}
    {e : ProposeError} (hanchored : 0 < ctx.numSpeculativeTokens →
      ∀ req ∈ draftEligibleRequests ctx, Anchored cfg ctx.numSpeculativeTokens validEnds req)
    (h : draftStep cfg net validEnds cache ctx = .error e) : ¬ e.Gap := by
  rw [draftStep] at h
  cases hrows : draftRows cfg validEnds ctx with
  | error e' =>
    simp only [hrows, Except.error.injEq] at h
    rw [draftRows] at hrows
    split at hrows
    · cases hrows
    · next hwidth => exact h ▸ selectRows_error (hanchored (Nat.pos_of_ne_zero hwidth)) hrows
  | ok rows =>
    simp only [hrows] at h
    split at h
    · cases h
    · cases hblock : draftBlock cfg net cache (draftWidth rows) rows with
      | error e' =>
        simp only [hblock, Except.error.injEq] at h
        exact h ▸ draftBlock_error hblock
      | ok result => simp [hblock] at h

/-! ### The whole call -/

/-- What `propose` is handed when every row continues the recorded ends. -/
structure Contiguous (cfg : DrafterConfig) (validEnds : Dict ReqId ℕ) (ctx : ProposeContext F) :
    Prop where
  zip : ctx.decodeSegments.length = ctx.decodeTokenIds.length
  rows : ∀ r ∈ stepRows ctx, r.Commits cfg →
    r.Continues cfg validEnds ∧ (r.groups[cfg.groupIndex]?).isSome
  features : ∀ r ∈ committing cfg (stepRows ctx), r.HasRows cfg ctx.targetAuxHiddenStates

/-- **A call that returns has committed the rows of the step and then drafted.** -/
theorem propose_ok {validEnds : Dict ReqId ℕ} {cache : ℕ → Cell} {ctx : ProposeContext F}
    {out : Proposal Cell} (hctx : Contiguous cfg validEnds ctx)
    (h : propose cfg net validEnds cache ctx = .ok out) : ∃ written,
      Committed cfg net ctx.targetAuxHiddenStates (committing cfg (stepRows ctx)) validEnds
        out.validEnds cache written ∧
      ∀ slot, out.cache slot = written slot ∨ Temporary cfg ctx slot := by
  rw [propose] at h
  split at h
  · cases h
  · split at h
    · cases h
    · rw [ingestStep_ok hctx.zip hctx.rows] at h
      simp only at h
      cases hcommit : commitContext cfg net validEnds cache ctx.targetAuxHiddenStates
          ((⟨[], [], ∅⟩ : Ingested).extend cfg (committing cfg (stepRows ctx))) with
      | error e => simp [hcommit] at h
      | ok result =>
        simp only [hcommit] at h
        obtain ⟨hends, hcells⟩ := draftStep_spec h
        have hspec := commitContext_spec hctx.features hcommit
        rw [← hends] at hspec
        exact ⟨result.2, hspec, hcells⟩

/-- **A call whose rows continue the recorded ends finds no gap**, when every request it may
draft for ends at the end then recorded. -/
theorem propose_error {validEnds : Dict ReqId ℕ} {cache : ℕ → Cell} {ctx : ProposeContext F}
    {e : ProposeError} (hctx : Contiguous cfg validEnds ctx)
    (hanchored : 0 < ctx.numSpeculativeTokens → ∀ ends : Dict ReqId ℕ,
      (∀ id, ends.get? id =
        ((newEnds cfg ∅ (committing cfg (stepRows ctx))).get? id).or (validEnds.get? id)) →
      ∀ req ∈ draftEligibleRequests ctx, Anchored cfg ctx.numSpeculativeTokens ends req)
    (h : propose cfg net validEnds cache ctx = .error e) : ¬ e.Gap := by
  rw [propose] at h
  split at h
  · cases h
    exact id
  · split at h
    · cases h
      exact id
    · rw [ingestStep_ok hctx.zip hctx.rows] at h
      simp only at h
      cases hcommit : commitContext cfg net validEnds cache ctx.targetAuxHiddenStates
          ((⟨[], [], ∅⟩ : Ingested).extend cfg (committing cfg (stepRows ctx))) with
      | error e' =>
        simp only [hcommit, Except.error.injEq] at h
        exact h ▸ commitContext_error hcommit
      | ok result =>
        simp only [hcommit] at h
        have hspec := commitContext_spec hctx.features hcommit
        exact draftStep_error (fun hwidth => hanchored hwidth result.1 hspec.ends) h

end BlockDraft
end VllmMetal
