import VllmMetal.BlockDraft.PagedBlockSound

/-!
# A call of the compiled block

A call turns the rows of a batch into the arrays of the forward: padded tables, slots, bounds, and a
number of gathered positions that is a power of two, clamped.  The clamps leave room for the window
of every layer and the context of every request.

## Main definitions

* `PagedBatch` — the rows that a call accepts, and what the scheduler promises of their pages.
* `BlockInputs`, `DenseBlocks` — what a call is given, and what it returns.

## Main results

* `le_spanBucket` — the bucket holds every window.
* `PagedBatch.batchArrays` — the arrays of a call.
* `paged_block_eq_dense` — the blocks of a call are those of the dense forward, one by one.
-/

namespace VllmMetal
namespace BlockDraft

open Attention SpecDecode Matrix

/-! ### The bucket -/

/-- **The bucket holds the window and the block of every request.** -/
theorem le_spanBucket {maxWindow maxOffset width maxModelLen window offset : ℕ}
    (hwindow : window ≤ maxWindow) (hpos : 0 < window) (hoffset : offset ≤ maxOffset)
    (hwidth : 0 < width) (hfits : maxOffset + width ≤ maxModelLen) :
    min offset window + width ≤ spanBucket maxWindow maxOffset width maxModelLen := by
  have hpower : min maxOffset maxWindow + width - 1 <
      1 <<< (min maxOffset maxWindow + width - 1).size := by
    rw [Nat.one_shiftLeft]
    exact Nat.lt_size_self _
  rw [spanBucket, if_neg (by omega)]
  simp only
  split <;> omega

/-! ### The rows of a batch -/

/-- The rows that a call accepts.  The scheduler promises that a block which a row writes is at one
index of one row. -/
structure PagedBatch (cfg : DrafterConfig) (width : ℕ) (rows : List (List ℕ × ℕ)) : Prop where
  nonempty : rows ≠ []
  length_pos : ∀ row ∈ rows, 1 ≤ row.2
  covered : ∀ row ∈ rows, Mapped cfg.blockSize row.1 (row.2 + width)
  fits : ∀ row ∈ rows, row.2 + width ≤ cfg.maxModelLen
  inPool : ∀ row ∈ rows, ∀ i block : ℕ, row.1[i]? = some block →
    i * cfg.blockSize < row.2 + width → block < cfg.numBlocks
  own : ∀ (b b' : ℕ) (row row' : List ℕ × ℕ) (i i' block : ℕ), rows[b]? = some row →
    rows[b']? = some row' → row.1[i]? = some block → row'.1[i']? = some block →
    row.2 / cfg.blockSize ≤ i → i * cfg.blockSize < row.2 + width →
    i' * cfg.blockSize < row'.2 + width → b = b' ∧ i = i'

section Rows

variable {cfg : DrafterConfig} {width : ℕ} {rows : List (List ℕ × ℕ)}

theorem lt_cdiv {B i n : ℕ} (hB : 0 < B) : i < (n + B - 1) / B ↔ i * B < n := by
  rw [← Nat.succ_le_iff, Nat.le_div_iff_mul_le hB, Nat.succ_mul]
  omega

/-- The spans of a batch have slots. -/
theorem packedSlots_of_covered {spans : List Span}
    (hspans : ∀ span ∈ spans, 1 ≤ span.start ∧ span.start + span.count ≤ cfg.maxModelLen ∧
      Mapped cfg.blockSize span.blocks (span.start + span.count) ∧
      ∀ i block : ℕ, span.blocks[i]? = some block →
        i * cfg.blockSize < span.start + span.count → block < cfg.numBlocks) :
    packedSlots cfg .blockLimit 1 0 spans = .ok (spans.flatMap (Span.slots cfg.blockSize)) := by
  induction spans with
  | nil => rfl
  | cons span spans ih =>
    obtain ⟨hstart, hlimit, hmapped, hpool⟩ := hspans span List.mem_cons_self
    have hslots : slots cfg span = .ok (span.slots cfg.blockSize) := by
      have hused : (span.start + span.count + cfg.blockSize - 1) / cfg.blockSize ≤
          span.blocks.length := by
        rw [← Nat.lt_succ_iff, Nat.div_lt_iff_lt_mul cfg.blockSize_pos, Nat.succ_mul, Nat.mul_comm]
        have := cfg.blockSize_pos
        unfold Mapped at hmapped
        omega
      rw [slots, if_neg (Nat.not_lt.mpr hused), if_neg]
      rw [List.any_eq_true]
      rintro ⟨block, hblock, hout⟩
      obtain ⟨i, hi⟩ := List.mem_iff_getElem?.mp hblock
      have hused := (List.getElem?_eq_some_iff.mp hi).1
      rw [List.length_take, lt_min_iff] at hused
      rw [List.getElem?_take_of_lt hused.1] at hi
      rw [decide_eq_true_eq] at hout
      exact absurd (hpool i block hi ((lt_cdiv cfg.blockSize_pos).mp hused.1)) (Nat.not_lt.mpr hout)
    rw [packedSlots, if_neg (by omega), hslots,
      ih fun span' hspan' => hspans span' (List.mem_cons_of_mem _ hspan')]
    rfl

theorem PagedBatch.packedSlots_eq (h : PagedBatch cfg width rows) :
    packedSlots cfg .blockLimit 1 0 (rows.map (blockSpan width)) =
      .ok (rows.flatMap fun row => (blockSpan width row).slots cfg.blockSize) := by
  rw [packedSlots_of_covered, List.flatMap_map]
  intro span hspan
  obtain ⟨row, hrow, rfl⟩ := List.mem_map.mp hspan
  exact ⟨h.length_pos row hrow, h.fits row hrow, h.covered row hrow, h.inPool row hrow⟩

/-- Two cells of a batch, one of them written, are one cell only at one position. -/
theorem PagedBatch.separate (h : PagedBatch cfg width rows) {b b' : ℕ} {row row' : List ℕ × ℕ}
    (hrow : rows[b]? = some row) (hrow' : rows[b']? = some row') {p q : ℕ} (hp : row.2 ≤ p)
    (hp' : p < row.2 + width) (hq : q < row'.2 + width)
    (heq : cellOf cfg.blockSize row.1 p = cellOf cfg.blockSize row'.1 q) : b = b' ∧ p = q := by
  obtain ⟨hpage, hmod⟩ := (cellOf_eq_iff cfg.blockSize_pos).mp heq
  have hpl := (h.covered row (List.mem_of_getElem? hrow)).div_lt hp'
  have hql := (h.covered row' (List.mem_of_getElem? hrow')).div_lt hq
  have hblock := (pageOf_eq_iff hpl).mp hpage
  have hblock' := (pageOf_eq_iff hql).mp (Eq.refl (pageOf cfg.blockSize row'.1 q))
  have hle : ∀ x : ℕ, x / cfg.blockSize * cfg.blockSize ≤ x := fun x => Nat.div_mul_le_self x _
  obtain ⟨hb, hi⟩ := h.own b b' row row' _ _ _ hrow hrow' hblock hblock'
    (Nat.div_le_div_right hp) ((hle p).trans_lt hp') ((hle q).trans_lt hq)
  exact ⟨hb, by rw [← Nat.div_add_mod p cfg.blockSize, hi, hmod, Nat.div_add_mod]⟩

/-- The tables that a call builds name the cells of its rows. -/
theorem PagedBatch.cellOf_table (h : PagedBatch cfg width rows) {sizes : List ℕ}
    {kernelTables : List (List ℕ) × ℕ}
    (htables : buildBlockTables sizes (rawTables cfg width rows) cfg.blockSize = some kernelTables)
    {b p : ℕ} {row : List ℕ × ℕ} (hrow : rows[b]? = some row) (hp : p < row.2 + width) :
    cellOf kernelTables.2 (kernelTables.1.getD b []) p = cellOf cfg.blockSize row.1 p := by
  have hmapped := (h.covered row (List.mem_of_getElem? hrow)).div_lt hp
  have hused : p / cfg.blockSize < (row.2 + width + cfg.blockSize - 1) / cfg.blockSize :=
    (lt_cdiv cfg.blockSize_pos).mpr ((Nat.div_mul_le_self _ _).trans_lt hp)
  have htake : p / cfg.blockSize <
      (row.1.take ((row.2 + width + cfg.blockSize - 1) / cfg.blockSize)).length := by
    rw [List.length_take]
    exact lt_min hused hmapped
  refine (kernelCell_buildBlockTables cfg.blockSize_pos htables
    (by rw [rawTables, List.getElem?_map, hrow]; rfl) (by rw [List.length_append]; omega)).trans ?_
  rw [cellOf_append _ _ htake, cellOf, cellOf, pageOf, pageOf, List.getD_eq_getElem?_getD,
    List.getElem?_take_of_lt hused, ← List.getD_eq_getElem?_getD]

/-- The bucket of a call. -/
theorem PagedBatch.span_le (h : PagedBatch cfg width rows) (hwidth : 0 < width)
    {windows : List (Option ℕ)} {w : ℕ} (hw : some w ∈ windows) (hpos : 0 < w)
    {row : List ℕ × ℕ} (hrow : row ∈ rows) :
    min row.2 w + width ≤ spanBucket ((windows.map fun w => w.getD 0).foldl max 0)
      ((rows.map Prod.snd).foldl max 0) width cfg.maxModelLen := by
  refine le_spanBucket ((le_foldl_max _ 0).2 _ (List.mem_map.mpr ⟨some w, hw, rfl⟩)) hpos
    ((le_foldl_max _ 0).2 _ (List.mem_map_of_mem hrow)) hwidth ?_
  have hfits := h.fits row hrow
  have hmax : (rows.map Prod.snd).foldl max 0 ≤ cfg.maxModelLen - width :=
    foldl_max_le (Nat.zero_le _) fun n hn => by
      obtain ⟨row', hrow', rfl⟩ := List.mem_map.mp hn
      have := h.fits row' hrow'
      omega
  omega

/-- The committed positions and the table of request `b`. -/
def rowOf (rows : List (List ℕ × ℕ)) (b : ℕ) : List ℕ × ℕ := rows.getD b ([], 0)

theorem getElem?_rowOf {b : ℕ} (hb : b < rows.length) : rows[b]? = some (rowOf rows b) := by
  rw [rowOf, List.getD_eq_getElem _ _ hb, List.getElem?_eq_getElem hb]

variable (rows) in
theorem map_rowOf {β : Type*} (f : List ℕ × ℕ → β) :
    (List.range rows.length).map (fun b => f (rowOf rows b)) = rows.map f := by
  rw [← map_getD_range rows ([], 0) rfl, List.map_map, map_getD_range rows ([], 0) rfl]
  rfl

/-- The bounds of a call. -/
theorem ranges_eq_flatten (width : ℕ) (rows : List (List ℕ × ℕ)) :
    (rows.flatMap fun row => List.replicate width ((row.2 : ℤ), (row.2 : ℤ) + width - 1)) =
      (grid rows.length width fun b _ =>
        (((rowOf rows b).2 : ℤ), ((rowOf rows b).2 : ℤ) + width - 1)).flatten := by
  have hranges := congrArg List.flatten (map_rowOf rows fun row =>
    List.replicate width ((row.2 : ℤ), (row.2 : ℤ) + width - 1))
  refine (List.flatMap_def.trans hranges.symm).trans (congrArg List.flatten ?_)
  refine List.map_congr_left fun b _ => Eq.symm (List.map_const'.trans ?_)
  rw [List.length_range]

/-- **The arrays of a call.** -/
theorem PagedBatch.batchArrays (h : PagedBatch cfg width rows) (hwidth : 0 < width)
    {sizes : List ℕ} (hnative : cfg.blockSize ∈ sizes) (maxWindow : ℕ) : ∃ tables,
    buildBlockTables sizes (rawTables cfg width rows) cfg.blockSize =
        some (tables, cfg.blockSize) ∧
      BatchArrays (blockArrays cfg maxWindow width rows
        (rows.flatMap fun row => (blockSpan width row).slots cfg.blockSize) tables) rows.length
        (fun b => (rowOf rows b).2) (fun b => tables.getD b []) ∧
      ∀ b < rows.length, ∀ p < (rowOf rows b).2 + width,
        cellOf cfg.blockSize (tables.getD b []) p = cellOf cfg.blockSize (rowOf rows b).1 p := by
  have hraw : rawTables cfg width rows ≠ [] := by
    simpa [rawTables] using h.nonempty
  have hbuild : buildBlockTables sizes (rawTables cfg width rows) cfg.blockSize =
      some (padTables (rawTables cfg width rows), cfg.blockSize) := by
    rw [buildBlockTables, if_neg hraw, if_pos hnative]
  -- every block of the table that the call reads is the request's
  have hcell : ∀ b < rows.length, ∀ p < (rowOf rows b).2 + width,
      cellOf cfg.blockSize ((padTables (rawTables cfg width rows)).getD b []) p =
        cellOf cfg.blockSize (rowOf rows b).1 p :=
    fun b hb p hp => h.cellOf_table hbuild (getElem?_rowOf hb) hp
  refine ⟨_, hbuild, ⟨List.length_pos_iff.mpr h.nonempty, hwidth, ?_, ?_, ?_, ?_, ?_, ?_⟩, hcell⟩
  · exact (map_rowOf rows Prod.snd).symm
  · refine (map_getD_range (padTables (rawTables cfg width rows)) [] ?_).symm
    rw [padTables, List.length_map, rawTables, List.length_map]
  · have hslots := congrArg List.flatten
      (map_rowOf rows fun row => (blockSpan width row).slots cfg.blockSize)
    refine (List.flatMap_def.trans hslots.symm).trans (congrArg List.flatten ?_)
    refine List.map_congr_left fun b hb => ?_
    rw [List.mem_range] at hb
    rw [Span.slots, blockSpan, List.range'_eq_map_range, List.map_map]
    refine List.map_congr_left fun j hj => ?_
    rw [List.mem_range] at hj
    exact (hcell b hb _ (Nat.add_lt_add_left hj _)).symm
  · exact ranges_eq_flatten width rows
  -- a cell of the call lies in the pool
  · intro b hb p hp
    have hp' : p < (rowOf rows b).2 + width := hp
    have hrow := getElem?_rowOf hb
    have hmapped := (h.covered _ (List.mem_of_getElem? hrow)).div_lt hp'
    have hpage := h.inPool _ (List.mem_of_getElem? hrow) _ _
      ((pageOf_eq_iff hmapped).mp (Eq.refl (pageOf cfg.blockSize (rowOf rows b).1 p)))
      ((Nat.div_mul_le_self _ _).trans_lt hp')
    refine (hcell b hb p hp').trans_lt ?_
    have hmod := Nat.mod_lt p cfg.blockSize_pos
    have hmul := Nat.mul_le_mul_right cfg.blockSize hpage
    rw [Nat.succ_mul] at hmul
    exact (Nat.add_lt_add_left hmod _).trans_le hmul
  -- and two requests have no cell in common
  · intro b hb b' hb' p q hp hp' hq heq
    refine h.separate (getElem?_rowOf hb) (getElem?_rowOf hb') hp hp' hq ?_
    exact (hcell b hb p hp').symm.trans (heq.trans (hcell b' hb' q hq))

end Rows

/-! ### A call -/

variable {K Hid Head KvHead Dim : Type} [Field K] [Add Hid] [Fintype Dim]

/-- The pages of a row hold the projected context of its request in one layer. -/
structure HoldsRow (blockSize : ℕ) (row : List ℕ × ℕ) (cache : LayerCache K KvHead Dim)
    (context : LayerContext K KvHead Dim) : Prop where
  length_keys : context.1.length = row.2
  length_values : context.2.length = row.2
  keys : ∀ p < row.2, context.1[p]? = some (cache.keys (cellOf blockSize row.1 p))
  values : ∀ p < row.2, context.2[p]? = some (cache.values (cellOf blockSize row.1 p))

/-- What a call is given: rows, an embedded block for each, and a cache for every layer whose pages
hold the projected contexts. -/
structure BlockInputs (model : DFlashModel K Hid Head KvHead Dim) (cfg : DrafterConfig) (width : ℕ)
    (rows : List (List ℕ × ℕ)) (embeddings : List (List Hid))
    (contexts : ℕ → List (LayerContext K KvHead Dim)) (caches : List (LayerCache K KvHead Dim)) :
    Prop where
  width_pos : 0 < width
  width_le : width ≤ model.blockSize
  windows_pos : ∀ w, some w ∈ model.contextWindows → 0 < w
  batch : PagedBatch cfg width rows
  length_embeddings : embeddings.length = rows.length
  length_block : ∀ h ∈ embeddings, h.length = width
  length_caches : caches.length = model.layers.length
  length_contexts : ∀ b < rows.length, (contexts b).length = model.layers.length
  held : ∀ (b : ℕ) (row : List ℕ × ℕ) (i : ℕ) (cache : LayerCache K KvHead Dim)
    (context : LayerContext K KvHead Dim), rows[b]? = some row → caches[i]? = some cache →
    (contexts b)[i]? = some context → HoldsRow cfg.blockSize row cache context

/-- What a call returns: the states of every block, as the dense forward computes them, and caches
in which only the cells of the blocks are written. -/
structure DenseBlocks (exp : K → K) (model : DFlashModel K Hid Head KvHead Dim)
    (blockSize width : ℕ)
    (rows : List (List ℕ × ℕ)) (embeddings : List (List Hid))
    (contexts : ℕ → List (LayerContext K KvHead Dim)) (caches : List (LayerCache K KvHead Dim))
    (out : List (List Hid) × List (LayerCache K KvHead Dim)) : Prop where
  length_eq : out.1.length = rows.length
  states : ∀ b h, embeddings[b]? = some h → out.1[b]? = some (model.blockStates exp h (contexts b))
  normed : ∀ b h logitsStart, embeddings[b]? = some h →
    out.1[b]?.map (fun states => (states.drop logitsStart).map model.norm) =
      some (model.blockForward exp h (contexts b) logitsStart)
  written : List.Forall₂ (KeepsOthers (rows.flatMap fun row =>
    (List.range' row.2 width).map (cellOf blockSize row.1))) caches out.2

section Call

variable {model : DFlashModel K Hid Head KvHead Dim} {cfg : DrafterConfig} {width : ℕ}
  {rows : List (List ℕ × ℕ)} {embeddings : List (List Hid)}
  {contexts : ℕ → List (LayerContext K KvHead Dim)} {caches : List (LayerCache K KvHead Dim)}

omit [Field K] [Add Hid] [Fintype Dim] in
/-- The blocks as a grid. -/
theorem BlockInputs.embeddings_eq
    (h : BlockInputs model cfg width rows embeddings contexts caches) :
    ∃ d : ℕ → ℕ → Hid, embeddings = grid rows.length width d ∧
      ∀ b block, embeddings[b]? = some block → (List.range width).map (d b) = block := by
  have hlen : 0 < embeddings.length := by
    rw [h.length_embeddings]
    exact List.length_pos_iff.mpr h.batch.nonempty
  have hfirst := h.length_block _ (List.getElem_mem hlen)
  obtain ⟨x, -⟩ := List.exists_mem_of_length_pos (hfirst ▸ h.width_pos)
  have hrow : ∀ b block, embeddings[b]? = some block →
      (List.range width).map (fun j => (embeddings.getD b []).getD j x) = block := by
    intro b block hb
    rw [getD_of_getElem? [] hb]
    exact map_getD_range block _ (h.length_block block (List.mem_of_getElem? hb))
  refine ⟨_, List.ext_getElem? fun b => ?_, hrow⟩
  by_cases hb : b < rows.length
  · have hb' : b < embeddings.length := h.length_embeddings ▸ hb
    rw [grid, List.getElem?_map, List.getElem?_range hb, Option.map_some,
      hrow b _ (List.getElem?_eq_getElem hb'), List.getElem?_eq_getElem hb']
  · rw [List.getElem?_eq_none (by rw [h.length_embeddings]; omega),
      List.getElem?_eq_none (by rw [length_grid]; omega)]

omit [Add Hid] [Fintype Dim] in
/-- The pages hold the contexts of a layer. -/
theorem BlockInputs.holdsContext (h : BlockInputs model cfg width rows embeddings contexts caches)
    {a : BlockArrays} {t : ℕ → List ℕ} (hsize : a.blockSize = cfg.blockSize)
    (hcell : ∀ b < rows.length, ∀ p < (rowOf rows b).2 + width,
      cellOf cfg.blockSize (t b) p = cellOf cfg.blockSize (rowOf rows b).1 p)
    (i : ℕ) (cache : LayerCache K KvHead Dim) (hcache : caches[i]? = some cache) :
    HoldsContext a rows.length (fun b => (rowOf rows b).2) t cache
      fun b => (contexts b).getD i ([], []) := by
  have hi : i < caches.length := (List.getElem?_eq_some_iff.mp hcache).1
  have hrow : ∀ b < rows.length, HoldsRow cfg.blockSize (rowOf rows b) cache
      ((contexts b).getD i ([], [])) := fun b hb => by
    have hcontext : i < (contexts b).length := by
      rw [h.length_contexts b hb, ← h.length_caches]
      exact hi
    refine h.held b _ i cache _ (getElem?_rowOf hb) hcache ?_
    rw [List.getD_eq_getElem _ _ hcontext, List.getElem?_eq_getElem]
  refine ⟨fun b hb => (hrow b hb).length_keys, fun b hb => (hrow b hb).length_values,
    fun b hb p hp => ?_, fun b hb p hp => ?_⟩
  · rw [hsize, hcell b hb p (Nat.lt_add_right width hp)]
    exact (getD_of_getElem? 0 ((hrow b hb).keys p hp)).symm
  · rw [hsize, hcell b hb p (Nat.lt_add_right width hp)]
    exact (getD_of_getElem? 0 ((hrow b hb).values p hp)).symm

/-- The states of a block, from the rounds of its layers. -/
theorem BlockInputs.blockStates_eq (h : BlockInputs model cfg width rows embeddings contexts caches)
    (exp : K → K) {b : ℕ} (hb : b < rows.length) (block : List Hid) :
    model.blockStates exp block (contexts b) =
      ((model.layers.zip model.contextWindows).zip (contexts b)).foldl
        (fun h round => model.layerForward exp (rowOf rows b).2 round.1.1 round.1.2 h round.2)
        block := by
  refine model.blockStates_eq_foldl exp block fun context hcontext => ?_
  have hfirst : (contexts b)[0]? = some context := by
    rw [← List.head?_eq_getElem?]
    exact hcontext
  have hlayers := (List.getElem?_eq_some_iff.mp hfirst).1
  rw [h.length_contexts b hb, ← h.length_caches] at hlayers
  exact (h.held b _ 0 _ context (getElem?_rowOf hb) (List.getElem?_eq_getElem hlayers)
    hfirst).length_keys

/-- **A call returns the dense blocks.** -/
theorem BlockInputs.draft_ok {embed : List Token → List (List Hid)} {anchors : List Token}
    (h : BlockInputs model cfg width rows (embed anchors) contexts caches) {sizes : List ℕ}
    (hnative : cfg.blockSize ∈ sizes) (hanchors : anchors.length = rows.length) (exp : K → K) :
    ∃ out, draft sizes exp model cfg width embed anchors rows caches = .ok out ∧
      DenseBlocks exp model cfg.blockSize width rows (embed anchors) contexts caches out := by
  obtain ⟨tables, hbuild, harrays, hcell⟩ :=
    h.batch.batchArrays h.width_pos hnative model.maxWindow
  obtain ⟨d, hgrid, hblocks⟩ := h.embeddings_eq
  have hzip : (model.layers.zip model.contextWindows).length = model.layers.length := by
    rw [List.length_zip, model.windows_length, Nat.min_self]
  -- the window of a layer fits the bucket of the gathered span
  have hspan : ∀ layer ∈ model.layers.zip model.contextWindows, ∀ w, layer.2 = some w →
      ∀ b < rows.length, min (rowOf rows b).2 w + width ≤
        spanBucket model.maxWindow ((rows.map Prod.snd).foldl max 0) width cfg.maxModelLen := by
    intro layer hlayer w hw b hb
    have hmem : some w ∈ model.contextWindows := hw ▸ (List.of_mem_zip hlayer).2
    exact h.batch.span_le h.width_pos hmem (h.windows_pos w hmem)
      (List.mem_of_getElem? (getElem?_rowOf hb))
  obtain ⟨d', caches', hrun, hstates, hkept⟩ := harrays.pagedLayers_eq exp model hspan
    (h.length_caches.trans hzip.symm) (fun b hb => (h.length_contexts b hb).trans hzip.symm)
    (h.holdsContext rfl hcell) d
  -- block `b` of the grid is the dense block
  have hout : ∀ b block, (embed anchors)[b]? = some block → (grid rows.length width d')[b]? =
      some (model.blockStates exp block (contexts b)) := by
    intro b block hblock
    have hb : b < rows.length := h.length_embeddings ▸ (List.getElem?_eq_some_iff.mp hblock).1
    rw [h.blockStates_eq exp hb, ← hblocks b block hblock]
    refine Eq.trans ?_ (congrArg some (hstates b hb))
    rw [grid, List.getElem?_map, List.getElem?_range hb, Option.map_some]
    rfl
  refine ⟨(grid rows.length width d', caches'), ?_, ⟨length_grid _ _ _, hout,
    fun b block logitsStart hblock => ?_, hkept⟩⟩
  -- none of the guards of the call raises
  · have hsome : anchors ≠ [] := fun hnil => by
      rw [hnil, List.length_nil] at hanchors
      exact Nat.ne_of_lt harrays.pos hanchors
    have hwidth : ¬ (width < 1 ∨ model.blockSize < width) := by
      have hpos := h.width_pos
      have hle := h.width_le
      omega
    rw [draft, if_neg hwidth, if_neg hsome, if_neg (fun hne => hne hanchors.symm),
      h.batch.packedSlots_eq]
    simp only [hbuild]
    rw [if_neg (fun hne => hne rfl), pagedForward, if_neg]
    · exact (congrArg (pagedLayers exp model _ _ caches) hgrid).trans hrun
    · rintro (hne | ⟨block, hblock, hne⟩)
      · exact hne (h.length_embeddings.trans hanchors.symm)
      · exact hne (h.length_block block hblock)
  · rw [hout b block hblock]
    rfl

end Call

/-- The positions that are gathered for a layer with a window and valid. -/
theorem PagedBatch.gathered_eq {cfg : DrafterConfig} {width : ℕ} {rows : List (List ℕ × ℕ)}
    (h : PagedBatch cfg width rows) (hwidth : 0 < width) {windows : List (Option ℕ)} {window : ℕ}
    (hwindow : some window ∈ windows) (hpos : 0 < window) {row : List ℕ × ℕ} (hrow : row ∈ rows) :
    (List.range' (row.2 - window) (min (window + width) (spanBucket
        ((windows.map fun w => w.getD 0).foldl max 0) ((rows.map Prod.snd).foldl max 0) width
        cfg.maxModelLen))).filter (fun p => decide (p < row.2 + width)) =
      List.range' (row.2 - window) (row.2 + width - (row.2 - window)) := by
  have hspan := h.span_le hwidth hwindow hpos hrow
  have hfilter := @filter_gathered false row.2 width window _ 0
    (le_min (by omega : min row.2 window + width ≤ window + width) hspan)
  have hlength : min row.2 window + width = row.2 + width - (row.2 - window) := by omega
  simpa [visible, hlength] using hfilter

/-- The keys that the kernel leaves row `j` of block `b`. -/
theorem kernelKeys_ranges {width b j : ℕ} {rows : List (List ℕ × ℕ)} {row : List ℕ × ℕ}
    (hrow : rows[b]? = some row) (hj : j < width) :
    kernelKeys (-1) (row.2 + width) (mmPrefixRow (if 1 < width then
      some (rows.flatMap fun row => List.replicate width ((row.2 : ℤ), (row.2 : ℤ) + width - 1))
      else none) (b * width + j)) (row.2 + j) = List.range (row.2 + width) := by
  refine kernelKeys_block _ fun hw => ?_
  have hb : b < rows.length := (List.getElem?_eq_some_iff.mp hrow).1
  have hown : rowOf rows b = row := Option.some.inj ((getElem?_rowOf hb).symm.trans hrow)
  obtain ⟨hdiv, -⟩ := @packed_div_mod width b j hj
  rw [if_pos hw, mmPrefixRow, ranges_eq_flatten, flatten_grid,
    List.getD_eq_getElem _ _ (by simpa using packed_lt hb hj)]
  simp [hdiv, hown]

/-- **The blocks of a call are those of the dense forward, one by one.**  Of a layer with a window
exactly the positions from the window on are gathered and valid, and of any other layer the kernel
leaves every row of a block all positions of its request. -/
theorem paged_block_eq_dense (sizes : List ℕ) (exp : K → K)
    (model : DFlashModel K Hid Head KvHead Dim) (cfg : DrafterConfig) (width : ℕ)
    (embed : List Token → List (List Hid)) (anchors : List Token) (rows : List (List ℕ × ℕ))
    (caches : List (LayerCache K KvHead Dim)) (contexts : ℕ → List (LayerContext K KvHead Dim))
    (h : BlockInputs model cfg width rows (embed anchors) contexts caches)
    (hnative : cfg.blockSize ∈ sizes) (hanchors : anchors.length = rows.length) :
    (∃ out, draft sizes exp model cfg width embed anchors rows caches = .ok out ∧
      DenseBlocks exp model cfg.blockSize width rows (embed anchors) contexts caches out) ∧
    (∀ row ∈ rows, ∀ window, some window ∈ model.contextWindows →
      (List.range' (row.2 - window) (min (window + width) (spanBucket model.maxWindow
          ((rows.map Prod.snd).foldl max 0) width cfg.maxModelLen))).filter
            (fun p => decide (p < row.2 + width)) =
        List.range' (row.2 - window) (row.2 + width - (row.2 - window))) ∧
    ∀ b j row, rows[b]? = some row → j < width →
      kernelKeys (-1) (row.2 + width) (mmPrefixRow (if 1 < width then
        some (rows.flatMap fun row => List.replicate width ((row.2 : ℤ), (row.2 : ℤ) + width - 1))
        else none) (b * width + j)) (row.2 + j) = List.range (row.2 + width) :=
  ⟨h.draft_ok hnative hanchors exp,
    fun _ hrow window hwindow =>
      h.batch.gathered_eq h.width_pos hwindow (h.windows_pos window hwindow) hrow,
    fun _ _ _ hrow hj => kernelKeys_ranges hrow hj⟩

/-- A layer of one head, all its spaces of dimension one. -/
def unitLayer : DecoderLayer ℚ ℚ Unit Unit Unit where
  selfAttn :=
    { qProj := fun x _ _ => x
      kProj := fun x _ _ => 2 * x
      vProj := fun x _ _ => x + 1
      oProj := fun out => out () ()
      qNorm := id
      kNorm := id }
  mlp := fun x => 3 * x
  inputLayernorm := id
  postAttentionLayernorm := id

/-- A model of a layer without a window and a causal one of a window of one. -/
def unitModel : DFlashModel ℚ ℚ Unit Unit Unit where
  layers := [unitLayer, unitLayer]
  contextWindows := [none, some 1]
  windows_length := rfl
  causalBlocks := true
  norm := id
  rope := fun p x => (p : ℚ) • x
  kvHead := id
  scale := 1
  blockSize := 4

/-- Two pages of four positions. -/
def twoPages : DrafterConfig where
  blockSize := 4
  blockSize_pos := Nat.succ_pos 3
  numBlocks := 2
  maxModelLen := 8
  numDraftTokens := 1
  extraSlots := 1
  groupIndex := 0
  enablePrefixCaching := false

/-- A cache that holds its slots. -/
def slotCache : LayerCache ℚ Unit Unit := ⟨fun slot _ _ => slot, fun slot _ _ => slot + 7, 4⟩

/-- The context of a row, as its pages hold it. -/
def slotContext (row : List ℕ × ℕ) : LayerContext ℚ Unit Unit :=
  ((List.range row.2).map fun p => slotCache.keys (cellOf 4 row.1 p),
    (List.range row.2).map fun p => slotCache.values (cellOf 4 row.1 p))

theorem holdsRow_slotContext (row : List ℕ × ℕ) : HoldsRow 4 row slotCache (slotContext row) where
  length_keys := by simp [slotContext]
  length_values := by simp [slotContext]
  keys p hp := by simp [slotContext, hp]
  values p hp := by simp [slotContext, hp]

theorem pagedBatch_two : PagedBatch twoPages 2 [([0], 1), ([1], 2)] where
  nonempty := by simp
  length_pos := by simp
  covered := by simp [Mapped, twoPages]
  fits := by simp [twoPages]
  inPool := by
    intro row hrow i block hblock _
    rw [List.mem_cons, List.mem_singleton] at hrow
    rcases hrow with rfl | rfl <;> cases i <;> simp at hblock <;> simp [twoPages] <;> omega
  own := by
    intro b b' row row' i i' block hrow hrow' hi hi' _ _ _
    rcases b with _ | _ | b <;> rcases b' with _ | _ | b' <;> simp at hrow hrow' <;>
      subst hrow <;> subst hrow' <;> simp [List.getElem?_singleton] at hi hi' <;> omega

theorem blockInputs_two : BlockInputs unitModel twoPages 2 [([0], 1), ([1], 2)] [[3, 5], [4, 5]]
    (fun b => let row := rowOf [([0], 1), ([1], 2)] b
      [slotContext row, slotContext row]) [slotCache, slotCache] where
  width_pos := by decide
  width_le := by decide
  windows_pos := by simp [unitModel]
  batch := pagedBatch_two
  length_embeddings := rfl
  length_block := by simp
  length_caches := rfl
  length_contexts _ _ := rfl
  held b row i cache context hrow hcache hcontext := by
    obtain rfl : rowOf [([0], 1), ([1], 2)] b = row := getD_of_getElem? _ hrow
    obtain rfl : slotCache = cache := by
      rcases i with _ | _ | i
      · exact Option.some.inj hcache
      · exact Option.some.inj hcache
      · cases hcache
    obtain rfl : slotContext (rowOf [([0], 1), ([1], 2)] b) = context := by
      rcases i with _ | _ | i
      · exact Option.some.inj hcontext
      · exact Option.some.inj hcontext
      · cases hcontext
    exact holdsRow_slotContext _

/-- Two blocks behind contexts of one and two positions. -/
theorem paged_block_eq_dense_two : ∃ out,
    draft [4] (fun x => 1 + x * x) unitModel twoPages 2
        (fun anchors => anchors.map fun token => [(token : ℚ), 5]) [3, 4] [([0], 1), ([1], 2)]
        [slotCache, slotCache] = .ok out ∧
      out.1[1]? = some (unitModel.blockStates (fun x => 1 + x * x) [4, 5]
        [slotContext ([1], 2), slotContext ([1], 2)]) := by
  obtain ⟨⟨out, hout, hdense⟩, -⟩ :=
    paged_block_eq_dense [4] (fun x => 1 + x * x) unitModel twoPages
    2 (fun anchors => anchors.map fun token => [(token : ℚ), 5]) [3, 4] [([0], 1), ([1], 2)]
    [slotCache, slotCache] _ blockInputs_two (by decide) rfl
  exact ⟨out, hout, hdense.states 1 [4, 5] rfl⟩

end BlockDraft
end VllmMetal
