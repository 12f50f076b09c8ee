import VllmMetal.Lib.Splice
import VllmMetal.Attention.Addressing
import VllmMetal.Attention.MmPrefix

/-!
# Image blocks recomputed after the kernel

Without a kernel that knows image blocks, their rows are recomputed from keys and values that
are gathered from the paged cache, and spliced into what the causal kernel has computed.  The
gathered keys start where the window of the first row does and end with the block or the chunk.

## Main definitions

* `buildBidiMask`, `slotIndices`, `gatherKv` — what is gathered for a block, and its mask.
* `applyBidirectionalSegments` — the recompute.
* `bidiKeys` — the keys of a row after it.

## Main results

* `gatherKv_ok` — gathering in parts of the cache reads the cells asked for.
* `bidiKeys_eq_kernelKeys` — **both paths give a row the same keys**.
* `mm_prefix_paths_agree` — the same, for the rows that the recompute returns.
-/

namespace VllmMetal
namespace Attention

/-! ### The recompute -/

/-- What the recompute raises. -/
inductive BidiError where
  | runtimeError (text : String)
  | notImplementedError (text : String)
  | assertionError

/-- `intersecting_ranges`. -/
def intersectingRanges (qLo qHi : ℕ) (ranges : List (ℕ × ℕ)) : List (ℕ × ℕ) :=
  ranges.filter fun range => range.1 < qHi && qLo < range.2

/-- An entry of the mask of a block: (causal OR blockwise) AND window. -/
def bidiAllows (block : ℕ × ℕ) (window : Option ℤ) (windowAtBlockStart : Bool) (q k : ℕ) : Bool :=
  let allowed : Bool := k ≤ q || (block.1 ≤ k && k < block.2)
  match window with
  | some window => allowed && ((if windowAtBlockStart then block.1 else q : ℕ) : ℤ) - k < window
  | none => allowed

/-- `build_bidi_mask`: a row of the mask for every query row from `qLo` on, over the keys from
`kLo` on. -/
def buildBidiMask (qLo n kLo numKeys : ℕ) (block : ℕ × ℕ) (window : Option ℤ)
    (windowAtBlockStart : Bool) : List (List Bool) :=
  (List.range' qLo n).map fun q =>
    (List.range' kLo numKeys).map (bidiAllows block window windowAtBlockStart q)

/-- `slot_indices`. -/
def slotIndices (blockTableRow : List ℕ) (blockSize kLo kHi : ℕ) : List ℕ :=
  (List.range' kLo (kHi - kLo)).map (cellOf blockSize blockTableRow)

/-- A cache in the kernel's format: blocks of `blockSize` rows. -/
structure BlockCache (blockSize : ℕ) (C : Type) where
  blocks : List (List C)
  shape : ∀ block ∈ blocks, block.length = blockSize

/-- The rows of a cache, one block after the other. -/
def BlockCache.rows {blockSize : ℕ} {C : Type} (cache : BlockCache blockSize C) : List C :=
  cache.blocks.flatten

/-- `_INT32_MAX`. -/
def int32Max : ℕ := 2 ^ 31 - 1

/-- One round of `gather_kv`: what the part of the cache from block `first` on has of the slots,
and for the others what earlier rounds have taken.  A slot outside the part takes its row `0`. -/
def gatherPart {blockSize : ℕ} {C : Type} [Inhabited C] (cache : BlockCache blockSize C)
    (slots : List ℕ) (blocksPerTake : ℕ) (rows : Option (List C)) (first : ℕ) :
    Option (List C) :=
  let flat := ((cache.blocks.drop first).take blocksPerTake).flatten
  let inside (slot : ℕ) : Bool :=
    first * blockSize ≤ slot && slot - first * blockSize < flat.length
  let taken (slot : ℕ) : C :=
    flat.getD (if inside slot then slot - first * blockSize else 0) default
  some (match rows with
    | none => slots.map taken
    | some rows =>
      List.zipWith (fun slot row => if inside slot then taken slot else row) slots rows)

/-- `gather_kv`: 32-bit offsets do not reach every row, so the cache is read in parts; `none` is
the assertion that there is one. -/
def gatherKv {blockSize : ℕ} {C : Type} [Inhabited C] (cache : BlockCache blockSize C)
    (slots : List ℕ) (blockStride : ℕ) : Option (List C) :=
  let blocksPerTake := max (int32Max / blockStride) 1
  (List.range' 0 ((cache.blocks.length + blocksPerTake - 1) / blocksPerTake) blocksPerTake).foldl
    (gatherPart cache slots blocksPerTake) none

/-- The arguments of a recompute. -/
structure BidiCall (Q K V Out : Type) where
  out : List Out
  q3d : List Q
  blockSize : ℕ
  kCache : BlockCache blockSize K
  vCache : BlockCache blockSize V
  blockTables : List (List ℕ)
  blockStride : ℕ
  cuSeqlens : List ℕ
  contextLens : List ℕ
  segmentBidiRanges : Option (List (Option (List (ℕ × ℕ))))
  bidiWindowAtBlockStart : Bool
  window : Option ℤ
  softcap : Bool
  sinks : Bool
  turboquant : Bool

section Recompute

variable {Q K V Out : Type} [Inhabited K] [Inhabited V]

/-- Attention of query rows under a mask: a row attends to the keys and values its mask leaves. -/
def maskedAttention (attend : Q → List (K × V) → Out) (queries : List Q)
    (keysValues : List (K × V)) (mask : List (List Bool)) : List Out :=
  List.zipWith (fun q allowed => attend q
    ((keysValues.zip allowed).filterMap fun p => if p.2 then some p.1 else none)) queries mask

/-- The first key of a block: where the window of its first row starts. -/
def BidiCall.kLo (call : BidiCall Q K V Out) (a : ℕ) (block : ℕ × ℕ) : ℕ :=
  match call.window with
  | some window =>
      let origin := if call.bidiWindowAtBlockStart then block.1 else a
      (max 0 ((origin : ℤ) - window + 1)).toNat
  | none => 0

/-- One round of the loop over the blocks of segment `i`. -/
def spliceBlock (attend : Q → List (K × V) → Out) (call : BidiCall Q K V Out) (i : ℕ)
    (s : Splice Out) (block : ℕ × ℕ) : Except BidiError (Splice Out) :=
  let qStart := call.cuSeqlens.getD i 0
  let n := call.cuSeqlens.getD (i + 1) 0 - qStart
  let qHi := call.contextLens.getD i 0
  let qLo := qHi - n
  let a := max qLo block.1
  let b := min qHi block.2
  if b ≤ a then .ok s
  else
    let kLo := call.kLo a block
    let slots := slotIndices (call.blockTables.getD i []) call.blockSize kLo b
    match gatherKv call.kCache slots call.blockStride,
      gatherKv call.vCache slots call.blockStride with
    | some keys, some values =>
        let mask := buildBidiMask a (b - a) kLo (b - kLo) block call.window
          call.bidiWindowAtBlockStart
        let rowStart := qStart + (a - qLo)
        let rowEnd := qStart + (b - qLo)
        if rowStart < s.cursor then
          .error (.runtimeError "image ranges must be sorted and disjoint")
        else
          let q := (call.q3d.drop rowStart).take (rowEnd - rowStart)
          .ok (s.push call.out rowStart (maskedAttention attend q (keys.zip values) mask))
    | _, _ => .error .assertionError

/-- The loop over the segments, from segment `i` on. -/
def spliceSegments (attend : Q → List (K × V) → Out) (call : BidiCall Q K V Out) :
    ℕ → List (Option (List (ℕ × ℕ))) → Splice Out → Except BidiError (Splice Out)
  | _, [], s => .ok s
  | i, ranges :: segments, s => do
      let qStart := call.cuSeqlens.getD i 0
      let n := call.cuSeqlens.getD (i + 1) 0 - qStart
      let qHi := call.contextLens.getD i 0
      let active := intersectingRanges (qHi - n) qHi (ranges.getD [])
      let s ← active.foldlM (spliceBlock attend call i) s
      spliceSegments attend call (i + 1) segments s

/-- `apply_bidirectional_segments`. -/
def applyBidirectionalSegments (attend : Q → List (K × V) → Out) (call : BidiCall Q K V Out) :
    Except BidiError (List Out) :=
  if call.turboquant then
    .error (.runtimeError
      "bidirectional image attention cannot read a TurboQuant KV cache")
  else if call.softcap || call.sinks then
    .error (.notImplementedError
      "bidirectional image attention does not support logit softcap or attention sinks")
  else
    match call.segmentBidiRanges with
    | none => .ok call.out
    | some perSegment => do
        let s ← spliceSegments attend call 0 perSegment Splice.start
        return s.rows call.out

end Recompute

/-! ### Gathering -/

theorem length_flatten_take {blockSize : ℕ} {C : Type} (cache : BlockCache blockSize C) {m : ℕ}
    (hm : m ≤ cache.blocks.length) :
    (cache.blocks.take m).flatten.length = m * blockSize := by
  rw [List.length_flatten, List.map_congr_left fun block hblock =>
    cache.shape block (List.mem_of_mem_take hblock)]
  simp [hm]

/-- A row of a part is a row of the cache. -/
theorem getElem?_part {blockSize : ℕ} {C : Type} (cache : BlockCache blockSize C)
    {first blocksPerTake slot : ℕ} (hfirst : first ≤ cache.blocks.length)
    (hslot : first * blockSize ≤ slot)
    (hin : slot - first * blockSize <
      ((cache.blocks.drop first).take blocksPerTake).flatten.length) :
    ((cache.blocks.drop first).take blocksPerTake).flatten[slot - first * blockSize]? =
      cache.rows[slot]? := by
  have hsplit : cache.rows = (cache.blocks.take first).flatten ++
      (((cache.blocks.drop first).take blocksPerTake).flatten ++
        ((cache.blocks.drop first).drop blocksPerTake).flatten) := by
    rw [← List.flatten_append, List.take_append_drop, ← List.flatten_append,
      List.take_append_drop, BlockCache.rows]
  have hlen := length_flatten_take cache hfirst
  rw [hsplit, List.getElem?_append_right (by omega), hlen, List.getElem?_append_left hin]

/-- The part from a block on reaches to its last block, or the end of the cache. -/
theorem length_part {blockSize : ℕ} {C : Type} (cache : BlockCache blockSize C)
    (first blocksPerTake : ℕ) :
    ((cache.blocks.drop first).take blocksPerTake).flatten.length =
      min blocksPerTake (cache.blocks.length - first) * blockSize := by
  rw [List.length_flatten, List.map_congr_left fun block hblock =>
    cache.shape block (List.mem_of_mem_drop (List.mem_of_mem_take hblock))]
  simp

/-- A round takes the rows of its part and keeps the others. -/
theorem gatherPart_ok {blockSize : ℕ} {C : Type} [Inhabited C] (cache : BlockCache blockSize C)
    (slots : List ℕ) (blocksPerTake : ℕ) (row : Option (ℕ → C)) {first : ℕ}
    (hfirst : first ≤ cache.blocks.length) :
    ∃ row' : ℕ → C,
      gatherPart cache slots blocksPerTake (row.map slots.map) first = some (slots.map row') ∧
      (∀ slot, first * blockSize ≤ slot →
        slot < (first + min blocksPerTake (cache.blocks.length - first)) * blockSize →
        row' slot = cache.rows.getD slot default) ∧
      ∀ (old : ℕ → C) (slot : ℕ), row = some old → slot < first * blockSize →
        row' slot = old slot := by
  set flat := ((cache.blocks.drop first).take blocksPerTake).flatten with hflat
  have hlen : flat.length = min blocksPerTake (cache.blocks.length - first) * blockSize :=
    length_part cache first blocksPerTake
  set inside : ℕ → Bool := fun slot =>
    first * blockSize ≤ slot && slot - first * blockSize < flat.length with hinside
  set taken : ℕ → C := fun slot =>
    flat.getD (if inside slot then slot - first * blockSize else 0) default with htaken
  -- a slot inside the part is read from it
  have hread : ∀ slot, first * blockSize ≤ slot →
      slot < (first + min blocksPerTake (cache.blocks.length - first)) * blockSize →
      inside slot = true ∧ taken slot = cache.rows.getD slot default := by
    intro slot hlo hhi
    rw [Nat.add_mul, ← hlen] at hhi
    have hlt : slot - first * blockSize < flat.length := by omega
    have hin : inside slot = true := by
      simp only [hinside, Bool.and_eq_true, decide_eq_true_eq]
      exact ⟨hlo, hlt⟩
    refine ⟨hin, ?_⟩
    simp only [htaken, if_pos hin, List.getD_eq_getElem?_getD]
    rw [getElem?_part cache hfirst hlo hlt]
  cases row with
  | none =>
    refine ⟨taken, rfl, fun slot hlo hhi => (hread slot hlo hhi).2, fun old slot hnone _ => ?_⟩
    cases hnone
  -- a later part keeps the rows of the slots before it
  | some old =>
    refine ⟨fun slot => if inside slot then taken slot else old slot, ?_, fun slot hlo hhi => ?_,
      fun old' slot heq hlt => ?_⟩
    · change some (List.zipWith (fun slot row => if inside slot then taken slot else row) slots
        (slots.map old)) = _
      rw [List.zipWith_map_right, List.zipWith_self]
    · obtain ⟨hin, hrow⟩ := hread slot hlo hhi
      simp only [hin, if_true, hrow]
    · have hout : inside slot = false := by
        rw [hinside]
        simp only [Bool.and_eq_false_iff, decide_eq_false_iff_not]
        omega
      simp only [hout, Bool.false_eq_true, if_false, Option.some.inj heq]

/-- After some parts the slots that they hold have their rows. -/
theorem foldl_gatherPart {blockSize : ℕ} {C : Type} [Inhabited C] (cache : BlockCache blockSize C)
    (slots : List ℕ) (blocksPerTake m : ℕ) (hm : m * blocksPerTake ≤ cache.blocks.length) :
    ∃ row : ℕ → C,
      (List.range' 0 (m + 1) blocksPerTake).foldl (gatherPart cache slots blocksPerTake) none =
        some (slots.map row) ∧
      ∀ slot, slot < min ((m + 1) * blocksPerTake) cache.blocks.length * blockSize →
        row slot = cache.rows.getD slot default := by
  induction m with
  | zero =>
    obtain ⟨row, hrow, hread, -⟩ := gatherPart_ok cache slots blocksPerTake none (Nat.zero_le _)
    refine ⟨row, hrow, fun slot hslot => hread slot (by omega) ?_⟩
    simpa using hslot
  | succ m ih =>
    have hmul : (m + 1) * blocksPerTake = m * blocksPerTake + blocksPerTake := Nat.succ_mul _ _
    obtain ⟨old, hold, hbelow⟩ := ih (by omega)
    obtain ⟨row, hrow, hread, hkeep⟩ := gatherPart_ok cache slots blocksPerTake (some old) hm
    refine ⟨row, ?_, fun slot hslot => ?_⟩
    · rw [List.range'_concat, List.foldl_append, hold, Nat.zero_add, Nat.mul_comm blocksPerTake]
      exact hrow
    · rcases Nat.lt_or_ge slot ((m + 1) * blocksPerTake * blockSize) with hlt | hge
      · rw [hkeep old slot rfl hlt]
        refine hbelow slot ?_
        rwa [Nat.min_eq_left hm]
      · refine hread slot hge (Nat.lt_of_lt_of_le hslot (Nat.mul_le_mul_right _ ?_))
        have : (m + 1 + 1) * blocksPerTake = (m + 1) * blocksPerTake + blocksPerTake :=
          Nat.succ_mul _ _
        omega

/-- **Gathering in parts of the cache reads the cells asked for.** -/
theorem gatherKv_ok {blockSize : ℕ} {C : Type} [Inhabited C] (cache : BlockCache blockSize C)
    (slots : List ℕ) (blockStride : ℕ) (hblocks : 0 < cache.blocks.length)
    (hslots : ∀ slot ∈ slots, slot < cache.rows.length) :
    gatherKv cache slots blockStride =
      some (slots.map fun slot => cache.rows.getD slot default) := by
  set blocksPerTake := max (int32Max / blockStride) 1 with hper
  have hpos : 0 < blocksPerTake := by omega
  set parts := (cache.blocks.length + blocksPerTake - 1) / blocksPerTake with hparts
  have hparts_pos : 0 < parts := Nat.div_pos (by omega) hpos
  have hdiv := Nat.div_add_mod (cache.blocks.length + blocksPerTake - 1) blocksPerTake
  have hmod := Nat.mod_lt (cache.blocks.length + blocksPerTake - 1) hpos
  rw [← hparts, Nat.mul_comm] at hdiv
  obtain ⟨m, hm⟩ : ∃ m, parts = m + 1 := ⟨parts - 1, by omega⟩
  have hmul : (m + 1) * blocksPerTake = m * blocksPerTake + blocksPerTake := Nat.succ_mul _ _
  rw [hm] at hdiv
  obtain ⟨row, hrow, hread⟩ := foldl_gatherPart cache slots blocksPerTake m (by omega)
  rw [gatherKv, ← hper, ← hparts, hm, hrow]
  refine congrArg some (List.map_congr_left fun slot hslot => hread slot ?_)
  have hlen := length_flatten_take cache (Nat.le_refl _)
  rw [List.take_length] at hlen
  have hlt := hslots slot hslot
  rw [BlockCache.rows, hlen] at hlt
  rwa [Nat.min_eq_right (by omega)]

/-! ### The keys of a row -/

/-- The range of a segment that holds a position. -/
def rowBlock (ranges : List (ℕ × ℕ)) (q : ℕ) : Option (ℕ × ℕ) :=
  ranges.find? fun range => range.1 ≤ q && q < range.2

theorem rowBlock_eq_some {ranges : List (ℕ × ℕ)} {q : ℕ} {block : ℕ × ℕ}
    (h : rowBlock ranges q = some block) : block ∈ ranges ∧ block.1 ≤ q ∧ q < block.2 :=
  ⟨List.mem_of_find?_eq_some h, by simpa [rowBlock] using List.find?_some h⟩

theorem rowBlock_eq_none {ranges : List (ℕ × ℕ)} {q : ℕ} (h : rowBlock ranges q = none)
    {range : ℕ × ℕ} (hr : range ∈ ranges) : ¬ (range.1 ≤ q ∧ q < range.2) := by
  rw [rowBlock, List.find?_eq_none] at h
  simpa using h range hr

/-- The causal rule and the window, for the rows that the kernel has computed. -/
def causalKeys (slidingWindow : ℤ) (seqLen q : ℕ) : List ℕ :=
  kernelKeys slidingWindow seqLen (-1, -1) q

section Keys

variable {Q K V Out : Type}

/-- The keys of a recomputed row: the gathered positions that its mask leaves. -/
def BidiCall.maskedKeys (call : BidiCall Q K V Out) (seqLen n : ℕ) (block : ℕ × ℕ) (q : ℕ) :
    List ℕ :=
  let a := max (seqLen - n) block.1
  let b := min seqLen block.2
  let kLo := call.kLo a block
  let mask := buildBidiMask a (b - a) kLo (b - kLo) block call.window call.bidiWindowAtBlockStart
  ((List.range' kLo (b - kLo)).zip (mask.getD (q - a) [])).filterMap fun p =>
    if p.2 then some p.1 else none

/-- The keys of a row after the recompute. -/
def BidiCall.bidiKeys (call : BidiCall Q K V Out) (slidingWindow : ℤ) (seqLen n : ℕ)
    (ranges : List (ℕ × ℕ)) (q : ℕ) : List ℕ :=
  match rowBlock ranges q with
  | some block => call.maskedKeys seqLen n block q
  | none => causalKeys slidingWindow seqLen q

/-- What the mask leaves of a list is a filter of it. -/
theorem filterMap_zip_map {α β : Type} (f : α → β) (p : α → Bool) (l : List α) :
    ((l.map f).zip (l.map p)).filterMap (fun x => if x.2 then some x.1 else none) =
      (l.filter p).map f := by
  induction l with
  | nil => rfl
  | cons a l ih =>
    rw [List.map_cons, List.map_cons, List.zip_cons_cons, List.filterMap_cons]
    cases hp : p a <;> simp [hp, ih]

theorem getElem?_buildBidiMask {qLo n kLo numKeys : ℕ} {block : ℕ × ℕ} {window : Option ℤ}
    {anchored : Bool} {t : ℕ} (ht : t < n) :
    (buildBidiMask qLo n kLo numKeys block window anchored)[t]? =
      some ((List.range' kLo numKeys).map (bidiAllows block window anchored (qLo + t))) := by
  rw [buildBidiMask, List.getElem?_map, List.getElem?_range' ht, Option.map_some, Nat.one_mul]

/-- The keys of a recomputed row, as a filter of the gathered positions. -/
theorem maskedKeys_eq_filter (call : BidiCall Q K V Out) {seqLen n : ℕ} {block : ℕ × ℕ} {q : ℕ}
    (hlo : max (seqLen - n) block.1 ≤ q) (hhi : q < min seqLen block.2) :
    call.maskedKeys seqLen n block q =
      (List.range' (call.kLo (max (seqLen - n) block.1) block)
        (min seqLen block.2 - call.kLo (max (seqLen - n) block.1) block)).filter
        (bidiAllows block call.window call.bidiWindowAtBlockStart q) := by
  have hid := filterMap_zip_map (fun k : ℕ => k)
    (bidiAllows block call.window call.bidiWindowAtBlockStart q)
    (List.range' (call.kLo (max (seqLen - n) block.1) block)
      (min seqLen block.2 - call.kLo (max (seqLen - n) block.1) block))
  rw [List.map_id', List.map_id'] at hid
  rw [BidiCall.maskedKeys, List.getD_eq_getElem?_getD, getElem?_buildBidiMask (by omega),
    Option.getD_some, Nat.add_sub_cancel' hlo, hid]

/-- The window of the recompute is that of the layer, anchored at the rows. -/
structure RowAnchored (call : BidiCall Q K V Out) (slidingWindow : ℤ) : Prop where
  window : call.window = if 0 ≤ slidingWindow then some slidingWindow else none
  anchor : call.bidiWindowAtBlockStart = false

/-- **The keys of a recomputed row are those of the kernel rule on its block.** -/
theorem maskedKeys_eq_kernelKeys {call : BidiCall Q K V Out} {slidingWindow : ℤ}
    (h : RowAnchored call slidingWindow) {seqLen n : ℕ} {block : ℕ × ℕ} {q : ℕ}
    (hlo : seqLen - n ≤ q) (hhi : q < seqLen) (hblock : block.1 ≤ q ∧ q < block.2) :
    call.maskedKeys seqLen n block q =
      kernelKeys slidingWindow seqLen ((block.1 : ℤ), (block.2 : ℤ) - 1) q := by
  rw [maskedKeys_eq_filter call (by omega) (by omega), filter_range' (Nat.min_le_left _ _),
    kernelKeys]
  refine List.filter_congr fun k hk => ?_
  rw [List.mem_range] at hk
  rw [Bool.eq_iff_iff, BidiCall.kLo, h.window, h.anchor]
  rcases lt_or_ge slidingWindow 0 with hnone | hsome
  · rw [if_neg (not_le.mpr hnone)]
    simp [kernelAllows, bidiAllows]
    omega
  · rw [if_pos hsome]
    simp [kernelAllows, bidiAllows]
    omega

end Keys

/-! ### The rows that are returned -/

section Rows

variable {Q K V Out : Type} [Inhabited K] [Inhabited V]

/-- **A packed batch**: the boundaries of its segments, a context that holds their rows, sorted
and disjoint ranges, and block tables in kernel blocks that reach every position of a context in
a cache of that size. -/
structure PackedBatch (call : BidiCall Q K V Out) (lens : List ℕ)
    (perSegment : List (Option (List (ℕ × ℕ)))) (sizes : List ℕ) (rawTables : List (List ℕ))
    (cacheBlockSize : ℕ) : Prop where
  cuSeqlens : call.cuSeqlens = boundaries lens
  ranges : call.segmentBidiRanges = some perSegment
  length : perSegment.length = lens.length
  context : ∀ i n : ℕ, lens[i]? = some n → n ≤ call.contextLens.getD i 0
  out : call.out.length = lens.sum
  q3d : call.q3d.length = lens.sum
  sorted : ∀ i : ℕ, SortedDisjoint ((perSegment.getD i none).getD [])
  block_pos : 0 < cacheBlockSize
  tables : buildBlockTables sizes rawTables cacheBlockSize =
    some (call.blockTables, call.blockSize)
  covered : ∀ i n : ℕ, lens[i]? = some n → ∃ table, rawTables[i]? = some table ∧
    Mapped cacheBlockSize table (call.contextLens.getD i 0)
  allocated : ∀ i p : ℕ, p < call.contextLens.getD i 0 →
    cellOf cacheBlockSize (rawTables.getD i []) p < call.kCache.rows.length ∧
    cellOf cacheBlockSize (rawTables.getD i []) p < call.vCache.rows.length
  plain : call.turboquant = false ∧ call.softcap = false ∧ call.sinks = false

/-- The key and the value in a cell. -/
def BidiCall.cell (call : BidiCall Q K V Out) (slot : ℕ) : K × V :=
  (call.kCache.rows.getD slot default, call.vCache.rows.getD slot default)

/-- Row `j` of a segment of `n` rows after the recompute: inside a block its query attends to
its keys, in the cells of their positions; any other row is the kernel's. -/
def BidiCall.rowAfter (attend : Q → List (K × V) → Out) (call : BidiCall Q K V Out)
    (ranges : List (ℕ × ℕ)) (cacheBlockSize : ℕ) (table : List ℕ) (i n j : ℕ) : Option Out :=
  let seqLen := call.contextLens.getD i 0
  let q := seqLen - n + j
  match rowBlock ranges q with
  | some block => call.q3d[call.cuSeqlens.getD i 0 + j]?.map fun query => attend query
      ((call.maskedKeys seqLen n block q).map fun p => call.cell (cellOf cacheBlockSize table p))
  | none => call.out[call.cuSeqlens.getD i 0 + j]?

variable {attend : Q → List (K × V) → Out} {call : BidiCall Q K V Out} {lens : List ℕ}
  {perSegment : List (Option (List (ℕ × ℕ)))} {sizes : List ℕ} {rawTables : List (List ℕ)}
  {cacheBlockSize : ℕ}

omit [Inhabited K] [Inhabited V] in
/-- **The gathered slots are the cells of the positions.** -/
theorem PackedBatch.slotIndices_eq
    (h : PackedBatch call lens perSegment sizes rawTables cacheBlockSize)
    {i n kLo kHi : ℕ} (hn : lens[i]? = some n) (hhi : kHi ≤ call.contextLens.getD i 0) :
    slotIndices (call.blockTables.getD i []) call.blockSize kLo kHi =
      (List.range' kLo (kHi - kLo)).map (cellOf cacheBlockSize (rawTables.getD i [])) := by
  obtain ⟨table, htable, hmapped⟩ := h.covered i n hn
  refine List.map_congr_left fun p hp => ?_
  rw [List.mem_range'_1] at hp
  rw [List.getD_eq_getElem?_getD, List.getD_eq_getElem?_getD, htable, Option.getD_some,
    ← List.getD_eq_getElem?_getD]
  exact kernelCell_buildBlockTables h.block_pos h.tables htable (hmapped.div_lt (by omega))

omit [Inhabited K] [Inhabited V] in
theorem PackedBatch.gather {C : Type} [Inhabited C]
    (h : PackedBatch call lens perSegment sizes rawTables cacheBlockSize)
    (cache : BlockCache call.blockSize C)
    (halloc : ∀ i p : ℕ, p < call.contextLens.getD i 0 →
      cellOf cacheBlockSize (rawTables.getD i []) p < cache.rows.length)
    {i n kLo kHi : ℕ} (hn : lens[i]? = some n) (hhi : kHi ≤ call.contextLens.getD i 0)
    (hsome : 0 < kHi) :
    gatherKv cache (slotIndices (call.blockTables.getD i []) call.blockSize kLo kHi)
        call.blockStride =
      some ((List.range' kLo (kHi - kLo)).map fun p =>
        cache.rows.getD (cellOf cacheBlockSize (rawTables.getD i []) p) default) := by
  have hblocks : 0 < cache.blocks.length := by
    rw [List.length_pos_iff]
    intro hnil
    have hfirst := halloc i 0 (by omega)
    rw [BlockCache.rows, hnil] at hfirst
    exact absurd hfirst (Nat.not_lt_zero _)
  rw [h.slotIndices_eq hn hhi, gatherKv_ok cache _ _ hblocks, List.map_map]
  · rfl
  · intro slot hslot
    obtain ⟨p, hp, rfl⟩ := List.mem_map.mp hslot
    rw [List.mem_range'_1] at hp
    exact halloc i p (by omega)

/-- The rows of a block, as the recompute computes them. -/
theorem PackedBatch.spliceBlock_ok
    (h : PackedBatch call lens perSegment sizes rawTables cacheBlockSize)
    {i n : ℕ} (hn : lens[i]? = some n) {block : ℕ × ℕ} {s : Splice Out}
    (hsome : max (call.contextLens.getD i 0 - n) block.1 < min (call.contextLens.getD i 0) block.2)
    (hcursor : s.cursor ≤ (boundaries lens).getD i 0 +
      (max (call.contextLens.getD i 0 - n) block.1 - (call.contextLens.getD i 0 - n))) :
    ∃ new : List Out,
      spliceBlock attend call i s block = .ok (s.push call.out
        ((boundaries lens).getD i 0 +
          (max (call.contextLens.getD i 0 - n) block.1 - (call.contextLens.getD i 0 - n))) new) ∧
      new.length = min (call.contextLens.getD i 0) block.2 -
        max (call.contextLens.getD i 0 - n) block.1 ∧
      ∀ t, t < new.length → new[t]? = call.q3d[(boundaries lens).getD i 0 +
          (max (call.contextLens.getD i 0 - n) block.1 - (call.contextLens.getD i 0 - n)) + t]?.map
        fun query => attend query ((call.maskedKeys (call.contextLens.getD i 0) n block
          (max (call.contextLens.getD i 0 - n) block.1 + t)).map fun p =>
            call.cell (cellOf cacheBlockSize (rawTables.getD i []) p)) := by
  set seqLen := call.contextLens.getD i 0 with hseqLen
  set qLo := seqLen - n with hqLo
  set a := max qLo block.1 with ha
  set b := min seqLen block.2 with hb
  set kLo := call.kLo a block with hkLo
  have hbound : (boundaries lens).getD i 0 + n ≤ lens.sum := by
    have hlt : i + 1 ≤ lens.length := (List.getElem?_eq_some_iff.mp hn).1
    have hend := getD_boundaries_mono hlt (Nat.le_refl lens.length)
    rwa [getD_boundaries_succ hn, getD_boundaries (Nat.le_refl _), List.take_length] at hend
  have hcontext := h.context i n hn
  set keys := (List.range' kLo (b - kLo)).map fun p =>
    call.kCache.rows.getD (cellOf cacheBlockSize (rawTables.getD i []) p) default with hkeys
  set values := (List.range' kLo (b - kLo)).map fun p =>
    call.vCache.rows.getD (cellOf cacheBlockSize (rawTables.getD i []) p) default with hvalues
  -- both caches are read at the request's cells, from the first key a row may see
  have hgatherK : gatherKv call.kCache
      (slotIndices (call.blockTables.getD i []) call.blockSize kLo b)
      call.blockStride = some keys :=
    h.gather call.kCache (fun i p hp => (h.allocated i p hp).1) hn (by omega) (by omega)
  have hgatherV : gatherKv call.vCache
      (slotIndices (call.blockTables.getD i []) call.blockSize kLo b)
      call.blockStride = some values :=
    h.gather call.vCache (fun i p hp => (h.allocated i p hp).2) hn (by omega) (by omega)
  have hzip : keys.zip values = (List.range' kLo (b - kLo)).map fun p =>
      call.cell (cellOf cacheBlockSize (rawTables.getD i []) p) := by
    rw [hkeys, hvalues, List.zip_map']
    rfl
  set rowStart := (boundaries lens).getD i 0 + (a - qLo) with hrowStart
  set queries := (call.q3d.drop rowStart).take
    ((boundaries lens).getD i 0 + (b - qLo) - rowStart) with hqueries
  have hqueriesLen : queries.length = b - a := by
    rw [hqueries, List.length_take, List.length_drop, h.q3d]
    omega
  set mask := buildBidiMask a (b - a) kLo (b - kLo) block call.window
    call.bidiWindowAtBlockStart with hmask
  refine ⟨maskedAttention attend queries (keys.zip values) mask, ?_, ?_, fun t ht => ?_⟩
  · rw [spliceBlock, h.cuSeqlens, getD_boundaries_sub hn]
    simp only [← hseqLen, ← hqLo, ← ha, ← hb, ← hkLo, hgatherK, hgatherV,
      if_neg (not_le.mpr hsome), if_neg (not_lt.mpr hcursor), ← hrowStart, ← hqueries, ← hmask]
  · rw [maskedAttention, List.length_zipWith, hqueriesLen, hmask]
    simp [buildBidiMask]
  · have htlt : t < b - a := by
      rw [maskedAttention, List.length_zipWith, hqueriesLen] at ht
      omega
    -- the mask leaves row `t` its keys
    have hkept : ((keys.zip values).zip ((List.range' kLo (b - kLo)).map
        (bidiAllows block call.window call.bidiWindowAtBlockStart (a + t)))).filterMap
          (fun p => if p.2 then some p.1 else none) =
        (call.maskedKeys seqLen n block (a + t)).map fun p =>
          call.cell (cellOf cacheBlockSize (rawTables.getD i []) p) := by
      rw [hzip, filterMap_zip_map, maskedKeys_eq_filter call (by omega) (by omega)]
    rw [maskedAttention, List.getElem?_zipWith, hmask, getElem?_buildBidiMask htlt, hqueries,
      List.getElem?_take_of_lt (by omega), List.getElem?_drop]
    cases call.q3d[rowStart + t]? with
    | none => rfl
    | some query => exact congrArg (fun kept => some (attend query kept)) hkept

/-- A block without a row in the chunk is passed over. -/
theorem PackedBatch.spliceBlock_skip
    (h : PackedBatch call lens perSegment sizes rawTables cacheBlockSize)
    {i n : ℕ} (hn : lens[i]? = some n) {block : ℕ × ℕ} (s : Splice Out)
    (hempty : min (call.contextLens.getD i 0) block.2 ≤
      max (call.contextLens.getD i 0 - n) block.1) :
    spliceBlock attend call i s block = .ok s := by
  rw [spliceBlock, h.cuSeqlens, getD_boundaries_sub hn]
  exact if_pos hempty

/-- The rows after the recompute, over the packed rows. -/
def BidiCall.target (attend : Q → List (K × V) → Out) (call : BidiCall Q K V Out)
    (lens : List ℕ) (perSegment : List (Option (List (ℕ × ℕ)))) (rawTables : List (List ℕ))
    (cacheBlockSize k : ℕ) : Option Out :=
  let i := searchSegment (boundaries lens) k lens.length
  if k < lens.sum then
    call.rowAfter attend ((perSegment.getD i none).getD []) cacheBlockSize (rawTables.getD i []) i
      (lens.getD i 0) (k - (boundaries lens).getD i 0)
  else call.out[k]?

theorem BidiCall.target_row {i n j : ℕ} (hn : lens[i]? = some n) (hj : j < n) :
    call.target attend lens perSegment rawTables cacheBlockSize ((boundaries lens).getD i 0 + j) =
      call.rowAfter attend ((perSegment.getD i none).getD []) cacheBlockSize (rawTables.getD i [])
        i n j := by
  have hlt : i + 1 ≤ lens.length := (List.getElem?_eq_some_iff.mp hn).1
  have hend := getD_boundaries_mono hlt (Nat.le_refl lens.length)
  rw [getD_boundaries_succ hn, getD_boundaries (Nat.le_refl _), List.take_length] at hend
  rw [BidiCall.target, searchSegment_row hn hj]
  rw [if_pos (by omega), Nat.add_sub_cancel_left, List.getD_eq_getElem?_getD (l := lens), hn,
    Option.getD_some]

/-- The rows of a segment that are in one of some ranges, and all rows of later segments. -/
def OpenIn (lens contextLens : List ℕ) (i n : ℕ) (ranges : List (ℕ × ℕ)) (k : ℕ) : Prop :=
  (boundaries lens).getD i 0 + n ≤ k ∨ ∃ range ∈ ranges, ∃ j, j < n ∧
    k = (boundaries lens).getD i 0 + j ∧ range.1 ≤ contextLens.getD i 0 - n + j ∧
    contextLens.getD i 0 - n + j < range.2

/-- **The loop over the blocks of a segment settles its rows.** -/
theorem PackedBatch.spliceBlocks_ok
    (h : PackedBatch call lens perSegment sizes rawTables cacheBlockSize)
    {i n : ℕ} (hn : lens[i]? = some n) {rest : List (ℕ × ℕ)} (hsorted : SortedDisjoint rest)
    (hsub : ∀ range ∈ rest, range ∈ (perSegment.getD i none).getD []) {s : Splice Out}
    (hs : Splice.Settled call.out
      (call.target attend lens perSegment rawTables cacheBlockSize)
      (OpenIn lens call.contextLens i n rest) s)
    (hend : s.cursor ≤ (boundaries lens).getD i 0 + n)
    (hcursor : ∀ range ∈ rest,
      max (call.contextLens.getD i 0 - n) range.1 < min (call.contextLens.getD i 0) range.2 →
      s.cursor ≤ (boundaries lens).getD i 0 +
        (max (call.contextLens.getD i 0 - n) range.1 - (call.contextLens.getD i 0 - n))) :
    ∃ s', rest.foldlM (spliceBlock attend call i) s = .ok s' ∧
      s'.cursor ≤ (boundaries lens).getD i 0 + n ∧
      Splice.Settled call.out (call.target attend lens perSegment rawTables cacheBlockSize)
        (fun k => (boundaries lens).getD i 0 + n ≤ k) s' := by
  have hcontext := h.context i n hn
  have hbound : (boundaries lens).getD i 0 + n ≤ call.out.length := by
    have hlt : i + 1 ≤ lens.length := (List.getElem?_eq_some_iff.mp hn).1
    have hend := getD_boundaries_mono hlt (Nat.le_refl lens.length)
    rwa [getD_boundaries_succ hn, getD_boundaries (Nat.le_refl _), List.take_length,
      ← h.out] at hend
  induction rest generalizing s with
  | nil =>
    refine ⟨s, rfl, hend, hs.close fun k _ hopen hnot => ?_⟩
    rcases hopen with hlater | ⟨range, hmem, -⟩
    · exact absurd hlater hnot
    · cases hmem
  | cons block rest ih =>
    obtain ⟨hbefore, hsorted'⟩ := List.pairwise_cons.mp hsorted
    rw [List.foldlM_cons]
    rcases Nat.lt_or_ge (max (call.contextLens.getD i 0 - n) block.1)
      (min (call.contextLens.getD i 0) block.2) with hsome | hempty
    -- the chunk has rows of the block: they are spliced in, and the cursor stops behind them
    · obtain ⟨new, hsplice, hlen, hnew⟩ := h.spliceBlock_ok hn hsome
        (hcursor block List.mem_cons_self hsome)
      rw [hsplice]
      refine ih hsorted' (fun r hr => hsub r (List.mem_cons_of_mem _ hr)) ?_ ?_ fun r hr hr' => ?_
      · refine hs.splice (hcursor block List.mem_cons_self hsome) (by omega) ?gap ?new ?later
        -- the blocks come in order, so no row before this one is still open
        case gap =>
          rintro k - hk (hlater | ⟨range, hmem, j, hj, rfl, hlo, hhi⟩)
          · omega
          · rcases List.mem_cons.mp hmem with rfl | hmem
            · omega
            · have := hbefore range hmem (by omega) (by omega)
              omega
        case new =>
          intro t ht
          have hoff : max (call.contextLens.getD i 0 - n) block.1 -
              (call.contextLens.getD i 0 - n) + t < n := by omega
          have hrow := @BidiCall.target_row _ _ _ _ _ _ attend call lens perSegment rawTables
            cacheBlockSize i n _ hn hoff
          have hq : call.contextLens.getD i 0 - n + (max (call.contextLens.getD i 0 - n) block.1 -
              (call.contextLens.getD i 0 - n) + t) =
              max (call.contextLens.getD i 0 - n) block.1 + t := by omega
          -- blocks are disjoint, so the row's block is this one
          have hblock : rowBlock ((perSegment.getD i none).getD [])
              (max (call.contextLens.getD i 0 - n) block.1 + t) = some block := by
            have hmem := hsub block List.mem_cons_self
            cases hfound : rowBlock ((perSegment.getD i none).getD [])
                (max (call.contextLens.getD i 0 - n) block.1 + t) with
            | none => exact absurd ⟨by omega, by omega⟩ (rowBlock_eq_none hfound hmem)
            | some block' =>
              obtain ⟨hmem', hin'⟩ := rowBlock_eq_some hfound
              rw [(h.sorted i).eq_of_mem hmem' hmem hin' ⟨by omega, by omega⟩]
          rw [hnew t ht, Nat.add_assoc, hrow, BidiCall.rowAfter]
          simp only [hq, hblock, h.cuSeqlens]
        case later =>
          rintro k hk (hlater | ⟨range, hmem, j, hj, rfl, hlo, hhi⟩)
          · exact Or.inl hlater
          · rcases List.mem_cons.mp hmem with rfl | hmem
            · omega
            · exact Or.inr ⟨range, hmem, j, hj, rfl, hlo, hhi⟩
      · change (boundaries lens).getD i 0 + _ + new.length ≤ _
        omega
      · have := hbefore r hr (by omega) (by omega)
        change (boundaries lens).getD i 0 + _ + new.length ≤ _
        omega
    -- the chunk has no row of the block, which is skipped
    · rw [h.spliceBlock_skip hn s hempty]
      refine ih hsorted' (fun r hr => hsub r (List.mem_cons_of_mem _ hr)) ?_ hend
        fun r hr => hcursor r (List.mem_cons_of_mem _ hr)
      refine hs.close fun k _ hopen hnot => ?_
      rcases hopen with hlater | ⟨range, hmem, j, hj, rfl, hlo, hhi⟩
      · exact absurd (Or.inl hlater) hnot
      · rcases List.mem_cons.mp hmem with rfl | hmem
        · omega
        · exact absurd (Or.inr ⟨range, hmem, j, hj, rfl, hlo, hhi⟩) hnot

theorem PackedBatch.spliceSegments_ok
    (h : PackedBatch call lens perSegment sizes rawTables cacheBlockSize)
    {segments : List (Option (List (ℕ × ℕ)))} {i : ℕ} (hsegments : perSegment.drop i = segments)
    (hi : i ≤ lens.length) {s : Splice Out}
    (hs : Splice.Settled call.out
      (call.target attend lens perSegment rawTables cacheBlockSize)
      (fun k => (boundaries lens).getD i 0 ≤ k) s)
    (hend : s.cursor ≤ (boundaries lens).getD i 0) :
    ∃ s', spliceSegments attend call i segments s = .ok s' ∧ s'.cursor ≤ lens.sum ∧
      Splice.Settled call.out (call.target attend lens perSegment rawTables cacheBlockSize)
        (fun k => lens.sum ≤ k) s' := by
  induction segments generalizing i s with
  | nil =>
    have hlen := congrArg List.length hsegments
    rw [List.length_drop, List.length_nil, h.length] at hlen
    obtain rfl : i = lens.length := by omega
    rw [getD_boundaries (Nat.le_refl _), List.take_length] at hs hend
    exact ⟨s, rfl, hend, hs⟩
  | cons ranges segments ih =>
    have hget : perSegment[i]? = some ranges := by
      have hhead := congrArg (·[0]?) hsegments
      simpa [List.getElem?_drop] using hhead
    have hlt : i < lens.length := h.length ▸ (List.getElem?_eq_some_iff.mp hget).1
    have hn : lens[i]? = some lens[i] := List.getElem?_eq_getElem hlt
    have hranges : (perSegment.getD i none).getD [] = ranges.getD [] := by
      rw [List.getD_eq_getElem?_getD (l := perSegment), hget, Option.getD_some]
    have hnext := getD_boundaries_succ hn
    have hcontext := h.context i _ hn
    set active := intersectingRanges (call.contextLens.getD i 0 - lens[i])
      (call.contextLens.getD i 0) (ranges.getD []) with hactive
    have hsorted : SortedDisjoint active :=
      List.Pairwise.sublist List.filter_sublist (hranges ▸ h.sorted i)
    have hopen : Splice.Settled call.out
        (call.target attend lens perSegment rawTables cacheBlockSize)
        (OpenIn lens call.contextLens i lens[i] active) s := by
      refine hs.close fun k _ hk hnot => ?_
      -- a row of the segment outside every range is the kernel's
      rcases Nat.lt_or_ge k ((boundaries lens).getD i 0 + lens[i]) with hin | hout
      · obtain ⟨j, rfl⟩ := Nat.exists_eq_add_of_le hk
        have hj : j < lens[i] := by omega
        rw [BidiCall.target_row hn hj, BidiCall.rowAfter, hranges]
        have hnone : rowBlock (ranges.getD []) (call.contextLens.getD i 0 - lens[i] + j) =
            none := by
          cases hfound : rowBlock (ranges.getD []) (call.contextLens.getD i 0 - lens[i] + j) with
          | none => rfl
          | some block =>
            obtain ⟨hmem, hlo, hhi⟩ := rowBlock_eq_some hfound
            refine absurd (Or.inr ⟨block, List.mem_filter.mpr ⟨hmem, ?_⟩, j, hj, rfl, hlo, hhi⟩)
              hnot
            simp only [Bool.and_eq_true, decide_eq_true_eq]
            omega
        simp only [hnone, h.cuSeqlens]
      · exact absurd (Or.inl hout) hnot
    obtain ⟨s', hrun, hend', hs'⟩ := h.spliceBlocks_ok hn hsorted
      (fun r hr => hranges ▸ List.mem_of_mem_filter hr) hopen (by omega) (fun r _ _ => by omega)
    rw [spliceSegments, h.cuSeqlens, getD_boundaries_sub hn, ← hactive, hrun]
    refine ih (i := i + 1) ?_ hlt ?_ (by rw [hnext]; exact hend')
    · rw [← List.drop_drop, hsegments]
      rfl
    · rwa [hnext]

/-- **Every row after the recompute.** -/
theorem PackedBatch.applyBidirectionalSegments_ok
    (h : PackedBatch call lens perSegment sizes rawTables cacheBlockSize) :
    ∃ rows, applyBidirectionalSegments attend call = .ok rows ∧ rows.length = call.out.length ∧
      ∀ i n j : ℕ, lens[i]? = some n → j < n → rows[(boundaries lens).getD i 0 + j]? =
        call.rowAfter attend ((perSegment.getD i none).getD []) cacheBlockSize
          (rawTables.getD i []) i n j := by
  obtain ⟨s, hrun, hcursor, hs⟩ := h.spliceSegments_ok List.drop_zero (Nat.zero_le _)
    (Splice.settled_start fun k hk => absurd (by rw [getD_boundaries (Nat.zero_le _)]; simp) hk)
    (Nat.zero_le _)
  have hclosed : Splice.Settled call.out
      (call.target attend lens perSegment rawTables cacheBlockSize) (fun _ => False) s := by
    refine hs.close fun k _ hk _ => ?_
    rw [BidiCall.target]
    simp only [if_neg (not_lt.mpr hk)]
  refine ⟨s.rows call.out, ?_, ?_, fun i n j hn hj => ?_⟩
  · obtain ⟨hquant, hsoft, hsinks⟩ := h.plain
    rw [applyBidirectionalSegments, hquant, hsoft, hsinks, h.ranges]
    simp only [Bool.false_eq_true, if_false, Bool.or_self, hrun]
    rfl
  · exact hs.length_rows (h.out ▸ hcursor)
  · rw [hclosed.getElem?_rows (fun _ => id), BidiCall.target_row hn hj]

omit [Inhabited K] [Inhabited V] in
/-- **Both paths give a row the same keys.** -/
theorem PackedBatch.bidiKeys_eq_kernelKeys
    (h : PackedBatch call lens perSegment sizes rawTables cacheBlockSize) {slidingWindow : ℤ}
    (hwindow : RowAnchored call slidingWindow) {i n j : ℕ} (hn : lens[i]? = some n) (hj : j < n) :
    call.bidiKeys slidingWindow (call.contextLens.getD i 0) n ((perSegment.getD i none).getD [])
        (call.contextLens.getD i 0 - n + j) =
      kernelKeys slidingWindow (call.contextLens.getD i 0)
        (mmPrefixRow (buildMmPrefixRows call.cuSeqlens call.contextLens perSegment)
          (call.cuSeqlens.getD i 0 + j))
        (call.contextLens.getD i 0 - n + j) := by
  have hcontext := h.context i n hn
  have hlt : i < perSegment.length := h.length ▸ (List.getElem?_eq_some_iff.mp hn).1
  have hget : perSegment[i]? = some perSegment[i] := List.getElem?_eq_getElem hlt
  have hranges : (perSegment.getD i none).getD [] = perSegment[i].getD [] := by
    rw [List.getD_eq_getElem?_getD (l := perSegment), hget, Option.getD_some]
  have hsorted := h.sorted i
  rw [hranges] at hsorted ⊢
  rw [h.cuSeqlens, mmPrefixRow_buildMmPrefixRows h.length hget hn hj, BidiCall.bidiKeys]
  set q := call.contextLens.getD i 0 - n + j with hq
  cases hblock : rowBlock (perSegment[i].getD []) q with
  -- a row of no block has its causal row in both paths
  | none =>
    rcases foldl_tagRow_cases q (perSegment[i].getD []) (-1, -1) with
      ⟨range, hmem, hin, -⟩ | ⟨-, hrow⟩
    · exact absurd hin.2 (rowBlock_eq_none hblock hmem)
    · rw [hrow]
      rfl
  | some block =>
    obtain ⟨hmem, hin⟩ := rowBlock_eq_some hblock
    simp only
    rw [maskedKeys_eq_kernelKeys hwindow (by omega) (by omega) hin]
    by_cases hone : 1 < block.2 - block.1
    · rw [foldl_tagRow_of_mem hsorted hmem ⟨hone, hin⟩]
    · -- the block row of a lone token is its causal row
      rcases foldl_tagRow_cases q (perSegment[i].getD []) (-1, -1) with
        ⟨range, hmem', hin', -⟩ | ⟨-, hrow⟩
      · obtain rfl := hsorted.eq_of_mem hmem' hmem hin'.2 hin
        exact absurd hin'.1 hone
      · rw [hrow]
        refine List.filter_congr fun k _ => ?_
        rw [Bool.eq_iff_iff]
        simp [kernelAllows]
        omega

/-- **The kernel path and the recompute path agree.**  For any packed batch, any attention and
any layer window, the recompute returns a row for every packed row, in its place; a row inside
a range attends to its keys in the cells of their positions, and every other row is the one the
causal kernel has computed; and the keys of every row are those that the kernel rule allows on
the bounds that are built for it. -/
theorem mm_prefix_paths_agree
    (h : PackedBatch call lens perSegment sizes rawTables cacheBlockSize) {slidingWindow : ℤ}
    (hwindow : RowAnchored call slidingWindow) :
    ∃ rows, applyBidirectionalSegments attend call = .ok rows ∧ rows.length = call.out.length ∧
      ∀ i n j : ℕ, lens[i]? = some n → j < n →
        rows[call.cuSeqlens.getD i 0 + j]? =
          call.rowAfter attend ((perSegment.getD i none).getD []) cacheBlockSize
            (rawTables.getD i []) i n j ∧
        call.bidiKeys slidingWindow (call.contextLens.getD i 0) n
            ((perSegment.getD i none).getD []) (call.contextLens.getD i 0 - n + j) =
          kernelKeys slidingWindow (call.contextLens.getD i 0)
            (mmPrefixRow (buildMmPrefixRows call.cuSeqlens call.contextLens perSegment)
              (call.cuSeqlens.getD i 0 + j))
            (call.contextLens.getD i 0 - n + j) ∧
        ∀ kLo kHi : ℕ, kHi ≤ call.contextLens.getD i 0 →
          slotIndices (call.blockTables.getD i []) call.blockSize kLo kHi =
            (List.range' kLo (kHi - kLo)).map
              (cellOf cacheBlockSize (rawTables.getD i [])) := by
  obtain ⟨rows, hrun, hlen, hrows⟩ := h.applyBidirectionalSegments_ok
  refine ⟨rows, hrun, hlen, fun i n j hn hj => ⟨?_, ?_, fun kLo kHi hhi => ?_⟩⟩
  · rw [h.cuSeqlens]
    exact hrows i n j hn hj
  · exact h.bidiKeys_eq_kernelKeys hwindow hn hj
  · exact h.slotIndices_eq hn hhi

end Rows

/-- Three rows after two cached positions, with a block that starts in front of them and one
that reaches past them. -/
def chunkCall : BidiCall ℕ ℕ ℕ (List (ℕ × ℕ)) where
  out := [[], [], []]
  q3d := [0, 1, 2]
  blockSize := 8
  kCache := ⟨[List.range 8, List.range' 10 8], by decide⟩
  vCache := ⟨[List.range 8, List.range' 20 8], by decide⟩
  blockTables := [[1]]
  blockStride := 8
  cuSeqlens := [0, 3]
  contextLens := [5]
  segmentBidiRanges := some [some [(1, 3), (4, 9)]]
  bidiWindowAtBlockStart := false
  window := some 3
  softcap := false
  sinks := false
  turboquant := false

/-- The row in the first block attends to the block and the window, that behind it stays. -/
theorem mm_prefix_paths_agree_chunk :
    ∃ rows, applyBidirectionalSegments (fun _ kept => kept) chunkCall = .ok rows ∧
      rows.length = 3 ∧ rows[0]? = some [(10, 20), (11, 21), (12, 22)] ∧ rows[1]? = some [] := by
  have hone : ∀ i n : ℕ, ([3] : List ℕ)[i]? = some n → i = 0 ∧ n = 3 := by
    intro i n hn
    cases i with
    | zero => exact ⟨rfl, (Option.some.inj hn).symm⟩
    | succ i => simp at hn
  have hcell : ∀ i p : ℕ, p < chunkCall.contextLens.getD i 0 → i = 0 ∧ p < 5 := by
    intro i p hp
    cases i with
    | zero => exact ⟨rfl, hp⟩
    | succ i => exact absurd hp (Nat.not_lt_zero p)
  have hslot : ∀ p, p < 5 → cellOf 8 [1] p < 16 := by decide
  have hbatch : PackedBatch chunkCall [3] [some [(1, 3), (4, 9)]] kernelBlockSizes [[1]] 8 := {
    cuSeqlens := by decide
    ranges := rfl
    length := rfl
    context := by
      intro i n hn
      obtain ⟨rfl, rfl⟩ := hone i n hn
      decide
    out := rfl
    q3d := rfl
    sorted := by
      intro i
      cases i with
      | zero => exact .cons (by decide) (.cons (by simp) .nil)
      | succ i => exact .nil
    block_pos := by decide
    tables := by decide
    covered := by
      intro i n hn
      obtain ⟨rfl, rfl⟩ := hone i n hn
      exact ⟨[1], rfl, (by decide : 5 ≤ 8 * 1)⟩
    allocated := by
      intro i p hp
      obtain ⟨rfl, hp⟩ := hcell i p hp
      exact ⟨hslot p hp, hslot p hp⟩
    plain := ⟨rfl, rfl, rfl⟩ }
  have hwindow : RowAnchored chunkCall 3 := ⟨rfl, rfl⟩
  -- the first chunk row lies in a block, the second behind it
  obtain ⟨rows, hrun, hlen, hrows⟩ := mm_prefix_paths_agree hbatch hwindow
  obtain ⟨hfirst, -⟩ := hrows 0 3 0 rfl (by decide)
  obtain ⟨hsecond, -⟩ := hrows 0 3 1 rfl (by decide)
  exact ⟨rows, hrun, hlen, hfirst.trans (by decide), hsecond.trans (by decide)⟩

end Attention
end VllmMetal
