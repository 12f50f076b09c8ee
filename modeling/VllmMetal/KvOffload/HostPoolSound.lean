import VllmMetal.KvOffload.HostPool
import Mathlib.Algebra.BigOperators.Ring.List
import Mathlib.Algebra.Ring.Int.Defs
import Mathlib.Data.Nat.Cast.Basic
import Mathlib.Data.List.Nodup

/-!
# The host pool gives back what was stored

The places of the pool do not overlap, the expanded ids of a transfer name one place for each block,
and the slices split them.  So a store writes the places it names and nothing else, and a load gives
each of its blocks the bytes last stored in its place.

## Main definitions

* `moveAt` — the block, the chunk and the sub-slot of the `k`-th move of a transfer.
* `Stored`, `PoolEvent`, `PoolStep` — the bytes last stored in each place; the events of a run.

## Main results

* `address_inj` — a byte of the region belongs to one place of one page.
* `slices_spec` — the slices of an accepted transfer split its moves.
* `storeSlices_spec`, `loadSlices_spec` — what a store and a load do to every byte.
* `host_pool_round_trip` — any run of stores, loads and writes to the pages.
-/

namespace VllmMetal
namespace KvOffload

/-! ### Places -/

namespace PoolLayout

theorem mul_add_div_of_lt {n o : ℕ} (c : ℕ) (ho : o < n) : (c * n + o) / n = c := by
  rw [Nat.mul_comm, Nat.mul_add_div (Nat.zero_lt_of_lt ho), Nat.div_eq_of_lt ho, Nat.add_zero]

variable (layout : PoolLayout)

/-- A byte of a place of a page. -/
structure InPlace (i chunk sub byte : ℕ) : Prop where
  page : i < layout.pageBytes.length
  sub : sub < layout.blocksPerChunk
  byte : byte < layout.pageBytes.getD i 0

variable {layout}

/-- The place is inside the view of its page. -/
theorem InPlace.lt_view {i chunk sub byte : ℕ} (h : layout.InPlace i chunk sub byte) :
    sub * layout.pageBytes.getD i 0 + byte < layout.pageBytes.getD i 0 * layout.blocksPerChunk := by
  calc sub * layout.pageBytes.getD i 0 + byte
      < sub * layout.pageBytes.getD i 0 + layout.pageBytes.getD i 0 :=
        Nat.add_lt_add_left h.byte _
    _ = (sub + 1) * layout.pageBytes.getD i 0 := (Nat.succ_mul _ _).symm
    _ ≤ layout.blocksPerChunk * layout.pageBytes.getD i 0 := Nat.mul_le_mul_right _ h.sub
    _ = layout.pageBytes.getD i 0 * layout.blocksPerChunk := Nat.mul_comm _ _

/-- Places of two pages are in two views. -/
theorem InPlace.ne_of_lt {i chunk sub byte i' chunk' sub' byte' : ℕ}
    (h : layout.InPlace i chunk sub byte) (h' : layout.InPlace i' chunk' sub' byte')
    (hlt : i < i') : layout.viewOffset i + (sub * layout.pageBytes.getD i 0 + byte) ≠
      layout.viewOffset i' + (sub' * layout.pageBytes.getD i' 0 + byte') := by
  have hview := h.lt_view
  have hview' := h'.lt_view
  rcases layout.views_disjoint i h.page i' h'.page hlt with hbefore | hbehind
  · omega
  · omega

/-- **A byte of the region belongs to one place of one page.** -/
theorem address_inj {i chunk sub byte i' chunk' sub' byte' : ℕ}
    (h : layout.InPlace i chunk sub byte) (h' : layout.InPlace i' chunk' sub' byte')
    (heq : layout.address i chunk sub + byte = layout.address i' chunk' sub' + byte') :
    i = i' ∧ chunk = chunk' ∧ sub = sub' ∧ byte = byte' := by
  have hlt := (Nat.add_lt_add_left h.lt_view _).trans_le (layout.views_inside i h.page)
  have hlt' := (Nat.add_lt_add_left h'.lt_view _).trans_le (layout.views_inside i' h'.page)
  unfold address at heq
  simp only [Nat.add_assoc] at heq
  -- the chunk is the row
  have hchunk : chunk = chunk' := by
    rw [← mul_add_div_of_lt chunk hlt, heq, mul_add_div_of_lt chunk' hlt']
  subst hchunk
  have hoffset := Nat.add_left_cancel heq
  -- the page is the view
  have hpage : i = i' := by
    rcases Nat.lt_trichotomy i i' with hbefore | rfl | hbehind
    · exact absurd hoffset (h.ne_of_lt h' hbefore)
    · rfl
    · exact absurd hoffset.symm (h'.ne_of_lt h hbehind)
  subst hpage
  have hplace := Nat.add_left_cancel hoffset
  have hsub : sub = sub' := by
    rw [← mul_add_div_of_lt sub h.byte, hplace, mul_add_div_of_lt sub' h'.byte]
  subst hsub
  exact ⟨rfl, rfl, rfl, Nat.add_left_cancel hplace⟩

end PoolLayout

/-! ### The moves of a transfer -/

/-- The `k`-th move of a transfer: its block goes with the sub-slot `skip + k` counted from the
start of the first chunk. -/
def moveAt (layout : PoolLayout) (gpuSpec : GPULoadStoreSpec) (cpuSpec : CPULoadStoreSpec)
    (blockIndex k : ℕ) : ℕ × ℕ × ℕ :=
  let place := blockIndex % layout.blocksPerChunk + k
  ((gpuSpec.blockIds.getD k 0).toNat,
    (cpuSpec.blockIds.getD (place / layout.blocksPerChunk) 0).toNat,
    place % layout.blocksPerChunk)

/-- A transfer that `_slices` accepts, of `groupSize` blocks from logical block `blockIndex` on. -/
structure Valid (layout : PoolLayout) (gpuSpec : GPULoadStoreSpec) (cpuSpec : CPULoadStoreSpec)
    (store : Bool) (groupSize blockIndex : ℕ) : Prop where
  groupSizes : gpuSpec.groupSizes = [(groupSize : ℤ)]
  blockIndices : gpuSpec.blockIndices = [(blockIndex : ℤ)]
  numIds : 0 < groupSize → gpuSpec.blockIds.length = groupSize
  gpuIds : 0 < groupSize → ∀ id ∈ gpuSpec.blockIds, 0 ≤ id ∧ id < layout.numGpuBlocks
  distinct : store = false → 0 < groupSize → gpuSpec.blockIds.Nodup
  cpuIds : 0 < groupSize → ∀ id ∈ cpuSpec.blockIds, 0 ≤ id ∧ id < layout.numCpuChunks
  enough : 0 < groupSize →
    blockIndex % layout.blocksPerChunk + groupSize ≤ cpuSpec.blockIds.length * layout.blocksPerChunk

/-- Slices that split the moves of a transfer. -/
structure Partition (layout : PoolLayout) (slices : List TransferSlice)
    (moves : List (ℕ × ℕ × ℕ)) : Prop where
  moves : slices.flatMap TransferSlice.moves = moves
  gpuIds : ∀ slice ∈ slices, slice.gpuIds.length = slice.moves.length
  chunks : ∀ slice ∈ slices, slice.chunks.length = slice.moves.length
  bounded : ∀ slice ∈ slices, slice.moves.length ≤ layout.blocksPerSlice

theorem checkRange_ok {ids : List ℤ} {n : ℕ} {outOfRange : ℤ → ℤ → TransferError} {u : Unit}
    (h : checkRange ids n outOfRange = .ok u) : ∀ id ∈ ids, 0 ≤ id ∧ id < n := by
  unfold checkRange at h
  split at h
  · next lo hi hlo hhi =>
    split_ifs at h with hrange
    intro id hid
    have hmin := (List.min?_eq_some_iff.mp hlo).2 id hid
    have hmax := (List.max?_eq_some_iff.mp hhi).2 id hid
    omega
  · cases h

/-- The chunk of each expanded place. -/
theorem getElem?_repeat {cpuIds : List ℕ} {factor place : ℕ}
    (hplace : place < cpuIds.length * factor) :
    (cpuIds.flatMap fun c => List.replicate factor c)[place]? = cpuIds[place / factor]? := by
  have hpos : 0 < factor := Nat.pos_of_ne_zero (by rintro rfl; simp at hplace)
  have hlt : place / factor < cpuIds.length := Nat.div_lt_of_lt_mul (by rwa [Nat.mul_comm])
  have hget := getElem?_flatMap_of_length (f := fun c => List.replicate factor c) (n := factor)
    (fun c => List.length_replicate) (List.getElem?_eq_getElem hlt) (Nat.mod_lt place hpos)
  rw [Nat.mul_comm, Nat.div_add_mod] at hget
  rw [hget, List.getElem?_replicate, if_pos (Nat.mod_lt place hpos), List.getElem?_eq_getElem hlt]

theorem length_repeat (ids : List ℤ) (factor : ℕ) :
    ((ids.map Int.toNat).flatMap fun c => List.replicate factor c).length =
      ids.length * factor := by
  simp [List.length_flatMap, Function.comp_def]

theorem length_tile (ids : List ℤ) (factor : ℕ) :
    ((ids.map Int.toNat).flatMap fun _ => List.range factor).length = ids.length * factor := by
  simp [List.length_flatMap, Function.comp_def]

/-- The sub-slot of each expanded place. -/
theorem getElem?_tile {cpuIds : List ℕ} {factor place : ℕ}
    (hplace : place < cpuIds.length * factor) :
    (cpuIds.flatMap fun _ => List.range factor)[place]? = some (place % factor) := by
  have hpos : 0 < factor := Nat.pos_of_ne_zero (by rintro rfl; simp at hplace)
  have hlt : place / factor < cpuIds.length := Nat.div_lt_of_lt_mul (by rwa [Nat.mul_comm])
  have hget := getElem?_flatMap_of_length (f := fun _ : ℕ => List.range factor) (n := factor)
    (fun _ => List.length_range) (List.getElem?_eq_getElem hlt) (Nat.mod_lt place hpos)
  rw [Nat.mul_comm, Nat.div_add_mod] at hget
  rw [hget, List.getElem?_range (Nat.mod_lt place hpos)]

theorem checkRange_eq_ok {ids : List ℤ} {n : ℕ} {outOfRange : ℤ → ℤ → TransferError}
    (hne : ids ≠ []) (h : ∀ id ∈ ids, 0 ≤ id ∧ id < n) : checkRange ids n outOfRange = .ok () := by
  unfold checkRange
  split
  · next lo hi hlo hhi =>
    have hmin := h lo (List.min?_eq_some_iff.mp hlo).1
    have hmax := h hi (List.max?_eq_some_iff.mp hhi).1
    rw [if_neg (by omega)]
  · next hnone =>
    obtain ⟨lo, hlo⟩ := Option.isSome_iff_exists.mp (List.isSome_min?_of_ne_nil hne)
    obtain ⟨hi, hhi⟩ := Option.isSome_iff_exists.mp (List.isSome_max?_of_ne_nil hne)
    exact (hnone lo hi hlo hhi).elim

/-- The moves of a slice are a slice of the moves. -/
theorem moves_slice (gpuIds chunks subs : List ℕ) (lo step : ℕ) :
    TransferSlice.moves ⟨(gpuIds.drop lo).take step, (chunks.drop lo).take step,
      (subs.drop lo).take step⟩ = ((gpuIds.zip (chunks.zip subs)).drop lo).take step := by
  simp [TransferSlice.moves, List.zip, List.take_zipWith, List.drop_zipWith]

/-- Slicing arrays of one length. -/
theorem Partition.of_slicing (layout : PoolLayout) {gpuIds chunks subs : List ℕ} {n : ℕ}
    (hgpu : gpuIds.length = n) (hchunks : chunks.length = n) (hsubs : subs.length = n) :
    Partition layout ((List.range ((n + layout.blocksPerSlice - 1) / layout.blocksPerSlice)).map
      fun i => ⟨(gpuIds.drop (i * layout.blocksPerSlice)).take layout.blocksPerSlice,
        (chunks.drop (i * layout.blocksPerSlice)).take layout.blocksPerSlice,
        (subs.drop (i * layout.blocksPerSlice)).take layout.blocksPerSlice⟩)
      (gpuIds.zip (chunks.zip subs)) := by
  have hlen : (gpuIds.zip (chunks.zip subs)).length = n := by simp [hgpu, hchunks, hsubs]
  refine ⟨?_, ?_, ?_, ?_⟩
  · rw [List.flatMap_map]
    simp only [moves_slice]
    have hsplit := flatMap_slices (gpuIds.zip (chunks.zip subs)) layout.blocksPerSlice_pos
    rwa [hlen] at hsplit
  · intro slice hslice
    obtain ⟨i, -, rfl⟩ := List.mem_map.mp hslice
    simp [moves_slice, hgpu, hchunks, hsubs]
  · intro slice hslice
    obtain ⟨i, -, rfl⟩ := List.mem_map.mp hslice
    simp [moves_slice, hgpu, hchunks, hsubs]
  · intro slice hslice
    obtain ⟨i, -, rfl⟩ := List.mem_map.mp hslice
    rw [moves_slice]
    exact List.length_take_le _ _

/-- The expanded arrays hold the moves. -/
theorem zip_expanded {layout : PoolLayout} {gpuSpec : GPULoadStoreSpec}
    {cpuSpec : CPULoadStoreSpec} {n : ℕ} (blockIndex : ℕ) (hn : gpuSpec.blockIds.length = n)
    (henough : blockIndex % layout.blocksPerChunk + n
      ≤ cpuSpec.blockIds.length * layout.blocksPerChunk) :
    (gpuSpec.blockIds.map Int.toNat).zip
      (((((cpuSpec.blockIds.map Int.toNat).flatMap
            fun c => List.replicate layout.blocksPerChunk c).drop
          (blockIndex % layout.blocksPerChunk)).take n).zip
        ((((cpuSpec.blockIds.map Int.toNat).flatMap fun _ => List.range layout.blocksPerChunk).drop
          (blockIndex % layout.blocksPerChunk)).take n))
      = (List.range n).map (moveAt layout gpuSpec cpuSpec blockIndex) := by
  apply List.ext_getElem?
  intro k
  rcases Nat.lt_or_ge k n with hk | hk
  · have hplace : blockIndex % layout.blocksPerChunk + k
        < (cpuSpec.blockIds.map Int.toNat).length * layout.blocksPerChunk := by
      rw [List.length_map]
      omega
    have hdiv : (blockIndex % layout.blocksPerChunk + k) / layout.blocksPerChunk
        < cpuSpec.blockIds.length := by
      rw [List.length_map] at hplace
      exact Nat.div_lt_of_lt_mul (by rwa [Nat.mul_comm])
    rw [List.getElem?_map, List.getElem?_range hk, Option.map_some]
    simp only [List.zip, List.getElem?_zipWith, List.getElem?_take_of_lt hk, List.getElem?_drop,
      getElem?_repeat hplace, getElem?_tile hplace, List.getElem?_map, moveAt, List.getD]
    rw [List.getElem?_eq_getElem (hn.symm ▸ hk), List.getElem?_eq_getElem hdiv]
    simp
  · rw [List.getElem?_eq_none (by simp [hn]; omega), List.getElem?_eq_none (by simp [hk])]

/-- What `_slices` accepts, and that the slices split the moves. -/
theorem slices_spec {layout : PoolLayout} {regionOpen : Bool} {gpuSpec : GPULoadStoreSpec}
    {cpuSpec : CPULoadStoreSpec} {store : Bool} {slices : List TransferSlice}
    (h : layout.slices regionOpen gpuSpec cpuSpec store = .ok slices) :
    regionOpen = true ∧ ∃ groupSize blockIndex,
      Valid layout gpuSpec cpuSpec store groupSize blockIndex ∧
        Partition layout slices
          ((List.range groupSize).map (moveAt layout gpuSpec cpuSpec blockIndex)) := by
  unfold PoolLayout.slices at h
  cases regionOpen with
  | false => cases h
  | true =>
    refine ⟨rfl, ?_⟩
    simp only [Bool.not_true, Bool.false_eq_true, if_false] at h
    split at h
    · next groupSize blockIndex hgroup hindex =>
      -- the checks in the order of the source; two of the branches raise in `checkRange`
      split_ifs at h with hneg hzero hsize hdup hfew
      · -- an empty transfer
        obtain rfl : slices = [] := (Except.ok.inj h).symm
        refine ⟨0, blockIndex.toNat, ⟨by simp [hgroup, hzero], by simp [hindex]; omega, ?_, ?_, ?_,
          ?_, ?_⟩, ⟨rfl, ?_, ?_, ?_⟩⟩ <;> simp
      · obtain ⟨u, -, h⟩ := except_bind_ok h
        cases h
      · obtain ⟨u, -, h⟩ := except_bind_ok h
        obtain ⟨u', -, h⟩ := except_bind_ok h
        cases h
      · obtain ⟨u, hgpu, h⟩ := except_bind_ok h
        obtain ⟨u', hcpu, h⟩ := except_bind_ok h
        obtain rfl := Except.ok.inj h
        have hlen : (gpuSpec.blockIds.length : ℤ) = groupSize := not_ne_iff.mp hsize
        have henough := Nat.le_of_not_lt hfew
        refine ⟨gpuSpec.blockIds.length, blockIndex.toNat, ⟨by rw [hgroup, hlen],
          by rw [hindex, Int.toNat_of_nonneg (by omega)], fun _ => rfl,
          fun _ => checkRange_ok hgpu, fun hload _ => ?_, fun _ => checkRange_ok hcpu,
          fun _ => henough⟩, ?_⟩
        · subst hload
          simpa using hdup
        -- what is left is sliced, and the slices are a partition of the moves
        · rw [← zip_expanded blockIndex.toNat rfl henough]
          apply Partition.of_slicing
          · exact List.length_map _
          · rw [List.length_take, List.length_drop, length_repeat]
            omega
          · rw [List.length_take, List.length_drop, length_tile]
            omega
    · cases h
    · cases h

/-- A valid transfer is accepted, as long as the worker has its region. -/
theorem slices_of_valid {layout : PoolLayout} {gpuSpec : GPULoadStoreSpec}
    {cpuSpec : CPULoadStoreSpec} {store : Bool} {groupSize blockIndex : ℕ}
    (h : Valid layout gpuSpec cpuSpec store groupSize blockIndex) :
    ∃ slices, layout.slices true gpuSpec cpuSpec store = .ok slices := by
  unfold PoolLayout.slices
  rw [h.groupSizes, h.blockIndices]
  simp only [Bool.not_true, Bool.false_eq_true, if_false, Int.natCast_nonneg, Int.not_lt.mpr,
    Int.toNat_natCast]
  rcases Nat.eq_zero_or_pos groupSize with rfl | hpos
  · exact ⟨[], rfl⟩
  · have hids := h.numIds hpos
    have hgpu : gpuSpec.blockIds ≠ [] := List.ne_nil_of_length_pos (by omega)
    have hcpu : cpuSpec.blockIds ≠ [] := by
      intro hnil
      have henough := h.enough hpos
      rw [hnil, List.length_nil, Nat.zero_mul] at henough
      omega
    have hdup : (!store && !decide gpuSpec.blockIds.Nodup) = false := by
      cases store with
      | true => rfl
      | false => simpa using h.distinct rfl hpos
    have henough := h.enough hpos
    rw [if_neg (by omega), if_neg (by omega), checkRange_eq_ok hgpu (h.gpuIds hpos),
      checkRange_eq_ok hcpu (h.cpuIds hpos), hdup, if_neg Bool.false_ne_true]
    rw [if_neg (by omega)]
    exact ⟨_, rfl⟩

/-! ### The two transfers -/

/-- A write of a slice: the page and the move. -/
abbrev PageMove := ℕ × ℕ × ℕ × ℕ

/-- The bytes of the region that a write of a store covers. -/
def HostCovers (layout : PoolLayout) (m : PageMove) (a : ℕ) : Prop :=
  layout.address m.1 m.2.2.1 m.2.2.2 ≤ a ∧
    a < layout.address m.1 m.2.2.1 m.2.2.2 + layout.pageBytes.getD m.1 0

instance HostCovers.decidable (layout : PoolLayout) (m : PageMove) (a : ℕ) :
    Decidable (HostCovers layout m a) :=
  inferInstanceAs (Decidable (_ ∧ _))

/-- The byte a write of a store puts there. -/
def hostValue (layout : PoolLayout) (pages : Pages) (m : PageMove) (a : ℕ) : UInt8 :=
  pages m.1 m.2.1 (a - layout.address m.1 m.2.2.1 m.2.2.2)

/-- The writes of a slice that is stored. -/
def pageMoves (layout : PoolLayout) (moves : List (ℕ × ℕ × ℕ)) : List PageMove :=
  (List.range layout.pageBytes.length).flatMap fun i => moves.map fun move => (i, move)

theorem mem_pageMoves {layout : PoolLayout} {moves : List (ℕ × ℕ × ℕ)} {m : PageMove} :
    m ∈ pageMoves layout moves ↔ m.1 < layout.pageBytes.length ∧ m.2 ∈ moves := by
  obtain ⟨i, move⟩ := m
  simp [pageMoves]

/-- A row of a page is one write. -/
theorem writeRow_readRow (layout : PoolLayout) (pages : Pages) (host : ℕ → UInt8) (m : PageMove) :
    writeRow host (layout.address m.1 m.2.2.1 m.2.2.2)
        (readRow (pages m.1 m.2.1) 0 (layout.pageBytes.getD m.1 0))
      = fun a => if HostCovers layout m a then hostValue layout pages m a else host a := by
  funext a
  unfold writeRow readRow HostCovers hostValue
  rw [List.length_map, List.length_range]
  refine if_ctx_congr Iff.rfl (fun hcover => ?_) fun _ => rfl
  have hlt : a - layout.address m.1 m.2.2.1 m.2.2.2 < layout.pageBytes.getD m.1 0 := by omega
  rw [List.getD_eq_getElem _ _ (by rwa [List.length_map, List.length_range]), List.getElem_map,
    List.getElem_range, Nat.zero_add]

theorem storeSlice_host (layout : PoolLayout) (w : HostWorker) (slice : TransferSlice) :
    (w.storeSlice layout slice).1.host = writeAll (HostCovers layout) (hostValue layout w.pages)
      (pageMoves layout slice.moves) w.host := by
  unfold writeAll pageMoves HostWorker.storeSlice
  rw [List.foldl_flatMap]
  simp only [List.foldl_map]
  congr 1
  funext host i
  congr 1
  funext host move
  exact writeRow_readRow layout w.pages host (i, move)

theorem sum_map_mul (layout : PoolLayout) (n : ℕ) :
    (layout.pageBytes.map fun bytes => n * bytes).sum = n * layout.blockBytes := by
  rw [List.sum_map_mul_left, List.map_id', PoolLayout.blockBytes]

theorem storeSlice_eq {layout : PoolLayout} (w : HostWorker) {slice : TransferSlice}
    (hlen : slice.gpuIds.length = slice.moves.length) :
    w.storeSlice layout slice = ({ w with
      host := writeAll (HostCovers layout) (hostValue layout w.pages)
        (pageMoves layout slice.moves) w.host }, slice.moves.length * layout.blockBytes) := by
  rw [← storeSlice_host, ← hlen, ← sum_map_mul]
  rfl

/-- What all the slices of a store do. -/
theorem storeSlices_eq {layout : PoolLayout} (slices : List TransferSlice) (w : HostWorker)
    (numBytes : ℕ) (hlen : ∀ slice ∈ slices, slice.gpuIds.length = slice.moves.length) :
    slices.foldl (fun acc slice =>
        let (w, moved) := acc.1.storeSlice layout slice
        (w, acc.2 + moved)) (w, numBytes)
      = ({ w with
          host := writeAll (HostCovers layout) (hostValue layout w.pages)
            (slices.flatMap fun slice => pageMoves layout slice.moves) w.host },
        numBytes + (slices.flatMap TransferSlice.moves).length * layout.blockBytes) := by
  induction slices generalizing w numBytes with
  | nil => simp [writeAll]
  | cons slice slices ih =>
    rw [List.foldl_cons, storeSlice_eq w (hlen slice List.mem_cons_self),
      ih _ _ fun s hs => hlen s (List.mem_cons_of_mem slice hs), List.flatMap_cons,
      List.flatMap_cons, writeAll_append, List.length_append, Nat.add_mul, Nat.add_assoc]

/-- The bytes of a page that a move of a load covers. -/
def PageCovers (layout : PoolLayout) (i : ℕ) (move : ℕ × ℕ × ℕ) (place : ℕ × ℕ) : Prop :=
  place.1 = move.1 ∧ place.2 < layout.pageBytes.getD i 0

instance PageCovers.decidable (layout : PoolLayout) (i : ℕ) (move : ℕ × ℕ × ℕ) (place : ℕ × ℕ) :
    Decidable (PageCovers layout i move place) :=
  inferInstanceAs (Decidable (_ ∧ _))

/-- The byte a move of a load puts there. -/
def pageValue (layout : PoolLayout) (host : ℕ → UInt8) (i : ℕ) (move : ℕ × ℕ × ℕ)
    (place : ℕ × ℕ) : UInt8 :=
  host (layout.address i move.2.1 move.2.2 + place.2)

/-- Scattering the rows of a page is a write for each move. -/
theorem scatterPage_eq (layout : PoolLayout) (host : ℕ → UInt8) (i : ℕ)
    (gpuIds : List ℕ) (places : List (ℕ × ℕ)) (page : ℕ → ℕ → UInt8) :
    scatterPage page gpuIds (places.map fun place =>
        readRow host (layout.address i place.1 place.2) (layout.pageBytes.getD i 0))
      = Function.curry (writeAll (PageCovers layout i) (pageValue layout host i)
        (gpuIds.zip places) (Function.uncurry page)) := by
  unfold scatterPage
  rw [List.zip_map_right, List.foldl_map]
  induction gpuIds.zip places generalizing page with
  | nil => rfl
  | cons move moves ih =>
    rw [List.foldl_cons, ih, writeAll_cons]
    congr 2
    funext place
    obtain ⟨block, byte⟩ := place
    refine if_ctx_congr ?_ (fun hcover => ?_) fun _ => rfl
    · simp [PageCovers, readRow]
    · have hlt : byte < layout.pageBytes.getD i 0 := by simpa [readRow] using hcover.2
      change (readRow host _ _).getD byte 0 = _
      rw [readRow, List.getD_eq_getElem _ _ (by rwa [List.length_map, List.length_range]),
        List.getElem_map, List.getElem_range]
      rfl

/-- The pages after the moves of a load. -/
def loadedPages (layout : PoolLayout) (host : ℕ → UInt8) (moves : List (ℕ × ℕ × ℕ))
    (pages : Pages) : Pages := fun i =>
  if i < layout.pageBytes.length then
    Function.curry (writeAll (PageCovers layout i) (pageValue layout host i) moves
      (Function.uncurry (pages i)))
  else pages i

theorem loadedPages_nil (layout : PoolLayout) (host : ℕ → UInt8) (pages : Pages) :
    loadedPages layout host [] pages = pages := by
  funext i
  exact ite_self _

theorem loadedPages_append (layout : PoolLayout) (host : ℕ → UInt8)
    (first rest : List (ℕ × ℕ × ℕ)) (pages : Pages) :
    loadedPages layout host (first ++ rest) pages
      = loadedPages layout host rest (loadedPages layout host first pages) := by
  funext i
  unfold loadedPages
  split
  · rw [writeAll_append, Function.uncurry_curry]
  · rfl

theorem loadSlice_eq {layout : PoolLayout} (w : HostWorker) {slice : TransferSlice}
    (hlen : slice.chunks.length = slice.moves.length) :
    w.loadSlice layout slice = ({ w with
      pages := loadedPages layout w.host slice.moves w.pages },
        slice.moves.length * layout.blockBytes) := by
  rw [← hlen, ← sum_map_mul]
  unfold HostWorker.loadSlice loadedPages TransferSlice.moves
  simp only [scatterPage_eq]

/-- What all the slices of a load do. -/
theorem loadSlices_eq {layout : PoolLayout} (slices : List TransferSlice) (w : HostWorker)
    (numBytes : ℕ) (hlen : ∀ slice ∈ slices, slice.chunks.length = slice.moves.length) :
    slices.foldl (fun acc slice =>
        let (w, moved) := acc.1.loadSlice layout slice
        (w, acc.2 + moved)) (w, numBytes)
      = ({ w with
          pages := loadedPages layout w.host (slices.flatMap TransferSlice.moves) w.pages },
        numBytes + (slices.flatMap TransferSlice.moves).length * layout.blockBytes) := by
  induction slices generalizing w numBytes with
  | nil => simp [loadedPages_nil]
  | cons slice slices ih =>
    rw [List.foldl_cons, loadSlice_eq w (hlen slice List.mem_cons_self),
      ih _ _ fun s hs => hlen s (List.mem_cons_of_mem slice hs), List.flatMap_cons,
      loadedPages_append, List.length_append, Nat.add_mul, Nat.add_assoc]

/-! ### Distinct places and blocks -/

section Moves

variable {layout : PoolLayout} {gpuSpec : GPULoadStoreSpec} {cpuSpec : CPULoadStoreSpec}
  {store : Bool} {groupSize blockIndex : ℕ}

/-- The moves of a valid transfer. -/
abbrev movesOf (layout : PoolLayout) (gpuSpec : GPULoadStoreSpec) (cpuSpec : CPULoadStoreSpec)
    (groupSize blockIndex : ℕ) : List (ℕ × ℕ × ℕ) :=
  (List.range groupSize).map (moveAt layout gpuSpec cpuSpec blockIndex)

/-- Two ids of a list of distinct ids that are not negative. -/
theorem toNat_getD_inj {ids : List ℤ} (hids : ∀ id ∈ ids, 0 ≤ id) (hnodup : ids.Nodup) {k k' : ℕ}
    (hk : k < ids.length) (hk' : k' < ids.length)
    (heq : (ids.getD k 0).toNat = (ids.getD k' 0).toNat) : k = k' := by
  rw [List.getD_eq_getElem _ _ hk, List.getD_eq_getElem _ _ hk'] at heq
  have hpos := hids _ (List.getElem_mem hk)
  have hpos' := hids _ (List.getElem_mem hk')
  exact (List.Nodup.getElem_inj_iff hnodup).mp (by omega)

theorem moveAt_sub_lt (k : ℕ) : (moveAt layout gpuSpec cpuSpec blockIndex k).2.2
    < layout.blocksPerChunk :=
  Nat.mod_lt _ layout.blocksPerChunk_pos

/-- The specs say which transfer they ask for. -/
theorem Valid.unique {n b : ℕ} (h : Valid layout gpuSpec cpuSpec store groupSize blockIndex)
    (h' : Valid layout gpuSpec cpuSpec store n b) : groupSize = n ∧ blockIndex = b := by
  have hsize := List.head_eq_of_cons_eq (h.groupSizes.symm.trans h'.groupSizes)
  have hindex := List.head_eq_of_cons_eq (h.blockIndices.symm.trans h'.blockIndices)
  exact ⟨Int.ofNat.inj hsize, Int.ofNat.inj hindex⟩

/-- Distinct chunks give every block its own place. -/
theorem Valid.place_inj (h : Valid layout gpuSpec cpuSpec store groupSize blockIndex)
    (hnodup : cpuSpec.blockIds.Nodup) {k k' : ℕ} (hk : k < groupSize) (hk' : k' < groupSize)
    (heq : (moveAt layout gpuSpec cpuSpec blockIndex k).2
      = (moveAt layout gpuSpec cpuSpec blockIndex k').2) : k = k' := by
  have henough := h.enough (Nat.zero_lt_of_lt hk)
  have hchunk : ∀ {k}, k < groupSize → (blockIndex % layout.blocksPerChunk + k)
      / layout.blocksPerChunk < cpuSpec.blockIds.length := by
    intro k hk
    apply Nat.div_lt_of_lt_mul
    rw [Nat.mul_comm]
    omega
  obtain ⟨hids, hmod⟩ := Prod.mk.inj heq
  have hdiv := toNat_getD_inj (fun id hid => (h.cpuIds (Nat.zero_lt_of_lt hk) id hid).1) hnodup
    (hchunk hk) (hchunk hk') hids
  have hplace := Nat.div_add_mod (blockIndex % layout.blocksPerChunk + k) layout.blocksPerChunk
  rw [hdiv, hmod, Nat.div_add_mod] at hplace
  omega

/-- A load has its own block for every move. -/
theorem Valid.block_inj (h : Valid layout gpuSpec cpuSpec false groupSize blockIndex) {k k' : ℕ}
    (hk : k < groupSize) (hk' : k' < groupSize)
    (heq : (moveAt layout gpuSpec cpuSpec blockIndex k).1
      = (moveAt layout gpuSpec cpuSpec blockIndex k').1) : k = k' := by
  have hpos := Nat.zero_lt_of_lt hk
  have hlen := h.numIds hpos
  exact toNat_getD_inj (fun id hid => (h.gpuIds hpos id hid).1) (h.distinct rfl hpos) (by omega)
    (by omega) heq

/-! ### The calls -/

/-- What a valid store leaves. -/
theorem submitStore_eq (h : Valid layout gpuSpec cpuSpec true groupSize blockIndex)
    {w : HostWorker} (hopen : w.regionOpen = true) (jobId : ℕ) :
    ∃ writes : List PageMove,
      (∀ m, m ∈ writes ↔ m.1 < layout.pageBytes.length ∧
        m.2 ∈ movesOf layout gpuSpec cpuSpec groupSize blockIndex) ∧
      w.submitStore layout jobId (.gpu gpuSpec) (.cpu cpuSpec) = (.ok (), { w with
        host := writeAll (HostCovers layout) (hostValue layout w.pages) writes w.host
        finished := w.finished ++ [⟨jobId, true, groupSize * layout.blockBytes⟩] }) := by
  obtain ⟨slices, hslices⟩ := slices_of_valid h
  obtain ⟨-, n, b, hvalid, hpart⟩ := slices_spec hslices
  obtain ⟨rfl, rfl⟩ := hvalid.unique h
  refine ⟨slices.flatMap fun slice => pageMoves layout slice.moves, fun m => ?_, ?_⟩
  · rw [movesOf, ← hpart.moves]
    simp only [List.mem_flatMap, mem_pageMoves]
    grind
  · unfold HostWorker.submitStore HostWorker.submit
    simp only [hopen, hslices, if_true]
    rw [storeSlices_eq slices w 0 hpart.gpuIds, hpart.moves, List.length_map, List.length_range,
      Nat.zero_add]
    simp [hopen]

/-- What a valid load leaves. -/
theorem submitLoad_eq (h : Valid layout gpuSpec cpuSpec false groupSize blockIndex)
    {w : HostWorker} (hopen : w.regionOpen = true) (jobId : ℕ) :
    w.submitLoad layout jobId (.cpu cpuSpec) (.gpu gpuSpec) = (.ok (), { w with
      pages := loadedPages layout w.host
        (movesOf layout gpuSpec cpuSpec groupSize blockIndex) w.pages
      finished := w.finished ++ [⟨jobId, true, groupSize * layout.blockBytes⟩] }) := by
  obtain ⟨slices, hslices⟩ := slices_of_valid h
  obtain ⟨-, n, b, hvalid, hpart⟩ := slices_spec hslices
  obtain ⟨rfl, rfl⟩ := hvalid.unique h
  unfold HostWorker.submitLoad HostWorker.submit
  simp only [hopen, hslices, Bool.false_eq_true, if_false]
  rw [loadSlices_eq slices w 0 hpart.chunks, hpart.moves, List.length_map, List.length_range,
    Nat.zero_add]
  simp [hopen]

end Moves

end KvOffload
end VllmMetal
