import VllmMetal.Lib.Writes
import VllmMetal.Lib.Raising
import VllmMetal.Lib.Run
import VllmMetal.Lib.Ragged
import Mathlib.Algebra.BigOperators.Group.List.Basic

/-!
# The host pool of offloaded KV chunks

`MetalKVOffloadWorker` (`worker.py`) moves whole blocks between the pages of the KV storage and a
host pool.  The pool is carved out of one region: a row for each chunk, in it a slice for each page,
in that a place for each block of the chunk.  A transfer is checked as a whole, expanded to one move
for each block, and made slice by slice.

## Main definitions

* `PoolLayout`, `PoolLayout.address` — the carving of the region.
* `TransferSlice`, `PoolLayout.slices` — the checks and the slices of a transfer.
* `HostWorker`, `submitStore`, `submitLoad` — the worker and its two calls.
-/

namespace VllmMetal
namespace KvOffload

/-! ### The pool -/

/-- What the worker knows of the storage and of the region.  The region has a row for each chunk,
and gives each page a view of its own in the rows. -/
structure PoolLayout where
  /-- `page.shape[1]`, for each page of the storage. -/
  pageBytes : List ℕ
  blocksPerChunk : ℕ
  numCpuChunks : ℕ
  numGpuBlocks : ℕ
  /-- `_SLICE_BYTES`. -/
  sliceBytes : ℕ
  rowStride : ℕ
  /-- Where the view of a page starts in each row, from `create_next_worker_view`. -/
  viewOffset : ℕ → ℕ
  blocksPerChunk_pos : 0 < blocksPerChunk
  views_inside : ∀ i < pageBytes.length,
    viewOffset i + pageBytes.getD i 0 * blocksPerChunk ≤ rowStride
  views_disjoint : ∀ i < pageBytes.length, ∀ j < pageBytes.length, i < j →
    viewOffset i + pageBytes.getD i 0 * blocksPerChunk ≤ viewOffset j ∨
      viewOffset j + pageBytes.getD j 0 * blocksPerChunk ≤ viewOffset i

namespace PoolLayout

variable (layout : PoolLayout)

/-- `block_bytes`. -/
def blockBytes : ℕ := layout.pageBytes.sum

/-- `_blocks_per_slice`. -/
def blocksPerSlice : ℕ := max 1 (layout.sliceBytes / max layout.blockBytes 1)

theorem blocksPerSlice_pos : 0 < layout.blocksPerSlice :=
  Nat.lt_of_lt_of_le Nat.one_pos (Nat.le_max_left _ _)

/-- Where `host[chunk, sub]` of page `i` starts in the region. -/
def address (i chunk sub : ℕ) : ℕ :=
  chunk * layout.rowStride + layout.viewOffset i + sub * layout.pageBytes.getD i 0

end PoolLayout

/-! ### Transfers -/

structure GPULoadStoreSpec where
  blockIds : List ℤ
  groupSizes : List ℤ
  blockIndices : List ℤ

structure CPULoadStoreSpec where
  blockIds : List ℤ

/-- The specs a call can be given. -/
inductive LoadStoreSpec where
  | gpu (spec : GPULoadStoreSpec)
  | cpu (spec : CPULoadStoreSpec)
  | other

/-- What a call raises. -/
inductive TransferError where
  /-- `unexpected store spec types ..`, `unexpected load spec types ..`. -/
  | unexpectedSpecTypes (store : Bool)
  /-- `KV offloading worker is shut down`. -/
  | shutDown
  /-- `expected a single KV cache group`. -/
  | notOneGroup (groupSizes : List ℤ)
  /-- `block_indices must have one entry per KV cache group`. -/
  | blockIndices (blockIndices groupSizes : List ℤ)
  /-- `block index must be non-negative`. -/
  | negativeBlockIndex (blockIndex : ℤ)
  /-- `.. GPU block ids != group size ..`. -/
  | groupSize (numIds : ℕ) (groupSize : ℤ)
  /-- `GPU block ids out of range`. -/
  | gpuOutOfRange (lo hi : ℤ)
  /-- `duplicate GPU block ids in a load`. -/
  | duplicateGpuIds
  /-- `CPU chunk ids out of range`. -/
  | cpuOutOfRange (lo hi : ℤ)
  /-- The minimum of no ids. -/
  | noIds
  /-- `CPU chunks too few`. -/
  | tooFewChunks (numChunks factor : ℕ) (skip groupSize : ℕ)
  deriving DecidableEq

/-- The arrays of one slice: GPU blocks, chunks and sub-slots. -/
structure TransferSlice where
  gpuIds : List ℕ
  chunks : List ℕ
  subs : List ℕ

/-- The bounds check of `_slices`, on the least and the greatest id. -/
def checkRange (ids : List ℤ) (n : ℕ) (outOfRange : ℤ → ℤ → TransferError) :
    Except TransferError Unit :=
  match ids.min?, ids.max? with
  | some lo, some hi => if lo < 0 ∨ (n : ℤ) ≤ hi then .error (outOfRange lo hi) else .ok ()
  | _, _ => .error .noIds

/-- `_slices`: the checks, then the slices of the expanded ids.  The generator makes all its checks
before the first slice. -/
def PoolLayout.slices (layout : PoolLayout) (regionOpen : Bool) (gpuSpec : GPULoadStoreSpec)
    (cpuSpec : CPULoadStoreSpec) (store : Bool) : Except TransferError (List TransferSlice) :=
  if !regionOpen then .error .shutDown
  else match gpuSpec.groupSizes, gpuSpec.blockIndices with
  | [groupSize], [blockIndex] =>
    if blockIndex < 0 then .error (.negativeBlockIndex blockIndex)
    else if groupSize = 0 then .ok []
    else if (gpuSpec.blockIds.length : ℤ) ≠ groupSize then
      .error (.groupSize gpuSpec.blockIds.length groupSize)
    else do
      checkRange gpuSpec.blockIds layout.numGpuBlocks .gpuOutOfRange
      if !store && !decide gpuSpec.blockIds.Nodup then .error .duplicateGpuIds
      else do
        let factor := layout.blocksPerChunk
        let skip := blockIndex.toNat % factor
        let n := gpuSpec.blockIds.length
        checkRange cpuSpec.blockIds layout.numCpuChunks .cpuOutOfRange
        if cpuSpec.blockIds.length * factor < skip + n then
          .error (.tooFewChunks cpuSpec.blockIds.length factor skip n)
        else
          let gpuIds := gpuSpec.blockIds.map Int.toNat
          let cpuIds := cpuSpec.blockIds.map Int.toNat
          let chunks := ((cpuIds.flatMap fun c => List.replicate factor c).drop skip).take n
          let subs := ((cpuIds.flatMap fun _ => List.range factor).drop skip).take n
          let step := layout.blocksPerSlice
          .ok ((List.range ((n + step - 1) / step)).map fun i =>
            ⟨(gpuIds.drop (i * step)).take step, (chunks.drop (i * step)).take step,
              (subs.drop (i * step)).take step⟩)
  | [_], _ => .error (.blockIndices gpuSpec.blockIndices gpuSpec.groupSizes)
  | _, _ => .error (.notOneGroup gpuSpec.groupSizes)

/-! ### The worker -/

/-- `TransferResult`, without the time. -/
structure TransferResult where
  jobId : ℕ
  success : Bool
  transferSize : ℕ
  deriving DecidableEq

/-- The bytes of the pages: by page, block and byte of the block. -/
abbrev Pages := ℕ → ℕ → ℕ → UInt8

/-- The worker: whether it has its region, the bytes of the region and of the pages, and the
transfers that are finished. -/
structure HostWorker where
  regionOpen : Bool
  host : ℕ → UInt8
  pages : Pages
  finished : List TransferResult

/-- Write the bytes of a row from an address on. -/
def writeRow (memory : ℕ → UInt8) (start : ℕ) (row : List UInt8) : ℕ → UInt8 :=
  fun a => if start ≤ a ∧ a < start + row.length then row.getD (a - start) 0 else memory a

/-- Read the bytes of a row from an address on. -/
def readRow (memory : ℕ → UInt8) (start length : ℕ) : List UInt8 :=
  (List.range length).map fun byte => memory (start + byte)

namespace TransferSlice

/-- The moves of a slice: a GPU block, a chunk and a sub-slot each. -/
def moves (slice : TransferSlice) : List (ℕ × ℕ × ℕ) :=
  slice.gpuIds.zip (slice.chunks.zip slice.subs)

end TransferSlice

/-- `_store`: the rows of the GPU blocks into the places of the pool, page by page. -/
def HostWorker.storeSlice (layout : PoolLayout) (w : HostWorker) (slice : TransferSlice) :
    HostWorker × ℕ :=
  let rows := fun i gpu => readRow (w.pages i gpu) 0 (layout.pageBytes.getD i 0)
  let host := (List.range layout.pageBytes.length).foldl
    (fun host i => slice.moves.foldl
      (fun host move => writeRow host (layout.address i move.2.1 move.2.2) (rows i move.1)) host)
    w.host
  ({ w with host := host }, (layout.pageBytes.map fun bytes => slice.gpuIds.length * bytes).sum)

/-- `gdn_state_scatter`: the rows into the blocks of a page, one after the other. -/
def scatterPage (page : ℕ → ℕ → UInt8) (gpuIds : List ℕ) (rows : List (List UInt8)) :
    ℕ → ℕ → UInt8 :=
  (gpuIds.zip rows).foldl
    (fun page move block byte =>
      if block = move.1 ∧ byte < move.2.length then move.2.getD byte 0 else page block byte) page

/-- `_load`: the rows of the places, gathered first, into the GPU blocks of every page. -/
def HostWorker.loadSlice (layout : PoolLayout) (w : HostWorker) (slice : TransferSlice) :
    HostWorker × ℕ :=
  let rows := fun i => (slice.chunks.zip slice.subs).map fun place =>
    readRow w.host (layout.address i place.1 place.2) (layout.pageBytes.getD i 0)
  let pages := fun i => if i < layout.pageBytes.length then
    scatterPage (w.pages i) slice.gpuIds (rows i) else w.pages i
  ({ w with pages := pages }, (layout.pageBytes.map fun bytes => slice.chunks.length * bytes).sum)

/-- `_submit`. -/
def HostWorker.submit (layout : PoolLayout) (w : HostWorker) (jobId : ℕ)
    (gpuSpec : GPULoadStoreSpec) (cpuSpec : CPULoadStoreSpec) (store : Bool) :
    Except TransferError Unit × HostWorker :=
  match layout.slices w.regionOpen gpuSpec cpuSpec store with
  | .error e => (.error e, w)
  | .ok slices =>
    let (w, numBytes) := slices.foldl
      (fun acc slice =>
        let (w, moved) := if store then acc.1.storeSlice layout slice
          else acc.1.loadSlice layout slice
        (w, acc.2 + moved)) (w, 0)
    (.ok (), { w with finished := w.finished ++ [⟨jobId, true, numBytes⟩] })

/-- `submit_store`. -/
def HostWorker.submitStore (layout : PoolLayout) (w : HostWorker) (jobId : ℕ)
    (srcSpec dstSpec : LoadStoreSpec) : Except TransferError Unit × HostWorker :=
  match srcSpec, dstSpec with
  | .gpu gpuSpec, .cpu cpuSpec => w.submit layout jobId gpuSpec cpuSpec true
  | _, _ => (.error (.unexpectedSpecTypes true), w)

/-- `submit_load`. -/
def HostWorker.submitLoad (layout : PoolLayout) (w : HostWorker) (jobId : ℕ)
    (srcSpec dstSpec : LoadStoreSpec) : Except TransferError Unit × HostWorker :=
  match srcSpec, dstSpec with
  | .cpu cpuSpec, .gpu gpuSpec => w.submit layout jobId gpuSpec cpuSpec false
  | _, _ => (.error (.unexpectedSpecTypes false), w)

end KvOffload
end VllmMetal
