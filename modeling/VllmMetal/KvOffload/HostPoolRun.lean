import VllmMetal.KvOffload.HostPoolSound

/-!
# Runs of the host pool

A run takes the worker through stores and loads, accepted or not, while the kernels write to the
pages as they like.  Beside the worker it keeps, for each place of a chunk, the bytes of the block
last stored there.  The region holds them in every state of a run, and so a load brings them back.

## Main definitions

* `Stored`, `recordStore` — the block last stored in each place.
* `PoolEvent`, `PoolStep` — the events of a run.
* `Holds` — the invariant: the region holds what was stored.

## Main results

* `Holds.store` — the store keeps the invariant; the other places keep their bytes.
* `host_pool_round_trip` — what every further load and store of a run does.
-/

namespace VllmMetal
namespace KvOffload

/-! ### The stored blocks -/

/-- The block last stored in each place, by page and byte. -/
abbrev Stored := ℕ × ℕ → Option (ℕ → ℕ → UInt8)

/-- What a store leaves in its places. -/
def recordStore (pages : Pages) (moves : List (ℕ × ℕ × ℕ)) (stored : Stored) : Stored :=
  writeAll (fun (move : ℕ × ℕ × ℕ) place => move.2 = place)
    (fun move _ => some fun i byte => pages i move.1 byte) moves stored

/-- The region holds what was stored. -/
def Holds (layout : PoolLayout) (host : ℕ → UInt8) (stored : Stored) : Prop :=
  ∀ {chunk sub content}, stored (chunk, sub) = some content → ∀ {i byte},
    layout.InPlace i chunk sub byte → host (layout.address i chunk sub + byte) = content i byte

section Calls

variable {layout : PoolLayout} {gpuSpec : GPULoadStoreSpec} {cpuSpec : CPULoadStoreSpec}
  {groupSize blockIndex : ℕ} {writes : List PageMove} {pages : Pages} {host : ℕ → UInt8}

/-- A write that covers a byte of a place is a write to that place. -/
theorem HostCovers.place_eq {m : PageMove} {i chunk sub byte : ℕ}
    (hpage : m.1 < layout.pageBytes.length) (hsub : m.2.2.2 < layout.blocksPerChunk)
    (hplace : layout.InPlace i chunk sub byte)
    (h : HostCovers layout m (layout.address i chunk sub + byte)) :
    m.1 = i ∧ m.2.2 = (chunk, sub) ∧
      layout.address i chunk sub + byte - layout.address m.1 m.2.2.1 m.2.2.2 = byte := by
  obtain ⟨hle, hlt⟩ := h
  have hwrite : layout.InPlace m.1 m.2.2.1 m.2.2.2
      (layout.address i chunk sub + byte - layout.address m.1 m.2.2.1 m.2.2.2) :=
    ⟨hpage, hsub, by omega⟩
  obtain ⟨hi, hchunk, hsub, hbyte⟩ := PoolLayout.address_inj hwrite hplace (by omega)
  exact ⟨hi, Prod.ext hchunk hsub, hbyte⟩

variable (hwrites : ∀ m, m ∈ writes ↔ m.1 < layout.pageBytes.length ∧
  m.2 ∈ movesOf layout gpuSpec cpuSpec groupSize blockIndex)

include hwrites

variable (pages) in
/-- The writes of a store to a byte come from moves to its place. -/
theorem covering_move {i chunk sub byte : ℕ} (hplace : layout.InPlace i chunk sub byte)
    {m : PageMove} (hm : m ∈ writes)
    (hcover : HostCovers layout m (layout.address i chunk sub + byte)) :
    ∃ k < groupSize, m = (i, moveAt layout gpuSpec cpuSpec blockIndex k) ∧
      (moveAt layout gpuSpec cpuSpec blockIndex k).2 = (chunk, sub) ∧
      hostValue layout pages m (layout.address i chunk sub + byte)
        = pages i (moveAt layout gpuSpec cpuSpec blockIndex k).1 byte := by
  obtain ⟨hpage, hmove⟩ := (hwrites m).mp hm
  obtain ⟨k, hk, hmk⟩ := List.mem_map.mp hmove
  have hsub : m.2.2.2 < layout.blocksPerChunk := by
    rw [← hmk]
    exact moveAt_sub_lt k
  obtain ⟨hi, hat, hbyte⟩ := HostCovers.place_eq hpage hsub hplace hcover
  refine ⟨k, List.mem_range.mp hk, Prod.ext hi hmk.symm, by rw [hmk]; exact hat, ?_⟩
  rw [hostValue, hbyte, hi, hmk]

/-- A store puts the bytes of its blocks in their places. -/
theorem store_written (h : Valid layout gpuSpec cpuSpec true groupSize blockIndex)
    (hnodup : cpuSpec.blockIds.Nodup) {k : ℕ} (hk : k < groupSize) {i chunk sub byte : ℕ}
    (hat : (moveAt layout gpuSpec cpuSpec blockIndex k).2 = (chunk, sub))
    (hplace : layout.InPlace i chunk sub byte) :
    writeAll (HostCovers layout) (hostValue layout pages) writes host
        (layout.address i chunk sub + byte)
      = pages i (moveAt layout gpuSpec cpuSpec blockIndex k).1 byte := by
  have haddress : layout.address i (moveAt layout gpuSpec cpuSpec blockIndex k).2.1
      (moveAt layout gpuSpec cpuSpec blockIndex k).2.2 = layout.address i chunk sub := by
    rw [hat]
  refine writeAll_of_covered
    ⟨(i, moveAt layout gpuSpec cpuSpec blockIndex k), ?_, ?_⟩ ?_ host
  · exact (hwrites _).mpr ⟨hplace.page, List.mem_map_of_mem (List.mem_range.mpr hk)⟩
  · have hbyte := hplace.byte
    change layout.address i _ _ ≤ _ ∧ _ < layout.address i _ _ + layout.pageBytes.getD i 0
    rw [haddress]
    omega
  · intro m hm hcover
    obtain ⟨k', hk', -, hat', hvalue⟩ := covering_move pages hwrites hplace hm hcover
    rw [hvalue, h.place_inj hnodup hk' hk (hat'.trans hat.symm)]

/-- A store leaves every byte outside its places. -/
theorem store_frame {a : ℕ} (hnot : ∀ k < groupSize, ∀ i byte,
    layout.InPlace i (moveAt layout gpuSpec cpuSpec blockIndex k).2.1
      (moveAt layout gpuSpec cpuSpec blockIndex k).2.2 byte →
    a ≠ layout.address i (moveAt layout gpuSpec cpuSpec blockIndex k).2.1
      (moveAt layout gpuSpec cpuSpec blockIndex k).2.2 + byte) :
    writeAll (HostCovers layout) (hostValue layout pages) writes host a = host a := by
  apply writeAll_of_not_covered
  rintro ⟨i, move⟩ hm ⟨hle, hlt⟩
  obtain ⟨hpage, hmove⟩ := (hwrites _).mp hm
  obtain ⟨k, hk, rfl⟩ := List.mem_map.mp hmove
  exact hnot k (List.mem_range.mp hk) i (a - layout.address i _ _)
    ⟨hpage, moveAt_sub_lt k, Nat.sub_lt_left_of_lt_add hle hlt⟩ (Nat.add_sub_cancel' hle).symm

/-- A store leaves every other place. -/
theorem store_other_place {i chunk sub byte : ℕ} (hplace : layout.InPlace i chunk sub byte)
    (hnot : ∀ k < groupSize, (moveAt layout gpuSpec cpuSpec blockIndex k).2 ≠ (chunk, sub)) :
    writeAll (HostCovers layout) (hostValue layout pages) writes host
      (layout.address i chunk sub + byte) = host (layout.address i chunk sub + byte) := by
  apply store_frame hwrites
  intro k hk i' byte' hplace' heq
  obtain ⟨-, hchunk, hsub, -⟩ := PoolLayout.address_inj hplace hplace' heq
  exact hnot k hk (Prod.ext hchunk.symm hsub.symm)

/-- **A store keeps the invariant.** -/
theorem Holds.store (h : Valid layout gpuSpec cpuSpec true groupSize blockIndex)
    (hnodup : cpuSpec.blockIds.Nodup) {stored : Stored} (hholds : Holds layout host stored) :
    Holds layout (writeAll (HostCovers layout) (hostValue layout pages) writes host)
      (recordStore pages (movesOf layout gpuSpec cpuSpec groupSize blockIndex) stored) := by
  intro chunk sub content hcontent i byte hplace
  by_cases hat : ∃ k < groupSize, (moveAt layout gpuSpec cpuSpec blockIndex k).2 = (chunk, sub)
  · obtain ⟨k, hk, hat⟩ := hat
    rw [store_written hwrites h hnodup hk hat hplace]
    have hrecord : recordStore pages (movesOf layout gpuSpec cpuSpec groupSize blockIndex) stored
        (chunk, sub)
        = some fun i byte => pages i (moveAt layout gpuSpec cpuSpec blockIndex k).1 byte := by
      refine writeAll_of_covered
        ⟨moveAt layout gpuSpec cpuSpec blockIndex k, List.mem_map_of_mem (List.mem_range.mpr hk),
          hat⟩ ?_ stored
      intro move hmove hcover
      obtain ⟨k', hk', rfl⟩ := List.mem_map.mp hmove
      rw [h.place_inj hnodup (List.mem_range.mp hk') hk (hcover.trans hat.symm)]
    obtain rfl := Option.some.inj (hrecord.symm.trans hcontent)
    rfl
  · -- the place is not named
    have hnot : ∀ k < groupSize, (moveAt layout gpuSpec cpuSpec blockIndex k).2 ≠ (chunk, sub) :=
      fun k hk heq => hat ⟨k, hk, heq⟩
    rw [store_other_place hwrites hplace hnot]
    refine hholds ?_ hplace
    rw [← hcontent]
    refine (writeAll_of_not_covered ?_ stored).symm
    intro move hmove
    obtain ⟨k, hk, rfl⟩ := List.mem_map.mp hmove
    exact hnot k (List.mem_range.mp hk)

omit hwrites

/-- A load puts the bytes of its places in its blocks. -/
theorem load_written (h : Valid layout gpuSpec cpuSpec false groupSize blockIndex)
    {k : ℕ} (hk : k < groupSize) {i byte : ℕ} (hi : i < layout.pageBytes.length)
    (hbyte : byte < layout.pageBytes.getD i 0) :
    loadedPages layout host (movesOf layout gpuSpec cpuSpec groupSize blockIndex) pages i
        (moveAt layout gpuSpec cpuSpec blockIndex k).1 byte
      = host (layout.address i (moveAt layout gpuSpec cpuSpec blockIndex k).2.1
          (moveAt layout gpuSpec cpuSpec blockIndex k).2.2 + byte) := by
  rw [loadedPages, if_pos hi]
  refine writeAll_of_covered
    ⟨moveAt layout gpuSpec cpuSpec blockIndex k, List.mem_map_of_mem (List.mem_range.mpr hk),
      rfl, hbyte⟩ ?_ _
  intro move hmove hcover
  obtain ⟨k', hk', rfl⟩ := List.mem_map.mp hmove
  rw [← h.block_inj hk (List.mem_range.mp hk') hcover.1]
  rfl

/-- A load leaves every other block. -/
theorem load_frame {i block : ℕ}
    (hnot : ∀ k < groupSize, (moveAt layout gpuSpec cpuSpec blockIndex k).1 ≠ block) (byte : ℕ) :
    loadedPages layout host (movesOf layout gpuSpec cpuSpec groupSize blockIndex) pages i block byte
      = pages i block byte := by
  unfold loadedPages
  split
  · refine writeAll_of_not_covered ?_ _
    intro move hmove hcover
    obtain ⟨k, hk, rfl⟩ := List.mem_map.mp hmove
    exact hnot k (List.mem_range.mp hk) hcover.1.symm
  · rfl

end Calls

/-! ### Runs -/

/-- The worker, and what was stored so far. -/
structure PoolState where
  worker : HostWorker
  stored : Stored

/-- The calls of a run, and the kernels' writes to the pages. -/
inductive PoolEvent where
  | store (jobId : ℕ) (srcSpec dstSpec : LoadStoreSpec)
  | load (jobId : ℕ) (srcSpec dstSpec : LoadStoreSpec)
  | compute (pages : Pages)
  | getFinished
  | shutdown

/-- One event.  The chunks a store names are distinct; a load and a call that raises are any. -/
inductive PoolStep (layout : PoolLayout) : PoolState → PoolEvent → PoolState → Prop
  | store {s : PoolState} {jobId : ℕ} {gpuSpec : GPULoadStoreSpec} {cpuSpec : CPULoadStoreSpec}
      {groupSize blockIndex : ℕ} (hopen : s.worker.regionOpen = true)
      (hvalid : Valid layout gpuSpec cpuSpec true groupSize blockIndex)
      (hdistinct : cpuSpec.blockIds.Nodup) :
      PoolStep layout s (.store jobId (.gpu gpuSpec) (.cpu cpuSpec))
        ⟨(s.worker.submitStore layout jobId (.gpu gpuSpec) (.cpu cpuSpec)).2,
          recordStore s.worker.pages (movesOf layout gpuSpec cpuSpec groupSize blockIndex) s.stored⟩
  | storeRaises {s : PoolState} {jobId : ℕ} {srcSpec dstSpec : LoadStoreSpec} {e : TransferError}
      (hraises : (s.worker.submitStore layout jobId srcSpec dstSpec).1 = .error e) :
      PoolStep layout s (.store jobId srcSpec dstSpec)
        ⟨(s.worker.submitStore layout jobId srcSpec dstSpec).2, s.stored⟩
  | load (s : PoolState) (jobId : ℕ) (srcSpec dstSpec : LoadStoreSpec) :
      PoolStep layout s (.load jobId srcSpec dstSpec)
        ⟨(s.worker.submitLoad layout jobId srcSpec dstSpec).2, s.stored⟩
  | compute (s : PoolState) (pages : Pages) :
      PoolStep layout s (.compute pages) { s with worker.pages := pages }
  | getFinished (s : PoolState) :
      PoolStep layout s .getFinished { s with worker.finished := [] }
  | shutdown (s : PoolState) :
      PoolStep layout s .shutdown { s with worker.regionOpen := false }

/-! ### Calls that raise -/

theorem submit_raises {layout : PoolLayout} {w : HostWorker} {jobId : ℕ}
    {gpuSpec : GPULoadStoreSpec} {cpuSpec : CPULoadStoreSpec} {store : Bool} {e : TransferError}
    (h : (w.submit layout jobId gpuSpec cpuSpec store).1 = .error e) :
    (w.submit layout jobId gpuSpec cpuSpec store).2 = w := by
  unfold HostWorker.submit at h ⊢
  split at h
  · rfl
  · cases h

/-- A store that raises leaves the worker. -/
theorem submitStore_raises {layout : PoolLayout} {w : HostWorker} {jobId : ℕ}
    {srcSpec dstSpec : LoadStoreSpec} {e : TransferError}
    (h : (w.submitStore layout jobId srcSpec dstSpec).1 = .error e) :
    (w.submitStore layout jobId srcSpec dstSpec).2 = w := by
  unfold HostWorker.submitStore at h ⊢
  split at h
  · exact submit_raises h
  · rfl

/-- A load that raises leaves the worker. -/
theorem submitLoad_raises {layout : PoolLayout} {w : HostWorker} {jobId : ℕ}
    {srcSpec dstSpec : LoadStoreSpec} {e : TransferError}
    (h : (w.submitLoad layout jobId srcSpec dstSpec).1 = .error e) :
    (w.submitLoad layout jobId srcSpec dstSpec).2 = w := by
  unfold HostWorker.submitLoad at h ⊢
  split at h
  · exact submit_raises h
  · rfl

/-- A load that is accepted leaves the region. -/
theorem submit_load_host {layout : PoolLayout} {w : HostWorker} {jobId : ℕ}
    {gpuSpec : GPULoadStoreSpec} {cpuSpec : CPULoadStoreSpec} {slices : List TransferSlice}
    (h : layout.slices w.regionOpen gpuSpec cpuSpec false = .ok slices) :
    (w.submit layout jobId gpuSpec cpuSpec false).2.host = w.host := by
  obtain ⟨hopen, n, b, hvalid, hpart⟩ := slices_spec h
  unfold HostWorker.submit
  simp only [h, Bool.false_eq_true, if_false]
  rw [loadSlices_eq slices w 0 hpart.chunks]

/-- A load leaves the region, whatever comes of it. -/
theorem submitLoad_host (layout : PoolLayout) (w : HostWorker) (jobId : ℕ)
    (srcSpec dstSpec : LoadStoreSpec) :
    (w.submitLoad layout jobId srcSpec dstSpec).2.host = w.host := by
  unfold HostWorker.submitLoad
  split
  · next cpuSpec gpuSpec =>
    rcases hslices : layout.slices w.regionOpen gpuSpec cpuSpec false with e | slices
    · unfold HostWorker.submit
      rw [hslices]
    · exact submit_load_host hslices
  · rfl

/-- Every step keeps the invariant. -/
theorem Holds.step {layout : PoolLayout} {s s' : PoolState} {event : PoolEvent}
    (h : Holds layout s.worker.host s.stored) (hstep : PoolStep layout s event s') :
    Holds layout s'.worker.host s'.stored := by
  cases hstep with
  | store hopen hvalid hdistinct =>
    obtain ⟨writes, hwrites, heq⟩ := submitStore_eq hvalid hopen _
    rw [heq]
    exact Holds.store hwrites hvalid hdistinct h
  | storeRaises hraises =>
    rw [submitStore_raises hraises]
    exact h
  | load jobId srcSpec dstSpec =>
    rw [submitLoad_host]
    exact h
  | compute pages => exact h
  | getFinished => exact h
  | shutdown => exact h

/-- **The round trip of the host pool.**  After any run, a load gives every page of its blocks the
bytes last stored in its places and leaves every other block; a store writes the places it names,
from its blocks, and leaves every other place; each transfer is split by its slices and reports all
its bytes; and a call that raises leaves the worker. -/
theorem host_pool_round_trip {layout : PoolLayout} {w₀ : HostWorker} {events : List PoolEvent}
    {s : PoolState} (hrun : Run (PoolStep layout) ⟨w₀, fun _ => none⟩ events s) :
    (∀ {jobId gpuSpec cpuSpec groupSize blockIndex} {w' : HostWorker}
        {result : Except TransferError Unit}, s.worker.regionOpen = true →
        Valid layout gpuSpec cpuSpec false groupSize blockIndex →
        s.worker.submitLoad layout jobId (.cpu cpuSpec) (.gpu gpuSpec) = (result, w') →
      result = .ok () ∧
      (∀ {k content i byte}, k < groupSize →
        s.stored (moveAt layout gpuSpec cpuSpec blockIndex k).2 = some content →
        i < layout.pageBytes.length → byte < layout.pageBytes.getD i 0 →
        w'.pages i (moveAt layout gpuSpec cpuSpec blockIndex k).1 byte = content i byte) ∧
      (∀ {i block}, (∀ k < groupSize, (moveAt layout gpuSpec cpuSpec blockIndex k).1 ≠ block) →
        ∀ byte, w'.pages i block byte = s.worker.pages i block byte) ∧
      w'.host = s.worker.host ∧
      w'.finished = s.worker.finished ++ [⟨jobId, true, groupSize * layout.blockBytes⟩]) ∧
    (∀ {jobId gpuSpec cpuSpec groupSize blockIndex} {w' : HostWorker}
        {result : Except TransferError Unit}, s.worker.regionOpen = true →
        Valid layout gpuSpec cpuSpec true groupSize blockIndex → cpuSpec.blockIds.Nodup →
        s.worker.submitStore layout jobId (.gpu gpuSpec) (.cpu cpuSpec) = (result, w') →
      result = .ok () ∧
      (∀ {k i chunk sub byte}, k < groupSize →
        (moveAt layout gpuSpec cpuSpec blockIndex k).2 = (chunk, sub) →
        layout.InPlace i chunk sub byte → w'.host (layout.address i chunk sub + byte)
          = s.worker.pages i (moveAt layout gpuSpec cpuSpec blockIndex k).1 byte) ∧
      (∀ {a}, (∀ k < groupSize, ∀ i byte,
          layout.InPlace i (moveAt layout gpuSpec cpuSpec blockIndex k).2.1
            (moveAt layout gpuSpec cpuSpec blockIndex k).2.2 byte →
          a ≠ layout.address i (moveAt layout gpuSpec cpuSpec blockIndex k).2.1
            (moveAt layout gpuSpec cpuSpec blockIndex k).2.2 + byte) →
        w'.host a = s.worker.host a) ∧
      w'.pages = s.worker.pages ∧
      w'.finished = s.worker.finished ++ [⟨jobId, true, groupSize * layout.blockBytes⟩]) ∧
    (∀ {gpuSpec cpuSpec store groupSize blockIndex slices},
      Valid layout gpuSpec cpuSpec store groupSize blockIndex →
        layout.slices s.worker.regionOpen gpuSpec cpuSpec store = .ok slices →
        Partition layout slices (movesOf layout gpuSpec cpuSpec groupSize blockIndex)) ∧
    (∀ {jobId srcSpec dstSpec e}, (s.worker.submitStore layout jobId srcSpec dstSpec).1 = .error e →
      (s.worker.submitStore layout jobId srcSpec dstSpec).2 = s.worker) ∧
    ∀ {jobId srcSpec dstSpec e}, (s.worker.submitLoad layout jobId srcSpec dstSpec).1 = .error e →
      (s.worker.submitLoad layout jobId srcSpec dstSpec).2 = s.worker := by
  -- the pool holds what the run stored, by the step lemma
  have hholds : Holds layout s.worker.host s.stored := by
    refine Run.invariant (I := fun s => Holds layout s.worker.host s.stored)
      (fun _ _ _ hs hstep => Holds.step hs hstep) hrun ?_
    intro chunk sub content hcontent
    cases hcontent
  refine ⟨?_, ?_, ?_, submitStore_raises, submitLoad_raises⟩
  -- loads
  · intro jobId gpuSpec cpuSpec groupSize blockIndex w' result hopen hvalid hcall
    rw [submitLoad_eq hvalid hopen] at hcall
    obtain ⟨rfl, rfl⟩ := Prod.mk.inj hcall
    refine ⟨rfl, ?_, fun hnot byte => load_frame hnot byte, rfl, rfl⟩
    intro k content i byte hk hcontent hi hbyte
    refine (load_written hvalid hk hi hbyte).trans ?_
    have hsub : (moveAt layout gpuSpec cpuSpec blockIndex k).2.2 < layout.blocksPerChunk :=
      moveAt_sub_lt k
    exact hholds hcontent ⟨hi, hsub, hbyte⟩
  -- stores
  · intro jobId gpuSpec cpuSpec groupSize blockIndex w' result hopen hvalid hnodup hcall
    obtain ⟨writes, hwrites, heq⟩ := submitStore_eq hvalid hopen jobId
    rw [heq] at hcall
    obtain ⟨rfl, rfl⟩ := Prod.mk.inj hcall
    exact ⟨rfl, fun hk hat hplace => store_written hwrites hvalid hnodup hk hat hplace,
      fun hnot => store_frame hwrites hnot, rfl, rfl⟩
  -- the slices
  · intro gpuSpec cpuSpec store groupSize blockIndex slices hvalid hslices
    obtain ⟨-, n, b, hvalid', hpart⟩ := slices_spec hslices
    obtain ⟨rfl, rfl⟩ := hvalid.unique hvalid'
    exact hpart

/-- Two pages, two blocks in a chunk, slices of one block, views one behind the other. -/
def twoPages : PoolLayout where
  pageBytes := [1, 2]
  blocksPerChunk := 2
  numCpuChunks := 2
  numGpuBlocks := 4
  sliceBytes := 3
  rowStride := 8
  viewOffset := fun i => [1, 3].getD i 0
  blocksPerChunk_pos := Nat.two_pos
  views_inside := by decide
  views_disjoint := by decide

/-- Blocks `1`, `2`, `3` into chunk `1`, entered at its second block, and chunk `0`. -/
def storeThree : GPULoadStoreSpec × CPULoadStoreSpec := (⟨[1, 2, 3], [3], [1]⟩, ⟨[1, 0]⟩)

theorem storeThree_valid : Valid twoPages storeThree.1 storeThree.2 true 3 1 :=
  ⟨rfl, rfl, fun _ => rfl, fun _ => by decide, fun h => (Bool.noConfusion h), fun _ => by decide,
    fun _ => by decide⟩

/-- Chunk `0`, from its second block, into block `0`. -/
def loadOne : GPULoadStoreSpec × CPULoadStoreSpec := (⟨[0], [1], [3]⟩, ⟨[0]⟩)

theorem loadOne_valid : Valid twoPages loadOne.1 loadOne.2 false 1 3 :=
  ⟨rfl, rfl, fun _ => rfl, fun _ => by decide, fun _ _ => by decide, fun _ => by decide,
    fun _ => by decide⟩

/-- A worker whose bytes tell their page, block and position. -/
def numbered : HostWorker where
  regionOpen := true
  host := fun _ => 0
  pages := fun i block byte => UInt8.ofNat (100 * i + 10 * block + byte)
  finished := []

/-- Block `3` is stored, the pages are cleared, and block `0` gets its bytes. -/
theorem host_pool_round_trip_block :
    (({ (numbered.submitStore twoPages 7 (.gpu storeThree.1) (.cpu storeThree.2)).2 with
        pages := fun _ _ _ => 0 } : HostWorker).submitLoad twoPages 8 (.cpu loadOne.2)
      (.gpu loadOne.1)).2.pages 1 0 1 = 131 := by
  have hrun : Run (PoolStep twoPages) ⟨numbered, fun _ => none⟩
      [.store 7 (.gpu storeThree.1) (.cpu storeThree.2), .compute fun _ _ _ => 0] _ :=
    .cons (.store rfl storeThree_valid (by decide)) (.cons (.compute _ _) (.nil _))
  obtain ⟨hload, -⟩ := host_pool_round_trip hrun
  obtain ⟨-, hbytes, -⟩ := hload rfl loadOne_valid rfl
  exact hbytes (k := 0) (by decide) rfl (by decide) (by decide)

end KvOffload
end VllmMetal
