import VllmMetal.Lib.OrderedDict
import VllmMetal.Lib.Run
import Mathlib.Algebra.Order.Ring.Int
import Mathlib.Data.Int.Notation
import Mathlib.Algebra.GroupWithZero.Nat

/-!
# The file-system tier of the KV store

Block files of the KV cache on disk under a cap in bytes.  The manager keeps an index of the
files in the order of their last use, makes room for a store job when it is submitted, and
accounts for the files of a job when it has finished; workers write and delete files between.

## Main definitions

* `FsTier` — the scheduler-thread bookkeeping; `FsSystem` — with the files on disk.
* `evictTo`, `submitStore`, `submitLoad`, `getFinishedJobs` — the methods of the manager.
* `openStore` — the constructor.

## Main results

* `storeBytes_evictLoop`, `target_evictLoop`, `mem_kept_evictLoop`, `perm_evictLoop` — what an
  eviction leaves.
-/

namespace VllmMetal
namespace KvOffload

/-- A job id, of which only equality matters. -/
abbrev JobId := ℕ

/-- `TransferJob`: a job and the keys of its blocks. -/
structure TransferJob (Key : Type) where
  jobId : JobId
  keys : List Key

/-- `JobResult`: how a job has ended. -/
structure JobResult (Key : Type) where
  jobId : JobId
  success : Bool
  successfulKeys : Option (List Key)

/-- An entry of the index: the size of the file, and its key if the path maps back to one. -/
structure StoreEntry (Key : Type) where
  size : ℕ
  key : Option Key

/-- `MetalFileSystemTierManager`. -/
structure FsTier (Path Key : Type) where
  storeIndex : OrderedDict Path (StoreEntry Key)
  storeBytes : ℤ
  storeJobPaths : OrderedDict JobId (OrderedDict Path Key)
  loadJobPaths : OrderedDict JobId (List Path)
  maxStoreBytes : ℤ
  blockSize : ℕ
  capAnnounced : Bool
  evictedSinceStats : ℕ
  /-- The lists of keys that `_on_removed` has reported. -/
  removed : List (List Key)

/-- The manager and the block files on disk, with their sizes. -/
structure FsSystem (Path Key : Type) where
  tier : FsTier Path Key
  disk : OrderedDict Path ℕ

variable {Path Key : Type}

/-- The bytes of block files on disk. -/
def FsSystem.diskBytes (sys : FsSystem Path Key) : ℕ := sys.disk.total id

/-! ### Eviction -/

/-- What a pass over the index leaves. -/
structure EvictPass (Path Key : Type) where
  storeBytes : ℤ
  kept : List (Path × StoreEntry Key)
  evicted : List (Path × StoreEntry Key)

/-- The loop of `_evict_to`: the oldest files go until the bytes are at the target; pinned files
and files that could not be removed go back to the head, still the oldest. -/
def evictLoop (targetBytes : ℤ) (pinned removeFails : Path → Bool) :
    List (Path × StoreEntry Key) → ℤ → EvictPass Path Key
  | [], storeBytes => ⟨storeBytes, [], []⟩
  | (path, entry) :: index, storeBytes =>
      if storeBytes > targetBytes then
        if pinned path || removeFails path then
          let pass := evictLoop targetBytes pinned removeFails index storeBytes
          { pass with kept := (path, entry) :: pass.kept }
        else
          let pass := evictLoop targetBytes pinned removeFails index (storeBytes - entry.size)
          { pass with evicted := (path, entry) :: pass.evicted }
      else ⟨storeBytes, (path, entry) :: index, []⟩

section Loop

variable {targetBytes : ℤ} {pinned removeFails : Path → Bool}

theorem sublist_kept_evictLoop (index : List (Path × StoreEntry Key)) (storeBytes : ℤ) :
    (evictLoop targetBytes pinned removeFails index storeBytes).kept.Sublist index := by
  induction index generalizing storeBytes with
  | nil => exact .slnil
  | cons p index ih =>
    rw [evictLoop]
    split
    · split
      · exact (ih storeBytes).cons_cons p
      · exact (ih _).cons p
    · exact List.Sublist.refl _

/-- The bytes go down by what is evicted. -/
theorem storeBytes_evictLoop (index : List (Path × StoreEntry Key)) (storeBytes : ℤ) :
    (evictLoop targetBytes pinned removeFails index storeBytes).storeBytes =
      storeBytes - (index.map fun p => p.2.size).sum +
        ((evictLoop targetBytes pinned removeFails index storeBytes).kept.map
          fun p => p.2.size).sum := by
  induction index generalizing storeBytes with
  | nil => simp [evictLoop]
  | cons p index ih =>
    rw [evictLoop]
    split
    · split
      · simp only [List.map_cons, List.sum_cons, Nat.cast_add]
        rw [ih storeBytes]
        omega
      · simp only [List.map_cons, List.sum_cons, Nat.cast_add]
        rw [ih (storeBytes - p.2.size)]
        omega
    · simp

/-- The pass ends at the target, or with nothing left that may go. -/
theorem target_evictLoop (index : List (Path × StoreEntry Key)) (storeBytes : ℤ) :
    (evictLoop targetBytes pinned removeFails index storeBytes).storeBytes ≤ targetBytes ∨
      ∀ p ∈ (evictLoop targetBytes pinned removeFails index storeBytes).kept,
        pinned p.1 = true ∨ removeFails p.1 = true := by
  induction index generalizing storeBytes with
  | nil => exact Or.inr (by simp [evictLoop])
  | cons p index ih =>
    rw [evictLoop]
    split
    · split
      · next hkeep =>
        rcases ih storeBytes with hle | hkept
        · exact Or.inl hle
        · refine Or.inr fun q hq => ?_
          rcases List.mem_cons.mp hq with rfl | hq
          · simpa using hkeep
          · exact hkept q hq
      · exact ih _
    · next hle => exact Or.inl (not_lt.mp hle)

/-- Nothing that is pinned goes. -/
theorem mem_kept_evictLoop {index : List (Path × StoreEntry Key)} {p : Path × StoreEntry Key}
    (hp : p ∈ index) (hpinned : pinned p.1 = true) (storeBytes : ℤ) :
    p ∈ (evictLoop targetBytes pinned removeFails index storeBytes).kept := by
  induction index generalizing storeBytes with
  | nil => cases hp
  | cons q index ih =>
    rw [evictLoop]
    split
    · split
      · rcases List.mem_cons.mp hp with rfl | hp
        · exact List.mem_cons_self
        · exact List.mem_cons_of_mem _ (ih hp storeBytes)
      · next hkeep =>
        rcases List.mem_cons.mp hp with rfl | hp
        · simp [hpinned] at hkeep
        · exact ih hp _
    · exact hp

/-- Every entry is kept or evicted, and not both. -/
theorem perm_evictLoop (index : List (Path × StoreEntry Key)) (storeBytes : ℤ) :
    ((evictLoop targetBytes pinned removeFails index storeBytes).kept ++
      (evictLoop targetBytes pinned removeFails index storeBytes).evicted).Perm index := by
  induction index generalizing storeBytes with
  | nil => exact List.Perm.refl _
  | cons p index ih =>
    rw [evictLoop]
    split
    · split
      · exact (ih storeBytes).cons p
      · exact List.perm_middle.trans ((ih _).cons p)
    · simp

end Loop

section Methods

variable [DecidableEq Path]

/-- `_pinned_paths`: whether an in-flight job reads or writes a file. -/
def FsTier.pinned (tier : FsTier Path Key) (path : Path) : Bool :=
  (tier.storeJobPaths.entries.any fun job => decide (path ∈ job.2.keys)) ||
    tier.loadJobPaths.entries.any fun job => decide (path ∈ job.2)

/-- `_on_removed`. -/
def FsTier.onRemoved (tier : FsTier Path Key) (keys : List Key) : FsTier Path Key :=
  if keys.isEmpty then tier else { tier with removed := tier.removed ++ [keys] }

/-- `_evict_to`. -/
def evictTo (removeFails : Path → Bool) (targetBytes : ℤ) (sys : FsSystem Path Key) :
    FsSystem Path Key :=
  if sys.tier.maxStoreBytes = 0 ∨ sys.tier.storeBytes ≤ targetBytes then sys
  else
    let pass := evictLoop targetBytes sys.tier.pinned removeFails sys.tier.storeIndex.entries
      sys.tier.storeBytes
    let tier := { sys.tier with
      storeIndex := sys.tier.storeIndex.restrict pass.kept (sublist_kept_evictLoop _ _)
      storeBytes := pass.storeBytes
      evictedSinceStats := sys.tier.evictedSinceStats + pass.evicted.length
      capAnnounced := sys.tier.capAnnounced || !pass.evicted.isEmpty }
    { tier := tier.onRemoved (pass.evicted.filterMap fun p => p.2.key)
      -- a file that is no longer there is as good as removed
      disk := pass.evicted.foldl (fun disk p => disk.pop p.1) sys.disk }

/-! ### Jobs -/

/-- `_account_store`: files the index has move to the end, the others enter it. -/
def accountStore (paths : List (Path × Key)) (tier : FsTier Path Key) : FsTier Path Key :=
  paths.foldl (fun tier p =>
    if (tier.storeIndex.get? p.1).isSome then
      { tier with storeIndex := tier.storeIndex.moveToEnd p.1 }
    else
      { tier with
        storeIndex := tier.storeIndex.set p.1 ⟨tier.blockSize, some p.2⟩
        storeBytes := tier.storeBytes + tier.blockSize }) tier

/-- `_on_loaded`. -/
def onLoaded (paths : List Path) (tier : FsTier Path Key) : FsTier Path Key :=
  { tier with
    storeIndex := paths.foldl (fun index path => index.moveToEnd path) tier.storeIndex }

/-- The loop over the blocks that a failed load has not reached: a file that is gone leaves the
index. -/
def dropMissing (disk : OrderedDict Path ℕ) :
    List Path → FsTier Path Key → FsTier Path Key × List Key
  | [], tier => (tier, [])
  | path :: paths, tier =>
      match tier.storeIndex.get? path, disk.get? path with
      | some entry, none =>
          let rest := dropMissing disk paths { tier with
            storeIndex := tier.storeIndex.pop path
            storeBytes := tier.storeBytes - entry.size }
          (rest.1, entry.key.toList ++ rest.2)
      | _, _ => dropMissing disk paths tier

/-- One round of the loop of `get_finished_jobs`. -/
def finishJob (disk : OrderedDict Path ℕ) (tier : FsTier Path Key) (result : JobResult Key) :
    FsTier Path Key :=
  match tier.storeJobPaths.get? result.jobId with
  | some storePaths =>
      let tier := { tier with storeJobPaths := tier.storeJobPaths.pop result.jobId }
      -- a failed batch stops at the first bad block; the files it did write count
      let paths := if result.success then storePaths.entries
        else storePaths.entries.filter fun p => (disk.get? p.1).isSome
      accountStore paths tier
  | none =>
      match tier.loadJobPaths.get? result.jobId with
      | none => tier
      | some loadPaths =>
          let tier := { tier with loadJobPaths := tier.loadJobPaths.pop result.jobId }
          if result.success then onLoaded loadPaths tier
          else
            let nLoaded := (result.successfulKeys.getD []).length
            let dropped := dropMissing disk (loadPaths.drop nLoaded) tier
            onLoaded (loadPaths.take nLoaded) (dropped.1.onRemoved dropped.2)

/-- `get_finished_jobs`. -/
def getFinishedJobs (results : List (JobResult Key)) (sys : FsSystem Path Key) :
    FsSystem Path Key :=
  { sys with tier := results.foldl (finishJob sys.disk) sys.tier }

/-- The paths of a store job: one for each key, the last key of a path being its key. -/
def storePaths (fileName : Key → Path) (keys : List Key) : OrderedDict Path Key :=
  keys.foldl (fun paths key => paths.set (fileName key) key) OrderedDict.empty

/-- A store job with its paths pinned. -/
def registerStore (fileName : Key → Path) (job : TransferJob Key) (tier : FsTier Path Key) :
    FsTier Path Key :=
  { tier with
    storeJobPaths := tier.storeJobPaths.set job.jobId (storePaths fileName job.keys) }

/-- `submit_store`. -/
def submitStore (fileName : Key → Path) (removeFails : Path → Bool) (job : TransferJob Key)
    (sys : FsSystem Path Key) : FsSystem Path Key :=
  let sys := { sys with tier := registerStore fileName job sys.tier }
  if sys.tier.maxStoreBytes ≠ 0 then
    evictTo removeFails (sys.tier.maxStoreBytes -
      (storePaths fileName job.keys).entries.length * sys.tier.blockSize) sys
  else sys

/-- `submit_load`. -/
def submitLoad (fileName : Key → Path) (job : TransferJob Key) (sys : FsSystem Path Key) :
    FsSystem Path Key :=
  { sys with
    tier := { sys.tier with
      loadJobPaths := sys.tier.loadJobPaths.set job.jobId (job.keys.map fileName) } }

/-- `_index_existing_store`: the files found on disk, the oldest first, in a new manager. -/
def indexExistingStore (keyFromPath : Path → Option Key) (blockSize : ℕ) (maxStoreBytes : ℤ)
    (found : OrderedDict Path ℕ) : FsSystem Path Key where
  tier := {
    storeIndex := {
      entries := found.entries.map fun p => (p.1, ⟨p.2, keyFromPath p.1⟩)
      nodup := by
        rw [List.map_map]
        exact found.nodup }
    storeBytes := found.total id
    storeJobPaths := OrderedDict.empty
    loadJobPaths := OrderedDict.empty
    maxStoreBytes := maxStoreBytes
    blockSize := blockSize
    capAnnounced := false
    evictedSinceStats := 0
    removed := [] }
  disk := found

/-- The constructor: the files found on disk, and an eviction to the cap. -/
def openStore (keyFromPath : Path → Option Key) (removeFails : Path → Bool) (blockSize : ℕ)
    (maxStoreBytes : ℤ) (found : OrderedDict Path ℕ) : FsSystem Path Key :=
  evictTo removeFails maxStoreBytes (indexExistingStore keyFromPath blockSize maxStoreBytes found)

end Methods

end KvOffload
end VllmMetal
