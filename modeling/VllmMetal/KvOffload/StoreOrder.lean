import VllmMetal.KvOffload.StoreCap

/-!
# The index of the store and the files on disk

The index is kept in the order of the last use, and an eviction takes from its old end what may go.
The index and the disk part ways for a while when a load deletes a file that is too short; they meet
again when the load is collected, unless a store job that has counted on the file is collected after
it.

## Main definitions

* `removable`, `EvictsOldest` — the blocks that an eviction may remove, and what it does.
* `TierRun`, `TierEvent`, `TierStep` — the manager, its jobs, and what they do.
* `CollectsFiles` — the condition under which the index and the disk meet again.
* `Synced` — the invariant.

## Main results

* `evictTo_oldest` — an eviction removes the shortest run of the oldest removable blocks.
* `fs_tier_synced` — **the accounting, the order of eviction, and the files at the end of a run**.
* `stored_file_missing` — a store job collected after its file was deleted.
-/

namespace VllmMetal
namespace KvOffload

variable {Path Key : Type}

/-! ### Evictions -/

section Loop

variable {targetBytes : ℤ} {pinned removeFails : Path → Bool}

/-- The bytes of a list of entries. -/
def entryBytes (entries : List (Path × StoreEntry Key)) : ℕ := (entries.map fun p => p.2.size).sum

@[simp] theorem entryBytes_cons (p : Path × StoreEntry Key)
    (entries : List (Path × StoreEntry Key)) :
    entryBytes (p :: entries) = p.2.size + entryBytes entries := by
  simp [entryBytes]

/-- What goes is a first part of what may go. -/
theorem prefix_evictLoop (index : List (Path × StoreEntry Key)) (storeBytes : ℤ) :
    (evictLoop targetBytes pinned removeFails index storeBytes).evicted <+:
      index.filter fun p => !(pinned p.1 || removeFails p.1) := by
  induction index generalizing storeBytes with
  | nil => exact List.prefix_rfl
  | cons p index ih =>
    rw [evictLoop]
    split
    · split
      · next hkeep =>
        rw [List.filter_cons_of_neg (by simp [hkeep])]
        exact ih storeBytes
      · next hgo =>
        rw [List.filter_cons_of_pos (by simpa using hgo)]
        exact (List.prefix_cons_inj p).mpr (ih _)
    · exact List.nil_prefix

/-- The pass stops at the first block that brings the bytes to the target. -/
theorem shortest_evictLoop (index : List (Path × StoreEntry Key)) (storeBytes : ℤ) {m : ℕ}
    (hm : m < (evictLoop targetBytes pinned removeFails index storeBytes).evicted.length) :
    targetBytes < storeBytes - entryBytes
      ((evictLoop targetBytes pinned removeFails index storeBytes).evicted.take m) := by
  induction index generalizing storeBytes m with
  | nil => cases hm
  | cons p index ih =>
    rw [evictLoop] at hm ⊢
    split at hm
    · next hgt =>
      rw [if_pos hgt]
      split at hm
      · next hkeep =>
        rw [if_pos hkeep]
        exact ih storeBytes hm
      · next hgo =>
        rw [if_neg hgo]
        cases m with
        | zero => simpa [entryBytes] using hgt
        | succ m =>
          have hrest := ih (storeBytes - p.2.size) (Nat.lt_of_succ_lt_succ hm)
          rw [List.take_succ_cons, entryBytes_cons, Nat.cast_add]
          change _ < storeBytes - ((p.2.size : ℤ) + _)
          omega
    · cases hm

/-- The pass ends at the target, or with everything gone that may go. -/
theorem all_evictLoop (index : List (Path × StoreEntry Key)) (storeBytes : ℤ) :
    (evictLoop targetBytes pinned removeFails index storeBytes).storeBytes ≤ targetBytes ∨
      (evictLoop targetBytes pinned removeFails index storeBytes).evicted =
        index.filter fun p => !(pinned p.1 || removeFails p.1) := by
  induction index generalizing storeBytes with
  | nil => exact Or.inr rfl
  | cons p index ih =>
    rw [evictLoop]
    split
    · split
      · next hkeep =>
        rw [List.filter_cons_of_neg (by simp [hkeep])]
        exact ih storeBytes
      · next hgo =>
        rw [List.filter_cons_of_pos (by simpa using hgo)]
        exact (ih _).imp_right (congrArg (List.cons p))
    · next hle => exact Or.inl (not_lt.mp hle)

theorem bytes_evictLoop (index : List (Path × StoreEntry Key)) (storeBytes : ℤ) :
    (evictLoop targetBytes pinned removeFails index storeBytes).storeBytes = storeBytes -
      entryBytes (evictLoop targetBytes pinned removeFails index storeBytes).evicted := by
  have hperm := (@perm_evictLoop _ _ targetBytes pinned removeFails index storeBytes).map
    fun p => p.2.size
  have hsum := hperm.sum_eq
  rw [List.map_append, List.sum_append] at hsum
  rw [storeBytes_evictLoop, entryBytes]
  omega

variable [DecidableEq Path]

/-- What stays keeps its order. -/
theorem kept_evictLoop {index : List (Path × StoreEntry Key)} (hnodup : (index.map Prod.fst).Nodup)
    (storeBytes : ℤ) :
    (evictLoop targetBytes pinned removeFails index storeBytes).kept = index.filter fun p =>
      p.1 ∉ (evictLoop targetBytes pinned removeFails index storeBytes).evicted.map Prod.fst := by
  have hsub := @sublist_kept_evictLoop _ _ targetBytes pinned removeFails index storeBytes
  have hperm := @perm_evictLoop _ _ targetBytes pinned removeFails index storeBytes
  have hgone := fun p hp => @evicted_evictLoop _ _ targetBytes storeBytes pinned removeFails index
    hnodup p hp
  set pass := evictLoop targetBytes pinned removeFails index storeBytes with hpass
  have hkept : pass.kept.filter (fun p => p.1 ∉ pass.evicted.map Prod.fst) = pass.kept := by
    refine List.filter_eq_self.mpr fun p hp => ?_
    refine decide_eq_true fun hevicted => ?_
    obtain ⟨q, hq, hpath⟩ := List.mem_map.mp hevicted
    exact (hgone q hq).1 (hpath ▸ List.mem_map_of_mem hp)
  have hevicted : pass.evicted.filter (fun p => p.1 ∉ pass.evicted.map Prod.fst) = [] := by
    refine List.filter_eq_nil_iff.mpr fun p hp => ?_
    simpa using ⟨p.2, hp⟩
  have hlen := (hperm.filter fun p => p.1 ∉ pass.evicted.map Prod.fst).length_eq
  rw [List.filter_append, hkept, hevicted, List.append_nil] at hlen
  have hsub' := hsub.filter fun p => p.1 ∉ pass.evicted.map Prod.fst
  rw [hkept] at hsub'
  exact hsub'.eq_of_length hlen

end Loop

variable [DecidableEq Path]

/-- A block that an eviction may remove: the cap is on, no job in flight pins the file, and
`os.remove` does not fail for it. -/
def removable (removeFails : Path → Bool) (tier : FsTier Path Key) (path : Path) : Bool :=
  decide (tier.maxStoreBytes ≠ 0) && !(tier.pinned path || removeFails path)

/-- **An eviction of the oldest removable blocks.** -/
structure EvictsOldest (removeFails : Path → Bool) (targetBytes : ℤ) (sys sys' : FsSystem Path Key)
    (oldest : List (Path × StoreEntry Key)) : Prop where
  /-- What goes is a first part of what may go, in the order of the index, -/
  isPrefix : oldest <+: sys.tier.storeIndex.entries.filter fun p =>
    removable removeFails sys.tier p.1
  /-- no shorter part brings the bytes to the target, -/
  shortest : ∀ m < oldest.length,
    targetBytes < sys.tier.storeBytes - entryBytes (oldest.take m)
  /-- and this one does, or it is all that may go. -/
  reaches : sys'.tier.storeBytes ≤ targetBytes ∨
    oldest = sys.tier.storeIndex.entries.filter fun p => removable removeFails sys.tier p.1
  bytes : sys'.tier.storeBytes = sys.tier.storeBytes - entryBytes oldest
  /-- What stays keeps its order. -/
  index : sys'.tier.storeIndex.entries =
    sys.tier.storeIndex.entries.filter fun p => p.1 ∉ oldest.map Prod.fst
  disk : ∀ path, sys'.disk.get? path =
    if path ∈ oldest.map Prod.fst then none else sys.disk.get? path
  /-- The keys that are reported are those of the blocks that went. -/
  removed : sys'.tier.removed = if (oldest.filterMap fun p => p.2.key).isEmpty
    then sys.tier.removed else sys.tier.removed ++ [oldest.filterMap fun p => p.2.key]
  storeJobPaths : sys'.tier.storeJobPaths = sys.tier.storeJobPaths
  loadJobPaths : sys'.tier.loadJobPaths = sys.tier.loadJobPaths

/-- An eviction that has nothing to do. -/
theorem EvictsOldest.refl {removeFails : Path → Bool} {targetBytes : ℤ} {sys : FsSystem Path Key}
    (h : sys.tier.maxStoreBytes = 0 ∨ sys.tier.storeBytes ≤ targetBytes) :
    EvictsOldest removeFails targetBytes sys sys [] where
  isPrefix := List.nil_prefix
  shortest := fun m hm => absurd hm (Nat.not_lt_zero m)
  reaches := by
    refine h.symm.imp_right fun hmax => (List.filter_eq_nil_iff.mpr fun p _ => ?_).symm
    simp [removable, hmax]
  bytes := by simp [entryBytes]
  index := by simp
  disk := fun path => by simp
  removed := by simp
  storeJobPaths := rfl
  loadJobPaths := rfl

/-- **`_evict_to` removes the shortest run of the oldest removable blocks.** -/
theorem evictTo_oldest (removeFails : Path → Bool) (targetBytes : ℤ) (sys : FsSystem Path Key) :
    ∃ oldest, EvictsOldest removeFails targetBytes sys (evictTo removeFails targetBytes sys)
      oldest := by
  rw [evictTo]
  split
  · next hdone => exact ⟨[], EvictsOldest.refl hdone⟩
  · next hmore =>
    obtain ⟨hmax, -⟩ := not_or.mp hmore
    have hremovable : ∀ path, removable removeFails sys.tier path =
        !(sys.tier.pinned path || removeFails path) := fun path => by simp [removable, hmax]
    have hfilter : sys.tier.storeIndex.entries.filter
          (fun p => removable removeFails sys.tier p.1) =
        sys.tier.storeIndex.entries.filter
          fun p => !(sys.tier.pinned p.1 || removeFails p.1) := by
      simp only [hremovable]
    refine ⟨(evictLoop targetBytes sys.tier.pinned removeFails sys.tier.storeIndex.entries
      sys.tier.storeBytes).evicted, ?_⟩
    simp only [onRemoved_eq]
    exact {
      isPrefix := hfilter ▸ prefix_evictLoop _ _
      shortest := fun m hm => shortest_evictLoop _ _ hm
      reaches := hfilter ▸ all_evictLoop _ _
      bytes := bytes_evictLoop _ _
      index := kept_evictLoop sys.tier.storeIndex.nodup _
      disk := fun path => get?_foldl_pop _ _ path
      removed := rfl
      storeJobPaths := rfl
      loadJobPaths := rfl }

section Evicts

variable {removeFails : Path → Bool} {targetBytes : ℤ} {sys sys' : FsSystem Path Key}
  {oldest : List (Path × StoreEntry Key)}

/-- What goes is not pinned. -/
theorem EvictsOldest.not_pinned (h : EvictsOldest removeFails targetBytes sys sys' oldest)
    {path : Path} (hpath : path ∈ oldest.map Prod.fst) : sys.tier.pinned path = false := by
  obtain ⟨p, hp, rfl⟩ := List.mem_map.mp hpath
  have hok := (List.mem_filter.mp (h.isPrefix.subset hp)).2
  simp only [removable, Bool.and_eq_true, Bool.not_eq_true', Bool.or_eq_false_iff] at hok
  exact hok.2.1

/-- A block stays in the index exactly when it does not go. -/
theorem EvictsOldest.get?_index (h : EvictsOldest removeFails targetBytes sys sys' oldest)
    (path : Path) : sys'.tier.storeIndex.get? path =
      if path ∈ oldest.map Prod.fst then none else sys.tier.storeIndex.get? path := by
  have hmem : ∀ entry, sys'.tier.storeIndex.get? path = some entry ↔
      sys.tier.storeIndex.get? path = some entry ∧ path ∉ oldest.map Prod.fst := fun entry => by
    rw [OrderedDict.get?_eq_some_iff, OrderedDict.get?_eq_some_iff, h.index, List.mem_filter,
      decide_eq_true_iff]
  apply Option.ext
  intro entry
  rw [hmem]
  split
  · next hgone => simp [hgone]
  · next hstays => simp [hstays]

end Evicts

/-- The counter still counts the index. -/
theorem bytes_evictTo (removeFails : Path → Bool) (targetBytes : ℤ) {sys : FsSystem Path Key}
    (hbytes : sys.tier.storeBytes = sys.tier.storeIndex.total StoreEntry.size) :
    (evictTo removeFails targetBytes sys).tier.storeBytes =
      (evictTo removeFails targetBytes sys).tier.storeIndex.total StoreEntry.size := by
  rw [evictTo]
  split
  · exact hbytes
  · have hloop := @storeBytes_evictLoop _ _ targetBytes sys.tier.pinned removeFails
      sys.tier.storeIndex.entries sys.tier.storeBytes
    rw [OrderedDict.total] at hbytes
    rw [hbytes, sub_self, zero_add, ← hbytes] at hloop
    simp only [onRemoved_eq]
    exact hloop

/-! ### Runs -/

/-- The manager, and what its jobs have met on disk so far. -/
structure TierRun (Path Key : Type) where
  sys : FsSystem Path Key
  /-- The blocks that a store job has found or written. -/
  stored : List (JobId × Path)
  /-- The files that a load job has deleted because they are too short. -/
  shortReads : List (JobId × Path)

/-- The calls of the manager, and what the workers do between them. -/
inductive TierEvent (Path Key : Type) where
  | submitStore (job : TransferJob Key) (removeFails : Path → Bool)
  | submitLoad (job : TransferJob Key)
  /-- One round of the loop of `get_finished_jobs`. -/
  | collect (result : JobResult Key)
  /-- A store job finds the block of one of its paths on disk, and leaves it. -/
  | keepBlock (jobId : JobId) (path : Path)
  | writeBlock (jobId : JobId) (path : Path) (size : ℕ)
  /-- A load job deletes a file that is too short. -/
  | dropShortRead (jobId : JobId) (path : Path)

/-- A round of `get_finished_jobs`. -/
def collect (result : JobResult Key) (sys : FsSystem Path Key) : FsSystem Path Key :=
  { sys with tier := finishJob sys.disk sys.tier result }

/-- A call of `get_finished_jobs` is its rounds. -/
theorem getFinishedJobs_eq_foldl (results : List (JobResult Key)) (sys : FsSystem Path Key) :
    getFinishedJobs results sys = results.foldl (fun sys result => collect result sys) sys := by
  induction results generalizing sys with
  | nil => rfl
  | cons result results ih => exact ih (collect result sys)

/-- **A step of the tier.**  Job ids in flight are distinct.  A store job that succeeds has found or
written each of its blocks; a load job that has deleted a file fails, and the file is not among
those it has loaded before. -/
inductive TierStep (fileName : Key → Path) :
    TierRun Path Key → TierEvent Path Key → TierRun Path Key → Prop
  | submitStore {s : TierRun Path Key} {job : TransferJob Key} {removeFails : Path → Bool} :
      FreshJob s.sys.tier job.jobId →
      TierStep fileName s (.submitStore job removeFails)
        { s with sys := submitStore fileName removeFails job s.sys }
  | submitLoad {s : TierRun Path Key} {job : TransferJob Key} :
      FreshJob s.sys.tier job.jobId →
      TierStep fileName s (.submitLoad job) { s with sys := submitLoad fileName job s.sys }
  | collect {s : TierRun Path Key} {result : JobResult Key} :
      (∀ paths, s.sys.tier.storeJobPaths.get? result.jobId = some paths → result.success = true →
        ∀ path ∈ paths.keys, (result.jobId, path) ∈ s.stored) →
      (∀ paths path, s.sys.tier.loadJobPaths.get? result.jobId = some paths →
        (result.jobId, path) ∈ s.shortReads →
        result.success = false ∧ path ∈ paths.drop (result.successfulKeys.getD []).length) →
      TierStep fileName s (.collect result)
        { sys := collect result s.sys
          stored := s.stored.filter fun p => p.1 ≠ result.jobId
          shortReads := s.shortReads.filter fun p => p.1 ≠ result.jobId }
  | keepBlock {s : TierRun Path Key} {jobId : JobId} {path : Path} {paths : OrderedDict Path Key} :
      s.sys.tier.storeJobPaths.get? jobId = some paths → path ∈ paths.keys →
      (s.sys.disk.get? path).isSome →
      TierStep fileName s (.keepBlock jobId path) { s with stored := (jobId, path) :: s.stored }
  | writeBlock {s : TierRun Path Key} {jobId : JobId} {path : Path} {size : ℕ}
      {paths : OrderedDict Path Key} :
      s.sys.tier.storeJobPaths.get? jobId = some paths → path ∈ paths.keys →
      TierStep fileName s (.writeBlock jobId path size)
        { s with
          sys := { s.sys with disk := s.sys.disk.set path size }
          stored := (jobId, path) :: s.stored }
  | dropShortRead {s : TierRun Path Key} {jobId : JobId} {path : Path} {paths : List Path} :
      s.sys.tier.loadJobPaths.get? jobId = some paths → path ∈ paths →
      (s.sys.disk.get? path).isSome →
      TierStep fileName s (.dropShortRead jobId path)
        { s with
          sys := { s.sys with disk := s.sys.disk.pop path }
          shortReads := (jobId, path) :: s.shortReads }

/-- **Collected files are there**: when a store job that has succeeded is collected, each of its
paths that is not in the index has its file on disk. -/
def CollectsFiles (s : TierRun Path Key) : TierEvent Path Key → Prop
  | .collect result => ∀ paths, s.sys.tier.storeJobPaths.get? result.jobId = some paths →
      result.success = true → ∀ path ∈ paths.keys, s.sys.tier.storeIndex.get? path = none →
        (s.sys.disk.get? path).isSome
  | _ => True

/-! ### The invariant -/

/-- The counter counts the index, and the index and the disk differ only by what a job in flight has
still to settle. -/
structure Synced (disk : OrderedDict Path ℕ) (writing : Finset Path) (missing : Path → Prop)
    (tier : FsTier Path Key) : Prop where
  bytes : tier.storeBytes = tier.storeIndex.total StoreEntry.size
  /-- A file of the index is on disk, or a load has deleted it; -/
  onDisk : ∀ path, (tier.storeIndex.get? path).isSome → (disk.get? path).isSome ∨ missing path
  /-- a file on disk is in the index, or a store job has it. -/
  indexed : ∀ path, (disk.get? path).isSome →
    (tier.storeIndex.get? path).isSome ∨ path ∈ writing

section Rounds

variable {disk : OrderedDict Path ℕ} {writing : Finset Path} {missing : Path → Prop}
  {tier tier' : FsTier Path Key}

/-- Only the counter and the files of the index matter. -/
theorem Synced.congr (h : Synced disk writing missing tier)
    (hbytes : tier'.storeBytes = tier.storeBytes)
    (hget : ∀ path, tier'.storeIndex.get? path = tier.storeIndex.get? path)
    (htotal : tier'.storeIndex.total StoreEntry.size = tier.storeIndex.total StoreEntry.size) :
    Synced disk writing missing tier' := by
  refine ⟨?_, fun path hpath => ?_, fun path hpath => ?_⟩
  · rw [hbytes, htotal, h.bytes]
  · rw [hget] at hpath
    exact h.onDisk path hpath
  · rw [hget]
    exact h.indexed path hpath

/-- A path of a store job enters the index with its file. -/
theorem Synced.index {path : Path} {key : Option Key}
    (h : Synced disk (insert path writing) missing tier)
    (hnone : tier.storeIndex.get? path = none) (hfile : (disk.get? path).isSome) :
    Synced disk writing missing { tier with
      storeIndex := tier.storeIndex.set path ⟨tier.blockSize, key⟩
      storeBytes := tier.storeBytes + tier.blockSize } := by
  refine ⟨?_, fun path' hpath' => ?_, fun path' hpath' => ?_⟩
  · have htotal := OrderedDict.total_set_of_not_mem StoreEntry.size
      (⟨tier.blockSize, key⟩ : StoreEntry Key) (OrderedDict.get?_eq_none_iff.mp hnone)
    simp only [htotal, h.bytes, Nat.cast_add]
  · rw [OrderedDict.get?_set] at hpath'
    split at hpath'
    · next heq => exact Or.inl (heq ▸ hfile)
    · exact h.onDisk path' hpath'
  · rw [OrderedDict.get?_set]
    split
    · exact Or.inl rfl
    · next hne =>
      exact (h.indexed path' hpath').imp_right fun hin =>
        (Finset.mem_insert.mp hin).resolve_left hne

theorem synced_accountStore (stored : List (Path × Key))
    (h : Synced disk ((stored.map Prod.fst).toFinset ∪ writing) missing tier)
    (hfiles : ∀ p ∈ stored, tier.storeIndex.get? p.1 = none → (disk.get? p.1).isSome) :
    Synced disk writing missing (accountStore stored tier) := by
  induction stored generalizing tier with
  | nil => simpa [accountStore] using h
  | cons p stored ih =>
    rw [List.map_cons, List.toFinset_cons, Finset.insert_union] at h
    rw [accountStore, List.foldl_cons]
    split
    · next hin =>
      have hmoved : Synced disk ((stored.map Prod.fst).toFinset ∪ writing) missing
          { tier with storeIndex := tier.storeIndex.moveToEnd p.1 } := by
        refine Synced.congr ⟨h.bytes, h.onDisk, fun path hpath => ?_⟩ rfl
          (fun path => OrderedDict.get?_moveToEnd _ _ _) (OrderedDict.total_moveToEnd _ _ _)
        rcases h.indexed path hpath with hindex | hwriting
        · exact Or.inl hindex
        · rcases Finset.mem_insert.mp hwriting with rfl | hwriting
          · exact Or.inl hin
          · exact Or.inr hwriting
      refine ih hmoved fun q hq hnone => hfiles q (List.mem_cons_of_mem p hq) ?_
      rwa [OrderedDict.get?_moveToEnd] at hnone
    · next hout =>
      have hnone : tier.storeIndex.get? p.1 = none := by simpa using hout
      refine ih (h.index hnone (hfiles p List.mem_cons_self hnone)) fun q hq hnone' => ?_
      refine hfiles q (List.mem_cons_of_mem p hq) ?_
      rw [OrderedDict.get?_set] at hnone'
      split at hnone'
      · cases hnone'
      · exact hnone'

theorem synced_onLoaded (loaded : List Path) (h : Synced disk writing missing tier) :
    Synced disk writing missing (onLoaded loaded tier) := by
  induction loaded generalizing tier with
  | nil => exact h
  | cons path loaded ih =>
    have hmoved : Synced disk writing missing
        { tier with storeIndex := tier.storeIndex.moveToEnd path } :=
      h.congr rfl (fun path => OrderedDict.get?_moveToEnd _ _ _) (OrderedDict.total_moveToEnd _ _ _)
    exact ih hmoved

/-- A file that is gone leaves the index, and no load has to settle it any more. -/
theorem synced_dropMissing (missed : List Path)
    (h : Synced disk writing (fun path => missing path ∨ path ∈ missed) tier) :
    Synced disk writing missing (dropMissing disk missed tier).1 := by
  induction missed generalizing tier with
  | nil => exact ⟨h.bytes, fun path hpath => by simpa using h.onDisk path hpath, h.indexed⟩
  | cons path missed ih =>
    rw [dropMissing]
    split
    · next entry hentry hgone =>
      refine ih ⟨?_, fun path' hpath' => ?_, fun path' hpath' => ?_⟩
      · have htotal := OrderedDict.total_pop StoreEntry.size (d := tier.storeIndex) path
        rw [OrderedDict.sizeAt_of_get? _ hentry] at htotal
        have hbytes := h.bytes
        simp only
        omega
      · rw [OrderedDict.get?_pop] at hpath'
        split at hpath'
        · cases hpath'
        · next hne =>
          refine (h.onDisk path' hpath').imp_right (Or.imp_right fun hin => ?_)
          exact (List.mem_cons.mp hin).resolve_left hne
      · rw [OrderedDict.get?_pop, if_neg]
        · exact h.indexed path' hpath'
        · rintro rfl
          rw [hgone] at hpath'
          cases hpath'
    · next hkept =>
      refine ih ⟨h.bytes, fun path' hpath' => ?_, h.indexed⟩
      rcases h.onDisk path' hpath' with hfile | hmissing | hin
      · exact Or.inl hfile
      · exact Or.inr (Or.inl hmissing)
      · rcases List.mem_cons.mp hin with rfl | hin
        · -- the file is there: otherwise the loop would have dropped it
          obtain ⟨entry, hentry⟩ := Option.isSome_iff_exists.mp hpath'
          cases hdisk : disk.get? path' with
          | none => exact (hkept entry hentry hdisk).elim
          | some size => exact Or.inl rfl
        · exact Or.inr (Or.inr hin)

end Rounds

/-- A load has deleted the file and is not collected yet. -/
def TierRun.Missing (s : TierRun Path Key) (path : Path) : Prop :=
  ∃ jobId, (jobId, path) ∈ s.shortReads

/-- The invariant of a run. -/
structure TierInv (s : TierRun Path Key) : Prop where
  synced : Synced s.sys.disk (inFlightStorePaths s.sys.tier) s.Missing s.sys.tier
  /-- A load that has deleted a file is in flight. -/
  loads : ∀ p ∈ s.shortReads, ∃ paths, s.sys.tier.loadJobPaths.get? p.1 = some paths
  disjoint : ∀ jobId paths, s.sys.tier.loadJobPaths.get? jobId = some paths →
    s.sys.tier.storeJobPaths.get? jobId = none

/-- An eviction keeps the index and the disk together. -/
theorem Synced.evictTo {removeFails : Path → Bool} {targetBytes : ℤ} {sys : FsSystem Path Key}
    {writing : Finset Path} {missing : Path → Prop}
    (h : Synced sys.disk writing missing sys.tier) :
    Synced (evictTo removeFails targetBytes sys).disk writing missing
      (evictTo removeFails targetBytes sys).tier := by
  obtain ⟨oldest, hevicts⟩ := evictTo_oldest removeFails targetBytes sys
  refine ⟨bytes_evictTo removeFails targetBytes h.bytes, fun path hpath => ?_,
    fun path hpath => ?_⟩
  · rw [hevicts.get?_index] at hpath
    rw [hevicts.disk]
    split at hpath
    · cases hpath
    · next hstays =>
      rw [if_neg hstays]
      exact h.onDisk path hpath
  · rw [hevicts.disk] at hpath
    rw [hevicts.get?_index]
    split at hpath
    · cases hpath
    · next hstays =>
      rw [if_neg hstays]
      exact h.indexed path hpath

theorem jobPaths_evictTo (removeFails : Path → Bool) (targetBytes : ℤ) (sys : FsSystem Path Key) :
    (evictTo removeFails targetBytes sys).tier.storeJobPaths = sys.tier.storeJobPaths ∧
      (evictTo removeFails targetBytes sys).tier.loadJobPaths = sys.tier.loadJobPaths := by
  obtain ⟨oldest, hevicts⟩ := evictTo_oldest removeFails targetBytes sys
  exact ⟨hevicts.storeJobPaths, hevicts.loadJobPaths⟩

/-- What may be written grows. -/
theorem Synced.mono {disk : OrderedDict Path ℕ} {writing writing' : Finset Path}
    {missing missing' : Path → Prop} {tier : FsTier Path Key}
    (h : Synced disk writing missing tier) (hwriting : writing ⊆ writing')
    (hmissing : ∀ path, missing path → missing' path) : Synced disk writing' missing' tier :=
  ⟨h.bytes, fun path hpath => (h.onDisk path hpath).imp_right (hmissing path),
    fun path hpath => (h.indexed path hpath).imp_right fun hin => hwriting hin⟩

theorem TierInv.submitStore {fileName : Key → Path} {removeFails : Path → Bool}
    {job : TransferJob Key} {s : TierRun Path Key} (h : TierInv s)
    (hfresh : FreshJob s.sys.tier job.jobId) :
    TierInv { s with sys := submitStore fileName removeFails job s.sys } := by
  set after : FsSystem Path Key :=
    { s.sys with tier := registerStore fileName job s.sys.tier } with hafter
  -- registering the job only adds paths in flight
  have hstart : Synced after.disk (inFlightStorePaths after.tier) s.Missing after.tier := by
    have hgrown : Synced s.sys.disk (inFlightStorePaths after.tier) s.Missing s.sys.tier :=
      h.synced.mono (fun path hpath => (mem_inFlightStorePaths_register hfresh.1).mpr
        (Or.inr hpath)) fun _ hmissing => hmissing
    exact hgrown.congr rfl (fun _ => rfl) rfl
  -- the eviction that makes room keeps the jobs
  obtain ⟨hsynced, hstore, hload⟩ :
      Synced (KvOffload.submitStore fileName removeFails job s.sys).disk
        (inFlightStorePaths after.tier) s.Missing
        (KvOffload.submitStore fileName removeFails job s.sys).tier ∧
      (KvOffload.submitStore fileName removeFails job s.sys).tier.storeJobPaths =
        after.tier.storeJobPaths ∧
      (KvOffload.submitStore fileName removeFails job s.sys).tier.loadJobPaths =
        s.sys.tier.loadJobPaths := by
    unfold KvOffload.submitStore
    dsimp only
    split
    · exact ⟨hstart.evictTo, jobPaths_evictTo _ _ _⟩
    · exact ⟨hstart, rfl, rfl⟩
  refine ⟨?_, fun p hp => ?_, fun jobId paths hget => ?_⟩
  · change Synced _ (inFlightStorePaths (KvOffload.submitStore fileName removeFails job s.sys).tier)
      s.Missing _
    rw [inFlightStorePaths_congr hstore]
    exact hsynced
  · rw [hload]
    exact h.loads p hp
  -- a new job has a new id
  · rw [hload] at hget
    rw [hstore]
    change (s.sys.tier.storeJobPaths.set job.jobId _).get? jobId = none
    rw [OrderedDict.get?_set, if_neg]
    · exact h.disjoint jobId paths hget
    · rintro rfl
      rw [hfresh.2] at hget
      cases hget

theorem TierInv.submitLoad {fileName : Key → Path} {job : TransferJob Key} {s : TierRun Path Key}
    (h : TierInv s) (hfresh : FreshJob s.sys.tier job.jobId) :
    TierInv { s with sys := submitLoad fileName job s.sys } := by
  refine ⟨h.synced.congr rfl (fun _ => rfl) rfl, fun p hp => ?_, fun jobId paths hget => ?_⟩
  · change ∃ paths, (s.sys.tier.loadJobPaths.set job.jobId _).get? p.1 = some paths
    rw [OrderedDict.get?_set]
    split
    · exact ⟨_, rfl⟩
    · exact h.loads p hp
  · change (s.sys.tier.loadJobPaths.set job.jobId _).get? jobId = some paths at hget
    rw [OrderedDict.get?_set] at hget
    split at hget
    · next heq =>
      rw [heq]
      exact hfresh.1
    · exact h.disjoint jobId paths hget

/-! ### Finished jobs -/

section Collect

variable {s : TierRun Path Key} {result : JobResult Key}

/-- A round that collects a store job. -/
theorem TierInv.collectStore (h : TierInv s) {paths : OrderedDict Path Key}
    (hjob : s.sys.tier.storeJobPaths.get? result.jobId = some paths)
    (hfiles : CollectsFiles s (.collect result)) :
    Synced s.sys.disk (inFlightStorePaths (finishJob s.sys.disk s.sys.tier result)) s.Missing
      (finishJob s.sys.disk s.sys.tier result) := by
  rw [finishJob, hjob]
  set popped : FsTier Path Key :=
    { s.sys.tier with storeJobPaths := s.sys.tier.storeJobPaths.pop result.jobId } with hpopped
  set stored := if result.success then paths.entries
    else paths.entries.filter fun p => (s.sys.disk.get? p.1).isSome with hstored
  change Synced _ (inFlightStorePaths (accountStore stored popped)) _ (accountStore stored popped)
  rw [inFlightStorePaths_congr (storeJobPaths_accountStore stored popped)]
  refine synced_accountStore stored ⟨h.synced.bytes, h.synced.onDisk, fun path hpath => ?_⟩
    fun p hp hnone => ?_
  · refine (h.synced.indexed path hpath).imp_right fun hin => ?_
    rcases (mem_inFlightStorePaths_pop hjob).mp hin with hin | hin
    · obtain ⟨p, hp, rfl⟩ := List.mem_map.mp hin
      refine Finset.mem_union_left _ (List.mem_toFinset.mpr (List.mem_map.mpr ⟨p, ?_, rfl⟩))
      rw [hstored]
      split
      · exact hp
      · exact List.mem_filter.mpr ⟨hp, hpath⟩
    · exact Finset.mem_union_right _ hin
  · rw [hstored] at hp
    split at hp
    · next hsuccess => exact hfiles paths hjob hsuccess p.1 (List.mem_map_of_mem hp) hnone
    · exact (List.mem_filter.mp hp).2

/-- A round that collects a load job. -/
theorem TierInv.collectLoad (h : TierInv s) {paths : List Path}
    (hstore : s.sys.tier.storeJobPaths.get? result.jobId = none)
    (hjob : s.sys.tier.loadJobPaths.get? result.jobId = some paths)
    (hshort : ∀ path, (result.jobId, path) ∈ s.shortReads →
      result.success = false ∧ path ∈ paths.drop (result.successfulKeys.getD []).length)
    {missing : Path → Prop}
    (hmissing : ∀ path jobId, (jobId, path) ∈ s.shortReads → jobId ≠ result.jobId → missing path) :
    Synced s.sys.disk (inFlightStorePaths (finishJob s.sys.disk s.sys.tier result)) missing
      (finishJob s.sys.disk s.sys.tier result) := by
  rw [finishJob, hstore, hjob]
  dsimp only
  have hpopped : Synced s.sys.disk (inFlightStorePaths s.sys.tier) s.Missing
      { s.sys.tier with loadJobPaths := s.sys.tier.loadJobPaths.pop result.jobId } :=
    h.synced.congr rfl (fun _ => rfl) rfl
  split
  -- every file was read
  · next hsuccess =>
    refine synced_onLoaded paths (hpopped.mono (Finset.Subset.refl _) ?_)
    rintro path ⟨jobId, hin⟩
    refine hmissing path jobId hin ?_
    rintro rfl
    rw [(hshort path hin).1] at hsuccess
    cases hsuccess
  · rw [@inFlightStorePaths_congr _ _ _ s.sys.tier _ (by simp [onLoaded, onRemoved_eq])]
    -- a short read: the files that are gone are dropped, or another round will do it
    have hdropped : Synced s.sys.disk (inFlightStorePaths s.sys.tier) missing
        (dropMissing s.sys.disk (paths.drop (result.successfulKeys.getD []).length)
          { s.sys.tier with
            loadJobPaths := s.sys.tier.loadJobPaths.pop result.jobId }).1 := by
      refine synced_dropMissing _ (hpopped.mono (Finset.Subset.refl _) ?_)
      rintro path ⟨jobId, hin⟩
      by_cases heq : jobId = result.jobId
      · exact Or.inr (hshort path (heq ▸ hin)).2
      · exact Or.inl (hmissing path jobId hin heq)
    refine synced_onLoaded _ (hdropped.congr ?_ ?_ ?_)
    all_goals simp [onRemoved_eq]

theorem finishJob_none {disk : OrderedDict Path ℕ} {tier : FsTier Path Key}
    (hstore : tier.storeJobPaths.get? result.jobId = none)
    (hload : tier.loadJobPaths.get? result.jobId = none) : finishJob disk tier result = tier := by
  rw [finishJob, hstore, hload]

@[simp] theorem loadJobPaths_accountStore (stored : List (Path × Key)) (tier : FsTier Path Key) :
    (accountStore stored tier).loadJobPaths = tier.loadJobPaths := by
  induction stored generalizing tier with
  | nil => rfl
  | cons p stored ih =>
    rw [accountStore, List.foldl_cons]
    split <;> exact ih _

@[simp] theorem loadJobPaths_dropMissing (disk : OrderedDict Path ℕ) (missed : List Path)
    (tier : FsTier Path Key) :
    (dropMissing disk missed tier).1.loadJobPaths = tier.loadJobPaths := by
  induction missed generalizing tier with
  | nil => rfl
  | cons path missed ih =>
    rw [dropMissing]
    split <;> rw [ih]

/-- A round takes its job out of the maps. -/
theorem jobPaths_finishJob (disk : OrderedDict Path ℕ) (tier : FsTier Path Key)
    (result : JobResult Key) :
    ((finishJob disk tier result).storeJobPaths = tier.storeJobPaths ∨
      (finishJob disk tier result).storeJobPaths = tier.storeJobPaths.pop result.jobId) ∧
    ((finishJob disk tier result).loadJobPaths = tier.loadJobPaths ∨
      (finishJob disk tier result).loadJobPaths = tier.loadJobPaths.pop result.jobId) := by
  rw [finishJob]
  split
  · simp
  · split
    · exact ⟨Or.inl rfl, Or.inl rfl⟩
    · dsimp only
      split
      · exact ⟨Or.inl rfl, Or.inr rfl⟩
      · simp [onLoaded, onRemoved_eq]

theorem TierInv.collect (h : TierInv s) (hfiles : CollectsFiles s (.collect result))
    (hshort : ∀ paths path, s.sys.tier.loadJobPaths.get? result.jobId = some paths →
      (result.jobId, path) ∈ s.shortReads →
      result.success = false ∧ path ∈ paths.drop (result.successfulKeys.getD []).length)
    (stored : List (JobId × Path)) :
    TierInv { sys := KvOffload.collect result s.sys
              stored := stored
              shortReads := s.shortReads.filter fun p => p.1 ≠ result.jobId } := by
  obtain ⟨hstoreJobs, hloadJobs⟩ := jobPaths_finishJob s.sys.disk s.sys.tier result
  refine ⟨?_, fun p hp => ?_, fun jobId paths hget => ?_⟩
  · change Synced s.sys.disk (inFlightStorePaths (finishJob s.sys.disk s.sys.tier result))
      (fun path => ∃ jobId, (jobId, path) ∈ s.shortReads.filter fun p => p.1 ≠ result.jobId)
      (finishJob s.sys.disk s.sys.tier result)
    have hother : ∀ path jobId, (jobId, path) ∈ s.shortReads → jobId ≠ result.jobId →
        ∃ jobId, (jobId, path) ∈ s.shortReads.filter fun p => p.1 ≠ result.jobId :=
      fun path jobId hin hne => ⟨jobId, List.mem_filter.mpr ⟨hin, decide_eq_true hne⟩⟩
    -- the result is of a store job, of a load job or of neither
    cases hstore : s.sys.tier.storeJobPaths.get? result.jobId with
    | some paths =>
      refine (h.collectStore hstore hfiles).mono (Finset.Subset.refl _) ?_
      rintro path ⟨jobId, hin⟩
      refine hother path jobId hin ?_
      -- a short read belongs to a load job, never to this one
      rintro rfl
      obtain ⟨loaded, hload⟩ := h.loads _ hin
      rw [h.disjoint _ loaded hload] at hstore
      cases hstore
    | none =>
      cases hload : s.sys.tier.loadJobPaths.get? result.jobId with
      | some paths => exact h.collectLoad hstore hload (fun path => hshort paths path hload) hother
      | none =>
        rw [finishJob_none hstore hload]
        refine h.synced.mono (Finset.Subset.refl _) ?_
        rintro path ⟨jobId, hin⟩
        refine hother path jobId hin ?_
        rintro rfl
        obtain ⟨loaded, hloaded⟩ := h.loads _ hin
        rw [hload] at hloaded
        cases hloaded
  · obtain ⟨hin, hne⟩ := List.mem_filter.mp hp
    have hne := of_decide_eq_true hne
    obtain ⟨paths, hget⟩ := h.loads p hin
    refine ⟨paths, ?_⟩
    change (finishJob s.sys.disk s.sys.tier result).loadJobPaths.get? p.1 = some paths
    rcases hloadJobs with heq | heq
    · rw [heq, hget]
    · rw [heq, OrderedDict.get?_pop, if_neg hne, hget]
  · change (finishJob s.sys.disk s.sys.tier result).loadJobPaths.get? jobId = some paths at hget
    change (finishJob s.sys.disk s.sys.tier result).storeJobPaths.get? jobId = none
    -- a job that is still there was there before
    have hold : s.sys.tier.loadJobPaths.get? jobId = some paths := by
      rcases hloadJobs with heq | heq
      · rwa [heq] at hget
      · rw [heq, OrderedDict.get?_pop] at hget
        split at hget
        · cases hget
        · exact hget
    rcases hstoreJobs with heq | heq
    · rw [heq]
      exact h.disjoint jobId paths hold
    · rw [heq, OrderedDict.get?_pop]
      split
      · rfl
      · exact h.disjoint jobId paths hold

end Collect

/-! ### Runs -/

/-- **What the steps of a run preserve.** -/
theorem TierInv.step {fileName : Key → Path} {s s' : TierRun Path Key} {event : TierEvent Path Key}
    (h : TierInv s) (hstep : TierStep fileName s event s') (hfiles : CollectsFiles s event) :
    TierInv s' := by
  cases hstep with
  | submitStore hfresh => exact h.submitStore hfresh
  | submitLoad hfresh => exact h.submitLoad hfresh
  | collect _ hshort => exact h.collect hfiles hshort _
  | keepBlock hjob hpath hfile => exact ⟨h.synced, h.loads, h.disjoint⟩
  -- a job writes one of its files
  | @writeBlock jobId path size paths hjob hpath =>
    refine ⟨⟨h.synced.bytes, fun path' hpath' => ?_, fun path' hpath' => ?_⟩, h.loads, h.disjoint⟩
    · rw [OrderedDict.get?_set]
      split
      · exact Or.inl rfl
      · exact h.synced.onDisk path' hpath'
    · rw [OrderedDict.get?_set] at hpath'
      split at hpath'
      · next heq =>
        subst heq
        exact Or.inr (mem_inFlightStorePaths.mpr ⟨jobId, paths, hjob, hpath⟩)
      · exact h.synced.indexed path' hpath'
  -- a load job removes a short file, and has it on its list
  | @dropShortRead jobId path paths hjob hpath hfile =>
    refine ⟨⟨h.synced.bytes, fun path' hpath' => ?_, fun path' hpath' => ?_⟩, ?_, h.disjoint⟩
    · rw [OrderedDict.get?_pop]
      split
      · next heq => exact Or.inr ⟨jobId, heq ▸ List.mem_cons_self⟩
      · refine (h.synced.onDisk path' hpath').imp_right ?_
        rintro ⟨jobId', hin⟩
        exact ⟨jobId', List.mem_cons_of_mem _ hin⟩
    · rw [OrderedDict.get?_pop] at hpath'
      split at hpath'
      · cases hpath'
      · exact h.synced.indexed path' hpath'
    · intro p hp
      rcases List.mem_cons.mp hp with rfl | hp
      · exact ⟨paths, hjob⟩
      · exact h.loads p hp

/-- The constructor: what is on disk is in the index. -/
theorem tierInv_openStore (keyFromPath : Path → Option Key) (removeFails : Path → Bool)
    (blockSize : ℕ) (maxStoreBytes : ℤ) (found : OrderedDict Path ℕ) :
    TierInv { sys := openStore keyFromPath removeFails blockSize maxStoreBytes found
              stored := [], shortReads := [] } := by
  set start := indexExistingStore keyFromPath blockSize maxStoreBytes found with hstart
  have hentry : ∀ path, (start.tier.storeIndex.get? path).isSome ↔ (found.get? path).isSome := by
    intro path
    rw [OrderedDict.get?_isSome_iff, OrderedDict.get?_isSome_iff]
    simp [hstart, indexExistingStore, OrderedDict.keys]
  have hsynced : Synced start.disk (inFlightStorePaths start.tier) (fun _ => False) start.tier := by
    refine ⟨(tracked_indexExistingStore keyFromPath blockSize maxStoreBytes found).bytes,
      fun path hpath => Or.inl ((hentry path).mp hpath),
      fun path hpath => Or.inl ((hentry path).mpr hpath)⟩
  obtain ⟨hstore, hload⟩ := jobPaths_evictTo removeFails maxStoreBytes start
  refine ⟨?_, fun p hp => absurd hp List.not_mem_nil, fun jobId paths hget => ?_⟩
  · change Synced _ (inFlightStorePaths (evictTo removeFails maxStoreBytes start).tier) _ _
    rw [inFlightStorePaths_congr hstore]
    exact hsynced.evictTo.mono (Finset.Subset.refl _) fun _ hfalse => hfalse.elim
  · change (evictTo removeFails maxStoreBytes start).tier.loadJobPaths.get? jobId = _ at hget
    rw [hload] at hget
    cases hget

/-- Every job has been collected. -/
def AllFinished (tier : FsTier Path Key) : Prop :=
  (∀ jobId, tier.storeJobPaths.get? jobId = none) ∧ ∀ jobId, tier.loadJobPaths.get? jobId = none

/-- **The accounting and the order of the store.**  The counter counts the index in every state of a
run; an eviction, in any state, removes the shortest run of the oldest removable blocks, and no file
that a job in flight pins; and in a run that collects stored files only when they are there, the
index and the disk hold the same files whenever every job has finished. -/
theorem fs_tier_synced {fileName : Key → Path} {keyFromPath : Path → Option Key}
    {removeFails : Path → Bool} {blockSize : ℕ} {maxStoreBytes : ℤ} {found : OrderedDict Path ℕ}
    {events : List (TierEvent Path Key)} {s : TierRun Path Key}
    (hrun : Run (fun s event s' => TierStep fileName s event s' ∧ CollectsFiles s event)
      { sys := openStore keyFromPath removeFails blockSize maxStoreBytes found
        stored := [], shortReads := [] } events s) :
    s.sys.tier.storeBytes = s.sys.tier.storeIndex.total StoreEntry.size ∧
    (∀ (sys : FsSystem Path Key) (removeFails : Path → Bool) (targetBytes : ℤ), ∃ oldest,
      EvictsOldest removeFails targetBytes sys (evictTo removeFails targetBytes sys) oldest ∧
      ∀ path, sys.tier.pinned path = true →
        (evictTo removeFails targetBytes sys).tier.storeIndex.get? path
          = sys.tier.storeIndex.get? path ∧
        (evictTo removeFails targetBytes sys).disk.get? path = sys.disk.get? path) ∧
    (AllFinished s.sys.tier → ∀ path,
      (s.sys.tier.storeIndex.get? path).isSome ↔ (s.sys.disk.get? path).isSome) := by
  have hinv : TierInv s := Run.invariant (I := TierInv)
    (fun _ _ _ h hstep => h.step hstep.1 hstep.2) hrun
    (tierInv_openStore keyFromPath removeFails blockSize maxStoreBytes found)
  refine ⟨hinv.synced.bytes, fun sys removeFails targetBytes => ?_, fun hfinished path => ?_⟩
  · obtain ⟨oldest, hevicts⟩ := evictTo_oldest removeFails targetBytes sys
    refine ⟨oldest, hevicts, fun path hpinned => ?_⟩
    have hstays : path ∉ oldest.map Prod.fst := by
      intro hgone
      rw [hevicts.not_pinned hgone] at hpinned
      cases hpinned
    rw [hevicts.get?_index, hevicts.disk, if_neg hstays, if_neg hstays]
    exact ⟨rfl, rfl⟩
  -- with no job left, nothing is missing and nothing is in flight
  · constructor
    · intro hindex
      refine (hinv.synced.onDisk path hindex).resolve_right ?_
      rintro ⟨jobId, hin⟩
      obtain ⟨paths, hload⟩ := hinv.loads _ hin
      rw [hfinished.2] at hload
      cases hload
    · intro hfile
      refine (hinv.synced.indexed path hfile).resolve_right fun hin => ?_
      obtain ⟨jobId, paths, hstore, -⟩ := mem_inFlightStorePaths.mp hin
      rw [hfinished.1] at hstore
      cases hstore

/-- A store that starts with one file, too short for a block. -/
def shortFileStore : TierRun ℕ ℕ where
  sys := openStore some (fun _ => false) 10 20 ⟨[(0, 5)], List.nodup_singleton 0⟩
  stored := []
  shortReads := []

/-- The short file goes while a store job writes another block. -/
theorem fs_tier_synced_short_read : ∃ s,
    Run (fun s event s' => TierStep id s event s' ∧ CollectsFiles s event) shortFileStore
      [.submitStore ⟨1, [1]⟩ fun _ => false, .submitLoad ⟨2, [0]⟩, .writeBlock 1 1 10,
        .dropShortRead 2 0, .collect ⟨2, false, none⟩, .collect ⟨1, true, none⟩] s ∧
    s.sys.tier.storeBytes = s.sys.tier.storeIndex.total StoreEntry.size := by
  have hrun : ∃ s, Run (fun s event s' => TierStep id s event s' ∧ CollectsFiles s event)
      shortFileStore
      [.submitStore ⟨1, [1]⟩ fun _ => false, .submitLoad ⟨2, [0]⟩, .writeBlock 1 1 10,
        .dropShortRead 2 0, .collect ⟨2, false, none⟩, .collect ⟨1, true, none⟩] s := by
    refine ⟨_, .cons ⟨.submitStore ⟨by decide, by decide⟩, trivial⟩
      (.cons ⟨.submitLoad ⟨by decide, by decide⟩, trivial⟩
      (.cons ⟨.writeBlock (rfl : _ = some (jobPath 1)) (by decide), trivial⟩
      (.cons ⟨.dropShortRead (rfl : _ = some [0]) (by decide) (by decide), trivial⟩
      (.cons ⟨.collect ?_ ?_, ?_⟩ (.cons ⟨.collect ?_ ?_, ?_⟩ (.nil _))))))⟩
    · intro paths hget
      cases hget
    · intro paths path hget hin
      obtain rfl := Option.some.inj hget
      obtain rfl : path = 0 := by simpa [shortFileStore] using hin
      exact ⟨rfl, by decide⟩
    · intro paths hget
      cases hget
    · intro paths hget _ path hpath
      obtain rfl := Option.some.inj hget
      obtain rfl : path = 1 := List.mem_singleton.mp hpath
      decide
    · intro paths path hget
      cases hget
    · intro paths hget _ path hpath _
      obtain rfl := Option.some.inj hget
      obtain rfl : path = 1 := List.mem_singleton.mp hpath
      decide
  obtain ⟨s, hrun⟩ := hrun
  exact ⟨s, hrun, (fs_tier_synced hrun).1⟩

/-- **A stored file that is missing**: the store job finds the short file and leaves it, the load
deletes it and is collected first, and the store job then puts it back in the index. -/
theorem stored_file_missing : ∃ s, Run (TierStep id) shortFileStore
    [.submitStore ⟨1, [0]⟩ fun _ => false, .keepBlock 1 0, .submitLoad ⟨2, [0]⟩,
      .dropShortRead 2 0, .collect ⟨2, false, none⟩, .collect ⟨1, true, none⟩] s ∧
    AllFinished s.sys.tier ∧ (s.sys.tier.storeIndex.get? 0).isSome ∧ s.sys.disk.get? 0 = none := by
  refine ⟨_, .cons (.submitStore ⟨by decide, by decide⟩)
    (.cons (.keepBlock (rfl : _ = some (jobPath 0)) (by decide) (by decide))
    (.cons (.submitLoad ⟨by decide, by decide⟩)
    (.cons (.dropShortRead (rfl : _ = some [0]) (by decide) (by decide))
    (.cons (.collect ?_ ?_) (.cons (.collect ?_ ?_) (.nil _)))))), ?_, by decide, by decide⟩
  · intro paths hget
    cases hget
  · intro paths path hget hin
    obtain rfl := Option.some.inj hget
    obtain rfl : path = 0 := by simpa [shortFileStore] using hin
    exact ⟨rfl, by decide⟩
  · intro paths hget _ path hpath
    obtain rfl := Option.some.inj hget
    obtain rfl : path = 0 := List.mem_singleton.mp hpath
    decide
  · intro paths path hget
    cases hget
  · exact ⟨fun jobId => rfl, fun jobId => rfl⟩

end KvOffload
end VllmMetal
