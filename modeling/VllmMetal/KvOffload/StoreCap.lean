import VllmMetal.KvOffload.FsTier
import Mathlib.Algebra.BigOperators.Group.Finset.Piecewise

/-!
# The store cap

Room is made when a store job is submitted and its files are accounted for when it has
finished.  What in-flight store jobs may still write is therefore reserved by nobody, unless
the job that is being submitted makes room for as much.

## Main definitions

* `FsEvent`, `FsStep` — the calls of the manager and what the workers do between them.
* `reserved` — what in-flight store jobs may still add to the index.
* `HasRoom` — the condition under which a submission keeps the store under its cap.
* `Within` — the invariant.

## Main results

* `evictTo_spec`, `within_accountStore`, `within_dropMissing` — one lemma for each method.
* `store_within_cap` — **in every run whose submissions have room, the files on disk stay
  within the cap**.
* `two_stores_cross_cap` — two store jobs in flight that cross it.
-/

namespace VllmMetal
namespace KvOffload

variable {Path Key : Type} [DecidableEq Path]

/-! ### Reservations -/

/-- The paths of the store jobs in flight. -/
def inFlightStorePaths (tier : FsTier Path Key) : Finset Path :=
  (tier.storeJobPaths.entries.flatMap fun job => job.2.keys).toFinset

theorem mem_inFlightStorePaths {tier : FsTier Path Key} {path : Path} :
    path ∈ inFlightStorePaths tier ↔
      ∃ jobId paths, tier.storeJobPaths.get? jobId = some paths ∧ path ∈ paths.keys := by
  rw [inFlightStorePaths, List.mem_toFinset, List.mem_flatMap]
  constructor
  · rintro ⟨⟨jobId, paths⟩, hmem, hpath⟩
    exact ⟨jobId, paths, OrderedDict.get?_eq_some_iff.mpr hmem, hpath⟩
  · rintro ⟨jobId, paths, hget, hpath⟩
    exact ⟨(jobId, paths), OrderedDict.get?_eq_some_iff.mp hget, hpath⟩

/-- The paths of a set that are not in the index. -/
def unindexed (paths : Finset Path) (tier : FsTier Path Key) : Finset Path :=
  paths.filter fun path => path ∉ tier.storeIndex.keys

theorem mem_unindexed {paths : Finset Path} {tier : FsTier Path Key} {path : Path} :
    path ∈ unindexed paths tier ↔ path ∈ paths ∧ tier.storeIndex.get? path = none := by
  rw [unindexed, Finset.mem_filter, OrderedDict.get?_eq_none_iff]

/-- The bytes that store jobs for some paths may still add to the index. -/
def reserved (paths : Finset Path) (tier : FsTier Path Key) : ℕ :=
  tier.blockSize * (unindexed paths tier).card

/-- The files of the index that are pinned. -/
def pinnedIndex (tier : FsTier Path Key) : OrderedDict Path (StoreEntry Key) :=
  tier.storeIndex.restrict (tier.storeIndex.entries.filter fun p => tier.pinned p.1)
    List.filter_sublist

theorem get?_pinnedIndex {tier : FsTier Path Key} {path : Path} {entry : StoreEntry Key} :
    (pinnedIndex tier).get? path = some entry ↔
      tier.storeIndex.get? path = some entry ∧ tier.pinned path = true := by
  rw [OrderedDict.get?_eq_some_iff, OrderedDict.get?_eq_some_iff, pinnedIndex,
    OrderedDict.restrict, List.mem_filter]

/-- The bytes of the blocks that in-flight jobs pin: files of the index and blocks that are
still to be written. -/
def pinnedBytes (tier : FsTier Path Key) : ℕ :=
  (pinnedIndex tier).total StoreEntry.size + reserved (inFlightStorePaths tier) tier

/-! ### Runs -/

/-- The calls of the manager, and what the workers do between them. -/
inductive FsEvent (Path Key : Type) where
  | submitStore (job : TransferJob Key)
  | submitLoad (job : TransferJob Key)
  | getFinishedJobs (results : List (JobResult Key))
  /-- A store job writes the block of one of its paths. -/
  | writeBlock (jobId : JobId) (path : Path) (size : ℕ)
  /-- A load job deletes a file that is too short. -/
  | dropShortRead (jobId : JobId) (path : Path)

/-- No job in flight has the id. -/
def FreshJob (tier : FsTier Path Key) (jobId : JobId) : Prop :=
  tier.storeJobPaths.get? jobId = none ∧ tier.loadJobPaths.get? jobId = none

/-- **A step of the tier.**  Job ids in flight are distinct, the cap covers the pinned blocks,
every removal succeeds, and a store job writes at most a block for each of its paths. -/
inductive FsStep (fileName : Key → Path) :
    FsSystem Path Key → FsEvent Path Key → FsSystem Path Key → Prop
  | submitStore {sys : FsSystem Path Key} {job : TransferJob Key} :
      FreshJob sys.tier job.jobId →
      (pinnedBytes (registerStore fileName job sys.tier) : ℤ) ≤ sys.tier.maxStoreBytes →
      FsStep fileName sys (.submitStore job) (submitStore fileName (fun _ => false) job sys)
  | submitLoad {sys : FsSystem Path Key} {job : TransferJob Key} :
      FreshJob sys.tier job.jobId →
      (pinnedBytes (submitLoad fileName job sys).tier : ℤ) ≤ sys.tier.maxStoreBytes →
      FsStep fileName sys (.submitLoad job) (submitLoad fileName job sys)
  | getFinishedJobs {sys : FsSystem Path Key} {results : List (JobResult Key)} :
      FsStep fileName sys (.getFinishedJobs results) (getFinishedJobs results sys)
  | writeBlock {sys : FsSystem Path Key} {jobId : JobId} {path : Path} {size : ℕ}
      {paths : OrderedDict Path Key} :
      sys.tier.storeJobPaths.get? jobId = some paths → path ∈ paths.keys →
      size ≤ sys.tier.blockSize →
      FsStep fileName sys (.writeBlock jobId path size)
        { sys with disk := sys.disk.set path size }
  | dropShortRead {sys : FsSystem Path Key} {jobId : JobId} {path : Path} {paths : List Path} :
      sys.tier.loadJobPaths.get? jobId = some paths → path ∈ paths →
      FsStep fileName sys (.dropShortRead jobId path) { sys with disk := sys.disk.pop path }

/-- **A submission has room**: the blocks that the store jobs in flight may still add, this one
included, are no more than it makes room for, or fit beside what is stored, or the pinned
files alone reach the target, so that every other file goes; and no path of the job has a file
shorter than a block. -/
def HasRoom (fileName : Key → Path) (job : TransferJob Key) (tier : FsTier Path Key) : Prop :=
  let paths := storePaths fileName job.keys
  let after := registerStore fileName job tier
  let room : ℤ := paths.entries.length * tier.blockSize
  ((reserved (inFlightStorePaths after) after : ℤ) ≤ room ∨
    tier.storeBytes + reserved (inFlightStorePaths after) after ≤ tier.maxStoreBytes ∨
    tier.maxStoreBytes - room ≤ (pinnedIndex after).total StoreEntry.size) ∧
  ∀ path ∈ paths.keys, ∀ entry, tier.storeIndex.get? path = some entry →
    tier.blockSize ≤ entry.size

/-- Every submission of a step has room. -/
def StepHasRoom (fileName : Key → Path) (sys : FsSystem Path Key) : FsEvent Path Key → Prop
  | .submitStore job => HasRoom fileName job sys.tier
  | _ => True

/-! ### The invariant -/

/-- The index counts what it holds, and nothing is on disk that neither the index nor a path
that store jobs may still write stands for. -/
structure Tracked (paths : Finset Path) (disk : OrderedDict Path ℕ) (tier : FsTier Path Key) :
    Prop where
  /-- The counter counts the index, -/
  bytes : tier.storeBytes = tier.storeIndex.total StoreEntry.size
  /-- a file that a job may write again has a whole block in the index, -/
  whole : ∀ path ∈ paths, ∀ entry, tier.storeIndex.get? path = some entry →
    tier.blockSize ≤ entry.size
  /-- and every file on disk is one of the index or of a job in flight. -/
  files : ∀ path size, disk.get? path = some size →
    (∃ entry, tier.storeIndex.get? path = some entry ∧ size ≤ entry.size) ∨
    (path ∈ unindexed paths tier ∧ size ≤ tier.blockSize)

/-- What is tracked fits under the cap. -/
structure Within (paths : Finset Path) (disk : OrderedDict Path ℕ) (tier : FsTier Path Key) :
    Prop extends Tracked paths disk tier where
  cap_pos : 0 < tier.maxStoreBytes
  cap : tier.storeBytes + reserved paths tier ≤ tier.maxStoreBytes

/-- **Within the invariant the files on disk stay within the cap.** -/
theorem diskBytes_le_cap {paths : Finset Path} {sys : FsSystem Path Key}
    (h : Within paths sys.disk sys.tier) : (sys.diskBytes : ℤ) ≤ sys.tier.maxStoreBytes := by
  set files := sys.tier.storeIndex.keys.toFinset ∪ unindexed paths sys.tier with hfiles
  have hle : sys.disk.total id ≤ sys.tier.storeIndex.total StoreEntry.size +
      ∑ k ∈ files, if k ∈ unindexed paths sys.tier then sys.tier.blockSize else 0 := by
    refine OrderedDict.total_le_of_get?_le id (fun k hk => ?_) fun k size hget => ?_
    · exact Finset.mem_union_left _ (List.mem_toFinset.mpr hk)
    · rcases h.files k size hget with ⟨entry, hentry, hsize⟩ | ⟨hmem, hsize⟩
      · refine ⟨Finset.mem_union_left _ (List.mem_toFinset.mpr ?_), ?_⟩
        · exact OrderedDict.get?_isSome_iff.mp (Option.isSome_of_eq_some hentry)
        · rw [OrderedDict.sizeAt_of_get? _ hentry]
          exact Nat.le_trans hsize (Nat.le_add_right _ _)
      · refine ⟨Finset.mem_union_right _ hmem, ?_⟩
        rw [if_pos hmem]
        exact Nat.le_trans hsize (Nat.le_add_left _ _)
  have hsum : (∑ k ∈ files, if k ∈ unindexed paths sys.tier then sys.tier.blockSize else 0) =
      reserved paths sys.tier := by
    rw [Finset.sum_ite_mem, Finset.inter_eq_right.mpr Finset.subset_union_right,
      Finset.sum_const, nsmul_eq_mul, Nat.cast_id, reserved, Nat.mul_comm]
  rw [hsum] at hle
  have hcap := h.cap
  rw [h.bytes] at hcap
  rw [FsSystem.diskBytes]
  omega

/-- Paths may be forgotten, except those of a file that is not in the index. -/
theorem Within.forget {paths paths' : Finset Path} {disk : OrderedDict Path ℕ}
    {tier : FsTier Path Key} (h : Within paths disk tier) (hsub : paths' ⊆ paths)
    (hfiles : ∀ path ∈ paths, (disk.get? path).isSome → tier.storeIndex.get? path = none →
      path ∈ paths') :
    Within paths' disk tier := by
  have hunindexed : unindexed paths' tier ⊆ unindexed paths tier :=
    Finset.filter_subset_filter _ hsub
  refine ⟨⟨h.bytes, fun path hpath => h.whole path (hsub hpath), fun path size hget => ?_⟩,
    h.cap_pos, ?_⟩
  · rcases h.files path size hget with hindex | ⟨hmem, hsize⟩
    · exact Or.inl hindex
    · obtain ⟨hpath, hnone⟩ := mem_unindexed.mp hmem
      have hkept := hfiles path hpath (Option.isSome_of_eq_some hget) hnone
      exact Or.inr ⟨mem_unindexed.mpr ⟨hkept, hnone⟩, hsize⟩
  · have hle : reserved paths' tier ≤ reserved paths tier :=
      Nat.mul_le_mul_left _ (Finset.card_le_card hunindexed)
    have hcap := h.cap
    omega

/-- The invariant is about the index as a map. -/
theorem Within.congr {paths : Finset Path} {disk : OrderedDict Path ℕ}
    {tier tier' : FsTier Path Key} (h : Within paths disk tier)
    (hmax : tier'.maxStoreBytes = tier.maxStoreBytes)
    (hblock : tier'.blockSize = tier.blockSize) (hbytes : tier'.storeBytes = tier.storeBytes)
    (hget : ∀ path, tier'.storeIndex.get? path = tier.storeIndex.get? path)
    (htotal : tier'.storeIndex.total StoreEntry.size = tier.storeIndex.total StoreEntry.size) :
    Within paths disk tier' := by
  have hunindexed : unindexed paths tier' = unindexed paths tier := by
    ext path
    rw [mem_unindexed, mem_unindexed, hget]
  have hreserved : reserved paths tier' = reserved paths tier := by
    rw [reserved, reserved, hunindexed, hblock]
  refine ⟨⟨?_, ?_, ?_⟩, hmax ▸ h.cap_pos, ?_⟩
  · rw [hbytes, htotal, h.bytes]
  · rw [hblock]
    simp only [hget]
    exact h.whole
  · rw [hunindexed, hblock]
    simp only [hget]
    exact h.files
  · rw [hbytes, hreserved, hmax]
    exact h.cap

/-! ### Accounting -/

/-- A path that enters the index takes its reserved block with it. -/
theorem Within.index {paths : Finset Path} {disk : OrderedDict Path ℕ}
    {tier : FsTier Path Key} {path : Path} {key : Option Key}
    (h : Within (insert path paths) disk tier) (hnone : tier.storeIndex.get? path = none) :
    Within paths disk { tier with
      storeIndex := tier.storeIndex.set path ⟨tier.blockSize, key⟩
      storeBytes := tier.storeBytes + tier.blockSize } := by
  set tier' : FsTier Path Key := { tier with
    storeIndex := tier.storeIndex.set path ⟨tier.blockSize, key⟩
    storeBytes := tier.storeBytes + tier.blockSize } with htier'
  have hmem : path ∈ unindexed (insert path paths) tier :=
    mem_unindexed.mpr ⟨Finset.mem_insert_self _ _, hnone⟩
  -- a path that is still unindexed was so before, and is another one
  have hsub : unindexed paths tier' ⊆ (unindexed (insert path paths) tier).erase path := by
    intro path' hpath'
    obtain ⟨hin, hget⟩ := mem_unindexed.mp hpath'
    have hne : path' ≠ path := by
      rintro rfl
      simp [htier'] at hget
    have hget' : tier.storeIndex.get? path' = none := by simpa [htier', hne] using hget
    exact Finset.mem_erase.mpr
      ⟨hne, mem_unindexed.mpr ⟨Finset.mem_insert_of_mem hin, hget'⟩⟩
  refine ⟨⟨?_, fun path' hpath' entry hget => ?_, fun path' size hget => ?_⟩, h.cap_pos, ?_⟩
  -- the counter grows by the entry's size
  · have htotal := OrderedDict.total_set_of_not_mem StoreEntry.size
      (⟨tier.blockSize, key⟩ : StoreEntry Key) (OrderedDict.get?_eq_none_iff.mp hnone)
    rw [htier']
    simp only [htotal, h.bytes, Nat.cast_add]
  · rw [htier', OrderedDict.get?_set] at hget
    split at hget
    · rw [← Option.some.inj hget]
    · exact h.whole path' (Finset.mem_insert_of_mem hpath') entry hget
  · rw [htier']
    simp only [OrderedDict.get?_set]
    by_cases heq : path' = path
    · refine Or.inl ⟨⟨tier.blockSize, key⟩, by rw [if_pos heq], ?_⟩
      rcases h.files path' size hget with ⟨entry, hentry, -⟩ | ⟨-, hsize⟩
      · rw [heq, hnone] at hentry
        cases hentry
      · exact hsize
    · rw [if_neg heq]
      rcases h.files path' size hget with hindex | ⟨hun, hsize⟩
      · exact Or.inl hindex
      · obtain ⟨hin, hget'⟩ := mem_unindexed.mp hun
        refine Or.inr ⟨mem_unindexed.mpr ⟨?_, ?_⟩, hsize⟩
        · exact (Finset.mem_insert.mp hin).resolve_left heq
        · simpa [heq] using hget'
  -- the reserved blocks are one less, so the sum under the cap is the same
  · have hcard := Finset.card_le_card hsub
    rw [Finset.card_erase_of_mem hmem] at hcard
    have hpos : 0 < (unindexed (insert path paths) tier).card := Finset.card_pos.mpr ⟨_, hmem⟩
    have hmul : tier.blockSize * (unindexed paths tier').card + tier.blockSize ≤
        tier.blockSize * (unindexed (insert path paths) tier).card := by
      rw [← Nat.mul_succ]
      exact Nat.mul_le_mul_left _ (by omega)
    have hcap := h.cap
    rw [reserved] at hcap ⊢
    simp only [htier'] at hmul ⊢
    omega

theorem within_accountStore {paths : Finset Path} {disk : OrderedDict Path ℕ}
    (stored : List (Path × Key)) {tier : FsTier Path Key}
    (h : Within ((stored.map Prod.fst).toFinset ∪ paths) disk tier) :
    Within paths disk (accountStore stored tier) := by
  induction stored generalizing tier with
  | nil => simpa [accountStore] using h
  | cons p stored ih =>
    rw [List.map_cons, List.toFinset_cons, Finset.insert_union] at h
    rw [accountStore, List.foldl_cons]
    split
    · next hin =>
      refine ih (Within.congr (h.forget (Finset.subset_insert _ _) fun path hpath _ hget => ?_)
        rfl rfl rfl (fun path => OrderedDict.get?_moveToEnd _ _ _)
        (OrderedDict.total_moveToEnd _ _ _))
      rcases Finset.mem_insert.mp hpath with rfl | hpath
      · simp [hget] at hin
      · exact hpath
    · next hout => exact ih (h.index (by simpa using hout))

theorem within_onLoaded {paths : Finset Path} {disk : OrderedDict Path ℕ}
    (loaded : List Path) {tier : FsTier Path Key} (h : Within paths disk tier) :
    Within paths disk (onLoaded loaded tier) := by
  induction loaded generalizing tier with
  | nil => exact h
  | cons path loaded ih =>
    have hmoved : Within paths disk
        { tier with storeIndex := tier.storeIndex.moveToEnd path } :=
      h.congr rfl rfl rfl (fun path => OrderedDict.get?_moveToEnd _ _ _)
        (OrderedDict.total_moveToEnd _ _ _)
    exact ih hmoved

/-- A file that is gone leaves the index; a job may have to write it again. -/
theorem Within.drop {paths : Finset Path} {disk : OrderedDict Path ℕ} {tier : FsTier Path Key}
    {path : Path} {entry : StoreEntry Key} (h : Within paths disk tier)
    (hentry : tier.storeIndex.get? path = some entry) (hgone : disk.get? path = none) :
    Within paths disk { tier with
      storeIndex := tier.storeIndex.pop path
      storeBytes := tier.storeBytes - entry.size } := by
  set tier' : FsTier Path Key := { tier with
    storeIndex := tier.storeIndex.pop path
    storeBytes := tier.storeBytes - entry.size } with htier'
  have hget : ∀ path', tier'.storeIndex.get? path' =
      if path' = path then none else tier.storeIndex.get? path' :=
    fun path' => OrderedDict.get?_pop _ _ _
  -- at most this path becomes unindexed
  have hsub : unindexed paths tier' ⊆ insert path (unindexed paths tier) := by
    intro path' hpath'
    obtain ⟨hin, hnone⟩ := mem_unindexed.mp hpath'
    rw [hget] at hnone
    by_cases heq : path' = path
    · exact heq ▸ Finset.mem_insert_self _ _
    · rw [if_neg heq] at hnone
      exact Finset.mem_insert_of_mem (mem_unindexed.mpr ⟨hin, hnone⟩)
  have htotal := OrderedDict.total_pop StoreEntry.size (d := tier.storeIndex) path
  rw [OrderedDict.sizeAt_of_get? _ hentry] at htotal
  refine ⟨⟨?_, fun path' hpath' entry' hget' => ?_, fun path' size hfile => ?_⟩, h.cap_pos, ?_⟩
  · have hbytes := h.bytes
    simp only [htier']
    omega
  · rw [hget] at hget'
    split at hget'
    · cases hget'
    · exact h.whole path' hpath' entry' hget'
  · have hne : path' ≠ path := by
      rintro rfl
      rw [hgone] at hfile
      cases hfile
    simp only [hget, if_neg hne, mem_unindexed]
    simpa only [mem_unindexed] using h.files path' size hfile
  · have hcap := h.cap
    -- a block is reserved for the path only when a job writes it, and then its entry was whole
    have hreserved : reserved paths tier' ≤ reserved paths tier + entry.size := by
      by_cases hin : path ∈ paths
      · have hwhole := h.whole path hin entry hentry
        have hcard := Nat.mul_le_mul_left tier.blockSize
          (Nat.le_trans (Finset.card_le_card hsub) (Finset.card_insert_le _ _))
        rw [Nat.mul_succ] at hcard
        exact Nat.le_trans hcard (Nat.add_le_add_left hwhole _)
      · refine Nat.le_trans (Nat.mul_le_mul_left _ (Finset.card_le_card ?_))
          (Nat.le_add_right _ _)
        intro path' hpath'
        rcases Finset.mem_insert.mp (hsub hpath') with rfl | hold
        · exact absurd (mem_unindexed.mp hpath').1 hin
        · exact hold
    simp only [htier'] at hreserved ⊢
    omega

theorem within_dropMissing {paths : Finset Path} {disk : OrderedDict Path ℕ}
    (missed : List Path) {tier : FsTier Path Key} (h : Within paths disk tier) :
    Within paths disk (dropMissing disk missed tier).1 := by
  induction missed generalizing tier with
  | nil => exact h
  | cons path missed ih =>
    rw [dropMissing]
    split
    · next entry hentry hgone => exact ih (h.drop hentry hgone)
    · exact ih h

/-! ### Finished jobs -/

@[simp] theorem storeJobPaths_accountStore (stored : List (Path × Key)) (tier : FsTier Path Key) :
    (accountStore stored tier).storeJobPaths = tier.storeJobPaths := by
  induction stored generalizing tier with
  | nil => rfl
  | cons p stored ih =>
    rw [accountStore, List.foldl_cons]
    split <;> exact ih _

@[simp] theorem storeJobPaths_dropMissing (disk : OrderedDict Path ℕ) (missed : List Path)
    (tier : FsTier Path Key) :
    (dropMissing disk missed tier).1.storeJobPaths = tier.storeJobPaths := by
  induction missed generalizing tier with
  | nil => rfl
  | cons path missed ih =>
    rw [dropMissing]
    split <;> rw [ih]

omit [DecidableEq Path] in
/-- Reporting removed keys changes nothing but the report. -/
theorem onRemoved_eq (tier : FsTier Path Key) (keys : List Key) :
    tier.onRemoved keys =
      { tier with removed := if keys.isEmpty then tier.removed else tier.removed ++ [keys] } := by
  rw [FsTier.onRemoved]
  split <;> rfl

theorem inFlightStorePaths_congr {tier tier' : FsTier Path Key}
    (h : tier'.storeJobPaths = tier.storeJobPaths) :
    inFlightStorePaths tier' = inFlightStorePaths tier := by
  rw [inFlightStorePaths, inFlightStorePaths, h]

/-- The paths in flight are those of one job and those of the others. -/
theorem mem_inFlightStorePaths_pop {tier : FsTier Path Key} {jobId : JobId}
    {paths : OrderedDict Path Key} (hjob : tier.storeJobPaths.get? jobId = some paths)
    {path : Path} :
    path ∈ inFlightStorePaths tier ↔ path ∈ paths.keys ∨
      path ∈ inFlightStorePaths
        { tier with storeJobPaths := tier.storeJobPaths.pop jobId } := by
  rw [mem_inFlightStorePaths, mem_inFlightStorePaths]
  constructor
  · rintro ⟨jobId', paths', hget, hpath⟩
    by_cases heq : jobId' = jobId
    · subst heq
      rw [hjob] at hget
      exact Or.inl (Option.some.inj hget ▸ hpath)
    · exact Or.inr ⟨jobId', paths', by simpa [heq] using hget, hpath⟩
  · rintro (hpath | ⟨jobId', paths', hget, hpath⟩)
    · exact ⟨jobId, paths, hjob, hpath⟩
    · rw [OrderedDict.get?_pop] at hget
      split at hget
      · cases hget
      · exact ⟨jobId', paths', hget, hpath⟩

theorem within_finishJob {disk : OrderedDict Path ℕ} {tier : FsTier Path Key}
    (result : JobResult Key) (h : Within (inFlightStorePaths tier) disk tier) :
    Within (inFlightStorePaths (finishJob disk tier result)) disk
      (finishJob disk tier result) := by
  rw [finishJob]
  split
  -- a store job: its paths leave the jobs in flight and enter the index
  · next paths hjob =>
    set popped : FsTier Path Key :=
      { tier with storeJobPaths := tier.storeJobPaths.pop result.jobId } with hpopped
    set stored := if result.success then paths.entries
      else paths.entries.filter fun p => (disk.get? p.1).isSome with hstored
    have hsub : ∀ p ∈ stored, p ∈ paths.entries := by
      intro p hp
      rw [hstored] at hp
      split at hp
      · exact hp
      · exact List.mem_of_mem_filter hp
    rw [inFlightStorePaths_congr (storeJobPaths_accountStore stored popped)]
    suffices hforget : Within ((stored.map Prod.fst).toFinset ∪ inFlightStorePaths popped) disk
        tier from within_accountStore stored (hforget.congr rfl rfl rfl (fun _ => rfl) rfl)
    refine h.forget ?_ ?_
    · intro path hpath
      rw [mem_inFlightStorePaths_pop hjob]
      rcases Finset.mem_union.mp hpath with hpath | hpath
      · obtain ⟨p, hp, rfl⟩ := List.mem_map.mp (List.mem_toFinset.mp hpath)
        exact Or.inl (List.mem_map.mpr ⟨p, hsub p hp, rfl⟩)
      · exact Or.inr hpath
    · -- a path of the job with a file is accounted for also when the job has failed
      intro path hpath hfile _
      rcases (mem_inFlightStorePaths_pop hjob).mp hpath with hpath | hpath
      · obtain ⟨p, hp, rfl⟩ := List.mem_map.mp hpath
        refine Finset.mem_union_left _ (List.mem_toFinset.mpr (List.mem_map.mpr ⟨p, ?_, rfl⟩))
        rw [hstored]
        split
        · exact hp
        · exact List.mem_filter.mpr ⟨hp, hfile⟩
      · exact Finset.mem_union_right _ hpath
  · split
    · exact h
    -- a load job: a short read drops what could not be loaded
    · next loaded _ =>
      have hpopped : Within (inFlightStorePaths tier) disk
          { tier with loadJobPaths := tier.loadJobPaths.pop result.jobId } :=
        h.congr rfl rfl rfl (fun _ => rfl) rfl
      split
      · exact within_onLoaded _ hpopped
      · rw [@inFlightStorePaths_congr _ _ _ tier _ (by simp [onLoaded, onRemoved_eq])]
        have hdropped := within_dropMissing
          (loaded.drop (result.successfulKeys.getD []).length) hpopped
        refine within_onLoaded _ (hdropped.congr ?_ ?_ ?_ ?_ ?_)
        all_goals simp [onRemoved_eq]

theorem within_getFinishedJobs (results : List (JobResult Key)) {sys : FsSystem Path Key}
    (h : Within (inFlightStorePaths sys.tier) sys.disk sys.tier) :
    Within (inFlightStorePaths (getFinishedJobs results sys).tier) sys.disk
      (getFinishedJobs results sys).tier := by
  rw [getFinishedJobs]
  generalize sys.tier = tier at h ⊢
  induction results generalizing tier with
  | nil => exact h
  | cons result results ih => exact ih _ (within_finishJob result h)

/-! ### Making room -/

/-- What an eviction leaves, when every removal succeeds. -/
structure Evicted (targetBytes : ℤ) (sys sys' : FsSystem Path Key) : Prop where
  storeJobPaths : sys'.tier.storeJobPaths = sys.tier.storeJobPaths
  loadJobPaths : sys'.tier.loadJobPaths = sys.tier.loadJobPaths
  maxStoreBytes : sys'.tier.maxStoreBytes = sys.tier.maxStoreBytes
  blockSize : sys'.tier.blockSize = sys.tier.blockSize
  /-- A file stays in the index and on disk, or leaves both; a pinned one stays. -/
  entry : ∀ path entry, sys.tier.storeIndex.get? path = some entry →
    sys'.tier.storeIndex.get? path = some entry ∨
    (sys'.tier.storeIndex.get? path = none ∧ sys'.disk.get? path = none ∧
      sys.tier.pinned path = false)
  none : ∀ path, sys.tier.storeIndex.get? path = none → sys'.tier.storeIndex.get? path = none
  disk : ∀ path size, sys'.disk.get? path = some size → sys.disk.get? path = some size
  bytes : sys.tier.storeBytes = sys.tier.storeIndex.total StoreEntry.size →
    sys'.tier.storeBytes = sys'.tier.storeIndex.total StoreEntry.size
  bytes_le : sys'.tier.storeBytes ≤ sys.tier.storeBytes
  target : sys'.tier.storeBytes ≤ targetBytes ∨
    ∀ path entry, sys'.tier.storeIndex.get? path = some entry → sys.tier.pinned path = true

theorem get?_foldl_pop {V : Type} (gone : List (Path × V)) (disk : OrderedDict Path ℕ)
    (path : Path) :
    (gone.foldl (fun disk p => disk.pop p.1) disk).get? path =
      if path ∈ gone.map Prod.fst then none else disk.get? path := by
  induction gone generalizing disk with
  | nil => rfl
  | cons p gone ih =>
    rw [List.foldl_cons, ih, OrderedDict.get?_pop, List.map_cons]
    by_cases heq : path = p.1 <;> by_cases hin : path ∈ gone.map Prod.fst <;>
      simp [heq, hin]

omit [DecidableEq Path] in
/-- What the pass over the index has taken is no longer in it, and was not pinned. -/
theorem evicted_evictLoop {targetBytes storeBytes : ℤ} {pinned removeFails : Path → Bool}
    {index : List (Path × StoreEntry Key)} (hnodup : (index.map Prod.fst).Nodup)
    {p : Path × StoreEntry Key}
    (hp : p ∈ (evictLoop targetBytes pinned removeFails index storeBytes).evicted) :
    p.1 ∉ (evictLoop targetBytes pinned removeFails index storeBytes).kept.map Prod.fst ∧
      pinned p.1 = false := by
  have hperm := @perm_evictLoop _ _ targetBytes pinned removeFails index storeBytes
  have hnot : p.1 ∉
      (evictLoop targetBytes pinned removeFails index storeBytes).kept.map Prod.fst := by
    have happend := (hperm.map Prod.fst).nodup_iff.mpr hnodup
    rw [List.map_append] at happend
    exact fun hkept => List.disjoint_of_nodup_append happend hkept (List.mem_map_of_mem hp)
  refine ⟨hnot, ?_⟩
  by_contra hpinned
  have hindex : p ∈ index := hperm.mem_iff.mp (List.mem_append_right _ hp)
  have hkept : p ∈ (evictLoop targetBytes pinned removeFails index storeBytes).kept :=
    mem_kept_evictLoop hindex (by simpa using hpinned) storeBytes
  exact hnot (List.mem_map_of_mem hkept)

theorem evictTo_spec {targetBytes : ℤ} {sys : FsSystem Path Key}
    (hmax : sys.tier.maxStoreBytes ≠ 0) :
    Evicted targetBytes sys (evictTo (fun _ => false) targetBytes sys) := by
  rw [evictTo]
  split
  -- the files are already below the target
  · next hdone =>
    exact {
      storeJobPaths := rfl
      loadJobPaths := rfl
      maxStoreBytes := rfl
      blockSize := rfl
      entry := fun path entry hget => Or.inl hget
      none := fun path hget => hget
      disk := fun path size hget => hget
      bytes := fun h => h
      bytes_le := le_refl _
      target := Or.inl (hdone.resolve_left hmax) }
  -- one pass over the index, which splits it into what is kept and what is evicted
  · set pass := evictLoop targetBytes sys.tier.pinned (fun _ => false)
      sys.tier.storeIndex.entries sys.tier.storeBytes with hpass
    have hbytes : pass.storeBytes = sys.tier.storeBytes -
        (sys.tier.storeIndex.entries.map fun p => p.2.size).sum +
        (pass.kept.map fun p => p.2.size).sum := storeBytes_evictLoop _ _
    have hsub : pass.kept.Sublist sys.tier.storeIndex.entries := sublist_kept_evictLoop _ _
    have hperm : (pass.kept ++ pass.evicted).Perm sys.tier.storeIndex.entries :=
      perm_evictLoop _ _
    have htarget : pass.storeBytes ≤ targetBytes ∨ ∀ p ∈ pass.kept,
        sys.tier.pinned p.1 = true ∨ false = true := target_evictLoop _ _
    have hgone : ∀ p ∈ pass.evicted, p.1 ∉ pass.kept.map Prod.fst ∧ sys.tier.pinned p.1 = false :=
      fun p hp => evicted_evictLoop sys.tier.storeIndex.nodup hp
    -- the files of the evicted entries are removed
    simp only [onRemoved_eq]
    have hkept : ∀ path entry, (sys.tier.storeIndex.restrict pass.kept hsub).get? path =
        some entry ↔ (path, entry) ∈ pass.kept := fun path entry => OrderedDict.get?_eq_some_iff
    exact {
      storeJobPaths := rfl
      loadJobPaths := rfl
      maxStoreBytes := rfl
      blockSize := rfl
      entry := by
        intro path entry hget
        rw [OrderedDict.get?_eq_some_iff] at hget
        rcases List.mem_append.mp (hperm.mem_iff.mpr hget) with hin | hout
        · exact Or.inl ((hkept path entry).mpr hin)
        · obtain ⟨hnot, hpinned⟩ := hgone _ hout
          refine Or.inr ⟨OrderedDict.get?_eq_none_iff.mpr hnot, ?_, hpinned⟩
          rw [get?_foldl_pop, if_pos (List.mem_map_of_mem hout)]
      none := by
        intro path hget
        rw [OrderedDict.get?_eq_none_iff] at hget ⊢
        exact fun hin => hget ((hsub.map Prod.fst).subset hin)
      disk := by
        intro path size hget
        simp only [get?_foldl_pop] at hget
        split at hget
        · cases hget
        · exact hget
      bytes := by
        intro h
        rw [OrderedDict.total] at h
        change pass.storeBytes = ((pass.kept.map fun p => p.2.size).sum : ℕ)
        omega
      bytes_le := by
        have hsum := (hperm.map fun p => p.2.size).sum_eq
        rw [List.map_append, List.sum_append] at hsum
        change pass.storeBytes ≤ sys.tier.storeBytes
        omega
      target := by
        refine htarget.imp_right fun hall path entry hget => ?_
        exact (hall _ ((hkept path entry).mp hget)).resolve_right Bool.false_ne_true }

/-- An eviction leaves what may still be written alone: it is pinned. -/
theorem Evicted.unindexed_eq {targetBytes : ℤ} {sys sys' : FsSystem Path Key}
    (h : Evicted targetBytes sys sys') {paths : Finset Path}
    (hpinned : ∀ path ∈ paths, sys.tier.pinned path = true) :
    unindexed paths sys'.tier = unindexed paths sys.tier := by
  ext path
  rw [mem_unindexed, mem_unindexed]
  refine and_congr_right fun hpath => ⟨fun hnone => ?_, h.none path⟩
  cases hget : sys.tier.storeIndex.get? path with
  | none => rfl
  | some entry =>
    rcases h.entry path entry hget with hkept | ⟨-, -, hfree⟩
    · rw [hnone] at hkept
      cases hkept
    · rw [hpinned path hpath] at hfree
      cases hfree

theorem Evicted.get?_of_get? {targetBytes : ℤ} {sys sys' : FsSystem Path Key}
    (h : Evicted targetBytes sys sys') {path : Path} {entry : StoreEntry Key}
    (hget : sys'.tier.storeIndex.get? path = some entry) :
    sys.tier.storeIndex.get? path = some entry := by
  cases hold : sys.tier.storeIndex.get? path with
  | none =>
    rw [h.none path hold] at hget
    cases hget
  | some entry' =>
    rcases h.entry path entry' hold with hkept | ⟨hnone, -, -⟩
    · exact hkept.symm.trans hget
    · rw [hnone] at hget
      cases hget

/-- An eviction keeps what is tracked. -/
theorem Evicted.tracked {targetBytes : ℤ} {sys sys' : FsSystem Path Key}
    (h : Evicted targetBytes sys sys') {paths : Finset Path}
    (hpinned : ∀ path ∈ paths, sys.tier.pinned path = true)
    (htracked : Tracked paths sys.disk sys.tier) : Tracked paths sys'.disk sys'.tier := by
  refine ⟨h.bytes htracked.bytes, fun path hpath entry hget => ?_, fun path size hget => ?_⟩
  · rw [h.blockSize]
    exact htracked.whole path hpath entry (h.get?_of_get? hget)
  · rw [h.unindexed_eq hpinned, h.blockSize]
    rcases htracked.files path size (h.disk path size hget) with ⟨entry, hentry, hsize⟩ | hun
    · rcases h.entry path entry hentry with hkept | ⟨-, hgone, -⟩
      · exact Or.inl ⟨entry, hkept, hsize⟩
      · rw [hgone] at hget
        cases hget
    · exact Or.inr hun

/-- What an eviction that misses its target leaves is pinned. -/
theorem Evicted.total_le {targetBytes : ℤ} {sys sys' : FsSystem Path Key}
    (h : Evicted targetBytes sys sys')
    (hall : ∀ path entry, sys'.tier.storeIndex.get? path = some entry →
      sys.tier.pinned path = true) :
    sys'.tier.storeIndex.total StoreEntry.size ≤ (pinnedIndex sys.tier).total StoreEntry.size := by
  have hle : sys'.tier.storeIndex.total StoreEntry.size ≤
      (pinnedIndex sys.tier).total StoreEntry.size +
        ∑ _k ∈ (pinnedIndex sys.tier).keys.toFinset, 0 := by
    refine OrderedDict.total_le_of_get?_le _ (fun k hk => List.mem_toFinset.mpr hk)
      fun path entry hget => ?_
    have hpinned := get?_pinnedIndex.mpr ⟨h.get?_of_get? hget, hall path entry hget⟩
    refine ⟨List.mem_toFinset.mpr ?_, ?_⟩
    · exact OrderedDict.get?_isSome_iff.mp (Option.isSome_of_eq_some hpinned)
    · rw [OrderedDict.sizeAt_of_get? _ hpinned]
      exact Nat.le_refl _
  simpa using hle

/-! ### Submissions -/

theorem pinned_of_mem_inFlightStorePaths {tier : FsTier Path Key} {path : Path}
    (hpath : path ∈ inFlightStorePaths tier) : tier.pinned path = true := by
  rw [inFlightStorePaths, List.mem_toFinset, List.mem_flatMap] at hpath
  obtain ⟨job, hjob, hpath⟩ := hpath
  rw [FsTier.pinned, Bool.or_eq_true, List.any_eq_true]
  exact Or.inl ⟨job, hjob, decide_eq_true hpath⟩

theorem mem_inFlightStorePaths_register {fileName : Key → Path} {job : TransferJob Key}
    {tier : FsTier Path Key} (hfresh : tier.storeJobPaths.get? job.jobId = none) {path : Path} :
    path ∈ inFlightStorePaths (registerStore fileName job tier) ↔
      path ∈ (storePaths fileName job.keys).keys ∨ path ∈ inFlightStorePaths tier := by
  rw [mem_inFlightStorePaths, mem_inFlightStorePaths]
  simp only [registerStore, OrderedDict.get?_set]
  constructor
  · rintro ⟨jobId, paths, hget, hpath⟩
    split at hget
    · exact Or.inl (Option.some.inj hget ▸ hpath)
    · exact Or.inr ⟨jobId, paths, hget, hpath⟩
  · rintro (hpath | ⟨jobId, paths, hget, hpath⟩)
    · exact ⟨job.jobId, _, if_pos rfl, hpath⟩
    · refine ⟨jobId, paths, ?_, hpath⟩
      rw [if_neg, hget]
      rintro rfl
      rw [hfresh] at hget
      cases hget

/-- Paths that may be written are added to what is tracked. -/
theorem Tracked.mono {paths paths' : Finset Path} {disk : OrderedDict Path ℕ}
    {tier tier' : FsTier Path Key} (h : Tracked paths disk tier) (hsub : paths ⊆ paths')
    (hindex : tier'.storeIndex = tier.storeIndex) (hbytes : tier'.storeBytes = tier.storeBytes)
    (hblock : tier'.blockSize = tier.blockSize)
    (hwhole : ∀ path ∈ paths', path ∉ paths → ∀ entry,
      tier.storeIndex.get? path = some entry → tier.blockSize ≤ entry.size) :
    Tracked paths' disk tier' := by
  refine ⟨?_, fun path hpath entry hget => ?_, fun path size hget => ?_⟩
  · rw [hbytes, hindex, h.bytes]
  · rw [hindex] at hget
    rw [hblock]
    by_cases hold : path ∈ paths
    · exact h.whole path hold entry hget
    · exact hwhole path hpath hold entry hget
  · rw [hindex, hblock]
    refine (h.files path size hget).imp_right (And.imp_left fun hun => ?_)
    obtain ⟨hin, hnone⟩ := mem_unindexed.mp hun
    exact mem_unindexed.mpr ⟨hsub hin, by rw [hindex, hnone]⟩

theorem within_submitStore {fileName : Key → Path} {job : TransferJob Key}
    {sys : FsSystem Path Key}
    (h : Within (inFlightStorePaths sys.tier) sys.disk sys.tier)
    (hfresh : FreshJob sys.tier job.jobId)
    (hpins : (pinnedBytes (registerStore fileName job sys.tier) : ℤ) ≤ sys.tier.maxStoreBytes)
    (hroom : HasRoom fileName job sys.tier) :
    Within (inFlightStorePaths (submitStore fileName (fun _ => false) job sys).tier)
      (submitStore fileName (fun _ => false) job sys).disk
      (submitStore fileName (fun _ => false) job sys).tier := by
  set after : FsSystem Path Key :=
    { sys with tier := registerStore fileName job sys.tier } with hafter
  set room : ℤ := (storePaths fileName job.keys).entries.length * sys.tier.blockSize with hroomdef
  have hpos := h.cap_pos
  have hmax : after.tier.maxStoreBytes ≠ 0 := ne_of_gt hpos
  have hsubmit : submitStore fileName (fun _ => false) job sys =
      evictTo (fun _ => false) (sys.tier.maxStoreBytes - room) after := if_pos hmax
  have hevicted : Evicted (sys.tier.maxStoreBytes - room) after
      (submitStore fileName (fun _ => false) job sys) := hsubmit ▸ evictTo_spec hmax
  generalize submitStore fileName (fun _ => false) job sys = sys' at hevicted ⊢
  have hflight := inFlightStorePaths_congr hevicted.storeJobPaths
  have hpinned : ∀ path ∈ inFlightStorePaths after.tier, after.tier.pinned path = true :=
    fun path hpath => pinned_of_mem_inFlightStorePaths hpath
  have hregister : ∀ path, path ∈ inFlightStorePaths after.tier ↔
      path ∈ (storePaths fileName job.keys).keys ∨ path ∈ inFlightStorePaths sys.tier :=
    fun path => mem_inFlightStorePaths_register hfresh.1
  have htracked : Tracked (inFlightStorePaths after.tier) after.disk after.tier :=
    h.toTracked.mono (fun path hpath => (hregister path).mpr (Or.inr hpath)) rfl rfl rfl
      fun path hpath hnew => hroom.2 path (((hregister path).mp hpath).resolve_right hnew)
  have hafterTracked := hevicted.tracked hpinned htracked
  rw [hflight]
  have hmax' : sys'.tier.maxStoreBytes = sys.tier.maxStoreBytes := hevicted.maxStoreBytes
  refine ⟨hafterTracked, hmax' ▸ hpos, ?_⟩
  have hreserved : reserved (inFlightStorePaths after.tier) sys'.tier =
      reserved (inFlightStorePaths after.tier) after.tier := by
    rw [reserved, reserved, hevicted.unindexed_eq hpinned, hevicted.blockSize]
  rw [hreserved, hmax']
  -- either the target is met, or only pinned files are left, and those fit
  have hbytes := hafterTracked.bytes
  have hle : sys'.tier.storeBytes ≤ sys.tier.storeBytes := hevicted.bytes_le
  rw [pinnedBytes, Nat.cast_add] at hpins
  have hcases := hroom.1
  change ((reserved (inFlightStorePaths after.tier) after.tier : ℤ) ≤ room ∨
    sys.tier.storeBytes + reserved (inFlightStorePaths after.tier) after.tier ≤
      sys.tier.maxStoreBytes ∨
    sys.tier.maxStoreBytes - room ≤ (pinnedIndex after.tier).total StoreEntry.size) at hcases
  change ((pinnedIndex after.tier).total StoreEntry.size : ℤ) +
    reserved (inFlightStorePaths after.tier) after.tier ≤ sys.tier.maxStoreBytes at hpins
  rcases hevicted.target with htarget | hall
  · rcases hcases with hsmall | hfits | hpinnedOnly
    · omega
    · omega
    · omega
  · have htotal := hevicted.total_le hall
    omega

/-! ### Runs -/

/-- **What the steps of a run preserve.** -/
theorem within_step {fileName : Key → Path} {sys sys' : FsSystem Path Key}
    {event : FsEvent Path Key}
    (h : Within (inFlightStorePaths sys.tier) sys.disk sys.tier)
    (hstep : FsStep fileName sys event sys') (hroom : StepHasRoom fileName sys event) :
    Within (inFlightStorePaths sys'.tier) sys'.disk sys'.tier := by
  cases hstep with
  | submitStore hfresh hpins => exact within_submitStore h hfresh hpins hroom
  | submitLoad hfresh hpins => exact h.congr rfl rfl rfl (fun _ => rfl) rfl
  | getFinishedJobs => exact within_getFinishedJobs _ h
  | @writeBlock jobId path size paths hjob hpath hsize =>
    refine ⟨⟨h.bytes, h.whole, fun path' size' hget => ?_⟩, h.cap_pos, h.cap⟩
    rw [OrderedDict.get?_set] at hget
    split at hget
    · next heq =>
      subst heq
      obtain rfl := Option.some.inj hget
      have hin : path' ∈ inFlightStorePaths sys.tier :=
        mem_inFlightStorePaths.mpr ⟨jobId, paths, hjob, hpath⟩
      rcases Option.eq_none_or_eq_some (sys.tier.storeIndex.get? path') with hnone | ⟨entry, hentry⟩
      · exact Or.inr ⟨mem_unindexed.mpr ⟨hin, hnone⟩, hsize⟩
      · exact Or.inl ⟨entry, hentry, Nat.le_trans hsize (h.whole path' hin entry hentry)⟩
    · exact h.files path' size' hget
  | dropShortRead hjob hpath =>
    refine ⟨⟨h.bytes, h.whole, fun path' size' hget => ?_⟩, h.cap_pos, h.cap⟩
    rw [OrderedDict.get?_pop] at hget
    split at hget
    · cases hget
    · exact h.files path' size' hget

theorem tracked_indexExistingStore (keyFromPath : Path → Option Key) (blockSize : ℕ)
    (maxStoreBytes : ℤ) (found : OrderedDict Path ℕ) :
    Tracked ∅ found (indexExistingStore keyFromPath blockSize maxStoreBytes found).tier := by
  refine ⟨?_, fun path hpath => absurd hpath (by simp), fun path size hget => ?_⟩
  · simp [indexExistingStore, OrderedDict.total, Function.comp_def]
  · refine Or.inl ⟨⟨size, keyFromPath path⟩, ?_, Nat.le_refl _⟩
    rw [OrderedDict.get?_eq_some_iff] at hget ⊢
    exact List.mem_map.mpr ⟨(path, size), hget, rfl⟩

/-- The constructor makes room for what it has found. -/
theorem within_openStore {keyFromPath : Path → Option Key} {blockSize : ℕ} {maxStoreBytes : ℤ}
    {found : OrderedDict Path ℕ} (hpos : 0 < maxStoreBytes) {sys : FsSystem Path Key}
    (hopen : openStore keyFromPath (fun _ => false) blockSize maxStoreBytes found = sys) :
    Within (inFlightStorePaths sys.tier) sys.disk sys.tier := by
  set start := indexExistingStore keyFromPath blockSize maxStoreBytes found with hstart
  have hevicted : Evicted maxStoreBytes start sys := hopen ▸ evictTo_spec (ne_of_gt hpos)
  have hflight : inFlightStorePaths sys.tier = ∅ := inFlightStorePaths_congr hevicted.storeJobPaths
  have hmax : sys.tier.maxStoreBytes = maxStoreBytes := hevicted.maxStoreBytes
  have hunpinned : ∀ path ∈ (∅ : Finset Path), start.tier.pinned path = true := by simp
  have htracked := hevicted.tracked hunpinned
    (tracked_indexExistingStore keyFromPath blockSize maxStoreBytes found)
  rw [hflight]
  refine ⟨htracked, hmax ▸ hpos, ?_⟩
  rw [hmax, reserved, unindexed, Finset.filter_empty, Finset.card_empty, Nat.mul_zero]
  rcases hevicted.target with htarget | hall
  · simpa using htarget
  · -- no job pins a file yet, so nothing is left
    have hempty : sys.tier.storeIndex.entries = [] := by
      refine List.eq_nil_iff_forall_not_mem.mpr fun p hp => ?_
      have hpinned := hall p.1 p.2 (OrderedDict.get?_eq_some_iff.mpr hp)
      cases hpinned
    rw [htracked.bytes, OrderedDict.total, hempty]
    simpa using hpos.le

/-- **In every run whose submissions have room, the files on disk stay within the cap.** -/
theorem store_within_cap {fileName : Key → Path} {keyFromPath : Path → Option Key}
    {blockSize : ℕ} {maxStoreBytes : ℤ} {found : OrderedDict Path ℕ} (hpos : 0 < maxStoreBytes)
    {events : List (FsEvent Path Key)} {sys : FsSystem Path Key}
    (hrun : Run (fun sys event sys' => FsStep fileName sys event sys' ∧
        StepHasRoom fileName sys event)
      (openStore keyFromPath (fun _ => false) blockSize maxStoreBytes found) events sys) :
    (sys.diskBytes : ℤ) ≤ sys.tier.maxStoreBytes :=
  diskBytes_le_cap (hrun.invariant
    (I := fun sys => Within (inFlightStorePaths sys.tier) sys.disk sys.tier)
    (fun _ _ _ h hstep => within_step h hstep.1 hstep.2) (within_openStore hpos rfl))

/-- The paths of a job that stores one block. -/
def jobPath (path : ℕ) : OrderedDict ℕ ℕ := ⟨[(path, path)], List.nodup_singleton path⟩

/-- A store of two blocks that holds one file. -/
def smallStore : FsSystem ℕ ℕ :=
  openStore some (fun _ => false) 10 20 ⟨[(0, 10)], by decide⟩

/-- Two store jobs, the second one after the first has finished. -/
theorem store_within_cap_in_turn : ∃ sys,
    Run (fun sys event sys' => FsStep id sys event sys' ∧ StepHasRoom id sys event) smallStore
      [.submitStore ⟨1, [1]⟩, .writeBlock 1 1 10, .getFinishedJobs [⟨1, true, none⟩],
        .submitStore ⟨2, [2]⟩, .writeBlock 2 2 10] sys ∧
    (sys.diskBytes : ℤ) ≤ sys.tier.maxStoreBytes := by
  have hroom : ∀ (key : ℕ) (sys : FsSystem ℕ ℕ), sys.tier.storeIndex.get? key = none →
      ∀ path ∈ (storePaths id [key]).keys, ∀ entry : StoreEntry ℕ,
        sys.tier.storeIndex.get? path = some entry → sys.tier.blockSize ≤ entry.size := by
    intro key sys hnone path hpath entry hget
    obtain rfl : path = key := by
      simpa [storePaths, OrderedDict.set, OrderedDict.empty, OrderedDict.keys] using hpath
    rw [hnone] at hget
    cases hget
  have hrun : ∃ sys, Run
      (fun sys event sys' => FsStep id sys event sys' ∧ StepHasRoom id sys event) smallStore
      [.submitStore ⟨1, [1]⟩, .writeBlock 1 1 10, .getFinishedJobs [⟨1, true, none⟩],
        .submitStore ⟨2, [2]⟩, .writeBlock 2 2 10] sys := by
    refine ⟨_, .cons ⟨.submitStore ⟨by decide, by decide⟩ (by decide), by decide, hroom 1 _ rfl⟩
      (.cons ⟨.writeBlock (rfl : _ = some (jobPath 1)) (by decide) (by decide), trivial⟩
      (.cons ⟨.getFinishedJobs, trivial⟩
      (.cons ⟨.submitStore ⟨by decide, by decide⟩ (by decide), by decide, hroom 2 _ rfl⟩
      (.cons ⟨.writeBlock (rfl : _ = some (jobPath 2)) (by decide) (by decide), trivial⟩
      (.nil _)))))⟩
  obtain ⟨sys, hrun⟩ := hrun
  exact ⟨sys, hrun, store_within_cap (by decide) hrun⟩

/-- **Two store jobs in flight cross the cap**: the second one counts on the room that the
first one has not used yet. -/
theorem two_stores_cross_cap : ∃ sys, Run (FsStep id) smallStore
    [.submitStore ⟨1, [1]⟩, .submitStore ⟨2, [2]⟩, .writeBlock 1 1 10, .writeBlock 2 2 10] sys ∧
    sys.tier.maxStoreBytes < sys.diskBytes := by
  refine ⟨_, .cons (.submitStore ⟨by decide, by decide⟩ (by decide))
    (.cons (.submitStore ⟨by decide, by decide⟩ (by decide))
    (.cons (.writeBlock (rfl : _ = some (jobPath 1)) (by decide) (by decide))
    (.cons (.writeBlock (rfl : _ = some (jobPath 2)) (by decide) (by decide))
    (.nil _)))), ?_⟩
  decide

end KvOffload
end VllmMetal
