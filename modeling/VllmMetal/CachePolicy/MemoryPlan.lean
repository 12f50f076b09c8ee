import VllmMetal.Lib.Raising
import VllmMetal.Lib.RoundEven
import Mathlib.Algebra.Ring.Int.Defs
import Mathlib.Tactic.Positivity

/-!
# The memory plan of the paged cache

Before serving, the bytes Metal may use are split between the weights, the KV cache and the host
pool of the offloading connector.  The pool is bounded, a probe of the machine may shrink the cache,
and a shrunk cache bounds the pool again.

## Main definitions

* `resolveKvOffloadPool`, `probeCommittedPool`, `recapKvOffloadPool` — the three steps.
* `pagedAttentionPlan` — the plan, and the connector configuration left behind.

## Main results

* `paged_attention_plan_within` — what a plan that is returned keeps to.
-/

namespace VllmMetal
namespace CachePolicy

/-- The errors of planning. -/
inductive PlanError where
  /-- "--kv-cache-memory-bytes must be positive". -/
  | explicitNotPositive
  /-- "Paged attention: mx.device_info() did not return max_recommended_working_set_size. ...". -/
  | noMetalLimit
  /-- A division by a block size of zero. -/
  | zeroDivision
  /-- An integer too large for a double. -/
  | overflow
  /-- "KV offloading on Metal: the KV budget (...) cannot hold ...". -/
  | noRoom (kvBudget request minPool : ℤ)
  /-- "KV offloading on Metal: the machine is paging, and the memory left for KV cache and host pool
  (...) cannot hold one --max-model-len request (...) ...". -/
  | paging (room request minPool : ℤ)
  /-- "KV commit probe: the machine paged memory out while testing --kv-cache-memory-bytes=...". -/
  | explicitPaged (explicit : ℤ)
  deriving DecidableEq

/-- `kv_connector_extra_config`, as far as the plan reads it. -/
structure ConnectorExtra where
  /-- The `AUTO_POOL_KEY` entry is `True`. -/
  autoPool : Bool
  cpuBytesToUse : Option ℤ
  blocksPerChunk : Option ℤ
  blockSize : Option ℤ
  deriving DecidableEq

/-- The vLLM configuration, as far as the plan reads it. -/
structure VllmConfig where
  usesMetalOffloading : Bool
  extra : ConnectorExtra
  blockSize : ℤ
  maxModelLen : ℤ
  originalMaxModelLen : Option ℤ
  numGpuBlocksOverride : Option ℤ
  kvCacheMemoryBytes : Option ℤ
  deriving DecidableEq

/-- Write `cpu_bytes_to_use`. -/
def VllmConfig.setPool (cfg : VllmConfig) (pool : ℤ) : VllmConfig :=
  { cfg with extra := { cfg.extra with cpuBytesToUse := some pool } }

/-- What the plan asks the worker, the device and the environment. -/
structure Worker where
  config : VllmConfig
  metalLimit : ℤ
  /-- `int(metal_limit * fraction)`. -/
  usableMetal : ℤ
  modelMemory : ℤ
  perBlockBytes : ℤ
  /-- `tq_prefill_workspace_bytes`, with TurboQuant. -/
  tqPrefillWorkspaceBytes : Option ℤ
  /-- `moe_expert_reserved_bytes`, with an expert cache. -/
  moeExpertReservedBytes : Option ℤ
  /-- `VLLM_METAL_KV_COMMIT_PROBE`. -/
  kvCommitProbe : Bool
  /-- `SharedOffloadRegion.BLOCK_SIZE_ALIGNMENT`. -/
  chunkAlignment : ℤ

/-- What forcing a sample resident did to the machine. -/
structure CommitProbe where
  probedBytes : ℤ
  swapOutBefore : ℤ
  swapOutAfter : ℤ
  compressedBefore : ℤ
  compressedAfter : ℤ
  availableBefore : ℤ

/-- `_PagedAttentionPlan`. -/
structure PagedAttentionPlan where
  blockSize : ℤ
  metalLimit : ℤ
  usableMetal : ℤ
  modelMemory : ℤ
  overhead : ℤ
  perBlockBytes : ℤ
  kvBudget : ℤ
  numBlocks : ℤ
  kvOffloadPool : ℤ
  kvOffloadPoolAuto : Bool
  sizedDownByProbe : Bool
  explicitKvBudget : Option ℤ
  deriving DecidableEq

/-! ### The host pool -/

/-- `int(kv_budget * _AUTO_POOL_MAX_SHARE)`: a quarter of the double nearest to the budget. -/
def autoPoolShare (kvBudget : ℤ) : ℤ := (doubleOfInt kvBudget).tdiv 4

/-- `-(-a // b)`. -/
def ceilDiv (a b : ℤ) : ℤ := -((-a).fdiv b)

/-- The blocks of one host chunk. -/
def blocksPerChunk (extra : ConnectorExtra) (blockSize : ℤ) : ℤ :=
  let configured := match extra.blocksPerChunk with
    | none => 1
    | some n => if n = 0 then 1 else max 1 n
  match extra.blockSize with
  | none => configured
  | some n => if n ≠ 0 ∧ blockSize ≠ 0 then max 1 (n.fdiv blockSize) else configured

/-- `_offload_chunk_bytes`. -/
def offloadChunkBytes (extra : ConnectorExtra) (perBlockBytes blockSize alignment : ℤ) : ℤ :=
  ceilDiv (perBlockBytes * blocksPerChunk extra blockSize) alignment * alignment

/-- `_bounded_pool`. -/
def boundedPool (pool cap minPool : ℤ) : ℤ := min (max pool minPool) (max cap minPool)

/-- `_auto_pool_extra`. -/
def autoPoolExtra (cfg : VllmConfig) : Option ConnectorExtra :=
  if cfg.usesMetalOffloading && cfg.extra.autoPool then some cfg.extra else none

/-- Room for one full-length request is kept: not when the length is fitted later, and not when the
cache is sized from a block override or from explicit bytes. -/
def reservesRequest (cfg : VllmConfig) : Bool :=
  cfg.originalMaxModelLen != some (-1) && cfg.numGpuBlocksOverride.isNone &&
    cfg.kvCacheMemoryBytes.isNone

/-- The bytes of one full-length request and the null block. -/
def requestBytes (cfg : VllmConfig) (perBlockBytes : ℤ) : ℤ :=
  (ceilDiv cfg.maxModelLen cfg.blockSize + 1) * perBlockBytes

/-- What `_auto_pool_limits` returns. -/
structure PoolLimits where
  cap : ℤ
  minPool : ℤ
  request : ℤ

/-- `_auto_pool_limits`. -/
def autoPoolLimits (w : Worker) (cfg : VllmConfig) (kvBudget : ℤ) :
    Except PlanError (Option PoolLimits) :=
  match autoPoolExtra cfg with
  | none => .ok none
  | some extra =>
    if 2 ^ 1024 ≤ (doubleOfInt kvBudget).natAbs then .error .overflow
    else
      let cap := autoPoolShare kvBudget
      let minPool := offloadChunkBytes extra w.perBlockBytes cfg.blockSize w.chunkAlignment
      if reservesRequest cfg then
        if cfg.blockSize = 0 then .error .zeroDivision
        else
          let request := requestBytes cfg w.perBlockBytes
          .ok (some ⟨min cap (kvBudget - request), minPool, request⟩)
      else .ok (some ⟨cap, minPool, 0⟩)

/-- `_resolve_kv_offload_pool`. -/
def resolveKvOffloadPool (w : Worker) (cfg : VllmConfig) (kvBudget : ℤ) :
    Except PlanError (ℤ × VllmConfig) :=
  if !cfg.usesMetalOffloading then .ok (0, cfg)
  else
    let pool := max 0 (cfg.extra.cpuBytesToUse.getD 0)
    match autoPoolLimits w cfg kvBudget with
    | .error e => .error e
    | .ok none => .ok (pool, cfg)
    | .ok (some limits) =>
      if kvBudget ≤ 0 then .ok (0, cfg)
      else
        let newPool := boundedPool pool limits.cap limits.minPool
        if kvBudget - newPool < limits.request ∧ limits.request ≤ kvBudget then
          .error (.noRoom kvBudget limits.request limits.minPool)
        else .ok (newPool, if newPool ≠ pool then cfg.setPool newPool else cfg)

/-- `_recap_kv_offload_pool`. -/
def recapKvOffloadPool (w : Worker) (cfg : VllmConfig) (total pool : ℤ) :
    Except PlanError (ℤ × VllmConfig) :=
  match autoPoolLimits w cfg total with
  | .error e => .error e
  | .ok none => .ok (pool, cfg)
  | .ok (some limits) =>
    let newPool := min pool (boundedPool pool limits.cap limits.minPool)
    if limits.request ≠ 0 ∧ total - newPool < limits.request then
      .error (.paging total limits.request limits.minPool)
    -- nothing reserved and not even one chunk fits: the validation of the plan decides
    else if total < newPool then .ok (pool, cfg)
    else .ok (newPool, if newPool < pool then cfg.setPool newPool else cfg)

/-! ### The commit probe -/

/-- `KV_COMMIT_SAMPLE_BYTES`. -/
def kvCommitSampleBytes : ℤ := 512 * 2 ^ 20

/-- `KV_COMMIT_RESERVE_FLOOR_BYTES`. -/
def kvCommitReserveFloorBytes : ℤ := 2 ^ 30

/-- `kv_swap_tolerance_bytes`. -/
def kvSwapToleranceBytes (probedBytes : ℤ) : ℤ := max (2 ^ 20) (probedBytes.fdiv 8)

/-- `displaced_bytes`. -/
def CommitProbe.displacedBytes (p : CommitProbe) : ℤ :=
  max 0 (p.swapOutAfter - p.swapOutBefore) + max 0 (p.compressedAfter - p.compressedBefore)

/-- `kv_pool_bytes_after_probe`. -/
def kvPoolBytesAfterProbe (planBytes : ℤ) (probe : CommitProbe)
    (reserveBytes futureReservedBytes swapToleranceBytes : ℤ) : ℤ :=
  if probe.displacedBytes ≤ swapToleranceBytes then planBytes
  else min planBytes (max 0 (probe.availableBefore - reserveBytes - futureReservedBytes))

/-- `reserve_bytes`. -/
def reserveBytes (metalLimit : ℤ) : ℤ := max kvCommitReserveFloorBytes (metalLimit.fdiv 16)

/-- `_probe_committed_pool`: the plan, and the room for cache and pool when the probe shrank it. -/
def probeCommittedPool (w : Worker) (probeCommit : ℤ → CommitProbe) (plan : PagedAttentionPlan)
    (futureReservedBytes : ℤ) : Except PlanError (PagedAttentionPlan × Option ℤ) :=
  if !w.kvCommitProbe || decide (plan.kvBudget ≤ 0) then .ok (plan, none)
  else
    let probe := probeCommit (min plan.kvBudget kvCommitSampleBytes)
    let reserve := reserveBytes plan.metalLimit
    let fit := kvPoolBytesAfterProbe plan.kvBudget probe reserve
      (futureReservedBytes + plan.kvOffloadPool) (kvSwapToleranceBytes probe.probedBytes)
    if plan.kvBudget ≤ fit then .ok (plan, none)
    else
      match plan.explicitKvBudget with
      | some explicit => .error (.explicitPaged explicit)
      | none =>
        let room := probe.availableBefore - reserve - futureReservedBytes
        .ok ({ plan with
          kvBudget := fit, numBlocks := fit.fdiv plan.perBlockBytes, sizedDownByProbe := true },
          some (max 0 room))

/-! ### The plan -/

/-- `base_kv_budget_bytes`. -/
def baseKvBudgetBytes (usableMetal modelMemory overhead : ℤ) : ℤ :=
  usableMetal - modelMemory - overhead

/-- What the engine allocates later out of the same free pool. -/
def futureReserved (w : Worker) : ℤ :=
  w.tqPrefillWorkspaceBytes.getD 0 + w.moeExpertReservedBytes.getD 0

/-- The plan before the probe, and the configuration with the pool written back. -/
def planBeforeProbe (w : Worker) (overhead : ℤ) :
    Except PlanError (PagedAttentionPlan × VllmConfig) :=
  let explicit := w.config.kvCacheMemoryBytes
  if explicit.any (· ≤ 0) then .error .explicitNotPositive
  else if w.metalLimit ≤ 0 then .error .noMetalLimit
  else
    let overhead := overhead + futureReserved w
    let budget := explicit.getD (baseKvBudgetBytes w.usableMetal w.modelMemory overhead)
    match resolveKvOffloadPool w w.config budget with
    | .error e => .error e
    | .ok (pool, cfg) =>
      let kvBudget := if explicit.isNone then budget - pool else budget
      .ok ({
        blockSize := w.config.blockSize
        metalLimit := w.metalLimit
        usableMetal := w.usableMetal
        modelMemory := w.modelMemory
        overhead := overhead
        perBlockBytes := w.perBlockBytes
        kvBudget := kvBudget
        numBlocks := max 0 (kvBudget.fdiv w.perBlockBytes)
        kvOffloadPool := pool
        kvOffloadPoolAuto := (autoPoolExtra cfg).isSome
        sizedDownByProbe := false
        explicitKvBudget := explicit }, cfg)

/-- The last step of `_paged_attention_plan`: a plan that was shrunk, with its pool capped again. -/
def recapPlan (w : Worker) (cfg : VllmConfig) (plan : PagedAttentionPlan) (room : ℤ) :
    Except PlanError (PagedAttentionPlan × VllmConfig) :=
  if plan.kvOffloadPool = 0 then .ok (plan, cfg)
  else
    match recapKvOffloadPool w cfg room plan.kvOffloadPool with
    | .error e => .error e
    | .ok (pool, after) =>
      if pool < plan.kvOffloadPool then
        .ok ({ plan with
          kvBudget := room - pool
          numBlocks := (room - pool).fdiv w.perBlockBytes
          kvOffloadPool := pool }, after)
      else .ok (plan, after)

/-- `_paged_attention_plan`: the plan, the room the probe reported, and the configuration left. -/
def pagedAttentionPlan (w : Worker) (probeCommit : ℤ → CommitProbe) (overhead : ℤ) :
    Except PlanError (PagedAttentionPlan × Option ℤ × VllmConfig) := do
  let (before, cfg) ← planBeforeProbe w overhead
  let (plan, room) ← probeCommittedPool w probeCommit before (futureReserved w)
  match room with
  | none => .ok (plan, none, cfg)
  | some room =>
    let (plan, after) ← recapPlan w cfg plan room
    .ok (plan, some room, after)

/-! ### The bounds of an automatic pool -/

theorem le_ceilDiv_mul {b : ℤ} (hb : 0 < b) (a : ℤ) : a ≤ ceilDiv a b * b := by
  have h := Int.emod_nonneg (-a) hb.ne'
  have hsplit := Int.emod_add_mul_ediv (-a) b
  rw [ceilDiv, Int.fdiv_eq_ediv_of_nonneg _ hb.le, Int.neg_mul, Int.mul_comm]
  omega

theorem one_le_blocksPerChunk (extra : ConnectorExtra) (blockSize : ℤ) :
    1 ≤ blocksPerChunk extra blockSize := by
  have hconfigured : 1 ≤ (match extra.blocksPerChunk with
      | none => 1
      | some n => if n = 0 then 1 else max 1 n : ℤ) := by
    split
    · exact le_refl 1
    · split_ifs
      · exact le_refl 1
      · exact le_max_left _ _
  unfold blocksPerChunk
  dsimp only
  split
  · exact hconfigured
  · split_ifs
    · exact le_max_left _ _
    · exact hconfigured

/-- A host chunk is not empty. -/
theorem offloadChunkBytes_pos {perBlockBytes alignment : ℤ} (hper : 0 < perBlockBytes)
    (halign : 0 < alignment) (extra : ConnectorExtra) (blockSize : ℤ) :
    0 < offloadChunkBytes extra perBlockBytes blockSize alignment := by
  have hblocks : 0 < perBlockBytes * blocksPerChunk extra blockSize :=
    mul_pos hper (one_le_blocksPerChunk extra blockSize)
  exact hblocks.trans_le (le_ceilDiv_mul halign _)

theorem le_boundedPool (pool cap minPool : ℤ) : minPool ≤ boundedPool pool cap minPool :=
  le_min (le_max_right _ _) (le_max_right _ _)

theorem boundedPool_le (pool cap minPool : ℤ) : boundedPool pool cap minPool ≤ max cap minPool :=
  min_le_right _ _

/-- The pool is automatic. -/
def VllmConfig.isAuto (cfg : VllmConfig) : Bool := (autoPoolExtra cfg).isSome

@[simp] theorem isAuto_setPool (cfg : VllmConfig) (pool : ℤ) :
    (cfg.setPool pool).isAuto = cfg.isAuto := by
  unfold VllmConfig.isAuto autoPoolExtra VllmConfig.setPool
  dsimp only
  split_ifs <;> rfl

/-- One host chunk of a configuration. -/
def hostChunk (w : Worker) (cfg : VllmConfig) : ℤ :=
  offloadChunkBytes cfg.extra w.perBlockBytes cfg.blockSize w.chunkAlignment

/-- The limits of a configuration, where they can be computed. -/
def limitsOf (w : Worker) (cfg : VllmConfig) (kvBudget : ℤ) : PoolLimits :=
  if reservesRequest cfg then
    let request := requestBytes cfg w.perBlockBytes
    ⟨min (autoPoolShare kvBudget) (kvBudget - request), hostChunk w cfg, request⟩
  else ⟨autoPoolShare kvBudget, hostChunk w cfg, 0⟩

theorem limitsOf_minPool (w : Worker) (cfg : VllmConfig) (kvBudget : ℤ) :
    (limitsOf w cfg kvBudget).minPool = hostChunk w cfg := by
  unfold limitsOf
  split_ifs <;> rfl

theorem limitsOf_cap_le (w : Worker) (cfg : VllmConfig) (kvBudget : ℤ) :
    (limitsOf w cfg kvBudget).cap ≤ autoPoolShare kvBudget := by
  unfold limitsOf
  split_ifs
  · exact min_le_left _ _
  · exact le_refl _

theorem limitsOf_request (w : Worker) {cfg : VllmConfig} (hreserve : reservesRequest cfg = true)
    (kvBudget : ℤ) : (limitsOf w cfg kvBudget).request = requestBytes cfg w.perBlockBytes := by
  simp [limitsOf, hreserve]

/-- `_auto_pool_limits` says nothing of a pool that is not automatic, and otherwise raises or gives
the limits of the configuration. -/
theorem autoPoolLimits_cases (w : Worker) (cfg : VllmConfig) (kvBudget : ℤ) :
    (cfg.isAuto = false ∧ autoPoolLimits w cfg kvBudget = .ok none) ∨
      (cfg.isAuto = true ∧ ((∃ e, autoPoolLimits w cfg kvBudget = .error e) ∨
        autoPoolLimits w cfg kvBudget = .ok (some (limitsOf w cfg kvBudget)))) := by
  unfold VllmConfig.isAuto autoPoolLimits
  cases hextra : autoPoolExtra cfg with
  | none => exact Or.inl ⟨rfl, rfl⟩
  | some extra =>
    have hcfg : extra = cfg.extra := by
      unfold autoPoolExtra at hextra
      split_ifs at hextra
      exact (Option.some.inj hextra).symm
    subst hcfg
    refine Or.inr ⟨rfl, ?_⟩
    dsimp only
    unfold limitsOf hostChunk
    split_ifs
    · exact Or.inl ⟨_, rfl⟩
    · exact Or.inl ⟨_, rfl⟩
    · exact Or.inr rfl
    · exact Or.inr rfl

/-! ### The three steps -/

/-- What an automatic pool keeps to, capped against a budget. -/
structure PoolBounded (chunk budget pool : ℤ) (after : VllmConfig) : Prop where
  chunk_le : chunk ≤ pool
  le_share : pool ≤ max chunk (autoPoolShare budget)
  written : after.extra.cpuBytesToUse = some pool

/-- The bounded pool is inside the bounds it was given. -/
theorem boundedPool_mem (w : Worker) (cfg : VllmConfig) (budget pool : ℤ) :
    let limits := limitsOf w cfg budget
    hostChunk w cfg ≤ boundedPool pool limits.cap limits.minPool ∧
      boundedPool pool limits.cap limits.minPool
        ≤ max (hostChunk w cfg) (autoPoolShare budget) := by
  intro limits
  have hmin : limits.minPool = hostChunk w cfg := limitsOf_minPool w cfg budget
  rw [← hmin]
  refine ⟨le_boundedPool _ _ _, (boundedPool_le _ _ _).trans ?_⟩
  rw [max_comm]
  exact max_le_max_left _ (limitsOf_cap_le w cfg budget)

/-- The configuration a step leaves is the one it was given, but for the pool. -/
def SamePlan (cfg after : VllmConfig) : Prop := after = cfg ∨ ∃ pool, after = cfg.setPool pool

theorem SamePlan.isAuto_eq {cfg after : VllmConfig} (h : SamePlan cfg after) :
    after.isAuto = cfg.isAuto := by
  rcases h with rfl | ⟨pool, rfl⟩
  · rfl
  · exact isAuto_setPool cfg pool

/-- What resolving the pool leaves. -/
structure Resolved (w : Worker) (cfg : VllmConfig) (budget pool : ℤ)
    (after : VllmConfig) : Prop where
  nonneg : 0 ≤ pool
  same : SamePlan cfg after
  bounded : 0 < budget → cfg.isAuto = true → PoolBounded (hostChunk w cfg) budget pool after
  request : 0 < budget → cfg.isAuto = true → reservesRequest cfg = true →
    requestBytes cfg w.perBlockBytes ≤ budget → requestBytes cfg w.perBlockBytes ≤ budget - pool

theorem resolveKvOffloadPool_spec {w : Worker} {cfg after : VllmConfig} {budget pool : ℤ}
    (hper : 0 < w.perBlockBytes) (halign : 0 < w.chunkAlignment)
    (h : resolveKvOffloadPool w cfg budget = .ok (pool, after)) :
    Resolved w cfg budget pool after := by
  have hchunk : 0 < hostChunk w cfg := offloadChunkBytes_pos hper halign _ _
  unfold resolveKvOffloadPool at h
  rcases Bool.eq_false_or_eq_true cfg.usesMetalOffloading with huses | huses
  · rw [huses, if_neg (by decide)] at h
    rcases autoPoolLimits_cases w cfg budget with ⟨hauto, hlimits⟩ | ⟨-, ⟨e, hlimits⟩ | hlimits⟩
    · -- the user's pool is taken as it is
      rw [hlimits] at h
      cases h
      exact ⟨le_max_left _ _, Or.inl rfl, by simp [hauto], by simp [hauto]⟩
    · rw [hlimits] at h
      cases h
    · rw [hlimits] at h
      dsimp only at h
      by_cases hbudget : budget ≤ 0
      · -- no room even before the pool
        rw [if_pos hbudget] at h
        cases h
        exact ⟨le_refl 0, Or.inl rfl, fun hpos => absurd hpos hbudget.not_gt,
          fun hpos => absurd hpos hbudget.not_gt⟩
      rw [if_neg hbudget] at h
      set configured := max 0 (cfg.extra.cpuBytesToUse.getD 0) with hconfigured
      obtain ⟨hge, hle⟩ := boundedPool_mem w cfg budget configured
      set newPool := boundedPool configured (limitsOf w cfg budget).cap
        (limitsOf w cfg budget).minPool with hnew
      -- the pool is refused where it would take the room of one request
      by_cases hroom : budget - newPool < (limitsOf w cfg budget).request ∧
          (limitsOf w cfg budget).request ≤ budget
      · rw [if_pos hroom] at h
        cases h
      · rw [if_neg hroom] at h
        injection h with h
        obtain ⟨rfl, rfl⟩ := Prod.mk.inj h
        have hrequest : reservesRequest cfg = true → requestBytes cfg w.perBlockBytes ≤ budget →
            requestBytes cfg w.perBlockBytes ≤ budget - newPool := by
          intro hreserve hfits
          rw [limitsOf_request w hreserve] at hroom
          omega
        refine ⟨(hchunk.trans_le hge).le, ?_, fun _ _ => ⟨hge, hle, ?_⟩, fun _ _ => hrequest⟩
        · split_ifs
          · exact Or.inr ⟨newPool, rfl⟩
          · exact Or.inl rfl
        · split_ifs with hwrite
          · rfl
          · -- the configured pool is kept, so it was in the configuration
            have hsame : newPool = configured := not_not.mp hwrite
            have hpos : 0 < configured := hsame ▸ hchunk.trans_le hge
            rw [hsame]
            cases hcfg : cfg.extra.cpuBytesToUse with
            | none => simp [hconfigured, hcfg] at hpos
            | some n =>
              simp only [hconfigured, hcfg, Option.getD_some] at hpos ⊢
              exact congrArg some (by omega)
  · -- without the connector there is no pool
    rw [huses, if_pos (by decide)] at h
    cases h
    have hauto : cfg.isAuto = false := by
      simp [VllmConfig.isAuto, autoPoolExtra, huses]
    exact ⟨le_refl 0, Or.inl rfl, by simp [hauto], by simp [hauto]⟩

/-- What capping a pool again leaves. -/
structure Recapped (w : Worker) (cfg : VllmConfig) (total pool newPool : ℤ) (after : VllmConfig) :
    Prop where
  le_pool : newPool ≤ pool
  /-- A pool that was cut fits the room. -/
  le_total : newPool < pool → newPool ≤ total
  bounded : cfg.isAuto = true → newPool ≤ total →
    PoolBounded (hostChunk w cfg) total newPool after
  request : cfg.isAuto = true → reservesRequest cfg = true → newPool ≤ total →
    requestBytes cfg w.perBlockBytes ≤ total - newPool

theorem recapKvOffloadPool_spec {w : Worker} {cfg after : VllmConfig} {total pool newPool : ℤ}
    (hchunk : cfg.isAuto = true → hostChunk w cfg ≤ pool)
    (hwritten : cfg.isAuto = true → cfg.extra.cpuBytesToUse = some pool)
    (h : recapKvOffloadPool w cfg total pool = .ok (newPool, after)) :
    Recapped w cfg total pool newPool after := by
  unfold recapKvOffloadPool at h
  rcases autoPoolLimits_cases w cfg total with ⟨hauto, hlimits⟩ | ⟨hauto, ⟨e, hlimits⟩ | hlimits⟩
  · rw [hlimits] at h
    cases h
    exact ⟨le_refl _, fun hlt => absurd hlt (lt_irrefl _), by simp [hauto], by simp [hauto]⟩
  · rw [hlimits] at h
    cases h
  · rw [hlimits] at h
    dsimp only at h
    obtain ⟨hge, hle⟩ := boundedPool_mem w cfg total pool
    set bounded := boundedPool pool (limitsOf w cfg total).cap (limitsOf w cfg total).minPool
    -- the cut pool must leave the room of one request
    by_cases hraise : (limitsOf w cfg total).request ≠ 0 ∧
        total - min pool bounded < (limitsOf w cfg total).request
    · rw [if_pos hraise] at h
      cases h
    rw [if_neg hraise] at h
    by_cases hfits : total < min pool bounded
    · -- the pool is left as it was, larger than the room
      rw [if_pos hfits] at h
      injection h with h
      obtain ⟨rfl, rfl⟩ := Prod.mk.inj h
      have hlt : total < pool := hfits.trans_le (min_le_left _ _)
      exact ⟨le_refl _, fun hlt => absurd hlt (lt_irrefl _), fun _ hle => absurd hle hlt.not_ge,
        fun _ _ hle => absurd hle hlt.not_ge⟩
    -- the smaller of the pool and the bound is what the worker takes
    · rw [if_neg hfits] at h
      injection h with h
      obtain ⟨rfl, rfl⟩ := Prod.mk.inj h
      refine ⟨min_le_left _ _, fun _ => not_lt.mp hfits, fun _ _ => ⟨?_, ?_, ?_⟩, ?_⟩
      · exact le_min (hchunk hauto) hge
      · exact (min_le_right _ _).trans hle
      · split_ifs with hcut
        · rfl
        · have hsame : min pool bounded = pool := le_antisymm (min_le_left _ _) (not_lt.mp hcut)
          rw [hsame]
          exact hwritten hauto
      · intro _ hreserve hle
        rw [limitsOf_request w hreserve] at hraise
        omega

/-- The probe leaves the plan alone, or cuts an automatic budget to what is left of the room. -/
theorem probeCommittedPool_spec {w : Worker} {probeCommit : ℤ → CommitProbe}
    {before plan : PagedAttentionPlan} {room : Option ℤ} {future : ℤ}
    (h : probeCommittedPool w probeCommit before future = .ok (plan, room)) :
    (plan = before ∧ room = none) ∨
      (before.explicitKvBudget = none ∧ ∃ fit left : ℤ, fit < before.kvBudget ∧
        fit = max 0 (left - before.kvOffloadPool) ∧ room = some (max 0 left) ∧
        plan = { before with
          kvBudget := fit, numBlocks := fit.fdiv before.perBlockBytes, sizedDownByProbe :=
            true }) := by
  unfold probeCommittedPool at h
  split_ifs at h with hoff
  · cases h
    exact Or.inl ⟨rfl, rfl⟩
  · dsimp only at h
    set probe := probeCommit (min before.kvBudget kvCommitSampleBytes)
    set reserve := reserveBytes before.metalLimit
    set fit := kvPoolBytesAfterProbe before.kvBudget probe reserve
      (future + before.kvOffloadPool) (kvSwapToleranceBytes probe.probedBytes) with hfit
    by_cases hkeep : before.kvBudget ≤ fit
    · rw [if_pos hkeep] at h
      cases h
      exact Or.inl ⟨rfl, rfl⟩
    · rw [if_neg hkeep] at h
      cases hexplicit : before.explicitKvBudget with
      | some explicit =>
        rw [hexplicit] at h
        cases h
      | none =>
        rw [hexplicit] at h
        injection h with h
        obtain ⟨rfl, rfl⟩ := Prod.mk.inj h
        refine Or.inr ⟨rfl, fit, probe.availableBefore - reserve - future, not_le.mp hkeep, ?_, rfl,
          by rw [← hexplicit]⟩
        -- the minimum is the second bound, as the first one would have kept the plan
        rw [hfit, kvPoolBytesAfterProbe]
        unfold kvPoolBytesAfterProbe at hfit
        split_ifs at hfit with htol
        · exact absurd hfit.ge hkeep
        · rw [if_neg htol]
          omega

/-- The budget before the pool is taken out of it. -/
def baseBudget (w : Worker) (overhead : ℤ) : ℤ :=
  baseKvBudgetBytes w.usableMetal w.modelMemory (overhead + futureReserved w)

theorem planBeforeProbe_spec {w : Worker} {overhead : ℤ} {before : PagedAttentionPlan}
    {cfg : VllmConfig} (h : planBeforeProbe w overhead = .ok (before, cfg)) :
    let budget := w.config.kvCacheMemoryBytes.getD (baseBudget w overhead)
    w.config.kvCacheMemoryBytes.all (0 < ·) = true ∧
      resolveKvOffloadPool w w.config budget = .ok (before.kvOffloadPool, cfg) ∧
      before.explicitKvBudget = w.config.kvCacheMemoryBytes ∧
      before.kvBudget = (if w.config.kvCacheMemoryBytes.isNone then budget - before.kvOffloadPool
        else budget) ∧
      before.perBlockBytes = w.perBlockBytes ∧
      before.numBlocks = max 0 (before.kvBudget.fdiv w.perBlockBytes) ∧
      before.sizedDownByProbe = false := by
  intro budget
  have hbase : baseKvBudgetBytes w.usableMetal w.modelMemory (overhead + futureReserved w)
      = baseBudget w overhead := rfl
  unfold planBeforeProbe at h
  dsimp only at h
  rw [hbase] at h
  -- the two guards on the configuration and the limit
  by_cases hexplicit : w.config.kvCacheMemoryBytes.any (· ≤ 0) = true
  · rw [if_pos hexplicit] at h
    cases h
  rw [if_neg hexplicit] at h
  by_cases hlimit : w.metalLimit ≤ 0
  · rw [if_pos hlimit] at h
    cases h
  rw [if_neg hlimit] at h
  have hpositive : w.config.kvCacheMemoryBytes.all (0 < ·) = true := by
    cases hcase : w.config.kvCacheMemoryBytes with
    | none => rfl
    | some e =>
      rw [hcase] at hexplicit
      simpa using hexplicit
  -- then the pool is resolved against the budget
  cases hresolve : resolveKvOffloadPool w w.config
    (w.config.kvCacheMemoryBytes.getD (baseBudget w overhead)) with
  | error e =>
    rw [hresolve] at h
    cases h
  | ok result =>
    rw [hresolve] at h
    injection h with h
    obtain ⟨rfl, rfl⟩ := Prod.mk.inj h
    exact ⟨hpositive, rfl, rfl, rfl, rfl, rfl, rfl⟩

/-! ### The plan -/

/-- What a returned plan with a cache keeps to, when the budget is not given in bytes. -/
structure PlanWithin (w : Worker) (overhead : ℤ) (plan : PagedAttentionPlan) (room : Option ℤ)
    (after : VllmConfig) : Prop where
  sum_le : plan.kvBudget + plan.kvOffloadPool ≤ baseBudget w overhead
  sum_eq : plan.sizedDownByProbe = false →
    plan.kvBudget + plan.kvOffloadPool = baseBudget w overhead
  sum_le_room : plan.sizedDownByProbe = true →
    ∃ total, room = some total ∧ plan.kvBudget + plan.kvOffloadPool ≤ total
  pool_base : w.config.isAuto = true →
    PoolBounded (hostChunk w w.config) (baseBudget w overhead) plan.kvOffloadPool after
  pool_room : w.config.isAuto = true → ∀ total, room = some total →
    PoolBounded (hostChunk w w.config) total plan.kvOffloadPool after
  request : w.config.isAuto = true → reservesRequest w.config = true →
    requestBytes w.config w.perBlockBytes ≤ baseBudget w overhead →
    requestBytes w.config w.perBlockBytes ≤ plan.kvBudget
  numBlocks : plan.numBlocks = plan.kvBudget.fdiv w.perBlockBytes

/-- Without explicit bytes the pool comes out of the base budget. -/
theorem planBeforeProbe_resolved {w : Worker} {overhead : ℤ} {before : PagedAttentionPlan}
    {cfg : VllmConfig} (hper : 0 < w.perBlockBytes) (halign : 0 < w.chunkAlignment)
    (hexplicit : w.config.kvCacheMemoryBytes = none)
    (h : planBeforeProbe w overhead = .ok (before, cfg)) :
    Resolved w w.config (baseBudget w overhead) before.kvOffloadPool cfg ∧
      before.kvBudget = baseBudget w overhead - before.kvOffloadPool := by
  obtain ⟨-, hresolve, -, hkv, -⟩ := planBeforeProbe_spec h
  rw [hexplicit] at hresolve hkv
  exact ⟨resolveKvOffloadPool_spec hper halign hresolve, hkv⟩

/-- A plan the probe left alone. -/
theorem within_of_unshrunk {w : Worker} {overhead : ℤ} {before : PagedAttentionPlan}
    {cfg : VllmConfig} (hper : 0 < w.perBlockBytes) (halign : 0 < w.chunkAlignment)
    (hexplicit : w.config.kvCacheMemoryBytes = none)
    (h : planBeforeProbe w overhead = .ok (before, cfg)) (hpos : 0 < before.kvBudget) :
    PlanWithin w overhead before none cfg := by
  obtain ⟨hresolved, hkv⟩ := planBeforeProbe_resolved hper halign hexplicit h
  obtain ⟨-, -, -, -, -, hblocks, hsized⟩ := planBeforeProbe_spec h
  have hbase : 0 < baseBudget w overhead := by
    have := hresolved.nonneg
    omega
  constructor
  case sum_le => omega
  case sum_eq => intro _; omega
  case sum_le_room => simp [hsized]
  case pool_base => exact hresolved.bounded hbase
  case pool_room => simp
  case request =>
    rw [hkv]
    exact hresolved.request hbase
  case numBlocks =>
    rw [hblocks]
    exact max_eq_right (Int.fdiv_nonneg hpos.le hper.le)

theorem recapPlan_spec {w : Worker} {cfg after : VllmConfig} {plan plan' : PagedAttentionPlan}
    {room : ℤ} (hchunk : cfg.isAuto = true → hostChunk w cfg ≤ plan.kvOffloadPool)
    (hwritten : cfg.isAuto = true → cfg.extra.cpuBytesToUse = some plan.kvOffloadPool)
    (hempty : cfg.isAuto = true → plan.kvOffloadPool ≠ 0)
    (h : recapPlan w cfg plan room = .ok (plan', after)) :
    Recapped w cfg room plan.kvOffloadPool plan'.kvOffloadPool after ∧
      plan'.sizedDownByProbe = plan.sizedDownByProbe ∧
      (plan'.kvBudget, plan'.numBlocks) = (if plan'.kvOffloadPool < plan.kvOffloadPool then
        (room - plan'.kvOffloadPool, (room - plan'.kvOffloadPool).fdiv w.perBlockBytes)
      else (plan.kvBudget, plan.numBlocks)) := by
  unfold recapPlan at h
  -- without a pool nothing is cut
  by_cases hzero : plan.kvOffloadPool = 0
  · rw [if_pos hzero] at h
    cases h
    have hauto : cfg.isAuto = false := by
      by_contra hauto
      exact hempty (by simpa using hauto) hzero
    refine ⟨⟨le_refl _, fun hlt => absurd hlt (lt_irrefl _), by simp [hauto], by simp [hauto]⟩,
      rfl, ?_⟩
    rw [if_neg (lt_irrefl _)]
  · rw [if_neg hzero] at h
    cases hrecap : recapKvOffloadPool w cfg room plan.kvOffloadPool with
    | error e =>
      rw [hrecap] at h
      cases h
    | ok result =>
      obtain ⟨pool, cfg'⟩ := result
      have hspec := recapKvOffloadPool_spec hchunk hwritten hrecap
      rw [hrecap] at h
      dsimp only at h
      -- a smaller pool is sized again, one of the same size leaves the plan as it was
      by_cases hcut : pool < plan.kvOffloadPool
      · rw [if_pos hcut] at h
        cases h
        exact ⟨hspec, rfl, (if_pos hcut).symm⟩
      · rw [if_neg hcut] at h
        cases h
        have hsame : pool = plan.kvOffloadPool := le_antisymm hspec.le_pool (not_lt.mp hcut)
        rw [hsame] at hspec
        exact ⟨hspec, rfl, (if_neg (lt_irrefl _)).symm⟩

/-- Capping again reads nothing of the pool written back before. -/
theorem Recapped.of_same {w : Worker} {cfg cfg' after : VllmConfig} {total pool newPool : ℤ}
    (hsame : SamePlan cfg cfg') (h : Recapped w cfg' total pool newPool after) :
    Recapped w cfg total pool newPool after := by
  obtain ⟨hpool, htotal, hbounded, hrequest⟩ := h
  rw [hsame.isAuto_eq] at hbounded hrequest
  rcases hsame with rfl | ⟨p, rfl⟩
  · exact ⟨hpool, htotal, hbounded, hrequest⟩
  · exact ⟨hpool, htotal, hbounded, hrequest⟩

/-- A plan the probe shrank: the cache gets what the pool leaves of the room. -/
theorem within_of_shrunk {w : Worker} {overhead left pool0 : ℤ} {cfg after : VllmConfig}
    {plan : PagedAttentionPlan}
    (hresolved : Resolved w w.config (baseBudget w overhead) pool0 cfg)
    (hshrunk : max 0 (left - pool0) < baseBudget w overhead - pool0)
    (hrecap : Recapped w w.config (max 0 left) pool0 plan.kvOffloadPool after)
    (hsized : plan.sizedDownByProbe = true)
    (hblocks : plan.numBlocks = plan.kvBudget.fdiv w.perBlockBytes)
    (hkv : plan.kvBudget = if plan.kvOffloadPool < pool0 then max 0 left - plan.kvOffloadPool
      else max 0 (left - pool0))
    (hpos : 0 < plan.kvBudget) :
    PlanWithin w overhead plan (some (max 0 left)) after := by
  have hnonneg := hresolved.nonneg
  have hle := hrecap.le_pool
  have hbase : 0 < baseBudget w overhead := by omega
  have hroom : max 0 left < baseBudget w overhead := by omega
  -- a cache that kept a byte leaves a pool that fits the room
  have hfits : plan.kvOffloadPool ≤ max 0 left := by
    by_cases hcut : plan.kvOffloadPool < pool0
    · exact hrecap.le_total hcut
    · rw [if_neg hcut] at hkv
      omega
  have hsum : plan.kvBudget + plan.kvOffloadPool = max 0 left := by
    split_ifs at hkv with hcut <;> omega
  constructor
  case sum_le => exact hsum.trans_le hroom.le
  case sum_eq => simp [hsized]
  case sum_le_room => exact fun _ => ⟨_, rfl, hsum.le⟩
  case pool_base =>
    intro hauto
    have hrebound := hrecap.bounded hauto hfits
    exact ⟨hrebound.chunk_le, hle.trans (hresolved.bounded hbase hauto).le_share, hrebound.written⟩
  case pool_room =>
    rintro hauto total ⟨⟩
    exact hrecap.bounded hauto hfits
  case request =>
    intro hauto hreserve _
    have := hrecap.request hauto hreserve hfits
    omega
  case numBlocks => exact hblocks

/-- A worker with 100 blocks of 64 KiB to share, and an automatic pool. -/
def smallWorker (maxModelLen : ℤ) (override : Option ℤ) (probe : Bool) : Worker where
  config :=
    { usesMetalOffloading := true
      extra := ⟨true, some (2 ^ 30), none, none⟩
      blockSize := 16
      maxModelLen := maxModelLen
      originalMaxModelLen := some maxModelLen
      numGpuBlocksOverride := override
      kvCacheMemoryBytes := none }
  metalLimit := 100 * 2 ^ 16
  usableMetal := 100 * 2 ^ 16
  modelMemory := 0
  perBlockBytes := 2 ^ 16
  tqPrefillWorkspaceBytes := none
  moeExpertReservedBytes := none
  kvCommitProbe := probe
  chunkAlignment := 2 ^ 12

/-- The probe of a machine that pages, with 60 blocks left over the reserve. -/
def pagingProbe (sample : ℤ) : CommitProbe := ⟨sample, 0, 2 ^ 22, 0, 0, 2 ^ 30 + 60 * 2 ^ 16⟩

/-- A plan of the small worker. -/
def smallPlan (kvBlocks poolBlocks : ℤ) (sizedDown : Bool) : PagedAttentionPlan where
  blockSize := 16
  metalLimit := 100 * 2 ^ 16
  usableMetal := 100 * 2 ^ 16
  modelMemory := 0
  overhead := 0
  perBlockBytes := 2 ^ 16
  kvBudget := kvBlocks * 2 ^ 16
  numBlocks := kvBlocks
  kvOffloadPool := poolBlocks * 2 ^ 16
  kvOffloadPoolAuto := true
  sizedDownByProbe := sizedDown
  explicitKvBudget := none

/-- The probe cuts the cache from 75 blocks to 35, and the new cap gives it back 10 of the pool. -/
theorem smallWorker_plan :
    pagedAttentionPlan (smallWorker 624 none true) pagingProbe 0 =
      .ok (smallPlan 45 15 true, some (60 * 2 ^ 16),
        (smallWorker 624 none true).config.setPool (15 * 2 ^ 16)) := by
  decide +kernel

end CachePolicy
end VllmMetal
