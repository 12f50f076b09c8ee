import VllmMetal.Lib.Butterfly

/-!
# The rotation of the values

Values are rotated before they are quantized: random signs, the Walsh–Hadamard transform, a factor
`1 / sqrt N`.  The encoder has a thread for each entry and exchanges entries through registers, then
through threadgroup memory.  The decoder has an array of registers in each of 32 lanes, and does its
stages across the lanes, then within them.  The rotation is undone once, on the weighted sum of the
values, where a kernel merges its warps or the reducer its partitions.

Numbers are those of a commutative ring; `s` stands for `1 / sqrt N`.

## Main definitions

* `tgForwardFwhtScalar`, `inverseFwhtInPlace` — the transforms.
* `tqLoadAndAccumulateV`, `warpAccumulate`, `mergeWarps` — the weighted sum of a threadgroup.
* `pagedAttentionOut`, `reduceOut` — the outputs.
-/

namespace VllmMetal
namespace TurboQuant

variable {K : Type} [CommRing K]

/-- The registers of a simdgroup: `lane`, then the index in its array. -/
abbrev Regs (K : Type) := ℕ → ℕ → K

/-- `(idx & mask) ? (partner - me) : (me + partner)`. -/
def butterflyOf (idx mask : ℕ) (me partner : K) : K :=
  if idx &&& mask ≠ 0 then partner - me else me + partner

/-! ### Forward -/

/-- `simd_shuffle_xor` in the threads of a threadgroup. -/
def simdShuffleXor (x : ℕ → K) (mask t : ℕ) : K := x (t / 32 * 32 + (t % 32 ^^^ mask))

/-- `tg_forward_fwht_scalar` in all threads, for `numStages` stages. -/
def tgForwardFwhtScalar (numStages : ℕ) (sign : ℕ → K) (s : K) (x : ℕ → K) : ℕ → K :=
  let x := fun t => x t * sign t
  let x := (List.range 5).foldl (fun x stage =>
    let mask := 1 <<< stage
    fun t => butterflyOf t mask (x t) (simdShuffleXor x mask t)) x
  let buf := x
  let buf := (List.range' 5 (numStages - 5)).foldl (fun buf stage =>
    let mask := 1 <<< stage
    fun t => butterflyOf t mask (buf t) (buf (t ^^^ mask))) buf
  fun t => buf t * s

/-! ### Inverse -/

/-- A loop over the registers of a lane, in all lanes at once. -/
def forRegs (elemsPerLane : ℕ) (entry : Regs K → ℕ → ℕ → K) (vals : Regs K) : Regs K :=
  (List.range elemsPerLane).foldl (fun vals e => fun lane e' =>
    if e' = e then entry vals lane e else vals lane e') vals

/-- The index of a register. -/
def regIdx (lane e : ℕ) : ℕ := lane + e * 32

/-- A stage across the lanes. -/
def shuffleStage (elemsPerLane stage : ℕ) : Regs K → Regs K :=
  let mask := 1 <<< stage
  forRegs elemsPerLane fun vals lane e =>
    butterflyOf (regIdx lane e) mask (vals lane e) (vals (lane ^^^ mask) e)

/-- A stage within the lanes: all results, and then the writes. -/
def intraStage (elemsPerLane stage : ℕ) (vals : Regs K) : Regs K :=
  let mask := 1 <<< stage
  let results : Regs K := forRegs elemsPerLane (fun _ lane e =>
    let idx := regIdx lane e
    let partnerIdx := idx ^^^ mask
    let partnerE := (partnerIdx - lane) / 32
    butterflyOf idx mask (vals lane e) (vals lane partnerE)) fun _ _ => 0
  forRegs elemsPerLane (fun _ lane e => results lane e) vals

/-- `inverse_fwht_in_place`, for `numStages` stages. -/
def inverseFwhtInPlace (numStages elemsPerLane : ℕ) (sign : ℕ → K) (s : K)
    (vals : Regs K) : Regs K :=
  let vals := (List.range 5).foldl (fun vals stage => shuffleStage elemsPerLane stage vals) vals
  let vals := (List.range' 5 (numStages - 5)).foldl
    (fun vals stage => intraStage elemsPerLane stage vals) vals
  forRegs elemsPerLane (fun vals lane e => vals lane e * (s * sign (regIdx lane e))) vals

/-! ### Weighted sums -/

/-- The registers that hold a vector. -/
def loadRegs (v : ℕ → K) : Regs K := fun lane e => v (regIdx lane e)

/-- The vector that registers hold. -/
def storeRegs (vals : Regs K) : ℕ → K := fun d => vals (d % 32) (d / 32)

/-- `tq_load_and_accumulate_v`: a rotated vector, under its weight. -/
def tqLoadAndAccumulateV (vAccs : Regs K) (weight : K) (v : ℕ → K) : Regs K :=
  fun lane i => vAccs lane i + weight * loadRegs v lane i

/-- A block of keys: the correction of what was accumulated before, then the weighted vectors. -/
structure VBlock (K : Type) where
  oldCorrection : K
  tokens : List (K × (ℕ → K))

/-- The blocks of a warp. -/
def warpAccumulate (blocks : List (VBlock K)) : Regs K :=
  blocks.foldl (fun vAccs block =>
    block.tokens.foldl (fun vAccs token => tqLoadAndAccumulateV vAccs token.1 token.2)
      fun lane i => vAccs lane i * block.oldCorrection) fun _ _ => 0

/-- Another warp that is merged into warp 0, and the corrections of both. -/
structure OtherWarp (K : Type) where
  myCorr : K
  otherCorr : K
  blocks : List (VBlock K)

/-- What a threadgroup accumulates: warp 0, the other warps that have blocks, and the correction for
the sink. -/
structure Threadgroup (K : Type) where
  blocks : List (VBlock K)
  others : List (OtherWarp K)
  sinkCorr : K
  invL : K

/-- The merge of the warps. -/
def mergeWarps (tg : Threadgroup K) : Regs K :=
  let vAccs := tg.others.foldl (fun vAccs other =>
    let otherO := storeRegs (warpAccumulate other.blocks)
    fun lane j => vAccs lane j * other.myCorr + otherO (regIdx lane j) * other.otherCorr)
    (warpAccumulate tg.blocks)
  fun lane j => vAccs lane j * tg.sinkCorr

/-- The output of a threadgroup that has all keys. -/
def pagedAttentionOut (numStages elemsPerLane : ℕ) (sign : ℕ → K) (s : K) (tg : Threadgroup K) :
    ℕ → K :=
  let vAccs := inverseFwhtInPlace numStages elemsPerLane sign s (mergeWarps tg)
  storeRegs fun lane j => vAccs lane j * tg.invL

/-- The output of a threadgroup that has a partition of the keys: it stays rotated. -/
def tmpOut (tg : Threadgroup K) : ℕ → K :=
  storeRegs fun lane j => mergeWarps tg lane j * tg.invL

/-- The output of the reducer, from the partitions and their rescaled sums. -/
def reduceOut (numStages elemsPerLane : ℕ) (sign : ℕ → K) (s : K) (useSinks : Bool)
    (partitions : List (Threadgroup K × K)) (invGlobalExpSum : K) : ℕ → K :=
  if partitions.length = 1 ∧ useSinks = false then
    -- the early exit copies the one partition
    let tmp := (partitions.map fun partition => tmpOut partition.1).getD 0 fun _ => 0
    storeRegs (inverseFwhtInPlace numStages elemsPerLane sign s (loadRegs tmp))
  else
    let combined := fun i => partitions.foldl (fun acc partition =>
      acc + tmpOut partition.1 i * partition.2 * invGlobalExpSum) 0
    storeRegs (inverseFwhtInPlace numStages elemsPerLane sign s (loadRegs combined))

end TurboQuant
end VllmMetal
