import VllmMetal.TurboQuant.Fwht
import Mathlib.Data.List.Basic

/-!
# The rotation is undone once

Both transforms of the values are the same Walsh–Hadamard transform, read in two layouts; taken one
after the other, with the signs and the factor, they give the vector back.  The inverse is linear in
what the registers hold, so that taking it of a weighted sum gives the weighted sum of the inverses.

## Main results

* `tgForwardFwhtScalar_eq`, `inverseFwhtInPlace_eq` — what the transforms compute.
* `inverse_tgForwardFwhtScalar` — the round trip.
* `deferred_inverse_is_exact` — the round trip, and the outputs of the kernels.
-/

namespace VllmMetal
namespace TurboQuant

variable {K : Type} [CommRing K]

/-! ### Indices -/

/-- The test of a bit. -/
theorem butterflyOf_shiftLeft (idx m : ℕ) (me partner : K) :
    butterflyOf idx (1 <<< m) me partner =
      if idx.testBit m then partner - me else me + partner := by
  rw [butterflyOf, Nat.one_shiftLeft, Nat.and_two_pow]
  cases idx.testBit m <;> simp

/-- A butterfly of the entries of a vector. -/
theorem butterflyOf_eq (v : ℕ → K) (idx m : ℕ) :
    butterflyOf idx (1 <<< m) (v idx) (v (idx ^^^ 1 <<< m)) = butterfly m v idx := by
  rw [butterflyOf_shiftLeft, butterfly_apply, Nat.one_shiftLeft]

/-- The lower five bits of an index, and the others. -/
theorem xor_two_pow_mod_div (idx : ℕ) {m : ℕ} :
    (m < 5 → (idx ^^^ 2 ^ m) % 32 = idx % 32 ^^^ 2 ^ m ∧ (idx ^^^ 2 ^ m) / 32 = idx / 32) ∧
      (5 ≤ m → (idx ^^^ 2 ^ m) % 32 = idx % 32) := by
  have h32 : (32 : ℕ) = 2 ^ 5 := rfl
  constructor
  · intro hm
    have hlt : 2 ^ m < 2 ^ 5 := Nat.pow_lt_pow_right (by omega) hm
    rw [h32, Nat.xor_mod_two_pow, Nat.xor_div_two_pow, Nat.mod_eq_of_lt hlt, Nat.div_eq_of_lt hlt,
      Nat.xor_zero]
    exact ⟨rfl, rfl⟩
  · intro hm
    have hmod : 2 ^ m % 2 ^ 5 = 0 := Nat.mod_eq_zero_of_dvd (pow_dvd_pow 2 hm)
    rw [h32, Nat.xor_mod_two_pow, hmod, Nat.xor_zero]

omit [CommRing K] in
/-- A shuffle across the lanes of a simdgroup. -/
theorem simdShuffleXor_eq (x : ℕ → K) {m : ℕ} (hm : m < 5) (t : ℕ) :
    simdShuffleXor x (1 <<< m) t = x (t ^^^ 1 <<< m) := by
  obtain ⟨hmod, hdiv⟩ := (xor_two_pow_mod_div t).1 hm
  have hsplit := Nat.div_add_mod' (t ^^^ 2 ^ m) 32
  rw [hmod, hdiv] at hsplit
  rw [simdShuffleXor, Nat.one_shiftLeft, hsplit]

theorem regIdx_mod_div {lane : ℕ} (hlane : lane < 32) (e : ℕ) :
    regIdx lane e % 32 = lane ∧ regIdx lane e / 32 = e := by
  unfold regIdx
  omega

theorem regIdx_of_mod_div (idx : ℕ) : regIdx (idx % 32) (idx / 32) = idx := by
  unfold regIdx
  omega

theorem regIdx_xor_of_lt {lane m : ℕ} (hlane : lane < 32) (hm : m < 5) (e : ℕ) :
    regIdx (lane ^^^ 1 <<< m) e = regIdx lane e ^^^ 1 <<< m := by
  obtain ⟨hmod, hdiv⟩ := (xor_two_pow_mod_div (regIdx lane e)).1 hm
  obtain ⟨hlane', he⟩ := regIdx_mod_div hlane e
  rw [hlane'] at hmod
  rw [he] at hdiv
  have hsplit := regIdx_of_mod_div (regIdx lane e ^^^ 2 ^ m)
  rw [hmod, hdiv] at hsplit
  rw [Nat.one_shiftLeft, hsplit]

/-- The partner of a register in its own lane. -/
theorem regIdx_partner {lane m : ℕ} (hlane : lane < 32) (hm : 5 ≤ m) (e : ℕ) :
    regIdx lane (((regIdx lane e ^^^ 1 <<< m) - lane) / 32) = regIdx lane e ^^^ 1 <<< m := by
  have hmod := (xor_two_pow_mod_div (regIdx lane e)).2 hm
  rw [(regIdx_mod_div hlane e).1] at hmod
  rw [Nat.one_shiftLeft]
  unfold regIdx at hmod ⊢
  omega

/-! ### Forward -/

/-- The stages of a loop are those of the transform. -/
theorem foldl_butterfly_range' (start count : ℕ) (v : ℕ → K) :
    (List.range' start count).foldl (fun v m => butterfly m v) (hadamard start v) =
      hadamard (start + count) v := by
  induction count generalizing start with
  | zero => rfl
  | succ count ih =>
    rw [List.range'_succ, List.foldl_cons, ← hadamard_succ, ih, Nat.add_right_comm,
      Nat.add_assoc]

theorem foldl_butterfly_range (count : ℕ) (v : ℕ → K) :
    (List.range count).foldl (fun v m => butterfly m v) v = hadamard count v := by
  rw [List.range_eq_range', ← hadamard_zero v, foldl_butterfly_range', Nat.zero_add, hadamard_zero]

/-- **The encoder computes the transform of the signed vector.** -/
theorem tgForwardFwhtScalar_eq {numStages : ℕ} (hn : 5 ≤ numStages) (sign : ℕ → K) (s : K)
    (x : ℕ → K) (t : ℕ) : tgForwardFwhtScalar numStages sign s x t =
      hadamard numStages (fun t => x t * sign t) t * s := by
  have hshuffle : (List.range 5).foldl (fun x stage => fun t =>
      butterflyOf t (1 <<< stage) (x t) (simdShuffleXor x (1 <<< stage) t))
        (fun t => x t * sign t) = hadamard 5 fun t => x t * sign t := by
    rw [← foldl_butterfly_range]
    refine List.foldl_ext _ _ _ fun x m hm => ?_
    rw [List.mem_range] at hm
    funext t
    rw [simdShuffleXor_eq x hm, butterflyOf_eq]
  have hmemory : (fun (buf : ℕ → K) (stage : ℕ) => fun t =>
      butterflyOf t (1 <<< stage) (buf t) (buf (t ^^^ 1 <<< stage))) =
        fun buf m => butterfly m buf := by
    funext buf m t
    exact butterflyOf_eq buf t m
  unfold tgForwardFwhtScalar
  simp only
  rw [hshuffle, hmemory, foldl_butterfly_range', Nat.add_sub_cancel' hn]

/-! ### Inverse -/

omit [CommRing K] in
/-- **A loop over the registers** writes each of them once, whenever an entry reads its own column
only. -/
theorem forRegs_eq {entry : Regs K → ℕ → ℕ → K}
    (hentry : ∀ vals vals' : Regs K, ∀ lane e, (∀ lane', vals lane' e = vals' lane' e) →
      entry vals lane e = entry vals' lane e)
    (elemsPerLane : ℕ) (vals : Regs K) (lane e' : ℕ) : forRegs elemsPerLane entry vals lane e' =
      if e' < elemsPerLane then entry vals lane e' else vals lane e' := by
  induction elemsPerLane generalizing lane e' with
  | zero => simp [forRegs]
  | succ E ih =>
    have hstep : forRegs (E + 1) entry vals lane e' =
        if e' = E then entry (forRegs E entry vals) lane E else forRegs E entry vals lane e' := by
      rw [forRegs, List.range_succ, List.foldl_append]
      rfl
    rw [hstep, ih]
    by_cases he : e' = E
    · -- the columns before are written, this one is not
      subst he
      rw [if_pos rfl, if_pos (by omega)]
      exact hentry _ _ lane e' fun lane' => by rw [ih, if_neg (by omega)]
    · rw [if_neg he]
      by_cases hlt : e' < E
      · rw [if_pos hlt, if_pos (by omega)]
      · rw [if_neg hlt, if_neg (by omega)]

/-- The registers of the lanes hold the vector. -/
def Holds (elemsPerLane : ℕ) (vals : Regs K) (v : ℕ → K) : Prop :=
  ∀ lane < 32, ∀ e < elemsPerLane, vals lane e = v (regIdx lane e)

omit [CommRing K] in
theorem holds_storeRegs (elemsPerLane : ℕ) (vals : Regs K) :
    Holds elemsPerLane vals (storeRegs vals) := by
  intro lane hlane e _
  rw [storeRegs, (regIdx_mod_div hlane e).1, (regIdx_mod_div hlane e).2]

/-- A stage across the lanes. -/
theorem Holds.shuffleStage {elemsPerLane m : ℕ} (hm : m < 5) {vals : Regs K} {v : ℕ → K}
    (h : Holds elemsPerLane vals v) :
    Holds elemsPerLane (shuffleStage elemsPerLane m vals) (butterfly m v) := by
  intro lane hlane e he
  have hpartner : lane ^^^ 1 <<< m < 32 := by
    rw [Nat.one_shiftLeft]
    exact xor_two_pow_lt (n := 5) hlane hm
  rw [TurboQuant.shuffleStage, forRegs_eq, if_pos he, h lane hlane e he, h _ hpartner e he,
    regIdx_xor_of_lt hlane hm, butterflyOf_eq]
  intro vals vals' lane e hcolumn
  rw [hcolumn, hcolumn]

/-- A stage within the lanes. -/
theorem Holds.intraStage {numStages m : ℕ} (hm : 5 ≤ m) (hlt : m < numStages) {vals : Regs K}
    {v : ℕ → K} (h : Holds (2 ^ numStages / 32) vals v) :
    Holds (2 ^ numStages / 32) (intraStage (2 ^ numStages / 32) m vals) (butterfly m v) := by
  intro lane hlane e he
  have hdvd : 2 ^ numStages / 32 * 32 = 2 ^ numStages :=
    Nat.div_mul_cancel (pow_dvd_pow 2 (show 5 ≤ numStages by omega))
  have hpartner := regIdx_partner hlane hm e
  have hbound : ((regIdx lane e ^^^ 1 <<< m) - lane) / 32 < 2 ^ numStages / 32 := by
    have hidx : regIdx lane e < 2 ^ numStages := by
      unfold regIdx
      omega
    have hxor := xor_two_pow_lt hidx hlt
    rw [Nat.one_shiftLeft]
    omega
  rw [TurboQuant.intraStage, forRegs_eq fun _ _ _ _ _ => rfl, if_pos he,
    forRegs_eq fun _ _ _ _ _ => rfl, if_pos he]
  -- the reads are of the registers before the stage, not of the results
  simp only
  rw [h lane hlane e he, h lane hlane _ hbound, hpartner, butterflyOf_eq]

/-- The stages of a loop. -/
theorem Holds.foldl {elemsPerLane : ℕ} (stage : ℕ → Regs K → Regs K) (stages : List ℕ)
    (hstage : ∀ m ∈ stages, ∀ vals v, Holds elemsPerLane vals v →
      Holds elemsPerLane (stage m vals) (butterfly m v)) {vals : Regs K} {v : ℕ → K}
    (h : Holds elemsPerLane vals v) :
    Holds elemsPerLane (stages.foldl (fun vals m => stage m vals) vals)
      (stages.foldl (fun v m => butterfly m v) v) := by
  induction stages generalizing vals v with
  | nil => exact h
  | cons m stages ih =>
    rw [List.foldl_cons, List.foldl_cons]
    exact ih (fun m' hm' => hstage m' (List.mem_cons_of_mem m hm'))
      (hstage m List.mem_cons_self vals v h)

/-- **The decoder computes the transform, and then the signs.** -/
theorem inverseFwhtInPlace_eq {numStages : ℕ} (hn : 5 ≤ numStages) (sign : ℕ → K) (s : K)
    {vals : Regs K} {v : ℕ → K} (h : Holds (2 ^ numStages / 32) vals v) :
    Holds (2 ^ numStages / 32)
      (inverseFwhtInPlace numStages (2 ^ numStages / 32) sign s vals)
      fun idx => hadamard numStages v idx * (s * sign idx) := by
  have hacross := Holds.foldl (shuffleStage (2 ^ numStages / 32)) (List.range 5)
    (fun m hm vals v h => h.shuffleStage (List.mem_range.1 hm)) h
  have hwithin := Holds.foldl (intraStage (2 ^ numStages / 32)) (List.range' 5 (numStages - 5))
    (fun m hm vals v h => by
      obtain ⟨hle, hlt⟩ := List.mem_range'_1.1 hm
      exact h.intraStage hle (by omega)) hacross
  rw [foldl_butterfly_range, foldl_butterfly_range', Nat.add_sub_cancel' hn] at hwithin
  intro lane hlane e he
  rw [inverseFwhtInPlace, forRegs_eq, if_pos he, hwithin lane hlane e he]
  intro vals vals' lane e hcolumn
  rw [hcolumn]

/-- The inverse of what an output stores, at an index. -/
theorem storeRegs_inverse {numStages : ℕ} (hn : 5 ≤ numStages) (sign : ℕ → K) (s : K)
    (vals : Regs K) {d : ℕ} (hd : d < 2 ^ numStages) :
    storeRegs (inverseFwhtInPlace numStages (2 ^ numStages / 32) sign s vals) d =
      hadamard numStages (storeRegs vals) d * (s * sign d) := by
  have hdvd : 2 ^ numStages / 32 * 32 = 2 ^ numStages :=
    Nat.div_mul_cancel (pow_dvd_pow 2 hn)
  have := inverseFwhtInPlace_eq hn sign s (holds_storeRegs _ vals) (d % 32)
    (Nat.mod_lt _ (by omega)) (d / 32) (by omega)
  rw [storeRegs, this, regIdx_of_mod_div]

/-! ### Round trip -/

omit [CommRing K] in
@[simp] theorem storeRegs_loadRegs (v : ℕ → K) : storeRegs (loadRegs v) = v := by
  funext d
  rw [storeRegs, loadRegs, regIdx_of_mod_div]

/-- **The decoder undoes the encoder.** -/
theorem inverse_tgForwardFwhtScalar {numStages : ℕ} (hn : 5 ≤ numStages) {sign : ℕ → K}
    (hsign : ∀ i < 2 ^ numStages, sign i = 1 ∨ sign i = -1) {s : K}
    (hs : s * s * 2 ^ numStages = 1) (x : ℕ → K) {d : ℕ} (hd : d < 2 ^ numStages) :
    storeRegs (inverseFwhtInPlace numStages (2 ^ numStages / 32) sign s
      (loadRegs (tgForwardFwhtScalar numStages sign s x))) d = x d := by
  have hforward : tgForwardFwhtScalar numStages sign s x =
      s • hadamard numStages fun t => x t * sign t := by
    funext t
    rw [tgForwardFwhtScalar_eq hn, Pi.smul_apply, smul_eq_mul, mul_comm]
  have hsquare : sign d * sign d = 1 := by
    rcases hsign d hd with h | h <;> simp [h]
  rw [storeRegs_inverse hn sign s _ hd, storeRegs_loadRegs, hforward, map_smul, hadamard_hadamard,
    Pi.smul_apply, Pi.smul_apply, smul_eq_mul, smul_eq_mul]
  calc s * (2 ^ numStages * (x d * sign d)) * (s * sign d)
      = s * s * 2 ^ numStages * x d * (sign d * sign d) := by ring
    _ = x d := by rw [hs, hsquare, one_mul, mul_one]

/-! ### Weighted sums -/

/-- The sum of vectors under their weights. -/
def weightedSum (terms : List (K × (ℕ → K))) : ℕ → K := (terms.map fun term => term.1 • term.2).sum

/-- A correction of the weights. -/
def scaleTerms (a : K) (terms : List (K × (ℕ → K))) : List (K × (ℕ → K)) :=
  terms.map fun term => (term.1 * a, term.2)

/-- The vectors of a warp, under the weights that its corrections leave. -/
def warpTerms (blocks : List (VBlock K)) : List (K × (ℕ → K)) :=
  blocks.foldl (fun terms block => scaleTerms block.oldCorrection terms ++ block.tokens) []

/-- The vectors of the warps that are merged. -/
def mergedTerms (tg : Threadgroup K) : List (K × (ℕ → K)) :=
  scaleTerms tg.sinkCorr (tg.others.foldl (fun terms other =>
    scaleTerms other.myCorr terms ++ scaleTerms other.otherCorr (warpTerms other.blocks))
    (warpTerms tg.blocks))

/-- The vectors of a threadgroup. -/
def threadgroupTerms (tg : Threadgroup K) : List (K × (ℕ → K)) :=
  scaleTerms tg.invL (mergedTerms tg)

/-- The vectors of the partitions. -/
def reduceTerms (useSinks : Bool) (partitions : List (Threadgroup K × K)) (invGlobalExpSum : K) :
    List (K × (ℕ → K)) :=
  if partitions.length = 1 ∧ useSinks = false then
    partitions.flatMap fun partition => threadgroupTerms partition.1
  else
    partitions.flatMap fun partition =>
      scaleTerms (partition.2 * invGlobalExpSum) (threadgroupTerms partition.1)

/-- The vectors that a threadgroup reads: those of warp 0, then those of the others. -/
def Threadgroup.vectors (tg : Threadgroup K) : List (ℕ → K) :=
  (tg.blocks ++ tg.others.flatMap OtherWarp.blocks).flatMap fun block => block.tokens.map Prod.snd

@[simp] theorem weightedSum_nil : weightedSum ([] : List (K × (ℕ → K))) = 0 := rfl

theorem weightedSum_append (terms terms' : List (K × (ℕ → K))) :
    weightedSum (terms ++ terms') = weightedSum terms + weightedSum terms' := by
  simp [weightedSum]

theorem weightedSum_cons (term : K × (ℕ → K)) (terms : List (K × (ℕ → K))) :
    weightedSum (term :: terms) = term.1 • term.2 + weightedSum terms := by
  simp [weightedSum]

theorem weightedSum_scaleTerms (a : K) (terms : List (K × (ℕ → K))) :
    weightedSum (scaleTerms a terms) = fun d => weightedSum terms d * a := by
  induction terms with
  | nil => simp [scaleTerms]; rfl
  | cons term terms ih =>
    have hcons : scaleTerms a (term :: terms) = (term.1 * a, term.2) :: scaleTerms a terms := rfl
    rw [hcons, weightedSum_cons, weightedSum_cons, ih]
    funext d
    simp only [Pi.add_apply, Pi.smul_apply, smul_eq_mul]
    ring

@[simp] theorem map_snd_scaleTerms (a : K) (terms : List (K × (ℕ → K))) :
    (scaleTerms a terms).map Prod.snd = terms.map Prod.snd := by
  simp [scaleTerms, Function.comp_def]

/-- The transform of a weighted sum. -/
theorem hadamard_weightedSum (n : ℕ) (terms : List (K × (ℕ → K))) :
    hadamard n (weightedSum terms) =
      weightedSum (terms.map fun term => (term.1, hadamard n term.2)) := by
  induction terms with
  | nil => exact map_zero _
  | cons term terms ih =>
    rw [weightedSum_cons, map_add, map_smul, ih, List.map_cons, weightedSum_cons]

/-- The vectors, each of them inverted on its own. -/
def invertTerms (numStages : ℕ) (sign : ℕ → K) (s : K) (terms : List (K × (ℕ → K))) :
    List (K × (ℕ → K)) :=
  terms.map fun term => (term.1, storeRegs
    (inverseFwhtInPlace numStages (2 ^ numStages / 32) sign s (loadRegs term.2)))

/-- **The inverse of a weighted sum** is the weighted sum of the inverses. -/
theorem storeRegs_inverse_weightedSum {numStages : ℕ} (hn : 5 ≤ numStages) (sign : ℕ → K) (s : K)
    {vals : Regs K} {terms : List (K × (ℕ → K))}
    (hvals : storeRegs vals = weightedSum terms) {d : ℕ}
    (hd : d < 2 ^ numStages) :
    storeRegs (inverseFwhtInPlace numStages (2 ^ numStages / 32) sign s vals) d =
      weightedSum (invertTerms numStages sign s terms) d := by
  rw [storeRegs_inverse hn sign s vals hd, hvals, hadamard_weightedSum, invertTerms]
  clear hvals
  induction terms with
  | nil => simp
  | cons term terms ih =>
    rw [List.map_cons, List.map_cons, weightedSum_cons, weightedSum_cons, Pi.add_apply,
      Pi.add_apply, ← ih, Pi.smul_apply, Pi.smul_apply]
    simp only [smul_eq_mul]
    rw [storeRegs_inverse hn sign s _ hd, storeRegs_loadRegs]
    ring

/-! ### The kernels -/

/-- What the tokens of a block add. -/
theorem storeRegs_foldl_tokens (tokens : List (K × (ℕ → K))) (vAccs : Regs K) :
    storeRegs (tokens.foldl (fun vAccs token => tqLoadAndAccumulateV vAccs token.1 token.2) vAccs) =
      storeRegs vAccs + weightedSum tokens := by
  induction tokens generalizing vAccs with
  | nil => simp
  | cons token tokens ih =>
    have hstep : storeRegs (tqLoadAndAccumulateV vAccs token.1 token.2) =
        storeRegs vAccs + token.1 • token.2 := by
      funext d
      simp [storeRegs, tqLoadAndAccumulateV, loadRegs, regIdx_of_mod_div]
    rw [List.foldl_cons, ih, hstep, weightedSum_cons, add_assoc]

/-- What a warp accumulates. -/
theorem storeRegs_warpAccumulate (blocks : List (VBlock K)) :
    storeRegs (warpAccumulate blocks) = weightedSum (warpTerms blocks) := by
  have hgen : ∀ (vAccs : Regs K) (terms : List (K × (ℕ → K))), storeRegs vAccs = weightedSum terms →
      storeRegs (blocks.foldl (fun vAccs block =>
        block.tokens.foldl (fun vAccs token => tqLoadAndAccumulateV vAccs token.1 token.2)
          fun lane i => vAccs lane i * block.oldCorrection) vAccs) =
      weightedSum (blocks.foldl
        (fun terms block => scaleTerms block.oldCorrection terms ++ block.tokens) terms) := by
    induction blocks with
    | nil => exact fun vAccs terms h => h
    | cons block blocks ih =>
      intro vAccs terms h
      rw [List.foldl_cons, List.foldl_cons]
      refine ih _ _ ?_
      have hscaled : (storeRegs fun lane i => vAccs lane i * block.oldCorrection) =
          weightedSum (scaleTerms block.oldCorrection terms) := by
        rw [weightedSum_scaleTerms, ← h]
        rfl
      rw [storeRegs_foldl_tokens, hscaled, weightedSum_append]
  exact hgen _ [] rfl

/-- What the merge leaves in warp 0. -/
theorem storeRegs_mergeWarps (tg : Threadgroup K) :
    storeRegs (mergeWarps tg) = weightedSum (mergedTerms tg) := by
  have hgen : ∀ (others : List (OtherWarp K)) (vAccs : Regs K) (terms : List (K × (ℕ → K))),
      storeRegs vAccs = weightedSum terms →
      storeRegs (others.foldl (fun vAccs other => fun lane j =>
        vAccs lane j * other.myCorr +
          storeRegs (warpAccumulate other.blocks) (regIdx lane j) * other.otherCorr) vAccs) =
      weightedSum (others.foldl (fun terms other =>
        scaleTerms other.myCorr terms ++ scaleTerms other.otherCorr (warpTerms other.blocks))
        terms) := by
    intro others
    induction others with
    | nil => exact fun vAccs terms h => h
    | cons other others ih =>
      intro vAccs terms h
      rw [List.foldl_cons, List.foldl_cons]
      refine ih _ _ ?_
      rw [weightedSum_append, weightedSum_scaleTerms, weightedSum_scaleTerms,
        ← storeRegs_warpAccumulate, ← h]
      funext d
      simp only [Pi.add_apply]
      rw [storeRegs, regIdx_of_mod_div]
      rfl
  have hothers := hgen tg.others _ _ (storeRegs_warpAccumulate tg.blocks)
  rw [mergedTerms, weightedSum_scaleTerms, ← hothers]
  rfl

/-- What a partition leaves for the reducer. -/
theorem tmpOut_eq (tg : Threadgroup K) : tmpOut tg = weightedSum (threadgroupTerms tg) := by
  rw [threadgroupTerms, weightedSum_scaleTerms, ← storeRegs_mergeWarps]
  rfl

/-- What the reducer merges. -/
theorem foldl_tmpOut (partitions : List (Threadgroup K × K)) (invGlobalExpSum : K) :
    (fun i => partitions.foldl (fun acc partition =>
      acc + tmpOut partition.1 i * partition.2 * invGlobalExpSum) 0) =
    weightedSum (partitions.flatMap fun partition =>
      scaleTerms (partition.2 * invGlobalExpSum) (threadgroupTerms partition.1)) := by
  funext i
  rw [← List.foldl_map (f := fun partition : Threadgroup K × K =>
    tmpOut partition.1 i * partition.2 * invGlobalExpSum) (g := fun acc a => acc + a),
    ← List.sum_eq_foldl]
  induction partitions with
  | nil => rfl
  | cons partition partitions ih =>
    rw [List.map_cons, List.sum_cons, ih, List.flatMap_cons, weightedSum_append, Pi.add_apply,
      weightedSum_scaleTerms, tmpOut_eq, mul_assoc]

theorem map_snd_warpTerms (blocks : List (VBlock K)) :
    (warpTerms blocks).map Prod.snd = blocks.flatMap fun block => block.tokens.map Prod.snd := by
  have hgen : ∀ terms : List (K × (ℕ → K)),
      (blocks.foldl (fun terms block => scaleTerms block.oldCorrection terms ++ block.tokens)
        terms).map Prod.snd = terms.map Prod.snd ++
          blocks.flatMap fun block => block.tokens.map Prod.snd := by
    induction blocks with
    | nil => simp
    | cons block blocks ih => intro terms; simp [ih]
  exact hgen []

/-- The corrections keep the vectors. -/
theorem map_snd_threadgroupTerms (tg : Threadgroup K) :
    (threadgroupTerms tg).map Prod.snd = tg.vectors := by
  have hgen : ∀ (others : List (OtherWarp K)) (terms : List (K × (ℕ → K))),
      (others.foldl (fun terms other => scaleTerms other.myCorr terms ++
        scaleTerms other.otherCorr (warpTerms other.blocks)) terms).map Prod.snd =
        terms.map Prod.snd ++ (others.flatMap OtherWarp.blocks).flatMap
          fun block => block.tokens.map Prod.snd := by
    intro others
    induction others with
    | nil => simp
    | cons other others ih => intro terms; simp [ih, map_snd_warpTerms]
  simp [threadgroupTerms, mergedTerms, hgen, map_snd_warpTerms, Threadgroup.vectors]

/-- **Deferring the inverse is exact.**  The inverse undoes the encoder on every vector.  Taken
once, of what a loop accumulates, of what a threadgroup merges or of what the reducer merges, it is
the weighted sum of the vectors inverted one by one. -/
theorem deferred_inverse_is_exact {numStages : ℕ} (hn : 6 ≤ numStages) {sign : ℕ → K}
    (hsign : ∀ i < 2 ^ numStages, sign i = 1 ∨ sign i = -1) {s : K}
    (hs : s * s * 2 ^ numStages = 1) :
    (∀ (x : ℕ → K), ∀ lane < 32, ∀ e < 2 ^ numStages / 32,
      inverseFwhtInPlace numStages (2 ^ numStages / 32) sign s
        (loadRegs (tgForwardFwhtScalar numStages sign s x)) lane e = x (lane + e * 32)) ∧
    (∀ (terms : List (K × (ℕ → K))), ∀ d < 2 ^ numStages,
      storeRegs (inverseFwhtInPlace numStages (2 ^ numStages / 32) sign s (terms.foldl
        (fun vAccs term => tqLoadAndAccumulateV vAccs term.1 term.2) fun _ _ => 0)) d =
      weightedSum (invertTerms numStages sign s terms) d) ∧
    (∀ (tg : Threadgroup K), (threadgroupTerms tg).map Prod.snd = tg.vectors ∧
      ∀ d < 2 ^ numStages,
        pagedAttentionOut numStages (2 ^ numStages / 32) sign s tg d =
          weightedSum (invertTerms numStages sign s (threadgroupTerms tg)) d) ∧
    (∀ (useSinks : Bool) (partitions : List (Threadgroup K × K)) (invGlobalExpSum : K),
      (reduceTerms useSinks partitions invGlobalExpSum).map Prod.snd =
        partitions.flatMap (fun partition => partition.1.vectors) ∧
      ∀ d < 2 ^ numStages,
        reduceOut numStages (2 ^ numStages / 32) sign s useSinks partitions invGlobalExpSum d =
          weightedSum (invertTerms numStages sign s
            (reduceTerms useSinks partitions invGlobalExpSum)) d) := by
  have hn5 : 5 ≤ numStages := by omega
  have hdvd : 2 ^ numStages / 32 * 32 = 2 ^ numStages :=
    Nat.div_mul_cancel (pow_dvd_pow 2 hn5)
  refine ⟨?_, ?_, ?_, ?_⟩
  -- the inverse undoes the encoder
  · intro x lane hlane e he
    have hround := inverse_tgForwardFwhtScalar hn5 hsign hs x
      (show regIdx lane e < 2 ^ numStages by unfold regIdx; omega)
    rwa [storeRegs, (regIdx_mod_div hlane e).1, (regIdx_mod_div hlane e).2] at hround
  -- it is linear, so it may be taken of the sum
  · intro terms d hd
    refine storeRegs_inverse_weightedSum hn5 sign s ?_ hd
    rw [storeRegs_foldl_tokens]
    exact zero_add _
  -- a threadgroup: over the warps, and then the scale
  · intro tg
    refine ⟨map_snd_threadgroupTerms tg, fun d hd => ?_⟩
    have hinverse := storeRegs_inverse_weightedSum hn5 sign s (storeRegs_mergeWarps tg) hd
    have hout : pagedAttentionOut numStages (2 ^ numStages / 32) sign s tg d =
        storeRegs (inverseFwhtInPlace numStages (2 ^ numStages / 32) sign s (mergeWarps tg)) d *
          tg.invL := rfl
    rw [hout, hinverse, threadgroupTerms]
    -- the scale of the threadgroup commutes with the inverse
    have hcomm : invertTerms numStages sign s (scaleTerms tg.invL (mergedTerms tg)) =
        scaleTerms tg.invL (invertTerms numStages sign s (mergedTerms tg)) := by
      simp [invertTerms, scaleTerms, Function.comp_def]
    rw [hcomm, weightedSum_scaleTerms]
  -- the reduction: one partition is passed on, several are merged
  · intro useSinks partitions invGlobalExpSum
    unfold reduceTerms reduceOut
    by_cases hone : partitions.length = 1 ∧ useSinks = false
    · obtain ⟨partition, rfl⟩ := List.length_eq_one_iff.1 hone.1
      rw [if_pos hone, if_pos hone]
      refine ⟨by simp [map_snd_threadgroupTerms], fun d hd => ?_⟩
      refine storeRegs_inverse_weightedSum hn5 sign s ?_ hd
      rw [storeRegs_loadRegs]
      simp [tmpOut_eq]
    · rw [if_neg hone, if_neg hone]
      refine ⟨by simp [List.map_flatMap, map_snd_threadgroupTerms], fun d hd => ?_⟩
      refine storeRegs_inverse_weightedSum hn5 sign s ?_ hd
      rw [storeRegs_loadRegs, foldl_tmpOut]

/-- Two warps, and then two partitions without sinks. -/
theorem deferred_inverse_is_exact_alternating :
    let sign : ℕ → ℚ := fun i => if i % 2 = 0 then 1 else -1
    let x : ℕ → ℚ := fun i => i * i - 7 * i
    let tg : Threadgroup ℚ :=
      { blocks := [⟨1, [(1 / 2, x), (3, sign)]⟩, ⟨1 / 4, [(1, x)]⟩]
        others := [⟨1 / 2, 1, [⟨1, [(5, sign)]⟩]⟩]
        sinkCorr := 1
        invL := 1 / 9 }
    storeRegs
      (inverseFwhtInPlace 6 2 sign (1 / 8) (loadRegs (tgForwardFwhtScalar 6 sign (1 / 8) x)))
        37 = x 37 ∧
      pagedAttentionOut 6 2 sign (1 / 8) tg 37 =
        weightedSum (invertTerms 6 sign (1 / 8) (threadgroupTerms tg)) 37 ∧
      reduceOut 6 2 sign (1 / 8) false [(tg, 2), (tg, 1)] (1 / 3) 37 =
        weightedSum
          (invertTerms 6 sign (1 / 8) (reduceTerms false [(tg, 2), (tg, 1)] (1 / 3))) 37 := by
  intro sign x tg
  have hsign : ∀ i < 2 ^ 6, sign i = 1 ∨ sign i = -1 := by
    intro i _
    by_cases hi : i % 2 = 0
    · exact Or.inl (if_pos hi)
    · exact Or.inr (if_neg hi)
  obtain ⟨hround, -, htg, hreduce⟩ :=
    deferred_inverse_is_exact (le_refl 6) hsign (s := 1 / 8) (by norm_num)
  exact ⟨hround x 5 (by decide) 1 (by decide), (htg tg).2 37 (by decide),
    (hreduce false [(tg, 2), (tg, 1)] (1 / 3)).2 37 (by decide)⟩

end TurboQuant
end VllmMetal
