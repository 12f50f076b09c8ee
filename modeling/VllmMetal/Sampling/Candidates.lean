import VllmMetal.Lib.Descending
import Mathlib.Algebra.Order.Field.Basic
import Mathlib.Algebra.BigOperators.Group.Multiset.Defs
import Mathlib.Data.Fintype.Basic
import Mathlib.Data.Fintype.Fin
import Mathlib.Order.WithBot

/-!
# The candidate set of native sampling

`SamplingBatch._sorted_candidate_logits` sorts every row of a batch and masks what top-k, min-p and
top-p take away, each stage for the whole batch as soon as one of its rows asks for it.  Beside it
stand the stages one after the other as vLLM's processors have them: min-p, top-k, top-p, on the
logits that are left.

A masked logit is `⊥`, whose exponential is zero.  The exponential is a parameter, so that the
definitions can be evaluated; the results are about the real one.

## Main definitions

* `maskTopK`, `maskMinP`, `maskTopP`, `sortedCandidateLogits` — the batch.
* `minPKept`, `topKKept`, `topPKept`, `processors` — the stages on what is left of a row.
-/

namespace VllmMetal
namespace Sampling

variable {K : Type*} [Field K] [LinearOrder K] (exp : K → K)

/-! ### The batch -/

/-- The exponential of a logit that may be masked. -/
def maskedExp (x : WithBot K) : K := x.recBotCoe 0 exp

omit [LinearOrder K] in
@[simp] theorem maskedExp_bot : maskedExp exp ⊥ = 0 := rfl

omit [LinearOrder K] in
@[simp] theorem maskedExp_coe (x : K) : maskedExp exp (x : WithBot K) = exp x := rfl

/-- `mx.softmax` on a row. -/
def softmax (row : List (WithBot K)) : List K :=
  row.map fun x => maskedExp exp x / (row.map (maskedExp exp)).sum

/-- `mx.cumsum` on a row. -/
def cumsum (row : List K) : List K := (List.range row.length).map fun i => (row.take (i + 1)).sum

/-- `mx.argsort`, in reverse. -/
def argsortDesc {vocabSize : ℕ} (row : Fin vocabSize → K) : List (Fin vocabSize) :=
  ((List.finRange vocabSize).mergeSort fun a b => row a ≤ row b).reverse

/-- Top-k: a value threshold, so that ties at the boundary survive. -/
def maskTopK (row : List (WithBot K)) (effectiveK : ℕ) : List (WithBot K) :=
  let kthValue := row.getD (effectiveK - 1) ⊥
  row.map fun x => if x < kthValue then ⊥ else x

/-- Min-p on the sorted row. -/
def maskMinP (row : List (WithBot K)) (minP : K) : List (WithBot K) :=
  let sortedProbs := softmax exp row
  List.zipWith (fun p x => if minP * sortedProbs.headD 0 ≤ p then x else ⊥) sortedProbs row

/-- Top-p on the sorted row, by the mass that leads to each position. -/
def maskTopP (row : List (WithBot K)) (topP : K) : List (WithBot K) :=
  let sortedProbs := softmax exp row
  let leadingMass := List.zipWith (· - ·) (cumsum sortedProbs) sortedProbs
  List.zipWith (fun mass x => if mass < topP then x else ⊥) leadingMass row

/-- `_sorted_candidate_logits`: the sorted rows, masked, and the vocabulary ids at their
positions. -/
def sortedCandidateLogits {vocabSize : ℕ} (scaledLogits : List (Fin vocabSize → K)) (topK : List ℤ)
    (topP minP : List K) : List (List (WithBot K)) × List (List (Fin vocabSize)) :=
  let effectiveK := topK.map fun (k : ℤ) =>
    if 0 < k ∧ k < (vocabSize : ℤ) then k.toNat else vocabSize
  let sortedIdx := scaledLogits.map argsortDesc
  let sortedDesc := List.zipWith (fun row idx => idx.map fun t => (row t : WithBot K)) scaledLogits
    sortedIdx
  let sortedDesc := if effectiveK.any (· < vocabSize) then
    List.zipWith maskTopK sortedDesc effectiveK else sortedDesc
  let sortedDesc := if minP.any (0 < ·) then List.zipWith (maskMinP exp) sortedDesc minP
    else sortedDesc
  let sortedDesc := if topP.any (· < 1) then List.zipWith (maskTopP exp) sortedDesc topP
    else sortedDesc
  (sortedDesc, sortedIdx)

/-- The sampling parameters of a row that the candidates depend on. -/
structure DrawParams (K : Type*) where
  temperature : K
  topK : ℤ
  topP : K
  minP : K

/-- The parameters `_native_random_tokens` masks a row with: a greedy row rides along as a top-1
candidate set at unit temperature. -/
def DrawParams.drawn (greedyTemperatureEps : K) (sp : DrawParams K) : DrawParams K :=
  if sp.temperature < greedyTemperatureEps then ⟨1, 1, 1, 0⟩ else sp

/-- `_native_random_tokens`, up to the draw. -/
def nativeCandidates {vocabSize : ℕ} (greedyTemperatureEps : K) (logits : List (Fin vocabSize → K))
    (params : List (DrawParams K)) : List (List (WithBot K)) × List (List (Fin vocabSize)) :=
  let drawn := params.map (DrawParams.drawn greedyTemperatureEps)
  let scaled := List.zipWith (fun row sp t => row t / sp.temperature) logits drawn
  sortedCandidateLogits exp scaled (drawn.map DrawParams.topK) (drawn.map DrawParams.topP)
    (drawn.map DrawParams.minP)

/-- The logits of a row that are not masked. -/
def candidates (row : List (WithBot K)) : Multiset K :=
  ↑(row.filterMap fun x => x.recBotCoe none some)

/-! ### The stages one after the other -/

/-- The probability of a logit among those that are left. -/
def prob (left : Multiset K) (x : K) : K := exp x / (left.map exp).sum

/-- Min-p: what has at least `minP` times the greatest probability. -/
def minPKept (minP : K) (left : Multiset K) : Multiset K :=
  left.filter fun x => ∀ y ∈ left, minP * prob exp left y ≤ prob exp left x

/-- Top-k by value: every logit that is at least the `k`-th largest. -/
def topKKept (k : ℕ) (left : Multiset K) : Multiset K :=
  match (left.sort (· ≥ ·))[k - 1]? with
  | some kthValue => left.filter fun x => kthValue ≤ x
  | none => left

/-- Top-p: the first part of the descending order whose preceding mass is below `topP`. -/
def topPKept (topP : K) (left : Multiset K) : Multiset K :=
  let descending := left.sort (· ≥ ·)
  ↑((descending.zipIdx.filter fun p =>
    ((descending.take p.2).map (prob exp left)).sum < topP).map Prod.fst)

/-- Min-p, then top-k, then top-p; top-k is off outside `0 < k < vocabSize`. -/
def processors (vocabSize : ℕ) (k : ℤ) (topP minP : K) (row : Multiset K) : Multiset K :=
  let left := minPKept exp minP row
  let left := if 0 < k ∧ k < (vocabSize : ℤ) then topKKept k.toNat left else left
  topPKept exp topP left

end Sampling
end VllmMetal
