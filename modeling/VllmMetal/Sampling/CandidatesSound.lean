import VllmMetal.Sampling.Candidates
import Mathlib.Algebra.Order.BigOperators.Group.List
import Mathlib.Algebra.BigOperators.Ring.List
import Mathlib.Data.List.GetD
import Mathlib.Analysis.SpecialFunctions.Exp

/-!
# The candidate set is the one the processors leave

On a sorted row top-k and min-p mask by value, and what they leave is a first part of the row.  The
min-p threshold compares two probabilities of one row, so that renormalizing does not move it, and
the `k`-th value is the same before and after min-p where min-p leaves so many.  Top-p then cuts the
same first part at the same place.

A stage that another row of the batch switches on does nothing to a row that does not ask for it.

## Main results

* `candidateRow` — what becomes of a row, without its batch.
* `candidates_candidateRow` — the row's candidates are those of the processors.
* `getElem?_sortedCandidateLogits` — each row of a batch becomes what it becomes alone.
* `sorted_candidates_eq_processors` — both, for the real exponential.
-/

namespace VllmMetal
namespace Sampling

section Row

variable {K : Type*} [Field K] [LinearOrder K]

/-- A sorted row with what does not satisfy a property masked. -/
def maskUnless (q : K → Prop) [DecidablePred q] (row : List K) : List (WithBot K) :=
  row.map fun x => if q x then (x : WithBot K) else ⊥

omit [Field K] [LinearOrder K] in
theorem maskUnless_congr {q q' : K → Prop} [DecidablePred q] [DecidablePred q'] {row : List K}
    (h : ∀ x ∈ row, q x ↔ q' x) : maskUnless q row = maskUnless q' row :=
  List.map_congr_left fun x hx => by simp only [h x hx]

/-- A first part of a row, with the rest masked. -/
def firstPart (kept : List K) (rest : ℕ) : List (WithBot K) :=
  kept.map (fun x : K => (x : WithBot K)) ++ List.replicate rest ⊥

omit [Field K] in
/-- What an upward closed property leaves of a sorted row is a first part. -/
theorem maskUnless_eq_firstPart {row : List K} (hrow : row.Pairwise (· ≥ ·)) {q : K → Prop}
    [DecidablePred q] (hq : UpwardClosed q) :
    maskUnless q row = firstPart (row.filter q) (row.length - (row.filter q).length) := by
  induction row with
  | nil => rfl
  | cons x row ih =>
    obtain ⟨hhead, htail⟩ := List.pairwise_cons.mp hrow
    by_cases hx : q x
    · rw [List.filter_cons_of_pos (by simpa using hx)]
      simp only [maskUnless, List.map_cons, if_pos hx, firstPart, List.length_cons,
        Nat.add_sub_add_right, List.cons_append, List.cons.injEq, true_and]
      exact ih htail
    · have hnone : ∀ y ∈ x :: row, ¬q y := by
        intro y hy hqy
        rcases List.mem_cons.mp hy with rfl | hy
        · exact hx hqy
        · exact hx (hq y x (hhead y hy) hqy)
      have hnil : (x :: row).filter q = [] := by
        rw [List.filter_eq_nil_iff]
        intro y hy
        simpa using hnone y hy
      rw [hnil, maskUnless, firstPart, List.map_nil, List.nil_append, List.length_nil,
        Nat.sub_zero]
      rw [List.eq_replicate_iff]
      refine ⟨List.length_map _, fun y hy => ?_⟩
      obtain ⟨z, hz, rfl⟩ := List.mem_map.mp hy
      exact if_neg (hnone z hz)

/-! ### Top-k -/

/-- The top-k threshold of a sorted row: none where top-k is off. -/
def topKThreshold (row : List K) (k : ℤ) : Option K :=
  if 0 < k ∧ k < (row.length : ℤ) then row[k.toNat - 1]? else none

/-- What top-k keeps. -/
def TopKKeeps (row : List K) (k : ℤ) (x : K) : Prop := ∀ v ∈ topKThreshold row k, v ≤ x

instance TopKKeeps.decidable (row : List K) (k : ℤ) : DecidablePred (TopKKeeps row k) := fun x =>
  inferInstanceAs (Decidable (∀ v ∈ topKThreshold row k, v ≤ x))

omit [Field K] in
theorem TopKKeeps.upwardClosed (row : List K) (k : ℤ) : UpwardClosed (TopKKeeps row k) :=
  fun _ _ hxy hx v hv => (hx v hv).trans hxy

omit [Field K] in
theorem TopKKeeps.head {x : K} {row : List K} (hrow : (x :: row).Pairwise (· ≥ ·)) (k : ℤ) :
    TopKKeeps (x :: row) k x := by
  intro v hv
  unfold topKThreshold at hv
  split_ifs at hv with hon
  · exact getElem?_le_of_descending hrow (Nat.zero_le _) rfl hv
  · cases hv

omit [Field K] in
/-- Top-k of the batch on a sorted row, for a row that asks for it and for one that does not. -/
theorem maskTopK_eq {row : List K} (hrow : row.Pairwise (· ≥ ·)) (k : ℤ) :
    maskTopK (row.map fun x : K => (x : WithBot K))
        (if 0 < k ∧ k < (row.length : ℤ) then k.toNat else row.length)
      = maskUnless (TopKKeeps row k) row := by
  unfold maskTopK
  rw [List.map_map]
  refine List.map_congr_left fun x hx => ?_
  have hpos : 0 < row.length := List.length_pos_of_mem hx
  split
  · next hon =>
    have hlt : k.toNat - 1 < row.length := by omega
    have hthreshold : topKThreshold row k = some row[k.toNat - 1] := by
      rw [topKThreshold, if_pos hon, List.getElem?_eq_getElem hlt]
    rw [List.getD_eq_getElem _ _ (by simpa using hlt), List.getElem_map]
    simp only [Function.comp_apply, WithBot.coe_lt_coe, TopKKeeps, hthreshold]
    by_cases hle : row[k.toNat - 1] ≤ x
    · rw [if_neg (not_lt.mpr hle), if_pos (by simpa using hle)]
    · rw [if_pos (not_le.mp hle), if_neg (by simpa using hle)]
  · next hoff =>
    -- the least value of the row is the threshold
    have hlt : row.length - 1 < row.length := by omega
    obtain ⟨i, hi⟩ := List.mem_iff_getElem?.mp hx
    have hle : row[row.length - 1] ≤ x := by
      have hilt := (List.getElem?_eq_some_iff.mp hi).1
      exact getElem?_le_of_descending hrow (Nat.le_sub_one_of_lt hilt) hi
        (List.getElem?_eq_getElem hlt)
    rw [List.getD_eq_getElem _ _ (by simpa using hlt), List.getElem_map]
    simp only [Function.comp_apply, WithBot.coe_lt_coe]
    rw [if_neg (not_lt.mpr hle), if_pos]
    intro v hv
    rw [topKThreshold, if_neg hoff] at hv
    cases hv

/-! ### Min-p -/

section Exp

variable {exp : K → K}

/-- What min-p keeps, by the greatest logit of the row. -/
def MinPKeeps (exp : K → K) (greatest minP x : K) : Prop := minP * exp greatest ≤ exp x

instance MinPKeeps.decidable (exp : K → K) (greatest minP : K) :
    DecidablePred (MinPKeeps exp greatest minP) := fun x =>
  inferInstanceAs (Decidable (minP * exp greatest ≤ exp x))

theorem MinPKeeps.upwardClosed (hmono : StrictMono exp) (greatest minP : K) :
    UpwardClosed (MinPKeeps exp greatest minP) :=
  fun _ _ hxy hx => le_trans hx (hmono.monotone hxy)

omit [LinearOrder K] in
/-- The mass of a masked row is that of what is left. -/
theorem sum_maskUnless (q : K → Prop) [DecidablePred q] (row : List K) :
    ((maskUnless q row).map (maskedExp exp)).sum = ((row.filter q).map exp).sum := by
  induction row with
  | nil => rfl
  | cons x row ih =>
    rw [maskUnless, List.map_cons, List.map_cons, List.sum_cons]
    by_cases hx : q x
    · rw [if_pos hx, List.filter_cons_of_pos (by simpa using hx), List.map_cons, List.sum_cons,
        maskedExp_coe]
      exact congrArg (exp x + ·) ih
    · rw [if_neg hx, List.filter_cons_of_neg (by simpa using hx), maskedExp_bot, zero_add]
      exact ih

variable [IsStrictOrderedRing K]

theorem sum_exp_pos (hexp : ∀ x, 0 < exp x) {row : List K} (hne : row ≠ []) :
    0 < (row.map exp).sum := by
  cases row with
  | nil => exact absurd rfl hne
  | cons x row =>
    rw [List.map_cons, List.sum_cons]
    refine add_pos_of_pos_of_nonneg (hexp x) (List.sum_nonneg fun y hy => ?_)
    obtain ⟨z, -, rfl⟩ := List.mem_map.mp hy
    exact (hexp z).le

/-- **Min-p on a sorted row** whose greatest logit is left: the mass of what is left cancels. -/
theorem maskMinP_eq (hexp : ∀ x, 0 < exp x) {x : K} {row : List K} {q : K → Prop} [DecidablePred q]
    (hhead : q x) (minP : K) :
    maskMinP exp (maskUnless q (x :: row)) minP
      = maskUnless (fun y => q y ∧ MinPKeeps exp x minP y) (x :: row) := by
  set total := (((x :: row).filter q).map exp).sum with htotal
  have hpos : 0 < total :=
    sum_exp_pos hexp (List.ne_nil_of_mem
      (List.mem_filter.mpr ⟨List.mem_cons_self, by simpa using hhead⟩))
  have hprobs : softmax exp (maskUnless q (x :: row))
      = (maskUnless q (x :: row)).map fun y => maskedExp exp y / total := by
    rw [softmax, sum_maskUnless]
  have hgreatest : (softmax exp (maskUnless q (x :: row))).headD 0 = exp x / total := by
    rw [hprobs, maskUnless, List.map_cons, List.map_cons, if_pos hhead]
    rfl
  unfold maskMinP
  dsimp only
  rw [hgreatest, hprobs, List.zipWith_map_left, List.zipWith_self]
  unfold maskUnless
  rw [List.map_map]
  refine List.map_congr_left fun y _ => ?_
  dsimp only [Function.comp_apply]
  by_cases hy : q y
  · rw [if_pos hy, maskedExp_coe, ← mul_div_assoc]
    refine if_congr ?_ rfl rfl
    rw [div_le_div_iff_of_pos_right hpos]
    exact (and_iff_right hy).symm
  · rw [if_neg hy, ite_self]
    exact (if_neg fun h => hy h.1).symm

/-! ### Top-p -/

/-- The mass that leads to a position of what is left. -/
def leadingMass (exp : K → K) (kept : List K) (i : ℕ) : K :=
  ((kept.take i).map fun x => exp x / (kept.map exp).sum).sum

/-- What top-p leaves of what is left. -/
def topPPart (exp : K → K) (topP : K) (kept : List K) : List (WithBot K) :=
  kept.zipIdx.map fun p => if leadingMass exp kept p.2 < topP then (p.1 : WithBot K) else ⊥

omit [LinearOrder K] [IsStrictOrderedRing K] in
theorem softmax_firstPart (kept : List K) (rest : ℕ) :
    softmax exp (firstPart kept rest)
      = kept.map (fun x => exp x / (kept.map exp).sum) ++ List.replicate rest 0 := by
  have htotal : ((firstPart kept rest).map (maskedExp exp)).sum = (kept.map exp).sum := by
    simp [firstPart, Function.comp_def]
  rw [softmax, htotal, firstPart, List.map_append, List.map_map, List.map_replicate,
    maskedExp_bot, zero_div]
  rfl

omit [LinearOrder K] [IsStrictOrderedRing K] in
/-- The mass before each position. -/
theorem zipWith_cumsum (probs : List K) :
    List.zipWith (· - ·) (cumsum probs) probs
      = (List.range probs.length).map fun i => (probs.take i).sum := by
  apply List.ext_getElem (by simp [cumsum])
  intro i hi hi'
  have hlt : i < probs.length := by simpa using hi'
  rw [List.getElem_zipWith, List.getElem_map, List.getElem_range]
  simp only [cumsum, List.getElem_map, List.getElem_range]
  rw [List.take_add_one, List.getElem?_eq_getElem hlt, List.sum_append]
  simp

omit [IsStrictOrderedRing K] in
/-- **Top-p on a first part.** -/
theorem maskTopP_eq (kept : List K) (rest : ℕ) (topP : K) :
    maskTopP exp (firstPart kept rest) topP
      = topPPart exp topP kept ++ List.replicate rest ⊥ := by
  unfold maskTopP
  dsimp only
  rw [zipWith_cumsum, softmax_firstPart]
  apply List.ext_getElem (by simp [topPPart, firstPart])
  intro i hi hi'
  have hlt : i < kept.length + rest := by simpa [topPPart] using hi'
  rw [List.getElem_zipWith, List.getElem_map, List.getElem_range]
  rcases Nat.lt_or_ge i kept.length with hkept | hrest
  · rw [List.getElem_append_left (by simpa [topPPart] using hkept)]
    simp only [firstPart, topPPart, List.getElem_map, List.getElem_zipIdx, Nat.zero_add]
    rw [List.getElem_append_left (by simpa using hkept), List.getElem_map,
      List.take_append_of_le_length (by simpa using hkept.le), ← List.map_take]
    rfl
  · rw [List.getElem_append_right (by simpa [topPPart] using hrest), List.getElem_replicate]
    simp only [firstPart]
    rw [List.getElem_append_right (by simpa using hrest), List.getElem_replicate]
    exact ite_self _

/-- Nothing leads to a position with the whole mass. -/
theorem leadingMass_lt_one (hexp : ∀ x, 0 < exp x) {kept : List K} {i : ℕ} (hi : i < kept.length) :
    leadingMass exp kept i < 1 := by
  have hne : kept ≠ [] := List.ne_nil_of_length_pos (by omega)
  have htotal := sum_exp_pos hexp hne
  have hsplit := congrArg List.sum (congrArg (List.map exp) (List.take_append_drop i kept))
  rw [List.map_append, List.sum_append] at hsplit
  have hdrop : 0 < ((kept.drop i).map exp).sum :=
    sum_exp_pos hexp (List.ne_nil_of_length_pos (by rw [List.length_drop]; omega))
  have hmass : leadingMass exp kept i = ((kept.take i).map exp).sum / (kept.map exp).sum := by
    unfold leadingMass
    simp only [div_eq_mul_inv]
    rw [List.sum_map_mul_right]
  rw [hmass, div_lt_one htotal]
  linarith

/-- Top-p that is off leaves a first part as it is. -/
theorem topPPart_one (hexp : ∀ x, 0 < exp x) (kept : List K) :
    topPPart exp 1 kept = kept.map fun x : K => (x : WithBot K) := by
  apply List.ext_getElem (by simp [topPPart])
  intro i hi hi'
  have hlt : i < kept.length := by simpa [topPPart] using hi
  simp only [topPPart, List.getElem_map, List.getElem_zipIdx, Nat.zero_add]
  exact if_pos (leadingMass_lt_one hexp hlt)

/-! ### A row without its batch -/

/-- What top-k and min-p leave of a sorted row. -/
def keptRow (exp : K → K) (row : List K) (k : ℤ) (minP : K) : List K :=
  row.filter fun x => TopKKeeps row k x ∧ MinPKeeps exp (row.headD 0) minP x

/-- **What becomes of a sorted row.** -/
def candidateRow (exp : K → K) (row : List K) (k : ℤ) (topP minP : K) : List (WithBot K) :=
  topPPart exp topP (keptRow exp row k minP)
    ++ List.replicate (row.length - (keptRow exp row k minP).length) ⊥

/-- The stages on a sorted row, each one switched on or off for its batch. -/
def rowStages (exp : K → K) (switchK switchM switchP : Bool) (row : List K) (k : ℤ)
    (topP minP : K) : List (WithBot K) :=
  let sorted := row.map fun x : K => (x : WithBot K)
  let sorted := if switchK then
    maskTopK sorted (if 0 < k ∧ k < (row.length : ℤ) then k.toNat else row.length) else sorted
  let sorted := if switchM then maskMinP exp sorted minP else sorted
  if switchP then maskTopP exp sorted topP else sorted

/-- **The switches of the batch do not matter**, as long as they are on where the row asks. -/
theorem rowStages_eq (hexp : ∀ x, 0 < exp x) (hmono : StrictMono exp) {row : List K}
    (hrow : row.Pairwise (· ≥ ·)) (hne : row ≠ []) {k : ℤ} {topP minP : K}
    {switchK switchM switchP : Bool} (hk : switchK = false → ¬(0 < k ∧ k < (row.length : ℤ)))
    (hm : switchM = false → minP = 0) (hp : switchP = false → topP = 1) :
    rowStages exp switchK switchM switchP row k topP minP = candidateRow exp row k topP minP := by
  obtain ⟨x, row, rfl⟩ := List.exists_cons_of_ne_nil hne
  -- a stage that is off would keep every value of the row
  have htopK : (if switchK then maskTopK ((x :: row).map fun x : K => (x : WithBot K))
        (if 0 < k ∧ k < ((x :: row).length : ℤ) then k.toNat else (x :: row).length)
      else (x :: row).map fun x : K => (x : WithBot K))
      = maskUnless (TopKKeeps (x :: row) k) (x :: row) := by
    cases switchK with
    | true => exact maskTopK_eq hrow k
    | false =>
      refine List.map_congr_left fun y _ => (if_pos fun v hv => ?_).symm
      rw [topKThreshold, if_neg (hk rfl)] at hv
      cases hv
  have hminP : (if switchM then maskMinP exp (maskUnless (TopKKeeps (x :: row) k) (x :: row)) minP
      else maskUnless (TopKKeeps (x :: row) k) (x :: row))
      = maskUnless (fun y => TopKKeeps (x :: row) k y ∧ MinPKeeps exp x minP y) (x :: row) := by
    cases switchM with
    | true => exact maskMinP_eq hexp (TopKKeeps.head hrow k) minP
    | false =>
      refine maskUnless_congr fun y _ => (and_iff_left ?_).symm
      rw [MinPKeeps, hm rfl, zero_mul]
      exact (hexp y).le
  -- what the first two stages keep is a prefix of the descending row
  have hupward : UpwardClosed fun y => TopKKeeps (x :: row) k y ∧ MinPKeeps exp x minP y :=
    fun y z hyz hy => ⟨TopKKeeps.upwardClosed _ k y z hyz hy.1,
      MinPKeeps.upwardClosed hmono x minP y z hyz hy.2⟩
  unfold rowStages
  dsimp only
  rw [htopK, hminP, maskUnless_eq_firstPart hrow hupward]
  cases switchP with
  | true => exact maskTopP_eq _ _ topP
  | false =>
    rw [hp rfl, candidateRow, topPPart_one hexp]
    rfl

/-! ### The processors -/

omit [Field K] [LinearOrder K] [IsStrictOrderedRing K] in
theorem candidates_append_bot (row : List (WithBot K)) (rest : ℕ) :
    candidates (row ++ List.replicate rest ⊥) = candidates row := by
  have hnil : (List.replicate rest (⊥ : WithBot K)).filterMap
      (fun x => x.recBotCoe none some) = ([] : List K) := by
    rw [List.filterMap_eq_nil_iff]
    intro x hx
    rw [List.eq_of_mem_replicate hx]
    rfl
  unfold candidates
  rw [List.filterMap_append, hnil, List.append_nil]

omit [IsStrictOrderedRing K] in
theorem candidates_topPPart (topP : K) (kept : List K) :
    candidates (topPPart exp topP kept)
      = ↑((kept.zipIdx.filter fun p => leadingMass exp kept p.2 < topP).map Prod.fst) := by
  unfold candidates topPPart
  congr 1
  induction kept.zipIdx with
  | nil => rfl
  | cons p rest ih =>
    rw [List.map_cons]
    by_cases hp : leadingMass exp kept p.2 < topP
    · rw [List.filter_cons_of_pos (by simpa using hp), if_pos hp, List.map_cons, ← ih]
      rfl
    · rw [List.filter_cons_of_neg (by simpa using hp), if_neg hp, ← ih]
      rfl

omit [IsStrictOrderedRing K] in
/-- Top-p on what is left, in descending order. -/
theorem topPKept_coe {kept : List K} (hkept : kept.Pairwise (· ≥ ·)) (topP : K) :
    topPKept exp topP ↑kept = candidates (topPPart exp topP kept) := by
  rw [candidates_topPPart, topPKept, sort_coe_of_descending hkept]
  rfl

/-- Min-p on a sorted row. -/
theorem minPKept_coe (hexp : ∀ x, 0 < exp x) (hmono : StrictMono exp) {x : K} {row : List K}
    (hrow : (x :: row).Pairwise (· ≥ ·)) {minP : K} (hminP : 0 ≤ minP) :
    minPKept exp minP ↑(x :: row) = ↑((x :: row).filter (MinPKeeps exp x minP)) := by
  have htotal : 0 < ((↑(x :: row) : Multiset K).map exp).sum := by
    rw [Multiset.map_coe, Multiset.sum_coe]
    exact sum_exp_pos hexp (List.cons_ne_nil x row)
  unfold minPKept
  rw [← Multiset.filter_coe]
  refine Multiset.filter_congr fun y _ => ?_
  simp only [prob, ← mul_div_assoc, div_le_div_iff_of_pos_right htotal, MinPKeeps]
  constructor
  · intro hall
    exact hall x (Multiset.mem_coe.mpr List.mem_cons_self)
  · intro hy z hz
    have hzx : z ≤ x := by
      rcases List.mem_cons.mp (Multiset.mem_coe.mp hz) with rfl | hz
      · exact le_refl _
      · exact (List.pairwise_cons.mp hrow).1 z hz
    exact (mul_le_mul_of_nonneg_left (hmono.monotone hzx) hminP).trans hy

/-- **The candidates of a row are what the processors leave.** -/
theorem candidates_candidateRow (hexp : ∀ x, 0 < exp x) (hmono : StrictMono exp) {row : List K}
    (hrow : row.Pairwise (· ≥ ·)) (hne : row ≠ []) {k : ℤ} {topP minP : K} (hminP : 0 ≤ minP) :
    candidates (candidateRow exp row k topP minP) = processors exp row.length k topP minP ↑row := by
  obtain ⟨x, row, rfl⟩ := List.exists_cons_of_ne_nil hne
  have hupward := MinPKeeps.upwardClosed hmono x minP
  -- top-k after min-p is top-k before it
  have hboth : (x :: row).filter (fun y => TopKKeeps (x :: row) k y ∧ MinPKeeps exp x minP y)
      = ((x :: row).filter (MinPKeeps exp x minP)).filter (TopKKeeps (x :: row) k) := by
    rw [List.filter_filter]
    exact List.filter_congr fun y _ => by simp
  have htopK : (if 0 < k ∧ k < ((x :: row).length : ℤ) then
        topKKept k.toNat ↑((x :: row).filter (MinPKeeps exp x minP))
      else ↑((x :: row).filter (MinPKeeps exp x minP)))
      = (↑(keptRow exp (x :: row) k minP) : Multiset K) := by
    have hkept : keptRow exp (x :: row) k minP
        = ((x :: row).filter (MinPKeeps exp x minP)).filter (TopKKeeps (x :: row) k) := hboth
    rw [hkept]
    split
    · next hon =>
      have hlt : k.toNat - 1 < (x :: row).length := by omega
      have hthreshold : topKThreshold (x :: row) k = some (x :: row)[k.toNat - 1] := by
        rw [topKThreshold, if_pos hon, List.getElem?_eq_getElem hlt]
      have hkeeps : ((x :: row).filter (MinPKeeps exp x minP)).filter (TopKKeeps (x :: row) k)
          = ((x :: row).filter (MinPKeeps exp x minP)).filter
            fun y => (x :: row)[k.toNat - 1] ≤ y :=
        List.filter_congr fun y _ => by simp [TopKKeeps, hthreshold]
      rw [hkeeps, ← filter_rank_filter hrow hupward (List.getElem?_eq_getElem hlt), topKKept,
        sort_coe_of_descending (hrow.filter _)]
      cases ((x :: row).filter (MinPKeeps exp x minP))[k.toNat - 1]? with
      | none => rfl
      | some v => exact Multiset.filter_coe _ _
    · next hoff =>
      refine congrArg _ (List.filter_eq_self.mpr fun y _ => decide_eq_true fun v hv => ?_).symm
      rw [topKThreshold, if_neg hoff] at hv
      cases hv
  have hdescending : (keptRow exp (x :: row) k minP).Pairwise (· ≥ ·) := hrow.filter _
  unfold processors
  dsimp only
  rw [minPKept_coe hexp hmono hrow hminP, htopK, candidateRow, candidates_append_bot,
    topPKept_coe hdescending]

omit [IsStrictOrderedRing K] in
/-- What is left of a sorted row is a first part of it. -/
theorem keptRow_isPrefix (hmono : StrictMono exp) {row : List K} (hrow : row.Pairwise (· ≥ ·))
    (k : ℤ) (minP : K) : keptRow exp row k minP <+: row :=
  filter_isPrefix hrow fun y z hyz hy => ⟨TopKKeeps.upwardClosed _ k y z hyz hy.1,
    MinPKeeps.upwardClosed hmono _ minP y z hyz hy.2⟩

omit [IsStrictOrderedRing K] in
/-- A logit that is not masked is in its place. -/
theorem getElem?_of_candidateRow (hmono : StrictMono exp) {row : List K}
    (hrow : row.Pairwise (· ≥ ·)) {k : ℤ} {topP minP : K} {j : ℕ} {x : K}
    (hj : (candidateRow exp row k topP minP)[j]? = some (x : WithBot K)) : row[j]? = some x := by
  obtain ⟨rest, hrest⟩ := keptRow_isPrefix hmono hrow k minP
  unfold candidateRow at hj
  rcases Nat.lt_or_ge j (keptRow exp row k minP).length with hlt | hge
  · rw [List.getElem?_append_left (by simpa [topPPart] using hlt), topPPart, List.getElem?_map,
      List.getElem?_zipIdx, List.getElem?_eq_getElem hlt] at hj
    have hvalue := Option.some.inj hj
    dsimp only at hvalue
    split_ifs at hvalue with hmass
    · rw [← hrest, List.getElem?_append_left hlt, List.getElem?_eq_getElem hlt,
        WithBot.coe_injective hvalue]
    · cases hvalue
  · rw [List.getElem?_append_right (by simpa [topPPart] using hge)] at hj
    have hbot := List.eq_of_mem_replicate (List.mem_of_getElem? hj)
    cases hbot

/-- The greatest logit of a row is a candidate. -/
theorem head_mem_candidates (hexp : ∀ x, 0 < exp x) {x : K} {row : List K}
    (hrow : (x :: row).Pairwise (· ≥ ·)) {k : ℤ} {topP minP : K} (hminP : minP ≤ 1)
    (htopP : 0 < topP) : x ∈ candidates (candidateRow exp (x :: row) k topP minP) := by
  have hkeeps : TopKKeeps (x :: row) k x ∧ MinPKeeps exp x minP x :=
    ⟨TopKKeeps.head hrow k, mul_le_of_le_one_left (hexp x).le hminP⟩
  have hkept : ∃ rest, keptRow exp (x :: row) k minP = x :: rest :=
    ⟨_, List.filter_cons_of_pos (by simpa using hkeeps)⟩
  obtain ⟨rest, hkept⟩ := hkept
  rw [candidateRow, candidates_append_bot, candidates_topPPart, hkept, Multiset.mem_coe]
  refine List.mem_map.mpr ⟨(x, 0), List.mem_filter.mpr ⟨by simp, ?_⟩, rfl⟩
  simpa [leadingMass] using htopP

/-! ### The batch -/

variable {vocabSize : ℕ}

/-- The sorted values of a row. -/
def sortedValues (row : Fin vocabSize → K) : List K := (argsortDesc row).map row

omit [Field K] [IsStrictOrderedRing K] in
theorem argsortDesc_perm (row : Fin vocabSize → K) :
    (argsortDesc row).Perm (List.finRange vocabSize) :=
  (List.reverse_perm _).trans (List.mergeSort_perm _ _)

omit [Field K] [IsStrictOrderedRing K] in
theorem sortedValues_descending (row : Fin vocabSize → K) :
    (sortedValues row).Pairwise (· ≥ ·) := by
  rw [sortedValues, argsortDesc, List.pairwise_map, List.pairwise_reverse]
  have hsorted : ((List.finRange vocabSize).mergeSort fun a b => row a ≤ row b).Pairwise
      fun a b => decide (row a ≤ row b) = true := by
    refine List.pairwise_mergeSort (fun a b c hab hbc => ?_) (fun a b => ?_) _
    · exact decide_eq_true ((of_decide_eq_true hab).trans (of_decide_eq_true hbc))
    · simpa using le_total (row a) (row b)
  exact hsorted.imp fun h => by simpa using h

omit [Field K] [IsStrictOrderedRing K] in
theorem coe_sortedValues (row : Fin vocabSize → K) :
    (↑(sortedValues row) : Multiset K) = (Finset.univ.val.map row : Multiset K) := by
  have hperm := (argsortDesc_perm row).map row
  rw [sortedValues, Multiset.coe_eq_coe.mpr hperm, ← Multiset.map_coe]
  rfl

omit [Field K] [IsStrictOrderedRing K] in
@[simp] theorem length_sortedValues (row : Fin vocabSize → K) :
    (sortedValues row).length = vocabSize := by
  rw [sortedValues, List.length_map, (argsortDesc_perm row).length_eq, List.length_finRange]

omit [Field K] [LinearOrder K] [IsStrictOrderedRing K] in
/-- A stage of a batch, on one of its rows. -/
theorem getElem?_stage {β : Type*} {f : List (WithBot K) → β → List (WithBot K)} (switch : Bool)
    {rows : List (List (WithBot K))} {params : List β} {i : ℕ} {row : List (WithBot K)} {b : β}
    (hrow : rows[i]? = some row) (hb : params[i]? = some b) :
    (if switch then List.zipWith f rows params else rows)[i]?
      = some (if switch then f row b else row) := by
  cases switch with
  | true =>
    simp only [if_true]
    rw [List.getElem?_zipWith, hrow, hb]
  | false => simpa using hrow

/-- **Each row of a batch becomes what it becomes alone.** -/
theorem getElem?_sortedCandidateLogits (hexp : ∀ x, 0 < exp x) (hmono : StrictMono exp)
    (hvocab : 0 < vocabSize) {scaledLogits : List (Fin vocabSize → K)} {topK : List ℤ}
    {topP minP : List K} (hminP : ∀ m ∈ minP, 0 ≤ m) (htopP : ∀ p ∈ topP, p ≤ 1) {i : ℕ}
    {row : Fin vocabSize → K} {k : ℤ} {p m : K} (hrow : scaledLogits[i]? = some row)
    (hk : topK[i]? = some k) (hp : topP[i]? = some p) (hm : minP[i]? = some m) :
    (sortedCandidateLogits exp scaledLogits topK topP minP).1[i]?
      = some (candidateRow exp (sortedValues row) k p m) := by
  set effectiveK := topK.map fun (k : ℤ) =>
    if 0 < k ∧ k < (vocabSize : ℤ) then k.toNat else vocabSize with heffective
  have hkEff : effectiveK[i]? = some
      (if 0 < k ∧ k < (vocabSize : ℤ) then k.toNat else vocabSize) := by
    rw [heffective, List.getElem?_map, hk]
    rfl
  have hne : sortedValues row ≠ [] := List.ne_nil_of_length_pos (by simpa using hvocab)
  -- a stage that the batch skips changes nothing in any of its rows
  have hstages : rowStages exp (effectiveK.any (· < vocabSize)) (minP.any (0 < ·))
      (topP.any (· < 1)) (sortedValues row) k p m = candidateRow exp (sortedValues row) k p m := by
    refine rowStages_eq hexp hmono (sortedValues_descending row) hne ?_ ?_ ?_
    · intro hoff hon
      rw [length_sortedValues] at hon
      rw [if_pos hon] at hkEff
      have hnot := List.any_eq_false.mp hoff _ (List.mem_of_getElem? hkEff)
      simp only [decide_eq_true_eq] at hnot
      omega
    · intro hoff
      have hmem := List.mem_of_getElem? hm
      have hnot := List.any_eq_false.mp hoff _ hmem
      exact le_antisymm (not_lt.mp (by simpa using hnot)) (hminP m hmem)
    · intro hoff
      have hmem := List.mem_of_getElem? hp
      have hnot := List.any_eq_false.mp hoff _ hmem
      exact le_antisymm (htopP p hmem) (not_lt.mp (by simpa using hnot))
  have hsorted : (List.zipWith (fun row idx => idx.map fun t => (row t : WithBot K)) scaledLogits
      (scaledLogits.map argsortDesc))[i]?
        = some ((sortedValues row).map fun x : K => (x : WithBot K)) := by
    rw [List.getElem?_zipWith, List.getElem?_map, hrow]
    simp [sortedValues, Function.comp_def]
  -- the stages of the batch act row by row
  rw [← hstages]
  unfold rowStages
  rw [length_sortedValues]
  exact getElem?_stage _ (getElem?_stage _ (getElem?_stage _ hsorted hkEff) hm) hp

end Exp

end Row

/-! ### The real exponential -/

/-- **Native candidates are those of the processors.**  For every row of a batch: the logits left
unmasked are, as a multiset, what min-p, top-k and top-p leave one after the other; the greatest
logit is one of them; each unmasked logit is the one of the id at its position; and the row is what
a batch of this row alone gives. -/
theorem sorted_candidates_eq_processors {vocabSize : ℕ} (hvocab : 0 < vocabSize)
    {scaledLogits : List (Fin vocabSize → ℝ)} {topK : List ℤ} {topP minP : List ℝ}
    (hminP : ∀ m ∈ minP, 0 ≤ m ∧ m ≤ 1) (htopP : ∀ p ∈ topP, 0 < p ∧ p ≤ 1) {i : ℕ}
    {row : Fin vocabSize → ℝ} {k : ℤ} {p m : ℝ} (hrow : scaledLogits[i]? = some row)
    (hk : topK[i]? = some k) (hp : topP[i]? = some p) (hm : minP[i]? = some m) :
    ∃ sorted ids, (sortedCandidateLogits Real.exp scaledLogits topK topP minP).1[i]? = some sorted ∧
      (sortedCandidateLogits Real.exp scaledLogits topK topP minP).2[i]? = some ids ∧
      candidates sorted = processors Real.exp vocabSize k p m (Finset.univ.val.map row) ∧
      (∃ x ∈ candidates sorted, ∀ t, row t ≤ x) ∧
      ids.Perm (List.finRange vocabSize) ∧
      (∀ (j : ℕ) (x : ℝ), sorted[j]? = some (x : WithBot ℝ) → ∃ t, ids[j]? = some t ∧ row t = x) ∧
      (sortedCandidateLogits Real.exp [row] [k] [p] [m]).1 = [sorted] := by
  have hexp := Real.exp_pos
  have hmono := Real.exp_strictMono
  have hpi := htopP p (List.mem_of_getElem? hp)
  have hmi := hminP m (List.mem_of_getElem? hm)
  have hne : sortedValues row ≠ [] := List.ne_nil_of_length_pos (by simpa using hvocab)
  have hdescending := sortedValues_descending row
  have hbatch := getElem?_sortedCandidateLogits hexp hmono hvocab (fun m hm => (hminP m hm).1)
    (fun p hp => (htopP p hp).2) hrow hk hp hm
  -- a batch of this row alone runs the same stages
  have halone : (sortedCandidateLogits Real.exp [row] [k] [p] [m]).1[0]?
      = some (candidateRow Real.exp (sortedValues row) k p m) := by
    refine getElem?_sortedCandidateLogits hexp hmono hvocab ?_ ?_ rfl rfl rfl rfl
    · intro m' hm'
      rw [List.mem_singleton.mp hm']
      exact hmi.1
    · intro p' hp'
      rw [List.mem_singleton.mp hp']
      exact hpi.2
  refine ⟨_, argsortDesc row, hbatch, ?_, ?_, ?_, argsortDesc_perm row, ?_, ?_⟩
  · simp only [sortedCandidateLogits]
    rw [List.getElem?_map, hrow]
    rfl
  · rw [candidates_candidateRow hexp hmono hdescending hne hmi.1, length_sortedValues,
      coe_sortedValues]
  -- the greatest logit is a candidate
  · obtain ⟨x, rest, hx⟩ := List.exists_cons_of_ne_nil hne
    rw [hx] at hdescending ⊢
    refine ⟨x, head_mem_candidates hexp hdescending hmi.2 hpi.1, fun t => ?_⟩
    have ht : row t ∈ sortedValues row :=
      List.mem_map_of_mem ((argsortDesc_perm row).mem_iff.mpr (List.mem_finRange t))
    rw [hx] at ht
    rcases List.mem_cons.mp ht with heq | ht
    · exact heq.le
    · exact (List.pairwise_cons.mp hdescending).1 _ ht
  · intro j x hj
    have hvalue := getElem?_of_candidateRow hmono hdescending hj
    rw [sortedValues, List.getElem?_map] at hvalue
    exact Option.map_eq_some_iff.mp hvalue
  -- the row of the batch and the row alone are the same candidates
  · have hlen : (sortedCandidateLogits Real.exp [row] [k] [p] [m]).1.length = 1 := by
      simp only [sortedCandidateLogits]
      split_ifs <;> simp [maskTopK]
    obtain ⟨only, honly⟩ := List.length_eq_one_iff.mp hlen
    rw [honly] at halone ⊢
    rw [Option.some.inj halone]

/-- A batch of two rows, the first with a tie at its top-k boundary, the second with min-p. -/
theorem sorted_candidates_eq_processors_two :
    ∃ sorted, (sortedCandidateLogits Real.exp [![2, 1, 1], ![0, 0, 3]] [2, 0] [1, 1 / 2]
        [0, 1 / 10]).1[0]? = some sorted ∧
      candidates sorted = processors Real.exp 3 2 1 0 (Finset.univ.val.map ![2, 1, 1]) := by
  have hrow : ([![2, 1, 1], ![0, 0, 3]] : List (Fin 3 → ℝ))[0]? = some ![2, 1, 1] := rfl
  have hk : ([2, 0] : List ℤ)[0]? = some 2 := rfl
  have hp : ([1, 1 / 2] : List ℝ)[0]? = some 1 := rfl
  have hm : ([0, 1 / 10] : List ℝ)[0]? = some 0 := rfl
  obtain ⟨sorted, -, hsorted, -, hprocessors, -⟩ :=
    sorted_candidates_eq_processors (by decide) (by norm_num) (by norm_num) hrow hk hp hm
  exact ⟨sorted, hsorted, hprocessors⟩

end Sampling
end VllmMetal
