import VllmMetal.Lib.Ragged
import VllmMetal.Runner.Request
import Mathlib.Algebra.GroupWithZero.Nat

/-!
# Greedy verification on tensors

The MPS backend verifies the drafts of all requests with a few tensor operations: the rows of
a request are gathered with clamped indices, the accepted prefix is a running product of the
matches, and the columns behind it are masked.

## Main definitions

* `rejectionSample` — the tokens and the counts of a batch.
* `matchLength` — how many drafts agree with the target's tokens before them.

## Main results

* `sum_cumprod` — the running product counts the prefix of ones.
* `rejectRow_spec`, `rejectionSample_spec` — what a request is given.
-/

namespace VllmMetal.PytorchBackend

/-! ### The kernel -/

/-- The start and the stop of every request. -/
def spans (cu : List ℕ) : List (ℕ × ℕ) := cu.zip cu.tail

/-- `cu[1:] - cu[:-1]`. -/
def diff (cu : List ℕ) : List ℕ := (spans cu).map fun p => p.2 - p.1

/-- `cumprod(1)`, for one row. -/
def cumprod : ℕ → List ℕ → List ℕ
  | _, [] => []
  | acc, x :: xs => acc * x :: cumprod (acc * x) xs

section

variable {Logits : Type} (argmax : Logits → ℕ) (logits : List Logits) (draftTokens : List Token)

/-- `rows`, for one request: the indices of its logits, clamped to those there are. -/
def logitsRows (numSteps start : ℕ) : List ℕ :=
  (List.range (numSteps + 1)).map fun col => min (start + col) (logits.length - 1)

/-- The target's token on a row of the logits. -/
def targetToken (row : ℕ) : Token := ((logits.map argmax).getD row 0 : ℕ)

/-- `matches`, for one request. -/
def matchesRow (numSteps start width : ℕ) : List Bool :=
  let rows := logitsRows logits numSteps start
  let target := rows.map (targetToken argmax logits)
  let proposed := rows.dropLast.map fun row =>
    draftTokens.getD (min (row + 1) (logits.length - 1)) 0
  (List.zipWith (fun t p => decide (t = p)) target.dropLast proposed).mapIdx fun col m =>
    m && decide (col < width - 1)

/-- The tokens of one request, and how many of them are emitted. -/
def rejectRow (numSteps start width : ℕ) : List Token × ℕ :=
  let target := (logitsRows logits numSteps start).map (targetToken argmax logits)
  let accepted := matchesRow argmax logits draftTokens numSteps start width
  let count := (cumprod 1 (accepted.map Bool.toNat)).sum + 1
  (target.mapIdx fun col t => if col < count then t else -1, count)

end

/-- `rejection_sample`. -/
def rejectionSample {Logits : Type} (argmax : Logits → ℕ) (logits : List Logits)
    (draftTokens : List Token) (cu : List ℕ) (numSteps : ℕ) : List (List Token × ℕ) :=
  (spans cu).map fun p =>
    rejectRow argmax logits draftTokens numSteps p.1 (p.2 - p.1)

/-! ### Boundaries -/

theorem getElem?_spans {lens : List ℕ} {i : ℕ} (hi : i < lens.length) :
    (spans (boundaries lens))[i]? =
      some ((boundaries lens).getD i 0, (boundaries lens).getD (i + 1) 0) := by
  have hlen := length_boundaries lens
  rw [spans, List.getElem?_zip_eq_some]
  refine ⟨?_, ?_⟩
  · rw [List.getElem?_eq_getElem (by omega), List.getD_eq_getElem _ _ (by omega)]
  · dsimp only
    rw [List.getElem?_tail, List.getElem?_eq_getElem (by omega),
      List.getD_eq_getElem _ _ (by omega)]

theorem length_spans (lens : List ℕ) : (spans (boundaries lens)).length = lens.length := by
  rw [spans, List.length_zip, List.length_tail, length_boundaries]
  omega

/-- The differences of the boundaries are the lengths. -/
theorem diff_boundaries (lens : List ℕ) : diff (boundaries lens) = lens := by
  refine List.ext_getElem? fun i => ?_
  by_cases hi : i < lens.length
  · rw [diff, List.getElem?_map, getElem?_spans hi, Option.map_some,
      getD_boundaries_sub (List.getElem?_eq_getElem hi), List.getElem?_eq_getElem hi]
  · rw [List.getElem?_eq_none (by rw [diff, List.length_map, length_spans]; omega),
      List.getElem?_eq_none (by omega)]

/-! ### The running product -/

theorem cumprod_zero (xs : List ℕ) : (cumprod 0 xs).sum = 0 := by
  induction xs with
  | nil => rfl
  | cons x xs ih => rw [cumprod, Nat.zero_mul, List.sum_cons, ih]

/-- **The running product counts the prefix of ones.** -/
theorem sum_cumprod (bs : List Bool) :
    (cumprod 1 (bs.map Bool.toNat)).sum = (bs.takeWhile id).length := by
  induction bs with
  | nil => rfl
  | cons b bs ih =>
    cases b with
    | false =>
      rw [List.map_cons, cumprod, List.sum_cons, Bool.toNat_false, Nat.mul_zero, cumprod_zero]
      rfl
    | true =>
      rw [List.map_cons, cumprod, List.sum_cons, Bool.toNat_true, Nat.mul_one, ih,
        List.takeWhile_cons_of_pos rfl, List.length_cons, Nat.add_comm]

/-- The length of the prefix on which a condition holds. -/
theorem length_takeWhile_eq {α : Type*} {p : α → Bool} {l : List α} {k : ℕ}
    (hbelow : ∀ i < k, (l[i]?).any p = true) (hend : (l[k]?).any p = false) :
    (l.takeWhile p).length = k := by
  induction l generalizing k with
  | nil =>
    cases k with
    | zero => rfl
    | succ k => cases hbelow 0 (Nat.succ_pos k)
  | cons a l ih =>
    cases k with
    | zero =>
      have ha : p a = false := hend
      rw [List.takeWhile_cons_of_neg (by rw [ha]; exact Bool.false_ne_true)]
      rfl
    | succ k =>
      have ha : p a = true := hbelow 0 (Nat.succ_pos k)
      rw [List.takeWhile_cons_of_pos ha, List.length_cons,
        ih (fun i hi => hbelow (i + 1) (Nat.succ_lt_succ hi)) hend]

/-! ### The drafts that agree -/

/-- The length of the longest prefix of the drafts that agrees with the target's tokens. -/
def matchLength (targets drafts : List Token) : ℕ :=
  ((targets.zip drafts).takeWhile fun p => decide (p.1 = p.2)).length

theorem matchLength_le (targets drafts : List Token) :
    matchLength targets drafts ≤ drafts.length := by
  refine Nat.le_trans (List.takeWhile_prefix _).length_le ?_
  rw [List.length_zip]
  exact Nat.min_le_right _ _

/-- The accepted drafts are the target's own tokens. -/
theorem take_matchLength (targets drafts : List Token) :
    targets.take (matchLength targets drafts) = drafts.take (matchLength targets drafts) := by
  induction targets generalizing drafts with
  | nil => simp [matchLength]
  | cons t targets ih =>
    cases drafts with
    | nil => simp [matchLength]
    | cons d drafts =>
      by_cases h : t = d
      · have hlen : matchLength (t :: targets) (d :: drafts) = matchLength targets drafts + 1 := by
          unfold matchLength
          rw [List.zip_cons_cons, List.takeWhile_cons_of_pos (by simpa using h), List.length_cons]
        rw [hlen, List.take_succ_cons, List.take_succ_cons, ih, h]
      · have hlen : matchLength (t :: targets) (d :: drafts) = 0 := by
          unfold matchLength
          rw [List.zip_cons_cons, List.takeWhile_cons_of_neg (by simpa using h)]
          rfl
        rw [hlen, List.take_zero, List.take_zero]

/-- What a match length is, index by index. -/
theorem matchLength_spec (targets drafts : List Token) :
    (∀ i < matchLength targets drafts, ((targets.zip drafts)[i]?).any (fun p =>
      decide (p.1 = p.2)) = true) ∧
      ((targets.zip drafts)[matchLength targets drafts]?).any (fun p =>
        decide (p.1 = p.2)) = false := by
  unfold matchLength
  induction targets.zip drafts with
  | nil => exact ⟨nofun, rfl⟩
  | cons p l ih =>
    by_cases h : p.1 = p.2
    · rw [List.takeWhile_cons_of_pos (by simpa using h), List.length_cons]
      refine ⟨fun i hi => ?_, ih.2⟩
      cases i with
      | zero => simpa using h
      | succ i => exact ih.1 i (Nat.lt_of_succ_lt_succ hi)
    · rw [List.takeWhile_cons_of_neg (by simpa using h)]
      exact ⟨nofun, by simpa using h⟩

/-! ### One request -/

section

variable {Logits : Type} (argmax : Logits → ℕ) (logits : List Logits) (draftTokens : List Token)

/-- The target's tokens on the rows of a request. -/
def requestTargets (start width : ℕ) : List Token :=
  (List.range width).map fun col => targetToken argmax logits (start + col)

/-- The drafts of a request: the inputs of its rows but the first. -/
def requestDrafts (start width : ℕ) : List Token :=
  (List.range (width - 1)).map fun col => draftTokens.getD (start + 1 + col) 0

/-- How many drafts of a request are accepted. -/
def acceptedDrafts (start width : ℕ) : ℕ :=
  matchLength (requestTargets argmax logits start width) (requestDrafts draftTokens start width)

/-- The tokens that a request emits: the drafts that agree, and the target's own token. -/
def emitted (start width : ℕ) : List Token :=
  let accepted := acceptedDrafts argmax logits draftTokens start width
  (requestDrafts draftTokens start width).take accepted ++
    [(requestTargets argmax logits start width).getD accepted 0]

variable {argmax logits draftTokens} {numSteps start width : ℕ}

theorem length_requestTargets (start width : ℕ) :
    (requestTargets argmax logits start width).length = width := by
  rw [requestTargets, List.length_map, List.length_range]

theorem length_requestDrafts (start width : ℕ) :
    (requestDrafts draftTokens start width).length = width - 1 := by
  rw [requestDrafts, List.length_map, List.length_range]

theorem acceptedDrafts_lt (hwidth : 1 ≤ width) :
    acceptedDrafts argmax logits draftTokens start width < width := by
  have hle := matchLength_le (requestTargets argmax logits start width)
    (requestDrafts draftTokens start width)
  rw [length_requestDrafts] at hle
  unfold acceptedDrafts
  omega

theorem length_emitted (hwidth : 1 ≤ width) :
    (emitted argmax logits draftTokens start width).length =
      acceptedDrafts argmax logits draftTokens start width + 1 := by
  have hlt := @acceptedDrafts_lt _ argmax logits draftTokens start width hwidth
  unfold emitted
  dsimp only
  rw [List.length_append, List.length_take, List.length_singleton, length_requestDrafts]
  omega

/-- The emitted tokens are the target's tokens. -/
theorem emitted_eq_take (hwidth : 1 ≤ width) :
    emitted argmax logits draftTokens start width =
      (requestTargets argmax logits start width).take
        (acceptedDrafts argmax logits draftTokens start width + 1) := by
  have hlt := @acceptedDrafts_lt _ argmax logits draftTokens start width hwidth
  have hlen := @length_requestTargets _ argmax logits start width
  have hprefix := take_matchLength (requestTargets argmax logits start width)
    (requestDrafts draftTokens start width)
  unfold emitted
  dsimp only
  rw [List.take_add_one, List.getD_eq_getElem _ _ (by omega), List.getElem?_eq_getElem (by omega)]
  exact congrArg (· ++ _) hprefix.symm

/-- Whether a column matches: the token there and the draft behind it, both clamped. -/
theorem matchesRow_eq (argmax : Logits → ℕ) (logits : List Logits) (draftTokens : List Token)
    (numSteps start width : ℕ) : matchesRow argmax logits draftTokens numSteps start width =
      (List.range numSteps).map fun col =>
        decide (targetToken argmax logits (min (start + col) (logits.length - 1)) =
          draftTokens.getD (min (min (start + col) (logits.length - 1) + 1)
            (logits.length - 1)) 0) && decide (col < width - 1) := by
  have hdrop : (logitsRows logits numSteps start).dropLast = (List.range numSteps).map fun col =>
      min (start + col) (logits.length - 1) := by
    rw [logitsRows, ← List.map_dropLast, List.range_succ, List.dropLast_concat]
  unfold matchesRow
  dsimp only
  rw [← List.map_dropLast, hdrop, List.map_map, List.map_map, List.zipWith_map, List.zipWith_self]
  refine List.ext_getElem (by simp) fun i hi hi' => ?_
  simp

/-- **A column is accepted when the draft agrees with the target's token before it.** -/
theorem any_matchesRow (hwidth : width ≤ numSteps + 1) (hfits : start + width ≤ logits.length)
    (col : ℕ) :
    ((matchesRow argmax logits draftTokens numSteps start width)[col]?).any id =
      (((requestTargets argmax logits start width).zip
        (requestDrafts draftTokens start width))[col]?).any
          fun p : Token × Token => decide (p.1 = p.2) := by
  rw [matchesRow_eq]
  by_cases hcol : col < width - 1
  · -- a row of the request: nothing is clamped
    have hrow : min (start + col) (logits.length - 1) = start + col := by omega
    have hnext : min (start + col + 1) (logits.length - 1) = start + 1 + col := by omega
    rw [List.getElem?_map, List.getElem?_range (by omega), List.getElem?_eq_getElem
      (by rw [List.length_zip, length_requestTargets, length_requestDrafts]; omega)]
    unfold requestTargets requestDrafts
    simp [hrow, hnext, hcol]
  · have hright : ((requestTargets argmax logits start width).zip
        (requestDrafts draftTokens start width))[col]? = none := by
      rw [List.getElem?_eq_none]
      rw [List.length_zip, length_requestTargets, length_requestDrafts]
      omega
    rw [hright, List.getElem?_map]
    by_cases hstep : col < numSteps
    · rw [List.getElem?_range hstep]
      simp [hcol]
    · rw [List.getElem?_eq_none (by rw [List.length_range]; omega)]
      rfl

/-- **One request**: its emitted tokens, then `-1`, and how many they are. -/
theorem rejectRow_spec (hpos : 1 ≤ width) (hwidth : width ≤ numSteps + 1)
    (hfits : start + width ≤ logits.length) :
    rejectRow argmax logits draftTokens numSteps start width =
      (emitted argmax logits draftTokens start width ++ List.replicate
        (numSteps - acceptedDrafts argmax logits draftTokens start width) (-1),
        acceptedDrafts argmax logits draftTokens start width + 1) := by
  have hlt := @acceptedDrafts_lt _ argmax logits draftTokens start width hpos
  -- the product of the matches counts those before the first mismatch
  have hcount : (cumprod 1 ((matchesRow argmax logits draftTokens numSteps start width).map
      Bool.toNat)).sum = acceptedDrafts argmax logits draftTokens start width := by
    obtain ⟨hbelow, hend⟩ := matchLength_spec (requestTargets argmax logits start width)
      (requestDrafts draftTokens start width)
    rw [sum_cumprod]
    refine length_takeWhile_eq (fun i hi => ?_) ?_
    · rw [any_matchesRow hwidth hfits]
      exact hbelow i hi
    · rw [any_matchesRow hwidth hfits]
      exact hend
  unfold rejectRow
  dsimp only
  rw [hcount]
  refine Prod.ext ?_ rfl
  rw [emitted_eq_take hpos]
  refine List.ext_getElem ?_ fun i hi hi' => ?_
  · rw [List.length_mapIdx, List.length_map, logitsRows, List.length_map, List.length_range,
      List.length_append, List.length_take, length_requestTargets, List.length_replicate]
    omega
  · have hlen : ((requestTargets argmax logits start width).take
        (acceptedDrafts argmax logits draftTokens start width + 1)).length =
        acceptedDrafts argmax logits draftTokens start width + 1 := by
      rw [List.length_take, length_requestTargets]
      omega
    rw [List.getElem_mapIdx]
    split
    -- a column up to the count is the target's token
    · next hcol =>
      have hrow : min (start + i) (logits.length - 1) = start + i := by omega
      rw [List.getElem_append_left (by omega), List.getElem_take]
      unfold requestTargets logitsRows
      simp [hrow]
    -- the columns behind it are filled up
    · next hcol =>
      rw [List.getElem_append_right (by omega), List.getElem_replicate]

/-- **Every request of the batch** is given what its own rows decide. -/
theorem rejectionSample_spec {widths : List ℕ} (hwidths : ∀ w ∈ widths, 1 ≤ w ∧ w ≤ numSteps + 1)
    (hfits : widths.sum ≤ logits.length) {i : ℕ} (hi : widths[i]? = some width) :
    (rejectionSample argmax logits draftTokens (boundaries widths) numSteps)[i]? =
      some (emitted argmax logits draftTokens ((boundaries widths).getD i 0) width ++
        List.replicate (numSteps - acceptedDrafts argmax logits draftTokens
          ((boundaries widths).getD i 0) width) (-1),
        acceptedDrafts argmax logits draftTokens ((boundaries widths).getD i 0) width + 1) := by
  obtain ⟨hpos, hwidth⟩ := hwidths width (List.mem_of_getElem? hi)
  have hlt : i < widths.length := (List.getElem?_eq_some_iff.mp hi).1
  have hsucc := getD_boundaries_succ hi
  have hend : (boundaries widths).getD i 0 + width ≤ logits.length := by
    rw [← hsucc]
    refine Nat.le_trans (getD_boundaries_mono hlt (Nat.le_refl _)) ?_
    rw [getD_boundaries (Nat.le_refl _), List.take_length]
    exact hfits
  unfold rejectionSample
  rw [List.getElem?_map, getElem?_spans hlt, Option.map_some, hsucc, Nat.add_sub_cancel_left,
    rejectRow_spec hpos hwidth hend]

end

end VllmMetal.PytorchBackend
