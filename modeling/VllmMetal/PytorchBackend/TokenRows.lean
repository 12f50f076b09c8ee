import VllmMetal.PytorchBackend.InputOps

/-!
# The search for the request of a lane

A lane of a batch that belongs to a request finds it, whatever empty rows there are.  The lanes
behind the last request find the last one.

## Main definitions

* `Owns` — a lane of a request.

## Main results

* `exists_owns`, `Owns.unique` — every lane of the batch belongs to one request.
* `getElem?_tokenRows`, `tokenRows_padding` — the search.
-/

namespace VllmMetal.PytorchBackend

/-! ### The lanes of a request -/

/-- Lane `j` of request `i`. -/
def Owns (lens : List ℕ) (i j lane : ℕ) : Prop :=
  ∃ n, lens[i]? = some n ∧ j < n ∧ lane = (boundaries lens).getD i 0 + j

section Lanes

variable {lens : List ℕ} {i j lane : ℕ}

theorem Owns.lt_length (h : Owns lens i j lane) : i < lens.length := by
  obtain ⟨n, hn, -, -⟩ := h
  exact (List.getElem?_eq_some_iff.mp hn).1

theorem Owns.lt_stop (h : Owns lens i j lane) : lane < (boundaries lens).getD (i + 1) 0 := by
  obtain ⟨n, hn, hj, rfl⟩ := h
  rw [getD_boundaries_succ hn]
  omega

theorem getD_boundaries_le_sum (lens : List ℕ) {i : ℕ} (hi : i ≤ lens.length) :
    (boundaries lens).getD i 0 ≤ lens.sum := by
  have h := getD_boundaries_mono hi (Nat.le_refl _)
  rwa [getD_boundaries (Nat.le_refl _), List.take_length] at h

theorem Owns.lt_sum (h : Owns lens i j lane) : lane < lens.sum :=
  h.lt_stop.trans_le (getD_boundaries_le_sum lens h.lt_length)

/-- Every lane below the last boundary belongs to a request. -/
theorem exists_owns (hlane : lane < lens.sum) : ∃ i j, Owns lens i j lane := by
  obtain ⟨i, n, -, hn, hle, hlt⟩ := searchSegment_spec hlane
  exact ⟨i, lane - (boundaries lens).getD i 0, n, hn, by omega, by omega⟩

/-- A lane belongs to one request. -/
theorem Owns.unique {i' j' : ℕ} (h : Owns lens i j lane) (h' : Owns lens i' j' lane) :
    i' = i ∧ j' = j := by
  obtain ⟨n, hn, hj, rfl⟩ := h
  obtain ⟨n', hn', hj', heq⟩ := h'
  have hrow := searchSegment_row hn hj
  rw [heq, searchSegment_row hn' hj'] at hrow
  subst hrow
  exact ⟨rfl, by omega⟩

/-! ### The search -/

/-- How many numbers of a range are below one of them. -/
theorem countP_range {p : ℕ → Bool} {n i : ℕ} (hi : i ≤ n) (hp : ∀ s < n, p s = true ↔ s < i) :
    (List.range n).countP p = i := by
  have hfilter : (List.range n).filter p = List.range i := by
    obtain ⟨k, rfl⟩ := Nat.exists_eq_add_of_le hi
    rw [List.range_add, List.filter_append]
    have hfront : (List.range i).filter p = List.range i :=
      List.filter_eq_self.mpr fun s hs => by
        rw [List.mem_range] at hs
        exact (hp s (by omega)).mpr hs
    have hback : ((List.range k).map (i + ·)).filter p = [] :=
      List.filter_eq_nil_iff.mpr fun s hs => by
        obtain ⟨t, ht, rfl⟩ := List.mem_map.mp hs
        rw [List.mem_range] at ht
        rw [hp (i + t) (by omega)]
        omega
    rw [hfront, hback, List.append_nil]
  rw [List.countP_eq_length_filter, hfilter, List.length_range]

/-- The boundaries without the first. -/
theorem tail_boundaries (lens : List ℕ) : (boundaries lens).tail =
    (List.range lens.length).map fun s => (boundaries lens).getD (s + 1) 0 := by
  refine List.ext_getElem (by simp) fun s hs _ => ?_
  have hs' : s + 1 < (boundaries lens).length := by simpa using hs
  rw [List.getElem_tail, List.getElem_map, List.getElem_range, List.getD_eq_getElem _ _ hs']

/-- A search for a lane that lies behind `i` stops. -/
theorem bucketize_boundaries (hi : i ≤ lens.length)
    (hbelow : (boundaries lens).getD i 0 ≤ lane)
    (habove : ∀ t, i < t → t ≤ lens.length → lane < (boundaries lens).getD t 0) :
    bucketize (boundaries lens).tail lane = i := by
  rw [bucketize, tail_boundaries, List.countP_map]
  refine countP_range hi fun s hs => ?_
  rw [Function.comp_apply, decide_eq_true_iff]
  constructor
  · intro hle
    by_contra hge
    have := habove (s + 1) (by omega) (by omega)
    omega
  · intro hlt
    exact (getD_boundaries_mono (by omega) hi).trans hbelow

theorem length_tokenRows (cu : List ℕ) (size : ℕ) : (tokenRows cu size).length = size := by
  rw [tokenRows, List.length_map, List.length_range]

/-- **Every lane finds its request.** -/
theorem getElem?_tokenRows {size : ℕ} (h : Owns lens i j lane) (hlane : lane < size) :
    (tokenRows (boundaries lens) size)[lane]? = some i := by
  have hi := h.lt_length
  have hbelow : (boundaries lens).getD i 0 ≤ lane := by
    obtain ⟨n, -, -, rfl⟩ := h
    exact Nat.le_add_right _ _
  have hsearch : bucketize (boundaries lens).tail lane = i :=
    bucketize_boundaries (by omega) hbelow fun t ht htn =>
      h.lt_stop.trans_le (getD_boundaries_mono ht htn)
  rw [tokenRows, List.getElem?_map, List.getElem?_range hlane, Option.map_some, hsearch,
    length_boundaries]
  congr 1
  omega

theorem getD_tokenRows {size : ℕ} (h : Owns lens i j lane) (hlane : lane < size) :
    (tokenRows (boundaries lens) size).getD lane 0 = i := by
  rw [List.getD_eq_getElem?_getD, getElem?_tokenRows h hlane, Option.getD_some]

/-- A padding lane finds the last request. -/
theorem tokenRows_padding {size : ℕ} (hsum : lens.sum ≤ lane) (hlane : lane < size) :
    (tokenRows (boundaries lens) size).getD lane 0 = lens.length - 1 := by
  have hlast : (boundaries lens).getD lens.length 0 = lens.sum := by
    rw [getD_boundaries (Nat.le_refl _), List.take_length]
  have hsearch : bucketize (boundaries lens).tail lane = lens.length :=
    bucketize_boundaries (Nat.le_refl _) (by omega) fun t ht htn => by omega
  rw [List.getD_eq_getElem?_getD, tokenRows, List.getElem?_map, List.getElem?_range hlane,
    Option.map_some, Option.getD_some, hsearch, length_boundaries]
  omega

end Lanes

end VllmMetal.PytorchBackend
