import Mathlib.Data.List.Basic
import Mathlib.Data.List.GetD
import Mathlib.Data.List.Induction
import Mathlib.Algebra.BigOperators.Group.List.Basic
import Mathlib.Algebra.GroupWithZero.Nat

/-!
# Ragged packing

Segments of different lengths laid out one after the other, with the list of their
boundaries: segment `s` occupies the rows from the `s`-th boundary up to the next.

## Main definitions

* `boundaries lens` — the cumulative lengths, starting with `0`.
* `searchSegment` — the binary search for the segment of a row.
* `segmentRows cu rows s` — the rows of a segment.
* `tileRows B len t` — the positions of a tile of a segment.

## Main results

* `searchSegment_spec`, `searchSegment_row` — the search finds the segment whose boundaries
  enclose the row.
* `getElem?_flatMap_boundary` — a packed row is a row of its segment.
* `segmentRows_flatMap`, `flatMap_segmentRows` — cutting and packing are inverse.
* `flatMap_tileRows` — enough tiles give every row of a segment once.
-/

namespace VllmMetal

variable {α β : Type*}

theorem getD_of_getElem? {l : List α} {i : ℕ} {x : α} (d : α) (h : l[i]? = some x) :
    l.getD i d = x := by
  rw [List.getD_eq_getElem?_getD, h, Option.getD_some]

/-- A list read index by index. -/
theorem map_getD_range (l : List α) (d : α) {n : ℕ} (h : l.length = n) :
    (List.range n).map (fun i => l.getD i d) = l := by
  subst h
  apply List.ext_getElem (by simp)
  intro i hi hi'
  simp [hi']

/-- Numbers between two bounds, as numbers below a third. -/
theorem filter_range' {lo hi n : ℕ} (hhi : hi ≤ n) (p : ℕ → Bool) :
    (List.range' lo (hi - lo)).filter p =
      (List.range n).filter fun k => lo ≤ k && k < hi && p k := by
  rcases Nat.le_total hi lo with hle | hle
  · rw [Nat.sub_eq_zero_of_le hle, List.range'_zero, List.filter_nil, eq_comm,
      List.filter_eq_nil_iff]
    intro k _
    simp only [Bool.and_eq_true, decide_eq_true_eq]
    omega
  -- the numbers below the third bound, in three parts
  · have hsplit : List.range n =
        List.range' 0 lo ++ (List.range' lo (hi - lo) ++ List.range' hi (n - hi)) := by
      rw [List.range_eq_range']
      have h1 := List.range'_append_1 (s := lo) (m := hi - lo) (n := n - hi)
      have h2 := List.range'_append_1 (s := 0) (m := lo) (n := hi - lo + (n - hi))
      rw [Nat.zero_add] at h2
      rw [Nat.add_sub_cancel' hle] at h1
      rw [h1, h2]
      congr 1
      omega
    rw [hsplit, List.filter_append, List.filter_append]
    have hbefore : (List.range' 0 lo).filter (fun k => lo ≤ k && k < hi && p k) = [] := by
      rw [List.filter_eq_nil_iff]
      intro k hk
      rw [List.mem_range'_1] at hk
      simp only [Bool.and_eq_true, decide_eq_true_eq]
      omega
    have hafter : (List.range' hi (n - hi)).filter (fun k => lo ≤ k && k < hi && p k) = [] := by
      rw [List.filter_eq_nil_iff]
      intro k hk
      rw [List.mem_range'_1] at hk
      simp only [Bool.and_eq_true, decide_eq_true_eq]
      omega
    rw [hbefore, hafter, List.nil_append, List.append_nil]
    refine List.filter_congr fun k hk => ?_
    rw [List.mem_range'_1] at hk
    have hin : (decide (lo ≤ k) && decide (k < hi)) = true := by
      simp only [Bool.and_eq_true, decide_eq_true_eq]
      omega
    rw [hin, Bool.true_and]

/-- The cumulative lengths of the segments. -/
def boundaries (lens : List ℕ) : List ℕ := (List.range (lens.length + 1)).map fun s =>
  (lens.take s).sum

@[simp] theorem length_boundaries (lens : List ℕ) :
    (boundaries lens).length = lens.length + 1 := by
  simp [boundaries]

theorem getD_boundaries {lens : List ℕ} {s : ℕ} (hs : s ≤ lens.length) :
    (boundaries lens).getD s 0 = (lens.take s).sum := by
  rw [List.getD_eq_getElem _ _ (by simp; omega)]
  simp [boundaries]

theorem boundaries_concat (lens : List ℕ) (n : ℕ) :
    boundaries (lens ++ [n]) = boundaries lens ++ [lens.sum + n] := by
  apply List.ext_getElem (by simp)
  intro s hs hs'
  simp only [length_boundaries, List.length_append, List.length_singleton] at hs
  rcases Nat.lt_or_ge s (lens.length + 1) with hlt | hge
  · rw [List.getElem_append_left (by simpa using hlt)]
    simp [boundaries, List.take_append_of_le_length (by omega : s ≤ lens.length)]
  · obtain rfl : s = lens.length + 1 := by omega
    rw [List.getElem_append_right (by simp)]
    simp [boundaries, List.take_of_length_le]

theorem getLastD_boundaries (lens : List ℕ) (d : ℕ) : (boundaries lens).getLastD d = lens.sum := by
  rw [List.getLastD_eq_getLast?, List.getLast?_eq_getElem?]
  simp [boundaries]

/-- The boundaries are sorted. -/
theorem getD_boundaries_mono {lens : List ℕ} {s t : ℕ} (hst : s ≤ t) (ht : t ≤ lens.length) :
    (boundaries lens).getD s 0 ≤ (boundaries lens).getD t 0 := by
  rw [getD_boundaries (Nat.le_trans hst ht), getD_boundaries ht]
  obtain ⟨d, rfl⟩ := Nat.exists_eq_add_of_le hst
  rw [List.take_add, List.sum_append]
  exact Nat.le_add_right _ _

theorem getD_boundaries_succ {lens : List ℕ} {s n : ℕ} (hs : lens[s]? = some n) :
    (boundaries lens).getD (s + 1) 0 = (boundaries lens).getD s 0 + n := by
  have hlt : s < lens.length := (List.getElem?_eq_some_iff.mp hs).1
  rw [getD_boundaries (by omega), getD_boundaries (by omega), List.take_add_one, hs]
  simp

/-- Segments of one element each. -/
theorem getD_boundaries_replicate_one {n s : ℕ} (hs : s ≤ n) :
    (boundaries (List.replicate n 1)).getD s 0 = s := by
  rw [getD_boundaries (by rw [List.length_replicate]; exact hs), List.take_replicate,
    Nat.min_eq_left hs, List.sum_replicate_nat, Nat.mul_one]

/-- Consecutive boundaries are a segment apart. -/
theorem map_sub_boundaries (lens : List ℕ) :
    ((boundaries lens).dropLast.zip (boundaries lens).tail).map (fun ab => ab.2 - ab.1) = lens := by
  apply List.ext_getElem (by simp)
  intro i hi hi'
  have hsucc : (lens.take (i + 1)).sum = (lens.take i).sum + lens[i] :=
    List.sum_take_succ lens i hi'
  simp [boundaries, hsucc]

/-- The boundaries of two groups of segments, one group behind the other. -/
theorem boundaries_append (lens lens' : List ℕ) : boundaries (lens ++ lens') =
    boundaries lens ++ (List.range lens'.length).map fun s =>
      lens.sum + (lens'.take (s + 1)).sum := by
  induction lens' using List.reverseRecOn with
  | nil => simp
  | append_singleton lens' n ih =>
    rw [← List.append_assoc, boundaries_concat, ih, List.length_append, List.length_singleton,
      List.range_succ, List.map_append, List.append_assoc]
    congr 2
    · apply List.map_congr_left
      intro s hs
      rw [List.mem_range] at hs
      rw [List.take_append_of_le_length (by omega)]
    · simp [Nat.add_assoc]

/-- The boundaries built up one after the other. -/
theorem foldl_eq_boundaries (lens : List ℕ) :
    lens.foldl (fun cu n => cu ++ [cu.getLastD 0 + n]) [0] = boundaries lens := by
  induction lens using List.reverseRecOn with
  | nil => rfl
  | append_singleton lens n ih =>
    rw [List.foldl_append, ih, List.foldl_cons, List.foldl_nil, getLastD_boundaries,
      boundaries_concat]

/-- With no empty segment there are at least as many rows as segments, and with no more rows
than segments every segment is one row. -/
theorem length_le_sum {lens : List ℕ} (hpos : ∀ n ∈ lens, 0 < n) : lens.length ≤ lens.sum := by
  induction lens with
  | nil => exact Nat.le_refl _
  | cons n lens ih =>
    have hn := hpos n (by simp)
    have := ih fun m hm => hpos m (List.mem_cons_of_mem n hm)
    rw [List.length_cons, List.sum_cons]
    omega

theorem eq_one_of_sum_le {lens : List ℕ} (hpos : ∀ n ∈ lens, 0 < n)
    (hsum : lens.sum ≤ lens.length) {n : ℕ} (hn : n ∈ lens) : n = 1 := by
  induction lens with
  | nil => simp at hn
  | cons m lens ih =>
    have hm := hpos m (by simp)
    have hpos' : ∀ k ∈ lens, 0 < k := fun k hk => hpos k (List.mem_cons_of_mem m hk)
    have hle := length_le_sum hpos'
    rw [List.length_cons, List.sum_cons] at hsum
    rcases List.mem_cons.mp hn with rfl | hn
    · omega
    · exact ih hpos' (by omega) hn

/-! ### Searching -/

/-- Bisection for the last boundary of `[lo, hi]` that is at most `k`; `fuel` bounds the
number of halvings. -/
def bisect (cu : List ℕ) (k : ℕ) : ℕ → ℕ → ℕ → ℕ
  | 0, lo, _ => lo
  | fuel + 1, lo, hi =>
      if lo < hi then
        let mid := (lo + hi + 1) / 2
        if cu.getD mid 0 ≤ k then bisect cu k fuel mid hi else bisect cu k fuel lo (mid - 1)
      else lo

/-- The segment of row `k` among `n` segments: each halving makes `[0, n]` shorter, so `n`
of them are enough. -/
def searchSegment (cu : List ℕ) (k n : ℕ) : ℕ := bisect cu k n 0 n

theorem bisect_spec (cu : List ℕ) (k n : ℕ)
    (hmono : ∀ s t, s ≤ t → t ≤ n → cu.getD s 0 ≤ cu.getD t 0) (fuel lo hi : ℕ)
    (hfuel : hi - lo ≤ fuel) (hlohi : lo ≤ hi) (hhi : hi ≤ n) (hlo : cu.getD lo 0 ≤ k)
    (habove : ∀ t, hi < t → t ≤ n → k < cu.getD t 0) :
    bisect cu k fuel lo hi ≤ n ∧ cu.getD (bisect cu k fuel lo hi) 0 ≤ k ∧
      ∀ t, bisect cu k fuel lo hi < t → t ≤ n → k < cu.getD t 0 := by
  induction fuel generalizing lo hi with
  | zero =>
    obtain rfl : lo = hi := by omega
    exact ⟨hhi, hlo, habove⟩
  | succ fuel ih =>
    rw [bisect]
    split
    · next hlt =>
      simp only
      split
      · next hmid => exact ih _ _ (by omega) (by omega) hhi hmid habove
      · next hmid =>
        refine ih _ _ (by omega) (by omega) (by omega) hlo fun t ht htn => ?_
        have := hmono ((lo + hi + 1) / 2) t (by omega) htn
        omega
    · next hge =>
      obtain rfl : lo = hi := by omega
      exact ⟨hhi, hlo, habove⟩

/-- **The search finds the segment whose boundaries enclose the row.** -/
theorem searchSegment_spec {lens : List ℕ} {k : ℕ} (hk : k < lens.sum) :
    ∃ s n, searchSegment (boundaries lens) k lens.length = s ∧ lens[s]? = some n ∧
      (boundaries lens).getD s 0 ≤ k ∧ k < (boundaries lens).getD s 0 + n := by
  obtain ⟨hle, hlo, habove⟩ := bisect_spec (boundaries lens) k lens.length
    (fun s t hst ht => getD_boundaries_mono hst ht) lens.length 0 lens.length (by omega)
    (by omega) (Nat.le_refl _) (by rw [getD_boundaries (by omega)]; simp) (fun t ht htn => by omega)
  set s := searchSegment (boundaries lens) k lens.length with hs
  have hne : s ≠ lens.length := by
    intro heq
    have hlast : (boundaries lens).getD s 0 = lens.sum := by
      rw [heq, getD_boundaries (Nat.le_refl _), List.take_length]
    have : (boundaries lens).getD s 0 ≤ k := hlo
    omega
  have hle' : s ≤ lens.length := hle
  have hget : lens[s]? = some lens[s] := List.getElem?_eq_getElem (by omega)
  refine ⟨s, lens[s], rfl, hget, hlo, ?_⟩
  rw [← getD_boundaries_succ hget]
  exact habove (s + 1) (Nat.lt_succ_self _) (by omega)

/-- The bisection finds the one step that holds the row. -/
theorem bisect_eq {cu : List ℕ} {k n s : ℕ}
    (hmono : ∀ s t, s ≤ t → t ≤ n → cu.getD s 0 ≤ cu.getD t 0) (hs : s < n)
    (hlo : cu.getD s 0 ≤ k) (hhi : k < cu.getD (s + 1) 0) : bisect cu k n 0 n = s := by
  obtain ⟨hle, hat, habove⟩ := bisect_spec cu k n hmono n 0 n (by omega) (Nat.zero_le n)
    (Nat.le_refl n) (Nat.le_trans (hmono 0 s (Nat.zero_le s) (by omega)) hlo)
    fun t ht htn => by omega
  rcases Nat.lt_trichotomy (bisect cu k n 0 n) s with hless | heq | hmore
  · have := habove s hless (by omega)
    omega
  · exact heq
  · have := hmono (s + 1) (bisect cu k n 0 n) hmore hle
    omega

/-- A row is in one segment only. -/
theorem searchSegment_row {lens : List ℕ} {s n j : ℕ} (hs : lens[s]? = some n) (hj : j < n) :
    searchSegment (boundaries lens) ((boundaries lens).getD s 0 + j) lens.length = s := by
  refine bisect_eq (fun s t hst ht => getD_boundaries_mono hst ht)
    (List.getElem?_eq_some_iff.mp hs).1 (Nat.le_add_right _ _) ?_
  rw [getD_boundaries_succ hs]
  omega

/-! ### Packed rows -/

/-- **A packed row is a row of its segment.** -/
theorem getElem?_flatMap_boundary {l : List α} {f : α → List β} {s j : ℕ} {a : α}
    (ha : l[s]? = some a) (hj : j < (f a).length) :
    (l.flatMap f)[(boundaries (l.map fun a => (f a).length)).getD s 0 + j]? = (f a)[j]? := by
  induction l generalizing s with
  | nil => simp at ha
  | cons b l ih =>
    cases s with
    | zero =>
      simp only [List.getElem?_cons_zero, Option.some.injEq] at ha
      subst ha
      rw [getD_boundaries (Nat.zero_le _), List.take_zero, List.sum_nil, Nat.zero_add,
        List.flatMap_cons, List.getElem?_append_left hj]
    | succ s =>
      have hs : s < l.length := by
        simp only [List.getElem?_cons_succ] at ha
        exact (List.getElem?_eq_some_iff.mp ha).1
      simp only [List.getElem?_cons_succ] at ha
      have h := ih ha
      rw [getD_boundaries (by simp; omega)] at h
      rw [getD_boundaries (by simp; omega), List.map_cons, List.take_succ_cons, List.sum_cons,
        List.flatMap_cons, Nat.add_assoc, List.getElem?_append_right (by omega),
        Nat.add_sub_cancel_left, h]

/-- Packed rows of one length. -/
theorem getElem?_flatMap_of_length {l : List α} {f : α → List β} {n c t : ℕ} {a : α}
    (hlen : ∀ b, (f b).length = n) (ha : l[c]? = some a) (ht : t < n) :
    (l.flatMap f)[c * n + t]? = (f a)[t]? := by
  have hrow := getElem?_flatMap_boundary ha ((hlen a).symm ▸ ht)
  have hc : c ≤ l.length := Nat.le_of_lt (List.getElem?_eq_some_iff.mp ha).1
  have hstart : (boundaries (l.map fun b => (f b).length)).getD c 0 = c * n := by
    rw [getD_boundaries (by simpa using hc), List.map_congr_left fun b _ => hlen b,
      List.map_const', List.take_replicate, List.sum_replicate_nat, Nat.min_eq_left hc]
  rw [hstart] at hrow
  exact hrow

/-- Entries at one index of two packings of the same segments come from one segment. -/
theorem getElem?_flatMap_pair {γ : Type*} {l : List α} {f : α → List β} {g : α → List γ}
    (hlen : ∀ a ∈ l, (f a).length = (g a).length) {i : ℕ} {b : β} {c : γ}
    (hb : (l.flatMap f)[i]? = some b) (hc : (l.flatMap g)[i]? = some c) :
    ∃ a ∈ l, ∃ j : ℕ, (f a)[j]? = some b ∧ (g a)[j]? = some c := by
  induction l generalizing i with
  | nil => simp at hb
  | cons a l ih =>
    have ha := hlen a (by simp)
    rw [List.flatMap_cons] at hb hc
    rcases Nat.lt_or_ge i (f a).length with hi | hi
    · rw [List.getElem?_append_left hi] at hb
      rw [List.getElem?_append_left (ha ▸ hi)] at hc
      exact ⟨a, by simp, i, hb, hc⟩
    · rw [List.getElem?_append_right hi] at hb
      rw [List.getElem?_append_right (ha ▸ hi), ← ha] at hc
      obtain ⟨a', ha', j, hj⟩ := ih (fun a' ha' => hlen a' (List.mem_cons_of_mem a ha')) hb hc
      exact ⟨a', List.mem_cons_of_mem a ha', j, hj⟩

/-! ### Cutting rows into segments -/

/-- The rows between two boundaries. -/
def segmentRows (cu : List ℕ) (rows : List α) (s : ℕ) : List α :=
  (rows.drop (cu.getD s 0)).take (cu.getD (s + 1) 0 - cu.getD s 0)

/-- The length of a segment, from its boundaries. -/
theorem getD_boundaries_sub {lens : List ℕ} {s n : ℕ} (hs : lens[s]? = some n) :
    (boundaries lens).getD (s + 1) 0 - (boundaries lens).getD s 0 = n := by
  rw [getD_boundaries_succ hs]
  omega

/-- The same for any index, the segments behind the last having no rows. -/
theorem getD_boundaries_sub_getD (lens : List ℕ) (s : ℕ) :
    (boundaries lens).getD (s + 1) 0 - (boundaries lens).getD s 0 = lens.getD s 0 := by
  rcases Nat.lt_or_ge s lens.length with hs | hs
  · exact getD_boundaries_sub (by rw [List.getD_eq_getElem?_getD, List.getElem?_eq_getElem hs]; rfl)
  · rw [List.getD_eq_default _ _ (by rw [length_boundaries]; omega), List.getD_eq_default _ _ hs,
      Nat.zero_sub]

theorem segmentRows_boundaries {lens : List ℕ} {rows : List α} {s n : ℕ}
    (hs : lens[s]? = some n) : segmentRows (boundaries lens) rows s =
      (rows.drop ((boundaries lens).getD s 0)).take n := by
  rw [segmentRows, getD_boundaries_sub hs]

theorem length_segmentRows {lens : List ℕ} {rows : List α} {s n : ℕ} (hs : lens[s]? = some n)
    (hrows : rows.length = lens.sum) : (segmentRows (boundaries lens) rows s).length = n := by
  have hlt : s + 1 ≤ lens.length := (List.getElem?_eq_some_iff.mp hs).1
  have hle := getD_boundaries_mono hlt (Nat.le_refl lens.length)
  rw [getD_boundaries_succ hs, getD_boundaries (Nat.le_refl _), List.take_length] at hle
  rw [segmentRows_boundaries hs, List.length_take, List.length_drop]
  omega

/-- **Cutting packed segments gives them back.** -/
theorem segmentRows_flatMap {l : List α} {f : α → List β} {s : ℕ} {a : α}
    (ha : l[s]? = some a) :
    segmentRows (boundaries (l.map fun a => (f a).length)) (l.flatMap f) s = f a := by
  have hlen : (l.map fun a => (f a).length)[s]? = some (f a).length := by
    rw [List.getElem?_map, ha, Option.map_some]
  rw [segmentRows_boundaries hlen]
  refine List.ext_getElem? fun j => ?_
  rcases Nat.lt_or_ge j (f a).length with hj | hj
  · rw [List.getElem?_take_of_lt hj, List.getElem?_drop, getElem?_flatMap_boundary ha hj]
  · rw [List.getElem?_eq_none hj, List.getElem?_eq_none]
    exact Nat.le_trans (List.length_take_le _ _) hj

/-- **Packing the segments that rows were cut into gives the rows back.** -/
theorem flatMap_segmentRows {lens : List ℕ} {rows : List α} (hrows : rows.length = lens.sum) :
    (List.range lens.length).flatMap (segmentRows (boundaries lens) rows) = rows := by
  have htake : ∀ n ≤ lens.length, (List.range n).flatMap (segmentRows (boundaries lens) rows) =
      rows.take ((boundaries lens).getD n 0) := by
    intro n hn
    induction n with
    | zero => rw [getD_boundaries (Nat.zero_le _)]; rfl
    | succ n ih =>
      have hn' : lens[n]? = some lens[n] := List.getElem?_eq_getElem hn
      rw [List.range_succ, List.flatMap_append, ih (Nat.le_of_lt hn), List.flatMap_singleton,
        segmentRows_boundaries hn', getD_boundaries_succ hn', List.take_add]
  rw [htake _ (Nat.le_refl _), getD_boundaries (Nat.le_refl _), List.take_length, ← hrows,
    List.take_length]

/-- Reading consecutive rows. -/
theorem filterMap_range_getElem? (rows : List α) (a n : ℕ) :
    (List.range n).filterMap (fun j => rows[a + j]?) = (rows.drop a).take n := by
  induction n with
  | zero => simp
  | succ n ih =>
    rw [List.range_succ, List.filterMap_append, ih, List.take_add_one, List.getElem?_drop]
    rfl

/-- Among positive weights, a sublist with the whole weight is the whole list. -/
theorem eq_of_sublist_of_sum_eq {f : α → ℕ} {l l' : List α} (h : l.Sublist l')
    (hpos : ∀ a ∈ l', 0 < f a) (hsum : (l'.map f).sum ≤ (l.map f).sum) : l = l' := by
  have hle : ∀ {l l' : List α}, l.Sublist l' → (l.map f).sum ≤ (l'.map f).sum := by
    intro l l' h
    induction h with
    | slnil => exact Nat.le_refl _
    | cons a _ ih => rw [List.map_cons, List.sum_cons]; omega
    | cons_cons a _ ih => rw [List.map_cons, List.map_cons, List.sum_cons, List.sum_cons]; omega
  induction h with
  | slnil => rfl
  | cons a h _ =>
    have ha := hpos a (by simp)
    have := hle h
    rw [List.map_cons, List.sum_cons] at hsum
    omega
  | cons_cons a h ih =>
    rw [List.map_cons, List.map_cons, List.sum_cons, List.sum_cons] at hsum
    rw [ih (fun b hb => hpos b (List.mem_cons_of_mem a hb)) (by omega)]

/-! ### Tiles -/

/-- The positions of tile `t` of a segment cut into tiles of `B` rows. -/
def tileRows (B len t : ℕ) : List ℕ :=
  if len ≤ t * B then [] else List.range' (t * B) (min B (len - t * B))

/-- **Enough tiles give every row once, in order.** -/
theorem flatMap_tileRows (B len m : ℕ) :
    (List.range m).flatMap (tileRows B len) = List.range (min len (m * B)) := by
  induction m with
  | zero => simp
  | succ m ih =>
    have hmul : (m + 1) * B = m * B + B := Nat.succ_mul m B
    rw [List.range_succ, List.flatMap_append, ih, List.flatMap_singleton, tileRows]
    split
    · next hdone => rw [List.append_nil, Nat.min_eq_left hdone, Nat.min_eq_left (by omega)]
    · next hmore =>
      rw [List.range_eq_range', List.range_eq_range', Nat.min_eq_right (by omega)]
      have happend := List.range'_append_1 (s := 0) (m := m * B) (n := min B (len - m * B))
      rw [Nat.zero_add] at happend
      rw [happend]
      congr 1
      omega

/-- Indices that give nothing. -/
theorem flatMap_range_of_nil {f : ℕ → List α} {m n : ℕ} (hmn : m ≤ n)
    (h : ∀ i, m ≤ i → i < n → f i = []) :
    (List.range n).flatMap f = (List.range m).flatMap f := by
  obtain ⟨d, rfl⟩ := Nat.exists_eq_add_of_le hmn
  rw [List.range_add, List.flatMap_append, List.flatMap_map]
  have hnil : ∀ i ∈ List.range d, f (m + i) = [] := by
    intro i hi
    rw [List.mem_range] at hi
    exact h _ (Nat.le_add_right m i) (by omega)
  rw [List.flatMap_eq_nil_iff.mpr hnil, List.append_nil]

/-- Segments that give something for each of their packed rows. -/
theorem flatMap_range_eq_zipIdx {γ : Type*} {l : List α} {f : α → List β} {g : ℕ → List γ}
    (row : β × ℕ → γ) (hg : ∀ i a, l[i]? = some a → g i =
      ((f a).zipIdx ((boundaries (l.map fun a => (f a).length)).getD i 0)).map row) :
    (List.range l.length).flatMap g = (l.flatMap f).zipIdx.map row := by
  induction l using List.reverseRecOn with
  | nil => rfl
  | append_singleton l a ih =>
    -- the boundaries of the segments before do not change
    have hstart : ∀ i ≤ l.length,
        (boundaries ((l ++ [a]).map fun a => (f a).length)).getD i 0 =
          ((l.map fun a => (f a).length).take i).sum := by
      intro i hi
      rw [getD_boundaries (by simp; omega), List.map_append,
        List.take_append_of_le_length (by simpa using hi)]
    have hbefore : (List.range l.length).flatMap g = (l.flatMap f).zipIdx.map row := by
      refine ih fun i b hb => ?_
      have hi := (List.getElem?_eq_some_iff.mp hb).1
      rw [hg i b (by rw [List.getElem?_append_left hi, hb]), hstart i (Nat.le_of_lt hi),
        getD_boundaries (by simpa using Nat.le_of_lt hi)]
    have hlast := hg l.length a (by simp)
    rw [hstart l.length (Nat.le_refl _), List.take_of_length_le (by simp)] at hlast
    rw [List.length_append, List.length_singleton, List.range_succ, List.flatMap_append, hbefore,
      List.flatMap_singleton, hlast, List.flatMap_append, List.flatMap_singleton,
      List.zipIdx_append, List.map_append, List.length_flatMap, Nat.zero_add]

/-- A grid of `m * n` cells, row by row. -/
theorem range_mul_eq_flatMap (m n : ℕ) :
    List.range (m * n) = (List.range m).flatMap fun s => List.range' (s * n) n := by
  induction m with
  | zero => simp
  | succ m ih =>
    rw [List.range_succ, List.flatMap_append, ← ih, List.flatMap_singleton, Nat.succ_mul,
      List.range_eq_range', List.range_eq_range']
    have happend := List.range'_append_1 (s := 0) (m := m * n) (n := n)
    rw [Nat.zero_add] at happend
    exact happend.symm

/-- A loop of rows of one length, in one range. -/
theorem flatMap_range_map {α : Type*} (m n : ℕ) (f : ℕ → ℕ → α) :
    ((List.range m).flatMap fun i => (List.range n).map (f i))
      = (List.range (m * n)).map fun k => f (k / n) (k % n) := by
  rw [range_mul_eq_flatMap, List.map_flatMap]
  apply List.flatMap_congr
  intro i _
  rw [List.range'_eq_map_range, List.map_map]
  apply List.map_congr_left
  intro j hj
  rw [List.mem_range] at hj
  show f i j = f ((i * n + j) / n) ((i * n + j) % n)
  rw [Nat.mul_comm, Nat.mul_add_div (by omega), Nat.div_eq_of_lt hj, Nat.mul_add_mod,
    Nat.mod_eq_of_lt hj, Nat.add_zero]

end VllmMetal
