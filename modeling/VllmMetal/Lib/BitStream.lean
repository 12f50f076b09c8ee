import Mathlib.Data.List.Basic
import Mathlib.Data.List.GetD
import Mathlib.Algebra.GroupWithZero.Nat

/-!
# Bit streams

A list of machine words, of each of which the `w` low bits are used, is a stream of bits, the
least significant bit of the first word first.  Two lists that are the same stream hold the same
data, however they cut it into words.

## Main definitions

* `streamBit w xs p` — bit `p` of the stream of `xs`.
* `SameBits w v xs ys` — `xs` and `ys` are the same stream.
* `orShares` — the codes that overlap a word, shifted into place.
* `reshapeRows a xs` — a list cut into rows of `a` entries.

## Main results

* `SameBits.append`, `sameBits_flatMap` — streams are put together row by row.
* `getLsbD_orShares` — a word of shares holds the stream's bits.
* `SameBits.unique` — the words of a stream are determined by their width.
-/

namespace VllmMetal

variable {α β : Type*} {m n k : ℕ}

/-- Bit `p` of the stream to which every word gives its `w` low bits. -/
def streamBit (w : ℕ) (xs : List (BitVec m)) (p : ℕ) : Bool := (xs.getD (p / w) 0).getLsbD (p % w)

/-- Two lists of words are one stream. -/
structure SameBits (w v : ℕ) (xs : List (BitVec m)) (ys : List (BitVec n)) : Prop where
  length_eq : xs.length * w = ys.length * v
  bit_eq : ∀ p < xs.length * w, streamBit w xs p = streamBit v ys p

theorem streamBit_mul_add {w : ℕ} (xs : List (BitVec m)) (i : ℕ) {q : ℕ} (hq : q < w) :
    streamBit w xs (i * w + q) = (xs.getD i 0).getLsbD q := by
  have hdiv : (i * w + q) / w = i := by
    rw [Nat.mul_comm, Nat.mul_add_div (by omega), Nat.div_eq_of_lt hq, Nat.add_zero]
  have hmod : (i * w + q) % w = q := by
    rw [Nat.mul_comm, Nat.mul_add_mod, Nat.mod_eq_of_lt hq]
  rw [streamBit, hdiv, hmod]

theorem streamBit_append_left {w : ℕ} {xs : List (BitVec m)} (ys : List (BitVec m)) {p : ℕ}
    (hp : p < xs.length * w) : streamBit w (xs ++ ys) p = streamBit w xs p := by
  have hlt : p / w < xs.length := Nat.div_lt_of_lt_mul (by rwa [Nat.mul_comm])
  rw [streamBit, streamBit, List.getD_append _ _ _ _ hlt]

theorem streamBit_append_right {w : ℕ} (xs ys : List (BitVec m)) (p : ℕ) (hw : 0 < w) :
    streamBit w (xs ++ ys) (xs.length * w + p) = streamBit w ys p := by
  have hdiv : (xs.length * w + p) / w = xs.length + p / w := by
    rw [Nat.mul_comm, Nat.mul_add_div hw]
  have hmod : (xs.length * w + p) % w = p % w := by
    rw [Nat.mul_comm, Nat.mul_add_mod]
  rw [streamBit, streamBit, hdiv, hmod, List.getD_append_right _ _ _ _ (Nat.le_add_right _ _),
    Nat.add_sub_cancel_left]

namespace SameBits

variable {w v u : ℕ} {xs xs' : List (BitVec m)} {ys ys' : List (BitVec n)} {zs : List (BitVec k)}

theorem symm (h : SameBits w v xs ys) : SameBits v w ys xs :=
  ⟨h.length_eq.symm, fun p hp => (h.bit_eq p (h.length_eq ▸ hp)).symm⟩

theorem trans (h : SameBits w v xs ys) (h' : SameBits v u ys zs) : SameBits w u xs zs :=
  ⟨h.length_eq.trans h'.length_eq, fun p hp =>
    (h.bit_eq p hp).trans (h'.bit_eq p (h.length_eq ▸ hp))⟩

theorem nil : SameBits w v ([] : List (BitVec m)) ([] : List (BitVec n)) :=
  ⟨by simp, fun p hp => absurd hp (by simp)⟩

/-- Streams one behind the other. -/
theorem append (h : SameBits w v xs ys) (h' : SameBits w v xs' ys') (hw : 0 < w) (hv : 0 < v) :
    SameBits w v (xs ++ xs') (ys ++ ys') := by
  have hlen := h.length_eq
  have hlen' := h'.length_eq
  refine ⟨by rw [List.length_append, List.length_append, Nat.add_mul, Nat.add_mul, hlen, hlen'],
    fun p hp => ?_⟩
  rw [List.length_append, Nat.add_mul] at hp
  rcases Nat.lt_or_ge p (xs.length * w) with hlt | hge
  · rw [streamBit_append_left _ hlt, streamBit_append_left _ (hlen ▸ hlt), h.bit_eq p hlt]
  · obtain ⟨q, rfl⟩ := Nat.exists_eq_add_of_le hge
    rw [streamBit_append_right _ _ _ hw, h'.bit_eq q (by omega), hlen,
      streamBit_append_right _ _ _ hv]

/-- Code `i` is read off the stream bit by bit. -/
theorem getLsbD_getD (h : SameBits w v xs ys) {i q : ℕ} (hi : i < xs.length) (hq : q < w) :
    (xs.getD i 0).getLsbD q = streamBit v ys (i * w + q) := by
  have hle : (i + 1) * w ≤ xs.length * w := Nat.mul_le_mul_right w hi
  rw [Nat.succ_mul] at hle
  rw [← streamBit_mul_add xs i hq, h.bit_eq _ (by omega)]

/-- **The words of a stream are determined by their width.** -/
theorem unique {ys : List (BitVec m)} (h : SameBits w w xs ys) (hw : 0 < w)
    (hxs : ∀ x ∈ xs, x.toNat < 2 ^ w) (hys : ∀ y ∈ ys, y.toNat < 2 ^ w) : xs = ys := by
  have hlen : xs.length = ys.length := Nat.eq_of_mul_eq_mul_right hw h.length_eq
  refine List.ext_getElem hlen fun i hi hi' => ?_
  apply BitVec.eq_of_getLsbD_eq
  intro q _
  rcases Nat.lt_or_ge q w with hq | hq
  · have hbit := h.getLsbD_getD hi hq
    rwa [streamBit_mul_add _ _ hq, List.getD_eq_getElem _ _ hi,
      List.getD_eq_getElem _ _ hi'] at hbit
  · have hhigh : ∀ x : BitVec m, x.toNat < 2 ^ w → x.getLsbD q = false := fun x hx =>
      Nat.testBit_lt_two_pow (Nat.lt_of_lt_of_le hx (Nat.pow_le_pow_right (by omega) hq))
    rw [hhigh _ (hxs _ (List.getElem_mem hi)), hhigh _ (hys _ (List.getElem_mem hi'))]

end SameBits

/-! ### Masks and shares -/

/-- The mask of the `w` low bits. -/
def lowMask (n w : ℕ) : BitVec n := (1#n <<< w) - 1#n

theorem toNat_lowMask {w : ℕ} (hw : w < n) : (lowMask n w).toNat = 2 ^ w - 1 := by
  have hpow : 2 ^ w < 2 ^ n := Nat.pow_lt_pow_right (by omega) hw
  have hone : 1 ≤ 2 ^ w := Nat.one_le_two_pow
  have hone' : (1#n).toNat = 1 := by
    rw [BitVec.toNat_ofNat, Nat.mod_eq_of_lt (by omega)]
  have hshift : (1#n <<< w).toNat = 2 ^ w := by
    rw [BitVec.toNat_shiftLeft, hone', Nat.shiftLeft_eq, Nat.one_mul, Nat.mod_eq_of_lt hpow]
  rw [lowMask, BitVec.toNat_sub_of_le, hshift, hone']
  rw [BitVec.le_def, hshift, hone']
  exact hone

theorem getLsbD_lowMask {w : ℕ} (hw : w < n) (q : ℕ) :
    (lowMask n w).getLsbD q = decide (q < w) := by
  rw [BitVec.getLsbD, toNat_lowMask hw, Nat.testBit_two_pow_sub_one]

theorem toNat_and_lowMask_lt {w : ℕ} (hw : w < n) (x : BitVec n) :
    (x &&& lowMask n w).toNat < 2 ^ w := by
  have hone : 1 ≤ 2 ^ w := Nat.one_le_two_pow
  rw [BitVec.toNat_and, toNat_lowMask hw]
  exact Nat.lt_of_le_of_lt Nat.and_le_right (by omega)

theorem getLsbD_and_lowMask {w : ℕ} (hw : w < n) (x : BitVec n) (q : ℕ) :
    (x &&& lowMask n w).getLsbD q = (x.getLsbD q && decide (q < w)) := by
  rw [BitVec.getLsbD_and, getLsbD_lowMask hw]

/-- What code `e` gives to the word that starts at bit `start`. -/
def share (w start : ℕ) (code : ℕ → BitVec n) (e : ℕ) : BitVec n :=
  if start ≤ e * w then code e <<< (e * w - start) else code e >>> (start - e * w)

/-- The shares of some codes, put together. -/
def orShares (w start : ℕ) (code : ℕ → BitVec n) (es : List ℕ) : BitVec n :=
  es.foldl (fun word e => word ||| share w start code e) 0

theorem getLsbD_share {w start q : ℕ} (code : ℕ → BitVec n) (e : ℕ) (hq : q < n) :
    (share w start code e).getLsbD q =
      (decide (e * w ≤ start + q) && (code e).getLsbD (start + q - e * w)) := by
  rw [share]
  split
  · next hle =>
    rw [BitVec.getLsbD_shiftLeft]
    by_cases hlt : q < e * w - start
    · rw [decide_eq_true hlt, decide_eq_false (by omega : ¬ e * w ≤ start + q)]
      simp
    · rw [decide_eq_false hlt, decide_eq_true hq, decide_eq_true (by omega : e * w ≤ start + q),
        show q - (e * w - start) = start + q - e * w by omega]
      simp
  · next hgt =>
    rw [BitVec.getLsbD_ushiftRight, decide_eq_true (by omega : e * w ≤ start + q),
      show start - e * w + q = start + q - e * w by omega, Bool.true_and]

/-- **Every bit of a word of shares is the stream's bit**, when the code that owns it is among
the shares. -/
theorem getLsbD_orShares {w start q : ℕ} {code : ℕ → BitVec n} {es : List ℕ} (hq : q < n)
    (hcode : ∀ e ∈ es, ∀ b, w ≤ b → (code e).getLsbD b = false) (hmem : (start + q) / w ∈ es) :
    (orShares w start code es).getLsbD q = (code ((start + q) / w)).getLsbD ((start + q) % w) := by
  -- only the code that owns the bit has a share in it
  have hshare : ∀ e ∈ es, e ≠ (start + q) / w → (share w start code e).getLsbD q = false := by
    intro e he hne
    rw [getLsbD_share code e hq]
    by_cases hle : e * w ≤ start + q
    · rw [hcode e he _ ?_, Bool.and_false]
      by_contra hlt
      exact hne (Nat.div_eq_of_lt_le hle (by rw [Nat.succ_mul]; omega)).symm
    · rw [decide_eq_false hle, Bool.false_and]
  have hown : (share w start code ((start + q) / w)).getLsbD q =
      (code ((start + q) / w)).getLsbD ((start + q) % w) := by
    have hle : (start + q) / w * w ≤ start + q := Nat.div_mul_le_self _ _
    rw [getLsbD_share _ _ hq, decide_eq_true hle, Bool.true_and]
    congr 1
    have := Nat.div_add_mod (start + q) w
    rw [Nat.mul_comm] at this
    omega
  have hfold : ∀ (l : List ℕ) (word : BitVec n), (∀ e ∈ l, e ∈ es) →
      (l.foldl (fun word e => word ||| share w start code e) word).getLsbD q =
        (word.getLsbD q || (decide ((start + q) / w ∈ l) &&
          (code ((start + q) / w)).getLsbD ((start + q) % w))) := by
    intro l
    -- induction on the codes, with the word so far free
    induction l with
    | nil => intro word _; simp
    | cons e l ih =>
      intro word hl
      rw [List.foldl_cons, ih _ fun e' he' => hl e' (List.mem_cons_of_mem e he'),
        BitVec.getLsbD_or]
      by_cases heq : e = (start + q) / w
      · rw [heq, hown]
        cases word.getLsbD q <;>
          cases (code ((start + q) / w)).getLsbD ((start + q) % w) <;> simp
      · rw [hshare e (hl e (by simp)) heq, Bool.or_false]
        simp [Ne.symm heq]
  rw [orShares, hfold es 0 fun _ he => he, decide_eq_true hmem]
  simp

/-- Slices of one word are its stream. -/
theorem streamBit_slices {w : ℕ} (word : BitVec n) (count : ℕ) {k : ℕ} (hw : w < n) (hk : w ≤ k)
    {p : ℕ} (hp : p < count * w) :
    streamBit w ((List.range count).map fun i =>
      ((word >>> (i * w)) &&& lowMask n w).setWidth k) p = word.getLsbD p := by
  have hpos : 0 < w := Nat.pos_of_ne_zero fun h => by simp [h] at hp
  have hi : p / w < count := Nat.div_lt_of_lt_mul (by rwa [Nat.mul_comm])
  have hq : p % w < w := Nat.mod_lt p hpos
  rw [streamBit, List.getD_eq_getElem _ _ (by simpa using hi), List.getElem_map,
    List.getElem_range, BitVec.getLsbD_setWidth, decide_eq_true (by omega : p % w < k),
    Bool.true_and, getLsbD_and_lowMask hw, decide_eq_true hq, Bool.and_true,
    BitVec.getLsbD_ushiftRight, Nat.mul_comm, Nat.div_add_mod]

/-! ### Rows -/

/-- `reshape(-1, a)` of a list whose length `a` divides. -/
def reshapeRows (a : ℕ) (xs : List α) : List (List α) :=
  (List.range (xs.length / a)).map fun j => (xs.drop (j * a)).take a

theorem length_of_mem_reshapeRows {a : ℕ} {xs row : List α} (h : row ∈ reshapeRows a xs) :
    row.length = a := by
  obtain ⟨j, hj, rfl⟩ := List.mem_map.mp h
  rw [List.mem_range] at hj
  have hle : (j + 1) * a ≤ xs.length / a * a := Nat.mul_le_mul_right a hj
  have := Nat.div_mul_le_self xs.length a
  rw [Nat.succ_mul] at hle
  rw [List.length_take, List.length_drop]
  omega

/-- **The rows put together are the list.** -/
theorem flatten_reshapeRows {a : ℕ} {xs : List α} (h : a ∣ xs.length) :
    (reshapeRows a xs).flatten = xs := by
  have htake : ∀ i ≤ xs.length / a, ((List.range i).map fun j =>
      (xs.drop (j * a)).take a).flatten = xs.take (i * a) := by
    intro i hi
    induction i with
    | zero => simp
    | succ i ih =>
      rw [List.range_succ, List.map_append, List.flatten_append, ih (by omega), Nat.succ_mul,
        List.take_add]
      simp
  rw [reshapeRows, htake _ (Nat.le_refl _), Nat.div_mul_cancel h, List.take_length]

/-- Row `r` of a list that is cut into rows. -/
theorem getElem?_reshapeRows {a r : ℕ} {xs : List α} (hr : r < xs.length / a) :
    (reshapeRows a xs)[r]? = some ((xs.drop (r * a)).take a) := by
  rw [reshapeRows, List.getElem?_map, List.getElem?_range hr, Option.map_some]

/-- Rows of one length, one after the other. -/
theorem getElem?_flatten_of_length {rows : List (List α)} {a r i : ℕ} {row : List α}
    (hlen : ∀ row ∈ rows, row.length = a) (hrow : rows[r]? = some row) (hi : i < a) :
    rows.flatten[r * a + i]? = row[i]? := by
  induction rows generalizing r with
  | nil => simp at hrow
  | cons first rows ih =>
    have hfirst := hlen first List.mem_cons_self
    rw [List.flatten_cons]
    cases r with
    | zero =>
      rw [List.getElem?_cons_zero, Option.some.injEq] at hrow
      subst hrow
      rw [Nat.zero_mul, Nat.zero_add, List.getElem?_append_left (by omega)]
    | succ r =>
      rw [Nat.succ_mul, List.getElem?_append_right (by omega)]
      have hplace : r * a + a + i - first.length = r * a + i := by omega
      rw [hplace]
      exact ih (fun row hrow => hlen row (List.mem_cons_of_mem _ hrow)) hrow

/-- A range cut into rows. -/
theorem reshapeRows_map_range {a : ℕ} (ha : 0 < a) (n : ℕ) (f : ℕ → α) :
    reshapeRows a ((List.range (n * a)).map f)
      = (List.range n).map fun r => (List.range a).map fun j => f (r * a + j) := by
  rw [reshapeRows, List.length_map, List.length_range, Nat.mul_div_cancel _ ha]
  apply List.map_congr_left
  intro r hr
  rw [List.mem_range] at hr
  have hle := Nat.mul_le_mul_right a (Nat.succ_le_of_lt hr)
  rw [Nat.succ_mul] at hle
  apply List.ext_getElem
  · simp only [List.length_take, List.length_drop, List.length_map, List.length_range]
    omega
  · intro j _ _
    simp

theorem length_flatMap_reshapeRows {a b : ℕ} {xs : List α} {f : List α → List β}
    (hf : ∀ row, (f row).length = b) : ((reshapeRows a xs).flatMap f).length =
      xs.length / a * b := by
  rw [List.length_flatMap, List.map_congr_left fun row _ => hf row, List.map_const', reshapeRows,
    List.length_map, List.length_range, List.sum_replicate_nat]

/-- Rows that are recoded one by one are recoded as a whole. -/
theorem sameBits_flatMap {w v a : ℕ} {xs : List (BitVec m)} {f : List (BitVec m) → List (BitVec n)}
    (hw : 0 < w) (hv : 0 < v) (ha : a ∣ xs.length)
    (hf : ∀ row : List (BitVec m), row.length = a → SameBits w v row (f row)) :
    SameBits w v xs ((reshapeRows a xs).flatMap f) := by
  have hrows : ∀ rows : List (List (BitVec m)), (∀ row ∈ rows, row.length = a) →
      SameBits w v rows.flatten (rows.flatMap f) := by
    intro rows
    induction rows with
    | nil => exact fun _ => SameBits.nil
    | cons row rows ih =>
      intro hlen
      rw [List.flatten_cons, List.flatMap_cons]
      exact (hf row (hlen row (by simp))).append
        (ih fun row' hrow' => hlen row' (List.mem_cons_of_mem row hrow')) hw hv
  have h := hrows (reshapeRows a xs) fun row hrow => length_of_mem_reshapeRows hrow
  rwa [flatten_reshapeRows ha] at h

end VllmMetal
