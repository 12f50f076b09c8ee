import Mathlib.Data.List.GetD
import Mathlib.Data.List.Nodup
import Mathlib.Algebra.Order.Ring.Nat
import Mathlib.Tactic.Ring

/-!
# Paged memory

A pool of physical cells, each named by a block and an offset in it, read and written
at positions of a sequence through a table of blocks: position `p` lives in the block
at index `p / B` of the table, at offset `p % B`.

## Main definitions

* `pageOf B table p` — the block of position `p`.
* `pagedGet`, `pagedSet` — a pool read and written at a position.
* `Mapped B table n` — the table has a block for every position below `n`.
* `cellOf B table p` — the flat address of position `p`.
* `splitTable ratio table` — the same memory in blocks a `ratio`-th of the size.

## Main results

* `page_inj` — distinct positions of a table without repetitions are distinct cells.
* `pagedGet_pagedSet_of_ne` — a write leaves every other position as it was.
* `cellOf_splitTable` — a table and its split name the same addresses.
-/

namespace VllmMetal

variable {γ : Type*}

/-- The physical block of position `p`. -/
def pageOf (B : ℕ) (table : List ℕ) (p : ℕ) : ℕ := table.getD (p / B) 0

/-- The content of the cell of position `p`. -/
def pagedGet (B : ℕ) (table : List ℕ) (pool : ℕ → ℕ → γ) (p : ℕ) : γ :=
  pool (pageOf B table p) (p % B)

/-- The pool with the cell of position `p` overwritten. -/
def pagedSet (B : ℕ) (table : List ℕ) (pool : ℕ → ℕ → γ) (p : ℕ) (c : γ) : ℕ → ℕ → γ :=
  fun b o => if b = pageOf B table p ∧ o = p % B then c else pool b o

/-- The table has a block for every position below `n`. -/
def Mapped (B : ℕ) (table : List ℕ) (n : ℕ) : Prop := n ≤ B * table.length

@[simp] theorem pagedGet_pagedSet_self (B : ℕ) (table : List ℕ) (pool : ℕ → ℕ → γ) (p : ℕ)
    (c : γ) : pagedGet B table (pagedSet B table pool p c) p = c := by
  simp [pagedGet, pagedSet]

theorem Mapped.mono {B : ℕ} {table : List ℕ} {m n : ℕ} (h : Mapped B table n) (hmn : m ≤ n) :
    Mapped B table m :=
  hmn.trans h

theorem Mapped.div_lt {B : ℕ} {table : List ℕ} {n p : ℕ} (h : Mapped B table n) (hp : p < n) :
    p / B < table.length :=
  Nat.div_lt_of_lt_mul (hp.trans_le h)

/-- Enough blocks for `n` positions, counted by the ceiling. -/
theorem mapped_of_ceil_le {B : ℕ} (hB : 0 < B) {table : List ℕ} {n : ℕ}
    (h : (n + B - 1) / B ≤ table.length) : Mapped B table n := by
  have hdiv := Nat.div_add_mod (n + B - 1) B
  have hmod := Nat.mod_lt (n + B - 1) hB
  have hmul := Nat.mul_le_mul_left B h
  unfold Mapped
  omega

theorem pageOf_eq_iff {B : ℕ} {table : List ℕ} {p b : ℕ} (hp : p / B < table.length) :
    pageOf B table p = b ↔ table[p / B]? = some b := by
  simp [pageOf, List.getD_eq_getElem?_getD, List.getElem?_eq_getElem hp]

/-- **Distinct positions are distinct cells.** -/
theorem page_inj {B : ℕ} {table : List ℕ} (hnd : table.Nodup) {p q : ℕ}
    (hp : p / B < table.length) (hq : q / B < table.length)
    (hblock : pageOf B table p = pageOf B table q) (hoff : p % B = q % B) : p = q := by
  have hdiv : p / B = q / B := by
    rw [pageOf, pageOf, List.getD_eq_getElem _ _ hp, List.getD_eq_getElem _ _ hq] at hblock
    exact (List.Nodup.getElem_inj_iff hnd).mp hblock
  rw [← Nat.div_add_mod p B, ← Nat.div_add_mod q B, hdiv, hoff]

/-- **A write leaves every other position as it was.** -/
theorem pagedGet_pagedSet_of_ne {B : ℕ} {table : List ℕ} (hnd : table.Nodup)
    (pool : ℕ → ℕ → γ) {p q : ℕ} (c : γ) (hp : p / B < table.length) (hq : q / B < table.length)
    (hne : q ≠ p) : pagedGet B table (pagedSet B table pool p c) q = pagedGet B table pool q := by
  unfold pagedGet pagedSet
  rw [if_neg]
  rintro ⟨hblock, hoff⟩
  exact hne (page_inj hnd hq hp hblock hoff)

/-- A table read at a position sees only its own entry. -/
theorem pagedGet_congr {B : ℕ} {table table' : List ℕ} (pool : ℕ → ℕ → γ) {p : ℕ}
    (h : table[p / B]? = table'[p / B]?) : pagedGet B table pool p = pagedGet B table' pool p := by
  simp only [pagedGet, pageOf, List.getD_eq_getElem?_getD, h]

/-! ### Flat addresses -/

/-- The flat address of position `p`, in a pool of blocks of `B` cells. -/
def cellOf (B : ℕ) (table : List ℕ) (p : ℕ) : ℕ := pageOf B table p * B + p % B

/-- An address names its block and the offset in it. -/
theorem cellOf_eq_iff {B : ℕ} (hB : 0 < B) {table table' : List ℕ} {p q : ℕ} :
    cellOf B table p = cellOf B table' q ↔
      pageOf B table p = pageOf B table' q ∧ p % B = q % B := by
  have hp := Nat.mod_lt p hB
  have hq := Nat.mod_lt q hB
  constructor
  · intro h
    have hblock := congrArg (· / B) h
    have hoff := congrArg (· % B) h
    simp only [cellOf] at hblock hoff
    rw [Nat.mul_comm, Nat.mul_add_div hB, Nat.div_eq_of_lt hp, Nat.mul_comm, Nat.mul_add_div hB,
      Nat.div_eq_of_lt hq] at hblock
    rw [Nat.mul_comm, Nat.mul_add_mod, Nat.mod_mod, Nat.mul_comm, Nat.mul_add_mod,
      Nat.mod_mod] at hoff
    exact ⟨hblock, hoff⟩
  · rintro ⟨hblock, hoff⟩
    rw [cellOf, cellOf, hblock, hoff]

/-- Each block as `ratio` smaller ones. -/
def splitTable (ratio : ℕ) (table : List ℕ) : List ℕ :=
  table.flatMap fun b => (List.range ratio).map fun i => b * ratio + i

theorem length_splitTable (ratio : ℕ) (table : List ℕ) :
    (splitTable ratio table).length = table.length * ratio := by
  induction table with
  | nil => simp [splitTable]
  | cons b table ih =>
    rw [splitTable, List.flatMap_cons, List.length_append, List.length_map, List.length_range,
      List.length_cons, Nat.succ_mul, Nat.add_comm]
    exact congrArg (· + ratio) ih

theorem getD_splitTable {ratio : ℕ} (hratio : 0 < ratio) (table : List ℕ) {i : ℕ}
    (hi : i / ratio < table.length) :
    (splitTable ratio table).getD i 0 = table.getD (i / ratio) 0 * ratio + i % ratio := by
  induction table generalizing i with
  | nil => exact absurd hi (by simp)
  | cons b table ih =>
    rw [splitTable, List.flatMap_cons]
    rcases Nat.lt_or_ge i ratio with hlt | hge
    · rw [List.getD_append _ _ _ _ (by simpa using hlt), Nat.div_eq_of_lt hlt, Nat.mod_eq_of_lt hlt,
        List.getD_cons_zero, List.getD_eq_getElem _ _ (by simpa using hlt)]
      simp
    · have hdiv : i / ratio = (i - ratio) / ratio + 1 := Nat.div_eq_sub_div hratio hge
      rw [List.getD_append_right _ _ _ _ (by simpa using hge), List.length_map, List.length_range,
        hdiv, List.getD_cons_succ, Nat.mod_eq_sub_mod hge]
      exact ih (by rw [hdiv, List.length_cons] at hi; omega)

/-- **A table and its split name the same addresses.** -/
theorem cellOf_splitTable {k ratio : ℕ} (hratio : 0 < ratio) (table : List ℕ) {p : ℕ}
    (hp : p / (k * ratio) < table.length) :
    cellOf k (splitTable ratio table) p = cellOf (k * ratio) table p := by
  have hdiv : p / k / ratio = p / (k * ratio) := Nat.div_div_eq_div_mul p k ratio
  rw [cellOf, pageOf, getD_splitTable hratio table (by rwa [hdiv]), hdiv, cellOf, pageOf,
    Nat.mod_mul]
  ring

theorem cellOf_append (B : ℕ) {table : List ℕ} (padding : List ℕ) {p : ℕ}
    (hp : p / B < table.length) : cellOf B (table ++ padding) p = cellOf B table p := by
  rw [cellOf, cellOf, pageOf, pageOf, List.getD_append _ _ _ _ hp]

end VllmMetal
