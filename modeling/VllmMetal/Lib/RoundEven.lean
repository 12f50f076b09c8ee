import Mathlib.Algebra.Order.Floor.Ring
import Mathlib.Data.Rat.Floor
import Mathlib.Tactic.Linarith
import Mathlib.Tactic.Ring

/-!
# Rounding to the nearest integer, halves to even

## Main definitions

* `roundEven x` — the integer nearest to `x`; of two, the even one.
* `clipTo lo hi n` — `n` cut to the interval from `lo` to `hi`.
* `doubleOfInt n` — the double nearest to an integer.

## Main results

* `abs_roundEven_le_iff` — an even bound on the rounded value is a bound on the value itself.
* `abs_clipTo_roundEven_sub_le` — a value half a step out of the interval is still at most half a
  step away from its cut rounding.
-/

namespace VllmMetal

/-- Round to the nearest integer, and a half to the even neighbour. -/
def roundEven (x : ℚ) : ℤ :=
  if x - ⌊x⌋ < 1 / 2 then ⌊x⌋
  else if 1 / 2 < x - ⌊x⌋ then ⌊x⌋ + 1
  else if ⌊x⌋ % 2 = 0 then ⌊x⌋ else ⌊x⌋ + 1

/-- Cut an integer to an interval. -/
def clipTo (lo hi n : ℤ) : ℤ := min (max n lo) hi

/-- The rounded value is at most half a step away. -/
theorem abs_roundEven_sub_le (x : ℚ) : |(roundEven x : ℚ) - x| ≤ 1 / 2 := by
  have hlo : (⌊x⌋ : ℚ) ≤ x := Int.floor_le x
  have hhi : x < ⌊x⌋ + 1 := Int.lt_floor_add_one x
  rw [abs_le]
  unfold roundEven
  split_ifs with hlt hgt heven <;> push_cast <;> constructor <;> linarith

/-- A value that rounds above an even integer is more than half a step above it. -/
theorem lt_of_lt_roundEven {n : ℤ} (hn : n % 2 = 0) {x : ℚ} (h : n < roundEven x) :
    (n : ℚ) + 1 / 2 < x := by
  have hlo : (⌊x⌋ : ℚ) ≤ x := Int.floor_le x
  unfold roundEven at h
  split_ifs at h with hlt hgt heven
  · have hstep : (n : ℚ) + 1 ≤ ⌊x⌋ := by exact_mod_cast h
    linarith
  · have hstep : (n : ℚ) ≤ ⌊x⌋ := by exact_mod_cast Int.lt_add_one_iff.mp h
    linarith
  · have hstep : (n : ℚ) + 1 ≤ ⌊x⌋ := by exact_mod_cast h
    linarith
  · -- the floor is odd, so it is not the even bound itself
    have hne : n ≠ ⌊x⌋ := fun he => heven (he ▸ hn)
    have hstep : (n : ℚ) + 1 ≤ ⌊x⌋ := by
      exact_mod_cast lt_of_le_of_ne (Int.lt_add_one_iff.mp h) hne
    linarith

/-- A value that rounds below an even integer is more than half a step below it. -/
theorem lt_of_roundEven_lt {n : ℤ} (hn : n % 2 = 0) {x : ℚ} (h : roundEven x < n) :
    x < (n : ℚ) - 1 / 2 := by
  have hhi : x < ⌊x⌋ + 1 := Int.lt_floor_add_one x
  unfold roundEven at h
  split_ifs at h with hlt hgt heven
  · have hstep : (⌊x⌋ : ℚ) + 1 ≤ n := by exact_mod_cast h
    linarith
  · have hstep : (⌊x⌋ : ℚ) + 1 + 1 ≤ n := by exact_mod_cast h
    linarith
  · -- two even integers apart are two steps apart
    have hstep : (⌊x⌋ : ℚ) + 2 ≤ n := by
      have : ⌊x⌋ + 2 ≤ n := by omega
      exact_mod_cast this
    linarith
  · have hstep : (⌊x⌋ : ℚ) + 1 + 1 ≤ n := by exact_mod_cast h
    linarith

theorem roundEven_le_iff {n : ℤ} (hn : n % 2 = 0) (x : ℚ) :
    roundEven x ≤ n ↔ x ≤ (n : ℚ) + 1 / 2 := by
  constructor
  · intro h
    have hle : (roundEven x : ℚ) ≤ n := by exact_mod_cast h
    have hnear := abs_le.mp (abs_roundEven_sub_le x)
    linarith [hnear.1]
  · intro h
    by_contra hlt
    exact absurd (lt_of_lt_roundEven hn (not_le.mp hlt)) (not_lt.mpr h)

theorem le_roundEven_iff {n : ℤ} (hn : n % 2 = 0) (x : ℚ) :
    n ≤ roundEven x ↔ (n : ℚ) - 1 / 2 ≤ x := by
  constructor
  · intro h
    have hle : (n : ℚ) ≤ roundEven x := by exact_mod_cast h
    have hnear := abs_le.mp (abs_roundEven_sub_le x)
    linarith [hnear.2]
  · intro h
    by_contra hlt
    exact absurd (lt_of_roundEven_lt hn (not_le.mp hlt)) (not_lt.mpr h)

/-- An even bound on the rounded magnitude is the bound on the magnitude, half a step wider. -/
theorem abs_roundEven_le_iff {n : ℤ} (hn : n % 2 = 0) (x : ℚ) :
    |roundEven x| ≤ n ↔ |x| ≤ (n : ℚ) + 1 / 2 := by
  have hneg : -n % 2 = 0 := by omega
  rw [abs_le, abs_le, roundEven_le_iff hn, le_roundEven_iff hneg]
  push_cast
  rw [neg_add']

theorem clipTo_mem {lo hi : ℤ} (h : lo ≤ hi) (n : ℤ) : lo ≤ clipTo lo hi n ∧
    clipTo lo hi n ≤ hi := by
  unfold clipTo
  omega

/-- A value at most half a step out of the interval is at most half a step from its cut
rounding. -/
theorem abs_clipTo_roundEven_sub_le {lo hi : ℤ} (h : lo ≤ hi) {x : ℚ}
    (hlo : (lo : ℚ) - 1 / 2 ≤ x) (hhi : x ≤ (hi : ℚ) + 1 / 2) :
    |(clipTo lo hi (roundEven x) : ℚ) - x| ≤ 1 / 2 := by
  have hnear := abs_le.mp (abs_roundEven_sub_le x)
  rcases lt_or_ge (roundEven x) lo with hcut | hge
  · have hval : clipTo lo hi (roundEven x) = lo := by unfold clipTo; omega
    have hlt : (roundEven x : ℚ) + 1 ≤ lo := by exact_mod_cast hcut
    rw [hval, abs_le]
    constructor <;> linarith [hnear.1]
  · rcases lt_or_ge hi (roundEven x) with hcut | hle
    · have hval : clipTo lo hi (roundEven x) = hi := by unfold clipTo; omega
      have hlt : (hi : ℚ) + 1 ≤ roundEven x := by exact_mod_cast hcut
      rw [hval, abs_le]
      constructor <;> linarith [hnear.2]
    · have hval : clipTo lo hi (roundEven x) = roundEven x := by unfold clipTo; omega
      rw [hval]
      exact abs_roundEven_sub_le x

/-! ### Integers in double precision -/

/-- The double nearest to an integer: 53 leading bits, the rest rounded. -/
def doubleOfInt (n : ℤ) : ℤ :=
  let shift := Nat.log2 n.natAbs - 52
  roundEven ((n : ℚ) / 2 ^ shift) * 2 ^ shift

@[simp] theorem roundEven_intCast (n : ℤ) : roundEven (n : ℚ) = n := by
  simp [roundEven]

end VllmMetal
