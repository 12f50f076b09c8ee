import Mathlib.Algebra.Module.LinearMap.End
import Mathlib.Algebra.Module.Pi
import Mathlib.Algebra.Ring.Basic
import Mathlib.Tactic.Ring
import Mathlib.Data.Nat.Bitwise

/-!
# Butterflies

The Walsh–Hadamard transform of a vector, stage by stage: stage `m` replaces the entries at two
indices that differ in bit `m` by their sum and their difference.  The stages commute, and a stage
taken twice doubles the vector; so the transform, taken twice, is a multiple of the vector.

## Main definitions

* `butterfly m` — a stage, as a linear map.
* `hadamard n` — the stages below `n`.

## Main results

* `hadamard_hadamard` — the transform taken twice.
-/

namespace VllmMetal

variable {K : Type*} [CommRing K]

/-! ### Indices -/

theorem xor_two_pow_xor_two_pow (i m : ℕ) : i ^^^ 2 ^ m ^^^ 2 ^ m = i :=
  Nat.xor_xor_cancel_right i (2 ^ m)

theorem xor_two_pow_right_comm (i m n : ℕ) : i ^^^ 2 ^ m ^^^ 2 ^ n = i ^^^ 2 ^ n ^^^ 2 ^ m := by
  rw [Nat.xor_assoc, Nat.xor_comm (2 ^ m), ← Nat.xor_assoc]

theorem testBit_xor_two_pow_self (i m : ℕ) : (i ^^^ 2 ^ m).testBit m = !i.testBit m := by
  rw [Nat.testBit_xor, Nat.testBit_two_pow_self, Bool.xor_true]

theorem testBit_xor_two_pow_of_ne (i : ℕ) {m n : ℕ} (h : m ≠ n) :
    (i ^^^ 2 ^ m).testBit n = i.testBit n := by
  rw [Nat.testBit_xor, Nat.testBit_two_pow_of_ne h, Bool.xor_false]

theorem xor_two_pow_lt {i m n : ℕ} (hi : i < 2 ^ n) (hm : m < n) : i ^^^ 2 ^ m < 2 ^ n :=
  Nat.xor_lt_two_pow hi (Nat.pow_lt_pow_right (by omega) hm)

/-! ### Stages -/

/-- Stage `m`. -/
def butterfly (m : ℕ) : (ℕ → K) →ₗ[K] (ℕ → K) where
  toFun v := fun i => if i.testBit m then v (i ^^^ 2 ^ m) - v i else v i + v (i ^^^ 2 ^ m)
  map_add' v w := by
    funext i
    simp only [Pi.add_apply]
    split <;> ring
  map_smul' a v := by
    funext i
    simp only [Pi.smul_apply, smul_eq_mul, RingHom.id_apply]
    split <;> ring

theorem butterfly_apply (m : ℕ) (v : ℕ → K) (i : ℕ) :
    butterfly m v i = if i.testBit m then v (i ^^^ 2 ^ m) - v i else v i + v (i ^^^ 2 ^ m) := rfl

/-- A stage taken twice. -/
theorem butterfly_butterfly (m : ℕ) (v : ℕ → K) : butterfly m (butterfly m v) = (2 : K) • v := by
  funext i
  rw [butterfly_apply, butterfly_apply, butterfly_apply, testBit_xor_two_pow_self,
    xor_two_pow_xor_two_pow, Pi.smul_apply, smul_eq_mul]
  cases i.testBit m
  · simp only [Bool.not_false, if_true, Bool.false_eq_true, if_false]
    ring
  · simp only [Bool.not_true, if_true, Bool.false_eq_true, if_false]
    ring

/-- Stages commute. -/
theorem butterfly_comm {m n : ℕ} (h : m ≠ n) (v : ℕ → K) :
    butterfly m (butterfly n v) = butterfly n (butterfly m v) := by
  funext i
  simp only [butterfly_apply, testBit_xor_two_pow_of_ne i h, testBit_xor_two_pow_of_ne i h.symm,
    xor_two_pow_right_comm i n m]
  cases i.testBit m <;> cases i.testBit n <;> simp only [if_true, Bool.false_eq_true, if_false] <;>
    ring

/-! ### The transform -/

/-- The stages below `n`, from `0` on. -/
def hadamard : ℕ → (ℕ → K) →ₗ[K] (ℕ → K)
  | 0 => LinearMap.id
  | n + 1 => butterfly n ∘ₗ hadamard n

@[simp] theorem hadamard_zero (v : ℕ → K) : hadamard 0 v = v := rfl

theorem hadamard_succ (n : ℕ) (v : ℕ → K) : hadamard (n + 1) v = butterfly n (hadamard n v) := rfl

/-- A later stage commutes with the stages before. -/
theorem butterfly_hadamard {m n : ℕ} (h : n ≤ m) (v : ℕ → K) :
    butterfly m (hadamard n v) = hadamard n (butterfly m v) := by
  induction n with
  | zero => rfl
  | succ n ih =>
    rw [hadamard_succ, butterfly_comm (by omega), ih (by omega), hadamard_succ]

/-- **The transform taken twice is a multiple of the vector.** -/
theorem hadamard_hadamard (n : ℕ) (v : ℕ → K) : hadamard n (hadamard n v) = (2 ^ n : K) • v := by
  induction n generalizing v with
  | zero => simp
  | succ n ih =>
    calc hadamard (n + 1) (hadamard (n + 1) v)
        = butterfly n (hadamard n (butterfly n (hadamard n v))) := rfl
      _ = butterfly n (butterfly n (hadamard n (hadamard n v))) := by
          rw [← butterfly_hadamard (Nat.le_refl n) (hadamard n v)]
      _ = (2 : K) • (2 ^ n : K) • v := by rw [butterfly_butterfly, ih]
      _ = (2 ^ (n + 1) : K) • v := by rw [smul_smul, pow_succ']

end VllmMetal
