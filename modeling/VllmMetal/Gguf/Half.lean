import Mathlib.Algebra.Order.Field.Rat
import Mathlib.Data.Nat.Log
import Mathlib.Tactic.FieldSimp
import Mathlib.Tactic.Ring
import Mathlib.Tactic.Linarith

/-!
# The patterns of a half

A half is a sign, five bits of exponent and ten of mantissa.  Its product by a power of two keeps
the mantissa, unless the exponent runs out.

## Main definitions

* `halfValue` — the value of a pattern that is finite.
* `timesNegPow` — the product by `-(2 ^ k)`, as halves are multiplied.
* `ReadsHalves` — a reading of the patterns in a ring.

## Main results

* `halfValue_timesNegPow` — a product whose exponent fits is exact.
* `timesNegPow_overflow` — every other one is infinite.
-/

namespace VllmMetal
namespace Gguf

/-- The value of a half that is finite. -/
def halfValue (pattern : ℕ) : ℚ :=
  let exponent := pattern / 1024 % 32
  let mantissa := pattern % 1024
  let magnitude : ℚ :=
    if exponent = 0 then mantissa / 2 ^ 24 else (1024 + mantissa) * 2 ^ exponent / 2 ^ 25
  if pattern / 2 ^ 15 = 1 then -magnitude else magnitude

/-- The pattern of a magnitude of `units` units of the subnormals. -/
def subnormalUnits (units : ℕ) : ℕ :=
  if units < 1024 then units
  else
    let shift := Nat.log 2 units - 10
    shift * 1024 + units / 2 ^ shift

/-- `d * -(2 ^ k)` of a half `d`, which is a half again. -/
def timesNegPow (k pattern : ℕ) : ℕ :=
  let exponent := pattern / 1024 % 32
  let mantissa := pattern % 1024
  let magnitude :=
    if exponent = 31 then 31 * 1024 + mantissa
    else if exponent = 0 then subnormalUnits (mantissa * 2 ^ k)
    else if exponent + k < 31 then (exponent + k) * 1024 + mantissa
    else 31 * 1024
  (1 - pattern / 2 ^ 15) * 2 ^ 15 + magnitude

/-- What is relied on of a reading of halves: a product whose exponent fits is exact. -/
structure ReadsHalves {K : Type} [CommRing K] (half : ℕ → K) : Prop where
  product : ∀ {k pattern}, pattern < 2 ^ 16 → pattern / 1024 % 32 + k < 31 →
    half (timesNegPow k pattern) = half pattern * -(2 ^ k)

/-! ### Magnitudes -/

/-- The value of a pattern without its sign. -/
def magnitudeValue (magnitude : ℕ) : ℚ :=
  if magnitude / 1024 = 0 then ((magnitude % 1024 : ℕ) : ℚ) / 2 ^ 24
  else (1024 + ((magnitude % 1024 : ℕ) : ℚ)) * 2 ^ (magnitude / 1024) / 2 ^ 25

theorem halfValue_eq {sign magnitude : ℕ} (hmagnitude : magnitude < 2 ^ 15) :
    halfValue (sign * 2 ^ 15 + magnitude) =
      if sign = 1 then -magnitudeValue magnitude else magnitudeValue magnitude := by
  have hexponent : (sign * 2 ^ 15 + magnitude) / 1024 % 32 = magnitude / 1024 := by omega
  have hmantissa : (sign * 2 ^ 15 + magnitude) % 1024 = magnitude % 1024 := by omega
  have htop : (sign * 2 ^ 15 + magnitude) / 2 ^ 15 = sign := by omega
  simp only [halfValue, hexponent, hmantissa, htop, magnitudeValue]

theorem magnitudeValue_of_lt {magnitude : ℕ} (h : magnitude < 1024) :
    magnitudeValue magnitude = (magnitude : ℚ) / 2 ^ 24 := by
  rw [magnitudeValue, if_pos (Nat.div_eq_of_lt h), Nat.mod_eq_of_lt h]

theorem magnitudeValue_of_pos {exponent mantissa : ℕ} (hexponent : 0 < exponent)
    (hmantissa : mantissa < 1024) : magnitudeValue (exponent * 1024 + mantissa) =
      (1024 + (mantissa : ℚ)) * 2 ^ exponent / 2 ^ 25 := by
  have hdiv : (exponent * 1024 + mantissa) / 1024 = exponent := by omega
  have hmod : (exponent * 1024 + mantissa) % 1024 = mantissa := by omega
  rw [magnitudeValue, hdiv, hmod, if_neg (Nat.ne_of_gt hexponent)]

/-- Units that are no subnormal: their eleven leading bits, and zeros behind them. -/
theorem subnormalUnits_spec {mantissa k : ℕ} (hmantissa : mantissa < 1024)
    (h : 1024 ≤ mantissa * 2 ^ k) : ∃ shift top,
      subnormalUnits (mantissa * 2 ^ k) = (shift + 1) * 1024 + top ∧ top < 1024 ∧ shift < k ∧
        (1024 + top) * 2 ^ shift = mantissa * 2 ^ k := by
  have hten : 10 ≤ Nat.log 2 (mantissa * 2 ^ k) := Nat.le_log_of_pow_le (by decide) h
  have hlow : 2 ^ Nat.log 2 (mantissa * 2 ^ k) ≤ mantissa * 2 ^ k :=
    Nat.pow_log_le_self 2 (Nat.ne_of_gt (Nat.lt_of_lt_of_le (by decide) h))
  have hhigh : mantissa * 2 ^ k < 2 ^ (Nat.log 2 (mantissa * 2 ^ k) + 1) :=
    Nat.lt_pow_succ_log_self (by decide) _
  obtain ⟨shift, hshift⟩ := Nat.exists_eq_add_of_le hten
  rw [hshift] at hlow hhigh
  have hpos : 0 < 2 ^ shift := Nat.two_pow_pos shift
  -- a mantissa has at most ten bits, so what is shifted out is zero
  have hlt : shift < k := by
    have hpow : 2 ^ (10 + shift) < 2 ^ (10 + k) := by
      calc 2 ^ (10 + shift) ≤ mantissa * 2 ^ k := hlow
        _ < 1024 * 2 ^ k := Nat.mul_lt_mul_of_pos_right hmantissa (Nat.two_pow_pos k)
        _ = 2 ^ (10 + k) := by rw [Nat.pow_add]
    have hexponent := (Nat.pow_lt_pow_iff_right (by decide : 1 < 2)).mp hpow
    omega
  have hexact : mantissa * 2 ^ k / 2 ^ shift * 2 ^ shift = mantissa * 2 ^ k :=
    Nat.div_mul_cancel ((Nat.pow_dvd_pow 2 (Nat.le_of_lt hlt)).mul_left mantissa)
  have hge : 1024 ≤ mantissa * 2 ^ k / 2 ^ shift := by
    rw [Nat.le_div_iff_mul_le hpos]
    calc 1024 * 2 ^ shift = 2 ^ (10 + shift) := by rw [Nat.pow_add]
      _ ≤ mantissa * 2 ^ k := hlow
  have hbelow : mantissa * 2 ^ k / 2 ^ shift < 2048 := by
    rw [Nat.div_lt_iff_lt_mul hpos]
    calc mantissa * 2 ^ k < 2 ^ (10 + shift + 1) := hhigh
      _ = 2048 * 2 ^ shift := by rw [Nat.pow_succ, Nat.pow_add]; ring
  refine ⟨shift, mantissa * 2 ^ k / 2 ^ shift - 1024, ?_, by omega, hlt, ?_⟩
  · rw [subnormalUnits, if_neg (Nat.not_lt.mpr h), hshift, Nat.add_sub_cancel_left]
    show shift * 1024 + mantissa * 2 ^ k / 2 ^ shift = _
    omega
  · rw [Nat.add_sub_cancel' hge, hexact]

/-- A subnormal times a power of two is exact. -/
theorem magnitudeValue_subnormalUnits {mantissa : ℕ} (hmantissa : mantissa < 1024) (k : ℕ) :
    magnitudeValue (subnormalUnits (mantissa * 2 ^ k)) = (mantissa : ℚ) * 2 ^ k / 2 ^ 24 := by
  rcases Nat.lt_or_ge (mantissa * 2 ^ k) 1024 with hsmall | hlarge
  · rw [subnormalUnits, if_pos hsmall, magnitudeValue_of_lt hsmall]
    push_cast
    rfl
  · obtain ⟨shift, top, hunits, htop, -, hexact⟩ := subnormalUnits_spec hmantissa hlarge
    have hcast : (1024 + (top : ℚ)) * 2 ^ shift = (mantissa : ℚ) * 2 ^ k := by
      exact_mod_cast hexact
    rw [hunits, magnitudeValue_of_pos (Nat.succ_pos shift) htop, ← hcast, pow_succ]
    ring

theorem subnormalUnits_lt {mantissa k : ℕ} (hmantissa : mantissa < 1024) (hk : k < 31) :
    subnormalUnits (mantissa * 2 ^ k) < 2 ^ 15 := by
  rcases Nat.lt_or_ge (mantissa * 2 ^ k) 1024 with hsmall | hlarge
  · rw [subnormalUnits, if_pos hsmall]
    exact Nat.lt_of_lt_of_le hsmall (by decide)
  · obtain ⟨shift, top, hunits, htop, hshift, -⟩ := subnormalUnits_spec hmantissa hlarge
    rw [hunits]
    omega

/-! ### Products -/

/-- **A product whose exponent fits is exact.** -/
theorem halfValue_timesNegPow {k pattern : ℕ} (hpattern : pattern < 2 ^ 16)
    (hfits : pattern / 1024 % 32 + k < 31) :
    halfValue (timesNegPow k pattern) = halfValue pattern * -(2 ^ k) := by
  obtain ⟨sign, exponent, mantissa, rfl, hsign, hexponent, hmantissa⟩ : ∃ sign exponent mantissa,
      sign * 2 ^ 15 + (exponent * 1024 + mantissa) = pattern ∧ sign < 2 ∧ exponent < 32 ∧
        mantissa < 1024 :=
    ⟨pattern / 2 ^ 15, pattern / 1024 % 32, pattern % 1024, by omega, by omega, by omega,
      by omega⟩
  clear hpattern
  have hE : (sign * 2 ^ 15 + (exponent * 1024 + mantissa)) / 1024 % 32 = exponent := by omega
  have hM : (sign * 2 ^ 15 + (exponent * 1024 + mantissa)) % 1024 = mantissa := by omega
  have hS : (sign * 2 ^ 15 + (exponent * 1024 + mantissa)) / 2 ^ 15 = sign := by omega
  have hlt : exponent * 1024 + mantissa < 2 ^ 15 := by omega
  rw [hE] at hfits
  -- what is left to show is about the magnitudes
  have hsigned : ∀ magnitude, magnitude < 2 ^ 15 →
      magnitudeValue magnitude = magnitudeValue (exponent * 1024 + mantissa) * 2 ^ k →
      halfValue ((1 - sign) * 2 ^ 15 + magnitude) =
        halfValue (sign * 2 ^ 15 + (exponent * 1024 + mantissa)) * -(2 ^ k) := by
    intro magnitude hmagnitude hvalue
    rw [halfValue_eq hmagnitude, halfValue_eq hlt, hvalue]
    obtain rfl | rfl : sign = 0 ∨ sign = 1 := by omega
    · rw [if_pos rfl, if_neg Nat.zero_ne_one]
      ring
    · rw [if_neg (show ¬ 1 - 1 = 1 from Nat.zero_ne_one), if_pos rfl]
      ring
  simp only [timesNegPow, hE, hM, hS]
  rw [if_neg (by omega)]
  split
  · next hzero =>
    subst hzero
    refine hsigned _ (subnormalUnits_lt hmantissa (by omega)) ?_
    rw [magnitudeValue_subnormalUnits hmantissa, Nat.zero_mul, Nat.zero_add,
      magnitudeValue_of_lt hmantissa]
    ring
  · next hzero =>
    have hpos : 0 < exponent := Nat.pos_of_ne_zero hzero
    have hbelow : (exponent + k) * 1024 + 1024 ≤ 31 * 1024 := by omega
    refine hsigned _ (Nat.lt_of_lt_of_le (Nat.add_lt_add_left hmantissa _)
      (hbelow.trans (by decide))) ?_
    rw [magnitudeValue_of_pos (Nat.add_pos_left hpos k) hmantissa,
      magnitudeValue_of_pos hpos hmantissa, pow_add]
    ring

theorem readsHalves_halfValue : ReadsHalves halfValue := ⟨halfValue_timesNegPow⟩

/-- **A product whose exponent does not fit is infinite.** -/
theorem timesNegPow_overflow {k pattern : ℕ} (hk : k < 31) (hfinite : pattern / 1024 % 32 < 31)
    (hover : 31 ≤ pattern / 1024 % 32 + k) :
    timesNegPow k pattern = (1 - pattern / 2 ^ 15) * 2 ^ 15 + 31 * 1024 := by
  simp only [timesNegPow]
  rw [if_neg (by omega), if_neg (by omega), if_neg (by omega)]

/-- `600 * -128`. -/
example : timesNegPow 7 0x60B0 = 0xFC00 := by decide

end Gguf
end VllmMetal
