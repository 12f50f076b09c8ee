import Mathlib.Algebra.Field.Defs
import Mathlib.Algebra.BigOperators.Group.List.Basic
import Mathlib.Algebra.Module.LinearMap.Defs
import Mathlib.Algebra.Order.Monoid.Unbundled.WithTop

/-!
# Softmax means

The mean of values under the softmax weights of their scores.  A masked score is `⊥`, whose
exponential is zero.  The exponential is a parameter: none of the results below says anything about
it.

## Main definitions

* `softmaxMean` — the mean of the values of columns of a score and a value.
* `maskedMean` — the same, of columns some of which are masked.

## Main results

* `maskedMean_of_masked` — masked columns do not count, whatever their values are.
* `map_softmaxMean` — a linear map of the mean is the mean of what it makes of the values.
-/

namespace VllmMetal

variable {K V W : Type*} [Field K] [AddCommGroup V] [Module K V] [AddCommGroup W] [Module K W]
  (exp : K → K)

/-- The mean of the values under the softmax weights of the scores. -/
def softmaxMean (columns : List (K × V)) : V :=
  ((columns.map fun column => exp column.1).sum)⁻¹ •
    (columns.map fun column => exp column.1 • column.2).sum

/-- The exponential of a score that may be masked. -/
def maskedWeight (score : WithBot K) : K := score.recBotCoe 0 exp

omit [AddCommGroup V] [Module K V] [AddCommGroup W] [Module K W] in
@[simp] theorem maskedWeight_bot : maskedWeight exp ⊥ = 0 := rfl

@[simp] theorem maskedWeight_coe (score : K) : maskedWeight exp (score : WithBot K) = exp score :=
  rfl

/-- The mean of columns some of which are masked. -/
def maskedMean (columns : List (WithBot K × V)) : V :=
  ((columns.map fun column => maskedWeight exp column.1).sum)⁻¹ •
    (columns.map fun column => maskedWeight exp column.1 • column.2).sum

variable {α : Type*}

/-- The weights of masked columns. -/
theorem sum_maskedWeight (columns : List α) (valid : α → Bool) (score : α → K) :
    (columns.map fun c => maskedWeight exp (if valid c then (score c : WithBot K) else ⊥)).sum =
      ((columns.filter valid).map fun c => exp (score c)).sum := by
  induction columns with
  | nil => rfl
  | cons c columns ih =>
    rw [List.map_cons, List.sum_cons, ih, List.filter_cons]
    split
    · next h => rw [maskedWeight_coe, List.map_cons, List.sum_cons]
    · rw [maskedWeight_bot, zero_add]

/-- The weighted values of masked columns. -/
theorem sum_maskedWeight_smul (columns : List α) (valid : α → Bool) (score : α → K)
    (value : α → V) :
    (columns.map fun c =>
        maskedWeight exp (if valid c then (score c : WithBot K) else ⊥) • value c).sum =
      ((columns.filter valid).map fun c => exp (score c) • value c).sum := by
  induction columns with
  | nil => rfl
  | cons c columns ih =>
    rw [List.map_cons, List.sum_cons, ih, List.filter_cons]
    split
    · rw [maskedWeight_coe, List.map_cons, List.sum_cons]
    · rw [maskedWeight_bot, zero_smul, zero_add]

/-- **Masked columns do not count.** -/
theorem maskedMean_of_masked (columns : List α) (valid : α → Bool) (score : α → K) (value : α → V) :
    maskedMean exp
        (columns.map fun c => (if valid c then (score c : WithBot K) else ⊥, value c)) =
      softmaxMean exp ((columns.filter valid).map fun c => (score c, value c)) := by
  simp only [maskedMean, softmaxMean, List.map_map, Function.comp_def]
  rw [sum_maskedWeight, sum_maskedWeight_smul]

/-- **A linear map of the mean.** -/
theorem map_softmaxMean (f : V →ₗ[K] W) (columns : List (K × V)) :
    f (softmaxMean exp columns) =
      softmaxMean exp (columns.map fun column => (column.1, f column.2)) := by
  simp only [softmaxMean, map_smul, map_list_sum, List.map_map, Function.comp_def]

end VllmMetal
