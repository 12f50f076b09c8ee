import Mathlib.Data.List.Basic

/-!
# Runs of a labelled transition system

`Run step s as s'` says that the labels `as`, taken in order from `s`, lead to `s'`.
The rules below are the inductions over runs, each made once: an invariant of one
step is an invariant of a run, and a simulation of one step is a simulation of a run.

## Main results

* `Run.invariant` — what every step preserves, every run preserves.
* `Run.history_invariant` — the same for a property of the state and the labels so far.
* `Run.simulation` — forward simulation, label by label.
-/

namespace VllmMetal

variable {σ τ α : Type*}

/-- The labels `as`, taken in order from the first state, lead to the last. -/
inductive Run (step : σ → α → σ → Prop) : σ → List α → σ → Prop
  /-- The empty run. -/
  | nil (s : σ) : Run step s [] s
  /-- A step followed by a run. -/
  | cons {s s' s'' : σ} {a : α} {as : List α} :
      step s a s' → Run step s' as s'' → Run step s (a :: as) s''

namespace Run

variable {step step' : σ → α → σ → Prop}

theorem snoc {s s' s'' : σ} {as : List α} {a : α} (h : Run step s as s')
    (ha : step s' a s'') : Run step s (as ++ [a]) s'' := by
  induction h with
  | nil s => exact cons ha (nil _)
  | cons hb _ ih => exact cons hb (ih ha)

/-- **What every step preserves, every run preserves.** -/
theorem invariant {I : σ → Prop} (hstep : ∀ s a s', I s → step s a s' → I s')
    {s s' : σ} {as : List α} (h : Run step s as s') (hs : I s) : I s' := by
  induction h with
  | nil s => exact hs
  | cons ha _ ih => exact ih (hstep _ _ _ hs ha)

/-- **What every step preserves of the state and the labels so far, every run preserves.** -/
theorem history_invariant {I : List α → σ → Prop}
    (hstep : ∀ past s a s', I past s → step s a s' → I (past ++ [a]) s') {s s' : σ}
    {as : List α} (h : Run step s as s') {past : List α} (hs : I past s) : I (past ++ as) s' := by
  induction h generalizing past with
  | nil s => simpa using hs
  | cons ha _ ih => simpa using ih (hstep _ _ _ _ hs ha)

/-- A run of a system whose steps are all steps of another is a run of the other. -/
theorem mono (hstep : ∀ s a s', step s a s' → step' s a s') {s s' : σ} {as : List α}
    (h : Run step s as s') : Run step' s as s' := by
  induction h with
  | nil s => exact nil s
  | cons ha _ ih => exact cons (hstep _ _ _ ha) ih

/-- **Forward simulation.**  If related states answer each step with a step under the
same label to related states, they answer each run with a run. -/
theorem simulation {stepC : σ → α → σ → Prop} {stepA : τ → α → τ → Prop} {R : σ → τ → Prop}
    (hsim : ∀ s t a s', R s t → stepC s a s' → ∃ t', stepA t a t' ∧ R s' t')
    {s s' : σ} {as : List α} (h : Run stepC s as s') {t : τ} (hR : R s t) :
    ∃ t', Run stepA t as t' ∧ R s' t' := by
  induction h generalizing t with
  | nil s => exact ⟨t, nil t, hR⟩
  | cons ha _ ih =>
    obtain ⟨t₁, ht₁, hR₁⟩ := hsim _ _ _ _ hR ha
    obtain ⟨t₂, ht₂, hR₂⟩ := ih hR₁
    exact ⟨t₂, cons ht₁ ht₂, hR₂⟩

end Run

end VllmMetal
