import Mathlib.Data.List.Induction

/-!
# Autoregressive computations

Two computations that read only what came before.  A *cell* of a sequence is a value
computed from an element and the cells of all earlier elements, as a cached key or
value is; `cellsOf kv l` lists the cells of `l`.

## Main definitions

* `cellsOf kv l` — the cells of the elements of `l`, in order.
* `autoregress f l n` — `l` continued by `n` elements, each chosen by `f` from all before it.

## Main results

* `cellsOf_take` — the cells of a prefix are a prefix of the cells.
* `getElem?_cellsOf_of_take_eq` — a cell depends on the elements up to its own only.
* `Follows.autoregress_eq` — a list chosen element by element is the continuation.
-/

namespace VllmMetal

variable {τ γ : Type*}

/-- The cells of `l`: each is computed from its own element and the cells before it. -/
def cellsOf (kv : τ → List γ → γ) (l : List τ) : List γ :=
  l.foldl (fun cells t => cells ++ [kv t cells]) []

@[simp] theorem cellsOf_nil (kv : τ → List γ → γ) : cellsOf kv [] = [] := rfl

theorem cellsOf_concat (kv : τ → List γ → γ) (l : List τ) (t : τ) :
    cellsOf kv (l ++ [t]) = cellsOf kv l ++ [kv t (cellsOf kv l)] := by
  unfold cellsOf
  rw [List.foldl_append]
  rfl

@[simp] theorem length_cellsOf (kv : τ → List γ → γ) (l : List τ) :
    (cellsOf kv l).length = l.length := by
  induction l using List.reverseRecOn with
  | nil => rfl
  | append_singleton l t ih => simp [cellsOf_concat, ih]

theorem cellsOf_mono (kv : τ → List γ → γ) {l₁ l₂ : List τ} (h : l₁ <+: l₂) :
    cellsOf kv l₁ <+: cellsOf kv l₂ := by
  obtain ⟨l, rfl⟩ := h
  induction l using List.reverseRecOn with
  | nil => simp
  | append_singleton l t ih =>
    rw [← List.append_assoc, cellsOf_concat]
    exact ih.trans (List.prefix_append _ _)

/-- The cells of a prefix are a prefix of the cells. -/
theorem cellsOf_take (kv : τ → List γ → γ) (l : List τ) (n : ℕ) :
    cellsOf kv (l.take n) = (cellsOf kv l).take n := by
  have h := cellsOf_mono kv (List.take_prefix n l)
  rw [List.prefix_iff_eq_take] at h
  rw [h, length_cellsOf, List.length_take]
  rcases Nat.le_total n l.length with hn | hn
  · rw [Nat.min_eq_left hn]
  · rw [Nat.min_eq_right hn, List.take_of_length_le (by simp), List.take_of_length_le (by simpa)]

/-- A cell depends on the elements up to its own only. -/
theorem getElem?_cellsOf_of_take_eq (kv : τ → List γ → γ) {l₁ l₂ : List τ} {n : ℕ}
    (h : l₁.take (n + 1) = l₂.take (n + 1)) : (cellsOf kv l₁)[n]? = (cellsOf kv l₂)[n]? := by
  have h' := congrArg (fun l => (cellsOf kv l)[n]?) h
  simpa [cellsOf_take, List.getElem?_take] using h'

/-- The cell of the element at `n`, from the cells before it. -/
theorem getElem?_cellsOf (kv : τ → List γ → γ) {l : List τ} {n : ℕ} {t : τ}
    (h : l[n]? = some t) : (cellsOf kv l)[n]? = some (kv t ((cellsOf kv l).take n)) := by
  have hn : n < l.length := (List.getElem?_eq_some_iff.mp h).1
  have htake : l.take (n + 1) = l.take n ++ [t] := by
    rw [List.take_add_one, h]; rfl
  have hcell : (cellsOf kv l)[n]? = (cellsOf kv (l.take n ++ [t]))[n]? :=
    getElem?_cellsOf_of_take_eq kv (by rw [← htake, List.take_take]; simp)
  rw [hcell, cellsOf_concat, cellsOf_take]
  have hlen : ((cellsOf kv l).take n).length = n := by simp; omega
  rw [List.getElem?_append_right (by omega), hlen]
  simp

/-! ### Continuation by a choice function -/

/-- `l` continued by `n` elements, each chosen by `f` from all the elements before it. -/
def autoregress (f : List τ → τ) (l : List τ) : ℕ → List τ
  | 0 => l
  | n + 1 => autoregress f (l ++ [f l]) n

/-- Every element of `ts` is the one `f` chooses from what is before it, `l` included. -/
def Follows (f : List τ → τ) (l : List τ) : List τ → Prop
  | [] => True
  | t :: ts => t = f l ∧ Follows f (l ++ [t]) ts

theorem Follows.append {f : List τ → τ} {l ts us : List τ} (h : Follows f l ts)
    (h' : Follows f (l ++ ts) us) : Follows f l (ts ++ us) := by
  induction ts generalizing l with
  | nil => simpa using h'
  | cons t ts ih => exact ⟨h.1, ih h.2 (by simpa using h')⟩

/-- **A list chosen element by element is the continuation of its length.** -/
theorem Follows.autoregress_eq {f : List τ → τ} {l ts : List τ} (h : Follows f l ts) :
    autoregress f l ts.length = l ++ ts := by
  induction ts generalizing l with
  | nil => simp [autoregress]
  | cons t ts ih =>
    obtain ⟨ht, hts⟩ := h
    rw [List.length_cons, autoregress, ← ht, ih hts, List.append_assoc, List.singleton_append]

end VllmMetal
