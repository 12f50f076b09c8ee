import Mathlib.Algebra.BigOperators.Group.List.Basic

/-!
# Arrays

An array by its shape and the entry at a multi-index.  What it answers outside its shape does not
matter: `Same` compares two arrays inside.

## Main definitions

* `NdArray` — arrays; `NdArray.Same` — the same shape and entries.
* `ofFlat` — row-major data under a shape.
* `takeRows`, `takeColumns`, `expandLast`, `map` — the operations on them.
-/

namespace VllmMetal

/-- An array. -/
structure NdArray (K : Type*) where
  shape : List ℕ
  entry : List ℕ → K

namespace NdArray

variable {K : Type*}

/-- A multi-index inside a shape. -/
def InRange (index shape : List ℕ) : Prop := List.Forall₂ (· < ·) index shape

/-- The same array. -/
structure Same (a b : NdArray K) : Prop where
  shape_eq : a.shape = b.shape
  entry_eq : ∀ index, InRange index a.shape → a.entry index = b.entry index

/-- The place of a multi-index in row-major data. -/
def offset : List ℕ → List ℕ → ℕ
  | _ :: dims, i :: index => i * dims.prod + offset dims index
  | _, _ => 0

/-- `data.reshape(shape)`. -/
def ofFlat (dflt : K) (shape : List ℕ) (data : List K) : NdArray K where
  shape := shape
  entry index := data.getD (offset shape index) dflt

/-- `a[index]`. -/
def takeRows (rows : List ℕ) (a : NdArray K) : NdArray K where
  shape := rows.length :: a.shape.tail
  entry
    | i :: index => a.entry (rows.getD i 0 :: index)
    | [] => a.entry []

/-- `a[:, index]`. -/
def takeColumns (columns : List ℕ) (a : NdArray K) : NdArray K where
  shape := match a.shape with
    | d :: _ :: dims => d :: columns.length :: dims
    | dims => dims
  entry
    | i :: j :: index => a.entry (i :: columns.getD j 0 :: index)
    | index => a.entry index

/-- `expand_dims(a, -1)`. -/
def expandLast (a : NdArray K) : NdArray K where
  shape := a.shape ++ [1]
  entry index := a.entry index.dropLast

/-- A function of each entry. -/
def map (f : K → K) (a : NdArray K) : NdArray K where
  shape := a.shape
  entry index := f (a.entry index)

theorem Same.map {a b : NdArray K} (h : a.Same b) (f : K → K) : (a.map f).Same (b.map f) :=
  ⟨h.shape_eq, fun index hindex => congrArg f (h.entry_eq index hindex)⟩

/-- A multi-index inside a shape with a last unit axis. -/
theorem inRange_append_one {shape index : List ℕ} (h : InRange index (shape ++ [1])) :
    ∃ init, index = init ++ [0] ∧ InRange init shape := by
  induction shape generalizing index with
  | nil =>
    obtain ⟨i, rest, hi, hrest, rfl⟩ := List.forall₂_cons_right_iff.mp h
    obtain rfl := List.forall₂_nil_right_iff.mp hrest
    exact ⟨[], by rw [Nat.lt_one_iff.mp hi]; rfl, List.Forall₂.nil⟩
  | cons d shape ih =>
    obtain ⟨i, rest, hi, hrest, rfl⟩ := List.forall₂_cons_right_iff.mp h
    obtain ⟨init, rfl, hinit⟩ := ih hrest
    exact ⟨i :: init, rfl, List.Forall₂.cons hi hinit⟩

end NdArray

end VllmMetal
