import VllmMetal.Lib.BitStream

/-!
# Arrays of two axes

An array with its shape and its rows.  Reshaping and assigning to a slice of rows fail when the
shapes do not fit.

## Main definitions

* `Array2` — the arrays.
* `Array2.reshape`, `Array2.inferRows` — the rows of a list.
* `Array2.assign` — a slice of rows is overwritten.
* `Array2.Filled` — the first rows are those of a target.

## Main results

* `cut_flatMap` — rows put one behind the other are cut out again.
* `Filled.assign`, `Filled.data_eq` — an array that is assigned slice by slice is its target.
-/

namespace VllmMetal

variable {α β γ : Type*}

/-- An array of two axes. -/
structure Array2 (α : Type*) where
  rows : ℕ
  cols : ℕ
  data : List (List α)
  length_data : data.length = rows
  length_row : ∀ row ∈ data, row.length = cols

namespace Array2

/-- An array of one value. -/
def full (rows cols : ℕ) (x : α) : Array2 α where
  rows := rows
  cols := cols
  data := List.replicate rows (List.replicate cols x)
  length_data := List.length_replicate
  length_row := by
    intro row hrow
    rw [List.eq_of_mem_replicate hrow, List.length_replicate]

/-- `xs.reshape(rows, cols)`. -/
def reshape (rows cols : ℕ) (xs : List α) : Option (Array2 α) :=
  if h : xs.length = rows * cols then some
    { rows := rows
      cols := cols
      data := (List.range rows).map fun r => (xs.drop (r * cols)).take cols
      length_data := by rw [List.length_map, List.length_range]
      length_row := by
        intro row hrow
        obtain ⟨r, hr, rfl⟩ := List.mem_map.mp hrow
        have hle := Nat.mul_le_mul_right cols (Nat.succ_le_of_lt (List.mem_range.mp hr))
        rw [Nat.succ_mul] at hle
        rw [List.length_take, List.length_drop]
        omega }
  else none

/-- `xs.reshape(-1, cols)`. -/
def inferRows (cols : ℕ) (xs : List α) : Option (Array2 α) := reshape (xs.length / cols) cols xs

/-- `a[start:stop]`. -/
def slice (a : Array2 α) (start stop : ℕ) : Array2 α where
  rows := ((a.data.drop start).take (stop - start)).length
  cols := a.cols
  data := (a.data.drop start).take (stop - start)
  length_data := rfl
  length_row := fun row hrow => a.length_row row (List.mem_of_mem_drop (List.mem_of_mem_take hrow))

/-- An operation on every row. -/
def mapRows (a : Array2 α) (cols : ℕ) (f : List α → List β)
    (h : ∀ row : List α, row.length = a.cols → (f row).length = cols) : Array2 β where
  rows := a.rows
  cols := cols
  data := a.data.map f
  length_data := by rw [List.length_map, a.length_data]
  length_row := by
    intro row hrow
    obtain ⟨r, hr, rfl⟩ := List.mem_map.mp hrow
    exact h r (a.length_row r hr)

/-- `a[start : start + new.rows] = new`. -/
def assign (a : Array2 α) (start : ℕ) (new : Array2 α) : Option (Array2 α) :=
  if h : new.cols = a.cols ∧ start + new.rows ≤ a.rows then some
    { rows := a.rows
      cols := a.cols
      data := a.data.take start ++ (new.data ++ a.data.drop (start + new.rows))
      length_data := by
        rw [List.length_append, List.length_append, List.length_take, List.length_drop,
          a.length_data, new.length_data]
        omega
      length_row := by
        intro row hrow
        rcases List.mem_append.mp hrow with hrow | hrow
        · exact a.length_row row (List.mem_of_mem_take hrow)
        · rcases List.mem_append.mp hrow with hrow | hrow
          · rw [new.length_row row hrow, h.1]
          · exact a.length_row row (List.mem_of_mem_drop hrow) }
  else none

/-! ### Reshaping -/

/-- **Rows put one behind the other are cut out again.** -/
theorem cut_flatMap {rows : List γ} {f : γ → List α} {cols : ℕ}
    (h : ∀ row ∈ rows, (f row).length = cols) :
    ((List.range rows.length).map fun r => ((rows.flatMap f).drop (r * cols)).take cols)
      = rows.map f := by
  induction rows with
  | nil => rfl
  | cons row rows ih =>
    have hrow := h row List.mem_cons_self
    have hrest := ih fun row hrow => h row (List.mem_cons_of_mem _ hrow)
    rw [List.length_cons, List.range_succ_eq_map, List.map_cons, List.map_map, List.map_cons,
      ← hrest]
    congr 1
    · rw [Nat.zero_mul, List.drop_zero, List.flatMap_cons, ← hrow, List.take_left]
    · apply List.map_congr_left
      intro r _
      show (((row :: rows).flatMap f).drop ((r + 1) * cols)).take cols = _
      rw [List.flatMap_cons, Nat.succ_mul, Nat.add_comm, ← hrow, List.drop_append,
        List.drop_eq_nil_of_le (by omega), List.nil_append, Nat.add_sub_cancel_left]

theorem length_flatMap_rows {rows : List γ} {f : γ → List α} {cols : ℕ}
    (h : ∀ row ∈ rows, (f row).length = cols) :
    (rows.flatMap f).length = rows.length * cols := by
  rw [List.length_flatMap, List.map_congr_left h, List.map_const', List.sum_replicate_nat]

theorem reshape_flatMap {rows : List γ} {f : γ → List α} {cols : ℕ}
    (h : ∀ row ∈ rows, (f row).length = cols) : ∃ a : Array2 α,
      reshape rows.length cols (rows.flatMap f) = some a ∧ a.rows = rows.length ∧ a.cols = cols ∧
        a.data = rows.map f :=
  ⟨_, dif_pos (length_flatMap_rows h), rfl, rfl, cut_flatMap h⟩

/-- The rows of a list that is made of them. -/
theorem inferRows_flatMap {rows : List γ} {f : γ → List α} {cols : ℕ} (hcols : 0 < cols)
    (h : ∀ row ∈ rows, (f row).length = cols) : ∃ a : Array2 α,
      inferRows cols (rows.flatMap f) = some a ∧ a.cols = cols ∧ a.data = rows.map f := by
  have hlen : (rows.flatMap f).length / cols = rows.length := by
    rw [length_flatMap_rows h, Nat.mul_div_cancel _ hcols]
  obtain ⟨a, hreshape, -, hacols, hdata⟩ := reshape_flatMap h
  exact ⟨a, by rw [inferRows, hlen, hreshape], hacols, hdata⟩

/-! ### Assigning slice by slice -/

/-- The first `t` rows are those of the target. -/
structure Filled (a : Array2 α) (target : List (List α)) (cols t : ℕ) : Prop where
  rows : a.rows = target.length
  cols : a.cols = cols
  take : a.data.take t = target.take t

variable {a : Array2 α} {target : List (List α)} {cols : ℕ}

theorem filled_full (target : List (List α)) (cols : ℕ) (x : α) :
    Filled (full target.length cols x) target cols 0 :=
  ⟨rfl, rfl, by rw [List.take_zero, List.take_zero]⟩

/-- **The next slice.** -/
theorem Filled.assign {start : ℕ} (h : Filled a target cols start) {new : Array2 α}
    (hcols : new.cols = cols) (hrows : start + new.rows ≤ target.length)
    (hnew : new.data = (target.drop start).take new.rows) :
    ∃ a', a.assign start new = some a' ∧ Filled a' target cols (start + new.rows) := by
  have hfits : new.cols = a.cols ∧ start + new.rows ≤ a.rows := by
    rw [hcols, h.cols, h.rows]
    exact ⟨rfl, hrows⟩
  refine ⟨_, dif_pos hfits, h.rows, h.cols, ?_⟩
  have hlen : (a.data.take start ++ new.data).length = start + new.rows := by
    rw [List.length_append, List.length_take, a.length_data, new.length_data]
    omega
  show (a.data.take start ++ (new.data ++ a.data.drop (start + new.rows))).take _ = _
  rw [← List.append_assoc, ← hlen, List.take_left, hlen, h.take, hnew, ← List.take_add]

/-- **An array with all of its rows filled is the target.** -/
theorem Filled.data_eq (h : Filled a target cols target.length) : a.data = target := by
  have htake := h.take
  rwa [List.take_of_length_le (Nat.le_of_eq (by rw [a.length_data, h.rows])), List.take_length]
    at htake

end Array2

end VllmMetal
