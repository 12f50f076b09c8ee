import Mathlib.Data.List.Basic

/-!
# Writing into a memory

A list of writes, made one after the other, over a memory given as a function of its addresses.
Each write covers some addresses and has a value for each of them.  What an address holds at the
end depends only on the writes that cover it.

## Main definitions

* `writeAll` — the memory after a list of writes.

## Main results

* `writeAll_of_not_covered`, `writeAll_of_covered` — an address that no write covers, and one to
  which all its writes give one value.
* `flatMap_slices` — cutting a list into slices of one length splits it.
-/

namespace VllmMetal

section Writes

variable {W A V : Type*} (covers : W → A → Prop) [∀ w a, Decidable (covers w a)] (value : W → A → V)

/-- The memory after a list of writes. -/
def writeAll (writes : List W) (memory : A → V) : A → V :=
  writes.foldl (fun m w a => if covers w a then value w a else m a) memory

variable {covers value}

theorem writeAll_cons (w : W) (writes : List W) (memory : A → V) :
    writeAll covers value (w :: writes) memory =
      writeAll covers value writes fun a => if covers w a then value w a else memory a := rfl

theorem writeAll_append (first rest : List W) (memory : A → V) :
    writeAll covers value (first ++ rest) memory =
      writeAll covers value rest (writeAll covers value first memory) :=
  List.foldl_append

/-- An address that no write covers keeps what it holds. -/
theorem writeAll_of_not_covered {writes : List W} {a : A} (h : ∀ w ∈ writes, ¬covers w a)
    (memory : A → V) : writeAll covers value writes memory a = memory a := by
  induction writes generalizing memory with
  | nil => rfl
  | cons w writes ih =>
    rw [writeAll_cons, ih fun w' hw' => h w' (List.mem_cons_of_mem w hw')]
    exact if_neg (h w List.mem_cons_self)

/-- An address to which all its writes give one value. -/
theorem writeAll_of_covered {writes : List W} {a : A} {v : V} (hsome : ∃ w ∈ writes, covers w a)
    (hall : ∀ w ∈ writes, covers w a → value w a = v) (memory : A → V) :
    writeAll covers value writes memory a = v := by
  induction writes generalizing memory with
  | nil =>
    obtain ⟨w, hw, -⟩ := hsome
    exact absurd hw List.not_mem_nil
  | cons w writes ih =>
    rw [writeAll_cons]
    have hrest : ∀ w' ∈ writes, covers w' a → value w' a = v :=
      fun w' hw' => hall w' (List.mem_cons_of_mem w hw')
    by_cases hlater : ∃ w' ∈ writes, covers w' a
    · exact ih hlater hrest _
    · -- the first write is the only one
      rw [writeAll_of_not_covered fun w' hw' hcover => hlater ⟨w', hw', hcover⟩]
      obtain ⟨w', hw', hcover⟩ := hsome
      rcases List.mem_cons.mp hw' with rfl | hw'
      · rw [if_pos hcover]
        exact hall w' List.mem_cons_self hcover
      · exact absurd ⟨w', hw', hcover⟩ hlater

end Writes

/-! ### Slices -/

/-- **Slices of one length split a list.** -/
theorem flatMap_slices {α : Type*} (l : List α) {step : ℕ} (hstep : 0 < step) :
    (List.range ((l.length + step - 1) / step)).flatMap
      (fun i => (l.drop (i * step)).take step) = l := by
  have htake : ∀ n, (List.range n).flatMap (fun i => (l.drop (i * step)).take step)
      = l.take (n * step) := by
    intro n
    induction n with
    | zero => simp
    | succ n ih =>
      rw [List.range_succ, List.flatMap_append, ih, List.flatMap_singleton, Nat.succ_mul,
        List.take_add]
  rw [htake, List.take_of_length_le]
  have hceil := Nat.lt_mul_div_succ (l.length + step - 1) hstep
  rw [Nat.mul_succ, Nat.mul_comm] at hceil
  omega

end VllmMetal
