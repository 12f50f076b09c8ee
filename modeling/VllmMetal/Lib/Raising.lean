import Mathlib.Data.List.Forall2

/-!
# Programs that can raise

A program over a state returns a value or raises, and in both cases it leaves a state behind:
what was written before a raise stays written.  A triple says what holds when the program
returns, and what holds when it raises; the rules below compose triples along the program.

## Main definitions

* `Prog σ α` — programs over the state `σ`, with `raise`, `read`, `update` and `onRaise`.
* `Triple P prog Q R` — from `P`, `prog` returns in `Q` or raises in `R`.
* `Preserves I prog` — `prog` keeps `I`, whether it returns or raises.

## Main results

* `Triple.bind`, `Triple.mono`, `Preserves.bind`, … — the rules.
* `except_bind_ok` — the two halves of a stateless program that returned.
* `mapM_eq_ok_iff` — a list that is mapped by a function that can fail.
* `foldlM_ok_induction` — what every step of a loop that returned keeps.
-/

namespace VllmMetal

/-- A composed program that returns returned in both halves. -/
theorem except_bind_ok {ε α β : Type} {first : Except ε α} {rest : α → Except ε β} {b : β}
    (h : (first >>= rest) = .ok b) : ∃ a, first = .ok a ∧ rest a = .ok b := by
  cases first with
  | error e => cases h
  | ok a => exact ⟨a, rfl, h⟩

/-- A list is mapped by a function that can fail when each of its members is. -/
theorem mapM_eq_ok_iff {α β ε : Type} {f : α → Except ε β} {l : List α} {ys : List β} :
    l.mapM f = .ok ys ↔ List.Forall₂ (fun x y => f x = .ok y) l ys := by
  induction l generalizing ys with
  | nil =>
    rw [List.mapM_nil, List.forall₂_nil_left_iff]
    constructor
    · intro h
      exact (Except.ok.inj h).symm
    · rintro rfl
      rfl
  | cons x l ih =>
    rw [List.mapM_cons]
    constructor
    · intro h
      cases hx : f x with
      | error e => simp [hx, bind, Except.bind] at h
      | ok y =>
        cases hl : l.mapM f with
        | error e => simp [hx, hl, bind, Except.bind] at h
        | ok ys' =>
          have hys : y :: ys' = ys := by
            simpa [hx, hl, bind, Except.bind, pure, Except.pure] using h
          rw [← hys]
          exact .cons hx (ih.mp hl)
    · intro h
      cases h with
      | cons hx hl =>
        rw [hx, ih.mpr hl]
        rfl

/-- Functions that agree on the members of a list map it to the same. -/
theorem mapM_congr {α β ε : Type} {f g : α → Except ε β} {l : List α} (h : ∀ x ∈ l, f x = g x) :
    l.mapM f = l.mapM g := by
  induction l with
  | nil => rfl
  | cons x l ih =>
    rw [List.mapM_cons, List.mapM_cons, h x List.mem_cons_self,
      ih fun y hy => h y (List.mem_cons_of_mem x hy)]

/-- What each step keeps holds after a loop that returned, of the elements it went through. -/
theorem foldlM_ok_induction {ε σ α : Type} {f : σ → α → Except ε σ} {P : List α → σ → Prop}
    (hstep : ∀ done s a s', P done s → f s a = .ok s' → P (done ++ [a]) s')
    {l : List α} {s s' : σ} (h : l.foldlM f s = .ok s') (hinit : P [] s) : P l s' := by
  have hrun : ∀ (todo done : List α) (s : σ), todo.foldlM f s = .ok s' → P done s →
      P (done ++ todo) s' := by
    intro todo
    induction todo with
    | nil =>
      intro done s h hdone
      cases h
      rw [List.append_nil]
      exact hdone
    | cons a todo ih =>
      intro done s h hdone
      rw [List.foldlM_cons] at h
      obtain ⟨next, hnext, hrest⟩ := except_bind_ok h
      have := ih (done ++ [a]) next hrest (hstep done s a next hdone hnext)
      rwa [List.append_assoc, List.singleton_append] at this
  exact hrun l [] s h hinit

/-- A loop whose steps all return returns, and keeps what its steps keep. -/
theorem foldlM_returns {ε σ α : Type} {f : σ → α → Except ε σ} {P : List α → σ → Prop} {l : List α}
    (hstep : ∀ done s a, P done s → done ++ [a] <+: l → ∃ s', f s a = .ok s' ∧ P (done ++ [a]) s')
    {s : σ} (hinit : P [] s) : ∃ s', l.foldlM f s = .ok s' ∧ P l s' := by
  have hrun : ∀ (todo done : List α) (s : σ), done ++ todo = l → P done s →
      ∃ s', todo.foldlM f s = .ok s' ∧ P l s' := by
    intro todo
    induction todo with
    | nil =>
      intro done s hl hdone
      rw [List.append_nil] at hl
      subst hl
      exact ⟨s, rfl, hdone⟩
    | cons a todo ih =>
      intro done s hl hdone
      have hsplit : done ++ [a] ++ todo = l := by
        rw [List.append_assoc, List.singleton_append, hl]
      obtain ⟨next, hnext, hkept⟩ := hstep done s a hdone ⟨todo, hsplit⟩
      obtain ⟨s', hrest, hs'⟩ := ih (done ++ [a]) next hsplit hkept
      refine ⟨s', ?_, hs'⟩
      rw [List.foldlM_cons, hnext]
      exact hrest
  exact hrun l [] s rfl hinit

/-- A program over the state `σ`: it returns a value or raises, and leaves a state. -/
def Prog (σ α : Type) : Type := σ → Except Unit α × σ

namespace Prog

variable {σ α β : Type}

instance : Monad (Prog σ) where
  pure a := fun s => (.ok a, s)
  bind prog f := fun s => match prog s with
    | (.ok a, s') => f a s'
    | (.error e, s') => (.error e, s')

/-- Raise. -/
def raise : Prog σ α := fun s => (.error (), s)

/-- Raise when the test is true. -/
def raiseIf (b : Bool) : Prog σ Unit := if b then raise else pure ()

/-- The state. -/
def read : Prog σ σ := fun s => (.ok s, s)

/-- Write the state. -/
def update (f : σ → σ) : Prog σ Unit := fun s => (.ok (), f s)

/-- Run a program; when it raises, write the state and raise again. -/
def onRaise (prog : Prog σ α) (f : σ → σ) : Prog σ α := fun s => match prog s with
  | (.ok a, s') => (.ok a, s')
  | (.error e, s') => (.error e, f s')

end Prog

/-- From a state in `P`, the program returns in `Q` or raises in `R`. -/
def Triple {σ α : Type} (P : σ → Prop) (prog : Prog σ α) (Q : α → σ → Prop) (R : σ → Prop) :
    Prop :=
  ∀ s, P s → match prog s with
    | (.ok a, s') => Q a s'
    | (.error _, s') => R s'

namespace Triple

variable {σ α β : Type} {P P' : σ → Prop} {Q Q' : α → σ → Prop} {R R' : σ → Prop}
  {prog : Prog σ α}

/-- Strengthen what is required, weaken what is promised. -/
theorem mono (h : Triple P prog Q R) (hP : ∀ s, P' s → P s) (hQ : ∀ a s, Q a s → Q' a s)
    (hR : ∀ s, R s → R' s) : Triple P' prog Q' R' := by
  intro s hs
  have hrun := h s (hP s hs)
  revert hrun
  cases prog s with
  | mk result s' =>
    cases result with
    | ok a => exact hQ a s'
    | error e => exact hR s'

theorem pure {a : α} (h : ∀ s, P s → Q a s) : Triple P (Pure.pure a : Prog σ α) Q R := h

theorem raise (h : ∀ s, P s → R s) : Triple P (Prog.raise : Prog σ α) Q R := h

theorem read {Q : σ → σ → Prop} (h : ∀ s, P s → Q s s) : Triple P Prog.read Q R := h

theorem update {f : σ → σ} {Q : Unit → σ → Prop} (h : ∀ s, P s → Q () (f s)) :
    Triple P (Prog.update f) Q R := h

/-- One program after the other. -/
theorem bind {f : α → Prog σ β} {Q₂ : β → σ → Prop} (h : Triple P prog Q R)
    (hf : ∀ a, Triple (Q a) (f a) Q₂ R) : Triple P (prog >>= f) Q₂ R := by
  intro s hs
  have hrun := h s hs
  show match (match prog s with
    | (.ok a, s') => f a s'
    | (.error e, s') => (.error e, s')) with
    | (.ok a, s') => Q₂ a s'
    | (.error _, s') => R s'
  revert hrun
  cases prog s with
  | mk result s' =>
    cases result with
    | ok a => exact hf a s'
    | error e => exact id

theorem ite {c : Prop} [Decidable c] {prog' : Prog σ α} (h : c → Triple P prog Q R)
    (h' : ¬ c → Triple P prog' Q R) : Triple P (if c then prog else prog') Q R := by
  by_cases hc : c
  · rw [if_pos hc]
    exact h hc
  · rw [if_neg hc]
    exact h' hc

/-- A loop: `I done` holds after the elements of `done`. -/
theorem forM {γ : Type} {I : List γ → σ → Prop} {f : γ → Prog σ PUnit} {l : List γ}
    (h : ∀ done a, done ++ [a] <+: l → Triple (I done) (f a) (fun _ => I (done ++ [a])) R) :
    Triple (I []) (l.forM f) (fun _ => I l) R := by
  have hrun : ∀ todo done : List γ, done ++ todo = l →
      Triple (I done) (todo.forM f) (fun _ => I l) R := by
    intro todo
    induction todo with
    | nil =>
      intro done hl
      rw [List.append_nil] at hl
      subst hl
      exact Triple.pure fun _ => id
    | cons a todo ih =>
      intro done hl
      have hsplit : done ++ [a] ++ todo = l := by
        rw [List.append_assoc, List.singleton_append, hl]
      exact Triple.bind (h done a ⟨todo, hsplit⟩) fun _ => ih (done ++ [a]) hsplit
  exact hrun l [] rfl

/-- What is returned may be required of the state before. -/
theorem of_forall (h : ∀ s, P s → Triple (· = s) prog Q R) : Triple P prog Q R :=
  fun s hs => h s hs s rfl

end Triple

/-- The program keeps `I`, whether it returns or raises. -/
def Preserves {σ α : Type} (I : σ → Prop) (prog : Prog σ α) : Prop :=
  Triple I prog (fun _ => I) I

namespace Preserves

variable {σ α β : Type} {I : σ → Prop} {prog : Prog σ α}

theorem pure {a : α} : Preserves I (Pure.pure a : Prog σ α) := Triple.pure fun _ => id

theorem raise : Preserves I (Prog.raise : Prog σ α) := Triple.raise fun _ => id

theorem raiseIf {b : Bool} : Preserves I (Prog.raiseIf b : Prog σ Unit) :=
  Triple.ite (fun _ => raise) fun _ => pure

theorem read : Preserves I (Prog.read : Prog σ σ) := Triple.read fun _ => id

theorem update {f : σ → σ} (h : ∀ s, I s → I (f s)) : Preserves I (Prog.update f) :=
  Triple.update h

theorem bind {f : α → Prog σ β} (h : Preserves I prog) (hf : ∀ a, Preserves I (f a)) :
    Preserves I (prog >>= f) := Triple.bind h hf

theorem ite {c : Prop} [Decidable c] {prog' : Prog σ α} (h : Preserves I prog)
    (h' : Preserves I prog') : Preserves I (if c then prog else prog') :=
  Triple.ite (fun _ => h) fun _ => h'

theorem onRaise {f : σ → σ} (h : Preserves I prog) (hf : ∀ s, I s → I (f s)) :
    Preserves I (prog.onRaise f) := by
  intro s hs
  have hrun := h s hs
  revert hrun
  rw [Prog.onRaise]
  cases prog s with
  | mk result s' =>
    cases result with
    | ok a => exact id
    | error e => exact hf s'

/-- The state that is left has the invariant. -/
theorem run (h : Preserves I prog) {s : σ} (hs : I s) : I (prog s).2 := by
  have hrun := h s hs
  revert hrun
  cases prog s with
  | mk result s' =>
    cases result with
    | ok a => exact id
    | error e => exact id

end Preserves

end VllmMetal
