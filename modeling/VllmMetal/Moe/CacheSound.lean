import VllmMetal.Lib.Run
import VllmMetal.Moe.ExpertStore
import Mathlib.Data.List.Infix
import Mathlib.Algebra.Ring.Int.Defs
import Mathlib.Data.Nat.Cast.Basic

/-!
# What the expert cache serves

The bytes the store counts are those of its entries, and a call that returns leaves it within its
budget or with the experts of the call alone.  An entry is made before its arrays are: a read that
returns fewer bytes than asked raises in the middle of a fill, and leaves an entry that a later call
takes for a hit.  Runs in which no read falls short serve complete experts only.

## Main definitions

* `Accounted`, `AllLoaded` — the counter is the sum; every entry is complete.
* `Whole` — the reads of a call raise, or return all the bytes.
* `GetLeaves` — what a call of `get` leaves, returned or raised.

## Main results

* `Store.get_leaves` — one call, by the loop over its jobs.
* `expert_store_run` — any run: the counter, the budget, and what calls serve.
* `short_read_then_hit` — a short read, then a hit on the entry it left.
-/

namespace VllmMetal.Moe

/-! ### Sizes -/

@[simp] theorem Entry.size_empty : Entry.empty.size = 0 := rfl

/-- One more component. -/
theorem Entry.size_put {entry : Entry} {p : Projection} {c : Component} (h : entry p c = none)
    (array : ExpertArray) : (entry.put p c array).size = entry.size + array.data.length := by
  cases p <;> cases c <;>
    simp [Entry.size, Entry.sizeAt, Entry.put, projections, components, h] <;> omega

/-- The counter is the sum of the sizes of the entries. -/
def Accounted (s : Store) : Prop := s.bytes = s.entries.total Entry.size

/-! ### Eviction -/

theorem evictLoop_spec (cacheBytes : ℤ) (keep : ℕ) (entries : List ((String × ℕ) × Entry))
    (bytes : ℤ) :
    ∃ dropped, entries = dropped ++ (evictLoop cacheBytes keep entries bytes).1 ∧
      (evictLoop cacheBytes keep entries bytes).2
        = bytes - ((dropped.map fun e => e.2.size).sum : ℕ) ∧
      (dropped ≠ [] → keep ≤ (evictLoop cacheBytes keep entries bytes).1.length) ∧
      ((evictLoop cacheBytes keep entries bytes).2 ≤ cacheBytes ∨
        (evictLoop cacheBytes keep entries bytes).1.length ≤ keep) := by
  induction entries generalizing bytes with
  | nil => exact ⟨[], rfl, by simp [evictLoop], fun h => absurd rfl h, Or.inr (Nat.zero_le _)⟩
  | cons e rest ih =>
    rw [evictLoop]
    split_ifs with hevict
    · obtain ⟨dropped, hentries, hbytes, hkeep, hstop⟩ := ih (bytes - e.2.size)
      refine ⟨e :: dropped, ?_, ?_, ?_, hstop⟩
      · rw [List.cons_append, ← hentries]
      · rw [hbytes, List.map_cons, List.sum_cons]
        push_cast
        omega
      · intro _
        by_cases hdropped : dropped = []
        · rw [hdropped, List.nil_append] at hentries
          rw [← hentries]
          exact Nat.le_of_lt_succ hevict.2
        · exact hkeep hdropped
    · refine ⟨[], rfl, by simp, fun h => absurd rfl h, ?_⟩
      rcases not_and_or.mp hevict with hbytes | hlen
      · exact Or.inl (not_lt.mp hbytes)
      · exact Or.inr (not_lt.mp hlen)

/-- Eviction keeps the count, the newest `keep` entries and the lookups of those that stay. -/
theorem evict_spec {s : Store} (h : Accounted s) (cacheBytes : ℤ) {front kept : List (String × ℕ)}
    (hkeys : s.entries.keys = front ++ kept) :
    Accounted (s.evict cacheBytes kept.length) ∧
      (∀ key ∈ kept, (s.evict cacheBytes kept.length).entries.get? key = s.entries.get? key) ∧
      (∀ key entry, (s.evict cacheBytes kept.length).entries.get? key = some entry →
        s.entries.get? key = some entry) ∧
      ((s.evict cacheBytes kept.length).bytes ≤ cacheBytes ∨
        ∀ key ∈ (s.evict cacheBytes kept.length).entries.keys, key ∈ kept) := by
  obtain ⟨dropped, hentries, hbytes, hkeep, hstop⟩ :=
    evictLoop_spec cacheBytes kept.length s.entries.entries s.bytes
  -- the entries that are left end with the kept keys
  obtain ⟨front', hfront'⟩ : ∃ front', (evictLoop cacheBytes kept.length s.entries.entries
      s.bytes).1.map Prod.fst = front' ++ kept := by
    have hmap := congrArg (List.map Prod.fst) hentries
    rw [List.map_append] at hmap
    have hsplit : front ++ kept = dropped.map Prod.fst ++ (evictLoop cacheBytes kept.length
        s.entries.entries s.bytes).1.map Prod.fst := hkeys.symm.trans hmap
    by_cases hdropped : dropped = []
    · rw [hdropped, List.map_nil, List.nil_append] at hsplit
      exact ⟨front, hsplit.symm⟩
    · have hsuffix : kept <:+ (evictLoop cacheBytes kept.length s.entries.entries
          s.bytes).1.map Prod.fst := by
        apply List.suffix_of_suffix_length_le ⟨front, hsplit⟩ (List.suffix_append _ _)
        rw [List.length_map]
        exact hkeep hdropped
      obtain ⟨front', hfront'⟩ := hsuffix
      exact ⟨front', hfront'.symm⟩
  refine ⟨?_, ?_, ?_, ?_⟩
  · have htotal := congrArg (fun l => (l.map fun e : (String × ℕ) × Entry => e.2.size).sum) hentries
    simp only [List.map_append, List.sum_append] at htotal
    have hsum : (s.entries.total Entry.size : ℤ) = _ := congrArg Nat.cast htotal
    rw [Accounted] at h ⊢
    change (evictLoop cacheBytes kept.length s.entries.entries s.bytes).2 = _
    rw [hbytes, h, hsum, Nat.cast_add, add_sub_cancel_left]
    rfl
  · intro key hkey
    refine OrderedDict.get?_restrict
      (evictLoop_suffix cacheBytes kept.length s.entries.entries s.bytes).sublist ?_
    rw [hfront']
    exact List.mem_append_right _ hkey
  · intro key entry hget
    rw [OrderedDict.get?_eq_some_iff] at hget ⊢
    exact (evictLoop_suffix _ _ _ _).subset hget
  · rcases hstop with hbudget | hlen
    · exact Or.inl hbudget
    · right
      intro key hkey
      have hlength := congrArg List.length hfront'
      rw [List.length_map, List.length_append] at hlength
      have hnil : front' = [] := List.length_eq_zero_iff.mp (by omega)
      rw [hnil, List.nil_append] at hfront'
      rw [← hfront']
      exact hkey

/-! ### The touched experts -/

/-- Moving the experts of a call to the end: they stand last, and no lookup changes. -/
theorem forM_moveToEnd (modulePath : String) {experts : List ℕ} (hnodup : experts.Nodup)
    (s₀ : Store) (haccounted : Accounted s₀) :
    Triple (· = s₀) (experts.forM (moveToEnd modulePath))
      (fun _ s => Accounted s ∧ (∀ key, s.entries.get? key = s₀.entries.get? key) ∧
        ∃ front, s.entries.keys = front ++ experts.map fun expert => (modulePath, expert))
      (fun s => Accounted s ∧ ∀ key, s.entries.get? key = s₀.entries.get? key) := by
  -- the experts that are done stand at the end, in the order of the call
  have hloop := Triple.forM (f := moveToEnd modulePath) (l := experts)
    (I := fun done s => Accounted s ∧ (∀ key, s.entries.get? key = s₀.entries.get? key) ∧
      ∃ front, s.entries.keys = front ++ done.map fun expert => (modulePath, expert))
    (R := fun s => Accounted s ∧ ∀ key, s.entries.get? key = s₀.entries.get? key) ?_
  · refine hloop.mono ?_ (fun _ _ => id) fun _ => id
    rintro s rfl
    exact ⟨haccounted, fun _ => rfl, s.entries.keys, by simp⟩
  · intro done expert hdone
    unfold moveToEnd
    refine Triple.bind (Triple.read (Q := fun s s' => s = s' ∧ _) fun s hs => ⟨rfl, hs⟩) ?_
    intro s
    refine Triple.ite (fun hmem => Triple.update ?_) fun _ => Triple.raise ?_
    · rintro _ ⟨rfl, hacc, hget, front, hkeys⟩
      refine ⟨?_, ?_, ?_⟩
      · rw [Accounted] at hacc ⊢
        rw [OrderedDict.total_moveToEnd]
        exact hacc
      · intro key
        rw [OrderedDict.get?_moveToEnd]
        exact hget key
      -- experts are not repeated, so moving one more leaves the others where they are
      · have hnew : ∀ key ∈ done.map (fun expert => (modulePath, expert)),
            key ≠ (modulePath, expert) := by
          intro key hkey heq
          obtain ⟨expert', hexpert', rfl⟩ := List.mem_map.mp hkey
          have hsub := hnodup.sublist hdone.sublist
          rw [List.nodup_append] at hsub
          exact hsub.2.2 expert' hexpert' expert (List.mem_singleton_self _) (Prod.mk.inj heq).2
        have hfilter : (done.map fun expert => (modulePath, expert)).filter
            (fun key => key ≠ (modulePath, expert)) = done.map fun expert => (modulePath, expert) :=
          List.filter_eq_self.mpr fun key hkey => decide_eq_true (hnew key hkey)
        refine ⟨front.filter fun key => key ≠ (modulePath, expert), ?_⟩
        rw [OrderedDict.keys_moveToEnd hmem, hkeys, List.filter_append, hfilter, List.map_append,
          List.append_assoc]
        rfl
    · rintro _ ⟨rfl, hacc, hget, -⟩
      exact ⟨hacc, hget⟩

/-! ### Filling -/

section Fill

variable {index : Dict String TensorLocation} {files : Files} {modulePath : String}

/-- The key of the component a job is for. -/
def Job.key (job : Job) : ℕ × Projection × Component := (job.expert, job.projection, job.component)

theorem mem_jobsOf {missing : List ℕ} {job : Job} :
    job ∈ jobsOf index modulePath missing ↔ job.expert ∈ missing ∧
      expertSlice index modulePath job.projection job.component job.expert = some job.piece := by
  have hall : ∀ (p : Projection) (c : Component), (p, c) ∈ projections ×ˢ components := by
    intro p c
    cases p <;> cases c <;> decide
  rw [jobsOf, List.mem_filterMap]
  constructor
  · rintro ⟨⟨e, p, c⟩, hmem, hjob⟩
    obtain ⟨piece, hpiece, rfl⟩ := Option.map_eq_some_iff.mp hjob
    exact ⟨(List.mem_product.mp hmem).1, hpiece⟩
  · rintro ⟨hmem, hpiece⟩
    refine ⟨job.key, List.mem_product.mpr ⟨hmem, hall _ _⟩, ?_⟩
    simp only [Job.key, hpiece]
    rfl

/-- Each component is read once. -/
theorem nodup_jobsOf (index : Dict String TensorLocation) (modulePath : String)
    {missing : List ℕ} (hnodup : missing.Nodup) :
    ((jobsOf index modulePath missing).map Job.key).Nodup := by
  have hpairs : (projections ×ˢ components).Nodup := by decide
  have hsub : ((jobsOf index modulePath missing).map Job.key).Sublist
      (missing ×ˢ (projections ×ˢ components)) := by
    have hfilter : ∀ l : List (ℕ × Projection × Component),
        ((l.filterMap fun epc => (expertSlice index modulePath epc.2.1 epc.2.2 epc.1).map
          fun piece => (⟨epc.1, epc.2.1, epc.2.2, piece⟩ : Job)).map Job.key).Sublist l := by
      intro l
      induction l with
      | nil => exact List.Sublist.refl _
      | cons epc l ih =>
        rw [List.filterMap_cons]
        cases expertSlice index modulePath epc.2.1 epc.2.2 epc.1 with
        | none => exact ih.cons _
        | some piece => exact ih.cons_cons _
    exact hfilter _
  exact (hnodup.product hpairs).sublist hsub

/-- A read that returned everything is the window of its slice. -/
theorem pread_eq_window {piece : ExpertSlice} {limit : ℕ}
    (h : (files.pread limit piece).length = piece.nbytes) :
    files.pread limit piece = files.window piece ∧ (files.window piece).length = piece.nbytes := by
  have hle : (files.window piece).length ≤ piece.nbytes := List.length_take_le _ _
  rw [Files.pread, List.length_take] at h
  rw [Files.pread, List.take_of_length_le (by omega)]
  exact ⟨rfl, by omega⟩

/-- The entry of an expert after the jobs in `done`. -/
def FilledBy (index : Dict String TensorLocation) (files : Files) (modulePath : String)
    (done : List (Job × List UInt8)) (expert : ℕ) (entry : Entry) : Prop :=
  ∀ p c, if (expert, p, c) ∈ done.map fun x => x.1.key then
      LoadedAt files (expertSlice index modulePath p c expert) (entry p c)
    else entry p c = none

/-- The store after the jobs in `done`. -/
structure Filled (index : Dict String TensorLocation) (files : Files) (modulePath : String)
    (s₀ : Store) (done : List (Job × List UInt8)) (s : Store) : Prop where
  accounted : Accounted s
  whole : ∀ x ∈ done, x.2.length = x.1.piece.nbytes
  old : ∀ key, (∀ x ∈ done, key ≠ (modulePath, x.1.expert)) →
    s.entries.get? key = s₀.entries.get? key
  filled : ∀ x ∈ done, ∃ entry, s.entries.get? (modulePath, x.1.expert) = some entry ∧
    FilledBy index files modulePath done x.1.expert entry

/-- An entry that lacks a component the checkpoint has. -/
def Broken (index : Dict String TensorLocation) (modulePath : String) (s : Store) : Prop :=
  ∃ expert entry, s.entries.get? (modulePath, expert) = some entry ∧
    ∃ p c, (expertSlice index modulePath p c expert).isSome ∧ entry p c = none

/-- A job and what its read returned. -/
def JobRead (index : Dict String TensorLocation) (files : Files) (modulePath : String)
    (x : Job × List UInt8) : Prop :=
  expertSlice index modulePath x.1.projection x.1.component x.1.expert = some x.1.piece ∧
    ∃ limit, x.2 = files.pread limit x.1.piece

/-- The entry of the job's expert, made if need be. -/
theorem Filled.entry {s₀ s : Store} {done : List (Job × List UInt8)}
    (h : Filled index files modulePath s₀ done s) {job : Job}
    (hmissing : (modulePath, job.expert) ∉ s₀.entries.keys) :
    ∃ entry, FilledBy index files modulePath done job.expert entry ∧
      (s.entries.get? (modulePath, job.expert) = some entry ∨
        (modulePath, job.expert) ∉ s.entries.keys ∧ entry = Entry.empty) := by
  by_cases hdone : ∃ x ∈ done, x.1.expert = job.expert
  · obtain ⟨x, hx, hexpert⟩ := hdone
    obtain ⟨entry, hget, hfilled⟩ := h.filled x hx
    rw [hexpert] at hget hfilled
    exact ⟨entry, hfilled, Or.inl hget⟩
  · refine ⟨Entry.empty, ?_, Or.inr ⟨?_, rfl⟩⟩
    · intro p c
      rw [if_neg]
      · rfl
      · intro hmem
        obtain ⟨x, hx, hkey⟩ := List.mem_map.mp hmem
        exact hdone ⟨x, hx, (Prod.mk.inj hkey).1⟩
    · rw [← OrderedDict.get?_eq_none_iff, h.old _ fun x hx heq =>
        hdone ⟨x, hx, (Prod.mk.inj heq).2.symm⟩, OrderedDict.get?_eq_none_iff]
      exact hmissing

/-- One more component of an entry. -/
theorem FilledBy.put {done : List (Job × List UInt8)} {job : Job} {raw : List UInt8}
    {entry : Entry} (h : FilledBy index files modulePath done job.expert entry)
    (hread : JobRead index files modulePath (job, raw)) (hwhole : raw.length = job.piece.nbytes) :
    FilledBy index files modulePath (done ++ [(job, raw)]) job.expert
      (entry.put job.projection job.component
        ⟨raw, job.piece.shape, job.piece.location.dtype⟩) := by
  obtain ⟨hslice, limit, hraw⟩ := hread
  dsimp only at hslice hraw
  intro p c
  have hold := h p c
  by_cases hkey : p = job.projection ∧ c = job.component
  · obtain ⟨rfl, rfl⟩ := hkey
    have hmem : (job.expert, job.projection, job.component) ∈
        (done ++ [(job, raw)]).map fun x => x.1.key := by
      rw [List.map_append]
      exact List.mem_append_right _ (List.mem_singleton_self _)
    obtain ⟨hwindow, hlength⟩ := pread_eq_window (hraw ▸ hwhole)
    rw [if_pos hmem, hslice, Entry.put, if_pos ⟨rfl, rfl⟩, hraw, hwindow]
    exact ⟨hlength, rfl⟩
  · have hiff : (job.expert, p, c) ∈ (done ++ [(job, raw)]).map (fun x => x.1.key) ↔
        (job.expert, p, c) ∈ done.map fun x => x.1.key := by
      rw [List.map_append, List.mem_append]
      refine or_iff_left fun hlast => hkey ?_
      have heq := List.mem_singleton.mp hlast
      exact ⟨(Prod.mk.inj (Prod.mk.inj heq).2).1, (Prod.mk.inj (Prod.mk.inj heq).2).2⟩
    rw [Entry.put, if_neg hkey]
    simp only [hiff]
    exact hold

theorem FilledBy.concat_other {done : List (Job × List UInt8)} {x : Job × List UInt8}
    {expert : ℕ} {entry : Entry} (h : FilledBy index files modulePath done expert entry)
    (hne : expert ≠ x.1.expert) :
    FilledBy index files modulePath (done ++ [x]) expert entry := by
  intro p c
  have hiff : (expert, p, c) ∈ (done ++ [x]).map (fun y => y.1.key) ↔
      (expert, p, c) ∈ done.map fun y => y.1.key := by
    rw [List.map_append, List.mem_append]
    exact or_iff_left fun hlast => hne (Prod.mk.inj (List.mem_singleton.mp hlast)).1
  simp only [hiff]
  exact h p c

/-- The store once the entry of the job's expert is there. -/
structure Opened (index : Dict String TensorLocation) (files : Files) (modulePath : String)
    (s₀ : Store) (done : List (Job × List UInt8)) (expert : ℕ) (s : Store) : Prop where
  accounted : Accounted s
  whole : ∀ x ∈ done, x.2.length = x.1.piece.nbytes
  old : ∀ key, key ≠ (modulePath, expert) → (∀ x ∈ done, key ≠ (modulePath, x.1.expert)) →
    s.entries.get? key = s₀.entries.get? key
  filled : ∀ x ∈ done, x.1.expert ≠ expert →
    ∃ entry, s.entries.get? (modulePath, x.1.expert) = some entry ∧
      FilledBy index files modulePath done x.1.expert entry
  opened : ∃ entry, s.entries.get? (modulePath, expert) = some entry ∧
    FilledBy index files modulePath done expert entry

/-- `setdefault`. -/
theorem Filled.open {s₀ s : Store} {done : List (Job × List UInt8)}
    (h : Filled index files modulePath s₀ done s) {job : Job}
    (hmissing : (modulePath, job.expert) ∉ s₀.entries.keys) :
    Opened index files modulePath s₀ done job.expert
      (if (modulePath, job.expert) ∈ s.entries.keys then s
        else { s with entries := s.entries.set (modulePath, job.expert) Entry.empty }) := by
  obtain ⟨entry, hfilled, hentry⟩ := h.entry hmissing
  split_ifs with hmem
  · refine ⟨h.accounted, h.whole, fun key _ => h.old key, fun x hx _ => h.filled x hx, entry, ?_,
      hfilled⟩
    rcases hentry with hget | ⟨hnot, -⟩
    · exact hget
    · exact absurd hmem hnot
  · have hempty : entry = Entry.empty := by
      rcases hentry with hget | ⟨-, hempty⟩
      · exact absurd (OrderedDict.get?_isSome_iff.mp (by rw [hget]; rfl)) hmem
      · exact hempty
    refine ⟨?_, h.whole, ?_, ?_, entry, ?_, hfilled⟩
    · have hacc := h.accounted
      rw [Accounted] at hacc ⊢
      rw [OrderedDict.total_set_of_not_mem Entry.size Entry.empty hmem, Entry.size_empty]
      exact hacc
    · intro key hne hold
      rw [OrderedDict.get?_set, if_neg hne]
      exact h.old key hold
    · intro x hx hne
      rw [OrderedDict.get?_set, if_neg fun heq => hne (Prod.mk.inj heq).2]
      exact h.filled x hx
    · rw [OrderedDict.get?_set, if_pos rfl, hempty]

/-- **One job.**  The entry of its expert gets one component more, or the read was short and the
entry is left without it. -/
theorem addPiece_spec {s₀ : Store} {done : List (Job × List UInt8)} {x : Job × List UInt8}
    (hread : JobRead index files modulePath x)
    (hmissing : (modulePath, x.1.expert) ∉ s₀.entries.keys)
    (hnew : x.1.key ∉ done.map fun y => y.1.key) :
    Triple (Filled index files modulePath s₀ done) (addPiece modulePath x)
      (fun _ => Filled index files modulePath s₀ (done ++ [x]))
      (fun s => Accounted s ∧ x.2.length ≠ x.1.piece.nbytes ∧ Broken index modulePath s) := by
  obtain ⟨job, raw⟩ := x
  have hslice := hread.1
  dsimp only at hslice hmissing hnew ⊢
  refine Triple.bind (Q := fun _ s => Opened index files modulePath s₀ done job.expert s)
    (Triple.update fun s hs => hs.open hmissing) fun _ => ?_
  -- the component is not there yet
  have hnone : ∀ entry, FilledBy index files modulePath done job.expert entry →
      entry job.projection job.component = none := by
    intro entry hfilled
    have h := hfilled job.projection job.component
    have hkey : (job.expert, job.projection, job.component) ∉ done.map fun y => y.1.key := hnew
    rw [if_neg hkey] at h
    exact h
  have hnbytes := toArray_eq (expertSlice_nbytes hslice) raw
  by_cases hlength : raw.length = job.piece.nbytes
  · rw [if_pos hlength] at hnbytes
    rw [hnbytes]
    refine Triple.update fun s hs => ?_
    obtain ⟨entry, hget, hfilled⟩ := hs.opened
    have hput := hfilled.put hread hlength
    refine ⟨?_, ?_, ?_, ?_⟩
    · have htotal := OrderedDict.total_set_of_get? Entry.size
        (entry.put job.projection job.component ⟨raw, job.piece.shape, job.piece.location.dtype⟩)
          hget
      rw [Entry.size_put (hnone entry hfilled)] at htotal
      have hacc := hs.accounted
      rw [Accounted] at hacc ⊢
      rw [hget, Option.getD_some]
      change s.bytes + _ = _
      rw [hacc]
      dsimp only at htotal ⊢
      omega
    · intro y hy
      rcases List.mem_append.mp hy with hy | hy
      · exact hs.whole y hy
      · rw [List.mem_singleton.mp hy]
        exact hlength
    · intro key hold
      have hkey := hold (job, raw) (List.mem_append_right _ (List.mem_singleton_self _))
      rw [OrderedDict.get?_set, if_neg hkey]
      exact hs.old key hkey fun y hy => hold y (List.mem_append_left _ hy)
    · intro y hy
      by_cases hexpert : y.1.expert = job.expert
      · rw [hexpert, OrderedDict.get?_set, if_pos rfl, hget]
        exact ⟨_, rfl, hput⟩
      · have hy : y ∈ done := by
          rcases List.mem_append.mp hy with hy | hy
          · exact hy
          · rw [List.mem_singleton.mp hy] at hexpert
            exact absurd rfl hexpert
        obtain ⟨entry', hget', hfilled'⟩ := hs.filled y hy hexpert
        refine ⟨entry', ?_, hfilled'.concat_other hexpert⟩
        rw [OrderedDict.get?_set, if_neg fun heq => hexpert (Prod.mk.inj heq).2]
        exact hget'
  · rw [if_neg hlength] at hnbytes
    rw [hnbytes]
    refine Triple.raise fun s hs => ⟨hs.accounted, hlength, ?_⟩
    obtain ⟨entry, hget, hfilled⟩ := hs.opened
    refine ⟨job.expert, entry, hget, job.projection, job.component, ?_, hnone entry hfilled⟩
    rw [hslice]
    rfl

/-- **The loop over the jobs** fills the entries of the missing experts, or stops at a short
read. -/
theorem forM_addPiece {s₀ : Store} (haccounted : Accounted s₀) {missing : List ℕ}
    (hnodup : missing.Nodup) (hmissing : ∀ expert ∈ missing, (modulePath, expert) ∉ s₀.entries.keys)
    {raws : List (List UInt8)} (hraws : (jobsOf index modulePath missing).length = raws.length)
    (hreads : ∀ x ∈ (jobsOf index modulePath missing).zip raws, ∃ limit,
      x.2 = files.pread limit x.1.piece) :
    Triple (· = s₀) (((jobsOf index modulePath missing).zip raws).forM (addPiece modulePath))
      (fun _ => Filled index files modulePath s₀ ((jobsOf index modulePath missing).zip raws))
      (fun s => Accounted s ∧ (∃ x ∈ (jobsOf index modulePath missing).zip raws,
        x.2.length ≠ x.1.piece.nbytes) ∧ Broken index modulePath s) := by
  have hkeys : ((jobsOf index modulePath missing).zip raws).map (fun x => x.1.key)
      = (jobsOf index modulePath missing).map Job.key := by
    have hfst : ((jobsOf index modulePath missing).zip raws).map Prod.fst
        = jobsOf index modulePath missing := List.map_fst_zip (by omega)
    conv_rhs => rw [← hfst]
    rw [List.map_map]
    rfl
  -- the pieces that are done have filled their entries, and a short read stops the loop
  have hloop := Triple.forM (f := addPiece modulePath)
    (l := (jobsOf index modulePath missing).zip raws)
    (I := Filled index files modulePath s₀)
    (R := fun s => Accounted s ∧ (∃ x ∈ (jobsOf index modulePath missing).zip raws,
      x.2.length ≠ x.1.piece.nbytes) ∧ Broken index modulePath s) ?_
  · refine hloop.mono ?_ (fun _ _ => id) fun _ => id
    rintro s rfl
    exact ⟨haccounted, by simp, fun _ _ => rfl, by simp⟩
  · intro done x hdone
    have hx : x ∈ (jobsOf index modulePath missing).zip raws :=
      hdone.subset (List.mem_append_right _ (List.mem_singleton_self _))
    have hjob := mem_jobsOf.mp (List.of_mem_zip hx).1
    -- no job is done twice
    have hnew : x.1.key ∉ done.map fun y => y.1.key := by
      have hsub := nodup_jobsOf index modulePath hnodup
      rw [← hkeys] at hsub
      have hpre := hsub.sublist (hdone.sublist.map fun y => y.1.key)
      rw [List.map_append, List.nodup_append] at hpre
      exact fun hmem => hpre.2.2 _ hmem _ (List.mem_singleton_self _) rfl
    refine (addPiece_spec ⟨hjob.2, hreads x hx⟩ (hmissing _ hjob.1) hnew).mono (fun _ => id)
      (fun _ _ => id) ?_
    rintro s ⟨hacc, hlength, hbroken⟩
    exact ⟨hacc, ⟨x, hx, hlength⟩, hbroken⟩

/-- An expert whose components are all read is complete. -/
theorem FilledBy.loaded {missing : List ℕ} {raws : List (List UInt8)}
    (hraws : (jobsOf index modulePath missing).length = raws.length) {expert : ℕ} {entry : Entry}
    (hmissing : expert ∈ missing)
    (h : FilledBy index files modulePath ((jobsOf index modulePath missing).zip raws) expert entry)
    :
    Loaded index files modulePath expert entry := by
  intro p c
  have hentry := h p c
  split_ifs at hentry with hmem
  · exact hentry
  · -- a component that is not read is one the checkpoint does not have
    cases hslice : expertSlice index modulePath p c expert with
    | none => exact hentry
    | some piece =>
      refine absurd ?_ hmem
      have hjob : (⟨expert, p, c, piece⟩ : Job) ∈ jobsOf index modulePath missing :=
        mem_jobsOf.mpr ⟨hmissing, hslice⟩
      have hfst : ((jobsOf index modulePath missing).zip raws).map Prod.fst
          = jobsOf index modulePath missing := List.map_fst_zip (by omega)
      rw [← hfst] at hjob
      obtain ⟨x, hx, heq⟩ := List.mem_map.mp hjob
      exact List.mem_map.mpr ⟨x, hx, by rw [heq]; rfl⟩

end Fill

/-! ### One call -/

section Call

variable (index : Dict String TensorLocation) (files : Files) (cacheBytes : ℤ)

/-- The reads of a call raise somewhere, or return all the bytes they are asked for. -/
def Whole (s : Store) (modulePath : String) (experts : List ℕ) (reads : ℕ → Option ℕ) : Prop :=
  ∀ raws, rawsOf files reads (jobsOf index modulePath (s.missing modulePath experts)) = some raws →
    ∀ x ∈ (jobsOf index modulePath (s.missing modulePath experts)).zip raws,
      x.2.length = x.1.piece.nbytes

/-- Every entry was there before, or is complete. -/
def Derived (modulePath : String) (s s' : Store) : Prop :=
  ∀ key entry, s'.entries.get? key = some entry → s.entries.get? key = some entry ∨
    key.1 = modulePath ∧ Loaded index files modulePath key.2 entry

variable {index files cacheBytes}

theorem rawsOf_spec {reads : ℕ → Option ℕ} {jobs : List Job} {raws : List (List UInt8)}
    (h : rawsOf files reads jobs = some raws) : jobs.length = raws.length ∧
      ∀ x ∈ jobs.zip raws, ∃ limit, x.2 = files.pread limit x.1.piece := by
  unfold rawsOf at h
  split_ifs at h
  obtain rfl := Option.some.inj h
  refine ⟨by simp, fun x hx => ?_⟩
  obtain ⟨i, hi⟩ := List.mem_iff_getElem?.mp hx
  rw [List.getElem?_zip_eq_some, List.getElem?_map, List.getElem?_zipIdx] at hi
  obtain ⟨hjob, hraw⟩ := hi
  rw [hjob] at hraw
  exact ⟨_, (Option.some.inj hraw).symm⟩

/-- What a fill leaves. -/
theorem Filled.derived {modulePath : String} {s₀ s : Store} {missing : List ℕ}
    {raws : List (List UInt8)} (hraws : (jobsOf index modulePath missing).length = raws.length)
    (h : Filled index files modulePath s₀ ((jobsOf index modulePath missing).zip raws) s) :
    Derived index files modulePath s₀ s := by
  intro key entry hget
  by_cases hkey : ∃ x ∈ (jobsOf index modulePath missing).zip raws,
      key = (modulePath, x.1.expert)
  · obtain ⟨x, hx, rfl⟩ := hkey
    obtain ⟨entry', hget', hfilled⟩ := h.filled x hx
    obtain rfl := Option.some.inj (hget.symm.trans hget')
    exact Or.inr ⟨rfl, hfilled.loaded hraws (mem_jobsOf.mp (List.of_mem_zip hx).1).1⟩
  · left
    rw [← h.old key fun x hx heq => hkey ⟨x, hx, heq⟩]
    exact hget

/-- What a call of `get` that returns gives and leaves. -/
structure Returns (index : Dict String TensorLocation) (files : Files) (cacheBytes : ℤ)
    (modulePath : String) (experts : List ℕ) (reads : ℕ → Option ℕ) (s : Store)
    (result : List Entry) (s' : Store) : Prop where
  accounted : Accounted s'
  whole : Whole index files s modulePath experts reads
  derived : Derived index files modulePath s s'
  budget : s'.bytes ≤ cacheBytes ∨
    ∀ key ∈ s'.entries.keys, key ∈ experts.map fun expert => (modulePath, expert)
  length : result.length = experts.length
  entries : ∀ (i expert : ℕ), experts[i]? = some expert → ∃ entry, result[i]? = some entry ∧
    s'.entries.get? (modulePath, expert) = some entry

/-- What a call of `get` that raises leaves. -/
structure Raises (index : Dict String TensorLocation) (files : Files) (modulePath : String)
    (experts : List ℕ) (reads : ℕ → Option ℕ) (s s' : Store) : Prop where
  accounted : Accounted s'
  leaves : Whole index files s modulePath experts reads ∧ Derived index files modulePath s s' ∨
    ¬Whole index files s modulePath experts reads ∧ Broken index modulePath s'

/-- The part of `get` after the reads. -/
theorem serve_spec {modulePath : String} {experts : List ℕ} {reads : ℕ → Option ℕ} {s s₁ : Store}
    (hnodup : experts.Nodup) (haccounted : Accounted s₁)
    (hwhole : Whole index files s modulePath experts reads)
    (hderived : Derived index files modulePath s s₁) :
    Triple (· = s₁) (do
        experts.forM (moveToEnd modulePath)
        Prog.update (Store.evict cacheBytes experts.length)
        let s ← Prog.read
        if experts.all fun expert => (modulePath, expert) ∈ s.entries.keys then
          pure (experts.map fun expert => (s.entries.get? (modulePath, expert)).getD Entry.empty)
        else Prog.raise)
      (Returns index files cacheBytes modulePath experts reads s)
      (Raises index files modulePath experts reads s) := by
  -- the experts of the call are moved to the end before any eviction
  have hmoved := forM_moveToEnd modulePath hnodup s₁ haccounted
  refine Triple.bind (hmoved.mono (fun _ => id) (fun _ _ => id) ?_) fun _ => ?_
  · rintro s' ⟨hacc, hget⟩
    refine ⟨hacc, Or.inl ⟨hwhole, fun key entry hentry => hderived key entry ?_⟩⟩
    rw [← hget key]
    exact hentry
  -- then the oldest entries are dropped, down to the experts of the call
  refine Triple.bind (Q := fun _ s' => Accounted s' ∧ Derived index files modulePath s s' ∧
    (s'.bytes ≤ cacheBytes ∨
      ∀ key ∈ s'.entries.keys, key ∈ experts.map fun expert => (modulePath, expert))) ?_ fun _ => ?_
  · refine Triple.update ?_
    rintro s₂ ⟨hacc, hget, front, hkeys⟩
    obtain ⟨hacc', -, hsub, hbudget⟩ := evict_spec hacc cacheBytes hkeys
    rw [List.length_map] at hacc' hsub hbudget
    refine ⟨hacc', fun key entry hentry => hderived key entry ?_, hbudget⟩
    rw [← hget key]
    exact hsub key entry hentry
  refine Triple.bind (Triple.read (Q := fun s₂ s' => s₂ = s' ∧ _) fun s' hs' => ⟨rfl, hs'⟩) ?_
  intro s₂
  -- at last the call's entries are read back
  refine Triple.ite (fun hall => Triple.pure ?_) fun _ => Triple.raise ?_
  · rintro _ ⟨rfl, hacc, hder, hbudget⟩
    refine ⟨hacc, hwhole, hder, hbudget, List.length_map _, fun i expert hi => ?_⟩
    have hmem := of_decide_eq_true (List.all_eq_true.mp hall expert (List.mem_of_getElem? hi))
    obtain ⟨entry, hentry⟩ := Option.isSome_iff_exists.mp (OrderedDict.get?_isSome_iff.mpr hmem)
    refine ⟨entry, ?_, hentry⟩
    rw [List.getElem?_map, hi, Option.map_some, hentry]
    rfl
  · rintro _ ⟨rfl, hacc, hder, -⟩
    exact ⟨hacc, Or.inl ⟨hwhole, hder⟩⟩

/-- **One call of `get`.** -/
theorem Store.get_leaves (index : Dict String TensorLocation) (files : Files) (cacheBytes : ℤ)
    (modulePath : String) {experts : List ℕ} (hnodup : experts.Nodup) (reads : ℕ → Option ℕ)
    {s : Store} (haccounted : Accounted s) :
    Triple (· = s) (Store.get index files cacheBytes modulePath experts reads)
      (Returns index files cacheBytes modulePath experts reads s)
      (Raises index files modulePath experts reads s) := by
  unfold Store.get
  refine Triple.bind (Triple.read (Q := fun s₁ s' => s₁ = s' ∧ s' = s) fun s' hs' => ⟨rfl, hs'⟩) ?_
  intro s₁
  refine Triple.of_forall ?_
  rintro _ ⟨rfl, rfl⟩
  dsimp only
  cases hraws : rawsOf files reads (jobsOf index modulePath (s₁.missing modulePath experts)) with
  | none =>
    -- a read raises before anything is written
    refine Triple.raise ?_
    rintro _ rfl
    refine ⟨haccounted, Or.inl ⟨fun raws h => ?_, fun _ _ h => Or.inl h⟩⟩
    rw [hraws] at h
    cases h
  | some raws =>
    obtain ⟨hlength, hreads⟩ := rawsOf_spec hraws
    have hmissing : ∀ expert ∈ s₁.missing modulePath experts,
        (modulePath, expert) ∉ s₁.entries.keys := by
      intro expert hexpert
      exact of_decide_eq_true (List.mem_filter.mp hexpert).2
    have hmissingNodup : (s₁.missing modulePath experts).Nodup := hnodup.filter _
    have hfill := forM_addPiece haccounted hmissingNodup hmissing hlength hreads
    refine Triple.bind (hfill.mono (fun _ => id) (fun _ _ => id) ?_) fun _ => ?_
    · rintro s' ⟨hacc, ⟨x, hx, hshort⟩, hbroken⟩
      exact ⟨hacc, Or.inr ⟨fun hwhole => hshort (hwhole raws hraws x hx), hbroken⟩⟩
    refine Triple.bind (Q := fun _ s' => Accounted s' ∧
      Whole index files s₁ modulePath experts reads ∧
      Derived index files modulePath s₁ s') (Triple.update ?_) fun _ => ?_
    · intro s' hfilled
      refine ⟨hfilled.accounted, ?_, fun key entry hget => hfilled.derived hlength key entry hget⟩
      intro raws' hraws'
      obtain rfl := Option.some.inj (hraws.symm.trans hraws')
      exact hfilled.whole
    refine Triple.of_forall ?_
    rintro s' ⟨hacc, hwhole, hderived⟩
    exact serve_spec hnodup hacc hwhole hderived

/-! ### Runs -/

/-- A call of the store. -/
inductive Call where
  | get (modulePath : String) (experts : List ℕ) (reads : ℕ → Option ℕ)
  | clear

variable (index files cacheBytes)

/-- The store after a call, returned or raised; the experts of a call are distinct. -/
inductive Step (s : Store) : Call → Store → Prop
  | get {modulePath : String} {experts : List ℕ} {reads : ℕ → Option ℕ} (hnodup : experts.Nodup) :
      Step s (.get modulePath experts reads)
        (Store.get index files cacheBytes modulePath experts reads s).2
  | clear : Step s .clear s.clear

/-- A call whose reads raise, or return all the bytes. -/
def WholeCall (s : Store) : Call → Prop
  | .get modulePath experts reads => Whole index files s modulePath experts reads
  | .clear => True

/-- Every entry is complete. -/
def AllLoaded (s : Store) : Prop :=
  ∀ key entry, s.entries.get? key = some entry → Loaded index files key.1 key.2 entry

variable {index files cacheBytes}

/-- What `get` leaves, as a case distinction. -/
theorem Store.get_cases (index : Dict String TensorLocation) (files : Files) (cacheBytes : ℤ)
    (modulePath : String) {experts : List ℕ} (hnodup : experts.Nodup) (reads : ℕ → Option ℕ)
    {s : Store} (haccounted : Accounted s) :
    (∃ result s', Store.get index files cacheBytes modulePath experts reads s = (.ok result, s') ∧
      Returns index files cacheBytes modulePath experts reads s result s') ∨
    ∃ s', Store.get index files cacheBytes modulePath experts reads s = (.error (), s') ∧
      Raises index files modulePath experts reads s s' := by
  have h := Store.get_leaves index files cacheBytes modulePath hnodup reads haccounted s rfl
  cases hget : Store.get index files cacheBytes modulePath experts reads s with
  | mk outcome s' =>
    rw [hget] at h
    cases outcome with
    | ok result => exact Or.inl ⟨result, s', rfl, h⟩
    | error e => exact Or.inr ⟨s', rfl, h⟩

theorem Step.accounted {s s' : Store} {call : Call} (hs : Accounted s)
    (h : Step index files cacheBytes s call s') : Accounted s' := by
  cases h with
  | get hnodup =>
    rcases Store.get_cases index files cacheBytes _ hnodup _ hs with ⟨result, s', hget, h⟩ |
      ⟨s', hget, h⟩
    · rw [hget]
      exact h.accounted
    · rw [hget]
      exact h.accounted
  | clear => rfl

theorem AllLoaded.derived {modulePath : String} {s s' : Store} (hs : AllLoaded index files s)
    (h : Derived index files modulePath s s') : AllLoaded index files s' := by
  intro key entry hget
  rcases h key entry hget with hold | ⟨hpath, hloaded⟩
  · exact hs key entry hold
  · rw [hpath]
    exact hloaded

theorem Step.allLoaded {s s' : Store} {call : Call} (hs : Accounted s)
    (hloaded : AllLoaded index files s) (hwhole : WholeCall index files s call)
    (h : Step index files cacheBytes s call s') : AllLoaded index files s' := by
  cases h with
  | get hnodup =>
    rcases Store.get_cases index files cacheBytes _ hnodup _ hs with ⟨result, s', hget, h⟩ |
      ⟨s', hget, h⟩
    · rw [hget]
      exact hloaded.derived h.derived
    · rw [hget]
      rcases h.leaves with ⟨-, hderived⟩ | ⟨hnot, -⟩
      · exact hloaded.derived hderived
      · exact absurd hwhole hnot
  | clear => exact fun key entry hget => nomatch hget

/-- A call returns, in the order asked for, complete experts. -/
def Complete (index : Dict String TensorLocation) (files : Files) (modulePath : String)
    (experts : List ℕ) (result : List Entry) : Prop :=
  result.length = experts.length ∧ ∀ (i expert : ℕ), experts[i]? = some expert →
    ∃ entry, result[i]? = some entry ∧ Loaded index files modulePath expert entry

variable (index files cacheBytes) in
/-- Whatever call of `get` returns next returns complete experts. -/
def Serves (s : Store) : Prop :=
  ∀ modulePath experts reads result s', experts.Nodup →
    Store.get index files cacheBytes modulePath experts reads s = (.ok result, s') →
    Complete index files modulePath experts result

/-- From complete entries, what a call returns is complete. -/
theorem AllLoaded.serves {s : Store} (hloaded : AllLoaded index files s) (hs : Accounted s) :
    Serves index files cacheBytes s := by
  intro modulePath experts reads result s' hnodup hget
  rcases Store.get_cases index files cacheBytes modulePath hnodup reads hs with
    ⟨result', s'', hget', h⟩ | ⟨s'', hget', -⟩
  · have heq := hget.symm.trans hget'
    obtain ⟨hresult, hstore⟩ := Prod.mk.inj heq
    obtain rfl := Except.ok.inj hresult
    refine ⟨h.length, fun i expert hi => ?_⟩
    obtain ⟨entry, hresult, hentry⟩ := h.entries i expert hi
    exact ⟨entry, hresult, hloaded.derived h.derived (modulePath, expert) entry hentry⟩
  · exact nomatch congrArg Prod.fst (hget.symm.trans hget')

/-- A hit reads nothing and gives the entry as it is. -/
theorem Store.get_hit (index : Dict String TensorLocation) (files : Files) (cacheBytes : ℤ)
    {modulePath : String} {expert : ℕ} {entry : Entry} {s : Store} (haccounted : Accounted s)
    (hentry : s.entries.get? (modulePath, expert) = some entry) (reads : ℕ → Option ℕ) :
    Triple (· = s) (Store.get index files cacheBytes modulePath [expert] reads)
      (fun result _ => result = [entry]) (fun _ => False) := by
  have hkey : (modulePath, expert) ∈ s.entries.keys :=
    OrderedDict.get?_isSome_iff.mp (by rw [hentry]; rfl)
  have hmissing : s.missing modulePath [expert] = [] := by
    simp [Store.missing, hkey]
  unfold Store.get
  refine Triple.bind (Triple.read (Q := fun s₁ s' => s₁ = s' ∧ s' = s) fun s' hs' => ⟨rfl, hs'⟩) ?_
  intro s₁
  refine Triple.of_forall ?_
  rintro _ ⟨rfl, rfl⟩
  dsimp only
  rw [hmissing]
  -- nothing is missing, so nothing is read
  change Triple _ (Pure.pure PUnit.unit >>= _) _ _
  refine Triple.bind (Q := fun _ s' => s' = s₁) (Triple.pure fun _ => id) fun _ => ?_
  refine Triple.bind (Q := fun _ s' => s'.bytes = s₁.bytes ∧ s'.entries = s₁.entries)
    (Triple.update fun s' hs' => by rw [hs']; exact ⟨rfl, rfl⟩) fun _ => ?_
  refine Triple.bind (Q := fun _ s' => Accounted s' ∧
      s'.entries = s₁.entries.moveToEnd (modulePath, expert)) ?_ fun _ => ?_
  · refine Triple.bind (Q := fun _ s' => Accounted s' ∧
      s'.entries = s₁.entries.moveToEnd (modulePath, expert)) ?_ fun _ => Triple.pure fun _ => id
    unfold moveToEnd
    refine Triple.bind (Triple.read (Q := fun s₂ s' => s₂ = s' ∧ _) fun s' hs' => ⟨rfl, hs'⟩) ?_
    intro s₂
    refine Triple.ite (fun _ => Triple.update ?_) fun hnot => Triple.raise ?_
    · rintro _ ⟨rfl, hbytes, hentries⟩
      refine ⟨?_, by rw [hentries]⟩
      rw [Accounted] at haccounted ⊢
      rw [OrderedDict.total_moveToEnd, hentries, ← haccounted]
      exact hbytes
    · rintro _ ⟨rfl, -, hentries⟩
      rw [hentries] at hnot
      exact hnot hkey
  refine Triple.bind (Q := fun _ s' => s'.entries.get? (modulePath, expert) = some entry)
    (Triple.update ?_) fun _ => ?_
  -- the eviction spares the expert of the call, which stands last
  · rintro s' ⟨hacc, hentries⟩
    have hkeys : s'.entries.keys
        = s₁.entries.keys.filter (fun key => key ≠ (modulePath, expert)) ++
          [(modulePath, expert)] := by
      rw [hentries, OrderedDict.keys_moveToEnd hkey]
    have hkept := (evict_spec hacc cacheBytes hkeys).2.1 _ (List.mem_singleton_self _)
    rw [hentries, OrderedDict.get?_moveToEnd, hentry] at hkept
    exact hkept
  refine Triple.bind (Triple.read (Q := fun s₂ s' => s₂ = s' ∧ _) fun s' hs' => ⟨rfl, hs'⟩) ?_
  intro s₂
  refine Triple.ite (fun _ => Triple.pure ?_) fun hnot => Triple.raise ?_
  · rintro _ ⟨rfl, hget⟩
    rw [List.map_singleton, hget]
    rfl
  -- the entry is there, so the last check does not raise
  · rintro _ ⟨rfl, hget⟩
    refine hnot ?_
    have hmem : (modulePath, expert) ∈ s₂.entries.keys :=
      OrderedDict.get?_isSome_iff.mp (by rw [hget]; rfl)
    simp [hmem]

/-- A broken entry is served as it is. -/
theorem Broken.not_serves {modulePath : String} {s : Store} (haccounted : Accounted s)
    (h : Broken index modulePath s) : ¬Serves index files cacheBytes s := by
  obtain ⟨expert, entry, hentry, p, c, hslice, hnone⟩ := h
  intro hserves
  have hhit := Store.get_hit index files cacheBytes haccounted hentry (fun _ => none) s rfl
  cases hget : Store.get index files cacheBytes modulePath [expert] (fun _ => none) s with
  | mk outcome s' =>
    rw [hget] at hhit
    cases outcome with
    | error e => exact hhit
    | ok result =>
      obtain ⟨-, hcomplete⟩ := hserves modulePath [expert] _ result s' (List.nodup_singleton _) hget
      obtain ⟨entry', hresult, hloaded⟩ := hcomplete 0 expert rfl
      rw [show result = [entry] from hhit] at hresult
      obtain rfl : entry = entry' := Option.some.inj hresult
      have hat := hloaded p c
      obtain ⟨piece, hpiece⟩ := Option.isSome_iff_exists.mp hslice
      rw [hpiece, hnone] at hat
      exact nomatch hat.2

/-- **Runs of the store.**  In any run, the counter is the size of the entries, and a call that
returns leaves it within the budget, or the cache with the experts of the call alone.  In a run
whose calls all read whole slices (or raise while reading), a call that returns returns complete
experts, each with exactly the components the checkpoint has at their indexed places; and whatever a
further call does, later calls still serve complete experts exactly when its reads were whole. -/
theorem expert_store_run {calls : List Call} {s : Store}
    (h : Run (Step index files cacheBytes) Store.init calls s) :
    s.bytes = s.entries.total Entry.size ∧
    (∀ modulePath experts reads result s', experts.Nodup →
      Store.get index files cacheBytes modulePath experts reads s = (.ok result, s') →
      s'.bytes = s'.entries.total Entry.size ∧ (s'.bytes ≤ cacheBytes ∨
        ∀ key ∈ s'.entries.keys, key ∈ experts.map fun expert => (modulePath, expert))) ∧
    (Run (fun s call s' => WholeCall index files s call ∧ Step index files cacheBytes s call s')
        Store.init calls s →
      Serves index files cacheBytes s ∧
      ∀ modulePath experts reads, experts.Nodup →
        (Whole index files s modulePath experts reads ↔ Serves index files cacheBytes
          (Store.get index files cacheBytes modulePath experts reads s).2)) := by
  have hinit : Accounted Store.init := rfl
  have hacc : Accounted s := h.invariant (fun _ _ _ => fun hs hstep => hstep.accounted hs) hinit
  refine ⟨hacc, ?_, ?_⟩
  -- the accounting, over any reads
  · intro modulePath experts reads result s' hnodup hget
    rcases Store.get_cases index files cacheBytes modulePath hnodup reads hacc with
      ⟨result', s'', hget', hret⟩ | ⟨s'', hget', -⟩
    · obtain ⟨-, rfl⟩ := Prod.mk.inj (hget.symm.trans hget')
      exact ⟨hret.accounted, hret.budget⟩
    · exact nomatch congrArg Prod.fst (hget.symm.trans hget')
  -- in a run whose reads were whole the cache holds what the file says
  · intro hwhole
    have hloaded : Accounted s ∧ AllLoaded index files s := by
      refine hwhole.invariant (I := fun s => Accounted s ∧ AllLoaded index files s) ?_ ?_
      · rintro s call s' ⟨hs, hall⟩ ⟨hcall, hstep⟩
        exact ⟨hstep.accounted hs, hstep.allLoaded hs hall hcall⟩
      · exact ⟨hinit, fun key entry hget => nomatch hget⟩
    refine ⟨hloaded.2.serves hacc, fun modulePath experts reads hnodup => ?_⟩
    have hstep : Step index files cacheBytes s (.get modulePath experts reads) _ := Step.get hnodup
    constructor
    · intro hcall
      have hnext : WholeCall index files s (.get modulePath experts reads) := hcall
      exact (hstep.allLoaded hacc hloaded.2 hnext).serves (hstep.accounted hacc)
    · intro hserves
      by_contra hnot
      rcases Store.get_cases index files cacheBytes modulePath hnodup reads hacc with
        ⟨result, s', hget, hret⟩ | ⟨s', hget, hraise⟩
      · exact hnot hret.whole
      -- a call with a short read raises, or leaves an entry that is not the file's
      · rw [hget] at hserves
        rcases hraise.leaves with ⟨hcall, -⟩ | ⟨-, hbroken⟩
        · exact hnot hcall
        · exact hbroken.not_serves hraise.accounted hserves

end Call

/-! ### A short read -/

/-- A checkpoint of one stacked tensor of two experts, two bytes each. -/
def smallIndex : Dict String TensorLocation :=
  (∅ : Dict String TensorLocation).set "m.gate_proj.weight" ⟨"f", 0, [2, 2], .u8⟩

/-- Its file. -/
def smallFiles : Files := fun _ => [1, 2, 3, 4]

/-- Calls that read expert `1` and expert `0` whole, in a cache of two bytes: what is served is
complete, and after a short read of expert `1` no longer. -/
theorem expert_store_run_small :
    ∃ s, Run (Step smallIndex smallFiles 2) Store.init
        [.get "m" [1] fun _ => some 2, .get "m" [0] fun _ => some 2] s ∧
      s.bytes = s.entries.total Entry.size ∧ Serves smallIndex smallFiles 2 s ∧
      ¬ Serves smallIndex smallFiles 2
        (Store.get smallIndex smallFiles 2 "m" [1] (fun _ => some 1) s).2 := by
  have hread : ∀ (s : Store) (expert : ℕ) (raw : List UInt8), raw.length = 2 →
      (jobsOf smallIndex "m" (s.missing "m" [expert])).map (fun job => job.piece.nbytes) = [2] →
      rawsOf smallFiles (fun _ => some 2) (jobsOf smallIndex "m" (s.missing "m" [expert])) =
        some [raw] → Whole smallIndex smallFiles s "m" [expert] fun _ => some 2 := by
    intro s expert raw hlength hjobs hraws raws hsome x hx
    obtain rfl := Option.some.inj (hraws.symm.trans hsome)
    obtain ⟨job, hjob, hbytes⟩ := List.map_eq_singleton_iff.mp hjobs
    rw [hjob, List.zip_cons_cons, List.zip_nil_right, List.mem_singleton] at hx
    rw [hx, hbytes]
    exact hlength
  let first := (Store.get smallIndex smallFiles 2 "m" [1] (fun _ => some 2) Store.init).2
  let second := (Store.get smallIndex smallFiles 2 "m" [0] (fun _ => some 2) first).2
  have hfirst : Whole smallIndex smallFiles Store.init "m" [1] fun _ => some 2 :=
    hread _ 1 [3, 4] rfl (by decide) (by decide)
  have hsecond : Whole smallIndex smallFiles first "m" [0] fun _ => some 2 :=
    hread _ 0 [1, 2] rfl (by decide) (by decide)
  have hrun : Run (Step smallIndex smallFiles 2) Store.init
      [.get "m" [1] fun _ => some 2, .get "m" [0] fun _ => some 2] second :=
    .cons (.get (List.nodup_singleton _)) (.cons (.get (List.nodup_singleton _)) (.nil _))
  obtain ⟨hbytes, -, hcomplete⟩ := expert_store_run hrun
  obtain ⟨hserves, hnext⟩ := hcomplete
    (.cons ⟨hfirst, .get (List.nodup_singleton _)⟩
      (.cons ⟨hsecond, .get (List.nodup_singleton _)⟩ (.nil _)))
  refine ⟨second, hrun, hbytes, hserves, fun hstill => ?_⟩
  -- the last call reads one byte of two
  have hwhole := (hnext "m" [1] (fun _ => some 1) (List.nodup_singleton _)).mpr hstill
  have hlength := hwhole [[3]] (by decide)
  revert hlength
  decide

/-- The store after a call whose read returned one byte of two. -/
def afterShortRead : Store :=
  (Store.get smallIndex smallFiles 8 "m" [0] (fun _ => some 1) Store.init).2

/-- The call with the short read raises; the next one takes its entry for a hit, and returns expert
`0` without its weight. -/
theorem short_read_then_hit :
    ¬∀ (index : Dict String TensorLocation) (files : Files) (cacheBytes : ℤ) (calls : List Call)
      (s : Store), Run (Step index files cacheBytes) Store.init calls s →
        Serves index files cacheBytes s := by
  intro h
  have hstep : Step smallIndex smallFiles 8 Store.init (.get "m" [0] fun _ => some 1)
      afterShortRead := .get (List.nodup_singleton _)
  have hbroken : Broken smallIndex "m" afterShortRead :=
    ⟨0, Entry.empty, rfl, .gateProj, .weight, by decide, rfl⟩
  have hinit : Accounted Store.init := rfl
  exact hbroken.not_serves (hstep.accounted hinit) (h _ _ _ _ _ (.cons hstep (.nil _)))

end VllmMetal.Moe
