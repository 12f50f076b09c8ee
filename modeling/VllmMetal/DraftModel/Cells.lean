import VllmMetal.DraftModel.Proposer
import VllmMetal.Lib.Autoregressive

/-!
# What the draft forwards write

A cell is right when it is the one a network run over the committed tokens alone would
have put there; `Holds` says so of all positions below a bound.  A forward that starts
where the right cells end extends them by its own rows, and leaves every cell outside its
rows as it was.

## Main definitions

* `Holds net B table pool toks n` — positions below `n` hold the cells of `toks`.

## Main results

* `holds_forwardRows` — a forward over the next tokens extends the right cells.
* `forwardRows_frame` — it writes its own rows only.
* `ingestAndDraftFirst_eq` — the chunked ingest is one forward over all its tokens.
* `holds_draftSteps` — the lookahead steps extend the right cells by the drafts.
-/

namespace VllmMetal
namespace DraftModel

variable {Cell : Type*}

/-- Positions below `n`, read through the table, hold the cells of `toks`. -/
structure Holds (net : DraftNet Cell) (B : ℕ) (table : List ℕ) (pool : KVPool Cell)
    (toks : List Token) (n : ℕ) : Prop where
  le_length : n ≤ toks.length
  mapped : Mapped B table n
  cell : ∀ p, p < n → some (pagedGet B table pool p) = (cellsOf net.kv toks)[p]?

section Holds

variable {net : DraftNet Cell} {B : ℕ} {table : List ℕ} {pool : KVPool Cell}
  {toks : List Token} {n : ℕ}

theorem Holds.mono {m : ℕ} (h : Holds net B table pool toks n) (hmn : m ≤ n) :
    Holds net B table pool toks m :=
  ⟨hmn.trans h.le_length, h.mapped.mono hmn, fun p hp => h.cell p (by omega)⟩

/-- The right cells stay right when the request commits more tokens. -/
theorem Holds.extend {toks' : List Token} (h : Holds net B table pool toks n)
    (hpre : toks <+: toks') : Holds net B table pool toks' n := by
  refine ⟨h.le_length.trans hpre.length_le, h.mapped, fun p hp => ?_⟩
  rw [h.cell p hp]
  have hlt : p < (cellsOf net.kv toks).length := by
    rw [length_cellsOf]; exact hp.trans_le h.le_length
  rw [List.prefix_iff_getElem?.mp (cellsOf_mono net.kv hpre) p hlt,
    List.getElem?_eq_getElem hlt]

/-- A table that agrees on the blocks of the positions below `n` reads the same cells. -/
theorem Holds.congr_table {table' : List ℕ} (hB : 0 < B) (h : Holds net B table pool toks n)
    (hagree : ∀ i, i * B < n → table'[i]? = table[i]?) : Holds net B table' pool toks n := by
  have hentry : ∀ p, p < n → table'[p / B]? = table[p / B]? := fun p hp =>
    hagree _ ((Nat.div_mul_le_self p B).trans_lt hp)
  refine ⟨h.le_length, ?_, fun p hp => ?_⟩
  · rcases Nat.eq_zero_or_pos n with hn | hn
    · subst hn; exact Nat.zero_le _
    · -- the last mapped position has an entry in the old table, hence in the new one
      have hold := h.mapped.div_lt (show n - 1 < n by omega)
      have hnew := hentry (n - 1) (by omega)
      rw [List.getElem?_eq_getElem hold] at hnew
      have hlen := (List.getElem?_eq_some_iff.mp hnew).1
      have hdiv := Nat.div_add_mod (n - 1) B
      have hmod := Nat.mod_lt (n - 1) hB
      have hmul : B * ((n - 1) / B + 1) ≤ B * table'.length := Nat.mul_le_mul_left B hlen
      unfold Mapped
      rw [Nat.mul_add] at hmul
      omega
  · rw [pagedGet_congr pool (hentry p hp)]
    exact h.cell p hp

/-- The cells a row reads, when the positions before it are right. -/
theorem readCells_of_holds (h : Holds net B table pool toks n) :
    readCells B table pool n = (cellsOf net.kv toks).take n := by
  apply List.ext_getElem?
  intro p
  unfold readCells
  rw [List.getElem?_take, List.getElem?_map]
  by_cases hp : p < n
  · rw [if_pos hp, List.getElem?_range hp, ← h.cell p hp]
    rfl
  · rw [if_neg hp, List.getElem?_eq_none (by simpa using Nat.le_of_not_lt hp)]
    rfl

/-- One more row extends the right cells by one. -/
theorem Holds.write {t : Token} (h : Holds net B table pool toks n) (hnd : table.Nodup)
    (hmap : Mapped B table (n + 1)) (ht : toks[n]? = some t) :
    Holds net B table
      (pagedSet B table pool n (net.kv t (readCells B table pool n))) toks (n + 1) := by
  refine ⟨(List.getElem?_eq_some_iff.mp ht).1, hmap, fun p hp => ?_⟩
  rcases Nat.lt_or_ge p n with hlt | hge
  · rw [pagedGet_pagedSet_of_ne hnd pool _ (hmap.div_lt (Nat.lt_succ_self n)) (hmap.div_lt hp)
      (by omega)]
    exact h.cell p hlt
  · obtain rfl : p = n := by omega
    rw [pagedGet_pagedSet_self, readCells_of_holds h, getElem?_cellsOf net.kv ht]

end Holds

/-! ### Forwards -/

/-- **A forward over the next tokens extends the right cells by its rows.** -/
theorem holds_forwardRows {net : DraftNet Cell} {B : ℕ} {table : List ℕ} {toks : List Token}
    (hnd : table.Nodup) : ∀ (ts : List Token) (pool : KVPool Cell) (last : Token) (n : ℕ),
      Holds net B table pool toks n → Mapped B table (n + ts.length) → ts <+: toks.drop n →
      Holds net B table (forwardRows net B table pool last n ts).1 toks (n + ts.length) := by
  intro ts
  induction ts with
  | nil => intro pool last n h _ _; exact h
  | cons t ts ih =>
    intro pool last n h hmap hpre
    obtain ⟨rest, hrest⟩ := hpre
    have ht : toks[n]? = some t := by
      have h0 := congrArg (fun l : List Token => l[0]?) hrest
      simpa using h0.symm
    have hnext : ts <+: toks.drop (n + 1) := by
      refine ⟨rest, ?_⟩
      have h1 := congrArg List.tail hrest
      simpa [List.tail_drop] using h1
    rw [List.length_cons] at hmap ⊢
    have hstep := h.write hnd (hmap.mono (by omega)) ht
    have := ih _ (net.argmax t (readCells B table pool n)) (n + 1) hstep
      (by rwa [show n + 1 + ts.length = n + (ts.length + 1) by omega]) hnext
    rwa [show n + 1 + ts.length = n + (ts.length + 1) by omega] at this

/-- **A forward writes its own rows only.** -/
theorem forwardRows_frame (net : DraftNet Cell) (B : ℕ) (table : List ℕ) (b o : ℕ) :
    ∀ (ts : List Token) (pool : KVPool Cell) (last : Token) (n : ℕ),
      (∀ q, n ≤ q → q < n + ts.length → ¬(b = pageOf B table q ∧ o = q % B)) →
      (forwardRows net B table pool last n ts).1 b o = pool b o := by
  intro ts
  induction ts with
  | nil => intro pool last n _; rfl
  | cons t ts ih =>
    intro pool last n h
    rw [List.length_cons] at h
    rw [forwardRows, ih _ _ _ fun q h1 h2 => h q (by omega) (by omega)]
    unfold pagedSet
    rw [if_neg (h n le_rfl (by omega))]

theorem forwardRows_append (net : DraftNet Cell) (B : ℕ) (table : List ℕ) :
    ∀ (ts us : List Token) (pool : KVPool Cell) (last : Token) (n : ℕ),
      forwardRows net B table pool last n (ts ++ us) =
        forwardRows net B table (forwardRows net B table pool last n ts).1
          (forwardRows net B table pool last n ts).2 (n + ts.length) us := by
  intro ts
  induction ts with
  | nil => intro us pool last n; rfl
  | cons t ts ih =>
    intro us pool last n
    rw [List.cons_append, forwardRows, ih, forwardRows, List.length_cons,
      show n + 1 + ts.length = n + (ts.length + 1) by omega]

/-! ### The ingest -/

/-- The chunks before chunk `k` forward the tokens before it. -/
theorem foldl_chunks_eq (net : DraftNet Cell) (B : ℕ) (table : List ℕ) (ts : List Token)
    (pool : KVPool Cell) (n c k : ℕ) :
    ((List.range k).map (· * c)).foldl (fun (acc : KVPool Cell × Token) start =>
        let stop := min (start + c) ts.length
        if stop ≤ start then acc
        else forwardRows net B table acc.1 acc.2 (n + start) ((ts.take stop).drop start))
      (pool, 0) = forwardRows net B table pool 0 n (ts.take (k * c)) := by
  induction k with
  | zero => simp [forwardRows]
  | succ k ih =>
    rw [List.range_succ, List.map_append, List.foldl_append, ih]
    simp only [List.map_cons, List.map_nil, List.foldl_cons, List.foldl_nil]
    have hmul : (k + 1) * c = k * c + c := Nat.succ_mul k c
    split
    · next hstop =>
      -- the chunk is empty: the tokens end before it, or chunks have no rows
      rw [hmul]
      rcases Nat.lt_or_ge (k * c) ts.length with hlt | hge
      · have hc : c = 0 := by omega
        rw [hc, Nat.add_zero]
      · rw [List.take_of_length_le hge, List.take_of_length_le (by omega)]
    · next hstop =>
      have hlen : (ts.take (k * c)).length = k * c := by rw [List.length_take]; omega
      have hsplit : ts.take ((k + 1) * c) =
          ts.take (k * c) ++ (ts.take (min (k * c + c) ts.length)).drop (k * c) := by
        have htake : ts.take (min (k * c + c) ts.length) = ts.take (k * c + c) :=
          List.take_eq_take_min.symm
        rw [hmul, htake, List.drop_take, show k * c + c - k * c = c by omega, List.take_add]
      rw [hsplit, forwardRows_append, hlen]

/-- **The chunked ingest is one forward over all its tokens.** -/
theorem ingestAndDraftFirst_eq (net : DraftNet Cell) (cfg : ProposerConfig) (otherIngest : ℕ)
    (plan : DraftPlan) (pool : KVPool Cell) :
    ingestAndDraftFirst net cfg otherIngest plan pool =
      forwardRows net cfg.blockSize plan.blockIds pool 0 plan.draftSeqLen plan.ingestTokens := by
  unfold ingestAndDraftFirst
  simp only
  split
  · rfl
  · next hbig =>
    rw [decodeIngestMaxTokens] at hbig
    set maxLen := max otherIngest plan.ingestTokens.length with hmaxLen
    set c := if cfg.ingestChunk = 0 then maxLen else cfg.ingestChunk with hc
    have hcpos : 0 < c := by rw [hc]; split <;> omega
    rw [foldl_chunks_eq, List.take_of_length_le]
    have hcover : maxLen ≤ (maxLen + c - 1) / c * c := by
      have h1 := Nat.div_add_mod' (maxLen + c - 1) c
      have h2 := Nat.mod_lt (maxLen + c - 1) hcpos
      omega
    exact (le_max_right otherIngest _).trans hcover

/-! ### The lookahead steps -/

theorem length_draftSteps (net : DraftNet Cell) (B : ℕ) (table : List ℕ) :
    ∀ (k : ℕ) (pool : KVPool Cell) (n : ℕ) (prev : Token),
      (draftSteps net B table k pool n prev).2.length = k := by
  intro k
  induction k with
  | zero => intro pool n prev; rfl
  | succ k ih => intro pool n prev; simp [draftSteps, ih]

/-- **The lookahead steps extend the right cells by the drafts they feed.** -/
theorem holds_draftSteps {net : DraftNet Cell} {B : ℕ} {table : List ℕ} (hnd : table.Nodup) :
    ∀ (k : ℕ) (pool : KVPool Cell) (toks : List Token) (prev : Token),
      Holds net B table pool toks toks.length → Mapped B table (toks.length + k) →
      Holds net B table (draftSteps net B table k pool toks.length prev).1
        (toks ++ (prev :: (draftSteps net B table k pool toks.length prev).2).take k)
        (toks.length + k) := by
  intro k
  induction k with
  | zero => intro pool toks prev h _; simpa [draftSteps] using h
  | succ k ih =>
    intro pool toks prev h hmap
    have hone := (h.extend (List.prefix_append toks [prev])).write (t := prev) hnd
      (hmap.mono (by omega)) (by simp)
    have hlen : (toks ++ [prev]).length = toks.length + 1 := by simp
    have hrec := ih (forwardRows net B table pool prev toks.length [prev]).1
      (toks ++ [prev]) (forwardRows net B table pool prev toks.length [prev]).2
      (by rw [hlen]; exact hone) (by rw [hlen]; exact hmap.mono (by omega))
    rw [hlen, List.append_assoc] at hrec
    rw [show toks.length + (k + 1) = toks.length + 1 + k by omega]
    exact hrec

end DraftModel
end VllmMetal
