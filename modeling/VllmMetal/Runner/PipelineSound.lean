import VllmMetal.Runner.Pipeline

/-!
# What a pending step stands for

While a sample is pending, the token lists of its requests end in placeholders.  The entries that
the runner has then stand for those with the values filled in, and this is what the barrier makes of
them.  Nothing that an eligible step does to an entry notices the difference.

## Main definitions

* `fill` — the entries with the pending values filled in.
* `Pending`, `PendingOk` — the references of a pending step lead to its placeholders.

## Main results

* `barrier_ok` — the barrier does not raise, and leaves the filled entries.
* `Pending.keeps` — what an eligible step does before it samples leaves a pending step pending.
-/

namespace VllmMetal
namespace PagedRunner

open SpecDecode Multimodal

variable {Row : Type}

/-! ### Filled entries -/

/-- The entry of a pending step for a request. -/
def PendingSampleStep.find? (pending : PendingSampleStep) (reqId : ReqId) :
    Option PendingBackfillEntry :=
  pending.entries.find? fun item => item.reqId = reqId

/-- An entry with its pending value filled in. -/
def fillEntry (pending : PendingSampleStep) (reqId : ReqId) (entry : Entry) : Entry :=
  match pending.find? reqId with
  | none => entry
  | some item => { entry with
      states := entry.states.modifyAt item.state (setToken item.tokenIndex (pending.value item)) }

/-- The entries with the pending values filled in. -/
def fill (p : Pipeline) (entries : Entries) : Entries :=
  match p.pending with
  | none => entries
  | some pending => fun reqId => fillEntry pending reqId (entries reqId)

@[simp] theorem seqLen_fillEntry (pending : PendingSampleStep) (reqId : ReqId) (entry : Entry) :
    (fillEntry pending reqId entry).seqLen = entry.seqLen := by
  unfold fillEntry
  split <;> rfl

@[simp] theorem awaiting_fillEntry (pending : PendingSampleStep) (reqId : ReqId) (entry : Entry) :
    (fillEntry pending reqId entry).awaitingReadmission = entry.awaitingReadmission := by
  unfold fillEntry
  split <;> rfl

@[simp] theorem mmBidiState_fillEntry (pending : PendingSampleStep) (reqId : ReqId)
    (entry : Entry) : (fillEntry pending reqId entry).mmBidiState = entry.mmBidiState := by
  unfold fillEntry
  split <;> rfl

@[simp] theorem ref_fillEntry (pending : PendingSampleStep) (reqId : ReqId) (entry : Entry) :
    (fillEntry pending reqId entry).states.ref = entry.states.ref := by
  unfold fillEntry
  split
  · rfl
  · exact Slot.ref_modifyAt ..

/-- What filling in changes of a state: one token. -/
structure SameShape (a b : RequestState) : Prop where
  length : a.tokenIds.length = b.tokenIds.length
  promptLen : a.promptLen = b.promptLen
  samplingParams : a.samplingParams = b.samplingParams
  generatedTokens : a.generatedTokens = b.generatedTokens
  blockIds : a.blockIds = b.blockIds
  mropePositionDelta : a.mropePositionDelta = b.mropePositionDelta

theorem SameShape.refl (a : RequestState) : SameShape a a := ⟨rfl, rfl, rfl, rfl, rfl, rfl⟩

theorem sameShape_setToken (i : ℕ) (t : Token) (a : RequestState) : SameShape (setToken i t a) a :=
  ⟨List.length_set .., rfl, rfl, rfl, rfl, rfl⟩

theorem SameShape.outputLength {a b : RequestState} (h : SameShape a b) :
    a.outputLength = b.outputLength := by
  rw [RequestState.outputLength, RequestState.outputLength, h.length, h.promptLen]

/-- The state of a filled entry. -/
theorem state_fillEntry (pending : PendingSampleStep) (reqId : ReqId) (entry : Entry) :
    (fillEntry pending reqId entry).state = match pending.find? reqId with
      | none => entry.state
      | some item => if item.state = entry.states.ref then
          entry.state.map (setToken item.tokenIndex (pending.value item)) else entry.state := by
  unfold fillEntry
  cases pending.find? reqId <;> rfl

/-- A filled entry has a state where the entry has one, of the same shape. -/
theorem shape_fillEntry (pending : PendingSampleStep) (reqId : ReqId) (entry : Entry) :
    Option.Rel SameShape (fillEntry pending reqId entry).state entry.state := by
  rw [state_fillEntry]
  cases hstate : entry.state with
  | none => cases pending.find? reqId with
    | none => exact .none
    | some item =>
      simp only [Option.map_none, ite_self]
      exact .none
  | some state => cases pending.find? reqId with
    | none => exact .some (.refl _)
    | some item =>
      simp only
      split
      · exact .some (sameShape_setToken ..)
      · exact .some (.refl _)

theorem shape_fill (p : Pipeline) (entries : Entries) (reqId : ReqId) :
    Option.Rel SameShape (fill p entries reqId).state (entries reqId).state := by
  unfold fill
  cases p.pending with
  | none =>
    cases (entries reqId).state with
    | none => exact .none
    | some state => exact .some (.refl _)
  | some pending => exact shape_fillEntry ..

theorem seqLen_fill (p : Pipeline) (entries : Entries) (reqId : ReqId) :
    (fill p entries reqId).seqLen = (entries reqId).seqLen := by
  unfold fill
  cases p.pending with
  | none => rfl
  | some pending => exact seqLen_fillEntry ..

theorem fill_of_none {p : Pipeline} (h : p.pending = none) (entries : Entries) :
    fill p entries = entries := by
  rw [fill, h]

/-! ### Pending steps -/

/-- The object behind a pending reference has the placeholder where the value lands. -/
def Waiting (item : PendingBackfillEntry) (entry : Entry) (state : RequestState) : Prop :=
  entry.states.deref item.state = some state ∧
    state.tokenIds[item.tokenIndex]? = some pendingTokenPlaceholder

/-- **A pending step.**  Its references lead to placeholders at the ends of token lists, and a
request that still has a state has this one. -/
structure Pending (pending : PendingSampleStep) (rows : Dict ReqId ℕ)
    (entries : Entries) : Prop where
  nodup : (pending.entries.map PendingBackfillEntry.reqId).Nodup
  rows_eq : ∀ reqId, rows.get? reqId = (pending.find? reqId).map PendingBackfillEntry.row
  waiting : ∀ item ∈ pending.entries, ∃ state, Waiting item (entries item.reqId) state ∧
    item.tokenIndex + 1 = state.tokenIds.length
  held : ∀ item ∈ pending.entries, (entries item.reqId).state.isSome →
    (entries item.reqId).states.ref = item.state

/-- The pipeline of a runner: nothing is pending, or a pending step. -/
def PendingOk (p : Pipeline) (entries : Entries) : Prop :=
  ∀ pending, p.pending = some pending → Pending pending p.rows entries

/-- Where a request is found in a pending step. -/
theorem PendingSampleStep.mem_of_find? {pending : PendingSampleStep} {reqId : ReqId}
    {item : PendingBackfillEntry} (h : pending.find? reqId = some item) :
    item ∈ pending.entries ∧ item.reqId = reqId := by
  refine ⟨List.mem_of_find?_eq_some h, ?_⟩
  simpa using List.find?_some h

theorem PendingSampleStep.find?_of_mem {pending : PendingSampleStep}
    (hnodup : (pending.entries.map PendingBackfillEntry.reqId).Nodup)
    {item : PendingBackfillEntry} (h : item ∈ pending.entries) :
    pending.find? item.reqId = some item := by
  obtain ⟨tokens, entries, slots⟩ := pending
  unfold find?
  induction entries with
  | nil => cases h
  | cons a items ih =>
    rw [List.map_cons, List.nodup_cons] at hnodup
    rw [List.find?_cons]
    rcases List.mem_cons.mp h with rfl | hrest
    · simp
    · have hne : a.reqId ≠ item.reqId := fun heq =>
        hnodup.1 (heq ▸ List.mem_map_of_mem hrest)
      simp only [hne, decide_false]
      exact ih hnodup.2 hrest

theorem PendingSampleStep.find?_eq_none {pending : PendingSampleStep} {reqId : ReqId}
    (h : reqId ∉ pending.entries.map PendingBackfillEntry.reqId) : pending.find? reqId = none := by
  rw [find?, List.find?_eq_none]
  intro item hitem heq
  exact h (List.mem_map.mpr ⟨item, hitem, of_decide_eq_true heq⟩)

/-- The pipeline behind a barrier. -/
def Pipeline.resolvedBy (p : Pipeline) : Pipeline :=
  match p.pending with
  | none => p
  | some pending => { p with
      pending := none, rows := ∅, resolved := some (p.pendingSerial, pending.output) }

@[simp] theorem Pipeline.pending_resolvedBy (p : Pipeline) : p.resolvedBy.pending = none := by
  unfold resolvedBy
  split
  · assumption
  · rfl

@[simp] theorem Pipeline.stepEligible_resolvedBy (p : Pipeline) :
    p.resolvedBy.stepEligible = p.stepEligible := by
  unfold resolvedBy
  split <;> rfl

@[simp] theorem Pipeline.pendingSerial_resolvedBy (p : Pipeline) :
    p.resolvedBy.pendingSerial = p.pendingSerial := by
  unfold resolvedBy
  split <;> rfl

/-- **The barrier leaves the filled entries.** -/
theorem barrier_ok {p : Pipeline} {entries : Entries}
    (h : ∀ pending, p.pending = some pending →
      (pending.entries.map PendingBackfillEntry.reqId).Nodup ∧
        ∀ item ∈ pending.entries, ∃ state, Waiting item (entries item.reqId) state) :
    barrier p entries = .ok (p.resolvedBy, fill p entries) := by
  unfold barrier fill Pipeline.resolvedBy
  cases hpending : p.pending with
  | none => rfl
  | some pending =>
    obtain ⟨hnodup, hwait⟩ := h pending hpending
    have hback : ∀ item ∈ pending.entries, backfill pending item (entries item.reqId) =
        .ok (fillEntry pending item.reqId (entries item.reqId), []) := by
      intro item hitem
      obtain ⟨state, hderef, hplace⟩ := hwait item hitem
      simp only [backfill, hderef, hplace, ne_eq, not_true_eq_false, if_false, fillEntry,
        PendingSampleStep.find?_of_mem hnodup hitem]
    obtain ⟨entries', hloop, hmem, hframe⟩ := forEach_ok hnodup fun item hitem =>
      ⟨_, hback item hitem⟩
    simp only [hloop]
    congr 2
    funext reqId
    by_cases hin : reqId ∈ pending.entries.map PendingBackfillEntry.reqId
    · obtain ⟨item, hitem, rfl⟩ := List.mem_map.mp hin
      rw [hmem item hitem, acted_of_ok (hback item hitem)]
    · rw [hframe reqId hin, fillEntry, PendingSampleStep.find?_eq_none hin]

theorem PendingOk.barrier {p : Pipeline} {entries : Entries} (h : PendingOk p entries) :
    PagedRunner.barrier p entries = .ok (p.resolvedBy, fill p entries) :=
  barrier_ok fun pending hpending => ⟨(h pending hpending).nodup, fun item hitem =>
    let ⟨state, hwait, _⟩ := (h pending hpending).waiting item hitem
    ⟨state, hwait⟩⟩

/-! ### What a step may do while a sample is pending -/

/-- An entry that keeps what its references lead to, and the state it has. -/
structure Keeps (entry entry' : Entry) : Prop where
  deref : ∀ r state, entry.states.deref r = some state →
    ∃ state', entry'.states.deref r = some state' ∧ state'.tokenIds = state.tokenIds
  held : entry'.state.isSome → entry.state.isSome ∧ entry'.states.ref = entry.states.ref

theorem Keeps.refl (entry : Entry) : Keeps entry entry :=
  ⟨fun _ state h => ⟨state, h, rfl⟩, fun h => ⟨h, rfl⟩⟩

theorem Keeps.trans {a b c : Entry} (hab : Keeps a b) (hbc : Keeps b c) : Keeps a c where
  deref r state h := by
    obtain ⟨state₁, h₁, heq₁⟩ := hab.deref r state h
    obtain ⟨state₂, h₂, heq₂⟩ := hbc.deref r state₁ h₁
    exact ⟨state₂, h₂, heq₂.trans heq₁⟩
  held h :=
    let hb := hbc.held h
    let ha := hab.held hb.1
    ⟨ha.1, hb.2.trans ha.2⟩

/-- A pending step stays pending. -/
theorem Pending.keeps {pending : PendingSampleStep} {rows : Dict ReqId ℕ}
    {entries entries' : Entries}
    (h : Pending pending rows entries) (hkeeps : ∀ reqId, Keeps (entries reqId) (entries' reqId)) :
    Pending pending rows entries' where
  nodup := h.nodup
  rows_eq := h.rows_eq
  waiting item hitem := by
    obtain ⟨state, ⟨hderef, hplace⟩, hlen⟩ := h.waiting item hitem
    obtain ⟨state', hderef', heq⟩ := (hkeeps item.reqId).deref _ _ hderef
    exact ⟨state', ⟨hderef', heq ▸ hplace⟩, heq ▸ hlen⟩
  held item hitem hsome := by
    obtain ⟨hbefore, href⟩ := (hkeeps item.reqId).held hsome
    rw [href, h.held item hitem hbefore]

theorem PendingOk.keeps {p : Pipeline} {entries entries' : Entries} (h : PendingOk p entries)
    (hkeeps : ∀ reqId, Keeps (entries reqId) (entries' reqId)) : PendingOk p entries' :=
  fun pending hpending => (h pending hpending).keeps hkeeps

/-- Clearing the dictionary entry of a request. -/
theorem keeps_reconcile (out : SchedulerOutput) (entries : Entries) (reqId : ReqId) :
    Keeps (entries reqId) (reconcileRequestLifecycle out entries reqId) := by
  unfold reconcileRequestLifecycle
  by_cases hfin : reqId ∈ out.finishedReqIds
  · simp only [hfin, decide_true, if_true]
    exact ⟨fun r state h => ⟨state, (Slot.deref_drop _ r).trans h, rfl⟩,
      fun h => absurd h Bool.false_ne_true⟩
  · simp only [hfin, decide_false, Bool.false_eq_true, if_false]
    exact ⟨fun r state h => ⟨state, h, rfl⟩, fun h => ⟨h, rfl⟩⟩

/-- New blocks for a request. -/
theorem keeps_extendBlocks (entry : Entry) (newBlockIds : Option (List (List ℕ))) :
    Keeps entry { entry with states := entry.states.modify (extendBlocks newBlockIds) } where
  deref r state h := by
    have htokens : (extendBlocks newBlockIds state).tokenIds = state.tokenIds := by
      cases newBlockIds <;> rfl
    simp only [Slot.deref_modify, h, Option.map_some]
    split
    · exact ⟨_, rfl, htokens⟩
    · exact ⟨_, rfl, rfl⟩
  held h := by
    refine ⟨?_, rfl⟩
    simpa [Entry.state] using h

/-- Filling in commutes with the eviction of requests. -/
theorem fill_reconcile (p : Pipeline) (out : SchedulerOutput) (entries : Entries) :
    reconcileRequestLifecycle out (fill p entries) =
      fill p (reconcileRequestLifecycle out entries) := by
  unfold fill
  cases p.pending with
  | none => rfl
  | some pending =>
    funext reqId
    cases hfind : pending.find? reqId with
    | none => simp only [reconcileRequestLifecycle, fillEntry, hfind]
    | some item =>
      simp only [reconcileRequestLifecycle, fillEntry, hfind]
      by_cases hfin : reqId ∈ out.finishedReqIds
      · simp only [hfin, decide_true, if_true, Slot.drop_modifyAt]
      · simp only [hfin, decide_false, Bool.false_eq_true, if_false]

/-- Filling in commutes with new blocks. -/
theorem fillEntry_extendBlocks (pending : PendingSampleStep) (reqId : ReqId) (entry : Entry)
    (newBlockIds : Option (List (List ℕ))) :
    (fillEntry pending reqId entry).states.modify (extendBlocks newBlockIds) =
      (fillEntry pending reqId
        { entry with states := entry.states.modify (extendBlocks newBlockIds) }).states := by
  unfold fillEntry
  cases pending.find? reqId with
  | none => rfl
  | some item =>
    refine Slot.modify_modifyAt _ _ fun state _ => ?_
    cases newBlockIds <;> rfl

end PagedRunner
end VllmMetal
