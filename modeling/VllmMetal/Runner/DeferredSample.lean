import VllmMetal.Runner.Eligible

/-!
# Deferring a sample

The synchronous path samples and appends the tokens.  The deferred path appends placeholders,
resolves the step that was pending before, and registers its own tokens.  Filling these in gives
what the synchronous path has.

## Main results

* `sampleStep_eligible` — both paths sample the same tokens.
* `submitDeferred_eligible` — **the deferred path stands for the synchronous one**.
-/

namespace VllmMetal
namespace PagedRunner

open SpecDecode Multimodal

variable {Row : Type}

/-! ### The tokens -/

/-- Index-wise maps that agree on related lists. -/
theorem mapIdx_eq_of_forall₂ {A B C : Type} {R : A → B → Prop} {l : List A} {l' : List B}
    (h : List.Forall₂ R l l') {f : ℕ → A → C} {g : ℕ → B → C}
    (hfg : ∀ i, ∀ a ∈ l, ∀ b, R a b → f i a = g i b) : l.mapIdx f = l'.mapIdx g := by
  induction h generalizing f g with
  | nil => rfl
  | cons hab _ ih =>
    rw [List.mapIdx_cons, List.mapIdx_cons, hfg 0 _ List.mem_cons_self _ hab]
    refine congrArg _ (ih fun i a ha b hR => ?_)
    exact hfg (i + 1) a (List.mem_cons_of_mem _ ha) b hR

/-- The tokens of the deferred path, one for each request. -/
theorem deferredTokens_eq {target : Target Row} {cfg : RunnerConfig}
    (hagree : SamplersAgree target cfg) {p : Pipeline} {entries : Entries}
    {st : PagedForwardState Row}
    (hstates : ∀ reqId ∈ st.decodeReqs, ∃ state, (fill p entries reqId).state = some state ∧
      nativeRow cfg state.samplingParams state.outputLength = true) :
    deferredTokens target st entries =
      (decodeStates (fill p entries) st.decodeReqs).mapIdx fun i req =>
        target.sample (st.logits i) req.2 := by
  refine (mapIdx_eq_of_forall₂ (decodeStates_fill p entries st.decodeReqs) ?_).symm
  intro i req hreq req' hsame
  obtain ⟨reqId, hid, hreq⟩ := List.mem_filterMap.mp hreq
  obtain ⟨state, hstate, rfl⟩ := Option.map_eq_some_iff.mp hreq
  obtain ⟨state', hstate', hnative⟩ := hstates reqId hid
  rw [hstate] at hstate'
  obtain rfl := Option.some.inj hstate'
  rw [hagree _ state hnative, hsame.2.samplingParams, hsame.2.outputLength]

/-- **Both paths sample the same tokens.** -/
theorem sampleStep_eligible {target : Target Row} {cfg : RunnerConfig}
    (hagree : SamplersAgree target cfg) {p : Pipeline} {entries : Entries}
    {st st' : PagedForwardState Row} (h : DeferredForward cfg (fill p entries) st st') :
    sampleStep target st' (fill p entries) =
      .ok ⟨(deferredTokens target st entries).map fun t => [t], []⟩ := by
  obtain ⟨hdecode, hlogits, hpack⟩ :
      st'.decodeReqs = st.decodeReqs ∧ st'.logits = st.logits ∧ st'.pack = st.pack := by
    rw [h.same]
    exact ⟨rfl, rfl, rfl⟩
  have hnone : (st'.segments.any fun segment => !segment.draftTokenIds.isEmpty) = false := by
    rw [List.any_eq_false]
    intro segment hsegment
    rw [h.drafts segment hsegment]
    exact Bool.false_ne_true
  rw [sampleStep, decodeTokenIds, hnone, hpack, h.pack, hdecode, hlogits,
    deferredTokens_eq hagree h.states]
  simp only [Bool.false_eq_true, if_false, List.mapIdx_eq_zipIdx_map, List.map_map,
    Function.comp_def, List.zipIdx_nil, List.map_nil]

theorem length_deferredTokens {target : Target Row} {cfg : RunnerConfig} {p : Pipeline}
    {entries : Entries} {st st' : PagedForwardState Row}
    (h : DeferredForward cfg (fill p entries) st st') :
    (deferredTokens target st entries).length = st.decodeReqs.length := by
  rw [deferredTokens, List.length_mapIdx, length_decodeStates]
  intro reqId hid
  obtain ⟨state, hstate, -⟩ := h.states reqId hid
  have hnone := isNone_state_fill p entries reqId
  rw [hstate, Option.isNone_some] at hnone
  rw [← Option.not_isNone, ← hnone]
  rfl

/-! ### Placeholders -/

/-- How many tokens the state of an entry has. -/
def Entry.tokenCount (entry : Entry) : ℕ :=
  (entry.state.map fun state => state.tokenIds.length).getD 0

/-- An entry with a token behind those of its state. -/
def appendedEntry (token : Token) (entry : Entry) : Entry :=
  { entry with
    states := entry.states.modify fun state => state.extend [token]
    seqLen := some (entry.seqLen.getD (entry.tokenCount - 1) + 1) }

/-- The reference to the token behind those of a state. -/
def placeholderRef (slots : ℕ) (item : ReqId × ℕ) (entry : Entry) : PendingBackfillEntry :=
  ⟨item.1, entry.states.ref, item.2, entry.tokenCount, slots + item.2⟩

theorem appendPlaceholder_eq (slots : ℕ) (item : ReqId × ℕ) {entry : Entry}
    (h : entry.state.isSome) : appendPlaceholder slots item entry =
      .ok (appendedEntry pendingTokenPlaceholder entry, [placeholderRef slots item entry]) := by
  obtain ⟨state, hstate⟩ := Option.isSome_iff_exists.mp h
  simp only [appendPlaceholder, hstate, appendedEntry, placeholderRef, Entry.tokenCount,
    Option.map_some, Option.getD_some, RequestState.extend_tokenIds, List.length_append,
    List.length_singleton, Nat.add_sub_cancel, Nat.reduceSubDiff]

theorem updateDecodeState_eq (reqId : ReqId) (token : Token) {entry : Entry}
    (h : entry.state.isSome) : updateDecodeState (reqId, [token]) entry =
      .ok (appendedEntry token entry, [(reqId, [token])]) := by
  obtain ⟨state, hstate⟩ := Option.isSome_iff_exists.mp h
  simp only [updateDecodeState, hstate, appendedEntry, Entry.tokenCount, Option.map_some,
    Option.getD_some, RequestState.extend_tokenIds, List.length_append, List.length_singleton,
    Nat.add_sub_cancel]

theorem tokenCount_fillEntry (pending : PendingSampleStep) (reqId : ReqId) (entry : Entry) :
    (fillEntry pending reqId entry).tokenCount = entry.tokenCount := by
  have hshape := shape_fillEntry pending reqId entry
  unfold Entry.tokenCount
  cases hfilled : (fillEntry pending reqId entry).state <;> cases hstate : entry.state <;>
    rw [hfilled, hstate] at hshape
  · cases hshape
  · cases hshape
  · cases hshape with
    | some hsame => exact hsame.length

/-- Appending a token and filling in an older one commute. -/
theorem fillEntry_appendedEntry {pending : PendingSampleStep} {rows : Dict ReqId ℕ}
    {entries : Entries} (h : Pending pending rows entries) (token : Token) (reqId : ReqId) :
    appendedEntry token (fillEntry pending reqId (entries reqId)) =
      fillEntry pending reqId (appendedEntry token (entries reqId)) := by
  unfold appendedEntry
  rw [tokenCount_fillEntry, seqLen_fillEntry]
  unfold fillEntry
  cases hfind : pending.find? reqId with
  | none => rfl
  | some item =>
    obtain ⟨hmem, rfl⟩ := PendingSampleStep.mem_of_find? hfind
    obtain ⟨behind, ⟨hderef, -⟩, hend⟩ := h.waiting item hmem
    simp only [Entry.mk.injEq, and_true]
    refine Slot.modify_modifyAt _ _ fun state hstate => ?_
    rw [hderef] at hstate
    obtain rfl := Option.some.inj hstate
    -- the older placeholder is inside the list
    have hlt : item.tokenIndex < behind.tokenIds.length := by omega
    simp only [setToken, RequestState.extend, List.set_append_left _ _ hlt]

/-- A placeholder that is filled in at once. -/
theorem fill_placeholder (token : Token) (entry : Entry) :
    { appendedEntry pendingTokenPlaceholder entry with
      states := (appendedEntry pendingTokenPlaceholder entry).states.modifyAt entry.states.ref
        (setToken entry.tokenCount token) } = appendedEntry token entry := by
  have href : entry.states.ref = (appendedEntry pendingTokenPlaceholder entry).states.ref := rfl
  rw [href, Slot.modifyAt_ref]
  simp only [appendedEntry, Slot.modify, Entry.mk.injEq, Slot.mk.injEq, true_and, and_true,
    Option.map_map]
  cases hheld : entry.states.held with
  | none => rfl
  | some state =>
    have hcount : entry.tokenCount = state.tokenIds.length := by
      rw [Entry.tokenCount, Entry.state, hheld, Option.map_some, Option.getD_some]
    simp only [Option.map_some, Function.comp_apply, setToken, RequestState.extend, hcount,
      List.set_append_right _ _ (Nat.le_refl _), Nat.sub_self, List.set_cons_zero,
      List.length_singleton]

/-- The older placeholders are still there. -/
theorem Pending.waiting_placeholder {pending : PendingSampleStep} {rows : Dict ReqId ℕ}
    {entries : Entries} (h : Pending pending rows entries) {entries' : Entries}
    (hentries : ∀ reqId, entries' reqId = entries reqId ∨
      entries' reqId = appendedEntry pendingTokenPlaceholder (entries reqId))
    {item : PendingBackfillEntry} (hitem : item ∈ pending.entries) :
    ∃ state, Waiting item (entries' item.reqId) state := by
  obtain ⟨state, ⟨hderef, hplace⟩, hend⟩ := h.waiting item hitem
  rcases hentries item.reqId with heq | heq
  · exact ⟨state, by rw [heq]; exact hderef, hplace⟩
  · have hlt : item.tokenIndex < state.tokenIds.length := by omega
    unfold Waiting
    rw [heq]
    simp only [appendedEntry, Slot.deref_modify, hderef, Option.map_some]
    split
    · refine ⟨_, rfl, ?_⟩
      rw [RequestState.extend_tokenIds, List.getElem?_append_left hlt]
      exact hplace
    · exact ⟨_, rfl, hplace⟩

/-! ### The output of a pending step -/

/-- Writing the slot behind a prefix. -/
theorem modify_length_append {A : Type} (pre : List A) (a : A) (rest : List A) (f : A → A) :
    (pre ++ a :: rest).modify pre.length f = pre ++ f a :: rest := by
  induction pre with
  | nil => rfl
  | cons b pre ih => rw [List.cons_append, List.length_cons, List.modify_succ_cons, ih]; rfl

/-- The slots of a deferred step, filled one after the other. -/
theorem foldl_modify_slots (value : ℕ → Token) (reqIds : List ReqId) (pre : StepOutput) :
    (reqIds.zipIdx pre.length).foldl (fun slots (item : ReqId × ℕ) =>
        slots.modify item.2 fun slot => (slot.1, [value item.2]))
      (pre ++ reqIds.map fun reqId => (reqId, [])) =
        pre ++ (reqIds.zipIdx pre.length).map fun item => (item.1, [value item.2]) := by
  induction reqIds generalizing pre with
  | nil => rfl
  | cons reqId reqIds ih =>
    rw [List.zipIdx_cons, List.foldl_cons, List.map_cons, List.map_cons]
    have hslot := modify_length_append pre ((reqId, []) : ReqId × List Token)
      (reqIds.map fun reqId => (reqId, [])) fun slot => (slot.1, [value pre.length])
    rw [hslot]
    have hrest := ih (pre ++ [(reqId, [value pre.length])])
    rw [List.length_append, List.length_singleton, List.append_assoc, List.append_assoc] at hrest
    exact hrest

/-- The sampled tokens, request by request. -/
theorem zip_map_eq_zipIdx {A B : Type} (l : List A) (tokens : List Token) (k : ℕ)
    (pre : List Token) (hpre : pre.length = k) (hlen : tokens.length = l.length)
    (f : A → Token → B) : List.zipWith f l tokens =
      (l.zipIdx k).map fun item => f item.1 ((pre ++ tokens).getD item.2 0) := by
  induction l generalizing tokens k pre with
  | nil => rfl
  | cons a l ih =>
    cases tokens with
    | nil => cases hlen
    | cons t tokens =>
      rw [List.zipWith_cons_cons, List.zipIdx_cons, List.map_cons]
      have hrest := ih tokens (k + 1) (pre ++ [t]) (by rw [List.length_append, hpre]; rfl)
        (Nat.succ.inj hlen)
      rw [List.append_assoc, List.singleton_append] at hrest
      rw [hrest, List.getD_append_right _ _ _ _ (le_of_eq hpre), hpre, Nat.sub_self]
      rfl

/-! ### The two paths -/

/-- The references that a deferred sample leaves. -/
def placeholderRefs (entries : Entries) (reqIds : List ReqId) : List PendingBackfillEntry :=
  reqIds.zipIdx.map fun item => placeholderRef 0 item (entries item.1)

/-- The rows of a submitted step. -/
def submittedRows (items : List PendingBackfillEntry) : Dict ReqId ℕ :=
  items.foldl (fun rows e => rows.set e.reqId e.row) ∅

theorem get?_foldl_set_rows (items : List PendingBackfillEntry)
    (hnodup : (items.map PendingBackfillEntry.reqId).Nodup) (rows : Dict ReqId ℕ) (reqId : ReqId) :
    (items.foldl (fun rows e => rows.set e.reqId e.row) rows).get? reqId =
      match items.find? fun e => e.reqId = reqId with
      | none => rows.get? reqId
      | some e => some e.row := by
  induction items generalizing rows with
  | nil => rfl
  | cons e items ih =>
    rw [List.map_cons, List.nodup_cons] at hnodup
    rw [List.foldl_cons, ih hnodup.2, List.find?_cons, Dict.get?_set]
    by_cases heq : e.reqId = reqId
    · have hnone : (items.find? fun e => e.reqId = reqId) = none := by
        rw [List.find?_eq_none]
        intro e' he' heq'
        exact hnodup.1 (heq ▸ of_decide_eq_true heq' ▸ List.mem_map_of_mem he')
      rw [hnone]
      simp only [heq, if_true, decide_true]
    · simp only [heq, decide_false, if_neg (Ne.symm heq)]

theorem reqIds_placeholderRefs (entries : Entries) (reqIds : List ReqId) :
    (placeholderRefs entries reqIds).map PendingBackfillEntry.reqId = reqIds := by
  rw [placeholderRefs, List.map_map]
  exact List.zipIdx_map_fst 0 reqIds

/-- The entries after these requests got a token each. -/
def appendedEntries (reqIds : List ReqId) (token : ReqId → Token) (entries : Entries) : Entries :=
  fun reqId => if reqId ∈ reqIds then appendedEntry (token reqId) (entries reqId)
    else entries reqId

/-- The placeholders of a deferred sample. -/
theorem forEach_appendPlaceholder {entries : Entries} {reqIds : List ReqId} (hnodup : reqIds.Nodup)
    (hstates : ∀ reqId ∈ reqIds, (entries reqId).state.isSome) :
    forEach Prod.fst (appendPlaceholder 0) reqIds.zipIdx entries =
      .ok (appendedEntries reqIds (fun _ => pendingTokenPlaceholder) entries,
        placeholderRefs entries reqIds) := by
  have hkeys : (reqIds.zipIdx.map Prod.fst).Nodup := by
    rw [List.zipIdx_map_fst]
    exact hnodup
  have hmem : ∀ item ∈ reqIds.zipIdx, item.1 ∈ reqIds := fun item hitem =>
    List.fst_mem_of_mem_zipIdx hitem
  have hact : ∀ item ∈ reqIds.zipIdx, appendPlaceholder 0 item (entries item.1) =
      .ok (appendedEntry pendingTokenPlaceholder (entries item.1),
        [placeholderRef 0 item (entries item.1)]) :=
    fun item hitem => appendPlaceholder_eq 0 item (hstates item.1 (hmem item hitem))
  obtain ⟨entries', hloop, hchanged, hframe⟩ := forEach_ok hkeys fun item hitem =>
    ⟨_, hact item hitem⟩
  rw [hloop, List.flatMap_congr fun item hitem => by rw [acted_of_ok (hact item hitem)],
    ← List.map_eq_flatMap]
  congr 2
  funext reqId
  unfold appendedEntries
  split
  · next hid =>
    rw [← List.zipIdx_map_fst 0 reqIds] at hid
    obtain ⟨item, hitem, rfl⟩ := List.mem_map.mp hid
    rw [hchanged item hitem, acted_of_ok (hact item hitem)]
  · next hid =>
    refine hframe reqId ?_
    rw [List.zipIdx_map_fst]
    exact hid

/-- The token of a request in a list of tokens. -/
def tokenOf (reqIds : List ReqId) (tokens : List Token) (reqId : ReqId) : Token :=
  tokens.getD (reqIds.idxOf reqId) 0

/-- The place of an item of an enumerated list without duplicates. -/
theorem idxOf_of_mem_zipIdx {reqIds : List ReqId} (hnodup : reqIds.Nodup) {item : ReqId × ℕ}
    (hitem : item ∈ reqIds.zipIdx) : reqIds.idxOf item.1 = item.2 := by
  obtain ⟨hlt, hget⟩ := List.mem_zipIdx' hitem
  rw [hget, hnodup.idxOf_getElem]

/-- The tokens of the synchronous path. -/
theorem forEach_updateDecodeState {entries : Entries} {reqIds : List ReqId} (hnodup : reqIds.Nodup)
    (hstates : ∀ reqId ∈ reqIds, (entries reqId).state.isSome) {tokens : List Token}
    (hlen : tokens.length = reqIds.length) :
    forEach Prod.fst updateDecodeState (reqIds.zip (tokens.map fun t => [t])) entries =
      .ok (appendedEntries reqIds (tokenOf reqIds tokens) entries,
        reqIds.zipIdx.map fun item => (item.1, [tokens.getD item.2 0])) := by
  -- the rows of the step, each with the token of its place
  have hzip : reqIds.zip (tokens.map fun t => [t]) =
      reqIds.zipIdx.map fun item => (item.1, [tokens.getD item.2 0]) := by
    rw [List.zip_map_right, List.zip, List.map_zipWith]
    exact zip_map_eq_zipIdx reqIds tokens 0 [] rfl hlen fun reqId t => (reqId, [t])
  have hkeys : ((reqIds.zipIdx.map fun item : ReqId × ℕ =>
      (item.1, [tokens.getD item.2 0])).map Prod.fst).Nodup := by
    rw [List.map_map]
    exact (List.zipIdx_map_fst 0 reqIds).symm ▸ hnodup
  have hact : ∀ entry ∈ reqIds.zipIdx.map fun item : ReqId × ℕ => (item.1, [tokens.getD item.2 0]),
      updateDecodeState entry (entries entry.1) =
        .ok (appendedEntry (tokenOf reqIds tokens entry.1) (entries entry.1), [entry]) := by
    intro entry hentry
    obtain ⟨item, hitem, rfl⟩ := List.mem_map.mp hentry
    rw [updateDecodeState_eq _ _ (hstates item.1 (List.fst_mem_of_mem_zipIdx hitem)), tokenOf,
      idxOf_of_mem_zipIdx hnodup hitem]
  -- a request occurs once, so its entry is changed by its own row
  obtain ⟨entries', hloop, hchanged, hframe⟩ := forEach_ok hkeys fun entry hentry =>
    ⟨_, hact entry hentry⟩
  rw [hzip, hloop, List.flatMap_congr fun entry hentry => by rw [acted_of_ok (hact entry hentry)],
    List.flatMap_singleton']
  congr 2
  have hids : (reqIds.zipIdx.map fun item : ReqId × ℕ =>
      (item.1, [tokens.getD item.2 0])).map Prod.fst = reqIds := by
    rw [List.map_map]
    exact List.zipIdx_map_fst 0 reqIds
  funext reqId
  unfold appendedEntries
  split
  · next hid =>
    rw [← hids] at hid
    obtain ⟨entry, hentry, rfl⟩ := List.mem_map.mp hid
    rw [hchanged entry hentry, acted_of_ok (hact entry hentry)]
  · next hid =>
    refine hframe reqId ?_
    rw [hids]
    exact hid

/-- The pipeline behind a submitted step. -/
def Pipeline.submitted (p : Pipeline) (step : PendingSampleStep) : Pipeline :=
  { p.resolvedBy with
    pending := some step
    pendingSerial := p.pendingSerial + 1
    rows := submittedRows step.entries }

/-- The step that a deferred sample submits. -/
def deferredStep (target : Target Row) (st : PagedForwardState Row) (entries : Entries) :
    PendingSampleStep :=
  ⟨deferredTokens target st entries, placeholderRefs entries st.decodeReqs,
    st.decodeReqs.map fun reqId => (reqId, [])⟩

/-- The output of a deferred step. -/
theorem output_deferredStep (target : Target Row) (st : PagedForwardState Row) (entries : Entries) :
    (deferredStep target st entries).output = st.decodeReqs.zipIdx.map fun item =>
      (item.1, [(deferredTokens target st entries).getD item.2 0]) := by
  have hslots := foldl_modify_slots (fun row => (deferredTokens target st entries).getD row 0)
    st.decodeReqs []
  rw [List.nil_append, List.nil_append, List.length_nil] at hslots
  rw [PendingSampleStep.output, deferredStep, placeholderRefs, List.foldl_map]
  simp only [placeholderRef, Nat.zero_add, PendingSampleStep.value]
  exact hslots

/-- Filling in the placeholders that were just appended. -/
theorem fill_submitted {target : Target Row} {st : PagedForwardState Row}
    (hnodup : st.decodeReqs.Nodup)
    (p : Pipeline) (entries filled : Entries)
    (href : ∀ reqId, (filled reqId).states.ref = (entries reqId).states.ref)
    (hcount : ∀ reqId, (filled reqId).tokenCount = (entries reqId).tokenCount) :
    fill (p.submitted (deferredStep target st entries))
        (appendedEntries st.decodeReqs (fun _ => pendingTokenPlaceholder) filled) =
      appendedEntries st.decodeReqs (tokenOf st.decodeReqs (deferredTokens target st entries))
        filled := by
  have hids : (deferredStep target st entries).entries.map PendingBackfillEntry.reqId =
      st.decodeReqs := reqIds_placeholderRefs entries st.decodeReqs
  funext reqId
  show fillEntry (deferredStep target st entries) reqId _ = _
  unfold appendedEntries
  -- a request of the step finds its own reference
  by_cases hid : reqId ∈ st.decodeReqs
  · simp only [hid, if_true]
    have hzip := hid
    rw [← List.zipIdx_map_fst 0 st.decodeReqs] at hzip
    obtain ⟨item, hitem, rfl⟩ := List.mem_map.mp hzip
    have hfind : (deferredStep target st entries).find? item.1 =
        some (placeholderRef 0 item (entries item.1)) :=
      PendingSampleStep.find?_of_mem (by rw [hids]; exact hnodup)
        (List.mem_map_of_mem hitem)
    refine Eq.trans ?_ (fill_placeholder _ _)
    unfold fillEntry
    rw [hfind, tokenOf, idxOf_of_mem_zipIdx hnodup hitem, href, hcount]
    rfl
  -- another request has none
  · have hnone : (deferredStep target st entries).find? reqId = none := by
      refine PendingSampleStep.find?_eq_none ?_
      rw [hids]
      exact hid
    simp only [hid, if_false]
    unfold fillEntry
    rw [hnone]

/-- The references that were just left lead to the placeholders. -/
theorem pending_submitted {target : Target Row} {st : PagedForwardState Row}
    (hnodup : st.decodeReqs.Nodup) (entries filled : Entries)
    (href : ∀ reqId, (filled reqId).states.ref = (entries reqId).states.ref)
    (hcount : ∀ reqId, (filled reqId).tokenCount = (entries reqId).tokenCount)
    (hstates : ∀ reqId ∈ st.decodeReqs, (filled reqId).state.isSome) :
    Pending (deferredStep target st entries)
      (submittedRows (deferredStep target st entries).entries)
      (appendedEntries st.decodeReqs (fun _ => pendingTokenPlaceholder) filled) := by
  have hids := reqIds_placeholderRefs entries st.decodeReqs
  have hentries : ((deferredStep target st entries).entries.map
      PendingBackfillEntry.reqId).Nodup := by
    rw [deferredStep, hids]
    exact hnodup
  refine ⟨hentries, fun reqId => ?_, ?_, ?_⟩
  · rw [submittedRows, get?_foldl_set_rows _ hentries, PendingSampleStep.find?]
    cases (deferredStep target st entries).entries.find? fun e => e.reqId = reqId with
    | none => exact Dict.get?_empty reqId
    | some e => rfl
  · intro item hitem
    obtain ⟨place, hplace, rfl⟩ := List.mem_map.mp hitem
    have hid : place.1 ∈ st.decodeReqs := List.fst_mem_of_mem_zipIdx hplace
    obtain ⟨state, hstate⟩ := Option.isSome_iff_exists.mp (hstates place.1 hid)
    -- the reference counts the tokens before the placeholder
    have hlen : (entries place.1).tokenCount = state.tokenIds.length := by
      rw [← hcount, Entry.tokenCount, hstate, Option.map_some, Option.getD_some]
    refine ⟨state.extend [pendingTokenPlaceholder], ⟨?_, ?_⟩, ?_⟩
    · simp only [placeholderRef, appendedEntries, hid, if_true, appendedEntry]
      rw [Slot.deref_modify, ← href, if_pos rfl, Slot.deref_ref]
      exact congrArg _ hstate
    · simp only [placeholderRef, hlen, RequestState.extend_tokenIds]
      rw [List.getElem?_append_right (Nat.le_refl _), Nat.sub_self]
      rfl
    · simp only [placeholderRef, hlen, RequestState.extend_tokenIds, List.length_append,
        List.length_singleton]
  · intro item hitem _
    obtain ⟨place, hplace, rfl⟩ := List.mem_map.mp hitem
    have hid : place.1 ∈ st.decodeReqs := List.fst_mem_of_mem_zipIdx hplace
    simp only [placeholderRef, appendedEntries, hid, if_true, appendedEntry, Slot.ref_modify, href]

theorem ref_fill (p : Pipeline) (entries : Entries) (reqId : ReqId) :
    (fill p entries reqId).states.ref = (entries reqId).states.ref := by
  unfold fill
  cases p.pending with
  | none => rfl
  | some pending => exact ref_fillEntry ..

theorem tokenCount_fill (p : Pipeline) (entries : Entries) (reqId : ReqId) :
    (fill p entries reqId).tokenCount = (entries reqId).tokenCount := by
  unfold fill
  cases p.pending with
  | none => rfl
  | some pending => exact tokenCount_fillEntry ..

/-- The barrier inside `submit`, which finds the older placeholders below the new ones. -/
theorem barrier_appended {p : Pipeline} {entries : Entries} (hp : PendingOk p entries)
    (reqIds : List ReqId) :
    barrier p (appendedEntries reqIds (fun _ => pendingTokenPlaceholder) entries) =
      .ok (p.resolvedBy,
        appendedEntries reqIds (fun _ => pendingTokenPlaceholder) (fill p entries)) := by
  rw [barrier_ok]
  · congr 2
    unfold fill
    cases hpending : p.pending with
    | none => rfl
    | some pending =>
      funext reqId
      unfold appendedEntries
      by_cases hid : reqId ∈ reqIds
      · simp only [hid, if_true, fillEntry_appendedEntry (hp pending hpending)]
      · simp only [hid, if_false]
  · intro pending hpending
    refine ⟨(hp pending hpending).nodup, fun item hitem => ?_⟩
    refine (hp pending hpending).waiting_placeholder (fun reqId => ?_) hitem
    by_cases hid : reqId ∈ reqIds
    · exact Or.inr (if_pos hid)
    · exact Or.inl (if_neg hid)

/-- **The deferred path stands for the synchronous one**: filling in its tokens gives the entries of
the synchronous path, and its output is that of the synchronous path. -/
theorem submitDeferred_eligible {target : Target Row} {cfg : RunnerConfig}
    (hagree : SamplersAgree target cfg) {r : Runner Row} (hp : PendingOk r.pipeline r.entries)
    (heligible : r.pipeline.stepEligible = true) (hfree : r.pipeline.resolved = none)
    {st st' : PagedForwardState Row} (h : DeferredForward cfg (fill r.pipeline r.entries) st st') :
    ∃ step after, samplePagedBatch target st' (fill r.pipeline r.entries) =
        .ok (fill (r.pipeline.submitted step) after, step.output) ∧
      submitDeferredDecodeSample target st r =
        .ok ⟨after, r.pipeline.submitted step, r.history, none⟩ ∧
      PendingOk (r.pipeline.submitted step) after := by
  have hsome : ∀ reqId ∈ st.decodeReqs, (r.entries reqId).state.isSome := by
    intro reqId hid
    obtain ⟨state, hstate, -⟩ := h.states reqId hid
    have hnone := isNone_state_fill r.pipeline r.entries reqId
    rw [hstate, Option.isNone_some] at hnone
    rw [← Option.not_isNone, ← hnone]
    rfl
  have hfilled : ∀ reqId ∈ st.decodeReqs, (fill r.pipeline r.entries reqId).state.isSome := by
    intro reqId hid
    obtain ⟨state, hstate, -⟩ := h.states reqId hid
    rw [hstate]
    rfl
  obtain ⟨hdecode, hfull, hpack, hwork⟩ : st'.decodeReqs = st.decodeReqs ∧
      st'.intermediateOnly = st.intermediateOnly ∧ st'.pack = st.pack ∧ st'.work = st.work := by
    rw [h.same]
    exact ⟨rfl, rfl, rfl, rfl⟩
  refine ⟨deferredStep target st r.entries,
    appendedEntries st.decodeReqs (fun _ => pendingTokenPlaceholder) (fill r.pipeline r.entries),
    ?_, ?_, ?_⟩
  -- the synchronous path, with the tokens that are filled in later
  · rw [fill_submitted h.nodup _ _ _ (ref_fill _ _) (tokenCount_fill _ _), output_deferredStep]
    simp only [samplePagedBatch, hfull, h.full, Bool.false_eq_true, if_false,
      sampleStep_eligible hagree h, applyTokens, hdecode,
      forEach_updateDecodeState h.nodup hfilled (length_deferredTokens h), hpack, h.pack, hwork,
      h.work, forEach, filterMap_prefill?_decodes, sampledChunks, List.zip_nil_left,
      List.zipWith_nil_left, prefillOutputs_decodes, List.nil_append]
  -- the step is plain decodes, so its guards pass
  · have hguard : (!st.pack.isEmpty || decide ((st.segments.map
        PagedDecodeSegment.numQueryTokens).sum ≠ st.decodeReqs.length)) = false := by
      rw [h.pack, h.rows]
      simp
    simp only [Bool.or_eq_false_iff, Bool.not_eq_false', decide_eq_false_iff_not, not_not] at hguard
    simp only [submitDeferredDecodeSample, hguard.1, hguard.2, Bool.not_true, ne_eq,
      not_true_eq_false, decide_false, Bool.or_self, Bool.false_eq_true, if_false, h.work,
      prefillOutputs_decodes, List.length_nil, forEach_appendPlaceholder h.nodup hsome, submit,
      heligible, hfree, barrier_appended hp, List.nil_append]
    simp only [Pipeline.submitted, Pipeline.pendingSerial_resolvedBy, submittedRows, deferredStep]
  · intro pending hpending
    obtain rfl : deferredStep target st r.entries = pending := Option.some.inj hpending
    exact pending_submitted h.nodup _ _ (ref_fill _ _) (tokenCount_fill _ _) hfilled

end PagedRunner
end VllmMetal
