import VllmMetal.Lib.SparseRows
import VllmMetal.PytorchBackend.PostUpdate

/-!
# The inputs of a ragged batch

The MPS backend replaces the kernels that prepare the inputs of a batch, a loop over the requests
each, by gathers over all lanes.  A lane finds its request by a search in the boundaries of the
batch; padding lanes find the last one.

The tables of the requests are functions of the slot, with their width where a gather clamps to it.

## Main definitions

* `tokenRows` — the request of every lane.
* `preparePrefillInputs`, `preparePosSeqLens`, `combineSampledAndDraftTokens` — the inputs.
* `computeSlotMappings` — the cache slots.
* `prepareDraftInputs`, `flattenSampled` — the inputs of the draft model, and its tokens.
-/

namespace VllmMetal.PytorchBackend

/-- `torch.bucketize(v, bs, right=True)`, of sorted `bs`. -/
def bucketize (bs : List ℕ) (v : ℕ) : ℕ := bs.countP fun b => b ≤ v

/-- `token_rows`, the rows. -/
def tokenRows (cu : List ℕ) (size : ℕ) : List ℕ :=
  (List.range size).map fun offset => min (bucketize cu.tail offset) (cu.length - 2)

/-! ### Tokens and positions -/

/-- `prepare_prefill_inputs`: the ids, and the rows of the lookahead. -/
def preparePrefillInputs (ids : List Token) (lookahead : List (ℕ → Token)) (mapping cu : List ℕ)
    (allIds : ℕ → ℕ → Token) (width : ℕ) (prefill computed : ℕ → ℕ) :
    List Token × List (ℕ → Token) :=
  let rows := tokenRows cu ids.length
  let ids := ids.mapIdx fun offset id =>
    let row := rows.getD offset 0
    let slot := mapping.getD row 0
    let position := computed slot + offset - cu.getD row 0
    let value := allIds slot (min position (width - 1))
    if offset < cu.getLastD 0 ∧ computed slot < prefill slot then value else id
  let nextPos := List.zipWith (fun slot len => computed slot + len) mapping (diff cu)
  let lookahead := lookahead.mapIdx fun i row =>
    scatter row mapping (List.zipWith (fun slot next =>
      let p := next + i
      if p < prefill slot then allIds slot (min p (width - 1)) else 0) mapping nextPos)
  (ids, lookahead)

/-- `prepare_pos_seq_lens`: the positions of `numPos` lanes, and the `numSeqs` lengths. -/
def preparePosSeqLens (mapping cu : List ℕ) (computed : ℕ → ℕ) (numPos numSeqs : ℕ) :
    List ℕ × List ℕ :=
  let rows := tokenRows cu numPos
  (rows.mapIdx fun offset row => computed (mapping.getD row 0) + offset - cu.getD row 0,
    List.zipWith (fun slot len => computed slot + len) mapping (diff cu) ++
      List.replicate (numSeqs - mapping.length) 0)

/-- `ids[indices] = values`. -/
def writeIds (ids : List Token) (indices : List ℤ) (values : List Token) : List Token :=
  scatterRows ids (indices.map (wrapIndex ids.length)) values

/-- `combine_sampled_and_draft_tokens`, with one new token: the ids and the returned indices.  The
table of drafts has `draftCols` columns. -/
def combineSampledAndDraftTokens (ids : List Token) (mapping : List ℕ) (last : ℕ → Token)
    (cu lengths : List ℕ) (prefill : ℕ → ℕ) (drafts : ℕ → ℕ → Token) (draftCols : ℕ)
    (cuLogits : List ℕ) (numLogits : ℕ) : List Token × List ℤ :=
  if draftCols ≠ 0 then
    let rows := tokenRows cuLogits numLogits
    let widths := diff cuLogits
    let indices : List ℤ := rows.mapIdx fun offset row =>
      (cu.getD (row + 1) 0 : ℤ) - widths.getD row 0 + (offset - cuLogits.getD row 0)
    let values := rows.mapIdx fun offset row =>
      let col := offset - cuLogits.getD row 0
      let slot := mapping.getD row 0
      let firstPos : ℤ := lengths.getD row 0 - widths.getD row 0
      let isDraft : Bool := 1 ≤ col
      let draftCol := min (col - 1) (draftCols - 1)
      let value := if isDraft then drafts slot draftCol else last slot
      let generated := prefill slot < lengths.getD row 0 ∧ (isDraft ∨ (prefill slot : ℤ) ≤ firstPos)
      if generated then value else ids.getD (wrapIndex ids.length (indices.getD offset 0)) 0
    (writeIds ids indices values, indices)
  else
    -- every request has one row of logits
    let indices : List ℤ := cu.tail.map fun stop : ℕ => (stop : ℤ) - 1
    let values := mapping.mapIdx fun row slot =>
      if prefill slot < lengths.getD row 0 then last slot
      else ids.getD (wrapIndex ids.length (indices.getD row 0)) 0
    (writeIds ids indices values, indices)

/-! ### Cache slots -/

/-- The block table of a cache group. -/
structure BlockTable where
  slotMappingEnabled : Bool
  blockSize : ℕ
  gpu : ℕ → ℕ → ℕ

/-- `compute_slot_mappings`: a row for each cache group. -/
def computeSlotMappings (blockTables : List BlockTable) (mapping : List ℤ) (cu positions : List ℕ)
    (numTokensPadded : ℕ) : List (List ℤ) :=
  let rows := tokenRows cu positions.length
  blockTables.map fun table =>
    if table.slotMappingEnabled then
      let values := positions.mapIdx fun offset position =>
        let slot := mapping.getD (rows.getD offset 0) 0
        -- dummy and padding lanes are masked before they index
        let active := offset < cu.getLastD 0 ∧ 0 ≤ slot
        let slot := if active then slot.toNat else 0
        let position := if active then position else 0
        let physical := table.gpu slot (position / table.blockSize)
        if active then ((physical * table.blockSize + position % table.blockSize : ℕ) : ℤ) else -1
      (values ++ List.replicate (numTokensPadded - positions.length) (-1)).take numTokensPadded
    else List.replicate numTokensPadded (-1)

/-! ### The draft model -/

/-- The buffers of the draft model. -/
structure DraftBuffers where
  inputIds : List Token
  positions : List ℕ
  queryStartLoc : List ℕ
  seqLens : List ℕ

/-- `prepare_prefill_inputs` of the draft model, of the first `total` lanes: its buffers, the last
index of each request and the step. -/
def prepareDraftInputs (lastIndices : List ℤ) (step : List ℕ) (buffers : DraftBuffers)
    (inputIds : List Token) (positions seqLens : List ℕ) (total : ℕ) (mapping cu : List ℕ)
    (sampled rejected : List ℕ) (last lookahead : ℕ → Token) :
    DraftBuffers × List ℤ × List ℕ :=
  let rows := tokenRows cu total
  let ends : List ℤ := List.zipWith (fun stop r : ℕ => (stop : ℤ) - r - 1) cu.tail rejected
  let nextToken := List.zipWith (fun s slot => if 0 < s then last slot else lookahead slot) sampled
    mapping
  let tokens := rows.mapIdx fun offset row =>
    let shifted := inputIds.getD (min (offset + 1) (total - 1)) 0
    if (offset : ℤ) = ends.getD row 0 then nextToken.getD row 0 else shifted
  ({ inputIds := tokens ++ buffers.inputIds.drop total
     positions := positions.take total ++ buffers.positions.drop total
     queryStartLoc := cu ++ List.replicate (buffers.queryStartLoc.length - cu.length) total
     seqLens := seqLens.take mapping.length ++
       List.replicate (buffers.seqLens.length - mapping.length) 0 },
    ends ++ List.replicate (lastIndices.length - mapping.length) 0,
    List.replicate step.length 0)

/-- `flatten_sampled`, of rows of `numCols` tokens. -/
def flattenSampled (output : List Token) (sampled : List (List Token)) (numCols : ℕ)
    (numSampled cu : List ℕ) : List Token :=
  let rows := tokenRows cu output.length
  output.mapIdx fun offset old =>
    let row := rows.getD offset 0
    let column := offset - cu.getD row 0
    if column < numSampled.getD row 0 then
      (sampled.getD row []).getD (min column (numCols - 1)) 0
    else old

end VllmMetal.PytorchBackend
