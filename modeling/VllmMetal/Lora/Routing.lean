import VllmMetal.Lib.Dict
import Mathlib.Data.Finset.Card
import Mathlib.Data.Int.Basic

/-!
# Routing packed rows to adapter slots

`PunicaWrapperMLX.update_metadata` (`punica_wrapper.py`) turns the adapter id of each packed
row into the slot of the adapter: as contiguous runs of rows when no adapter has more than one
run, and otherwise as a list of row indices for each slot.

## Main definitions

* `LoRAMapping` — the adapter ids of the packed rows and of the requests.
* `RoutingMetadata` — what the wrapper keeps between two steps.
* `updateMetadata` — the routing of a mapping over a slot table.
-/

namespace VllmMetal.Lora

/-- `LoRAMapping`: the adapter ids of the packed rows, of the requests, and the kind of step. -/
structure LoRAMapping where
  indexMapping : List ℤ
  promptMapping : List ℤ
  isPrefill : Bool
  deriving DecidableEq

/-- What `PunicaWrapperMLX` keeps: `_contiguous_runs`, `_token_indices_by_slot`, `_num_tokens`
and `_no_lora`. -/
structure RoutingMetadata where
  contiguousRuns : List (Option ℕ × ℕ × ℕ)
  tokenIndicesBySlot : List (ℕ × List ℕ)
  numTokens : ℕ
  noLora : Bool
  deriving DecidableEq

/-- `PunicaWrapperMLX.__init__`. -/
def RoutingMetadata.init : RoutingMetadata where
  contiguousRuns := []
  tokenIndicesBySlot := []
  numTokens := 0
  noLora := true

/-- `slot_of`: the slot of each resident adapter. -/
def slotOf (loraIndexToId : List (Option ℤ)) : Dict ℤ ℕ :=
  loraIndexToId.zipIdx.foldl
    (fun d p => match p.1 with
      | none => d
      | some aid => d.set aid p.2) ∅

/-- The variables of the loop over the packed rows. -/
structure RunScan where
  runs : List (Option ℕ × ℕ × ℕ)
  activeSlots : Finset ℕ
  runSlot : Option ℕ
  runStart : ℕ

/-- One pass of the loop: the row `tokenIndex` goes to `slot`. -/
def RunScan.step (scan : RunScan) (slot : Option ℕ) (tokenIndex : ℕ) : RunScan :=
  let scan := match slot with
    | none => scan
    | some s => { scan with activeSlots := insert s scan.activeSlots }
  if tokenIndex = 0 then { scan with runSlot := slot }
  else if slot ≠ scan.runSlot then
    { scan with
      runs := scan.runs ++ [(scan.runSlot, scan.runStart, tokenIndex)]
      runSlot := slot
      runStart := tokenIndex }
  else scan

/-- The loop over the packed rows. -/
def scanRuns (slots : List (Option ℕ)) : RunScan :=
  slots.zipIdx.foldl (fun scan p => scan.step p.1 p.2) ⟨[], ∅, none, 0⟩

/-- `token_indices_by_slot`: the rows of each slot, in order. -/
def tokenIndicesBySlot (slots : List (Option ℕ)) : Dict ℕ (List ℕ) :=
  slots.zipIdx.foldl
    (fun d p => match p.1 with
      | none => d
      | some slot => d.set slot (d.getD slot [] ++ [p.2])) ∅

/-- `update_metadata`: the routing of a mapping over a slot table.  Every field is written, so
nothing of the metadata before is left. -/
def updateMetadata (mapping : LoRAMapping) (loraIndexToId : List (Option ℤ)) :
    RoutingMetadata :=
  let slots := mapping.indexMapping.map fun adapterId => (slotOf loraIndexToId).get? adapterId
  let numTokens := mapping.indexMapping.length
  let scan := scanRuns slots
  let runs := if mapping.indexMapping = [] then scan.runs
    else scan.runs ++ [(scan.runSlot, scan.runStart, numTokens)]
  let loraRunCount := runs.countP fun run => run.1.isSome
  let useContiguousRuns := scan.activeSlots ≠ ∅ ∧ loraRunCount ≤ scan.activeSlots.card
  { contiguousRuns := if useContiguousRuns then runs else []
    tokenIndicesBySlot :=
      if useContiguousRuns then []
      else ((tokenIndicesBySlot slots).entries.map fun e => (e.1, e.2)).mergeSort
        fun a b => a.1 ≤ b.1
    numTokens := numTokens
    noLora := scan.activeSlots = ∅ }

-- rows of one adapter after the other are runs, interleaved rows are indices
example : updateMetadata ⟨[7, 7, 0, 8], [], false⟩ [some 8, some 7] =
    ⟨[(some 1, 0, 2), (none, 2, 3), (some 0, 3, 4)], [], 4, false⟩ := by decide

example : (updateMetadata ⟨[7, 8, 7], [], false⟩ [some 8, some 7]).contiguousRuns = [] := by
  decide

end VllmMetal.Lora
