import VllmMetal.Lib.Dict
import Mathlib.Data.Rat.Defs
import Mathlib.Algebra.Order.Ring.Rat
import Mathlib.Tactic.NormNum

/-!
# Requests

The runner's record of a request, and the sampling parameters that decide which of its
sampling paths a step may take.  Token ids are integers: a legal one is non-negative, and
`-1` stands for a sampled token whose value is still on the device.

## Main definitions

* `SamplingParams` — the parameters the gates read.
* `RequestState` — token history, prompt length and generated count of a request.
* `paramsAllowNativeGreedy`, `paramsAllowNativeRandom`, `greedySampling` — the gates.
-/

namespace VllmMetal

/-- A token id; drafts and samples are non-negative, placeholders are not. -/
abbrev Token := ℤ

/-- A request id, of which only equality matters. -/
abbrev ReqId := ℕ

/-- Appended at submit time and backfilled at resolve time. -/
def pendingTokenPlaceholder : Token := -1

/-! ### Sampling parameters -/

/-- Temperatures below this one mean greedy sampling. -/
def greedyTemperatureEps : ℚ := 1 / 100000

/-- The sampling parameters that the native and the speculative paths look at. -/
structure SamplingParams where
  temperature : ℚ
  topK : ℤ
  topP : ℚ
  frequencyPenalty : ℚ
  presencePenalty : ℚ
  repetitionPenalty : ℚ
  numLogprobs : Option ℤ
  allowedTokenIds : List Token
  badWordsTokenIds : List (List Token)
  logitBias : List (Token × ℚ)
  minTokens : ℤ
  seed : Option ℤ
  structuredOutputs : Bool
  deriving DecidableEq

/-- Parameters of plain greedy sampling. -/
def SamplingParams.greedy : SamplingParams :=
  { temperature := 0, topK := 0, topP := 1, frequencyPenalty := 0, presencePenalty := 0,
    repetitionPenalty := 1, numLogprobs := none, allowedTokenIds := [], badWordsTokenIds := [],
    logitBias := [], minTokens := 0, seed := none, structuredOutputs := false }

/-- What `params_allow_native_greedy` asks of one row past its minimum. -/
def SamplingParams.nativeGreedy (sp : SamplingParams) : Bool :=
  decide (sp.temperature < greedyTemperatureEps) && decide (sp.topK ≤ 0) && decide (sp.topP = 1) &&
    decide (sp.frequencyPenalty = 0) && decide (sp.presencePenalty = 0) &&
    decide (sp.repetitionPenalty = 1) && sp.numLogprobs.isNone && sp.allowedTokenIds.isEmpty &&
    sp.badWordsTokenIds.isEmpty && sp.logitBias.isEmpty

/-- What `params_allow_native_random` asks of one row past its minimum, with `allow_seed`
off as the deferred path has it. -/
def SamplingParams.nativeRandom (sp : SamplingParams) : Bool :=
  sp.seed.isNone && decide (sp.frequencyPenalty = 0) && decide (sp.presencePenalty = 0) &&
    decide (sp.repetitionPenalty = 1) && sp.numLogprobs.isNone && !sp.structuredOutputs &&
    sp.allowedTokenIds.isEmpty && sp.badWordsTokenIds.isEmpty && sp.logitBias.isEmpty

/-- `_min_tokens_pending`: some row still needs the min-tokens processor; each row comes with
its generated-token count. -/
def minTokensPending (rows : List (SamplingParams × ℤ)) : Bool :=
  rows.any fun row => decide (row.2 < row.1.minTokens)

/-- `params_allow_native_greedy`. -/
def paramsAllowNativeGreedy (rows : List (SamplingParams × ℤ)) : Bool :=
  !minTokensPending rows && rows.all fun row => row.1.nativeGreedy

/-- `params_allow_native_random`, with `allow_seed` off. -/
def paramsAllowNativeRandom (rows : List (SamplingParams × ℤ)) : Bool :=
  !rows.isEmpty && (!minTokensPending rows && rows.all fun row => row.1.nativeRandom)

/-- `_validate_greedy_sampling`, on one row. -/
def SamplingParams.greedySampling (sp : SamplingParams) (generatedTokens : ℤ) : Bool :=
  sp.nativeGreedy && decide (sp.minTokens ≤ generatedTokens)

theorem SamplingParams.greedySampling_greedy : SamplingParams.greedy.greedySampling 1 = true := by
  norm_num [greedySampling, nativeGreedy, SamplingParams.greedy, greedyTemperatureEps]

/-! ### Request state -/

/-- `RequestState`, without the fields of pooling, adapters and generators. -/
structure RequestState where
  tokenIds : List Token
  /-- Length of the original prompt within `tokenIds`. -/
  promptLen : ℕ
  samplingParams : SamplingParams
  generatedTokens : ℤ
  /-- Scheduler-assigned paged KV blocks, one list for each cache group. -/
  blockIds : List (List ℕ)
  /-- `None` for text-only requests. -/
  mropePositionDelta : Option ℤ
  /-- Scheduler-reconciled prefix-cache-hit boundary. -/
  numComputedTokens : ℕ

namespace RequestState

/-- The generated-token count the sampling paths use, `len(token_ids) - prompt_len`. -/
def outputLength (state : RequestState) : ℤ := state.tokenIds.length - state.promptLen

/-- `state.token_ids.extend(ids)` with `state.generated_tokens += len(ids)`. -/
def extend (state : RequestState) (ids : List Token) : RequestState :=
  { state with
    tokenIds := state.tokenIds ++ ids
    generatedTokens := state.generatedTokens + ids.length }

@[simp] theorem extend_tokenIds (state : RequestState) (ids : List Token) :
    (state.extend ids).tokenIds = state.tokenIds ++ ids := rfl

@[simp] theorem extend_promptLen (state : RequestState) (ids : List Token) :
    (state.extend ids).promptLen = state.promptLen := rfl

@[simp] theorem extend_samplingParams (state : RequestState) (ids : List Token) :
    (state.extend ids).samplingParams = state.samplingParams := rfl

@[simp] theorem extend_generatedTokens (state : RequestState) (ids : List Token) :
    (state.extend ids).generatedTokens = state.generatedTokens + ids.length := rfl

@[simp] theorem extend_blockIds (state : RequestState) (ids : List Token) :
    (state.extend ids).blockIds = state.blockIds := rfl

@[simp] theorem extend_mropePositionDelta (state : RequestState) (ids : List Token) :
    (state.extend ids).mropePositionDelta = state.mropePositionDelta := rfl

end RequestState

/-- The seq-len update of a decode row that appended `n` tokens, `state` being the state
after it: the tracked length advances by `n`. -/
def advanceSeqLen (seqLens : Dict ReqId ℕ) (reqId : ReqId) (state : RequestState) (n : ℕ) :
    Dict ReqId ℕ :=
  seqLens.set reqId (seqLens.getD reqId (state.tokenIds.length - n - 1) + n)

theorem get?_advanceSeqLen (seqLens : Dict ReqId ℕ) (reqId id : ReqId) (state : RequestState)
    (n : ℕ) : (advanceSeqLen seqLens reqId state n).get? id = if id = reqId then
      some (seqLens.getD reqId (state.tokenIds.length - n - 1) + n) else seqLens.get? id := by
  rw [advanceSeqLen, Dict.get?_set]

end VllmMetal
