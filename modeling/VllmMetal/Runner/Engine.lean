import VllmMetal.Runner.Pipeline
import VllmMetal.Lib.Run

/-!
# The engine around the runner

The engine runs a step after the other and consumes the outputs in order; the output of a step may
be consumed as late as the sampling of the next.  The same calls drive two runners here, one with
the pipeline and one without.

## Main definitions

* `Engine`, `Call` — the two runners, what they gave back, and what the engine may ask for.
* `Legal`, `Step` — the order in which it asks.
* `Engine.next`, `Engine.after` — the step and the run as functions.
-/

namespace VllmMetal
namespace PagedRunner

open SpecDecode Multimodal

variable {Row : Type}

/-! ### The engine -/

/-- The runner with the pipeline switched off. -/
def PipelineConfig.synchronous (cfg : PipelineConfig) : PipelineConfig :=
  { cfg with pipelineEnabled := false }

/-- What the engine asks for. -/
inductive Call (Row : Type) where
  | execute (world : StepWorld) (out : SchedulerOutput)
  | sample (grammarOutput : Option ((ℕ → Row) → ℕ → Row))
  /-- The output of the oldest step that was not given back yet. -/
  | getOutput

/-- The two runners, and the outputs. -/
structure Engine (Row : Type) where
  deferred : Runner Row
  plain : Runner Row
  /-- The output of each step of the synchronous runner. -/
  plainOutputs : List StepOutput
  /-- What the other runner gave back, by step. -/
  returned : List (ℕ × StepOutput)
  /-- The steps whose outputs are not given back yet, and their serials; the oldest first. -/
  inFlight : List (ℕ × ℕ)

/-- Before the first step. -/
def Engine.start (Row : Type) : Engine Row := ⟨.init Row, .init Row, [], [], []⟩

/-- The order of the calls: a step is sampled before the next one starts, a request is scheduled
once in a step, and at most two outputs are not consumed at a time. -/
def Legal (e : Engine Row) : Call Row → Prop
  | .execute _ out => e.plain.executeModelState = none ∧ out.scheduledReqIds.Nodup ∧
      ∀ step ∈ e.inFlight, e.plainOutputs.length < step.1 + 2
  | .sample grammarOutput => ∃ st, e.plain.executeModelState = some st ∧
      (grammarOutput.isSome → st.out.hasStructuredOutputRequests = true)
  | .getOutput => e.inFlight ≠ []

/-- The engine after both runners executed a step. -/
def Engine.executed (e : Engine Row) (deferred plain : Runner Row)
    (output plainOutput : Option StepOutput) : Engine Row :=
  { e with
    deferred := deferred
    plain := plain
    plainOutputs := e.plainOutputs ++ plainOutput.toList
    returned := e.returned ++ output.toList.map fun o => (e.plainOutputs.length, o) }

/-- The engine after both runners sampled a step. -/
def Engine.sampled (e : Engine Row) (deferred plain : Runner Row) (returned : Returned)
    (plainOutput : StepOutput) : Engine Row :=
  let step := e.plainOutputs.length
  match returned with
  | .output o =>
      { e with
        deferred := deferred, plain := plain
        plainOutputs := e.plainOutputs ++ [plainOutput]
        returned := e.returned ++ [(step, o)] }
  | .deferred serial =>
      { e with
        deferred := deferred, plain := plain
        plainOutputs := e.plainOutputs ++ [plainOutput]
        inFlight := e.inFlight ++ [(step, serial)] }

theorem Engine.plain_sampled (e : Engine Row) (deferred plain : Runner Row) (returned : Returned)
    (plainOutput : StepOutput) : (e.sampled deferred plain returned plainOutput).plain = plain := by
  cases returned <;> rfl

theorem Engine.plainOutputs_sampled (e : Engine Row) (deferred plain : Runner Row)
    (returned : Returned) (plainOutput : StepOutput) :
    (e.sampled deferred plain returned plainOutput).plainOutputs =
      e.plainOutputs ++ [plainOutput] := by
  cases returned <;> rfl

/-- A call that both runners answer. -/
inductive Step (target : Target Row) (cfg : PipelineConfig) : Engine Row → Call Row →
    Engine Row → Prop
  | execute {e : Engine Row} {world : StepWorld} {out : SchedulerOutput}
    {deferred plain : Runner Row}
      {output plainOutput : Option StepOutput} (hlegal : Legal e (.execute world out))
      (hdeferred : executeModel target cfg world out e.deferred = .ok (deferred, output))
      (hplain : executeModel target cfg.synchronous world out e.plain = .ok (plain, plainOutput)) :
      Step target cfg e (.execute world out) (e.executed deferred plain output plainOutput)
  | sample {e : Engine Row} {grammarOutput : Option ((ℕ → Row) → ℕ → Row)}
      {deferred plain : Runner Row} {returned : Returned} {plainOutput : StepOutput}
      (hlegal : Legal e (.sample grammarOutput))
      (hdeferred : sampleTokens target cfg grammarOutput e.deferred = .ok (deferred, returned))
      (hplain : sampleTokens target cfg.synchronous grammarOutput e.plain =
        .ok (plain, .output plainOutput)) :
      Step target cfg e (.sample grammarOutput) (e.sampled deferred plain returned plainOutput)
  | getOutput {e : Engine Row} {step serial : ℕ} {rest : List (ℕ × ℕ)} {deferred : Runner Row}
      {output : StepOutput} (hflight : e.inFlight = (step, serial) :: rest)
      (hdeferred : getOutput serial e.deferred = .ok (deferred, output)) :
      Step target cfg e .getOutput
        { e with
          deferred := deferred
          returned := e.returned ++ [(step, output)]
          inFlight := rest }

/-- The synchronous runner answers a call. -/
def PlainAnswers (target : Target Row) (cfg : PipelineConfig) (e : Engine Row) : Call Row → Prop
  | .execute world out =>
    ∃ answer, executeModel target cfg.synchronous world out e.plain = .ok answer
  | .sample grammarOutput =>
      ∃ answer, sampleTokens target cfg.synchronous grammarOutput e.plain = .ok answer
  | .getOutput => True

/-! ### Runs that are evaluated -/

instance (e : Engine Row) : DecidablePred (Legal e)
  | .execute _ out => inferInstanceAs (Decidable (_ ∧ out.scheduledReqIds.Nodup ∧ _))
  | .sample grammarOutput =>
      match h : e.plain.executeModelState with
      | none => isFalse fun ⟨_, hstate, _⟩ => by
          rw [h] at hstate
          cases hstate
      | some st =>
          if hg : grammarOutput.isSome → st.out.hasStructuredOutputRequests = true then
            isTrue ⟨st, h, hg⟩
          else isFalse fun ⟨st', hstate, hg'⟩ => by
            rw [h] at hstate
            exact hg (Option.some.inj hstate ▸ hg')
  | .getOutput => inferInstanceAs (Decidable (¬e.inFlight = []))

/-- The engine after a call, if the call is legal and both runners answer. -/
def Engine.next (target : Target Row) (cfg : PipelineConfig) (e : Engine Row) (call : Call Row) :
    Option (Engine Row) :=
  if Legal e call then
    match call with
    | .execute world out =>
        match executeModel target cfg world out e.deferred,
          executeModel target cfg.synchronous world out e.plain with
        | .ok (deferred, output), .ok (plain, plainOutput) =>
            some (e.executed deferred plain output plainOutput)
        | _, _ => none
    | .sample grammarOutput =>
        match sampleTokens target cfg grammarOutput e.deferred,
          sampleTokens target cfg.synchronous grammarOutput e.plain with
        | .ok (deferred, returned), .ok (plain, .output plainOutput) =>
            some (e.sampled deferred plain returned plainOutput)
        | _, _ => none
    | .getOutput =>
        match e.inFlight with
        | [] => none
        | (step, serial) :: rest =>
            match getOutput serial e.deferred with
            | .ok (deferred, output) => some { e with
                deferred := deferred
                returned := e.returned ++ [(step, output)]
                inFlight := rest }
            | .error _ => none
  else none

theorem Step.of_next {target : Target Row} {cfg : PipelineConfig} {e e' : Engine Row}
    {call : Call Row} (h : e.next target cfg call = some e') : Step target cfg e call e' := by
  unfold Engine.next at h
  split at h
  · next hlegal =>
    cases call with
    | execute world out =>
      simp only at h
      split at h
      · next hdeferred hplain =>
        cases h
        exact .execute hlegal hdeferred hplain
      · cases h
    | sample grammarOutput =>
      simp only at h
      split at h
      · next hdeferred hplain =>
        cases h
        exact .sample hlegal hdeferred hplain
      · cases h
    | getOutput =>
      simp only at h
      split at h
      · cases h
      · next hhead =>
        split at h
        · next hdeferred =>
          cases h
          exact .getOutput hhead hdeferred
        · cases h
  · cases h

/-- The engine after these calls. -/
def Engine.after (target : Target Row) (cfg : PipelineConfig) (e : Engine Row) :
    List (Call Row) → Option (Engine Row)
  | [] => some e
  | call :: calls => (e.next target cfg call).bind fun e => e.after target cfg calls

theorem Run.of_after {target : Target Row} {cfg : PipelineConfig} {e e' : Engine Row}
    {calls : List (Call Row)} (h : e.after target cfg calls = some e') :
    Run (Step target cfg) e calls e' := by
  induction calls generalizing e with
  | nil =>
    cases h
    exact .nil _
  | cons call calls ih =>
    obtain ⟨next, hnext, hrest⟩ := Option.bind_eq_some_iff.mp h
    exact .cons (.of_next hnext) (ih hrest)

end PagedRunner
end VllmMetal
