import Mathlib.Algebra.Order.Floor.Ring
import Mathlib.Algebra.Order.Ring.Rat
import Mathlib.Data.List.Chain
import Mathlib.Data.Rat.Floor
import Mathlib.Tactic.Linarith
import Mathlib.Tactic.NormNum

/-!
# Splitting long audio

Audio that is longer than one clip is cut at quiet points, each clip overlapping the one before.
The loop advances by what a clip adds past the overlap, and both are whole samples: where the two
truncate to the same count, it never ends.

## Main definitions

* `splitAudio` — the cutting loop, with fuel; `quietest` picks a window of a region.
* `prepareAudioChunks` — the validation in front of it.
* `SplitsInto` — what the clips keep to.

## Main results

* `splitLoop_spec` — where a clip is longer than the overlap, the loop ends with good clips.
* `splitLoop_stuck` — where it is not, no fuel is enough.
* `split_audio_iff` — the two together, for every accepted configuration.
-/

namespace VllmMetal
namespace Stt

/-- `SAMPLE_RATE`. -/
def sampleRate : ℕ := 16000

/-- `N_SAMPLES`, of `CHUNK_LENGTH` seconds. -/
def nSamples : ℕ := 30 * sampleRate

/-- `_SPLIT_SEARCH_MULTIPLIER`. -/
def splitSearchMultiplier : ℕ := 4

/-- A clip: its samples and its start in seconds. -/
abbrev Chunk := List ℚ × ℚ

/-! ### The loop -/

/-- `_find_split_point`; `quietest` is the index that `argmin` finds among the energies of the
windows of a region. -/
def findSplitPoint (quietest : List ℚ → ℕ → ℕ) (audio : List ℚ) (center windowSize : ℕ) : ℕ :=
  let searchRadius := windowSize * splitSearchMultiplier
  let lo := center - searchRadius
  let hi := min audio.length (center + searchRadius)
  let region := (audio.drop lo).take (hi - lo)
  lo + quietest region windowSize * windowSize

/-- `int(seconds * sample_rate)`, of a length that is not negative. -/
def samplesOf (seconds : ℚ) (rate : ℕ) : ℕ := ⌊seconds * rate⌋₊

/-- `audio[start:stop]` and its start in seconds. -/
def chunkOf (audio : List ℚ) (rate : ℕ) (span : ℕ × ℕ) : Chunk :=
  ((audio.drop span.1).take (span.2 - span.1), (span.1 : ℚ) / rate)

section Loop

variable (quietest : List ℚ → ℕ → ℕ) (audio : List ℚ)
  (maxSamples overlapSamples windowSize rate : ℕ)

/-- The split of a clip that starts at `pos`. -/
def splitOf (pos : ℕ) : ℕ :=
  let stop := pos + maxSamples
  let split := findSplitPoint quietest audio stop windowSize
  if split ≤ pos + overlapSamples then stop else min split stop

/-- The `while` loop of `split_audio`; `none` is a loop that the fuel does not end. -/
def splitLoop : ℕ → ℕ → List Chunk → Option (List Chunk)
  | 0, _, _ => none
  | fuel + 1, pos, chunks =>
    if pos < audio.length then
      let stop := pos + maxSamples
      if audio.length ≤ stop then some (chunks ++ [chunkOf audio rate (pos, audio.length)])
      else
        let split := splitOf quietest audio maxSamples overlapSamples windowSize pos
        splitLoop fuel (split - overlapSamples) (chunks ++ [chunkOf audio rate (pos, split)])
    else some chunks

end Loop

/-- `split_audio`. -/
def splitAudio (quietest : List ℚ → ℕ → ℕ) (fuel : ℕ) (audio : List ℚ) (maxClipS overlapS : ℚ)
    (windowSize rate : ℕ) : Option (List Chunk) :=
  let maxSamples := samplesOf maxClipS rate
  if audio.length ≤ maxSamples then some [(audio, 0)]
  else splitLoop quietest audio maxSamples (samplesOf overlapS rate) windowSize rate fuel 0 []

/-- The fields of the configuration that the validation reads. -/
structure ChunkConfig where
  maxAudioClipS : Option ℚ
  minEnergySplitWindowSize : Option ℤ
  overlapChunkSecond : ℚ

/-- The `ValueError`s of `_prepare_audio_chunks`. -/
inductive ChunkError where
  /-- "Audio chunking is disabled, but input exceeds Whisper's … encoder window." -/
  | disabled
  /-- "max_audio_clip_s must be > 0". -/
  | maxClipPositive (maxClipS : ℚ)
  /-- "max_audio_clip_s=… exceeds Whisper's … encoder window." -/
  | maxClipWindow (maxClipS : ℚ)
  /-- "min_energy_split_window_size must be > 0". -/
  | windowSize (windowSize : ℤ)
  /-- "overlap_chunk_second must be >= 0". -/
  | overlapNegative (overlapS : ℚ)
  /-- "overlap_chunk_second=… must be less than max_audio_clip_s=… to ensure forward progress". -/
  | overlapProgress (overlapS maxClipS : ℚ)
  deriving DecidableEq

/-- `_prepare_audio_chunks`. -/
def prepareAudioChunks (quietest : List ℚ → ℕ → ℕ) (fuel : ℕ) (config : ChunkConfig)
    (audio : List ℚ) : Except ChunkError (Option (List Chunk)) :=
  match config.maxAudioClipS, config.minEnergySplitWindowSize with
  | some maxClipS, some windowSize =>
    let overlapS := config.overlapChunkSecond
    if maxClipS ≤ 0 then .error (.maxClipPositive maxClipS)
    else if 30 < maxClipS then .error (.maxClipWindow maxClipS)
    else if windowSize ≤ 0 then .error (.windowSize windowSize)
    else if overlapS < 0 then .error (.overlapNegative overlapS)
    else if maxClipS ≤ overlapS then .error (.overlapProgress overlapS maxClipS)
    else .ok (splitAudio quietest fuel audio maxClipS overlapS windowSize.toNat sampleRate)
  | _, _ => if nSamples < audio.length then .error .disabled else .ok (some [(audio, 0)])

/-! ### Good clips -/

/-- The spans from `pos` on: each ends within a clip and past the overlap, the next starts the
overlap before that end, and the last ends with the audio. -/
inductive Spans (n maxSamples overlapSamples : ℕ) : ℕ → List (ℕ × ℕ) → Prop
  | last {pos : ℕ} : pos < n → n ≤ pos + maxSamples →
    Spans n maxSamples overlapSamples pos [(pos, n)]
  | cons {pos stop : ℕ} {spans : List (ℕ × ℕ)} : pos + overlapSamples < stop →
      stop ≤ pos + maxSamples → stop < n →
      Spans n maxSamples overlapSamples (stop - overlapSamples) spans →
      Spans n maxSamples overlapSamples pos ((pos, stop) :: spans)

section Clips

variable {n maxSamples overlapSamples pos : ℕ} {spans : List (ℕ × ℕ)}

/-- The first span starts where the spans start, and reaches as far as the overlap and the audio. -/
theorem Spans.head (h : Spans n maxSamples overlapSamples pos spans) :
    ∃ stop rest, spans = (pos, stop) :: rest ∧ pos < stop ∧
      (stop = n ∨ pos + overlapSamples < stop) := by
  cases h with
  | last hpos _ => exact ⟨n, [], rfl, hpos, Or.inl rfl⟩
  | cons hstop _ _ _ => exact ⟨_, _, rfl, by omega, Or.inr hstop⟩

theorem Spans.bounds (h : Spans n maxSamples overlapSamples pos spans) :
    ∀ span ∈ spans, pos ≤ span.1 ∧ span.1 < span.2 ∧ span.2 ≤ n ∧
      span.2 - span.1 ≤ maxSamples := by
  induction h with
  | last hpos hmax =>
    intro span hspan
    rw [List.mem_singleton] at hspan
    subst hspan
    exact ⟨le_refl _, hpos, le_refl _, by omega⟩
  | cons hstop hmax hlt _ ih =>
    intro span hspan
    rcases List.mem_cons.mp hspan with rfl | hspan
    · exact ⟨le_refl _, by omega, by omega, by omega⟩
    · have hrest := ih span hspan
      exact ⟨by omega, hrest.2⟩

/-- The starts increase, and each span starts the overlap before the end of the one before. -/
theorem Spans.chain (h : Spans n maxSamples overlapSamples pos spans) :
    spans.IsChain fun a b => a.1 < b.1 ∧ b.1 + overlapSamples = a.2 ∧ a.2 < b.2 := by
  induction h with
  | last _ _ => exact List.IsChain.singleton _
  | cons hstop hmax hlt hrest ih =>
    obtain ⟨stop', rest, rfl, hlt', hend⟩ := hrest.head
    refine List.isChain_cons_cons.mpr ⟨⟨?_, ?_, ?_⟩, ih⟩
    · show _ < _ - overlapSamples
      omega
    · show _ - overlapSamples + overlapSamples = _
      omega
    · show _ < stop'
      omega

/-- Every sample from the first start on is in a span. -/
theorem Spans.cover (h : Spans n maxSamples overlapSamples pos spans) {i : ℕ} (hpos : pos ≤ i)
    (hi : i < n) : ∃ span ∈ spans, span.1 ≤ i ∧ i < span.2 := by
  induction h with
  | last _ _ => exact ⟨_, List.mem_singleton_self _, hpos, hi⟩
  | @cons pos stop spans hstop hmax hlt _ ih =>
    rcases Nat.lt_or_ge i stop with hin | hout
    · exact ⟨_, List.mem_cons_self, hpos, hin⟩
    · obtain ⟨span, hspan, hcover⟩ := ih (by omega)
      exact ⟨span, List.mem_cons_of_mem _ hspan, hcover⟩

end Clips

/-- The clips of an audio: their starts increase, each but that of an empty audio has samples, and
at most `maxSamples` of them, each starts `overlapSamples` before the end of the one before, and
every sample is in one. -/
structure SplitsInto (audio : List ℚ) (maxSamples overlapSamples rate : ℕ) (chunks : List Chunk)
    (spans : List (ℕ × ℕ)) : Prop where
  chunks_eq : chunks = spans.map (chunkOf audio rate)
  bounds : ∀ span ∈ spans, span.2 ≤ audio.length ∧ span.2 - span.1 ≤ maxSamples
  nonempty : audio ≠ [] → ∀ span ∈ spans, span.1 < span.2
  increasing : (spans.map Prod.fst).Pairwise (· < ·)
  overlap : spans.IsChain fun a b => b.1 + overlapSamples = a.2 ∧ a.2 < b.2
  cover : ∀ i, i < audio.length → ∃ span ∈ spans, span.1 ≤ i ∧ i < span.2

/-! ### The loop ends, or does not -/

section Loop

variable (quietest : List ℚ → ℕ → ℕ) (audio : List ℚ)
  (maxSamples overlapSamples windowSize rate : ℕ)

/-- Wherever the quiet window is, the split is past the overlap and within the clip. -/
theorem splitOf_bounds (pos : ℕ) (h : overlapSamples < maxSamples) :
    pos + overlapSamples < splitOf quietest audio maxSamples overlapSamples windowSize pos ∧
      splitOf quietest audio maxSamples overlapSamples windowSize pos ≤ pos + maxSamples := by
  unfold splitOf
  dsimp only
  split_ifs <;> omega

/-- **With a clip longer than the overlap, the loop ends**, and its clips are good. -/
theorem splitLoop_spec (h : overlapSamples < maxSamples) {pos : ℕ} (hpos : pos < audio.length)
    (chunks : List Chunk) :
    ∃ fuel spans, splitLoop quietest audio maxSamples overlapSamples windowSize rate fuel pos chunks
        = some (chunks ++ spans.map (chunkOf audio rate)) ∧
      Spans audio.length maxSamples overlapSamples pos spans := by
  -- on the samples that are left
  induction hleft : audio.length - pos using Nat.strong_induction_on generalizing pos chunks with
  | _ left ih =>
    by_cases hlast : audio.length ≤ pos + maxSamples
    · refine ⟨1, [(pos, audio.length)], ?_, Spans.last hpos hlast⟩
      rw [splitLoop, if_pos hpos]
      exact if_pos hlast
    · obtain ⟨hlo, hhi⟩ := splitOf_bounds quietest audio maxSamples overlapSamples windowSize
        pos h
      set split := splitOf quietest audio maxSamples overlapSamples windowSize pos with hsplit
      obtain ⟨fuel, spans, hloop, hspans⟩ := ih (audio.length - (split - overlapSamples))
        (by omega) (show split - overlapSamples < audio.length by omega)
        (chunks ++ [chunkOf audio rate (pos, split)]) rfl
      refine ⟨fuel + 1, (pos, split) :: spans, ?_, Spans.cons hlo hhi (by omega) hspans⟩
      rw [splitLoop, if_pos hpos]
      dsimp only
      rw [if_neg hlast, ← hsplit, hloop, List.append_assoc]
      rfl

/-- **With a clip as long as the overlap, no fuel is enough.** -/
theorem splitLoop_stuck (h : maxSamples < audio.length) (fuel : ℕ) (chunks : List Chunk) :
    splitLoop quietest audio maxSamples maxSamples windowSize rate fuel 0 chunks = none := by
  induction fuel generalizing chunks with
  | zero => rfl
  | succ fuel ih =>
    have hsplit : splitOf quietest audio maxSamples maxSamples windowSize 0 = maxSamples := by
      unfold splitOf
      dsimp only
      split_ifs <;> omega
    rw [splitLoop, if_pos (by omega)]
    dsimp only
    rw [if_neg (by omega), hsplit, Nat.sub_self]
    exact ih _

end Loop

/-! ### Accepted configurations -/

theorem samplesOf_mono {a b : ℚ} (h : a ≤ b) (rate : ℕ) : samplesOf a rate ≤ samplesOf b rate :=
  Nat.floor_le_floor (mul_le_mul_of_nonneg_right h (Nat.cast_nonneg rate))

/-- **The split ends in good clips exactly where the audio fits one clip or a clip has more samples
than the overlap.** -/
theorem split_audio_iff (quietest : List ℚ → ℕ → ℕ) (audio : List ℚ) {maxClipS overlapS : ℚ}
    {windowSize : ℤ} (hoverlap : 0 ≤ overlapS) (hless : overlapS < maxClipS) (hmax : maxClipS ≤ 30)
    (hwindow : 0 < windowSize) :
    (∃ fuel chunks spans, prepareAudioChunks quietest fuel
        ⟨some maxClipS, some windowSize, overlapS⟩ audio = .ok (some chunks) ∧
      SplitsInto audio (samplesOf maxClipS sampleRate) (samplesOf overlapS sampleRate) sampleRate
        chunks spans) ↔
    audio.length ≤ samplesOf maxClipS sampleRate ∨
      samplesOf overlapS sampleRate < samplesOf maxClipS sampleRate := by
  -- the arguments pass the checks of the caller
  have haccept : ∀ fuel, prepareAudioChunks quietest fuel
      ⟨some maxClipS, some windowSize, overlapS⟩ audio =
        .ok (splitAudio quietest fuel audio maxClipS
        overlapS windowSize.toNat sampleRate) := by
    intro fuel
    unfold prepareAudioChunks
    dsimp only
    rw [if_neg (by linarith), if_neg (by linarith), if_neg (by omega), if_neg (by linarith),
      if_neg (by linarith)]
  simp only [haccept, Except.ok.injEq, splitAudio]
  constructor
  · rintro ⟨fuel, chunks, spans, hchunks, -⟩
    -- with no more samples in a clip than in the overlap, the loop stays where it is
    by_contra hnot
    rw [not_or, not_le, not_lt] at hnot
    have hsame := le_antisymm (samplesOf_mono hless.le sampleRate) hnot.2
    rw [if_neg (not_le.mpr hnot.1), hsame, splitLoop_stuck _ _ _ _ _ hnot.1] at hchunks
    cases hchunks
  · intro hor
    by_cases hshort : audio.length ≤ samplesOf maxClipS sampleRate
    · -- the audio is its own clip
      refine ⟨0, _, [(0, audio.length)], if_pos hshort, ?_⟩
      constructor
      case chunks_eq => simp [chunkOf]
      case bounds =>
        intro span hspan
        rw [List.mem_singleton] at hspan
        subst hspan
        exact ⟨le_refl _, hshort⟩
      case nonempty =>
        intro hne span hspan
        rw [List.mem_singleton] at hspan
        subst hspan
        exact List.length_pos_of_ne_nil hne
      case increasing => exact List.pairwise_singleton _ _
      case overlap => exact List.IsChain.singleton _
      case cover => exact fun i hi => ⟨_, List.mem_singleton_self _, Nat.zero_le i, hi⟩
    -- the loop runs and ends
    · have hlonger := hor.resolve_left hshort
      obtain ⟨fuel, spans, hloop, hspans⟩ := splitLoop_spec quietest audio
        (samplesOf maxClipS sampleRate) (samplesOf overlapS sampleRate) windowSize.toNat sampleRate
        hlonger (show 0 < audio.length by omega) []
      refine ⟨fuel, _, spans, (if_neg hshort).trans hloop, ?_⟩
      have hchain := hspans.chain
      constructor
      case chunks_eq => rfl
      case bounds => exact fun span hspan => (hspans.bounds span hspan).2.2
      case nonempty => exact fun _ span hspan => (hspans.bounds span hspan).2.1
      case increasing =>
        rw [← List.isChain_iff_pairwise, List.isChain_map]
        exact hchain.imp fun _ _ h => h.1
      case overlap => exact hchain.imp fun _ _ h => h.2
      case cover => exact fun i hi => hspans.cover (Nat.zero_le i) hi

/-- Ten samples in clips of four that overlap by one. -/
theorem split_audio_iff_clips :
    samplesOf (1 / 4000) sampleRate < (List.replicate 10 (0 : ℚ)).length ∧
    ∃ fuel chunks spans, prepareAudioChunks (fun _ _ => 0) fuel
        ⟨some (1 / 4000), some 1, 1 / 16000⟩ (List.replicate 10 0) = .ok (some chunks) ∧
      SplitsInto (List.replicate 10 0) (samplesOf (1 / 4000) sampleRate)
        (samplesOf (1 / 16000) sampleRate) sampleRate chunks spans := by
  have hclip : samplesOf (1 / 4000) sampleRate = 4 := by
    rw [samplesOf, sampleRate, Nat.floor_eq_iff (by norm_num)]
    norm_num
  have hoverlap : samplesOf (1 / 16000) sampleRate = 1 := by
    rw [samplesOf, sampleRate, Nat.floor_eq_iff (by norm_num)]
    norm_num
  refine ⟨by rw [hclip]; decide, ?_⟩
  refine (split_audio_iff (fun _ _ => 0) (List.replicate 10 0) (by norm_num) (by norm_num)
    (by norm_num) (by norm_num)).mpr (Or.inr ?_)
  rw [hclip, hoverlap]
  decide

/-- A clip of a hundred-thousandth of a second more than its overlap has as many samples, so an
audio one sample longer is split forever. -/
theorem split_audio_forever :
    ¬ ∀ (quietest : List ℚ → ℕ → ℕ) (audio : List ℚ) (maxClipS overlapS : ℚ) (windowSize : ℤ),
      0 ≤ overlapS → overlapS < maxClipS → maxClipS ≤ 30 → 0 < windowSize →
      ∃ fuel chunks spans, prepareAudioChunks quietest fuel
          ⟨some maxClipS, some windowSize, overlapS⟩ audio = .ok (some chunks) ∧
        SplitsInto audio (samplesOf maxClipS sampleRate) (samplesOf overlapS sampleRate) sampleRate
          chunks spans := by
  intro h
  have hmax : samplesOf (100001 / 100000) sampleRate = 16000 := by
    rw [samplesOf, sampleRate, Nat.floor_eq_iff (by norm_num)]
    norm_num
  have hoverlap : samplesOf 1 sampleRate = 16000 := by
    rw [samplesOf, sampleRate, Nat.floor_eq_iff (by norm_num)]
    norm_num
  obtain ⟨fuel, chunks, spans, hchunks, -⟩ := h (fun _ _ => 0) (List.replicate 16001 0)
    (100001 / 100000) 1 1600 (by norm_num) (by norm_num) (by norm_num) (by norm_num)
  have hrun : prepareAudioChunks (fun _ _ => 0) fuel ⟨some (100001 / 100000), some 1600, 1⟩
      (List.replicate 16001 0) = .ok none := by
    unfold prepareAudioChunks splitAudio
    dsimp only
    rw [if_neg (by norm_num), if_neg (by norm_num), if_neg (by norm_num), if_neg (by norm_num),
      if_neg (by norm_num), hmax, hoverlap, List.length_replicate, if_neg (by norm_num),
      splitLoop_stuck _ _ _ _ _ (by rw [List.length_replicate]; norm_num)]
  rw [hrun] at hchunks
  cases hchunks

end Stt
end VllmMetal
