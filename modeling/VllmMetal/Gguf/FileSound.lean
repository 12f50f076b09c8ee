import VllmMetal.Gguf.AffineSound
import VllmMetal.Gguf.PartitionSound

/-!
# From the bytes of a file to its products

The loader repacks or keeps the blocks of a quantized tensor, puts its rows and columns back into
the order of the model and installs it.  What is installed multiplies with the weight that the
block formats give the bytes of the file.

## Main definitions

* `fileLoader` — the loader, with the repack of the affine types.
* `formatRow` — a row of a payload, by its block format.
* `FormatBlocks`, `FileStores` — a tensor of a file that stores a parameter.

## Main results

* `quantTensor_formatRows` — a quantized tensor decodes to the rows of its format.
* `file_computes_weights` — a file.
-/

namespace VllmMetal
namespace Gguf

open StoredLayout NdArray GGUFModelLoader

variable {K : Type} [CommRing K]

/-- The loader of a file. -/
def fileLoader (books : Codebooks) (half : ℕ → K) (log toTargetDtype : K → K)
    (castPredicate : LivePath → Bool) : GGUFModelLoader K where
  affineFromRawBlocks := fun blockData logicalShape qtype =>
    liftError (fun _ => AffineError.rawBlocks qtype logicalShape)
      (GGUFMLXQuantizedTensor.fromRawBlocks books half blockData logicalShape qtype)
  half := half
  log := log
  toTargetDtype := toTargetDtype
  castPredicate := castPredicate

/-- The weights of a block. -/
def QuantType.blockElems : QuantType → ℕ
  | .affine qtype => qtype.blockElems
  | .raw _ => 256

/-- The bytes of a block. -/
def QuantType.blockBytes : QuantType → ℕ
  | .affine qtype => qtype.blockBytes
  | .raw qtype => qtype.blockBytes

/-- Row `r` of a payload of `n` blocks a row, by its format. -/
def formatRow (books : Codebooks) (half : ℕ → K) (qtype : QuantType) (blockData : List UInt8)
    (n r : ℕ) : List K :=
  match qtype with
  | .affine qtype => fileRow books half qtype blockData n r
  | .raw qtype => decodeRow qtype half
      ((blockData.drop (r * (n * qtype.blockBytes))).take (n * qtype.blockBytes))

/-- The halves of row `r` of a payload fit, where the repack multiplies them. -/
def QuantType.RowFits (qtype : QuantType) (blockData : List UInt8) (n r : ℕ) : Prop :=
  match qtype with
  | .affine qtype => Gguf.RowFits qtype blockData n r
  | .raw _ => True

/-! ### A tensor -/

/-- Raw blocks of a positive shape are kept. -/
theorem rawFromRawBlocks_ok {qtype : RawKernelType} {blockData : List UInt8} {outFeatures n : ℕ}
    (hout : 0 < outFeatures) (hn : 0 < n)
    (hsize : blockData.length = outFeatures * n * qtype.blockBytes) :
    ∃ t, GGUFRawBlockTensor.fromRawBlocks blockData [(outFeatures : ℤ), ((n * 256 : ℕ) : ℤ)] qtype =
        .ok t ∧
      t.qweightType = qtype ∧
      t.qweight = payloadRows blockData outFeatures (n * qtype.blockBytes) ∧
      t.rowBytes = n * qtype.blockBytes := by
  have hpositive : ¬ ((outFeatures : ℤ) < 1 ∨ ((n * 256 : ℕ) : ℤ) < 1) := by omega
  have hwhole : n * 256 / 256 = n := Nat.mul_div_cancel _ (by decide)
  have hrow : qtype.blockBytes ≤ n * qtype.blockBytes := Nat.le_mul_of_pos_left _ hn
  have hpos : 0 < n * qtype.blockBytes := Nat.mul_pos hn qtype.blockBytes_pos
  have hcount : blockData.length / (n * qtype.blockBytes) = outFeatures := by
    rw [hsize, Nat.mul_assoc, Nat.mul_div_cancel _ hpos]
  rw [GGUFRawBlockTensor.fromRawBlocks, if_neg hpositive]
  simp only [Int.toNat_natCast, Nat.mul_mod_left, ne_eq, not_true_eq_false, if_false, hwhole,
    hsize]
  rw [dif_pos hrow]
  refine ⟨_, rfl, rfl, ?_, rfl⟩
  show reshapeRows (n * qtype.blockBytes) blockData = _
  rw [payloadRows, reshapeRows, hcount]

/-- **A quantized tensor decodes to the rows of its format.** -/
theorem quantTensor_formatRows (books : Codebooks) {half : ℕ → K} (hhalf : ReadsHalves half)
    (log toTargetDtype : K → K) (castPredicate : LivePath → Bool) {qtype : QuantType}
    {blockData : List UInt8} {outFeatures n : ℕ} (hout : 0 < outFeatures) (hn : 0 < n)
    (hsize : blockData.length = outFeatures * n * qtype.blockBytes)
    (hfits : ∀ r < outFeatures, qtype.RowFits blockData n r) :
    ∃ qt, (fileLoader books half log toTargetDtype castPredicate).quantTensor
        [outFeatures, n * qtype.blockElems] qtype blockData = .ok qt ∧
      qt.outFeatures = outFeatures ∧ qt.inFeatures = n * qtype.blockElems ∧
      qt.rows half = (List.range outFeatures).map (formatRow books half qtype blockData n) := by
  cases qtype with
  | affine qtype =>
    have haccepts : Accepts qtype blockData
        [(outFeatures : ℤ), ((n * qtype.blockElems : ℕ) : ℤ)] outFeatures n :=
      ⟨rfl, hout, hn, hsize⟩
    obtain ⟨t, hok, hpacked⟩ := fromRawBlocks_ok books half haccepts
    obtain ⟨houtFeatures, hinFeatures, hrows⟩ := hpacked.dequantizeIds hsize
    refine ⟨.affine t, ?_, houtFeatures, hinFeatures, ?_⟩
    · simp only [GGUFModelLoader.quantTensor, fileLoader, QuantType.blockElems, List.map_cons,
        List.map_nil, hok]
      rfl
    · show t.dequantizeIds (List.range t.outFeatures) = _
      rw [houtFeatures, hrows hhalf _ fun r hr =>
        ⟨List.mem_range.mp hr, hfits r (List.mem_range.mp hr)⟩]
      rfl
  | raw qtype =>
    obtain ⟨t, hok, htype, hqweight, hrowBytes⟩ := rawFromRawBlocks_ok hout hn hsize
    have hcount : t.outFeatures = outFeatures := by
      rw [GGUFRawBlockTensor.outFeatures, hqweight, payloadRows, List.length_map, List.length_range]
    have hwidth : t.inFeatures = n * 256 := by
      rw [GGUFRawBlockTensor.inFeatures, GGUFRawBlockTensor.blocksPerRow, hrowBytes, htype,
        Nat.mul_div_cancel _ qtype.blockBytes_pos]
    refine ⟨.raw t, ?_, hcount, hwidth, ?_⟩
    · simp only [GGUFModelLoader.quantTensor, QuantType.blockElems, List.map_cons, List.map_nil,
        hok]
      rfl
    · rw [GGUFQuantTensor.rows_raw, GGUFRawBlockTensor.dequantizeRows_eq t half t.row_length,
        hqweight, payloadRows, List.map_map, htype]
      rfl

/-! ### A file -/

section File

variable (books : Codebooks) (half : ℕ → K) (exp : K → K) (model : Model) (arch : Arch)
  (numHiddenLayers : ℕ) (value : LivePath → NdArray K)

/-- The format gives the bytes of a tensor a weight, stored. -/
structure FormatBlocks (tensor : FileTensor K) (path : LivePath) (qtype : QuantType)
    (blockData : List UInt8) (outFeatures n : ℕ) : Prop where
  weight : path.paramName = "weight"
  out : 0 < outFeatures
  blocks : 0 < n
  logical : tensor.logicalShape = [outFeatures, n * qtype.blockElems]
  size : blockData.length = outFeatures * n * qtype.blockBytes
  halves : ∀ r < outFeatures, qtype.RowFits blockData n r
  shape : (value path).shape = [outFeatures, n * qtype.blockElems]
  entries : ∀ r < outFeatures, ∀ c < n * qtype.blockElems,
    (((List.range outFeatures).map (formatRow books half qtype blockData n)).getD
        (storedAt (rowLayout model arch numHiddenLayers tensor.name) r) []).getD
      (storedAt (columnLayout model arch tensor.name) c) 0 = (value path).entry [r, c]

/-- A tensor of a file that stores a parameter of the model. -/
structure FileStores (tensor : FileTensor K) (path : LivePath) : Prop where
  hasModule : model.hasModule path.modulePath = true
  shape : model.shape path = some (value path).shape
  rows : FitsAxis (rowLayout model arch numHiddenLayers tensor.name) (value path).shape 0
  columns : FitsAxis (columnLayout model arch tensor.name) (value path).shape 1
  bias : path.paramName = "bias" → (value path).shape.length = 1
  plain : ∀ data, tensor.payload = .plain data →
    StoredNumbers exp model arch numHiddenLayers value tensor path data
  quant : ∀ qtype blockData, tensor.payload = .quant qtype blockData → ∃ outFeatures n,
    FormatBlocks books half model arch numHiddenLayers value tensor path qtype blockData
      outFeatures n

variable {books half exp model arch numHiddenLayers value} {log toTargetDtype : K → K}
  {castPredicate : LivePath → Bool}

/-- What a file stores is what the loader decodes. -/
theorem FileStores.storedAs (hhalf : ReadsHalves half) {tensor : FileTensor K} {path : LivePath}
    (h : FileStores books half exp model arch numHiddenLayers value tensor path) :
    StoredAs (fileLoader books half log toTargetDtype castPredicate) exp model arch numHiddenLayers
      value tensor path := by
  refine ⟨h.hasModule, h.shape, h.rows, h.columns, h.bias, ?_⟩
  cases hpayload : tensor.payload with
  | plain data => exact h.plain data hpayload
  | quant qtype blockData =>
    obtain ⟨outFeatures, n, hblocks⟩ := h.quant qtype blockData hpayload
    obtain ⟨qt, hok, hout, hin, hrows⟩ := quantTensor_formatRows books hhalf log toTargetDtype
      castPredicate hblocks.out hblocks.blocks hblocks.size hblocks.halves
    rw [← hblocks.logical] at hok
    refine ⟨hblocks.weight, qt, hok, ?_, ?_⟩
    · rw [hblocks.shape, hout, hin]
    · intro r hr c hc
      rw [hout] at hr
      rw [hin] at hc
      show ((qt.rows half).getD _ []).getD _ 0 = _
      rw [hrows]
      exact hblocks.entries r hr c hc

/-- **From the bytes of a file to its products.**  Where the formats give the bytes of every tensor
a parameter of the model in the order of the file, and the repacked biases are finite halves, the
file loads, every installed weight multiplies
with and looks up the rows of the model's weight, and every plain value and bias is the model's. -/
theorem file_computes_weights (hhalf : ReadsHalves half) (hlog : ∀ x, log (exp x) = x)
    (hmodel : model.HeadsValid arch) (tied : Bool)
    (translationMap : Dict TensorName (Option LivePath))
    (tensors : List (FileTensor K))
    (hfile : ∀ tensor ∈ tensors, (translationMap.get? tensor.name).isSome ∧
      ∀ path, Read translationMap tied tensor path →
        FileStores books half exp model arch numHiddenLayers value tensor path) :
    ∃ adapter parts,
      GGUFModelAdapter.fromModel model arch numHiddenLayers translationMap = .ok adapter ∧
      (fileLoader books half log toTargetDtype castPredicate).partition model tied adapter tensors =
        .ok parts ∧
      Undone (fileLoader books half log toTargetDtype castPredicate) value parts ∧
      ∀ tensor ∈ tensors, ∀ path, Read translationMap tied tensor path →
        Covers parts tensor path := by
  obtain ⟨adapter, hadapter, htranslate, hrows, hcolumns, htransforms⟩ :=
    fromModel_ok hmodel numHiddenLayers translationMap
  have htables : Tables model arch numHiddenLayers adapter := ⟨hrows, hcolumns, htransforms⟩
  have hempty : Undone (fileLoader books half log toTargetDtype castPredicate) value
      (⟨∅, ∅, ∅⟩ : PartitionedTensors K) :=
    ⟨fun _ _ h => by simp at h, fun _ _ h => by simp at h, fun _ _ h => by simp at h⟩
  obtain ⟨parts, hok, hundone, -, hcovers⟩ :=
    foldlM_placeTensor_ok hlog hmodel htables htranslate
      (fun tensor ht => ⟨(hfile tensor ht).1, fun path hread =>
        ((hfile tensor ht).2 path hread).storedAs hhalf⟩) hempty
  obtain ⟨hmoved, hgrows⟩ := movePlainBiases_spec hundone
  refine ⟨adapter, movePlainBiases parts, hadapter, ?_, hmoved, fun tensor ht path hread =>
    (hcovers tensor ht path hread).mono hgrows⟩
  rw [GGUFModelLoader.partition, hok]
  rfl

end File

/-- A head of four rows: `q` is plain, `k` is four blocks of `Q8_0` with the scale one. -/
theorem file_computes_weights_one_head :
    let model : Model :=
      { numAttentionHeads := 1
        numKeyValueHeads := 1
        qRows := 4
        kRows := 4
        layers := [none]
        hasModule := fun _ => true
        shape := fun path => if path = ⟨"q_proj", "weight"⟩ then some [4, 1] else some [4, 32] }
    let loader := fileLoader iq4Codebooks halfValue id id fun _ => true
    let translationMap := ofEntries
      [(.blk 0 "attn_q.weight", some ⟨"q_proj", "weight"⟩),
        (.blk 0 "attn_k.weight", some ⟨"k_proj", "weight"⟩)]
    let blockData : List UInt8 :=
      [10, 11, 12, 13].flatMap fun q => [0x00, 0x3C] ++ List.replicate 32 q
    ∃ adapter parts, GGUFModelAdapter.fromModel model .llama 1 translationMap = .ok adapter ∧
      loader.partition model false adapter
          [⟨.blk 0 "attn_q.weight", [1, 4], .plain [0, 2, 1, 3]⟩,
            ⟨.blk 0 "attn_k.weight", [32, 4], .quant (.affine .q8_0) blockData⟩] = .ok parts ∧
        ∀ qt, parts.quant.get? "k_proj" = some qt →
          qt.embedding halfValue [1] = [List.replicate 32 12] := by
  intro model loader translationMap blockData
  let value : LivePath → NdArray ℚ := fun path =>
    if path = ⟨"q_proj", "weight"⟩ then ⟨[4, 1], fun i => i.getD 0 0⟩
    else ⟨[4, 32], fun i => [10, 12, 11, 13].getD (i.getD 0 0) 0⟩
  have hmodel : model.HeadsValid .llama :=
    ⟨fun _ => ⟨4, 4, rfl, rfl, ⟨by decide, by decide⟩, ⟨by decide, by decide⟩⟩, fun h => by cases h⟩
  have hq : translationMap.get? (.blk 0 "attn_q.weight") = some (some ⟨"q_proj", "weight"⟩) := by
    decide
  have hk : translationMap.get? (.blk 0 "attn_k.weight") = some (some ⟨"k_proj", "weight"⟩) := by
    decide
  have hrows : (List.range 4).map (formatRow iq4Codebooks halfValue (.affine .q8_0) blockData 1) =
      [10, 11, 12, 13].map fun v => List.replicate 32 v := by
    decide +kernel
  -- the two tensors, entry by entry
  obtain ⟨adapter, parts, hadapter, hparts, hundone, -⟩ :=
    @file_computes_weights ℚ _ iq4Codebooks halfValue id model .llama 1 value id id (fun _ => true)
      readsHalves_halfValue (fun _ => rfl) hmodel false translationMap
      [⟨.blk 0 "attn_q.weight", [1, 4], .plain [0, 2, 1, 3]⟩,
        ⟨.blk 0 "attn_k.weight", [32, 4], .quant (.affine .q8_0) blockData⟩] (by
      intro tensor ht
      simp only [List.mem_cons, List.not_mem_nil, or_false] at ht
      rcases ht with rfl | rfl
      · refine ⟨by simp [hq], fun path hread => ?_⟩
        obtain rfl : _ = path := by simpa [hq] using hread.1
        refine ⟨rfl, by decide, fun l hl => ?_, fun l hl => (by cases hl), fun h => ?_,
          fun data hdata => ?_, fun _ _ h => (by cases h)⟩
        · cases hl
          decide
        · exact absurd h (by decide)
        · cases hdata
          refine ⟨rfl, fun h => ?_, rfl, fun i hi => ?_⟩
          · exact absurd h (by decide)
          · obtain ⟨r, i', hr, hi', rfl⟩ := List.forall₂_cons_right_iff.mp hi
            obtain ⟨c, i'', hc, hi'', rfl⟩ := List.forall₂_cons_right_iff.mp hi'
            obtain rfl := List.forall₂_nil_right_iff.mp hi''
            obtain rfl := Nat.lt_one_iff.mp hc
            have hr' : r < 4 := hr
            interval_cases r <;> decide
      · refine ⟨by simp [hk], fun path hread => ?_⟩
        obtain rfl : _ = path := by simpa [hk] using hread.1
        refine ⟨rfl, by decide, fun l hl => ?_, fun l hl => (by cases hl), fun h => ?_,
          fun _ h => (by cases h), fun qtype data hdata => ?_⟩
        · cases hl
          decide
        · exact absurd h (by decide)
        · cases hdata
          have hfits :
            ∀ r < 4, ∀ b < 1, HalvesFit .q8_0 (byteAt (blockOf .q8_0 blockData 1 r b)) := by
            decide +kernel
          refine ⟨4, 1, rfl, by decide, by decide, rfl, by decide +kernel, hfits, rfl,
            fun r hr c hc => ?_⟩
          rw [hrows]
          have hc' : c < 32 := hc
          interval_cases r <;> interval_cases c <;> decide +kernel)
  refine ⟨adapter, parts, hadapter, hparts, fun qt hqt => ?_⟩
  have hcomputes := hundone.quant "k_proj" qt hqt
  have hrow := hcomputes.embedding [1] (by decide)
  rw [show halfValue = (fileLoader iq4Codebooks halfValue id id fun _ => true).half from rfl, hrow]
  decide +kernel

end Gguf
end VllmMetal
