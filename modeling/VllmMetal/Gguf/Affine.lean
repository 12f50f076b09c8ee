import VllmMetal.Gguf.AffineFormat
import VllmMetal.Lib.Array2
import VllmMetal.Lib.BitStream
import VllmMetal.Lib.Striding

/-!
# Repacking blocks for MLX

The weights of the affine types are repacked for `mx.quantized_matmul`: their codes are packed into
words, 32 of them sharing a scale and a bias.  Parsing works on all blocks of a chunk of rows at
once; an operation on the blocks of an array is written here for one block.

## Main definitions

* `parseBlock` — the codes, scales and biases of a block.
* `packCodesLe` — the codes of the rows, packed into words.
* `GGUFMLXQuantizedTensor.construct` — the contract of the shapes.
* `GGUFMLXQuantizedTensor.fromRawBlocks` — the tensor of a byte string.
-/

namespace VllmMetal
namespace Gguf

/-! ### The parsers -/

/-- `blocks[:, lo:hi]`. -/
def bytesOf (block : List UInt8) (lo hi : ℕ) : List (BitVec 8) :=
  ((block.drop lo).take (hi - lo)).map UInt8.toBitVec

/-- `_split_nibbles`. -/
def splitNibbles (nibbles : List (BitVec 8)) : List (BitVec 8) :=
  nibbles.map (fun n : BitVec 8 => n &&& 0x0F#8) ++ nibbles.map fun n : BitVec 8 => n >>> 4

/-- `((bytes[:, :, None] >> mx.arange(8)) & 1).reshape(-1, 8 * n)`. -/
def byteBits (bytes : List (BitVec 8)) : List (BitVec 8) :=
  bytes.flatMap fun byte => (List.range 8).map fun i => (byte >>> i) &&& 1#8

/-- `mx.stack([bytes & 0x0F, bytes >> 4], axis=-1).reshape(-1, 2 * n)`. -/
def stackNibbles (bytes : List (BitVec 8)) : List (BitVec 8) :=
  bytes.flatMap fun byte => [byte &&& 0x0F#8, byte >>> 4]

/-- `_join_fifth_bits`. -/
def joinFifthBits (low qh : List (BitVec 8)) : List (BitVec 8) :=
  List.zipWith (fun l high : BitVec 8 => l ||| (high <<< 4)) low (byteBits qh)

/-- `_split_nibble_chunks`. -/
def splitNibbleChunks (nibbleBytes : List (BitVec 8)) : List (BitVec 8) :=
  (reshapeRows 32 nibbleBytes).flatMap splitNibbles

/-- `_IQ4_CODES`. -/
def iq4Codes (books : Codebooks) : List (BitVec 8) :=
  books.kvalues.map fun v => BitVec.ofInt 8 (v + 128)

/-- `_IQ3S_GRID`. -/
def iq3sGrid (books : Codebooks) : List (List (BitVec 8)) :=
  books.grid.map (·.map (BitVec.ofNat 8))

/-- What a parser returns for a block. -/
structure Parsed (K : Type) where
  codes : List (BitVec 8)
  scales : List K
  biases : List K

section Parsers

variable {K : Type} [CommRing K] (books : Codebooks) (half : ℕ → K)

/-- `blocks[:, i : i + 2].view(mx.float16)`. -/
def viewHalf (block : List UInt8) (i : ℕ) : K := half (loadU16 (byteAt block) i)

/-- `d * -(2 ** k)` of the scale `d`, which MLX multiplies as a half. -/
def scaleTimes (block : List UInt8) (k : ℕ) : K :=
  half (timesNegPow k (loadU16 (byteAt block) 0))

/-- `_parse_q8_0`. -/
def parseQ80 (block : List UInt8) : Parsed K :=
  { codes := (bytesOf block 2 34).map (· ^^^ 0x80#8)
    scales := [viewHalf half block 0]
    biases := [scaleTimes half block 7] }

/-- `_parse_q4_0`. -/
def parseQ40 (block : List UInt8) : Parsed K :=
  { codes := splitNibbles (bytesOf block 2 18)
    scales := [viewHalf half block 0]
    biases := [scaleTimes half block 3] }

/-- `_parse_q4_1`. -/
def parseQ41 (block : List UInt8) : Parsed K :=
  { codes := splitNibbles (bytesOf block 4 20)
    scales := [viewHalf half block 0]
    biases := [viewHalf half block 2] }

/-- `_parse_q5_0`. -/
def parseQ50 (block : List UInt8) : Parsed K :=
  let low := splitNibbles (bytesOf block 6 22)
  { codes := joinFifthBits low (bytesOf block 2 6)
    scales := [viewHalf half block 0]
    biases := [scaleTimes half block 4] }

/-- `_parse_q5_1`. -/
def parseQ51 (block : List UInt8) : Parsed K :=
  let low := splitNibbles (bytesOf block 8 24)
  { codes := joinFifthBits low (bytesOf block 4 8)
    scales := [viewHalf half block 0]
    biases := [viewHalf half block 2] }

/-- `_parse_kquant_scale_mins`. -/
def parseKquantScaleMins (block : List UInt8) : List K × List K :=
  let d := viewHalf half block 0
  let dmin := viewHalf half block 2
  -- `packed[:, lo:hi]` is `blocks[:, 4 + lo:4 + hi]`
  let subScales := (bytesOf block 4 8).map (· &&& 0x3F#8) ++
    List.zipWith (fun last first : BitVec 8 => (last &&& 0x0F#8) ||| ((first >>> 6) <<< 4))
      (bytesOf block 12 16) (bytesOf block 4 8)
  let subMins := (bytesOf block 8 12).map (· &&& 0x3F#8) ++
    List.zipWith (fun last mid : BitVec 8 => (last >>> 4) ||| ((mid >>> 6) <<< 4))
      (bytesOf block 12 16) (bytesOf block 8 12)
  (subScales.map fun s => d * (s.toNat : K), subMins.map fun m => -(dmin * (m.toNat : K)))

/-- `_parse_q4_k`. -/
def parseQ4K (block : List UInt8) : Parsed K :=
  let affine := parseKquantScaleMins half block
  { codes := splitNibbleChunks (bytesOf block 16 144)
    scales := affine.1
    biases := affine.2 }

/-- `_parse_q5_k`. -/
def parseQ5K (block : List UInt8) : Parsed K :=
  let affine := parseKquantScaleMins half block
  let low := splitNibbleChunks (bytesOf block 48 176)
  let qh := bytesOf block 16 48
  let high := (List.range 8).flatMap fun g =>
    qh.map fun byte : BitVec 8 => ((byte >>> g) &&& 1#8) <<< 4
  { codes := List.zipWith (· ||| ·) low high
    scales := affine.1
    biases := affine.2 }

/-- `_parse_iq4_nl`. -/
def parseIq4NL (block : List UInt8) : Parsed K :=
  let nibbles := splitNibbles (bytesOf block 2 18)
  { codes := nibbles.map fun q => (iq4Codes books).getD q.toNat 0
    scales := [viewHalf half block 0]
    biases := [scaleTimes half block 7] }

/-- `_parse_iq4_xs`. -/
def parseIq4XS (block : List UInt8) : Parsed K :=
  let d := viewHalf half block 0
  let scalesH := BitVec.ofNat 16 (loadU16 (byteAt block) 2)
  let low := stackNibbles (bytesOf block 4 8)
  let high := (List.range 8).map fun j => (scalesH >>> (2 * j)) &&& 3#16
  let subScales := List.zipWith
    (fun (l : BitVec 8) (h : BitVec 16) => ((l.toNat ||| (h.toNat <<< 4) : ℕ) : ℤ) - 32) low high
  let scales := subScales.map fun s : ℤ => d * (s : K)
  let nibbles := (reshapeRows 16 (bytesOf block 8 136)).flatMap splitNibbles
  { codes := nibbles.map fun q => (iq4Codes books).getD q.toNat 0
    scales := scales
    biases := scales.map (· * -128) }

/-- `_parse_iq3_s`. -/
def parseIq3S (block : List UInt8) : Parsed K :=
  let d := viewHalf half block 0
  let qhBits := byteBits (bytesOf block 66 74)
  let gridRows := List.zipWith (fun q h : BitVec 8 => q.setWidth 16 ||| (h.setWidth 16 <<< 8))
    (bytesOf block 2 66) qhBits
  let magnitudes := gridRows.flatMap fun row => (iq3sGrid books).getD row.toNat []
  let negative := byteBits (bytesOf block 74 106)
  let nibbles := stackNibbles (bytesOf block 106 110)
  let groupScales := nibbles.map fun n => d * (1 + 2 * (n.toNat : K))
  { codes := List.zipWith (fun n m : BitVec 8 => (if n = 0 then 15 + m else 15 - m) >>> 1)
      negative magnitudes
    scales := groupScales.map (· * 2)
    biases := groupScales.map (· * -15) }

/-- The parser of a type. -/
def parseBlock : AffineType → List UInt8 → Parsed K
  | .q8_0 => parseQ80 half
  | .q4_0 => parseQ40 half
  | .q4_1 => parseQ41 half
  | .q5_0 => parseQ50 half
  | .q5_1 => parseQ51 half
  | .q4K => parseQ4K half
  | .q5K => parseQ5K half
  | .iq4Nl => parseIq4NL books half
  | .iq4Xs => parseIq4XS books half
  | .iq3S => parseIq3S books half

/-- `parse(blocks)`: the arrays of the blocks, one behind the other. -/
def parse (qtype : AffineType) (blocks : List (List UInt8)) : Parsed K where
  codes := blocks.flatMap fun block => (parseBlock books half qtype block).codes
  scales := blocks.flatMap fun block => (parseBlock books half qtype block).scales
  biases := blocks.flatMap fun block => (parseBlock books half qtype block).biases

end Parsers

/-! ### Packing -/

/-- `bytes.view(mx.uint32)`. -/
def viewU32 (bytes : List (BitVec 8)) : List (BitVec 32) :=
  (reshapeRows 4 bytes).map fun word =>
    orShares 8 0 (fun i => (word.getD i 0).setWidth 32) (List.range 4)

/-- `codes[:, 0::2] | (codes[:, 1::2] << 4)`. -/
def pairBytes (codes : List (BitVec 8)) : List (BitVec 8) :=
  (List.range (codes.length / 2)).map fun i =>
    codes.getD (2 * i) 0 ||| (codes.getD (2 * i + 1) 0 <<< 4)

/-- The code of a position, as a word. -/
def wideCode (codes : List (BitVec 8)) (position : ℕ) : BitVec 32 :=
  (codes.getD position 0).setWidth 32

/-- The body of the loop: a code that does not fit into its word ends in the next one. -/
def packPosition (bits : ℕ) (codes : List (BitVec 8)) (words : List (BitVec 32)) (position : ℕ) :
    List (BitVec 32) :=
  let word := position * bits / 32
  let shift := position * bits % 32
  let code := wideCode codes position
  let words := words.modify word (· ||| (code <<< shift))
  if 32 < shift + bits then words.modify (word + 1) (· ||| (code >>> (32 - shift))) else words

/-- The words of 32 codes. -/
def packGroup (bits : ℕ) (codes : List (BitVec 8)) : List (BitVec 32) :=
  (List.range 32).foldl (packPosition bits codes) (List.replicate bits 0)

/-- The words of a row. -/
def packRow (bits : ℕ) (codes : List (BitVec 8)) : List (BitVec 32) :=
  if bits = 8 then viewU32 codes
  else if bits = 4 then viewU32 (pairBytes codes)
  else (reshapeRows 32 codes).flatMap (packGroup bits)

theorem length_viewU32 (bytes : List (BitVec 8)) : (viewU32 bytes).length = bytes.length / 4 := by
  rw [viewU32, List.length_map, reshapeRows, List.length_map, List.length_range]

theorem length_pairBytes (codes : List (BitVec 8)) :
    (pairBytes codes).length = codes.length / 2 := by
  rw [pairBytes, List.length_map, List.length_range]

theorem length_packGroup (bits : ℕ) (codes : List (BitVec 8)) :
    (packGroup bits codes).length = bits := by
  have hloop : ∀ n, ((List.range n).foldl (packPosition bits codes)
      (List.replicate bits 0)).length = bits := by
    intro n
    induction n with
    | zero => exact List.length_replicate
    | succ n ih =>
      rw [List.range_succ, List.foldl_append, List.foldl_cons, List.foldl_nil, packPosition]
      split
      · rw [List.length_modify, List.length_modify, ih]
      · rw [List.length_modify, ih]
  exact hloop 32

theorem length_packRow (bits : ℕ) {codes : List (BitVec 8)} (h : 32 ∣ codes.length) :
    (packRow bits codes).length = codes.length / 32 * bits := by
  obtain ⟨n, hn⟩ := h
  unfold packRow
  split
  · next h8 => rw [length_viewU32, h8, hn]; omega
  · split
    · next h4 => rw [length_viewU32, length_pairBytes, h4, hn]; omega
    · exact length_flatMap_reshapeRows (length_packGroup bits)

/-- `_pack_codes_le`: the rows are made of groups of 32 codes. -/
def packCodesLe (codes : Array2 (BitVec 8)) (bits : ℕ) : Option (Array2 (BitVec 32)) :=
  if h : 32 ∣ codes.cols then
    some (codes.mapRows (codes.cols / 32 * bits) (packRow bits) fun row hrow => by
      rw [length_packRow bits (hrow ▸ h), hrow])
  else none

/-! ### The tensor -/

/-- The `ValueError`s of the repack. -/
inductive RepackError where
  /-- "logical_shape must be 2-D and positive". -/
  | logicalShape (qtype : AffineType) (logicalShape : List ℤ)
  /-- "in_features … is not a multiple of the …-element superblock". -/
  | inFeatures (qtype : AffineType) (inFeatures : ℕ)
  /-- "raw block data has … bytes; logical shape … needs …". -/
  | size (qtype : AffineType) (size expectedBytes : ℕ)
  /-- "scales … and biases … must have the same shape". -/
  | scalesBiases (qtype : AffineType)
  /-- "scales rows … must match qweight rows …". -/
  | scaleRows (qtype : AffineType) (scaleRows outFeatures : ℕ)
  /-- "packed inner dim … is inconsistent with … groups at … bits". -/
  | packedInner (qtype : AffineType) (packedIn numGroups : ℕ)
  /-- "must have at least one group". -/
  | noGroup (qtype : AffineType)
  /-- MLX reshapes, views and assigns only what fits. -/
  | shapes
  deriving DecidableEq

/-- `_validate_contract`, over arrays of the dtypes of the type. -/
def GGUFMLXQuantizedTensor.construct {K : Type} (qweight : Array2 (BitVec 32))
    (scales biases : Array2 K) (qtype : AffineType) :
    Except RepackError (GGUFMLXQuantizedTensor K) :=
  if hbiases : scales.rows = biases.rows ∧ scales.cols = biases.cols then
    if hrows : scales.rows = qweight.rows then
      if hpacked : qweight.cols = scales.cols * qtype.bits then
        if hgroup : 1 ≤ scales.cols then
          .ok
            { qweight := qweight.data
              scales := scales.data
              biases := biases.data
              qweightType := qtype
              numGroups := scales.cols
              scales_rows := by rw [scales.length_data, qweight.length_data, hrows]
              biases_rows := by
                rw [biases.length_data, qweight.length_data, ← hbiases.1, hrows]
              qweight_length := fun row hrow => (qweight.length_row row hrow).trans hpacked
              scales_length := scales.length_row
              biases_length := fun row hrow => (biases.length_row row hrow).trans hbiases.2.symm
              numGroups_pos := hgroup }
        else .error (.noGroup qtype)
      else .error (.packedInner qtype qweight.cols scales.cols)
    else .error (.scaleRows qtype scales.rows qweight.rows)
  else .error (.scalesBiases qtype)

/-! ### The repack -/

section Repack

variable {K : Type} [CommRing K] (books : Codebooks) (half : ℕ → K)

/-- The arrays that the loop writes. -/
structure RepackArrays (K : Type) where
  qweight : Array2 (BitVec 32)
  scales : Array2 K
  biases : Array2 K

/-- `_REPACK_CHUNK_ELEMENTS`. -/
def repackChunkElements : ℕ := 2 ^ 24

/-- The body of the loop over the chunks. -/
def repackChunk (qtype : AffineType) (rows : Array2 UInt8) (inFeatures chunkRows : ℕ)
    (arrays : RepackArrays K) (start : ℕ) : Option (RepackArrays K) := do
  let numGroups := inFeatures / 32
  let stop := min (start + chunkRows) rows.rows
  let blocks ← Array2.inferRows qtype.blockBytes (rows.slice start stop).data.flatten
  let parsed := parse books half qtype blocks.data
  let codes ← Array2.reshape (stop - start) inFeatures parsed.codes
  let words ← packCodesLe codes qtype.bits
  let qweight ← arrays.qweight.assign start words
  let scales ← arrays.scales.assign start
    (← Array2.reshape (stop - start) numGroups parsed.scales)
  let biases ← arrays.biases.assign start
    (← Array2.reshape (stop - start) numGroups parsed.biases)
  return ⟨qweight, scales, biases⟩

/-- What MLX raises itself. -/
def orShapes {α : Type} : Option α → Except RepackError α
  | some a => .ok a
  | none => .error .shapes

/-- The loop over the chunks. -/
def repackRows (qtype : AffineType) (rows : Array2 UInt8) (inFeatures chunkRows : ℕ) :
    Except RepackError (RepackArrays K) :=
  let numGroups := inFeatures / 32
  (strided 0 rows.rows chunkRows).foldlM
    (fun arrays start => orShapes
      (repackChunk books half qtype rows inFeatures chunkRows arrays start))
    { qweight := .full rows.rows (numGroups * qtype.bits) 0
      scales := .full rows.rows numGroups 0
      biases := .full rows.rows numGroups 0 }

/-- `from_raw_blocks`. -/
def GGUFMLXQuantizedTensor.fromRawBlocks (blockData : List UInt8) (logicalShape : List ℤ)
    (qtype : AffineType) : Except RepackError (GGUFMLXQuantizedTensor K) :=
  match logicalShape with
  | [outFeatures, inFeatures] =>
    if outFeatures < 1 ∨ inFeatures < 1 then .error (.logicalShape qtype logicalShape)
    else if inFeatures.toNat % qtype.blockElems ≠ 0 then
      .error (.inFeatures qtype inFeatures.toNat)
    else
      let expectedBytes :=
        outFeatures.toNat * (inFeatures.toNat / qtype.blockElems) * qtype.blockBytes
      if blockData.length ≠ expectedBytes then .error (.size qtype blockData.length expectedBytes)
      else do
        let rows ← orShapes
          (Array2.reshape outFeatures.toNat (blockData.length / outFeatures.toNat) blockData)
        let chunkRows := max 1 (repackChunkElements / inFeatures.toNat)
        let arrays ← repackRows books half qtype rows inFeatures.toNat chunkRows
        construct arrays.qweight arrays.scales arrays.biases qtype
  | _ => .error (.logicalShape qtype logicalShape)

end Repack

end Gguf
end VllmMetal
