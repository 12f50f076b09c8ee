import VllmMetal.Gguf.AffineParse
import VllmMetal.Lib.Raising

/-!
# Repacking preserves every weight

The words of a row are the bit stream of its codes, so that MLX reads the codes back that the
parsers found.  The loop over the chunks writes every row once, and no operation on an array meets
shapes that do not fit.

## Main definitions

* `touching` — the codes that reach into a word.
* `packedRow` — the words, scales and biases of a row.

## Main results

* `packRow_sameBits` — the words of a row are the stream of its codes.
* `repackRows_eq` — the loop packs row by row.
* `fromRawBlocks_decodes` — the tensor has the weights of the file.
-/

namespace VllmMetal
namespace Gguf

/-! ### Packing -/

/-- The positions below `k` whose codes reach into word `w`. -/
def touching (bits w k : ℕ) : List ℕ := (List.range k).filter fun e =>
  e * bits / 32 = w ∨ (e * bits / 32 + 1 = w ∧ 32 < e * bits % 32 + bits)

/-- A word gets the share of a position that reaches into it. -/
theorem orShares_touching_succ (bits w k : ℕ) (code : ℕ → BitVec 32) :
    orShares bits (32 * w) code (touching bits w (k + 1)) =
      if k * bits / 32 = w then
        orShares bits (32 * w) code (touching bits w k) ||| (code k <<< (k * bits % 32))
      else if k * bits / 32 + 1 = w ∧ 32 < k * bits % 32 + bits then
        orShares bits (32 * w) code (touching bits w k) ||| (code k >>> (32 - k * bits % 32))
      else orShares bits (32 * w) code (touching bits w k) := by
  rw [touching, List.range_succ, List.filter_append, orShares, List.foldl_append]
  by_cases hword : k * bits / 32 = w
  · have hshare : share bits (32 * w) code k = code k <<< (k * bits % 32) := by
      rw [share, if_pos (by omega), show k * bits - 32 * w = k * bits % 32 by omega]
    simp only [hword, true_or, decide_true, List.filter_cons, List.filter_nil, if_true,
      List.foldl_cons, List.foldl_nil, hshare]
    rfl
  · by_cases hnext : k * bits / 32 + 1 = w ∧ 32 < k * bits % 32 + bits
    · have hshare : share bits (32 * w) code k = code k >>> (32 - k * bits % 32) := by
        rw [share, if_neg (by omega), show 32 * w - k * bits = 32 - k * bits % 32 by omega]
      simp only [hword, hnext, and_self, or_true, decide_true, List.filter_cons, List.filter_nil,
        if_true, if_false, List.foldl_cons, List.foldl_nil, hshare]
      rfl
    · simp only [hword, hnext, or_self, decide_false, List.filter_cons, List.filter_nil,
        Bool.false_eq_true, if_false, List.foldl_nil]
      rfl

/-- **The words of a group**: a word has the shares of the codes that reach into it. -/
theorem getElem?_packGroup {bits : ℕ} (codes : List (BitVec 8)) {w : ℕ} (hw : w < bits) :
    (packGroup bits codes)[w]? =
      some (orShares bits (32 * w) (wideCode codes) (touching bits w 32)) := by
  -- induction on the positions of the loop
  have hloop : ∀ k, ((List.range k).foldl (packPosition bits codes) (List.replicate bits 0))[w]? =
      some (orShares bits (32 * w) (wideCode codes) (touching bits w k)) := by
    intro k
    induction k with
    | zero => exact List.getElem?_replicate_of_lt hw
    | succ k ih =>
      rw [List.range_succ, List.foldl_append, List.foldl_cons, List.foldl_nil,
        orShares_touching_succ]
      generalize (List.range k).foldl (packPosition bits codes) (List.replicate bits 0) = words
        at ih ⊢
      simp only [packPosition]
      -- a position touches the word it starts in, and the next one when it is long
      by_cases hword : k * bits / 32 = w
      · rw [if_pos hword, hword]
        split
        · rw [List.getElem?_modify_ne _ _ (Nat.succ_ne_self w), List.getElem?_modify_eq, ih]
          rfl
        · rw [List.getElem?_modify_eq, ih]
          rfl
      · rw [if_neg hword]
        by_cases hnext : k * bits / 32 + 1 = w
        · by_cases hlong : 32 < k * bits % 32 + bits
          · rw [if_pos hlong, if_pos ⟨hnext, hlong⟩, hnext, List.getElem?_modify_eq,
              List.getElem?_modify_ne _ _ hword, ih]
            rfl
          · rw [if_neg hlong, if_neg fun h : _ ∧ _ => hlong h.2, List.getElem?_modify_ne _ _ hword,
              ih]
        · rw [if_neg fun h : _ ∧ _ => hnext h.1]
          split
          · rw [List.getElem?_modify_ne _ _ hnext, List.getElem?_modify_ne _ _ hword, ih]
          · rw [List.getElem?_modify_ne _ _ hword, ih]
  exact hloop 32

theorem getLsbD_wideCode {bits : ℕ} {codes : List (BitVec 8)}
    (hcodes : ∀ c ∈ codes, c.toNat < 2 ^ bits) (e : ℕ) {b : ℕ} (hb : bits ≤ b) :
    (wideCode codes e).getLsbD b = false := by
  have hlt : (codes.getD e 0).toNat < 2 ^ bits := by
    rcases Nat.lt_or_ge e codes.length with he | he
    · rw [List.getD_eq_getElem _ _ he]
      exact hcodes _ (List.getElem_mem he)
    · rw [List.getD_eq_default _ _ he]
      exact Nat.two_pow_pos bits
  have hbit : (codes.getD e 0).getLsbD b = false :=
    Nat.testBit_lt_two_pow (Nat.lt_of_lt_of_le hlt (Nat.pow_le_pow_right (by omega) hb))
  rw [wideCode, BitVec.getLsbD_setWidth, hbit, Bool.and_false]

/-- **The words of a group are the stream of its codes.** -/
theorem packGroup_sameBits {bits : ℕ} (hpos : 0 < bits) (hle : bits ≤ 32) {codes : List (BitVec 8)}
    (hlen : codes.length = 32) (hcodes : ∀ c ∈ codes, c.toNat < 2 ^ bits) :
    SameBits bits 32 codes (packGroup bits codes) := by
  refine ⟨by rw [hlen, length_packGroup, Nat.mul_comm], fun p hp => ?_⟩
  rw [hlen] at hp
  have hw : p / 32 < bits := Nat.div_lt_of_lt_mul hp
  have hplace : 32 * (p / 32) + p % 32 = p := Nat.div_add_mod p 32
  -- the code that owns bit `p` begins in its word or in the one before
  have hmem : (32 * (p / 32) + p % 32) / bits ∈ touching bits (p / 32) 32 := by
    have hlow : p / bits * bits ≤ p := Nat.div_mul_le_self p bits
    have hhigh : p < p / bits * bits + bits := Nat.lt_div_mul_add hpos
    rw [hplace, touching, List.mem_filter, List.mem_range, decide_eq_true_eq]
    refine ⟨Nat.div_lt_of_lt_mul (by rwa [Nat.mul_comm]), ?_⟩
    omega
  have hword : (orShares bits (32 * (p / 32)) (wideCode codes) (touching bits (p / 32) 32)).getLsbD
      (p % 32) = _ := getLsbD_orShares (Nat.mod_lt p (by decide : 0 < 32))
    (fun e _ b hb => getLsbD_wideCode hcodes e hb) hmem
  have hshort : p % bits < 32 := Nat.lt_of_lt_of_le (Nat.mod_lt p hpos) hle
  rw [hplace] at hword
  rw [streamBit, streamBit, getD_of_getElem? 0 (getElem?_packGroup codes hw), hword, wideCode,
    BitVec.getLsbD_setWidth, decide_eq_true hshort, Bool.true_and]

/-- **Four bytes are one word.** -/
theorem viewU32_sameBits {bytes : List (BitVec 8)} (h : 4 ∣ bytes.length) :
    SameBits 8 32 bytes (viewU32 bytes) := by
  have hlen := length_viewU32 bytes
  refine ⟨by omega, fun p hp => ?_⟩
  have hw : p / 32 < bytes.length / 4 := by omega
  have hget : (viewU32 bytes)[p / 32]? = some (orShares 8 0 (fun i =>
      (((bytes.drop (p / 32 * 4)).take 4).getD i 0).setWidth 32) (List.range 4)) := by
    rw [viewU32, List.getElem?_map, getElem?_reshapeRows hw]
    rfl
  have hbyte : ((bytes.drop (p / 32 * 4)).take 4).getD (p % 32 / 8) 0 = bytes.getD (p / 8) 0 := by
    rw [List.getD_eq_getElem?_getD, List.getD_eq_getElem?_getD,
      List.getElem?_take_of_lt (by omega), List.getElem?_drop,
      show p / 32 * 4 + p % 32 / 8 = p / 8 by omega]
  have hword : (orShares 8 0 (fun i => (((bytes.drop (p / 32 * 4)).take 4).getD i 0).setWidth 32)
      (List.range 4)).getLsbD (p % 32) = _ := getLsbD_orShares
    (Nat.mod_lt p (by decide : 0 < 32))
    (fun e _ b hb => by
      rw [BitVec.getLsbD_setWidth, BitVec.getLsbD_of_ge _ _ hb, Bool.and_false])
    (by rw [Nat.zero_add, List.mem_range]; omega)
  rw [Nat.zero_add, hbyte, BitVec.getLsbD_setWidth, decide_eq_true (by omega), Bool.true_and,
    show p % 32 % 8 = p % 8 by omega] at hword
  rw [streamBit, streamBit, getD_of_getElem? 0 hget, hword]

/-- **Two nibbles are one byte.** -/
theorem pairBytes_sameBits {codes : List (BitVec 8)} (h : 2 ∣ codes.length)
    (hcodes : ∀ c ∈ codes, c.toNat < 2 ^ 4) : SameBits 4 8 codes (pairBytes codes) := by
  have hlen := length_pairBytes codes
  refine ⟨by omega, fun p hp => ?_⟩
  have hw : p / 8 < codes.length / 2 := by omega
  have hget : (pairBytes codes)[p / 8]? =
      some (orShares 4 0 (fun e => codes.getD (2 * (p / 8) + e) 0) (List.range 2)) := by
    rw [pairBytes, List.getElem?_map, List.getElem?_range hw, Option.map_some]
    simp [orShares, share, List.range_succ]
  have hword : (orShares 4 0 (fun e => codes.getD (2 * (p / 8) + e) 0) (List.range 2)).getLsbD
      (p % 8) = _ := getLsbD_orShares (Nat.mod_lt p (by decide : 0 < 8))
    (fun e he b hb => by
      have hmem : 2 * (p / 8) + e < codes.length := by
        have := List.mem_range.mp he
        omega
      have hlt := hcodes _ (List.getElem_mem hmem)
      rw [List.getD_eq_getElem _ _ hmem]
      exact Nat.testBit_lt_two_pow (Nat.lt_of_lt_of_le hlt (Nat.pow_le_pow_right (by omega) hb)))
    (by rw [Nat.zero_add, List.mem_range]; omega)
  rw [Nat.zero_add, show 2 * (p / 8) + p % 8 / 4 = p / 4 by omega,
    show p % 8 % 4 = p % 4 by omega] at hword
  rw [streamBit, streamBit, getD_of_getElem? 0 hget, hword]

/-- **The words of a row are the stream of its codes.** -/
theorem packRow_sameBits {qtype : AffineType} {codes : List (BitVec 8)} (h : 32 ∣ codes.length)
    (hcodes : ∀ c ∈ codes, c.toNat < 2 ^ qtype.bits) :
    SameBits qtype.bits 32 codes (packRow qtype.bits codes) := by
  have hbits : 0 < qtype.bits ∧ qtype.bits ≤ 32 := by cases qtype <;> decide
  unfold packRow
  split
  · next h8 =>
    rw [h8]
    exact viewU32_sameBits (Nat.dvd_trans (by decide) h)
  · split
    · next h4 =>
      rw [h4] at hcodes ⊢
      have hpairs := length_pairBytes codes
      refine (pairBytes_sameBits (Nat.dvd_trans (by decide) h) hcodes).trans
        (viewU32_sameBits ?_)
      omega
    -- any other width is packed group by group
    · have hgroups : ∀ rows : List (List (BitVec 8)), (∀ row ∈ rows, row.length = 32) →
          (∀ row ∈ rows, ∀ c ∈ row, c.toNat < 2 ^ qtype.bits) →
          SameBits qtype.bits 32 rows.flatten (rows.flatMap (packGroup qtype.bits)) := by
        intro rows
        induction rows with
        | nil => exact fun _ _ => SameBits.nil
        | cons row rows ih =>
          intro hlen hfits
          rw [List.flatten_cons, List.flatMap_cons]
          exact (packGroup_sameBits hbits.1 hbits.2 (hlen row List.mem_cons_self)
            (hfits row List.mem_cons_self)).append
              (ih (fun row' hrow' => hlen row' (List.mem_cons_of_mem row hrow'))
                fun row' hrow' => hfits row' (List.mem_cons_of_mem row hrow')) hbits.1 (by decide)
      have hstream := hgroups (reshapeRows 32 codes)
        (fun row hrow => length_of_mem_reshapeRows hrow) fun row hrow c hc => hcodes c (by
          rw [← flatten_reshapeRows h]
          exact List.mem_flatten_of_mem hrow hc)
      rwa [flatten_reshapeRows h] at hstream

/-- **MLX reads the codes back.** -/
theorem packedCode_eq {bits i : ℕ} {codes : List (BitVec 8)} {words : List (BitVec 32)}
    (h : SameBits bits 32 codes words) (hi : i < codes.length)
    (hcode : (codes.getD i 0).toNat < 2 ^ bits) :
    GGUFMLXQuantizedTensor.packedCode bits words i = (codes.getD i 0).toNat := by
  apply Nat.eq_of_testBit_eq
  intro q
  rw [GGUFMLXQuantizedTensor.packedCode, Nat.testBit_ofBits]
  split
  · next hq => exact (h.getLsbD_getD hi hq).symm
  · next hq =>
    exact (Nat.testBit_lt_two_pow
      (Nat.lt_of_lt_of_le hcode (Nat.pow_le_pow_right (by omega) (Nat.le_of_not_lt hq)))).symm

/-! ### Row by row -/

section Repack

variable {K : Type} [CommRing K] {books : Codebooks} {half : ℕ → K} {qtype : AffineType}

/-- What the parser returns for a row. -/
def parseRow (books : Codebooks) (half : ℕ → K) (qtype : AffineType) (row : List UInt8) :
    Parsed K :=
  parse books half qtype (reshapeRows qtype.blockBytes row)

/-- The words of a row. -/
def rowWords (books : Codebooks) (half : ℕ → K) (qtype : AffineType) (row : List UInt8) :
    List (BitVec 32) := packRow qtype.bits (parseRow books half qtype row).codes

/-- What is known of the arrays of a row of `n` blocks. -/
structure ParsedRow (qtype : AffineType) (n : ℕ) (p : Parsed K) : Prop where
  codes : p.codes.length = n * qtype.blockElems
  scales : p.scales.length = n * qtype.blockGroups
  biases : p.biases.length = n * qtype.blockGroups

theorem length_reshapeRows_blocks {row : List UInt8} {n : ℕ}
    (h : row.length = n * qtype.blockBytes) : (reshapeRows qtype.blockBytes row).length = n := by
  rw [reshapeRows, List.length_map, List.length_range, h,
    Nat.mul_div_cancel _ qtype.blockBytes_pos]

/-- The blocks of a row decode. -/
theorem decodes_of_mem_row {row block : List UInt8}
    (hmem : block ∈ reshapeRows qtype.blockBytes row) :
    Decodes books half qtype block (parseBlock books half qtype block) :=
  parseBlock_decodes books half (length_of_mem_reshapeRows hmem)

/-- The arrays of a row. -/
theorem parseRow_lengths {row : List UInt8} {n : ℕ} (h : row.length = n * qtype.blockBytes) :
    ParsedRow qtype n (parseRow books half qtype row) := by
  have hsum : ∀ {α : Type} (f : List UInt8 → List α) (m : ℕ),
      (∀ block ∈ reshapeRows qtype.blockBytes row, (f block).length = m) →
      ((reshapeRows qtype.blockBytes row).flatMap f).length = n * m := by
    intro α f m hf
    rw [List.length_flatMap, List.map_congr_left hf, List.map_const', List.sum_replicate_nat,
      length_reshapeRows_blocks h]
  exact ⟨hsum _ _ fun block hmem => (decodes_of_mem_row hmem).length_codes,
    hsum _ _ fun block hmem => (decodes_of_mem_row hmem).length_scales,
    hsum _ _ fun block hmem => (decodes_of_mem_row hmem).length_biases⟩

/-- The codes of a row fit. -/
theorem parseRow_code_lt {row : List UInt8} :
    ∀ c ∈ (parseRow books half qtype row).codes, c.toNat < 2 ^ qtype.bits := by
  intro c hc
  obtain ⟨block, hmem, hcode⟩ := List.mem_flatMap.mp hc
  have hdecodes : Decodes books half qtype block _ := decodes_of_mem_row hmem
  obtain ⟨e, he, rfl⟩ := List.getElem_of_mem hcode
  have hlt := hdecodes.code_lt e (hdecodes.length_codes ▸ he)
  rwa [List.getD_eq_getElem _ _ he] at hlt

/-- The arrays of a chunk are those of its rows. -/
theorem flatMap_parse {α : Type} (rows : List (List UInt8)) (f : List UInt8 → List α) :
    (rows.flatMap (reshapeRows qtype.blockBytes)).flatMap f =
      rows.flatMap fun row => (reshapeRows qtype.blockBytes row).flatMap f := List.flatMap_assoc

/-- The rows that are written so far. -/
structure Repacked (books : Codebooks) (half : ℕ → K) (qtype : AffineType) (rows : Array2 UInt8)
    (numGroups t : ℕ) (arrays : RepackArrays K) : Prop where
  qweight : arrays.qweight.Filled (rows.data.map (rowWords books half qtype))
    (numGroups * qtype.bits) t
  scales : arrays.scales.Filled (rows.data.map fun row => (parseRow books half qtype row).scales)
    numGroups t
  biases : arrays.biases.Filled (rows.data.map fun row => (parseRow books half qtype row).biases)
    numGroups t

/-- A slice of the rows of a target. -/
theorem map_slice {α β : Type*} (f : α → β) (l : List α) (start stop : ℕ) :
    ((l.drop start).take (stop - start)).map f = ((l.map f).drop start).take (stop - start) := by
  rw [List.map_take, List.map_drop]

/-- The bytes of some rows, cut into blocks. -/
theorem inferRows_chunk {chunk : List (List UInt8)} {n : ℕ}
    (h : ∀ row ∈ chunk, row.length = n * qtype.blockBytes) : ∃ blocks : Array2 UInt8,
      Array2.inferRows qtype.blockBytes chunk.flatten = some blocks ∧
        blocks.data = chunk.flatMap (reshapeRows qtype.blockBytes) := by
  have hflat : chunk.flatten = (chunk.flatMap (reshapeRows qtype.blockBytes)).flatMap id := by
    rw [List.flatMap_assoc, List.flatten_eq_flatMap]
    refine List.flatMap_congr fun row hmem => ?_
    rw [List.flatMap_id, flatten_reshapeRows ⟨n, by rw [h row hmem, Nat.mul_comm]⟩]
    rfl
  have hwidth : ∀ block ∈ chunk.flatMap (reshapeRows qtype.blockBytes),
      (id block).length = qtype.blockBytes := by
    intro block hmem
    obtain ⟨row, -, hblock⟩ := List.mem_flatMap.mp hmem
    exact length_of_mem_reshapeRows hblock
  obtain ⟨blocks, hblocks, -, hdata⟩ := Array2.inferRows_flatMap qtype.blockBytes_pos hwidth
  rw [← hflat] at hblocks
  rw [List.map_id] at hdata
  exact ⟨blocks, hblocks, hdata⟩

/-- The codes of some rows, packed. -/
theorem packCodesLe_chunk {chunk : List (List UInt8)} {n : ℕ} {codes : Array2 (BitVec 8)}
    (hrows : codes.rows = chunk.length) (hcols : codes.cols = n * qtype.blockElems)
    (hdata : codes.data = chunk.map fun row => (parseRow books half qtype row).codes) :
    ∃ words : Array2 (BitVec 32), packCodesLe codes qtype.bits = some words ∧
      words.rows = chunk.length ∧ words.cols = n * qtype.blockGroups * qtype.bits ∧
        words.data = chunk.map (rowWords books half qtype) := by
  have hdvd : 32 ∣ codes.cols := by
    rw [hcols]
    exact qtype.dvd_mul_blockElems n
  refine ⟨_, dif_pos hdvd, hrows, ?_, ?_⟩
  · show codes.cols / 32 * qtype.bits = _
    rw [hcols, qtype.mul_blockElems_div]
  · show codes.data.map (packRow qtype.bits) = _
    rw [hdata, List.map_map]
    rfl

/-- **A chunk.** -/
theorem repackChunk_returns {rows : Array2 UInt8} {n start : ℕ} {arrays : RepackArrays K}
    (chunkRows : ℕ)
    (hcols : rows.cols = n * qtype.blockBytes) (hstart : start ≤ rows.rows)
    (h : Repacked books half qtype rows (n * qtype.blockGroups) start arrays) :
    ∃ arrays', repackChunk books half qtype rows (n * qtype.blockElems) chunkRows arrays start =
        some arrays' ∧
      Repacked books half qtype rows (n * qtype.blockGroups) (min (start + chunkRows) rows.rows)
        arrays' := by
  have hstop : start ≤ min (start + chunkRows) rows.rows := by omega
  generalize hstopEq : min (start + chunkRows) rows.rows = stop at hstop ⊢
  have hle : stop ≤ rows.rows := by omega
  generalize hchunk : (rows.data.drop start).take (stop - start) = chunk
  have hlen : chunk.length = stop - start := by
    rw [← hchunk, List.length_take, List.length_drop, rows.length_data]
    omega
  have hrow : ∀ row ∈ chunk, row.length = n * qtype.blockBytes := by
    intro row hmem
    rw [← hchunk] at hmem
    rw [← hcols]
    exact rows.length_row row (List.mem_of_mem_drop (List.mem_of_mem_take hmem))
  have hparsed : ∀ row ∈ chunk, ParsedRow qtype n (parseRow books half qtype row) :=
    fun row hmem => parseRow_lengths (hrow row hmem)
  -- the blocks of the chunk are the blocks of its rows
  obtain ⟨blocks, hblocks, hdata⟩ := inferRows_chunk hrow
  obtain ⟨codes, hcodes, hcodesRows, hcodesCols, hcodesData⟩ := Array2.reshape_flatMap
    (f := fun row => (parseRow books half qtype row).codes) fun row hmem => (hparsed row hmem).codes
  obtain ⟨scales, hscales, hscalesRows, hscalesCols, hscalesData⟩ := Array2.reshape_flatMap
    (f := fun row => (parseRow books half qtype row).scales) fun row hmem =>
      (hparsed row hmem).scales
  obtain ⟨biases, hbiases, hbiasesRows, hbiasesCols, hbiasesData⟩ := Array2.reshape_flatMap
    (f := fun row => (parseRow books half qtype row).biases) fun row hmem =>
      (hparsed row hmem).biases
  obtain ⟨words, hwords, hwordsRows, hwordsCols, hwordsData⟩ :=
    packCodesLe_chunk hcodesRows hcodesCols hcodesData
  rw [hlen] at hcodes hscales hbiases hwordsRows hscalesRows hbiasesRows
  have hadd : start + (stop - start) = stop := by omega
  have hfits : ∀ {α : Type} (f : List UInt8 → List α), start + (stop - start) ≤
      (rows.data.map f).length := by
    intro α f
    rw [hadd, List.length_map, rows.length_data]
    exact hle
  obtain ⟨qweight', hqweight', hfillWords⟩ := h.qweight.assign hwordsCols
    (by rw [hwordsRows]; exact hfits _) (by rw [hwordsData, hwordsRows, ← hchunk, map_slice])
  obtain ⟨scales', hscales', hfillScales⟩ := h.scales.assign hscalesCols
    (by rw [hscalesRows]; exact hfits _) (by rw [hscalesData, hscalesRows, ← hchunk, map_slice])
  obtain ⟨biases', hbiases', hfillBiases⟩ := h.biases.assign hbiasesCols
    (by rw [hbiasesRows]; exact hfits _) (by rw [hbiasesData, hbiasesRows, ← hchunk, map_slice])
  rw [hwordsRows, hadd] at hfillWords
  rw [hscalesRows, hadd] at hfillScales
  rw [hbiasesRows, hadd] at hfillBiases
  refine ⟨⟨qweight', scales', biases'⟩, ?_, hfillWords, hfillScales, hfillBiases⟩
  have hslice : (rows.slice start stop).data.flatten = chunk.flatten := by rw [← hchunk]; rfl
  have hparse : parse books half qtype blocks.data =
      ⟨chunk.flatMap fun row => (parseRow books half qtype row).codes,
        chunk.flatMap fun row => (parseRow books half qtype row).scales,
        chunk.flatMap fun row => (parseRow books half qtype row).biases⟩ := by
    rw [hdata, parse, flatMap_parse, flatMap_parse, flatMap_parse]
    rfl
  simp only [repackChunk, hstopEq, hslice, hblocks, hparse, hcodes, hwords,
    qtype.mul_blockElems_div, hscales, hbiases, hqweight', hscales', hbiases',
    Option.bind_eq_bind, Option.bind_some]
  rfl

/-- The arrays before the loop. -/
theorem repacked_zero (books : Codebooks) (half : ℕ → K) (qtype : AffineType)
    (rows : Array2 UInt8) (numGroups : ℕ) : Repacked books half qtype rows numGroups 0
      { qweight := .full rows.rows (numGroups * qtype.bits) 0
        scales := .full rows.rows numGroups 0
        biases := .full rows.rows numGroups 0 } := by
  have hfull : ∀ {α : Type} (f : List UInt8 → List α) (cols : ℕ) (x : α),
      (Array2.full rows.rows cols x).Filled (rows.data.map f) cols 0 := by
    intro α f cols x
    have hrows : rows.rows = (rows.data.map f).length := by
      rw [List.length_map, rows.length_data]
    rw [hrows]
    exact Array2.filled_full _ _ _
  exact ⟨hfull _ _ _, hfull _ _ _, hfull _ _ _⟩

/-- The start of a chunk is below the rows. -/
theorem start_of_prefix {rows chunkRows start : ℕ} {done rest : List ℕ} (hchunk : 0 < chunkRows)
    (h : done ++ [start] ++ rest = strided 0 rows chunkRows) :
    start = done.length * chunkRows ∧ start < rows := by
  have hget : (strided 0 rows chunkRows)[done.length]? = some start := by
    rw [← h, List.append_assoc, List.getElem?_append_right (Nat.le_refl _), Nat.sub_self]
    rfl
  have hlt : done.length < (rows - 0 + chunkRows - 1) / chunkRows := by
    have hlength := (List.getElem?_eq_some_iff.mp hget).1
    rwa [strided, List.length_range'] at hlength
  have hstart : start = done.length * chunkRows := by
    rw [strided, List.getElem?_range' hlt, Option.some.injEq] at hget
    rw [← hget, Nat.zero_add, Nat.mul_comm]
  have hbelow := (Nat.le_div_iff_mul_le hchunk).mp (Nat.succ_le_of_lt hlt)
  rw [Nat.succ_mul] at hbelow
  exact ⟨hstart, by omega⟩

/-- **The loop packs row by row**, whatever the size of its chunks. -/
theorem repackRows_returns (books : Codebooks) (half : ℕ → K) {qtype : AffineType}
    {rows : Array2 UInt8} {n chunkRows : ℕ} (hchunk : 0 < chunkRows)
    (hcols : rows.cols = n * qtype.blockBytes) : ∃ arrays : RepackArrays K,
      repackRows books half qtype rows (n * qtype.blockElems) chunkRows = .ok arrays ∧
        Repacked books half qtype rows (n * qtype.blockGroups) rows.rows arrays := by
  obtain ⟨arrays, hloop, hdone⟩ := foldlM_returns
    (P := fun done arrays => Repacked books half qtype rows (n * qtype.blockGroups)
      (min (done.length * chunkRows) rows.rows) arrays)
    (f := fun arrays start => orShapes
      (repackChunk books half qtype rows (n * qtype.blockElems) chunkRows arrays start))
    (l := strided 0 rows.rows chunkRows) (fun done arrays start harrays hprefix => by
      obtain ⟨rest, hrest⟩ := hprefix
      obtain ⟨hstart, hbelow⟩ := start_of_prefix hchunk hrest
      rw [← hstart, Nat.min_eq_left (Nat.le_of_lt hbelow)] at harrays
      obtain ⟨arrays', hnext, hkept⟩ :=
        repackChunk_returns chunkRows hcols (Nat.le_of_lt hbelow) harrays
      refine ⟨arrays', by rw [hnext]; rfl, ?_⟩
      rw [List.length_append, List.length_singleton, Nat.succ_mul, ← hstart]
      exact hkept)
    (by simpa using repacked_zero books half qtype rows (n * qtype.blockGroups))
  refine ⟨arrays, ?_, ?_⟩
  · simp only [repackRows, qtype.mul_blockElems_div]
    exact hloop
  · have hall : rows.rows ≤ (strided 0 rows.rows chunkRows).length * chunkRows := by
      have hlt := Nat.lt_div_mul_add (a := rows.rows - 0 + chunkRows - 1) hchunk
      rw [strided, List.length_range']
      omega
    rwa [Nat.min_eq_right hall] at hdone

/-! ### The tensor -/

/-- Block `b` of row `r` of a payload of `n` blocks a row. -/
def blockOf (qtype : AffineType) (blockData : List UInt8) (n r b : ℕ) : List UInt8 :=
  (blockData.drop ((r * n + b) * qtype.blockBytes)).take qtype.blockBytes

theorem getElem?_flatMap_rows {α β : Type*} {l : List α} {f : α → List β} {n c t : ℕ} {a : α}
    (hlen : ∀ b ∈ l, (f b).length = n) (ha : l[c]? = some a) (ht : t < n) :
    (l.flatMap f)[c * n + t]? = (f a)[t]? := by
  have hrow : (l.map f)[c]? = some (f a) := by rw [List.getElem?_map, ha, Option.map_some]
  rw [List.flatMap_def]
  refine getElem?_flatten_of_length (fun row hmem => ?_) hrow ht
  obtain ⟨b, hb, rfl⟩ := List.mem_map.mp hmem
  exact hlen b hb

/-- The weights of a row, block by block. -/
theorem parseRow_weight (books : Codebooks) (hhalf : ReadsHalves half) {qtype : AffineType}
    {row : List UInt8} {n b e : ℕ} (h : row.length = n * qtype.blockBytes)
    (hb : b < n) (he : e < qtype.blockElems)
    (hfit : HalvesFit qtype (byteAt ((row.drop (b * qtype.blockBytes)).take qtype.blockBytes))) :
    let p := parseRow books half qtype row
    let i := b * qtype.blockElems + e
    i < p.codes.length ∧
      p.scales.getD (i / 32) 0 * ((p.codes.getD i 0).toNat : K) + p.biases.getD (i / 32) 0 =
        blockWeight books half qtype
          (byteAt ((row.drop (b * qtype.blockBytes)).take qtype.blockBytes)) e := by
  intro p i
  generalize hblock : (row.drop (b * qtype.blockBytes)).take qtype.blockBytes = block at hfit ⊢
  -- the block of the element, and its place in the arrays of the row
  have hrows : (reshapeRows qtype.blockBytes row)[b]? = some block := by
    rw [getElem?_reshapeRows (by rwa [h, Nat.mul_div_cancel _ qtype.blockBytes_pos]), hblock]
  have hdecodes : ∀ block ∈ reshapeRows qtype.blockBytes row,
      Decodes books half qtype block (parseBlock books half qtype block) :=
    fun block hmem => decodes_of_mem_row hmem
  have hmem := List.mem_of_getElem? hrows
  have hgroup := AffineType.div_lt_blockGroups he
  have hi : i / 32 = b * qtype.blockGroups + e / 32 := by
    show (b * qtype.blockElems + e) / 32 = _
    rw [AffineType.blockElems, ← Nat.mul_assoc, Nat.add_comm, Nat.add_mul_div_right _ _ (by decide),
      Nat.add_comm]
  -- the code, the scale and the bias are those that the block was parsed into
  have hcode : p.codes.getD i 0 = (parseBlock books half qtype block).codes.getD e 0 := by
    rw [List.getD_eq_getElem?_getD, List.getD_eq_getElem?_getD,
      ← getElem?_flatMap_rows (fun block hmem => (hdecodes block hmem).length_codes) hrows he]
    rfl
  have hscale : p.scales.getD (i / 32) 0 =
      (parseBlock books half qtype block).scales.getD (e / 32) 0 := by
    rw [hi, List.getD_eq_getElem?_getD, List.getD_eq_getElem?_getD,
      ← getElem?_flatMap_rows (fun block hmem => (hdecodes block hmem).length_scales) hrows
        hgroup]
    rfl
  have hbias : p.biases.getD (i / 32) 0 =
      (parseBlock books half qtype block).biases.getD (e / 32) 0 := by
    rw [hi, List.getD_eq_getElem?_getD, List.getD_eq_getElem?_getD,
      ← getElem?_flatMap_rows (fun block hmem => (hdecodes block hmem).length_biases) hrows
        hgroup]
    rfl
  refine ⟨?_, ?_⟩
  · have hle := Nat.mul_le_mul_right qtype.blockElems (Nat.succ_le_of_lt hb)
    rw [Nat.succ_mul] at hle
    rw [(parseRow_lengths h).codes]
    show b * qtype.blockElems + e < _
    omega
  · rw [hcode, hscale, hbias]
    exact (hdecodes block hmem).weight hhalf hfit e he

/-- The weights of a packed row, as MLX dequantizes them. -/
theorem packedRow_weight (books : Codebooks) (hhalf : ReadsHalves half) {qtype : AffineType}
    {row : List UInt8} {n i : ℕ} (h : row.length = n * qtype.blockBytes)
    (hi : i < n * qtype.blockElems)
    (hfit : ∀ b < n, HalvesFit qtype
      (byteAt ((row.drop (b * qtype.blockBytes)).take qtype.blockBytes))) :
    let b := i / qtype.blockElems
    let p := parseRow books half qtype row
    let code := GGUFMLXQuantizedTensor.packedCode qtype.bits (rowWords books half qtype row) i
    b < n ∧ p.scales.getD (i / 32) 0 * (code : K) + p.biases.getD (i / 32) 0 =
      blockWeight books half qtype
        (byteAt ((row.drop (b * qtype.blockBytes)).take qtype.blockBytes))
        (i % qtype.blockElems) := by
  intro b p code
  have hb : b < n := Nat.div_lt_of_lt_mul (by rwa [Nat.mul_comm])
  have he : i % qtype.blockElems < qtype.blockElems := Nat.mod_lt i qtype.blockElems_pos
  have hplace : b * qtype.blockElems + i % qtype.blockElems = i := by
    rw [Nat.mul_comm]
    exact Nat.div_add_mod i qtype.blockElems
  obtain ⟨hlt, hweight⟩ := parseRow_weight books hhalf h hb he (hfit b hb)
  rw [hplace] at hlt hweight
  have hwhole : 32 ∣ p.codes.length := by
    rw [(parseRow_lengths h).codes]
    exact qtype.dvd_mul_blockElems n
  have hcode : (p.codes.getD i 0).toNat < 2 ^ qtype.bits := by
    rw [List.getD_eq_getElem _ _ hlt]
    exact parseRow_code_lt _ (List.getElem_mem hlt)
  have hread : code = (p.codes.getD i 0).toNat :=
    packedCode_eq (packRow_sameBits hwhole parseRow_code_lt) hlt hcode
  rw [hread]
  exact ⟨hb, hweight⟩

/-- What the repack asks of a payload: a positive shape of whole blocks, and their bytes. -/
structure Accepts (qtype : AffineType) (blockData : List UInt8) (logicalShape : List ℤ)
    (outFeatures n : ℕ) : Prop where
  shape : logicalShape = [(outFeatures : ℤ), ((n * qtype.blockElems : ℕ) : ℤ)]
  out : 0 < outFeatures
  blocks : 0 < n
  size : blockData.length = outFeatures * n * qtype.blockBytes

/-- The errors that are about the payload. -/
def RepackError.OfPayload : RepackError → Prop
  | .logicalShape _ _ | .inFeatures _ _ | .size _ _ _ => True
  | _ => False

/-- The rows of a payload. -/
def payloadRows (blockData : List UInt8) (outFeatures rowBytes : ℕ) : List (List UInt8) :=
  (List.range outFeatures).map fun r => (blockData.drop (r * rowBytes)).take rowBytes

/-- The tensor of rows of `n` blocks: what their parser returns, packed. -/
structure PackedFrom (books : Codebooks) (half : ℕ → K) (qtype : AffineType) (n : ℕ)
    (rows : List (List UInt8)) (t : GGUFMLXQuantizedTensor K) : Prop where
  qweightType : t.qweightType = qtype
  numGroups : t.numGroups = n * qtype.blockGroups
  qweight : t.qweight = rows.map (rowWords books half qtype)
  scales : t.scales = rows.map fun row => (parseRow books half qtype row).scales
  biases : t.biases = rows.map fun row => (parseRow books half qtype row).biases

/-- **What is accepted is repacked**, and no check of the arrays fails. -/
theorem fromRawBlocks_ok (books : Codebooks) (half : ℕ → K) {qtype : AffineType}
    {blockData : List UInt8} {logicalShape : List ℤ} {outFeatures n : ℕ}
    (h : Accepts qtype blockData logicalShape outFeatures n) :
    ∃ t, GGUFMLXQuantizedTensor.fromRawBlocks books half blockData logicalShape qtype = .ok t ∧
      PackedFrom books half qtype n (payloadRows blockData outFeatures (n * qtype.blockBytes))
        t := by
  obtain ⟨hshape, hout, hblocks, hsize⟩ := h
  subst hshape
  have helems : 0 < n * qtype.blockElems := Nat.mul_pos hblocks qtype.blockElems_pos
  have hwhole : n * qtype.blockElems / qtype.blockElems = n :=
    Nat.mul_div_cancel _ qtype.blockElems_pos
  have hwidth : outFeatures * n * qtype.blockBytes / outFeatures = n * qtype.blockBytes := by
    rw [Nat.mul_assoc, Nat.mul_div_cancel_left _ hout]
  have hfit : blockData.length = outFeatures * (n * qtype.blockBytes) := by
    rw [hsize, Nat.mul_assoc]
  -- the checks on the input accept it, and the bytes are its rows
  obtain ⟨rows, hrows, hrowsRows, hrowsCols, hrowsData⟩ : ∃ rows : Array2 UInt8,
      Array2.reshape outFeatures (n * qtype.blockBytes) blockData = some rows ∧
        rows.rows = outFeatures ∧ rows.cols = n * qtype.blockBytes ∧
        rows.data = payloadRows blockData outFeatures (n * qtype.blockBytes) :=
    ⟨_, dif_pos hfit, rfl, rfl, rfl⟩
  obtain ⟨arrays, harrays, hrepacked⟩ := repackRows_returns books half
    (Nat.lt_of_lt_of_le (by decide : 0 < 1) (Nat.le_max_left 1
      (repackChunkElements / (n * qtype.blockElems)))) hrowsCols
  have hlen : ∀ {α : Type} (f : List UInt8 → List α), (rows.data.map f).length = rows.rows := by
    intro α f
    rw [List.length_map, rows.length_data]
  have hwords := hrepacked.qweight
  have hscales := hrepacked.scales
  have hbiases := hrepacked.biases
  rw [← hlen (rowWords books half qtype)] at hwords
  rw [← hlen fun row => (parseRow books half qtype row).scales] at hscales
  rw [← hlen fun row => (parseRow books half qtype row).biases] at hbiases
  -- the checks of the constructor hold of the arrays that come out
  have hbiasesShape : arrays.scales.rows = arrays.biases.rows ∧
      arrays.scales.cols = arrays.biases.cols :=
    ⟨by rw [hscales.rows, hbiases.rows, hlen, hlen], by rw [hscales.cols, hbiases.cols]⟩
  have hrowsShape : arrays.scales.rows = arrays.qweight.rows := by
    rw [hscales.rows, hwords.rows, hlen, hlen]
  have hpacked : arrays.qweight.cols = arrays.scales.cols * qtype.bits := by
    rw [hwords.cols, hscales.cols]
  have hgroup : 1 ≤ arrays.scales.cols := by
    rw [hscales.cols]
    exact Nat.mul_pos hblocks qtype.blockGroups_pos
  have hpositive : ¬ ((outFeatures : ℤ) < 1 ∨ ((n * qtype.blockElems : ℕ) : ℤ) < 1) := by omega
  rw [GGUFMLXQuantizedTensor.fromRawBlocks, if_neg hpositive]
  simp only [Int.toNat_natCast, Nat.mul_mod_left, hwhole, ne_eq, not_true_eq_false, if_false,
    hsize, hwidth, hrows, orShapes, bind, Except.bind, harrays]
  rw [GGUFMLXQuantizedTensor.construct, dif_pos hbiasesShape, dif_pos hrowsShape,
    dif_pos hpacked, dif_pos hgroup, ← hrowsData]
  exact ⟨_, rfl, rfl, hscales.cols, hwords.data_eq, hscales.data_eq, hbiases.data_eq⟩

/-- **What is not accepted is an error of the payload.** -/
theorem fromRawBlocks_rejects (books : Codebooks) (half : ℕ → K) {qtype : AffineType}
    {blockData : List UInt8} {logicalShape : List ℤ}
    (h : ∀ outFeatures n, ¬ Accepts qtype blockData logicalShape outFeatures n) :
    ∃ error, GGUFMLXQuantizedTensor.fromRawBlocks books half blockData logicalShape qtype =
      .error error ∧ error.OfPayload := by
  unfold GGUFMLXQuantizedTensor.fromRawBlocks
  split
  · next outFeatures inFeatures =>
    split
    · exact ⟨_, rfl, trivial⟩
    · next hpositive =>
      split
      · exact ⟨_, rfl, trivial⟩
      · next hblocks =>
        simp only
        split
        · exact ⟨_, rfl, trivial⟩
        · next hsize =>
          rw [ne_eq, not_not] at hblocks hsize
          have hwhole : inFeatures.toNat / qtype.blockElems * qtype.blockElems = inFeatures.toNat :=
            Nat.div_mul_cancel (Nat.dvd_of_mod_eq_zero hblocks)
          refine absurd ⟨?_, ?_, ?_, hsize⟩
            (h outFeatures.toNat (inFeatures.toNat / qtype.blockElems))
          · rw [hwhole, Int.toNat_of_nonneg (by omega), Int.toNat_of_nonneg (by omega)]
          · omega
          · refine Nat.pos_of_ne_zero fun hzero => ?_
            rw [hzero, Nat.zero_mul] at hwhole
            omega
  · exact ⟨_, rfl, trivial⟩

/-! ### The rows of a file -/

/-- The row that the blocks of a payload stand for. -/
def fileRow (books : Codebooks) (half : ℕ → K) (qtype : AffineType) (blockData : List UInt8)
    (n r : ℕ) : List K :=
  (List.range n).flatMap fun b => (List.range qtype.blockElems).map
    (blockWeight books half qtype (byteAt (blockOf qtype blockData n r b)))

/-- The halves of the blocks of a row fit. -/
def RowFits (qtype : AffineType) (blockData : List UInt8) (n r : ℕ) : Prop :=
  ∀ b < n, HalvesFit qtype (byteAt (blockOf qtype blockData n r b))

/-- A block of a row of a payload. -/
theorem take_drop_payloadRow (blockData : List UInt8) {n r b : ℕ} (hb : b < n) :
    (((blockData.drop (r * (n * qtype.blockBytes))).take (n * qtype.blockBytes)).drop
      (b * qtype.blockBytes)).take qtype.blockBytes = blockOf qtype blockData n r b := by
  have hle := Nat.mul_le_mul_right qtype.blockBytes (Nat.succ_le_of_lt hb)
  rw [Nat.succ_mul] at hle
  rw [List.drop_take, List.take_take, List.drop_drop, Nat.min_eq_left (by omega), blockOf,
    Nat.add_mul, Nat.mul_assoc]

/-- **The rows of a packed tensor are those of the file**, where the halves of their blocks fit. -/
theorem PackedFrom.dequantizeIds {blockData : List UInt8} {outFeatures n : ℕ}
    {t : GGUFMLXQuantizedTensor K}
    (h : PackedFrom books half qtype n (payloadRows blockData outFeatures (n * qtype.blockBytes)) t)
    (hsize : blockData.length = outFeatures * n * qtype.blockBytes) :
    t.outFeatures = outFeatures ∧ t.inFeatures = n * qtype.blockElems ∧
      (ReadsHalves half → ∀ ids, (∀ r ∈ ids, r < outFeatures ∧ RowFits qtype blockData n r) →
        t.dequantizeIds ids = ids.map (fileRow books half qtype blockData n)) := by
  have hin : t.inFeatures = n * qtype.blockElems := by
    rw [GGUFMLXQuantizedTensor.inFeatures, h.numGroups, AffineType.blockElems, Nat.mul_assoc]
    rfl
  refine ⟨?_, hin, fun hhalf ids hids => List.map_congr_left fun r hmem => ?_⟩
  · rw [GGUFMLXQuantizedTensor.outFeatures, h.qweight, List.length_map, payloadRows,
      List.length_map, List.length_range]
  · obtain ⟨hr, hfits⟩ := hids r hmem
    -- row `r` of the payload, and its blocks
    generalize hrow : (blockData.drop (r * (n * qtype.blockBytes))).take (n * qtype.blockBytes) =
      row
    have hlen : row.length = n * qtype.blockBytes := by
      have hle := Nat.mul_le_mul_right (n * qtype.blockBytes) (Nat.succ_le_of_lt hr)
      rw [Nat.succ_mul, ← Nat.mul_assoc outFeatures, ← hsize] at hle
      rw [← hrow, List.length_take, List.length_drop]
      omega
    have hget : ∀ {α : Type} (f : List UInt8 → List α),
        ((payloadRows blockData outFeatures (n * qtype.blockBytes)).map f).getD r [] = f row := by
      intro α f
      rw [payloadRows, List.map_map, List.getD_eq_getElem _ _ (by simpa using hr),
        List.getElem_map, List.getElem_range, ← hrow]
      rfl
    have hblock : ∀ b < n, (row.drop (b * qtype.blockBytes)).take qtype.blockBytes =
        blockOf qtype blockData n r b := by
      intro b hb
      rw [← hrow, take_drop_payloadRow blockData hb]
    rw [GGUFMLXQuantizedTensor.dequantizeRow, hin, fileRow, flatMap_range_map n qtype.blockElems
      fun b e => blockWeight books half qtype (byteAt (blockOf qtype blockData n r b)) e,
      h.qweight, h.scales, h.biases, hget, hget, hget, h.qweightType]
    -- each weight is that of its block
    refine List.map_congr_left fun i hi => ?_
    obtain ⟨hb, hweight⟩ := packedRow_weight books hhalf hlen (List.mem_range.mp hi)
      fun b hb => (hblock b hb).symm ▸ hfits b hb
    rw [hblock _ hb] at hweight
    exact hweight

/-- **Repacking preserves every weight.**  The repack returns a tensor for exactly the payloads of
whole blocks that fill their shape, whatever its chunks, and the rows of the tensor whose biases are
finite halves are those that the format gives the payload; everything else is an error that names
the payload. -/
theorem fromRawBlocks_decodes (books : Codebooks) (half : ℕ → K) (hhalf : ReadsHalves half)
    (qtype : AffineType) (blockData : List UInt8) (logicalShape : List ℤ) :
    (∀ t, GGUFMLXQuantizedTensor.fromRawBlocks books half blockData logicalShape qtype = .ok t →
      ∃ outFeatures n, Accepts qtype blockData logicalShape outFeatures n ∧
        t.qweightType = qtype ∧ t.outFeatures = outFeatures ∧
        t.inFeatures = n * qtype.blockElems ∧
        ∀ ids, (∀ r ∈ ids, r < outFeatures ∧ RowFits qtype blockData n r) →
          t.dequantizeIds ids = ids.map (fileRow books half qtype blockData n)) ∧
    ∀ error, GGUFMLXQuantizedTensor.fromRawBlocks books half blockData logicalShape qtype =
        .error error →
      error.OfPayload ∧ ∀ outFeatures n, ¬ Accepts qtype blockData logicalShape outFeatures n := by
  by_cases haccepts : ∃ outFeatures n, Accepts qtype blockData logicalShape outFeatures n
  · obtain ⟨outFeatures, n, haccepts⟩ := haccepts
    obtain ⟨t', hok, hpacked⟩ := fromRawBlocks_ok books half haccepts
    constructor
    · intro t ht
      obtain rfl : t' = t := by
        rw [hok, Except.ok.injEq] at ht
        exact ht
      obtain ⟨hout, hin, hrows⟩ := hpacked.dequantizeIds haccepts.size
      exact ⟨outFeatures, n, haccepts, hpacked.qweightType, hout, hin, hrows hhalf⟩
    · intro error herror
      rw [hok] at herror
      cases herror
  -- a shape or a payload that is not accepted is rejected
  · have hnone : ∀ outFeatures n, ¬ Accepts qtype blockData logicalShape outFeatures n :=
      fun outFeatures n h => haccepts ⟨outFeatures, n, h⟩
    obtain ⟨error', herror', hpayload⟩ :=
      fromRawBlocks_rejects books half hnone
    constructor
    · intro t ht
      rw [herror'] at ht
      cases ht
    · intro error herror
      rw [herror', Except.error.injEq] at herror
      exact ⟨herror ▸ hpayload, hnone⟩

end Repack

/-- Two rows of a block of `Q5_0`: the scale of the first is `1.5` and the fifth bit of its weight
16 is set, that of the second is `4096`. -/
theorem fromRawBlocks_decodes_block :
    let blockData : List UInt8 := [0x00, 0x3E, 0, 0, 1, 0] ++ List.replicate 16 0x52 ++
      ([0x00, 0x6C, 0, 0, 0, 0] ++ List.replicate 16 0)
    ∃ t, GGUFMLXQuantizedTensor.fromRawBlocks iq4Codebooks halfValue blockData [2, 32] .q5_0 =
        .ok t ∧
      t.dequantizeIds [0] =
        [List.replicate 16 (-21) ++ (15 / 2 :: List.replicate 15 (-33 / 2))] := by
  intro blockData
  obtain ⟨hok, herror⟩ := fromRawBlocks_decodes iq4Codebooks halfValue readsHalves_halfValue .q5_0
    blockData [2, 32]
  have haccepts : Accepts .q5_0 blockData [2, 32] 2 1 := ⟨rfl, by decide, by decide, rfl⟩
  cases hrun : GGUFMLXQuantizedTensor.fromRawBlocks iq4Codebooks halfValue blockData [2, 32]
      .q5_0 with
  | error error => exact absurd haccepts ((herror error hrun).2 2 1)
  | ok t =>
    obtain ⟨outFeatures, n, h, -, -, -, hrows⟩ := hok t hrun
    obtain ⟨rfl, rfl⟩ : outFeatures = 2 ∧ n = 1 := by
      have hshape := h.shape.symm
      simp only [List.cons.injEq, and_true] at hshape
      obtain ⟨hout, hn⟩ := hshape
      have hn : n * 32 = 32 := by exact_mod_cast hn
      exact ⟨by exact_mod_cast hout, by omega⟩
    have hfits : ∀ r ∈ [0], r < 2 ∧ RowFits .q5_0 blockData 1 r := by
      intro r hr
      obtain rfl := List.mem_singleton.mp hr
      refine ⟨by decide, fun b hb => ?_⟩
      obtain rfl := Nat.lt_one_iff.mp hb
      decide +kernel
    refine ⟨t, rfl, (hrows [0] hfits).trans ?_⟩
    decide +kernel

end Gguf
end VllmMetal
