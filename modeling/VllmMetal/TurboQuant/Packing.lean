import VllmMetal.Lib.BitStream

/-!
# TurboQuant packing

Indices of 2, 3, 4 or 5 bits are packed into bytes by the host and by the encoder kernel, and read
back by the host and by several readers of the decode kernels.  Each of them is written out on its
own; all of them are one little-endian bit stream.

## Main definitions

* `packBits`, `unpackBits` — the packers of the host, and their inverses.
* `tqPackByte` — one byte of the encoder kernel.
* `unpackKBits`, `unpackVBits`, `unpack3bit`, `gqaTqUnpack` — the readers of the decode kernels, on
  a row of bytes; `none` is a read past the row.

## Main results

* `turboquant_one_layout` — the packers and the readers agree on every row.
-/

namespace VllmMetal
namespace TurboQuant

/-- The errors of the packers. -/
inductive PackError where
  /-- "head_dim=... * bits=... = ... is not divisible by 8; choose a head_dim and bit width whose
  product is byte-aligned". -/
  | notByteAligned (headDim bits : ℕ)
  /-- "Unsupported bit width for packing: ...", or for unpacking. -/
  | unsupported (bits : ℕ)
  /-- A `reshape` whose rows do not divide the data. -/
  | reshape
  deriving DecidableEq

/-! ### The packers of the host -/

/-- `packed_dim`. -/
def packedDim (headDim bits : ℕ) : Except PackError ℕ :=
  if headDim * bits % 8 ≠ 0 then .error (.notByteAligned headDim bits)
  else .ok (headDim * bits / 8)

/-- `_pack_2bit`, on a group of four. -/
def pack2bit (g : List (BitVec 8)) : List (BitVec 8) :=
  [(g.getD 0 0 &&& 0x3) ||| ((g.getD 1 0 &&& 0x3) <<< 2) ||| ((g.getD 2 0 &&& 0x3) <<< 4) |||
    ((g.getD 3 0 &&& 0x3) <<< 6)]

/-- `_unpack_2bit`, on one byte. -/
def unpack2bit (g : List (BitVec 8)) : List (BitVec 8) :=
  let b := g.getD 0 0
  [b &&& 0x3, (b >>> 2) &&& 0x3, (b >>> 4) &&& 0x3, (b >>> 6) &&& 0x3]

/-- `_pack_3bit`, on a group of eight. -/
def pack3bit (g : List (BitVec 8)) : List (BitVec 8) :=
  let v := fun i => (g.getD i 0).setWidth 32
  let b0 := (v 0 &&& 0x7) ||| ((v 1 &&& 0x7) <<< 3) ||| ((v 2 &&& 0x7) <<< 6)
  let b1 := ((v 2 &&& 0x7) >>> 2) ||| ((v 3 &&& 0x7) <<< 1) ||| ((v 4 &&& 0x7) <<< 4) |||
    ((v 5 &&& 0x7) <<< 7)
  let b2 := ((v 5 &&& 0x7) >>> 1) ||| ((v 6 &&& 0x7) <<< 2) ||| ((v 7 &&& 0x7) <<< 5)
  [b0.setWidth 8, b1.setWidth 8, b2.setWidth 8]

/-- `_unpack_3bit`, on three bytes. -/
def unpack3bitGroup (g : List (BitVec 8)) : List (BitVec 8) :=
  let b := fun i => (g.getD i 0).setWidth 32
  let combined := b 0 ||| (b 1 <<< 8) ||| (b 2 <<< 16)
  (List.range 8).map fun i => ((combined >>> (i * 3)) &&& 0x7).setWidth 8

/-- `_pack_4bit`, on a group of two. -/
def pack4bit (g : List (BitVec 8)) : List (BitVec 8) :=
  [(g.getD 0 0 &&& 0xF) ||| ((g.getD 1 0 &&& 0xF) <<< 4)]

/-- `_unpack_4bit`, on one byte. -/
def unpack4bit (g : List (BitVec 8)) : List (BitVec 8) :=
  let b := g.getD 0 0
  [b &&& 0xF, (b >>> 4) &&& 0xF]

/-- `_pack_5bit`, on a group of eight. -/
def pack5bit (g : List (BitVec 8)) : List (BitVec 8) :=
  let v := fun i => (g.getD i 0).setWidth 64
  let combined := (List.range' 1 7).foldl (fun combined i =>
    combined ||| ((v i &&& 0x1F) <<< (i * 5))) (v 0 &&& 0x1F)
  (List.range 5).map fun i => ((combined >>> (i * 8)) &&& 0xFF).setWidth 8

/-- `_unpack_5bit`, on five bytes. -/
def unpack5bit (g : List (BitVec 8)) : List (BitVec 8) :=
  let b := fun i => (g.getD i 0).setWidth 64
  let combined := b 0 ||| (b 1 <<< 8) ||| (b 2 <<< 16) ||| (b 3 <<< 24) ||| (b 4 <<< 32)
  (List.range 8).map fun i => ((combined >>> (i * 5)) &&& 0x1F).setWidth 8

/-- `reshape` into groups, and one packer for all of them. -/
def packGroups (group : ℕ) (pack : List (BitVec 8) → List (BitVec 8)) (values : List (BitVec 8)) :
    Except PackError (List (BitVec 8)) :=
  if group ∣ values.length then .ok ((reshapeRows group values).flatMap pack) else .error .reshape

/-- The inverse of `packGroups`, into a row of `origDim` values. -/
def unpackGroups (group : ℕ) (unpack : List (BitVec 8) → List (BitVec 8))
    (packed : List (BitVec 8)) (origDim : ℕ) : Except PackError (List (BitVec 8)) :=
  if group ∣ packed.length then
    let unpacked := (reshapeRows group packed).flatMap unpack
    if unpacked.length = origDim then .ok unpacked else .error .reshape
  else .error .reshape

/-- `pack_bits`, on one row. -/
def packBits (values : List (BitVec 8)) (bits : ℕ) : Except PackError (List (BitVec 8)) :=
  match bits with
  | 8 => .ok values
  | 2 => packGroups 4 pack2bit values
  | 3 => packGroups 8 pack3bit values
  | 4 => packGroups 2 pack4bit values
  | 5 => packGroups 8 pack5bit values
  | bits => .error (.unsupported bits)

/-- `unpack_bits`, on one row. -/
def unpackBits (packed : List (BitVec 8)) (bits origDim : ℕ) :
    Except PackError (List (BitVec 8)) :=
  match bits with
  | 8 => .ok packed
  | 2 => unpackGroups 1 unpack2bit packed origDim
  | 3 => unpackGroups 3 unpack3bitGroup packed origDim
  | 4 => unpackGroups 1 unpack4bit packed origDim
  | 5 => unpackGroups 5 unpack5bit packed origDim
  | bits => .error (.unsupported bits)

/-- The codes of one group of each width. -/
def groupSize : ℕ → ℕ
  | 2 => 4
  | 3 => 8
  | 4 => 2
  | 5 => 8
  | _ => 1

/-! ### The kernels -/

/-- What element `e` contributes to the byte that starts at bit `bitStart`. -/
def tqByteShare (idx : BitVec 8) (e bitStart bits : ℕ) : BitVec 32 :=
  let mask : BitVec 32 := (1#32 <<< bits) - 1#32
  let eBit := e * bits
  let idxV := idx.setWidth 32 &&& mask
  if bitStart ≤ eBit then idxV <<< (eBit - bitStart) else idxV >>> (bitStart - eBit)

/-- `tq_pack_byte`: the elements that overlap the byte, from the first to the last. -/
def tqPackByte (idxBuf : List (BitVec 8)) (bitStart bits : ℕ) : Option (BitVec 32) := do
  let firstE := bitStart / bits
  let lastE := (bitStart + 7) / bits
  let byte ← (List.range' firstE (lastE + 1 - firstE)).foldlM (fun byte e => do
    let idx ← idxBuf[e]?
    pure (byte ||| tqByteShare idx e bitStart bits)) 0
  pure (byte &&& 0xFF)

/-- `unpack_k_bits`. -/
def unpackKBits (bytes : List (BitVec 8)) (elemIdx bits : ℕ) : Option (BitVec 32) := do
  let bitPos := elemIdx * bits
  let byteIdx := bitPos / 8
  let bitOffset := bitPos % 8
  let low ← bytes[byteIdx]?
  let raw ← if bitOffset + bits > 8 then do
      let high ← bytes[byteIdx + 1]?
      pure (low.setWidth 32 ||| (high.setWidth 32 <<< 8))
    else pure (low.setWidth 32)
  pure ((raw >>> bitOffset) &&& ((1#32 <<< bits) - 1#32))

/-- `unpack_v_bits`, written out a second time in the source. -/
def unpackVBits (bytes : List (BitVec 8)) (elemIdx bits : ℕ) : Option (BitVec 32) := do
  let bitPos := elemIdx * bits
  let byteIdx := bitPos / 8
  let bitOffset := bitPos % 8
  let low ← bytes[byteIdx]?
  let raw ← if bitOffset + bits > 8 then do
      let high ← bytes[byteIdx + 1]?
      pure (low.setWidth 32 ||| (high.setWidth 32 <<< 8))
    else pure (low.setWidth 32)
  pure ((raw >>> bitOffset) &&& ((1#32 <<< bits) - 1#32))

/-- `unpack_3bit`. -/
def unpack3bit (packed : List (BitVec 8)) (elemIdx : ℕ) : Option (BitVec 8) := do
  let group := elemIdx / 8
  let pos := elemIdx % 8
  let byteBase := group * 3
  let b0 ← packed[byteBase]?
  let b1 ← packed[byteBase + 1]?
  let b2 ← packed[byteBase + 2]?
  let combined := b0.setWidth 32 ||| (b1.setWidth 32 <<< 8) ||| (b2.setWidth 32 <<< 16)
  pure (((combined >>> (pos * 3)) &&& 0x7).setWidth 8)

/-- The window of `gqa_tq_unpack`: of four bytes, those that hold the slice. -/
def gqaWindow (row : List (BitVec 8)) (base bytes : ℕ) : Option (BitVec 32) :=
  (List.range 4).foldlM (fun window b =>
    if b < bytes then do
      let byte ← row[base + b]?
      pure (window ||| (byte.setWidth 32 <<< (8 * b)))
    else pure window) 0

/-- `gqa_tq_unpack`: `SLICE` indices from element `d0` on. -/
def gqaTqUnpack (slice : ℕ) (row : List (BitVec 8)) (d0 bits : ℕ) : Option (List (BitVec 32)) :=
  let mask : BitVec 32 := (1#32 <<< bits) - 1#32
  if slice * bits + 7 ≤ 32 then do
    let bit0 := d0 * bits
    let shift := bit0 % 8
    let bytes := (shift + slice * bits + 7) / 8
    let window ← gqaWindow row (bit0 / 8) bytes
    pure ((List.range slice).map fun i => (window >>> (shift + i * bits)) &&& mask)
  else (List.range slice).mapM fun i => unpackKBits row (d0 + i) bits

/-! ### The packers are the stream -/

/-- Bytes that hold the bits of the codes. -/
theorem sameBits_of_bytes {w : ℕ} {codes bytes : List (BitVec 8)}
    (hlen : codes.length * w = bytes.length * 8)
    (h : ∀ r < bytes.length, ∀ q < 8, (bytes.getD r 0).getLsbD q = streamBit w codes (r * 8 + q)) :
    SameBits w 8 codes bytes := by
  refine ⟨hlen, fun p hp => ?_⟩
  have hr : p / 8 < bytes.length := by omega
  have hbit := h (p / 8) hr (p % 8) (Nat.mod_lt p (by omega))
  rw [Nat.mul_comm, Nat.div_add_mod] at hbit
  exact hbit.symm

/-- A code that was masked has no bits past its width. -/
theorem getLsbD_masked {n w : ℕ} (hw : w < n) (x : BitVec n) {b : ℕ} (hb : w ≤ b) :
    (x &&& lowMask n w).getLsbD b = false := by
  rw [getLsbD_and_lowMask hw, decide_eq_false (Nat.not_lt.mpr hb), Bool.and_false]

/-- Masked codes, shifted into the word at `start` and put together. -/
theorem getLsbD_packed {n w q : ℕ} (hw : w < n) (hpos : 0 < w) (codes : List (BitVec 8))
    (start : ℕ) {es : List ℕ} (hq : q < n) (hmem : (start + q) / w ∈ es) :
    (orShares w start (fun e => (codes.getD e 0).setWidth n &&& lowMask n w) es).getLsbD q =
      streamBit w codes (start + q) := by
  have hlt : (start + q) % w < w := Nat.mod_lt _ hpos
  rw [getLsbD_orShares hq (fun e _ b hb => getLsbD_masked hw _ hb) hmem, getLsbD_and_lowMask hw,
    BitVec.getLsbD_setWidth, decide_eq_true hlt, decide_eq_true (by omega : (start + q) % w < n),
    Bool.true_and, Bool.and_true, streamBit]

theorem sameBits_pack2bit (row : List (BitVec 8)) (h : row.length = 4) :
    SameBits 2 8 row (pack2bit row) := by
  have hbyte : pack2bit row = [orShares 2 0 (fun e => (row.getD e 0).setWidth 8 &&& lowMask 8 2)
      [0, 1, 2, 3]] := by
    simp [pack2bit, orShares, share, lowMask]
  refine sameBits_of_bytes (by rw [h]; rfl) fun r hr q hq => ?_
  obtain rfl : r = 0 := by simpa [pack2bit] using hr
  rw [hbyte]
  refine (getLsbD_packed (by omega) (by omega) row 0 hq ?_).trans (by simp)
  simp only [List.mem_cons, List.not_mem_nil, or_false]
  omega

theorem sameBits_pack4bit (row : List (BitVec 8)) (h : row.length = 2) :
    SameBits 4 8 row (pack4bit row) := by
  have hbyte : pack4bit row = [orShares 4 0 (fun e => (row.getD e 0).setWidth 8 &&& lowMask 8 4)
      [0, 1]] := by
    simp [pack4bit, orShares, share, lowMask]
  refine sameBits_of_bytes (by rw [h]; rfl) fun r hr q hq => ?_
  obtain rfl : r = 0 := by simpa [pack4bit] using hr
  rw [hbyte]
  refine (getLsbD_packed (by omega) (by omega) row 0 hq ?_).trans (by simp)
  simp only [List.mem_cons, List.not_mem_nil, or_false]
  omega

theorem sameBits_pack3bit (row : List (BitVec 8)) (h : row.length = 8) :
    SameBits 3 8 row (pack3bit row) := by
  have hbytes : pack3bit row = [(0, [0, 1, 2]), (8, [2, 3, 4, 5]), (16, [5, 6, 7])].map fun p =>
      (orShares 3 p.1 (fun e => (row.getD e 0).setWidth 32 &&& lowMask 32 3) p.2).setWidth 8 := by
    simp [pack3bit, orShares, share, lowMask]
  refine sameBits_of_bytes (by rw [h]; rfl) fun r hr q hq => ?_
  have hr3 : r < 3 := hr
  have hbit : ∀ (start : ℕ) (es : List ℕ), (start + q) / 3 ∈ es →
      ((orShares 3 start (fun e => (row.getD e 0).setWidth 32 &&& lowMask 32 3) es).setWidth
        8).getLsbD q = streamBit 3 row (start + q) := by
    intro start es hmem
    rw [BitVec.getLsbD_setWidth, decide_eq_true hq, Bool.true_and]
    exact getLsbD_packed (by omega) (by omega) row start (by omega) hmem
  rw [hbytes]
  obtain rfl | rfl | rfl : r = 0 ∨ r = 1 ∨ r = 2 := by omega
  · exact hbit 0 _ (by simp only [List.mem_cons, List.not_mem_nil, or_false]; omega)
  · exact hbit 8 _ (by simp only [List.mem_cons, List.not_mem_nil, or_false]; omega)
  · exact hbit 16 _ (by simp only [List.mem_cons, List.not_mem_nil, or_false]; omega)

theorem sameBits_pack5bit (row : List (BitVec 8)) (h : row.length = 8) :
    SameBits 5 8 row (pack5bit row) := by
  have hbytes : pack5bit row = (List.range 5).map fun i => ((orShares 5 0 (fun e =>
      (row.getD e 0).setWidth 64 &&& lowMask 64 5) (List.range 8) >>> (i * 8)) &&&
        lowMask 64 8).setWidth 8 := by
    simp [pack5bit, orShares, share, lowMask, List.range', List.range, List.range.loop]
  refine SameBits.symm ⟨by rw [h]; rfl, fun p hp => ?_⟩
  have hp' : p < 5 * 8 := hp
  rw [hbytes, streamBit_slices _ _ (by omega) (by omega) hp']
  have hmem : (0 + p) / 5 ∈ List.range 8 := List.mem_range.mpr (by omega)
  have hbit := getLsbD_packed (n := 64) (by omega) (by omega) row 0 (by omega) hmem
  rwa [Nat.zero_add] at hbit

/-! ### Reading bytes -/

/-- The word of `count` consecutive bytes. -/
theorem getLsbD_window {n b : ℕ} (hn : 8 ≤ n) (bytes : List (BitVec 8)) (base count : ℕ)
    (hb : b < 8 * count) (hbn : b < n) :
    (orShares 8 0 (fun e => (bytes.getD (base + e) 0).setWidth n) (List.range count)).getLsbD b =
      streamBit 8 bytes (base * 8 + b) := by
  have hhigh : ∀ e ∈ List.range count, ∀ q, 8 ≤ q →
      ((bytes.getD (base + e) 0).setWidth n).getLsbD q = false := by
    intro e _ q hq
    rw [BitVec.getLsbD_setWidth, BitVec.getLsbD_of_ge _ _ hq, Bool.and_false]
  have hdiv : (base * 8 + b) / 8 = base + (0 + b) / 8 := by omega
  have hmod : (base * 8 + b) % 8 = (0 + b) % 8 := by omega
  rw [getLsbD_orShares hbn hhigh (List.mem_range.mpr (by omega)), BitVec.getLsbD_setWidth,
    decide_eq_true (by omega : (0 + b) % 8 < n), Bool.true_and, streamBit, hdiv, hmod]

/-- The slices of consecutive bytes hold their bits. -/
theorem sameBits_slices {n w count total : ℕ} (hn : 8 ≤ n) (hw : w < n) (hw8 : w ≤ 8)
    {bytes : List (BitVec 8)} (hlen : count * w = bytes.length * 8) (htotal : bytes.length = total)
    (hfit : total * 8 ≤ n) :
    SameBits w 8 ((List.range count).map fun i => ((orShares 8 0 (fun e =>
      (bytes.getD e 0).setWidth n) (List.range total) >>> (i * w)) &&& lowMask n w).setWidth 8)
      bytes := by
  refine ⟨by rw [List.length_map, List.length_range, hlen], fun p hp => ?_⟩
  rw [List.length_map, List.length_range] at hp
  have hwindow := getLsbD_window (b := p) hn bytes 0 total (by omega) (by omega)
  simp only [Nat.zero_add, Nat.zero_mul] at hwindow
  rw [streamBit_slices _ _ hw hw8 hp, hwindow]

theorem toNat_slice_lt {n w : ℕ} (hw : w < n) {count : ℕ} {word : BitVec n} {x : BitVec 8}
    (hx : x ∈ (List.range count).map fun i => ((word >>> (i * w)) &&& lowMask n w).setWidth 8) :
    x.toNat < 2 ^ w := by
  obtain ⟨i, -, rfl⟩ := List.mem_map.mp hx
  rw [BitVec.toNat_setWidth]
  exact Nat.lt_of_le_of_lt (Nat.mod_le _ _) (toNat_and_lowMask_lt hw _)

/-- An unpacker of one group: its codes are the stream of the bytes, and below `2 ^ w`. -/
structure Unpacks (w group : ℕ) (unpack : List (BitVec 8) → List (BitVec 8)) : Prop where
  sameBits : ∀ row, row.length = group → SameBits w 8 (unpack row) row
  lt : ∀ row, ∀ x ∈ unpack row, x.toNat < 2 ^ w

/-- An unpacker that slices the word of its bytes. -/
theorem unpacks_of_slices {n w group count : ℕ} {unpack : List (BitVec 8) → List (BitVec 8)}
    (hn : 8 ≤ n) (hw : w < n) (hw8 : w ≤ 8) (hlen : count * w = group * 8) (hfit : group * 8 ≤ n)
    (hslices : ∀ row, unpack row = (List.range count).map fun i => ((orShares 8 0 (fun e =>
      (row.getD e 0).setWidth n) (List.range group) >>> (i * w)) &&& lowMask n w).setWidth 8) :
    Unpacks w group unpack := by
  refine ⟨fun row h => ?_, fun row x hx => ?_⟩
  · rw [hslices]
    exact sameBits_slices hn hw hw8 (by rw [h, hlen]) h hfit
  · rw [hslices] at hx
    exact toNat_slice_lt hw hx

theorem unpacks_unpack2bit : Unpacks 2 1 unpack2bit := by
  refine @unpacks_of_slices 8 2 1 4 _ (by omega) (by omega) (by omega) rfl (by omega) ?_
  intro row
  simp [unpack2bit, orShares, share, lowMask, List.range, List.range.loop]

theorem unpacks_unpack4bit : Unpacks 4 1 unpack4bit := by
  refine @unpacks_of_slices 8 4 1 2 _ (by omega) (by omega) (by omega) rfl (by omega) ?_
  intro row
  simp [unpack4bit, orShares, share, lowMask, List.range, List.range.loop]

theorem unpacks_unpack3bit : Unpacks 3 3 unpack3bitGroup := by
  refine @unpacks_of_slices 32 3 3 8 _ (by omega) (by omega) (by omega) rfl (by omega) ?_
  intro row
  simp [unpack3bitGroup, orShares, share, lowMask, List.range, List.range.loop]

theorem unpacks_unpack5bit : Unpacks 5 5 unpack5bit := by
  refine @unpacks_of_slices 64 5 5 8 _ (by omega) (by omega) (by omega) rfl (by omega) ?_
  intro row
  simp [unpack5bit, orShares, share, lowMask, List.range, List.range.loop]

/-! ### Whole rows -/

/-- The widths that are packed. -/
def PackedWidth (bits : ℕ) : Prop := bits = 2 ∨ bits = 3 ∨ bits = 4 ∨ bits = 5

theorem PackedWidth.pos {bits : ℕ} (h : PackedWidth bits) : 0 < bits := by
  unfold PackedWidth at h
  omega

theorem PackedWidth.le {bits : ℕ} (h : PackedWidth bits) : bits ≤ 5 := by
  unfold PackedWidth at h
  omega

/-- **A packed row is the stream of its codes.** -/
theorem packBits_ok {bits : ℕ} (hbits : PackedWidth bits) {values : List (BitVec 8)}
    (hgroup : groupSize bits ∣ values.length) :
    ∃ packed, packBits values bits = .ok packed ∧ SameBits bits 8 values packed := by
  have hpack : ∀ (group : ℕ) (pack : List (BitVec 8) → List (BitVec 8)), group ∣ values.length →
      (∀ row, row.length = group → SameBits bits 8 row (pack row)) →
      ∃ packed, packGroups group pack values = .ok packed ∧ SameBits bits 8 values packed :=
    fun group pack hdvd hrow =>
      ⟨_, if_pos hdvd, sameBits_flatMap hbits.pos (by omega) hdvd hrow⟩
  obtain rfl | rfl | rfl | rfl := hbits
  · exact hpack 4 pack2bit hgroup sameBits_pack2bit
  · exact hpack 8 pack3bit hgroup sameBits_pack3bit
  · exact hpack 2 pack4bit hgroup sameBits_pack4bit
  · exact hpack 8 pack5bit hgroup sameBits_pack5bit

/-- **An unpacked row is the stream of its bytes**, cut into codes of the width. -/
theorem unpackBits_ok {bits : ℕ} (hbits : PackedWidth bits) {packed : List (BitVec 8)}
    {origDim : ℕ} (hgroup : groupSize bits ∣ origDim) (hlen : origDim * bits = packed.length * 8) :
    ∃ values, unpackBits packed bits origDim = .ok values ∧ SameBits bits 8 values packed ∧
      ∀ x ∈ values, x.toNat < 2 ^ bits := by
  have hunpack : ∀ {group : ℕ} {unpack : List (BitVec 8) → List (BitVec 8)},
      Unpacks bits group unpack → group ∣ packed.length →
      ∃ values, unpackGroups group unpack packed origDim = .ok values ∧
        SameBits bits 8 values packed ∧ ∀ x ∈ values, x.toNat < 2 ^ bits := by
    intro group unpack hrow hdvd
    have hsame := (sameBits_flatMap (by omega) hbits.pos hdvd
      fun row h => (hrow.sameBits row h).symm).symm
    refine ⟨(reshapeRows group packed).flatMap unpack, ?_, hsame, ?_⟩
    · rw [unpackGroups, if_pos hdvd, if_pos]
      exact Nat.eq_of_mul_eq_mul_right hbits.pos (hsame.length_eq.trans hlen.symm)
    · intro x hx
      obtain ⟨row, -, hx⟩ := List.mem_flatMap.mp hx
      exact hrow.lt row x hx
  obtain rfl | rfl | rfl | rfl := hbits
  · exact hunpack unpacks_unpack2bit (Nat.one_dvd _)
  · refine hunpack unpacks_unpack3bit ?_
    obtain ⟨k, rfl⟩ := hgroup
    exact ⟨k, by simp only [groupSize] at hlen; omega⟩
  · exact hunpack unpacks_unpack4bit (Nat.one_dvd _)
  · refine hunpack unpacks_unpack5bit ?_
    obtain ⟨k, rfl⟩ := hgroup
    exact ⟨k, by simp only [groupSize] at hlen; omega⟩

/-! ### The kernels read and write the same stream -/

section Kernels

variable {bits : ℕ} {codes bytes : List (BitVec 8)}

/-- The bytes that cover the row's bits are there. -/
theorem getElem?_byte (bytes : List (BitVec 8)) {base : ℕ} (h : base < bytes.length) :
    bytes[base]? = some (bytes.getD base 0) := by
  rw [List.getElem?_eq_getElem h, List.getD_eq_getElem _ _ h]

/-- A mask and a shift of the right bytes give the code. -/
theorem shift_mask_eq (h : SameBits bits 8 codes bytes) (hbits : PackedWidth bits)
    (hcodes : ∀ x ∈ codes, x.toNat < 2 ^ bits) (word : BitVec 32) (base offset count : ℕ) {i : ℕ}
    (hword : ∀ b < 8 * count, word.getLsbD b = streamBit 8 bytes (base * 8 + b))
    (hcount : offset + bits ≤ 8 * count) (hpos : base * 8 + offset = i * bits)
    (hi : i < codes.length) :
    (word >>> offset) &&& ((1#32 <<< bits) - 1#32) = (codes.getD i 0).setWidth 32 := by
  have hle := hbits.le
  apply BitVec.eq_of_getLsbD_eq
  intro q hq
  change (word >>> offset &&& lowMask 32 bits).getLsbD q = _
  rw [getLsbD_and_lowMask (by omega), BitVec.getLsbD_ushiftRight, BitVec.getLsbD_setWidth,
    decide_eq_true hq, Bool.true_and]
  rcases Nat.lt_or_ge q bits with hlt | hge
  · rw [decide_eq_true hlt, Bool.and_true, hword _ (by omega), h.getLsbD_getD hi hlt,
      ← Nat.add_assoc, hpos]
  · have hcode : (codes.getD i 0).toNat < 2 ^ bits := by
      rw [List.getD_eq_getElem _ _ hi]
      exact hcodes _ (List.getElem_mem hi)
    rw [decide_eq_false (Nat.not_lt.mpr hge), Bool.and_false, BitVec.getLsbD,
      Nat.testBit_lt_two_pow (Nat.lt_of_lt_of_le hcode (Nat.pow_le_pow_right (by omega) hge))]

/-- The position of a code lies in the row, up to its last bit. -/
theorem code_end_le (h : SameBits bits 8 codes bytes) {i : ℕ} (hi : i < codes.length) :
    i * bits + bits ≤ bytes.length * 8 := by
  have hle : (i + 1) * bits ≤ codes.length * bits := Nat.mul_le_mul_right bits hi
  rw [Nat.succ_mul, h.length_eq] at hle
  exact hle

/-- **`unpack_k_bits` returns the code**, from bytes of the row. -/
theorem unpackKBits_eq (h : SameBits bits 8 codes bytes) (hbits : PackedWidth bits)
    (hcodes : ∀ x ∈ codes, x.toNat < 2 ^ bits) {i : ℕ} (hi : i < codes.length) :
    unpackKBits bytes i bits = some ((codes.getD i 0).setWidth 32) := by
  have hend := code_end_le h hi
  have hpos := hbits.pos
  have hlow : bytes[i * bits / 8]? = some (bytes.getD (i * bits / 8) 0) :=
    getElem?_byte bytes (by omega)
  have hwindow := fun (count b : ℕ) (hb : b < 8 * count) (hbn : b < 32) =>
    getLsbD_window (n := 32) (by omega) bytes (i * bits / 8) count hb hbn
  simp only [unpackKBits, hlow, Option.bind_eq_bind, Option.bind_some]
  by_cases hstraddle : i * bits % 8 + bits > 8
  · have hhigh : bytes[i * bits / 8 + 1]? = some (bytes.getD (i * bits / 8 + 1) 0) :=
      getElem?_byte bytes (by omega)
    rw [if_pos hstraddle, hhigh]
    simp only [Option.bind_some, Option.pure_def, Option.some.injEq]
    refine shift_mask_eq h hbits hcodes _ (i * bits / 8) _ 2 (fun b hb => ?_)
      (by have := hbits.le; omega) (by omega) hi
    rw [← hwindow 2 b hb (by omega)]
    simp [orShares, share, List.range, List.range.loop]
  · rw [if_neg hstraddle]
    simp only [Option.bind_some, Option.pure_def, Option.some.injEq]
    refine shift_mask_eq h hbits hcodes _ (i * bits / 8) _ 1 (fun b hb => ?_)
      (by omega) (by omega) hi
    rw [← hwindow 1 b hb (by omega)]
    simp [orShares, share, List.range, List.range.loop]

/-- The two readers of one code are the same text. -/
theorem unpackVBits_eq_unpackKBits (bytes : List (BitVec 8)) (elemIdx bits : ℕ) :
    unpackVBits bytes elemIdx bits = unpackKBits bytes elemIdx bits := rfl

/-- **`unpack_3bit` returns the code**; its group of three bytes is in the row. -/
theorem unpack3bit_eq (h : SameBits 3 8 codes bytes) (hgroup : 8 ∣ codes.length)
    (hcodes : ∀ x ∈ codes, x.toNat < 2 ^ 3) {i : ℕ} (hi : i < codes.length) :
    unpack3bit bytes i = some (codes.getD i 0) := by
  have hlen := h.length_eq
  obtain ⟨k, hk⟩ := hgroup
  have hbyte := fun d (hd : d < 3) => getElem?_byte bytes
    (show i / 8 * 3 + d < bytes.length by omega)
  have hword := shift_mask_eq h (Or.inr (Or.inl rfl)) hcodes
    ((bytes.getD (i / 8 * 3) 0).setWidth 32 |||
      ((bytes.getD (i / 8 * 3 + 1) 0).setWidth 32 <<< 8) |||
      ((bytes.getD (i / 8 * 3 + 2) 0).setWidth 32 <<< 16)) (i / 8 * 3) (i % 8 * 3) 3
    (fun b hb => by
      rw [← getLsbD_window (n := 32) (by omega) bytes (i / 8 * 3) 3 hb (by omega)]
      simp [orShares, share, List.range, List.range.loop]) (by omega) (by omega) hi
  simp only [unpack3bit, hbyte 1 (by omega), hbyte 2 (by omega), Option.bind_eq_bind,
    Option.bind_some, Option.pure_def]
  have hb0 := hbyte 0 (by omega)
  rw [Nat.add_zero] at hb0
  rw [hb0, Option.bind_some]
  have hmask : (0x7 : BitVec 32) = (1#32 <<< 3) - 1#32 := by decide
  rw [hmask, hword, BitVec.setWidth_setWidth_of_le _ (by omega), BitVec.setWidth_eq]

/-- The window of four bytes, of which those past the slice are not read. -/
theorem gqaWindow_eq {base count : ℕ} (hcount : count ≤ 4) (hrow : base + count ≤ bytes.length) :
    gqaWindow bytes base count = some (orShares 8 0
      (fun e => (bytes.getD (base + e) 0).setWidth 32) (List.range count)) := by
  have hloop : ∀ m, (List.range m).foldlM (fun (window : BitVec 32) b =>
        if b < count then do
          let byte ← bytes[base + b]?
          pure (window ||| (byte.setWidth 32 <<< (8 * b)))
        else pure window) 0 =
      some (orShares 8 0 (fun e => (bytes.getD (base + e) 0).setWidth 32)
        (List.range (min m count))) := by
    intro m
    induction m with
    | zero => simp [orShares]
    | succ m ih =>
      rw [List.range_succ, List.foldlM_append, ih]
      by_cases hm : m < count
      · have hbyte := getElem?_byte bytes (show base + m < bytes.length by omega)
        rw [Nat.min_eq_left (by omega : m + 1 ≤ count), Nat.min_eq_left (by omega : m ≤ count),
          List.range_succ, orShares, orShares, List.foldl_append]
        simp only [Option.bind_eq_bind, Option.bind_some, List.foldlM_cons, List.foldlM_nil, hm,
          if_true, hbyte, Option.pure_def, List.foldl_cons, List.foldl_nil]
        rw [share, if_pos (Nat.zero_le _), Nat.sub_zero, Nat.mul_comm]
      · rw [Nat.min_eq_right (by omega : count ≤ m + 1), Nat.min_eq_right (by omega : count ≤ m)]
        simp [hm]
  rw [gqaWindow, hloop 4, Nat.min_eq_right hcount]

/-- **`gqa_tq_unpack` returns the codes of its slice.** -/
theorem gqaTqUnpack_eq (h : SameBits bits 8 codes bytes) (hbits : PackedWidth bits)
    (hcodes : ∀ x ∈ codes, x.toNat < 2 ^ bits) {slice d0 : ℕ} (hslice : 0 < slice)
    (hd0 : d0 + slice ≤ codes.length) :
    gqaTqUnpack slice bytes d0 bits =
      some ((List.range slice).map fun i => (codes.getD (d0 + i) 0).setWidth 32) := by
  have hend := code_end_le h (show d0 + slice - 1 < codes.length by omega)
  have hlast : (d0 + slice - 1) * bits + bits = d0 * bits + slice * bits := by
    rw [← Nat.succ_mul, ← Nat.add_mul]
    congr 1
    omega
  simp only [gqaTqUnpack]
  split
  -- a slice that fits one window is read from it
  · next hfits =>
    rw [gqaWindow_eq (by omega) (by omega)]
    simp only [Option.bind_eq_bind, Option.bind_some, Option.pure_def, Option.some.injEq]
    apply List.map_congr_left
    intro i hi
    rw [List.mem_range] at hi
    have hshift : i * bits + bits ≤ slice * bits := by
      rw [← Nat.succ_mul]
      exact Nat.mul_le_mul_right bits hi
    refine shift_mask_eq h hbits hcodes _ (d0 * bits / 8) _
      ((d0 * bits % 8 + slice * bits + 7) / 8) (fun b hb => ?_) (by omega)
      (by rw [Nat.add_mul]; omega) (by omega)
    exact getLsbD_window (by omega) bytes _ _ hb (by omega)
  -- a longer one is read code by code
  · have hmap : ∀ l : List ℕ, (∀ i ∈ l, i < slice) →
      l.mapM (fun i => unpackKBits bytes (d0 + i) bits) =
        some (l.map fun i => (codes.getD (d0 + i) 0).setWidth 32) := by
      intro l
      induction l with
      | nil => exact fun _ => rfl
      | cons i l ih =>
        intro hl
        rw [List.mapM_cons, unpackKBits_eq h hbits hcodes (by have := hl i (by simp); omega),
          ih fun j hj => hl j (List.mem_cons_of_mem i hj)]
        rfl
    exact hmap _ fun i hi => List.mem_range.mp hi

/-- **`tq_pack_byte` assembles the packed byte**, from elements of the index buffer. -/
theorem tqPackByte_eq (h : SameBits bits 8 codes bytes) (hbits : PackedWidth bits) {j : ℕ}
    (hj : j < bytes.length) :
    tqPackByte codes (j * 8) bits = some ((bytes.getD j 0).setWidth 32) := by
  have hpos := hbits.pos
  have hle := hbits.le
  have hlen := h.length_eq
  -- the elements with a bit in the byte
  set es := List.range' (j * 8 / bits) ((j * 8 + 7) / bits + 1 - j * 8 / bits) with hes
  have hlast : (j * 8 + 7) / bits < codes.length :=
    Nat.div_lt_of_lt_mul (by rw [Nat.mul_comm bits, hlen]; omega)
  have hmem : ∀ e ∈ es, e < codes.length := by
    intro e he
    rw [hes, List.mem_range'_1] at he
    omega
  -- the loop ors their shares together
  have hloop : ∀ (l : List ℕ) (word : BitVec 32), (∀ e ∈ l, e < codes.length) →
      l.foldlM (fun byte e => do
        let idx ← codes[e]?
        pure (byte ||| tqByteShare idx e (j * 8) bits)) word =
      some (l.foldl (fun word e => word ||| share bits (j * 8)
        (fun e => (codes.getD e 0).setWidth 32 &&& lowMask 32 bits) e) word) := by
    intro l
    induction l with
    | nil => exact fun _ _ => rfl
    | cons e l ih =>
      intro word hl
      rw [List.foldlM_cons, getElem?_byte codes (hl e (by simp))]
      exact ih _ fun e' he' => hl e' (List.mem_cons_of_mem e he')
  have hbyte : tqPackByte codes (j * 8) bits = some (orShares bits (j * 8)
      (fun e => (codes.getD e 0).setWidth 32 &&& lowMask 32 bits) es &&& 0xFF) := by
    change es.foldlM _ _ >>= _ = _
    rw [hloop es 0 hmem]
    rfl
  rw [hbyte, Option.some.injEq]
  apply BitVec.eq_of_getLsbD_eq
  intro q hq
  have hmask : (0xFF : BitVec 32) = lowMask 32 8 := by decide
  rw [hmask, getLsbD_and_lowMask (by omega), BitVec.getLsbD_setWidth, decide_eq_true hq,
    Bool.true_and]
  -- a bit of the byte is the bit of the element that owns it
  rcases Nat.lt_or_ge q 8 with hq8 | hq8
  · have hown : (j * 8 + q) / bits ∈ es := by
      have h1 : j * 8 / bits ≤ (j * 8 + q) / bits := Nat.div_le_div_right (by omega)
      have h2 : (j * 8 + q) / bits ≤ (j * 8 + 7) / bits := Nat.div_le_div_right (by omega)
      rw [hes, List.mem_range'_1]
      omega
    have hbit := getLsbD_packed (n := 32) (by omega) hpos codes (j * 8) hq hown
    rw [hbit, decide_eq_true hq8, Bool.and_true, h.bit_eq _ (by omega),
      streamBit_mul_add _ _ hq8]
  · rw [decide_eq_false (Nat.not_lt.mpr hq8), Bool.and_false, BitVec.getLsbD_of_ge _ _ hq8]

/-- A row of codes and its bytes as the kernels see them: the encoder writes these bytes, and every
reader returns the codes without a read past the row. -/
structure KernelRow (bits : ℕ) (codes bytes : List (BitVec 8)) : Prop where
  tqPackByte_eq : ∀ j < bytes.length,
    tqPackByte codes (j * 8) bits = some ((bytes.getD j 0).setWidth 32)
  unpackKBits_eq : ∀ i < codes.length,
    unpackKBits bytes i bits = some ((codes.getD i 0).setWidth 32)
  unpackVBits_eq : ∀ i < codes.length,
    unpackVBits bytes i bits = some ((codes.getD i 0).setWidth 32)
  unpack3bit_eq : bits = 3 → ∀ i < codes.length, unpack3bit bytes i = some (codes.getD i 0)
  gqaTqUnpack_eq : ∀ slice, slice = 4 ∨ slice = 8 → ∀ d0, d0 + slice ≤ codes.length →
    gqaTqUnpack slice bytes d0 bits =
      some ((List.range slice).map fun i => (codes.getD (d0 + i) 0).setWidth 32)

theorem kernelRow_of_sameBits (h : SameBits bits 8 codes bytes) (hbits : PackedWidth bits)
    (hgroup : groupSize bits ∣ codes.length) (hcodes : ∀ x ∈ codes, x.toNat < 2 ^ bits) :
    KernelRow bits codes bytes where
  tqPackByte_eq := fun j hj => tqPackByte_eq h hbits hj
  unpackKBits_eq := fun i hi => unpackKBits_eq h hbits hcodes hi
  unpackVBits_eq := fun i hi => by
    rw [unpackVBits_eq_unpackKBits]
    exact unpackKBits_eq h hbits hcodes hi
  unpack3bit_eq := by
    rintro rfl i hi
    exact unpack3bit_eq h hgroup hcodes hi
  gqaTqUnpack_eq := fun slice hslice d0 hd0 =>
    gqaTqUnpack_eq h hbits hcodes (by omega) hd0

end Kernels

/-- **One layout on both sides.**  For a packed width and a head dimension of whole groups and
whole bytes, packing and unpacking are inverse to each other on all rows, and the encoder and
every reader of the kernels work on the same bytes. -/
theorem turboquant_one_layout {bits headDim n : ℕ} (hbits : PackedWidth bits)
    (hgroup : groupSize bits ∣ headDim) (hdim : packedDim headDim bits = .ok n) :
    (∀ codes : List (BitVec 8), codes.length = headDim → (∀ x ∈ codes, x.toNat < 2 ^ bits) →
      ∃ packed, packBits codes bits = .ok packed ∧ packed.length = n ∧
        unpackBits packed bits headDim = .ok codes ∧ KernelRow bits codes packed) ∧
    ∀ packed : List (BitVec 8), packed.length = n →
      ∃ codes, unpackBits packed bits headDim = .ok codes ∧ codes.length = headDim ∧
        (∀ x ∈ codes, x.toNat < 2 ^ bits) ∧ packBits codes bits = .ok packed ∧
        KernelRow bits codes packed := by
  have hbytes : headDim * bits = n * 8 := by
    rw [packedDim] at hdim
    split at hdim
    · cases hdim
    · cases hdim
      omega
  have hpos := hbits.pos
  have hbyte : ∀ bytes : List (BitVec 8), ∀ b ∈ bytes, b.toNat < 2 ^ 8 := fun _ b _ => b.isLt
  constructor
  -- from codes to bytes and back
  · rintro codes rfl hcodes
    obtain ⟨packed, hpacked, hsame⟩ := packBits_ok hbits hgroup
    have hlen : packed.length = n := by
      have := hsame.length_eq
      omega
    obtain ⟨values, hvalues, hsame', hlt⟩ := @unpackBits_ok bits hbits packed codes.length hgroup
      (by rw [hlen, hbytes])
    obtain rfl : codes = values := (hsame.trans hsame'.symm).unique hpos hcodes hlt
    exact ⟨packed, hpacked, hlen, hvalues, kernelRow_of_sameBits hsame hbits hgroup hcodes⟩
  -- from bytes to codes and back
  · rintro packed rfl
    obtain ⟨codes, hcodes, hsame, hlt⟩ := unpackBits_ok hbits hgroup hbytes
    have hlen : codes.length = headDim :=
      Nat.eq_of_mul_eq_mul_right hpos (hsame.length_eq.trans hbytes.symm)
    obtain ⟨packed', hpacked', hsame'⟩ := @packBits_ok bits hbits codes (hlen ▸ hgroup)
    obtain rfl : packed' = packed :=
      (hsame'.symm.trans hsame).unique (by omega) (hbyte packed') (hbyte packed)
    exact ⟨codes, hcodes, hlen, hlt, hpacked',
      kernelRow_of_sameBits hsame hbits (hlen ▸ hgroup) hlt⟩

/-- Sixteen 5-bit codes in ten bytes. -/
theorem turboquant_one_layout_five :
    ∃ packed, packBits ((List.range 16).map fun i => BitVec.ofNat 8 (2 * i + 1)) 5 = .ok packed ∧
      unpackBits packed 5 16 = .ok ((List.range 16).map fun i => BitVec.ofNat 8 (2 * i + 1)) := by
  obtain ⟨packed, hpacked, -, hunpacked, -⟩ := (@turboquant_one_layout 5 16 10
    (by unfold PackedWidth; omega) ⟨2, rfl⟩ rfl).1
    ((List.range 16).map fun i => BitVec.ofNat 8 (2 * i + 1)) rfl (by decide)
  exact ⟨packed, hpacked, hunpacked⟩

end TurboQuant
end VllmMetal
