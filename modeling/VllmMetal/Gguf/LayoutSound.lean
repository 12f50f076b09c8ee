import VllmMetal.Gguf.AdapterSound
import VllmMetal.Gguf.Layout
import VllmMetal.Lib.NdArray

/-!
# Permuted tensors compute with the permuted weight

Rows that are gathered as they are packed decode to the gathered rows.  Activations that are
gathered into the stored order of the columns have the same dot products with the stored rows as
they have with the rows in the order of the model.

## Main definitions

* `GGUFQuantTensor.rows` — the rows that a quantized tensor decodes to.
* `denseRows` — the rows of a weight.
* `Computes` — a tensor multiplies with, and looks up the rows of, a weight.

## Main results

* `GGUFQuantTensor.permuteRows_ok` — the rows after a permutation.
* `computes_of_stored` — a tensor that is stored in another order.
-/

namespace VllmMetal
namespace Gguf

open GGUFRawBlockTensor StoredLayout

variable {K : Type} [CommRing K] (half : ℕ → K)

/-! ### The rows of a packed triple -/

namespace GGUFMLXQuantizedTensor

variable (t : GGUFMLXQuantizedTensor K)

/-- An embedding looks rows up. -/
theorem dequantizeIds_eq {ids : List ℕ} (hids : ∀ i ∈ ids, i < t.outFeatures) :
    t.dequantizeIds ids = gather [] (t.dequantizeIds (List.range t.outFeatures)) ids := by
  refine List.map_congr_left fun i hi => ?_
  have hlt : i < (t.dequantizeIds (List.range t.outFeatures)).length := by
    simpa [dequantizeIds] using hids i hi
  rw [List.getD_eq_getElem _ _ hlt]
  simp [dequantizeIds]

/-- The rows after a permutation. -/
theorem permuteRows_ok {index : List ℕ} (hperm : index.Perm (List.range t.outFeatures)) :
    ∃ t', t.permuteRows (index.map fun i : ℕ => (i : ℤ)) = .ok t' ∧
      t'.outFeatures = t.outFeatures ∧ t'.inFeatures = t.inFeatures ∧
      t'.dequantizeIds (List.range t'.outFeatures) =
        gather [] (t.dequantizeIds (List.range t.outFeatures)) index := by
  have hlength := length_of_perm_range hperm
  have hcast : (index.map fun i : ℕ => (i : ℤ)).map Int.toNat = index := by
    rw [List.map_map]
    exact (List.map_congr_left fun i _ => Int.toNat_natCast i).trans (List.map_id _)
  have hsorted := mergeSort_of_perm (hperm.map fun i : ℕ => (i : ℤ))
  have hlt : ∀ i ∈ index, i < t.outFeatures := fun i => lt_of_perm_range hperm
  refine ⟨t.gatherRows index hlt, ?_, ?_, rfl, ?_⟩
  · rw [permuteRows, if_neg (by simpa using hlength), dif_pos hsorted]
    congr 2
  · exact (length_gather _ _ _).trans hlength
  · have hout : (t.gatherRows index hlt).outFeatures = index.length := length_gather _ _ _
    rw [hout, ← dequantizeIds_eq t hlt]
    refine List.ext_getElem (by simp [dequantizeIds]) fun r hr _ => ?_
    have hr' : r < index.length := by simpa [dequantizeIds] using hr
    simp only [dequantizeIds, List.getElem_map, List.getElem_range]
    show t.dequantizeRow ((gather [] t.qweight index).getD r [])
      ((gather [] t.scales index).getD r [])
      ((gather [] t.biases index).getD r []) = _
    rw [getD_gather _ _ hr', getD_gather _ _ hr', getD_gather _ _ hr', List.getD_eq_getElem _ _ hr']

end GGUFMLXQuantizedTensor

/-! ### The rows of a quantized tensor -/

namespace GGUFQuantTensor

/-- The rows that a tensor decodes to. -/
def rows (qt : GGUFQuantTensor K) : List (List K) := qt.embedding half (List.range qt.outFeatures)

omit [CommRing K] in
theorem inFeatures_pos (qt : GGUFQuantTensor K) : 0 < qt.inFeatures := by
  cases qt with
  | affine t => exact Nat.mul_pos t.numGroups_pos (by decide)
  | raw t => exact t.inFeatures_pos

theorem rows_raw (t : GGUFRawBlockTensor) :
    (raw t : GGUFQuantTensor K).rows half = t.dequantizeRows half t.qweight := by
  have hrange : ∀ i ∈ List.range t.outFeatures, i < t.outFeatures := fun i => List.mem_range.mp
  have h := embedding_eq t half hrange
  refine h.trans (gather_range [] ?_)
  rw [length_dequantizeRows]
  rfl

@[simp] theorem length_rows (qt : GGUFQuantTensor K) : (qt.rows half).length = qt.outFeatures := by
  cases qt with
  | affine t =>
    show (t.dequantizeIds (List.range t.outFeatures)).length = t.outFeatures
    rw [GGUFMLXQuantizedTensor.dequantizeIds, List.length_map, List.length_range]
  | raw t =>
    rw [rows_raw, length_dequantizeRows]
    rfl

theorem length_of_mem_rows (qt : GGUFQuantTensor K) {row : List K} (h : row ∈ qt.rows half) :
    row.length = qt.inFeatures := by
  cases qt with
  | affine t =>
    obtain ⟨i, -, rfl⟩ := List.mem_map.mp h
    rw [GGUFMLXQuantizedTensor.dequantizeRow, List.length_map, List.length_range]
    rfl
  | raw t =>
    rw [rows_raw] at h
    exact length_of_mem_reshapeRows h

/-- An embedding looks rows up. -/
theorem embedding_eq_rows (qt : GGUFQuantTensor K) {ids : List ℕ}
    (hids : ∀ i ∈ ids, i < qt.outFeatures) :
    qt.embedding half ids = ids.map fun i => (qt.rows half).getD i [] := by
  cases qt with
  | affine t => exact t.dequantizeIds_eq hids
  | raw t =>
    rw [rows_raw]
    exact embedding_eq t half hids

/-- **A product is taken with the rows.** -/
theorem matmul_eq_rows (qt : GGUFQuantTensor K) {x : Activations K}
    (hlast : x.last = qt.inFeatures) : qt.matmul half x = .ok (x.lead ++ [qt.outFeatures],
      (reshapeRows qt.inFeatures x.data).flatMap fun row => (qt.rows half).map (dot row)) := by
  cases qt with
  | affine t =>
    have hlast' : x.last = t.inFeatures := hlast
    have hmatmul : t.matmul x = .ok (x.lead ++ [t.outFeatures],
        (reshapeRows t.inFeatures x.data).flatMap fun row =>
          (t.dequantizeIds (List.range t.outFeatures)).map (dot row)) := by
      rw [GGUFMLXQuantizedTensor.matmul, if_neg (not_not.mpr hlast')]
    show liftError QuantError.affine (t.matmul x) = _
    rw [hmatmul]
    rfl
  | raw t =>
    show liftError QuantError.raw (t.matmul half x) = _
    rw [GGUFRawBlockTensor.matmul_eq t half hlast, rows_raw]
    rfl

/-- **Packed rows are permuted with what they decode to.** -/
theorem permuteRows_ok (qt : GGUFQuantTensor K) {index : List ℕ}
    (hperm : index.Perm (List.range qt.outFeatures)) :
    ∃ qt' : GGUFQuantTensor K, qt.permuteRows index = .ok qt' ∧
      qt'.outFeatures = qt.outFeatures ∧ qt'.inFeatures = qt.inFeatures ∧
      qt'.rows half = gather [] (qt.rows half) index := by
  cases qt with
  | affine t =>
    obtain ⟨t', ht', hout, hin, hrows⟩ := t.permuteRows_ok hperm
    refine ⟨affine t', ?_, hout, hin, hrows⟩
    show (liftError QuantError.affine (t.permuteRows _)).map affine = _
    rw [ht']
    rfl
  | raw t =>
    obtain ⟨t', ht'⟩ := GGUFRawBlockTensor.permuteRows_ok t (hperm.map fun i : ℕ => (i : ℤ))
    have hrows := permuteRows_eq t half ht'
    obtain ⟨hids, hgather⟩ := permuteRows_cases t ht'
    refine ⟨raw t', ?_, ?_, ?_, ?_⟩
    · show (liftError QuantError.raw (t.permuteRows _)).map raw = _
      rw [ht']
      rfl
    · subst hgather
      show (List.map _ _).length = t.outFeatures
      rw [List.length_map, List.length_map, List.length_map]
      exact length_of_perm_range hperm
    · subst hgather
      rfl
    · rw [rows_raw, rows_raw, hrows, List.map_map]
      rfl

end GGUFQuantTensor

/-! ### Permuted columns -/

/-- The rows of a weight. -/
def denseRows (value : NdArray K) : List (List K) :=
  (List.range (value.shape.getD 0 0)).map fun r =>
    (List.range (value.shape.getD 1 0)).map fun c => value.entry [r, c]

/-- A tensor multiplies with a weight, and looks up its rows. -/
structure Computes (qt : GGUFTensor K) (weight : List (List K)) (inFeatures : ℕ) : Prop where
  matmul : ∀ x : Activations K, x.last = inFeatures →
    qt.matmul half x = .ok (x.lead ++ [weight.length],
      (reshapeRows inFeatures x.data).flatMap fun row => weight.map (dot row))
  embedding : ∀ ids : List ℕ, (∀ i ∈ ids, i < weight.length) →
    qt.embedding half ids = ids.map fun i => weight.getD i []

/-- The rows of gathered activations. -/
theorem reshapeRows_takeLast {x : Activations K} {index : List ℕ} {n : ℕ} (hn : 0 < n)
    (hlast : x.last = n) (hindex : index.Perm (List.range n)) :
    reshapeRows n (takeLast index x).data =
      (reshapeRows n x.data).map fun row => gather 0 row index := by
  have hlength := length_of_perm_range hindex
  have hdata : x.data.length = x.lead.prod * n := hlast ▸ x.length_data
  -- entry `k` of the gathered activations, in one row
  have hflat : (takeLast index x).data = (List.range (x.lead.prod * n)).map fun k =>
      x.data.getD (k / n * n + index.getD (k % n) 0) 0 := by
    rw [← flatMap_range_map x.lead.prod n fun r c => x.data.getD (r * n + index.getD c 0) 0]
    refine List.flatMap_congr fun r _ => ?_
    conv_lhs => rw [← gather_range 0 hlength, gather, List.map_map]
    exact List.map_congr_left fun c _ => by rw [Function.comp_apply, hlast]
  rw [hflat, reshapeRows_map_range hn, reshapeRows, hdata, Nat.mul_div_cancel _ hn, List.map_map]
  refine List.map_congr_left fun r _ => ?_
  have hgather : gather 0 ((x.data.drop (r * n)).take n) index = (List.range n).map fun c =>
      ((x.data.drop (r * n)).take n).getD (index.getD c 0) 0 := by
    conv_lhs => rw [← gather_range 0 hlength, gather, gather, List.map_map]
    rfl
  rw [Function.comp_apply, hgather]
  -- the gathered entry stays within its row
  refine List.map_congr_left fun c hc => ?_
  rw [List.mem_range] at hc
  have hplace : (r * n + c) / n = r ∧ (r * n + c) % n = c := by
    constructor
    · rw [Nat.mul_comm, Nat.mul_add_div hn, Nat.div_eq_of_lt hc, Nat.add_zero]
    · rw [Nat.mul_comm, Nat.mul_add_mod, Nat.mod_eq_of_lt hc]
  have hentry : index.getD c 0 < n := by
    rw [List.getD_eq_getElem _ _ (by omega)]
    exact lt_of_perm_range hindex (List.getElem_mem _)
  have hslice : ∀ j < n, ((x.data.drop (r * n)).take n).getD j 0 = x.data.getD (r * n + j) 0 := by
    intro j hj
    rw [List.getD_eq_getElem?_getD, List.getD_eq_getElem?_getD, List.getElem?_take_of_lt hj,
      List.getElem?_drop]
  rw [hplace.1, hplace.2, hslice _ hentry]

/-- A tensor whose columns are as they are. -/
theorem computes_stored (qt : GGUFQuantTensor K) :
    Computes half (.stored qt) (qt.rows half) qt.inFeatures where
  matmul x hlast := by
    rw [GGUFQuantTensor.length_rows]
    exact qt.matmul_eq_rows half hlast
  embedding ids hids := by
    rw [GGUFQuantTensor.length_rows] at hids
    exact qt.embedding_eq_rows half hids

/-- **A tensor with permuted columns.** -/
theorem computes_columnPermuted (qt : GGUFQuantTensor K) {columns : List ℕ}
    (hcolumns : columns.Perm (List.range qt.inFeatures)) :
    Computes half (.columnPermuted qt columns)
      ((qt.rows half).map fun row => gather 0 row columns) qt.inFeatures where
  matmul x hlast := by
    have hpos := qt.inFeatures_pos
    have hargsort : (argsort columns).Perm (List.range qt.inFeatures) := by
      rw [← length_of_perm_range hcolumns]
      exact perm_argsort columns
    have htake : (takeLast (argsort columns) x).last = qt.inFeatures :=
      length_of_perm_range hargsort
    show qt.matmul half (takeLast (argsort columns) x) = _
    rw [qt.matmul_eq_rows half htake, List.length_map, GGUFQuantTensor.length_rows,
      reshapeRows_takeLast hpos hlast hargsort, List.flatMap_map]
    congr 2
    refine List.flatMap_congr fun row hrow => ?_
    have hlength := length_of_mem_reshapeRows hrow
    rw [List.map_map]
    refine List.map_congr_left fun weightRow hweight => ?_
    exact sum_zipWith_gather_argsort hcolumns hlength (qt.length_of_mem_rows half hweight)
  embedding ids hids := by
    rw [List.length_map, GGUFQuantTensor.length_rows] at hids
    show (qt.embedding half ids).map _ = _
    rw [qt.embedding_eq_rows half hids, List.map_map]
    refine List.map_congr_left fun i hi => ?_
    have hlt : i < (qt.rows half).length := by simpa using hids i hi
    rw [List.getD_eq_getElem _ _ (by simpa using hids i hi), List.getElem_map, Function.comp_apply,
      List.getD_eq_getElem _ _ hlt]

/-! ### A stored weight -/

/-- Where a row or a column is stored. -/
def storedAt : Option StoredLayout → ℕ → ℕ
  | none => id
  | some l => l.position

/-- A layout that fits a size. -/
def Fits (layout : Option StoredLayout) (size : ℕ) : Prop :=
  ∀ l, layout = some l → l.Valid ∧ l.rows = size

theorem Fits.perm {layout : Option StoredLayout} {size : ℕ} (h : Fits layout size)
    {l : StoredLayout} (hl : layout = some l) : l.index.Perm (List.range size) := by
  obtain ⟨hvalid, rfl⟩ := h l hl
  exact perm_index hvalid

theorem Fits.getD_index {layout : Option StoredLayout} {size : ℕ} (h : Fits layout size)
    {l : StoredLayout} (hl : layout = some l) {r : ℕ} (hr : r < size) :
    l.index.getD r 0 = storedAt layout r := by
  obtain ⟨-, rfl⟩ := h l hl
  rw [hl]
  exact StoredLayout.getD_index l hr

/-- The rows of a tensor that is stored in another order. -/
theorem permuteRows_stored (qt : GGUFQuantTensor K) {layout : Option StoredLayout}
    (hfits : Fits layout qt.outFeatures) :
    ∃ qt' : GGUFQuantTensor K,
      (match layout.map index with
        | some permute => qt.permuteRows permute
        | none => .ok qt) = .ok qt' ∧
      qt'.outFeatures = qt.outFeatures ∧ qt'.inFeatures = qt.inFeatures ∧
      ∀ r < qt.outFeatures, (qt'.rows half).getD r [] =
        (qt.rows half).getD (storedAt layout r) [] := by
  cases hl : layout with
  | none => exact ⟨qt, rfl, rfl, rfl, fun _ _ => rfl⟩
  | some l =>
    have hperm := hfits.perm hl
    obtain ⟨qt', hok, hout, hin, hrows⟩ := qt.permuteRows_ok half hperm
    refine ⟨qt', hok, hout, hin, fun r hr => ?_⟩
    have hlt : r < l.index.length := by rwa [length_of_perm_range hperm]
    rw [hrows, getD_gather _ _ hlt, hfits.getD_index hl hr, hl]

/-- Rows by their entries. -/
theorem eq_denseRows {rows : List (List K)} {value : NdArray K} {m n : ℕ}
    (hshape : value.shape = [m, n]) (hlength : rows.length = m)
    (hrow : ∀ row ∈ rows, row.length = n)
    (hentry : ∀ r < m, ∀ c < n, (rows.getD r []).getD c 0 = value.entry [r, c]) :
    rows = denseRows value := by
  rw [denseRows, hshape]
  refine List.ext_getElem (by simpa using hlength) fun r hr _ => ?_
  have hlen := hrow _ (List.getElem_mem hr)
  rw [List.getElem_map, List.getElem_range]
  refine List.ext_getElem (by simpa using hlen) fun c hc _ => ?_
  have h := hentry r (by omega) c (by omega)
  rw [List.getD_eq_getElem _ _ hr, List.getD_eq_getElem _ _ hc] at h
  rw [List.getElem_map, List.getElem_range, h]

/-- **A weight whose rows and columns are stored in another order.** -/
theorem computes_of_stored (qt : GGUFQuantTensor K) {value : NdArray K}
    (hshape : value.shape = [qt.outFeatures, qt.inFeatures])
    {rowLayout columnLayout : Option StoredLayout}
    (hrows : Fits rowLayout qt.outFeatures) (hcolumns : Fits columnLayout qt.inFeatures)
    (hentry : ∀ r < qt.outFeatures, ∀ c < qt.inFeatures,
      ((qt.rows half).getD (storedAt rowLayout r) []).getD (storedAt columnLayout c) 0 =
        value.entry [r, c]) :
    ∃ qt' : GGUFQuantTensor K,
      (match rowLayout.map index with
        | some permute => qt.permuteRows permute
        | none => .ok qt) = .ok qt' ∧
      Computes half (match columnLayout.map index with
        | some columns => .columnPermuted qt' columns
        | none => .stored qt') (denseRows value) (value.shape.getD 1 0) := by
  obtain ⟨qt', hok, hout, hin, hqt'⟩ := permuteRows_stored half qt hrows
  refine ⟨qt', hok, ?_⟩
  have hin' : value.shape.getD 1 0 = qt'.inFeatures := by rw [hshape, hin]; rfl
  rw [hin']
  cases hl : columnLayout with
  -- with columns in the model's order, the rows are the weight
  | none =>
    have hweight : qt'.rows half = denseRows value := by
      refine eq_denseRows hshape (by rw [GGUFQuantTensor.length_rows, hout])
        (fun row hrow => by rw [qt'.length_of_mem_rows half hrow, hin]) fun r hr c hc => ?_
      rw [hqt' r hr, ← hentry r hr c hc, hl]
      rfl
    rw [← hweight]
    exact computes_stored half qt'
  | some l =>
    -- stored columns are gathered back into the model's order
    have hperm := hcolumns.perm hl
    have hlength := length_of_perm_range hperm
    have hweight : ((qt'.rows half).map fun row => gather 0 row l.index) = denseRows value := by
      refine eq_denseRows hshape (by rw [List.length_map, GGUFQuantTensor.length_rows, hout]) ?_ ?_
      · intro row hrow
        obtain ⟨row, -, rfl⟩ := List.mem_map.mp hrow
        rw [length_gather, hlength]
      · intro r hr c hc
        have hr' : r < (qt'.rows half).length := by
          rw [GGUFQuantTensor.length_rows, hout]
          exact hr
        have hmap : ((qt'.rows half).map fun row => gather 0 row l.index).getD r [] =
            gather 0 ((qt'.rows half).getD r []) l.index := by
          rw [List.getD_eq_getElem _ _ (by rwa [List.length_map]), List.getElem_map,
            List.getD_eq_getElem _ _ hr']
        rw [hmap, getD_gather _ _ (by rwa [hlength]), hcolumns.getD_index hl hc, hqt' r hr,
          hentry r hr c hc]
    rw [← hweight]
    exact computes_columnPermuted half qt' (hin ▸ hperm)

end Gguf
end VllmMetal
