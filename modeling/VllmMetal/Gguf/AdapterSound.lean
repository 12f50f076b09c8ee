import VllmMetal.Gguf.Adapter

/-!
# The indices undo the stored order

A layout says where the file stores each row of the model.  The adapter's index of a tensor is that
map, row by row, and it is a permutation.

## Main definitions

* `StoredLayout`, `StoredLayout.position` — where a row is stored.
* `rowLayout`, `columnLayout` — the layouts of an architecture, by tensor.

## Main results

* `StoredLayout.perm_index` — a layout permutes.
* `fromModel_ok` — the adapter's tables are the layouts.
-/

namespace VllmMetal
namespace Gguf

/-! ### Layouts -/

/-- An order that the file has and the model has not. -/
inductive StoredLayout where
  /-- Heads of `d` rows, the `(2, d / 2)` halves of each interleaved to `(d / 2, 2)`. -/
  | heads (n d : ℕ)
  /-- Value heads `(nk, nv / nk, headDim)` stored as `(nv / nk, nk, headDim)`, behind `first` rows
  that are stored as they are. -/
  | vHeads (first nk nv headDim : ℕ)

namespace StoredLayout

/-- What the model can have. -/
def Valid : StoredLayout → Prop
  | heads n d => 0 < n ∧ 2 ∣ d
  | vHeads _ nk nv _ => 0 < nk ∧ nk ∣ nv

def rows : StoredLayout → ℕ
  | heads n d => n * d
  | vHeads first _ nv headDim => first + nv * headDim

/-- Where the file stores a row of the model. -/
def position : StoredLayout → ℕ → ℕ
  | heads _ d, r =>
      let h := r / d
      let s := r % d / (d / 2)
      let j := r % d % (d / 2)
      h * d + (j * 2 + s)
  | vHeads first nk nv headDim, r =>
      if r < first then r
      else
        let v := r - first
        let k := v / (nv / nk * headDim)
        let g := v % (nv / nk * headDim) / headDim
        let c := v % (nv / nk * headDim) % headDim
        first + ((g * nk + k) * headDim + c)

/-- The rows of the model, where they are stored. -/
def index (layout : StoredLayout) : List ℕ := (List.range layout.rows).map layout.position

@[simp] theorem length_index (layout : StoredLayout) : layout.index.length = layout.rows := by
  simp [index]

theorem getD_index (layout : StoredLayout) {r : ℕ} (hr : r < layout.rows) :
    layout.index.getD r 0 = layout.position r := by
  rw [index, List.getD_eq_getElem _ _ (by simpa using hr), List.getElem_map, List.getElem_range]

/-- The halves of heads, as a grid. -/
theorem index_heads {n d : ℕ} (hd : 2 ∣ d) :
    (heads n d).index = grid3 n 2 (d / 2) fun h s j => (h * (d / 2) + j) * 2 + s := by
  have hhalf : 2 * (d / 2) = d := Nat.mul_div_cancel' hd
  rw [index, grid3_eq_map, hhalf]
  refine List.map_congr_left fun r _ => ?_
  simp only [position]
  rw [Nat.add_mul, Nat.mul_assoc, Nat.mul_comm (d / 2) 2, hhalf, Nat.add_assoc]

/-- The value heads, as a grid. -/
theorem index_vHeads (first : ℕ) {nk nv : ℕ} (headDim : ℕ) (hnk : nk ∣ nv) :
    (vHeads first nk nv headDim).index = List.range first ++
      (grid3 nk (nv / nk) headDim fun k g c => (g * nk + k) * headDim + c).map (first + ·) := by
  have hrows : nk * (nv / nk * headDim) = nv * headDim := by
    rw [← Nat.mul_assoc, Nat.mul_div_cancel' hnk]
  have hfirst : (List.range first).map (vHeads first nk nv headDim).position =
    List.range first := by
    refine (List.map_congr_left fun r hr => ?_).trans (List.map_id _)
    exact if_pos (List.mem_range.mp hr)
  rw [index, rows, List.range_add, List.map_append, hfirst, grid3_eq_map, hrows, List.map_map,
    List.map_map]
  congr 1
  refine List.map_congr_left fun v _ => ?_
  have hge : ¬ first + v < first := by omega
  simp only [Function.comp_apply, position, if_neg hge, Nat.add_sub_cancel_left]

/-- **A layout permutes.** -/
theorem perm_index {layout : StoredLayout} (h : layout.Valid) :
    layout.index.Perm (List.range layout.rows) := by
  cases layout with
  | heads n d =>
    have hhalf : d / 2 * 2 = d := Nat.div_mul_cancel h.2
    rw [index_heads h.2]
    refine (perm_grid3_swap_12 n (d / 2) 2 fun h j s => (h * (d / 2) + j) * 2 + s).trans ?_
    rw [grid3_index, hhalf, rows]
  | vHeads first nk nv headDim =>
    have hrows : nv / nk * (nk * headDim) = nv * headDim := by
      rw [← Nat.mul_assoc, Nat.div_mul_cancel h.2]
    rw [index_vHeads first headDim h.2, rows, List.range_add]
    refine List.Perm.append_left _ (List.Perm.map _ ?_)
    refine (perm_grid3_swap_01 (nv / nk) nk headDim fun g k c =>
      (g * nk + k) * headDim + c).trans ?_
    rw [grid3_index, hrows]

end StoredLayout

open StoredLayout

/-- The index of q and k. -/
theorem ropePermuteIndex_eq {n d : ℕ} (h : (heads n d).Valid) :
    ropePermuteIndex (n * d) n = .ok (heads n d).index := by
  obtain ⟨hn, hd⟩ := h
  have hpairs : n * d / n / 2 = d / 2 := by rw [Nat.mul_div_cancel_left d hn]
  have hsize : n * d = n * (d / 2 * 2) := by rw [Nat.div_mul_cancel hd]
  rw [index_heads hd]
  unfold ropePermuteIndex arange3
  rw [if_neg (by omega), hpairs]
  dsimp only
  rw [if_pos hsize]
  rfl

/-- The index of value heads. -/
theorem vHeadUntileIndex_eq {nk nv : ℕ} (headDim : ℕ) (hpos : 0 < nk) (hdvd : nk ∣ nv) :
    vHeadUntileIndex nk nv headDim =
      .ok (grid3 nk (nv / nk) headDim fun k g c => (g * nk + k) * headDim + c) := by
  have hsize : nv * headDim = nv / nk * (nk * headDim) := by
    rw [← Nat.mul_assoc, Nat.div_mul_cancel hdvd]
  unfold vHeadUntileIndex arange3
  rw [if_neg (by omega)]
  dsimp only
  rw [if_pos hsize]
  rfl

/-! ### The layouts of an architecture -/

/-- The rows of q and k. -/
def qkLayout (model : Model) (tensor : String) : Option StoredLayout :=
  if tensor = "attn_q.weight" ∨ tensor = "attn_q.bias" then
    some (.heads model.numAttentionHeads (model.qRows / model.numAttentionHeads))
  else if tensor = "attn_k.weight" ∨ tensor = "attn_k.bias" then
    some (.heads model.numKeyValueHeads (model.kRows / model.numKeyValueHeads))
  else none

/-- The rows of a Gated DeltaNet: its fused tensors have q and k before the values. -/
def vHeadRowLayout (gdn : GatedDeltaNet) (tensor : String) : Option StoredLayout :=
  if gdn.numVHeads = gdn.numKHeads then none
  else if tensor = "attn_qkv.weight" ∨ tensor = "ssm_conv1d.weight" then
    some (.vHeads (2 * gdn.keyDim) gdn.numKHeads gdn.numVHeads gdn.headVDim)
  else if tensor = "attn_gate.weight" then
    some (.vHeads 0 gdn.numKHeads gdn.numVHeads gdn.headVDim)
  else if tensor = "ssm_alpha.weight" ∨ tensor = "ssm_beta.weight" ∨ tensor = "ssm_a" ∨
      tensor = "ssm_dt.bias" then
    some (.vHeads 0 gdn.numKHeads gdn.numVHeads 1)
  else none

/-- The columns of a Gated DeltaNet's output projection. -/
def vHeadColumnLayout (gdn : GatedDeltaNet) (tensor : String) : Option StoredLayout :=
  if gdn.numVHeads = gdn.numKHeads then none
  else if tensor = "ssm_out.weight" then
    some (.vHeads 0 gdn.numKHeads gdn.numVHeads gdn.headVDim)
  else none

/-- The Gated DeltaNet of a layer. -/
def gdnAt (model : Model) (i : ℕ) : Option GatedDeltaNet := model.layers.getD i none

theorem gdnAt_eq_some_iff {model : Model} {i : ℕ} {gdn : GatedDeltaNet} :
    gdnAt model i = some gdn ↔ model.layers[i]? = some (some gdn) := by
  rw [gdnAt, List.getD_eq_getElem?_getD]
  cases model.layers[i]? <;> simp

/-- The order of the rows of a tensor. -/
def rowLayout (model : Model) (arch : Arch) (numHiddenLayers : ℕ) : TensorName → Option StoredLayout
  | .global _ => none
  | .blk i tensor =>
      match arch with
      | .llama => if i < numHiddenLayers then qkLayout model tensor else none
      | .qwen35 => (gdnAt model i).bind fun gdn => vHeadRowLayout gdn tensor
      | _ => none

/-- The order of the columns of a tensor. -/
def columnLayout (model : Model) (arch : Arch) : TensorName → Option StoredLayout
  | .global _ => none
  | .blk i tensor =>
      match arch with
      | .qwen35 => (gdnAt model i).bind fun gdn => vHeadColumnLayout gdn tensor
      | _ => none

/-- What was done to the values of a tensor. -/
def transformOf (arch : Arch) (numHiddenLayers : ℕ) : TensorName → Option GGUFPlainTransform
  | .global _ => none
  | .blk i tensor =>
      if arch = .qwen35 ∧ i < numHiddenLayers then
        if tensor = "ssm_a" then some .negatedExp
        else if tensor = "ssm_conv1d.weight" then some .squeezedUnitAxis
        else none
      else none

/-- The heads of a model are even, and its key heads divide its value heads. -/
structure Model.HeadsValid (model : Model) (arch : Arch) : Prop where
  qk : arch = .llama → ∃ dq dk, model.qRows = model.numAttentionHeads * dq ∧
    model.kRows = model.numKeyValueHeads * dk ∧ (heads model.numAttentionHeads dq).Valid ∧
    (heads model.numKeyValueHeads dk).Valid
  gdn : arch = .qwen35 → ∀ gdn, some gdn ∈ model.layers →
    0 < gdn.numKHeads ∧ gdn.numKHeads ∣ gdn.numVHeads

/-! ### The tables -/

/-- A dictionary whose entries are the values of a function. -/
theorem get?_ofEntries {V : Type} {entries : List (TensorName × V)} {f : TensorName → Option V}
    (hmem : ∀ p ∈ entries, f p.1 = some p.2) (hcover : ∀ k v, f k = some v → (k, v) ∈ entries)
    (k : TensorName) : (ofEntries entries).get? k = f k := by
  have hgen : ∀ d : Dict TensorName V, (entries.foldl (fun d p => d.set p.1 p.2) d).get? k =
      if k ∈ entries.map Prod.fst then f k else d.get? k := by
    clear hcover
    induction entries with
    | nil => simp
    | cons p entries ih =>
      intro d
      rw [List.foldl_cons, ih fun q hq => hmem q (List.mem_cons_of_mem p hq), Dict.get?_set]
      by_cases hk : k = p.1
      · subst hk
        simp [hmem p List.mem_cons_self]
      · have htail : k ∈ (p :: entries).map Prod.fst ↔ k ∈ entries.map Prod.fst := by
          rw [List.map_cons, List.mem_cons, or_iff_right hk]
        simp only [htail, if_neg hk]
  rw [ofEntries, hgen, Dict.get?_empty]
  split
  · rfl
  · next hnot =>
    cases hf : f k with
    | none => rfl
    | some v => exact absurd (List.mem_map_of_mem (hcover k v hf)) hnot

/-- The tables of q and k. -/
theorem buildPermuteIndex_ok {model : Model} (hmodel : model.HeadsValid .llama)
    (numHiddenLayers : ℕ) : ∃ d, buildPermuteIndex model numHiddenLayers = .ok d ∧
      ∀ name, d.get? name = (rowLayout model .llama numHiddenLayers name).map index := by
  obtain ⟨dq, dk, hq, hk, hvq, hvk⟩ := hmodel.qk rfl
  have hdq : model.qRows / model.numAttentionHeads = dq := by
    rw [hq, Nat.mul_div_cancel_left dq hvq.1]
  have hdk : model.kRows / model.numKeyValueHeads = dk := by
    rw [hk, Nat.mul_div_cancel_left dk hvk.1]
  refine ⟨ofEntries ((List.range numHiddenLayers).flatMap fun i =>
      [(.blk i "attn_q.weight", (heads model.numAttentionHeads dq).index),
        (.blk i "attn_q.bias", (heads model.numAttentionHeads dq).index),
        (.blk i "attn_k.weight", (heads model.numKeyValueHeads dk).index),
        (.blk i "attn_k.bias", (heads model.numKeyValueHeads dk).index)]), ?_, fun name => ?_⟩
  · rw [buildPermuteIndex, hq, hk, ropePermuteIndex_eq hvq, ropePermuteIndex_eq hvk]
    rfl
  · refine get?_ofEntries
      (f := fun name => (rowLayout model .llama numHiddenLayers name).map index) ?_ ?_ name
    -- what is listed has its layout
    · intro p hp
      obtain ⟨i, hi, hp⟩ := List.mem_flatMap.mp hp
      rw [List.mem_range] at hi
      simp only [List.mem_cons, List.not_mem_nil, or_false] at hp
      rcases hp with rfl | rfl | rfl | rfl <;> simp [rowLayout, qkLayout, hi, hdq, hdk]
    -- what has a layout is listed
    · intro name idx hname
      cases name with
      | global _ => simp [rowLayout] at hname
      | blk i tensor =>
        rw [List.mem_flatMap]
        by_cases hi : i < numHiddenLayers
        · refine ⟨i, List.mem_range.mpr hi, ?_⟩
          simp only [rowLayout, qkLayout, hi, if_true, hdq, hdk] at hname
          split_ifs at hname with hqt hkt
          · obtain rfl : _ = idx := by simpa using hname
            rcases hqt with rfl | rfl <;> simp
          · obtain rfl : _ = idx := by simpa using hname
            rcases hkt with rfl | rfl <;> simp
          · simp at hname
        · simp [rowLayout, hi] at hname

/-- The tensors of a Gated DeltaNet whose rows are value heads. -/
def vHeadRowTensors : List String :=
  ["attn_qkv.weight", "ssm_conv1d.weight", "attn_gate.weight", "ssm_alpha.weight",
    "ssm_beta.weight", "ssm_a", "ssm_dt.bias"]

/-- The entries of a layer, by its layouts. -/
def layoutEntries (i : ℕ) (layout : String → Option StoredLayout) (tensors : List String) :
    List (TensorName × List ℕ) :=
  tensors.filterMap fun tensor => (layout tensor).map fun l => (.blk i tensor, l.index)

theorem vHeadEntries_eq (i : ℕ) {gdn : GatedDeltaNet} (hpos : 0 < gdn.numKHeads)
    (hdvd : gdn.numKHeads ∣ gdn.numVHeads) : vHeadEntries i gdn =
      .ok (layoutEntries i (vHeadRowLayout gdn) vHeadRowTensors,
        layoutEntries i (vHeadColumnLayout gdn) ["ssm_out.weight"]) := by
  unfold vHeadEntries
  by_cases heq : gdn.numVHeads = gdn.numKHeads
  · simp [heq, layoutEntries, vHeadRowLayout, vHeadColumnLayout]
  · rw [if_neg heq, vHeadUntileIndex_eq _ hpos hdvd, vHeadUntileIndex_eq _ hpos hdvd]
    simp [heq, layoutEntries, vHeadRowTensors, vHeadRowLayout, vHeadColumnLayout,
      index_vHeads _ _ hdvd]
    rfl

/-- The entries of the layers from `i` on. -/
def layersEntries (layout : GatedDeltaNet → String → Option StoredLayout) (tensors : List String) :
    ℕ → List (Option GatedDeltaNet) → List (TensorName × List ℕ)
  | _, [] => []
  | i, none :: layers => layersEntries layout tensors (i + 1) layers
  | i, some gdn :: layers =>
      layoutEntries i (layout gdn) tensors ++ layersEntries layout tensors (i + 1) layers

theorem vHeadEntriesFrom_eq {layers : List (Option GatedDeltaNet)}
    (h : ∀ gdn, some gdn ∈ layers → 0 < gdn.numKHeads ∧ gdn.numKHeads ∣ gdn.numVHeads) (i : ℕ) :
    vHeadEntriesFrom i layers = .ok (layersEntries vHeadRowLayout vHeadRowTensors i layers,
      layersEntries vHeadColumnLayout ["ssm_out.weight"] i layers) := by
  induction layers generalizing i with
  | nil => rfl
  | cons layer layers ih =>
    have htail := ih fun gdn hgdn => h gdn (List.mem_cons_of_mem _ hgdn)
    cases layer with
    | none => exact htail (i + 1)
    | some gdn =>
      obtain ⟨hpos, hdvd⟩ := h gdn List.mem_cons_self
      rw [vHeadEntriesFrom, vHeadEntries_eq i hpos hdvd, htail (i + 1)]
      rfl

theorem mem_layersEntries {layout : GatedDeltaNet → String → Option StoredLayout}
    {tensors : List String} {layers : List (Option GatedDeltaNet)} {i : ℕ}
    {p : TensorName × List ℕ} : p ∈ layersEntries layout tensors i layers ↔
      ∃ j gdn, layers[j]? = some (some gdn) ∧ p ∈ layoutEntries (i + j) (layout gdn) tensors := by
  induction layers generalizing i with
  | nil => simp [layersEntries]
  | cons layer layers ih =>
    have hshift : ∀ j, i + (j + 1) = i + 1 + j := fun j => by omega
    constructor
    · intro hp
      cases layer with
      | none =>
        obtain ⟨j, gdn, hj, hp⟩ := ih.mp hp
        exact ⟨j + 1, gdn, by simpa using hj, by rw [hshift]; exact hp⟩
      | some gdn =>
        rcases List.mem_append.mp hp with hp | hp
        · exact ⟨0, gdn, rfl, hp⟩
        · obtain ⟨j, gdn', hj, hp⟩ := ih.mp hp
          exact ⟨j + 1, gdn', by simpa using hj, by rw [hshift]; exact hp⟩
    · rintro ⟨j, gdn, hj, hp⟩
      cases j with
      | zero =>
        obtain rfl : layer = some gdn := by simpa using hj
        exact List.mem_append_left _ hp
      | succ j =>
        rw [hshift] at hp
        have hrest := ih.mpr ⟨j, gdn, by simpa using hj, hp⟩
        cases layer with
        | none => exact hrest
        | some _ => exact List.mem_append_right _ hrest

theorem mem_vHeadRowTensors {gdn : GatedDeltaNet} {tensor : String} {l : StoredLayout}
    (h : vHeadRowLayout gdn tensor = some l) : tensor ∈ vHeadRowTensors := by
  unfold vHeadRowLayout at h
  split_ifs at h with heq hfused hgate hheads
  · rcases hfused with rfl | rfl <;> decide
  · subst hgate
    decide
  · rcases hheads with rfl | rfl | rfl | rfl <;> decide

theorem eq_of_vHeadColumnLayout {gdn : GatedDeltaNet} {tensor : String} {l : StoredLayout}
    (h : vHeadColumnLayout gdn tensor = some l) : tensor = "ssm_out.weight" := by
  unfold vHeadColumnLayout at h
  split_ifs at h with heq hout
  exact hout

/-- A table of value heads. -/
theorem get?_ofEntries_layers (layout : GatedDeltaNet → String → Option StoredLayout)
    {tensors : List String} (model : Model)
    (htensors : ∀ gdn tensor l, layout gdn tensor = some l → tensor ∈ tensors) (name : TensorName) :
    (ofEntries (layersEntries layout tensors 0 model.layers)).get? name =
      match name with
      | .global _ => none
      | .blk i tensor => ((gdnAt model i).bind fun gdn => layout gdn tensor).map index := by
  let f : TensorName → Option (List ℕ)
    | .global _ => none
    | .blk i tensor => ((gdnAt model i).bind fun gdn => layout gdn tensor).map index
  suffices hf : (ofEntries (layersEntries layout tensors 0 model.layers)).get? name = f name by
    cases name <;> exact hf
  refine get?_ofEntries ?_ ?_ name
  · intro p hp
    obtain ⟨j, gdn, hj, hp⟩ := mem_layersEntries.mp hp
    obtain ⟨tensor, -, hp⟩ := List.mem_filterMap.mp hp
    obtain ⟨l, hl, rfl⟩ := Option.map_eq_some_iff.mp hp
    rw [Nat.zero_add]
    simp only [f, gdnAt_eq_some_iff.mpr hj, Option.bind_some, hl, Option.map_some]
  · intro name idx hname
    cases name with
    | global _ => cases hname
    | blk j tensor =>
      obtain ⟨l, hl, rfl⟩ := Option.map_eq_some_iff.mp hname
      obtain ⟨gdn, hgdn, hl⟩ := Option.bind_eq_some_iff.mp hl
      refine mem_layersEntries.mpr ⟨j, gdn, gdnAt_eq_some_iff.mp hgdn, ?_⟩
      rw [Nat.zero_add]
      refine List.mem_filterMap.mpr ⟨tensor, htensors gdn tensor l hl, ?_⟩
      rw [hl]
      rfl

/-- The transforms of a file. -/
theorem get?_plainTransforms (arch : Arch) (numHiddenLayers : ℕ) (name : TensorName) :
    (ofEntries ((List.range numHiddenLayers).flatMap fun i =>
      (archSpecs arch).layerTransforms.map fun p => (TensorName.blk i p.1, p.2))).get? name =
      transformOf arch numHiddenLayers name := by
  refine get?_ofEntries ?_ ?_ name
  · intro p hp
    obtain ⟨i, hi, hp⟩ := List.mem_flatMap.mp hp
    rw [List.mem_range] at hi
    cases arch <;> simp [archSpecs] at hp
    rcases hp with rfl | rfl <;> simp [transformOf, hi]
  · intro name transform hname
    cases name with
    | global _ => cases hname
    | blk i tensor =>
      rw [List.mem_flatMap]
      simp only [transformOf] at hname
      split_ifs at hname with harch ha hconv
      · obtain ⟨rfl, hi⟩ := harch
        obtain rfl : _ = transform := by simpa using hname
        exact ⟨i, List.mem_range.mpr hi, by simp [archSpecs, ha]⟩
      · obtain ⟨rfl, hi⟩ := harch
        obtain rfl : _ = transform := by simpa using hname
        exact ⟨i, List.mem_range.mpr hi, by simp [archSpecs, hconv]⟩

theorem mem_layers_of_gdnAt {model : Model} {i : ℕ} {gdn : GatedDeltaNet}
    (h : gdnAt model i = some gdn) : some gdn ∈ model.layers := by
  rw [gdnAt_eq_some_iff] at h
  exact List.mem_of_getElem? h

/-- **The tables of the adapter are the layouts.** -/
theorem fromModel_ok {model : Model} {arch : Arch} (hmodel : model.HeadsValid arch)
    (numHiddenLayers : ℕ) (translationMap : Dict TensorName (Option LivePath)) :
    ∃ adapter, GGUFModelAdapter.fromModel model arch numHiddenLayers translationMap = .ok adapter ∧
      (∀ name, adapter.translate name = translationMap.get? name) ∧
      (∀ name, adapter.rowPermuteIndex name =
        (rowLayout model arch numHiddenLayers name).map index) ∧
      (∀ name, adapter.columnPermuteIndex name = (columnLayout model arch name).map index) ∧
      ∀ name, adapter.plainTransform name = transformOf arch numHiddenLayers name := by
  have htransforms := get?_plainTransforms arch numHiddenLayers
  have hempty : ∀ name, Dict.get? (∅ : Dict TensorName (List ℕ)) name = none := Dict.get?_empty
  cases arch with
  -- the two architectures without an index
  | qwen2 => exact ⟨_, rfl, fun _ => rfl, fun name => by cases name <;> rfl,
      fun name => by cases name <;> rfl, htransforms⟩
  | qwen3 => exact ⟨_, rfl, fun _ => rfl, fun name => by cases name <;> rfl,
      fun name => by cases name <;> rfl, htransforms⟩
  | llama =>
    obtain ⟨d, hd, hget⟩ := buildPermuteIndex_ok hmodel numHiddenLayers
    let adapter : GGUFModelAdapter :=
      { translationMap := translationMap
        permuteIndex := d.update ∅
        columnIndex := ∅
        plainTransforms := ofEntries ((List.range numHiddenLayers).flatMap fun i =>
          (archSpecs .llama).layerTransforms.map fun p => (.blk i p.1, p.2)) }
    have hfrom : GGUFModelAdapter.fromModel model .llama numHiddenLayers translationMap =
        .ok adapter := by
      unfold GGUFModelAdapter.fromModel
      simp only [archSpecs, hd]
      rfl
    refine ⟨adapter, hfrom, fun _ => rfl, fun name => ?_, fun name => by cases name <;> rfl,
      htransforms⟩
    rw [← hget, GGUFModelAdapter.rowPermuteIndex, Dict.get?_update, hempty, Option.none_or]
  -- the value heads are untiled by rows and by columns
  | qwen35 =>
    let rows := ofEntries (layersEntries vHeadRowLayout vHeadRowTensors 0 model.layers)
    let columns := ofEntries (layersEntries vHeadColumnLayout ["ssm_out.weight"] 0 model.layers)
    let adapter : GGUFModelAdapter :=
      { translationMap := translationMap
        permuteIndex := Dict.update ∅ rows
        columnIndex := columns
        plainTransforms := ofEntries ((List.range numHiddenLayers).flatMap fun i =>
          (archSpecs .qwen35).layerTransforms.map fun p => (.blk i p.1, p.2)) }
    have hfrom : GGUFModelAdapter.fromModel model .qwen35 numHiddenLayers translationMap =
        .ok adapter := by
      have hbuild : buildVHeadIndex model = .ok (rows, columns) := by
        rw [buildVHeadIndex, vHeadEntriesFrom_eq (hmodel.gdn rfl)]
        rfl
      unfold GGUFModelAdapter.fromModel
      simp only [archSpecs, hbuild]
      rfl
    have hrows := get?_ofEntries_layers vHeadRowLayout model fun _ _ _ => mem_vHeadRowTensors
    have hcolumns := get?_ofEntries_layers vHeadColumnLayout model fun _ _ _ h =>
      List.mem_singleton.mpr (eq_of_vHeadColumnLayout h)
    refine ⟨adapter, hfrom, fun _ => rfl, fun name => ?_, fun name => ?_, htransforms⟩
    · rw [GGUFModelAdapter.rowPermuteIndex, Dict.get?_update, hempty, Option.or_none, hrows]
      cases name <;> rfl
    · rw [GGUFModelAdapter.columnPermuteIndex, hcolumns]
      cases name <;> rfl

/-- The layouts of a model whose heads are valid are valid. -/
theorem rowLayout_valid {model : Model} {arch : Arch} (hmodel : model.HeadsValid arch)
    {numHiddenLayers : ℕ} {name : TensorName} {l : StoredLayout}
    (h : rowLayout model arch numHiddenLayers name = some l) : l.Valid := by
  cases name with
  | global _ => cases h
  | blk i tensor =>
    cases arch with
    | qwen2 => cases h
    | qwen3 => cases h
    | llama =>
      obtain ⟨dq, dk, hq, hk, hvq, hvk⟩ := hmodel.qk rfl
      simp only [rowLayout, qkLayout, hq, hk, Nat.mul_div_cancel_left _ hvq.1,
        Nat.mul_div_cancel_left _ hvk.1] at h
      split_ifs at h
      · cases h
        exact hvq
      · cases h
        exact hvk
    | qwen35 =>
      obtain ⟨gdn, hgdn, h⟩ := Option.bind_eq_some_iff.mp h
      have hvalid := hmodel.gdn rfl gdn (mem_layers_of_gdnAt hgdn)
      unfold vHeadRowLayout at h
      split_ifs at h <;> cases h <;> exact hvalid

theorem columnLayout_valid {model : Model} {arch : Arch} (hmodel : model.HeadsValid arch)
    {name : TensorName} {l : StoredLayout} (h : columnLayout model arch name = some l) :
    l.Valid := by
  cases name with
  | global _ => cases h
  | blk i tensor =>
    cases arch with
    | qwen2 => cases h
    | qwen3 => cases h
    | llama => cases h
    | qwen35 =>
      obtain ⟨gdn, hgdn, h⟩ := Option.bind_eq_some_iff.mp h
      have hvalid := hmodel.gdn rfl gdn (mem_layers_of_gdnAt hgdn)
      unfold vHeadColumnLayout at h
      split_ifs at h
      cases h
      exact hvalid

/-- A conv kernel has its columns as they are. -/
theorem columnLayout_of_squeezed {model : Model} {arch : Arch} {numHiddenLayers : ℕ}
    {name : TensorName} (h : transformOf arch numHiddenLayers name = some .squeezedUnitAxis) :
    columnLayout model arch name = none := by
  cases name with
  | global _ => rfl
  | blk i tensor =>
    simp only [transformOf] at h
    by_cases harch : arch = .qwen35 ∧ i < numHiddenLayers
    swap
    · rw [if_neg harch] at h
      cases h
    rw [if_pos harch] at h
    obtain rfl := harch.1
    obtain rfl : tensor = "ssm_conv1d.weight" := by
      by_contra hconv
      rw [if_neg hconv] at h
      split at h <;> cases h
    rw [columnLayout, Option.bind_eq_none_iff]
    intro gdn _
    cases hlayout : vHeadColumnLayout gdn "ssm_conv1d.weight" with
    | none => rfl
    | some l => exact absurd (eq_of_vHeadColumnLayout hlayout) (by decide)

end Gguf
end VllmMetal
