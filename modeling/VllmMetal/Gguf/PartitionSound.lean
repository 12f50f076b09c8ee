import VllmMetal.Gguf.Affine
import VllmMetal.Gguf.LayoutSound
import VllmMetal.Gguf.Partition
import Mathlib.Tactic.IntervalCases

/-!
# The stored layout is undone

A file that stores the parameters of a model, some of them in another order, leaves modules that
compute with the weights of the model, and plain values and biases of the model.

## Main definitions

* `storedValue`, `storedIndex` — what a file stores of a parameter, and where.
* `StoredAs` — a tensor of a file that stores a parameter.
* `Undone`, `Covers` — what the loader leaves.

## Main results

* `placeTensor_ok` — one tensor.
* `stored_layout_is_undone` — a file.
-/

namespace VllmMetal
namespace Gguf

open StoredLayout NdArray GGUFModelLoader

variable {K : Type} [CommRing K]

/-! ### What a file stores -/

/-- What the file stores of the values of a parameter. -/
def storedValue (exp : K → K) : Option GGUFPlainTransform → NdArray K → NdArray K
  | none, value => value
  | some .squeezedUnitAxis, value =>
    { shape := value.shape.dropLast
      entry := fun index => value.entry (index ++ [0]) }
  | some .negatedExp, value => value.map fun x => -exp x

/-- Where the file stores an entry. -/
def storedIndex (rows columns : Option StoredLayout) : List ℕ → List ℕ
  | r :: c :: index => storedAt rows r :: storedAt columns c :: index
  | [r] => [storedAt rows r]
  | [] => []

/-- A layout of an axis has the size of the axis. -/
def FitsAxis (layout : Option StoredLayout) (shape : List ℕ) (axis : ℕ) : Prop :=
  ∀ l, layout = some l → shape[axis]? = some l.rows

/-- A file whose numbers are those of a parameter, moved. -/
structure StoredPlain (rows columns : Option StoredLayout) (source stored : NdArray K) : Prop where
  shape_eq : stored.shape = source.shape
  entry_eq : ∀ index, InRange index source.shape →
    stored.entry (storedIndex rows columns index) = source.entry index

/-! ### Gathered arrays -/

/-- The rows of an array, where they are stored. -/
def rowsOf (rows : Option StoredLayout) (a : NdArray K) : NdArray K :=
  match rows.map index with
  | some permute => a.takeRows permute
  | none => a

/-- The columns of an array, where they are stored. -/
def columnsOf (columns : Option StoredLayout) (a : NdArray K) : NdArray K :=
  match columns.map index with
  | some columns => a.takeColumns columns
  | none => a

omit [CommRing K] in
theorem rowsOf_spec {rows : Option StoredLayout} {a : NdArray K} (hrows : FitsAxis rows a.shape 0) :
    (rowsOf rows a).shape = a.shape ∧ (rowsOf rows a).entry [] = a.entry [] ∧
      ∀ r i, r < a.shape.getD 0 0 →
        (rowsOf rows a).entry (r :: i) = a.entry (storedAt rows r :: i) := by
  cases rows with
  | none => exact ⟨rfl, rfl, fun _ _ _ => rfl⟩
  | some l =>
    have haxis := hrows l rfl
    cases hshape : a.shape with
    | nil => rw [hshape] at haxis; cases haxis
    | cons d dims =>
      obtain rfl : d = l.rows := by rw [hshape] at haxis; simpa using haxis
      refine ⟨by simp [rowsOf, takeRows, hshape], rfl, fun r i hr => ?_⟩
      exact congrArg (fun r' => a.entry (r' :: i)) (l.getD_index hr)

omit [CommRing K] in
theorem columnsOf_spec {columns : Option StoredLayout} {a : NdArray K}
    (hcolumns : FitsAxis columns a.shape 1) :
    (columnsOf columns a).shape = a.shape ∧ (columnsOf columns a).entry [] = a.entry [] ∧
      (∀ r, (columnsOf columns a).entry [r] = a.entry [r]) ∧
      ∀ r c i, c < a.shape.getD 1 0 →
        (columnsOf columns a).entry (r :: c :: i) = a.entry (r :: storedAt columns c :: i) := by
  cases columns with
  | none => exact ⟨rfl, rfl, fun _ => rfl, fun _ _ _ _ => rfl⟩
  | some l =>
    have haxis := hcolumns l rfl
    match hshape : a.shape with
    | [] => rw [hshape] at haxis; cases haxis
    | [_] => rw [hshape] at haxis; cases haxis
    | d :: d' :: dims =>
      obtain rfl : d' = l.rows := by rw [hshape] at haxis; simpa using haxis
      refine ⟨by simp [columnsOf, takeColumns, hshape], rfl, fun _ => rfl, fun r c i hc => ?_⟩
      exact congrArg (fun c' => a.entry (r :: c' :: i)) (l.getD_index hc)

omit [CommRing K] in
/-- **An array whose rows and columns are gathered.** -/
theorem columnsOf_rowsOf {rows columns : Option StoredLayout} {a : NdArray K}
    (hrows : FitsAxis rows a.shape 0) (hcolumns : FitsAxis columns a.shape 1) :
    (columnsOf columns (rowsOf rows a)).shape = a.shape ∧ ∀ i, InRange i a.shape →
      (columnsOf columns (rowsOf rows a)).entry i = a.entry (storedIndex rows columns i) := by
  obtain ⟨hshape, hnil, hrow⟩ := rowsOf_spec hrows
  obtain ⟨hshape', hnil', hsingle, hcolumn⟩ := columnsOf_spec (hshape.symm ▸ hcolumns)
  refine ⟨hshape'.trans hshape, fun i hi => ?_⟩
  have hhead : ∀ {r i}, InRange (r :: i) a.shape → r < a.shape.getD 0 0 := by
    intro r i hi
    obtain ⟨d, dims, hr, -, hdims⟩ := List.forall₂_cons_left_iff.mp hi
    rw [hdims]
    exact hr
  match i with
  | [] => rw [hnil', hnil]; rfl
  | [r] => rw [hsingle, hrow r [] (hhead hi)]; rfl
  | r :: c :: i =>
    have hc : c < (rowsOf rows a).shape.getD 1 0 := by
      obtain ⟨d, dims, -, hi', hdims⟩ := List.forall₂_cons_left_iff.mp hi
      obtain ⟨d', dims', hc, -, rfl⟩ := List.forall₂_cons_left_iff.mp hi'
      rw [hshape, hdims]
      exact hc
    rw [hcolumn r c i hc, hrow _ _ (hhead hi)]
    rfl

omit [CommRing K] in
/-- **An array that is put back.** -/
theorem StoredPlain.same {rows columns : Option StoredLayout} {value stored : NdArray K}
    (hrows : FitsAxis rows value.shape 0) (hcolumns : FitsAxis columns value.shape 1)
    (h : StoredPlain rows columns value stored) :
    (columnsOf columns (rowsOf rows stored)).Same value := by
  obtain ⟨hshape, hentry⟩ := columnsOf_rowsOf (h.shape_eq.symm ▸ hrows) (h.shape_eq.symm ▸ hcolumns)
  refine ⟨hshape.trans h.shape_eq, fun i hi => ?_⟩
  rw [hshape] at hi
  rw [hentry i hi, h.entry_eq i (h.shape_eq ▸ hi)]

/-- **A plain tensor that is put back.** -/
theorem same_of_storedPlain {exp log : K → K} (hlog : ∀ x, log (exp x) = x)
    {transform : Option GGUFPlainTransform} {rows columns : Option StoredLayout}
    {value stored : NdArray K} (hrows : FitsAxis rows value.shape 0)
    (hcolumns : FitsAxis columns value.shape 1)
    (hsqueezed : transform = some .squeezedUnitAxis →
      columns = none ∧ ∃ dims, dims ≠ [] ∧ value.shape = dims ++ [1])
    (h : StoredPlain rows columns (storedValue exp transform value) stored) :
    (columnsOf columns (rowsOf rows (match transform with
      | some transform => transform.apply log stored
      | none => stored))).Same value := by
  cases transform with
  | none => exact h.same hrows hcolumns
  | some transform =>
    cases transform with
    | negatedExp =>
      refine StoredPlain.same hrows hcolumns ⟨h.shape_eq, fun i hi => ?_⟩
      have hentry : stored.entry (storedIndex rows columns i) = -exp (value.entry i) :=
        h.entry_eq i hi
      show log (-stored.entry (storedIndex rows columns i)) = value.entry i
      rw [hentry, neg_neg, hlog]
    | squeezedUnitAxis =>
      obtain ⟨rfl, dims, hne, hdims⟩ := hsqueezed rfl
      have hshape : stored.shape = dims := by
        have hstored : stored.shape = value.shape.dropLast := h.shape_eq
        rw [hstored, hdims, List.dropLast_concat]
      refine StoredPlain.same hrows hcolumns ⟨by rw [hdims, ← hshape]; rfl, fun i hi => ?_⟩
      rw [hdims] at hi
      obtain ⟨init, rfl, hinit⟩ := inRange_append_one hi
      have hstored : stored.entry (storedIndex rows none init) = value.entry (init ++ [0]) := by
        refine h.entry_eq init ?_
        show InRange init value.shape.dropLast
        rwa [hdims, List.dropLast_concat]
      -- the unit axis is not one of the permuted ones
      have hindex : storedIndex rows none (init ++ [0]) = storedIndex rows none init ++ [0] := by
        match init with
        | [] => exact absurd (List.forall₂_nil_left_iff.mp hinit) hne
        | [_] => rfl
        | _ :: _ :: _ => rfl
      show stored.entry (storedIndex rows none (init ++ [0])).dropLast = value.entry (init ++ [0])
      rw [hindex, List.dropLast_concat, hstored]

/-! ### A tensor of the file -/

section File

variable (loader : GGUFModelLoader K) (exp : K → K) (model : Model) (arch : Arch)
  (numHiddenLayers : ℕ) (value : LivePath → NdArray K)

/-- The numbers of a tensor are those of a parameter, stored. -/
def StoredNumbers (tensor : FileTensor K) (path : LivePath) (data : List K) : Prop :=
  -- a bias has its values as they are
  let transform := if path.paramName = "bias" then none
    else transformOf arch numHiddenLayers tensor.name
  let source := storedValue exp transform (value path)
  data.length = tensor.logicalShape.prod ∧
    (transform = some .squeezedUnitAxis → ∃ dims, dims ≠ [] ∧ (value path).shape = dims ++ [1]) ∧
    StoredPlain (rowLayout model arch numHiddenLayers tensor.name)
      (columnLayout model arch tensor.name) source (ofFlat 0 tensor.logicalShape data)

/-- The blocks of a tensor decode to a weight, stored. -/
def StoredBlocks (tensor : FileTensor K) (path : LivePath) (qtype : QuantType)
    (blockData : List UInt8) : Prop :=
  path.paramName = "weight" ∧
    ∃ qt, loader.quantTensor tensor.logicalShape qtype blockData = .ok qt ∧
      (value path).shape = [qt.outFeatures, qt.inFeatures] ∧
      ∀ r < qt.outFeatures, ∀ c < qt.inFeatures,
        ((qt.rows loader.half).getD
            (storedAt (rowLayout model arch numHiddenLayers tensor.name) r) []).getD
          (storedAt (columnLayout model arch tensor.name) c) 0 = (value path).entry [r, c]

/-- A tensor of a file that stores a parameter of the model. -/
structure StoredAs (tensor : FileTensor K) (path : LivePath) : Prop where
  hasModule : model.hasModule path.modulePath = true
  shape : model.shape path = some (value path).shape
  rows : FitsAxis (rowLayout model arch numHiddenLayers tensor.name) (value path).shape 0
  columns : FitsAxis (columnLayout model arch tensor.name) (value path).shape 1
  bias : path.paramName = "bias" → (value path).shape.length = 1
  payload : match tensor.payload with
    | .plain data => StoredNumbers exp model arch numHiddenLayers value tensor path data
    | .quant qtype blockData =>
        StoredBlocks loader model arch numHiddenLayers value tensor path qtype blockData

/-! ### What the loader leaves -/

/-- The value to load for a parameter. -/
def liveValue (path : LivePath) : NdArray K :=
  if path.paramName = "bias" ∨ loader.castPredicate path then
    (value path).map loader.toTargetDtype
  else value path

/-- Every part is the model's. -/
structure Undone (parts : PartitionedTensors K) : Prop where
  quant : ∀ modulePath qt, parts.quant.get? modulePath = some qt →
    Computes loader.half qt (denseRows (value ⟨modulePath, "weight"⟩))
      ((value ⟨modulePath, "weight"⟩).shape.getD 1 0)
  plain : ∀ path a, parts.plain.get? path = some a → a.Same (liveValue loader value path)
  biases : ∀ modulePath a, parts.biases.get? modulePath = some a →
    a.Same ((value ⟨modulePath, "bias"⟩).map loader.toTargetDtype)

/-- A part is there for a tensor. -/
def Covers (parts : PartitionedTensors K) (tensor : FileTensor K) (path : LivePath) : Prop :=
  if path.paramName = "bias" then
    (parts.biases.get? path.modulePath).isSome ∨ (parts.plain.get? path).isSome
  else match tensor.payload with
    | .plain _ => (parts.plain.get? path).isSome
    | .quant _ _ => (parts.quant.get? path.modulePath).isSome

variable {loader exp model arch numHiddenLayers value}

/-- The tables of the adapter are the layouts. -/
structure Tables (model : Model) (arch : Arch) (numHiddenLayers : ℕ) (adapter : GGUFModelAdapter) :
    Prop where
  rows : ∀ name, adapter.rowPermuteIndex name =
    (rowLayout model arch numHiddenLayers name).map index
  columns : ∀ name, adapter.columnPermuteIndex name = (columnLayout model arch name).map index
  transforms : ∀ name, adapter.plainTransform name = transformOf arch numHiddenLayers name

variable {adapter : GGUFModelAdapter} {tensor : FileTensor K} {path : LivePath}

omit [CommRing K] in
/-- A bias has no columns. -/
theorem FitsAxis.eq_none_of_length {layout : Option StoredLayout} {shape : List ℕ}
    (h : FitsAxis layout shape 1) (hlength : shape.length = 1) : layout = none := by
  cases hl : layout with
  | none => rfl
  | some l =>
    have := h l hl
    rw [List.getElem?_eq_none (by omega)] at this
    cases this

/-- The data of a plain tensor. -/
theorem plainTensor_ok {data : List K} (hpayload : tensor.payload = .plain data)
    (hlength : data.length = tensor.logicalShape.prod) :
    plainTensor tensor = .ok (ofFlat 0 tensor.logicalShape data) := by
  unfold plainTensor
  rw [hpayload]
  exact if_pos hlength

/-- The bias branch. -/
theorem placeBias_ok (htables : Tables model arch numHiddenLayers adapter) {data : List K}
    (hpayload : tensor.payload = .plain data) (hbias : path.paramName = "bias")
    (h : StoredAs loader exp model arch numHiddenLayers value tensor path) :
    ∃ a, loader.placeBias model adapter tensor path = .ok a ∧
      a.Same ((value path).map loader.toTargetDtype) := by
  have hnumbers : StoredNumbers exp model arch numHiddenLayers value tensor path data := by
    have := h.payload
    rwa [hpayload] at this
  obtain ⟨hlength, -, hstored⟩ := hnumbers
  rw [if_pos hbias] at hstored
  -- a bias has no columns to undo
  have hcolumns := h.columns.eq_none_of_length (h.bias hbias)
  rw [hcolumns] at hstored
  refine ⟨rowsOf (rowLayout model arch numHiddenLayers tensor.name)
    ((ofFlat 0 tensor.logicalShape data).map loader.toTargetDtype), ?_, ?_⟩
  · have hshape : ((ofFlat 0 tensor.logicalShape data).map loader.toTargetDtype).shape =
        (value path).shape := hstored.shape_eq
    unfold placeBias
    rw [plainTensor_ok hpayload hlength]
    simp only [htables.rows]
    show (validatePlainShape model path _ tensor.name none >>= fun _ => _) = _
    rw [validatePlainShape, h.shape]
    simp only
    rw [if_neg (not_not.mpr hshape)]
    rfl
  -- the cast commutes with the rows' order
  · have hcast : StoredPlain (rowLayout model arch numHiddenLayers tensor.name) none
        ((value path).map loader.toTargetDtype)
        ((ofFlat 0 tensor.logicalShape data).map loader.toTargetDtype) :=
      ⟨hstored.shape_eq, fun i hi => congrArg loader.toTargetDtype (hstored.entry_eq i hi)⟩
    have hrows : FitsAxis (rowLayout model arch numHiddenLayers tensor.name)
        ((value path).map loader.toTargetDtype).shape 0 := h.rows
    have hcolumns : FitsAxis none ((value path).map loader.toTargetDtype).shape 1 := by
      intro l hl
      cases hl
    exact hcast.same hrows hcolumns

/-- The branch of a plain tensor. -/
theorem placePlain_ok (hlog : ∀ x, loader.log (exp x) = x)
    (htables : Tables model arch numHiddenLayers adapter) {data : List K}
    (hpayload : tensor.payload = .plain data) (hbias : path.paramName ≠ "bias")
    (h : StoredAs loader exp model arch numHiddenLayers value tensor path) :
    ∃ a, loader.placePlain model adapter tensor path = .ok a ∧
      a.Same (liveValue loader value path) := by
  have hnumbers : StoredNumbers exp model arch numHiddenLayers value tensor path data := by
    have := h.payload
    rwa [hpayload] at this
  obtain ⟨hlength, hunit, hstored⟩ := hnumbers
  rw [if_neg hbias] at hunit hstored
  let stored := ofFlat 0 tensor.logicalShape data
  -- what the tensor becomes is the value of its path
  let weight := columnsOf (columnLayout model arch tensor.name)
    (rowsOf (rowLayout model arch numHiddenLayers tensor.name)
      (match transformOf arch numHiddenLayers tensor.name with
        | some transform => transform.apply loader.log stored
        | none => stored))
  have hsame : weight.Same (value path) := same_of_storedPlain hlog h.rows h.columns
    (fun hsqueezed => ⟨columnLayout_of_squeezed hsqueezed, hunit hsqueezed⟩) hstored
  refine ⟨if loader.castPredicate path then weight.map loader.toTargetDtype else weight, ?_, ?_⟩
  -- its shape is the one of the model
  · have hvalid : validatePlainShape model path stored tensor.name
        (transformOf arch numHiddenLayers tensor.name) = .ok () := by
      have hshape := hstored.shape_eq
      rw [validatePlainShape, h.shape]
      cases htransform : transformOf arch numHiddenLayers tensor.name with
      | none =>
        rw [htransform] at hshape
        exact if_neg (not_not.mpr hshape)
      | some transform =>
        rw [htransform] at hshape
        cases transform <;> exact if_neg (not_not.mpr hshape)
    unfold placePlain
    rw [plainTensor_ok hpayload hlength]
    simp only [htables.rows, htables.columns, htables.transforms]
    show (validatePlainShape model path stored tensor.name _ >>= fun _ => _) = _
    rw [hvalid]
    rfl
  · unfold liveValue
    by_cases hcast : loader.castPredicate path = true
    · rw [if_pos hcast, if_pos (Or.inr hcast)]
      exact hsame.map _
    · rw [if_neg hcast, if_neg (by tauto)]
      exact hsame

/-- The branch of a quantized weight. -/
theorem placeQuant_ok (hmodel : model.HeadsValid arch)
    (htables : Tables model arch numHiddenLayers adapter) {qtype : QuantType}
    {blockData : List UInt8} (hpayload : tensor.payload = .quant qtype blockData)
    (h : StoredAs loader exp model arch numHiddenLayers value tensor path) :
    path.paramName = "weight" ∧
    ∃ qt, loader.placeQuant model adapter tensor path qtype blockData = .ok qt ∧
      Computes loader.half qt (denseRows (value path)) ((value path).shape.getD 1 0) := by
  have hblocks : StoredBlocks loader model arch numHiddenLayers value tensor path qtype
      blockData := by
    have := h.payload
    rwa [hpayload] at this
  obtain ⟨hweight, qt, hquant, hshape, hentry⟩ := hblocks
  refine ⟨hweight, ?_⟩
  -- the layouts are as long as the axes
  have hrows : Fits (rowLayout model arch numHiddenLayers tensor.name) qt.outFeatures := by
    intro l hl
    have haxis := h.rows l hl
    rw [hshape] at haxis
    exact ⟨rowLayout_valid hmodel hl, by simpa using haxis.symm⟩
  have hcolumns : Fits (columnLayout model arch tensor.name) qt.inFeatures := by
    intro l hl
    have haxis := h.columns l hl
    rw [hshape] at haxis
    exact ⟨columnLayout_valid hmodel hl, by simpa using haxis.symm⟩
  obtain ⟨qt', hpermute, hcomputes⟩ :=
    computes_of_stored loader.half qt hshape hrows hcolumns hentry
  refine ⟨_, ?_, hcomputes⟩
  have hpath : path = ⟨path.modulePath, "weight"⟩ := by
    rw [← hweight]
  have hvalid : validateQuantShape model path.modulePath qt tensor.name = .ok () := by
    rw [validateQuantShape, ← hpath, h.shape, hshape]
    exact if_neg (not_not.mpr rfl)
  unfold placeQuant
  simp only [htables.rows, htables.columns]
  rw [hquant]
  show (validateQuantShape model path.modulePath qt tensor.name >>= fun _ => _) = _
  rw [hvalid]
  -- the rows are permuted only where there is a layout
  generalize (rowLayout model arch numHiddenLayers tensor.name).map index = permute at hpermute ⊢
  cases permute with
  | none =>
    cases hpermute
    rfl
  | some permute =>
    have hpermute' : qt.permuteRows permute = .ok qt' := hpermute
    show (liftError LoadError.quant (qt.permuteRows permute) >>= fun _ => _) = _
    rw [hpermute']
    rfl

/-! ### The file -/

/-- A tensor that the loader reads: it has a counterpart, and is not the tied head. -/
def Read (translationMap : Dict TensorName (Option LivePath)) (tied : Bool) (tensor : FileTensor K)
    (path : LivePath) : Prop :=
  translationMap.get? tensor.name = some (some path) ∧ ¬(tied = true ∧ path = ⟨"lm_head", "weight"⟩)

/-- Parts that are there stay there. -/
structure Grows (parts parts' : PartitionedTensors K) : Prop where
  quant : ∀ k, (parts.quant.get? k).isSome → (parts'.quant.get? k).isSome
  plain : ∀ k, (parts.plain.get? k).isSome → (parts'.plain.get? k).isSome
  biases : ∀ k, (parts.biases.get? k).isSome →
    (parts'.biases.get? k).isSome ∨ (parts'.plain.get? ⟨k, "bias"⟩).isSome

omit [CommRing K] in
theorem Grows.refl (parts : PartitionedTensors K) : Grows parts parts :=
  ⟨fun _ h => h, fun _ h => h, fun _ h => Or.inl h⟩

omit [CommRing K] in
theorem Grows.trans {parts parts' parts'' : PartitionedTensors K} (h : Grows parts parts')
    (h' : Grows parts' parts'') : Grows parts parts'' :=
  ⟨fun k hk => h'.quant k (h.quant k hk), fun k hk => h'.plain k (h.plain k hk), fun k hk =>
    (h.biases k hk).elim (h'.biases k) fun hplain => Or.inr (h'.plain _ hplain)⟩

omit [CommRing K] in
theorem Covers.mono {parts parts' : PartitionedTensors K} (h : Covers parts tensor path)
    (hgrows : Grows parts parts') : Covers parts' tensor path := by
  unfold Covers at h ⊢
  split
  · next hbias =>
    rw [if_pos hbias] at h
    have hpath : path = ⟨path.modulePath, "bias"⟩ := by
      rw [← hbias]
    rcases h with h | h
    · rw [hpath]
      exact hgrows.biases _ h
    · exact Or.inr (hgrows.plain _ h)
  · next hbias =>
    rw [if_neg hbias] at h
    cases hpayload : tensor.payload with
    | plain _ =>
      rw [hpayload] at h
      exact hgrows.plain _ h
    | quant _ _ =>
      rw [hpayload] at h
      exact hgrows.quant _ h

theorem Undone.setQuant {parts : PartitionedTensors K} (h : Undone loader value parts)
    {modulePath : String} {qt : GGUFTensor K}
    (hqt : Computes loader.half qt (denseRows (value ⟨modulePath, "weight"⟩))
      ((value ⟨modulePath, "weight"⟩).shape.getD 1 0)) :
    Undone loader value { parts with quant := parts.quant.set modulePath qt } where
  quant k qt' hk := by
    rw [Dict.get?_set] at hk
    split at hk
    · next heq =>
      subst heq
      cases hk
      exact hqt
    · exact h.quant k qt' hk
  plain := h.plain
  biases := h.biases

theorem Undone.setPlain {parts : PartitionedTensors K} (h : Undone loader value parts)
    {path : LivePath} {a : NdArray K} (ha : a.Same (liveValue loader value path)) :
    Undone loader value { parts with plain := parts.plain.set path a } where
  quant := h.quant
  plain k a' hk := by
    rw [Dict.get?_set] at hk
    split at hk
    · next heq =>
      subst heq
      cases hk
      exact ha
    · exact h.plain k a' hk
  biases := h.biases

theorem Undone.setBias {parts : PartitionedTensors K} (h : Undone loader value parts)
    {modulePath : String} {a : NdArray K}
    (ha : a.Same ((value ⟨modulePath, "bias"⟩).map loader.toTargetDtype)) :
    Undone loader value { parts with biases := parts.biases.set modulePath a } where
  quant := h.quant
  plain := h.plain
  biases k a' hk := by
    rw [Dict.get?_set] at hk
    split at hk
    · next heq =>
      subst heq
      cases hk
      exact ha
    · exact h.biases k a' hk

/-- **One tensor of the file.** -/
theorem placeTensor_ok (hlog : ∀ x, loader.log (exp x) = x) (hmodel : model.HeadsValid arch)
    (htables : Tables model arch numHiddenLayers adapter) {tied : Bool}
    {translationMap : Dict TensorName (Option LivePath)}
    (htranslate : ∀ name, adapter.translate name = translationMap.get? name)
    (hmapped : (translationMap.get? tensor.name).isSome)
    (hstored : ∀ path, Read translationMap tied tensor path →
      StoredAs loader exp model arch numHiddenLayers value tensor path)
    {parts : PartitionedTensors K} (hparts : Undone loader value parts) :
    ∃ parts', loader.placeTensor model tied adapter parts tensor = .ok parts' ∧
      Undone loader value parts' ∧ Grows parts parts' ∧
      ∀ path, Read translationMap tied tensor path → Covers parts' tensor path := by
  obtain ⟨target, htarget⟩ := Option.isSome_iff_exists.mp hmapped
  unfold placeTensor
  rw [htranslate, htarget]
  cases target with
  -- a tensor that maps to nothing is skipped
  | none =>
    refine ⟨parts, rfl, hparts, Grows.refl parts, fun path hread => ?_⟩
    rw [hread.1] at htarget
    cases htarget
  | some path =>
    have hpath : ∀ path', Read translationMap tied tensor path' → path' = path := by
      intro path' hread
      rw [hread.1] at htarget
      cases htarget
      rfl
    simp only
    -- a tied output head is skipped too
    by_cases hhead : tied = true ∧ path = ⟨"lm_head", "weight"⟩
    · rw [if_pos hhead]
      refine ⟨parts, rfl, hparts, Grows.refl parts, fun path' hread => ?_⟩
      rw [hpath path' hread] at hread
      exact absurd hhead hread.2
    rw [if_neg hhead]
    have h := hstored path ⟨htarget, hhead⟩
    rw [if_neg (by simp [h.hasModule])]
    by_cases hbias : path.paramName = "bias"
    · -- a bias is never made of blocks
      obtain ⟨data, hpayload⟩ : ∃ data, tensor.payload = .plain data := by
        cases hpayload : tensor.payload with
        | plain data => exact ⟨data, rfl⟩
        | quant qtype blockData =>
          have hweight := (placeQuant_ok hmodel htables hpayload h).1
          rw [hbias] at hweight
          exact absurd hweight (by decide)
      obtain ⟨a, ha, hsame⟩ := placeBias_ok htables hpayload hbias h
      rw [if_pos hbias, ha]
      refine ⟨_, rfl, hparts.setBias ?_, ⟨fun _ hk => hk, fun _ hk => hk, fun _ hk =>
        Or.inl (Dict.isSome_get?_set _ _ _ hk)⟩, fun path' hread => ?_⟩
      · rwa [← hbias]
      · rw [hpath path' hread, Covers, if_pos hbias]
        exact Or.inl (by simp)
    · rw [if_neg hbias]
      cases hpayload : tensor.payload with
      | plain data =>
        obtain ⟨a, ha, hsame⟩ := placePlain_ok hlog htables hpayload hbias h
        simp only
        rw [ha]
        refine ⟨_, rfl, hparts.setPlain hsame, ⟨fun _ hk => hk, fun _ hk =>
          Dict.isSome_get?_set _ _ _ hk, fun _ hk => Or.inl hk⟩, fun path' hread => ?_⟩
        rw [hpath path' hread, Covers, if_neg hbias, hpayload]
        simp
      | quant qtype blockData =>
        obtain ⟨hweight, qt, hqt, hcomputes⟩ := placeQuant_ok hmodel htables hpayload h
        simp only
        rw [hqt]
        refine ⟨_, rfl, hparts.setQuant ?_, ⟨fun _ hk => Dict.isSome_get?_set _ _ _ hk,
          fun _ hk => hk, fun _ hk => Or.inl hk⟩, fun path' hread => ?_⟩
        · rwa [← hweight]
        · rw [hpath path' hread, Covers, if_neg hbias, hpayload]
          simp

/-- Biases of plain weights are moved. -/
theorem movePlainBiases_spec {parts : PartitionedTensors K} (hparts : Undone loader value parts) :
    Undone loader value (movePlainBiases parts) ∧ Grows parts (movePlainBiases parts) := by
  unfold movePlainBiases
  generalize parts.biases.keys.filter (fun path => path ∉ parts.quant) = keys
  -- induction on the paths to move, with the parts free
  induction keys generalizing parts with
  | nil => exact ⟨hparts, Grows.refl parts⟩
  | cons modulePath keys ih =>
    rw [List.foldl_cons]
    cases hbias : parts.biases.get? modulePath with
    | none =>
      simp only
      exact ih hparts
    | some bias =>
      simp only
      have hplain : bias.Same (liveValue loader value ⟨modulePath, "bias"⟩) := by
        rw [liveValue, if_pos (Or.inl rfl)]
        exact hparts.biases modulePath bias hbias
      have hset := hparts.setPlain hplain
      have hstep : Undone loader value
          { parts with
            plain := parts.plain.set ⟨modulePath, "bias"⟩ bias
            biases := parts.biases.pop modulePath } := by
        -- what is moved to the plain tensors leaves the biases
        refine ⟨hset.quant, hset.plain, fun k a hk => ?_⟩
        rw [Dict.get?_pop] at hk
        split at hk
        · cases hk
        · exact hparts.biases k a hk
      have hgrows : Grows parts
          { parts with
            plain := parts.plain.set ⟨modulePath, "bias"⟩ bias
            biases := parts.biases.pop modulePath } := by
        refine ⟨fun _ hk => hk, fun k hk => Dict.isSome_get?_set _ _ _ hk, fun k hk => ?_⟩
        by_cases heq : k = modulePath
        · subst heq
          exact Or.inr (by simp)
        · exact Or.inl (by simpa [heq] using hk)
      obtain ⟨hundone, hgrows'⟩ := ih hstep
      exact ⟨hundone, hgrows.trans hgrows'⟩

/-- The loop over the file. -/
theorem foldlM_placeTensor_ok (hlog : ∀ x, loader.log (exp x) = x) (hmodel : model.HeadsValid arch)
    (htables : Tables model arch numHiddenLayers adapter) {tied : Bool}
    {translationMap : Dict TensorName (Option LivePath)}
    (htranslate : ∀ name, adapter.translate name = translationMap.get? name)
    {tensors : List (FileTensor K)}
    (hfile : ∀ tensor ∈ tensors, (translationMap.get? tensor.name).isSome ∧
      ∀ path, Read translationMap tied tensor path →
        StoredAs loader exp model arch numHiddenLayers value tensor path)
    {parts : PartitionedTensors K} (hparts : Undone loader value parts) :
    ∃ parts', tensors.foldlM (loader.placeTensor model tied adapter) parts = .ok parts' ∧
      Undone loader value parts' ∧ Grows parts parts' ∧
      ∀ tensor ∈ tensors, ∀ path, Read translationMap tied tensor path →
        Covers parts' tensor path := by
  induction tensors generalizing parts with
  | nil => exact ⟨parts, rfl, hparts, Grows.refl parts, fun _ h => absurd h List.not_mem_nil⟩
  | cons tensor tensors ih =>
    obtain ⟨hmapped, hstored⟩ := hfile tensor List.mem_cons_self
    obtain ⟨parts₁, hok, hundone, hgrows, hcovers⟩ :=
      placeTensor_ok hlog hmodel htables htranslate hmapped hstored hparts
    obtain ⟨parts₂, hok', hundone', hgrows', hcovers'⟩ :=
      ih (fun t ht => hfile t (List.mem_cons_of_mem _ ht)) hundone
    refine ⟨parts₂, ?_, hundone', hgrows.trans hgrows', ?_⟩
    · rw [List.foldlM_cons, hok]
      exact hok'
    · intro t ht path hread
      rcases List.mem_cons.mp ht with rfl | ht
      · exact (hcovers path hread).mono hgrows'
      · exact hcovers' t ht path hread

/-- **The stored layout is undone.**  The adapter's indices are permutations, and a file that stores
the parameters of a model loads: every weight that is installed multiplies with and looks up the
rows of the model's weight, and every plain value and bias is the model's. -/
theorem stored_layout_is_undone (hlog : ∀ x, loader.log (exp x) = x)
    (hmodel : model.HeadsValid arch) (tied : Bool)
    (translationMap : Dict TensorName (Option LivePath)) (tensors : List (FileTensor K))
    (hfile : ∀ tensor ∈ tensors, (translationMap.get? tensor.name).isSome ∧
      ∀ path, Read translationMap tied tensor path →
        StoredAs loader exp model arch numHiddenLayers value tensor path) :
    ∃ adapter,
      GGUFModelAdapter.fromModel model arch numHiddenLayers translationMap = .ok adapter ∧
      (∀ name permute, adapter.rowPermuteIndex name = some permute →
        ∃ size, permute.Perm (List.range size)) ∧
      (∀ name columns, adapter.columnPermuteIndex name = some columns →
        ∃ size, columns.Perm (List.range size)) ∧
      ∃ parts, loader.partition model tied adapter tensors = .ok parts ∧
        Undone loader value parts ∧
        ∀ tensor ∈ tensors, ∀ path, Read translationMap tied tensor path →
          Covers parts tensor path := by
  obtain ⟨adapter, hadapter, htranslate, hrows, hcolumns, htransforms⟩ :=
    fromModel_ok hmodel numHiddenLayers translationMap
  have htables : Tables model arch numHiddenLayers adapter := ⟨hrows, hcolumns, htransforms⟩
  have hempty : Undone loader value (⟨∅, ∅, ∅⟩ : PartitionedTensors K) :=
    ⟨fun _ _ h => by simp at h, fun _ _ h => by simp at h, fun _ _ h => by simp at h⟩
  -- the loop over the file, then the biases that are left
  obtain ⟨parts, hok, hundone, -, hcovers⟩ :=
    foldlM_placeTensor_ok hlog hmodel htables htranslate hfile hempty
  obtain ⟨hmoved, hgrows⟩ := movePlainBiases_spec hundone
  refine ⟨adapter, hadapter, fun name permute h => ?_, fun name columns h => ?_,
    movePlainBiases parts, ?_, hmoved, fun tensor ht path hread =>
      (hcovers tensor ht path hread).mono hgrows⟩
  · rw [hrows] at h
    obtain ⟨l, hl, rfl⟩ := Option.map_eq_some_iff.mp h
    exact ⟨l.rows, perm_index (rowLayout_valid hmodel hl)⟩
  · rw [hcolumns] at h
    obtain ⟨l, hl, rfl⟩ := Option.map_eq_some_iff.mp h
    exact ⟨l.rows, perm_index (columnLayout_valid hmodel hl)⟩
  · rw [GGUFModelLoader.partition, hok]
    rfl

end File

/-- A payload that decodes to what it should, by evaluation. -/
private theorem storedBlocks_of_toOption {K : Type} [CommRing K] {loader : GGUFModelLoader K}
    {model : Model} {arch : Arch} {numHiddenLayers : ℕ} {value : LivePath → NdArray K}
    {tensor : FileTensor K} {path : LivePath} {qtype : QuantType} {blockData : List UInt8}
    (hweight : path.paramName = "weight")
    (h : ∃ qt ∈ (loader.quantTensor tensor.logicalShape qtype blockData).toOption,
      (value path).shape = [qt.outFeatures, qt.inFeatures] ∧
      ∀ r < qt.outFeatures, ∀ c < qt.inFeatures,
        ((qt.rows loader.half).getD
            (storedAt (rowLayout model arch numHiddenLayers tensor.name) r) []).getD
          (storedAt (columnLayout model arch tensor.name) c) 0 = (value path).entry [r, c]) :
    StoredBlocks loader model arch numHiddenLayers value tensor path qtype blockData := by
  obtain ⟨qt, hqt, hdecodes⟩ := h
  cases hload : loader.quantTensor tensor.logicalShape qtype blockData with
  | error e =>
    rw [hload] at hqt
    exact absurd hqt (Option.not_mem_none qt)
  | ok qt' =>
    rw [hload] at hqt
    obtain rfl := Option.some.inj hqt
    exact ⟨hweight, qt', hload, hdecodes⟩

/-- Four value heads over two key heads, tiled in the file: the rows of a projection and the columns
of the output are blocks of `Q8_0` with the scale one, and the decay is plain. -/
theorem stored_layout_is_undone_value_heads :
    let model : Model :=
      { numAttentionHeads := 0
        numKeyValueHeads := 0
        qRows := 0
        kRows := 0
        layers := [some ⟨2, 4, 8, 1⟩]
        hasModule := fun _ => true
        shape := fun path => if path = ⟨"in_proj_a", "weight"⟩ then some [4, 32]
          else if path = ⟨"out_proj", "weight"⟩ then some [1, 32] else some [4] }
    let loader : GGUFModelLoader ℚ :=
      { affineFromRawBlocks := fun blockData logicalShape qtype =>
          liftError (fun _ => AffineError.rawBlocks qtype logicalShape)
            (GGUFMLXQuantizedTensor.fromRawBlocks iq4Codebooks halfValue blockData logicalShape
              qtype)
        half := halfValue
        log := id
        toTargetDtype := id
        castPredicate := fun _ => true }
    let translationMap := ofEntries
      [(.blk 0 "ssm_alpha.weight", some ⟨"in_proj_a", "weight"⟩),
        (.blk 0 "ssm_out.weight", some ⟨"out_proj", "weight"⟩),
        (.blk 0 "ssm_a", some ⟨"linear_attn", "A_log"⟩)]
    let rowBlocks : List UInt8 :=
      [10, 11, 12, 13].flatMap fun q => [0x00, 0x3C] ++ List.replicate 32 q
    let columnBlock : List UInt8 := [0x00, 0x3C] ++ (List.range 32).map UInt8.ofNat
    ∃ adapter, GGUFModelAdapter.fromModel model .qwen35 1 translationMap = .ok adapter ∧
      ∃ parts, loader.partition model false adapter
          [⟨.blk 0 "ssm_alpha.weight", [32, 4], .quant (.affine .q8_0) rowBlocks⟩,
            ⟨.blk 0 "ssm_out.weight", [32, 1], .quant (.affine .q8_0) columnBlock⟩,
            ⟨.blk 0 "ssm_a", [4], .plain [0, -2, -1, -3]⟩] = .ok parts ∧
        (∀ qt, parts.quant.get? "in_proj_a" = some qt →
          qt.embedding halfValue [1] = [List.replicate 32 12]) ∧
        (∀ qt, parts.quant.get? "out_proj" = some qt →
          (qt.embedding halfValue [0]).map (·.getD 8 0) = [16]) ∧
        ∀ a, parts.plain.get? ⟨"linear_attn", "A_log"⟩ = some a → a.entry [2] = 2 := by
  intro model loader translationMap rowBlocks columnBlock
  -- head `2 k + g` of the model is head `2 g + k` of the file
  let value : LivePath → NdArray ℚ := fun path =>
    if path = ⟨"in_proj_a", "weight"⟩ then
      ⟨[4, 32], fun i => [10, 12, 11, 13].getD (i.getD 0 0) 0⟩
    else if path = ⟨"out_proj", "weight"⟩ then
      ⟨[1, 32], fun i => let c := i.getD 1 0; (((c / 8 % 2) * 2 + c / 16) * 8 + c % 8 : ℕ)⟩
    else ⟨[4], fun i => i.getD 0 0⟩
  have hmodel : model.HeadsValid .qwen35 := by
    refine ⟨fun h => (by cases h), fun _ gdn hgdn => ?_⟩
    obtain rfl : gdn = ⟨2, 4, 8, 1⟩ := by simpa [model] using hgdn
    decide
  have ha : translationMap.get? (.blk 0 "ssm_alpha.weight") =
      some (some ⟨"in_proj_a", "weight"⟩) := by decide
  have ho : translationMap.get? (.blk 0 "ssm_out.weight") =
      some (some ⟨"out_proj", "weight"⟩) := by decide
  have hl : translationMap.get? (.blk 0 "ssm_a") = some (some ⟨"linear_attn", "A_log"⟩) := by
    decide
  obtain ⟨adapter, hadapter, -, -, parts, hparts, hundone, -⟩ :=
    @stored_layout_is_undone ℚ _ loader id model .qwen35 1 value (fun _ => rfl) hmodel false
      translationMap [⟨.blk 0 "ssm_alpha.weight", [32, 4], .quant (.affine .q8_0) rowBlocks⟩,
        ⟨.blk 0 "ssm_out.weight", [32, 1], .quant (.affine .q8_0) columnBlock⟩,
        ⟨.blk 0 "ssm_a", [4], .plain [0, -2, -1, -3]⟩] (by
      intro tensor ht
      simp only [List.mem_cons, List.not_mem_nil, or_false] at ht
      rcases ht with rfl | rfl | rfl
      · refine ⟨by simp [ha], fun path hread => ?_⟩
        obtain rfl : _ = path := by simpa [ha] using hread.1
        refine ⟨rfl, by decide, fun l hl => ?_, fun l hl => (by cases hl), fun h => ?_, ?_⟩
        · cases hl
          decide
        · exact absurd h (by decide)
        · exact storedBlocks_of_toOption rfl (by decide +kernel)
      · refine ⟨by simp [ho], fun path hread => ?_⟩
        obtain rfl : _ = path := by simpa [ho] using hread.1
        refine ⟨rfl, by decide, fun l hl => (by cases hl), fun l hl => ?_, fun h => ?_, ?_⟩
        · cases hl
          decide
        · exact absurd h (by decide)
        · exact storedBlocks_of_toOption rfl (by decide +kernel)
      · refine ⟨by simp [hl], fun path hread => ?_⟩
        obtain rfl : _ = path := by simpa [hl] using hread.1
        refine ⟨rfl, by decide, fun l hl => ?_, fun l hl => (by cases hl), fun _ => by decide, ?_⟩
        · cases hl
          decide
        refine ⟨rfl, fun h => ?_, rfl, fun i hi => ?_⟩
        · exact absurd h (by decide)
        · obtain ⟨r, i', hr, hi', rfl⟩ := List.forall₂_cons_right_iff.mp hi
          obtain rfl := List.forall₂_nil_right_iff.mp hi'
          have hr' : r < 4 := hr
          interval_cases r <;> decide)
  refine ⟨adapter, hadapter, parts, hparts, fun qt hqt => ?_, fun qt hqt => ?_, fun a ha => ?_⟩
  · have hrow := (hundone.quant "in_proj_a" qt hqt).embedding [1] (by decide)
    exact hrow.trans (by decide +kernel)
  · have hrow := (hundone.quant "out_proj" qt hqt).embedding [0] (by decide)
    exact (congrArg _ hrow).trans (by decide +kernel)
  · have hsame := hundone.plain _ a ha
    have hshape : a.shape = [4] := hsame.shape_eq.trans (by decide)
    refine hsame.entry_eq [2] ?_
    rw [hshape]
    exact .cons (by decide) .nil

end Gguf
end VllmMetal
