import VllmMetal.Lib.OrderedDict
import VllmMetal.Lib.Raising
import VllmMetal.Lib.Dict
import Mathlib.Data.List.ProdSigma
import Mathlib.Algebra.BigOperators.Group.List.Basic

/-!
# The store of offloaded experts

`ExpertStore` (`moe_offload.py`) streams the weights of routed experts from the checkpoint through
a cache bounded in bytes, least recently used first.  A miss reads the slices of an expert, one for
each component the checkpoint has, and fills the cache entry slice by slice.

## Main definitions

* `TensorLocation`, `ExpertSlice`, `expertSlice` — where the components of an expert are.
* `ExpertArray`, `toArray`, `Entry` — what the cache holds.
* `Store`, `Store.get`, `Store.clear` — the cache and its calls.
* `Loaded` — an entry holds the components the checkpoint has, each from its place.
-/

namespace VllmMetal.Moe

/-! ### The checkpoint index -/

/-- The keys of `DTYPES`. -/
inductive TensorDtype where
  | u32
  | u8
  | f16
  | f32
  | bf16
  deriving DecidableEq

/-- The item size of the numpy type a tensor is read as; its MLX type has the same. -/
def TensorDtype.itemsize : TensorDtype → ℕ
  | .u32 => 4
  | .u8 => 1
  | .f16 => 2
  | .f32 => 4
  | .bf16 => 2

structure TensorLocation where
  path : String
  offset : ℕ
  shape : List ℕ
  dtype : TensorDtype
  deriving DecidableEq

/-- The byte range of one expert's tensor inside a safetensors file. -/
structure ExpertSlice where
  location : TensorLocation
  offset : ℕ
  nbytes : ℕ
  shape : List ℕ
  deriving DecidableEq

/-- `PROJECTIONS`. -/
inductive Projection where
  | gateProj
  | upProj
  | downProj
  deriving DecidableEq

/-- `COMPONENTS`. -/
inductive Component where
  | weight
  | scales
  | biases
  deriving DecidableEq

def projections : List Projection := [.gateProj, .upProj, .downProj]

def components : List Component := [.weight, .scales, .biases]

def Projection.name : Projection → String
  | .gateProj => "gate_proj"
  | .upProj => "up_proj"
  | .downProj => "down_proj"

def Component.name : Component → String
  | .weight => "weight"
  | .scales => "scales"
  | .biases => "biases"

/-- `module_path.rsplit(".", 1)[0]`. -/
def blockPath (modulePath : String) : String :=
  if '.' ∈ modulePath.toList then
    String.ofList ((modulePath.toList.reverse.dropWhile (· ≠ '.')).drop 1).reverse
  else modulePath

/-- `_nbytes`. -/
def nbytes (shape : List ℕ) (dtype : TensorDtype) : ℕ := shape.prod * dtype.itemsize

/-- `_expert_slice`: in the stacked tensor of the layer, or in the expert's own tensor. -/
def expertSlice (index : Dict String TensorLocation) (modulePath : String)
    (projection : Projection) (component : Component) (expert : ℕ) : Option ExpertSlice :=
  match index.get? (modulePath ++ "." ++ projection.name ++ "." ++ component.name) with
  | some stacked =>
    let size := nbytes stacked.shape.tail stacked.dtype
    some ⟨stacked, stacked.offset + expert * size, size, stacked.shape.tail⟩
  | none =>
    (index.get? (blockPath modulePath ++ ".experts." ++ toString expert ++ "." ++ projection.name
      ++ "." ++ component.name)).map fun single =>
        ⟨single, single.offset, nbytes single.shape single.dtype, single.shape⟩

theorem expertSlice_nbytes {index : Dict String TensorLocation} {modulePath : String}
    {projection : Projection} {component : Component} {expert : ℕ} {piece : ExpertSlice}
    (h : expertSlice index modulePath projection component expert = some piece) :
    piece.nbytes = nbytes piece.shape piece.location.dtype := by
  unfold expertSlice at h
  split at h
  · cases h
    rfl
  · obtain ⟨single, -, rfl⟩ := Option.map_eq_some_iff.mp h
    rfl

/-! ### Reading -/

/-- An array of the cache: its bytes, its shape and its type. -/
structure ExpertArray where
  data : List UInt8
  shape : List ℕ
  dtype : TensorDtype
  deriving DecidableEq

/-- The bytes of the checkpoint files. -/
abbrev Files := String → List UInt8

/-- The bytes of a slice that are in its file. -/
def Files.window (files : Files) (piece : ExpertSlice) : List UInt8 :=
  ((files piece.location.path).drop piece.offset).take piece.nbytes

/-- `_read`: a `pread` that returns at most `limit` of the bytes asked for. -/
def Files.pread (files : Files) (limit : ℕ) (piece : ExpertSlice) : List UInt8 :=
  (files.window piece).take limit

/-- `_to_array`: `none` is the error of `np.frombuffer` or of the `reshape`. -/
def toArray (piece : ExpertSlice) (raw : List UInt8) : Option ExpertArray :=
  if raw.length % piece.location.dtype.itemsize = 0 ∧
      raw.length / piece.location.dtype.itemsize = piece.shape.prod then
    some ⟨raw, piece.shape, piece.location.dtype⟩
  else none

/-- Exactly the reads that return all the bytes make an array. -/
theorem toArray_eq {piece : ExpertSlice}
    (hpiece : piece.nbytes = nbytes piece.shape piece.location.dtype) (raw : List UInt8) :
    toArray piece raw =
      if raw.length = piece.nbytes then some ⟨raw, piece.shape, piece.location.dtype⟩
        else none := by
  have hpos : 0 < piece.location.dtype.itemsize := by
    cases piece.location.dtype <;> decide
  have hiff : (raw.length % piece.location.dtype.itemsize = 0 ∧
      raw.length / piece.location.dtype.itemsize = piece.shape.prod) ↔
        raw.length = piece.nbytes := by
    rw [hpiece, nbytes]
    constructor
    · rintro ⟨hmod, hdiv⟩
      rw [← hdiv, Nat.div_mul_cancel (Nat.dvd_of_mod_eq_zero hmod)]
    · intro hlen
      rw [hlen, Nat.mul_mod_left, Nat.mul_div_cancel _ hpos]
      exact ⟨rfl, rfl⟩
  unfold toArray
  simp only [hiff]

/-! ### The cache -/

/-- `{projection: {component: array}}` of one expert. -/
abbrev Entry := Projection → Component → Option ExpertArray

/-- `{p: {} for p in PROJECTIONS}`. -/
def Entry.empty : Entry := fun _ _ => none

/-- `entry[projection][component] = array`. -/
def Entry.put (entry : Entry) (projection : Projection) (component : Component)
    (array : ExpertArray) : Entry :=
  fun p c => if p = projection ∧ c = component then some array else entry p c

/-- The bytes of one component. -/
def Entry.sizeAt (entry : Entry) (projection : Projection) (component : Component) : ℕ :=
  ((entry projection component).map fun array => array.data.length).getD 0

/-- The bytes of an entry, component by component. -/
def Entry.size (entry : Entry) : ℕ :=
  ((projections ×ˢ components).map fun pc => entry.sizeAt pc.1 pc.2).sum

/-- The cache and its counters. -/
structure Store where
  entries : OrderedDict (String × ℕ) Entry
  bytes : ℤ
  hits : ℕ
  misses : ℕ

/-- The cache after `__init__`. -/
def Store.init : Store := ⟨.empty, 0, 0, 0⟩

/-- A slice to read: of which expert, and for which component. -/
structure Job where
  expert : ℕ
  projection : Projection
  component : Component
  piece : ExpertSlice

/-- `missing`. -/
def Store.missing (s : Store) (modulePath : String) (experts : List ℕ) : List ℕ :=
  experts.filter fun expert => (modulePath, expert) ∉ s.entries.keys

/-- `jobs`: the slices of the missing experts. -/
def jobsOf (index : Dict String TensorLocation) (modulePath : String) (missing : List ℕ) :
    List Job :=
  (missing ×ˢ (projections ×ˢ components)).filterMap fun epc =>
    (expertSlice index modulePath epc.2.1 epc.2.2 epc.1).map fun piece =>
      ⟨epc.1, epc.2.1, epc.2.2, piece⟩

/-- The loop body over the jobs: the entry is made before the array. -/
def addPiece (modulePath : String) (jobRaw : Job × List UInt8) : Prog Store PUnit := do
  let key := (modulePath, jobRaw.1.expert)
  Prog.update fun s =>
    if key ∈ s.entries.keys then s else { s with entries := s.entries.set key Entry.empty }
  match toArray jobRaw.1.piece jobRaw.2 with
  | none => Prog.raise
  | some array =>
    Prog.update fun s => { s with
      entries := s.entries.set key
        (((s.entries.get? key).getD Entry.empty).put jobRaw.1.projection jobRaw.1.component array)
      bytes := s.bytes + jobRaw.2.length }

/-- `move_to_end`, which raises for a key that is not cached. -/
def moveToEnd (modulePath : String) (expert : ℕ) : Prog Store PUnit := do
  let s ← Prog.read
  if (modulePath, expert) ∈ s.entries.keys then
    Prog.update fun s => { s with entries := s.entries.moveToEnd (modulePath, expert) }
  else Prog.raise

/-- The `while` loop of `_evict`, over the entries from the oldest on. -/
def evictLoop (cacheBytes : ℤ) (keep : ℕ) : List ((String × ℕ) × Entry) → ℤ →
    List ((String × ℕ) × Entry) × ℤ
  | [], bytes => ([], bytes)
  | e :: rest, bytes =>
    if cacheBytes < bytes ∧ keep < (e :: rest).length then
      evictLoop cacheBytes keep rest (bytes - e.2.size)
    else (e :: rest, bytes)

theorem evictLoop_suffix (cacheBytes : ℤ) (keep : ℕ) (entries : List ((String × ℕ) × Entry))
    (bytes : ℤ) : (evictLoop cacheBytes keep entries bytes).1 <:+ entries := by
  induction entries generalizing bytes with
  | nil => exact List.suffix_refl _
  | cons e rest ih =>
    rw [evictLoop]
    split_ifs
    · exact (ih _).trans (List.suffix_cons e rest)
    · exact List.suffix_refl _

/-- `_evict`. -/
def Store.evict (cacheBytes : ℤ) (keep : ℕ) (s : Store) : Store :=
  { s with
    entries := s.entries.restrict (evictLoop cacheBytes keep s.entries.entries s.bytes).1
      (evictLoop_suffix cacheBytes keep s.entries.entries s.bytes).sublist
    bytes := (evictLoop cacheBytes keep s.entries.entries s.bytes).2 }

/-- The bytes the reads of the jobs return; `none` when one of them raises.  What read `i` does is
`reads i`: it raises, or it returns at most so many bytes. -/
def rawsOf (files : Files) (reads : ℕ → Option ℕ) (jobs : List Job) :
    Option (List (List UInt8)) :=
  if (List.range jobs.length).any fun i => (reads i).isNone then none
  else some (jobs.zipIdx.map fun job => files.pread ((reads job.2).getD 0) job.1.piece)

/-- `get`. -/
def Store.get (index : Dict String TensorLocation) (files : Files) (cacheBytes : ℤ)
    (modulePath : String) (experts : List ℕ) (reads : ℕ → Option ℕ) : Prog Store (List Entry) := do
  let s ← Prog.read
  let missing := s.missing modulePath experts
  let jobs := jobsOf index modulePath missing
  match rawsOf files reads jobs with
  | none => Prog.raise
  | some raws =>
    (jobs.zip raws).forM (addPiece modulePath)
    Prog.update fun s => { s with
      misses := s.misses + missing.length
      hits := s.hits + (experts.length - missing.length) }
    experts.forM (moveToEnd modulePath)
    Prog.update (Store.evict cacheBytes experts.length)
    let s ← Prog.read
    if experts.all fun expert => (modulePath, expert) ∈ s.entries.keys then
      pure (experts.map fun expert => (s.entries.get? (modulePath, expert)).getD Entry.empty)
    else Prog.raise

/-- `clear`. -/
def Store.clear (s : Store) : Store := { s with entries := .empty, bytes := 0 }

/-! ### Complete entries -/

/-- One component of an entry is what the checkpoint has for it: nothing, or all the bytes at the
indexed place. -/
def LoadedAt (files : Files) : Option ExpertSlice → Option ExpertArray → Prop
  | none, array => array = none
  | some piece, array => (files.window piece).length = piece.nbytes ∧
      array = some ⟨files.window piece, piece.shape, piece.location.dtype⟩

/-- An entry holds exactly the components the checkpoint has for an expert. -/
def Loaded (index : Dict String TensorLocation) (files : Files) (modulePath : String) (expert : ℕ)
    (entry : Entry) : Prop :=
  ∀ projection component, LoadedAt files
    (expertSlice index modulePath projection component expert) (entry projection component)

end VllmMetal.Moe
