/-
# Sharding tensors over a mesh of devices

`mesh_shard_impl.h` cuts a tensor into shards for the devices of a mesh, and puts the shards
together again.  Sharding goes through one mapper of the library; gathering copies one device,
goes through a composer, or concatenates the shards of one mesh row or column itself.

* `FullToShardShape`, `ShardToFullShape`, `meshShard` : the functions of the runtime;
* `Library`, `Library.Documented` : the mapper, the composer and the concatenation of `ttnn`;
* `Emitted` : the attributes of the operations that reach the runtime;
* `matches_of_sdy` : what the conversion of Shardy shardings emits;
* `roundTrips` : gathering what was sharded gives the tensor back.
-/
import TTMLIR.Blocks
import TTMLIR.ShardingRoundTrip

namespace MeshShard

open TTIR MixedRadix ShardingUtils ShardyToTTIR
open Tensor (Joins)

variable {α : Type}

/-! ## The library -/

/-- A mesh of devices; its extents are 32-bit numbers. -/
structure Mesh : Type where
  rows : ℕ
  cols : ℕ
  rows_pos : 0 < rows
  cols_pos : 0 < cols
  rows_lt : rows < 2 ^ 32
  cols_lt : cols < 2 ^ 32

/-- `ttnn::Tensor`: one tensor, or one for each device of a mesh in row-major order. -/
inductive TTNNTensor (α : Type) : Type where
  | single (tensor : Tensor α)
  | multiDevice (shards : List (Tensor α))

/-- `ttnn::distributed::Shard2dConfig`. -/
structure Shard2dConfig : Type where
  rowDim : Option ℤ := none
  colDim : Option ℤ := none
  deriving DecidableEq, Repr

/-- `ttnn::distributed::Concat2dConfig`. -/
structure Concat2dConfig : Type where
  rowDim : ℤ
  colDim : ℤ
  deriving DecidableEq, Repr

/-- The mappers of `distribute_tensor`. -/
inductive TensorToMesh : Type where
  | replicate
  | shard2d (config : Shard2dConfig)
  deriving DecidableEq, Repr

/-- The functions of `ttnn` that the runtime calls, for one mesh. -/
structure Library (α : Type) : Type where
  distributeTensor : TTNNTensor α → TensorToMesh → TTNNTensor α
  getDeviceTensors : TTNNTensor α → List (Tensor α)
  aggregateTensor : TTNNTensor α → Concat2dConfig → TTNNTensor α
  concat : List (Tensor α) → ℤ → Tensor α

/-! ## The translated functions -/

/-- `MeshShardDirection`. -/
inductive MeshShardDirection : Type where
  | fullToShardShape
  | shardToFullShape
  deriving DecidableEq, Repr

/-- The vectors that are indexed. -/
inductive Vector : Type where
  | shardShape
  | shardDims
  | inputTensors
  deriving DecidableEq, Repr

/-- An access to a vector, or the vector read out of range. -/
def access {β : Type} (name : Vector) (l : List β) (i : ℤ) : Except Vector β :=
  match l[i.toNat]? with
  | some b => if 0 ≤ i then .ok b else .error name
  | none => .error name

/-- `static_cast<int>` of a 64-bit number. -/
def toInt (n : ℤ) : ℤ := n.bmod (2 ^ 32)

/-- A 64-bit number as a `size_t`. -/
def toSize (n : ℤ) : ℕ := (n % 2 ^ 64).toNat

section Runtime

variable (lib : Library α) (mesh : Mesh) (shardType : MeshShardType)
  (shardShape shardDims : List ℤ)

/-- The dimension of a `Shard2dConfig`, if there is one. -/
def presentDim (dim : ℤ) : Option ℤ := if 0 ≤ dim then some (toInt dim) else none

/-- `FullToShardShape`. -/
def FullToShardShape (input : TTNNTensor α) : Except Vector (TTNNTensor α) :=
  if shardType = .replicate then .ok (lib.distributeTensor input .replicate)
  else do
    let rowDim ← access .shardDims shardDims 0
    let colDim ← access .shardDims shardDims 1
    .ok (lib.distributeTensor input (.shard2d ⟨presentDim rowDim, presentDim colDim⟩))

/-- The dimension, the number of tensors and their distance in the list of the devices, where
one dimension is absent. -/
def partialConcat : Except Vector (ℤ × ℕ × ℕ) := do
  let rowDim ← access .shardDims shardDims 0
  if 0 ≤ rowDim then
    let iteration ← access .shardShape shardShape (toInt rowDim)
    .ok (toInt rowDim, toSize iteration, mesh.cols)
  else
    let colDim ← access .shardDims shardDims 1
    let iteration ← access .shardShape shardShape (toInt colDim)
    .ok (toInt colDim, toSize iteration, 1)

/-- `ShardToFullShape`. -/
def ShardToFullShape (input : TTNNTensor α) : Except Vector (TTNNTensor α) := do
  let inputTensors := lib.getDeviceTensors input
  if shardType = .replicate then
    let first ← access .inputTensors inputTensors 0
    .ok (.single first)
  else if shardDims.all fun n => 0 ≤ toInt n then
    let rowDim ← access .shardDims shardDims 0
    let colDim ← access .shardDims shardDims 1
    .ok (lib.aggregateTensor input ⟨toInt rowDim, toInt colDim⟩)
  else
    let (targetDim, iteration, stride) ← partialConcat mesh shardShape shardDims
    let targetTensors ← (List.range iteration).mapM fun i : ℕ =>
      access .inputTensors inputTensors ((i * stride : ℕ) : ℤ)
    .ok (.single (lib.concat targetTensors targetDim))

/-- `mesh_shard`. -/
def meshShard (input : TTNNTensor α) (shardDirection : MeshShardDirection) :
    Except Vector (TTNNTensor α) :=
  if shardType = .identity then .ok input
  else match shardDirection with
    | .fullToShardShape => FullToShardShape lib shardType shardDims input
    | .shardToFullShape => ShardToFullShape lib mesh shardType shardShape shardDims input

end Runtime

/-! ## What the library does -/

/-- A tensor cut along a dimension, if it is cut. -/
def cut (dim : Option ℤ) (n i : ℕ) (x : Tensor α) : Tensor α :=
  match dim with
  | none => x
  | some d => x.block d.toNat n i

/-- The shard of the device in row `i` and column `j`: the `i`-th block along the first
dimension, and of it the `j`-th one along the second. -/
def shardAt (mesh : Mesh) (config : Shard2dConfig) (x : Tensor α) (i j : ℕ) : Tensor α :=
  cut config.colDim mesh.cols j (cut config.rowDim mesh.rows i x)

/-- How many shards a dimension is cut into. -/
def shardsAlong (mesh : Mesh) (config : Shard2dConfig) (k : ℕ) : ℕ :=
  (if config.rowDim = some (k : ℤ) then mesh.rows else 1) *
    (if config.colDim = some (k : ℤ) then mesh.cols else 1)

/-- The dimensions are those of a tensor, one is present, and all extents are multiples of the
number of shards. -/
structure Shard2dConfig.Fits (mesh : Mesh) (config : Shard2dConfig) (shape : List ℕ) : Prop where
  present : config.rowDim ≠ none ∨ config.colDim ≠ none
  rowDim : ∀ d ∈ config.rowDim, 0 ≤ d ∧ d < shape.length
  colDim : ∀ d ∈ config.colDim, 0 ≤ d ∧ d < shape.length
  divides : ∀ k < shape.length, shardsAlong mesh config k ∣ shape.getD k 0

/-- **What is assumed of the library.**  The replicating mapper copies; the 2d mapper splits by
mesh row and then by mesh column; the tensors of the devices are listed in row-major order; the
composer concatenates each mesh row and then the rows; tensors of one shape are concatenated
one behind the other. -/
structure Library.Documented (lib : Library α) (mesh : Mesh) : Prop where
  replicate : ∀ x : Tensor α, lib.distributeTensor (.single x) .replicate =
    .multiDevice (List.replicate (mesh.rows * mesh.cols) x)
  shard2d : ∀ (x : Tensor α) (config : Shard2dConfig), config.Fits mesh x.shape →
    ∃ shards, lib.distributeTensor (.single x) (.shard2d config) = .multiDevice shards ∧
      shards.length = mesh.rows * mesh.cols ∧
      ∀ i < mesh.rows, ∀ j < mesh.cols, ∃ shard, shards[i * mesh.cols + j]? = some shard ∧
        shard.Agree (shardAt mesh config x i j)
  deviceTensors : ∀ shards, lib.getDeviceTensors (.multiDevice shards) = shards
  concat : ∀ (shape : List ℕ) (d : ℕ) (parts : List (Tensor α)), d < shape.length →
    parts ≠ [] → (∀ part ∈ parts, part.shape = shape) →
      Joins d shape parts (lib.concat parts d)
  aggregate : ∀ (shards : List (Tensor α)) (config : Concat2dConfig),
    shards.length = mesh.rows * mesh.cols →
      lib.aggregateTensor (.multiDevice shards) config =
        .single (lib.concat ((List.range mesh.rows).map fun i =>
          lib.concat ((shards.drop (i * mesh.cols)).take mesh.cols) config.colDim) config.rowDim)

/-- A library that does what is assumed. -/
def reference [Inhabited α] (mesh : Mesh) : Library α :=
  let concat := fun (parts : List (Tensor α)) (d : ℤ) =>
    let first := parts.headD ⟨[], fun _ => default⟩
    Tensor.join d.toNat first.shape parts first
  { distributeTensor := fun input mapper =>
      match input, mapper with
      | .multiDevice shards, _ => .multiDevice shards
      | .single x, .replicate => .multiDevice (List.replicate (mesh.rows * mesh.cols) x)
      | .single x, .shard2d config => .multiDevice ((List.range (mesh.rows * mesh.cols)).map
          fun n => shardAt mesh config x (n / mesh.cols) (n % mesh.cols))
    getDeviceTensors := fun input =>
      match input with
      | .single x => [x]
      | .multiDevice shards => shards
    aggregateTensor := fun input config =>
      match input with
      | .single x => .single x
      | .multiDevice shards => .single (concat ((List.range mesh.rows).map fun i =>
        concat ((shards.drop (i * mesh.cols)).take mesh.cols) config.colDim) config.rowDim)
    concat := concat }

/-- It does. -/
theorem documented_reference [Inhabited α] (mesh : Mesh) :
    (reference mesh : Library α).Documented mesh where
  replicate _ := rfl
  shard2d x config _ := by
    refine ⟨_, rfl, by simp, fun i hi j hj => ⟨shardAt mesh config x i j, ?_, Tensor.Agree.refl _⟩⟩
    have hroom : (i + 1) * mesh.cols ≤ mesh.rows * mesh.cols := Nat.mul_le_mul_right _ hi
    rw [Nat.add_mul, Nat.one_mul] at hroom
    have hdiv : (i * mesh.cols + j) / mesh.cols = i := by
      rw [Nat.mul_comm, Nat.mul_add_div mesh.cols_pos, Nat.div_eq_of_lt hj, Nat.add_zero]
    have hmod : (i * mesh.cols + j) % mesh.cols = j := by
      rw [Nat.mul_comm, Nat.mul_add_mod, Nat.mod_eq_of_lt hj]
    rw [List.getElem?_map, List.getElem?_range (by omega), Option.map_some, hdiv, hmod]
  deviceTensors _ := rfl
  concat shape d parts _ hparts hshape := by
    obtain ⟨part, rest, rfl⟩ := List.exists_cons_of_ne_nil hparts
    rw [← hshape part List.mem_cons_self]
    exact Tensor.joins_join d part.shape (part :: rest) part
  aggregate _ _ _ := rfl

/-! ## The attributes -/

/-- `MeshShardOp::verify` of `ttnn.mesh_shard`, on the shape of its operand. -/
def verifyMeshShardOp (inputShape : List ℕ) (shardType : MeshShardType) (shardShape : List ℤ) :
    Except String Unit :=
  if shardType = .maximal then .error "Invalid shard_type (maximal) for mesh_shard op."
  else if shardType = .devices then
    if shardShape.length ≠ inputShape.length then
      .error "Invalid rank(shard_shape) != rank(input) for mesh_shard op with devices partition."
    else if shardShape.foldl (· * ·) 1 < 2 then
      .error "Invalid overall partition (<2) for mesh_shard op with devices partition."
    else .ok ()
  else .ok ()

/-- The configuration that the shard dims stand for. -/
def configOf (shardDims : List ℤ) : Shard2dConfig :=
  ⟨presentDim (shardDims.getD 0 (-1)), presentDim (shardDims.getD 1 (-1))⟩

/-- Shard dims that are absent or tensor dimensions, and the matching shard shape. -/
structure Matches (mesh : Mesh) (rank : ℕ) (shardShape shardDims : List ℤ) : Prop where
  length : shardDims.length = 2
  dims : ∀ dim ∈ shardDims, dim = -1 ∨ 0 ≤ dim ∧ dim < rank
  shardShape : shardShape =
    (List.range rank).map fun k : ℕ => (shardsAlong mesh (configOf shardDims) k : ℤ)

/-- The attributes of an operation that passes the verifier, for a tensor that the shard shape
divides.  A vector of attributes in a flatbuffer has less than `2 ^ 31` entries. -/
structure Emitted (mesh : Mesh) (shape : List ℕ) (attrs : MeshSharding) : Prop where
  verified : verifyMeshShardOp shape attrs.shardType attrs.shardShape = .ok ()
  rank_lt : shape.length < 2 ^ 31
  devices : attrs.shardType = .devices →
    Matches mesh shape.length attrs.shardShape attrs.shardDims ∧
      ∀ k < shape.length, shardsAlong mesh (configOf attrs.shardDims) k ∣ shape.getD k 0

/-- What a device is given: the whole tensor, or the block selected by its row and its column. -/
def shardOf (mesh : Mesh) (attrs : MeshSharding) (x : Tensor α) (i j : ℕ) : Tensor α :=
  if attrs.shardType = .devices then shardAt mesh (configOf attrs.shardDims) x i j else x

/-- **Sharding and gathering are inverse.**  No access is out of range; an identity forwards
whatever it gets; otherwise each device gets its block, and gathering gives the tensor back. -/
structure RoundTrips (lib : Library α) (mesh : Mesh) (attrs : MeshSharding) (x : Tensor α) :
    Prop where
  identity : attrs.shardType = .identity → ∀ (t : TTNNTensor α) (direction : MeshShardDirection),
    meshShard lib mesh attrs.shardType attrs.shardShape attrs.shardDims t direction = .ok t
  sharded : attrs.shardType ≠ .identity → ∃ shards : List (Tensor α),
    meshShard lib mesh attrs.shardType attrs.shardShape attrs.shardDims (.single x)
      .fullToShardShape = .ok (.multiDevice shards) ∧
    shards.length = mesh.rows * mesh.cols ∧
    (∀ i < mesh.rows, ∀ j < mesh.cols, ∃ shard, shards[i * mesh.cols + j]? = some shard ∧
      shard.Agree (shardOf mesh attrs x i j)) ∧
    ∃ full, meshShard lib mesh attrs.shardType attrs.shardShape attrs.shardDims
      (.multiDevice shards) .shardToFullShape = .ok (.single full) ∧ full.Agree x

/-! ## Accesses -/

/-- An access inside the vector. -/
theorem access_of_getElem? {β : Type} {name : Vector} {l : List β} {i : ℕ} {b : β}
    (h : l[i]? = some b) : access name l (i : ℤ) = .ok b := by
  rw [access, Int.toNat_natCast, h]
  exact if_pos (Int.natCast_nonneg i)

theorem toInt_of_lt {n : ℤ} (h : 0 ≤ n) (h' : n < 2 ^ 31) : toInt n = n := by
  unfold toInt
  apply Int.bmod_eq_of_le <;> omega

theorem toInt_neg_one : toInt (-1) = -1 := by decide

theorem toSize_natCast {n : ℕ} (h : n < 2 ^ 64) : toSize (n : ℤ) = n := by
  rw [toSize, Int.emod_eq_of_lt (Int.natCast_nonneg n) (by exact_mod_cast h), Int.toNat_natCast]

/-! ## Concatenations that put blocks together -/

section Concatenation

variable {lib : Library α} {mesh : Mesh}

section

variable (hlib : lib.Documented mesh) {x : Tensor α} {d n : ℕ} (hd : d < x.shape.length)
  (hn : 0 < n) (hdvd : n ∣ x.shape.getD d 0)

include hlib hd hn hdvd

theorem agree_concat {parts : List (Tensor α)} (hparts : parts.length = n)
    (hblocks : ∀ i (hi : i < parts.length), (parts[i]).Agree (x.block d n i)) :
    (lib.concat parts d).Agree x := by
  refine Tensor.agree_of_joins_blocks hd hn hdvd hparts hblocks ?_
  refine hlib.concat _ d parts (by simpa using hd) ?_ fun part hpart => ?_
  · rintro rfl
    exact absurd hparts hn.ne
  · obtain ⟨i, hi, rfl⟩ := List.mem_iff_getElem.mp hpart
    exact (hblocks i hi).1

/-- Tensors picked from a list that agree with the blocks of a tensor are concatenated to that
tensor. -/
theorem exists_picked {shards : List (Tensor α)} {place : ℕ → ℕ}
    (hshards : ∀ i < n, ∃ shard, shards[place i]? = some shard ∧ shard.Agree (x.block d n i)) :
    ∃ parts, ((List.range n).mapM fun i : ℕ => access .inputTensors shards (place i : ℤ)) = .ok parts ∧
      (lib.concat parts d).Agree x := by
  have : Nonempty (Tensor α) := ⟨x⟩
  choose! f hf hagree using hshards
  refine ⟨(List.range n).map f, ?_, ?_⟩
  · exact Fallible.mapM_eq_ok_map fun i hi => access_of_getElem? (hf i (List.mem_range.mp hi))
  · refine agree_concat hlib hd hn hdvd (by simp) fun i hi => ?_
    rw [List.getElem_map, List.getElem_range]
    exact hagree i (by simpa using hi)

end

/-- **The composer** puts the blocks of both dimensions together. -/
theorem exists_composed (hlib : lib.Documented mesh) {x : Tensor α} {d₀ d₁ : ℕ}
    (hd₀ : d₀ < x.shape.length) (hd₁ : d₁ < x.shape.length)
    (hdvd₀ : mesh.rows ∣ x.shape.getD d₀ 0)
    (hdvd₁ : mesh.cols ∣ (x.shape.set d₀ (x.shape.getD d₀ 0 / mesh.rows)).getD d₁ 0)
    {shards : List (Tensor α)} (hlength : shards.length = mesh.rows * mesh.cols)
    (hshards : ∀ i < mesh.rows, ∀ j < mesh.cols, ∃ shard, shards[i * mesh.cols + j]? = some shard ∧
        shard.Agree ((x.block d₀ mesh.rows i).block d₁ mesh.cols j)) :
    ∃ full, lib.aggregateTensor (.multiDevice shards) ⟨d₀, d₁⟩ = .single full ∧ full.Agree x := by
  rw [hlib.aggregate shards _ hlength]
  refine ⟨_, rfl, agree_concat hlib hd₀ mesh.rows_pos hdvd₀ (by simp) fun i hi => ?_⟩
  have hirows : i < mesh.rows := by simpa using hi
  rw [List.getElem_map, List.getElem_range]
  have hroom : (i + 1) * mesh.cols ≤ shards.length := hlength ▸ Nat.mul_le_mul_right _ hirows
  rw [Nat.add_mul, Nat.one_mul] at hroom
  refine agree_concat hlib (by simpa [Tensor.block] using hd₁) mesh.cols_pos hdvd₁ ?_ fun j hj => ?_
  · rw [List.length_take, List.length_drop]
    omega
  · have hjcols : j < mesh.cols := by
      rw [List.length_take] at hj
      omega
    obtain ⟨shard, hshard, hagree⟩ := hshards i hirows j hjcols
    obtain ⟨hbound, hget⟩ := List.getElem?_eq_some_iff.mp hshard
    rw [List.getElem_take, List.getElem_drop, hget]
    exact hagree

end Concatenation

/-! ## The attributes of a shard for the devices -/

section Devices

variable {mesh : Mesh}

theorem presentDim_cases {dim : ℤ} {rank : ℕ} (hrank : rank < 2 ^ 31)
    (h : dim = -1 ∨ 0 ≤ dim ∧ dim < rank) :
    dim = -1 ∨ ∃ d : ℕ, d < rank ∧ dim = d ∧ toInt dim = d ∧ presentDim dim = some (d : ℤ) := by
  refine h.imp_right fun ⟨hpos, hlt⟩ => ?_
  have htoInt : toInt dim = dim := toInt_of_lt hpos (by omega)
  obtain ⟨d, rfl⟩ := Int.eq_ofNat_of_zero_le hpos
  exact ⟨d, by exact_mod_cast hlt, rfl, htoInt, by rw [presentDim, if_pos hpos, htoInt]⟩

theorem presentDim_eq_some_iff {dim : ℤ} {rank : ℕ} (hrank : rank < 2 ^ 31)
    (h : dim = -1 ∨ 0 ≤ dim ∧ dim < rank) (k : ℕ) : presentDim dim = some (k : ℤ) ↔ dim = k := by
  rcases presentDim_cases hrank h with rfl | ⟨d, -, rfl, -, hpresent⟩
  · rw [show presentDim (-1) = none from rfl]
    exact ⟨fun h => absurd h (by simp), fun h => absurd h (by omega)⟩
  · rw [hpresent, Option.some_inj]

theorem presentDim_neg_one : presentDim (-1) = none := rfl

variable {shape : List ℕ}

/-- Both dimensions of a shape whose extents the numbers of shards divide. -/
theorem dvd_of_shardsAlong {d₀ d₁ : ℕ} (hd₀ : d₀ < shape.length) (hd₁ : d₁ < shape.length)
    (h : ∀ k < shape.length, shardsAlong mesh ⟨some d₀, some d₁⟩ k ∣ shape.getD k 0) :
    mesh.rows ∣ shape.getD d₀ 0 ∧
      mesh.cols ∣ (shape.set d₀ (shape.getD d₀ 0 / mesh.rows)).getD d₁ 0 := by
  have hrow := h d₀ hd₀
  have hcol := h d₁ hd₁
  rw [shardsAlong, if_pos rfl] at hrow
  rw [shardsAlong, if_pos (c := some (d₁ : ℤ) = _) rfl] at hcol
  refine ⟨(Nat.dvd_mul_right _ _).trans hrow, ?_⟩
  by_cases hsame : d₀ = d₁
  · subst hsame
    rw [if_pos rfl] at hcol
    rw [Tensor.getD_set_of_lt hd₀]
    exact Nat.dvd_div_of_mul_dvd hcol
  · rw [List.getD_eq_getElem?_getD, List.getElem?_set_ne hsame, ← List.getD_eq_getElem?_getD]
    exact (Nat.dvd_mul_left _ _).trans hcol

variable {shardShape shardDims : List ℤ}

/-- A verified operation for the devices has a dimension that is cut. -/
theorem present_of_verified (hmatches : Matches mesh shape.length shardShape shardDims)
    (hverified : verifyMeshShardOp shape .devices shardShape = .ok ()) :
    (configOf shardDims).rowDim ≠ none ∨ (configOf shardDims).colDim ≠ none := by
  by_contra hnone
  rw [not_or, not_not, not_not] at hnone
  have hones : ∀ n ∈ shardShape, n = 1 := by
    intro n hn
    rw [hmatches.shardShape] at hn
    obtain ⟨k, -, rfl⟩ := List.mem_map.mp hn
    rw [shardsAlong, hnone.1, hnone.2]
    rfl
  rw [verifyMeshShardOp, if_neg (by decide), if_pos rfl] at hverified
  split_ifs at hverified with hlength hpartition
  rw [← List.prod_eq_foldl, List.prod_eq_one hones] at hpartition
  exact hpartition (by decide)

/-- The dimensions, and the shard dims they stand for, fit the tensor. -/
theorem fits_of_matches
    (hrank : shape.length < 2 ^ 31) (hmatches : Matches mesh shape.length shardShape shardDims)
    (hdvd : ∀ k < shape.length, shardsAlong mesh (configOf shardDims) k ∣ shape.getD k 0)
    (hverified : verifyMeshShardOp shape .devices shardShape = .ok ()) :
    (configOf shardDims).Fits mesh shape := by
  have hbounds : ∀ i < 2, ∀ d ∈ presentDim (shardDims.getD i (-1)), 0 ≤ d ∧ d < shape.length := by
    intro i hi d hd
    have hmem : shardDims.getD i (-1) ∈ shardDims := by
      rw [List.getD_eq_getElem _ _ (hmatches.length ▸ hi)]
      exact List.getElem_mem _
    rcases presentDim_cases hrank (hmatches.dims _ hmem) with hneg | ⟨k, hk, -, -, hpresent⟩
    · rw [hneg, presentDim_neg_one] at hd
      cases hd
    · rw [hpresent] at hd
      obtain rfl := Option.mem_some.mp hd
      omega
  exact ⟨present_of_verified hmatches hverified, hbounds 0 (by decide), hbounds 1 (by decide), hdvd⟩

theorem access_shardShape {rank : ℕ}
    (hmatches : Matches mesh rank shardShape shardDims) {d : ℕ} (hd : d < rank) :
    access .shardShape shardShape (d : ℤ) = .ok (shardsAlong mesh (configOf shardDims) d : ℤ) := by
  apply access_of_getElem?
  rw [hmatches.shardShape, List.getElem?_map, List.getElem?_range hd]
  rfl

theorem partialConcat_row (mesh : Mesh) {shardShape : List ℤ} {d n : ℕ} (col : ℤ) (hint : toInt d = d)
    (h : access .shardShape shardShape (d : ℤ) = .ok (n : ℤ)) (hn : n < 2 ^ 32) :
    partialConcat mesh shardShape [(d : ℤ), col] = .ok (d, n, mesh.cols) := by
  have hrow : access .shardDims [(d : ℤ), col] 0 = .ok (d : ℤ) := rfl
  simp only [partialConcat, hrow, hint, h, bind, Except.bind, Int.natCast_nonneg, if_true]
  rw [toSize_natCast (by omega)]

theorem partialConcat_col (mesh : Mesh) {shardShape : List ℤ} {d n : ℕ} (hint : toInt d = d)
    (h : access .shardShape shardShape (d : ℤ) = .ok (n : ℤ)) (hn : n < 2 ^ 32) :
    partialConcat mesh shardShape [-1, (d : ℤ)] = .ok (d, n, 1) := by
  have hrow : access .shardDims [-1, (d : ℤ)] 0 = .ok (-1) := rfl
  have hcol : access .shardDims [-1, (d : ℤ)] 1 = .ok (d : ℤ) := rfl
  have hneg : ¬(0 ≤ (-1 : ℤ)) := by decide
  simp only [partialConcat, hrow, hcol, hint, h, bind, Except.bind, hneg, if_false]
  rw [toSize_natCast (by omega)]

end Devices

/-! ## The round trip -/

section RoundTrip

variable {lib : Library α} {mesh : Mesh}

variable {shards : List (Tensor α)}

/-- The first shards of the rows, concatenated, are the tensor that is cut into rows. -/
theorem gathers_rows (hlib : lib.Documented mesh) {x : Tensor α} {d : ℕ} (hd : d < x.shape.length)
    (hdvd : mesh.rows ∣ x.shape.getD d 0)
    (hshards : ∀ i < mesh.rows, ∀ j < mesh.cols, ∃ shard, shards[i * mesh.cols + j]? = some shard ∧
      shard.Agree (x.block d mesh.rows i)) :
    ∃ parts, ((List.range mesh.rows).mapM fun i : ℕ =>
      access .inputTensors shards ((i * mesh.cols : ℕ) : ℤ)) = .ok parts ∧
        (lib.concat parts d).Agree x :=
  exists_picked hlib hd mesh.rows_pos hdvd fun i hi => hshards i hi 0 mesh.cols_pos

theorem gathers_cols (hlib : lib.Documented mesh) {x : Tensor α} {d : ℕ} (hd : d < x.shape.length)
    (hdvd : mesh.cols ∣ x.shape.getD d 0)
    (hshards : ∀ i < mesh.rows, ∀ j < mesh.cols, ∃ shard, shards[i * mesh.cols + j]? = some shard ∧
      shard.Agree (x.block d mesh.cols j)) :
    ∃ parts, ((List.range mesh.cols).mapM fun j : ℕ =>
      access .inputTensors shards ((j * 1 : ℕ) : ℤ)) = .ok parts ∧ (lib.concat parts d).Agree x := by
  refine exists_picked hlib hd mesh.cols_pos hdvd fun j hj => ?_
  obtain ⟨shard, hshard, hagree⟩ := hshards 0 mesh.rows_pos j hj
  rw [Nat.zero_mul, Nat.zero_add] at hshard
  exact ⟨shard, by rwa [Nat.mul_one], hagree⟩

/-- **Gathering the shards of the devices** gives the tensor back. -/
theorem gathers_devices (hlib : lib.Documented mesh) {x : Tensor α} {shardShape shardDims : List ℤ}
    (hrank : x.shape.length < 2 ^ 31)
    (hmatches : Matches mesh x.shape.length shardShape shardDims)
    (hfits : (configOf shardDims).Fits mesh x.shape)
    (hlength : shards.length = mesh.rows * mesh.cols)
    (hshards : ∀ i < mesh.rows, ∀ j < mesh.cols, ∃ shard, shards[i * mesh.cols + j]? = some shard ∧
      shard.Agree (shardAt mesh (configOf shardDims) x i j)) :
    ∃ full, ShardToFullShape lib mesh .devices shardShape shardDims (.multiDevice shards) =
      .ok (.single full) ∧ full.Agree x := by
  obtain ⟨row, col, rfl⟩ := List.length_eq_two.mp hmatches.length
  have hrowDims := presentDim_cases hrank (hmatches.dims row (by simp))
  have hcolDims := presentDim_cases hrank (hmatches.dims col (by simp))
  have hconfig : configOf [row, col] = ⟨presentDim row, presentDim col⟩ := rfl
  have hdvd := hfits.divides
  have haccess := fun d (hd : d < x.shape.length) => access_shardShape hmatches hd
  simp only [hconfig] at hshards hdvd haccess
  rcases hrowDims with rfl | ⟨d₀, hd₀, rfl, hint₀, hpresent₀⟩
  · rcases hcolDims with rfl | ⟨d₁, hd₁, rfl, hint₁, hpresent₁⟩
    · exact absurd rfl (hfits.present.resolve_left (not_not.mpr rfl))
    · -- the devices of the first row
      have halong : shardsAlong mesh ⟨none, some (d₁ : ℤ)⟩ d₁ = mesh.cols := by simp [shardsAlong]
      rw [presentDim_neg_one, hpresent₁] at hshards hdvd haccess
      obtain ⟨parts, hparts, hagree⟩ := gathers_cols hlib hd₁ (halong ▸ hdvd d₁ hd₁) hshards
      have hpartial := partialConcat_col mesh hint₁ (haccess d₁ hd₁) (halong ▸ mesh.cols_lt)
      refine ⟨lib.concat parts d₁, ?_, hagree⟩
      rw [ShardToFullShape, if_neg (by decide), if_neg (by simp [toInt_neg_one]), hpartial, halong,
        hlib.deviceTensors]
      show (((List.range mesh.cols).mapM fun j : ℕ =>
        access .inputTensors shards ((j * 1 : ℕ) : ℤ)) >>= _) = _
      rw [hparts]
      rfl
  · rcases hcolDims with rfl | ⟨d₁, hd₁, rfl, hint₁, hpresent₁⟩
    · -- the first devices of the rows
      have halong : shardsAlong mesh ⟨some (d₀ : ℤ), none⟩ d₀ = mesh.rows := by simp [shardsAlong]
      rw [presentDim_neg_one, hpresent₀] at hshards hdvd haccess
      obtain ⟨parts, hparts, hagree⟩ := gathers_rows hlib hd₀ (halong ▸ hdvd d₀ hd₀) hshards
      have hpartial := partialConcat_row mesh (-1) hint₀ (haccess d₀ hd₀) (halong ▸ mesh.rows_lt)
      refine ⟨lib.concat parts d₀, ?_, hagree⟩
      rw [ShardToFullShape, if_neg (by decide), if_neg (by simp [toInt_neg_one]), hpartial, halong,
        hlib.deviceTensors]
      show (((List.range mesh.rows).mapM fun i : ℕ =>
        access .inputTensors shards ((i * mesh.cols : ℕ) : ℤ)) >>= _) = _
      rw [hparts]
      rfl
    · -- all devices
      rw [hpresent₀, hpresent₁] at hshards hdvd
      obtain ⟨hrows, hcols⟩ := dvd_of_shardsAlong hd₀ hd₁ hdvd
      obtain ⟨full, hfull, hagree⟩ := exists_composed hlib hd₀ hd₁ hrows hcols hlength hshards
      refine ⟨full, ?_, hagree⟩
      rw [ShardToFullShape, if_neg (by decide), if_pos (by simp [hint₀, hint₁])]
      show Except.ok (lib.aggregateTensor (.multiDevice shards) ⟨toInt d₀, toInt d₁⟩) = _
      rw [hint₀, hint₁, hfull]

/-- **Sharding and gathering are inverse** for every operation that is emitted. -/
theorem roundTrips (hlib : lib.Documented mesh) (attrs : MeshSharding) (x : Tensor α)
    (hemitted : Emitted mesh x.shape attrs) : RoundTrips lib mesh attrs x := by
  obtain ⟨hverified, hrank, hdevices⟩ := hemitted
  refine ⟨fun htype t direction => if_pos htype, fun htype => ?_⟩
  cases hshardType : attrs.shardType with
  | identity => exact absurd hshardType htype
  | maximal =>
    rw [verifyMeshShardOp, if_pos hshardType] at hverified
    cases hverified
  | replicate =>
    have hlength : (List.replicate (mesh.rows * mesh.cols) x).length = mesh.rows * mesh.cols :=
      List.length_replicate
    have hpos : 0 < mesh.rows * mesh.cols := Nat.mul_pos mesh.rows_pos mesh.cols_pos
    refine ⟨List.replicate (mesh.rows * mesh.cols) x, ?_, hlength, fun i hi j hj => ?_, x, ?_,
      Tensor.Agree.refl x⟩
    · rw [meshShard, if_neg (by decide)]
      show FullToShardShape lib .replicate attrs.shardDims (.single x) = _
      rw [FullToShardShape, if_pos rfl, hlib.replicate]
    · have hlt : i * mesh.cols + j < mesh.rows * mesh.cols := by
        have hmul := Nat.mul_le_mul_right mesh.cols hi
        rw [Nat.succ_mul] at hmul
        omega
      refine ⟨x, by rw [List.getElem?_replicate, if_pos hlt], ?_⟩
      rw [shardOf, if_neg (by rw [hshardType]; decide)]
      exact Tensor.Agree.refl x
    · rw [meshShard, if_neg (by decide)]
      show ShardToFullShape lib mesh .replicate attrs.shardShape attrs.shardDims _ = _
      rw [ShardToFullShape, if_pos rfl, hlib.deviceTensors]
      have hfirst : access .inputTensors (List.replicate (mesh.rows * mesh.cols) x) 0 = .ok x :=
        access_of_getElem? (i := 0) (by rw [List.getElem?_replicate, if_pos hpos])
      rw [hfirst]
      rfl
  | devices =>
    obtain ⟨hmatches, hdvd⟩ := hdevices hshardType
    rw [hshardType] at hverified
    have hfits := fits_of_matches hrank hmatches hdvd hverified
    obtain ⟨shards, hshards, hlength, hagree⟩ := hlib.shard2d x _ hfits
    have hgather := gathers_devices hlib hrank hmatches hfits hlength hagree
    refine ⟨shards, ?_, hlength, fun i hi j hj => ?_, hgather⟩
    · obtain ⟨row, col, hdims⟩ := List.length_eq_two.mp hmatches.length
      rw [meshShard, if_neg (by decide)]
      show FullToShardShape lib .devices attrs.shardDims (.single x) = _
      rw [FullToShardShape, if_neg (by decide), hdims]
      rw [hdims] at hshards
      exact congrArg Except.ok hshards
    · rw [shardOf, if_pos hshardType]
      exact hagree i hi j hj

/-- Two rows of two devices. -/
def twoByTwo : Mesh := ⟨2, 2, Nat.two_pos, Nat.two_pos, by decide, by decide⟩

/-- The entries of a tensor, cut along both of its dimensions. -/
theorem roundTrips_twoByTwo :
    RoundTrips (reference twoByTwo) twoByTwo
      { shardType := .devices, shardShape := [2, 2], shardDims := [0, 1], meshShape := [2, 2] }
      (⟨[4, 4], fun idx => rowMajor [4, 4] idx⟩ : Tensor ℕ) :=
  roundTrips (documented_reference twoByTwo) _ _
    { verified := rfl
      rank_lt := by decide
      devices := fun _ => ⟨⟨rfl, by decide, by decide⟩, by decide⟩ }

end RoundTrip

/-! ## What the conversion of Shardy shardings emits -/

section Sdy

variable {mesh : Mesh} {sdyMesh : SdyMeshAttr} {sdySharding : TensorShardingAttr}

/-- The number of devices a dimension is cut for, by the mesh dimensions that cut it. -/
theorem prod_axisSize (hwf : Wellformed sdyMesh sdySharding)
    (hlt : ∀ ref ∈ refs sdySharding.dimShardings 0, sdyMesh.position ref.2 < sdyMesh.axes.length)
    {x : ℕ} {dim : DimensionShardingAttr} (hdim : sdySharding.dimShardings[x]? = some dim) :
    (dim.axes.map sdyMesh.axisSize).prod =
      ((axesOf (shardDimsOf sdyMesh sdySharding) x).map fun p => sdyMesh.sizes.getD p 1).prod := by
  have hones : ∀ axis ∈ dim.axes, ¬ 1 < sdyMesh.axisSize axis →
      sdyMesh.axisSize axis = 1 ∧ (0 : ℕ) = 0 := by
    intro axis _ hsize
    have hpos := axisSize_pos hwf axis
    exact ⟨by omega, rfl⟩
  have hnodup : (axesOf (shardDimsOf sdyMesh sdySharding) x).Nodup := List.nodup_range.filter _
  have hperm : (axesOf (shardDimsOf sdyMesh sdySharding) x).Perm (listed sdyMesh dim) :=
    (List.perm_ext_iff_of_nodup hnodup (nodup_listed hwf hlt hdim)).mpr fun p =>
      mem_axesOf_iff hwf hlt hdim p
  rw [(hperm.map _).prod_eq, ← (rowMajor_filter _ dim.axes sdyMesh.axisSize _ hones).2, listed,
    List.map_map]
  rfl

theorem prod_axesOf_pair (rows cols : ℕ) (row col : ℤ) (k : ℕ) :
    ((axesOf [row, col] k).map fun p => [rows, cols].getD p 1).prod =
      (if row = k then rows else 1) * (if col = k then cols else 1) := by
  have hrange : List.range [row, col].length = [0, 1] := rfl
  rw [axesOf, hrange]
  by_cases hrow : row = k <;> by_cases hcol : col = k <;> simp [hrow, hcol]

/-- A closed sharding has shard dims that are absent or tensor dimensions, and the matching shard
shape. -/
theorem matches_devicesSharding (hwf : Wellformed sdyMesh sdySharding)
    (hmesh : sdyMesh.sizes = [mesh.rows, mesh.cols])
    (hrank : sdySharding.dimShardings.length < 2 ^ 31)
    (hlt : ∀ ref ∈ refs sdySharding.dimShardings 0, sdyMesh.position ref.2 < sdyMesh.axes.length) :
    Matches mesh sdySharding.dimShardings.length (devicesSharding sdyMesh sdySharding).shardShape
      (shardDimsOf sdyMesh sdySharding) := by
  have hlength : (shardDimsOf sdyMesh sdySharding).length = 2 := by
    rw [length_shardDimsOf, ← List.length_map (f := fun axis : MeshAxisAttr => axis.size.toNat)]
    exact congrArg List.length hmesh
  have hdims : ∀ dim ∈ shardDimsOf sdyMesh sdySharding,
      dim = -1 ∨ 0 ≤ dim ∧ dim < sdySharding.dimShardings.length := by
    intro dim hdim
    have hbounds := bounds_of_mem_shardDimsOf hwf hlt hdim
    omega
  refine ⟨hlength, hdims, ?_⟩
  obtain ⟨row, col, hrowcol⟩ := List.length_eq_two.mp hlength
  refine List.ext_getElem? fun k => ?_
  by_cases hk : k < sdySharding.dimShardings.length
  · have hget := List.getElem?_eq_getElem hk
    have hprod := prod_axisSize hwf hlt hget
    rw [List.getElem?_map, List.getElem?_range hk]
    show ((sdySharding.dimShardings.map fun dim =>
      (((dim.axes.map sdyMesh.axisSize).prod : ℕ) : ℤ))[k]? : Option ℤ) = _
    rw [List.getElem?_map, hget, Option.map_some, Option.map_some, hprod, hmesh, hrowcol,
      prod_axesOf_pair]
    rw [hrowcol] at hdims
    simp only [shardsAlong, configOf, List.getD_cons_zero, List.getD_cons_succ,
      presentDim_eq_some_iff hrank (hdims row (by simp)),
      presentDim_eq_some_iff hrank (hdims col (by simp))]
  · have hshort : (devicesSharding sdyMesh sdySharding).shardShape.length ≤ k := by
      simpa [devicesSharding] using hk
    rw [List.getElem?_eq_none hshort, List.getElem?_eq_none (by simpa using hk)]

/-- **Shardy shardings** are converted to the attributes of an operation that is emitted, whenever
each dimension is a multiple of the number of devices on its axes. -/
theorem emitted_of_sdy (hwf : Wellformed sdyMesh sdySharding)
    (hmesh : sdyMesh.sizes = [mesh.rows, mesh.cols]) {shape : List ℕ}
    (hrank : shape.length < 2 ^ 31)
    (hshape : List.Forall₂ (fun dim n => (dim.axes.map sdyMesh.axisSize).prod ∣ n)
      sdySharding.dimShardings shape) {sharding : MeshSharding}
    (h : convertSdyShardingToMeshSharding sdySharding sdyMesh = .ok sharding) :
    Emitted mesh shape sharding := by
  have hne : sdyMesh.axes ≠ [] := by
    rintro hnil
    rw [SdyMeshAttr.sizes, hnil] at hmesh
    cases hmesh
  rw [convertSdyShardingToMeshSharding, if_neg (fun h => hne h.1), if_neg hne] at h
  obtain ⟨parsed, hparsed, h⟩ := Fallible.bind_eq_ok.mp h
  obtain ⟨hlt, rfl⟩ := parseSdySharding_spec hwf.sizes hparsed
  have hlength := hshape.length_eq
  dsimp only at h
  split_ifs at h with htotal
  · obtain rfl := Except.ok.inj h
    exact ⟨rfl, hrank, fun hdevices => by cases hdevices⟩
  · obtain rfl := Except.ok.inj h
    have hmatches := matches_devicesSharding hwf hmesh (hlength ▸ hrank) hlt
    rw [hlength] at hmatches
    refine ⟨?_, hrank, fun _ => ⟨hmatches, fun k hk => ?_⟩⟩
    · -- the shard shape counts at least one device, and not one in all
      have hpos : 0 < (devicesSharding sdyMesh sdySharding).shardShape.prod := by
        refine List.prod_pos fun n hn => ?_
        obtain ⟨dim, -, rfl⟩ := List.mem_map.mp hn
        refine Nat.cast_pos.mpr (List.prod_pos fun n hn => ?_)
        obtain ⟨axis, -, rfl⟩ := List.mem_map.mp hn
        exact axisSize_pos hwf axis
      rw [List.prod_eq_foldl] at hpos
      have hcount : (devicesSharding sdyMesh sdySharding).shardShape.length = shape.length := by
        rw [devicesSharding, List.length_map, hlength]
      show verifyMeshShardOp shape .devices _ = _
      rw [verifyMeshShardOp, if_neg (by decide), if_pos rfl, if_neg (not_not.mpr hcount),
        if_neg (by omega)]
    · have hget := List.getElem?_eq_getElem (hlength ▸ hk)
      have hcount := congrArg (·[k]?) hmatches.shardShape
      simp only [devicesSharding, List.getElem?_map, hget, List.getElem?_range hk] at hcount
      have heq := Nat.cast_inj.mp (Option.some.inj hcount)
      rw [List.getD_eq_getElem _ _ hk]
      exact heq ▸ hshape.get (hlength ▸ hk) hk

/-- A dimension cut along both axes is cut into eight. -/
theorem cutAlongBoth_emitted :
    Emitted ⟨2, 4, by decide, by decide, by decide, by decide⟩ [16]
      (devicesSharding twoByFour cutAlongBoth) :=
  @emitted_of_sdy _ twoByFour cutAlongBoth ⟨by decide, by decide, by decide⟩ rfl _ (by decide)
    (.cons (by decide) .nil) _ rfl

end Sdy

end MeshShard
