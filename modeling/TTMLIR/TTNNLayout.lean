/-
# TTNN layouts and the layouts derived from them

`TTNNLayoutAttr` of `TTNNOpsAttrs.cpp` places a tensor on a grid of cores: a linear map to
physical coordinates, the grid, the memref of one shard and the memory layout.

* `TTNNLayoutAttr.get` : the builder that computes the shard from the tensor shape;
* `withGrid`, `withElementType`, `withTensorShape` : derived layouts that go through it;
* `withBufferType`, `withMemoryLayout` : derived layouts that keep the old shard;
* `Valid` : the grid of shards covers the physical tensor;
* `Derivation.good_iff` : when a derived layout is valid and has the shard that the builder
  would compute.

`withBufferType` resets the grid to a single core for DRAM and system memory, but the shard
it keeps is the one of the old grid.
-/
import TTMLIR.CollapsedAffineMap
import TTMLIR.Fallible

namespace TTNN

open MLIR CollapsedLinear

/-! ## Attributes and types -/

/-- The data types of tensor elements. -/
inductive DataType : Type where
  | float32 | float16 | bfloat16
  | bfpFloat8 | bfpBFloat8 | bfpFloat4 | bfpBFloat4 | bfpFloat2 | bfpBFloat2
  | uint32 | uint16 | uint8 | int32
  deriving DecidableEq, Repr

/-- Where a tensor is stored. -/
inductive BufferType : Type where
  | dram | l1 | systemMemory | l1Small | trace
  deriving DecidableEq, Repr

/-- How a tensor is spread over the banks of its memory. -/
inductive TensorMemoryLayout : Type where
  | interleaved | singleBank | heightSharded | widthSharded | blockSharded
  deriving DecidableEq, Repr

/-- A tile: the last two dimensions in blocks of `height × width`. -/
structure TileType : Type where
  height : ℕ
  width : ℕ
  dataType : DataType
  height_pos : 0 < height
  width_pos : 0 < width
  deriving DecidableEq, Repr

/-- `TileType::get`, with the default shape. -/
def TileType.get (dataType : DataType) : TileType := ⟨32, 32, dataType, by decide, by decide⟩

/-- The element type of a memref: a scalar or a tile of scalars. -/
inductive ElementType : Type where
  | scalar (dataType : DataType)
  | tile (tileType : TileType)
  deriving DecidableEq, Repr

/-- `isa<TileType>`. -/
def ElementType.isTile : ElementType → Bool
  | .tile _ => true
  | .scalar _ => false

/-- Division that rounds up, as integer division computes it. -/
def ceilDiv (a : ℤ) (b : ℕ) : ℤ := (a + b - 1).tdiv b

/-- The extents of a tile in a shape of rank `rank`; leading dimensions are not tiled. -/
def TileType.extents (t : TileType) (rank : ℕ) : List ℕ :=
  List.replicate (rank - 2) 1 ++ [t.height, t.width]

/-- `TileType::getTiledShape`. -/
def TileType.getTiledShape (t : TileType) (scalarShape : List ℤ) : Except String (List ℤ) :=
  if 2 ≤ scalarShape.length then
    .ok (List.zipWith ceilDiv scalarShape (t.extents scalarShape.length))
  else .error "expected at least 2D shape"

/-- `TileType::getScalarShape`. -/
def TileType.getScalarShape (t : TileType) (tiledShape : List ℤ) : Except String (List ℤ) :=
  if 2 ≤ tiledShape.length then
    .ok (List.zipWith (fun (x : ℤ) (n : ℕ) => x * n) tiledShape (t.extents tiledShape.length))
  else .error "expected at least 2D shape"

/-- `TileType::getSizeBytes`. -/
def TileType.getSizeBytes (t : TileType) : ℕ :=
  match t.dataType with
  | .float32 | .uint32 | .int32 => t.height * t.width * 4
  | .float16 | .bfloat16 | .uint16 => t.height * t.width * 2
  | .uint8 => t.height * t.width
  | .bfpFloat8 | .bfpBFloat8 => 1024
  | .bfpFloat4 | .bfpBFloat4 => 512
  | .bfpFloat2 | .bfpBFloat2 => 256

/-- A memref: the shape of one shard, its element type and its memory. -/
structure MemRefType : Type where
  shape : List ℕ
  elementType : ElementType
  memorySpace : BufferType
  deriving DecidableEq, Repr

/-- `buildMemRef`: a shape of tiles for a tiled element type. -/
def buildMemRef (shardShape : List ℤ) (elementType : ElementType) (memorySpace : BufferType) :
    Except String MemRefType := do
  let shape ← match elementType with
    | .tile t => t.getTiledShape shardShape
    | .scalar _ => pure shardShape
  if shape.all (0 ≤ ·) then return ⟨shape.map Int.toNat, elementType, memorySpace⟩
  else .error "invalid memref size"

/-- `verifyBufferAndMemoryLayout`. -/
def verifyBufferAndMemoryLayout (bufferType : BufferType) :
    Option TensorMemoryLayout → Except String Unit
  | some memLayout =>
    if bufferType = .systemMemory then
      .error "Memory layout is not allowed for SystemMemory buffer type."
    else if bufferType = .dram ∧ memLayout ≠ .interleaved then
      .error "DRAM buffer type must have Interleaved memory layout."
    else .ok ()
  | none =>
    if bufferType ≠ .systemMemory then
      .error "Memory layout is required for non-SystemMemory buffer type."
    else .ok ()

/-- A layout, with the check its constructor asserts. -/
structure TTNNLayoutAttr : Type where
  linear : MLIR.AffineMap
  grid : List ℕ
  memref : MemRefType
  memLayout : Option TensorMemoryLayout
  verified : verifyBufferAndMemoryLayout memref.memorySpace memLayout = .ok ()
  deriving DecidableEq

namespace TTNNLayoutAttr

/-- The constructor: it asserts that the layout verifies. -/
def build (linear : MLIR.AffineMap) (grid : List ℕ) (memref : MemRefType)
    (memLayout : Option TensorMemoryLayout) : Except String TTNNLayoutAttr :=
  match h : verifyBufferAndMemoryLayout memref.memorySpace memLayout with
  | .ok () => .ok ⟨linear, grid, memref, memLayout, h⟩
  | .error e => .error e

/-! ## Getters -/

def getElementType (L : TTNNLayoutAttr) : ElementType := L.memref.elementType

def getBufferType (L : TTNNLayoutAttr) : BufferType := L.memref.memorySpace

def isTiled (L : TTNNLayoutAttr) : Bool := L.getElementType.isTile

/-- `getScalarShardShape`: the shard in elements. -/
def getScalarShardShape (L : TTNNLayoutAttr) : Except String (List ℤ) :=
  match L.getElementType with
  | .tile t => t.getScalarShape (L.memref.shape.map Nat.cast)
  | .scalar _ => .ok (L.memref.shape.map Nat.cast)

end TTNNLayoutAttr

/-! ## Shards -/

/-- `TILE_HEIGHT` and `TILE_WIDTH`. -/
def tileExtent : ℕ := 32

/-- `alignUp` to a multiple of the tile extent. -/
def alignUp (n : ℕ) : ℕ := (n + tileExtent - 1) / tileExtent * tileExtent

/-- `getTilePaddedShape`: the last two dimensions rounded up to tiles. -/
def getTilePaddedShape (shape : List ℕ) : List ℕ :=
  shape.mapIdx fun i n => if shape.length ≤ i + 2 then alignUp n else n

/-- The shape that is laid out: tile padded for a tiled element type. -/
def physicalShape (elementType : ElementType) (tensorShape : List ℕ) : List ℕ :=
  match elementType with
  | .tile _ => getTilePaddedShape tensorShape
  | .scalar _ => tensorShape

/-- `evalShape`: the last index of a shape under a map, plus one. -/
def evalShape (map : MLIR.AffineMap) (shape : List ℕ) : List ℤ :=
  (map.eval (shape.map fun n : ℕ => (n : ℤ) - 1) []).map (· + 1)

/-- `calculateLogicalShardShapeForSharding`. -/
def calculateLogicalShardShapeForSharding (tensorShape : List ℕ) (linear : MLIR.AffineMap)
    (grid : List ℕ) : Except String (List ℤ) :=
  if linear.results.length = grid.length then
    .ok (List.zipWith ceilDiv (evalShape linear tensorShape) grid)
  else .error "linear.getNumResults() == grid.getShape().size()"

/-- `std::accumulate` of a product from the `int` value one, as an unsigned 64 bit value. -/
def accumulate (values : List ℤ) : ℕ :=
  ((values.foldl (fun acc x => Int.bmod (acc * x) (2 ^ 32)) 1) % 2 ^ 64).toNat

/-- The tiles of one core in an L1 interleaved layout, in unsigned 64 bit arithmetic. -/
def coreTiles (tiledShape : List ℤ) (grid : List ℕ) : ℕ :=
  (accumulate tiledShape + accumulate (grid.map Nat.cast) - 1) % 2 ^ 64
    / accumulate (grid.map Nat.cast)

/-- `calculateLogicalShardShapeForL1Interleaved`. -/
def calculateLogicalShardShapeForL1Interleaved (tensorShape : List ℕ)
    (elementType : ElementType) (linear : MLIR.AffineMap) (grid : List ℕ) :
    Except String (List ℤ) :=
  if linear.results.length = grid.length then
    match elementType with
    | .scalar _ => .error "mlir::isa<mlir::tt::TileType>(elementType)"
    | .tile t => do
        let physicalTiledShape ← t.getTiledShape (evalShape linear tensorShape)
        let numTiles := coreTiles physicalTiledShape grid
        if accumulate (grid.map Nat.cast) = 0 then .error "division by zero"
        else if 2 ^ 63 ≤ numTiles * t.width then .error "signed integer overflow"
        else t.getScalarShape (List.replicate (grid.length - 1) 1 ++ [(numTiles : ℤ)])
  else .error "linear.getNumResults() == grid.getShape().size()"

/-- The shard shape that `TTNNLayoutAttr::get` computes. -/
def logicalShardShape (physicalShape : List ℕ) (elementType : ElementType)
    (bufferType : BufferType) (grid : List ℕ) (memLayout : Option TensorMemoryLayout)
    (linear : MLIR.AffineMap) : Except String (List ℤ) :=
  if bufferType = .l1 ∧ memLayout = some .interleaved then
    calculateLogicalShardShapeForL1Interleaved physicalShape elementType linear grid
  else calculateLogicalShardShapeForSharding physicalShape linear grid

namespace TTNNLayoutAttr

/-- `TTNNLayoutAttr::get` from a tensor shape. -/
def get (tensorShape : List ℕ) (elementType : ElementType) (bufferType : BufferType)
    (grid : List ℕ) (memLayout : Option TensorMemoryLayout)
    (collapseIntervals : List (ℤ × ℤ)) : Except String TTNNLayoutAttr :=
  if elementType.isTile ∧ tensorShape = [] then
    .error "getTilePaddedShape of a shape without dimensions"
  else
    let shape := physicalShape elementType tensorShape
    match collapsedLinearAffineMap shape grid collapseIntervals with
    | none => .error "collapsedLinearAffineMap"
    | some linear => do
        let shardShape ← logicalShardShape shape elementType bufferType grid memLayout linear
        let memref ← buildMemRef shardShape elementType bufferType
        build linear grid memref memLayout

/-! ## Derived layouts -/

/-- `withGrid`. -/
def withGrid (L : TTNNLayoutAttr) (tensorShape grid : List ℕ)
    (collapseIntervals : List (ℤ × ℤ)) : Except String TTNNLayoutAttr :=
  get tensorShape L.getElementType L.getBufferType grid L.memLayout collapseIntervals

/-- `withElementType`. -/
def withElementType (L : TTNNLayoutAttr) (elementType : ElementType) (tensorShape : List ℕ)
    (collapseIntervals : List (ℤ × ℤ)) : Except String TTNNLayoutAttr :=
  get tensorShape elementType L.getBufferType L.grid L.memLayout collapseIntervals

/-- `withTensorShape`, with the default collapse intervals. -/
def withTensorShape (L : TTNNLayoutAttr) (tensorShape : List ℕ) :
    Except String TTNNLayoutAttr :=
  get tensorShape L.getElementType L.getBufferType L.grid L.memLayout [(0, -1)]

/-- The memory layout that `withBufferType` sets. -/
def memLayoutFor (L : TTNNLayoutAttr) : BufferType → Option TensorMemoryLayout
  | .systemMemory => none
  | .dram => some .interleaved
  | .l1 => some (L.memLayout.getD .interleaved)
  | .l1Small | .trace => L.memLayout

/-- The grid that `withBufferType` sets: a single core for DRAM and system memory. -/
def gridFor (L : TTNNLayoutAttr) : BufferType → List ℕ
  | .systemMemory | .dram => List.replicate L.grid.length 1
  | .l1 | .l1Small | .trace => L.grid

/-- `withBufferType`: the shard shape is kept. -/
def withBufferType (L : TTNNLayoutAttr) (memorySpace : BufferType) :
    Except String TTNNLayoutAttr := do
  let memref ← buildMemRef (← L.getScalarShardShape) L.getElementType memorySpace
  build L.linear (L.gridFor memorySpace) memref (L.memLayoutFor memorySpace)

/-- `withMemoryLayout`: the grid and the shard shape are kept. -/
def withMemoryLayout (L : TTNNLayoutAttr) (memLayout : TensorMemoryLayout) :
    Except String TTNNLayoutAttr := do
  let memref ← buildMemRef (← L.getScalarShardShape) L.getElementType L.getBufferType
  build L.linear L.grid memref (some memLayout)

end TTNNLayoutAttr

/-! ## Valid layouts -/

/-- The extents of one memref element in a shape of rank `rank`. -/
def ElementType.extents (elementType : ElementType) (rank : ℕ) : List ℕ :=
  match elementType with
  | .tile t => t.extents rank
  | .scalar _ => List.replicate rank 1

/-- Interleaved in L1, where tiles are dealt out to the cores one by one. -/
def InterleavedL1 (bufferType : BufferType) (memLayout : Option TensorMemoryLayout) : Prop :=
  bufferType = .l1 ∧ memLayout = some .interleaved

instance (bufferType : BufferType) (memLayout : Option TensorMemoryLayout) :
    Decidable (InterleavedL1 bufferType memLayout) :=
  inferInstanceAs (Decidable (_ ∧ _))

namespace TTNNLayoutAttr

/-- The physical shape of a tensor: its padded shape under the linear map. -/
def physical (L : TTNNLayoutAttr) (tensorShape : List ℕ) : List ℤ :=
  evalShape L.linear (physicalShape L.getElementType tensorShape)

/-- The physical shape in memref elements. -/
def physicalUnits (L : TTNNLayoutAttr) (tensorShape : List ℕ) : List ℤ :=
  List.zipWith ceilDiv (L.physical tensorShape) (L.getElementType.extents L.grid.length)

/-- The shard shape in elements. -/
def shardElements (L : TTNNLayoutAttr) : List ℕ :=
  List.zipWith (· * ·) L.memref.shape (L.getElementType.extents L.grid.length)

/-- The grid of shards covers the physical tensor: along every dimension, or in the number
of memref elements when these are dealt out one by one. -/
def Covers (L : TTNNLayoutAttr) (tensorShape : List ℕ) : Prop :=
  if InterleavedL1 L.getBufferType L.memLayout then
    (L.physicalUnits tensorShape).prod ≤ (L.grid.prod * L.memref.shape.prod : ℕ)
  else
    List.Forall₂ (fun (p : ℤ) (covered : ℕ) => p ≤ covered) (L.physical tensorShape)
      (List.zipWith (· * ·) L.grid L.shardElements)

/-- A layout that is valid for a tensor shape: its parts have one rank, the grid has cores,
and the grid of shards covers the tensor. -/
structure Valid (L : TTNNLayoutAttr) (tensorShape : List ℕ) : Prop where
  dims : L.linear.numDims = tensorShape.length
  results : L.linear.results.length = L.grid.length
  shard : L.memref.shape.length = L.grid.length
  tiled : L.isTiled → 2 ≤ L.grid.length ∧ tensorShape ≠ []
  cores : ∀ g ∈ L.grid, 0 < g
  covers : L.Covers tensorShape

/-- The shard is the one that `get` computes for the grid, buffer type and memory layout. -/
def ShardComputed (L : TTNNLayoutAttr) (tensorShape : List ℕ) : Prop :=
  ∃ shardShape, logicalShardShape (physicalShape L.getElementType tensorShape)
      L.getElementType L.getBufferType L.grid L.memLayout L.linear = .ok shardShape ∧
    buildMemRef shardShape L.getElementType L.getBufferType = .ok L.memref

/-- **What a derived layout has to be.** -/
def Good (result : Except String TTNNLayoutAttr) (tensorShape : List ℕ) : Prop :=
  ∃ L, result = .ok L ∧ L.Valid tensorShape ∧ L.ShardComputed tensorShape

end TTNNLayoutAttr

/-! ## The conditions -/

/-- The row of tiles that every core of a grid is dealt. -/
def rowOfTiles (units : List ℤ) (grid : List ℕ) : List ℕ :=
  List.replicate (grid.length - 1) 1 ++ [coreTiles units grid]

/-- The tiles of a tensor can be dealt out: the counts stay in their integer types, and the
cores hold all of the tiles. -/
def Dealt (units : List ℤ) (grid : List ℕ) (width : ℕ) : Prop :=
  accumulate (grid.map Nat.cast) ≠ 0 ∧ coreTiles units grid * width < 2 ^ 63 ∧
    units.prod ≤ (grid.prod * coreTiles units grid : ℕ)

/-- The builder succeeds and its shards cover the tensor: tiles need two dimensions, the
linear map exists, no extent is negative, and an L1 interleaved tensor is tiled. -/
def Buildable (tensorShape : List ℕ) (elementType : ElementType) (bufferType : BufferType)
    (grid : List ℕ) (memLayout : Option TensorMemoryLayout)
    (collapseIntervals : List (ℤ × ℤ)) : Prop :=
  (elementType.isTile → 2 ≤ grid.length ∧ tensorShape ≠ []) ∧ (∀ g ∈ grid, 0 < g) ∧
    ∃ linear, collapsedLinearAffineMap (physicalShape elementType tensorShape) grid
        collapseIntervals = some linear ∧
      if InterleavedL1 bufferType memLayout then
        ∃ t, elementType = .tile t ∧ Dealt (List.zipWith ceilDiv
          (evalShape linear (physicalShape elementType tensorShape))
          (t.extents grid.length)) grid t.width
      else
        ∀ x ∈ List.zipWith ceilDiv (List.zipWith ceilDiv
          (evalShape linear (physicalShape elementType tensorShape)) grid)
            (elementType.extents grid.length), 0 ≤ x

namespace TTNNLayoutAttr

/-- The shard holds the whole tensor. -/
def Whole (L : TTNNLayoutAttr) (tensorShape : List ℕ) : Prop :=
  L.memref.shape.map Nat.cast = L.physicalUnits tensorShape

/-- The shard is an even share of every dimension. -/
def Even (L : TTNNLayoutAttr) (tensorShape grid : List ℕ) : Prop :=
  L.memref.shape.map Nat.cast
    = List.zipWith ceilDiv (List.zipWith ceilDiv (L.physical tensorShape) grid)
        (L.getElementType.extents grid.length)

/-- The shard is a row of tiles: as many as every core of the grid is dealt. -/
def Row (L : TTNNLayoutAttr) (tensorShape grid : List ℕ) : Prop :=
  ∃ t, L.getElementType = .tile t ∧ Dealt (L.physicalUnits tensorShape) grid t.width ∧
    L.memref.shape = rowOfTiles (L.physicalUnits tensorShape) grid

end TTNNLayoutAttr

/-- A computation that succeeds: its first part does, and the rest on its result. -/
theorem except_bind_eq_ok {α β : Type} {x : Except String α} {f : α → Except String β} {b : β} :
    (x >>= f) = .ok b ↔ ∃ a, x = .ok a ∧ f a = .ok b :=
  Fallible.bind_eq_ok

/-! ## Lists of extents -/

theorem ceilDiv_one (a : ℤ) : ceilDiv a 1 = a := by
  simp [ceilDiv]

theorem zipWith_ceilDiv_one (l : List ℤ) :
    List.zipWith ceilDiv l (List.replicate l.length 1) = l := by
  induction l with
  | nil => rfl
  | cons a l ih => rw [List.length_cons, List.replicate_succ, List.zipWith_cons_cons, ih, ceilDiv_one]

theorem le_mul_ceilDiv (a : ℤ) {b : ℕ} (hb : 0 < b) : a ≤ b * ceilDiv a b := by
  have hb' : (0 : ℤ) < b := Int.natCast_pos.mpr hb
  have hmod := Int.tmod_add_mul_tdiv (a + b - 1) b
  have hlt : (a + b - 1).tmod b < b := Int.tmod_lt_of_pos _ hb'
  unfold ceilDiv
  by_cases hneg : a + b - 1 < 0
  · have hle : (a + b - 1).tmod b ≤ 0 := by
      have h := Int.tmod_nonneg (b : ℤ) (a := -(a + b - 1)) (by omega)
      rw [Int.neg_tmod] at h
      omega
    omega
  · omega

theorem ceilDiv_mul_self (n : ℕ) {b : ℕ} (hb : 0 < b) : ceilDiv ((n : ℤ) * b) b = n := by
  have hn : (n : ℤ) * b + b - 1 = ((n * b + (b - 1) : ℕ) : ℤ) := by
    push_cast
    omega
  rw [ceilDiv, hn, ← Int.ofNat_tdiv, Nat.add_comm, Nat.add_mul_div_right _ _ hb,
    Nat.div_eq_of_lt (by omega), Nat.zero_add]

@[simp] theorem TileType.length_extents (t : TileType) {rank : ℕ} (h : 2 ≤ rank) :
    (t.extents rank).length = rank := by
  simp [TileType.extents]
  omega

theorem TileType.extents_pos (t : TileType) {rank n : ℕ} (h : n ∈ t.extents rank) : 0 < n := by
  rcases List.mem_append.mp h with h | h
  · rw [(List.mem_replicate.mp h).2]
    exact Nat.one_pos
  · rcases List.mem_cons.mp h with rfl | h
    · exact t.height_pos
    · rw [List.mem_singleton.mp h]
      exact t.width_pos

theorem ElementType.extents_pos (e : ElementType) {rank n : ℕ} (h : n ∈ e.extents rank) :
    0 < n := by
  cases e with
  | tile t => exact t.extents_pos h
  | scalar _ =>
    rw [(List.mem_replicate.mp h).2]
    exact Nat.one_pos

theorem ElementType.length_extents (e : ElementType) {rank : ℕ} (h : e.isTile → 2 ≤ rank) :
    (e.extents rank).length = rank := by
  cases e with
  | tile t => exact t.length_extents (h rfl)
  | scalar _ => exact List.length_replicate

/-- Even shards cover along every dimension. -/
theorem covers_of_even (phys : List ℤ) (grid ext shape : List ℕ)
    (hgrid : grid.length = phys.length) (hext : ext.length = phys.length)
    (hcores : ∀ g ∈ grid, 0 < g) (hpos : ∀ n ∈ ext, 0 < n)
    (h : shape.map Nat.cast = List.zipWith ceilDiv (List.zipWith ceilDiv phys grid) ext) :
    List.Forall₂ (fun (p : ℤ) (covered : ℕ) => p ≤ covered) phys
      (List.zipWith (· * ·) grid (List.zipWith (· * ·) shape ext)) := by
  induction phys generalizing grid ext shape with
  | nil =>
    rw [List.length_nil, List.length_eq_zero_iff] at hgrid
    subst hgrid
    exact List.Forall₂.nil
  | cons p phys ih =>
    cases grid with
    | nil => simp at hgrid
    | cons g grid =>
      cases ext with
      | nil => simp at hext
      | cons n ext =>
        cases shape with
        | nil => simp at h
        | cons m shape =>
          simp only [List.map_cons, List.zipWith_cons_cons, List.cons.injEq] at h
          obtain ⟨hm, hrest⟩ := h
          refine List.Forall₂.cons ?_ (ih grid ext shape (by simpa using hgrid)
            (by simpa using hext) (fun x hx => hcores x (by simp [hx]))
            (fun x hx => hpos x (by simp [hx])) hrest)
          have h₁ := le_mul_ceilDiv p (hcores g (by simp))
          have h₂ := le_mul_ceilDiv (ceilDiv p g) (hpos n (by simp))
          rw [← hm] at h₂
          have hg : (0 : ℤ) ≤ g := Int.natCast_nonneg g
          calc p ≤ g * ceilDiv p g := h₁
            _ ≤ g * (n * m) := Int.mul_le_mul_of_nonneg_left h₂ hg
            _ = ((g * (m * n) : ℕ) : ℤ) := by push_cast; ring

/-! ## The computed shard -/

/-- The shard memref that `get` computes. -/
def computedMemref (physicalShape : List ℕ) (elementType : ElementType)
    (bufferType : BufferType) (grid : List ℕ) (memLayout : Option TensorMemoryLayout)
    (linear : MLIR.AffineMap) : Except String MemRefType := do
  buildMemRef (← logicalShardShape physicalShape elementType bufferType grid memLayout linear)
    elementType bufferType

theorem map_toNat_map_cast (l : List ℕ) : (l.map Nat.cast).map Int.toNat = l := by
  rw [List.map_map]
  exact List.map_id'' (fun n => Int.toNat_natCast n) l

theorem map_cast_map_toNat {l : List ℤ} (h : ∀ x ∈ l, 0 ≤ x) :
    (l.map Int.toNat).map Nat.cast = l := by
  rw [List.map_map]
  conv_rhs => rw [← List.map_id l]
  exact List.map_congr_left fun x hx => Int.toNat_of_nonneg (h x hx)

/-- Checking that no extent is negative, and turning the extents into natural numbers. -/
theorem ok_toNat_iff (l : List ℤ) (e : ElementType) (b : BufferType) (memref : MemRefType) :
    (if l.all (0 ≤ ·) then (.ok ⟨l.map Int.toNat, e, b⟩ : Except String MemRefType)
      else .error "invalid memref size") = .ok memref ↔
      memref.elementType = e ∧ memref.memorySpace = b ∧ memref.shape.map Nat.cast = l := by
  by_cases h : l.all (0 ≤ ·)
  · have hpos : ∀ x ∈ l, 0 ≤ x := by simpa using h
    rw [if_pos h]
    constructor
    · intro heq
      cases heq
      exact ⟨rfl, rfl, map_cast_map_toNat hpos⟩
    · rintro ⟨rfl, rfl, hshape⟩
      rw [← hshape, map_toNat_map_cast]
  · rw [if_neg h]
    refine ⟨fun heq => (by cases heq), ?_⟩
    rintro ⟨-, -, hshape⟩
    refine absurd ?_ h
    rw [← hshape]
    simp

/-- **`buildMemRef`.**  The memref has the shard in memref elements. -/
theorem buildMemRef_eq_ok_iff (shard : List ℤ) (e : ElementType) (b : BufferType)
    (memref : MemRefType) :
    buildMemRef shard e b = .ok memref ↔
      (e.isTile → 2 ≤ shard.length) ∧ memref.elementType = e ∧ memref.memorySpace = b ∧
        memref.shape.map Nat.cast = List.zipWith ceilDiv shard (e.extents shard.length) := by
  cases e with
  | scalar d =>
    rw [ElementType.extents, zipWith_ceilDiv_one]
    simp only [ElementType.isTile, Bool.false_eq_true, false_implies, true_and]
    exact ok_toNat_iff shard (.scalar d) b memref
  | tile t =>
    by_cases hlen : 2 ≤ shard.length
    · have hstep : buildMemRef shard (.tile t) b
          = if (List.zipWith ceilDiv shard (t.extents shard.length)).all (0 ≤ ·) then
              .ok ⟨(List.zipWith ceilDiv shard (t.extents shard.length)).map Int.toNat, .tile t, b⟩
            else .error "invalid memref size" := by
        unfold buildMemRef
        simp only [TileType.getTiledShape, if_pos hlen]
        rfl
      rw [hstep, ok_toNat_iff]
      simp only [hlen, implies_true, true_and, ElementType.extents]
    · have hstep : buildMemRef shard (.tile t) b = .error "expected at least 2D shape" := by
        unfold buildMemRef
        simp only [TileType.getTiledShape, if_neg hlen]
        rfl
      rw [hstep]
      refine ⟨fun heq => (by cases heq), fun h => absurd (h.1 rfl) hlen⟩

/-- A shape of whole tiles, in tiles. -/
theorem zipWith_ceilDiv_mul (l ext : List ℕ) (hpos : ∀ n ∈ ext, 0 < n)
    (hlen : ext.length = l.length) :
    List.zipWith ceilDiv (List.zipWith (fun (x : ℤ) (n : ℕ) => x * n) (l.map Nat.cast) ext) ext
      = l.map Nat.cast := by
  induction l generalizing ext with
  | nil => rfl
  | cons m l ih =>
    cases ext with
    | nil => simp at hlen
    | cons n ext =>
      simp only [List.map_cons, List.zipWith_cons_cons]
      rw [ceilDiv_mul_self m (hpos n (by simp)),
        ih ext (fun x hx => hpos x (by simp [hx])) (by simpa using hlen)]

/-- **`calculateLogicalShardShapeForL1Interleaved`** for a tiled element type. -/
theorem forL1Interleaved_eq_ok_iff (shape : List ℕ) (t : TileType) (linear : MLIR.AffineMap)
    (grid : List ℕ) (hlen : linear.results.length = grid.length) (shard : List ℤ) :
    calculateLogicalShardShapeForL1Interleaved shape (.tile t) linear grid = .ok shard ↔
      2 ≤ grid.length ∧ accumulate (grid.map Nat.cast) ≠ 0 ∧
        coreTiles (List.zipWith ceilDiv (evalShape linear shape) (t.extents grid.length)) grid
          * t.width < 2 ^ 63 ∧
        shard = List.zipWith (fun (x : ℤ) (n : ℕ) => x * n)
          ((rowOfTiles (List.zipWith ceilDiv (evalShape linear shape) (t.extents grid.length))
            grid).map Nat.cast) (t.extents grid.length) := by
  have hphys : (evalShape linear shape).length = grid.length := by
    simp [evalShape, AffineMap.eval, hlen]
  unfold calculateLogicalShardShapeForL1Interleaved
  rw [if_pos hlen]
  by_cases htwo : 2 ≤ grid.length
  · have htiled : t.getTiledShape (evalShape linear shape)
        = .ok (List.zipWith ceilDiv (evalShape linear shape) (t.extents grid.length)) := by
      rw [TileType.getTiledShape, hphys, if_pos htwo]
    dsimp only
    rw [htiled]
    generalize List.zipWith ceilDiv (evalShape linear shape) (t.extents grid.length) = units
    change (if _ then _ else if _ then _ else _) = _ ↔ _
    have hrow : (List.replicate (grid.length - 1) (1 : ℤ) ++ [(coreTiles units grid : ℤ)])
        = (rowOfTiles units grid).map Nat.cast := by
      simp [rowOfTiles]
    have hrowlen : ((rowOfTiles units grid).map (Nat.cast : ℕ → ℤ)).length = grid.length := by
      simp only [rowOfTiles, List.length_map, List.length_append, List.length_replicate,
        List.length_singleton]
      omega
    rw [hrow, TileType.getScalarShape, hrowlen, if_pos htwo]
    split_ifs with hacc hover
    · exact ⟨fun h => (by cases h), fun h => absurd hacc h.2.1⟩
    · exact ⟨fun h => (by cases h), fun h => absurd hover (Nat.not_le.mpr h.2.2.1)⟩
    · constructor
      · intro h
        cases h
        exact ⟨htwo, hacc, Nat.not_le.mp hover, rfl⟩
      · rintro ⟨-, -, -, rfl⟩
        rfl
  · have htiled : t.getTiledShape (evalShape linear shape)
        = .error "expected at least 2D shape" := by
      rw [TileType.getTiledShape, hphys, if_neg htwo]
    dsimp only
    rw [htiled]
    exact ⟨fun h => (by cases h), fun h => absurd h.1 htwo⟩

/-- **The computed shard.**  It is an even share of the physical shape, or the row of tiles
that a core is dealt when tiles are interleaved in L1. -/
theorem computedMemref_eq_ok_iff (shape : List ℕ) (e : ElementType) (b : BufferType)
    (grid : List ℕ) (m : Option TensorMemoryLayout) (linear : MLIR.AffineMap)
    (hlen : linear.results.length = grid.length) (memref : MemRefType) :
    computedMemref shape e b grid m linear = .ok memref ↔
      (e.isTile → 2 ≤ grid.length) ∧ memref.elementType = e ∧ memref.memorySpace = b ∧
        if InterleavedL1 b m then
          ∃ t, e = .tile t ∧ accumulate (grid.map Nat.cast) ≠ 0 ∧
            coreTiles (List.zipWith ceilDiv (evalShape linear shape) (t.extents grid.length))
              grid * t.width < 2 ^ 63 ∧
            memref.shape = rowOfTiles (List.zipWith ceilDiv (evalShape linear shape)
              (t.extents grid.length)) grid
        else memref.shape.map Nat.cast
          = List.zipWith ceilDiv (List.zipWith ceilDiv (evalShape linear shape) grid)
              (e.extents grid.length) := by
  have hphys : (evalShape linear shape).length = grid.length := by
    simp [evalShape, AffineMap.eval, hlen]
  rw [computedMemref, except_bind_eq_ok]
  unfold logicalShardShape
  by_cases hi : InterleavedL1 b m
  · rw [if_pos hi, if_pos (show b = .l1 ∧ m = some .interleaved from hi)]
    cases e with
    | scalar d =>
      have herr : calculateLogicalShardShapeForL1Interleaved shape (.scalar d) linear grid
          = .error "mlir::isa<mlir::tt::TileType>(elementType)" := by
        unfold calculateLogicalShardShapeForL1Interleaved
        rw [if_pos hlen]
      rw [herr]
      constructor
      · rintro ⟨shard, h, -⟩
        cases h
      · rintro ⟨-, -, -, t, ht, -⟩
        cases ht
    | tile t =>
      have hrow : ∀ units : List ℤ, 2 ≤ grid.length →
          (rowOfTiles units grid).length = grid.length := by
        intro units htwo
        simp only [rowOfTiles, List.length_append, List.length_replicate, List.length_singleton]
        omega
      have hlength : ∀ units : List ℤ, 2 ≤ grid.length →
          (List.zipWith (fun (x : ℤ) (n : ℕ) => x * n) ((rowOfTiles units grid).map Nat.cast)
            (t.extents grid.length)).length = grid.length := by
        intro units htwo
        rw [List.length_zipWith, List.length_map, hrow units htwo, t.length_extents htwo, min_self]
      have htiles : ∀ units : List ℤ, 2 ≤ grid.length →
          List.zipWith ceilDiv (List.zipWith (fun (x : ℤ) (n : ℕ) => x * n)
            ((rowOfTiles units grid).map Nat.cast) (t.extents grid.length))
              (ElementType.extents (.tile t) grid.length)
            = (rowOfTiles units grid).map Nat.cast := by
        intro units htwo
        refine zipWith_ceilDiv_mul _ _ (fun n hn => t.extents_pos hn) ?_
        rw [t.length_extents htwo, hrow units htwo]
      constructor
      · rintro ⟨shard, h, hbuild⟩
        obtain ⟨htwo, hacc, hover, rfl⟩ :=
          (forL1Interleaved_eq_ok_iff shape t linear grid hlen shard).mp h
        obtain ⟨-, he, hb, hshape⟩ := (buildMemRef_eq_ok_iff _ _ b memref).mp hbuild
        refine ⟨fun _ => htwo, he, hb, t, rfl, hacc, hover, ?_⟩
        rw [hlength _ htwo] at hshape
        exact List.map_injective_iff.mpr Nat.cast_injective (hshape.trans (htiles _ htwo))
      · rintro ⟨htwo, he, hb, t', ht, hacc, hover, hshape⟩
        cases ht
        refine ⟨_, (forL1Interleaved_eq_ok_iff shape t linear grid hlen _).mpr
          ⟨htwo rfl, hacc, hover, rfl⟩, (buildMemRef_eq_ok_iff _ _ b memref).mpr ?_⟩
        rw [hlength _ (htwo rfl)]
        exact ⟨htwo, he, hb, by rw [hshape]; exact (htiles _ (htwo rfl)).symm⟩
  · rw [if_neg hi, if_neg (show ¬ (b = .l1 ∧ m = some .interleaved) from hi),
      calculateLogicalShardShapeForSharding, if_pos hlen]
    have hshard : (List.zipWith ceilDiv (evalShape linear shape) grid).length = grid.length := by
      rw [List.length_zipWith, hphys, min_self]
    constructor
    · rintro ⟨shard, h, hbuild⟩
      cases h
      have hb := (buildMemRef_eq_ok_iff _ e b memref).mp hbuild
      rwa [hshard] at hb
    · intro h
      refine ⟨_, rfl, (buildMemRef_eq_ok_iff _ e b memref).mpr ?_⟩
      rwa [hshard]

/-! ## The layouts that are built -/

/-- A built layout has the parts it is built from. -/
theorem TTNNLayoutAttr.build_eq_ok_iff (linear : MLIR.AffineMap) (grid : List ℕ)
    (memref : MemRefType) (m : Option TensorMemoryLayout) (L : TTNNLayoutAttr) :
    build linear grid memref m = .ok L ↔
      L.linear = linear ∧ L.grid = grid ∧ L.memref = memref ∧ L.memLayout = m := by
  unfold build
  constructor
  · intro h
    split at h
    · cases h
      exact ⟨rfl, rfl, rfl, rfl⟩
    · cases h
  · obtain ⟨linear', grid', memref', m', hverified⟩ := L
    rintro ⟨rfl, rfl, rfl, rfl⟩
    split
    · rfl
    · rename_i heq
      rw [hverified] at heq
      cases heq

/-- Erasing and inserting at one place keeps the dimensions and the number of results. -/
theorem dims_of_replace {map dropped inserted : MLIR.AffineMap} {e : AffineExpr} {pos : ℤ}
    (hdrop : map.dropResult pos = some dropped)
    (hinsert : dropped.insertResult e pos = some inserted) :
    inserted.numDims = map.numDims ∧ inserted.results.length = map.results.length := by
  unfold MLIR.AffineMap.dropResult at hdrop
  unfold MLIR.AffineMap.insertResult at hinsert
  split at hdrop
  · rename_i hpos
    cases hdrop
    split at hinsert
    · cases hinsert
      refine ⟨rfl, ?_⟩
      have hlt : pos.toNat < map.results.length := by omega
      have herase := List.length_eraseIdx_of_lt hlt
      rw [List.length_insertIdx, if_pos (by omega), herase]
      omega
    · cases hinsert
  · cases hdrop

/-- The collapsed map has the dimensions of the shape and the results of the grid. -/
theorem dims_of_collapsed {shape grid : List ℕ} {intervals : List (ℤ × ℤ)}
    {linear : MLIR.AffineMap} (h : collapsedLinearAffineMap shape grid intervals = some linear) :
    linear.numDims = shape.length ∧ linear.results.length = grid.length := by
  unfold collapsedLinearAffineMap at h
  simp only [Option.bind_eq_bind, Option.bind_eq_some_iff] at h
  obtain ⟨⟨map, minimumDim⟩, hintervals, filled, hfill, hlast⟩ := h
  have hcollapse : ∀ (l : List (ℤ × ℤ)) (state state' : MLIR.AffineMap × ℤ),
      l.foldlM (collapseInterval shape) state = some state' → state'.1.numDims = state.1.numDims ∧
          state'.1.results.length = state.1.results.length := by
    intro l
    induction l with
    | nil =>
      intro state state' h
      cases h
      exact ⟨rfl, rfl⟩
    | cons i l ih =>
      intro state state' h
      rw [List.foldlM_cons, Option.bind_eq_bind, Option.bind_eq_some_iff] at h
      obtain ⟨next, hnext, hrest⟩ := h
      obtain ⟨hd, hr⟩ := ih next state' hrest
      suffices hstep : next.1.numDims = state.1.numDims ∧
          next.1.results.length = state.1.results.length from
        ⟨hd.trans hstep.1, hr.trans hstep.2⟩
      unfold collapseInterval at hnext
      simp only at hnext
      split at hnext
      · cases hnext
        exact ⟨rfl, rfl⟩
      · split at hnext
        · simp only [Option.bind_eq_bind, Option.bind_eq_some_iff] at hnext
          obtain ⟨_, _, dropped, hdrop, inserted, hinsert, heq⟩ := hnext
          cases heq
          exact dims_of_replace hdrop hinsert
        · cases hnext
  have hdims : ∀ (l : List ℕ) (map map' : MLIR.AffineMap), l.foldlM fillDim map = some map' →
      map'.numDims = map.numDims ∧ map'.results.length = map.results.length := by
    intro l
    induction l with
    | nil =>
      intro map map' h
      cases h
      exact ⟨rfl, rfl⟩
    | cons d l ih =>
      intro map map' h
      rw [List.foldlM_cons, Option.bind_eq_bind, Option.bind_eq_some_iff] at h
      obtain ⟨next, hnext, hrest⟩ := h
      obtain ⟨hd, hr⟩ := ih next map' hrest
      unfold fillDim at hnext
      simp only [Option.bind_eq_bind, Option.bind_eq_some_iff] at hnext
      obtain ⟨dropped, hdrop, hinsert⟩ := hnext
      obtain ⟨hd', hr'⟩ := dims_of_replace hdrop hinsert
      exact ⟨hd.trans hd', hr.trans hr'⟩
  obtain ⟨hd₁, hr₁⟩ := hcollapse _ _ _ hintervals
  obtain ⟨hd₂, hr₂⟩ := hdims _ _ _ hfill
  split at hlast
  · cases hlast
    simp only [MLIR.AffineMap.getMinorIdentityMap, List.length_map, List.length_range]
      at hd₁ hr₁
    refine ⟨hd₂.trans hd₁, ?_⟩
    rw [List.length_append, List.length_replicate, hr₂, hr₁]
    omega
  · cases hlast

namespace TTNNLayoutAttr

/-- **The builder.**  A layout that `get` returns has the collapsed map and the computed
shard. -/
theorem get_eq_ok_iff (T : List ℕ) (e : ElementType) (b : BufferType) (grid : List ℕ)
    (m : Option TensorMemoryLayout) (ci : List (ℤ × ℤ)) (L : TTNNLayoutAttr) :
    get T e b grid m ci = .ok L ↔ ¬ (e.isTile = true ∧ T = []) ∧
        collapsedLinearAffineMap (physicalShape e T) grid ci = some L.linear ∧
        computedMemref (physicalShape e T) e b grid m L.linear = .ok L.memref ∧
        L.grid = grid ∧ L.memLayout = m := by
  unfold get
  split_ifs with htile
  · exact ⟨fun h => (by cases h), fun h => absurd htile h.1⟩
  · dsimp only
    cases hcollapse : collapsedLinearAffineMap (physicalShape e T) grid ci with
    | none => exact ⟨fun h => (by cases h), fun h => (by cases h.2.1)⟩
    | some linear =>
      dsimp only
      rw [except_bind_eq_ok]
      simp only [except_bind_eq_ok, build_eq_ok_iff, computedMemref]
      constructor
      · rintro ⟨shard, hshard, memref, hmemref, rfl, rfl, rfl, rfl⟩
        exact ⟨htile, rfl, ⟨shard, hshard, hmemref⟩, rfl, rfl⟩
      · rintro ⟨-, hlinear, ⟨shard, hshard, hmemref⟩, rfl, rfl⟩
        cases hlinear
        exact ⟨shard, hshard, _, hmemref, rfl, rfl, rfl, rfl⟩

theorem build_of_verified (linear : MLIR.AffineMap) (grid : List ℕ) (memref : MemRefType)
    (m : Option TensorMemoryLayout)
    (h : verifyBufferAndMemoryLayout memref.memorySpace m = .ok ()) :
    build linear grid memref m = .ok ⟨linear, grid, memref, m, h⟩ :=
  (build_eq_ok_iff linear grid memref m _).mpr ⟨rfl, rfl, rfl, rfl⟩

section

variable (L : TTNNLayoutAttr) (h : L.isTiled → 2 ≤ L.memref.shape.length)

include h

/-- The shard of a layout, rebuilt in another memory, is the same shard. -/
theorem rebuilt_eq (b : BufferType) :
    (do buildMemRef (← L.getScalarShardShape) L.getElementType b)
      = .ok ⟨L.memref.shape, L.getElementType, b⟩ := by
  have hlen : L.getElementType.isTile → 2 ≤ L.memref.shape.length := h
  have hext := L.getElementType.length_extents hlen
  have hscalar : L.getScalarShardShape = .ok (List.zipWith (fun (x : ℤ) (n : ℕ) => x * n)
      (L.memref.shape.map Nat.cast) (L.getElementType.extents L.memref.shape.length)) := by
    unfold getScalarShardShape
    cases he : L.getElementType with
    | tile t =>
      rw [he] at hlen
      simp only [TileType.getScalarShape, List.length_map, if_pos (hlen rfl), ElementType.extents]
    | scalar d =>
      simp only [ElementType.extents]
      congr 1
      apply List.ext_getElem (by simp)
      intro i h₁ h₂
      simp
  have hlength : (List.zipWith (fun (x : ℤ) (n : ℕ) => x * n) (L.memref.shape.map Nat.cast)
      (L.getElementType.extents L.memref.shape.length)).length = L.memref.shape.length := by
    rw [List.length_zipWith, List.length_map, hext, min_self]
  rw [hscalar]
  refine (buildMemRef_eq_ok_iff _ _ b _).mpr ?_
  rw [hlength, zipWith_ceilDiv_mul _ _ (fun n hn => L.getElementType.extents_pos hn) hext]
  exact ⟨hlen, rfl, rfl, rfl⟩

/-- `withBufferType` builds the old shard on the reset grid. -/
theorem withBufferType_eq (b : BufferType) :
    L.withBufferType b = build L.linear (L.gridFor b) ⟨L.memref.shape, L.getElementType, b⟩
      (L.memLayoutFor b) := by
  have hrebuilt := L.rebuilt_eq h b
  unfold withBufferType
  cases hscalar : L.getScalarShardShape with
  | error msg =>
    rw [hscalar] at hrebuilt
    cases hrebuilt
  | ok shard =>
    rw [hscalar] at hrebuilt
    change (buildMemRef shard L.getElementType b >>= _) = _
    have hbuilt : buildMemRef shard L.getElementType b
        = .ok ⟨L.memref.shape, L.getElementType, b⟩ := hrebuilt
    rw [hbuilt]
    rfl

/-- `withMemoryLayout` builds the old shard on the old grid. -/
theorem withMemoryLayout_eq (m : TensorMemoryLayout) :
    L.withMemoryLayout m = build L.linear L.grid L.memref (some m) := by
  have hrebuilt := L.rebuilt_eq h L.getBufferType
  unfold withMemoryLayout
  cases hscalar : L.getScalarShardShape with
  | error msg =>
    rw [hscalar] at hrebuilt
    cases hrebuilt
  | ok shard =>
    rw [hscalar] at hrebuilt
    change (buildMemRef shard L.getElementType L.getBufferType >>= _) = _
    have hbuilt : buildMemRef shard L.getElementType L.getBufferType = .ok L.memref := hrebuilt
    rw [hbuilt]
    rfl

/-- `withBufferType`, when the attribute verifies. -/
theorem withBufferType_eq_ok
    (b : BufferType) (hv : verifyBufferAndMemoryLayout b (L.memLayoutFor b) = .ok ()) :
    L.withBufferType b = .ok ⟨L.linear, L.gridFor b, ⟨L.memref.shape, L.getElementType, b⟩,
      L.memLayoutFor b, hv⟩ :=
  (L.withBufferType_eq h b).trans (build_of_verified _ _ _ _ hv)

/-- `withMemoryLayout`, when the attribute verifies. -/
theorem withMemoryLayout_eq_ok (m : TensorMemoryLayout)
    (hv : verifyBufferAndMemoryLayout L.memref.memorySpace (some m) = .ok ()) :
    L.withMemoryLayout m = .ok ⟨L.linear, L.grid, L.memref, some m, hv⟩ :=
  (L.withMemoryLayout_eq h m).trans (build_of_verified _ _ _ _ hv)

end

/-- **Valid layouts with the computed shard.**  A layout on a grid with cores is valid and has
the shard that `get` computes when the shard is an even share of the tensor, or the dealt row
of tiles. -/
theorem valid_and_computed_iff (L : TTNNLayoutAttr) (T : List ℕ)
    (hdims : L.linear.numDims = T.length) (hres : L.linear.results.length = L.grid.length)
    (htile : L.isTiled → T ≠ []) (hcores : ∀ g ∈ L.grid, 0 < g) :
    L.Valid T ∧ L.ShardComputed T ↔ (L.isTiled → 2 ≤ L.grid.length) ∧
      if InterleavedL1 L.getBufferType L.memLayout then L.Row T L.grid else L.Even T L.grid := by
  have hphys : (L.physical T).length = L.grid.length := by
    simp [physical, evalShape, MLIR.AffineMap.eval, hres]
  have hcomputed : L.ShardComputed T ↔ computedMemref (physicalShape L.getElementType T)
      L.getElementType L.getBufferType L.grid L.memLayout L.linear = .ok L.memref := by
    rw [computedMemref, except_bind_eq_ok]
    rfl
  rw [hcomputed, computedMemref_eq_ok_iff _ _ _ _ _ _ hres]
  by_cases hi : InterleavedL1 L.getBufferType L.memLayout
  · rw [if_pos hi, if_pos hi]
    constructor
    · rintro ⟨hvalid, htwo, -, -, t, ht, hacc, hover, hshape⟩
      have hunits : List.zipWith ceilDiv (evalShape L.linear (physicalShape L.getElementType T))
          (t.extents L.grid.length) = L.physicalUnits T := by
        rw [physicalUnits, physical, ht]
        rfl
      rw [hunits] at hover hshape
      refine ⟨htwo, t, ht, ⟨hacc, hover, ?_⟩, hshape⟩
      have hcov := hvalid.covers
      rw [Covers, if_pos hi, hshape, rowOfTiles, List.prod_append, List.prod_replicate] at hcov
      simpa using hcov
    · rintro ⟨htwo, t, ht, ⟨hacc, hover, hcov⟩, hshape⟩
      have hunits : List.zipWith ceilDiv (evalShape L.linear (physicalShape L.getElementType T))
          (t.extents L.grid.length) = L.physicalUnits T := by
        rw [physicalUnits, physical, ht]
        rfl
      have hlen := htwo (by rw [isTiled, ht]; rfl)
      refine ⟨⟨hdims, hres, ?_, fun h => ⟨htwo h, htile h⟩, hcores, ?_⟩, htwo, rfl, rfl, t, ht,
        hacc, ?_, ?_⟩
      · rw [hshape, rowOfTiles, List.length_append, List.length_replicate, List.length_singleton]
        omega
      · rw [Covers, if_pos hi, hshape, rowOfTiles, List.prod_append, List.prod_replicate]
        simpa using hcov
      · rw [hunits]
        exact hover
      · rw [hunits]
        exact hshape
  · rw [if_neg hi, if_neg hi]
    constructor
    · rintro ⟨-, htwo, -, -, hshape⟩
      exact ⟨htwo, hshape⟩
    · rintro ⟨htwo, heven⟩
      have hext := L.getElementType.length_extents htwo
      have hshape : L.memref.shape.length = L.grid.length := by
        have hl := congrArg List.length heven
        rwa [List.length_map, List.length_zipWith, List.length_zipWith, hphys, hext, min_self,
          min_self] at hl
      refine ⟨⟨hdims, hres, hshape, fun h => ⟨htwo h, htile h⟩, hcores, ?_⟩, htwo, rfl, rfl, heven⟩
      rw [Covers, if_neg hi]
      exact covers_of_even _ _ _ _ hphys.symm (by rw [hext, hphys]) hcores
        (fun n hn => L.getElementType.extents_pos hn) heven

/-- **Layouts that go through the builder** are good when the builder succeeds and its shards
cover the tensor. -/
theorem good_get_iff (T : List ℕ) (e : ElementType) (b : BufferType) (grid : List ℕ)
    (m : Option TensorMemoryLayout) (ci : List (ℤ × ℤ))
    (hverify : verifyBufferAndMemoryLayout b m = .ok ()) :
    Good (get T e b grid m ci) T ↔ Buildable T e b grid m ci := by
  have hlength : (physicalShape e T).length = T.length := by
    cases e <;> simp [physicalShape, getTilePaddedShape]
  constructor
  · rintro ⟨L, hget, hvalid, hcomputed⟩
    obtain ⟨-, hlinear, hmemref, rfl, rfl⟩ := (get_eq_ok_iff T e b grid m ci L).mp hget
    obtain ⟨-, he, hb, -⟩ := (computedMemref_eq_ok_iff _ e b _ _ _ hvalid.results _).mp hmemref
    have helt : L.getElementType = e := he
    have hbuf : L.getBufferType = b := hb
    subst helt
    subst hbuf
    obtain ⟨-, hparts⟩ := (valid_and_computed_iff L T hvalid.dims hvalid.results
      (fun h => (hvalid.tiled h).2) hvalid.cores).mp ⟨hvalid, hcomputed⟩
    refine ⟨hvalid.tiled, hvalid.cores, L.linear, hlinear, ?_⟩
    by_cases hi : InterleavedL1 L.getBufferType L.memLayout
    · rw [if_pos hi] at hparts ⊢
      obtain ⟨t, ht, hdealt, -⟩ := hparts
      refine ⟨t, ht, ?_⟩
      rw [physicalUnits, physical, ht] at hdealt
      rw [ht]
      exact hdealt
    · rw [if_neg hi] at hparts ⊢
      intro x hx
      have heven : L.memref.shape.map Nat.cast = _ := hparts
      rw [physical] at heven
      rw [← heven] at hx
      obtain ⟨n, -, rfl⟩ := List.mem_map.mp hx
      exact Int.natCast_nonneg n
  · rintro ⟨htile, hcores, linear, hlinear, hparts⟩
    obtain ⟨hdims, hres⟩ := dims_of_collapsed hlinear
    -- a shard of the right shape makes the layout
    suffices hmemref : ∃ shape, computedMemref (physicalShape e T) e b grid m linear
          = .ok ⟨shape, e, b⟩ ∧
        if InterleavedL1 b m then
          Row ⟨linear, grid, ⟨shape, e, b⟩, m, hverify⟩ T grid
        else Even ⟨linear, grid, ⟨shape, e, b⟩, m, hverify⟩ T grid by
      obtain ⟨shape, hmemref, hshape⟩ := hmemref
      refine ⟨⟨linear, grid, ⟨shape, e, b⟩, m, hverify⟩, ?_, ?_⟩
      · exact (get_eq_ok_iff T e b grid m ci _).mpr
          ⟨fun h => (htile h.1).2 h.2, hlinear, hmemref, rfl, rfl⟩
      · exact (valid_and_computed_iff ⟨linear, grid, ⟨shape, e, b⟩, m, hverify⟩ T
          (hdims.trans hlength) hres (fun h => (htile h).2) hcores).mpr
            ⟨fun h => (htile h).1, hshape⟩
    by_cases hi : InterleavedL1 b m
    · rw [if_pos hi] at hparts
      obtain ⟨t, rfl, hdealt⟩ := hparts
      refine ⟨rowOfTiles (List.zipWith ceilDiv (evalShape linear (physicalShape (.tile t) T))
        (t.extents grid.length)) grid, (computedMemref_eq_ok_iff _ _ b grid m linear hres _).mpr
        ⟨fun h => (htile h).1, rfl, rfl, ?_⟩, ?_⟩
      · rw [if_pos hi]
        exact ⟨t, rfl, hdealt.1, hdealt.2.1, rfl⟩
      · rw [if_pos hi]
        exact ⟨t, rfl, hdealt, rfl⟩
    · rw [if_neg hi] at hparts
      refine ⟨(List.zipWith ceilDiv (List.zipWith ceilDiv (evalShape linear (physicalShape e T))
        grid) (e.extents grid.length)).map Int.toNat,
        (computedMemref_eq_ok_iff _ _ b grid m linear hres _).mpr
          ⟨fun h => (htile h).1, rfl, rfl, ?_⟩, ?_⟩
      · rw [if_neg hi]
        exact map_cast_map_toNat hparts
      · rw [if_neg hi]
        exact map_cast_map_toNat hparts

theorem length_gridFor (L : TTNNLayoutAttr) (b : BufferType) :
    (L.gridFor b).length = L.grid.length := by
  cases b <;> simp [gridFor]

variable {L : TTNNLayoutAttr} {T : List ℕ}

/-- **Layouts that keep their shard.**  Rebuilt on another grid of the same rank and in
another memory, a valid layout is good when the attribute verifies and the old shard is the
even share, or the dealt row, of the new grid. -/
theorem good_rebuilt_iff (hvalid : L.Valid T)
    (grid : List ℕ) (hgrid : grid.length = L.grid.length) (hcores : ∀ g ∈ grid, 0 < g)
    (b : BufferType) (m : Option TensorMemoryLayout) :
    Good (build L.linear grid ⟨L.memref.shape, L.getElementType, b⟩ m) T ↔
      verifyBufferAndMemoryLayout b m = .ok () ∧
        if InterleavedL1 b m then L.Row T grid else L.Even T grid := by
  have hparts : ∀ hverify : verifyBufferAndMemoryLayout b m = .ok (),
      (Valid ⟨L.linear, grid, ⟨L.memref.shape, L.getElementType, b⟩, m, hverify⟩ T ∧
        ShardComputed ⟨L.linear, grid, ⟨L.memref.shape, L.getElementType, b⟩, m, hverify⟩ T ↔
        if InterleavedL1 b m then L.Row T grid else L.Even T grid) := by
    intro hverify
    rw [valid_and_computed_iff ⟨L.linear, grid, ⟨L.memref.shape, L.getElementType, b⟩, m, hverify⟩
      T hvalid.dims (hvalid.results.trans hgrid.symm) (fun h => (hvalid.tiled h).2) hcores]
    have hrank : (L.isTiled → 2 ≤ grid.length) := by
      intro h
      rw [hgrid]
      exact (hvalid.tiled h).1
    have hunits : physicalUnits ⟨L.linear, grid, ⟨L.memref.shape, L.getElementType, b⟩, m,
        hverify⟩ T = L.physicalUnits T := by
      simp only [physicalUnits, hgrid]
      rfl
    unfold Row
    rw [hunits]
    exact ⟨fun h => h.2, fun h => ⟨hrank, h⟩⟩
  constructor
  · rintro ⟨L', hL', hgood⟩
    obtain ⟨linear', grid', memref', m', hverify⟩ := L'
    obtain ⟨rfl, rfl, rfl, rfl⟩ := (build_eq_ok_iff _ _ _ _ _).mp hL'
    exact ⟨hverify, (hparts hverify).mp hgood⟩
  · rintro ⟨hverify, hshape⟩
    exact ⟨_, build_of_verified _ _ _ _ hverify, (hparts hverify).mpr hshape⟩

theorem parts_of_get {e : ElementType} {b : BufferType} {grid : List ℕ}
    {m : Option TensorMemoryLayout} {ci : List (ℤ × ℤ)} (h : get T e b grid m ci = .ok L) :
    L.getElementType = e ∧ L.getBufferType = b ∧ L.grid = grid ∧ L.memLayout = m := by
  obtain ⟨-, hlinear, hmemref, hgrid, hm⟩ := (get_eq_ok_iff T e b grid m ci L).mp h
  obtain ⟨-, hres⟩ := dims_of_collapsed hlinear
  obtain ⟨-, he, hb, -⟩ := (computedMemref_eq_ok_iff _ e b _ _ _ hres _).mp hmemref
  exact ⟨he, hb, hgrid, hm⟩

theorem even_ones_iff (hvalid : L.Valid T) :
    L.Even T (List.replicate L.grid.length 1) ↔ L.Whole T := by
  have hphys : (L.physical T).length = L.grid.length := by
    simp [physical, evalShape, MLIR.AffineMap.eval, hvalid.results]
  unfold Even Whole physicalUnits
  rw [← hphys, zipWith_ceilDiv_one, List.length_replicate]

/-- A sharded layout that the builder returns for a grid with cores is good. -/
theorem good_of_get {e : ElementType} {b : BufferType} {grid : List ℕ}
    {m : Option TensorMemoryLayout} {ci : List (ℤ × ℤ)}
    (hi : ¬ InterleavedL1 b m) (hcores : ∀ g ∈ grid, 0 < g)
    (h : get T e b grid m ci = .ok L) : L.Valid T ∧ L.ShardComputed T := by
  obtain ⟨htile, hlinear, hmemref, rfl, rfl⟩ := (get_eq_ok_iff T e b grid m ci L).mp h
  obtain ⟨hdims, hres⟩ := dims_of_collapsed hlinear
  obtain ⟨htwo, he, hb, hshape⟩ := (computedMemref_eq_ok_iff _ e b _ _ _ hres _).mp hmemref
  have hlength : (physicalShape e T).length = T.length := by
    cases e <;> simp [physicalShape, getTilePaddedShape]
  have helt : L.getElementType = e := he
  have hbuf : L.getBufferType = b := hb
  subst helt
  subst hbuf
  rw [if_neg hi] at hshape
  refine (valid_and_computed_iff L T (hdims.trans hlength) hres (fun h ht => htile ⟨h, ht⟩)
    hcores).mpr ⟨htwo, ?_⟩
  rw [if_neg hi]
  exact hshape

/-- A memory layout is there exactly outside of system memory, and any will do for the
memories without a rule of their own. -/
theorem verify_other_iff (L : TTNNLayoutAttr) {b : BufferType}
    (hsystem : b ≠ .systemMemory) (hdram : b ≠ .dram) :
    verifyBufferAndMemoryLayout b L.memLayout = .ok () ↔ L.getBufferType ≠ .systemMemory := by
  have hverified := L.verified
  unfold getBufferType
  cases hm : L.memLayout with
  | none =>
    rw [hm] at hverified
    simp only [verifyBufferAndMemoryLayout] at hverified ⊢
    rw [if_pos hsystem]
    split_ifs at hverified with hb
    exact ⟨fun h => (by cases h), fun h => absurd (not_not.mp hb) h⟩
  | some m =>
    rw [hm] at hverified
    simp only [verifyBufferAndMemoryLayout] at hverified ⊢
    rw [if_neg hsystem, if_neg fun h => hdram h.1]
    split_ifs at hverified with hb hd
    · exact ⟨fun _ => hb, fun _ => rfl⟩

end TTNNLayoutAttr

/-! ## Derivations -/

/-- The sharded memory layouts. -/
def TensorMemoryLayout.isSharded : TensorMemoryLayout → Bool
  | .heightSharded | .widthSharded | .blockSharded => true
  | .interleaved | .singleBank => false

/-- How the compiler derives a layout from another one: the five functions, and the chains
of calls of the optimizer. -/
inductive Derivation : Type where
  | withGrid (grid : List ℕ) (collapseIntervals : List (ℤ × ℤ))
  | withElementType (elementType : ElementType) (collapseIntervals : List (ℤ × ℤ))
  | withBufferType (memorySpace : BufferType)
  | withMemoryLayout (memLayout : TensorMemoryLayout)
  | withTensorShape (tensorShape : List ℕ)
  /-- `processSpillOps` of the optimizer. -/
  | spillToDram
  /-- The sharded layouts of `AllPossibleLayoutsAnalysis`. -/
  | shardedBase (elementType : ElementType) (grid : List ℕ)
      (memLayout : {m : TensorMemoryLayout // m.isSharded})
  /-- The sharded input of the first operation of a chain in `DFShardingPolicy`. -/
  | shardedInput (grid : List ℕ) (memLayout : {m : TensorMemoryLayout // m.isSharded})
  /-- The result type of `from_device`. -/
  | fromDevice

namespace Derivation

open TTNNLayoutAttr

/-- The shape of the tensor with the derived layout. -/
def shape (tensorShape : List ℕ) : Derivation → List ℕ
  | .withTensorShape newShape => newShape
  | _ => tensorShape

/-- The derived layout. -/
def apply (L : TTNNLayoutAttr) (tensorShape : List ℕ) :
    Derivation → Except String TTNNLayoutAttr
  | .withGrid grid ci => L.withGrid tensorShape grid ci
  | .withElementType e ci => L.withElementType e tensorShape ci
  | .withBufferType b => L.withBufferType b
  | .withMemoryLayout m => L.withMemoryLayout m
  | .withTensorShape newShape => L.withTensorShape newShape
  | .spillToDram => do (← L.withBufferType .dram).withMemoryLayout .interleaved
  | .shardedBase e grid m => do
      let onL1 ← L.withBufferType .l1
      let blockSharded ← onL1.withMemoryLayout .blockSharded
      let shardedBase ← blockSharded.withElementType e tensorShape [(0, -1)]
      (← shardedBase.withGrid tensorShape grid [(0, -1)]).withMemoryLayout m
  | .shardedInput grid m => do
      let onL1 ← L.withBufferType .l1
      (← onL1.withMemoryLayout m).withGrid tensorShape grid [(0, -1)]
  | .fromDevice => L.withBufferType .systemMemory

/-- **When a derived layout is right.**  The functions that go through the builder are right
when it succeeds.  `withBufferType` and `withMemoryLayout` are right when the attribute
verifies and the old shard already is the one of the new grid: all of the tensor for DRAM and
system memory. -/
def HoldsWhen (L : TTNNLayoutAttr) (tensorShape : List ℕ) : Derivation → Prop
  | .withGrid grid ci =>
    Buildable tensorShape L.getElementType L.getBufferType grid L.memLayout ci
  | .withElementType e ci => Buildable tensorShape e L.getBufferType L.grid L.memLayout ci
  | .withTensorShape newShape =>
    Buildable newShape L.getElementType L.getBufferType L.grid L.memLayout [(0, -1)]
  | .withBufferType .dram | .withBufferType .systemMemory | .spillToDram | .fromDevice =>
    L.Whole tensorShape
  | .withBufferType .l1 =>
    if L.memLayout.getD .interleaved = .interleaved then L.Row tensorShape L.grid
    else L.Even tensorShape L.grid
  | .withBufferType .l1Small | .withBufferType .trace =>
    L.getBufferType ≠ .systemMemory ∧ L.Even tensorShape L.grid
  | .withMemoryLayout m =>
    match L.getBufferType with
    | .systemMemory => False
    | .dram => m = .interleaved ∧ L.Even tensorShape L.grid
    | .l1 => if m = .interleaved then L.Row tensorShape L.grid else L.Even tensorShape L.grid
    | .l1Small | .trace => L.Even tensorShape L.grid
  | .shardedBase e grid m =>
    Buildable tensorShape e .l1 L.grid (some .blockSharded) [(0, -1)] ∧
      Buildable tensorShape e .l1 grid (some m) [(0, -1)]
  | .shardedInput grid m =>
    Buildable tensorShape L.getElementType .l1 grid (some m) [(0, -1)]

theorem buildable_sharded_iff (T : List ℕ) (e : ElementType) (grid : List ℕ)
    (ci : List (ℤ × ℤ)) {m : TensorMemoryLayout} (hm : m.isSharded) :
    Buildable T e .l1 grid (some m) ci ↔ Buildable T e .l1 grid (some .blockSharded) ci := by
  have h₁ : ¬ InterleavedL1 .l1 (some m) := by
    rintro ⟨-, h⟩
    cases h
    cases hm
  have h₂ : ¬ InterleavedL1 .l1 (some .blockSharded) := by decide
  unfold Buildable
  simp only [if_neg h₁, if_neg h₂]

theorem verify_l1 (m : TensorMemoryLayout) : verifyBufferAndMemoryLayout .l1 (some m) = .ok () := by
  simp [verifyBufferAndMemoryLayout]

/-- **DRAM and system memory.**  The grid becomes a single core, so the kept shard has to be
the whole tensor. -/
theorem good_reset_iff {L : TTNNLayoutAttr} {T : List ℕ} (hvalid : L.Valid T) {b : BufferType}
    (hb : b = .dram ∨ b = .systemMemory) : Good (L.withBufferType b) T ↔ L.Whole T := by
  have htwo : L.isTiled → 2 ≤ L.memref.shape.length := by
    intro h
    rw [hvalid.shard]
    exact (hvalid.tiled h).1
  have hgrid : L.gridFor b = List.replicate L.grid.length 1 := by
    rcases hb with rfl | rfl <;> rfl
  have hcores : ∀ g ∈ L.gridFor b, 0 < g := by
    intro g hg
    rw [hgrid] at hg
    rw [(List.mem_replicate.mp hg).2]
    exact Nat.one_pos
  have hverify : verifyBufferAndMemoryLayout b (L.memLayoutFor b) = .ok () := by
    rcases hb with rfl | rfl <;> rfl
  have hi : ¬ InterleavedL1 b (L.memLayoutFor b) := by
    rintro ⟨h, -⟩
    rcases hb with rfl | rfl <;> cases h
  rw [L.withBufferType_eq htwo, good_rebuilt_iff hvalid _ (L.length_gridFor b) hcores,
    if_neg hi, hgrid, even_ones_iff hvalid]
  exact ⟨fun h => h.2, fun h => ⟨hverify, h⟩⟩

section

variable (L : TTNNLayoutAttr) (T : List ℕ) (htwo : L.isTiled → 2 ≤ L.memref.shape.length)

include htwo

theorem apply_spillToDram : Derivation.spillToDram.apply L T = L.withBufferType .dram := by
  have hfirst := L.withBufferType_eq_ok htwo .dram rfl
  rw [apply, hfirst]
  exact withMemoryLayout_eq_ok ⟨L.linear, L.gridFor .dram, ⟨L.memref.shape,
    L.getElementType, .dram⟩, L.memLayoutFor .dram, rfl⟩ htwo .interleaved rfl

theorem apply_shardedInput (grid : List ℕ) (m : {m : TensorMemoryLayout // m.isSharded}) :
    (Derivation.shardedInput grid m).apply L T
      = get T L.getElementType .l1 grid (some m) [(0, -1)] := by
  have hfirst := L.withBufferType_eq_ok htwo .l1 (verify_l1 _)
  have hsecond := withMemoryLayout_eq_ok ⟨L.linear, L.gridFor .l1, ⟨L.memref.shape,
    L.getElementType, .l1⟩, L.memLayoutFor .l1, verify_l1 _⟩ htwo m (verify_l1 _)
  rw [apply, hfirst]
  change (TTNNLayoutAttr.withMemoryLayout _ _ >>= _) = _
  rw [hsecond]
  rfl

/-- The sharded layouts go through the builder twice. -/
theorem apply_shardedBase (e : ElementType) (grid : List ℕ)
    (m : {m : TensorMemoryLayout // m.isSharded}) :
    (Derivation.shardedBase e grid m).apply L T = (do
      let base ← get T e .l1 L.grid (some .blockSharded) [(0, -1)]
      (← base.withGrid T grid [(0, -1)]).withMemoryLayout m) := by
  have hfirst := L.withBufferType_eq_ok htwo .l1 (verify_l1 _)
  have hsecond := withMemoryLayout_eq_ok ⟨L.linear, L.gridFor .l1, ⟨L.memref.shape,
    L.getElementType, .l1⟩, L.memLayoutFor .l1, verify_l1 _⟩ htwo .blockSharded (verify_l1 _)
  rw [apply, hfirst]
  change (TTNNLayoutAttr.withMemoryLayout _ _ >>= _) = _
  rw [hsecond]
  rfl

end

/-- **The sharded layouts.**  The builder has to succeed on the old grid and on the new one;
the last call only names the memory layout. -/
theorem good_shardedBase_iff (T : List ℕ) (e : ElementType) (old grid : List ℕ)
    {m : TensorMemoryLayout} (hm : m.isSharded) (hcores : ∀ g ∈ old, 0 < g) :
    Good (do
        let base ← get T e .l1 old (some .blockSharded) [(0, -1)]
        (← base.withGrid T grid [(0, -1)]).withMemoryLayout m) T ↔
      Buildable T e .l1 old (some .blockSharded) [(0, -1)] ∧
        Buildable T e .l1 grid (some m) [(0, -1)] := by
  have hblock : ¬ InterleavedL1 .l1 (some .blockSharded) := by decide
  have hlast : ¬ InterleavedL1 .l1 (some m) := by
    rintro ⟨-, h⟩
    cases h
    cases hm
  have hgrid : ∀ base, get T e .l1 old (some .blockSharded) [(0, -1)] = .ok base →
      base.withGrid T grid [(0, -1)] = get T e .l1 grid (some .blockSharded) [(0, -1)] := by
    intro base h
    obtain ⟨he, hb, -, hlayout⟩ := parts_of_get h
    rw [TTNNLayoutAttr.withGrid, he, hb, hlayout]
  rw [buildable_sharded_iff T e grid _ hm, ← good_get_iff _ _ _ _ _ _ (verify_l1 _),
    ← good_get_iff _ _ _ _ _ _ (verify_l1 _)]
  constructor
  · rintro ⟨L, hchain, hvalid, -⟩
    rw [except_bind_eq_ok] at hchain
    obtain ⟨base, hbase, hchain⟩ := hchain
    rw [except_bind_eq_ok] at hchain
    obtain ⟨moved, hmoved, hlayout⟩ := hchain
    rw [hgrid base hbase] at hmoved
    -- the last call keeps the grid, so the new grid has cores
    have hnew : L.grid = grid := by
      rw [TTNNLayoutAttr.withMemoryLayout, except_bind_eq_ok] at hlayout
      obtain ⟨shard, -, hlayout⟩ := hlayout
      rw [except_bind_eq_ok] at hlayout
      obtain ⟨memref, -, hlayout⟩ := hlayout
      rw [((build_eq_ok_iff _ _ _ _ _).mp hlayout).2.1, (parts_of_get hmoved).2.2.1]
    have hcores' : ∀ g ∈ grid, 0 < g := by
      rw [← hnew]
      exact hvalid.cores
    exact ⟨⟨base, hbase, good_of_get hblock hcores hbase⟩,
      ⟨moved, hmoved, good_of_get hblock hcores' hmoved⟩⟩
  · rintro ⟨⟨base, hbase, -⟩, ⟨moved, hmoved, hvalid, hcomputed⟩⟩
    obtain ⟨he, hb, hgrid', hlayout⟩ := parts_of_get hmoved
    have htwo : moved.isTiled → 2 ≤ moved.memref.shape.length := by
      intro h
      rw [hvalid.shard]
      exact (hvalid.tiled h).1
    have hchain : (do
        let base ← get T e .l1 old (some .blockSharded) [(0, -1)]
        (← base.withGrid T grid [(0, -1)]).withMemoryLayout m)
          = build moved.linear moved.grid ⟨moved.memref.shape, moved.getElementType, .l1⟩
              (some m) := by
      rw [hbase]
      change (base.withGrid T grid [(0, -1)] >>= _) = _
      rw [hgrid base hbase, hmoved, ← hb]
      exact moved.withMemoryLayout_eq htwo m
    have heven := ((valid_and_computed_iff moved T hvalid.dims hvalid.results
      (fun h => (hvalid.tiled h).2) hvalid.cores).mp ⟨hvalid, hcomputed⟩).2
    rw [hb, hlayout, if_neg hblock] at heven
    rw [hchain, good_rebuilt_iff hvalid moved.grid rfl hvalid.cores, if_neg hlast]
    exact ⟨verify_l1 m, heven⟩

/-- **Derived layouts.**  From a layout that is valid for a tensor shape, each derivation
yields a valid layout with the shard that `get` computes exactly when its condition holds. -/
theorem good_iff (L : TTNNLayoutAttr) (tensorShape : List ℕ) (hvalid : L.Valid tensorShape)
    (d : Derivation) :
    Good (d.apply L tensorShape) (d.shape tensorShape) ↔ d.HoldsWhen L tensorShape := by
  have htwo : L.isTiled → 2 ≤ L.memref.shape.length := by
    intro h
    rw [hvalid.shard]
    exact (hvalid.tiled h).1
  have hdram := good_reset_iff hvalid (Or.inl rfl)
  have hsystem := good_reset_iff hvalid (Or.inr rfl)
  cases d with
  | withGrid grid ci => exact good_get_iff _ _ _ _ _ _ L.verified
  | withElementType e ci => exact good_get_iff _ _ _ _ _ _ L.verified
  | withTensorShape newShape => exact good_get_iff _ _ _ _ _ _ L.verified
  | fromDevice => exact hsystem
  | spillToDram =>
    rw [apply_spillToDram L tensorShape htwo]
    exact hdram
  | withBufferType b =>
    change Good (L.withBufferType b) tensorShape ↔ _
    cases b with
    | dram => exact hdram
    | systemMemory => exact hsystem
    | l1 =>
      rw [L.withBufferType_eq htwo, good_rebuilt_iff hvalid (L.gridFor .l1) rfl hvalid.cores]
      have hi : InterleavedL1 .l1 (L.memLayoutFor .l1) ↔
          L.memLayout.getD .interleaved = .interleaved := by
        simp [InterleavedL1, memLayoutFor]
      simp only [hi]
      exact ⟨fun h => h.2, fun h => ⟨verify_l1 _, h⟩⟩
    | l1Small =>
      rw [L.withBufferType_eq htwo,
        good_rebuilt_iff hvalid (L.gridFor .l1Small) rfl hvalid.cores,
        if_neg (by rintro ⟨h, -⟩; cases h)]
      exact and_congr_left fun _ => L.verify_other_iff (by decide) (by decide)
    | trace =>
      rw [L.withBufferType_eq htwo,
        good_rebuilt_iff hvalid (L.gridFor .trace) rfl hvalid.cores,
        if_neg (by rintro ⟨h, -⟩; cases h)]
      exact and_congr_left fun _ => L.verify_other_iff (by decide) (by decide)
  | withMemoryLayout m =>
    change Good (L.withMemoryLayout m) tensorShape ↔ _
    rw [L.withMemoryLayout_eq htwo,
      show L.memref = ⟨L.memref.shape, L.getElementType, L.getBufferType⟩ from rfl,
      good_rebuilt_iff hvalid L.grid rfl hvalid.cores]
    unfold HoldsWhen
    cases hb : L.getBufferType with
    | systemMemory => simp [verifyBufferAndMemoryLayout]
    | dram => simp [verifyBufferAndMemoryLayout, InterleavedL1]
    | l1 => simp [verifyBufferAndMemoryLayout, InterleavedL1]
    | l1Small => simp [verifyBufferAndMemoryLayout, InterleavedL1]
    | trace => simp [verifyBufferAndMemoryLayout, InterleavedL1]
  | shardedInput grid m =>
    obtain ⟨m, hm⟩ := m
    rw [apply_shardedInput L tensorShape htwo]
    exact good_get_iff _ _ _ _ _ _ (verify_l1 m)
  | shardedBase e grid m =>
    obtain ⟨m, hm⟩ := m
    change Good _ tensorShape ↔ _
    rw [apply_shardedBase L tensorShape htwo]
    exact good_shardedBase_iff tensorShape e L.grid grid hm hvalid.cores

/-- A tensor of `64 × 64` in tiles, block sharded onto four cores. -/
def onFourCores : TTNNLayoutAttr where
  linear := ⟨2, 0, [AffineExpr.dim 0, AffineExpr.dim 1]⟩
  grid := [2, 2]
  memref := ⟨[1, 1], .tile (.get .bfloat16), .l1⟩
  memLayout := some .blockSharded
  verified := rfl

theorem valid_onFourCores : onFourCores.Valid [64, 64] := by
  refine ⟨rfl, rfl, rfl, fun _ => ⟨by decide, by decide⟩, by decide, ?_⟩
  unfold Covers
  decide

/-- Naming another sharded memory layout keeps the layout right. -/
theorem good_onFourCores_heightSharded :
    Good (onFourCores.withMemoryLayout .heightSharded) [64, 64] :=
  (good_iff onFourCores [64, 64] valid_onFourCores (.withMemoryLayout .heightSharded)).mpr
    (by
      change onFourCores.Even [64, 64] [2, 2]
      unfold TTNNLayoutAttr.Even
      decide)

/-- The spill keeps the tile of one of the four cores for the whole tensor. -/
theorem spill_onFourCores_not_good :
    onFourCores.Valid [64, 64] ∧
      get [64, 64] onFourCores.getElementType .l1 [2, 2] (some .blockSharded) [(0, -1)]
        = .ok onFourCores ∧
      ¬ Good (Derivation.spillToDram.apply onFourCores [64, 64]) [64, 64] := by
  refine ⟨valid_onFourCores, by decide +kernel, ?_⟩
  rw [apply_spillToDram onFourCores _ (fun _ => by decide),
    good_reset_iff valid_onFourCores (Or.inl rfl)]
  unfold Whole
  decide

end Derivation

/-! ## Rounding up -/

theorem ceilDiv_le_iff {a k : ℤ} {b : ℕ} (ha : 0 ≤ a) (hb : 0 < b) :
    ceilDiv a b ≤ k ↔ a ≤ b * k := by
  have hb' : (0 : ℤ) < b := Int.natCast_pos.mpr hb
  rw [ceilDiv, Int.tdiv_eq_ediv_of_nonneg (by omega), ← Int.lt_add_one_iff,
    Int.ediv_lt_iff_lt_mul hb']
  have hmul : (k + 1) * b = b * k + b := by ring
  rw [hmul]
  omega

end TTNN
