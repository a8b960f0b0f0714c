/-
# Layouts and tensor specs of the library

The op model asks the library about tensors: `Conversion.cpp` turns a layout into a
`TensorSpec` and the library's answer back into a layout.

* `getTensorSpec`, `getLayoutAttrFromTensorSpec` : the two translated conversions; a tensor
  spec stores the parts it was built from;
* `SameLayout`, `RoundTrips` : the layout that comes back is the one that went out;
* `coreRanges_spec` : the core ranges of a sharded layout determine its grid;
* `roundTrips_iff_shardOfBuilder` : the layouts that come back, exactly;
* `roundTrips_of_get` : the layouts that the optimizer enumerates do.

The way back gives every tensor that is not sharded the grid of the device, and rebuilds the
shard with the builder.
-/
import TTMLIR.CoreRangeSet
import TTMLIR.DecomposeLayouts
import TTMLIR.ShardedLayouts

namespace TTNN

namespace Conversion

open CoreRangeSet MLIR MixedRadix TTNNLayoutAttr

/-! ## Tensor specs -/

/-- The data types of the library. -/
inductive MetalDataType : Type where
  | float32 | bfloat16 | bfloat8B | bfloat4B | uint32 | uint16 | uint8 | int32
  deriving DecidableEq, Repr

/-- `CoreRange`: two corners, both included. -/
structure CoreRange : Type where
  startX : ℤ
  startY : ℤ
  endX : ℤ
  endY : ℤ
  deriving DecidableEq, Repr

/-- `grid_size().y` and `grid_size().x`. -/
def CoreRange.gridSize (r : CoreRange) : ℤ × ℤ := (r.endY - r.startY + 1, r.endX - r.startX + 1)

def CoreRange.size (r : CoreRange) : ℤ := r.gridSize.1 * r.gridSize.2

inductive ShardOrientation : Type where
  | rowMajor | colMajor
  deriving DecidableEq, Repr

structure ShardSpec : Type where
  grid : List CoreRange
  shape : ℕ × ℕ
  orientation : ShardOrientation
  deriving DecidableEq, Repr

/-- `num_cores`. -/
def ShardSpec.numCores (s : ShardSpec) : ℤ := (s.grid.map CoreRange.size).sum

/-- `bounding_box` of a set of core ranges; there is none of the empty set. -/
def boundingBox (ranges : List CoreRange) : Option CoreRange := do
  return ⟨← (ranges.map (·.startX)).min?, ← (ranges.map (·.startY)).min?,
    ← (ranges.map (·.endX)).max?, ← (ranges.map (·.endY)).max?⟩

structure MemoryConfig : Type where
  memoryLayout : TensorMemoryLayout
  bufferType : BufferType
  shardSpec : Option ShardSpec
  deriving DecidableEq, Repr

/-- What a tensor spec stores of its shape and its tensor layout. -/
structure TensorSpec : Type where
  logicalShape : List ℕ
  dataType : MetalDataType
  layout : Layout
  memoryConfig : MemoryConfig
  deriving DecidableEq, Repr

/-! ## From a layout to a tensor spec -/

/-- `getDataType` to the library. -/
def getDataType : DataType → Except String MetalDataType
  | .float32 => .ok .float32
  | .bfloat16 => .ok .bfloat16
  | .bfpBFloat8 => .ok .bfloat8B
  | .bfpBFloat4 => .ok .bfloat4B
  | .uint32 => .ok .uint32
  | .uint16 => .ok .uint16
  | .uint8 => .ok .uint8
  | .int32 => .ok .int32
  | .float16 | .bfpFloat8 | .bfpFloat4 | .bfpFloat2 | .bfpBFloat2 => .error "Invalid element type"

/-- `getDataType` from the library. -/
def MetalDataType.getDataType : MetalDataType → DataType
  | .float32 => .float32
  | .bfloat16 => .bfloat16
  | .bfloat8B => .bfpBFloat8
  | .bfloat4B => .bfpBFloat4
  | .uint32 => .uint32
  | .uint16 => .uint16
  | .uint8 => .uint8
  | .int32 => .int32

/-- `getShape`: the extents as unsigned 32 bit integers. -/
def getShape (shape : List ℕ) : List ℕ := shape.map (· % 2 ^ 32)

/-- `getShardShape`. -/
def getShardShape (L : TTNNLayoutAttr) : Except String (ℕ × ℕ) := do
  match ← L.getScalarShardShape with
  | [h, w] => return ((h % 2 ^ 32).toNat, (w % 2 ^ 32).toNat)
  | _ => return (0, 0)

/-- A rectangle of `toCoreRangeSet` as a core range. -/
def coreRange (r : LocSize2d) : CoreRange :=
  ⟨r.locX, r.locY, r.locX + r.sizeX - 1, r.locY + r.sizeY - 1⟩

/-- `getCoreRangeSet`, for a layout whose grid has the mapping. -/
def getCoreRangeSet (L : TTNNLayoutAttr) (mapping : AffineMap) : Except String (List CoreRange) :=
  if mapping = ⟨0, 0, []⟩ then .error "layout.getGrid().getMapping().isEmpty() == false"
  else
    match toCoreRangeSet L.grid mapping with
    | none => .error "toCoreRangeSet"
    | some ranges => .ok (ranges.map coreRange).dedup

/-- `getShardSpec`. -/
def getShardSpec (L : TTNNLayoutAttr) (mapping : AffineMap) : Except String (Option ShardSpec) :=
  match L.memLayout with
  | none => .error "layout.getMemLayout().getValue()"
  | some m =>
    if m.isSharded then do
      let ranges ← getCoreRangeSet L mapping
      let shardShape ← getShardShape L
      return some ⟨ranges, shardShape, .rowMajor⟩
    else return none

/-- `getMemoryConfig`. -/
def getMemoryConfig (L : TTNNLayoutAttr) (mapping : AffineMap) : Except String MemoryConfig :=
  match L.memLayout with
  | none => .error "layout.getMemLayout().getValue()"
  | some m => do
    let shardSpec ← getShardSpec L mapping
    return ⟨m, L.getBufferType, shardSpec⟩

/-- `getTensorSpec`. -/
def getTensorSpec (shape : List ℕ) (L : TTNNLayoutAttr) (mapping : AffineMap) :
    Except String TensorSpec := do
  let dataType ← getDataType L.getElementType.dataType
  let memoryConfig ← getMemoryConfig L mapping
  return ⟨getShape shape, dataType, L.getElementType.layout, memoryConfig⟩

/-! ## From a tensor spec to a layout -/

/-- `getLogicalGridShape`. -/
def getLogicalGridShape (memoryConfig : MemoryConfig) (gridPhyCores : List ℕ) :
    Except String (List ℕ) :=
  match memoryConfig.memoryLayout, memoryConfig.shardSpec with
  | .heightSharded, some s => .ok [s.numCores.toNat, 1]
  | .widthSharded, some s => .ok [1, s.numCores.toNat]
  | .blockSharded, some s =>
    match boundingBox s.grid with
    | none => .error "bounding_box"
    | some boundingGrid =>
      if s.numCores = boundingGrid.size then
        .ok [boundingGrid.gridSize.1.toNat, boundingGrid.gridSize.2.toNat]
      else .error "memoryConfig.shard_spec()->num_cores() == boundingGrid.size()"
  | .heightSharded, none | .widthSharded, none | .blockSharded, none =>
    .error "memoryConfig.shard_spec().has_value()"
  | .interleaved, _ | .singleBank, _ => .ok [gridPhyCores.getD 0 0, gridPhyCores.getD 1 0]

/-- The shape that the way back lays out: a scalar becomes a matrix. -/
def shapeOrScalar (logicalShape : List ℕ) : List ℕ :=
  if 0 < logicalShape.length then logicalShape else [1, 1]

/-- `getLayoutAttrFromTensorSpec`. -/
def getLayoutAttrFromTensorSpec (spec : TensorSpec) (deviceGrid : List ℕ) :
    Except String TTNNLayoutAttr := do
  let grid ← getLogicalGridShape spec.memoryConfig deviceGrid
  TTNNLayoutAttr.get (shapeOrScalar spec.logicalShape)
    (getElementType spec.layout spec.dataType.getDataType) spec.memoryConfig.bufferType grid
    (some spec.memoryConfig.memoryLayout) [(0, -1)]

/-! ## Round trips -/

/-- Two layouts agree in buffer type, memory layout, page layout, data type, grid and shard. -/
structure SameLayout (L L' : TTNNLayoutAttr) : Prop where
  bufferType : L.getBufferType = L'.getBufferType
  memLayout : L.memLayout = L'.memLayout
  layout : L.getElementType.layout = L'.getElementType.layout
  dataType : L.getElementType.dataType = L'.getElementType.dataType
  grid : L.grid = L'.grid
  shard : L.memref.shape = L'.memref.shape

/-- The grid of the chip. -/
def deviceGrid (chip : Chip) : List ℕ := [chip.height, chip.width]

/-- The mapping that the optimizer gives the grid of a layout. -/
def mappingOf (chip : Chip) (L : TTNNLayoutAttr) : AffineMap :=
  createSingleDeviceVirtualToPhysicalAffineMap (L.memLayout.getD .interleaved) (deviceGrid chip)

/-- **The round trip.**  Both conversions succeed, and the layout that comes back is the same. -/
def RoundTrips (chip : Chip) (shape : List ℕ) (L : TTNNLayoutAttr) : Prop :=
  ∃ spec L', getTensorSpec shape L (mappingOf chip L) = .ok spec ∧
    getLayoutAttrFromTensorSpec spec (deviceGrid chip) = .ok L' ∧ SameLayout L L'

/-- The data types that the library has. -/
def Supported (d : DataType) : Prop :=
  d ∉ [DataType.float16, .bfpFloat8, .bfpFloat4, .bfpFloat2, .bfpBFloat2]

instance (d : DataType) : Decidable (Supported d) := inferInstanceAs (Decidable (_ ∉ _))

/-- The grids that come back: the grid of the device for tensors that are not sharded, and
otherwise a grid of the form that goes with the memory layout. -/
def GridKept (chip : Chip) (m : TensorMemoryLayout) (grid : List ℕ) : Prop :=
  if m.isSharded then VirtualGrid m grid else grid = deviceGrid chip

/-- The shard is the one that the builder computes for the grid and the memory layout. -/
def ShardOfBuilder (shape : List ℕ) (L : TTNNLayoutAttr) : Prop :=
  ∃ B, TTNNLayoutAttr.get (shapeOrScalar (getShape shape)) L.getElementType L.getBufferType L.grid
    L.memLayout [(0, -1)] = .ok B ∧ L.memref.shape = B.memref.shape

/-- Element types as the compiler makes them: tiles have the extents of the hardware, and block
floats only exist in tiles. -/
def StandardElement (e : ElementType) : Prop := e = getElementType e.layout e.dataType

instance (e : ElementType) : Decidable (StandardElement e) := inferInstanceAs (Decidable (_ = _))

/-- Grids have cores, as many along each dimension as their coordinates can number. -/
def HasCores (grid : List ℕ) : Prop := ∀ g ∈ grid, 0 < g ∧ g < 2 ^ 31

/-! ## Core ranges of sharded layouts -/

section CoreRanges

variable {chip : Chip} {m : TensorMemoryLayout} {grid : List ℕ}

/-- Core number `a` of a chip, counted row by row. -/
theorem has_wrapped {n a : ℕ} (hn : n < 2 ^ 31) (ha : a < n) (hwidth : 0 < chip.width) :
    Chip.Has ⟨n, chip.width, hn, chip.width_lt⟩ ⟨(a : ℤ) / chip.width, (a : ℤ) % chip.width⟩ := by
  have hdiv : (a : ℤ) / chip.width < n := by
    exact_mod_cast (Nat.div_le_self a chip.width).trans_lt ha
  have hmod : (a : ℤ) % chip.width < chip.width := by
    exact_mod_cast Nat.mod_lt a hwidth
  refine ⟨?_, hdiv, ?_, hmod⟩
  · exact Int.ediv_nonneg (Int.natCast_nonneg a) (Int.natCast_nonneg _)
  · exact Int.emod_nonneg _ (by omega)

theorem wrapped_inj {a b : ℕ} (hdiv : (a : ℤ) / chip.width = b / chip.width)
    (hmod : (a : ℤ) % chip.width = b % chip.width) : a = b := by
  have ha := Int.mul_ediv_add_emod a chip.width
  rw [hdiv, hmod, Int.mul_ediv_add_emod] at ha
  exact_mod_cast ha.symm

/-- The map of a sharded memory layout sends its virtual grids injectively to cores. -/
theorem exists_mapsInto (hm : m.isSharded) (hgrid : VirtualGrid m grid) (hcores : HasCores grid)
    (hwidth : 0 < chip.width) :
    ∃ c : Chip, MapsInto c grid
      (createSingleDeviceVirtualToPhysicalAffineMap m (deviceGrid chip)) := by
  cases m with
  | interleaved => cases hm
  | singleBank => cases hm
  | heightSharded =>
    obtain ⟨n, rfl⟩ := hgrid
    have hn := (hcores n (by simp)).2
    refine ⟨⟨n, chip.width, hn, chip.width_lt⟩, ?_, ?_⟩
    · rintro coord (_ | ⟨ha, _ | ⟨hb, ⟨⟩⟩⟩)
      exact ⟨_, has_wrapped hn ha hwidth, rfl⟩
    · rintro coord other (_ | ⟨ha, _ | ⟨hb, ⟨⟩⟩⟩) (_ | ⟨hc, _ | ⟨hd, ⟨⟩⟩⟩) heq
      simp [createSingleDeviceVirtualToPhysicalAffineMap, AffineMap.eval, deviceGrid] at heq
      rw [wrapped_inj heq.1 heq.2, Nat.lt_one_iff.mp hb, Nat.lt_one_iff.mp hd]
  | widthSharded =>
    obtain ⟨n, rfl⟩ := hgrid
    have hn := (hcores n (by simp)).2
    refine ⟨⟨n, chip.width, hn, chip.width_lt⟩, ?_, ?_⟩
    · rintro coord (_ | ⟨ha, _ | ⟨hb, ⟨⟩⟩⟩)
      exact ⟨_, has_wrapped hn hb hwidth, rfl⟩
    · rintro coord other (_ | ⟨ha, _ | ⟨hb, ⟨⟩⟩⟩) (_ | ⟨hc, _ | ⟨hd, ⟨⟩⟩⟩) heq
      simp [createSingleDeviceVirtualToPhysicalAffineMap, AffineMap.eval, deviceGrid] at heq
      rw [wrapped_inj heq.1 heq.2, Nat.lt_one_iff.mp ha, Nat.lt_one_iff.mp hc]
  | blockSharded =>
    obtain ⟨h, w, rfl⟩ := hgrid
    refine ⟨⟨h, w, (hcores h (by simp)).2, (hcores w (by simp)).2⟩, ?_, ?_⟩
    · rintro coord (_ | ⟨ha, _ | ⟨hb, ⟨⟩⟩⟩)
      exact ⟨⟨_, _⟩, ⟨by simp, by simp [ha], by simp, by simp [hb]⟩, rfl⟩
    · rintro coord other (_ | ⟨ha, _ | ⟨hb, ⟨⟩⟩⟩) (_ | ⟨hc, _ | ⟨hd, ⟨⟩⟩⟩) heq
      simp [createSingleDeviceVirtualToPhysicalAffineMap, AffineMap.eval] at heq
      rw [heq.1, heq.2]

/-- The rectangles of a sharded grid have the visited cores, each once. -/
theorem toCoreRangeSet_perm (hm : m.isSharded) (hgrid : VirtualGrid m grid)
    (hcores : HasCores grid) (hwidth : 0 < chip.width) :
    ∃ ranges, toCoreRangeSet grid
        (createSingleDeviceVirtualToPhysicalAffineMap m (deviceGrid chip)) = some ranges ∧
      CoreRangeSet.Nonempty ranges ∧ (tiles ranges).Nodup ∧ (tiles ranges).Perm (visitedCores grid
        (createSingleDeviceVirtualToPhysicalAffineMap m (deviceGrid chip))) := by
  obtain ⟨c, hmaps⟩ := exists_mapsInto hm hgrid hcores hwidth
  obtain ⟨hne, hnever⟩ := (coversExactly_iff hmaps).mp
    (coversExactly_createSingleDevice m (deviceGrid chip) grid hgrid hmaps)
  obtain ⟨final, hfinal, hnonempty, hperm⟩ := addCores_perm (hmaps.has_visitedCores hne) hnever
  have hreverse : (tiles final.reverse).Perm (tiles final) :=
    (List.reverse_perm final).flatMap_right cells
  refine ⟨final.reverse, ?_, ?_, ?_, hreverse.trans hperm⟩
  · rw [hmaps.toCoreRangeSet_eq hne, hfinal]
    rfl
  · intro range hrange
    exact hnonempty range (List.mem_reverse.mp hrange)
  · exact (hreverse.trans hperm).nodup_iff.mpr (hmaps.nodup_visitedCores hne)

theorem size_coreRange {r : LocSize2d} (hr : 1 ≤ r.sizeX ∧ 1 ≤ r.sizeY) :
    (coreRange r).size = (cells r).length := by
  have hsize : (coreRange r).size = r.sizeY * r.sizeX := by
    simp only [CoreRange.size, CoreRange.gridSize, coreRange]
    ring
  rw [hsize, length_cells, Nat.cast_mul, Int.toNat_of_nonneg (by omega),
    Int.toNat_of_nonneg (by omega)]

variable {ranges : List LocSize2d}

/-- Rectangles without common cores are different core ranges. -/
theorem nodup_coreRanges (hne : CoreRangeSet.Nonempty ranges)
    (hnodup : (tiles ranges).Nodup) : (ranges.map coreRange).Nodup := by
  apply List.Nodup.map_on
  · intro a _ b _ hab
    obtain ⟨hx, hy, hx', hy'⟩ := (CoreRange.mk.injEq ..).mp hab
    obtain ⟨ax, ay, aw, ah⟩ := a
    obtain ⟨bx, by', bw, bh⟩ := b
    simp only at hx hy hx' hy'
    rw [LocSize2d.mk.injEq]
    omega
  · apply List.Pairwise.imp_of_mem _ (List.nodup_flatMap.mp hnodup).2
    intro a b ha _ hab heq
    obtain ⟨hx, hy⟩ := hne a ha
    have hcorner : (⟨a.locY, a.locX⟩ : Core) ∈ cells a :=
      (mem_cells _ _).mpr ⟨le_refl _, by show a.locY < _; omega, le_refl _, by
        show a.locX < _; omega⟩
    exact hab hcorner (heq ▸ hcorner)

theorem sum_size (hne : CoreRangeSet.Nonempty ranges) :
    ((ranges.map coreRange).map CoreRange.size).sum = (tiles ranges).length := by
  induction ranges with
  | nil => rfl
  | cons r ranges ih =>
    rw [List.map_cons, List.map_cons, List.sum_cons, tiles_cons, List.length_append, Nat.cast_add,
      size_coreRange (hne r (by simp)), ih fun s hs => hne s (by simp [hs])]

theorem length_visitedCores (hne : grid ≠ []) (mapping : AffineMap) :
    (visitedCores grid mapping).length = grid.prod := by
  rw [visitedCores, List.length_map, sample_eq hne, List.length_map, List.length_range]

/-- The bounding box of rectangles that fill the rectangle of `h` by `w` cores at the origin. -/
theorem boundingBox_of_fill {h w : ℕ} (hh : 0 < h) (hw : 0 < w)
    (hne : CoreRangeSet.Nonempty ranges) (hfill : ∀ core, core ∈ tiles ranges ↔
      0 ≤ core.y ∧ core.y < h ∧ 0 ≤ core.x ∧ core.x < w) :
    boundingBox (ranges.map coreRange) = some ⟨0, 0, w - 1, h - 1⟩ := by
  have hmem : ∀ core : Core, core ∈ tiles ranges ↔ ∃ r ∈ ranges, core ∈ region r := by
    intro core
    simp only [tiles, List.mem_flatMap, mem_cells]
  -- both corners of every rectangle lie in the filled one
  have hwithin : ∀ r ∈ ranges, 0 ≤ r.locX ∧ 0 ≤ r.locY ∧ r.locX + r.sizeX ≤ w ∧
      r.locY + r.sizeY ≤ h := by
    intro r hr
    obtain ⟨hx, hy⟩ := hne r hr
    obtain ⟨hy0, -, hx0, -⟩ := (hfill ⟨r.locY, r.locX⟩).mp ((hmem _).mpr
      ⟨r, hr, le_refl _, by show r.locY < _; omega, le_refl _, by show r.locX < _; omega⟩)
    obtain ⟨-, hy1, -, hx1⟩ := (hfill ⟨r.locY + r.sizeY - 1, r.locX + r.sizeX - 1⟩).mp
      ((hmem _).mpr ⟨r, hr, by show _ ≤ r.locY + _ - 1; omega, by show r.locY + _ - 1 < _; omega,
        by show _ ≤ r.locX + _ - 1; omega, by show r.locX + _ - 1 < _; omega⟩)
    simp only at hy0 hx0 hy1 hx1
    omega
  obtain ⟨first, hfirst, hy, -, hx, -⟩ := (hmem ⟨0, 0⟩).mp ((hfill _).mpr (by
    simp only
    omega))
  obtain ⟨last, hlast, -, hy', -, hx'⟩ := (hmem ⟨h - 1, w - 1⟩).mp ((hfill _).mpr (by
    simp only
    omega))
  simp only at hy hx hy' hx'
  have hin := hwithin first hfirst
  have hin' := hwithin last hlast
  have hstartX : ((ranges.map coreRange).map (·.startX)).min? = some 0 := by
    simp only [List.min?_eq_some_iff, List.map_map, List.mem_map, forall_exists_index, and_imp,
      forall_apply_eq_imp_iff₂]
    exact ⟨⟨first, hfirst, by show first.locX = 0; omega⟩, fun r hr => (hwithin r hr).1⟩
  have hstartY : ((ranges.map coreRange).map (·.startY)).min? = some 0 := by
    simp only [List.min?_eq_some_iff, List.map_map, List.mem_map, forall_exists_index, and_imp,
      forall_apply_eq_imp_iff₂]
    exact ⟨⟨first, hfirst, by show first.locY = 0; omega⟩, fun r hr => (hwithin r hr).2.1⟩
  have hendX : ((ranges.map coreRange).map (·.endX)).max? = some ((w : ℤ) - 1) := by
    simp only [List.max?_eq_some_iff, List.map_map, List.mem_map, forall_exists_index, and_imp,
      forall_apply_eq_imp_iff₂]
    refine ⟨⟨last, hlast, by show last.locX + last.sizeX - 1 = _; omega⟩, fun r hr => ?_⟩
    have := hwithin r hr
    show r.locX + r.sizeX - 1 ≤ _
    omega
  have hendY : ((ranges.map coreRange).map (·.endY)).max? = some ((h : ℤ) - 1) := by
    simp only [List.max?_eq_some_iff, List.map_map, List.mem_map, forall_exists_index, and_imp,
      forall_apply_eq_imp_iff₂]
    refine ⟨⟨last, hlast, by show last.locY + last.sizeY - 1 = _; omega⟩, fun r hr => ?_⟩
    have := hwithin r hr
    show r.locY + r.sizeY - 1 ≤ _
    omega
  simp only [boundingBox, hstartX, hstartY, hendX, hendY, Option.bind_eq_bind, Option.bind_some,
    Option.pure_def]

/-- The cores of a block sharded grid. -/
theorem mem_visitedCores_blockSharded (h w : ℕ) (core : Core) : core ∈ visitedCores [h, w]
        (createSingleDeviceVirtualToPhysicalAffineMap .blockSharded (deviceGrid chip)) ↔
      0 ≤ core.y ∧ core.y < h ∧ 0 ≤ core.x ∧ core.x < w := by
  simp only [visitedCores, List.mem_map, mem_sample (List.cons_ne_nil h [w])]
  constructor
  · rintro ⟨coord, _ | ⟨ha, _ | ⟨hb, ⟨⟩⟩⟩, rfl⟩
    exact ⟨Int.natCast_nonneg _, Int.ofNat_lt.mpr ha, Int.natCast_nonneg _, Int.ofNat_lt.mpr hb⟩
  · obtain ⟨y, x⟩ := core
    rintro ⟨hy, hyh, hx, hxw⟩
    obtain ⟨a, rfl⟩ := Int.eq_ofNat_of_zero_le hy
    obtain ⟨b, rfl⟩ := Int.eq_ofNat_of_zero_le hx
    exact ⟨[a, b], .cons (Int.ofNat_lt.mp hyh) (.cons (Int.ofNat_lt.mp hxw) .nil), rfl⟩

/-- **Core ranges.**  They have as many cores as the grid, and the box of a block sharded grid
is the grid. -/
theorem coreRanges_spec {L : TTNNLayoutAttr} (hlayout : L.memLayout = some m)
    (hm : m.isSharded) (hgrid : VirtualGrid m L.grid) (hcores : HasCores L.grid)
    (hwidth : 0 < chip.width) :
    ∃ ranges, getCoreRangeSet L (mappingOf chip L) = .ok ranges ∧
      (ranges.map CoreRange.size).sum = L.grid.prod ∧
      ∀ h w, m = .blockSharded → L.grid = [h, w] →
        boundingBox ranges = some ⟨0, 0, w - 1, h - 1⟩ := by
  obtain ⟨ranges, hranges, hne, hnodup, hperm⟩ := toCoreRangeSet_perm hm hgrid hcores hwidth
  have hmapping : mappingOf chip L
      = createSingleDeviceVirtualToPhysicalAffineMap m (deviceGrid chip) := by
    rw [mappingOf, hlayout, Option.getD_some]
  have hnonempty : mappingOf chip L ≠ ⟨0, 0, []⟩ := by
    rw [hmapping]
    cases m <;> simp [createSingleDeviceVirtualToPhysicalAffineMap]
  have hgridne : L.grid ≠ [] := by
    intro hnil
    rw [hnil] at hgrid
    cases m <;> simp [VirtualGrid] at hgrid
  refine ⟨ranges.map coreRange, ?_, ?_, ?_⟩
  · rw [getCoreRangeSet, if_neg hnonempty, hmapping, hranges]
    exact congrArg Except.ok (nodup_coreRanges hne hnodup).dedup
  · rw [sum_size hne, hperm.length_eq, length_visitedCores hgridne]
  · intro h w hblock hhw
    rw [hhw] at hcores
    apply boundingBox_of_fill (hcores h (by simp)).1 (hcores w (by simp)).1 hne
    intro core
    rw [hperm.mem_iff, hhw, hblock, mem_visitedCores_blockSharded]

end CoreRanges

/-! ## The conversions, one by one -/

theorem getDataType_of_eq_ok {d : DataType} {metal : MetalDataType}
    (h : getDataType d = .ok metal) : metal.getDataType = d := by
  cases d <;> cases h <;> rfl

theorem supported_iff (d : DataType) : Supported d ↔ ∃ metal, getDataType d = .ok metal := by
  cases d <;> simp [Supported, getDataType]

variable {L : TTNNLayoutAttr}

/-- The parts of a tensor spec. -/
theorem getTensorSpec_eq_ok_iff {shape : List ℕ} {mapping : AffineMap} {spec : TensorSpec} :
    getTensorSpec shape L mapping = .ok spec ↔ ∃ metal m shardSpec,
      getDataType L.getElementType.dataType = .ok metal ∧ L.memLayout = some m ∧
        getShardSpec L mapping = .ok shardSpec ∧
        spec = ⟨getShape shape, metal, L.getElementType.layout, ⟨m, L.getBufferType, shardSpec⟩⟩ := by
  unfold getTensorSpec getMemoryConfig
  simp only [except_bind_eq_ok]
  constructor
  · rintro ⟨metal, hmetal, memoryConfig, hconfig, hspec⟩
    obtain rfl := Except.ok.inj hspec
    cases hm : L.memLayout with
    | none =>
      rw [hm] at hconfig
      cases hconfig
    | some m =>
      rw [hm] at hconfig
      obtain ⟨shardSpec, hshard, hconfig⟩ := except_bind_eq_ok.mp hconfig
      obtain rfl := Except.ok.inj hconfig
      exact ⟨metal, m, shardSpec, hmetal, rfl, hshard, rfl⟩
  · rintro ⟨metal, m, shardSpec, hmetal, hm, hshard, rfl⟩
    refine ⟨metal, hmetal, ⟨m, L.getBufferType, shardSpec⟩, ?_, rfl⟩
    rw [hm]
    exact except_bind_eq_ok.mpr ⟨shardSpec, hshard, rfl⟩

/-- Every grid that comes back has the form that goes with its memory layout. -/
theorem gridKept_of_getLogicalGridShape {chip : Chip} {memoryConfig : MemoryConfig}
    {grid : List ℕ} (h : getLogicalGridShape memoryConfig (deviceGrid chip) = .ok grid) :
    GridKept chip memoryConfig.memoryLayout grid := by
  obtain ⟨m, bufferType, shardSpec⟩ := memoryConfig
  cases m with
  | interleaved | singleBank => exact (Except.ok.inj h).symm
  | heightSharded | widthSharded =>
    cases shardSpec with
    | none => cases h
    | some s => exact ⟨_, (Except.ok.inj h).symm⟩
  | blockSharded =>
    cases shardSpec with
    | none => cases h
    | some s =>
      rw [getLogicalGridShape] at h
      dsimp only at h
      split at h
      · cases h
      · split_ifs at h
        exact ⟨_, _, (Except.ok.inj h).symm⟩

/-- The shard shape can be read off every layout of a virtual grid. -/
theorem exists_getShardShape (hrank : L.isTiled → 2 ≤ L.memref.shape.length) :
    ∃ shardShape, getShardShape L = .ok shardShape := by
  have hscalar : ∃ scalar, L.getScalarShardShape = .ok scalar := by
    unfold getScalarShardShape
    cases he : L.getElementType with
    | scalar d => exact ⟨_, rfl⟩
    | tile t =>
      have htwo : 2 ≤ (L.memref.shape.map (Nat.cast : ℕ → ℤ)).length := by
        rw [List.length_map]
        exact hrank (by rw [isTiled, he]; rfl)
      exact ⟨_, if_pos htwo⟩
  obtain ⟨scalar, hscalar⟩ := hscalar
  unfold getShardShape
  simp only [except_bind_eq_ok, hscalar]
  refine exists_comm.mp ⟨scalar, ?_⟩
  split
  · exact ⟨_, rfl, rfl⟩
  · exact ⟨_, rfl, rfl⟩

/-- **The grid comes back** where it has the form that goes with the memory layout. -/
theorem exists_getShardSpec {chip : Chip} {m : TensorMemoryLayout}
    (hlayout : L.memLayout = some m) (hkept : GridKept chip m L.grid) (hcores : HasCores L.grid)
    (hrank : m.isSharded → L.isTiled → 2 ≤ L.memref.shape.length) (hwidth : 0 < chip.width) :
    ∃ shardSpec, getShardSpec L (mappingOf chip L) = .ok shardSpec ∧
      getLogicalGridShape ⟨m, L.getBufferType, shardSpec⟩ (deviceGrid chip) = .ok L.grid := by
  rw [getShardSpec, hlayout]
  dsimp only
  split_ifs with hm
  · rw [GridKept, if_pos hm] at hkept
    obtain ⟨ranges, hranges, hsum, hbox⟩ := coreRanges_spec hlayout hm hkept hcores hwidth
    obtain ⟨shardShape, hshape⟩ := exists_getShardShape (hrank hm)
    refine ⟨some ⟨ranges, shardShape, .rowMajor⟩, ?_, ?_⟩
    · rw [hranges, hshape]
      rfl
    · cases m with
      | interleaved | singleBank => cases hm
      | heightSharded =>
        obtain ⟨n, hn⟩ := hkept
        rw [hn] at hsum
        simp only [getLogicalGridShape, ShardSpec.numCores, hsum, hn]
        simp
      | widthSharded =>
        obtain ⟨n, hn⟩ := hkept
        rw [hn] at hsum
        simp only [getLogicalGridShape, ShardSpec.numCores, hsum, hn]
        simp
      | blockSharded =>
        obtain ⟨h, w, hhw⟩ := hkept
        rw [hhw] at hsum
        simp only [getLogicalGridShape, ShardSpec.numCores, hsum, hbox h w rfl hhw, hhw,
          CoreRange.size, CoreRange.gridSize]
        simp
  · rw [GridKept, if_neg hm] at hkept
    refine ⟨none, rfl, ?_⟩
    rw [hkept]
    cases m with
    | interleaved | singleBank => rfl
    | heightSharded | widthSharded | blockSharded => exact absurd rfl hm

/-! ## Which layouts come back -/

section Main

variable {chip : Chip} {shape : List ℕ} {L : TTNNLayoutAttr}

/-- A layout that comes back has a data type of the library, a memory layout, a grid of its form
and the shard of the builder. -/
theorem parts_of_roundTrips (hstandard : StandardElement L.getElementType)
    (h : RoundTrips chip shape L) :
    Supported L.getElementType.dataType ∧
      (∃ m, L.memLayout = some m ∧ GridKept chip m L.grid) ∧ ShardOfBuilder shape L := by
  obtain ⟨spec, L', hspec, hback, hsame⟩ := h
  obtain ⟨metal, m, shardSpec, hmetal, hm, -, rfl⟩ := getTensorSpec_eq_ok_iff.mp hspec
  obtain ⟨grid, hgrid, hget⟩ := except_bind_eq_ok.mp hback
  dsimp only at hget
  rw [getDataType_of_eq_ok hmetal, ← hstandard, ← hm] at hget
  obtain rfl : grid = L.grid :=
    ((get_eq_ok_iff _ _ _ _ _ _ _).mp hget).2.2.2.1.symm.trans hsame.grid.symm
  exact ⟨(supported_iff _).mpr ⟨metal, hmetal⟩, ⟨m, hm, gridKept_of_getLogicalGridShape hgrid⟩,
    L', hget, hsame.shard⟩

/-- These are enough. -/
theorem roundTrips_of_parts (hstandard : StandardElement L.getElementType)
    (hcores : HasCores L.grid) (hwidth : 0 < chip.width) {m : TensorMemoryLayout}
    (hrank : m.isSharded → L.isTiled → 2 ≤ L.memref.shape.length)
    (hsupported : Supported L.getElementType.dataType) (hm : L.memLayout = some m)
    (hkept : GridKept chip m L.grid) (hshard : ShardOfBuilder shape L) :
    RoundTrips chip shape L := by
  obtain ⟨metal, hmetal⟩ := (supported_iff _).mp hsupported
  obtain ⟨shardSpec, hspec, hgrid⟩ := exists_getShardSpec hm hkept hcores hrank hwidth
  obtain ⟨B, hB, hshape⟩ := hshard
  obtain ⟨helement, hbuffer, hgridB, hmB⟩ := parts_of_get hB
  refine ⟨_, B, getTensorSpec_eq_ok_iff.mpr ⟨metal, m, shardSpec, hmetal, hm, hspec, rfl⟩, ?_,
    hbuffer.symm, hmB.symm, by rw [helement], by rw [helement], hgridB.symm, hshape⟩
  refine except_bind_eq_ok.mpr ⟨L.grid, hgrid, ?_⟩
  rw [getDataType_of_eq_ok hmetal, ← hstandard, ← hm]
  exact hB

/-- **Which layouts come back.**  A valid layout comes back if and only if the library has its
data type, it has a memory layout, its grid is the one of the device or, for sharded tensors, of
the form that goes with the memory layout, and its shard is the one of the builder. -/
theorem roundTrips_iff_shardOfBuilder (hstandard : StandardElement L.getElementType)
    (hvalid : L.Valid shape) (hcores : HasCores L.grid) (hwidth : 0 < chip.width) :
    RoundTrips chip shape L ↔ Supported L.getElementType.dataType ∧
      (∃ m, L.memLayout = some m ∧ GridKept chip m L.grid) ∧ ShardOfBuilder shape L := by
  constructor
  · exact parts_of_roundTrips hstandard
  · rintro ⟨hsupported, ⟨m, hm, hkept⟩, hshard⟩
    apply roundTrips_of_parts hstandard hcores hwidth _ hsupported hm hkept hshard
    intro _ htiled
    rw [hvalid.shard]
    exact (hvalid.tiled htiled).1

/-- Sixty-four by sixty-four elements on four cores come back. -/
theorem onFourCores_roundTrips : RoundTrips chip8x8 [64, 64] Derivation.onFourCores := by
  apply (roundTrips_iff_shardOfBuilder (by decide) Derivation.valid_onFourCores _ (by decide)).mpr
  · refine ⟨by decide, ⟨.blockSharded, rfl, 2, 2, rfl⟩, Derivation.onFourCores, ?_, rfl⟩
    decide +kernel
  · unfold HasCores
    decide

/-- A tile on one core, and where the optimizer assumes it in memory. -/
def onOneCore : TTNNLayoutAttr where
  linear := ⟨2, 0, [AffineExpr.dim 0, AffineExpr.dim 1]⟩
  grid := [1, 1]
  memref := ⟨[1, 1], .tile (.get .bfloat16), .dram⟩
  memLayout := some .interleaved
  verified := rfl

/-- **A tensor that is spilled to memory** is on a grid of one core; it comes back on the grid of
the device. -/
theorem onOneCore_not_roundTrips :
    (TTNNLayoutAttr.get [32, 32] onOneCore.getElementType .l1 [1, 1] (some .blockSharded) [(0, -1)]
      >>= fun sharded => Derivation.spillToDram.apply sharded [32, 32]) = .ok onOneCore ∧
      onOneCore.Valid [32, 32] ∧ ¬ RoundTrips chip8x8 [32, 32] onOneCore := by
  refine ⟨by decide +kernel, ?_, ?_⟩
  · refine ⟨rfl, rfl, rfl, fun _ => ⟨by decide, by decide⟩, by decide, ?_⟩
    unfold TTNNLayoutAttr.Covers
    decide
  · intro h
    obtain ⟨-, ⟨m, hm, hkept⟩, -⟩ := parts_of_roundTrips (by decide) h
    cases hm
    exact absurd (show onOneCore.grid = deviceGrid chip8x8 from hkept) (by decide)

/-- **Layouts of the builder.**  The layouts that the optimizer enumerates are built on a grid
that comes back; those with a data type of the library come back. -/
theorem roundTrips_of_get {e : ElementType} {b : BufferType} {m : TensorMemoryLayout}
    {grid : List ℕ} (hstandard : StandardElement e) (hsupported : Supported e.dataType)
    (hkept : GridKept chip m grid) (hcores : HasCores grid) (hwidth : 0 < chip.width)
    (hrank : shape ≠ []) (hextents : ∀ n ∈ shape, n < 2 ^ 32)
    (hL : TTNNLayoutAttr.get shape e b grid (some m) [(0, -1)] = .ok L) :
    RoundTrips chip shape L := by
  have hshape : shapeOrScalar (getShape shape) = shape := by
    have hcast : getShape shape = shape := by
      rw [getShape, List.map_congr_left fun n hn => Nat.mod_eq_of_lt (hextents n hn), List.map_id']
    rw [hcast, shapeOrScalar, if_pos (List.length_pos_of_ne_nil hrank)]
  obtain ⟨rfl, rfl, rfl, hm⟩ := parts_of_get hL
  apply roundTrips_of_parts hstandard hcores hwidth _ hsupported hm hkept
  · rw [ShardOfBuilder, hshape, hm]
    exact ⟨L, hL, rfl⟩
  · intro hsharded htiled
    have hnot : ¬ InterleavedL1 L.getBufferType (some m) := by
      rintro ⟨-, h⟩
      cases h
      cases hsharded
    obtain ⟨hvalid, -⟩ := good_of_get hnot (fun g hg => (hcores g hg).1) hL
    rw [hvalid.shard]
    exact (hvalid.tiled htiled).1

/-- The builder makes the layout on four cores, so it comes back. -/
theorem onFourCores_roundTrips_of_get : RoundTrips chip8x8 [64, 64] Derivation.onFourCores :=
  @roundTrips_of_get _ _ _ Derivation.onFourCores.getElementType .l1 .blockSharded [2, 2]
    (by decide) (by decide) ⟨2, 2, rfl⟩ (by unfold HasCores; decide) (by decide) (by decide)
    (by decide) (by decide +kernel)

end Main

end Conversion

end TTNN
