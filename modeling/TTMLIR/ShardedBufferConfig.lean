/-
# Sharded buffers of TTMetal programs

`memrefTypeToShardedBufferConfigFlatbuffer` of `TTMetalToFlatbuffer.cpp` describes a memref with a
shard layout to the runtime: its size and page size in bytes, the shape of a shard and of a page,
the number of pages, and the cores.

* `ShardedMemref` : the memref, with the worker grid and the memory map of its device;
* `memrefTypeToShardedBufferConfigFlatbuffer` : the translated function, with its 32-bit numbers;
* `Consistent` : the numbers and the cores fit together;
* `Coherent` : what that takes of a memref;
* `consistent_iff` : a memref has a consistent description exactly when it is coherent.

The size counts the rectangle around the cores and every buffer of a shard; the pages count neither.
-/
import TTMLIR.CoreRangeSet

open MLIR MixedRadix CoreRangeSet Fallible

namespace ShardedBuffer

/-! ## The memref -/

/-- A memref with a shard layout.  Its grid is on the cores of a chip, by the mapping of the worker
grid; `memoryMap` is the map of its memory space, with the symbols replaced. -/
structure ShardedMemref : Type where
  gridShape : List ℕ
  shardShape : List ℕ
  stride : List ℕ
  buffers : ℕ
  elementSizeBytes : ℕ
  tileY : ℕ
  tileX : ℕ
  chip : Chip
  mapping : AffineMap
  memoryMap : AffineMap
  length_gridShape : gridShape.length = stride.length
  length_shardShape : shardShape.length = stride.length
  mapsInto : MapsInto chip gridShape mapping
  gridShape_pos : 0 < gridShape.prod
  tileY_pos : 0 < tileY
  tileX_pos : 0 < tileX
  shardBytes_pos : 0 < shardShape.prod * (elementSizeBytes * buffers)

namespace ShardedMemref

variable (m : ShardedMemref)

/-- The bytes of a shard on its core, with all its buffers. -/
def shardBytes : ℕ := m.shardShape.prod * (m.elementSizeBytes * m.buffers)

/-- The byte offset of an element in its shard, by the strides. -/
def byteOffset (idx : List ℕ) : ℕ := (List.zipWith (· * ·) idx m.stride).sum

/-- The cores that the memory map sends grid coordinates to. -/
def memoryCores : Set Core :=
  {core | ∃ coord idx address, InShape coord m.gridShape ∧ InShape idx m.shardShape ∧
    m.memoryMap.eval ((coord ++ [m.byteOffset idx]).map Nat.cast) []
      = [0, core.y, core.x, address]}

end ShardedMemref

/-- `createL1Map`, with the base offset in the place of its symbol. -/
def createL1Map (workerMap : AffineMap) (baseOffset : ℕ) : AffineMap :=
  ⟨workerMap.numDims + 1, 0,
    workerMap.results ++ [AffineExpr.constant baseOffset + .dim workerMap.numDims]⟩

/-! ## The translated function -/

/-- How the function goes wrong: an access past the end of a list, a division by zero, a signed
number that overflows, an assertion. -/
inductive Stop : Type where
  | outOfRange | divisionByZero | overflow | assertion
  deriving DecidableEq

/-- `target::Dim2d`. -/
structure Dim2d : Type where
  y : ℤ
  x : ℤ
  deriving DecidableEq

/-- `target::metal::ShardedBufferConfig`, with the shard specification in it. -/
structure ShardedBufferConfig : Type where
  size : ℤ
  pageSize : ℤ
  coreRangeSet : List LocSize2d
  shardShape : Dim2d
  pageShape : Dim2d
  tensorShapeInPages : Dim2d
  deriving DecidableEq

/-- The entry of a list that is `k` places in front of its end. -/
def fromBack (l : List ℕ) (k : ℕ) : Except Stop ℕ :=
  if k ≤ l.length then .ok (l.getD (l.length - k) 0) else .error .outOfRange

/-- A signed result of some bits. -/
def signed (bits : ℕ) (z : ℤ) : Except Stop ℤ :=
  if -2 ^ (bits - 1) ≤ z ∧ z < 2 ^ (bits - 1) then .ok z else .error .overflow

/-- Division of integers. -/
def quotient (a b : ℤ) : Except Stop ℤ :=
  if b = 0 then .error .divisionByZero else .ok (a.tdiv b)

/-- `assert`. -/
def check (p : Prop) [Decidable p] : Except Stop Unit :=
  if p then .ok () else .error .assertion

/-- A maximum that starts from zero. -/
def extent {α : Type} (f : α → ℤ) (l : List α) : ℤ := l.foldl (fun e a => max e (f a)) 0

/-- `calculateCoreRangeSetShapeExtents`: the rows and the columns. -/
def calculateCoreRangeSetShapeExtents (ranges : List LocSize2d) : ℤ × ℤ :=
  (extent (fun range => range.locY + range.sizeY) ranges,
    extent (fun range => range.locX + range.sizeX) ranges)

/-- `getMemrefSizeBytes`, with the buffers. -/
def getMemrefSizeBytes (m : ShardedMemref) : Except Stop ℤ := signed 64 m.shardBytes

/-- `memrefTypeToShardedBufferConfigFlatbuffer`. -/
def memrefTypeToShardedBufferConfigFlatbuffer (m : ShardedMemref) :
    Except Stop ShardedBufferConfig := do
  let shardSize ← getMemrefSizeBytes m
  let elementSize ← fromBack m.stride 1
  let coreRangeSet ← (toCoreRangeSet m.gridShape m.mapping).elim (.error .assertion) .ok
  let (rows, columns) := calculateCoreRangeSetShapeExtents coreRangeSet
  let gridVolume ← signed 32 (rows * columns)
  -- unsigned 64-bit numbers wrap around
  let size := gridVolume * shardSize % 2 ^ 64
  let inner ← fromBack m.stride 2
  let shardXTiles := int32Cast (← quotient inner elementSize)
  let outerBytes ← signed 64 (m.shardShape.headD 0 * m.stride.headD 0)
  let shardTiles ← quotient outerBytes elementSize
  let collapsed ← quotient shardTiles shardXTiles
  check (shardTiles.tmod shardXTiles = 0)
  let collapsedShardYTiles := int32Cast collapsed
  let shardShape : Dim2d :=
    ⟨← signed 32 (collapsedShardYTiles * m.tileY), ← signed 32 (shardXTiles * m.tileX)⟩
  let pageShape : Dim2d := ⟨m.tileY, shardShape.x⟩
  let tensorShape : Dim2d :=
    ⟨← signed 32 (rows * shardShape.y), ← signed 32 (columns * shardShape.x)⟩
  check (tensorShape.y.tmod pageShape.y = 0)
  check (tensorShape.x.tmod pageShape.x = 0)
  let tensorShapeInPages : Dim2d :=
    ⟨tensorShape.y.tdiv pageShape.y, tensorShape.x.tdiv pageShape.x⟩
  let pageShapeInTiles : Dim2d := ⟨pageShape.y.tdiv m.tileY, pageShape.x.tdiv m.tileX⟩
  let pageTiles ← signed 32 (pageShapeInTiles.y * pageShapeInTiles.x)
  let pageSize ← signed 64 (pageTiles * elementSize)
  return ⟨size, pageSize % 2 ^ 64, coreRangeSet, shardShape, pageShape, tensorShapeInPages⟩

/-! ## What has to hold -/

namespace ShardedMemref

variable (m : ShardedMemref)

/-- The stride of the elements. -/
def elementStride : ℕ := m.stride.getD (m.stride.length - 1) 0

/-- The elements of a row of a shard. -/
def rowTiles : ℕ := m.stride.getD (m.stride.length - 2) 0 / m.elementStride

/-- The elements of a shard, by the outermost stride. -/
def shardTiles : ℕ := m.shardShape.headD 0 * m.stride.headD 0 / m.elementStride

/-- The cores of the grid. -/
def cores : List Core := visitedCores m.gridShape m.mapping

/-- The rows of the rectangle around the cores. -/
def rows : ℤ := extent (fun core => core.y + 1) m.cores

/-- Its columns. -/
def columns : ℤ := extent (fun core => core.x + 1) m.cores

end ShardedMemref

/-- **A consistent description.** -/
structure Consistent (m : ShardedMemref) (config : ShardedBufferConfig) : Prop where
  /-- The pages are the whole size. -/
  size_pages : config.size
    = config.pageSize * (config.tensorShapeInPages.y * config.tensorShapeInPages.x)
  /-- Every core has its bytes. -/
  size_cores : config.size = m.gridShape.prod * m.shardBytes
  /-- The shard, collapsed to two dimensions: `[d0 * ... * dN-2, dN-1]`. -/
  collapsed : config.shardShape = ⟨(m.shardTiles / m.rowTiles : ℕ) * m.tileY, m.rowTiles * m.tileX⟩
  /-- A page is a row of tiles of a shard. -/
  page : config.pageShape = ⟨m.tileY, config.shardShape.x⟩
  /-- The pages of a shard are its bytes. -/
  pages : config.shardShape.y / config.pageShape.y * config.pageSize = m.shardBytes
  /-- The cores are those of the memory map. -/
  cores : CoversExactly config.coreRangeSet m.memoryCores

/-- **Memrefs that have one.** -/
structure Coherent (m : ShardedMemref) : Prop where
  /-- There is a stride in front of the last one. -/
  rank : 2 ≤ m.stride.length
  elementStride_pos : 0 < m.elementStride
  rowTiles_pos : 0 < m.rowTiles
  rowTiles_dvd : m.rowTiles ∣ m.shardTiles
  /-- The elements of one buffer, without padding, are all the bytes of a shard. -/
  bytes : m.shardTiles * m.elementStride = m.shardBytes
  /-- The core ranges come out right. -/
  straight : NeverWidensTall m.cores
  /-- The cores fill the rectangle from the first core of the chip. -/
  full : m.rows * m.columns = m.gridShape.prod
  /-- The memory map agrees with the worker grid. -/
  memory : m.memoryCores = mappedCores m.gridShape m.mapping
  /-- The numbers fit into their types. -/
  fits_shard : m.shardBytes < 2 ^ 63
  fits_outer : m.shardShape.headD 0 * m.stride.headD 0 < 2 ^ 63
  fits_size : m.gridShape.prod * m.shardBytes < 2 ^ 64
  fits_grid : m.gridShape.prod < 2 ^ 31
  fits_height : m.rows * ((m.shardTiles / m.rowTiles : ℕ) * m.tileY) < 2 ^ 31
  fits_width : m.columns * (m.rowTiles * m.tileX) < 2 ^ 31

/-! ## Steps that succeed -/

theorem fromBack_eq_ok {l : List ℕ} {k n : ℕ} :
    fromBack l k = .ok n ↔ k ≤ l.length ∧ l.getD (l.length - k) 0 = n := by
  rw [fromBack]
  split_ifs with h <;> simp [h]

theorem signed_eq_ok {bits : ℕ} {z w : ℤ} :
    signed bits z = .ok w ↔ (-2 ^ (bits - 1) ≤ z ∧ z < 2 ^ (bits - 1)) ∧ z = w := by
  rw [signed]
  split_ifs with h <;> simp [h]

theorem quotient_eq_ok {a b q : ℤ} : quotient a b = .ok q ↔ b ≠ 0 ∧ a.tdiv b = q := by
  rw [quotient]
  split_ifs with h <;> simp [h]

theorem check_eq_ok {p : Prop} [Decidable p] {u : Unit} : check p = .ok u ↔ p := by
  rw [check]
  split_ifs with h <;> simp [h]

variable {α : Type}

theorem elim_eq_ok {o : Option α} {a : α} :
    o.elim (Except.error Stop.assertion) .ok = .ok a ↔ o = some a := by
  cases o <;> simp

/-! ## The rectangle around the cores -/

/-- A running maximum is bounded when its start and all elements are. -/
theorem foldl_max_le (f : α → ℤ) (l : List α) (a b : ℤ) :
    l.foldl (fun e a => max e (f a)) a ≤ b ↔ a ≤ b ∧ ∀ c ∈ l, f c ≤ b := by
  induction l generalizing a with
  | nil => simp
  | cons c l ih =>
    rw [List.foldl_cons, ih, max_le_iff, List.forall_mem_cons, and_assoc]

theorem extent_le {f : α → ℤ} {l : List α} {b : ℤ} : extent f l ≤ b ↔ 0 ≤ b ∧ ∀ a ∈ l, f a ≤ b :=
  foldl_max_le f l 0 b

theorem extent_nonneg (f : α → ℤ) (l : List α) : 0 ≤ extent f l := (extent_le.mp le_rfl).1

theorem le_extent {f : α → ℤ} {l : List α} {a : α} (ha : a ∈ l) : f a ≤ extent f l :=
  (extent_le.mp le_rfl).2 a ha

theorem extent_congr {α β : Type} {f : α → ℤ} {g : β → ℤ} {l : List α} {l' : List β}
    (h : ∀ b, (∀ a ∈ l, f a ≤ b) ↔ ∀ a ∈ l', g a ≤ b) : extent f l = extent g l' := by
  apply le_antisymm
  · exact extent_le.mpr ⟨extent_nonneg g l', (h _).mpr fun a => le_extent⟩
  · exact extent_le.mpr ⟨extent_nonneg f l, (h _).mp fun a => le_extent⟩

variable {ranges : List LocSize2d}

/-- The extents of the rectangles are those of their cores. -/
theorem shapeExtents_eq (hne : CoreRangeSet.Nonempty ranges)
    {cores : List Core} (hmem : ∀ core, core ∈ tiles ranges ↔ core ∈ cores) :
    calculateCoreRangeSetShapeExtents ranges
      = (extent (fun core => core.y + 1) cores, extent (fun core => core.x + 1) cores) := by
  have hcore : ∀ core : Core, core ∈ cores ↔ ∃ range ∈ ranges, core ∈ region range := by
    intro core
    rw [← hmem, tiles, List.mem_flatMap]
    simp only [mem_cells]
  refine Prod.ext (extent_congr fun b => ?_) (extent_congr fun b => ?_)
  · constructor
    · intro h core hmem
      obtain ⟨range, hrange, hregion⟩ := (hcore core).mp hmem
      have := h range hrange
      have := hregion.2.1
      omega
    · intro h range hrange
      obtain ⟨hx, hy⟩ := hne range hrange
      have := h ⟨range.locY + range.sizeY - 1, range.locX⟩
        ((hcore _).mpr ⟨range, hrange, by dsimp [region]; omega⟩)
      simp only at this
      omega
  · constructor
    · intro h core hmem
      obtain ⟨range, hrange, hregion⟩ := (hcore core).mp hmem
      have := h range hrange
      have := hregion.2.2.2
      omega
    · intro h range hrange
      obtain ⟨hx, hy⟩ := hne range hrange
      have := h ⟨range.locY, range.locX + range.sizeX - 1⟩
        ((hcore _).mpr ⟨range, hrange, by dsimp [region]; omega⟩)
      simp only at this
      omega

/-- The rectangles are on the chip side of the first core. -/
def Quadrant (ranges : List LocSize2d) : Prop := ∀ range ∈ ranges, 0 ≤ range.locY ∧ 0 ≤ range.locX

/-- Adding a core keeps to that side. -/
theorem quadrant_growOrPush {chip : Chip} {core : Core}
    (h : Quadrant ranges) (hcore : chip.Has core) : Quadrant (growOrPush core ranges) := by
  have hpush : Quadrant (single core :: ranges) := by
    rw [single_eq hcore]
    exact List.forall_mem_cons.mpr ⟨⟨hcore.1, hcore.2.2.1⟩, h⟩
  cases ranges with
  | nil => exact hpush
  | cons back rest =>
    rw [growOrPush_cons]
    split_ifs
    · obtain ⟨hback, hrest⟩ := List.forall_mem_cons.mp h
      exact List.forall_mem_cons.mpr ⟨hback, hrest⟩
    · exact hpush

theorem quadrant_mergeBack {ranges merged : List LocSize2d} (h : Quadrant ranges)
    (hmerged : mergeBack ranges = some merged) : Quadrant merged := by
  match ranges with
  | [] =>
    cases hmerged
    exact h
  | [back] =>
    cases hmerged
    exact h
  | back :: prev :: rest =>
    simp only [mergeBack] at hmerged
    obtain ⟨-, htail⟩ := List.forall_mem_cons.mp h
    obtain ⟨hprev, hrest⟩ := List.forall_mem_cons.mp htail
    split_ifs at hmerged
    · cases hmerged
      exact List.forall_mem_cons.mpr ⟨hprev, hrest⟩
    · cases hmerged
      exact h

/-- The ranges of cores of the chip are on that side. -/
theorem quadrant_addCores {chip : Chip} {cores : List Core} (hcores : ∀ c ∈ cores, chip.Has c)
    (hranges : cores.foldlM addCore [] = some ranges) : Quadrant ranges := by
  induction cores using List.reverseRecOn generalizing ranges with
  | nil =>
    cases hranges
    exact fun range hrange => absurd hrange List.not_mem_nil
  | append_singleton cores core ih =>
    rw [foldlM_addCore_concat] at hranges
    obtain ⟨before, hbefore, hadded⟩ := Option.bind_eq_some_iff.mp hranges
    have hquadrant := ih (fun c hc => hcores c (by simp [hc])) hbefore
    exact quadrant_mergeBack (quadrant_growOrPush hquadrant (hcores core (by simp))) hadded

/-- Disjoint rectangles have no more cores than the rectangle around them. -/
theorem length_tiles_le (hquadrant : Quadrant ranges)
    (hdisjoint : ranges.Pairwise fun a b => Disjoint (region a) (region b)) :
    ((tiles ranges).length : ℤ) ≤ (calculateCoreRangeSetShapeExtents ranges).1
      * (calculateCoreRangeSetShapeExtents ranges).2 := by
  obtain ⟨rows, hrows⟩ : ∃ rows, rows = (calculateCoreRangeSetShapeExtents ranges).1 := ⟨_, rfl⟩
  obtain ⟨columns, hcolumns⟩ : ∃ columns, columns = (calculateCoreRangeSetShapeExtents ranges).2 :=
    ⟨_, rfl⟩
  have hnodup : (tiles ranges).Nodup := by
    refine List.nodup_flatMap.mpr ⟨fun range _ => nodup_cells range, hdisjoint.imp ?_⟩
    intro a b hab
    show List.Disjoint _ _
    intro core ha hb
    exact Set.disjoint_left.mp hab ((mem_cells a core).mp ha) ((mem_cells b core).mp hb)
  have hsubset : tiles ranges ⊆ cells ⟨0, 0, columns, rows⟩ := by
    intro core hcore
    obtain ⟨range, hrange, hcell⟩ := List.mem_flatMap.mp hcore
    obtain ⟨hy, hy', hx, hx'⟩ := (mem_cells range core).mp hcell
    obtain ⟨hlocY, hlocX⟩ := hquadrant range hrange
    have hbottom : range.locY + range.sizeY ≤ rows :=
      hrows ▸ le_extent (f := fun range : LocSize2d => range.locY + range.sizeY) hrange
    have hright : range.locX + range.sizeX ≤ columns :=
      hcolumns ▸ le_extent (f := fun range : LocSize2d => range.locX + range.sizeX) hrange
    refine (mem_cells _ core).mpr ?_
    dsimp only [region, Set.mem_ofPred_eq]
    omega
  have hlength := (hnodup.subperm hsubset).length_le
  rw [length_cells] at hlength
  have hrowsPos : 0 ≤ rows := hrows ▸ extent_nonneg _ _
  have hcolumnsPos : 0 ≤ columns := hcolumns ▸ extent_nonneg _ _
  rw [← hrows, ← hcolumns]
  calc ((tiles ranges).length : ℤ) ≤ ((rows.toNat * columns.toNat : ℕ) : ℤ) := by
        exact_mod_cast hlength
    _ = rows * columns := by
        rw [Nat.cast_mul, Int.toNat_of_nonneg hrowsPos, Int.toNat_of_nonneg hcolumnsPos]

namespace ShardedMemref

variable (m : ShardedMemref)

/-- There is a core for each point of the grid. -/
theorem length_cores (hgrid : m.gridShape ≠ []) : m.cores.length = m.gridShape.prod := by
  rw [cores, visitedCores, List.length_map, sample_eq hgrid, List.length_map, List.length_range]

/-- A visit that comes out right covers the cores, and its rectangle is the one around them. -/
theorem exists_ranges_of_straight (hgrid : m.gridShape ≠ []) (h : NeverWidensTall m.cores) :
    ∃ ranges, toCoreRangeSet m.gridShape m.mapping = some ranges ∧
      calculateCoreRangeSetShapeExtents ranges = (m.rows, m.columns) ∧
      CoversExactly ranges (mappedCores m.gridShape m.mapping) := by
  obtain ⟨final, hfinal, hne, hperm⟩ := addCores_perm (m.mapsInto.has_visitedCores hgrid) h
  refine ⟨final.reverse, ?_, ?_, ?_⟩
  · rw [m.mapsInto.toCoreRangeSet_eq hgrid, hfinal]
    rfl
  · refine shapeExtents_eq (fun range hrange => hne range (List.mem_reverse.mp hrange)) fun core => ?_
    rw [cores, ← hperm.mem_iff, tiles, tiles, List.mem_flatMap, List.mem_flatMap]
    simp only [List.mem_reverse]
  · rw [m.mapsInto.mappedCores_eq hgrid, coversExactly_reverse]
    exact coversExactly_of_perm hperm (m.mapsInto.nodup_visitedCores hgrid)

/-- Disjoint rectangles in a rectangle of as many cores as the grid: the visit came out right. -/
theorem straight_of_coversExactly (hgrid : m.gridShape ≠ []) {ranges : List LocSize2d}
    {target : Set Core} (hranges : toCoreRangeSet m.gridShape m.mapping = some ranges)
    (hcovers : CoversExactly ranges target)
    (hfull : (calculateCoreRangeSetShapeExtents ranges).1
      * (calculateCoreRangeSetShapeExtents ranges).2 = m.gridShape.prod) :
    NeverWidensTall m.cores := by
  have hchip := m.mapsInto.has_visitedCores hgrid
  rw [m.mapsInto.toCoreRangeSet_eq hgrid] at hranges
  obtain ⟨final, hfinal, rfl⟩ := Option.map_eq_some_iff.mp hranges
  obtain ⟨-, -, hlt⟩ := addCores_length hchip hfinal
  have hquadrant : Quadrant final.reverse := fun range hrange =>
    quadrant_addCores hchip hfinal range (List.mem_reverse.mp hrange)
  have hle := length_tiles_le hquadrant hcovers.1
  have hsame : (tiles final.reverse).length = (tiles final).length :=
    (List.reverse_perm final).flatMap_right cells |>.length_eq
  rw [hfull, hsame, ← m.length_cores hgrid] at hle
  by_contra hbad
  have := hlt hbad
  rw [cores] at hle
  omega

end ShardedMemref

/-! ## Consistent descriptions -/

theorem int32Cast_natCast {n : ℕ} (h : n < 2 ^ 31) : int32Cast n = n := by
  rw [int32Cast]
  apply Int.bmod_eq_of_le <;> omega

namespace ShardedMemref

variable (m : ShardedMemref)

theorem cast_rowTiles :
    (m.stride.getD (m.stride.length - 2) 0 : ℤ).tdiv (m.stride.getD (m.stride.length - 1) 0 : ℕ)
      = m.rowTiles :=
  (Int.ofNat_tdiv _ _).symm

theorem cast_shardTiles : ((m.shardShape.headD 0 : ℤ) * m.stride.headD 0).tdiv
      (m.stride.getD (m.stride.length - 1) 0 : ℕ) = m.shardTiles := by
  rw [← Nat.cast_mul]
  exact (Int.ofNat_tdiv _ _).symm

theorem pageTiles_eq (tiles : ℤ) :
    (m.tileY : ℤ).tdiv m.tileY * (tiles * m.tileX).tdiv m.tileX = tiles := by
  have hy : (m.tileY : ℤ) ≠ 0 := by exact_mod_cast m.tileY_pos.ne'
  have hx : (m.tileX : ℤ) ≠ 0 := by exact_mod_cast m.tileX_pos.ne'
  rw [Int.tdiv_self hy, Int.mul_tdiv_cancel _ hx, one_mul]

theorem rowsInPages_eq (rows tiles : ℤ) :
    (rows * (tiles * m.tileY)).tdiv m.tileY = rows * tiles := by
  have hy : (m.tileY : ℤ) ≠ 0 := by exact_mod_cast m.tileY_pos.ne'
  rw [← mul_assoc, Int.mul_tdiv_cancel _ hy]

end ShardedMemref

/-- A memref with a consistent description is coherent. -/
theorem coherent_of_consistent {m : ShardedMemref} {config : ShardedBufferConfig}
    (hconfig : memrefTypeToShardedBufferConfigFlatbuffer m = .ok config)
    (h : Consistent m config) : Coherent m := by
  simp only [memrefTypeToShardedBufferConfigFlatbuffer, getMemrefSizeBytes, bind_eq_ok,
    fromBack_eq_ok, signed_eq_ok, quotient_eq_ok, check_eq_ok, elim_eq_ok] at hconfig
  obtain ⟨_, ⟨⟨-, hshard⟩, rfl⟩, _, ⟨-, rfl⟩, ranges, hranges, _, ⟨⟨-, hgrid⟩, rfl⟩, _, ⟨hrank, rfl⟩,
    _, ⟨helement, rfl⟩, _, ⟨⟨-, houter⟩, rfl⟩, _, ⟨-, rfl⟩, _, ⟨hrow, rfl⟩, _, hdvd, _, ⟨-, rfl⟩,
    _, ⟨-, rfl⟩, _, ⟨⟨-, hheight⟩, rfl⟩, _, ⟨⟨-, hwidth⟩, rfl⟩, _, -, _, -, _, ⟨-, rfl⟩,
    _, ⟨⟨-, hpage⟩, rfl⟩, hpure⟩ := hconfig
  obtain rfl := Except.ok.inj hpure
  obtain ⟨hsizePages, hsizeCores, hcollapsed, -, hpages, hcovers⟩ := h
  clear hpure
  simp only [m.cast_rowTiles, m.cast_shardTiles, m.pageTiles_eq, m.rowsInPages_eq, Dim2d.mk.injEq]
    at hrow hdvd hheight hwidth hpage hsizePages hcollapsed hpages
  obtain ⟨hcollapsedY, hcollapsedX⟩ := hcollapsed
  have htileY : (m.tileY : ℤ) ≠ 0 := by exact_mod_cast m.tileY_pos.ne'
  have htileX : (m.tileX : ℤ) ≠ 0 := by exact_mod_cast m.tileX_pos.ne'
  -- the 32-bit numbers are those of the shard
  have hX : int32Cast m.rowTiles = m.rowTiles := mul_right_cancel₀ htileX hcollapsedX
  have hY := mul_right_cancel₀ htileY hcollapsedY
  rw [hX] at hrow
  have hrowPos : 0 < m.rowTiles := Nat.pos_of_ne_zero (by exact_mod_cast hrow)
  have hrowX : (m.rowTiles : ℤ) * m.tileX ≠ 0 := mul_ne_zero hrow htileX
  rw [hX] at hY hdvd hwidth hpage
  simp only [hX, hY, Int.mul_tdiv_cancel _ hrowX] at hheight hsizePages hpages
  have hdiv : m.rowTiles ∣ m.shardTiles := by
    exact_mod_cast Int.dvd_of_tmod_eq_zero hdvd
  have helementPos : 0 < m.elementStride := Nat.pos_of_ne_zero (by exact_mod_cast helement)
  -- the pages of a shard
  have hpageSize : (m.rowTiles : ℤ) * (m.stride.getD (m.stride.length - 1) 0 : ℕ) % 2 ^ 64
      = m.rowTiles * m.elementStride :=
    Int.emod_eq_of_lt (by positivity) (hpage.trans (by norm_num))
  rw [hpageSize] at hsizePages hpages
  rw [Int.mul_ediv_cancel _ htileY] at hpages
  have hbytes : m.shardTiles * m.elementStride = m.shardBytes := by
    have hnat : m.shardTiles / m.rowTiles * (m.rowTiles * m.elementStride) = m.shardBytes := by
      exact_mod_cast hpages
    rwa [← mul_assoc, Nat.div_mul_cancel hdiv] at hnat
  -- the cores in the rectangle
  have hsize : (calculateCoreRangeSetShapeExtents ranges).1
      * (calculateCoreRangeSetShapeExtents ranges).2 = m.gridShape.prod := by
    have hpos : (m.shardBytes : ℤ) ≠ 0 := by exact_mod_cast m.shardBytes_pos.ne'
    apply mul_right_cancel₀ hpos
    rw [← hsizeCores, hsizePages, ← hpages]
    ring
  have hgridShape : m.gridShape ≠ [] := by
    intro hnil
    have hlength := m.length_gridShape
    rw [hnil, List.length_nil] at hlength
    omega
  have hstraight := m.straight_of_coversExactly hgridShape hranges hcovers hsize
  obtain ⟨ranges', hranges', hextents, hmapped⟩ := m.exists_ranges_of_straight hgridShape hstraight
  obtain rfl : ranges = ranges' := Option.some.inj (hranges.symm.trans hranges')
  rw [hsize] at hgrid hsizeCores
  rw [hextents] at hsize hheight hwidth
  exact {
    rank := hrank
    elementStride_pos := helementPos
    rowTiles_pos := hrowPos
    rowTiles_dvd := hdiv
    bytes := hbytes
    straight := hstraight
    full := hsize
    memory := hcovers.2.symm.trans hmapped.2
    fits_shard := by exact_mod_cast hshard
    fits_outer := by exact_mod_cast houter
    fits_size := by
      have hlt : (m.gridShape.prod : ℤ) * m.shardBytes < 2 ^ 64 :=
        hsizeCores ▸ Int.emod_lt_of_pos _ (by norm_num)
      exact_mod_cast hlt
    fits_grid := by exact_mod_cast hgrid
    fits_height := hheight
    fits_width := hwidth }

/-- A coherent memref has a consistent description. -/
theorem exists_consistent_of_coherent {m : ShardedMemref} (h : Coherent m) :
    ∃ config, memrefTypeToShardedBufferConfigFlatbuffer m = .ok config ∧ Consistent m config := by
  have hgridShape : m.gridShape ≠ [] := by
    intro hnil
    have hlength := m.length_gridShape
    have := h.rank
    rw [hnil, List.length_nil] at hlength
    omega
  obtain ⟨ranges, hranges, hextents, hmapped⟩ := m.exists_ranges_of_straight hgridShape h.straight
  -- there are cores, rows and columns
  have hrows : 0 < m.rows := by
    refine lt_of_le_of_ne (extent_nonneg _ _) fun hzero => ?_
    have hfull := h.full
    have := m.gridShape_pos
    rw [← hzero, zero_mul] at hfull
    omega
  have hcolumns : 0 < m.columns := by
    refine lt_of_le_of_ne (extent_nonneg _ _) fun hzero => ?_
    have hfull := h.full
    have := m.gridShape_pos
    rw [← hzero, mul_zero] at hfull
    omega
  have htileY : (0 : ℤ) < m.tileY := by exact_mod_cast m.tileY_pos
  have htileX : (0 : ℤ) < m.tileX := by exact_mod_cast m.tileX_pos
  have hrow : (0 : ℤ) < m.rowTiles := by exact_mod_cast h.rowTiles_pos
  obtain ⟨height, hheight⟩ : ∃ height, height = m.shardTiles / m.rowTiles := ⟨_, rfl⟩
  have hfitsHeight := h.fits_height
  rw [← hheight] at hfitsHeight
  -- the 32-bit numbers
  have hshardY : (height : ℤ) * m.tileY < 2 ^ 31 :=
    (le_mul_of_one_le_left (by positivity) hrows).trans_lt hfitsHeight
  have hshardX : (m.rowTiles : ℤ) * m.tileX < 2 ^ 31 :=
    (le_mul_of_one_le_left (by positivity) hcolumns).trans_lt h.fits_width
  have hrowFits : (m.rowTiles : ℤ) ≤ m.rowTiles * m.tileX := le_mul_of_one_le_right hrow.le htileX
  have hcastX : int32Cast m.rowTiles = m.rowTiles := by
    apply int32Cast_natCast
    exact_mod_cast hrowFits.trans_lt hshardX
  have hcastY : int32Cast ((m.shardTiles : ℤ).tdiv m.rowTiles) = height := by
    rw [← Int.ofNat_tdiv, ← hheight]
    apply int32Cast_natCast
    exact_mod_cast (le_mul_of_one_le_right (Int.natCast_nonneg height) htileY).trans_lt hshardY
  -- the bytes of a page
  have hshardTiles : 0 < m.shardTiles := by
    refine Nat.pos_of_ne_zero fun hzero => ?_
    have hbytes := h.bytes
    rw [hzero, Nat.zero_mul] at hbytes
    exact m.shardBytes_pos.ne hbytes
  have hpageNat : m.rowTiles * m.elementStride ≤ m.shardBytes :=
    h.bytes ▸ Nat.mul_le_mul_right _ (Nat.le_of_dvd hshardTiles h.rowTiles_dvd)
  have hpage : (m.rowTiles : ℤ) * m.elementStride < 2 ^ 63 := by
    exact_mod_cast hpageNat.trans_lt h.fits_shard
  have hpages : (height : ℤ) * (m.rowTiles * m.elementStride) = m.shardBytes := by
    rw [hheight, ← h.bytes, ← mul_assoc, ← Nat.cast_mul, Nat.div_mul_cancel h.rowTiles_dvd,
      Nat.cast_mul]
  have helement : ((m.stride.getD (m.stride.length - 1) 0 : ℕ) : ℤ) ≠ 0 := by
    exact_mod_cast h.elementStride_pos.ne'
  have hheightNonneg : 0 ≤ (height : ℤ) * m.tileY := mul_nonneg (Int.natCast_nonneg _) htileY.le
  have hwidthNonneg : 0 ≤ (m.rowTiles : ℤ) * m.tileX := mul_nonneg hrow.le htileX.le
  have hsigned : ∀ {bits : ℕ} {z : ℤ}, 0 ≤ z → z < 2 ^ (bits - 1) →
      -2 ^ (bits - 1) ≤ z ∧ z < 2 ^ (bits - 1) := by
    intro bits z hz hlt
    have hpow : (0 : ℤ) ≤ 2 ^ (bits - 1) := by positivity
    exact ⟨by omega, hlt⟩
  refine ⟨⟨m.rows * m.columns * m.shardBytes % 2 ^ 64, m.rowTiles * m.elementStride % 2 ^ 64, ranges,
    ⟨height * m.tileY, m.rowTiles * m.tileX⟩, ⟨m.tileY, m.rowTiles * m.tileX⟩,
    ⟨m.rows * height, m.columns⟩⟩, ?_, ?_⟩
  · simp only [memrefTypeToShardedBufferConfigFlatbuffer, getMemrefSizeBytes, bind_eq_ok,
      fromBack_eq_ok, signed_eq_ok, quotient_eq_ok, check_eq_ok, elim_eq_ok, hranges,
      Option.some.injEq, exists_eq_left', hextents]
    refine ⟨_, ⟨hsigned (Int.natCast_nonneg _) (by exact_mod_cast h.fits_shard), rfl⟩,
      _, ⟨le_trans (by decide) h.rank, rfl⟩,
      _, ⟨hsigned (mul_nonneg hrows.le hcolumns.le) (h.full ▸ by exact_mod_cast h.fits_grid), rfl⟩,
      _, ⟨h.rank, rfl⟩, _, ⟨helement, rfl⟩,
      _, ⟨hsigned (mul_nonneg (Int.natCast_nonneg _) (Int.natCast_nonneg _))
        (by exact_mod_cast h.fits_outer), rfl⟩,
      _, ⟨helement, rfl⟩, ?_⟩
    simp only [m.cast_rowTiles, m.cast_shardTiles, hcastX]
    refine ⟨_, ⟨hrow.ne', rfl⟩, (), Int.tmod_eq_zero_of_dvd (by exact_mod_cast h.rowTiles_dvd), ?_⟩
    simp only [hcastY]
    refine ⟨_, ⟨hsigned hheightNonneg hshardY, rfl⟩, _, ⟨hsigned hwidthNonneg hshardX, rfl⟩,
      _, ⟨hsigned (mul_nonneg hrows.le hheightNonneg) hfitsHeight, rfl⟩,
      _, ⟨hsigned (mul_nonneg hcolumns.le hwidthNonneg) h.fits_width, rfl⟩, ?_⟩
    rw [m.pageTiles_eq, m.rowsInPages_eq, Int.mul_tdiv_cancel _ (mul_pos hrow htileX).ne']
    refine ⟨(), ?_, (), Int.mul_tmod_left _ _, _, ⟨hsigned hrow.le (hrowFits.trans_lt hshardX), rfl⟩,
      _, ⟨hsigned (mul_nonneg hrow.le (Int.natCast_nonneg _)) hpage, rfl⟩, rfl⟩
    rw [← mul_assoc]
    exact Int.mul_tmod_left _ _
  · have hsize : m.rows * m.columns * m.shardBytes % 2 ^ 64 = m.gridShape.prod * m.shardBytes := by
      rw [h.full]
      exact Int.emod_eq_of_lt (mul_nonneg (Int.natCast_nonneg _) (Int.natCast_nonneg _))
        (by exact_mod_cast h.fits_size)
    have hpageSize : (m.rowTiles : ℤ) * m.elementStride % 2 ^ 64 = m.rowTiles * m.elementStride :=
      Int.emod_eq_of_lt (mul_nonneg (Int.natCast_nonneg _) (Int.natCast_nonneg _))
        (hpage.trans (by norm_num))
    exact {
      size_pages := by
        show m.rows * m.columns * m.shardBytes % 2 ^ 64
          = m.rowTiles * m.elementStride % 2 ^ 64 * (m.rows * height * m.columns)
        rw [hsize, hpageSize, ← h.full, ← hpages]
        ring
      size_cores := hsize
      collapsed := by rw [hheight]
      page := rfl
      pages := by
        show (height * m.tileY : ℤ) / m.tileY * (m.rowTiles * m.elementStride % 2 ^ 64) = _
        rw [Int.mul_ediv_cancel _ htileY.ne', hpageSize, hpages]
      cores := h.memory ▸ hmapped }

/-- **Sharded buffers have a consistent description** exactly when their memref is coherent. -/
theorem consistent_iff (m : ShardedMemref) :
    (∃ config, memrefTypeToShardedBufferConfigFlatbuffer m = .ok config ∧ Consistent m config) ↔
      Coherent m :=
  ⟨fun ⟨_, hconfig, h⟩ => coherent_of_consistent hconfig h, exists_consistent_of_coherent⟩

/-! ## A shard with two buffers -/

theorem mapsInto_oneCore : MapsInto chip8x8 [1, 1] ⟨2, 0, [.constant 0, .dim 0, .dim 1]⟩ := by
  have hzero : ∀ coord, InShape coord [1, 1] → coord = [0, 0] := by
    rintro _ (_ | ⟨hy, _ | ⟨hx, _ | _⟩⟩)
    rw [Nat.lt_one_iff.mp hy, Nat.lt_one_iff.mp hx]
  refine ⟨fun coord hcoord => ?_, fun a b ha hb _ => (hzero a ha).trans (hzero b hb).symm⟩
  rw [hzero coord hcoord]
  exact ⟨⟨0, 0⟩, by unfold Chip.Has; decide, rfl⟩

/-- Two rows of four `f32` tiles on one core, buffered twice. -/
def doubleBuffered : ShardedMemref where
  gridShape := [1, 1]
  shardShape := [2, 4]
  stride := [16384, 4096]
  buffers := 2
  elementSizeBytes := 4096
  tileY := 32
  tileX := 32
  chip := chip8x8
  mapping := ⟨2, 0, [.constant 0, .dim 0, .dim 1]⟩
  memoryMap := createL1Map ⟨2, 0, [.constant 0, .dim 0, .dim 1]⟩ 0
  length_gridShape := rfl
  length_shardShape := by decide
  mapsInto := mapsInto_oneCore
  gridShape_pos := by decide
  tileY_pos := Nat.succ_pos _
  tileX_pos := Nat.succ_pos _
  shardBytes_pos := by decide

/-- **Its size is twice its pages.** -/
theorem doubleBuffered_not_consistent :
    ¬ ∃ config, memrefTypeToShardedBufferConfigFlatbuffer doubleBuffered = .ok config ∧
      Consistent doubleBuffered config := by
  rw [consistent_iff]
  intro h
  exact absurd h.bytes (by decide)

end ShardedBuffer
