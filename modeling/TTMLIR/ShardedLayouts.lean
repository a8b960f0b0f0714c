/-
# The sharded layouts of a tensor type

`AllPossibleLayoutsAnalysis` enumerates the layouts that the optimizer chooses from.  For every
memory layout it builds the layouts of all grids of cores, keeps the first one of every shard shape,
and drops those that the op model or a count of tiles rejects.

* `generateAllPossibleLayouts`, `generateLayouts` : the translated functions;
* `shardExtent` : the shard of one dimension, and when it fits (`shardExtent_le_iff`);
* `evalShape_collapsed` : the physical shape of a tensor;
* `candidate_spec` : the layout that is built for one grid;
* `Enumerates` : what the kept layouts are meant to be, and `enumerates` : that they are.
-/
import TTMLIR.OpConfig
import TTMLIR.Selection

namespace TTNN

namespace AllPossibleLayouts

open CollapsedLinear Fallible MixedRadix MLIR Selection TTNNLayoutAttr

/-! ## The translated functions -/

/-- The tile element type of a scalar type. -/
def tileElementType (scalarElementType : DataType) : ElementType :=
  .tile (.get scalarElementType)

/-- The element types that layouts are generated for. -/
def elementTypes (scalarElementType : DataType) (rowMajorAllowed : Bool) : List ElementType :=
  if rowMajorAllowed then [.scalar scalarElementType, tileElementType scalarElementType]
  else [tileElementType scalarElementType]

/-- `TTNNLayoutAttr::getTiledShape`: the last index of the padded tensor in tiles, plus one. -/
def getTiledShape (L : TTNNLayoutAttr) (tensorShape : List ℕ) : List ℤ :=
  List.zipWith (fun (x : ℤ) (n : ℕ) => (x - 1) / n + 1)
    (evalShape L.linear (getTilePaddedShape tensorShape))
    (L.getElementType.extents L.linear.results.length)

/-- `tensorShapeCompatibleWithShard`; `legal` is `isLayoutLegalForTensorShape` of the op model. -/
def tensorShapeCompatibleWithShard (legal : List ℕ → TTNNLayoutAttr → Bool)
    (tensorShape : List ℕ) (L : TTNNLayoutAttr) : Bool :=
  if ¬ L.memLayout.any TensorMemoryLayout.isSharded then true
  else if ¬ legal tensorShape L then false
  else if L.isTiled then
    (List.zipWith (fun (tiles : ℤ) (cores : ℕ) => decide (cores ≤ tiles))
      (getTiledShape L tensorShape) L.grid).all id
  else true

/-- The interleaved layouts of an element type. -/
def interleavedLayouts (tensorShape : List ℕ) (maxGrid : ℕ × ℕ) (elementType : ElementType) :
    Except String (List TTNNLayoutAttr) := do
  let dram ← get tensorShape elementType .dram [maxGrid.1, maxGrid.2] (some .interleaved) [(0, -1)]
  if elementType.isTile then
    let l1 ← get tensorShape elementType .l1 [maxGrid.1, maxGrid.2] (some .interleaved) [(0, -1)]
    return [dram, l1]
  else return [dram]

/-- `shardedBase`. -/
def shardedBase (L : TTNNLayoutAttr) (tensorShape : List ℕ) (elementType : ElementType) :
    Except String TTNNLayoutAttr := do
  let onL1 ← L.withBufferType .l1
  let blockSharded ← onL1.withMemoryLayout .blockSharded
  blockSharded.withElementType elementType tensorShape [(0, -1)]

/-- The largest grid of a memory layout: the number of cores in a row or a column, or the device. -/
def bounds (maxGrid : ℕ × ℕ) : TensorMemoryLayout → ℕ × ℕ
  | .heightSharded => (maxGrid.1 * maxGrid.2, 1)
  | .widthSharded => (1, maxGrid.1 * maxGrid.2)
  | _ => maxGrid

/-- The grids that the loops go through, in their order. -/
def grids (maxGrid : ℕ × ℕ) (memLayout : TensorMemoryLayout) : List (List ℕ) :=
  (List.range (bounds maxGrid memLayout).1).flatMap fun height =>
    (List.range (bounds maxGrid memLayout).2).map fun width => [height + 1, width + 1]

/-- The layout of one turn of a loop. -/
def candidate (base : TTNNLayoutAttr) (tensorShape : List ℕ) (memLayout : TensorMemoryLayout)
    (grid : List ℕ) : Except String TTNNLayoutAttr := do
  (← base.withGrid tensorShape grid [(0, -1)]).withMemoryLayout memLayout

/-- The loop of a memory layout: a layout is taken back when its shard shape was seen before. -/
def distinctShards (base : TTNNLayoutAttr) (tensorShape : List ℕ) (maxGrid : ℕ × ℕ)
    (memLayout : TensorMemoryLayout) : Except String (List TTNNLayoutAttr) := do
  let candidates ← (grids maxGrid memLayout).mapM (candidate base tensorShape memLayout)
  return firstPerKey (fun L => L.memref.shape) [] candidates

/-- The memory layouts, in the order of their loops. -/
def shardedMemLayouts : List TensorMemoryLayout := [.blockSharded, .heightSharded, .widthSharded]

/-- The sharded layouts of an element type. -/
def shardedLayouts (L : TTNNLayoutAttr) (tensorShape : List ℕ) (maxGrid : ℕ × ℕ)
    (elementType : ElementType) : Except String (List TTNNLayoutAttr) := do
  let base ← shardedBase L tensorShape elementType
  let layouts ← shardedMemLayouts.mapM (distinctShards base tensorShape maxGrid)
  return layouts.flatten

section Analysis

variable (sort : List TTNNLayoutAttr → List TTNNLayoutAttr)
  (legal : List ℕ → TTNNLayoutAttr → Bool)

/-- `generateAllPossibleLayouts` for a tensor type with the layout `L`; `sort` sorts by the volume of
the grid. -/
def generateAllPossibleLayouts (tensorShape : List ℕ) (L : TTNNLayoutAttr) (maxGrid : ℕ × ℕ)
    (scalarElementType : DataType) (onlyShardedLayouts : Bool) (maxNumGeneratedLayouts : ℤ)
    (rowMajorAllowed : Bool) : Except String (List TTNNLayoutAttr) := do
  let interleaved ← if onlyShardedLayouts then pure [] else
    (elementTypes scalarElementType rowMajorAllowed).mapM (interleavedLayouts tensorShape maxGrid)
  let sharded ← (elementTypes scalarElementType rowMajorAllowed).mapM
    (shardedLayouts L tensorShape maxGrid)
  let shardedResults :=
    sort (sharded.flatten.filter (tensorShapeCompatibleWithShard legal tensorShape))
  let numLayoutsToGenerate := if 0 ≤ maxNumGeneratedLayouts then
    min maxNumGeneratedLayouts.toNat shardedResults.length else shardedResults.length
  return interleaved.flatten ++ shardedResults.take numLayoutsToGenerate

/-- `AllPossibleLayoutsAnalysis::generateLayouts`, with the set of allowed scalar types in the order
in which it is walked. -/
def generateLayouts (tensorShape : List ℕ) (L : TTNNLayoutAttr) (maxGrid : ℕ × ℕ)
    (allowedScalarTypes : List DataType) (rowMajorAllowed : Bool) :
    Except String (List TTNNLayoutAttr) :=
  if allowedScalarTypes = [] then
    .error "AllPossibleLayoutsAnalysis requires at least one scalar type"
  else do
    let layouts ← allowedScalarTypes.mapM fun scalarType =>
      generateAllPossibleLayouts sort legal tensorShape L maxGrid scalarType false (-1)
        rowMajorAllowed
    return layouts.flatten

end Analysis

/-- The layouts of an element type and a memory layout: a part of an entry of the table that
`processTensorType` fills. -/
def layoutsOf (layouts : List TTNNLayoutAttr) (elementType : ElementType)
    (memLayout : TensorMemoryLayout) : List TTNNLayoutAttr :=
  layouts.filter fun L => L.getElementType = elementType ∧ L.memLayout = some memLayout

/-! ## What the enumeration is for -/

/-- The layout of a tensor on a grid of cores. -/
def OnGrid (tensorShape : List ℕ) (elementType : ElementType) (memLayout : TensorMemoryLayout)
    (grid : List ℕ) (L : TTNNLayoutAttr) : Prop :=
  get tensorShape elementType .l1 grid (some memLayout) [(0, -1)] = .ok L

/-- The smallest grid with its shard shape: it is at most as high and as wide as every other one. -/
def Smallest (tensorShape : List ℕ) (maxGrid : ℕ × ℕ) (elementType : ElementType)
    (memLayout : TensorMemoryLayout) (L : TTNNLayoutAttr) : Prop :=
  L.grid ∈ grids maxGrid memLayout ∧ OnGrid tensorShape elementType memLayout L.grid L ∧
    ∀ grid ∈ grids maxGrid memLayout, ∀ G, OnGrid tensorShape elementType memLayout grid G →
      G.memref.shape = L.memref.shape → List.Forall₂ (· ≤ ·) L.grid grid

/-- The shard of every core holds an element of the padded tensor. -/
def Occupied (tensorShape : List ℕ) (L : TTNNLayoutAttr) : Prop :=
  ∀ core, InShape core L.grid → List.Forall₂ (fun (start : ℕ) (p : ℤ) => start < p)
    (List.zipWith (· * ·) core L.shardElements) (L.physical tensorShape)

/-- The shards cover the padded tensor with its leading dimensions collapsed. -/
def CoversPadded (tensorShape : List ℕ) (L : TTNNLayoutAttr) : Prop :=
  L.Covers tensorShape ∧ L.physical tensorShape =
    [((physicalShape L.getElementType tensorShape).dropLast.prod : ℤ),
      ((physicalShape L.getElementType tensorShape).getLastD 0 : ℤ)]

/-- **What the kept layouts are meant to be.**  `rejected` are layouts that need not be kept. -/
structure Enumerates (rejected : TTNNLayoutAttr → Prop) (tensorShape : List ℕ) (maxGrid : ℕ × ℕ)
    (elementType : ElementType) (memLayout : TensorMemoryLayout)
    (kept : List TTNNLayoutAttr) : Prop where
  distinct : (kept.map fun L => L.memref.shape).Nodup
  represented : ∀ grid ∈ grids maxGrid memLayout, ∃ G L,
    OnGrid tensorShape elementType memLayout grid G ∧
      Smallest tensorShape maxGrid elementType memLayout L ∧
      L.memref.shape = G.memref.shape ∧ (L ∈ kept ∨ rejected L)
  smallest : ∀ L ∈ kept, Smallest tensorShape maxGrid elementType memLayout L
  occupied : ∀ L ∈ kept, Occupied tensorShape L
  covers : ∀ L ∈ kept, CoversPadded tensorShape L

/-! ## One dimension of a shard -/

/-- The extent of a shard along a dimension, in memref elements of the extent `ext`. -/
def shardExtent (p : ℤ) (cores ext : ℕ) : ℤ := ceilDiv (ceilDiv p cores) ext

theorem ceilDiv_nonneg {p : ℤ} (hp : 0 ≤ p) {n : ℕ} (hn : 0 < n) : 0 ≤ ceilDiv p n :=
  Int.tdiv_nonneg (by omega) (by omega)

variable {cores ext : ℕ}

/-- **The shard is the least cover** of the dimension. -/
theorem shardExtent_le_iff {p k : ℤ} (hp : 0 ≤ p) (hcores : 0 < cores)
    (hext : 0 < ext) : shardExtent p cores ext ≤ k ↔ p ≤ cores * (ext * k) := by
  rw [shardExtent, ceilDiv_le_iff (ceilDiv_nonneg hp hcores) hext, ceilDiv_le_iff hp hcores]

section

variable {p : ℤ} (hp : 0 < p) (hcores : 0 < cores) (hext : 0 < ext)

include hp hcores hext

theorem shardExtent_pos : 0 < shardExtent p cores ext := by
  by_contra hnot
  have hle := (shardExtent_le_iff hp.le hcores hext).mp (not_lt.mp hnot)
  rw [mul_zero, mul_zero] at hle
  omega

/-- **The fewest cores with a shard**: the last of them starts inside the dimension. -/
theorem start_lt_of_fewest (hfewest : ∀ fewer, 0 < fewer → fewer ≤ cores →
      shardExtent p fewer ext = shardExtent p cores ext → cores ≤ fewer) :
    ((cores - 1 : ℕ) : ℤ) * (ext * shardExtent p cores ext) < p := by
  by_contra hge
  rw [not_lt] at hge
  have hone : cores - 1 ≠ 0 := by
    intro h
    rw [h, Nat.cast_zero, zero_mul] at hge
    omega
  have hpos : 0 < cores - 1 := Nat.pos_of_ne_zero hone
  -- with one core less the shard stays the same
  have hle := (shardExtent_le_iff hp.le hpos hext).mpr hge
  have hge' : shardExtent p cores ext ≤ shardExtent p (cores - 1) ext := by
    rw [shardExtent_le_iff hp.le hcores hext]
    have hcover := (shardExtent_le_iff hp.le hpos hext).mp (le_refl _)
    have hshard := shardExtent_pos hp hpos hext
    have hmono : ((cores - 1 : ℕ) : ℤ) * (ext * shardExtent p (cores - 1) ext) ≤
        cores * (ext * shardExtent p (cores - 1) ext) :=
      mul_le_mul_of_nonneg_right (by omega) (by positivity)
    exact hcover.trans hmono
  have hfew := hfewest (cores - 1) hpos (by omega) (le_antisymm hle hge')
  omega

theorem cores_le_of_fewest (hstart : ((cores - 1 : ℕ) : ℤ) * (ext * shardExtent p cores ext) < p) :
    cores ≤ (p - 1) / ext + 1 := by
  have hshard := shardExtent_pos hp hcores hext
  have hmul : ((cores - 1 : ℕ) : ℤ) * ext ≤ (cores - 1 : ℕ) * (ext * shardExtent p cores ext) := by
    refine mul_le_mul_of_nonneg_left ?_ (by positivity)
    exact le_mul_of_one_le_right (by positivity) hshard
  have hquot : ((cores - 1 : ℕ) : ℤ) ≤ (p - 1) / ext :=
    Int.le_ediv_of_mul_le (by exact_mod_cast hext) (by omega)
  omega

end

/-! ## The physical shape -/

/-- The default collapse intervals: all dimensions but the last. -/
def leadingDims {rank : ℕ} (hrank : 0 < rank) : CollapseIntervals rank where
  intervals := [(0, -1)]
  bounded i hi := by
    obtain rfl := List.mem_singleton.mp hi
    simp only [CollapsedLinear.normalize]
    omega
  disjoint := List.pairwise_singleton _ _

theorem rowMajor_last {shape : List ℕ} (hpos : ∀ n ∈ shape, 0 < n) :
    rowMajor shape (shape.map (· - 1)) + 1 = shape.prod := by
  induction shape with
  | nil => simp
  | cons n shape ih =>
    obtain ⟨hn, hshape⟩ := List.forall_mem_cons.mp hpos
    have hrest := ih hshape
    rw [List.map_cons, rowMajor_cons, List.prod_cons]
    obtain ⟨k, rfl⟩ : ∃ k, n = k + 1 := ⟨n - 1, by omega⟩
    rw [Nat.add_sub_cancel, add_assoc, hrest, add_mul, one_mul]

/-- The strides of the collapsed dimensions fit into 32 bits. -/
def StridesFit (shape : List ℕ) : Prop := shape.tail.dropLast.prod < 2 ^ 31

/-- **The physical shape**: the leading dimensions collapsed, and the last one. -/
theorem evalShape_collapsed {shape grid : List ℕ} {linear : MLIR.AffineMap} (hne : shape ≠ [])
    (hpos : ∀ n ∈ shape, 0 < n) (hfit : StridesFit shape) (hgrid : grid.length = 2)
    (h : collapsedLinearAffineMap shape grid [(0, -1)] = some linear) :
    evalShape linear shape = [(shape.dropLast.prod : ℤ), (shape.getLastD 0 : ℤ)] := by
  have hrank : 0 < shape.length := List.length_pos_of_ne_nil hne
  have hmap := collapsedLinearAffineMap_eq shape grid (leadingDims hrank)
  rw [show (leadingDims hrank).intervals = [(0, -1)] from rfl, h] at hmap
  split_ifs at hmap with hcond
  have hlinear := (Option.some.inj hmap)
  have hlast : shape.map (fun n : ℕ => (n : ℤ) - 1) =
      (shape.map (· - 1)).map fun i : ℕ => (i : ℤ) := by
    rw [List.map_map]
    refine List.map_congr_left fun n hn => ?_
    have hn' := hpos n hn
    simp only [Function.comp_apply]
    omega
  have hgetLast : ((shape.map (· - 1)).map fun i : ℕ => (i : ℤ)).getD (shape.length - 1) 0 + 1 =
      (shape.getLastD 0 : ℕ) := by
    have hlt : shape.length - 1 < shape.length := by omega
    have hn := hpos _ (List.getElem_mem hlt)
    rw [List.getD_eq_getElem _ _ (by simpa using hlt), List.getElem_map, List.getElem_map,
      List.getLastD_eq_getLast?, List.getLast?_eq_getElem?, List.getElem?_eq_getElem hlt,
      Option.getD_some]
    omega
  rw [evalShape, hlast, hlinear, MLIR.AffineMap.eval, hgrid]
  by_cases hone : shape.length = 1
  · -- a single dimension is not collapsed
    have hspans : (leadingDims hrank).spans = [] := by
      simp [CollapseIntervals.spans, spansOf, leadingDims, CollapsedLinear.normalize, hone]
    have hmin : (leadingDims hrank).minimumDim = 1 := by
      rw [CollapseIntervals.minimumDim, hspans, hone]
      rfl
    have hbody : body shape grid (leadingDims hrank) = [AffineExpr.dim 0] := by
      have hlength : (body shape grid (leadingDims hrank)).length = 1 :=
        (length_body shape grid (leadingDims hrank)).trans (by omega)
      have hlow := body_low shape grid (leadingDims hrank) (p := 0) (by omega) (by omega)
      obtain ⟨e, he⟩ := List.length_eq_one_iff.mp hlength
      rw [he] at hlow ⊢
      exact congrArg (fun o => [o]) (Option.some.inj hlow)
    have hdrop : shape.dropLast = [] := List.eq_nil_of_length_eq_zero (by simp [hone])
    rw [hbody, hdrop, hone]
    rw [hone] at hgetLast
    simp only [List.map_append, List.map_cons, List.map_nil, AffineExpr.eval_dim]
    rw [hgetLast]
    rfl
  · -- all dimensions but the last one are collapsed
    have hspans : (leadingDims hrank).spans = [(0, shape.length - 1)] := by
      have htoNat : ((-1 : ℤ) + shape.length).toNat = shape.length - 1 := by omega
      have hne' : 0 ≠ shape.length - 1 := by omega
      simp [CollapseIntervals.spans, spansOf, leadingDims, CollapsedLinear.normalize, htoNat, hne']
    have hmin : (leadingDims hrank).minimumDim = 0 := by
      rw [CollapseIntervals.minimumDim, hspans]
      exact Nat.min_zero _
    have hspan : (0, shape.length - 1) ∈ (leadingDims hrank).spans := by simp [hspans]
    have hbody : body shape grid (leadingDims hrank) =
        [linearExpr shape 0 (shape.length - 1), AffineExpr.dim (shape.length - 1)] := by
      have hlength : (body shape grid (leadingDims hrank)).length = 2 :=
        (length_body shape grid (leadingDims hrank)).trans (by omega)
      have hfirst := body_span shape grid (leadingDims hrank) hspan (by simp only; omega)
      have hsecond := body_free shape grid (leadingDims hrank) (p := 1) (by omega) (by omega)
        (by simp [hspans])
      obtain ⟨a, b, hab⟩ := List.length_eq_two.mp hlength
      rw [hab] at hfirst hsecond ⊢
      have ha := Option.some.inj hfirst
      have hb := Option.some.inj hsecond
      rw [ha, hb, Nat.sub_zero, show shape.length - min shape.length grid.length + 1 =
        shape.length - 1 by omega]
    have hstride : ((shape.drop (0 + 1)).take (shape.length - 1 - 1)) = shape.tail.dropLast := by
      rw [List.dropLast_eq_take, List.drop_one, List.length_tail]
    have htail : ∀ n ∈ shape.tail.dropLast, 0 < n := fun n hn =>
      hpos n (List.mem_of_mem_tail (List.mem_of_mem_dropLast hn))
    have heval := eval_linearExpr shape (shape.map (· - 1)) (by simp) (shape.length - 1) 0
      (by omega) (by rw [hstride]; exact prod_pos_of_forall_pos htail) (by rw [hstride]; exact hfit)
    rw [List.drop_zero, List.drop_zero, ← List.dropLast_eq_take, ← List.map_take,
      ← List.dropLast_eq_take] at heval
    rw [hbody, Nat.min_eq_right (by omega), Nat.sub_self, List.replicate_zero, List.nil_append]
    simp only [List.map_cons, List.map_nil, AffineExpr.eval_dim, heval, hgetLast]
    have hprod : rowMajor shape.dropLast (shape.dropLast.map (· - 1)) + 1 = shape.dropLast.prod :=
      rowMajor_last fun n hn => hpos n (List.mem_of_mem_dropLast hn)
    rw [← hprod]
    push_cast
    rfl

/-! ## The layout of one grid -/

theorem parts_of_withBufferType {L onL1 : TTNNLayoutAttr} {b : BufferType}
    (h : L.withBufferType b = .ok onL1) : onL1.getBufferType = b := by
  rw [withBufferType] at h
  obtain ⟨shard, -, h⟩ := bind_eq_ok.mp h
  obtain ⟨memref, hmemref, h⟩ := bind_eq_ok.mp h
  obtain ⟨-, -, hspace, -⟩ := (buildMemRef_eq_ok_iff _ _ _ _).mp hmemref
  obtain ⟨-, -, hparts, -⟩ := (build_eq_ok_iff _ _ _ _ _).mp h
  rw [getBufferType, hparts, hspace]

theorem parts_of_withMemoryLayout {L laid : TTNNLayoutAttr} {m : TensorMemoryLayout}
    (h : L.withMemoryLayout m = .ok laid) :
    laid.getBufferType = L.getBufferType ∧ laid.memLayout = some m := by
  rw [withMemoryLayout] at h
  obtain ⟨shard, -, h⟩ := bind_eq_ok.mp h
  obtain ⟨memref, hmemref, h⟩ := bind_eq_ok.mp h
  obtain ⟨-, -, hspace, -⟩ := (buildMemRef_eq_ok_iff _ _ _ _).mp hmemref
  obtain ⟨-, -, hparts, hm⟩ := (build_eq_ok_iff _ _ _ _ _).mp h
  exact ⟨by rw [getBufferType, hparts, hspace], hm⟩

variable {T : List ℕ} {e : ElementType} {m : TensorMemoryLayout}

/-- **The base of the sharded layouts** is a block sharded layout in L1, whatever the layout of the
tensor is. -/
theorem shardedBase_spec {L base : TTNNLayoutAttr} (h : shardedBase L T e = .ok base) :
    base.getElementType = e ∧ base.getBufferType = .l1 ∧
      base.memLayout = some .blockSharded ∧ ¬ (e.isTile ∧ T = []) := by
  rw [shardedBase] at h
  obtain ⟨onL1, honL1, h⟩ := bind_eq_ok.mp h
  obtain ⟨blockSharded, hblock, h⟩ := bind_eq_ok.mp h
  obtain ⟨hbuffer, hm⟩ := parts_of_withMemoryLayout hblock
  rw [parts_of_withBufferType honL1] at hbuffer
  obtain ⟨he, hb, -, hlayout⟩ := parts_of_get h
  exact ⟨he, hb.trans hbuffer, hlayout.trans hm, ((get_eq_ok_iff _ _ _ _ _ _ _).mp h).1⟩

theorem not_interleavedL1 (hm : m.isSharded) : ¬ InterleavedL1 .l1 (some m) := by
  rintro ⟨-, h⟩
  cases h
  cases hm

theorem computedMemref_sharded {shape grid : List ℕ} {linear : MLIR.AffineMap} (hm : m.isSharded) :
    computedMemref shape e .l1 grid (some m) linear =
      computedMemref shape e .l1 grid (some .blockSharded) linear := by
  have hm' : ¬ (BufferType.l1 = .l1 ∧ some m = some .interleaved) := not_interleavedL1 hm
  have hblock : ¬ (BufferType.l1 = .l1 ∧ some TensorMemoryLayout.blockSharded = some .interleaved) :=
    not_interleavedL1 rfl
  rw [computedMemref, computedMemref, logicalShardShape, logicalShardShape, if_neg hm',
    if_neg hblock]

/-- **One turn of a loop** builds the layout of its grid. -/
theorem onGrid_of_candidate {base L : TTNNLayoutAttr} {grid : List ℕ}
    (hbase : base.getElementType = e ∧ base.getBufferType = .l1 ∧
      base.memLayout = some .blockSharded) (hm : m.isSharded) (hcores : ∀ g ∈ grid, 0 < g)
    (h : candidate base T m grid = .ok L) : OnGrid T e m grid L := by
  obtain ⟨he, hb, hlayout⟩ := hbase
  rw [candidate] at h
  obtain ⟨moved, hmoved, h⟩ := bind_eq_ok.mp h
  rw [withGrid, he, hb, hlayout] at hmoved
  obtain ⟨hvalid, -⟩ := good_of_get (not_interleavedL1 rfl) hcores hmoved
  have htwo : moved.isTiled → 2 ≤ moved.memref.shape.length := by
    intro htiled
    rw [hvalid.shard]
    exact (hvalid.tiled htiled).1
  rw [moved.withMemoryLayout_eq htwo] at h
  obtain ⟨hlinear, hgrid, hmemref, hm'⟩ := (build_eq_ok_iff _ _ _ _ _).mp h
  obtain ⟨htile, hmap, hshard, hgrid', -⟩ := (get_eq_ok_iff _ _ _ _ _ _ _).mp hmoved
  refine (get_eq_ok_iff _ _ _ _ _ _ _).mpr ⟨htile, ?_, ?_, hgrid.trans hgrid', hm'⟩
  · rw [hlinear]
    exact hmap
  · rw [computedMemref_sharded hm, hlinear, hmemref]
    exact hshard

theorem extents_two (e : ElementType) : ∃ a b, 0 < a ∧ 0 < b ∧ e.extents 2 = [a, b] := by
  cases e with
  | scalar d => exact ⟨1, 1, Nat.one_pos, Nat.one_pos, rfl⟩
  | tile t => exact ⟨t.height, t.width, t.height_pos, t.width_pos, rfl⟩

/-- Tensors whose layouts can be counted: there is a dimension, no extent is zero, and the strides
fit. -/
structure Regular (T : List ℕ) (e : ElementType) : Prop where
  nonempty : T ≠ []
  pos : ∀ n ∈ T, 0 < n
  strides : StridesFit (physicalShape e T)

theorem le_alignUp (n : ℕ) : n ≤ alignUp n := by
  have hdiv := Nat.lt_div_mul_add (a := n + tileExtent - 1) (b := tileExtent) (by decide)
  have htile : tileExtent = 32 := rfl
  rw [alignUp]
  omega

theorem physicalShape_pos (hpos : ∀ n ∈ T, 0 < n) : ∀ n ∈ physicalShape e T, 0 < n := by
  cases e with
  | scalar d => exact hpos
  | tile t =>
    intro n hn
    obtain ⟨i, hi, rfl⟩ := List.mem_mapIdx.mp hn
    have hi' := hpos _ (List.getElem_mem hi)
    split_ifs
    · exact hi'.trans_le (le_alignUp _)
    · exact hi'

theorem physicalShape_ne_nil (hne : T ≠ []) : physicalShape e T ≠ [] := by
  cases e with
  | scalar d => exact hne
  | tile t => simpa [physicalShape, getTilePaddedShape] using hne

/-- The collapsed extent of a tensor and its last extent, padded. -/
def physicalExtents (T : List ℕ) (e : ElementType) : ℕ × ℕ :=
  ((physicalShape e T).dropLast.prod, (physicalShape e T).getLastD 0)

theorem physicalExtents_pos (hT : Regular T e) :
    0 < (physicalExtents T e).1 ∧ 0 < (physicalExtents T e).2 := by
  have hpos := physicalShape_pos (e := e) hT.pos
  refine ⟨prod_pos_of_forall_pos fun n hn => hpos n (List.mem_of_mem_dropLast hn), ?_⟩
  have hne := physicalShape_ne_nil (e := e) hT.nonempty
  rw [physicalExtents, List.getLastD_eq_getLast?, List.getLast?_eq_getLast_of_ne_nil hne]
  exact hpos _ (List.getLast_mem hne)

/-- What the layout of a grid is made of. -/
structure GridSpec (T : List ℕ) (e : ElementType) (m : TensorMemoryLayout) (h w : ℕ)
    (L : TTNNLayoutAttr) : Prop where
  grid : L.grid = [h, w]
  elementType : L.getElementType = e
  memLayout : L.memLayout = some m
  results : L.linear.results.length = 2
  physical : L.physical T = [((physicalExtents T e).1 : ℤ), ((physicalExtents T e).2 : ℤ)]
  shard : ∀ a b, e.extents 2 = [a, b] → L.memref.shape.map (fun n : ℕ => (n : ℤ)) =
    [shardExtent (physicalExtents T e).1 h a, shardExtent (physicalExtents T e).2 w b]
  covers : L.Covers T

variable {L : TTNNLayoutAttr}

/-- **The layout of a grid**: its shard has the extents of each dimension. -/
theorem onGrid_spec (hT : Regular T e) (hm : m.isSharded) {h w : ℕ} (hh : 0 < h) (hw : 0 < w)
    (hL : OnGrid T e m [h, w] L) : GridSpec T e m h w L := by
  obtain ⟨he, hb, hgrid, hlayout⟩ := parts_of_get hL
  have hcores : ∀ g ∈ [h, w], 0 < g := by simp [hh, hw]
  obtain ⟨hvalid, hcomputed⟩ := good_of_get (not_interleavedL1 hm) hcores hL
  obtain ⟨-, hlinear, -⟩ := (get_eq_ok_iff _ _ _ _ _ _ _).mp hL
  have hphysical : L.physical T =
      [((physicalExtents T e).1 : ℤ), ((physicalExtents T e).2 : ℤ)] := by
    rw [TTNNLayoutAttr.physical, he]
    exact evalShape_collapsed (physicalShape_ne_nil hT.nonempty) (physicalShape_pos hT.pos)
      hT.strides rfl hlinear
  have heven := ((valid_and_computed_iff L T hvalid.dims hvalid.results
    (fun h => (hvalid.tiled h).2) hvalid.cores).mp ⟨hvalid, hcomputed⟩).2
  rw [hb, hlayout, if_neg (not_interleavedL1 hm)] at heven
  unfold TTNNLayoutAttr.Even at heven
  rw [hphysical, hgrid, he] at heven
  refine ⟨hgrid, he, hlayout, by rw [hvalid.results, hgrid]; rfl, hphysical, fun a b hab => ?_,
    hvalid.covers⟩
  exact heven.trans (by rw [show [h, w].length = 2 from rfl, hab]; rfl)

/-! ## The smallest grid -/

variable {maxGrid : ℕ × ℕ}

theorem mem_grids {grid : List ℕ} :
    grid ∈ grids maxGrid m ↔ ∃ h w, grid = [h, w] ∧ 0 < h ∧ h ≤ (bounds maxGrid m).1 ∧
      0 < w ∧ w ≤ (bounds maxGrid m).2 := by
  simp only [grids, List.mem_flatMap, List.mem_map, List.mem_range]
  constructor
  · rintro ⟨height, hheight, width, hwidth, rfl⟩
    exact ⟨height + 1, width + 1, rfl, by omega, by omega, by omega, by omega⟩
  · rintro ⟨h, w, rfl, hh, hh', hw, hw'⟩
    refine ⟨h - 1, by omega, w - 1, by omega, ?_⟩
    rw [Nat.sub_add_cancel hh, Nat.sub_add_cancel hw]

/-- The order of the loops: by height, then by width. -/
def Before (grid grid' : List ℕ) : Prop :=
  grid.getD 0 0 < grid'.getD 0 0 ∨
    (grid.getD 0 0 = grid'.getD 0 0 ∧ grid.getD 1 0 < grid'.getD 1 0)

theorem pairwise_grids (maxGrid : ℕ × ℕ) (m : TensorMemoryLayout) :
    (grids maxGrid m).Pairwise Before := by
  refine List.pairwise_flatMap.mpr ⟨fun height _ => ?_, ?_⟩
  · refine List.pairwise_map.mpr (List.pairwise_lt_range.imp fun hlt => .inr ⟨rfl, ?_⟩)
    exact Nat.succ_lt_succ hlt
  · refine List.pairwise_lt_range.imp fun hlt x hx y hy => .inl ?_
    obtain ⟨_, -, rfl⟩ := List.mem_map.mp hx
    obtain ⟨_, -, rfl⟩ := List.mem_map.mp hy
    exact Nat.succ_lt_succ hlt

section Kept

variable {maxGrid : ℕ × ℕ} {candidates : List TTNNLayoutAttr}

theorem exists_candidate (hall : List.Forall₂ (OnGrid T e m) (grids maxGrid m) candidates)
    {grid : List ℕ} (hgrid : grid ∈ grids maxGrid m) : ∃ G ∈ candidates, OnGrid T e m grid G := by
  obtain ⟨i, hi, rfl⟩ := List.getElem_of_mem hgrid
  have hi' : i < candidates.length := hall.length_eq ▸ hi
  exact ⟨candidates[i], List.getElem_mem hi', hall.get hi hi'⟩

variable {L : TTNNLayoutAttr}

theorem exists_grid (hall : List.Forall₂ (OnGrid T e m) (grids maxGrid m) candidates)
    (hL : L ∈ candidates) : ∃ grid ∈ grids maxGrid m, OnGrid T e m grid L := by
  obtain ⟨i, hi, rfl⟩ := List.getElem_of_mem hL
  have hi' : i < (grids maxGrid m).length := hall.length_eq.symm ▸ hi
  exact ⟨(grids maxGrid m)[i], List.getElem_mem hi', hall.get hi' hi⟩

theorem pairwise_candidates (hall : List.Forall₂ (OnGrid T e m) (grids maxGrid m) candidates) :
    candidates.Pairwise fun L L' => Before L.grid L'.grid := by
  have hmap : candidates.map TTNNLayoutAttr.grid = grids maxGrid m := by
    refine List.ext_getElem (by simp [hall.length_eq]) fun i h₁ h₂ => ?_
    rw [List.getElem_map]
    exact (parts_of_get (hall.get h₂ (by simpa using h₁))).2.2.1
  have hpairwise := pairwise_grids maxGrid m
  rw [← hmap] at hpairwise
  exact List.pairwise_map.mp hpairwise

theorem shape_eq_iff {h w h' w' a b : ℕ} (hab : e.extents 2 = [a, b]) {L G : TTNNLayoutAttr}
    (hL : GridSpec T e m h w L) (hG : GridSpec T e m h' w' G) :
    G.memref.shape = L.memref.shape ↔
      shardExtent (physicalExtents T e).1 h' a = shardExtent (physicalExtents T e).1 h a ∧
        shardExtent (physicalExtents T e).2 w' b = shardExtent (physicalExtents T e).2 w b := by
  have hcast : G.memref.shape = L.memref.shape ↔
      G.memref.shape.map (fun n : ℕ => (n : ℤ)) = L.memref.shape.map (fun n : ℕ => (n : ℤ)) :=
    ⟨fun h => by rw [h], fun h => List.map_injective_iff.mpr Nat.cast_injective h⟩
  rw [hcast, hL.shard a b hab, hG.shard a b hab]
  simp

section

variable (hT : Regular T e) (hm : m.isSharded)
  (hall : List.Forall₂ (OnGrid T e m) (grids maxGrid m) candidates)

include hT hm hall

/-- **The first candidate of a shard shape has the smallest grid.** -/
theorem smallest_of_mem_firstPerKey (hL : L ∈ firstPerKey (fun L => L.memref.shape) [] candidates) :
    Smallest T maxGrid e m L := by
  obtain ⟨a, b, -, -, hab⟩ := extents_two e
  obtain ⟨grid, hgrid, hon⟩ := exists_grid hall ((firstPerKey_sublist _ _ _).subset hL)
  obtain ⟨h, w, rfl, hh, hh', hw, hw'⟩ := mem_grids.mp hgrid
  have hspec := onGrid_spec hT hm hh hw hon
  rw [Smallest, hspec.grid]
  refine ⟨hgrid, hon, fun grid hgrid' G hG hshape => ?_⟩
  obtain ⟨h₂, w₂, rfl, hh₂, hh₂', hw₂, hw₂'⟩ := mem_grids.mp hgrid'
  obtain ⟨hfirst, hsecond⟩ := (shape_eq_iff hab hspec (onGrid_spec hT hm hh₂ hw₂ hG)).mp hshape
  -- the two grids mixed have the same shard shape, and come behind
  have hbehind : ∀ h' w', [h', w'] ∈ grids maxGrid m →
      shardExtent (physicalExtents T e).1 h' a = shardExtent (physicalExtents T e).1 h a →
      shardExtent (physicalExtents T e).2 w' b = shardExtent (physicalExtents T e).2 w b →
      [h', w'] = [h, w] ∨ Before [h, w] [h', w'] := by
    intro h' w' hmem hrow hcol
    obtain ⟨_, _, heq, hpos, -, hpos', -⟩ := mem_grids.mp hmem
    cases heq
    obtain ⟨M, hM, honM⟩ := exists_candidate hall hmem
    have hspecM := onGrid_spec hT hm hpos hpos' honM
    have hkey := (shape_eq_iff hab hspec hspecM).mpr ⟨hrow, hcol⟩
    rcases eq_or_rel_of_mem_firstPerKey (pairwise_candidates hall) hM hL hkey with rfl | hrel
    · exact .inl (hspecM.grid.symm.trans hspec.grid)
    · rw [hspecM.grid, hspec.grid] at hrel
      exact .inr hrel
  have hrows := hbehind h₂ w (mem_grids.mpr ⟨h₂, w, rfl, hh₂, hh₂', hw, hw'⟩) hfirst rfl
  have hcols := hbehind h w₂ (mem_grids.mpr ⟨h, w₂, rfl, hh, hh', hw₂, hw₂'⟩) rfl hsecond
  simp only [Before, List.cons.injEq, List.getD_cons_zero, List.getD_cons_succ] at hrows hcols
  exact .cons (by omega) (.cons (by omega) .nil)

/-- **The smallest grid is occupied**: the last row and the last column of cores start inside the
tensor. -/
theorem starts_of_smallest (hL : Smallest T maxGrid e m L) :
    ∃ h w a b, 0 < h ∧ 0 < w ∧ 0 < a ∧ 0 < b ∧ e.extents 2 = [a, b] ∧ GridSpec T e m h w L ∧
      ((h - 1 : ℕ) : ℤ) * (a * shardExtent (physicalExtents T e).1 h a) < (physicalExtents T e).1 ∧
      ((w - 1 : ℕ) : ℤ) * (b * shardExtent (physicalExtents T e).2 w b) <
        (physicalExtents T e).2 := by
  obtain ⟨hgrid, hon, hsmall⟩ := hL
  obtain ⟨a, b, ha, hb, hab⟩ := extents_two e
  obtain ⟨h, w, heq, hh, hh', hw, hw'⟩ := mem_grids.mp hgrid
  rw [heq] at hon hsmall
  have hspec := onGrid_spec hT hm hh hw hon
  obtain ⟨hp, hq⟩ := physicalExtents_pos hT
  have hfewest : ∀ h' w', 0 < h' → h' ≤ h → 0 < w' → w' ≤ w →
      shardExtent (physicalExtents T e).1 h' a = shardExtent (physicalExtents T e).1 h a →
      shardExtent (physicalExtents T e).2 w' b = shardExtent (physicalExtents T e).2 w b →
      h ≤ h' ∧ w ≤ w' := by
    intro h' w' hpos hle hpos' hle' hrow hcol
    have hmem : [h', w'] ∈ grids maxGrid m :=
      mem_grids.mpr ⟨h', w', rfl, hpos, by omega, hpos', by omega⟩
    obtain ⟨G, -, hG⟩ := exists_candidate hall hmem
    have hshape := (shape_eq_iff hab hspec (onGrid_spec hT hm hpos hpos' hG)).mpr ⟨hrow, hcol⟩
    have hforall := hsmall [h', w'] hmem G hG hshape
    rw [List.forall₂_cons, List.forall₂_cons] at hforall
    exact ⟨hforall.1, hforall.2.1⟩
  refine ⟨h, w, a, b, hh, hw, ha, hb, hab, hspec, ?_, ?_⟩
  · exact start_lt_of_fewest (by exact_mod_cast hp) hh ha fun h' hpos hle hrow =>
      (hfewest h' w hpos hle hw le_rfl hrow rfl).1
  · exact start_lt_of_fewest (by exact_mod_cast hq) hw hb fun w' hpos hle hcol =>
      (hfewest h w' hh le_rfl hpos hle rfl hcol).2

/-- No core of the smallest grid holds an empty shard. -/
theorem occupied_of_smallest (hL : Smallest T maxGrid e m L) : Occupied T L := by
  obtain ⟨h, w, a, b, hh, hw, ha, hb, hab, hspec, hrow, hcol⟩ := starts_of_smallest hT hm hall hL
  have hshard := hspec.shard a b hab
  intro core hcore
  rw [hspec.grid] at hcore
  cases hcore with
  | @cons c _ rest _ hc hrest =>
    cases hrest with
    | @cons d _ rest _ hd hnil =>
      cases hnil
      obtain ⟨s, t, hst⟩ : ∃ s t, L.memref.shape = [s, t] := by
        have hlength := congrArg List.length hshard
        rw [List.length_map] at hlength
        exact List.length_eq_two.mp hlength
      rw [hst] at hshard
      simp only [List.map_cons, List.map_nil, List.cons.injEq, and_true] at hshard
      rw [← hshard.1] at hrow
      rw [← hshard.2] at hcol
      have hbound : ∀ i n x y p : ℕ, i < n →
          ((n - 1 : ℕ) : ℤ) * ((x : ℤ) * y) < p → ((i * (y * x) : ℕ) : ℤ) < p := by
        intro i n x y p hin hlt
        have hle : i * (y * x) ≤ (n - 1) * (x * y) := by
          rw [mul_comm y x]
          exact Nat.mul_le_mul_right _ (by omega)
        exact lt_of_le_of_lt (by exact_mod_cast hle) hlt
      rw [hspec.physical, shardElements, hst, hspec.elementType, hspec.grid,
        show [h, w].length = 2 from rfl, hab]
      exact .cons (hbound c h a s _ hc hrow) (.cons (hbound d w b t _ hd hcol) .nil)

end

/-- The smallest grid has at least as many tiles as cores. -/
theorem compatible_of_smallest {legal : List ℕ → TTNNLayoutAttr → Bool} (hT : Regular T e)
    (hm : m.isSharded) (hall : List.Forall₂ (OnGrid T e m) (grids maxGrid m) candidates)
    (hL : Smallest T maxGrid e m L) (hlegal : legal T L = true) :
    tensorShapeCompatibleWithShard legal T L = true := by
  obtain ⟨h, w, a, b, hh, hw, ha, hb, hab, hspec, hrow, hcol⟩ := starts_of_smallest hT hm hall hL
  obtain ⟨hp, hq⟩ := physicalExtents_pos hT
  rw [tensorShapeCompatibleWithShard]
  split_ifs with hsharded htiled
  · have hphysical : evalShape L.linear (getTilePaddedShape T) =
        [((physicalExtents T e).1 : ℤ), ((physicalExtents T e).2 : ℤ)] := by
      rw [← hspec.physical, TTNNLayoutAttr.physical]
      have hisTile : L.getElementType.isTile = true := htiled
      cases helt : L.getElementType with
      | scalar d => rw [helt] at hisTile; cases hisTile
      | tile t => rfl
    have hrows := cores_le_of_fewest (by exact_mod_cast hp) hh ha hrow
    have hcols := cores_le_of_fewest (by exact_mod_cast hq) hw hb hcol
    rw [getTiledShape, hphysical, hspec.results, hspec.elementType, hab, hspec.grid]
    simp only [List.zipWith_cons_cons, List.zipWith_nil_left, List.all_cons, List.all_nil, id,
      decide_eq_true hrows, decide_eq_true hcols, Bool.and_self]
  · rfl
  · rfl

end Kept

/-! ## The kept layouts -/

/-- The layouts of a memory layout, before the filter. -/
def Distinct (T : List ℕ) (maxGrid : ℕ × ℕ) (e : ElementType) (m : TensorMemoryLayout)
    (layouts : List TTNNLayoutAttr) : Prop :=
  ∃ candidates, List.Forall₂ (OnGrid T e m) (grids maxGrid m) candidates ∧
    layouts = firstPerKey (fun L => L.memref.shape) [] candidates

variable {layouts : List TTNNLayoutAttr}

/-- What the loop of a memory layout returns. -/
theorem distinct_of_distinctShards {base : TTNNLayoutAttr}
    (hbase : base.getElementType = e ∧ base.getBufferType = .l1 ∧
      base.memLayout = some .blockSharded) (hm : m.isSharded)
    (h : distinctShards base T maxGrid m = .ok layouts) : Distinct T maxGrid e m layouts := by
  rw [distinctShards] at h
  obtain ⟨candidates, hcandidates, h⟩ := bind_eq_ok.mp h
  obtain rfl := Except.ok.inj h
  refine ⟨candidates, ?_, rfl⟩
  have hall := forall₂_of_mapM_eq_ok hcandidates
  refine List.forall₂_iff_get.mpr ⟨hall.length_eq, fun i h₁ h₂ => ?_⟩
  refine onGrid_of_candidate hbase hm (fun g hg => ?_) (hall.get h₁ h₂)
  obtain ⟨h, w, heq, hh, -, hw, -⟩ := mem_grids.mp (List.get_mem _ ⟨i, h₁⟩)
  rw [heq] at hg
  rcases List.mem_pair.mp hg with rfl | rfl
  · exact hh
  · exact hw

theorem mem_distinct (h : Distinct T maxGrid e m layouts) (hL : L ∈ layouts) :
    L.getElementType = e ∧ L.memLayout = some m := by
  obtain ⟨candidates, hall, rfl⟩ := h
  obtain ⟨grid, -, hon⟩ := exists_grid hall ((firstPerKey_sublist _ _ _).subset hL)
  obtain ⟨he, -, -, hm⟩ := parts_of_get hon
  exact ⟨he, hm⟩

/-- **Filtering the loop of a memory layout** leaves what is meant to be kept. -/
theorem enumerates_of_distinct {legal : List ℕ → TTNNLayoutAttr → Bool}
    {layouts kept : List TTNNLayoutAttr} (hT : Regular T e) (hm : m.isSharded)
    (h : Distinct T maxGrid e m layouts)
    (hkept : kept.Perm (layouts.filter (tensorShapeCompatibleWithShard legal T))) :
    Enumerates (fun L => legal T L = false) T maxGrid e m kept := by
  obtain ⟨candidates, hall, rfl⟩ := h
  have hmem : ∀ L ∈ kept, L ∈ firstPerKey (fun L => L.memref.shape) [] candidates := fun L hL =>
    (List.mem_filter.mp (hkept.mem_iff.mp hL)).1
  have hsmallest : ∀ L ∈ kept, Smallest T maxGrid e m L := fun L hL =>
    smallest_of_mem_firstPerKey hT hm hall (hmem L hL)
  refine ⟨?_, fun grid hgrid => ?_, hsmallest, fun L hL => ?_, fun L hL => ?_⟩
  · have hnodup := nodup_firstPerKey (fun L : TTNNLayoutAttr => L.memref.shape) [] candidates
    exact ((hkept.map _).nodup_iff).mpr (hnodup.sublist (List.filter_sublist.map _))
  · obtain ⟨G, hG, hon⟩ := exists_candidate hall hgrid
    obtain ⟨L, hL, hkey⟩ : ∃ L ∈ firstPerKey (fun L : TTNNLayoutAttr => L.memref.shape) [] candidates,
        L.memref.shape = G.memref.shape := exists_mem_firstPerKey hG List.not_mem_nil
    have hLsmallest := smallest_of_mem_firstPerKey hT hm hall hL
    refine ⟨G, L, hon, hLsmallest, hkey, ?_⟩
    cases hlegal : legal T L with
    | false => exact .inr rfl
    | true =>
      exact .inl (hkept.mem_iff.mpr (List.mem_filter.mpr
        ⟨hL, compatible_of_smallest hT hm hall hLsmallest hlegal⟩))
  · exact occupied_of_smallest hT hm hall (hsmallest L hL)
  · obtain ⟨h, w, a, b, -, -, -, -, -, hspec, -, -⟩ := starts_of_smallest hT hm hall (hsmallest L hL)
    refine ⟨hspec.covers, ?_⟩
    rw [hspec.physical, hspec.elementType]
    rfl

theorem dataType_of_mem_elementTypes {d : DataType} {rowMajorAllowed : Bool}
    (he : e ∈ elementTypes d rowMajorAllowed) : e = .scalar d ∨ e = tileElementType d := by
  rw [elementTypes] at he
  split_ifs at he
  · simpa using he
  · exact .inr (List.mem_singleton.mp he)

theorem nodup_elementTypes (d : DataType) (rowMajorAllowed : Bool) :
    (elementTypes d rowMajorAllowed).Nodup := by
  rw [elementTypes]
  split_ifs
  · simp [tileElementType]
  · exact List.nodup_singleton _

theorem tile_mem_elementTypes (d : DataType) (rowMajorAllowed : Bool) :
    tileElementType d ∈ elementTypes d rowMajorAllowed := by
  rw [elementTypes]
  split_ifs <;> simp

/-- The sharded layouts of an element type are those of the three loops. -/
theorem shardedLayouts_spec (h : shardedLayouts L T maxGrid e = .ok layouts) :
    ¬ (e.isTile ∧ T = []) ∧ ∃ parts, layouts = parts.flatten ∧
      List.Forall₂ (fun m l => m.isSharded = true ∧ Distinct T maxGrid e m l)
        shardedMemLayouts parts := by
  rw [shardedLayouts] at h
  obtain ⟨base, hbase, h⟩ := bind_eq_ok.mp h
  obtain ⟨parts, hparts, h⟩ := bind_eq_ok.mp h
  obtain rfl := Except.ok.inj h
  obtain ⟨he, hb, hlayout, htile⟩ := shardedBase_spec hbase
  refine ⟨htile, parts, rfl, ?_⟩
  have hall := forall₂_of_mapM_eq_ok hparts
  refine List.forall₂_iff_get.mpr ⟨hall.length_eq, fun i h₁ h₂ => ?_⟩
  have hm : (shardedMemLayouts.get ⟨i, h₁⟩).isSharded = true := by
    have hmem := List.get_mem shardedMemLayouts ⟨i, h₁⟩
    have hsharded : ∀ m ∈ shardedMemLayouts, m.isSharded = true := by decide
    exact hsharded _ hmem
  exact ⟨hm, distinct_of_distinctShards ⟨he, hb, hlayout⟩ hm (hall.get h₁ h₂)⟩

theorem layoutsOf_eq_nil (h : ∀ L ∈ layouts, ¬ (L.getElementType = e ∧ L.memLayout = some m)) :
    layoutsOf layouts e m = [] :=
  List.filter_eq_nil_iff.mpr fun L hL => by simpa using h L hL

theorem mem_shardedMemLayouts (hm : m.isSharded) : m ∈ shardedMemLayouts := by
  cases m with
  | interleaved => cases hm
  | singleBank => cases hm
  | heightSharded => decide
  | widthSharded => decide
  | blockSharded => decide

/-- The layouts of one memory layout, among those of an element type. -/
theorem layoutsOf_shardedLayouts (hm : m.isSharded)
    (h : shardedLayouts L T maxGrid e = .ok layouts) :
    Distinct T maxGrid e m (layoutsOf layouts e m) := by
  obtain ⟨-, parts, rfl, hparts⟩ := shardedLayouts_spec h
  have hother : ∀ m' l, m'.isSharded = true ∧ Distinct T maxGrid e m' l → m' ≠ m →
      layoutsOf l e m = [] := by
    rintro m' l ⟨-, hl⟩ hne
    refine layoutsOf_eq_nil fun L hL heq => hne ?_
    have hm' := (mem_distinct hl hL).2
    rw [heq.2] at hm'
    exact (Option.some.inj hm').symm
  obtain ⟨l, ⟨-, hl⟩, hflatten⟩ :=
    filter_flatten_of_unique hparts (by decide) (mem_shardedMemLayouts hm) hother
  have hself : layoutsOf l e m = l :=
    List.filter_eq_self.mpr fun L hL => by simpa using mem_distinct hl hL
  have hlist : layoutsOf parts.flatten e m = l := hflatten.trans hself
  rw [hlist]
  exact hl

/-- The interleaved layouts of an element type. -/
theorem mem_interleavedLayouts (h : interleavedLayouts T maxGrid e = .ok layouts) :
    ∀ L ∈ layouts, L.getElementType = e ∧ L.memLayout = some .interleaved := by
  rw [interleavedLayouts] at h
  obtain ⟨dram, hdram, h⟩ := bind_eq_ok.mp h
  obtain ⟨he, -, -, hm⟩ := parts_of_get hdram
  split_ifs at h with htile
  · obtain ⟨l1, hl1, h⟩ := bind_eq_ok.mp h
    obtain rfl := Except.ok.inj h
    obtain ⟨he', -, -, hm'⟩ := parts_of_get hl1
    intro L hL
    rcases List.mem_pair.mp hL with rfl | rfl
    · exact ⟨he, hm⟩
    · exact ⟨he', hm'⟩
  · obtain rfl := Except.ok.inj h
    intro L hL
    obtain rfl := List.mem_singleton.mp hL
    exact ⟨he, hm⟩

theorem elementType_of_mem_shardedLayouts {L G : TTNNLayoutAttr}
    (h : shardedLayouts L T maxGrid e = .ok layouts) (hG : G ∈ layouts) : G.getElementType = e := by
  obtain ⟨-, parts, rfl, hparts⟩ := shardedLayouts_spec h
  obtain ⟨_, -, l, ⟨-, hl⟩, hG⟩ := exists_of_mem_flatten hparts hG
  exact (mem_distinct hl hG).1

section Generate

variable {sort : List TTNNLayoutAttr → List TTNNLayoutAttr}
  {legal : List ℕ → TTNNLayoutAttr → Bool} {L : TTNNLayoutAttr} {maxGrid : ℕ × ℕ}
  {rowMajorAllowed : Bool} {d : DataType} {layouts : List TTNNLayoutAttr}

/-- What is generated for a scalar type: the interleaved layouts, and the sharded ones filtered and
sorted. -/
theorem generate_eq_ok
    (h : generateAllPossibleLayouts sort legal T L maxGrid d false (-1) rowMajorAllowed =
      .ok layouts) :
    ∃ interleaved sharded, List.Forall₂ (fun e l => interleavedLayouts T maxGrid e = .ok l)
        (elementTypes d rowMajorAllowed) interleaved ∧
      List.Forall₂ (fun e l => shardedLayouts L T maxGrid e = .ok l)
        (elementTypes d rowMajorAllowed) sharded ∧
      layouts = interleaved.flatten ++
        sort (sharded.flatten.filter (tensorShapeCompatibleWithShard legal T)) := by
  rw [generateAllPossibleLayouts] at h
  obtain ⟨interleaved, hinterleaved, h⟩ := bind_eq_ok.mp h
  obtain ⟨sharded, hsharded, h⟩ := bind_eq_ok.mp h
  obtain rfl := Except.ok.inj h
  refine ⟨interleaved, sharded, forall₂_of_mapM_eq_ok hinterleaved, forall₂_of_mapM_eq_ok hsharded,
    ?_⟩
  rw [if_neg (by decide), List.take_length]

/-- All layouts have an element type of the scalar type. -/
theorem elementType_of_mem_generate (hsort : SortsBy getGridVolume sort)
    (h : generateAllPossibleLayouts sort legal T L maxGrid d false (-1) rowMajorAllowed =
      .ok layouts) {G : TTNNLayoutAttr} (hG : G ∈ layouts) :
    G.getElementType ∈ elementTypes d rowMajorAllowed := by
  obtain ⟨interleaved, sharded, hinterleaved, hsharded, rfl⟩ := generate_eq_ok h
  rcases List.mem_append.mp hG with hG | hG
  · obtain ⟨e, he, l, hl, hG⟩ := exists_of_mem_flatten hinterleaved hG
    rw [(mem_interleavedLayouts hl G hG).1]
    exact he
  · have hmem := (List.mem_filter.mp ((hsort.perm _).mem_iff.mp hG)).1
    obtain ⟨e, he, l, hl, hG⟩ := exists_of_mem_flatten hsharded hmem
    rw [elementType_of_mem_shardedLayouts hl hG]
    exact he

theorem nonempty_of_generate
    (h : generateAllPossibleLayouts sort legal T L maxGrid d false (-1) rowMajorAllowed =
      .ok layouts) : T ≠ [] := by
  obtain ⟨-, sharded, -, hsharded, -⟩ := generate_eq_ok h
  obtain ⟨i, hi, htile⟩ := List.getElem_of_mem (tile_mem_elementTypes d rowMajorAllowed)
  have hi' : i < sharded.length := hsharded.length_eq ▸ hi
  have hlayouts : shardedLayouts L T maxGrid (elementTypes d rowMajorAllowed)[i] =
      .ok sharded[i] := hsharded.get hi hi'
  rw [htile] at hlayouts
  exact fun hT => (shardedLayouts_spec hlayouts).1 ⟨rfl, hT⟩

/-- **One scalar type.**  The sharded layouts are those of the loop, filtered. -/
theorem perm_layoutsOf_generate (hsort : SortsBy getGridVolume sort)
    (h : generateAllPossibleLayouts sort legal T L maxGrid d false (-1) rowMajorAllowed =
      .ok layouts) (he : e ∈ elementTypes d rowMajorAllowed) (hm : m.isSharded) :
    ∃ loop, Distinct T maxGrid e m loop ∧ (layoutsOf layouts e m).Perm
      (loop.filter (tensorShapeCompatibleWithShard legal T)) := by
  obtain ⟨interleaved, sharded, hinterleaved, hsharded, rfl⟩ := generate_eq_ok h
  have hnone : layoutsOf interleaved.flatten e m = [] := by
    refine layoutsOf_eq_nil fun G hG heq => ?_
    obtain ⟨_, -, l, hl, hG⟩ := exists_of_mem_flatten hinterleaved hG
    have hlayout := (mem_interleavedLayouts hl G hG).2
    rw [heq.2] at hlayout
    cases hlayout
    cases hm
  have hother : ∀ e' l, shardedLayouts L T maxGrid e' = .ok l → e' ≠ e →
      layoutsOf l e m = [] := fun e' l hl hne => layoutsOf_eq_nil fun G hG heq =>
        hne ((elementType_of_mem_shardedLayouts hl hG).symm.trans heq.1)
  obtain ⟨l, hl, hflatten⟩ :=
    filter_flatten_of_unique hsharded (nodup_elementTypes d rowMajorAllowed) he hother
  refine ⟨layoutsOf l e m, layoutsOf_shardedLayouts hm hl, ?_⟩
  have happend : layoutsOf (interleaved.flatten ++
      sort (sharded.flatten.filter (tensorShapeCompatibleWithShard legal T))) e m =
        layoutsOf (sort (sharded.flatten.filter (tensorShapeCompatibleWithShard legal T))) e m := by
    rw [layoutsOf, List.filter_append]
    exact (congrArg (· ++ _) hnone).trans (List.nil_append _)
  rw [happend]
  refine ((hsort.perm _).filter _).trans ?_
  have hcomm : ∀ p q : TTNNLayoutAttr → Bool, ∀ l : List TTNNLayoutAttr,
      (l.filter q).filter p = (l.filter p).filter q := by
    intro p q l
    rw [List.filter_filter, List.filter_filter]
    exact List.filter_congr fun x _ => Bool.and_comm _ _
  rw [hcomm, hflatten]
  exact List.Perm.refl _

/-- **Enumerating sharded layouts.**  For a tensor without an extent of zero, the sharded layouts
that are generated are the smallest ones of every shard shape, except those that the op model
rejects. -/
theorem enumerates (hsort : SortsBy getGridVolume sort) {scalarTypes : List DataType}
    (hnodup : scalarTypes.Nodup)
    (h : generateLayouts sort legal T L maxGrid scalarTypes rowMajorAllowed = .ok layouts)
    (hpos : ∀ n ∈ T, 0 < n) (hd : d ∈ scalarTypes) (he : e ∈ elementTypes d rowMajorAllowed)
    (hfit : StridesFit (physicalShape e T)) (hm : m.isSharded) :
    Enumerates (fun L => legal T L = false) T maxGrid e m (layoutsOf layouts e m) := by
  rw [generateLayouts] at h
  split_ifs at h
  obtain ⟨parts, hparts, h⟩ := bind_eq_ok.mp h
  obtain rfl := Except.ok.inj h
  have hother : ∀ d' l, generateAllPossibleLayouts sort legal T L maxGrid d' false (-1)
      rowMajorAllowed = .ok l → d' ≠ d → layoutsOf l e m = [] := by
    intro d' l hl hne
    refine layoutsOf_eq_nil fun G hG heq => hne ?_
    have hmem := elementType_of_mem_generate hsort hl hG
    rw [heq.1] at hmem
    rcases dataType_of_mem_elementTypes he with rfl | rfl <;>
      rcases dataType_of_mem_elementTypes hmem with heq' | heq' <;> cases heq' <;> rfl
  obtain ⟨l, hl, hflatten⟩ :=
    filter_flatten_of_unique (forall₂_of_mapM_eq_ok hparts) hnodup hd hother
  have hlist : layoutsOf parts.flatten e m = layoutsOf l e m := hflatten
  obtain ⟨loop, hloop, hperm⟩ := perm_layoutsOf_generate hsort hl he hm
  rw [hlist]
  exact enumerates_of_distinct ⟨nonempty_of_generate hl, hpos, hfit⟩ hm hloop hperm

end Generate

/-- A sort by the volume of the grid. -/
def sortByVolume (layouts : List TTNNLayoutAttr) : List TTNNLayoutAttr :=
  layouts.insertionSort fun L L' => getGridVolume L' ≤ getGridVolume L

/-- A tensor of four tiles on two by two cores, without the op model. -/
theorem enumerates_onFourCores :
    ∃ layouts, generateLayouts sortByVolume (fun _ _ => true) [64, 64] Derivation.onFourCores
        (2, 2) [.bfloat16] true = .ok layouts ∧
      Enumerates (fun _ => true = false) [64, 64] (2, 2) (tileElementType .bfloat16) .heightSharded
        (layoutsOf layouts (tileElementType .bfloat16) .heightSharded) := by
  have hok : (generateLayouts sortByVolume (fun _ _ => true) [64, 64] Derivation.onFourCores (2, 2)
      [.bfloat16] true).toOption.isSome = true := by decide +kernel
  cases h : generateLayouts sortByVolume (fun _ _ => true) [64, 64] Derivation.onFourCores (2, 2)
      [.bfloat16] true with
  | error msg => rw [h] at hok; cases hok
  | ok layouts =>
    exact ⟨layouts, rfl, enumerates (sortsBy_insertionSort getGridVolume)
      (List.nodup_singleton _) h (by decide) List.mem_cons_self (tile_mem_elementTypes _ _)
      (show 1 < 2 ^ 31 by decide) rfl⟩

/-- A layout of a tensor without rows, on the host. -/
def withoutRows : TTNNLayoutAttr where
  linear := ⟨2, 0, [AffineExpr.dim 0, AffineExpr.dim 1]⟩
  grid := [1, 1]
  memref := ⟨[0, 32], .scalar .bfloat16, .systemMemory⟩
  memLayout := none
  verified := rfl

/-- **A tensor without rows** has fewer tiles than any grid has cores: no grid is represented. -/
theorem withoutRows_not_enumerates :
    withoutRows.Valid [0, 32] ∧ ∃ layouts, generateLayouts sortByVolume (fun _ _ => true) [0, 32]
        withoutRows (1, 1) [.bfloat16] false = .ok layouts ∧
      ¬ Enumerates (fun _ => False) [0, 32] (1, 1) (tileElementType .bfloat16) .blockSharded
        (layoutsOf layouts (tileElementType .bfloat16) .blockSharded) := by
  refine ⟨⟨rfl, rfl, rfl, by decide, by decide, ?_⟩, ?_⟩
  · exact .cons (by decide) (.cons (by decide) .nil)
  have hok : (generateLayouts sortByVolume (fun _ _ => true) [0, 32] withoutRows (1, 1)
      [.bfloat16] false).toOption.map (fun layouts =>
        layoutsOf layouts (tileElementType .bfloat16) .blockSharded) = some [] := by decide +kernel
  cases h : generateLayouts sortByVolume (fun _ _ => true) [0, 32] withoutRows (1, 1)
      [.bfloat16] false with
  | error msg => rw [h] at hok; cases hok
  | ok layouts =>
    rw [h] at hok
    refine ⟨layouts, rfl, fun henumerates => ?_⟩
    obtain ⟨G, L, -, -, -, hL | hL⟩ := henumerates.represented [1, 1] (by decide)
    · have hnil : layoutsOf layouts (tileElementType .bfloat16) .blockSharded = [] :=
        Option.some.inj hok
      rw [hnil] at hL
      cases hL
    · exact hL

end AllPossibleLayouts

end TTNN
