/-
# Stream indices of a generic operation

A `ttir.generic` runs its regions on a grid of cores and loops over the blocks of its
operands.  `buildStreamIndex` of `GenericLowerDMAs.cpp` computes, for the DMA of a streamed
operand, which block a core reads in an iteration.

* `ProjectedPermutation`, `Operand`, `GenericOp` : the indexing maps, the grids and shards;
* `GenericOp.verify` : the part of the verifier that looks at maps and grids;
* `GenericOp.getLoopBounds` : the bounds of the generated loops;
* `buildStreamIndex` : the block index, as arithmetic on core and iteration indices;
* `GenericOp.Covers` : every core reads its share of the operand, block by block;
* `streamsCover_iff` : when the stream indices do that.

The index of a grid dimension multiplies the core index by the shard extent, and takes the
core along the loop dimension; a block index counts shards, and the core index it needs is
the one along the grid dimension.
-/
import TTMLIR.TTNNLayout

namespace TTIR

/-! ## Maps and operands -/

/-- A projected permutation: its results are distinct dimensions. -/
structure ProjectedPermutation : Type where
  numDims : ℕ
  results : List ℕ
  lt_numDims : ∀ d ∈ results, d < numDims
  nodup : results.Nodup

namespace ProjectedPermutation

def getNumResults (map : ProjectedPermutation) : ℕ := map.results.length

/-- `getResultPosition` of a dimension. -/
def getResultPosition (map : ProjectedPermutation) (dim : ℕ) : Option ℕ :=
  if dim ∈ map.results then some (map.results.idxOf dim) else none

end ProjectedPermutation

/-- An operand of a generic operation: its indexing map, the grid of its blocks, the shape of
one block, and whether it is streamed. -/
structure Operand : Type where
  map : ProjectedPermutation
  gridShape : List ℕ
  shardShape : List ℕ
  isStream : Bool
  length_gridShape : gridShape.length = map.results.length
  length_shardShape : shardShape.length = map.results.length

/-- The extent of an operand grid along a loop dimension; zero where the operand does not use
it. -/
def Operand.extentAt (o : Operand) (dim : ℕ) : ℕ :=
  match o.map.getResultPosition dim with
  | some result => o.gridShape.getD result 0
  | none => 0

/-- The grid shape under the inverse of the indexing map, broadcast to the other dimensions. -/
def Operand.broadcastGrid (o : Operand) : List ℕ := (List.range o.map.numDims).map o.extentAt

/-- A generic operation with one output. -/
structure GenericOp : Type where
  grid : List ℕ
  inputs : List Operand
  output : Operand

namespace GenericOp

def operands (op : GenericOp) : List Operand := op.inputs ++ [op.output]

/-- `getNumDims`: the dimensions of the first indexing map. -/
def getNumDims (op : GenericOp) : ℕ := (op.inputs.headD op.output).map.numDims

end GenericOp

/-! ## The verifier -/

/-- `compareCompatibleDims`: the first dimension where two extents differ, neither of them
zero. -/
def compareCompatibleDims (as bs : List ℕ) : Option ℕ :=
  (List.range (min as.length bs.length)).find? fun dim =>
    as.getD dim 0 ≠ bs.getD dim 0 && as.getD dim 0 ≠ 0 && bs.getD dim 0 ≠ 0

/-- A shape, as a diagnostic prints it. -/
def showShape (shape : List ℕ) : String := String.intercalate ", " (shape.map toString)

/-- The diagnostic for two operands with grids that do not match. -/
def gridMismatch (operandA operandB : ℕ) (shapeA shapeB : String) (dim : ℕ) : String :=
  s!"grid shape mismatch between operand[{operandA}] grid_shape=[{shapeA}] and " ++
    s!"operand[{operandB}] grid_shape=[{shapeB}] at affine dim d{dim}"

/-- `verifyAffineShapes`, on the grid shapes. -/
def verifyAffineShapes (operands : List Operand) : Except String Unit :=
  let mismatch := operands.zipIdx.findSome? fun (a, operandA) =>
    operands.zipIdx.findSome? fun (b, operandB) =>
      if operandA = operandB then none
      else (compareCompatibleDims a.broadcastGrid b.broadcastGrid).map fun dim =>
        gridMismatch operandA operandB (showShape a.gridShape) (showShape b.gridShape) dim
  match mismatch with
  | some msg => .error msg
  | none => .ok ()

namespace GenericOp

/-- The checks of `GenericOp::verify` on maps and grids. -/
def verify (op : GenericOp) : Except String Unit :=
  if op.output.gridShape ≠ op.grid then
    .error "output grid shape must match the generic op's grid shape"
  else if !op.operands.all (fun o => o.map.numDims = op.getNumDims) then
    .error "all indexing maps must have the same number of dimensions"
  else verifyAffineShapes op.operands

end GenericOp

/-! ## Loop bounds -/

/-- `inversePermutation` of the concatenated maps: the first result with each dimension. -/
def inversePermutation (numDims : ℕ) (results : List ℕ) : Option (List ℕ) :=
  if (List.range numDims).all (· ∈ results) then
    some ((List.range numDims).map fun dim => results.idxOf dim)
  else none

/-- The compute grid is divided out of the leading extents. -/
def divideGrid : List ℕ → List ℕ → Except String (List ℕ)
  | [], extents => .ok extents
  | _ :: _, [] => .error "flattenedGridShapes out of range"
  | g :: grid, e :: extents =>
    if g = 0 then .error "remainder by zero"
    else if e % g ≠ 0 then
      .error "Output grid shape must be divisible by compute grid shape"
    else do
      let rest ← divideGrid grid extents
      return e / g :: rest

/-- `getLoopBounds`: the maps and grids are reversed, so that the output comes first. -/
def GenericOp.getLoopBounds (op : GenericOp) : Except String (List ℕ) :=
  let operands := op.operands.reverse
  do
    let extents ← divideGrid op.grid (operands.flatMap Operand.gridShape)
    match inversePermutation op.getNumDims (operands.flatMap fun o : Operand => o.map.results) with
    | none => .error "composing with a null map"
    | some inverse => return inverse.map fun position => extents.getD position 0

/-! ## Stream indices -/

/-- Index arithmetic in the region of a core. -/
inductive IndexValue : Type where
  | iterIndex (dim : ℕ)
  | coreIndex (dim : ℕ)
  | constant (value : ℕ)
  | muli (lhs rhs : IndexValue)
  | addi (lhs rhs : IndexValue)
  deriving DecidableEq, Repr

/-- The value on a core, in an iteration; there is no core index outside of the grid. -/
def IndexValue.eval (core iters : List ℕ) : IndexValue → Option ℕ
  | .iterIndex dim => iters[dim]?
  | .coreIndex dim => core[dim]?
  | .constant value => some value
  | .muli lhs rhs => do return (← lhs.eval core iters) * (← rhs.eval core iters)
  | .addi lhs rhs => do return (← lhs.eval core iters) + (← rhs.eval core iters)

/-- The index of one result: `gridI * dimI + iterI` along a grid dimension. -/
def streamIndexAt (shardShape : List ℕ) (gridIndexingMap : ProjectedPermutation)
    (result dim : ℕ) : IndexValue :=
  if (gridIndexingMap.getResultPosition dim).isSome then
    .addi (.muli (.coreIndex dim) (.constant (shardShape.getD result 0))) (.iterIndex dim)
  else .iterIndex dim

/-- `buildStreamIndex`: the index and its bounds. -/
def buildStreamIndex (gridShape shardShape : List ℕ)
    (dmaIndexingMap gridIndexingMap : ProjectedPermutation) :
    Except String (List IndexValue × List ℕ) :=
  if dmaIndexingMap.numDims ≠ gridIndexingMap.numDims then
    .error "dmaIndexingMap.getNumDims() == gridIndexingMap.getNumDims()"
  else if dmaIndexingMap.getNumResults ≠ gridIndexingMap.getNumResults then
    .error "dmaIndexingMap.getNumResults() == gridIndexingMap.getNumResults()"
  else if dmaIndexingMap.getNumResults ≠ shardShape.length then
    .error "dmaIndexingMap.getNumResults() == shardShape.size()"
  else if dmaIndexingMap.results.zipIdx.any (fun (dim, result) =>
      (gridIndexingMap.getResultPosition dim).any (· ≠ result)) then
    .error "!gridResult || *gridResult == result"
  else
    .ok (dmaIndexingMap.results.zipIdx.map fun (dim, result) =>
      streamIndexAt shardShape gridIndexingMap result dim, gridShape)

/-! ## What the stream indices are for -/

/-- A point of a box: a core of a grid, an iteration of the loops, a block of an operand. -/
def Inside (point shape : List ℕ) : Prop := List.Forall₂ (· < ·) point shape

namespace GenericOp

/-- The share of a core along one result of an operand: a grid dimension is split evenly
over the cores, any other dimension is read as a whole. -/
def share (op : GenericOp) (o : Operand) (result dim : ℕ) (core : List ℕ) : Set ℕ :=
  match op.output.map.getResultPosition dim with
  | some position =>
    let count := o.gridShape.getD result 0 / op.grid.getD position 0
    Set.Ico (core.getD position 0 * count) ((core.getD position 0 + 1) * count)
  | none => Set.Iio (o.gridShape.getD result 0)

/-- The loop index of a core, counted over the whole grid. -/
def globalIndex (op : GenericOp) (bounds core iters : List ℕ) (dim : ℕ) : ℕ :=
  match op.output.map.getResultPosition dim with
  | some position => core.getD position 0 * bounds.getD dim 0 + iters.getD dim 0
  | none => iters.getD dim 0

/-- The block of an operand that an iteration of a core requires. -/
def requiredBlock (op : GenericOp) (o : Operand) (bounds core iters : List ℕ) : List ℕ :=
  o.map.results.map (op.globalIndex bounds core iters)

/-- **The stream index of an operand covers it.**  Every core reads every block of its share
once, every block read is inside of the grid of the operand, and the blocks read are those the
iterations require. -/
structure Covers (op : GenericOp) (bounds : List ℕ) (o : Operand) (stream : List IndexValue) :
    Prop where
  once : ∀ core, Inside core op.grid → ∀ result dim : ℕ, o.map.results[result]? = some dim →
    ∃ value, stream[result]? = some value ∧ ∃ index : ℕ → ℕ,
      (∀ iters i, iters[dim]? = some i → i < bounds.getD dim 0 →
        value.eval core iters = some (index i)) ∧
      Set.BijOn index (Set.Iio (bounds.getD dim 0)) (op.share o result dim core)
  inside : ∀ core iters, Inside core op.grid → Inside iters bounds →
    ∃ block, stream.mapM (IndexValue.eval core iters) = some block ∧ Inside block o.gridShape
  required : ∀ block, (∃ core iters, Inside core op.grid ∧ Inside iters bounds ∧
      stream.mapM (IndexValue.eval core iters) = some block) ↔
    ∃ core iters, Inside core op.grid ∧ Inside iters bounds ∧
      block = op.requiredBlock o bounds core iters

/-- The loops are generated, and the stream index of every streamed input covers it. -/
def StreamsCover (op : GenericOp) : Prop :=
  ∃ bounds, op.getLoopBounds = .ok bounds ∧ ∀ o ∈ op.inputs, o.isStream = true →
    ∃ stream limits, buildStreamIndex o.gridShape o.shardShape o.map op.output.map
      = .ok (stream, limits) ∧ op.Covers bounds o stream

/-- The extent along a dimension of the last input that uses it. -/
def lastExtent (op : GenericOp) (dim : ℕ) : ℕ :=
  ((op.inputs.reverse.find? fun o => dim ∈ o.map.results).map (·.extentAt dim)).getD 0

/-- The stream index of an operand is right.  Along a grid dimension the maps line up and
either there is one core there, with nothing added by the loop dimension, or the loop
dimension is the grid dimension and the shard is a single element; any other dimension has
the extent of the loop. -/
def IndexedRight (op : GenericOp) (o : Operand) : Prop :=
  o.map.getNumResults = op.output.map.getNumResults ∧
    ∀ result dim : ℕ, o.map.results[result]? = some dim →
      if dim ∈ op.output.map.results then
        op.output.map.results[result]? = some dim ∧ dim < op.grid.length ∧
          0 < o.gridShape.getD result 0 ∧
          ((op.grid.getD result 0 = 1 ∧
              (op.grid.getD dim 0 = 1 ∨ o.shardShape.getD result 0 = 0)) ∨
            (dim = result ∧ o.shardShape.getD result 0 = 1))
      else o.gridShape.getD result 0 = op.lastExtent dim

/-- **When the stream indices cover the inputs.** -/
structure HoldsWhen (op : GenericOp) : Prop where
  cores : ∀ g ∈ op.grid, 0 < g
  used : ∀ dim < op.getNumDims, ∃ o ∈ op.operands, dim ∈ o.map.results
  indexed : ∀ o ∈ op.inputs, o.isStream = true → op.IndexedRight o

end GenericOp

/-! ## Maps and grids -/

variable {result dim : ℕ}

namespace ProjectedPermutation

variable {map : ProjectedPermutation}

theorem getResultPosition_of_mem {dim : ℕ} (h : dim ∈ map.results) :
    map.getResultPosition dim = some (map.results.idxOf dim) := if_pos h

theorem getResultPosition_of_notMem {dim : ℕ} (h : dim ∉ map.results) :
    map.getResultPosition dim = none := if_neg h

theorem idxOf_of_getElem? (h : map.results[result]? = some dim) :
    map.results.idxOf dim = result := by
  obtain ⟨hlt, hget⟩ := List.getElem?_eq_some_iff.mp h
  rw [← hget]
  exact map.nodup.idxOf_getElem result hlt

theorem getResultPosition_of_getElem? (h : map.results[result]? = some dim) :
    map.getResultPosition dim = some result := by
  rw [getResultPosition_of_mem (List.mem_of_getElem? h), idxOf_of_getElem? h]

end ProjectedPermutation

variable {o : Operand}

theorem Operand.extentAt_of_getElem?
    (h : o.map.results[result]? = some dim) : o.extentAt dim = o.gridShape.getD result 0 := by
  rw [extentAt, ProjectedPermutation.getResultPosition_of_getElem? h]

theorem Operand.extentAt_of_notMem {dim : ℕ} (h : dim ∉ o.map.results) : o.extentAt dim = 0 := by
  rw [extentAt, ProjectedPermutation.getResultPosition_of_notMem h]

theorem eq_of_compatible {as bs : List ℕ} (hlen : as.length = bs.length)
    (h : compareCompatibleDims as bs = none) (dim : ℕ) (ha : as.getD dim 0 ≠ 0)
    (hb : bs.getD dim 0 ≠ 0) : as.getD dim 0 = bs.getD dim 0 := by
  by_contra hne
  have hlt : dim < min as.length bs.length := by
    rw [← hlen, min_self]
    by_contra hge
    exact ha (List.getD_eq_default _ _ (by omega))
  have hnone := List.find?_eq_none.mp h dim (List.mem_range.mpr hlt)
  simp only [ne_eq, hne, ha, hb, not_false_eq_true, decide_true, Bool.and_self, not_true] at hnone

/-- What the verifier promises. -/
structure GenericOp.Verified (op : GenericOp) : Prop where
  grid_eq : op.output.gridShape = op.grid
  numDims_eq : ∀ o ∈ op.operands, o.map.numDims = op.getNumDims
  compatible : ∀ o ∈ op.inputs, ∀ dim, o.extentAt dim ≠ 0 → op.output.extentAt dim ≠ 0 →
    o.extentAt dim = op.output.extentAt dim

theorem GenericOp.verified_of_verify {op : GenericOp} (h : op.verify = .ok ()) : op.Verified := by
  unfold verify at h
  split_ifs at h with hgrid hdims
  have hdims' : ∀ o ∈ op.operands, o.map.numDims = op.getNumDims := by
    simpa using hdims
  refine ⟨not_not.mp hgrid, hdims', ?_⟩
  intro o ho dim hne hne'
  have hmem : o ∈ op.operands := List.mem_append_left _ ho
  have hmem' : op.output ∈ op.operands := List.mem_append_right _ (List.mem_singleton_self _)
  -- the diagnostic of the pair is not there
  obtain ⟨i, hi, hget⟩ := List.getElem_of_mem ho
  have hpair : (o, i) ∈ op.operands.zipIdx := by
    rw [List.mem_zipIdx_iff_getElem?, operands, List.getElem?_append_left hi,
      List.getElem?_eq_getElem hi, hget]
  have hpair' : (op.output, op.inputs.length) ∈ op.operands.zipIdx := by
    rw [List.mem_zipIdx_iff_getElem?, operands, List.getElem?_append_right (le_refl _),
      Nat.sub_self]
    rfl
  have hcompatible : compareCompatibleDims o.broadcastGrid op.output.broadcastGrid = none := by
    unfold verifyAffineShapes at h
    simp only at h
    split at h
    · cases h
    · next hnone =>
        have hrow := List.findSome?_eq_none_iff.mp hnone (o, i) hpair
        have hcell := List.findSome?_eq_none_iff.mp hrow (op.output, op.inputs.length) hpair'
        simp only [if_neg hi.ne] at hcell
        exact Option.map_eq_none_iff.mp hcell
  have hlt : dim < op.getNumDims := by
    by_contra hge
    refine hne (Operand.extentAt_of_notMem fun hdim => ?_)
    have hlt := o.map.lt_numDims dim hdim
    rw [hdims' o hmem] at hlt
    exact hge hlt
  have hgetD : ∀ o ∈ op.operands, o.broadcastGrid.getD dim 0 = o.extentAt dim := by
    intro o ho
    unfold Operand.broadcastGrid
    rw [List.getD_eq_getElem?_getD, List.getElem?_map, List.getElem?_range (by
      rw [hdims' o ho]
      exact hlt)]
    rfl
  have hlen : o.broadcastGrid.length = op.output.broadcastGrid.length := by
    simp only [Operand.broadcastGrid, List.length_map, List.length_range, hdims' o hmem,
      hdims' _ hmem']
  have heq := eq_of_compatible hlen hcompatible dim
  rw [hgetD o hmem, hgetD _ hmem'] at heq
  exact heq hne hne'

/-! ## The loop bounds -/

/-- The output grid divided by the compute grid, which it is: one block for every core. -/
theorem divideGrid_self (grid rest extents : List ℕ) :
    divideGrid grid (grid ++ rest) = .ok extents ↔
      (∀ g ∈ grid, 0 < g) ∧ extents = List.replicate grid.length 1 ++ rest := by
  induction grid generalizing extents with
  | nil =>
    simp only [divideGrid, List.nil_append, List.length_nil, List.replicate_zero]
    exact ⟨fun h => ⟨fun g hg => (by cases hg), (Except.ok.inj h).symm⟩, fun h => (by rw [h.2])⟩
  | cons g grid ih =>
    rw [List.cons_append, divideGrid]
    by_cases hg : g = 0
    · rw [if_pos hg]
      exact ⟨fun h => (by cases h), fun h => absurd (h.1 g List.mem_cons_self) (by omega)⟩
    · rw [if_neg hg, if_neg (by simp), TTNN.except_bind_eq_ok]
      constructor
      · rintro ⟨rest', hrest, heq⟩
        cases heq
        obtain ⟨hpos, rfl⟩ := (ih rest').mp hrest
        refine ⟨?_, ?_⟩
        · intro x hx
          rcases List.mem_cons.mp hx with rfl | hx
          · omega
          · exact hpos x hx
        · rw [Nat.div_self (by omega), List.length_cons, List.replicate_succ, List.cons_append]
      · rintro ⟨hpos, rfl⟩
        refine ⟨_, (ih _).mpr ⟨fun x hx => hpos x (List.mem_cons_of_mem _ hx), rfl⟩, ?_⟩
        rw [Nat.div_self (by omega), List.length_cons, List.replicate_succ, List.cons_append]
        rfl

/-- The extent found through the concatenated maps is the one of the first operand that uses
the dimension. -/
theorem getD_idxOf_flatMap (operands : List Operand) (dim : ℕ) :
    (operands.flatMap Operand.gridShape).getD
        ((operands.flatMap fun o : Operand => o.map.results).idxOf dim) 0
      = ((operands.find? fun o => dim ∈ o.map.results).map (·.extentAt dim)).getD 0 := by
  induction operands with
  | nil => rfl
  | cons o operands ih =>
    rw [List.flatMap_cons, List.flatMap_cons]
    by_cases hdim : dim ∈ o.map.results
    · have hlt := List.idxOf_lt_length_of_mem hdim
      rw [List.idxOf_append_of_mem hdim, List.find?_cons_of_pos (by simpa using hdim),
        List.getD_append _ _ _ _ (by rw [o.length_gridShape]; exact hlt)]
      have hget : o.map.results[o.map.results.idxOf dim]? = some dim := by
        rw [List.getElem?_eq_getElem hlt, List.getElem_idxOf]
      exact (Operand.extentAt_of_getElem? hget).symm
    · rw [List.idxOf_append_of_notMem hdim, List.find?_cons_of_neg (by simpa using hdim),
        List.getD_append_right _ _ _ _ (by rw [o.length_gridShape]; omega),
        o.length_gridShape, Nat.add_sub_cancel_left]
      exact ih

namespace GenericOp

/-- The bound of the loop along a dimension: one for a dimension of the compute grid. -/
def loopBound (op : GenericOp) (dim : ℕ) : ℕ :=
  if dim ∈ op.output.map.results then 1 else op.lastExtent dim

/-- **The loop bounds.** -/
theorem getLoopBounds_eq_ok_iff {op : GenericOp} (hgrid : op.output.gridShape = op.grid)
    (bounds : List ℕ) :
    op.getLoopBounds = .ok bounds ↔ (∀ g ∈ op.grid, 0 < g) ∧
      (∀ dim < op.getNumDims, ∃ o ∈ op.operands, dim ∈ o.map.results) ∧
      bounds = (List.range op.getNumDims).map op.loopBound := by
  have hreverse : op.operands.reverse = op.output :: op.inputs.reverse := by
    rw [operands, List.reverse_append]
    rfl
  have hused : ((List.range op.getNumDims).all (· ∈ op.operands.reverse.flatMap fun o : Operand =>
      o.map.results)) = true ↔
      ∀ dim < op.getNumDims, ∃ o ∈ op.operands, dim ∈ o.map.results := by
    simp only [List.all_eq_true, List.mem_range, decide_eq_true_eq, List.mem_flatMap,
      List.mem_reverse]
  have hbounds : ∀ dim, (List.replicate op.grid.length 1 ++
      op.inputs.reverse.flatMap Operand.gridShape).getD
        ((op.operands.reverse.flatMap fun o : Operand => o.map.results).idxOf dim) 0
      = op.loopBound dim := by
    intro dim
    have hlen : op.grid.length = op.output.map.results.length := by
      rw [← hgrid, op.output.length_gridShape]
    rw [hreverse, List.flatMap_cons, loopBound]
    split_ifs with hdim
    · have hlt := List.idxOf_lt_length_of_mem hdim
      rw [List.idxOf_append_of_mem hdim, List.getD_append _ _ _ _ (by
        rw [List.length_replicate, hlen]
        exact hlt), List.getD_replicate _ (by rw [hlen]; exact hlt)]
    · rw [List.idxOf_append_of_notMem hdim, List.getD_append_right _ _ _ _ (by
        rw [List.length_replicate, hlen]
        omega), List.length_replicate, hlen, Nat.add_sub_cancel_left]
      exact getD_idxOf_flatMap op.inputs.reverse dim
  unfold getLoopBounds
  simp only
  rw [TTNN.except_bind_eq_ok]
  have hextents : op.operands.reverse.flatMap Operand.gridShape
      = op.grid ++ op.inputs.reverse.flatMap Operand.gridShape := by
    rw [hreverse, List.flatMap_cons, hgrid]
  rw [hextents]
  constructor
  · rintro ⟨extents, hdivide, hinverse⟩
    obtain ⟨hpos, rfl⟩ := (divideGrid_self op.grid _ extents).mp hdivide
    unfold inversePermutation at hinverse
    split_ifs at hinverse with hall
    · cases hinverse
      refine ⟨hpos, hused.mp hall, ?_⟩
      rw [List.map_map]
      exact List.map_congr_left fun dim _ => hbounds dim
  · rintro ⟨hpos, hall, rfl⟩
    refine ⟨_, (divideGrid_self op.grid _ _).mpr ⟨hpos, rfl⟩, ?_⟩
    unfold inversePermutation
    rw [if_pos (hused.mpr hall)]
    simp only
    rw [List.map_map]
    congr 1
    exact List.map_congr_left fun dim _ => hbounds dim

end GenericOp

/-! ## The stream index of one result -/

variable {map : ProjectedPermutation}

/-- **`buildStreamIndex`.**  The maps have as many results, a grid dimension is the same
result of both, and every result has its index. -/
theorem buildStreamIndex_eq_ok_iff
    (hdims : o.map.numDims = map.numDims) (stream : List IndexValue) (limits : List ℕ) :
    buildStreamIndex o.gridShape o.shardShape o.map map = .ok (stream, limits) ↔
      o.map.getNumResults = map.getNumResults ∧
      (∀ result dim : ℕ, o.map.results[result]? = some dim → dim ∈ map.results →
        map.results[result]? = some dim) ∧
      stream = o.map.results.zipIdx.map (fun (dim, result) =>
        streamIndexAt o.shardShape map result dim) ∧ limits = o.gridShape := by
  have haligned : (o.map.results.zipIdx.any (fun (dim, result) =>
      (map.getResultPosition dim).any (· ≠ result))) = false ↔
      ∀ result dim : ℕ, o.map.results[result]? = some dim → dim ∈ map.results →
        map.results[result]? = some dim := by
    rw [List.any_eq_false]
    constructor
    · intro h result dim hget hdim
      have hpair := h (dim, result) (List.mem_zipIdx_iff_getElem?.mpr hget)
      simp only [ProjectedPermutation.getResultPosition_of_mem hdim, Option.any_some, ne_eq,
        decide_not, Bool.not_eq_true', decide_eq_false_iff_not, not_not] at hpair
      rw [← hpair, List.getElem?_eq_getElem (List.idxOf_lt_length_of_mem hdim), List.getElem_idxOf]
    · rintro h ⟨dim, result⟩ hpair
      have hget : o.map.results[result]? = some dim := List.mem_zipIdx_iff_getElem?.mp hpair
      dsimp only
      by_cases hdim : dim ∈ map.results
      · rw [ProjectedPermutation.getResultPosition_of_getElem? (h result dim hget hdim)]
        simp
      · rw [ProjectedPermutation.getResultPosition_of_notMem hdim]
        simp
  unfold buildStreamIndex
  rw [if_neg (not_not.mpr hdims)]
  split_ifs with hresults hshard hmis
  · exact ⟨fun h => (by cases h), fun h => absurd h.1 hresults⟩
  · exact absurd o.length_shardShape.symm hshard
  · refine ⟨fun h => (by cases h), fun h => ?_⟩
    rw [haligned.mpr h.2.1] at hmis
    cases hmis
  · constructor
    · intro h
      cases h
      exact ⟨not_not.mp hresults, haligned.mp (Bool.eq_false_iff.mpr hmis), rfl, rfl⟩
    · rintro ⟨-, -, rfl, rfl⟩
      rfl

theorem getElem?_stream (h : o.map.results[result]? = some dim) :
    (o.map.results.zipIdx.map fun (dim, result) =>
      streamIndexAt o.shardShape map result dim)[result]?
      = some (streamIndexAt o.shardShape map result dim) := by
  rw [List.getElem?_map, List.getElem?_zipIdx, h]
  simp

theorem eval_streamIndexAt_of_mem {shardShape : List ℕ}
    {dim : ℕ} (hdim : dim ∈ map.results) (result : ℕ) (core iters : List ℕ) :
    (streamIndexAt shardShape map result dim).eval core iters = (do
      let c ← core[dim]?
      let i ← iters[dim]?
      return c * shardShape.getD result 0 + i) := by
  rw [streamIndexAt, ProjectedPermutation.getResultPosition_of_mem hdim]
  simp only [Option.isSome_some, if_true, IndexValue.eval]
  cases core[dim]? <;> cases iters[dim]? <;> rfl

theorem eval_streamIndexAt_of_notMem {shardShape : List ℕ}
    {dim : ℕ} (hdim : dim ∉ map.results) (result : ℕ) (core iters : List ℕ) :
    (streamIndexAt shardShape map result dim).eval core iters = iters[dim]? := by
  rw [streamIndexAt, ProjectedPermutation.getResultPosition_of_notMem hdim]
  rfl

/-! ## Points of boxes -/

theorem Inside.getElem? {point shape : List ℕ} (h : Inside point shape) {i : ℕ}
    (hi : i < shape.length) : ∃ x, point[i]? = some x ∧ x < shape.getD i 0 := by
  have hlen := List.Forall₂.length_eq h
  have hi' : i < point.length := by omega
  refine ⟨point[i], List.getElem?_eq_getElem hi', ?_⟩
  have hlt := List.Forall₂.get h hi' hi
  rw [List.getD_eq_getElem _ _ hi]
  exact hlt

theorem inside_zeros {shape : List ℕ} (h : ∀ n ∈ shape, 0 < n) :
    Inside (List.replicate shape.length 0) shape := by
  induction shape with
  | nil => exact List.Forall₂.nil
  | cons n shape ih =>
    exact List.Forall₂.cons (h n List.mem_cons_self)
      (ih fun m hm => h m (List.mem_cons_of_mem _ hm))

theorem Inside.set {point shape : List ℕ} (h : Inside point shape) (i x : ℕ)
    (hx : x < shape.getD i 0) : Inside (point.set i x) shape := by
  induction h generalizing i with
  | nil => exact List.Forall₂.nil
  | cons hhead htail ih =>
    cases i with
    | zero => exact List.Forall₂.cons hx htail
    | succ i => exact List.Forall₂.cons hhead (ih i hx)

theorem getElem?_corner_set {n j : ℕ} (i : ℕ) (hj : j < n) :
    ((List.replicate n 0).set i 1)[j]? = some (if i = j then 1 else 0) := by
  rw [List.getElem?_set, List.getElem?_replicate_of_lt hj, List.length_replicate]
  by_cases heq : i = j
  · rw [if_pos heq, if_pos heq, if_pos (heq ▸ hj)]
  · rw [if_neg heq, if_neg heq]

theorem getD_corner_set {n j : ℕ} (i : ℕ) (hj : j < n) :
    ((List.replicate n 0).set i 1).getD j 0 = if i = j then 1 else 0 := by
  rw [List.getD_eq_getElem?_getD, getElem?_corner_set i hj, Option.getD_some]

/-! ## Where the index is right -/

/-- An index for every result makes the block. -/
theorem mapM_eq_some_of_forall {α β : Type} {f : α → Option β} {l : List α} {l' : List β}
    (hlen : l.length = l'.length)
    (h : ∀ (i : ℕ) a b, l[i]? = some a → l'[i]? = some b → f a = some b) : l.mapM f = some l' := by
  refine Fallible.mapM_eq_some_iff.mpr (List.forall₂_of_length_eq_of_get hlen fun i hi hi' => ?_)
  exact h i _ _ (List.getElem?_eq_getElem hi) (List.getElem?_eq_getElem hi')

namespace GenericOp

variable {op : GenericOp} {o : Operand} {result dim : ℕ}

/-- Along a dimension that is not in the grid, the loop reads every block once exactly when
its bound is the extent of the operand. -/
theorem bijOn_outside_iff (bound extent : ℕ) (index : ℕ → ℕ) (hindex : ∀ i < bound, index i = i) :
    Set.BijOn index (Set.Iio bound) (Set.Iio extent) ↔ extent = bound := by
  have himage : index '' Set.Iio bound = Set.Iio bound := by
    ext i
    constructor
    · rintro ⟨j, hj, rfl⟩
      rw [hindex j hj]
      exact hj
    · intro hi
      exact ⟨i, hi, hindex i hi⟩
  constructor
  · intro h
    have heq := h.image_eq
    rw [himage] at heq
    exact (Set.Iio_injective heq).symm
  · rintro rfl
    refine ⟨fun i hi => ?_, fun i hi j hj hij => ?_, himage.ge⟩
    · rw [hindex i hi]
      exact hi
    · rwa [hindex i hi, hindex j hj] at hij

section

variable (hverified : op.Verified) (hcores : ∀ g ∈ op.grid, 0 < g) (ho : o ∈ op.inputs)
  (hget : o.map.results[result]? = some dim) (halign : op.output.map.results[result]? = some dim)

include hverified hcores ho hget halign

/-- Along a dimension of the grid, where the maps line up: the share of a core. -/
theorem share_of_aligned (core : List ℕ) : op.share o result dim core
      = if o.gridShape.getD result 0 = 0 then ∅ else {core.getD result 0} := by
  have hlt : result < op.grid.length := by
    rw [← hverified.grid_eq, op.output.length_gridShape]
    exact (List.getElem?_eq_some_iff.mp halign).1
  have hpos : 0 < op.grid.getD result 0 := by
    rw [List.getD_eq_getElem _ _ hlt]
    exact hcores _ (List.getElem_mem hlt)
  unfold share
  rw [ProjectedPermutation.getResultPosition_of_getElem? halign]
  simp only
  split_ifs with hzero
  · rw [hzero, Nat.zero_div, Nat.mul_zero, Nat.mul_zero, Set.Ico_self]
  · have hcompatible := hverified.compatible o ho dim
    rw [Operand.extentAt_of_getElem? hget, Operand.extentAt_of_getElem? halign,
      hverified.grid_eq] at hcompatible
    rw [hcompatible hzero hpos.ne', Nat.div_self hpos, Nat.mul_one, Nat.mul_one]
    ext i
    rw [Set.mem_Ico, Set.mem_singleton_iff]
    omega

/-- The iterations of a core read its share of the operand along a dimension, each index once. -/
def CoversOnce (op : GenericOp) (o : Operand) (bounds : List ℕ) (result dim : ℕ) (core : List ℕ) :
    Prop :=
  ∃ index : ℕ → ℕ,
    (∀ iters i, iters[dim]? = some i → i < bounds.getD dim 0 →
      (streamIndexAt o.shardShape op.output.map result dim).eval core iters = some (index i)) ∧
    Set.BijOn index (Set.Iio (bounds.getD dim 0)) (op.share o result dim core)

/-- The index along an aligned grid dimension is the core exactly under the condition. -/
theorem once_aligned_iff (bounds : List ℕ) (hbound : bounds.getD dim 0 = 1) :
    (∀ core, Inside core op.grid → op.CoversOnce o bounds result dim core) ↔
    dim < op.grid.length ∧ 0 < o.gridShape.getD result 0 ∧ ((op.grid.getD result 0 = 1 ∧
          (op.grid.getD dim 0 = 1 ∨ o.shardShape.getD result 0 = 0)) ∨
        (dim = result ∧ o.shardShape.getD result 0 = 1)) := by
  have hdim := List.mem_of_getElem? halign
  have hlt : result < op.grid.length := by
    rw [← hverified.grid_eq, op.output.length_gridShape]
    exact (List.getElem?_eq_some_iff.mp halign).1
  have hpos : ∀ i < op.grid.length, 0 < op.grid.getD i 0 := by
    intro i hi
    rw [List.getD_eq_getElem _ _ hi]
    exact hcores _ (List.getElem_mem hi)
  unfold CoversOnce
  rw [hbound]
  constructor
  · intro h
    -- the first iteration of every core reads its block
    have hfirst : ∀ core, Inside core op.grid → 0 < o.gridShape.getD result 0 ∧
        ∃ c, core[dim]? = some c ∧ c * o.shardShape.getD result 0 = core.getD result 0 := by
      intro core hcore
      obtain ⟨index, heval, hbij⟩ := h core hcore
      rw [share_of_aligned hverified hcores ho hget halign core] at hbij
      have hzero := hbij.mapsTo (show 0 ∈ Set.Iio 1 from Nat.one_pos)
      split_ifs at hzero with hempty
      · exact absurd hzero (Set.notMem_empty _)
      · refine ⟨Nat.pos_of_ne_zero hempty, ?_⟩
        have hstep := heval (List.replicate (dim + 1) 0) 0 (by simp) Nat.one_pos
        rw [eval_streamIndexAt_of_mem hdim] at hstep
        cases hc : core[dim]? with
        | none =>
          rw [hc] at hstep
          cases hstep
        | some c =>
          rw [hc] at hstep
          have heq : c * o.shardShape.getD result 0 + 0 = index 0 := by
            simpa using hstep
          exact ⟨c, rfl, by rw [Nat.add_zero] at heq; exact heq.trans hzero⟩
    have hcorner := inside_zeros hcores
    obtain ⟨hextent, c, hc, -⟩ := hfirst _ hcorner
    have hdimlt : dim < op.grid.length := by
      have hlt' := (List.getElem?_eq_some_iff.mp hc).1
      rwa [List.length_replicate] at hlt'
    refine ⟨hdimlt, hextent, ?_⟩
    by_cases hsame : dim = result
    · subst hsame
      by_cases hone : op.grid.getD dim 0 = 1
      · exact Or.inl ⟨hone, Or.inl hone⟩
      · -- the second core along the dimension
        refine Or.inr ⟨rfl, ?_⟩
        have hpos' := hpos dim hdimlt
        obtain ⟨-, c, hc, hvalue⟩ := hfirst _ (hcorner.set dim 1 (by omega))
        rw [getElem?_corner_set dim hdimlt, if_pos rfl] at hc
        cases hc
        rwa [getD_corner_set dim hdimlt, if_pos rfl, Nat.one_mul] at hvalue
    · left
      constructor
      · -- two cores along the result read the same block
        by_contra hone
        have hpos' := hpos result hlt
        obtain ⟨-, c, hc, hvalue⟩ := hfirst _ (hcorner.set result 1 (by omega))
        rw [getElem?_corner_set result hdimlt, if_neg (Ne.symm hsame)] at hc
        cases hc
        rw [getD_corner_set result hlt, if_pos rfl, Nat.zero_mul] at hvalue
        exact absurd hvalue Nat.zero_ne_one
      · -- two cores along the loop dimension share a block
        by_cases hone : op.grid.getD dim 0 = 1
        · exact Or.inl hone
        · have hpos' := hpos dim hdimlt
          obtain ⟨-, c, hc, hvalue⟩ := hfirst _ (hcorner.set dim 1 (by omega))
          rw [getElem?_corner_set dim hdimlt, if_pos rfl] at hc
          cases hc
          rw [getD_corner_set dim hlt, if_neg hsame, Nat.one_mul] at hvalue
          exact Or.inr hvalue
  · rintro ⟨hdimlt, hextent, hparts⟩ core hcore
    refine ⟨fun _ => core.getD result 0, ?_, ?_⟩
    · intro iters i hi hlt'
      obtain ⟨c, hc, hclt⟩ := hcore.getElem? hdimlt
      obtain ⟨c', hc', hclt'⟩ := hcore.getElem? hlt
      have hcore' : core.getD result 0 = c' := by
        rw [List.getD_eq_getElem?_getD, hc', Option.getD_some]
      rw [eval_streamIndexAt_of_mem hdim, hi, hc, hcore']
      have hzero : i = 0 := by omega
      have hvalue : c * o.shardShape.getD result 0 = c' := by
        rcases hparts with ⟨hone, hone' | hshard⟩ | ⟨rfl, hshard⟩
        · have hc0 : c = 0 := by omega
          have hc0' : c' = 0 := by omega
          rw [hc0, hc0', Nat.zero_mul]
        · have hc0' : c' = 0 := by omega
          rw [hshard, hc0', Nat.mul_zero]
        · rw [hshard, Nat.mul_one]
          exact Option.some.inj (hc.symm.trans hc')
      rw [hzero, ← hvalue]
      rfl
    · rw [share_of_aligned hverified hcores ho hget halign core, if_neg hextent.ne']
      refine ⟨fun i _ => rfl, fun i hi j hj _ => ?_, fun c hc => ⟨0, Nat.one_pos, hc.symm⟩⟩
      have hi' : i < 1 := hi
      have hj' : j < 1 := hj
      omega

end

/-- The index along a dimension outside of the grid covers the operand exactly when the loop
has its extent. -/
theorem once_outside_iff (hcores : ∀ g ∈ op.grid, 0 < g) (hdim : dim ∉ op.output.map.results)
    (bounds : List ℕ) :
    (∀ core, Inside core op.grid → op.CoversOnce o bounds result dim core) ↔
    o.gridShape.getD result 0 = bounds.getD dim 0 := by
  have hshare : ∀ core, op.share o result dim core = Set.Iio (o.gridShape.getD result 0) := by
    intro core
    rw [share, ProjectedPermutation.getResultPosition_of_notMem hdim]
  constructor
  · intro h
    obtain ⟨index, heval, hbij⟩ := h _ (inside_zeros hcores)
    rw [hshare] at hbij
    refine (bijOn_outside_iff _ _ index fun i hi => ?_).mp hbij
    have hstep := heval (List.replicate (dim + 1) i) i (by simp) hi
    rw [eval_streamIndexAt_of_notMem hdim] at hstep
    simpa using hstep.symm
  · intro h core hcore
    unfold CoversOnce
    rw [hshare]
    refine ⟨id, ?_, (bijOn_outside_iff _ _ id fun i _ => rfl).mpr h⟩
    intro iters i hi hlt
    rw [eval_streamIndexAt_of_notMem hdim]
    exact hi

section Operand

variable (hverified : op.Verified) (ho : o ∈ op.inputs) {bounds : List ℕ}
  (hbounds : bounds = (List.range op.getNumDims).map op.loopBound)

include hverified ho hbounds

theorem getD_bounds (hget : o.map.results[result]? = some dim) :
    bounds.getD dim 0 = op.loopBound dim := by
  have hlt := o.map.lt_numDims dim (List.mem_of_getElem? hget)
  rw [hverified.numDims_eq o (List.mem_append_left _ ho)] at hlt
  rw [hbounds, List.getD_eq_getElem?_getD, List.getElem?_map, List.getElem?_range hlt]
  rfl

variable (hcores : ∀ g ∈ op.grid, 0 < g)

include hcores

/-- An operand that is indexed right is covered once along every dimension. -/
theorem IndexedRight.coversOnce (hright : op.IndexedRight o) {core : List ℕ}
    (hcore : Inside core op.grid) (hget : o.map.results[result]? = some dim) :
    op.CoversOnce o bounds result dim core := by
  have hbound := getD_bounds hverified ho hbounds hget
  have hparts := hright.2 result dim hget
  by_cases hdim : dim ∈ op.output.map.results
  · rw [if_pos hdim] at hparts
    refine (once_aligned_iff hverified hcores ho hget hparts.1 bounds ?_).mpr hparts.2 core hcore
    rw [hbound, loopBound, if_pos hdim]
  · rw [if_neg hdim] at hparts
    refine (once_outside_iff hcores hdim bounds).mpr ?_ core hcore
    rw [hparts, hbound, loopBound, if_neg hdim]

/-- **Every index is the global one**, and inside of the grid. -/
theorem IndexedRight.eval_streamIndexAt (hright : op.IndexedRight o) {core iters : List ℕ}
    (hcore : Inside core op.grid) (hiters : Inside iters bounds)
    (hget : o.map.results[result]? = some dim) :
    (streamIndexAt o.shardShape op.output.map result dim).eval core iters
        = some (op.globalIndex bounds core iters dim) ∧
      op.globalIndex bounds core iters dim < o.gridShape.getD result 0 := by
  have hbound := getD_bounds hverified ho hbounds hget
  have hlt := o.map.lt_numDims dim (List.mem_of_getElem? hget)
  obtain ⟨i, hi, hilt⟩ := hiters.getElem? (i := dim) (by
    rw [hbounds, List.length_map, List.length_range,
      ← hverified.numDims_eq o (List.mem_append_left _ ho)]
    exact hlt)
  have hgetD : iters.getD dim 0 = i := by
    rw [List.getD_eq_getElem?_getD, hi, Option.getD_some]
  obtain ⟨index, heval, hbij⟩ := hright.coversOnce hverified ho hbounds hcores hcore hget
  have hmem := hbij.mapsTo (show i ∈ Set.Iio _ from hilt)
  have hparts := hright.2 result dim hget
  by_cases hdim : dim ∈ op.output.map.results
  · rw [if_pos hdim] at hparts
    have halign := hparts.1
    have hone : bounds.getD dim 0 = 1 := by rw [hbound, loopBound, if_pos hdim]
    rw [share_of_aligned hverified hcores ho hget halign] at hmem
    split_ifs at hmem with hempty
    · exact absurd hmem (Set.notMem_empty _)
    · have hglobal : op.globalIndex bounds core iters dim = core.getD result 0 := by
        unfold globalIndex
        rw [ProjectedPermutation.getResultPosition_of_getElem? halign]
        simp only
        rw [hone, hgetD, Nat.mul_one]
        omega
      have hresult : result < op.grid.length := by
        rw [← hverified.grid_eq, op.output.length_gridShape]
        exact (List.getElem?_eq_some_iff.mp halign).1
      obtain ⟨c, hc, hclt⟩ := hcore.getElem? hresult
      have hcompatible := hverified.compatible o ho dim
      rw [Operand.extentAt_of_getElem? hget, Operand.extentAt_of_getElem? halign,
        hverified.grid_eq] at hcompatible
      rw [heval iters i hi hilt, hglobal, Set.mem_singleton_iff.mp hmem,
        hcompatible hempty (by omega)]
      refine ⟨rfl, ?_⟩
      rw [List.getD_eq_getElem?_getD, hc, Option.getD_some]
      exact hclt
  · have hglobal : op.globalIndex bounds core iters dim = i := by
      unfold globalIndex
      rw [ProjectedPermutation.getResultPosition_of_notMem hdim]
      exact hgetD
    rw [if_neg hdim] at hparts
    rw [eval_streamIndexAt_of_notMem hdim, hi, hglobal]
    refine ⟨rfl, ?_⟩
    rw [hparts]
    rwa [hbound, loopBound, if_neg hdim] at hilt

/-- The block that is read is the required one. -/
theorem IndexedRight.mapM_eval (hright : op.IndexedRight o) {core iters : List ℕ}
    (hcore : Inside core op.grid) (hiters : Inside iters bounds) :
    (o.map.results.zipIdx.map fun (dim, result) =>
        streamIndexAt o.shardShape op.output.map result dim).mapM (IndexValue.eval core iters)
      = some (op.requiredBlock o bounds core iters) := by
  refine mapM_eq_some_of_forall (by simp [requiredBlock]) ?_
  intro i value b hvalue hb
  unfold requiredBlock at hb
  rw [List.getElem?_map] at hb
  obtain ⟨dim, hget, rfl⟩ := Option.map_eq_some_iff.mp hb
  rw [getElem?_stream hget] at hvalue
  cases hvalue
  exact (hright.eval_streamIndexAt hverified ho hbounds hcores hcore hiters hget).1

/-- **An operand that is indexed right is covered.** -/
theorem IndexedRight.covers (hright : op.IndexedRight o) :
    op.Covers bounds o (o.map.results.zipIdx.map fun (dim, result) =>
      streamIndexAt o.shardShape op.output.map result dim) := by
  refine ⟨?_, ?_, fun block => ⟨?_, ?_⟩⟩
  · intro core hcore result dim hget
    exact ⟨_, getElem?_stream hget,
      hright.coversOnce hverified ho hbounds hcores hcore hget⟩
  · intro core iters hcore hiters
    refine ⟨_, hright.mapM_eval hverified ho hbounds hcores hcore hiters, ?_⟩
    refine List.forall₂_iff_get.mpr ⟨?_, ?_⟩
    · rw [requiredBlock, List.length_map, o.length_gridShape]
    · intro i hi hi'
      rw [requiredBlock, List.length_map] at hi
      have hlt := (hright.eval_streamIndexAt hverified ho hbounds hcores hcore hiters
        (List.getElem?_eq_getElem hi)).2
      rw [List.getD_eq_getElem _ _ hi'] at hlt
      simpa [requiredBlock] using hlt
  · rintro ⟨core, iters, hcore, hiters, h⟩
    rw [hright.mapM_eval hverified ho hbounds hcores hcore hiters] at h
    exact ⟨core, iters, hcore, hiters, (Option.some.inj h).symm⟩
  · rintro ⟨core, iters, hcore, hiters, rfl⟩
    exact ⟨core, iters, hcore, hiters,
      hright.mapM_eval hverified ho hbounds hcores hcore hiters⟩

/-- **One operand.**  Its stream index is built and covers it exactly when it is indexed
right. -/
theorem covers_iff :
    (∃ stream limits, buildStreamIndex o.gridShape o.shardShape o.map op.output.map
      = .ok (stream, limits) ∧ op.Covers bounds o stream) ↔ op.IndexedRight o := by
  have hdims := (hverified.numDims_eq o (List.mem_append_left _ ho)).trans
    (hverified.numDims_eq op.output (List.mem_append_right _ (List.mem_singleton_self _))).symm
  constructor
  · rintro ⟨stream, limits, hbuild, hcovers⟩
    obtain ⟨hresults, halign, rfl, -⟩ :=
      (buildStreamIndex_eq_ok_iff hdims stream limits).mp hbuild
    refine ⟨hresults, ?_⟩
    intro result dim hget
    have hbound := getD_bounds hverified ho hbounds hget
    have honce : ∀ core, Inside core op.grid → op.CoversOnce o bounds result dim core := by
      intro core hcore
      obtain ⟨value, hvalue, hindex⟩ := hcovers.once core hcore result dim hget
      rw [getElem?_stream hget] at hvalue
      cases hvalue
      exact hindex
    split_ifs with hdim
    · have halign' := halign result dim hget hdim
      refine ⟨halign', (once_aligned_iff hverified hcores ho hget halign' bounds ?_).mp honce⟩
      rw [hbound, loopBound, if_pos hdim]
    · rw [(once_outside_iff hcores hdim bounds).mp honce, hbound, loopBound, if_neg hdim]
  · intro hright
    have halign : ∀ result dim : ℕ, o.map.results[result]? = some dim →
        dim ∈ op.output.map.results → op.output.map.results[result]? = some dim := by
      intro result dim hget hdim
      have hparts := hright.2 result dim hget
      rw [if_pos hdim] at hparts
      exact hparts.1
    exact ⟨_, _, (buildStreamIndex_eq_ok_iff hdims _ _).mpr ⟨hright.1, halign, rfl, rfl⟩,
      hright.covers hverified ho hbounds hcores⟩

end Operand

/-- **When the stream indices cover the inputs.** -/
theorem streamsCover_iff (op : GenericOp) (hverify : op.verify = .ok ()) :
    op.StreamsCover ↔ op.HoldsWhen := by
  have hverified := verified_of_verify hverify
  unfold StreamsCover
  constructor
  · rintro ⟨bounds, hbounds, hcovers⟩
    obtain ⟨hcores, hused, hlist⟩ :=
      (getLoopBounds_eq_ok_iff hverified.grid_eq bounds).mp hbounds
    exact ⟨hcores, hused, fun o ho hstream =>
      (covers_iff hverified ho hlist hcores).mp (hcovers o ho hstream)⟩
  · rintro ⟨hcores, hused, hindexed⟩
    refine ⟨_, (getLoopBounds_eq_ok_iff hverified.grid_eq _).mpr ⟨hcores, hused, rfl⟩, ?_⟩
    intro o ho hstream
    exact (covers_iff hverified ho rfl hcores).mpr (hindexed o ho hstream)

/-- A matrix product on `2 × 4` cores: `(m, n, k)` is `(m, k)` of the left operand, `(k, n)` of
the right one and `(m, n)` of the output. -/
def matmul (left right out : List ℕ) (hleft : left.length = 2) (hright : right.length = 2)
    (hout : out.length = 2) : GenericOp where
  grid := [2, 4]
  inputs :=
    [⟨⟨3, [0, 2], by decide, by decide⟩, [2, 4], left, true, rfl, hleft⟩,
      ⟨⟨3, [2, 1], by decide, by decide⟩, [4, 4], right, true, rfl, hright⟩]
  output := ⟨⟨3, [0, 1], by decide, by decide⟩, [2, 4], out, false, rfl, hout⟩

/-- With shards of one element along the grid dimensions every core reads its blocks. -/
theorem streamsCover_matmul : (matmul [1, 6] [6, 1] [1, 1] rfl rfl rfl).StreamsCover :=
  (streamsCover_iff (matmul [1, 6] [6, 1] [1, 1] rfl rfl rfl) (by decide)).mpr (by
    refine ⟨by decide, by decide, ?_⟩
    intro o ho _
    simp only [matmul, List.mem_cons, List.not_mem_nil, or_false] at ho
    rcases ho with rfl | rfl
    · refine ⟨rfl, ?_⟩
      rintro (_ | _ | result) dim hget <;> cases hget <;> decide
    · refine ⟨rfl, ?_⟩
      rintro (_ | _ | result) dim hget <;> cases hget <;> decide)

/-- With shards of `4 × 6` the second row of cores reads blocks that are not there. -/
theorem matmul_not_streamsCover :
    (matmul [4, 6] [6, 8] [4, 8] rfl rfl rfl).verify = .ok () ∧
      ¬ (matmul [4, 6] [6, 8] [4, 8] rfl rfl rfl).StreamsCover := by
  have hverify : (matmul [4, 6] [6, 8] [4, 8] rfl rfl rfl).verify = .ok () := by decide
  have hverified := verified_of_verify hverify
  refine ⟨hverify, ?_⟩
  rintro ⟨bounds, hbounds, hcovers⟩
  obtain ⟨hcores, -, hlist⟩ := (getLoopBounds_eq_ok_iff hverified.grid_eq bounds).mp hbounds
  have hright := (covers_iff hverified List.mem_cons_self hlist hcores).mp
    (hcovers _ List.mem_cons_self rfl)
  revert hright
  rintro ⟨-, hright⟩
  have hrow := hright 0 0 rfl
  revert hrow
  decide

end GenericOp

end TTIR
