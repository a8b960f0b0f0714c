/-
# Lowering general pooling to pooling in two dimensions

`PoolingToPool2dPattern` of `TTIRToTTIRDecomposition.cpp` takes the dimensions whose window is
larger than one for height and width, brings them to the middle, pools, and puts the dimensions
back.

* `PoolingOp`, `Pool2dOp` : the operations;
* `PoolingOp.matchAndRewrite` : the lowering;
* `PoolingOp.agree_apply` : what the emitted operations compute;
* `PoolingOp.pools_iff_covered` : when that is the maximum over the windows of the operation.

Height gets the padding of width and width that of height: the builder of the emitted operation
takes left and right before top and bottom.  Where the windows larger than one are not two, the
last two dimensions are taken, and the window, stride and padding of the others are dropped.
-/
import TTMLIR.ConvolutionLowering
import TTMLIR.SelectToSlice
import TTMLIR.WindowMaximum

namespace TTIR

open MixedRadix Rearrange Pooling Fallible
open ConvolutionDecomposition (generatePermutation)

/-! ## The operations -/

inductive PoolingMethod where
  | average
  | max
deriving DecidableEq, Repr

/-- `ttir.pooling`: the shapes of its operands and results, and its attributes. -/
structure PoolingOp where
  inputs : List (List ℕ)
  results : List (List ℕ)
  poolingMethod : PoolingMethod
  windowDimensions : List ℤ
  windowStrides : List ℤ
  baseDilations : List ℤ
  windowDilations : List ℤ
  padding : List ℤ
deriving DecidableEq, Repr

/-- The maximum over the windows at every position, in the shape that they give. -/
def Tensor.maxPool {α : Type} [LinearOrder α] [OrderBot α] (ws : List Window) (x : Tensor α) :
    Tensor α :=
  ⟨extents ws x.shape, windowMax ws x.shape x.elem⟩

namespace PoolingOp

variable (op : PoolingOp)

/-- The window along a dimension. -/
def window (d : ℕ) : Window where
  size := op.windowDimensions.getD d 0
  stride := op.windowStrides.getD d 0
  padLow := op.padding.getD (2 * d) 0
  padHigh := op.padding.getD (2 * d + 1) 0
  baseDilation := op.baseDilations.getD d 0
  dilation := op.windowDilations.getD d 0

def windows : List Window := (List.range op.windowDimensions.length).map op.window

/-- `PoolingOp::verify`. -/
def verify : Except String Unit :=
  let inputRank := (op.inputs.getD 0 []).length
  if op.inputs.any fun input => input.length ≠ inputRank then
    .error "All input tensors must have the same rank"
  else if op.windowStrides.length ≠ inputRank then
    .error "Window strides must have the same number of elements as the rank of the input tensor"
  else if op.windowDilations.length ≠ inputRank then
    .error "Window dilations must have the same number of elements as the rank of the input tensor"
  else if op.windowDimensions.length ≠ inputRank then
    .error "Window dimensions must have the same number of elements as the rank of the input tensor"
  else if op.padding.length ≠ 2 * inputRank then
    .error "Padding must have the same number of elements as twice the rank of the input tensor"
  else .ok ()

/-- A verified operation whose results have the shapes that its windows give. -/
structure Valid : Prop where
  verified : op.verify = .ok ()
  baseDilations : op.baseDilations.length = op.windowDimensions.length
  typed : op.results = op.inputs.map (extents op.windows)

instance : Decidable op.Valid :=
  decidable_of_iff (op.verify = .ok () ∧ op.baseDilations.length = op.windowDimensions.length ∧
    op.results = op.inputs.map (extents op.windows))
    ⟨fun h => ⟨h.1, h.2.1, h.2.2⟩, fun h => ⟨h.1, h.2, h.3⟩⟩

end PoolingOp

/-- `ttir.max_pool2d` and `ttir.avg_pool2d`: the shapes of operand and result, and the attributes
in the order in which their builders take them. -/
structure Pool2dOp where
  poolingMethod : PoolingMethod
  input : List ℕ
  output : List ℕ
  kernelHeight : ℤ
  kernelWidth : ℤ
  strideHeight : ℤ
  strideWidth : ℤ
  dilationHeight : ℤ
  dilationWidth : ℤ
  ceilMode : Bool
  paddingLeft : ℤ
  paddingRight : ℤ
  paddingTop : ℤ
  paddingBottom : ℤ
deriving DecidableEq, Repr

namespace Pool2dOp

variable (op : Pool2dOp)

def operationName : String :=
  match op.poolingMethod with
  | .average => "ttir.avg_pool2d"
  | .max => "ttir.max_pool2d"

/-- `verifyPoolingOp`, for an operand that is not flattened. -/
def verify : Except String Unit :=
  if op.input.length ≠ 4 then
    .error s!"Input tensor rank must be 4. Received input with rank {op.input.length}. Shape: ({join op.input})."
  else if op.output.length ≠ 4 then
    .error s!"Output tensor rank must be 4. Received output with rank {op.output.length}. Shape: ({join op.output})."
  else if op.input.getD 0 0 ≠ op.output.getD 0 0 then
    .error s!"Batch size from the input tensor ({op.input.getD 0 0}) must match the first dimension of the output tensor ({op.output.getD 0 0})"
  else if op.output.getD 3 0 ≠ op.input.getD 3 0 then
    .error s!"Output tensor channels ({op.output.getD 3 0}) must match input tensor channels ({op.input.getD 3 0})."
  else if op.input.getD 1 0 < op.kernelHeight then
    .error s!"Kernel height {op.kernelHeight} is greater than input height {op.input.getD 1 0}. This {op.operationName} configuration is invalid."
  else if op.input.getD 2 0 < op.kernelWidth then
    .error s!"Kernel width {op.kernelWidth} is greater than input width {op.input.getD 2 0}. This {op.operationName} configuration is invalid."
  else .ok ()

/-- The windows of batch, height, width and channels. -/
def windows : List Window :=
  [.unit,
    ⟨op.kernelHeight, op.strideHeight, op.paddingTop, op.paddingBottom, 1, op.dilationHeight⟩,
    ⟨op.kernelWidth, op.strideWidth, op.paddingLeft, op.paddingRight, 1, op.dilationWidth⟩,
    .unit]

/-- The result has the shape that the windows give, with extents rounded down. -/
structure Typed : Prop where
  floor : op.ceilMode = false
  output : op.output = extents op.windows op.input

end Pool2dOp

/-! ## The pattern -/

/-- The operations emitted for one input. -/
structure Pooled where
  inputPermute : PermuteOp
  newPool : Pool2dOp
  output : PermuteOp
deriving DecidableEq, Repr

namespace PoolingOp

def spatialH : ℤ := -3

def spatialW : ℤ := -2

def nonSpatial : ℤ := -1

/-- `getIndicesOfElementsLargerThanOne`. -/
def getIndicesOfElementsLargerThanOne (input : List ℤ) : List ℕ :=
  (List.range input.length).filter fun i => 1 < input.getD i 0

/-- The loops that number the dimensions that are not spatial. -/
def numberNonSpatial : ℤ → List ℤ → List ℤ
  | _, [] => []
  | nonSpatialCount, dim :: layout =>
    if dim = nonSpatial then nonSpatialCount :: numberNonSpatial (nonSpatialCount + 1) layout
    else dim :: numberNonSpatial nonSpatialCount layout

/-- A layout with height and width at two dimensions. -/
def spatialLayout (rank h w : ℕ) : List ℤ :=
  numberNonSpatial 0 (((List.replicate rank nonSpatial).set h spatialH).set w spatialW)

variable (op : PoolingOp)

/-- `canDecompose2DPoolingOp`. -/
def canDecompose2DPoolingOp (spatialDimIndices : List ℕ) : Except String Unit :=
  if op.windowDimensions.length ≠ 4 then
    .error "Polling 2D op is only supported for 4D tensor."
  else if op.windowStrides.length ≠ 4 then
    .error "Polling 2D op is only supported for 4D tensor."
  else if op.inputs.any fun operand => operand.length ≠ 4 then
    .error "Polling 2D op is only supported for 4D tensor."
  else if 2 < spatialDimIndices.length then
    .error "Rank of kernel_size for ttir.pooling op is greater than 2."
  else if 2 < (getIndicesOfElementsLargerThanOne op.windowStrides).length then
    .error "Rank of strides for ttir.pooling is greater than 2."
  else if op.padding.length ≠ 8 then
    .error "Number of elements in padding does not match with ttir.pooling op."
  else .ok ()

/-- Height and width: the dimensions with larger windows if they are two, else the last two. -/
def spatialDims (spatialDimIndices : List ℕ) : ℕ × ℕ :=
  if spatialDimIndices.length = 2 then
    (spatialDimIndices.getD 0 0, spatialDimIndices.getD 1 0)
  else (op.windowDimensions.length - 2, op.windowDimensions.length - 1)

/-- The permutation that `rewritePool2d` generates. -/
def poolPermutation (rank h w : ℕ) : List ℕ :=
  generatePermutation (spatialLayout rank h w) (spatialLayout rank (rank - 3) (rank - 2))

/-- `rewritePool2d`, for one input. -/
def rewritePool2d (spatialDimIndices : List ℕ) (input : List ℕ) : Except String Pooled := do
  let h := (op.spatialDims spatialDimIndices).1
  let w := (op.spatialDims spatialDimIndices).2
  let permutation := poolPermutation (op.inputs.getD 0 []).length h w
  let inverseOfPermutation := inverse permutation
  let kernelHeight := int32 (op.windowDimensions.getD h 0)
  let kernelWidth := int32 (op.windowDimensions.getD w 0)
  let strideHeight := int32 (op.windowStrides.getD h 0)
  let strideWidth := int32 (op.windowStrides.getD w 0)
  let dilationHeight := int32 (op.windowDilations.getD h 0)
  let dilationWidth := int32 (op.windowDilations.getD w 0)
  let paddingTop := int32 (op.padding.getD (2 * h) 0)
  let paddingBottom := int32 (op.padding.getD (2 * h + 1) 0)
  let paddingLeft := int32 (op.padding.getD (2 * w) 0)
  let paddingRight := int32 (op.padding.getD (2 * w + 1) 0)
  let inputPermuteShape ← applyPermutation input (permutation.map fun n : ℕ => (n : ℤ))
  let outputType := op.results.getD 0 []
  let newOutputShape ← applyPermutation outputType (permutation.map fun n : ℕ => (n : ℤ))
  return {
    inputPermute := ⟨input, permutation.map fun n : ℕ => (n : ℤ), inputPermuteShape⟩
    -- top and bottom are handed over where left and right are taken
    newPool := ⟨op.poolingMethod, inputPermuteShape, newOutputShape, kernelHeight, kernelWidth,
      strideHeight, strideWidth, dilationHeight, dilationWidth, false, paddingTop, paddingBottom,
      paddingLeft, paddingRight⟩
    output := ⟨newOutputShape, inverseOfPermutation.map fun n : ℕ => (n : ℤ), outputType⟩ }

/-- `matchAndRewrite`. -/
def matchAndRewrite : Except String (List Pooled) :=
  let spatialDimIndices := getIndicesOfElementsLargerThanOne op.windowDimensions
  if 2 < spatialDimIndices.length then
    .error s!"No decompositions for a pooling op with {spatialDimIndices.length} spatial dimensions"
  else do
    op.canDecompose2DPoolingOp spatialDimIndices
    op.inputs.mapM (op.rewritePool2d spatialDimIndices)

end PoolingOp

/-! ## The values -/

namespace Pooled

variable (s : Pooled)

/-- The emitted operations pass their verifiers, and the pooling has the type of its result. -/
structure Verified : Prop where
  inputPermute : s.inputPermute.verify = .ok ()
  newPool : s.newPool.verify = .ok ()
  typed : s.newPool.Typed
  output : s.output.verify = .ok ()

/-- What they compute. -/
def apply {α : Type} [LinearOrder α] [OrderBot α] (x : Tensor α) : Tensor α :=
  ((x.permute (s.inputPermute.permutation.map Int.toNat)).maxPool s.newPool.windows).permute
    (s.output.permutation.map Int.toNat)

end Pooled

namespace PoolingOp

variable (op : PoolingOp)

/-- The operations emitted for one input have the type of its result and its values. -/
structure PoolsInput (input : List ℕ) (s : Pooled) : Prop where
  verified : s.Verified
  method : s.newPool.poolingMethod = .max
  result : s.output.output = extents op.windows input
  values : ∀ (α : Type) [LinearOrder α] [OrderBot α] (x : Tensor α), x.shape = input →
    (x.maxPool op.windows).Agree (s.apply x)

/-- **The pooling is lowered without changing values**, over any order with a least element. -/
def Pools (e : List Pooled) : Prop := List.Forall₂ op.PoolsInput op.inputs e

end PoolingOp

namespace PoolingOp

variable (op : PoolingOp)

/-- The dimensions taken for height and width. -/
def height : ℕ := (op.spatialDims (getIndicesOfElementsLargerThanOne op.windowDimensions)).1

def width : ℕ := (op.spatialDims (getIndicesOfElementsLargerThanOne op.windowDimensions)).2

/-- The window that is used along a dimension: height and width keep their size, stride and
dilation as 32-bit numbers and exchange their paddings, the others read their own position. -/
def loweredWindow (d : ℕ) : Window :=
  let h := op.window op.height
  let w := op.window op.width
  if d = op.height then
    ⟨int32 h.size, int32 h.stride, int32 w.padLow, int32 w.padHigh, 1, int32 h.dilation⟩
  else if d = op.width then
    ⟨int32 w.size, int32 w.stride, int32 h.padLow, int32 h.padHigh, 1, int32 w.dilation⟩
  else .unit

/-- The windows used cover what the windows of the operation cover. -/
structure Covered (input : List ℕ) : Prop where
  /-- All results have the type of the first. -/
  result : op.results.getD 0 [] = extents op.windows input
  extent : ∀ d < 4,
    (op.loweredWindow d).extent (input.getD d 0) = (op.window d).extent (input.getD d 0)
  kernelHeight : (op.loweredWindow op.height).size ≤ input.getD op.height 0
  kernelWidth : (op.loweredWindow op.width).size ≤ input.getD op.width 0
  /-- Every output index reads the same along every dimension, or nothing along some. -/
  reads : ∀ o, InShape o (extents op.windows input) →
    ((∃ d < 4, (op.window d).Blank (input.getD d 0) (o.getD d 0)) ∧
      ∃ d < 4, (op.loweredWindow d).Blank (input.getD d 0) (o.getD d 0)) ∨
    ∀ d < 4, (op.window d).SameReads (op.loweredWindow d) (input.getD d 0) (o.getD d 0)

end PoolingOp

/-! ## What is emitted -/

namespace PoolingOp

theorem pairwise_getIndices (input : List ℤ) :
    (getIndicesOfElementsLargerThanOne input).Pairwise (· < ·) :=
  List.Pairwise.filter _ List.pairwise_lt_range

theorem exists_poolPermutation {h w : ℕ} (hhw : h < w) (hw : w < 4) :
    ∃ a b, poolPermutation 4 h w = [a, h, w, b] ∧ IsPermutation 4 [a, h, w, b] := by
  have hall : ∀ h w : Fin 4, h < w → ∃ a b : Fin 4,
      poolPermutation 4 h w = [a.val, h.val, w.val, b.val] ∧
        [a.val, h.val, w.val, b.val].Perm (List.range 4) := by decide
  obtain ⟨a, b, heq, hperm⟩ := hall ⟨h, hhw.trans hw⟩ ⟨w, hw⟩ hhw
  exact ⟨a, b, heq, hperm⟩

variable {op : PoolingOp}

/-- What an accepted operation satisfies. -/
structure Accepted (op : PoolingOp) : Prop where
  rank : op.windowDimensions.length = 4
  inputs : ∀ input ∈ op.inputs, input.length = 4
  lt : op.height < op.width
  width_lt : op.width < 4

theorem accepted_of_matchAndRewrite {e : List Pooled} (he : op.matchAndRewrite = .ok e) :
    op.Accepted ∧ op.inputs.mapM
      (op.rewritePool2d (getIndicesOfElementsLargerThanOne op.windowDimensions)) = .ok e := by
  rw [matchAndRewrite] at he
  split_ifs at he with hcount
  obtain ⟨⟨⟩, hlegal, he⟩ := bind_eq_ok.mp he
  rw [canDecompose2DPoolingOp] at hlegal
  split_ifs at hlegal with hrank _ hinputs
  rw [not_not] at hrank
  have hdims : op.height < op.width ∧ op.width < 4 := by
    rw [height, width, spatialDims, hrank]
    split_ifs with htwo
    · -- two indices of a list in increasing order
      obtain ⟨a, b, hab⟩ := List.length_eq_two.mp htwo
      have hsorted := pairwise_getIndices op.windowDimensions
      have hmem : b ∈ getIndicesOfElementsLargerThanOne op.windowDimensions := by simp [hab]
      rw [getIndicesOfElementsLargerThanOne, List.mem_filter, List.mem_range, hrank] at hmem
      rw [hab, List.pairwise_cons] at hsorted
      rw [hab]
      exact ⟨hsorted.1 b (by simp), hmem.1⟩
    · decide
  refine ⟨⟨hrank, fun input hmem => ?_, hdims.1, hdims.2⟩, he⟩
  by_contra hne
  exact hinputs (List.any_eq_true.mpr ⟨input, hmem, decide_eq_true hne⟩)

/-- The operations emitted for one input. -/
def pooled (op : PoolingOp) (input : List ℕ) : Pooled :=
  let permutation := poolPermutation 4 op.height op.width
  let h := op.loweredWindow op.height
  let w := op.loweredWindow op.width
  let outputType := op.results.getD 0 []
  { inputPermute := ⟨input, permutation.map fun n : ℕ => (n : ℤ), gather permutation input⟩
    newPool := ⟨op.poolingMethod, gather permutation input, gather permutation outputType,
      h.size, w.size, h.stride, w.stride, h.dilation, w.dilation, false,
      w.padLow, w.padHigh, h.padLow, h.padHigh⟩
    output := ⟨gather permutation outputType,
      (inverse permutation).map fun n : ℕ => (n : ℤ), outputType⟩ }

theorem rewritePool2d_eq (hop : op.Accepted) (hfirst : (op.inputs.getD 0 []).length = 4)
    (hresult : (op.results.getD 0 []).length = 4) {input : List ℕ} (hinput : input.length = 4) :
    op.rewritePool2d (getIndicesOfElementsLargerThanOne op.windowDimensions) input
      = .ok (op.pooled input) := by
  obtain ⟨a, b, heq, hperm⟩ := exists_poolPermutation hop.lt hop.width_lt
  rw [← heq] at hperm
  have hne : op.width ≠ op.height := hop.lt.ne'
  have happly : ∀ l : List ℕ, l.length = 4 →
      applyPermutation l ((poolPermutation (op.inputs.getD 0 []).length op.height op.width).map
        fun n : ℕ => (n : ℤ)) = .ok (gather (poolPermutation 4 op.height op.width) l) := by
    intro l hl
    rw [hfirst]
    exact applyPermutation_natCast (hl ▸ hperm)
  refine bind_eq_ok.mpr ⟨_, happly input hinput, bind_eq_ok.mpr ⟨_, happly _ hresult, ?_⟩⟩
  rw [pooled, loweredWindow, if_pos rfl, loweredWindow, if_neg hne, if_pos rfl, hfirst]
  rfl

/-! ## What the emitted operations compute -/

/-- The windows used, dimension by dimension. -/
def loweredWindows (op : PoolingOp) : List Window := (List.range 4).map op.loweredWindow

theorem getD_loweredWindows (op : PoolingOp) {d : ℕ} (hd : d < 4) :
    op.loweredWindows.getD d default = op.loweredWindow d := by
  rw [loweredWindows, List.getD_eq_getElem _ _ (by simpa using hd), List.getElem_map,
    List.getElem_range]

theorem getD_windows (op : PoolingOp) {d : ℕ} (hd : d < op.windowDimensions.length) :
    op.windows.getD d default = op.window d := by
  rw [windows, List.getD_eq_getElem _ _ (by simpa using hd), List.getElem_map, List.getElem_range]

section Values

variable (hop : op.Accepted) {input : List ℕ} (hinput : input.length = 4)

include hop

/-- The windows of the emitted pooling are the windows used, in its order. -/
theorem windows_newPool (input : List ℕ) : (op.pooled input).newPool.windows
    = gather (poolPermutation 4 op.height op.width) op.loweredWindows := by
  obtain ⟨a, b, heq, hperm⟩ := exists_poolPermutation hop.lt hop.width_lt
  have hlt := fun i (hi : i ∈ [a, op.height, op.width, b]) => hperm.lt hi
  have hnodup := hperm.nodup
  have hget : ∀ i ∈ [a, op.height, op.width, b],
      op.loweredWindows.getD i default = op.loweredWindow i :=
    fun i hi => op.getD_loweredWindows (hlt i hi)
  have hne : op.width ≠ op.height := hop.lt.ne'
  simp only [List.nodup_cons, List.mem_cons, List.not_mem_nil, or_false, not_or] at hnodup
  have hunit : op.loweredWindow a = .unit ∧ op.loweredWindow b = .unit := by
    rw [loweredWindow, if_neg hnodup.1.1, if_neg hnodup.1.2.1, loweredWindow,
      if_neg (Ne.symm hnodup.2.1.2), if_neg (Ne.symm hnodup.2.2.1)]
    exact ⟨rfl, rfl⟩
  rw [heq, gather, List.map_cons, List.map_cons, List.map_cons, List.map_cons, List.map_nil,
    hget a (by simp), hget _ (by simp), hget _ (by simp), hget b (by simp), hunit.1, hunit.2]
  simp only [pooled, Pool2dOp.windows, loweredWindow, if_true, if_neg hne]

theorem isPermutation_pool : IsPermutation 4 (poolPermutation 4 op.height op.width) := by
  obtain ⟨a, b, heq, hperm⟩ := exists_poolPermutation hop.lt hop.width_lt
  rwa [heq]

include hinput

theorem extents_newPool : extents (op.pooled input).newPool.windows
        (gather (poolPermutation 4 op.height op.width) input)
      = gather (poolPermutation 4 op.height op.width) (extents op.loweredWindows input) := by
  have hlen : op.loweredWindows.length = 4 := by simp [loweredWindows]
  rw [windows_newPool hop]
  exact extents_gather (fun i hi => hlen ▸ (isPermutation_pool hop).lt hi) (hlen.trans hinput.symm)

/-- **What is computed.**  The emitted operations take the maximum over the windows used. -/
theorem agree_apply {α : Type} [LinearOrder α] [OrderBot α] {x : Tensor α} (hx : x.shape = input) :
    (x.maxPool op.loweredWindows).Agree ((op.pooled input).apply x) := by
  have hperm := isPermutation_pool hop
  have hlen : op.loweredWindows.length = 4 := by simp [loweredWindows]
  have hback : ∀ p : List ℕ, (p.map fun n : ℕ => (n : ℤ)).map Int.toNat = p := by
    intro p
    rw [List.map_map]
    exact List.map_id _
  have hextents : (extents op.loweredWindows input).length = 4 := by
    simp [extents, hlen, hinput]
  have happly : (op.pooled input).apply x
      = ((x.permute (poolPermutation 4 op.height op.width)).maxPool
          (op.pooled input).newPool.windows).permute
            (inverse (poolPermutation 4 op.height op.width)) := by
    rw [Pooled.apply]
    simp only [pooled, hback]
  rw [happly]
  refine ⟨?_, fun o ho => ?_⟩
  · show extents op.loweredWindows x.shape = gather _ (extents _ (gather _ x.shape))
    rw [hx, extents_newPool hop hinput, hperm.gather_inverse_gather hextents]
  · have holen : o.length = 4 := by
      rw [ho.length_eq]
      show (extents op.loweredWindows x.shape).length = 4
      rw [hx, hextents]
    show windowMax op.loweredWindows x.shape x.elem o
      = windowMax (op.pooled input).newPool.windows (gather _ x.shape)
          (fun q => x.elem (gather _ q)) (gather _ o)
    rw [hperm.gather_inverse_inverse holen, windows_newPool hop, hx]
    exact (windowMax_gather hperm hlen hinput x.elem).symm

end Values

/-! ## When the values are kept -/

section Kept

variable (hop : op.Accepted) {input : List ℕ} (hinput : input.length = 4)
  (hresult : (op.results.getD 0 []).length = 4)

include hop hinput hresult

/-- The emitted operations verify when the result has the shape that the windows used give and
the kernel fits. -/
theorem verified_iff : (op.pooled input).Verified ↔
    op.results.getD 0 [] = extents op.loweredWindows input ∧
      (op.loweredWindow op.height).size ≤ input.getD op.height 0 ∧
      (op.loweredWindow op.width).size ≤ input.getD op.width 0 := by
  have hperm := isPermutation_pool hop
  obtain ⟨a, b, heq, -⟩ := exists_poolPermutation hop.lt hop.width_lt
  have hextents : (extents op.loweredWindows input).length = 4 := by
    simp [extents, loweredWindows, hinput]
  have hlength : ∀ l : List ℕ, (gather (poolPermutation 4 op.height op.width) l).length = 4 := by
    intro l
    rw [length_gather, hperm.length_eq]
  have hgather : ∀ l : List ℕ, gather (poolPermutation 4 op.height op.width) l
      = [l.getD a 0, l.getD op.height 0, l.getD op.width 0, l.getD b 0] := by
    intro l
    rw [heq]
    rfl
  constructor
  · intro h
    refine ⟨?_, ?_⟩
    · have htyped := h.typed.output
      rw [show (op.pooled input).newPool.input = gather _ input from rfl,
        extents_newPool hop hinput] at htyped
      rw [← hperm.gather_inverse_gather hresult, ← hperm.gather_inverse_gather hextents]
      exact congrArg _ htyped
    · have hpool := h.newPool
      rw [Pool2dOp.verify] at hpool
      split_ifs at hpool with _ _ _ _ hheight hwidth
      rw [not_lt] at hheight hwidth
      rw [show (op.pooled input).newPool.input = gather _ input from rfl, hgather] at hheight hwidth
      exact ⟨hheight, hwidth⟩
  · rintro ⟨hshape, hheight, hwidth⟩
    have htyped : gather (poolPermutation 4 op.height op.width) (op.results.getD 0 [])
        = extents (op.pooled input).newPool.windows
            (gather (poolPermutation 4 op.height op.width) input) := by
      rw [extents_newPool hop hinput, hshape]
    refine ⟨PermuteOp.verify_gather (hinput ▸ hperm), ?_, ⟨rfl, htyped⟩, ?_⟩
    · -- batch and channels are read by windows of one position
      have houter : (gather (poolPermutation 4 op.height op.width) (op.results.getD 0 [])).getD 0 0
            = (gather (poolPermutation 4 op.height op.width) input).getD 0 0 ∧
          (gather (poolPermutation 4 op.height op.width) (op.results.getD 0 [])).getD 3 0
            = (gather (poolPermutation 4 op.height op.width) input).getD 3 0 := by
        rw [htyped, hgather]
        exact ⟨Window.unit_extent _, Window.unit_extent _⟩
      have hheight' : ¬ ((gather (poolPermutation 4 op.height op.width) input).getD 1 0 : ℤ)
          < (op.loweredWindow op.height).size := by
        rw [hgather]
        exact not_lt.mpr hheight
      have hwidth' : ¬ ((gather (poolPermutation 4 op.height op.width) input).getD 2 0 : ℤ)
          < (op.loweredWindow op.width).size := by
        rw [hgather]
        exact not_lt.mpr hwidth
      show Pool2dOp.verify ⟨_, gather _ input, gather _ (op.results.getD 0 []), _, _, _, _, _, _, _,
        _, _, _, _⟩ = .ok ()
      rw [Pool2dOp.verify, if_neg (not_not.mpr (hlength _)), if_neg (not_not.mpr (hlength _)),
        if_neg (not_not.mpr houter.1.symm), if_neg (not_not.mpr houter.2), if_neg hheight',
        if_neg hwidth']
    · have hinverse : IsPermutation
          (gather (poolPermutation 4 op.height op.width) (op.results.getD 0 [])).length
          (inverse (poolPermutation 4 op.height op.width)) := by
        rw [hlength]
        exact hperm.inverse
      have hverify := PermuteOp.verify_gather hinverse
      rwa [hperm.gather_inverse_gather hresult] at hverify

/-- One input is pooled as the operation says exactly when the windows used cover the same. -/
theorem poolsInput_iff (hmax : op.poolingMethod = .max) :
    op.PoolsInput input (op.pooled input) ↔ op.Covered input := by
  have hlen : op.loweredWindows.length = input.length := by simp [loweredWindows, hinput]
  have hlen' : op.windows.length = input.length := by simp [windows, hop.rank, hinput]
  have hwindow : ∀ d < 4, op.windows.getD d default = op.window d :=
    fun d hd => op.getD_windows (hop.rank ▸ hd)
  -- the shapes agree when the extents do
  have hextents : extents op.loweredWindows input = extents op.windows input ↔
      ∀ d < 4, (op.loweredWindow d).extent (input.getD d 0)
        = (op.window d).extent (input.getD d 0) := by
    obtain ⟨a, b, c, d, rfl⟩ : ∃ a b c d, input = [a, b, c, d] := by
      match input, hinput with
      | [a, b, c, d], _ => exact ⟨a, b, c, d, rfl⟩
    rw [windows, hop.rank]
    constructor
    · intro h e he
      simp only [extents, loweredWindows, List.range_succ, List.range_zero] at h
      simp at h
      interval_cases e
      exacts [h.1, h.2.1, h.2.2.1, h.2.2.2]
    · intro h
      simp only [extents, loweredWindows, List.range_succ, List.range_zero]
      simp
      exact ⟨h 0 (by omega), h 1 (by omega), h 2 (by omega), h 3 (by omega)⟩
  have hreads : ∀ o, ((∃ d < 4, (op.window d).Blank (input.getD d 0) (o.getD d 0)) ∧
      (∃ d < 4, (op.loweredWindow d).Blank (input.getD d 0) (o.getD d 0)) ∨
      ∀ d < 4, (op.window d).SameReads (op.loweredWindow d) (input.getD d 0) (o.getD d 0)) ↔
      ∀ p, InShape p input → (ReadsAt op.windows o p ↔ ReadsAt op.loweredWindows o p) := by
    intro o
    rw [sameReads_iff hlen' hlen, hinput]
    apply or_congr
    · apply and_congr
      · refine exists_congr fun d => and_congr_right fun hd => ?_
        rw [hwindow d hd]
      · refine exists_congr fun d => and_congr_right fun hd => ?_
        rw [op.getD_loweredWindows hd]
    · refine forall₂_congr fun d hd => ?_
      rw [hwindow d hd, op.getD_loweredWindows hd]
  constructor
  · intro h
    obtain ⟨hshape, hheight, hwidth⟩ := (verified_iff hop hinput hresult).mp h.verified
    have hsame : op.results.getD 0 [] = extents op.windows input := h.result
    refine ⟨hsame, hextents.mp (hshape.symm.trans hsame), hheight, hwidth, fun o ho => ?_⟩
    rw [hreads, ← windowMax_eq_iff]
    intro α _ _ x
    have hvalues := (h.values α ⟨input, x⟩ rfl).2 o ho
    have happly := (agree_apply hop hinput (x := (⟨input, x⟩ : Tensor α)) rfl).2 o
      (by show InShape o (extents op.loweredWindows input); rwa [← hshape, hsame])
    exact hvalues.trans happly.symm
  · intro h
    have hshape := hextents.mpr h.extent
    refine ⟨(verified_iff hop hinput hresult).mpr ⟨h.result.trans hshape.symm, h.kernelHeight,
      h.kernelWidth⟩, hmax, h.result, fun α _ _ x hx => ?_⟩
    obtain ⟨hshape', hvalues⟩ := agree_apply hop hinput hx
    refine ⟨?_, fun o ho => ?_⟩
    · rw [← hshape']
      show extents op.windows x.shape = extents op.loweredWindows x.shape
      rw [hx, hshape]
    · have ho' : InShape o (extents op.windows input) := hx ▸ ho
      have hcongr := windowMax_congr ((hreads o).mp (h.reads o ho')) x.elem
      rw [← hvalues o (by show InShape o (extents op.loweredWindows x.shape); rwa [hx, hshape])]
      show windowMax op.windows x.shape x.elem o = windowMax op.loweredWindows x.shape x.elem o
      rw [hx, hcongr]

end Kept

/-- The windows used cover the windows of the operation where they are the same: where sizes,
strides, dilations and paddings are 32-bit numbers, the input is not dilated, height and width are
padded alike, and every other window reads its own position. -/
theorem covered_of_loweredWindow_eq {input : List ℕ}
    (hresult : op.results.getD 0 [] = extents op.windows input)
    (hsame : ∀ d < 4, op.loweredWindow d = op.window d)
    (hheight : (op.loweredWindow op.height).size ≤ input.getD op.height 0)
    (hwidth : (op.loweredWindow op.width).size ≤ input.getD op.width 0) : op.Covered input where
  result := hresult
  extent := fun d hd => by rw [hsame d hd]
  kernelHeight := hheight
  kernelWidth := hwidth
  reads := fun o _ => .inr fun d hd => by
    rw [hsame d hd]
    exact Window.sameReads_refl _ _ _

/-- **When pooling is lowered faithfully.**  For an accepted maximum pooling, the emitted
operations have the type and the values of every result exactly when the windows used cover what
the windows of the operation cover. -/
theorem pools_iff_covered (hvalid : op.Valid) (hmax : op.poolingMethod = .max) {e : List Pooled}
    (he : op.matchAndRewrite = .ok e) : op.Pools e ↔ ∀ input ∈ op.inputs, op.Covered input := by
  obtain ⟨hop, he⟩ := accepted_of_matchAndRewrite he
  -- an operation with an input has a first result, of four dimensions
  have hfirst : ∀ input ∈ op.inputs, (op.inputs.getD 0 []).length = 4 ∧
      (op.results.getD 0 []).length = 4 := by
    intro input hmem
    obtain ⟨first, rest, hcons⟩ := List.exists_cons_of_ne_nil (List.ne_nil_of_mem hmem)
    have hlength := hop.inputs first (by simp [hcons])
    rw [hvalid.typed, hcons]
    refine ⟨hlength, ?_⟩
    show (extents op.windows first).length = 4
    simp [extents, windows, hop.rank, hlength]
  have hmapM := mapM_eq_ok_map fun input hmem => rewritePool2d_eq hop (hfirst input hmem).1
    (hfirst input hmem).2 (hop.inputs input hmem)
  rw [hmapM] at he
  obtain rfl := Except.ok.inj he
  rw [Pools, List.forall₂_map_right_iff, List.forall₂_same]
  refine forall₂_congr fun input hmem => ?_
  exact poolsInput_iff hop (hop.inputs input hmem) (hfirst input hmem).2 hmax

/-- Pooling of squares without padding. -/
def squares : PoolingOp :=
  ⟨[[1, 4, 4, 1]], [[1, 2, 2, 1]], .max, [1, 2, 2, 1], [1, 2, 2, 1], [1, 1, 1, 1], [1, 1, 1, 1],
    [0, 0, 0, 0, 0, 0, 0, 0]⟩

/-- It is lowered faithfully. -/
theorem squares_pools : squares.Pools [squares.pooled [1, 4, 4, 1]] := by
  refine (pools_iff_covered (by decide) rfl rfl).mpr fun input hmem => ?_
  obtain rfl := List.mem_singleton.mp hmem
  exact covered_of_loweredWindow_eq (by decide) (by decide) (by decide) (by decide)

/-- Pooling of squares with a row before and a column after the input. -/
def paddedSquares : PoolingOp :=
  ⟨[[1, 2, 2, 1]], [[1, 2, 2, 1]], .max, [1, 2, 2, 1], [1, 1, 1, 1], [1, 1, 1, 1], [1, 1, 1, 1],
    [0, 0, 1, 0, 0, 1, 0, 0]⟩

/-- It is lowered with a column before and a row after: the first maximum sees the second row. -/
theorem paddedSquares_not_pools : paddedSquares.Valid ∧ paddedSquares.poolingMethod = .max ∧
    ∃ e, paddedSquares.matchAndRewrite = .ok e ∧ ¬ paddedSquares.Pools e := by
  refine ⟨by decide, rfl, [paddedSquares.pooled [1, 2, 2, 1]], rfl, fun h => ?_⟩
  obtain ⟨hinput, -⟩ := List.forall₂_cons.mp h
  have hvalue := (hinput.values Bool ⟨[1, 2, 2, 1], fun q => decide (q = [0, 1, 0, 0])⟩ rfl).2
    [0, 0, 0, 0] (by decide)
  exact absurd hvalue (by decide)

/-- A window along the second dimension only is dropped. -/
def columns : PoolingOp :=
  ⟨[[1, 4, 4, 1]], [[1, 2, 4, 1]], .max, [1, 2, 1, 1], [1, 2, 1, 1], [1, 1, 1, 1], [1, 1, 1, 1],
    [0, 0, 0, 0, 0, 0, 0, 0]⟩

example : columns.Valid ∧ columns.loweredWindow 1 = .unit := by decide

end PoolingOp

end TTIR
