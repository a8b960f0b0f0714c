/-
# Lowering convolutions of one and two dimensions

`TTIRToTTIRDecomposition.cpp` lowers `ttir.convolution`, whose dimensions may stand in any
order, to `ttir.conv2d`.  `ConvolutionToConv2dPattern` permutes input and kernel, and permutes
the result back; `Legalize1DConvolutionPattern` reshapes a convolution of one spatial dimension
to one of two, which is lowered in turn.

* `ConvolutionOp`, `ConvolutionOp.apply` : the operation, and what it computes;
* `ConvolutionToConv2d.matchAndRewrite`, `Legalize1DConvolution.matchAndRewrite` : the patterns;
* `lower`, `Emitted.apply` : the emitted sequence, and what it computes;
* `Preserved` : what the lowering is meant to keep;
* `preserved_of_forwarded` : it is kept when the input is not dilated, input and output have
  one layout, and a convolution of one dimension has no bias.
-/
import TTMLIR.BroadcastCommute
import TTMLIR.Conv2dOp

namespace TTIR

open MixedRadix Rearrange Convolution Fallible

/-! ## Convolutions -/

/-- `ConvolutionLayoutAttr`: where the dimensions of input, kernel and output stand. -/
structure ConvolutionLayout where
  inputBatch : ℕ
  inputFeature : ℕ
  inputSpatial : List ℕ
  kernelOutputFeature : ℕ
  kernelInputFeature : ℕ
  kernelSpatial : List ℕ
  outputBatch : ℕ
  outputFeature : ℕ
  outputSpatial : List ℕ
deriving DecidableEq, Repr

namespace ConvolutionLayout

/-- The positions of batch, spatial dimensions and feature in the input. -/
def input (l : ConvolutionLayout) : List ℕ := l.inputBatch :: (l.inputSpatial ++ [l.inputFeature])

/-- The positions of output feature, input feature and spatial dimensions in the kernel. -/
def kernel (l : ConvolutionLayout) : List ℕ :=
  l.kernelOutputFeature :: l.kernelInputFeature :: l.kernelSpatial

/-- The positions of batch, spatial dimensions and feature in the output. -/
def output (l : ConvolutionLayout) : List ℕ :=
  l.outputBatch :: (l.outputSpatial ++ [l.outputFeature])

end ConvolutionLayout

/-- `ttir.convolution`: the shapes of its operands and result, and its attributes. -/
structure ConvolutionOp where
  input : List ℕ
  weight : List ℕ
  bias : Option (List ℕ)
  output : List ℕ
  windowStrides : List ℤ
  padding : List ℤ
  inputDilation : List ℤ
  weightDilation : List ℤ
  windowReversal : List Bool
  layout : ConvolutionLayout
  featureGroupCount : ℕ
  batchGroupCount : ℕ
deriving DecidableEq, Repr

namespace ConvolutionOp

/-- `ConvolutionOp::verify`. -/
def verify (op : ConvolutionOp) : Except String Unit :=
  if op.layout.inputSpatial.length ≠ op.layout.outputSpatial.length ∨
      op.layout.inputSpatial.length ≠ op.layout.kernelSpatial.length then
    .error "Convolution input, output, and kernel must have the same number of spatial dimensions"
  else if op.input.length ≠ op.layout.inputSpatial.length + 2 then
    .error "Input tensor must have the same number of spatial dimensions as specified in the ConvolutionLayout"
  else if op.weight.length ≠ op.layout.kernelSpatial.length + 2 then
    .error "Weight tensor must have the same number of spatial dimensions as specified in the ConvolutionLayout"
  else if op.bias.any fun bias => bias.length ≠ 4 then .error "Bias must be a 4D tensor"
  else if op.windowStrides.length ≠ op.layout.inputSpatial.length then
    .error "Window strides must have the same number of elements as the spatial dimensions of the input tensor"
  else .ok ()

/-- The numbers of output positions. -/
def outExtents : List Window → List ℕ → List ℕ → List ℤ
  | w :: ws, n :: ns, k :: ks => w.outExtent n k :: outExtents ws ns ks
  | _, _, _ => []

/-- The windows of the spatial dimensions. -/
def windowsOf : List ℤ → List ℤ → List ℤ → List ℤ → List Window
  | s :: ss, low :: high :: ps, i :: is, d :: ds =>
    ⟨s.toNat, low, high, i.toNat, d.toNat⟩ :: windowsOf ss ps is ds
  | _, _, _, _ => []

/-- The extents and windows of a convolution. -/
def spec (op : ConvolutionOp) : Spec where
  windows := windowsOf op.windowStrides op.padding op.inputDilation op.weightDilation
  input := gather op.layout.inputSpatial op.input
  kernel := gather op.layout.kernelSpatial op.weight
  outputFeatures := op.weight.getD op.layout.kernelOutputFeature 0
  groupFeatures := op.weight.getD op.layout.kernelInputFeature 0
  groups := op.featureGroupCount

section Apply

variable {α : Type*}

/-- The element of an input at batch, feature and position. -/
def inputElem (l : ConvolutionLayout) (x : Tensor α) (b f : ℕ) (is : List ℕ) : α :=
  x.elem (gather (inverse l.input) (b :: (is ++ [f])))

/-- The element of a kernel at output feature, input feature and position. -/
def kernelElem (l : ConvolutionLayout) (w : Tensor α) (f c : ℕ) (ks : List ℕ) : α :=
  w.elem (gather (inverse l.kernel) (f :: c :: ks))

/-- The bias of an output feature. -/
def biasElem [Zero α] (bias : Option (Tensor α)) (f : ℕ) : α :=
  (bias.map fun b => b.elem [0, 0, 0, f]).getD 0

/-- The result of a convolution without window reversal and batch groups. -/
def apply [NonUnitalNonAssocSemiring α] (op : ConvolutionOp) (x w : Tensor α)
    (bias : Option (Tensor α)) : Tensor α where
  shape := op.output
  elem idx :=
    convolve op.spec (inputElem op.layout x) (kernelElem op.layout w)
      (idx.getD op.layout.outputBatch 0) (idx.getD op.layout.outputFeature 0)
      (gather op.layout.outputSpatial idx) + biasElem bias (idx.getD op.layout.outputFeature 0)

end Apply

theorem elem_apply_none {α : Type*} [NonUnitalNonAssocSemiring α] (op : ConvolutionOp)
    (x w : Tensor α) (idx : List ℕ) : (op.apply x w none).elem idx =
      convolve op.spec (inputElem op.layout x) (kernelElem op.layout w)
        (idx.getD op.layout.outputBatch 0) (idx.getD op.layout.outputFeature 0)
        (gather op.layout.outputSpatial idx) := add_zero _

/-- The types of a convolution fit together. -/
structure WellTyped (op : ConvolutionOp) : Prop where
  verify : op.verify = .ok ()
  inputLayout : IsPermutation op.input.length op.layout.input
  kernelLayout : IsPermutation op.weight.length op.layout.kernel
  outputLayout : IsPermutation op.output.length op.layout.output
  padding : op.padding.length = 2 * op.layout.inputSpatial.length
  inputDilation : op.inputDilation.length = op.layout.inputSpatial.length
  weightDilation : op.weightDilation.length = op.layout.inputSpatial.length
  strides_pos : ∀ s ∈ op.windowStrides, 0 < s
  inputDilation_pos : ∀ d ∈ op.inputDilation, 0 < d
  weightDilation_pos : ∀ d ∈ op.weightDilation, 0 < d
  groups_pos : 0 < op.featureGroupCount
  inputFeatures : op.input.getD op.layout.inputFeature 0 =
    op.spec.groupFeatures * op.featureGroupCount
  outputFeatures : op.featureGroupCount ∣ op.spec.outputFeatures
  batch : op.output.getD op.layout.outputBatch 0 = op.input.getD op.layout.inputBatch 0
  features : op.output.getD op.layout.outputFeature 0 = op.spec.outputFeatures
  bias : ∀ bias, op.bias = some bias → bias = [1, 1, 1, op.spec.outputFeatures]
  extents : (gather op.layout.outputSpatial op.output).map (fun n : ℕ => (n : ℤ)) =
    outExtents op.spec.windows op.spec.input op.spec.kernel

end ConvolutionOp

/-! ## The patterns -/

namespace ConvolutionDecomposition

/-- `isNDimensional`. -/
def isNDimensional (op : ConvolutionOp) (numSpatialDims : ℕ) : Bool :=
  op.layout.inputSpatial.length = numSpatialDims

/-- `isSupportedConv`. -/
def isSupportedConv (op : ConvolutionOp) : Bool :=
  !op.windowReversal.any id && op.batchGroupCount = 1

/-- `ConvolutionDimension::BATCH`. -/
def batch : ℤ := -1

/-- `ConvolutionDimension::FEATURE`. -/
def feature : ℤ := -2

/-- `ConvolutionDimension::INVALID_DIM`. -/
def invalidDim : ℤ := -3

/-- `ConvolutionKernelDimension::INPUT_FEATURES`. -/
def inputFeatures : ℤ := -1

/-- `ConvolutionKernelDimension::OUTPUT_FEATURES`. -/
def outputFeatures : ℤ := -2

/-- The loop over the spatial dimensions: each is put at its position. -/
def putSpatial : List ℤ → ℕ → List ℕ → List ℤ
  | layout, _, [] => layout
  | layout, count, dim :: dims => putSpatial (layout.set dim count) (count + 1) dims

/-- `ttmlir::utils::generatePermutation`: the last index of every dimension. -/
def generatePermutation (input output : List ℤ) : List ℕ :=
  output.map fun dim => (input.zipIdx.reverse.lookup dim).getD 0

/-- `generateConvPermutation`. -/
def generateConvPermutation (l : ConvolutionLayout) (target : List ℤ) : List ℕ :=
  generatePermutation (putSpatial (((List.replicate target.length invalidDim).set l.inputBatch
    batch).set l.inputFeature feature) 0 l.inputSpatial) target

/-- `generateConvKernelPermutation`. -/
def generateConvKernelPermutation (l : ConvolutionLayout) (target : List ℤ) : List ℕ :=
  generatePermutation (putSpatial (((List.replicate target.length invalidDim).set
    l.kernelOutputFeature outputFeatures).set l.kernelInputFeature inputFeatures) 0
    l.kernelSpatial) target

end ConvolutionDecomposition

/-- The operations that replace a convolution of two dimensions. -/
structure Lowered where
  inputPermute : PermuteOp
  weightPermute : PermuteOp
  conv : Conv2dOp
  outputPermute : PermuteOp
deriving DecidableEq, Repr

namespace ConvolutionToConv2d

open ConvolutionDecomposition

/-- NHWC. -/
def conv2dLayout : List ℤ := [batch, 0, 1, feature]

/-- OIHW. -/
def conv2dKernelLayout : List ℤ := [outputFeatures, inputFeatures, 0, 1]

/-- The attributes of the new convolution. -/
def conv2dAttrs (op : ConvolutionOp) : Conv2dAttrs where
  stride := .array [castI32 (op.windowStrides.getD 0 0), castI32 (op.windowStrides.getD 1 0)]
  padding := .array [castI32 (op.padding.getD 0 0), castI32 (op.padding.getD 2 0),
    castI32 (op.padding.getD 1 0), castI32 (op.padding.getD 3 0)]
  dilation := .array [castI32 (op.weightDilation.getD 0 0), castI32 (op.weightDilation.getD 1 0)]
  groups := castU32 op.featureGroupCount
  flattenedCompatInfo := none

/-- The shape of the new convolution, by the layout of the output. -/
def newOutputShape (op : ConvolutionOp) : List ℕ :=
  [op.output.getD op.layout.outputBatch 0, op.output.getD (op.layout.outputSpatial.getD 0 0) 0,
    op.output.getD (op.layout.outputSpatial.getD 1 0) 0,
    op.output.getD op.layout.outputFeature 0]

/-- `matchAndRewrite`: `none` when the pattern does not fire. -/
def matchAndRewrite (op : ConvolutionOp) : Except String (Option Lowered) :=
  if ¬ (isSupportedConv op && isNDimensional op 2) then .ok none
  else if op.padding.length < 4 then .error "padding must be at least 2 * NDims sized array"
  else do
    let permutation := generateConvPermutation op.layout conv2dLayout
    let kernelPermutation := generateConvKernelPermutation op.layout conv2dKernelLayout
    let permuteOutputShape ← applyPermutation op.input (permutation.map (↑))
    let weightOutputShape ← applyPermutation op.weight (kernelPermutation.map (↑))
    return some {
      inputPermute := ⟨op.input, permutation.map (↑), permuteOutputShape⟩
      weightPermute := ⟨op.weight, kernelPermutation.map (↑), weightOutputShape⟩
      conv := ⟨permuteOutputShape, weightOutputShape, op.bias, newOutputShape op, conv2dAttrs op⟩
      -- the permutation of the input is undone on the output
      outputPermute := ⟨newOutputShape op, (inverse permutation).map (↑), op.output⟩ }

end ConvolutionToConv2d

/-- The operations that replace a convolution of one dimension. -/
structure Reshaped where
  inputReshape : ReshapeOp
  weightReshape : ReshapeOp
  conv : ConvolutionOp
  outputReshape : ReshapeOp
deriving DecidableEq, Repr

namespace Legalize1DConvolution

open ConvolutionDecomposition

/-- `createReshapeOp`. -/
def createReshapeOp (input targetShape : List ℕ) : ReshapeOp :=
  ⟨input, targetShape.map fun n : ℕ => castI32 n, targetShape⟩

/-- The layout with one more spatial dimension at the end. -/
def appendDim (l : ConvolutionLayout) : ConvolutionLayout :=
  { l with
    inputSpatial := l.inputSpatial ++ [3]
    kernelSpatial := l.kernelSpatial ++ [3]
    outputSpatial := l.outputSpatial ++ [3] }

/-- The convolution of two dimensions.  It is created without a bias. -/
def newConvolution (op : ConvolutionOp) : ConvolutionOp :=
  { op with
    input := op.input ++ [1]
    weight := op.weight ++ [1]
    bias := none
    output := op.output ++ [1]
    windowStrides := op.windowStrides ++ [1]
    padding := op.padding ++ [0] ++ [0]
    inputDilation := op.inputDilation ++ [1]
    weightDilation := op.weightDilation ++ [1]
    windowReversal := op.windowReversal ++ [false]
    layout := appendDim op.layout }

/-- The operations that are created. -/
def reshapes (op : ConvolutionOp) : Reshaped where
  inputReshape := createReshapeOp op.input (op.input ++ [1])
  weightReshape := createReshapeOp op.weight (op.weight ++ [1])
  conv := newConvolution op
  outputReshape := createReshapeOp (op.output ++ [1]) op.output

/-- `matchAndRewrite`: `none` when the pattern does not fire. -/
def matchAndRewrite (op : ConvolutionOp) : Option Reshaped :=
  if ¬ (isSupportedConv op && isNDimensional op 1) then none else some (reshapes op)

end Legalize1DConvolution

/-! ## The emitted sequence -/

/-- What a convolution becomes. -/
inductive Emitted where
  | conv2d (lowered : Lowered)
  | reshaped (reshapes : Reshaped) (lowered : Lowered)
deriving DecidableEq, Repr

/-- The patterns, applied until none fires. -/
def lower (op : ConvolutionOp) : Except String (Option Emitted) :=
  match Legalize1DConvolution.matchAndRewrite op with
  | some reshapes => do
      let lowered ← ConvolutionToConv2d.matchAndRewrite reshapes.conv
      return lowered.map (.reshaped reshapes)
  | none => do
      let lowered ← ConvolutionToConv2d.matchAndRewrite op
      return lowered.map .conv2d

/-- The operations pass their verifiers, and the types of results and operands agree. -/
structure Lowered.Verified (l : Lowered) : Prop where
  inputPermute : l.inputPermute.verify = .ok ()
  weightPermute : l.weightPermute.verify = .ok ()
  conv : l.conv.verify = .ok ()
  outputPermute : l.outputPermute.verify = .ok ()

/-- What a permute computes. -/
def PermuteOp.apply {α : Type*} (op : PermuteOp) (x : Tensor α) : Tensor α :=
  x.permute (op.permutation.map Int.toNat)

/-- What the operations of two dimensions compute. -/
def Lowered.apply {α : Type*} [NonUnitalNonAssocSemiring α] (l : Lowered) (x w : Tensor α)
    (bias : Option (Tensor α)) : Option (Tensor α) :=
  (l.conv.apply (l.inputPermute.apply x) (l.weightPermute.apply w) bias).map l.outputPermute.apply

namespace Emitted

/-- All operations pass their verifiers. -/
def Verified : Emitted → Prop
  | conv2d lowered => lowered.Verified
  | reshaped reshapes lowered =>
    reshapes.inputReshape.verify = .ok () ∧ reshapes.weightReshape.verify = .ok () ∧
      lowered.Verified ∧ reshapes.outputReshape.verify = .ok ()

/-- The type of the result. -/
def output : Emitted → List ℕ
  | conv2d lowered => lowered.outputPermute.output
  | reshaped reshapes _ => reshapes.outputReshape.output

/-- What the sequence computes; a convolution of one dimension is created without a bias. -/
def apply {α : Type*} [NonUnitalNonAssocSemiring α] (x w : Tensor α) (bias : Option (Tensor α)) :
    Emitted → Option (Tensor α)
  | conv2d lowered => lowered.apply x w bias
  | reshaped reshapes lowered =>
    (lowered.apply (x.reshape reshapes.inputReshape.output)
      (w.reshape reshapes.weightReshape.output) none).map
        fun y => y.reshape reshapes.outputReshape.output

end Emitted

/-- A convolution is lowered to operations that pass their verifiers, with its type and, on all
operands of its types, its value. -/
def Preserved (op : ConvolutionOp) : Prop :=
  ∃ emitted, lower op = .ok (some emitted) ∧ emitted.Verified ∧ emitted.output = op.output ∧
    ∀ {α : Type} [NonUnitalNonAssocSemiring α] (x w : Tensor α) (bias : Option (Tensor α)),
      x.shape = op.input → w.shape = op.weight → bias.map Tensor.shape = op.bias →
        ∃ y, emitted.apply x w bias = some y ∧ (op.apply x w bias).Agree y

/-- Every dimension fits into the 32 bits of `Conv2dOp::verify`, and there are output positions. -/
def AllFit : List Window → List ℕ → List ℕ → Prop
  | w :: ws, n :: ns, k :: ks => Conv2dOp.Fits w n k ∧ AllFit ws ns ks
  | _, _, _ => True

/-- What reaches the emitted operations unchanged. -/
structure Forwarded (op : ConvolutionOp) : Prop where
  undilated : ∀ d ∈ op.inputDilation, d = 1
  sameLayout : op.layout.output = op.layout.input
  padding_nonneg : ∀ p ∈ op.padding, 0 ≤ p
  noBias : op.layout.inputSpatial.length = 1 → op.bias = none
  strides_lt : ∀ v ∈ op.windowStrides, v < 2 ^ 31
  padding_lt : ∀ v ∈ op.padding, v < 2 ^ 31
  dilation_lt : ∀ v ∈ op.weightDilation, v < 2 ^ 31
  groups_lt : op.featureGroupCount < 2 ^ 32
  channels_lt : op.input.getD op.layout.inputFeature 0 < 2 ^ 32 ∧ op.spec.outputFeatures < 2 ^ 32
  fits : AllFit op.spec.windows op.spec.input op.spec.kernel
  extents : op.layout.inputSpatial.length = 1 →
    ∀ n ∈ op.input ++ op.weight ++ op.output, 0 < n ∧ n < 2 ^ 31

/-! ## Casts, permutations and windows -/

variable {op : ConvolutionOp}

namespace ConvolutionToConv2d

open ConvolutionDecomposition

/-- **The permutation of the input** lists the positions of batch, height, width and feature. -/
theorem generateConvPermutation_eq {l : ConvolutionLayout} (hp : IsPermutation 4 l.input)
    (hspatial : l.inputSpatial.length = 2) : generateConvPermutation l conv2dLayout = l.input := by
  have hall : ∀ b h w f : Fin 4, [b, h, w, f].Nodup →
      generatePermutation (putSpatial (((List.replicate 4 invalidDim).set b batch).set f feature)
        0 [h.val, w.val]) conv2dLayout = [b.val, h.val, w.val, f.val] := by decide
  obtain ⟨h, w, hhw⟩ := List.length_eq_two.mp hspatial
  have hinput : l.input = [l.inputBatch, h, w, l.inputFeature] := by
    rw [ConvolutionLayout.input, hhw]
    rfl
  have hlt := fun i (hi : i ∈ l.input) => hp.lt hi
  rw [hinput] at hlt
  rw [generateConvPermutation, hhw, hinput]
  have hnodup := hp.nodup
  rw [hinput] at hnodup
  apply hall ⟨_, hlt l.inputBatch (by simp)⟩ ⟨h, hlt h (by simp)⟩ ⟨w, hlt w (by simp)⟩
    ⟨_, hlt l.inputFeature (by simp)⟩
  exact List.Nodup.of_map Fin.val hnodup

/-- **The permutation of the kernel** lists the positions of output feature, input feature,
height and width. -/
theorem generateConvKernelPermutation_eq {l : ConvolutionLayout} (hp : IsPermutation 4 l.kernel)
    (hspatial : l.kernelSpatial.length = 2) :
    generateConvKernelPermutation l conv2dKernelLayout = l.kernel := by
  have hall : ∀ o i h w : Fin 4, [o, i, h, w].Nodup →
      generatePermutation (putSpatial (((List.replicate 4 invalidDim).set o outputFeatures).set i
        inputFeatures) 0 [h.val, w.val]) conv2dKernelLayout = [o.val, i.val, h.val, w.val] := by
    decide
  obtain ⟨h, w, hhw⟩ := List.length_eq_two.mp hspatial
  have hkernel : l.kernel = [l.kernelOutputFeature, l.kernelInputFeature, h, w] := by
    rw [ConvolutionLayout.kernel, hhw]
  have hlt := fun i (hi : i ∈ l.kernel) => hp.lt hi
  rw [hkernel] at hlt
  rw [generateConvKernelPermutation, hhw, hkernel]
  have hnodup := hp.nodup
  rw [hkernel] at hnodup
  apply hall ⟨_, hlt l.kernelOutputFeature (by simp)⟩ ⟨_, hlt l.kernelInputFeature (by simp)⟩
    ⟨h, hlt h (by simp)⟩ ⟨w, hlt w (by simp)⟩
  exact List.Nodup.of_map Fin.val hnodup

variable {op : ConvolutionOp}

/-- **The windows** of a convolution of two dimensions are those of its `conv2d`. -/
theorem exists_windows (hop : op.WellTyped) (hforwarded : Forwarded op)
    (hspatial : op.layout.inputSpatial.length = 2) : ∃ wh ww : Window,
      op.spec.windows = [wh, ww] ∧ (Conv2dOp.Plain wh ∧ Conv2dOp.Plain ww) ∧
        ∀ conv : Conv2dOp, conv.attrs = conv2dAttrs op →
          conv.windows = .ok (wh, ww) ∧ conv.verifyAttrs = .ok () := by
  have hverify := hop.verify
  unfold ConvolutionOp.verify at hverify
  split_ifs at hverify with h1 h2 h3 h4 h5
  rw [not_not] at h5
  obtain ⟨s0, s1, hstrides⟩ := List.length_eq_two.mp (h5.trans hspatial)
  obtain ⟨d0, d1, hdilation⟩ := List.length_eq_two.mp (hop.weightDilation.trans hspatial)
  obtain ⟨i0, i1, hinput⟩ := List.length_eq_two.mp (hop.inputDilation.trans hspatial)
  have hpadding := hop.padding
  rw [hspatial] at hpadding
  match hp : op.padding, hpadding with
  | [p0, p1, p2, p3], _ =>
    have hundilated := hforwarded.undilated
    have hpos := hop.strides_pos
    have hlt := hforwarded.strides_lt
    have hpad := hforwarded.padding_nonneg
    have hpadLt := hforwarded.padding_lt
    have hdil := hop.weightDilation_pos
    have hdilLt := hforwarded.dilation_lt
    rw [hinput] at hundilated
    rw [hstrides] at hpos hlt
    rw [hp] at hpad hpadLt
    rw [hdilation] at hdil hdilLt
    simp only [List.mem_cons, List.not_mem_nil, or_false, forall_eq_or_imp, forall_eq]
      at hundilated hpos hlt hpad hpadLt hdil hdilLt
    obtain ⟨rfl, rfl⟩ := hundilated
    have c0 := Conv2dOp.castI32_of_lt hpos.1.le hlt.1
    have c1 := Conv2dOp.castI32_of_lt hpos.2.le hlt.2
    have c2 := Conv2dOp.castI32_of_lt hpad.1 hpadLt.1
    have c3 := Conv2dOp.castI32_of_lt hpad.2.1 hpadLt.2.1
    have c4 := Conv2dOp.castI32_of_lt hpad.2.2.1 hpadLt.2.2.1
    have c5 := Conv2dOp.castI32_of_lt hpad.2.2.2 hpadLt.2.2.2
    have c6 := Conv2dOp.castI32_of_lt hdil.1.le hdilLt.1
    have c7 := Conv2dOp.castI32_of_lt hdil.2.le hdilLt.2
    refine ⟨⟨s0.toNat, p0, p1, 1, d0.toNat⟩, ⟨s1.toNat, p2, p3, 1, d1.toNat⟩, ?_,
      ⟨⟨rfl, by simpa using hpos.1, by simpa using hdil.1, hpad.1, hpad.2.1⟩,
        ⟨rfl, by simpa using hpos.2, by simpa using hdil.2, hpad.2.2.1, hpad.2.2.2⟩⟩,
      fun conv hconv => ?_⟩
    · simp [ConvolutionOp.spec, hstrides, hp, hinput, hdilation, ConvolutionOp.windowsOf]
    · have hattrs : conv.attrs = ⟨.array [s0, s1], .array [p0, p2, p1, p3], .array [d0, d1],
          castU32 op.featureGroupCount, none⟩ := by
        rw [hconv, conv2dAttrs, hstrides, hp, hdilation]
        simp [c0, c1, c2, c3, c4, c5, c6, c7]
      constructor
      · rw [Conv2dOp.windows, hattrs]
        rfl
      · have e0 : ¬ (s0 < 1 ∨ s1 < 1) := by omega
        have e1 : ¬ (p0 < 0 ∨ p1 < 0 ∨ p2 < 0 ∨ p3 < 0) := by omega
        have e2 : ¬ (d0 < 1 ∨ d1 < 1) := by omega
        simp only [Conv2dOp.verifyAttrs, hattrs, getPairOfInteger, getQuadrupleOfInteger,
          Except.mapError, bind, Except.bind, if_neg e0, if_neg e1, if_neg e2]

/-- The operations for a convolution whose layouts are permutations. -/
def lowered (op : ConvolutionOp) : Lowered where
  inputPermute := ⟨op.input, op.layout.input.map (↑), gather op.layout.input op.input⟩
  weightPermute := ⟨op.weight, op.layout.kernel.map (↑), gather op.layout.kernel op.weight⟩
  conv := ⟨gather op.layout.input op.input, gather op.layout.kernel op.weight, op.bias,
    newOutputShape op, conv2dAttrs op⟩
  outputPermute := ⟨newOutputShape op, (inverse op.layout.input).map (↑), op.output⟩

/-- Ranks of a convolution of two dimensions. -/
structure Ranks (op : ConvolutionOp) : Prop where
  input : op.input.length = 4
  weight : op.weight.length = 4
  output : op.output.length = 4
  kernelSpatial : op.layout.kernelSpatial.length = 2
  outputSpatial : op.layout.outputSpatial.length = 2

theorem ranks (hop : op.WellTyped) (hspatial : op.layout.inputSpatial.length = 2) : Ranks op := by
  have hverify := hop.verify
  unfold ConvolutionOp.verify at hverify
  split_ifs at hverify with h1 h2 h3 h4 h5
  rw [not_or, not_not, not_not] at h1
  have houtput := hop.outputLayout.length_eq
  simp only [ConvolutionLayout.output, List.length_cons, List.length_append,
    List.length_nil] at houtput
  exact ⟨by omega, by omega, by omega, by omega, by omega⟩

theorem newOutputShape_eq (h : op.layout.outputSpatial.length = 2) :
    newOutputShape op = gather op.layout.output op.output := by
  obtain ⟨a, b, hab⟩ := List.length_eq_two.mp h
  rw [newOutputShape, ConvolutionLayout.output, hab]
  rfl

/-- **The pattern fires** on every supported convolution of two dimensions. -/
theorem matchAndRewrite_eq (hop : op.WellTyped)
    (hsupported : isSupportedConv op = true) (hspatial : op.layout.inputSpatial.length = 2) :
    matchAndRewrite op = .ok (some (lowered op)) := by
  have hranks := ranks hop hspatial
  have hinput : IsPermutation 4 op.layout.input := hranks.input ▸ hop.inputLayout
  have hkernel : IsPermutation 4 op.layout.kernel := hranks.weight ▸ hop.kernelLayout
  have hpadding : ¬ op.padding.length < 4 := by
    rw [hop.padding, hspatial]
    omega
  rw [matchAndRewrite, if_neg (by simp [hsupported, isNDimensional, hspatial]), if_neg hpadding,
    generateConvPermutation_eq hinput hspatial,
    generateConvKernelPermutation_eq hkernel hranks.kernelSpatial]
  simp only [applyPermutation_natCast hop.inputLayout, applyPermutation_natCast hop.kernelLayout]
  rfl

/-- The shapes of the new convolution. -/
theorem shapes (hop : op.WellTyped)
    (hspatial : op.layout.inputSpatial.length = 2) : ∃ n h w c o m kh kw oh ow : ℕ,
      (gather op.layout.input op.input = [n, h, w, c] ∧ op.spec.input = [h, w]) ∧
      (gather op.layout.kernel op.weight = [o, m, kh, kw] ∧ op.spec.kernel = [kh, kw] ∧
        op.spec.outputFeatures = o ∧ op.spec.groupFeatures = m) ∧
      gather op.layout.output op.output = [n, oh, ow, o] ∧
      c = m * op.featureGroupCount ∧
      ∀ wh ww : Window, op.spec.windows = [wh, ww] →
        wh.outExtent h kh = oh ∧ ww.outExtent w kw = ow := by
  have hranks := ranks hop hspatial
  obtain ⟨i0, i1, hi⟩ := List.length_eq_two.mp hspatial
  obtain ⟨k0, k1, hk⟩ := List.length_eq_two.mp hranks.kernelSpatial
  obtain ⟨o0, o1, ho⟩ := List.length_eq_two.mp hranks.outputSpatial
  have hextents := hop.extents
  have houtput : gather op.layout.output op.output =
      [op.input.getD op.layout.inputBatch 0, op.output.getD o0 0, op.output.getD o1 0,
        op.spec.outputFeatures] := by
    rw [ConvolutionLayout.output, ho, ← hop.batch, ← hop.features]
    rfl
  refine ⟨_, op.input.getD i0 0, op.input.getD i1 0, _, _, _, op.weight.getD k0 0,
    op.weight.getD k1 0, _, _, ⟨?_, ?_⟩, ⟨?_, ?_, rfl, rfl⟩, houtput,
    hop.inputFeatures, ?_⟩
  · rw [ConvolutionLayout.input, hi]
    rfl
  · simp [ConvolutionOp.spec, hi, gather]
  · rw [ConvolutionLayout.kernel, hk]
    rfl
  · simp [ConvolutionOp.spec, hk, gather]
  · intro wh ww hwindows
    rw [hwindows] at hextents
    simp only [ConvolutionOp.spec, hi, hk, ho, gather, List.map_cons, List.map_nil,
      ConvolutionOp.outExtents, List.cons.injEq, and_true] at hextents
    exact ⟨hextents.1.symm, hextents.2.symm⟩

theorem groups_eq (hforwarded : Forwarded op) :
    (conv2dAttrs op).groups = op.featureGroupCount := Conv2dOp.castU32_natCast hforwarded.groups_lt

/-- **The operations pass their verifiers.** -/
theorem verified (hop : op.WellTyped) (hforwarded : Forwarded op)
    (hspatial : op.layout.inputSpatial.length = 2) : (lowered op).Verified := by
  have hranks := ranks hop hspatial
  obtain ⟨wh, ww, hwindows, ⟨hph, hpw⟩, hconv⟩ := exists_windows hop hforwarded hspatial
  obtain ⟨n, h, w, c, o, m, kh, kw, oh, ow, ⟨hinput, hin⟩, ⟨hkernel, hker, hfeatures, hgroup⟩,
    houtput, hc, hextents⟩ := shapes hop hspatial
  obtain ⟨heh, hew⟩ := hextents wh ww hwindows
  have hfits := hforwarded.fits
  rw [hwindows, hin, hker] at hfits
  obtain ⟨hfith, hfitw, -⟩ := hfits
  obtain ⟨hchannels, hoChannels⟩ := hforwarded.channels_lt
  rw [hop.inputFeatures, hgroup, ← hc] at hchannels
  rw [hfeatures] at hoChannels
  have hgroups := groups_eq hforwarded
  have hnew := newOutputShape_eq hranks.outputSpatial
  refine ⟨PermuteOp.verify_gather hop.inputLayout, PermuteOp.verify_gather hop.kernelLayout, ?_, ?_⟩
  · obtain ⟨hok, hattrs⟩ := hconv (lowered op).conv rfl
    have hshape : (lowered op).conv
        = ⟨[n, h, w, c], [o, m, kh, kw], op.bias, [n, oh, ow, o], conv2dAttrs op⟩ := by
      rw [lowered, hnew, hinput, hkernel, houtput]
    refine Conv2dOp.verify_of_windows hshape rfl hattrs hok (fun b hb => ?_) ?_ ?_ ?_ hchannels
      hoChannels hph hpw hfith hfitw heh hew
    · rw [hop.bias b hb, hfeatures]
    · rw [hgroups, hc]
    · rw [hgroups]
      exact hop.groups_pos
    · rw [hgroups, ← hfeatures]
      exact hop.outputFeatures
  · -- the layout of the output is that of the input, so its permutation is undone
    have hlength : op.output.length = op.input.length := by rw [hranks.output, hranks.input]
    have hback : gather (inverse op.layout.input) (newOutputShape op) = op.output := by
      rw [hnew, hforwarded.sameLayout]
      exact hop.inputLayout.gather_inverse_gather hlength
    have hrank : (newOutputShape op).length = op.input.length := by
      rw [hranks.input]
      rfl
    have hperm : IsPermutation (newOutputShape op).length (inverse op.layout.input) :=
      hrank ▸ hop.inputLayout.inverse
    have hverify := PermuteOp.verify_gather hperm
    rw [hback] at hverify
    exact hverify

section Value

variable {α : Type} [NonUnitalNonAssocSemiring α]

theorem spec_eq (hop : op.WellTyped) (hforwarded : Forwarded op)
    (hspatial : op.layout.inputSpatial.length = 2) {wh ww : Window}
    (hwindows : op.spec.windows = [wh, ww]) : (lowered op).conv.spec wh ww = op.spec := by
  obtain ⟨n, h, w, c, o, m, kh, kw, oh, ow, ⟨hinput, hin⟩, ⟨hkernel, hker, hout, hgroup⟩, -,
    -, -⟩ := shapes hop hspatial
  have hgroups := groups_eq hforwarded
  rw [Conv2dOp.spec]
  simp only [lowered, hinput, hkernel, Conv2dOp.inputExtents, Conv2dOp.dim, hgroups]
  have heta : op.spec = ⟨op.spec.windows, op.spec.input, op.spec.kernel, op.spec.outputFeatures,
    op.spec.groupFeatures, op.spec.groups⟩ := rfl
  rw [heta, hwindows, hin, hker, hout, hgroup]
  rfl

theorem elem_unbiased {wh ww : Window}
    (hspec : (lowered op).conv.spec wh ww = op.spec) (x w : Tensor α) (b oh ow f : ℕ) :
    ((lowered op).conv.unbiased wh ww ((lowered op).inputPermute.apply x)
      ((lowered op).weightPermute.apply w)).elem [b, oh, ow, f] =
      convolve op.spec (ConvolutionOp.inputElem op.layout x) (ConvolutionOp.kernelElem op.layout w)
        b f [oh, ow] := by
  rw [← hspec]
  simp only [Conv2dOp.unbiased, lowered, conv2dAttrs, Conv2dOp.core, PermuteOp.apply,
    map_toNat_map_natCast]
  rfl

/-- The type of the new convolution is the shape of its value. -/
theorem output_eq (hop : op.WellTyped) (hspatial : op.layout.inputSpatial.length = 2)
    {wh ww : Window} (hwindows : op.spec.windows = [wh, ww]) :
    (lowered op).conv.output = (lowered op).conv.resultShape wh ww := by
  obtain ⟨n, h, w, c, o, m, kh, kw, oh, ow, ⟨hinput, -⟩, ⟨hkernel, -⟩, houtput, -, hextents⟩ :=
    shapes hop hspatial
  obtain ⟨heh, hew⟩ := hextents wh ww hwindows
  have hnew := newOutputShape_eq (ranks hop hspatial).outputSpatial
  simp [lowered, hnew, houtput, hinput, hkernel, Conv2dOp.resultShape, Conv2dOp.outputExtents,
    Conv2dOp.inputExtents, conv2dAttrs, Conv2dOp.dim, heh, hew]

/-- **The values of the emitted operations** are those of the convolution. -/
theorem apply_agree (hop : op.WellTyped) (hforwarded : Forwarded op)
    (hspatial : op.layout.inputSpatial.length = 2) (x w : Tensor α) (bias : Option (Tensor α))
    (hbias : bias.map Tensor.shape = op.bias) :
    ∃ y, (lowered op).apply x w bias = some y ∧ (op.apply x w bias).Agree y := by
  have hranks := ranks hop hspatial
  obtain ⟨wh, ww, hwindows, -, hconv⟩ := exists_windows hop hforwarded hspatial
  obtain ⟨hok, -⟩ := hconv (lowered op).conv rfl
  have htype := output_eq hop hspatial hwindows
  have hspec := spec_eq hop hforwarded hspatial hwindows
  have hvalid := Conv2dOp.verify_spec (verified hop hforwarded hspatial).conv
  obtain ⟨h, w', hhw⟩ := List.length_eq_two.mp hranks.outputSpatial
  have houtput : op.layout.output = [op.layout.outputBatch, h, w', op.layout.outputFeature] := by
    rw [ConvolutionLayout.output, hhw]
    rfl
  have hnew : newOutputShape op = gather op.layout.output op.output :=
    newOutputShape_eq hranks.outputSpatial
  -- where an index of the output is read in the new convolution
  have hcoords : ∀ idx : List ℕ, gather op.layout.output idx =
      [idx.getD op.layout.outputBatch 0, idx.getD h 0, idx.getD w' 0,
        idx.getD op.layout.outputFeature 0] := by
    intro idx
    rw [houtput]
    rfl
  have hread : ∀ idx, InShape idx op.output →
      gather (inverse (inverse op.layout.input)) idx = gather op.layout.output idx := by
    intro idx hidx
    have hlength : idx.length = op.input.length := by
      rw [hidx.length_eq, hranks.output, hranks.input]
    rw [hop.inputLayout.gather_inverse_inverse hlength, hforwarded.sameLayout]
  have hin : ∀ idx, InShape idx op.output →
      InShape (gather op.layout.output idx) (lowered op).conv.output := by
    intro idx hidx
    rw [lowered, hnew]
    exact forall₂_gather hidx fun i hi => hidx.length_eq ▸ hop.outputLayout.lt hi
  have happly : ∀ y : Tensor α, ∀ idx, InShape idx op.output →
      ((lowered op).outputPermute.apply y).elem idx = y.elem (gather op.layout.output idx) := by
    intro y idx hidx
    rw [PermuteOp.apply, lowered, map_toNat_map_natCast]
    exact congrArg y.elem (hread idx hidx)
  have hshape : ∀ y : Tensor α, y.shape = (lowered op).conv.output →
      ((lowered op).outputPermute.apply y).shape = op.output := by
    intro y hy
    have hlength : op.output.length = op.input.length := by rw [hranks.output, hranks.input]
    rw [PermuteOp.apply, lowered, map_toNat_map_natCast]
    show gather _ y.shape = _
    rw [hy, lowered, hnew, hforwarded.sameLayout]
    exact hop.inputLayout.gather_inverse_gather hlength
  have hunbiased := (Conv2dOp.unbiased_shape (lowered op).conv wh ww
    ((lowered op).inputPermute.apply x) ((lowered op).weightPermute.apply w)).trans htype.symm
  have hspatialCoords : ∀ idx : List ℕ, gather op.layout.outputSpatial idx =
      [idx.getD h 0, idx.getD w' 0] := by
    intro idx
    rw [hhw]
    rfl
  rw [Lowered.apply]
  cases bias with
  | none =>
    rw [Conv2dOp.apply_none hok]
    refine ⟨_, rfl, (hshape _ hunbiased).symm, fun idx hidx => ?_⟩
    rw [happly _ idx hidx, hcoords, elem_unbiased hspec]
    simp only [ConvolutionOp.apply, ConvolutionOp.biasElem, Option.map_none, Option.getD_none,
      add_zero, hspatialCoords]
  | some b =>
    rw [Conv2dOp.apply_some hok]
    refine ⟨_, rfl, (hshape _ htype.symm).symm, fun idx hidx => ?_⟩
    have hinIdx := hin idx hidx
    rw [happly _ idx hidx]
    simp only [Tensor.zip, hunbiased]
    rw [clamp_of_inShape hinIdx, hcoords, elem_unbiased hspec]
    have hbshape : b.shape = [1, 1, 1, Conv2dOp.dim (lowered op).conv.weight 0] :=
      hvalid.bias_eq b.shape hbias.symm
    have hf := Conv2dOp.channel_lt htype (hcoords idx ▸ hinIdx)
    rw [hbshape, clamp_scale hf]
    simp only [ConvolutionOp.apply, ConvolutionOp.biasElem, Option.map_some, Option.getD_some,
      hspatialCoords]

end Value

end ConvolutionToConv2d

/-! ## One spatial dimension -/

namespace Legalize1DConvolution

theorem isPermutation_insert {n a z : ℕ} {sp : List ℕ}
    (h : IsPermutation n (a :: (sp ++ [z]))) : IsPermutation (n + 1) (a :: ((sp ++ [n]) ++ [z])) := by
  have hmove : (a :: ((sp ++ [n]) ++ [z])).Perm ((a :: (sp ++ [z])) ++ [n]) := by
    have hswap : (a :: (sp ++ [n, z])).Perm (a :: (sp ++ [z, n])) :=
      .cons a (.append_left sp (.swap z n []))
    simpa using hswap
  rw [IsPermutation, List.range_succ]
  exact hmove.trans (.append_right [n] h)

theorem isPermutation_append {n : ℕ} {p : List ℕ} (h : IsPermutation n p) :
    IsPermutation (n + 1) (p ++ [n]) := by
  rw [IsPermutation, List.range_succ]
  exact .append_right [n] h

/-- An index vector with one more coordinate before its last one. -/
theorem gather_inverse_insert {n a z b f : ℕ} {sp is : List ℕ}
    (h : IsPermutation n (a :: (sp ++ [z]))) (his : is.length = sp.length) :
    gather (inverse (a :: ((sp ++ [n]) ++ [z]))) (b :: ((is ++ [0]) ++ [f])) =
      gather (inverse (a :: (sp ++ [z]))) (b :: (is ++ [f])) ++ [0] := by
  have hlength := h.length_eq
  have hv : (b :: (is ++ [f])).length = n := by
    rw [← hlength]
    simp [his]
  set i := gather (inverse (a :: (sp ++ [z]))) (b :: (is ++ [f])) with hi
  have hi_length : i.length = n := by
    rw [hi, length_gather, length_inverse, hlength]
  have hback : gather (a :: (sp ++ [z])) i = b :: (is ++ [f]) := h.gather_gather_inverse hv
  have hlt : ∀ k ∈ a :: (sp ++ [z]), k < i.length := fun k hk => hi_length ▸ h.lt hk
  -- what the longer layout gathers from the longer index vector
  have hgather : gather (a :: ((sp ++ [n]) ++ [z])) (i ++ [0]) = b :: ((is ++ [0]) ++ [f]) := by
    rw [← gather_append hlt [0]] at hback
    simp only [gather, List.map_cons, List.map_append, List.map_nil, List.cons.injEq] at hback ⊢
    obtain ⟨hb, hrest⟩ := hback
    obtain ⟨his', hf⟩ := List.append_inj hrest (by simp [his])
    have hn : (i ++ [0]).getD n default = 0 := by simp [List.getD, ← hi_length]
    rw [hb, his', hf, hn]
    exact ⟨rfl, rfl⟩
  rw [← hgather]
  exact (isPermutation_insert h).gather_inverse_gather (by simp [hi_length])

/-- An index vector with one more coordinate at the end. -/
theorem gather_inverse_append {n : ℕ} {p v : List ℕ} (h : IsPermutation n p) (hv : v.length = n) :
    gather (inverse (p ++ [n])) (v ++ [0]) = gather (inverse p) v ++ [0] := by
  set i := gather (inverse p) v with hi
  have hi_length : i.length = n := by
    rw [hi, length_gather, length_inverse, h.length_eq]
  have hback : gather p i = v := h.gather_gather_inverse hv
  have hlt : ∀ k ∈ p, k < i.length := fun k hk => hi_length ▸ h.lt hk
  have hgather : gather (p ++ [n]) (i ++ [0]) = v ++ [0] := by
    have hn : (i ++ [0]).getD n default = 0 := by simp [List.getD, ← hi_length]
    rw [← gather_append hlt [0]] at hback
    rw [gather, List.map_append, List.map_cons, List.map_nil, hn]
    exact congrArg (· ++ [0]) hback
  rw [← hgather]
  exact (isPermutation_append h).gather_inverse_gather (by simp [hi_length])

section OneDim

open ConvolutionDecomposition

variable {op : ConvolutionOp}

/-- Ranks of a convolution of one dimension. -/
structure Ranks (op : ConvolutionOp) : Prop where
  input : op.input.length = 3
  weight : op.weight.length = 3
  output : op.output.length = 3
  kernelSpatial : op.layout.kernelSpatial.length = 1
  outputSpatial : op.layout.outputSpatial.length = 1
  strides : op.windowStrides.length = 1

theorem ranks (hop : op.WellTyped) (hspatial : op.layout.inputSpatial.length = 1) : Ranks op := by
  have hverify := hop.verify
  unfold ConvolutionOp.verify at hverify
  split_ifs at hverify with h1 h2 h3 h4 h5
  rw [not_or, not_not, not_not] at h1
  have houtput := hop.outputLayout.length_eq
  simp only [ConvolutionLayout.output, List.length_cons, List.length_append,
    List.length_nil] at houtput
  exact ⟨by omega, by omega, by omega, by omega, by omega, by omega⟩

/-- **The convolution of two dimensions** has one more window, that reads one position. -/
theorem spec_newConvolution (hop : op.WellTyped) (hspatial : op.layout.inputSpatial.length = 1) :
    (newConvolution op).spec = op.spec.append Window.unit 1 1 ∧
      op.spec.windows.length = 1 ∧ op.spec.input.length = 1 ∧ op.spec.kernel.length = 1 := by
  have hranks := ranks hop hspatial
  obtain ⟨i, hi⟩ := List.length_eq_one_iff.mp hspatial
  obtain ⟨k, hk⟩ := List.length_eq_one_iff.mp hranks.kernelSpatial
  obtain ⟨s, hs⟩ := List.length_eq_one_iff.mp hranks.strides
  obtain ⟨d, hd⟩ := List.length_eq_one_iff.mp (hop.weightDilation.trans hspatial)
  obtain ⟨e, he⟩ := List.length_eq_one_iff.mp (hop.inputDilation.trans hspatial)
  have hpadding := hop.padding
  rw [hspatial] at hpadding
  obtain ⟨p0, p1, hp⟩ := List.length_eq_two.mp hpadding
  have hinput : ∀ j ∈ op.layout.input, j < op.input.length := fun j hj => hop.inputLayout.lt hj
  have hkernel : ∀ j ∈ op.layout.kernel, j < op.weight.length := fun j hj => hop.kernelLayout.lt hj
  rw [ConvolutionLayout.input, hi] at hinput
  rw [ConvolutionLayout.kernel, hk] at hkernel
  have hof := hkernel op.layout.kernelOutputFeature (by simp)
  have hif := hkernel op.layout.kernelInputFeature (by simp)
  have hgi : gather (op.layout.inputSpatial ++ [3]) (op.input ++ [1]) =
      gather op.layout.inputSpatial op.input ++ [1] := by
    have hlt := hinput i (by simp)
    simp [hi, gather, List.getD, List.getElem?_append_left hlt, ← hranks.input]
  have hgk : gather (op.layout.kernelSpatial ++ [3]) (op.weight ++ [1]) =
      gather op.layout.kernelSpatial op.weight ++ [1] := by
    have hlt := hkernel k (by simp)
    simp [hk, gather, List.getD, List.getElem?_append_left hlt, ← hranks.weight]
  refine ⟨?_, ?_, ?_, ?_⟩
  · simp only [ConvolutionOp.spec, newConvolution, appendDim, Spec.append, hgi, hgk, hs, hd, he,
      hp, List.getD_append _ _ _ _ hof, List.getD_append _ _ _ _ hif]
    rfl
  · simp [ConvolutionOp.spec, hs, hd, he, hp, ConvolutionOp.windowsOf]
  · simp [ConvolutionOp.spec, hi]
  · simp [ConvolutionOp.spec, hk]

/-- The numbers of output positions, with one more window that reads one position. -/
theorem outExtents_append {ws : List Window} {ns ks : List ℕ} (hns : ns.length = ws.length)
    (hks : ks.length = ws.length) : ConvolutionOp.outExtents (ws ++ [Window.unit]) (ns ++ [1])
      (ks ++ [1]) = ConvolutionOp.outExtents ws ns ks ++ [1] := by
  induction ws generalizing ns ks with
  | nil =>
    obtain rfl := List.length_eq_zero_iff.mp hns
    obtain rfl := List.length_eq_zero_iff.mp hks
    rfl
  | cons w ws ih =>
    obtain ⟨n, ns, rfl⟩ := List.exists_cons_of_length_eq_add_one hns
    obtain ⟨k, ks, rfl⟩ := List.exists_cons_of_length_eq_add_one hks
    simp only [List.length_cons, Nat.add_right_cancel_iff] at hns hks
    simp only [List.cons_append, ConvolutionOp.outExtents, ih hns hks]

/-- The output positions of the convolution of two dimensions. -/
theorem gather_outputSpatial (hop : op.WellTyped) (hspatial : op.layout.inputSpatial.length = 1)
    {idx : List ℕ} (hidx : idx.length = 3) (a : ℕ) :
    gather (newConvolution op).layout.outputSpatial (idx ++ [a]) =
      gather op.layout.outputSpatial idx ++ [a] := by
  have hranks := ranks hop hspatial
  have hlt : ∀ j ∈ op.layout.outputSpatial, j < idx.length := by
    intro j hj
    rw [hidx, ← hranks.output]
    exact hop.outputLayout.lt (by simp [ConvolutionLayout.output, hj])
  have hlast : (idx ++ [a]).getD 3 default = a := by simp [List.getD, ← hidx]
  show gather (op.layout.outputSpatial ++ [3]) (idx ++ [a]) = _
  rw [gather, List.map_append, List.map_cons, List.map_nil, hlast]
  exact congrArg (· ++ [a]) (gather_append hlt [a])

/-- **The convolution of two dimensions is well typed.** -/
theorem wellTyped_newConvolution (hop : op.WellTyped)
    (hspatial : op.layout.inputSpatial.length = 1) : (newConvolution op).WellTyped := by
  have hranks := ranks hop hspatial
  obtain ⟨hspec, hwindows, hinput, hkernel⟩ := spec_newConvolution hop hspatial
  have hinputLt : ∀ j ∈ op.layout.input, j < op.input.length := fun j hj => hop.inputLayout.lt hj
  have houtputLt : ∀ j ∈ op.layout.output, j < op.output.length :=
    fun j hj => hop.outputLayout.lt hj
  have hi := hop.inputLayout
  have hk := hop.kernelLayout
  have ho := hop.outputLayout
  rw [hranks.input] at hi
  rw [hranks.weight] at hk
  rw [hranks.output] at ho
  have hifeature := hinputLt op.layout.inputFeature (by simp [ConvolutionLayout.input])
  have hibatch := hinputLt op.layout.inputBatch (by simp [ConvolutionLayout.input])
  have hofeature := houtputLt op.layout.outputFeature (by simp [ConvolutionLayout.output])
  have hobatch := houtputLt op.layout.outputBatch (by simp [ConvolutionLayout.output])
  exact {
    verify := by
      simp [ConvolutionOp.verify, newConvolution, appendDim, hspatial, hranks.input,
        hranks.weight, hranks.kernelSpatial, hranks.outputSpatial, hranks.strides]
    inputLayout := by
      show IsPermutation (op.input ++ [1]).length _
      rw [List.length_append, hranks.input]
      exact isPermutation_insert hi
    kernelLayout := by
      show IsPermutation (op.weight ++ [1]).length _
      rw [List.length_append, hranks.weight]
      exact isPermutation_append hk
    outputLayout := by
      show IsPermutation (op.output ++ [1]).length _
      rw [List.length_append, hranks.output]
      exact isPermutation_insert ho
    padding := by simp [newConvolution, appendDim, hop.padding, hspatial]
    inputDilation := by simp [newConvolution, appendDim, hop.inputDilation]
    weightDilation := by simp [newConvolution, appendDim, hop.weightDilation]
    strides_pos := fun s hs => (List.mem_append.mp hs).elim (hop.strides_pos s) fun h => by simp_all
    inputDilation_pos := fun s hs => (List.mem_append.mp hs).elim (hop.inputDilation_pos s)
      fun h => by simp_all
    weightDilation_pos := fun s hs => (List.mem_append.mp hs).elim (hop.weightDilation_pos s)
      fun h => by simp_all
    groups_pos := hop.groups_pos
    inputFeatures := by
      rw [hspec]
      show (op.input ++ [1]).getD op.layout.inputFeature 0 = _
      rw [List.getD_append _ _ _ _ hifeature]
      exact hop.inputFeatures
    outputFeatures := by
      rw [hspec]
      exact hop.outputFeatures
    batch := by
      show (op.output ++ [1]).getD op.layout.outputBatch 0 =
        (op.input ++ [1]).getD op.layout.inputBatch 0
      rw [List.getD_append _ _ _ _ hobatch, List.getD_append _ _ _ _ hibatch]
      exact hop.batch
    features := by
      rw [hspec]
      show (op.output ++ [1]).getD op.layout.outputFeature 0 = _
      rw [List.getD_append _ _ _ _ hofeature]
      exact hop.features
    bias := fun b hb => nomatch hb
    extents := by
      rw [hspec]
      show (gather _ (op.output ++ [1])).map _ = ConvolutionOp.outExtents (op.spec.windows ++
        [Window.unit]) (op.spec.input ++ [1]) (op.spec.kernel ++ [1])
      rw [gather_outputSpatial hop hspatial hranks.output, outExtents_append (by omega) (by omega),
        ← hop.extents, List.map_append]
      rfl }

/-- One more dimension of one position fits. -/
theorem allFit_append {ws : List Window} {ns ks : List ℕ} (hns : ns.length = ws.length)
    (hks : ks.length = ws.length) (h : AllFit ws ns ks) :
    AllFit (ws ++ [Window.unit]) (ns ++ [1]) (ks ++ [1]) := by
  induction ws generalizing ns ks with
  | nil =>
    obtain rfl := List.length_eq_zero_iff.mp hns
    obtain rfl := List.length_eq_zero_iff.mp hks
    exact ⟨⟨by decide, by decide, .inr rfl, by decide, by decide⟩, trivial⟩
  | cons w ws ih =>
    obtain ⟨n, ns, rfl⟩ := List.exists_cons_of_length_eq_add_one hns
    obtain ⟨k, ks, rfl⟩ := List.exists_cons_of_length_eq_add_one hks
    simp only [List.length_cons, Nat.add_right_cancel_iff] at hns hks
    exact ⟨h.1, ih hns hks h.2⟩

/-- What is forwarded stays so. -/
theorem forwarded_newConvolution (hop : op.WellTyped) (hforwarded : Forwarded op)
    (hspatial : op.layout.inputSpatial.length = 1) : Forwarded (newConvolution op) := by
  have htwo : (newConvolution op).layout.inputSpatial.length ≠ 1 := by
    simp [newConvolution, appendDim, hspatial]
  obtain ⟨hspec, hwindows, hinput, hkernel⟩ := spec_newConvolution hop hspatial
  have hlayout := hforwarded.sameLayout
  simp only [ConvolutionLayout.output, ConvolutionLayout.input, List.cons.injEq] at hlayout
  obtain ⟨hbatch, hrest⟩ := hlayout
  obtain ⟨hspatialEq, hfeature⟩ := List.append_inj' hrest rfl
  rw [List.cons.injEq] at hfeature
  exact {
    undilated := fun d hd => (List.mem_append.mp hd).elim (hforwarded.undilated d)
      List.mem_singleton.mp
    sameLayout := by
      simp [newConvolution, appendDim, ConvolutionLayout.output, ConvolutionLayout.input, hbatch,
        hspatialEq, hfeature.1]
    padding_nonneg := by
      intro v hv
      simp only [newConvolution, List.mem_append, List.mem_singleton] at hv
      rcases hv with (hv | rfl) | rfl
      · exact hforwarded.padding_nonneg v hv
      · exact le_refl 0
      · exact le_refl 0
    noBias := fun h => absurd h htwo
    strides_lt := fun v hv => (List.mem_append.mp hv).elim (hforwarded.strides_lt v) fun h => by
      rw [List.mem_singleton.mp h]
      norm_num
    padding_lt := by
      intro v hv
      simp only [newConvolution, List.mem_append, List.mem_singleton] at hv
      rcases hv with (hv | rfl) | rfl
      · exact hforwarded.padding_lt v hv
      · norm_num
      · norm_num
    dilation_lt := fun v hv => (List.mem_append.mp hv).elim (hforwarded.dilation_lt v) fun h => by
      rw [List.mem_singleton.mp h]
      norm_num
    groups_lt := hforwarded.groups_lt
    channels_lt := by
      rw [hspec]
      refine ⟨?_, hforwarded.channels_lt.2⟩
      have hlt : op.layout.inputFeature < op.input.length :=
        hop.inputLayout.lt (by simp [ConvolutionLayout.input])
      show (op.input ++ [1]).getD op.layout.inputFeature 0 < _
      rw [List.getD_append _ _ _ _ hlt]
      exact hforwarded.channels_lt.1
    fits := by
      rw [hspec]
      exact allFit_append (hinput.trans hwindows.symm) (hkernel.trans hwindows.symm) hforwarded.fits
    extents := fun h => absurd h htwo }

theorem inShape_gather_inverse {p v shape : List ℕ} (hp : IsPermutation shape.length p)
    (hv : InShape v (gather p shape)) : InShape (gather (inverse p) v) shape := by
  have hlt : ∀ i ∈ inverse p, i < v.length := by
    intro i hi
    rw [hv.length_eq, length_gather, hp.length_eq]
    exact hp.inverse.lt hi
  have hgather := forall₂_gather hv hlt
  rwa [hp.gather_inverse_gather rfl] at hgather

section Value

variable {α : Type}

theorem elem_reshape_append {x : Tensor α} {shape i : List ℕ} (hx : x.shape = shape)
    (hi : InShape i shape) : (x.reshape (shape ++ [1])).elem (i ++ [0]) = x.elem i := by
  show x.elem (unravel x.shape (rowMajor (shape ++ [1]) (i ++ [0]))) = x.elem i
  rw [rowMajor_append [1] [0] hi.length_eq, List.prod_singleton, Nat.mul_one, hx]
  show x.elem (unravel shape (rowMajor shape i + 0)) = x.elem i
  rw [Nat.add_zero, unravel_rowMajor hi]

theorem elem_reshape_dropLast {y : Tensor α} {shape i : List ℕ} (hy : y.shape = shape ++ [1])
    (hi : InShape i shape) : (y.reshape shape).elem i = y.elem (i ++ [0]) := by
  show y.elem (unravel y.shape (rowMajor shape i)) = y.elem (i ++ [0])
  rw [hy, unravel_append_one shape (rowMajor_lt hi), unravel_rowMajor hi]

variable [NonUnitalNonAssocSemiring α]

/-- **One more dimension changes no value.** -/
theorem elem_apply_newConvolution (hop : op.WellTyped)
    (hspatial : op.layout.inputSpatial.length = 1) {x w : Tensor α} (hx : x.shape = op.input)
    (hw : w.shape = op.weight) {idx : List ℕ} (hidx : InShape idx op.output) :
    ((newConvolution op).apply (x.reshape (op.input ++ [1])) (w.reshape (op.weight ++ [1]))
      none).elem (idx ++ [0]) = (op.apply x w none).elem idx := by
  have hranks := ranks hop hspatial
  obtain ⟨hspec, hwindows, hinput, hkernel⟩ := spec_newConvolution hop hspatial
  have hlength : idx.length = 3 := hidx.length_eq.trans hranks.output
  have hlt : ∀ j ∈ op.layout.output, j < idx.length := by
    intro j hj
    rw [hlength, ← hranks.output]
    exact hop.outputLayout.lt hj
  have hbatch : (idx ++ [0]).getD op.layout.outputBatch 0 = idx.getD op.layout.outputBatch 0 :=
    List.getD_append _ _ _ _ (hlt _ (by simp [ConvolutionLayout.output]))
  have hfeature : (idx ++ [0]).getD op.layout.outputFeature 0 =
      idx.getD op.layout.outputFeature 0 :=
    List.getD_append _ _ _ _ (hlt _ (by simp [ConvolutionLayout.output]))
  -- batch and output feature are those of the operands
  have hb : idx.getD op.layout.outputBatch 0 < op.input.getD op.layout.inputBatch 0 := by
    rw [← hop.batch]
    exact getD_lt_of_inShape hidx (hidx.length_eq ▸ hlt _ (by simp [ConvolutionLayout.output]))
  have hf : idx.getD op.layout.outputFeature 0 < op.spec.outputFeatures := by
    rw [← hop.features]
    exact getD_lt_of_inShape hidx (hidx.length_eq ▸ hlt _ (by simp [ConvolutionLayout.output]))
  have hi := hop.inputLayout
  have hk := hop.kernelLayout
  rw [hranks.input] at hi
  rw [hranks.weight] at hk
  have hspatialIdx := gather_outputSpatial hop hspatial hlength 0
  rw [ConvolutionOp.elem_apply_none, ConvolutionOp.elem_apply_none, hspatialIdx, hspec]
  have hlayout : (newConvolution op).layout.outputBatch = op.layout.outputBatch ∧
    (newConvolution op).layout.outputFeature = op.layout.outputFeature := ⟨rfl, rfl⟩
  rw [hlayout.1, hlayout.2, hbatch, hfeature]
  apply convolve_append (hinput.trans hwindows.symm) (hkernel.trans hwindows.symm)
    (by rw [length_gather, hranks.outputSpatial, hwindows])
  · intro c hc k _ is htaps
    have his : InShape is op.spec.input := inShape_taps (hinput.trans hwindows.symm)
      (by rw [length_gather, hranks.outputSpatial, hwindows])
      (by rw [length_unravel, hkernel, hwindows]) htaps
    have hc' : op.spec.groupStart (idx.getD op.layout.outputFeature 0) + c <
        op.input.getD op.layout.inputFeature 0 := by
      rw [hop.inputFeatures]
      exact Spec.groupStart_add_lt hop.outputFeatures hop.groups_pos hf hc
    have hcut : gather op.layout.input op.input = op.input.getD op.layout.inputBatch 0 ::
        (op.spec.input ++ [op.input.getD op.layout.inputFeature 0]) := by
      simp [ConvolutionLayout.input, ConvolutionOp.spec, gather]
    have hin := inShape_gather_inverse hop.inputLayout (by
      rw [hcut]
      exact .cons hb (List.rel_append his (.cons hc' .nil)))
    have hlength' : is.length = op.layout.inputSpatial.length := by
      rw [his.length_eq, hinput, hspatial]
    have hgather := gather_inverse_insert (b := idx.getD op.layout.outputBatch 0)
      (f := op.spec.groupStart (idx.getD op.layout.outputFeature 0) + c) hi hlength'
    exact (congrArg _ hgather).trans (elem_reshape_append hx hin)
  · intro c hc k hk'
    have hks := inShape_unravel op.spec.kernel k hk'
    have hin := inShape_gather_inverse hop.kernelLayout (.cons hf (.cons hc hks))
    have hgather := gather_inverse_append
      (v := idx.getD op.layout.outputFeature 0 :: c :: unravel op.spec.kernel k) hk (by
        rw [List.length_cons, List.length_cons, length_unravel, hkernel])
    exact (congrArg _ hgather).trans (elem_reshape_append hw hin)

end Value

end OneDim

/-- A reshape verifies when its extents are positive and fit into 32 bits. -/
theorem verify_createReshapeOp {input target : List ℕ} (hne : target ≠ [])
    (hprod : input.prod = target.prod) (hpos : ∀ n ∈ target, 0 < n ∧ n < 2 ^ 31) :
    (createReshapeOp input target).verify = .ok () := by
  have hcast : ∀ n ∈ target, castI32 (n : ℤ) = n := fun n hn =>
    Conv2dOp.castI32_of_lt (Int.natCast_nonneg n) (by exact_mod_cast (hpos n hn).2)
  have hloop : ∀ (ns : List ℕ) (i : ℕ), (∀ n ∈ ns, 0 < n) →
      ReshapeOp.verifyDims i false (ns.map fun n : ℕ => (n : ℤ)) ns = .ok () := by
    intro ns
    induction ns with
    | nil => exact fun _ _ => rfl
    | cons n ns ih =>
      intro i hns
      have hn := hns n (by simp)
      have h1 : (n : ℤ) ≠ -1 := by omega
      have h2 : ¬ (n : ℤ) ≤ 0 := by omega
      rw [List.map_cons, ReshapeOp.verifyDims, if_neg h1, if_neg h2, if_neg (not_not.mpr rfl)]
      exact ih (i + 1) fun m hm => hns m (by simp [hm])
  have hlength : target.length ≠ 0 := by simpa using hne
  rw [createReshapeOp, List.map_congr_left hcast, ReshapeOp.verify]
  simp only [List.length_map]
  rw [if_neg hlength, if_neg (not_not.mpr rfl), if_neg (not_not.mpr hprod)]
  exact hloop target 0 fun n hn => (hpos n hn).1

end Legalize1DConvolution

/-! ## When the lowering keeps a convolution -/

open ConvolutionDecomposition

theorem lower_of_two (hop : op.WellTyped)
    (hsupported : isSupportedConv op = true) (hspatial : op.layout.inputSpatial.length = 2) :
    lower op = .ok (some (.conv2d (ConvolutionToConv2d.lowered op))) := by
  have hnone : Legalize1DConvolution.matchAndRewrite op = none := by
    rw [Legalize1DConvolution.matchAndRewrite, if_pos]
    simp [isNDimensional, hspatial]
  rw [lower, hnone]
  simp only [ConvolutionToConv2d.matchAndRewrite_eq hop hsupported hspatial]
  rfl

/-- A supported convolution of one dimension is reshaped, and the new one lowered in turn. -/
theorem lower_of_one (hop : op.WellTyped)
    (hsupported : isSupportedConv op = true) (hspatial : op.layout.inputSpatial.length = 1) :
    lower op = .ok (some (.reshaped (Legalize1DConvolution.reshapes op)
      (ConvolutionToConv2d.lowered (Legalize1DConvolution.newConvolution op)))) := by
  have hsupported' : isSupportedConv (Legalize1DConvolution.newConvolution op) = true := by
    simpa [isSupportedConv, Legalize1DConvolution.newConvolution] using hsupported
  have hspatial' : (Legalize1DConvolution.newConvolution op).layout.inputSpatial.length = 2 := by
    simp [Legalize1DConvolution.newConvolution, Legalize1DConvolution.appendDim, hspatial]
  have hsome : Legalize1DConvolution.matchAndRewrite op =
      some (Legalize1DConvolution.reshapes op) := by
    rw [Legalize1DConvolution.matchAndRewrite, if_neg]
    simp [isNDimensional, hspatial, hsupported]
  have hnew := ConvolutionToConv2d.matchAndRewrite_eq
    (Legalize1DConvolution.wellTyped_newConvolution hop hspatial) hsupported' hspatial'
  rw [lower, hsome]
  simp only [Legalize1DConvolution.reshapes, hnew]
  rfl

/-- **The lowering keeps a convolution** of one or two spatial dimensions when everything it
depends on is forwarded: the input is not dilated, input and output have one layout, there is
no bias with one dimension, and paddings and extents are in the range of the new operations. -/
theorem preserved_of_forwarded {op : ConvolutionOp} (hop : op.WellTyped)
    (hsupported : isSupportedConv op = true)
    (hspatial : op.layout.inputSpatial.length = 1 ∨ op.layout.inputSpatial.length = 2)
    (hforwarded : Forwarded op) : Preserved op := by
  rcases hspatial with hspatial | hspatial
  · have hnew := Legalize1DConvolution.wellTyped_newConvolution hop hspatial
    have hnewForwarded := Legalize1DConvolution.forwarded_newConvolution hop hforwarded hspatial
    have hnewSpatial : (Legalize1DConvolution.newConvolution op).layout.inputSpatial.length = 2 := by
      simp [Legalize1DConvolution.newConvolution, Legalize1DConvolution.appendDim, hspatial]
    have hranks := Legalize1DConvolution.ranks hop hspatial
    have hone : (0 : ℕ) < 1 ∧ 1 < 2 ^ 31 := by norm_num
    have hextents := hforwarded.extents hspatial
    refine ⟨_, lower_of_one hop hsupported hspatial,
      ⟨?_, ?_, ConvolutionToConv2d.verified hnew hnewForwarded hnewSpatial, ?_⟩, rfl, ?_⟩
    · apply Legalize1DConvolution.verify_createReshapeOp (by simp) (by simp)
      intro n hn
      rcases List.mem_append.mp hn with hn | hn
      · exact hextents n (by simp [hn])
      · exact List.mem_singleton.mp hn ▸ hone
    · apply Legalize1DConvolution.verify_createReshapeOp (by simp) (by simp)
      intro n hn
      rcases List.mem_append.mp hn with hn | hn
      · exact hextents n (by simp [hn])
      · exact List.mem_singleton.mp hn ▸ hone
    · apply Legalize1DConvolution.verify_createReshapeOp _ (by simp)
      · exact fun n hn => hextents n (by simp [hn])
      · intro hnil
        have := hranks.output
        rw [hnil] at this
        cases this
    · intro α _ x w bias hx hw hbias
      obtain rfl : bias = none := by
        have hnone := hbias.trans (hforwarded.noBias hspatial)
        exact Option.map_eq_none_iff.mp hnone
      obtain ⟨y, hy, hagree⟩ := ConvolutionToConv2d.apply_agree hnew hnewForwarded hnewSpatial
        (x.reshape (op.input ++ [1])) (w.reshape (op.weight ++ [1])) none rfl
      refine ⟨y.reshape op.output, ?_, rfl, fun idx hidx => ?_⟩
      · exact congrArg (Option.map fun y => y.reshape op.output) hy
      · have hidx' : InShape (idx ++ [0]) (op.output ++ [1]) :=
          List.rel_append hidx (.cons Nat.one_pos .nil)
        rw [Legalize1DConvolution.elem_reshape_dropLast hagree.1.symm hidx,
          ← hagree.2 (idx ++ [0]) hidx',
          Legalize1DConvolution.elem_apply_newConvolution hop hspatial hx hw hidx]
  · refine ⟨_, lower_of_two hop hsupported hspatial,
      ConvolutionToConv2d.verified hop hforwarded hspatial, rfl, ?_⟩
    intro α _ x w bias hx hw hbias
    exact ConvolutionToConv2d.apply_agree hop hforwarded hspatial x w bias hbias

/-! ## Convolutions with one kernel position -/

/-- A layout of two dimensions: the kernel is OIHW. -/
def layout2d (inputBatch inputFeature : ℕ) (inputSpatial : List ℕ) (outputBatch outputFeature : ℕ)
    (outputSpatial : List ℕ) : ConvolutionLayout :=
  ⟨inputBatch, inputFeature, inputSpatial, 0, 1, [2, 3], outputBatch, outputFeature, outputSpatial⟩

/-- A convolution of `1 x 2 x 2 x 1` pixels, channels first or last. -/
def pointwise (layout : ConvolutionLayout) (input output : List ℕ) : ConvolutionOp where
  input := input
  weight := [1, 1, 1, 1]
  bias := none
  output := output
  windowStrides := [1, 1]
  padding := [0, 0, 0, 0]
  inputDilation := [1, 1]
  weightDilation := [1, 1]
  windowReversal := [false, false]
  layout := layout
  featureGroupCount := 1
  batchGroupCount := 1

/-- Channels first, in input and output. -/
def channelsFirst : ConvolutionOp :=
  pointwise (layout2d 0 1 [2, 3] 0 1 [2, 3]) [1, 1, 2, 2] [1, 1, 2, 2]

/-- Channels last in the input, and first in the output. -/
def channelsMoved : ConvolutionOp :=
  pointwise (layout2d 0 3 [1, 2] 0 1 [2, 3]) [1, 2, 2, 1] [1, 1, 2, 2]

/-- Two rows of the input with a hole between them. -/
def dilatedRows : ConvolutionOp :=
  { pointwise (layout2d 0 3 [1, 2] 0 3 [1, 2]) [1, 2, 2, 1] [1, 3, 2, 1] with
    inputDilation := [2, 1] }

/-- A convolution of one dimension with a bias. -/
def biasedPoint : ConvolutionOp where
  input := [1, 1, 1]
  weight := [1, 1, 1]
  bias := some [1, 1, 1, 1]
  output := [1, 1, 1]
  windowStrides := [1]
  padding := [0, 0]
  inputDilation := [1]
  weightDilation := [1]
  windowReversal := [false]
  layout := ⟨0, 1, [2], 0, 1, [2], 0, 1, [2]⟩
  featureGroupCount := 1
  batchGroupCount := 1

theorem wellTyped_channelsFirst : channelsFirst.WellTyped := by
  constructor <;> decide

theorem forwarded_channelsFirst : Forwarded channelsFirst where
  undilated := by decide
  sameLayout := rfl
  padding_nonneg := by decide
  noBias := by decide
  strides_lt := by decide
  padding_lt := by decide
  dilation_lt := by decide
  groups_lt := by decide
  channels_lt := by decide
  fits := ⟨⟨by decide, by decide, .inr rfl, by decide, by decide⟩,
    ⟨by decide, by decide, .inr rfl, by decide, by decide⟩, trivial⟩
  extents := by decide

theorem wellTyped_channelsMoved : channelsMoved.WellTyped := by
  constructor <;> decide

theorem wellTyped_dilatedRows : dilatedRows.WellTyped := by
  constructor <;> decide

theorem wellTyped_biasedPoint : biasedPoint.WellTyped := by
  constructor <;> decide

/-- Channels first in input and output. -/
theorem preserved_channelsFirst : Preserved channelsFirst :=
  preserved_of_forwarded wellTyped_channelsFirst rfl (.inr rfl) forwarded_channelsFirst

/-- **What is not forwarded.**  The permutation of the input is undone on an output of another
layout, a dilated input is lowered as an undilated one, and the bias of one dimension is lost. -/
theorem notForwarded_not_preserved :
    (channelsMoved.WellTyped ∧ isSupportedConv channelsMoved ∧ ¬ Preserved channelsMoved) ∧
    (dilatedRows.WellTyped ∧ isSupportedConv dilatedRows ∧ ¬ Preserved dilatedRows) ∧
    (biasedPoint.WellTyped ∧ isSupportedConv biasedPoint ∧ ¬ Preserved biasedPoint) := by
  refine ⟨⟨wellTyped_channelsMoved, rfl, ?_⟩, ⟨wellTyped_dilatedRows, rfl, ?_⟩,
    ⟨wellTyped_biasedPoint, rfl, ?_⟩⟩
  · rintro ⟨emitted, hlower, hverified, -⟩
    obtain rfl := Option.some.inj (Except.ok.inj hlower)
    exact absurd hverified.outputPermute (by decide)
  · rintro ⟨emitted, hlower, hverified, -⟩
    obtain rfl := Option.some.inj (Except.ok.inj hlower)
    exact absurd hverified.conv (by decide)
  · rintro ⟨emitted, hlower, -, -, hvalue⟩
    obtain rfl := Option.some.inj (Except.ok.inj hlower)
    -- input, kernel and bias of one: the value is two, and the emitted one is one
    obtain ⟨y, hy, hagree⟩ := hvalue (⟨[1, 1, 1], fun _ => (1 : ℤ)⟩ : Tensor ℤ)
      ⟨[1, 1, 1], fun _ => 1⟩ (some ⟨[1, 1, 1, 1], fun _ => 1⟩) rfl rfl rfl
    obtain rfl := Option.some.inj hy
    have helem := hagree.2 [0, 0, 0] (by decide)
    revert helem
    decide

end TTIR
