/-
# Two-dimensional convolutions

`ttir.conv2d`: its verifier (`TTIROps.cpp`), and what it computes.  With
`flattened_compat_info` the batch and the two spatial dimensions of input and output are
flattened into one.

* `Conv2dOp.verify` : the verifier, in its 32-bit arithmetic;
* `Conv2dOp.apply` : the result;
* `elem_unbiased_of_scaled` : scaling the weight of every output channel scales the channel of
  the result, before the bias is added.
-/
import TTMLIR.TensorOps
import TTMLIR.Convolution
import TTMLIR.Fallible

namespace TTIR

open MixedRadix Convolution Fallible

/-! ## Attributes -/

/-- `static_cast<int32_t>`. -/
def castI32 (v : ℤ) : ℤ := Int.bmod v (2 ^ 32)

/-- `static_cast<uint32_t>`. -/
def castU32 (v : ℤ) : ℕ := (v % 2 ^ 32).toNat

/-- `AnyAttrOf<[I32Attr, DenseI32ArrayAttr]>`. -/
inductive IntOrArray where
  | int (value : ℤ)
  | array (values : List ℤ)
deriving DecidableEq, Repr

/-- `ttmlir::utils::getPairOfInteger`. -/
def getPairOfInteger : IntOrArray → Except String (ℤ × ℤ)
  | .int v => .ok (v, v)
  | .array [x, y] => .ok (x, y)
  | .array vs => .error s!"Expected integer or pair of integers, got tuple of size {vs.length}"

/-- `ttmlir::utils::getQuadrupleOfInteger`. -/
def getQuadrupleOfInteger : IntOrArray → Except String (ℤ × ℤ × ℤ × ℤ)
  | .int v => .ok (v, v, v, v)
  | .array [x, y] => .ok (x, y, x, y)
  | .array [x, y, z, w] => .ok (x, y, z, w)
  | .array vs =>
    .error s!"Expected integer, pair, or tuple of size 4, but got tuple of size {vs.length}"

/-- `FlattenedCompatInfoAttr`. -/
structure FlattenedCompatInfo where
  batchSize : ℕ
  inputHeight : ℕ
  inputWidth : ℕ
deriving DecidableEq, Repr

/-- The attributes of `ttir.conv2d`. -/
structure Conv2dAttrs where
  stride : IntOrArray
  padding : IntOrArray
  dilation : IntOrArray
  groups : ℕ
  flattenedCompatInfo : Option FlattenedCompatInfo
deriving DecidableEq, Repr

/-- `ttir.conv2d`: the shapes of its operands and result, and its attributes. -/
structure Conv2dOp where
  input : List ℕ
  weight : List ℕ
  bias : Option (List ℕ)
  output : List ℕ
  attrs : Conv2dAttrs
deriving DecidableEq, Repr

namespace Conv2dOp

/-- `getDimSize`. -/
def dim (shape : List ℕ) (i : ℕ) : ℕ := shape.getD i 0

/-- `getOutputChannelSize`. -/
def getOutputChannelSize (op : Conv2dOp) : ℕ := dim op.weight 0

/-- `isBiasCompatible`. -/
def isBiasCompatible (op : Conv2dOp) (bias : List ℕ) : Bool :=
  dim bias 0 = 1 ∧ dim bias 1 = 1 ∧ dim bias 2 = 1 ∧ dim bias 3 = op.getOutputChannelSize

/-- Batch size, height and width of the input. -/
def inputExtents (op : Conv2dOp) : ℕ × ℕ × ℕ :=
  match op.attrs.flattenedCompatInfo with
  | none => (dim op.input 0, dim op.input 1, dim op.input 2)
  | some info => (info.batchSize, info.inputHeight, info.inputWidth)

/-- The windows along height and width. -/
def windows (op : Conv2dOp) : Except String (Window × Window) := do
  let stride ← getPairOfInteger op.attrs.stride
  let (top, left, bottom, right) ← getQuadrupleOfInteger op.attrs.padding
  let dilation ← getPairOfInteger op.attrs.dilation
  .ok (⟨stride.1.toNat, top, bottom, 1, dilation.1.toNat⟩,
    ⟨stride.2.toNat, left, right, 1, dilation.2.toNat⟩)

/-- The checks of the attributes. -/
def verifyAttrs (op : Conv2dOp) : Except String Unit := do
  let stride ← (getPairOfInteger op.attrs.stride).mapError (· ++ " for stride")
  if stride.1 < 1 ∨ stride.2 < 1 then .error "Stride attribute values must be greater than 0"
  else do
    let (top, left, bottom, right) ←
      (getQuadrupleOfInteger op.attrs.padding).mapError (· ++ " for padding")
    if top < 0 ∨ bottom < 0 ∨ left < 0 ∨ right < 0 then
      .error "Padding attribute values must be greater than or equal to 0"
    else do
      let dilation ← (getPairOfInteger op.attrs.dilation).mapError (· ++ " for dilation")
      if dilation.1 < 1 ∨ dilation.2 < 1 then
        .error "Dilation attribute values must be greater than 0"
      else .ok ()

/-- The extent of a padded input along one dimension. -/
def paddedInputSize (w : Window) (n : ℕ) : ℕ := castU32 (castU32 n + castI32 (w.padLow + w.padHigh))

/-- The extent of a dilated kernel along one dimension. -/
def effectiveKernelSize (w : Window) (k : ℕ) : ℕ := castU32 (k + (k - 1) * (w.dilation - 1))

/-- The extent of the result along one dimension; the division is that of 64-bit integers. -/
def calculatedOut (w : Window) (n k : ℕ) : ℤ :=
  castI32 (Int.tdiv (paddedInputSize w n - w.dilation * (k - 1) - 1) w.stride + 1)

/-- The checks of the extents of the result, given the windows. -/
def verifyOutput (op : Conv2dOp) (wh ww : Window) : Except String Unit :=
  let (batchSize, inputHeight, inputWidth) := op.inputExtents
  let calculatedHOut := calculatedOut wh inputHeight (dim op.weight 2)
  let calculatedWOut := calculatedOut ww inputWidth (dim op.weight 3)
  match op.attrs.flattenedCompatInfo with
  | none =>
    if calculatedHOut ≠ dim op.output 1 ∨ calculatedWOut ≠ dim op.output 2 then
      .error s!"Mismatch between calculated and got output height and width. Calculated: ({calculatedHOut} x {calculatedWOut}). Got output tensor height and width: ({dim op.output 1} x {dim op.output 2})"
    else .ok ()
  | some _ =>
    let calculated := castU32 (calculatedHOut * calculatedWOut * castU32 batchSize)
    if calculated ≠ dim op.output 2 then
      .error s!"Mismatch between calculated flatten dimension and output type. Calculated: {calculated}. Got output tensor flatten dimension: {dim op.output 2}"
    else .ok ()

/-- The checks of the sizes, given the windows. -/
def verifySizes (op : Conv2dOp) (wh ww : Window) : Except String Unit :=
  let (_, inputHeight, inputWidth) := op.inputExtents
  let inChannels := castU32 (dim op.input 3)
  let outChannels := castU32 (dim op.output 3)
  let groups := op.attrs.groups
  let kernelHeight := dim op.weight 2
  let kernelWidth := dim op.weight 3
  if paddedInputSize wh inputHeight < effectiveKernelSize wh kernelHeight ∨
      paddedInputSize ww inputWidth < effectiveKernelSize ww kernelWidth then
    .error s!"Calculated padded input size per channel: ({paddedInputSize wh inputHeight} x {paddedInputSize ww inputWidth}). Kernel size: ({effectiveKernelSize wh kernelHeight} x {effectiveKernelSize ww kernelWidth}). Kernel size can't be greater than actual input size"
  else if inChannels % groups ≠ 0 then
    .error s!"Number of input channels from input tensor must be divisible by the number of groups. Got {inChannels} input channels and {groups} groups"
  else if outChannels % groups ≠ 0 then
    .error s!"Number of output channels from output tensor must be divisible by the number of groups. Got {outChannels} output channels and {groups} groups"
  else if outChannels ≠ dim op.weight 0 then
    .error s!"Number of output channels from output tensor must match the first dimension of the weight tensor. Got {outChannels} output channels and {dim op.weight 0} in the weight tensor"
  else if inChannels / groups ≠ dim op.weight 1 then
    .error s!"Number of input channels per group must match the second dimension of the weight tensor. Got {inChannels / groups} input channels per group and {dim op.weight 1} in the weight tensor"
  else if op.bias.any fun bias => dim bias 3 ≠ outChannels then
    .error s!"Mismatch in bias tensor dimensions. Bias tensor has {dim (op.bias.getD []) 3} channels, but the output tensor has {outChannels} channels"
  else op.verifyOutput wh ww

/-- `Conv2dOp::verify`. -/
def verify (op : Conv2dOp) : Except String Unit :=
  let (batchSize, inputHeight, inputWidth) := op.inputExtents
  if op.input.length ≠ 4 then .error "Input must be a 4D tensor"
  else if op.output.length ≠ 4 then .error "Output must be a 4D tensor"
  else if op.weight.length ≠ 4 then .error "Weight must be a 4D tensor"
  else if op.bias.any fun bias => bias.length ≠ 4 then .error "Bias must be a 4D tensor"
  else if op.bias.any fun bias => !op.isBiasCompatible bias then
    .error s!"Bias should have shape [1, 1, 1, {op.getOutputChannelSize}] but got [{join (op.bias.getD [])}]"
  else if op.attrs.flattenedCompatInfo.isNone ∧ dim op.input 0 ≠ dim op.output 0 then
    .error s!"Batch size from the input tensor ({dim op.input 0}) must match the first dimension of the output tensor ({dim op.output 0})"
  else if op.attrs.flattenedCompatInfo.isSome ∧
      dim op.input 2 ≠ castU32 (batchSize * inputHeight * inputWidth) then
    .error s!"Expected dim 2 of the input tensor to have size {castU32 (batchSize * inputHeight * inputWidth)} but got {dim op.input 2}"
  else do
    op.verifyAttrs
    let windows ← op.windows
    op.verifySizes windows.1 windows.2

/-! ## The result -/

section Apply

variable {α : Type*}

/-- The extents and windows of a convolution. -/
def spec (op : Conv2dOp) (wh ww : Window) : Spec where
  windows := [wh, ww]
  input := [op.inputExtents.2.1, op.inputExtents.2.2]
  kernel := [dim op.weight 2, dim op.weight 3]
  outputFeatures := dim op.weight 0
  groupFeatures := dim op.weight 1
  groups := op.attrs.groups

/-- Height and width of the result. -/
def outputExtents (op : Conv2dOp) (wh ww : Window) : ℕ × ℕ :=
  ((wh.outExtent op.inputExtents.2.1 (dim op.weight 2)).toNat,
    (ww.outExtent op.inputExtents.2.2 (dim op.weight 3)).toNat)

/-- The convolution of an input `[N, H, W, C]` with a weight `[O, C / G, KH, KW]`. -/
def core [NonUnitalNonAssocSemiring α] (op : Conv2dOp) (wh ww : Window) (x w : Tensor α) :
    Tensor α where
  shape := [op.inputExtents.1, (op.outputExtents wh ww).1, (op.outputExtents wh ww).2,
    dim op.weight 0]
  elem
    | [b, oh, ow, f] => convolve (op.spec wh ww) (fun b c is => x.elem (b :: is ++ [c]))
        (fun f c ks => w.elem (f :: c :: ks)) b f [oh, ow]
    | _ => 0

@[simp] theorem core_shape [NonUnitalNonAssocSemiring α] (op : Conv2dOp) (wh ww : Window)
    (x w : Tensor α) : (op.core wh ww x w).shape =
      [op.inputExtents.1, (op.outputExtents wh ww).1, (op.outputExtents wh ww).2,
        dim op.weight 0] := rfl

/-- The shape of the result, by the windows. -/
def resultShape (op : Conv2dOp) (wh ww : Window) : List ℕ :=
  let extents := op.outputExtents wh ww
  match op.attrs.flattenedCompatInfo with
  | none => [op.inputExtents.1, extents.1, extents.2, dim op.weight 0]
  | some _ =>
    [dim op.output 0, dim op.output 1, op.inputExtents.1 * extents.1 * extents.2, dim op.weight 0]

/-- The convolution without the bias, on flattened tensors when they are. -/
def unbiased [NonUnitalNonAssocSemiring α] (op : Conv2dOp) (wh ww : Window) (x w : Tensor α) :
    Tensor α :=
  match op.attrs.flattenedCompatInfo with
  | none => op.core wh ww x w
  | some info =>
    (op.core wh ww
      (x.reshape [info.batchSize, info.inputHeight, info.inputWidth, dim op.input 3]) w).reshape
      (op.resultShape wh ww)

theorem unbiased_shape [NonUnitalNonAssocSemiring α] (op : Conv2dOp) (wh ww : Window)
    (x w : Tensor α) : (op.unbiased wh ww x w).shape = op.resultShape wh ww := by
  unfold unbiased resultShape
  cases op.attrs.flattenedCompatInfo with
  | none => rfl
  | some info => rfl

/-- The result of `ttir.conv2d`, when the attributes can be read. -/
def apply [NonUnitalNonAssocSemiring α] (op : Conv2dOp) (x w : Tensor α)
    (bias : Option (Tensor α)) : Option (Tensor α) :=
  op.windows.toOption.map fun (wh, ww) =>
    match bias with
    | none => op.unbiased wh ww x w
    | some b => Tensor.zip (· + ·) (op.resultShape wh ww) (op.unbiased wh ww x w) b

end Apply

/-! ## What the verifier promises -/

/-- What the verifier establishes of shapes and attributes. -/
structure Valid (op : Conv2dOp) : Prop where
  weight_length : op.weight.length = 4
  output_length : op.output.length = 4
  bias_eq : ∀ bias, op.bias = some bias → bias = [1, 1, 1, dim op.weight 0]
  windows_ok : ∃ windows, op.windows = .ok windows

theorem eq_of_length_four {shape : List ℕ} (h : shape.length = 4) :
    shape = [dim shape 0, dim shape 1, dim shape 2, dim shape 3] := by
  match shape, h with
  | [_, _, _, _], _ => rfl

variable {op : Conv2dOp}

/-- What the verifier has checked. -/
theorem verify_spec (h : op.verify = .ok ()) : op.Valid := by
  unfold verify at h
  simp only at h
  split_ifs at h with h1 h2 h3 h4 h5
  obtain ⟨_, -, h⟩ := bind_eq_ok.mp h
  obtain ⟨windows, hwindows, -⟩ := bind_eq_ok.mp h
  rw [not_not] at h2 h3
  refine ⟨h3, h2, fun bias hbias => ?_, ⟨windows, hwindows⟩⟩
  simp only [hbias, Option.any_some, ne_eq, decide_not, Bool.not_eq_true', decide_eq_false_iff_not,
    not_not, Bool.not_eq_false] at h4 h5
  obtain ⟨h50, h51, h52, h53⟩ := of_decide_eq_true h5
  rw [eq_of_length_four h4, h50, h51, h52, h53]
  rfl

variable {wh ww : Window}

/-- The numbers of one dimension fit into 32 bits, and there is an output position. -/
structure Fits (w : Window) (n k : ℕ) : Prop where
  padding : w.padLow + w.padHigh < 2 ^ 31
  padded : n + w.padLow + w.padHigh < 2 ^ 32
  kernel : 0 < k ∨ w.dilation = 1
  out_pos : 0 < w.outExtent n k
  out_lt : w.outExtent n k < 2 ^ 31

theorem castI32_of_lt {v : ℤ} (h : 0 ≤ v) (hlt : v < 2 ^ 31) : castI32 v = v := by
  apply Int.bmod_eq_of_le <;> norm_num <;> omega

theorem castU32_of_lt {v : ℤ} (h : 0 ≤ v) (hlt : v < 2 ^ 32) : (castU32 v : ℤ) = v := by
  rw [castU32, Int.emod_eq_of_lt h hlt, Int.toNat_of_nonneg h]

theorem castU32_natCast {n : ℕ} (h : n < 2 ^ 32) : castU32 n = n := by
  have hcast := castU32_of_lt (v := n) (Int.natCast_nonneg n) (by exact_mod_cast h)
  exact_mod_cast hcast

/-- A window on an undilated input that is padded, not cut. -/
structure Plain (w : Window) : Prop where
  undilated : w.inputDilation = 1
  stride_pos : 0 < w.stride
  dilation_pos : 0 < w.dilation
  padLow : 0 ≤ w.padLow
  padHigh : 0 ≤ w.padHigh

section Fits

variable {w : Window} {n k : ℕ} (hw : Plain w) (h : Fits w n k)

include hw h

/-- **Nothing wraps** in the extent of the padded input. -/
theorem Fits.paddedInputSize_eq : (paddedInputSize w n : ℤ) = n + w.padLow + w.padHigh := by
  have hlow := hw.padLow
  have hhigh := hw.padHigh
  have hpadding := h.padding
  have hpadded := h.padded
  rw [paddedInputSize, castI32_of_lt (by omega) h.padding,
    castU32_natCast (by omega), castU32_of_lt (by omega) (by omega)]
  omega

/-- The dilated kernel fits into the padded input. -/
theorem Fits.dilated_le : w.dilation * ((k : ℤ) - 1) + 1 ≤ n + w.padLow + w.padHigh := by
  have hpos := h.out_pos
  unfold Window.outExtent at hpos
  have hs : (0 : ℤ) < w.stride := by exact_mod_cast hw.stride_pos
  have hquot : 0 ≤ ((n - 1) * (w.inputDilation : ℤ) + 1 + w.padLow + w.padHigh -
      (w.dilation * (k - 1) + 1)) / w.stride := by omega
  have hnum := (Int.ediv_nonneg_iff_of_pos hs).mp hquot
  rw [hw.undilated] at hnum
  push_cast at hnum
  omega

/-- The kernel fits in the padded input. -/
theorem Fits.effectiveKernelSize_le : effectiveKernelSize w k ≤ paddedInputSize w n := by
  have hle := h.dilated_le hw
  have hpadded := h.padded
  have hkernel : (k : ℤ) + (k - 1) * (w.dilation - 1) = w.dilation * (k - 1) + 1 := by ring
  have hnonneg : 0 ≤ (w.dilation : ℤ) * (k - 1) + 1 := by
    rcases h.kernel with hk | hone
    · have hk' : 0 ≤ (k : ℤ) - 1 := by omega
      positivity
    · rw [hone]
      omega
  have hsize := h.paddedInputSize_eq hw
  have heffective : (effectiveKernelSize w k : ℤ) = w.dilation * (k - 1) + 1 := by
    rw [effectiveKernelSize, hkernel, castU32_of_lt hnonneg (by omega)]
  omega

/-- **Nothing wraps** in the extent of the result. -/
theorem Fits.calculatedOut_eq : calculatedOut w n k = w.outExtent n k := by
  have hle := h.dilated_le hw
  have hnum : (0 : ℤ) ≤ n + w.padLow + w.padHigh - w.dilation * (k - 1) - 1 := by omega
  have hout : w.outExtent n k
      = (n + w.padLow + w.padHigh - w.dilation * (k - 1) - 1) / w.stride + 1 := by
    rw [Window.outExtent, hw.undilated]
    congr 2
    push_cast
    ring
  rw [calculatedOut, h.paddedInputSize_eq hw, Int.tdiv_eq_ediv_of_nonneg hnum, ← hout]
  exact castI32_of_lt h.out_pos.le h.out_lt

end Fits

/-- **When the verifier passes**, for a convolution that is not flattened. -/
theorem verify_of_windows {n h w c o m kh kw oh ow : ℕ} {bias : Option (List ℕ)}
    {attrs : Conv2dAttrs} (hop : op = ⟨[n, h, w, c], [o, m, kh, kw], bias, [n, oh, ow, o], attrs⟩)
    (hinfo : attrs.flattenedCompatInfo = none) (hattrs : op.verifyAttrs = .ok ())
    (hwindows : op.windows = .ok (wh, ww)) (hbias : ∀ b, bias = some b → b = [1, 1, 1, o])
    (hgroups : c = m * attrs.groups) (hpos : 0 < attrs.groups) (hout : attrs.groups ∣ o)
    (hc : c < 2 ^ 32) (ho : o < 2 ^ 32) (hph : Plain wh) (hpw : Plain ww)
    (hfith : Fits wh h kh) (hfitw : Fits ww w kw)
    (hh : wh.outExtent h kh = oh) (hw : ww.outExtent w kw = ow) : op.verify = .ok () := by
  have hsizes : op.verifySizes wh ww = .ok () := by
    subst hop
    have hin : c % attrs.groups = 0 := by rw [hgroups]; exact Nat.mul_mod_left m _
    have hdiv : c / attrs.groups = m := by rw [hgroups]; exact Nat.mul_div_cancel m hpos
    have hout' : o % attrs.groups = 0 := Nat.mod_eq_zero_of_dvd hout
    have hbias' : (bias.any fun b => decide (dim b 3 ≠ o)) = false := by
      cases hb : bias with
      | none => rfl
      | some b => simp [hbias b hb, dim]
    have hlh := hfith.effectiveKernelSize_le hph
    have hlw := hfitw.effectiveKernelSize_le hpw
    have hfit : ¬ (paddedInputSize wh h < effectiveKernelSize wh kh ∨
        paddedInputSize ww w < effectiveKernelSize ww kw) := by omega
    simp [verifySizes, verifyOutput, inputExtents, hinfo, dim, castU32_natCast hc,
      castU32_natCast ho, hin, hdiv, hout', hfith.calculatedOut_eq hph,
      hfitw.calculatedOut_eq hpw, hh, hw, hfit]
    simpa [dim] using hbias'
  have hrest : (do
      op.verifyAttrs
      let windows ← op.windows
      op.verifySizes windows.1 windows.2) = .ok () := by
    rw [hattrs, hwindows]
    exact hsizes
  subst hop
  cases bias with
  | none =>
    simp only [verify, inputExtents, hinfo]
    rw [hrest]
    simp [dim]
  | some b =>
    obtain rfl := hbias b rfl
    simp only [verify, inputExtents, hinfo]
    rw [hrest]
    simp [dim, isBiasCompatible, getOutputChannelSize]

/-- The last coordinate of the output is an output channel. -/
theorem channel_lt (hout : op.output = op.resultShape wh ww) {b oh ow f : ℕ}
    (hidx : InShape [b, oh, ow, f] op.output) : f < dim op.weight 0 := by
  rw [hout] at hidx
  cases hinfo : op.attrs.flattenedCompatInfo with
  | none | some info =>
    simp only [resultShape, hinfo] at hidx
    obtain _ | ⟨-, _ | ⟨-, _ | ⟨-, _ | ⟨hf, -⟩⟩⟩⟩ := hidx
    exact hf

theorem dim_output_three (hout : op.output = op.resultShape wh ww) :
    dim op.output 3 = dim op.weight 0 := by
  rw [hout]
  cases hinfo : op.attrs.flattenedCompatInfo with
  | none | some info =>
    simp only [resultShape, hinfo]
    rfl

theorem apply_none {α : Type*} [NonUnitalNonAssocSemiring α]
    (hwindows : op.windows = .ok (wh, ww)) (x w : Tensor α) :
    op.apply x w none = some (op.unbiased wh ww x w) := by
  rw [apply, hwindows]
  rfl

theorem apply_some {α : Type*} [NonUnitalNonAssocSemiring α]
    (hwindows : op.windows = .ok (wh, ww)) (x w b : Tensor α) :
    op.apply x w (some b) =
      some (Tensor.zip (· + ·) (op.resultShape wh ww) (op.unbiased wh ww x w) b) := by
  rw [apply, hwindows]
  rfl

/-! ## Scaled weights -/

section Scaled

variable {α : Type*} [NonUnitalSemiring α] {op : Conv2dOp} {x w w' : Tensor α} {r : ℕ → α}
  {wh ww : Window}

section

variable (hvalid : op.Valid) (hout : op.output = op.resultShape wh ww)
  (hw : ∀ f c ks, InShape (f :: c :: ks) op.weight →
    w'.elem (f :: c :: ks) = w.elem (f :: c :: ks) * r f)

include hvalid hw

/-- Scaling the weight of an output channel scales the channel of the convolution. -/
theorem elem_core_of_scaled (b oh ow : ℕ) {f : ℕ} (hf : f < dim op.weight 0) :
    (op.core wh ww x w').elem [b, oh, ow, f] = (op.core wh ww x w).elem [b, oh, ow, f] * r f := by
  have hweight := eq_of_length_four hvalid.weight_length
  simp only [core]
  rw [← convolve_mul]
  apply convolve_congr
  · exact fun _ _ _ _ _ _ => rfl
  · intro c hc k hk
    apply hw
    rw [hweight]
    exact .cons hf (.cons hc (inShape_unravel _ k hk))

include hout in
/-- **Scaling the weight of every output channel** scales the channel of the result, before
the bias is added. -/
theorem elem_unbiased_of_scaled {idx : List ℕ} (hidx : InShape idx op.output) :
    (op.unbiased wh ww x w').elem idx = (op.unbiased wh ww x w).elem idx * r (idx.getD 3 0) := by
  have hlength : idx.length = 4 := hidx.length_eq.trans hvalid.output_length
  match idx, hlength with
  | [b, oh, ow, f], _ =>
    have hf := channel_lt hout hidx
    unfold unbiased
    cases hinfo : op.attrs.flattenedCompatInfo with
    | none => exact elem_core_of_scaled hvalid hw b oh ow hf
    | some info =>
      -- the last coordinate is the output channel on both sides of the reshape
      have hshape : op.resultShape wh ww = [dim op.output 0, dim op.output 1, op.inputExtents.1 *
          (op.outputExtents wh ww).1 * (op.outputExtents wh ww).2, dim op.weight 0] := by
        rw [resultShape, hinfo]
      have hlast : rowMajor (op.resultShape wh ww) [b, oh, ow, f] % dim op.weight 0 = f := by
        rw [hshape]
        have hlen : [b, oh, ow].length = [dim op.output 0, dim op.output 1, op.inputExtents.1 *
          (op.outputExtents wh ww).1 * (op.outputExtents wh ww).2].length := rfl
        have happend := rowMajor_append [dim op.weight 0] [f] hlen
        simp only [List.cons_append, List.nil_append] at happend
        rw [happend, List.prod_singleton, Nat.mul_comm, Nat.mul_add_mod]
        simpa using Nat.mod_eq_of_lt hf
      have hunravel := unravel_concat op.inputExtents.1
        [(op.outputExtents wh ww).1, (op.outputExtents wh ww).2] (dim op.weight 0)
        (rowMajor (op.resultShape wh ww) [b, oh, ow, f])
      simp only [List.cons_append, List.nil_append, hlast] at hunravel
      simp only [Tensor.reshape, core_shape, hunravel]
      exact elem_core_of_scaled hvalid hw _ _ _ hf

end

end Scaled

end Conv2dOp

end TTIR
