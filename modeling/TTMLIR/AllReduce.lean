/-
# Breaking an all-reduce into collectives that are supported

The pattern `TTNNAllReduceWorkarounds` of `TTNNWorkaroundsPatterns.cpp`.  Every device of a mesh
holds a tensor, and the devices that differ only along the cluster axis reduce theirs together.

* `matchAndRewrite` : the translated pattern, with its estimate of the memory that is used;
* `Op.eval`, `run` : what the emitted operations do to the tensors of all devices;
* `AllReduceOp.Preserved` : the operations compute the all-reduce;
* `run_scatterGather`, `run_gatherReduce` : the two breakdowns compute it;
* `preserved_iff_divides` : the all-reduces that are preserved.

A dimension that the devices do not divide, on an operand that is too large for the other
breakdown, is scattered all the same.
-/
import TTMLIR.ClusterAxis
import TTMLIR.GatherToEmbedding
import TTMLIR.ReduceOps

namespace TTNN.AllReduce

open MixedRadix TTIR Fallible
open StableHLO (Mesh ReduceType)

variable {α : Type}

/-! ## The operations -/

/-- A ranked tensor type. -/
structure RankedTensorType : Type where
  shape : List ℕ
  elementTypeBitWidth : ℕ
  deriving DecidableEq

/-- `AllReduceOp::verify`. -/
def verifyReduceType (reduceType : ReduceType) : Except String Unit :=
  if reduceType ≠ .sum ∧ reduceType ≠ .max ∧ reduceType ≠ .min then
    .error "Invalid reduction op for all reduce op."
  else .ok ()

/-- A verified `ttnn.all_reduce`. -/
structure AllReduceOp : Type where
  input : RankedTensorType
  reduceType : ReduceType
  clusterAxis : ℕ
  result : RankedTensorType
  verified : verifyReduceType reduceType = .ok ()

/-- The local reductions: `ttnn.sum`, `ttnn.mean`, `ttnn.max` and `ttnn.min`. -/
inductive ReduceKind : Type where
  | sum | mean | max | min
  deriving DecidableEq

/-- The operations that are emitted; each works on the result of the one before. -/
inductive Op : Type where
  | reshape (shape : List ℤ) (result : RankedTensorType)
  | reduceScatter (reduceType : ReduceType) (scatterDim clusterAxis : ℕ)
      (result : RankedTensorType)
  | allGather (allGatherDim clusterAxis : ℕ) (result : RankedTensorType)
  | reduce (kind : ReduceKind) (keepDim : Bool) (dimArg : List ℤ) (result : RankedTensorType)
  deriving DecidableEq

/-- The type of the result. -/
def Op.result : Op → RankedTensorType
  | reshape _ result | reduceScatter _ _ _ result | allGather _ _ result
  | reduce _ _ _ result => result

/-! ## The estimate -/

/-- A chip, as far as the estimate reads it. -/
structure ChipDesc : Type where
  numDramChannels : UInt32
  dramUnreservedBase : UInt32
  dramUnreservedEnd : UInt32

/-- `getUsableDramChannelSize`. -/
def ChipDesc.getUsableDramChannelSize (chipDesc : ChipDesc) : UInt32 :=
  chipDesc.dramUnreservedEnd - chipDesc.dramUnreservedBase

/-- An exact result as a `double`. -/
def toDouble (q : ℚ) : ℚ := Rounding.nearestEvenRat 53 q

/-- The default of `memoryLimitFactor`: the `double` nearest to a twentieth, as a `float`. -/
def memoryLimitFactor : ℚ := Rounding.nearestEvenRat 24 (toDouble (1 / 20))

/-- `exceedsAllGatherReduceMemLimit`: every operation of the estimate is rounded, and the sizes
wrap, but for the number of bits, below 2^63.  It holds when the additional memory is within the
limit. -/
def exceedsAllGatherReduceMemLimit (chipDesc : ChipDesc) (inputType : RankedTensorType)
    (numOfDevicesInCluster : ℕ) : Bool :=
  -- the product of two 32-bit numbers wraps before it is widened
  let dramCapacity : UInt32 := chipDesc.getUsableDramChannelSize * chipDesc.numDramChannels
  let inputTensorSize : UInt64 :=
    UInt64.ofNat (inputType.shape.prod * inputType.elementTypeBitWidth / 8)
  let paddedN := (numOfDevicesInCluster + 31) / 32 * 32
  let memAllgatherLocalReduce : UInt64 :=
    UInt64.ofNat (numOfDevicesInCluster + 2 * paddedN) * inputTensorSize
  let memReduceScatterAllGather :=
    toDouble (toDouble (1 + toDouble (1 / toDouble numOfDevicesInCluster)) *
      toDouble inputTensorSize.toNat)
  let overhead := toDouble (toDouble memAllgatherLocalReduce.toNat - memReduceScatterAllGather)
  let threshold := toDouble (toDouble dramCapacity.toNat * memoryLimitFactor)
  overhead ≤ threshold

/-! ## The pattern -/

/-- How the pattern stops: it reads past the end of an array, or reports an error. -/
inductive Stop : Type where
  | readPastEnd
  | opError (message : String)
  deriving DecidableEq

/-- `rewriteAsAllGatherLocalReduce`: the type of its reduction. -/
def createReduceOp (op : AllReduceOp) : Except Stop Op :=
  match op.reduceType with
  | .sum => .ok (.reduce .sum false [0] op.result)
  | .mean => .ok (.reduce .mean false [0] op.result)
  | .max => .ok (.reduce .max false [0] op.result)
  | .min => .ok (.reduce .min false [0] op.result)
  | .std => .error (.opError "std is not supported")
  | .var => .error (.opError "var is not supported")

/-- `rewriteAsAllGatherLocalReduce`. -/
def rewriteAsAllGatherLocalReduce (mesh : Mesh) (op : AllReduceOp) : Except Stop (List Op) := do
  let expandedInputShape := 1 :: op.input.shape
  let reshapedInputType := { op.input with shape := expandedInputShape }
  let allGatherOutputType :=
    { op.input with shape := expandedInputShape.set 0 (mesh.extent op.clusterAxis) }
  let reduceOp ← createReduceOp op
  pure [.reshape (expandedInputShape.map toI32) reshapedInputType,
    .allGather 0 op.clusterAxis allGatherOutputType, reduceOp]

/-- A shape with ones in front, up to rank four; the number of ones is an unsigned 32-bit
number. -/
def withRequiredOnes (shape : List ℕ) : List ℕ :=
  List.replicate (4 - UInt32.ofNat shape.length).toNat 1 ++ shape

/-- The rewriting into a scatter and a gather, of an operand of any rank. -/
def rewriteAsReduceScatterAllGather (mesh : Mesh) (op : AllReduceOp) (dimension : ℕ) : List Op :=
  let inputTypeShape := op.input.shape
  let devices := mesh.extent op.clusterAxis
  if inputTypeShape.length < 4 then
    let reshapedInputShape := withRequiredOnes inputTypeShape
    let dimension := dimension + (4 - inputTypeShape.length)
    let scatteredInputType :=
      { op.input with
        shape := reshapedInputShape.set dimension (reshapedInputShape.getD dimension 0 / devices) }
    let reshapedOutputType := { op.result with shape := withRequiredOnes op.result.shape }
    [.reshape (reshapedInputShape.map toI32) { op.input with shape := reshapedInputShape },
      .reduceScatter op.reduceType dimension op.clusterAxis scatteredInputType,
      .allGather dimension op.clusterAxis reshapedOutputType,
      .reshape (op.result.shape.map toI32) op.result]
  else
    let scatteredInputType :=
      { op.input with
        shape := inputTypeShape.set dimension (inputTypeShape.getD dimension 0 / devices) }
    [.reduceScatter op.reduceType dimension op.clusterAxis scatteredInputType,
      .allGather dimension op.clusterAxis op.result]

/-- `TTNNAllReduceWorkarounds::matchAndRewrite`. -/
def matchAndRewrite (chipDesc : ChipDesc) (mesh : Mesh) (op : AllReduceOp) :
    Except Stop (List Op) :=
  let inputTypeShape := op.input.shape
  -- the dimension of a scalar is before the first, and the mesh may have fewer axes
  if inputTypeShape = [] ∨ mesh.shape.length ≤ op.clusterAxis then .error .readPastEnd
  else
    let dimension := min 3 (inputTypeShape.length - 1)
    if inputTypeShape.getD dimension 0 % mesh.extent op.clusterAxis ≠ 0 ∧
        exceedsAllGatherReduceMemLimit chipDesc op.input (mesh.extent op.clusterAxis) then
      rewriteAsAllGatherLocalReduce mesh op
    else .ok (rewriteAsReduceScatterAllGather mesh op dimension)

/-! ## What the operations compute -/

/-- A tensor on every device of a mesh, all of one shape. -/
structure ShardedTensor (α : Type) : Type where
  shape : List ℕ
  elem : List ℕ → List ℕ → α

/-- The reductions of the elements of a cluster, in the order of the devices. -/
abbrev Reductions (α : Type) : Type := ReduceType → List α → α

/-- The reduction that a local reduction computes. -/
def ReduceKind.reduceType : ReduceKind → ReduceType
  | sum => .sum
  | mean => .mean
  | max => .max
  | min => .min

/-- The devices of the cluster of a device, in order. -/
def cluster (mesh : Mesh) (axis : ℕ) (device : List ℕ) : List (List ℕ) :=
  (List.range (mesh.extent axis)).map fun j => device.set axis j

/-- An operation on the tensors of all devices, as far as it is well formed.  A scatter reduces the
tensors of a cluster and gives every device the slice of its position; a gather concatenates the
tensors of a cluster in order. -/
def Op.eval (reductions : Reductions α) (mesh : Mesh) (x : ShardedTensor α) :
    Op → Option (ShardedTensor α)
  | reshape shape result =>
    if (ReshapeOp.mk x.shape shape result.shape).verify = .ok () then
      some ⟨result.shape, fun device =>
        (Tensor.reshape ⟨x.shape, x.elem device⟩ result.shape).elem⟩
    else none
  | reduceScatter reduceType dim axis result =>
    let size := result.shape.getD dim 0
    if dim < x.shape.length ∧ verifyReduceType reduceType = .ok () ∧
        x.shape.getD dim 0 = mesh.extent axis * size ∧ result.shape = x.shape.set dim size then
      some ⟨result.shape, fun device idx =>
        reductions reduceType ((cluster mesh axis device).map fun other =>
          x.elem other (idx.set dim (device.getD axis 0 * size + idx.getD dim 0)))⟩
    else none
  | allGather dim axis result =>
    let size := x.shape.getD dim 0
    if dim < x.shape.length ∧ result.shape = x.shape.set dim (mesh.extent axis * size) then
      some ⟨result.shape, fun device idx =>
        x.elem (device.set axis (idx.getD dim 0 / size)) (idx.set dim (idx.getD dim 0 % size))⟩
    else none
  | reduce kind keepDim dimArg result =>
    let op : ReduceOp := ⟨x.shape, some dimArg, keepDim, result.shape⟩
    if verifyReduceOp op = .ok () then
      some ⟨result.shape, fun device =>
        (op.eval (reductions kind.reduceType) ⟨x.shape, x.elem device⟩).elem⟩
    else none

/-- The operations one after the other. -/
def run (reductions : Reductions α) (mesh : Mesh) :
    List Op → ShardedTensor α → Option (ShardedTensor α)
  | [], x => some x
  | op :: ops, x => (op.eval reductions mesh x).bind (run reductions mesh ops)

/-- What an all-reduce computes: on every device, the reduction of the tensors of its cluster. -/
def allReduce (reductions : Reductions α) (mesh : Mesh) (reduceType : ReduceType) (axis : ℕ)
    (x : ShardedTensor α) : ShardedTensor α :=
  ⟨x.shape, fun device idx =>
    reductions reduceType ((cluster mesh axis device).map fun other => x.elem other idx)⟩

/-- The same shape, and the same element on every device, at every index. -/
def ShardedTensor.Agree (mesh : Mesh) (x y : ShardedTensor α) : Prop :=
  x.shape = y.shape ∧
    ∀ device, InShape device mesh.shape → ∀ idx, InShape idx x.shape →
      x.elem device idx = y.elem device idx

/-- **The values are preserved**: the pattern emits operations, the last of them has the type of the
all-reduce, and they compute what it computes. -/
def AllReduceOp.Preserved (chipDesc : ChipDesc) (mesh : Mesh) (op : AllReduceOp) : Prop :=
  ∃ ops, matchAndRewrite chipDesc mesh op = .ok ops ∧
    ops.getLast?.map Op.result = some op.result ∧
    ∀ (α : Type) (reductions : Reductions α) (x : ShardedTensor α), x.shape = op.input.shape →
      ∃ y, run reductions mesh ops x = some y ∧
        y.Agree mesh (allReduce reductions mesh op.reduceType op.clusterAxis x)

/-! ## Shapes -/

/-- The loop of the check of a reshape passes from any position. -/
theorem verifyDims_ok_iff {shape : List ℤ} {output : List ℕ} {hasNegative : Bool} (i j : ℕ) :
    ReshapeOp.verifyDims i hasNegative shape output = .ok () ↔
      ReshapeOp.verifyDims j hasNegative shape output = .ok () := by
  induction shape generalizing output hasNegative i j with
  | nil => cases output <;> exact Iff.rfl
  | cons d shape ih =>
    cases output with
    | nil => exact Iff.rfl
    | cons n output =>
      rw [ReshapeOp.verifyDims, ReshapeOp.verifyDims]
      split_ifs
      · exact Iff.rfl
      · exact ih (i + 1) (j + 1)
      · exact Iff.rfl
      · exact iff_of_false (by simp) (by simp)
      · exact ih (i + 1) (j + 1)

variable {shape : List ℕ}

theorem acceptsShape_ones (h : shape ≠ []) (k : ℕ) :
    AcceptsShape (List.replicate k 1 ++ shape) ↔ AcceptsShape shape := by
  induction k with
  | zero => exact Iff.rfl
  | succ k ih =>
    have hne : List.replicate k 1 ++ shape ≠ [] := by simp [h]
    have hone : toI32 1 = 1 := rfl
    rw [← ih, AcceptsShape, AcceptsShape, List.replicate_succ, List.cons_append, List.map_cons,
      ReshapeOp.verifyDims, hone, if_neg (by omega), if_neg (by omega),
      if_neg (by simp), verifyDims_ok_iff (0 + 1) 0]
    exact and_congr_left fun _ => iff_of_true (List.cons_ne_nil _ _) hne

theorem acceptsShape_withRequiredOnes (h : shape ≠ []) :
    AcceptsShape (withRequiredOnes shape) ↔ AcceptsShape shape :=
  acceptsShape_ones h _

theorem withRequiredOnes_eq (h : shape.length < 4) :
    withRequiredOnes shape = List.replicate (4 - shape.length) 1 ++ shape := by
  have hones : ∀ n < 4, (4 - UInt32.ofNat n).toNat = 4 - n := by decide
  rw [withRequiredOnes, hones _ h]

theorem prod_withRequiredOnes (shape : List ℕ) : (withRequiredOnes shape).prod = shape.prod :=
  prod_ones _ shape

theorem length_withRequiredOnes (h : shape.length < 4) : (withRequiredOnes shape).length = 4 := by
  rw [withRequiredOnes_eq h, List.length_append, List.length_replicate]
  omega

theorem getD_withRequiredOnes (h : shape.length < 4) (dim : ℕ) :
    (withRequiredOnes shape).getD (dim + (4 - shape.length)) 0 = shape.getD dim 0 := by
  rw [withRequiredOnes_eq h, List.getD_append_right _ _ _ _ (by simp), List.length_replicate,
    Nat.add_sub_cancel]

/-! ## Runs -/

section Runs

variable {reductions : Reductions α} {mesh : Mesh} {x y : ShardedTensor α}

theorem run_append (ops ops' : List Op) (x : ShardedTensor α) : run reductions mesh (ops ++ ops') x
      = (run reductions mesh ops x).bind (run reductions mesh ops') := by
  induction ops generalizing x with
  | nil => rfl
  | cons op ops ih =>
    rw [List.cons_append, run, run, Option.bind_assoc]
    exact congrArg _ (funext ih)

theorem Op.eval_shape {op : Op} (h : op.eval reductions mesh x = some y) :
    y.shape = op.result.shape := by
  cases op with
  | reshape | reduceScatter | allGather | reduce =>
    rw [Op.eval] at h
    split_ifs at h
    exact congrArg ShardedTensor.shape (Option.some.inj h).symm

/-- The result of a run has the shape of the last type. -/
theorem run_shape {ops : List Op} {result : RankedTensorType}
    (hlast : ops.getLast?.map Op.result = some result) (h : run reductions mesh ops x = some y) :
    y.shape = result.shape := by
  induction ops generalizing x with
  | nil => exact nomatch hlast
  | cons op ops ih =>
    rw [run, Option.bind_eq_some_iff] at h
    obtain ⟨z, hz, hrun⟩ := h
    cases ops with
    | nil =>
      have hresult : op.result = result := Option.some.inj hlast
      rw [← Option.some.inj hrun, ← hresult]
      exact Op.eval_shape hz
    | cons op' ops => exact ih hlast hrun

theorem eval_reshape_iff (result : RankedTensorType) :
    (∃ y, (Op.reshape (result.shape.map toI32) result).eval reductions mesh x = some y) ↔
      x.shape.prod = result.shape.prod ∧ AcceptsShape result.shape := by
  rw [← GatherOp.verify_createReshapeOp_iff, Op.eval]
  split_ifs with hverify
  · exact iff_of_true ⟨_, rfl⟩ hverify
  · exact iff_of_false (by simp) hverify

/-! ## Scatter and gather -/

theorem cluster_set (mesh : Mesh) (axis : ℕ) (device : List ℕ) (j : ℕ) :
    cluster mesh axis (device.set axis j) = cluster mesh axis device := by
  rw [cluster, cluster]
  exact List.map_congr_left fun _ _ => List.set_set _

variable {reduceType : ReduceType}

/-- **Scatter, then gather**: slices of one size, one for each device, put together again. -/
theorem run_scatterGather {dim axis : ℕ}
    {scattered gathered : RankedTensorType} (hdim : dim < x.shape.length)
    (haxis : axis < mesh.shape.length) (htype : verifyReduceType reduceType = .ok ())
    (hdvd : mesh.extent axis ∣ x.shape.getD dim 0)
    (hscattered : scattered.shape = x.shape.set dim (x.shape.getD dim 0 / mesh.extent axis))
    (hgathered : gathered.shape = x.shape) :
    ∃ y, run reductions mesh
        [.reduceScatter reduceType dim axis scattered, .allGather dim axis gathered] x = some y ∧
      y.Agree mesh (allReduce reductions mesh reduceType axis x) := by
  have hsize : scattered.shape.getD dim 0 = x.shape.getD dim 0 / mesh.extent axis := by
    rw [hscattered, getD_set_self hdim]
  have hback : mesh.extent axis * (x.shape.getD dim 0 / mesh.extent axis) = x.shape.getD dim 0 :=
    Nat.mul_div_cancel' hdvd
  have hself : x.shape.set dim (x.shape.getD dim 0) = x.shape := by
    rw [List.getD_eq_getElem _ _ hdim, List.set_getElem_self]
  rw [run, Op.eval, if_pos ⟨hdim, htype, by rw [hsize, hback], by rw [hsize, hscattered]⟩,
    Option.bind_some, run, Op.eval,
    if_pos ⟨by rwa [hscattered, List.length_set], by
      show gathered.shape = scattered.shape.set dim (mesh.extent axis * scattered.shape.getD dim 0)
      rw [hsize, hback, hscattered, List.set_set, hself, hgathered]⟩]
  refine ⟨_, rfl, hgathered, fun device hdevice idx hidx => ?_⟩
  replace hidx : InShape idx x.shape := hgathered ▸ hidx
  have hdevlen : axis < device.length := hdevice.length_eq ▸ haxis
  have hidxlen : dim < idx.length := hidx.length_eq ▸ hdim
  have hindex : ∀ size : ℕ, (idx.set dim (idx.getD dim 0 % size)).set dim
      ((device.set axis (idx.getD dim 0 / size)).getD axis 0 * size
        + (idx.set dim (idx.getD dim 0 % size)).getD dim 0) = idx := by
    intro size
    rw [List.set_set, getD_set_self hdevlen, getD_set_self hidxlen, Nat.div_add_mod',
      List.getD_eq_getElem _ _ hidxlen, List.set_getElem_self]
  show reductions reduceType _ = _
  rw [cluster_set]
  congr 1
  exact List.map_congr_left fun other _ => congrArg _ (hindex _)

/-- **Between two reshapes**, an all-reduce is an all-reduce. -/
theorem run_aroundReshape (ops : List Op) {axis : ℕ}
    (wide result : RankedTensorType) (hprod : x.shape.prod = wide.shape.prod)
    (hwide : AcceptsShape wide.shape) (hresult : AcceptsShape result.shape)
    (hshape : result.shape = x.shape)
    (hops : ∀ z : ShardedTensor α, z.shape = wide.shape → ∃ y, run reductions mesh ops z = some y ∧
        y.Agree mesh (allReduce reductions mesh reduceType axis z)) :
    ∃ y, run reductions mesh (.reshape (wide.shape.map toI32) wide ::
        (ops ++ [.reshape (result.shape.map toI32) result])) x = some y ∧
      y.Agree mesh (allReduce reductions mesh reduceType axis x) := by
  have hfirst : (ReshapeOp.mk x.shape (wide.shape.map toI32) wide.shape).verify = .ok () :=
    GatherOp.verify_createReshapeOp_iff.mpr ⟨hprod, hwide⟩
  obtain ⟨y, hrun, hyshape, helem⟩ := hops
    ⟨wide.shape, fun device => (Tensor.reshape ⟨x.shape, x.elem device⟩ wide.shape).elem⟩ rfl
  replace hyshape : y.shape = wide.shape := hyshape
  have hlast : (ReshapeOp.mk y.shape (result.shape.map toI32) result.shape).verify = .ok () :=
    GatherOp.verify_createReshapeOp_iff.mpr ⟨by rw [hyshape, ← hprod, hshape], hresult⟩
  rw [run, Op.eval, if_pos hfirst, Option.bind_some, run_append, hrun, Option.bind_some, run,
    Op.eval, if_pos hlast]
  refine ⟨_, rfl, hshape, fun device hdevice idx hidx => ?_⟩
  replace hidx : InShape idx x.shape := hshape ▸ hidx
  have hlt : rowMajor x.shape idx < wide.shape.prod := hprod ▸ rowMajor_lt hidx
  have hwideIdx : InShape (unravel wide.shape (rowMajor x.shape idx)) wide.shape :=
    inShape_unravel _ _ hlt
  show y.elem device (unravel y.shape (rowMajor result.shape idx)) = _
  rw [hyshape, hshape, helem device hdevice _ (hyshape ▸ hwideIdx)]
  show reductions reduceType ((cluster mesh axis device).map fun other =>
      x.elem other (unravel x.shape (rowMajor wide.shape
        (unravel wide.shape (rowMajor x.shape idx))))) = _
  rw [rowMajor_unravel _ _ hlt, unravel_rowMajor hidx]
  rfl

/-! ## Gather and local reduction -/

theorem axes_first (n : ℕ) (shape output : List ℕ) (keepDim : Bool) :
    (ReduceOp.mk (n :: shape) (some [0]) keepDim output).axes = (true, n) :: shape.map (false, ·) :=
  ReduceOp.axes_single (n := 0) rfl

/-- **Gather, then reduce locally**: the tensors of a cluster one behind the other along a new
first dimension. -/
theorem run_gatherReduce {kind : ReduceKind} {axis : ℕ}
    (expanded gathered result : RankedTensorType)
    (hkind : kind.reduceType = reduceType) (hshape : x.shape ≠ [])
    (hexpanded : expanded.shape = 1 :: x.shape) (haccepts : AcceptsShape expanded.shape)
    (hgathered : gathered.shape = mesh.extent axis :: x.shape) (hresult : result.shape = x.shape) :
    ∃ y, run reductions mesh [.reshape (expanded.shape.map toI32) expanded,
        .allGather 0 axis gathered, .reduce kind false [0] result] x = some y ∧
      y.Agree mesh (allReduce reductions mesh reduceType axis x) := by
  have hfirst : (ReshapeOp.mk x.shape (expanded.shape.map toI32) expanded.shape).verify = .ok () :=
    GatherOp.verify_createReshapeOp_iff.mpr ⟨by rw [hexpanded, List.prod_cons, one_mul], haccepts⟩
  have hgather : 0 < expanded.shape.length ∧ gathered.shape =
      expanded.shape.set 0 (mesh.extent axis * expanded.shape.getD 0 0) := by
    rw [hexpanded, hgathered]
    exact ⟨Nat.succ_pos _, by simp⟩
  have hlast : verifyReduceOp ⟨gathered.shape, some [0], false, result.shape⟩ = .ok () := by
    rw [verifyReduceOp_eq_ok, hgathered]
    refine ⟨fun dim hdim => ?_, ?_⟩
    · have hzero : dim = 0 := List.mem_singleton.mp hdim
      rw [hzero, HasBit, normalizeDim, if_neg (lt_irrefl 0), List.length_cons]
      omega
    · rw [ReduceOp.expectedOutputShape, axes_first, AxisReduction.kept, if_neg Bool.false_ne_true,
        AxisReduction.kept_unmarked, if_neg (fun h => hshape h.1), hresult]
  rw [run, Op.eval, if_pos hfirst, Option.bind_some, run, Op.eval, if_pos hgather,
    Option.bind_some, run, Op.eval, if_pos hlast]
  refine ⟨_, rfl, hresult, fun device hdevice idx hidx => ?_⟩
  replace hidx : InShape idx x.shape := hresult ▸ hidx
  rw [hgathered, hexpanded]
  show reductions kind.reduceType ((AxisReduction.fibre false (ReduceOp.axes _) idx).map _) = _
  rw [axes_first, AxisReduction.fibre_first _ hidx.length_eq, List.map_map, hkind]
  show _ = reductions reduceType ((cluster mesh axis device).map fun other => x.elem other idx)
  rw [cluster, List.map_map]
  congr 1
  refine List.map_congr_left fun j _ => ?_
  have hunit : j % 1 = 0 := Nat.mod_one j
  have hpos : rowMajor (1 :: x.shape) (0 :: idx) = rowMajor x.shape idx := by
    rw [rowMajor_cons, Nat.zero_mul, Nat.zero_add]
  show x.elem (device.set axis (j / 1)) (unravel x.shape (rowMajor (1 :: x.shape)
    (j % 1 :: idx))) = x.elem (device.set axis j) idx
  rw [hunit, Nat.div_one, hpos, unravel_rowMajor hidx]

/-! ## What a run needs -/

theorem exists_of_run_cons {op : Op} {ops : List Op}
    (h : run reductions mesh (op :: ops) x = some y) :
    ∃ z, op.eval reductions mesh x = some z ∧ run reductions mesh ops z = some y :=
  Option.bind_eq_some_iff.mp h

theorem dvd_of_eval_reduceScatter {dim axis : ℕ} {scattered : RankedTensorType}
    (hscattered : scattered.shape = x.shape.set dim (x.shape.getD dim 0 / mesh.extent axis))
    (h : (Op.reduceScatter reduceType dim axis scattered).eval reductions mesh x = some y) :
    mesh.extent axis ∣ x.shape.getD dim 0 := by
  rw [Op.eval] at h
  split_ifs at h with hscatter
  obtain ⟨hdim, _, hsize, _⟩ := hscatter
  rw [hscattered, getD_set_self hdim] at hsize
  exact Dvd.intro _ hsize.symm

end Runs

/-! ## The all-reduces that are preserved -/

namespace AllReduceOp

variable {chipDesc : ChipDesc} {mesh : Mesh} {op : AllReduceOp}

/-- The dimension that is scattered: the fourth, or the last one of fewer. -/
def dimension (op : AllReduceOp) : ℕ := min 3 (op.input.shape.length - 1)

/-- **The condition**: the operand has a dimension, the cluster axis is one of the mesh, the result
has the shape of the operand; the devices divide the dimension, or the operand is small enough to be
gathered; and where a reshape is emitted, the extents are accepted as its attribute. -/
structure Divides (chipDesc : ChipDesc) (mesh : Mesh) (op : AllReduceOp) : Prop where
  rank : op.input.shape ≠ []
  axis : op.clusterAxis < mesh.shape.length
  result : op.result.shape = op.input.shape
  divides : mesh.extent op.clusterAxis ∣ op.input.shape.getD op.dimension 0 ∨
    exceedsAllGatherReduceMemLimit chipDesc op.input (mesh.extent op.clusterAxis) = true
  reshapes : op.input.shape.length < 4 ∨
      ¬mesh.extent op.clusterAxis ∣ op.input.shape.getD op.dimension 0 →
    AcceptsShape op.input.shape

theorem exists_createReduceOp (op : AllReduceOp) :
    ∃ kind : ReduceKind, kind.reduceType = op.reduceType ∧
      createReduceOp op = .ok (.reduce kind false [0] op.result) := by
  obtain ⟨input, reduceType, axis, result, hverified⟩ := op
  cases reduceType with
  | sum => exact ⟨.sum, rfl, rfl⟩
  | mean => exact ⟨.mean, rfl, rfl⟩
  | max => exact ⟨.max, rfl, rfl⟩
  | min => exact ⟨.min, rfl, rfl⟩
  | std => exact nomatch hverified
  | var => exact nomatch hverified

/-- What the pattern emits, where the operand is gathered. -/
theorem matchAndRewrite_of_gathered (hrank : op.input.shape ≠ [])
    (haxis : op.clusterAxis < mesh.shape.length)
    (hdvd : ¬mesh.extent op.clusterAxis ∣ op.input.shape.getD op.dimension 0)
    (hmem : exceedsAllGatherReduceMemLimit chipDesc op.input (mesh.extent op.clusterAxis) = true) :
    ∃ kind : ReduceKind, kind.reduceType = op.reduceType ∧ matchAndRewrite chipDesc mesh op = .ok
        [.reshape ((1 :: op.input.shape).map toI32) { op.input with shape := 1 :: op.input.shape },
          .allGather 0 op.clusterAxis
            { op.input with shape := mesh.extent op.clusterAxis :: op.input.shape },
          .reduce kind false [0] op.result] := by
  obtain ⟨kind, hkind, hcreate⟩ := exists_createReduceOp op
  refine ⟨kind, hkind, ?_⟩
  have hmod : op.input.shape.getD (min 3 (op.input.shape.length - 1)) 0
      % mesh.extent op.clusterAxis ≠ 0 := fun h => hdvd (Nat.dvd_of_mod_eq_zero h)
  rw [matchAndRewrite, if_neg (by rw [not_or]; exact ⟨hrank, not_le.mpr haxis⟩),
    if_pos ⟨hmod, hmem⟩, rewriteAsAllGatherLocalReduce, hcreate]
  rfl

/-- What the pattern emits otherwise. -/
theorem matchAndRewrite_of_scattered (hrank : op.input.shape ≠ [])
    (haxis : op.clusterAxis < mesh.shape.length)
    (h : mesh.extent op.clusterAxis ∣ op.input.shape.getD op.dimension 0 ∨
      ¬exceedsAllGatherReduceMemLimit chipDesc op.input (mesh.extent op.clusterAxis) = true) :
    matchAndRewrite chipDesc mesh op
      = .ok (rewriteAsReduceScatterAllGather mesh op op.dimension) := by
  have hnot : ¬(op.input.shape.getD (min 3 (op.input.shape.length - 1)) 0
      % mesh.extent op.clusterAxis ≠ 0 ∧
      exceedsAllGatherReduceMemLimit chipDesc op.input (mesh.extent op.clusterAxis) = true) := by
    rintro ⟨hmod, hmem⟩
    rcases h with hdvd | hnot
    · exact hmod (Nat.mod_eq_zero_of_dvd hdvd)
    · exact hnot hmem
  rw [matchAndRewrite, if_neg (by rw [not_or]; exact ⟨hrank, not_le.mpr haxis⟩), if_neg hnot]
  rfl

theorem dimension_lt (hrank : op.input.shape ≠ []) : op.dimension < op.input.shape.length := by
  have hpos := List.length_pos_iff.mpr hrank
  rw [dimension]
  omega

theorem wide_dimension (hrank : op.input.shape ≠ []) (hlt : op.input.shape.length < 4) :
    op.dimension + (4 - op.input.shape.length) < (withRequiredOnes op.input.shape).length ∧
      (withRequiredOnes op.input.shape).getD (op.dimension + (4 - op.input.shape.length)) 0
        = op.input.shape.getD op.dimension 0 := by
  have hdim := dimension_lt hrank
  exact ⟨by rw [length_withRequiredOnes hlt]; omega, getD_withRequiredOnes hlt _⟩

/-- **The pattern preserves what meets the condition.** -/
theorem Divides.preserved (h : op.Divides chipDesc mesh) : op.Preserved chipDesc mesh := by
  by_cases hdvd : mesh.extent op.clusterAxis ∣ op.input.shape.getD op.dimension 0
  · refine ⟨_, matchAndRewrite_of_scattered h.rank h.axis (.inl hdvd), ?_⟩
    by_cases hlt : op.input.shape.length < 4
    · -- a scatter and a gather of the wide operand, between two reshapes
      obtain ⟨hwide, hextent⟩ := wide_dimension h.rank hlt
      rw [rewriteAsReduceScatterAllGather, if_pos hlt]
      refine ⟨rfl, fun α reductions x hx => ?_⟩
      have haccepts := h.reshapes (.inl hlt)
      refine run_aroundReshape [_, _] ⟨withRequiredOnes op.input.shape, _⟩ op.result
        (by rw [hx, prod_withRequiredOnes])
        ((acceptsShape_withRequiredOnes h.rank).mpr haccepts) (h.result ▸ haccepts)
        (h.result.trans hx.symm) fun z hz => ?_
      replace hz : z.shape = withRequiredOnes op.input.shape := hz
      exact run_scatterGather (hz ▸ hwide) h.axis op.verified (by rw [hz, hextent]; exact hdvd)
        (by rw [hz]) (by rw [hz, ← h.result])
    · rw [rewriteAsReduceScatterAllGather, if_neg hlt]
      refine ⟨rfl, fun α reductions x hx => ?_⟩
      exact run_scatterGather (hx ▸ dimension_lt h.rank) h.axis op.verified (hx ▸ hdvd)
        (by rw [hx]) (h.result.trans hx.symm)
  · obtain ⟨kind, hkind, hrewrite⟩ := matchAndRewrite_of_gathered h.rank h.axis hdvd
      (h.divides.resolve_left hdvd)
    refine ⟨_, hrewrite, rfl, fun α reductions x hx => ?_⟩
    exact run_gatherReduce ⟨1 :: op.input.shape, _⟩
      ⟨mesh.extent op.clusterAxis :: op.input.shape, _⟩ op.result hkind (hx ▸ h.rank) (by rw [hx])
      ((acceptsShape_ones h.rank 1).mpr (h.reshapes (.inr hdvd))) (by rw [hx])
      (h.result.trans hx.symm)

/-- **What is preserved meets the condition.** -/
theorem Preserved.divides (h : op.Preserved chipDesc mesh) : op.Divides chipDesc mesh := by
  obtain ⟨ops, hrewrite, hlast, hrun⟩ := h
  have hstart : op.input.shape ≠ [] ∧ op.clusterAxis < mesh.shape.length := by
    rw [matchAndRewrite] at hrewrite
    split_ifs at hrewrite with hstop
    all_goals exact ⟨fun h => hstop (.inl h), not_le.mp fun h => hstop (.inr h)⟩
  obtain ⟨hrank, haxis⟩ := hstart
  obtain ⟨y, hy, hshape, _⟩ := hrun Unit (fun _ _ => ()) ⟨op.input.shape, fun _ _ => ()⟩ rfl
  have hresult : op.result.shape = op.input.shape := (run_shape hlast hy).symm.trans hshape
  by_cases hgathered : ¬mesh.extent op.clusterAxis ∣ op.input.shape.getD op.dimension 0 ∧
      exceedsAllGatherReduceMemLimit chipDesc op.input (mesh.extent op.clusterAxis) = true
  · obtain ⟨hdvd, hmem⟩ := hgathered
    obtain ⟨kind, _, hgather⟩ := matchAndRewrite_of_gathered hrank haxis hdvd hmem
    rw [Except.ok.inj (hrewrite.symm.trans hgather)] at hy
    obtain ⟨z, hz, _⟩ := exists_of_run_cons hy
    have haccepts := ((eval_reshape_iff ⟨1 :: op.input.shape, _⟩).mp ⟨z, hz⟩).2
    exact ⟨hrank, haxis, hresult, .inr hmem, fun _ => (acceptsShape_ones hrank 1).mp haccepts⟩
  · have hscattered : mesh.extent op.clusterAxis ∣ op.input.shape.getD op.dimension 0 ∨
        ¬exceedsAllGatherReduceMemLimit chipDesc op.input (mesh.extent op.clusterAxis) = true := by
      by_contra hno
      rw [not_or, not_not] at hno
      exact hgathered hno
    have hscatter := matchAndRewrite_of_scattered hrank haxis hscattered
    rw [Except.ok.inj (hrewrite.symm.trans hscatter), rewriteAsReduceScatterAllGather] at hy
    by_cases hlt : op.input.shape.length < 4
    · obtain ⟨_, hextent⟩ := wide_dimension hrank hlt
      rw [if_pos hlt] at hy
      obtain ⟨z, hz, hrest⟩ := exists_of_run_cons hy
      obtain ⟨z', hz', _⟩ := exists_of_run_cons hrest
      have hzshape : z.shape = withRequiredOnes op.input.shape := Op.eval_shape hz
      have hdvd := dvd_of_eval_reduceScatter (by rw [hzshape]) hz'
      rw [hzshape, hextent] at hdvd
      have haccepts := ((eval_reshape_iff ⟨withRequiredOnes op.input.shape, _⟩).mp ⟨z, hz⟩).2
      exact ⟨hrank, haxis, hresult, .inl hdvd,
        fun _ => (acceptsShape_withRequiredOnes hrank).mp haccepts⟩
    · rw [if_neg hlt] at hy
      obtain ⟨z, hz, _⟩ := exists_of_run_cons hy
      have hdvd := dvd_of_eval_reduceScatter rfl hz
      exact ⟨hrank, haxis, hresult, .inl hdvd,
        fun h => absurd h (not_or.mpr ⟨hlt, not_not.mpr hdvd⟩)⟩

/-- **The all-reduces whose breakdown preserves their values**: exactly those whose dimension the
devices divide, or that are small enough to be gathered, and whose extents the emitted reshapes
accept. -/
theorem preserved_iff_divides (chipDesc : ChipDesc) (mesh : Mesh) (op : AllReduceOp) :
    op.Preserved chipDesc mesh ↔ op.Divides chipDesc mesh :=
  ⟨Preserved.divides, Divides.preserved⟩

/-- A chip of twelve memory channels, of one gigabyte each. -/
def twelveChannels : ChipDesc := ⟨12, 1024, 2 ^ 30⟩

/-- Two devices along the second axis. -/
def twoDevices : Mesh := ⟨[1, 2], by simp⟩

/-- The sum of matrices of odd width on two devices, too large to be gathered. -/
def oddWidth : AllReduceOp :=
  ⟨⟨[1, 1, 4096, 4097], 32⟩, .sum, 1, ⟨[1, 1, 4096, 4097], 32⟩, rfl⟩

/-- **A width that the devices do not divide**: the slices that are scattered leave out the last
column. -/
theorem oddWidth_not_preserved : ¬oddWidth.Preserved twelveChannels twoDevices := by
  intro h
  rcases h.divides.divides with hdvd | hmem
  · exact absurd hdvd (by decide)
  · have hlarge : exceedsAllGatherReduceMemLimit twelveChannels oddWidth.input 2 = false := by
      decide +kernel
    exact Bool.false_ne_true (hlarge.symm.trans hmem)

end AllReduceOp

end TTNN.AllReduce
