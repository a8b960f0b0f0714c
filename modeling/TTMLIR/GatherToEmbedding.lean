/-
# Lowering a gather to an embedding

`GatherToEmbeddingConversionPattern` of `TTIRToTTIRDecomposition.cpp` lays the indexed dimensions
of the operand out as the rows of a table, the others as its columns, looks the rows up, and gives
the result its dimensions back.  Several indices are combined to a row by a product of matrices of
32-bit floating-point numbers.

* `GatherOp` : the operation, with `GatherOp.compute` for what it selects;
* `GatherOp.checkBasicLegality`, `GatherOp.matchAndRewrite` : the lowering;
* `matmulF32_strides` : the rows that the product of matrices finds;
* `GatherOp.lowers_iff_fits` : when the lowering selects the same elements.

The first row that is no floating-point number is `2 ^ 24 + 1`; a table with that row is looked up
at another one.
-/
import TTMLIR.DotGeneral
import TTMLIR.NearestEven

namespace TTIR

open MixedRadix Rearrange Fallible

/-! ## The operation -/

/-- The dimensions that are not in a list, in their order. -/
def otherDims (rank : ℕ) (dims : List ℕ) : List ℕ := (List.range rank).filter fun d => d ∉ dims

/-- `ttir.gather`: the shapes of its operands and result, and its attributes. -/
structure GatherOp where
  input : List ℕ
  startIndices : List ℕ
  output : List ℕ
  offsetDims : List ℕ
  collapsedSliceDims : List ℕ
  operandBatchingDims : List ℕ
  startIndicesBatchingDims : List ℕ
  startIndexMap : List ℕ
  indexVectorDim : ℕ
  sliceSizes : List ℕ
deriving DecidableEq, Repr

namespace GatherOp

variable (op : GatherOp)

/-- The shape of the start indices without the dimension of the index vectors. -/
def batchShape : List ℕ := op.startIndices.eraseIdx op.indexVectorDim

/-- What the definition of the operation asks of its attributes and its result. -/
structure Valid : Prop where
  indexVectorDim_le : op.indexVectorDim ≤ op.startIndices.length
  startIndexMap_length : op.startIndexMap.length
    = if op.indexVectorDim < op.startIndices.length then op.startIndices.getD op.indexVectorDim 0
      else 1
  startIndexMap_nodup : op.startIndexMap.Nodup
  startIndexMap_lt : ∀ d ∈ op.startIndexMap, d < op.input.length
  collapsed_nodup : (op.collapsedSliceDims ++ op.operandBatchingDims).Nodup
  collapsed_lt : ∀ d ∈ op.collapsedSliceDims ++ op.operandBatchingDims, d < op.input.length
  offsetDims_sorted : op.offsetDims.Pairwise (· < ·)
  offsetDims_lt : ∀ d ∈ op.offsetDims, d < op.output.length
  sliceSizes_le : List.Forall₂ (· ≤ ·) op.sliceSizes op.input
  batch : gather (otherDims op.output.length op.offsetDims) op.output = op.batchShape
  offset : gather op.offsetDims op.output
    = gather (otherDims op.input.length (op.collapsedSliceDims ++ op.operandBatchingDims))
        op.sliceSizes

/-- Where the component `k` of the index vector of a batch index stands. -/
def startIndexAt (batchIndex : List ℕ) (k : ℕ) : List ℕ :=
  if op.indexVectorDim < op.startIndices.length then batchIndex.insertIdx op.indexVectorDim k
  else batchIndex

/-- The element of the operand that a result index selects, without batching dimensions: the start
index in the dimensions of the index vector, and the offset in those that are not collapsed. -/
def operandIndex (startIndices : Tensor ℕ) (o : List ℕ) : List ℕ :=
  let batchIndex := gather (otherDims op.output.length op.offsetDims) o
  let offsetIndex := gather op.offsetDims o
  (List.range op.input.length).map fun d =>
    (if d ∈ op.startIndexMap then
      startIndices.elem (op.startIndexAt batchIndex (op.startIndexMap.idxOf d)) else 0)
    + if d ∈ op.collapsedSliceDims then 0
      else offsetIndex.getD ((otherDims op.input.length op.collapsedSliceDims).idxOf d) 0

/-- What a gather selects. -/
def compute {α : Type} (x : Tensor α) (startIndices : Tensor ℕ) : Tensor α :=
  ⟨op.output, fun o => x.elem (op.operandIndex startIndices o)⟩

/-- The start indices are indices of the operand. -/
def InRange (startIndices : Tensor ℕ) : Prop :=
  ∀ b, InShape b op.batchShape → ∀ k < op.startIndexMap.length,
    startIndices.elem (op.startIndexAt b k) < op.input.getD (op.startIndexMap.getD k 0) 0

end GatherOp

/-- `ttir.embedding`: the shapes of its operands and result. -/
structure EmbeddingOp where
  input : List ℕ
  weight : List ℕ
  output : List ℕ
deriving DecidableEq, Repr

/-- `EmbeddingOp::verify`. -/
def EmbeddingOp.verify (op : EmbeddingOp) : Except String Unit :=
  if 2 < op.input.length then
    .error s!"input must be at most a 2D tensor, got {op.input.length}D ranked tensor"
  else if op.weight.length < 2 then
    .error s!"weight must be at least 2D tensor, got {op.weight.length}D ranked tensor"
  else if (op.weight.take (op.weight.length - 2)).any fun dim => dim ≠ 1 then
    .error "weight must be effectively 2D tensor"
  else if op.input ++ [op.weight.getD (op.weight.length - 1) 0] ≠ op.output then
    .error s!"expected output shape of ({join (op.input ++ [op.weight.getD (op.weight.length - 1) 0])}) but got ({join op.output})"
  else .ok ()

/-- What an embedding looks up: the rows of a table. -/
def Tensor.embedding {α : Type} (rows : Tensor ℤ) (table : Tensor α) : Tensor α :=
  ⟨rows.shape ++ [table.shape.getD 1 0],
    fun i => table.elem [(rows.elem i.dropLast).toNat, i.getD (i.length - 1) 0]⟩

/-! ## Indices as floating-point numbers -/

/-- An integer as a 32-bit floating-point number. -/
def f32 (z : ℤ) : ℤ := Rounding.nearestEven 24 z

/-- The loop over the strides from the last dimension on, with the offset as an `int`. -/
def stridesFrom : List ℕ → List ℤ × ℤ
  | [] => ([], 1)
  | n :: shape =>
    let (strides, dimensionOffset) := stridesFrom shape
    (f32 dimensionOffset :: strides, int32 (dimensionOffset * n))

/-- A row times a column, rounded after every operation. -/
def matmulF32 (row column : List ℤ) : ℤ :=
  (List.zipWith (fun i stride => f32 (i * stride)) row column).foldl (fun sum p => f32 (sum + p)) 0

namespace GatherOp

/-! ## The pattern -/

/-- `checkBasicLegality`, the loop over the dimensions of the operand. -/
def checkSliceSizes : List ℕ → ℕ → List ℕ → List ℕ → Except String Unit
  | startIndexMap, i, n :: input, size :: sliceSizes =>
    if startIndexMap.head? = some i then
      checkSliceSizes startIndexMap.tail (i + 1) input sliceSizes
    else if size ≠ n then
      .error "Did not satisfy sliceSizes[i] = inputShape[i] for i not in startIndexMap"
    else checkSliceSizes startIndexMap (i + 1) input sliceSizes
  | _, _, _, _ => .ok ()

/-- The operations that combine the components of the index vectors. -/
structure Transform where
  startIndicesPermute : PermuteOp
  strides : List ℤ
  matmul : MatmulOp

/-- The emitted operations. -/
structure Emitted where
  inputPermute : PermuteOp
  inputReshape : ReshapeOp
  transform : Option Transform
  startIndicesReshape : Option ReshapeOp
  embedding : EmbeddingOp
  outputReshape : ReshapeOp
  outputPermute : PermuteOp

/-- `createReshapeOp`. -/
def createReshapeOp (input targetShape : List ℕ) : ReshapeOp :=
  ⟨input, targetShape.map toI32, targetShape⟩

/-- `permuteInput`, and the other permutations: a permute of its operand. -/
def createPermuteOp (input permutation : List ℕ) : Except String PermuteOp := do
  let output ← applyPermutation input (permutation.map fun n : ℕ => (n : ℤ))
  return ⟨input, permutation.map fun n : ℕ => (n : ℤ), output⟩

/-- `reshapeInput`: the indexed dimensions and the others, flattened. -/
def reshapeInput (inputShape : List ℕ) (numIndexingDims : ℕ) : ReshapeOp :=
  createReshapeOp inputShape
    [(inputShape.take numIndexingDims).prod, (inputShape.drop numIndexingDims).prod]

/-- The loop over the result dimensions that are not offset dimensions. -/
def skipOffsetDims : List ℕ → List ℕ → List ℕ
  | offsetDims, i :: is =>
    if offsetDims.head? = some i then skipOffsetDims offsetDims.tail is
    else i :: skipOffsetDims offsetDims is
  | _, [] => []

variable (op : GatherOp)

/-- `checkBasicLegality`. -/
def checkBasicLegality : Except String Unit :=
  if 1 < op.startIndexMap.length ∧ op.startIndices.length = 1 then
    .error "Did not satisfy startIndicesShape.size() > 1 when startIndexMap.size() > 1"
  else if op.operandBatchingDims ≠ [] ∨ op.startIndicesBatchingDims ≠ [] then
    .error "Did not satisfy batching = none"
  else if op.collapsedSliceDims.length ≠ op.startIndexMap.length then
    .error "Did not satisfy startIndexMap = collapsedSliceDims"
  else if op.startIndexMap ≠ op.collapsedSliceDims then
    .error "Did not satisfy startIndexMap = collapsedSliceDims"
  else checkSliceSizes op.startIndexMap 0 op.input op.sliceSizes

/-- `transformStartIndices`. -/
def transformStartIndices (inputShape : List ℕ) : Except String Transform := do
  let startIndicesPermutation :=
    ((List.range op.startIndices.length).filter fun d => d ≠ op.indexVectorDim)
      ++ [op.indexVectorDim]
  let permute ← createPermuteOp op.startIndices startIndicesPermutation
  let numIndexingDims := op.startIndexMap.length
  return {
    startIndicesPermute := permute
    strides := (stridesFrom (inputShape.take numIndexingDims)).1
    matmul := ⟨permute.output, [numIndexingDims, 1], false, false,
      permute.output.set (permute.output.length - 1) 1⟩ }

/-- `reshapeAndPermuteOutput`. -/
def reshapeAndPermuteOutput (output : List ℕ) : Except String (ReshapeOp × PermuteOp) := do
  let outputPermutation :=
    skipOffsetDims op.offsetDims (List.range op.output.length) ++ op.offsetDims
  let permutedOutputShape ← applyPermutation op.output
    (outputPermutation.map fun n : ℕ => (n : ℤ))
  return (createReshapeOp output permutedOutputShape,
    ⟨permutedOutputShape, (inverse outputPermutation).map fun n : ℕ => (n : ℤ), op.output⟩)

/-- `matchAndRewrite`. -/
def matchAndRewrite : Except String Emitted := do
  op.checkBasicLegality
  let numIndexingDims := op.startIndexMap.length
  let inputPermuted ← createPermuteOp op.input
    (op.startIndexMap ++ otherDims op.input.length op.startIndexMap)
  let input := reshapeInput inputPermuted.output numIndexingDims
  let transform ←
    if 1 < numIndexingDims then some <$> op.transformStartIndices inputPermuted.output
    else pure none
  let startIndicesTransformed := (transform.map fun t => t.matmul.output).getD op.startIndices
  let startIndices := if 3 ≤ startIndicesTransformed.length then
    some (createReshapeOp startIndicesTransformed [startIndicesTransformed.prod]) else none
  let startIndicesShape := (startIndices.map fun r => r.output).getD startIndicesTransformed
  let newOutputShape := startIndicesShape ++ [input.output.getD 1 0]
  let outputs ← op.reshapeAndPermuteOutput newOutputShape
  return {
    inputPermute := inputPermuted
    inputReshape := input
    transform := transform
    startIndicesReshape := startIndices
    embedding := ⟨startIndicesShape, input.output, newOutputShape⟩
    outputReshape := outputs.1
    outputPermute := outputs.2 }

/-- The operations pass their verifiers. -/
structure Emitted.Verified (e : Emitted) : Prop where
  inputPermute : e.inputPermute.verify = .ok ()
  inputReshape : e.inputReshape.verify = .ok ()
  transform : ∀ t, e.transform = some t →
    t.startIndicesPermute.verify = .ok () ∧ t.matmul.verify = .ok ()
  startIndicesReshape : ∀ r, e.startIndicesReshape = some r → r.verify = .ok ()
  embedding : e.embedding.verify = .ok ()
  outputReshape : e.outputReshape.verify = .ok ()
  outputPermute : e.outputPermute.verify = .ok ()

/-- The start indices after their transformation: rounded, and multiplied with the strides. -/
def Transform.apply (t : Transform) (startIndices : Tensor ℕ) : Tensor ℤ :=
  let permuted := startIndices.permute (t.startIndicesPermute.permutation.map Int.toNat)
  ⟨t.matmul.output, fun i => matmulF32
    ((List.range t.strides.length).map fun k => f32 (permuted.elem (i.dropLast ++ [k]))) t.strides⟩

/-- What the operations compute. -/
def Emitted.apply {α : Type} (e : Emitted) (x : Tensor α) (startIndices : Tensor ℕ) : Tensor α :=
  let table := (x.permute (e.inputPermute.permutation.map Int.toNat)).reshape e.inputReshape.output
  let transformed : Tensor ℤ := match e.transform with
    | none => startIndices.map fun i : ℕ => (i : ℤ)
    | some t => t.apply startIndices
  let rows := match e.startIndicesReshape with
    | none => transformed
    | some r => transformed.reshape r.output
  ((Tensor.embedding rows table).reshape e.outputReshape.output).permute
    (e.outputPermute.permutation.map Int.toNat)

/-- **The gather is lowered without changing values**, for start indices in range. -/
def Lowers : Prop :=
  ∃ e, op.matchAndRewrite = .ok e ∧ e.Verified ∧
    ∀ (α : Type) (x : Tensor α) (startIndices : Tensor ℕ), x.shape = op.input →
      startIndices.shape = op.startIndices → op.InRange startIndices →
        (op.compute x startIndices).Agree (e.apply x startIndices)

/-- The extents of the indexed dimensions, and of the others. -/
def indexedExtents : List ℕ := gather op.startIndexMap op.input

def offsetExtents : List ℕ := gather (otherDims op.input.length op.startIndexMap) op.input

/-- **The lowering fits**: some dimension is indexed, the new shapes are positive numbers of 32
bits, and where several dimensions are indexed, every row is a floating-point number. -/
structure Fits : Prop where
  indexed : op.startIndexMap ≠ []
  table : AcceptsShape [op.indexedExtents.prod, op.offsetExtents.prod]
  rows : 3 ≤ op.startIndices.length → AcceptsShape [op.batchShape.prod]
  output : AcceptsShape (op.batchShape ++ op.offsetExtents)
  exact : 1 < op.startIndexMap.length → op.indexedExtents.prod ≤ 2 ^ 24 + 1

end GatherOp

/-! ## Dimensions -/

section Dims

variable {rank : ℕ} {dims : List ℕ}

theorem mem_otherDims {d : ℕ} : d ∈ otherDims rank dims ↔ d < rank ∧ d ∉ dims := by
  rw [otherDims, List.mem_filter, List.mem_range, decide_eq_true_iff]

theorem nodup_otherDims : (otherDims rank dims).Nodup := List.nodup_range.filter _

/-- Dimensions and the others are all of them. -/
theorem isPermutation_append_otherDims (hnodup : dims.Nodup) (hlt : ∀ d ∈ dims, d < rank) :
    IsPermutation rank (dims ++ otherDims rank dims) := by
  refine (List.perm_ext_iff_of_nodup (hnodup.append nodup_otherDims ?_) List.nodup_range).mpr ?_
  · intro d hd hd'
    exact (mem_otherDims.mp hd').2 hd
  · intro d
    rw [List.mem_append, mem_otherDims, List.mem_range]
    constructor
    · rintro (hd | hd)
      · exact hlt d hd
      · exact hd.1
    · intro hd
      by_cases hmem : d ∈ dims
      · exact .inl hmem
      · exact .inr ⟨hd, hmem⟩

/-- What is put back at every dimension. -/
theorem gather_inverse_append (hnodup : dims.Nodup) (hlt : ∀ d ∈ dims, d < rank) {i f : List ℕ}
    (hi : i.length = dims.length) :
    gather (inverse (dims ++ otherDims rank dims)) (i ++ f) = (List.range rank).map fun d =>
          (if d ∈ dims then i.getD (dims.idxOf d) 0 else 0)
            + if d ∈ dims then 0 else f.getD ((otherDims rank dims).idxOf d) 0 := by
  rw [gather, inverse, (isPermutation_append_otherDims hnodup hlt).length_eq, List.map_map]
  apply List.map_congr_left
  intro d hd
  rw [Function.comp_apply]
  by_cases hmem : d ∈ dims
  · have hidx : dims.idxOf d < i.length := by
      rw [hi]
      exact List.idxOf_lt_length_of_mem hmem
    rw [if_pos hmem, if_pos hmem, List.idxOf_append_of_mem hmem, List.getD_append _ _ _ _ hidx]
    rfl
  · rw [if_neg hmem, if_neg hmem, List.idxOf_append_of_notMem hmem, Nat.zero_add,
      List.getD_append_right _ _ _ _ (by omega), hi, Nat.add_comm, Nat.add_sub_cancel]
    rfl

/-- The positions but one, in their order. -/
theorem gather_filter_ne (v : ℕ) (l : List ℕ) :
    gather ((List.range l.length).filter fun d => d ≠ v) l = l.eraseIdx v := by
  have hfilter : ((List.range l.length).filter fun d => decide (d ≠ v))
      = (List.range l.length).eraseIdx v := by
    by_cases hv : v < l.length
    · have hbne : (fun d : ℕ => decide (d ≠ v)) = fun d => d != v := by
        funext d
        by_cases hd : d = v <;> simp [hd]
      have hidx : (List.range l.length).idxOf v = v := by
        have hv' : v < (List.range l.length).length := by rwa [List.length_range]
        have hget := List.nodup_range.idxOf_getElem v hv'
        rwa [List.getElem_range] at hget
      rw [hbne, ← List.nodup_range.erase_eq_filter v]
      exact List.erase_eq_eraseIdx_of_idxOf hidx
    · rw [List.eraseIdx_of_length_le (by simpa using hv), List.filter_eq_self]
      intro d hd
      have := List.mem_range.mp hd
      exact decide_eq_true (by omega)
  rw [hfilter, gather, ← List.eraseIdx_map]
  congr 1
  exact gather_range l

end Dims

/-! ## A dimension put in -/

variable {b : List ℕ}

section Insert

theorem forall_pos_of_inShape {idx shape : List ℕ} (h : InShape idx shape) :
    ∀ n ∈ shape, 0 < n := by
  induction h with
  | nil => exact fun n hn => absurd hn List.not_mem_nil
  | cons hlt _ ih =>
    intro n hn
    rcases List.mem_cons.mp hn with rfl | hn
    · exact Nat.zero_lt_of_lt hlt
    · exact ih n hn

/-- A dimension of one position does not change offsets. -/
theorem rowMajor_insertIdx {shape : List ℕ} {v : ℕ} (hv : v < shape.length)
    (hone : shape.getD v 0 = 1) (hb : b.length + 1 = shape.length) :
    rowMajor shape (b.insertIdx v 0) = rowMajor (shape.eraseIdx v) b := by
  induction shape generalizing v b with
  | nil => cases hv
  | cons n shape ih =>
    cases v with
    | zero =>
      obtain rfl : n = 1 := hone
      rw [List.insertIdx_zero, rowMajor_cons, Nat.zero_mul, Nat.zero_add]
      rfl
    | succ v =>
      cases b with
      | nil =>
        rw [List.length_nil, Nat.zero_add, List.length_cons] at hb
        rw [List.length_cons] at hv
        omega
      | cons i b =>
        have hv' : v < shape.length := by simpa using hv
        have hone' : shape.getD v 0 = 1 := hone
        have hprod : (shape.eraseIdx v).prod = shape.prod := by
          have hget : shape[v] = 1 := by rwa [List.getD_eq_getElem _ 0 hv'] at hone'
          have hmul := (List.getElem_cons_eraseIdx_perm hv').prod_eq
          rwa [List.prod_cons, hget, Nat.one_mul] at hmul
        rw [List.insertIdx_succ_cons, rowMajor_cons, ih hv' hone' (by simpa using hb),
          List.eraseIdx_cons_succ, rowMajor_cons, hprod]

/-- A coordinate is put in at a dimension. -/
theorem inShape_insertIdx {shape : List ℕ} {v k : ℕ} (hv : v < shape.length)
    (hk : k < shape.getD v 0) (hb : InShape b (shape.eraseIdx v)) :
    InShape (b.insertIdx v k) shape := by
  induction shape generalizing v b with
  | nil => cases hv
  | cons n shape ih =>
    cases v with
    | zero => exact .cons hk hb
    | succ v =>
      rw [List.eraseIdx_cons_succ] at hb
      obtain ⟨i, b', hi, hb', rfl⟩ := List.forall₂_cons_right_iff.mp hb
      rw [List.insertIdx_succ_cons]
      exact .cons hi (ih (by simpa using hv) hk hb')

/-- The dimension moved to the back, and put back. -/
theorem gather_inverse_filter_ne {rank v : ℕ} (hv : v < rank) (hb : b.length + 1 = rank) (k : ℕ) :
    IsPermutation rank (((List.range rank).filter fun d => d ≠ v) ++ [v]) ∧
      gather (inverse (((List.range rank).filter fun d => d ≠ v) ++ [v])) (b ++ [k])
        = b.insertIdx v k := by
  have hperm : IsPermutation rank (((List.range rank).filter fun d => d ≠ v) ++ [v]) := by
    have hnodup : (((List.range rank).filter fun d => d ≠ v) ++ [v]).Nodup := by
      refine (List.nodup_range.filter _).append (List.nodup_singleton v) ?_
      intro d hd hd'
      exact of_decide_eq_true (List.mem_filter.mp hd).2 (List.mem_singleton.mp hd')
    refine (List.perm_ext_iff_of_nodup hnodup List.nodup_range).mpr fun d => ?_
    rw [List.mem_append, List.mem_filter, List.mem_singleton, List.mem_range, decide_eq_true_iff]
    constructor
    · rintro (hd | rfl)
      · exact hd.1
      · exact hv
    · intro hd
      by_cases hdv : d = v
      · exact .inr hdv
      · exact .inl ⟨hd, hdv⟩
  have hvb : v ≤ b.length := by omega
  have hlen : (b.insertIdx v k).length = rank := by
    rw [List.length_insertIdx_of_le_length hvb, hb]
  refine ⟨hperm, ?_⟩
  have hback : b ++ [k] = gather (((List.range rank).filter fun d => d ≠ v) ++ [v])
      (b.insertIdx v k) := by
    rw [gather, List.map_append]
    congr 1
    · have hfilter := gather_filter_ne v (b.insertIdx v k)
      rw [hlen, List.eraseIdx_insertIdx_self] at hfilter
      exact hfilter.symm
    · rw [List.map_singleton, List.getD_eq_getElem _ _ (by omega), List.getElem_insertIdx_self]
  rw [hback]
  exact hperm.gather_inverse_gather hlen

end Insert

/-! ## Rows as floating-point numbers -/

section Rows

theorem f32_of_le {z : ℤ} (hpos : 0 ≤ z) (h : z ≤ 2 ^ 24) : f32 z = z :=
  Rounding.nearestEven_of_natAbs_le (by decide) (by omega)

/-- The offset in the loop over the strides is the volume behind a dimension. -/
theorem stridesFrom_snd {shape : List ℕ} (hpos : ∀ n ∈ shape, 0 < n)
    (hprod : shape.prod ≤ 2 ^ 24 + 1) : (stridesFrom shape).2 = shape.prod := by
  induction shape with
  | nil => rfl
  | cons n shape ih =>
    have hn := hpos n (by simp)
    rw [List.prod_cons] at hprod
    have hle : shape.prod ≤ n * shape.prod := Nat.le_mul_of_pos_left _ hn
    show int32 ((stridesFrom shape).2 * n) = _
    rw [ih (fun m hm => hpos m (List.mem_cons_of_mem _ hm)) (hle.trans hprod), List.prod_cons,
      Nat.mul_comm n, ← Nat.cast_mul]
    rw [Nat.mul_comm] at hprod
    apply int32_natCast
    omega

@[simp] theorem length_stridesFrom (shape : List ℕ) : (stridesFrom shape).1.length = shape.length := by
  induction shape with
  | nil => rfl
  | cons n shape ih => exact congrArg (· + 1) ih

/-- **The rows that are found**: up to `2 ^ 24`, the offset of the index vector. -/
theorem matmulF32_strides {shape i : List ℕ} (hi : InShape i shape)
    (hprod : shape.prod ≤ 2 ^ 24 + 1) :
    matmulF32 (i.map fun k : ℕ => f32 k) (stridesFrom shape).1 = rowMajor shape i := by
  have hfold : ∀ {i shape : List ℕ}, InShape i shape → shape.prod ≤ 2 ^ 24 + 1 → ∀ sum : ℕ,
      sum + rowMajor shape i ≤ 2 ^ 24 →
      (List.zipWith (fun i stride => f32 (i * stride)) (i.map fun k : ℕ => f32 k)
        (stridesFrom shape).1).foldl (fun sum p => f32 (sum + p)) (sum : ℤ)
        = ((sum + rowMajor shape i : ℕ) : ℤ) := by
    intro i shape hi hprod
    induction hi with
    | nil => exact fun sum _ => rfl
    | @cons k n i shape hk hi ih =>
      intro sum hsum
      rw [rowMajor_cons] at hsum ⊢
      rw [List.prod_cons] at hprod
      have hpos : ∀ m ∈ shape, 0 < m := forall_pos_of_inShape hi
      have hvolume : 0 < shape.prod := prod_pos_of_inShape hi
      have hle : shape.prod ≤ n * shape.prod := Nat.le_mul_of_pos_left _ (by omega)
      have hstride := stridesFrom_snd hpos (hle.trans hprod)
      -- the product is held: without an index it is zero, with one the stride is small
      have hp : f32 (f32 k * f32 (stridesFrom shape).2) = ((k * shape.prod : ℕ) : ℤ) := by
        rcases Nat.eq_zero_or_pos k with rfl | hkpos
        · have hzero : f32 ((0 : ℕ) : ℤ) = 0 := f32_of_le (by simp) (by simp)
          rw [hzero, zero_mul, Nat.zero_mul]
          exact hzero
        · have htwo : 2 * shape.prod ≤ n * shape.prod := Nat.mul_le_mul_right _ (by omega)
          have hkn : k * shape.prod + shape.prod ≤ n * shape.prod := by
            rw [← Nat.succ_mul]
            exact Nat.mul_le_mul_right _ hk
          have hkle : k ≤ k * shape.prod := Nat.le_mul_of_pos_right _ hvolume
          have hk' : f32 (k : ℕ) = (k : ℕ) := f32_of_le (by omega) (by omega)
          have hs : f32 (shape.prod : ℕ) = (shape.prod : ℕ) := f32_of_le (by omega) (by omega)
          have hmul : k * shape.prod ≤ 2 ^ 24 := by omega
          rw [hstride, hk', hs, ← Nat.cast_mul]
          exact f32_of_le (Int.natCast_nonneg _) (by exact_mod_cast hmul)
      show List.foldl _ (f32 (sum + f32 (f32 k * f32 (stridesFrom shape).2))) _ = _
      rw [hp, ← Nat.cast_add]
      have hsum' : f32 ((sum + k * shape.prod : ℕ) : ℤ) = ((sum + k * shape.prod : ℕ) : ℤ) := by
        generalize k * shape.prod = p at *
        exact f32_of_le (by omega) (by omega)
      rw [hsum', ih (hle.trans hprod) _ (by omega), Nat.add_assoc]
  have hlt := rowMajor_lt hi
  have hzero := hfold hi hprod 0 (by omega)
  rw [Nat.zero_add] at hzero
  exact hzero

theorem matmulF32_ne {row column : List ℤ} (hrow : row ≠ []) (hcolumn : column ≠ []) :
    matmulF32 row column ≠ (2 ^ 24 + 1 : ℕ) := by
  have hne : List.zipWith (fun i stride => f32 (i * stride)) row column ≠ [] := by
    cases row with
    | nil => exact absurd rfl hrow
    | cons i row =>
      cases column with
      | nil => exact absurd rfl hcolumn
      | cons s column => simp
  rw [matmulF32, ← List.dropLast_append_getLast hne, List.foldl_append]
  exact Rounding.nearestEven_ne (by decide) _

end Rows

/-! ## Verifiers -/

section Verifiers

/-- Accepted extents are positive. -/
theorem AcceptsShape.pos {target : List ℕ} (h : AcceptsShape target) : ∀ n ∈ target, 0 < n := by
  have hloop : ∀ (ns : List ℕ) (i : ℕ) (hasNegative : Bool),
      ReshapeOp.verifyDims i hasNegative (ns.map toI32) ns = .ok () → ∀ n ∈ ns, 0 < n := by
    intro ns
    induction ns with
    | nil => exact fun i _ _ n hn => absurd hn List.not_mem_nil
    | cons n ns ih =>
      intro i hasNegative hns
      have hn : 0 < n := by
        rcases Nat.eq_zero_or_pos n with rfl | hn
        · exact nomatch hns
        · exact hn
      rw [List.map_cons, ReshapeOp.verifyDims] at hns
      rw [List.forall_mem_cons]
      refine ⟨hn, ?_⟩
      split_ifs at hns
      · exact ih _ _ hns
      · exact ih _ _ hns
  exact hloop target 0 false h.2

end Verifiers

/-! ## What the legality check leaves -/

section Legality

/-- The slices are whole in the dimensions that are not indexed. -/
theorem getD_of_checkSliceSizes {input sliceSizes : List ℕ}
    (hlen : sliceSizes.length = input.length) {startIndexMap : List ℕ} {i : ℕ}
    (h : GatherOp.checkSliceSizes startIndexMap i input sliceSizes = .ok ()) {d : ℕ}
    (hd : d + i ∉ startIndexMap) : sliceSizes.getD d 0 = input.getD d 0 := by
  induction input generalizing sliceSizes startIndexMap i d with
  | nil =>
    rw [List.length_nil] at hlen
    rw [List.length_eq_zero_iff.mp hlen]
  | cons n input ih =>
    cases sliceSizes with
    | nil => exact absurd hlen (by simp)
    | cons size sliceSizes =>
      have hlen' : sliceSizes.length = input.length := by simpa using hlen
      rw [GatherOp.checkSliceSizes] at h
      split_ifs at h with hhead hsize
      · -- the dimension is the next indexed one
        obtain ⟨rest, rfl⟩ : ∃ rest, startIndexMap = i :: rest := by
          cases startIndexMap with
          | nil => exact absurd hhead (by simp)
          | cons j rest => exact ⟨rest, by rw [Option.some.inj hhead]⟩
        cases d with
        | zero => exact absurd (by simp) hd
        | succ d =>
          apply ih hlen' h
          rw [List.tail_cons, Nat.add_comm i 1, ← Nat.add_assoc]
          exact fun hmem => hd (List.mem_cons_of_mem _ hmem)
      · cases d with
        | zero => exact not_not.mp hsize
        | succ d =>
          apply ih hlen' h
          rwa [Nat.add_comm i 1, ← Nat.add_assoc]

/-- Sorted offset dimensions are skipped, and no others. -/
theorem skipOffsetDims_range' {dims : List ℕ} (hsorted : dims.Pairwise (· < ·)) (n : ℕ) {i : ℕ}
    (hle : ∀ d ∈ dims, i ≤ d) :
    GatherOp.skipOffsetDims dims (List.range' i n)
      = (List.range' i n).filter fun d => d ∉ dims := by
  induction n generalizing i dims with
  | zero => cases dims <;> rfl
  | succ n ih =>
    rw [List.range'_succ, GatherOp.skipOffsetDims]
    by_cases hhead : dims.head? = some i
    · obtain ⟨rest, rfl⟩ : ∃ rest, dims = i :: rest := by
        cases dims with
        | nil => exact absurd hhead (by simp)
        | cons j rest => exact ⟨rest, by rw [Option.some.inj hhead]⟩
      rw [if_pos hhead, List.tail_cons, ih hsorted.of_cons fun d hd =>
        (List.pairwise_cons.mp hsorted).1 d hd, List.filter_cons_of_neg (by simp)]
      apply List.filter_congr
      intro d hd
      have hne : d ≠ i := by
        have := (List.mem_range'_1.mp hd).1
        omega
      simp [hne]
    · have hlt : ∀ d ∈ dims, i + 1 ≤ d := by
        cases dims with
        | nil => exact fun d hd => absurd hd List.not_mem_nil
        | cons j rest =>
          have hj : i < j := by
            have hij := hle j List.mem_cons_self
            rcases Nat.lt_or_eq_of_le hij with hlt | rfl
            · exact hlt
            · exact absurd rfl hhead
          intro d hd
          rcases List.mem_cons.mp hd with rfl | hd
          · exact hj
          · have := (List.pairwise_cons.mp hsorted).1 d hd
            omega
      have hmem : i ∉ dims := fun hi => absurd (hlt i hi) (by omega)
      rw [if_neg hhead, ih hsorted hlt, List.filter_cons_of_pos (by simpa using hmem)]

theorem GatherOp.of_checkBasicLegality {op : GatherOp} (hvalid : op.Valid)
    (hlegal : op.checkBasicLegality = .ok ()) :
    op.collapsedSliceDims = op.startIndexMap ∧ op.operandBatchingDims = [] ∧
      (1 < op.startIndexMap.length → op.startIndices.length ≠ 1) ∧
      ∀ d ∉ op.startIndexMap, op.sliceSizes.getD d 0 = op.input.getD d 0 := by
  rw [checkBasicLegality] at hlegal
  split_ifs at hlegal with hrank hbatching hsize hmap
  rw [not_or, not_not, not_not] at hbatching
  refine ⟨(not_not.mp hmap).symm, hbatching.1, fun hm hone => hrank ⟨hm, hone⟩, fun d hd => ?_⟩
  exact getD_of_checkSliceSizes hvalid.sliceSizes_le.length_eq hlegal hd

end Legality

/-! ## What the emitted operations are -/

namespace GatherOp

section Emits

variable (op : GatherOp)

/-- The order of the dimensions of the operand, of the start indices and of the result. -/
def inputPermutation : List ℕ := op.startIndexMap ++ otherDims op.input.length op.startIndexMap

def startIndicesPermutation : List ℕ :=
  ((List.range op.startIndices.length).filter fun d => d ≠ op.indexVectorDim)
    ++ [op.indexVectorDim]

def outputPermutation : List ℕ := otherDims op.output.length op.offsetDims ++ op.offsetDims

/-- The operations that combine the components of the index vectors. -/
def transform : Option Transform :=
  if 1 < op.startIndexMap.length then some {
    startIndicesPermute := ⟨op.startIndices, op.startIndicesPermutation.map fun n : ℕ => (n : ℤ),
      op.batchShape ++ [op.startIndexMap.length]⟩
    strides := (stridesFrom op.indexedExtents).1
    matmul := ⟨op.batchShape ++ [op.startIndexMap.length], [op.startIndexMap.length, 1], false,
      false, op.batchShape ++ [1]⟩ }
  else none

/-- The shape of the rows, and their shape in the embedding. -/
def rowsShape : List ℕ :=
  if 1 < op.startIndexMap.length then op.batchShape ++ [1] else op.startIndices

def lookupShape : List ℕ := if 3 ≤ op.rowsShape.length then [op.rowsShape.prod] else op.rowsShape

/-- The emitted operations, once the permutations fit. -/
def emitted : Emitted where
  inputPermute := ⟨op.input, op.inputPermutation.map fun n : ℕ => (n : ℤ),
    gather op.inputPermutation op.input⟩
  inputReshape := createReshapeOp (gather op.inputPermutation op.input)
    [op.indexedExtents.prod, op.offsetExtents.prod]
  transform := op.transform
  startIndicesReshape :=
    if 3 ≤ op.rowsShape.length then some (createReshapeOp op.rowsShape [op.rowsShape.prod])
    else none
  embedding := ⟨op.lookupShape, [op.indexedExtents.prod, op.offsetExtents.prod],
    op.lookupShape ++ [op.offsetExtents.prod]⟩
  outputReshape := createReshapeOp (op.lookupShape ++ [op.offsetExtents.prod])
    (gather op.outputPermutation op.output)
  outputPermute := ⟨gather op.outputPermutation op.output,
    (inverse op.outputPermutation).map fun n : ℕ => (n : ℤ), op.output⟩

end Emits

variable {op : GatherOp}

theorem Valid.inputPermutation (hvalid : op.Valid) :
    IsPermutation op.input.length op.inputPermutation :=
  isPermutation_append_otherDims hvalid.startIndexMap_nodup hvalid.startIndexMap_lt

theorem Valid.outputPermutation (hvalid : op.Valid) :
    IsPermutation op.output.length op.outputPermutation :=
  List.perm_append_comm.trans (isPermutation_append_otherDims
    (hvalid.offsetDims_sorted.imp fun hlt => hlt.ne) hvalid.offsetDims_lt)

theorem gather_inputPermutation :
    gather op.inputPermutation op.input = op.indexedExtents ++ op.offsetExtents :=
  List.map_append

@[simp] theorem length_indexedExtents : op.indexedExtents.length = op.startIndexMap.length :=
  length_gather _ _

theorem Valid.gather_offsetDims (hvalid : op.Valid) (hlegal : op.checkBasicLegality = .ok ()) :
    gather op.offsetDims op.output = op.offsetExtents := by
  obtain ⟨hcollapsed, hbatching, -, hslices⟩ := of_checkBasicLegality hvalid hlegal
  have hoffset := hvalid.offset
  rw [hcollapsed, hbatching, List.append_nil] at hoffset
  rw [hoffset]
  apply List.map_congr_left
  intro d hd
  exact hslices d (mem_otherDims.mp hd).2

theorem Valid.gather_outputPermutation (hvalid : op.Valid)
    (hlegal : op.checkBasicLegality = .ok ()) :
    gather op.outputPermutation op.output = op.batchShape ++ op.offsetExtents := by
  rw [GatherOp.outputPermutation, gather, List.map_append]
  exact congrArg₂ (· ++ ·) hvalid.batch (hvalid.gather_offsetDims hlegal)

section

variable (hvalid : op.Valid) (hm : op.startIndexMap.length ≠ 1)

include hvalid hm

theorem Valid.indexVectorDim_lt : op.indexVectorDim < op.startIndices.length ∧
      op.startIndices.getD op.indexVectorDim 0 = op.startIndexMap.length := by
  have hlength := hvalid.startIndexMap_length
  by_cases hlt : op.indexVectorDim < op.startIndices.length
  · rw [if_pos hlt] at hlength
    exact ⟨hlt, hlength.symm⟩
  · rw [if_neg hlt] at hlength
    exact absurd hlength hm

theorem Valid.gather_startIndicesPermutation : gather op.startIndicesPermutation op.startIndices
      = op.batchShape ++ [op.startIndexMap.length] := by
  have hcomponent := (hvalid.indexVectorDim_lt hm).2
  rw [GatherOp.startIndicesPermutation, gather, List.map_append, List.map_singleton]
  exact congrArg₂ (fun b n => b ++ [n]) (gather_filter_ne _ _) hcomponent

theorem Valid.startIndicesPermutation :
    IsPermutation op.startIndices.length op.startIndicesPermutation :=
  (gather_inverse_filter_ne (b := List.replicate (op.startIndices.length - 1) 0)
    (hvalid.indexVectorDim_lt hm).1
    (by
      have := (hvalid.indexVectorDim_lt hm).1
      rw [List.length_replicate]
      omega) 0).1

end

theorem createPermuteOp_eq {input p : List ℕ} (hp : IsPermutation input.length p) :
    createPermuteOp input p = .ok ⟨input, p.map fun n : ℕ => (n : ℤ), gather p input⟩ := by
  rw [createPermuteOp, applyPermutation_natCast hp]
  rfl

/-- **The emitted operations**; the permutations always fit. -/
theorem Valid.matchAndRewrite_eq (hvalid : op.Valid) (hlegal : op.checkBasicLegality = .ok ()) :
    op.matchAndRewrite = .ok op.emitted := by
  have hinput : createPermuteOp op.input
      (op.startIndexMap ++ otherDims op.input.length op.startIndexMap)
      = .ok ⟨op.input, op.inputPermutation.map fun n : ℕ => (n : ℤ),
        gather op.inputPermutation op.input⟩ := createPermuteOp_eq hvalid.inputPermutation
  have htake : (gather op.inputPermutation op.input).take op.startIndexMap.length
      = op.indexedExtents := by
    rw [gather_inputPermutation, ← length_indexedExtents, List.take_left]
  have hdrop : (gather op.inputPermutation op.input).drop op.startIndexMap.length
      = op.offsetExtents := by
    rw [gather_inputPermutation, ← length_indexedExtents, List.drop_left]
  have hreshape : reshapeInput (gather op.inputPermutation op.input) op.startIndexMap.length
      = createReshapeOp (gather op.inputPermutation op.input)
        [op.indexedExtents.prod, op.offsetExtents.prod] := by
    rw [reshapeInput, htake, hdrop]
  have htransform : 1 < op.startIndexMap.length → ∃ t, op.transform = some t ∧
      op.transformStartIndices (gather op.inputPermutation op.input) = .ok t := by
    intro hm
    have hpermute : createPermuteOp op.startIndices op.startIndicesPermutation = _ :=
      createPermuteOp_eq (hvalid.startIndicesPermutation hm.ne')
    have hset : (op.batchShape ++ [op.startIndexMap.length]).set
        ((op.batchShape ++ [op.startIndexMap.length]).length - 1) 1 = op.batchShape ++ [1] := by
      rw [List.length_append, List.length_singleton, Nat.add_sub_cancel,
        List.set_append_right _ _ le_rfl, Nat.sub_self]
      rfl
    rw [hvalid.gather_startIndicesPermutation hm.ne'] at hpermute
    refine ⟨_, if_pos hm, ?_⟩
    rw [transformStartIndices]
    show (createPermuteOp op.startIndices op.startIndicesPermutation >>= _) = _
    rw [hpermute]
    show Except.ok (Transform.mk _ (stridesFrom (List.take _ _)).1
      (MatmulOp.mk _ _ _ _ (List.set _ _ 1))) = _
    rw [hset, htake]
  have hrows : (op.transform.map fun t => t.matmul.output).getD op.startIndices = op.rowsShape := by
    rw [transform, rowsShape]
    split_ifs <;> rfl
  have hlookup : ((if 3 ≤ op.rowsShape.length then
      some (createReshapeOp op.rowsShape [op.rowsShape.prod]) else none).map
        fun r => r.output).getD op.rowsShape = op.lookupShape := by
    rw [lookupShape]
    split_ifs <;> rfl
  have hsorted := skipOffsetDims_range' hvalid.offsetDims_sorted op.output.length
    (i := 0) fun d _ => Nat.zero_le d
  rw [← List.range_eq_range'] at hsorted
  have houtput : ∀ output, op.reshapeAndPermuteOutput output
      = .ok (createReshapeOp output (gather op.outputPermutation op.output),
        ⟨gather op.outputPermutation op.output,
          (inverse op.outputPermutation).map fun n : ℕ => (n : ℤ), op.output⟩) := by
    intro output
    have hperm : applyPermutation op.output
        ((skipOffsetDims op.offsetDims (List.range op.output.length)
          ++ op.offsetDims).map fun n : ℕ => (n : ℤ))
        = .ok (gather op.outputPermutation op.output) := by
      rw [hsorted]
      exact applyPermutation_natCast hvalid.outputPermutation
    rw [reshapeAndPermuteOutput]
    show (applyPermutation op.output _ >>= _) = _
    rw [hperm, hsorted]
    rfl
  rw [matchAndRewrite, hlegal]
  show (createPermuteOp op.input _ >>= _) = _
  rw [hinput]
  show ite _ _ _ = _
  rw [hreshape]
  by_cases hm : 1 < op.startIndexMap.length
  · obtain ⟨t, ht, ht'⟩ := htransform hm
    rw [if_pos hm]
    show ((some <$> op.transformStartIndices (gather op.inputPermutation op.input)) >>= _) = _
    rw [ht', emitted, ← hlookup, ← hrows, ht]
    show (op.reshapeAndPermuteOutput _ >>= _) = _
    rw [houtput]
    rfl
  · have ht : op.transform = none := if_neg hm
    rw [if_neg hm, emitted, ← hlookup, ← hrows, ht]
    show (op.reshapeAndPermuteOutput _ >>= _) = _
    rw [houtput]
    rfl

end GatherOp

/-! ## When the emitted operations verify -/

namespace GatherOp

theorem verify_createReshapeOp_iff {input target : List ℕ} :
    (createReshapeOp input target).verify = .ok () ↔
      input.prod = target.prod ∧ AcceptsShape target := by
  by_cases hprod : input.prod = target.prod
  · have hiff : (createReshapeOp input target).verify = .ok () ↔ AcceptsShape target :=
      verify_createMatmulFinal hprod
    rw [hiff]
    exact (and_iff_right hprod).symm
  · refine ⟨fun h => ?_, fun h => absurd h.1 hprod⟩
    rw [createReshapeOp, ReshapeOp.verify] at h
    split_ifs at h

variable {op : GatherOp}

theorem prod_startIndices (hlt : op.indexVectorDim < op.startIndices.length) :
    op.startIndices.prod = op.startIndices.getD op.indexVectorDim 0 * op.batchShape.prod := by
  rw [List.getD_eq_getElem _ 0 hlt, ← List.prod_cons]
  exact ((List.getElem_cons_eraseIdx_perm hlt).prod_eq).symm

theorem Valid.prod_rowsShape (hvalid : op.Valid) (hindexed : op.startIndexMap ≠ []) :
    op.rowsShape.prod = op.batchShape.prod := by
  have hpos : 0 < op.startIndexMap.length := List.length_pos_iff.mpr hindexed
  rw [rowsShape]
  split_ifs with hm
  · rw [List.prod_append, List.prod_singleton, Nat.mul_one]
  · have hone : op.startIndexMap.length = 1 := by omega
    have hlength := hvalid.startIndexMap_length
    by_cases hlt : op.indexVectorDim < op.startIndices.length
    · rw [if_pos hlt, hone] at hlength
      rw [prod_startIndices hlt, ← hlength, Nat.one_mul]
    · rw [batchShape, List.eraseIdx_of_length_le (by omega)]

theorem prod_lookupShape : op.lookupShape.prod = op.rowsShape.prod := by
  rw [lookupShape]
  split_ifs
  · exact List.prod_singleton
  · rfl

theorem length_lookupShape_le : op.lookupShape.length ≤ 2 := by
  rw [lookupShape]
  split_ifs
  · exact Nat.le_succ 1
  · omega

theorem Valid.length_rowsShape (hvalid : op.Valid) :
    op.rowsShape.length = op.startIndices.length := by
  rw [rowsShape]
  split_ifs with hm
  · have hlt := (hvalid.indexVectorDim_lt hm.ne').1
    rw [List.length_append, List.length_singleton, batchShape, List.length_eraseIdx_of_lt hlt]
    omega
  · rfl

/-- The operations on the start indices always verify. -/
theorem Valid.verify_transform (hvalid : op.Valid) (hlegal : op.checkBasicLegality = .ok ()) :
    ∀ t, op.transform = some t →
      t.startIndicesPermute.verify = .ok () ∧ t.matmul.verify = .ok () := by
  intro t ht
  rw [transform] at ht
  split_ifs at ht with hm
  obtain rfl := Option.some.inj ht
  have hgather := hvalid.gather_startIndicesPermutation hm.ne'
  have hrank := (of_checkBasicLegality hvalid hlegal).2.2.1 hm
  have hlt := (hvalid.indexVectorDim_lt hm.ne').1
  refine ⟨?_, ?_⟩
  · have hverify := PermuteOp.verify_gather (hvalid.startIndicesPermutation hm.ne')
    rw [hgather] at hverify
    exact hverify
  · have hne : op.batchShape ≠ [] := by
      rw [← List.length_pos_iff, batchShape, List.length_eraseIdx_of_lt hlt]
      omega
    have hverify := verify_matmul (broadcastedShape_nil_right op.batchShape.dropLast)
      (op.batchShape.getLast hne) op.startIndexMap.length 1
    have happend : ∀ n : ℕ, op.batchShape.dropLast ++ [op.batchShape.getLast hne, n]
        = op.batchShape ++ [n] := by
      intro n
      nth_rewrite 3 [← List.dropLast_append_getLast hne]
      rw [List.append_assoc]
      rfl
    rw [happend, happend] at hverify
    exact hverify

theorem verify_embedding (shape : List ℕ) (hshape : shape.length ≤ 2) (rows columns : ℕ) :
    (EmbeddingOp.mk shape [rows, columns] (shape ++ [columns])).verify = .ok () := by
  rw [EmbeddingOp.verify, if_neg (not_lt.mpr hshape), if_neg (by simp), if_neg (by simp),
    if_neg (by simp)]

/-- **When the emitted operations verify**: some dimension is indexed, and the shapes of the
reshapes are accepted. -/
theorem Valid.verified_iff (hvalid : op.Valid) (hlegal : op.checkBasicLegality = .ok ()) :
    op.emitted.Verified ↔ op.startIndexMap ≠ [] ∧
      AcceptsShape [op.indexedExtents.prod, op.offsetExtents.prod] ∧
      (3 ≤ op.startIndices.length → AcceptsShape [op.batchShape.prod]) ∧
      AcceptsShape (op.batchShape ++ op.offsetExtents) := by
  have hshape := hvalid.gather_outputPermutation hlegal
  have htable : (gather op.inputPermutation op.input).prod
      = ([op.indexedExtents.prod, op.offsetExtents.prod] : List ℕ).prod := by
    rw [gather_inputPermutation, List.prod_append, List.prod_cons, List.prod_singleton]
  have houtput : (op.lookupShape ++ [op.offsetExtents.prod]).prod
      = op.rowsShape.prod * op.offsetExtents.prod := by
    rw [List.prod_append, List.prod_singleton, prod_lookupShape]
  constructor
  · intro h
    obtain ⟨hvolume, haccepts⟩ := verify_createReshapeOp_iff.mp h.outputReshape
    rw [hshape] at haccepts
    have hindexed : op.startIndexMap ≠ [] := by
      -- without an index there is no row, and the result has elements
      intro hnil
      have hzero : op.startIndexMap.length = 0 := by rw [hnil]; rfl
      have hdim := hvalid.indexVectorDim_lt (by omega)
      have hrows : op.rowsShape = op.startIndices := if_neg (by omega)
      rw [houtput, hshape, hrows, prod_startIndices hdim.1, hdim.2, hzero, Nat.zero_mul,
        Nat.zero_mul] at hvolume
      have := prod_pos_of_forall_pos haccepts.pos
      omega
    refine ⟨hindexed, (verify_createReshapeOp_iff.mp h.inputReshape).2, fun hrank => ?_, haccepts⟩
    have hreshape := h.startIndicesReshape (createReshapeOp op.rowsShape [op.rowsShape.prod])
      (if_pos (by rwa [hvalid.length_rowsShape]))
    rw [hvalid.prod_rowsShape hindexed] at hreshape
    exact (verify_createReshapeOp_iff.mp hreshape).2
  · rintro ⟨hindexed, htableShape, hrowsShape, houtputShape⟩
    exact {
      inputPermute := PermuteOp.verify_gather hvalid.inputPermutation
      inputReshape := verify_createReshapeOp_iff.mpr ⟨htable, htableShape⟩
      transform := hvalid.verify_transform hlegal
      startIndicesReshape := by
        intro r hr
        have hrank : 3 ≤ op.rowsShape.length := by
          by_contra hrank
          exact nomatch (if_neg hrank).symm.trans hr
        obtain rfl := Option.some.inj ((if_pos hrank).symm.trans hr)
        rw [hvalid.length_rowsShape] at hrank
        apply verify_createReshapeOp_iff.mpr
        rw [List.prod_singleton, hvalid.prod_rowsShape hindexed]
        exact ⟨rfl, hrowsShape hrank⟩
      embedding := verify_embedding _ length_lookupShape_le _ _
      outputReshape := by
        apply verify_createReshapeOp_iff.mpr
        rw [houtput, hvalid.prod_rowsShape hindexed, hshape, List.prod_append]
        exact ⟨rfl, houtputShape⟩
      outputPermute := by
        have hlen : (gather op.outputPermutation op.output).length = op.output.length := by
          rw [length_gather, hvalid.outputPermutation.length_eq]
        have hperm : IsPermutation (gather op.outputPermutation op.output).length
            (inverse op.outputPermutation) := by
          rw [hlen]
          exact hvalid.outputPermutation.inverse
        have hverify := PermuteOp.verify_gather hperm
        rw [hvalid.outputPermutation.gather_inverse_gather rfl] at hverify
        exact hverify }

end GatherOp

/-! ## What they compute -/

section Positions

/-- A position behind an outer one. -/
theorem unravel_append_add {inner f : List ℕ} (hf : InShape f inner) (outer : List ℕ) {k : ℕ}
    (hk : outer = [] → k = 0) :
    unravel (outer ++ inner) (k * inner.prod + rowMajor inner f) = unravel outer k ++ f := by
  induction outer generalizing k with
  | nil =>
    rw [hk rfl, Nat.zero_mul, Nat.zero_add, List.nil_append, unravel_rowMajor hf]
    rfl
  | cons n outer ih =>
    have hlt := rowMajor_lt hf
    have hpos : 0 < inner.prod := prod_pos_of_inShape hf
    have hprod : (outer ++ inner).prod = inner.prod * outer.prod := by
      rw [List.prod_append, Nat.mul_comm]
    have hdiv : (k * inner.prod + rowMajor inner f) / inner.prod = k := by
      rw [Nat.add_comm, Nat.add_mul_div_right _ _ hpos, Nat.div_eq_of_lt hlt, Nat.zero_add]
    have hmod : (k * inner.prod + rowMajor inner f) % inner.prod = rowMajor inner f := by
      rw [Nat.add_comm, Nat.add_mul_mod_self_right, Nat.mod_eq_of_lt hlt]
    rw [List.cons_append, unravel, hprod, ← Nat.div_div_eq_div_mul, hdiv, Nat.mod_mul, hdiv,
      hmod, Nat.add_comm, Nat.mul_comm inner.prod, ih, unravel]
    · rfl
    · intro hnil
      rw [hnil, List.prod_nil, Nat.mod_one]

theorem unravel_injective {n : ℕ} {shape : List ℕ} (hpos : ∀ m ∈ shape, 0 < m) {k l : ℕ}
    (h : unravel (n :: shape) k = unravel (n :: shape) l) : k = l := by
  have hprod := prod_pos_of_forall_pos hpos
  rw [unravel, unravel] at h
  obtain ⟨hdiv, hrest⟩ := List.cons.inj h
  have hmod : k % shape.prod = l % shape.prod := by
    have heq := congrArg (rowMajor shape) hrest
    rwa [rowMajor_unravel _ _ (Nat.mod_lt _ hprod), rowMajor_unravel _ _ (Nat.mod_lt _ hprod)]
      at heq
  rw [← Nat.div_add_mod k shape.prod, hdiv, hmod, Nat.div_add_mod]

end Positions

namespace GatherOp

section Values

variable (op : GatherOp)

/-- The index vector of a batch index. -/
def indexVector (startIndices : Tensor ℕ) (b : List ℕ) : List ℕ :=
  (List.range op.startIndexMap.length).map fun k => startIndices.elem (op.startIndexAt b k)

/-- The row that is looked up for a batch index. -/
def row (startIndices : Tensor ℕ) (b : List ℕ) : ℤ :=
  if 1 < op.startIndexMap.length then
    matmulF32 ((op.indexVector startIndices b).map fun k : ℕ => f32 k)
      (stridesFrom op.indexedExtents).1
  else startIndices.elem (op.startIndexAt b 0)

/-- Where the row of a batch index stands. -/
def rowsIndex (b : List ℕ) : List ℕ :=
  if 1 < op.startIndexMap.length then b ++ [0] else op.startIndexAt b 0

/-- The start indices after their transformation, and in the shape of the embedding. -/
def transformed (startIndices : Tensor ℕ) : Tensor ℤ :=
  match op.transform with
  | none => startIndices.map fun i : ℕ => (i : ℤ)
  | some t => t.apply startIndices

def rows (startIndices : Tensor ℕ) : Tensor ℤ :=
  if 3 ≤ op.rowsShape.length then (op.transformed startIndices).reshape [op.rowsShape.prod]
  else op.transformed startIndices

end Values

variable {op : GatherOp} {α : Type} {x : Tensor α} {startIndices : Tensor ℕ}

theorem shape_transformed (hstart : startIndices.shape = op.startIndices) :
    (op.transformed startIndices).shape = op.rowsShape := by
  rw [transformed, rowsShape, transform]
  split_ifs
  · rfl
  · exact hstart

theorem shape_rows (hstart : startIndices.shape = op.startIndices) :
    (op.rows startIndices).shape = op.lookupShape := by
  rw [rows, lookupShape]
  split_ifs
  · rfl
  · exact shape_transformed hstart

theorem Transform.elem_apply (t : Transform) (b : List ℕ) :
    (t.apply startIndices).elem (b ++ [0]) = matmulF32 ((List.range t.strides.length).map fun k =>
      f32 ((startIndices.permute (t.startIndicesPermute.permutation.map Int.toNat)).elem
        (b ++ [k]))) t.strides := by
  simp only [Transform.apply, List.dropLast_concat]

/-- The transformed start indices hold the rows. -/
theorem Valid.elem_transformed (hvalid : op.Valid) (hb : InShape b op.batchShape) :
    (op.transformed startIndices).elem (op.rowsIndex b) = op.row startIndices b := by
  rw [transformed, rowsIndex, row, transform]
  split_ifs with hm
  · have hlt := (hvalid.indexVectorDim_lt hm.ne').1
    have hlen : b.length + 1 = op.startIndices.length := by
      rw [hb.length_eq, batchShape, List.length_eraseIdx_of_lt hlt]
      omega
    simp only [Transform.elem_apply, map_toNat_map_natCast, length_stridesFrom,
      length_indexedExtents]
    rw [indexVector, List.map_map]
    congr 1
    apply List.map_congr_left
    intro k _
    have hplace : gather (inverse op.startIndicesPermutation) (b ++ [k]) = op.startIndexAt b k := by
      rw [startIndexAt, if_pos hlt]
      exact (gather_inverse_filter_ne hlt hlen k).2
    exact congrArg (fun i : List ℕ => f32 (startIndices.elem i)) hplace
  · rfl

/-- The row of a batch index stands where the batch index does. -/
theorem Valid.rowMajor_rowsIndex (hvalid : op.Valid) (hindexed : op.startIndexMap ≠ [])
    (hb : InShape b op.batchShape) :
    InShape (op.rowsIndex b) op.rowsShape ∧
      rowMajor op.rowsShape (op.rowsIndex b) = rowMajor op.batchShape b := by
  have hpos : 0 < op.startIndexMap.length := List.length_pos_iff.mpr hindexed
  rw [rowsIndex, rowsShape]
  split_ifs with hm
  · refine ⟨inShape_append_iff.mpr ⟨b, [0], rfl, hb, .cons Nat.one_pos .nil⟩, ?_⟩
    rw [rowMajor_append [1] [0] hb.length_eq]
    simp
  · have hone : op.startIndexMap.length = 1 := by omega
    have hlength := hvalid.startIndexMap_length
    rw [startIndexAt]
    by_cases hlt : op.indexVectorDim < op.startIndices.length
    · rw [if_pos hlt, hone] at hlength
      have hlen : b.length + 1 = op.startIndices.length := by
        rw [hb.length_eq, batchShape, List.length_eraseIdx_of_lt hlt]
        omega
      rw [if_pos hlt]
      exact ⟨inShape_insertIdx hlt (by omega) hb, rowMajor_insertIdx hlt hlength.symm hlen⟩
    · have hbatch : op.batchShape = op.startIndices := List.eraseIdx_of_length_le (by omega)
      rw [if_neg hlt, ← hbatch]
      exact ⟨hb, rfl⟩

/-- **The rows that are looked up.** -/
theorem Valid.exists_elem_rows (hvalid : op.Valid) (hindexed : op.startIndexMap ≠ [])
    (hstart : startIndices.shape = op.startIndices) (hb : InShape b op.batchShape) :
    ∃ s, InShape s op.lookupShape ∧ rowMajor op.lookupShape s = rowMajor op.batchShape b ∧
      (op.rows startIndices).elem s = op.row startIndices b := by
  obtain ⟨hrow, hoffset⟩ := hvalid.rowMajor_rowsIndex hindexed hb
  rw [rows, lookupShape]
  split_ifs
  · refine ⟨[rowMajor op.rowsShape (op.rowsIndex b)], .cons (rowMajor_lt hrow) .nil, ?_, ?_⟩
    · rw [hoffset]
      simp
    · show (op.transformed startIndices).elem (unravel (op.transformed startIndices).shape
        (rowMajor [op.rowsShape.prod] [rowMajor op.rowsShape (op.rowsIndex b)])) = _
      have hposition : rowMajor [op.rowsShape.prod] [rowMajor op.rowsShape (op.rowsIndex b)]
          = rowMajor op.rowsShape (op.rowsIndex b) := by simp
      rw [shape_transformed hstart, hposition, unravel_rowMajor hrow]
      exact hvalid.elem_transformed hb
  · exact ⟨op.rowsIndex b, hrow, hoffset, hvalid.elem_transformed hb⟩

/-- What the emitted operations compute, over the rows. -/
theorem apply_emitted : op.emitted.apply x startIndices
      = ((Tensor.embedding (op.rows startIndices) ((x.permute op.inputPermutation).reshape
          [op.indexedExtents.prod, op.offsetExtents.prod])).reshape
            (gather op.outputPermutation op.output)).permute (inverse op.outputPermutation) := by
  have hrows : (match op.emitted.startIndicesReshape with
      | none => op.transformed startIndices
      | some r => (op.transformed startIndices).reshape r.output) = op.rows startIndices := by
    rw [rows, emitted]
    by_cases hrank : 3 ≤ op.rowsShape.length
    · simp only [if_pos hrank]
      rfl
    · simp only [if_neg hrank]
  show ((Tensor.embedding (match op.emitted.startIndicesReshape with
      | none => op.transformed startIndices
      | some r => (op.transformed startIndices).reshape r.output)
    ((x.permute ((op.inputPermutation.map fun n : ℕ => (n : ℤ)).map Int.toNat)).reshape _)).reshape
      _).permute (((inverse op.outputPermutation).map fun n : ℕ => (n : ℤ)).map Int.toNat) = _
  rw [hrows, map_toNat_map_natCast, map_toNat_map_natCast]
  rfl

end GatherOp

/-! ## The selected elements -/

namespace GatherOp

variable {op : GatherOp} {α : Type} {x : Tensor α} {startIndices : Tensor ℕ}

section

variable (hvalid : op.Valid) (hlegal : op.checkBasicLegality = .ok ())

include hvalid hlegal

/-- A result index is an index of the batch and an offset. -/
theorem Valid.inShape_gather {o : List ℕ} (ho : InShape o op.output) :
    InShape (gather (otherDims op.output.length op.offsetDims) o) op.batchShape ∧
      InShape (gather op.offsetDims o) op.offsetExtents := by
  have hlen : o.length = op.output.length := ho.length_eq
  constructor
  · rw [← hvalid.batch]
    apply forall₂_gather ho
    intro d hd
    rw [hlen]
    exact (mem_otherDims.mp hd).1
  · rw [← hvalid.gather_offsetDims hlegal]
    apply forall₂_gather ho
    intro d hd
    rw [hlen]
    exact hvalid.offsetDims_lt d hd

/-- **An element of the result**: the operand at the position of the row, and at the offset. -/
theorem Valid.elem_apply_emitted (hindexed : op.startIndexMap ≠ []) (hx : x.shape = op.input)
    (hstart : startIndices.shape = op.startIndices) {o : List ℕ} (ho : InShape o op.output) :
    (op.emitted.apply x startIndices).elem o = x.elem (gather (inverse op.inputPermutation)
      (unravel op.indexedExtents (op.row startIndices
          (gather (otherDims op.output.length op.offsetDims) o)).toNat
        ++ gather op.offsetDims o)) := by
  obtain ⟨hb, hf⟩ := hvalid.inShape_gather hlegal ho
  generalize hbdef : gather (otherDims op.output.length op.offsetDims) o = b at hb ⊢
  generalize hfdef : gather op.offsetDims o = f at hf ⊢
  obtain ⟨s, hs, hposition, hrow⟩ := hvalid.exists_elem_rows hindexed hstart hb
  have hsplit : gather op.outputPermutation o = b ++ f := by
    rw [← hbdef, ← hfdef]
    exact List.map_append
  have hnonempty : op.indexedExtents = [] → (op.row startIndices b).toNat = 0 := by
    intro hnil
    have hlen : op.indexedExtents.length = op.startIndexMap.length := length_indexedExtents
    rw [hnil] at hlen
    exact absurd (List.length_eq_zero_iff.mp hlen.symm) hindexed
  -- the position in the result of the embedding
  have hlookup : unravel (op.lookupShape ++ [op.offsetExtents.prod])
      (rowMajor (op.batchShape ++ op.offsetExtents) (b ++ f))
      = s ++ [rowMajor op.offsetExtents f] := by
    have hflat : rowMajor (op.lookupShape ++ [op.offsetExtents.prod])
        (s ++ [rowMajor op.offsetExtents f])
        = rowMajor (op.batchShape ++ op.offsetExtents) (b ++ f) := by
      rw [rowMajor_append _ _ hs.length_eq, rowMajor_append _ _ hb.length_eq, hposition]
      simp
    rw [← hflat]
    exact unravel_rowMajor (inShape_append_iff.mpr ⟨s, [_], rfl, hs, .cons (rowMajor_lt hf) .nil⟩)
  -- the position in the operand
  have htable : ∀ k : ℕ, (op.indexedExtents = [] → k = 0) → ((x.permute op.inputPermutation).reshape
        [op.indexedExtents.prod, op.offsetExtents.prod]).elem [k, rowMajor op.offsetExtents f]
        = x.elem (gather (inverse op.inputPermutation) (unravel op.indexedExtents k ++ f)) := by
    intro k hk
    have hshape : (x.permute op.inputPermutation).shape
        = op.indexedExtents ++ op.offsetExtents := by
      rw [← gather_inputPermutation, ← hx]
      rfl
    have hflat : rowMajor [op.indexedExtents.prod, op.offsetExtents.prod]
        [k, rowMajor op.offsetExtents f]
        = k * op.offsetExtents.prod + rowMajor op.offsetExtents f := by
      simp
    show x.elem (gather (inverse op.inputPermutation)
      (unravel (x.permute op.inputPermutation).shape (rowMajor _ _))) = _
    rw [hshape, hflat, unravel_append_add hf _ hk]
  have hresult : gather (inverse (inverse op.outputPermutation)) o = b ++ f := by
    rw [hvalid.outputPermutation.gather_inverse_inverse ho.length_eq, hsplit]
  rw [apply_emitted]
  show (Tensor.embedding (op.rows startIndices) ((x.permute op.inputPermutation).reshape
      [op.indexedExtents.prod, op.offsetExtents.prod])).elem
    (unravel ((op.rows startIndices).shape ++ [op.offsetExtents.prod])
      (rowMajor (gather op.outputPermutation op.output)
        (gather (inverse (inverse op.outputPermutation)) o))) = _
  rw [hresult, hvalid.gather_outputPermutation hlegal, shape_rows hstart, hlookup, Tensor.embedding]
  simp only [List.dropLast_concat, hrow]
  have hlast : (s ++ [rowMajor op.offsetExtents f]).getD
      ((s ++ [rowMajor op.offsetExtents f]).length - 1) 0 = rowMajor op.offsetExtents f := by
    rw [List.length_append, List.length_singleton, Nat.add_sub_cancel,
      List.getD_append_right _ _ _ _ le_rfl, Nat.sub_self]
    rfl
  rw [hlast]
  exact htable _ hnonempty

/-- What the gather selects. -/
theorem Valid.operandIndex_eq (o : List ℕ) :
    op.operandIndex startIndices o = gather (inverse op.inputPermutation)
      (op.indexVector startIndices (gather (otherDims op.output.length op.offsetDims) o)
        ++ gather op.offsetDims o) := by
  have hlen : (op.indexVector startIndices (gather (otherDims op.output.length op.offsetDims) o)
      ).length = op.startIndexMap.length := by
    rw [indexVector, List.length_map, List.length_range]
  rw [operandIndex, (of_checkBasicLegality hvalid hlegal).1, GatherOp.inputPermutation,
    gather_inverse_append hvalid.startIndexMap_nodup hvalid.startIndexMap_lt hlen]
  apply List.map_congr_left
  intro d _
  congr 1
  split_ifs with hd
  · have hidx := List.idxOf_lt_length_of_mem hd
    rw [indexVector, List.getD_eq_getElem _ _ (by simpa using hidx)]
    simp
  · rfl

end

theorem InRange.inShape_indexVector (hrange : op.InRange startIndices)
    (hb : InShape b op.batchShape) : InShape (op.indexVector startIndices b) op.indexedExtents := by
  rw [InShape, List.forall₂_iff_get]
  have hlen : (op.indexVector startIndices b).length = op.indexedExtents.length := by
    rw [indexVector, List.length_map, List.length_range, length_indexedExtents]
  refine ⟨hlen, fun k hk hk' => ?_⟩
  have hk'' : k < op.startIndexMap.length := by rwa [length_indexedExtents] at hk'
  have hlt := hrange b hb k hk''
  rw [List.getD_eq_getElem _ _ hk''] at hlt
  simpa [indexVector, indexedExtents, gather] using hlt

/-- **The row that is looked up**, where every row is held. -/
theorem row_eq_rowMajor (hindexed : op.startIndexMap ≠ [])
    (hexact : 1 < op.startIndexMap.length → op.indexedExtents.prod ≤ 2 ^ 24 + 1)
    (hi : InShape (op.indexVector startIndices b) op.indexedExtents) :
    (op.row startIndices b).toNat = rowMajor op.indexedExtents (op.indexVector startIndices b) := by
  rw [row]
  split_ifs with hm
  · rw [matmulF32_strides hi (hexact hm), Int.toNat_natCast]
  · have hone : op.startIndexMap.length = 1 := by
      have := List.length_pos_iff.mpr hindexed
      omega
    have hvector : op.indexVector startIndices b = [startIndices.elem (op.startIndexAt b 0)] := by
      rw [indexVector, hone]
      rfl
    obtain ⟨n, hn⟩ := List.length_eq_one_iff.mp (length_indexedExtents.trans hone)
    rw [hvector, hn, Int.toNat_natCast]
    simp

/-- **The lowering keeps the values**, where every row is held. -/
theorem Valid.agree_compute (hvalid : op.Valid) (hlegal : op.checkBasicLegality = .ok ())
    (hindexed : op.startIndexMap ≠ [])
    (hexact : 1 < op.startIndexMap.length → op.indexedExtents.prod ≤ 2 ^ 24 + 1)
    (hx : x.shape = op.input) (hstart : startIndices.shape = op.startIndices)
    (hrange : op.InRange startIndices) :
    (op.compute x startIndices).Agree (op.emitted.apply x startIndices) := by
  refine ⟨?_, fun o ho => ?_⟩
  · rw [apply_emitted]
    exact (hvalid.outputPermutation.gather_inverse_gather rfl).symm
  · have hb := (hvalid.inShape_gather hlegal ho).1
    have hi := hrange.inShape_indexVector hb
    rw [hvalid.elem_apply_emitted hlegal hindexed hx hstart ho,
      row_eq_rowMajor hindexed hexact hi, unravel_rowMajor hi,
      ← hvalid.operandIndex_eq hlegal]
    rfl

end GatherOp

/-! ## When the values are preserved -/

namespace GatherOp

variable {op : GatherOp}

theorem Valid.gather_startIndexMap (hvalid : op.Valid) {i f : List ℕ}
    (hi : i.length = op.startIndexMap.length) (hf : f.length = op.offsetExtents.length) :
    gather op.startIndexMap (gather (inverse op.inputPermutation) (i ++ f)) = i := by
  have hlen : (i ++ f).length = op.input.length := by
    rw [← hvalid.inputPermutation.length_eq, GatherOp.inputPermutation, List.length_append,
      List.length_append, hi, hf, offsetExtents, length_gather]
  have hback := hvalid.inputPermutation.gather_gather_inverse hlen
  have hsplit : ∀ j : List ℕ, gather op.inputPermutation j
      = gather op.startIndexMap j ++ gather (otherDims op.input.length op.startIndexMap) j :=
    fun j => List.map_append
  rw [hsplit] at hback
  exact (List.append_inj hback (by rw [length_gather, hi])).1

theorem Valid.exists_inShape_output (hvalid : op.Valid) (hlegal : op.checkBasicLegality = .ok ())
    (haccepts : AcceptsShape (op.batchShape ++ op.offsetExtents)) : ∃ o, InShape o op.output := by
  refine ⟨_, inShape_replicate_zero fun n hn => ?_⟩
  apply haccepts.pos
  rw [← hvalid.gather_outputPermutation hlegal]
  obtain ⟨d, hd, rfl⟩ := List.getElem_of_mem hn
  exact List.mem_map.mpr ⟨d, hvalid.outputPermutation.mem hd, List.getD_eq_getElem _ _ hd⟩

/-- The start indices with one index vector everywhere. -/
def constantIndices (op : GatherOp) (v : List ℕ) : Tensor ℕ :=
  ⟨op.startIndices, fun j => v.getD (j.getD op.indexVectorDim 0) 0⟩

section

variable (hvalid : op.Valid) (hm : op.startIndexMap.length ≠ 1)

include hvalid hm

theorem Valid.elem_constantIndices (hb : InShape b op.batchShape) (v : List ℕ) (k : ℕ) :
    (op.constantIndices v).elem (op.startIndexAt b k) = v.getD k 0 := by
  have hlt := (hvalid.indexVectorDim_lt hm).1
  have hlen : b.length + 1 = op.startIndices.length := by
    rw [hb.length_eq, batchShape, List.length_eraseIdx_of_lt hlt]
    omega
  have hread : (b.insertIdx op.indexVectorDim k).getD op.indexVectorDim 0 = k := by
    have hle : op.indexVectorDim ≤ b.length := by omega
    rw [List.getD_eq_getElem _ _ (by rw [List.length_insertIdx_of_le_length hle]; omega),
      List.getElem_insertIdx_self]
  rw [startIndexAt, if_pos hlt]
  exact congrArg (fun d => v.getD d 0) hread

theorem Valid.inRange_constantIndices
    {v : List ℕ} (hv : InShape v op.indexedExtents) : op.InRange (op.constantIndices v) := by
  intro b hb k hk
  have hk' : k < v.length := by rwa [hv.length_eq, length_indexedExtents]
  have hk'' : k < op.indexedExtents.length := by rwa [length_indexedExtents]
  have hlt := (List.forall₂_iff_get.mp hv).2 k hk' hk''
  rw [hvalid.elem_constantIndices hm hb, List.getD_eq_getElem _ _ hk',
    List.getD_eq_getElem op.startIndexMap _ hk]
  simpa [indexedExtents, gather] using hlt

theorem Valid.indexVector_constantIndices (hb : InShape b op.batchShape) {v : List ℕ}
    (hv : v.length = op.startIndexMap.length) : op.indexVector (op.constantIndices v) b = v := by
  apply List.ext_getElem
  · rw [indexVector, List.length_map, List.length_range, hv]
  · intro k hk hk'
    rw [← List.getD_eq_getElem v 0 hk', ← hvalid.elem_constantIndices hm hb v k]
    simp [indexVector]

end

/-- The row that is no floating-point number is not looked up. -/
theorem row_ne (hm : 1 < op.startIndexMap.length) (startIndices : Tensor ℕ) (b : List ℕ) :
    (op.row startIndices b).toNat ≠ 2 ^ 24 + 1 := by
  have hvector : ((op.indexVector startIndices b).map fun k : ℕ => f32 k) ≠ [] := by
    rw [← List.length_pos_iff, indexVector]
    simp only [List.length_map, List.length_range]
    omega
  have hstrides : (stridesFrom op.indexedExtents).1 ≠ [] := by
    rw [← List.length_pos_iff, length_stridesFrom, length_indexedExtents]
    omega
  have hne := matmulF32_ne hvector hstrides
  rw [row, if_pos hm]
  generalize matmulF32 _ _ = z at hne ⊢
  omega

/-- With more rows, a gather at the row that is no floating-point number selects another
element. -/
theorem Valid.not_agree (hvalid : op.Valid) (hlegal : op.checkBasicLegality = .ok ())
    (haccepts : AcceptsShape (op.batchShape ++ op.offsetExtents))
    (hm : 1 < op.startIndexMap.length) (hrows : 2 ^ 24 + 1 < op.indexedExtents.prod) :
    ∃ (x : Tensor Bool) (startIndices : Tensor ℕ), x.shape = op.input ∧
      startIndices.shape = op.startIndices ∧ op.InRange startIndices ∧
      ¬ (op.compute x startIndices).Agree (op.emitted.apply x startIndices) := by
  have hindexed : op.startIndexMap ≠ [] := List.ne_nil_of_length_pos (by omega)
  obtain ⟨first, hfirst⟩ : ∃ first : ℕ, first = 2 ^ 24 + 1 := ⟨_, rfl⟩
  rw [← hfirst] at hrows
  obtain ⟨o, ho⟩ := hvalid.exists_inShape_output hlegal haccepts
  obtain ⟨hb, hf⟩ := hvalid.inShape_gather hlegal ho
  have hv := inShape_unravel op.indexedExtents first hrows
  have hvlen : (unravel op.indexedExtents first).length = op.startIndexMap.length := by
    rw [length_unravel, length_indexedExtents]
  refine ⟨⟨op.input, fun j => gather op.startIndexMap j = unravel op.indexedExtents first⟩,
    op.constantIndices (unravel op.indexedExtents first), rfl, rfl,
    hvalid.inRange_constantIndices hm.ne' hv, fun hagree => ?_⟩
  have helem := hagree.2 o ho
  rw [hvalid.elem_apply_emitted hlegal hindexed rfl rfl ho] at helem
  have hselected : gather op.startIndexMap
      (op.operandIndex (op.constantIndices (unravel op.indexedExtents first)) o)
      = unravel op.indexedExtents first := by
    rw [hvalid.operandIndex_eq hlegal, hvalid.indexVector_constantIndices hm.ne' hb hvlen,
      hvalid.gather_startIndexMap hvlen hf.length_eq]
  -- the operand marks the row, and rows are told apart
  have hsame := of_decide_eq_true (helem.symm.trans (decide_eq_true hselected))
  rw [hvalid.gather_startIndexMap (by rw [length_unravel, length_indexedExtents]) hf.length_eq]
    at hsame
  have hpos := forall_pos_of_inShape hv
  have hne : op.indexedExtents ≠ [] := by
    rw [← List.length_pos_iff, length_indexedExtents]
    omega
  obtain ⟨n, rest, hcons⟩ := List.exists_cons_of_ne_nil hne
  rw [hcons] at hsame hpos
  have hrow := unravel_injective (fun k hk => hpos k (List.mem_cons_of_mem _ hk)) hsame
  rw [hfirst] at hrow
  exact row_ne hm _ _ hrow

theorem Valid.not_lowers (hvalid : op.Valid) (hlegal : op.checkBasicLegality = .ok ())
    (hm : 1 < op.startIndexMap.length) (hrows : 2 ^ 24 + 1 < op.indexedExtents.prod) :
    ¬ op.Lowers := by
  rintro ⟨e, he, hverified, hagree⟩
  obtain rfl := Except.ok.inj ((hvalid.matchAndRewrite_eq hlegal).symm.trans he)
  have haccepts := ((hvalid.verified_iff hlegal).mp hverified).2.2.2
  obtain ⟨x, startIndices, hx, hstart, hrange, hnot⟩ := hvalid.not_agree hlegal haccepts hm hrows
  exact hnot (hagree Bool x startIndices hx hstart hrange)

/-- **The condition for a gather.**  The lowering selects the same elements if and only if it
fits. -/
theorem lowers_iff_fits (hvalid : op.Valid) (hlegal : op.checkBasicLegality = .ok ()) :
    op.Lowers ↔ op.Fits := by
  constructor
  · intro h
    obtain ⟨e, he, hverified, -⟩ := id h
    obtain rfl := Except.ok.inj ((hvalid.matchAndRewrite_eq hlegal).symm.trans he)
    obtain ⟨hindexed, htable, hrows, houtput⟩ := (hvalid.verified_iff hlegal).mp hverified
    refine ⟨hindexed, htable, hrows, houtput, fun hm => ?_⟩
    by_contra hmany
    exact hvalid.not_lowers hlegal hm (not_le.mp hmany) h
  · intro h
    refine ⟨_, hvalid.matchAndRewrite_eq hlegal,
      (hvalid.verified_iff hlegal).mpr ⟨h.indexed, h.table, h.rows, h.output⟩, ?_⟩
    intro α x startIndices hx hstart hrange
    exact hvalid.agree_compute hlegal h.indexed h.exact hx hstart hrange

/-- One element of a square table, looked up by its two coordinates. -/
def squareTable (n : ℕ) : GatherOp where
  input := [n, n]
  startIndices := [1, 2]
  output := [1]
  offsetDims := []
  collapsedSliceDims := [0, 1]
  operandBatchingDims := []
  startIndicesBatchingDims := []
  startIndexMap := [0, 1]
  indexVectorDim := 1
  sliceSizes := [1, 1]

theorem squareTable_valid {n : ℕ} (hn : 0 < n) : (squareTable n).Valid where
  indexVectorDim_le := Nat.le_succ 1
  startIndexMap_length := rfl
  startIndexMap_nodup := show ([0, 1] : List ℕ).Nodup by decide
  startIndexMap_lt := show ∀ d ∈ ([0, 1] : List ℕ), d < 2 by decide
  collapsed_nodup := show ([0, 1] : List ℕ).Nodup by decide
  collapsed_lt := show ∀ d ∈ ([0, 1] : List ℕ), d < 2 by decide
  offsetDims_sorted := .nil
  offsetDims_lt := nofun
  sliceSizes_le := .cons hn (.cons hn .nil)
  batch := rfl
  offset := rfl

/-- A table of three rows and columns. -/
theorem squareTable_lowers : (squareTable 3).Lowers := by
  have hfits : (squareTable 3).Fits := by
    refine ⟨by decide, ?_, fun hrank => absurd hrank (by decide), ?_, fun _ => by decide⟩
    · exact (acceptsShape_iff (by decide)).mpr ⟨by decide, by decide⟩
    · exact (acceptsShape_iff (by decide)).mpr ⟨by decide, by decide⟩
  exact (lowers_iff_fits (squareTable_valid (by decide)) rfl).mpr hfits

/-- **A table with more elements than the rows that are held** is not looked up at all of
them. -/
theorem squareTable_not_lowers : (squareTable 4097).Valid ∧
    (squareTable 4097).checkBasicLegality = .ok () ∧ ¬ (squareTable 4097).Lowers := by
  have hvalid := squareTable_valid (n := 4097) (by decide)
  exact ⟨hvalid, rfl, hvalid.not_lowers rfl (by decide) (by decide)⟩

end GatherOp

end TTIR
