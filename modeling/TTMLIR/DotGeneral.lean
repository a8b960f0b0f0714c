/-
# Lowering a general dot product to a matrix product

`DotGeneralToMatmulConversionPattern` of `TTIRToTTIRDecomposition.cpp` brings the dimensions of
both operands into the order batch, rows, columns, flattens rows and columns, multiplies, and
gives the result its dimensions back.

* `DotGeneralOp` : the operation, with what its definition asks of its attributes;
* `DotGeneralOp.compute` : what it computes, by indices;
* `DotGeneralOp.matchAndRewrite` : the lowering;
* `DotGeneralOp.lowers_iff_acceptsShape` : when it preserves the values.

The orders always fit; what fails are the reshapes, whose verifier wants a shape of at least one
dimension and positive numbers of 32 bits.
-/
import TTMLIR.BroadcastCommute
import TTMLIR.SelectToSlice
import TTMLIR.TensorOps

namespace MixedRadix

/-! ## All index vectors, and flattened ones -/

/-- The index vectors of a shape. -/
def indices : List ℕ → List (List ℕ)
  | [] => [[]]
  | n :: shape => (List.range n).flatMap fun i => (indices shape).map (i :: ·)

theorem map_range_mul {α : Type*} (n m : ℕ) (f : ℕ → α) : (List.range (n * m)).map f
      = (List.range n).flatMap fun i => (List.range m).map fun j => f (i * m + j) := by
  induction n with
  | zero => rw [Nat.zero_mul]; rfl
  | succ n ih =>
    rw [Nat.succ_mul, List.range_add, List.map_append, ih, List.range_succ,
      List.flatMap_append, List.flatMap_singleton, List.map_map]
    rfl

/-- They are numbered by their offsets. -/
theorem indices_eq (shape : List ℕ) :
    indices shape = (List.range shape.prod).map (unravel shape) := by
  induction shape with
  | nil => rfl
  | cons n shape ih =>
    rw [indices, List.prod_cons, map_range_mul, ih]
    refine List.flatMap_congr fun i _ => ?_
    rw [List.map_map]
    apply List.map_congr_left
    intro j hj
    have hlt := List.mem_range.mp hj
    have hpos : 0 < shape.prod := Nat.zero_lt_of_lt hlt
    rw [Function.comp_apply, unravel, Nat.mul_comm i, Nat.mul_add_div hpos,
      Nat.div_eq_of_lt hlt, Nat.add_zero, Nat.mul_add_mod, Nat.mod_eq_of_lt hlt]

theorem rowMajor_flatten {outer p a b i j : List ℕ} (hp : p.length = outer.length)
    (hi : i.length = a.length) :
    rowMajor (outer ++ [a.prod, b.prod]) (p ++ [rowMajor a i, rowMajor b j])
      = rowMajor (outer ++ (a ++ b)) (p ++ (i ++ j)) := by
  rw [rowMajor_append _ _ hp, rowMajor_append _ _ hp, rowMajor_append _ _ hi, List.prod_append]
  simp only [rowMajor_cons, rowMajor_nil, List.prod_cons, List.prod_nil]
  ring

theorem unravel_flatten {outer p a b : List ℕ} {i j : ℕ} (hp : InShape p outer)
    (hi : i < a.prod) (hj : j < b.prod) :
    unravel (outer ++ (a ++ b)) (rowMajor (outer ++ [a.prod, b.prod]) (p ++ [i, j]))
      = p ++ (unravel a i ++ unravel b j) := by
  have hflat := rowMajor_flatten (b := b) (j := unravel b j) hp.length_eq (length_unravel a i)
  rw [rowMajor_unravel a i hi, rowMajor_unravel b j hj] at hflat
  rw [hflat]
  exact unravel_rowMajor (List.rel_append hp
    (List.rel_append (inShape_unravel a i hi) (inShape_unravel b j hj)))

theorem unravel_group {outer p a b i j : List ℕ} (hp : InShape p outer) (hi : InShape i a)
    (hj : InShape j b) :
    unravel (outer ++ [a.prod, b.prod]) (rowMajor (outer ++ (a ++ b)) (p ++ (i ++ j)))
      = p ++ [rowMajor a i, rowMajor b j] := by
  rw [← rowMajor_flatten hp.length_eq hi.length_eq]
  exact unravel_rowMajor (List.rel_append hp (.cons (rowMajor_lt hi) (.cons (rowMajor_lt hj) .nil)))

end MixedRadix

namespace TTIR

open MixedRadix Rearrange

/-! ## The operations -/

/-- `getResultDims`: the dimensions that are neither batch nor contracted ones. -/
def getResultDims (batchDims contractDims : List ℕ) (rank : ℕ) : List ℕ :=
  contractDims.foldl List.erase (batchDims.foldl List.erase (List.range rank))

/-- Dimensions of an operand: distinct, and in range. -/
def ValidDims (rank : ℕ) (batchDims contractDims : List ℕ) : Prop :=
  (batchDims ++ contractDims).Nodup ∧ ∀ d ∈ batchDims ++ contractDims, d < rank

/-- `ttir.dot_general`: the shapes of its operands and its attributes, as the definition of the
operation has them. -/
structure DotGeneralOp where
  lhs : List ℕ
  rhs : List ℕ
  batchDimsLhs : List ℕ
  contractDimsLhs : List ℕ
  batchDimsRhs : List ℕ
  contractDimsRhs : List ℕ
  validLhs : ValidDims lhs.length batchDimsLhs contractDimsLhs
  validRhs : ValidDims rhs.length batchDimsRhs contractDimsRhs
  batch_eq : gather batchDimsLhs lhs = gather batchDimsRhs rhs
  contract_eq : gather contractDimsLhs lhs = gather contractDimsRhs rhs

namespace DotGeneralOp

variable (op : DotGeneralOp)

def lhsResultDims : List ℕ := getResultDims op.batchDimsLhs op.contractDimsLhs op.lhs.length

def rhsResultDims : List ℕ := getResultDims op.batchDimsRhs op.contractDimsRhs op.rhs.length

/-- The extents of the batch, of both sets of free dimensions, and of the contracted ones. -/
def batch : List ℕ := gather op.batchDimsLhs op.lhs

def lhsFree : List ℕ := gather op.lhsResultDims op.lhs

def rhsFree : List ℕ := gather op.rhsResultDims op.rhs

def contracted : List ℕ := gather op.contractDimsLhs op.lhs

/-- The shape of the result. -/
def resultShape : List ℕ := op.batch ++ (op.lhsFree ++ op.rhsFree)

end DotGeneralOp

/-- Where an operand is read: at the batch and contracted indices in their dimensions, and at
the free ones in the others. -/
def operandIndex (rank : ℕ) (batchDims contractDims batch free contracted : List ℕ) : List ℕ :=
  (List.range rank).map fun d =>
    if d ∈ batchDims then batch.getD (batchDims.idxOf d) 0
    else if d ∈ contractDims then contracted.getD (contractDims.idxOf d) 0
    else free.getD ((getResultDims batchDims contractDims rank).idxOf d) 0

/-- What a general dot product computes. -/
def DotGeneralOp.compute {α : Type} [AddMonoid α] [Mul α] (op : DotGeneralOp)
    (x y : Tensor α) : Tensor α :=
  ⟨op.resultShape, fun o =>
    let batch := o.take op.batch.length
    let lhsFree := (o.drop op.batch.length).take op.lhsFree.length
    let rhsFree := (o.drop op.batch.length).drop op.lhsFree.length
    ((indices op.contracted).map fun k =>
      x.elem (operandIndex op.lhs.length op.batchDimsLhs op.contractDimsLhs batch lhsFree k)
        * y.elem (operandIndex op.rhs.length op.batchDimsRhs op.contractDimsRhs batch rhsFree k)
      ).sum⟩

/-- `ttir.matmul`: the shapes of its operands and result, and its attributes. -/
structure MatmulOp where
  a : List ℕ
  b : List ℕ
  transposeA : Bool
  transposeB : Bool
  output : List ℕ
deriving DecidableEq, Repr

namespace MatmulOp

/-- Exchange the last two extents. -/
def swapLast (shape : List ℕ) : List ℕ :=
  shape.take (shape.length - 2) ++ (shape.drop (shape.length - 2)).reverse

/-- The shape of the first operand as a matrix. -/
def inputAShape (op : MatmulOp) : List ℕ :=
  if op.a.length = 1 then 1 :: op.a else if op.transposeA then swapLast op.a else op.a

/-- The shape of the second operand as a matrix. -/
def inputBShape (op : MatmulOp) : List ℕ :=
  if op.b.length = 1 then op.b ++ [1] else if op.transposeB then swapLast op.b else op.b

/-- The entry at a position counted from the back. -/
def fromBack (shape : List ℕ) (i : ℕ) : ℕ := shape.getD (shape.length - i) 0

/-- The expected shape of the result, after its batch dimensions. -/
def expectedInner (op : MatmulOp) : List ℕ :=
  (if 1 < op.a.length then [fromBack op.inputAShape 2] else [])
    ++ (if 1 < op.b.length then [fromBack op.inputBShape 1] else [])

/-- The end of the verifier: the shape of the result. -/
def verifyOutput (op : MatmulOp) (expectedOutputShape : List ℕ) : Except String Unit :=
  if expectedOutputShape.length = 0 then
    if op.output.length < 1 then
      .error "Scalar output is not supported, output must be at least a 1D tensor"
    else if 1 < op.output.length ∨ op.output.getD 0 0 ≠ 1 then
      .error "Scalar output must be a 1D tensor of size 1"
    else .ok ()
  else if op.output.length ≠ expectedOutputShape.length then
    .error s!"Output shape rank({op.output.length}) must match the expected output shape rank({expectedOutputShape.length})"
  else (List.range op.output.length).forM fun i =>
    if op.output.getD i 0 ≠ expectedOutputShape.getD i 0 then
      .error s!"Output shape dimension[{i}]({op.output.getD i 0}) doesn't match the expected output shape dimension[{i}]({expectedOutputShape.getD i 0})"
    else .ok ()

/-- `MatmulOp::verify`. -/
def verify (op : MatmulOp) : Except String Unit :=
  let inputAShape := op.inputAShape
  let inputBShape := op.inputBShape
  if op.a.length < 1 then .error "Input A must be at least a 1D tensor"
  else if op.b.length < 1 then .error "Input B must be at least a 1D tensor"
  else if fromBack inputAShape 1 ≠ fromBack inputBShape 2 then
    .error s!"Input A[-1]({fromBack inputAShape 1}) and B[-2]({fromBack inputBShape 2}) must have matching inner dimensions"
  else if 2 < inputAShape.length ∨ 2 < inputBShape.length then
    let inputABatchDims := inputAShape.take (inputAShape.length - 2)
    let inputBBatchDims := inputBShape.take (inputBShape.length - 2)
    match broadcastedShape inputABatchDims inputBBatchDims with
    | none => .error s!"Batch dimensions of input A({join inputABatchDims}) and B({join inputBBatchDims}) are not broadcast compatible"
    | some batch => op.verifyOutput (batch ++ op.expectedInner)
  else op.verifyOutput op.expectedInner

end MatmulOp

/-- What a product of stacks of matrices computes; the stacks are stretched to one shape. -/
def Tensor.matmul {α : Type} [AddMonoid α] [Mul α] (output : List ℕ) (x y : Tensor α) :
    Tensor α :=
  ⟨output, fun o =>
    let batch := o.take (o.length - 2)
    let row := o.getD (o.length - 2) 0
    let column := o.getD (o.length - 1) 0
    ((List.range (MatmulOp.fromBack x.shape 1)).map fun k =>
      x.elem (clamp (x.shape.take (x.shape.length - 2)) batch ++ [row, k])
        * y.elem (clamp (y.shape.take (y.shape.length - 2)) batch ++ [k, column])).sum⟩

/-! ## The pattern -/

/-- The emitted operations. -/
structure DotGeneralOp.Emitted where
  lhsPermute : PermuteOp
  rhsPermute : PermuteOp
  lhsMatmulInput : ReshapeOp
  rhsMatmulInput : ReshapeOp
  matmul : MatmulOp
  final : ReshapeOp

/-- `createPermuteOp`. -/
def createDotPermuteOp (input permutation : List ℕ) : Except String PermuteOp := do
  let destinationShape ← applyPermutation input (permutation.map fun n : ℕ => (n : ℤ))
  return ⟨input, permutation.map fun n : ℕ => (n : ℤ), destinationShape⟩

/-- `computeProductOfDims`. -/
def computeProductOfDims (tensorShape dims : List ℕ) : ℕ :=
  dims.foldl (fun product dim => product * tensorShape.getD dim 0) 1

/-- `computeMatmulInputShape`. -/
def computeMatmulInputShape (shape batchDims dims1 dims2 : List ℕ) : List ℕ :=
  (batchDims.map fun dim => shape.getD dim 0)
    ++ [computeProductOfDims shape dims1, computeProductOfDims shape dims2]

/-- `createMatmulFinal`: a reshape, with its shape as 32-bit numbers. -/
def createMatmulFinal (input finalShape : List ℕ) : ReshapeOp :=
  ⟨input, finalShape.map toI32, finalShape⟩

namespace DotGeneralOp

variable (op : DotGeneralOp)

/-- `matchAndRewrite`. -/
def matchAndRewrite : Except String Emitted := do
  let lhsPermute ← createDotPermuteOp op.lhs
    (op.batchDimsLhs ++ op.lhsResultDims ++ op.contractDimsLhs)
  let rhsPermute ← createDotPermuteOp op.rhs
    (op.batchDimsRhs ++ op.contractDimsRhs ++ op.rhsResultDims)
  let lhsMatmulInputShape :=
    computeMatmulInputShape op.lhs op.batchDimsLhs op.lhsResultDims op.contractDimsLhs
  let rhsMatmulInputShape :=
    computeMatmulInputShape op.rhs op.batchDimsRhs op.contractDimsRhs op.rhsResultDims
  let matmulDestinationShape := (op.batchDimsLhs.map fun dim => op.lhs.getD dim 0)
    ++ [computeProductOfDims op.lhs op.lhsResultDims, computeProductOfDims op.rhs op.rhsResultDims]
  let resultShape := (op.batchDimsLhs.map fun dim => op.lhs.getD dim 0)
    ++ (op.lhsResultDims.map fun dim => op.lhs.getD dim 0)
    ++ (op.rhsResultDims.map fun dim => op.rhs.getD dim 0)
  return {
    lhsPermute := lhsPermute
    rhsPermute := rhsPermute
    lhsMatmulInput := createMatmulFinal lhsPermute.output lhsMatmulInputShape
    rhsMatmulInput := createMatmulFinal rhsPermute.output rhsMatmulInputShape
    matmul := ⟨lhsMatmulInputShape, rhsMatmulInputShape, false, false, matmulDestinationShape⟩
    final := createMatmulFinal matmulDestinationShape resultShape }

/-- All emitted operations pass their verifiers. -/
structure Emitted.Verified (e : Emitted) : Prop where
  lhsPermute : e.lhsPermute.verify = .ok ()
  rhsPermute : e.rhsPermute.verify = .ok ()
  lhsMatmulInput : e.lhsMatmulInput.verify = .ok ()
  rhsMatmulInput : e.rhsMatmulInput.verify = .ok ()
  matmul : e.matmul.verify = .ok ()
  final : e.final.verify = .ok ()

/-- What they compute. -/
def Emitted.apply {α : Type} [AddMonoid α] [Mul α] (e : Emitted) (x y : Tensor α) : Tensor α :=
  (Tensor.matmul e.matmul.output
    ((x.permute (e.lhsPermute.permutation.map Int.toNat)).reshape e.lhsMatmulInput.output)
    ((y.permute (e.rhsPermute.permutation.map Int.toNat)).reshape e.rhsMatmulInput.output)).reshape
      e.final.output

/-- **The dot product is lowered without changing values**, over any numbers. -/
def Lowers : Prop :=
  ∃ e, op.matchAndRewrite = .ok e ∧ e.Verified ∧
    ∀ (α : Type) [AddMonoid α] [Mul α] (x y : Tensor α), x.shape = op.lhs → y.shape = op.rhs →
      (op.compute x y).Agree (e.apply x y)

end DotGeneralOp

/-- A shape that the verifier of a reshape accepts as an attribute of 32-bit numbers. -/
def AcceptsShape (target : List ℕ) : Prop :=
  target ≠ [] ∧ ReshapeOp.verifyDims 0 false (target.map toI32) target = .ok ()

/-! ## The order of the dimensions -/

section Dims

variable {rank : ℕ} {batchDims contractDims : List ℕ}

theorem getResultDims_eq : getResultDims batchDims contractDims rank
    = ((List.range rank).diff batchDims).diff contractDims := by
  rw [getResultDims, List.diff_eq_foldl, List.diff_eq_foldl]

theorem mem_getResultDims {d : ℕ} : d ∈ getResultDims batchDims contractDims rank ↔
    d < rank ∧ d ∉ batchDims ∧ d ∉ contractDims := by
  rw [getResultDims_eq, List.Nodup.mem_sdiff_iff (List.nodup_range.diff),
    List.nodup_range.mem_sdiff_iff, List.mem_range, and_assoc]

theorem nodup_getResultDims : (getResultDims batchDims contractDims rank).Nodup := by
  rw [getResultDims_eq]
  exact List.nodup_range.diff.diff

/-- Looking up beside a list that is put in front of another. -/
theorem getD_idxOf_append {l l' x x' : List ℕ} {d e : ℕ} (hlen : x.length = l.length) :
    (x ++ x').getD ((l ++ l').idxOf d) e
      = if d ∈ l then x.getD (l.idxOf d) e else x'.getD (l'.idxOf d) e := by
  rw [List.idxOf_append]
  split_ifs with hd
  · exact List.getD_append _ _ _ _ (hlen.symm ▸ List.idxOf_lt_length_of_mem hd)
  · rw [List.getD_append_right _ _ _ _ (by omega), hlen, Nat.add_sub_cancel]

variable (h : ValidDims rank batchDims contractDims)

include h

/-- Batch, contracted and free dimensions are all dimensions. -/
theorem ValidDims.contractFirst :
    IsPermutation rank (batchDims ++ contractDims ++ getResultDims batchDims contractDims rank) := by
  have hnodup : (batchDims ++ contractDims ++ getResultDims batchDims contractDims rank).Nodup := by
    rw [List.nodup_append']
    refine ⟨h.1, nodup_getResultDims, fun d hd hres => ?_⟩
    obtain ⟨-, hb, hc⟩ := mem_getResultDims.mp hres
    rcases List.mem_append.mp hd with hmem | hmem
    · exact hb hmem
    · exact hc hmem
  rw [IsPermutation, List.perm_ext_iff_of_nodup hnodup List.nodup_range]
  intro d
  rw [List.mem_append, mem_getResultDims, List.mem_range]
  constructor
  · rintro (hd | hd)
    · exact h.2 d hd
    · exact hd.1
  · intro hd
    by_cases hmem : d ∈ batchDims ++ contractDims
    · exact .inl hmem
    · rw [List.mem_append, not_or] at hmem
      exact .inr ⟨hd, hmem⟩

theorem ValidDims.freeFirst :
    IsPermutation rank (batchDims ++ getResultDims batchDims contractDims rank ++ contractDims) := by
  refine List.Perm.trans ?_ h.contractFirst
  rw [List.append_assoc, List.append_assoc]
  exact List.Perm.append_left _ List.perm_append_comm

variable {batch free contracted : List ℕ} (hbatch : batch.length = batchDims.length)

include hbatch

/-- An operand read by its dimensions is read at the index of the permuted operand, put back. -/
theorem ValidDims.operandIndex_freeFirst
    (hfree : free.length = (getResultDims batchDims contractDims rank).length) :
    operandIndex rank batchDims contractDims batch free contracted
      = gather (inverse (batchDims ++ getResultDims batchDims contractDims rank ++ contractDims))
          (batch ++ (free ++ contracted)) := by
  have hp := h.freeFirst
  rw [gather, inverse, List.map_map, hp.length_eq, operandIndex]
  apply List.map_congr_left
  intro d hd
  rw [Function.comp_apply, List.append_assoc, getD_idxOf_append hbatch, getD_idxOf_append hfree]
  by_cases hb : d ∈ batchDims
  · rw [if_pos hb, if_pos hb]
    rfl
  · rw [if_neg hb, if_neg hb]
    by_cases hc : d ∈ contractDims
    · rw [if_pos hc, if_neg fun hres => (mem_getResultDims.mp hres).2.2 hc]
      rfl
    · rw [if_neg hc, if_pos (mem_getResultDims.mpr ⟨List.mem_range.mp hd, hb, hc⟩)]
      rfl

theorem ValidDims.operandIndex_contractFirst
    (hcontracted : contracted.length = contractDims.length) :
    operandIndex rank batchDims contractDims batch free contracted
      = gather (inverse (batchDims ++ contractDims ++ getResultDims batchDims contractDims rank))
          (batch ++ (contracted ++ free)) := by
  have hp := h.contractFirst
  rw [gather, inverse, List.map_map, hp.length_eq, operandIndex]
  apply List.map_congr_left
  intro d hd
  rw [Function.comp_apply, List.append_assoc, getD_idxOf_append hbatch,
    getD_idxOf_append hcontracted]
  rfl

end Dims

/-! ## Verifiers -/

theorem verify_createMatmulFinal {input target : List ℕ} (hprod : input.prod = target.prod) :
    (createMatmulFinal input target).verify = .ok () ↔ AcceptsShape target := by
  rw [createMatmulFinal, ReshapeOp.verify, AcceptsShape]
  simp only [List.length_map, List.length_eq_zero_iff]
  by_cases hnil : target = []
  · rw [if_pos hnil]
    exact ⟨nofun, fun h => absurd hnil h.1⟩
  · rw [if_neg hnil, if_neg (not_not.mpr rfl), if_neg (not_not.mpr hprod)]
    exact ⟨fun h => ⟨hnil, h⟩, fun h => h.2⟩

theorem toI32_eq (n : ℕ) : toI32 n = int32 n := by
  have hsigned : ∀ (m : ℕ) (w : IntegerType), w.isUnsigned = false → m = w.width →
      Int.bmod n (2 ^ m) = w.wrap n := by
    intro m w hw hm
    rw [IntegerType.wrap, hw, hm]
    rfl
  exact hsigned 32 ⟨32, .signed⟩ rfl rfl

/-- **Accepted shapes**, for extents below the largest unsigned number of 32 bits. -/
theorem acceptsShape_iff {target : List ℕ} (h : ∀ n ∈ target, n < 2 ^ 32 - 1) :
    AcceptsShape target ↔ target ≠ [] ∧ ∀ n ∈ target, 0 < n ∧ n < 2 ^ 31 := by
  have hloop : ∀ (ns : List ℕ) (i : ℕ), (∀ n ∈ ns, n < 2 ^ 32 - 1) →
      (ReshapeOp.verifyDims i false (ns.map toI32) ns = .ok () ↔ ∀ n ∈ ns, 0 < n ∧ n < 2 ^ 31) := by
    intro ns
    induction ns with
    | nil => exact fun i _ => ⟨fun _ n hn => absurd hn List.not_mem_nil, fun _ => rfl⟩
    | cons n ns ih =>
      intro i hns
      have hn := hns n List.mem_cons_self
      have hrest := ih (i + 1) fun m hm => hns m (List.mem_cons_of_mem _ hm)
      rw [List.map_cons, ReshapeOp.verifyDims, List.forall_mem_cons, ← hrest]
      by_cases hsmall : n < 2 ^ 31
      · have hcast : toI32 n = n := (toI32_eq n).trans (int32_natCast hsmall)
        rw [hcast, if_neg (by omega)]
        by_cases hpos : 0 < n
        · rw [if_neg (by omega), if_neg (not_not.mpr rfl)]
          exact ⟨fun h => ⟨⟨hpos, hsmall⟩, h⟩, fun h => h.2⟩
        · rw [if_pos (by omega)]
          exact ⟨fun h => absurd h (by simp), fun h => absurd h.1.1 hpos⟩
      · have hcast : toI32 n = (n : ℤ) - 2 ^ 32 :=
          (toI32_eq n).trans (int32_of_past (by exact_mod_cast not_lt.mp hsmall) (by omega))
        rw [hcast, if_neg (by omega), if_pos (by omega)]
        exact ⟨fun h => absurd h (by simp), fun h => absurd h.1.2 hsmall⟩
  rw [AcceptsShape, hloop target 0 h]

/-- The product of stacks of matrices that fit verifies, when the second stack is stretched to the
first. -/
theorem verify_matmul {batch batchB : List ℕ} (hbatch : broadcastedShape batch batchB = some batch)
    (m k n : ℕ) :
    (MatmulOp.mk (batch ++ [m, k]) (batchB ++ [k, n]) false false (batch ++ [m, n])).verify
      = .ok () := by
  have hlen : ∀ (l : List ℕ) (a b : ℕ), (l ++ [a, b]).length = l.length + 2 := by
    intro l a b
    rw [List.length_append]
    rfl
  have hA : (MatmulOp.mk (batch ++ [m, k]) (batchB ++ [k, n]) false false
      (batch ++ [m, n])).inputAShape = batch ++ [m, k] := by
    rw [MatmulOp.inputAShape, if_neg (by rw [hlen]; omega)]
    rfl
  have hB : (MatmulOp.mk (batch ++ [m, k]) (batchB ++ [k, n]) false false
      (batch ++ [m, n])).inputBShape = batchB ++ [k, n] := by
    rw [MatmulOp.inputBShape, if_neg (by rw [hlen]; omega)]
    rfl
  have hback : ∀ (l : List ℕ) (a b : ℕ), MatmulOp.fromBack (l ++ [a, b]) 1 = b ∧
      MatmulOp.fromBack (l ++ [a, b]) 2 = a := by
    intro l a b
    rw [MatmulOp.fromBack, MatmulOp.fromBack, hlen]
    constructor
    · rw [List.getD_append_right _ _ _ _ (by omega)]
      simp
    · rw [List.getD_append_right _ _ _ _ (by omega)]
      simp
  have hinner : (MatmulOp.mk (batch ++ [m, k]) (batchB ++ [k, n]) false false
      (batch ++ [m, n])).expectedInner = [m, n] := by
    rw [MatmulOp.expectedInner, hA, hB, (hback _ m k).2, (hback _ k n).1,
      if_pos (by rw [hlen]; omega), if_pos (by rw [hlen]; omega)]
    rfl
  have htake : ∀ (l : List ℕ) (a b : ℕ), (l ++ [a, b]).take ((l ++ [a, b]).length - 2) = l := by
    intro l a b
    rw [hlen, Nat.add_sub_cancel, List.take_left]
  have houtput : (MatmulOp.mk (batch ++ [m, k]) (batchB ++ [k, n]) false false
      (batch ++ [m, n])).verifyOutput (batch ++ [m, n]) = .ok () := by
    rw [MatmulOp.verifyOutput, if_neg (by rw [hlen]; omega), if_neg (not_not.mpr rfl),
      Fallible.forM_eq_ok]
    intro i _
    exact if_neg (not_not.mpr rfl)
  rw [MatmulOp.verify]
  simp only [hA, hB, hinner, htake, (hback batch m k).1, (hback batchB k n).2]
  rw [if_neg (by rw [hlen]; omega), if_neg (by rw [hlen]; omega), if_neg (not_not.mpr rfl)]
  split
  · rw [hbatch]
    exact houtput
  · rename_i hshort
    have hnil : batch = [] := by
      rw [hlen, hlen] at hshort
      exact List.length_eq_zero_iff.mp (by omega)
    rw [hnil] at houtput ⊢
    exact houtput

/-! ## What the emitted operations are -/

theorem computeProductOfDims_eq (shape dims : List ℕ) :
    computeProductOfDims shape dims = (gather dims shape).prod := by
  have hfold : ∀ (dims : List ℕ) (a : ℕ),
      dims.foldl (fun product dim => product * shape.getD dim 0) a
        = a * (gather dims shape).prod := by
    intro dims
    induction dims with
    | nil => exact fun a => (Nat.mul_one a).symm
    | cons d dims ih =>
      intro a
      have hcons : gather (d :: dims) shape = shape.getD d 0 :: gather dims shape := rfl
      rw [List.foldl_cons, ih, hcons, List.prod_cons, Nat.mul_assoc]
  rw [computeProductOfDims, hfold, Nat.one_mul]

namespace DotGeneralOp

variable (op : DotGeneralOp)

/-- The extents of the flattened free dimensions, and of the flattened contracted ones. -/
def lhsMatmulShape : List ℕ := op.batch ++ [op.lhsFree.prod, op.contracted.prod]

def rhsMatmulShape : List ℕ := op.batch ++ [op.contracted.prod, op.rhsFree.prod]

def matmulShape : List ℕ := op.batch ++ [op.lhsFree.prod, op.rhsFree.prod]

/-- The permuted operands. -/
def lhsPermutation : List ℕ := op.batchDimsLhs ++ op.lhsResultDims ++ op.contractDimsLhs

def rhsPermutation : List ℕ := op.batchDimsRhs ++ op.contractDimsRhs ++ op.rhsResultDims

theorem gather_lhsPermutation :
    gather op.lhsPermutation op.lhs = op.batch ++ (op.lhsFree ++ op.contracted) := by
  rw [lhsPermutation, gather, List.map_append, List.map_append, List.append_assoc]
  rfl

theorem gather_rhsPermutation :
    gather op.rhsPermutation op.rhs = op.batch ++ (op.contracted ++ op.rhsFree) := by
  rw [rhsPermutation, gather, List.map_append, List.map_append, List.append_assoc, batch,
    contracted, op.batch_eq, op.contract_eq]
  rfl

/-- **The emitted operations**; the permutations always fit. -/
theorem matchAndRewrite_eq : op.matchAndRewrite = .ok
    { lhsPermute := ⟨op.lhs, op.lhsPermutation.map (↑), gather op.lhsPermutation op.lhs⟩
      rhsPermute := ⟨op.rhs, op.rhsPermutation.map (↑), gather op.rhsPermutation op.rhs⟩
      lhsMatmulInput := createMatmulFinal (gather op.lhsPermutation op.lhs) op.lhsMatmulShape
      rhsMatmulInput := createMatmulFinal (gather op.rhsPermutation op.rhs) op.rhsMatmulShape
      matmul := ⟨op.lhsMatmulShape, op.rhsMatmulShape, false, false, op.matmulShape⟩
      final := createMatmulFinal op.matmulShape op.resultShape } := by
  have hlhs : applyPermutation op.lhs (op.lhsPermutation.map fun n : ℕ => (n : ℤ))
      = .ok (gather op.lhsPermutation op.lhs) := applyPermutation_natCast op.validLhs.freeFirst
  have hrhs : applyPermutation op.rhs (op.rhsPermutation.map fun n : ℕ => (n : ℤ))
      = .ok (gather op.rhsPermutation op.rhs) :=
    applyPermutation_natCast op.validRhs.contractFirst
  have hlhsShape : computeMatmulInputShape op.lhs op.batchDimsLhs op.lhsResultDims
      op.contractDimsLhs = op.lhsMatmulShape := by
    rw [computeMatmulInputShape, computeProductOfDims_eq, computeProductOfDims_eq]
    rfl
  have hrhsShape : computeMatmulInputShape op.rhs op.batchDimsRhs op.contractDimsRhs
      op.rhsResultDims = op.rhsMatmulShape := by
    rw [computeMatmulInputShape, computeProductOfDims_eq, computeProductOfDims_eq,
      rhsMatmulShape, batch, contracted, op.batch_eq, op.contract_eq]
    rfl
  have hmatmul : (op.batchDimsLhs.map fun dim => op.lhs.getD dim 0)
      ++ [computeProductOfDims op.lhs op.lhsResultDims,
        computeProductOfDims op.rhs op.rhsResultDims] = op.matmulShape := by
    rw [computeProductOfDims_eq, computeProductOfDims_eq]
    rfl
  have hresult : (op.batchDimsLhs.map fun dim => op.lhs.getD dim 0)
      ++ (op.lhsResultDims.map fun dim => op.lhs.getD dim 0)
      ++ (op.rhsResultDims.map fun dim => op.rhs.getD dim 0) = op.resultShape :=
    List.append_assoc _ _ _
  rw [matchAndRewrite, hlhsShape, hrhsShape, hmatmul, hresult]
  show (createDotPermuteOp op.lhs op.lhsPermutation >>= _) = _
  rw [createDotPermuteOp, hlhs]
  show (createDotPermuteOp op.rhs op.rhsPermutation >>= _) = _
  rw [createDotPermuteOp, hrhs]
  rfl

/-! ## What they compute -/

variable {α : Type}

/-- An element of the flattened left operand. -/
theorem elem_lhsMatmulInput {x : Tensor α} (hx : x.shape = op.lhs) {b r : List ℕ} {k : ℕ}
    (hb : InShape b op.batch) (hr : InShape r op.lhsFree) (hk : k < op.contracted.prod) :
    ((x.permute op.lhsPermutation).reshape op.lhsMatmulShape).elem (b ++ [rowMajor op.lhsFree r, k])
      = x.elem (operandIndex op.lhs.length op.batchDimsLhs op.contractDimsLhs b r
          (unravel op.contracted k)) := by
  have hshape : (x.permute op.lhsPermutation).shape
      = op.batch ++ (op.lhsFree ++ op.contracted) := by
    rw [← op.gather_lhsPermutation, ← hx]
    rfl
  show x.elem (gather (inverse op.lhsPermutation) (unravel (x.permute op.lhsPermutation).shape
    (rowMajor op.lhsMatmulShape _))) = _
  rw [hshape, lhsMatmulShape, unravel_flatten hb (rowMajor_lt hr) hk, unravel_rowMajor hr,
    op.validLhs.operandIndex_freeFirst (hb.length_eq.trans (length_gather _ _))
      (hr.length_eq.trans (length_gather _ _))]
  rfl

/-- An element of the flattened right operand. -/
theorem elem_rhsMatmulInput {y : Tensor α} (hy : y.shape = op.rhs) {b s : List ℕ} {k : ℕ}
    (hb : InShape b op.batch) (hs : InShape s op.rhsFree) (hk : k < op.contracted.prod) :
    ((y.permute op.rhsPermutation).reshape op.rhsMatmulShape).elem (b ++ [k, rowMajor op.rhsFree s])
      = y.elem (operandIndex op.rhs.length op.batchDimsRhs op.contractDimsRhs b s
          (unravel op.contracted k)) := by
  have hshape : (y.permute op.rhsPermutation).shape
      = op.batch ++ (op.contracted ++ op.rhsFree) := by
    rw [← op.gather_rhsPermutation, ← hy]
    rfl
  have hblen : b.length = op.batchDimsRhs.length := by
    rw [hb.length_eq, batch, op.batch_eq, length_gather]
  have hklen : (unravel op.contracted k).length = op.contractDimsRhs.length := by
    rw [length_unravel, contracted, op.contract_eq, length_gather]
  show y.elem (gather (inverse op.rhsPermutation) (unravel (y.permute op.rhsPermutation).shape
    (rowMajor op.rhsMatmulShape _))) = _
  rw [hshape, rhsMatmulShape, unravel_flatten hb hk (rowMajor_lt hs), unravel_rowMajor hs,
    op.validRhs.operandIndex_contractFirst hblen hklen]
  rfl

/-- **An element of the product** of the flattened operands. -/
theorem elem_matmul [AddMonoid α] [Mul α] {x y : Tensor α} (hx : x.shape = op.lhs)
    (hy : y.shape = op.rhs) {b r s : List ℕ} (hb : InShape b op.batch)
    (hr : InShape r op.lhsFree) (hs : InShape s op.rhsFree) :
    (Tensor.matmul op.matmulShape ((x.permute op.lhsPermutation).reshape op.lhsMatmulShape)
        ((y.permute op.rhsPermutation).reshape op.rhsMatmulShape)).elem
          (b ++ [rowMajor op.lhsFree r, rowMajor op.rhsFree s])
      = ((indices op.contracted).map fun k =>
          x.elem (operandIndex op.lhs.length op.batchDimsLhs op.contractDimsLhs b r k)
            * y.elem (operandIndex op.rhs.length op.batchDimsRhs op.contractDimsRhs b s k)).sum := by
  have hlen : ∀ (l : List ℕ) (m n : ℕ), (l ++ [m, n]).length = l.length + 2 := by
    intro l m n
    rw [List.length_append]
    rfl
  have htake : ∀ (l : List ℕ) (m n : ℕ), (l ++ [m, n]).take ((l ++ [m, n]).length - 2) = l := by
    intro l m n
    rw [hlen, Nat.add_sub_cancel, List.take_left]
  have hrow : ∀ (l : List ℕ) (m n : ℕ), (l ++ [m, n]).getD ((l ++ [m, n]).length - 2) 0 = m := by
    intro l m n
    rw [hlen, Nat.add_sub_cancel, List.getD_append_right _ _ _ _ le_rfl, Nat.sub_self]
    rfl
  have hcolumn : ∀ (l : List ℕ) (m n : ℕ), (l ++ [m, n]).getD ((l ++ [m, n]).length - 1) 0 = n := by
    intro l m n
    rw [hlen, List.getD_append_right _ _ _ _ (by omega)]
    have hone : l.length + 2 - 1 - l.length = 1 := by omega
    rw [hone]
    rfl
  have hclamp : clamp op.batch b = b := clamp_of_inShape hb
  rw [indices_eq, List.map_map]
  show ((List.range (MatmulOp.fromBack op.lhsMatmulShape 1)).map fun k =>
    ((x.permute op.lhsPermutation).reshape op.lhsMatmulShape).elem
        (clamp (op.lhsMatmulShape.take (op.lhsMatmulShape.length - 2)) _ ++ [_, k])
      * ((y.permute op.rhsPermutation).reshape op.rhsMatmulShape).elem
        (clamp (op.rhsMatmulShape.take (op.rhsMatmulShape.length - 2)) _ ++ [k, _])).sum = _
  have hcount : MatmulOp.fromBack op.lhsMatmulShape 1 = op.contracted.prod := hcolumn _ _ _
  have hlhsBatch : op.lhsMatmulShape.take (op.lhsMatmulShape.length - 2) = op.batch := htake _ _ _
  have hrhsBatch : op.rhsMatmulShape.take (op.rhsMatmulShape.length - 2) = op.batch := htake _ _ _
  rw [hcount, hlhsBatch, hrhsBatch, htake, hrow, hcolumn, hclamp]
  congr 1
  apply List.map_congr_left
  intro k hk
  have hk' := List.mem_range.mp hk
  rw [Function.comp_apply, op.elem_lhsMatmulInput hx hb hr hk', op.elem_rhsMatmulInput hy hb hs hk']

/-- The emitted operations compute the dot product. -/
theorem agree_compute [AddMonoid α] [Mul α] {x y : Tensor α} (hx : x.shape = op.lhs)
    (hy : y.shape = op.rhs) :
    (op.compute x y).Agree ((Tensor.matmul op.matmulShape
      ((x.permute op.lhsPermutation).reshape op.lhsMatmulShape)
      ((y.permute op.rhsPermutation).reshape op.rhsMatmulShape)).reshape op.resultShape) := by
  refine ⟨rfl, fun o ho => ?_⟩
  obtain ⟨b, o', rfl, hb, ho'⟩ := inShape_append_iff.mp
    (show InShape o (op.batch ++ (op.lhsFree ++ op.rhsFree)) from ho)
  obtain ⟨r, s, rfl, hr, hs⟩ := inShape_append_iff.mp ho'
  have hindex : unravel op.matmulShape (rowMajor op.resultShape (b ++ (r ++ s)))
      = b ++ [rowMajor op.lhsFree r, rowMajor op.rhsFree s] := unravel_group hb hr hs
  show _ = (Tensor.matmul op.matmulShape _ _).elem (unravel op.matmulShape
    (rowMajor op.resultShape (b ++ (r ++ s))))
  rw [hindex, op.elem_matmul hx hy hb hr hs, compute]
  simp only [← hb.length_eq, ← hr.length_eq, List.take_left, List.drop_left]

/-! ## When the values are preserved -/

/-- **The condition for a dot product.**  It is lowered without changing values if and only if
the shapes of the three reshapes are accepted. -/
theorem lowers_iff_acceptsShape :
    op.Lowers ↔ AcceptsShape op.lhsMatmulShape ∧ AcceptsShape op.rhsMatmulShape ∧
      AcceptsShape op.resultShape := by
  have hlhs : (gather op.lhsPermutation op.lhs).prod = op.lhsMatmulShape.prod := by
    rw [op.gather_lhsPermutation, lhsMatmulShape, List.prod_append, List.prod_append,
      List.prod_append, List.prod_cons, List.prod_singleton]
  have hrhs : (gather op.rhsPermutation op.rhs).prod = op.rhsMatmulShape.prod := by
    rw [op.gather_rhsPermutation, rhsMatmulShape, List.prod_append, List.prod_append,
      List.prod_append, List.prod_cons, List.prod_singleton]
  have hresult : op.matmulShape.prod = op.resultShape.prod := by
    rw [matmulShape, resultShape, List.prod_append, List.prod_append, List.prod_append,
      List.prod_cons, List.prod_singleton]
  rw [Lowers, op.matchAndRewrite_eq, ← verify_createMatmulFinal hlhs,
    ← verify_createMatmulFinal hrhs, ← verify_createMatmulFinal hresult]
  constructor
  · rintro ⟨e, he, hverified, -⟩
    obtain rfl := Except.ok.inj he
    exact ⟨hverified.lhsMatmulInput, hverified.rhsMatmulInput, hverified.final⟩
  · rintro ⟨hlhsInput, hrhsInput, hfinal⟩
    refine ⟨_, rfl, ?_, ?_⟩
    · exact {
        lhsPermute := PermuteOp.verify_gather op.validLhs.freeFirst
        rhsPermute := PermuteOp.verify_gather op.validRhs.contractFirst
        lhsMatmulInput := hlhsInput
        rhsMatmulInput := hrhsInput
        matmul := verify_matmul (broadcastedShape_self _) _ _ _
        final := hfinal }
    · intro α _ _ x y hx hy
      show (op.compute x y).Agree ((Tensor.matmul op.matmulShape
        ((x.permute ((op.lhsPermutation.map fun n : ℕ => (n : ℤ)).map Int.toNat)).reshape
          op.lhsMatmulShape)
        ((y.permute ((op.rhsPermutation.map fun n : ℕ => (n : ℤ)).map Int.toNat)).reshape
          op.rhsMatmulShape)).reshape op.resultShape)
      rw [map_toNat_map_natCast, map_toNat_map_natCast]
      exact op.agree_compute hx hy

/-- **The product of two vectors** has no dimension, and the reshape to it is refused. -/
theorem vectors_not_lowers :
    ¬(DotGeneralOp.mk [3] [3] [] [0] [] [0] ⟨by decide, by decide⟩ ⟨by decide, by decide⟩
      rfl rfl).Lowers := by
  rintro ⟨e, he, hverified, -⟩
  obtain rfl := Except.ok.inj he
  exact nomatch hverified.final

end DotGeneralOp

end TTIR
