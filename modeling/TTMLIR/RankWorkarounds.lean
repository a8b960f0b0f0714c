/-
# Workarounds that change ranks and dimensions

The patterns `CumSumOpDimRewritePattern` and `CumSumOpRankRewritePattern` of the TTNN workarounds,
and all five patterns together: a cumulative sum runs along the first two dimensions only, and on
four dimensions.

* `CumSum.permuteDim`, `CumSum.padRank` : the translated patterns;
* `CumSum.permute_keeps_iff`, `CumSum.reshape_keeps_iff` : which results have the type and the
  values of the cumulative sum;
* `Workaround.keeps_iff_supported` : what all the patterns preserve.

The dimension of a cumulative sum is a 64-bit attribute that is read without a sign.
-/
import TTMLIR.ConvolutionLowering
import TTMLIR.ReduceWorkarounds

namespace TTNN

open MixedRadix Rearrange TTIR AxisReduction

namespace CumSum

/-! ## The patterns -/

/-- `ttnn.moreh_cumsum`: the shapes of its operand and result, and its dimension. -/
structure CumSumOp : Type where
  input : List ℕ
  dim : BitVec 64
  output : List ℕ

/-- The check of the operation it is converted from, `CumSumOp::verify`. -/
def CumSumOp.verify (op : CumSumOp) : Except String Unit :=
  let dim := op.dim.toInt
  let inputRank : ℤ := op.input.length
  if dim < -inputRank ∨ dim ≥ inputRank then
    .error s!"specified dimension should be between {-inputRank} and {inputRank - 1}, but got: {dim}"
  else .ok ()

/-- A cumulative sum that passes the check; the rank is a signed 64-bit number. -/
structure VerifiedCumSumOp : Type extends CumSumOp where
  verified : toCumSumOp.verify = .ok ()
  rank_lt : input.length < 2 ^ 63

/-- The sums of the elements up to an index, along a dimension. -/
def cumSum {α : Type} [AddCommMonoid α] (dim : ℕ) (x : Tensor α) : Tensor α :=
  ⟨x.shape, fun idx =>
    ((List.range (idx.getD dim 0 + 1)).map fun j => x.elem (idx.set dim j)).sum⟩

/-- What a cumulative sum computes, when its types fit. -/
def CumSumOp.eval {α : Type} [AddCommMonoid α] (op : CumSumOp) (x : Tensor α) :
    Option (Tensor α) :=
  if HasBit op.input.length op.dim.toInt ∧ op.output = op.input then
    some (cumSum (normalizeDim op.input.length op.dim.toInt).toNat x)
  else none

/-- How a pattern stops: it writes past the end of the permutation. -/
inductive Stop : Type where
  | writePastEnd
  deriving DecidableEq

/-- What the first pattern emits: a cumulative sum between two permutes. -/
structure Permuted : Type where
  adaptedInput : PermuteOp
  adaptedCumSumOp : CumSumOp
  result : PermuteOp

/-- `CumSumOpDimRewritePattern::matchAndRewrite`. -/
def permuteDim (srcOp : CumSumOp) : Except Stop (Option Permuted) :=
  let dim := srcOp.dim.toNat
  if dim ≤ 1 then .ok none
  else
    let rank := srcOp.input.length
    if rank ≤ dim then .error .writePastEnd
    else
      let permutation := swapped rank 0 dim
      let adaptedShape := gather permutation srcOp.input
      .ok (some
        { adaptedInput := ⟨srcOp.input, permutation.map (↑), adaptedShape⟩
          adaptedCumSumOp := ⟨adaptedShape, 0, adaptedShape⟩
          result := ⟨adaptedShape, (inverse permutation).map (↑), srcOp.output⟩ })

/-- What the second pattern emits: a cumulative sum between two reshapes. -/
structure Reshaped : Type where
  adaptedInput : ReshapeOp
  adaptedCumSumOp : CumSumOp
  cumsumOutput : ReshapeOp

/-- A shape with ones behind it, up to rank four. -/
def adapt (shape : List ℕ) : List ℕ := shape ++ List.replicate (4 - shape.length) 1

/-- `CumSumOpRankRewritePattern::matchAndRewrite`. -/
def padRank (srcOp : CumSumOp) : Option Reshaped :=
  if 4 ≤ srcOp.input.length then none
  else
    let adaptedShape := adapt srcOp.input
    some
      { adaptedInput := ⟨srcOp.input, adaptedShape.map toI32, adaptedShape⟩
        -- the dimension stays, also one that is counted from the end
        adaptedCumSumOp := ⟨adaptedShape, srcOp.dim, adaptedShape⟩
        cumsumOutput := ⟨adaptedShape, srcOp.output.map toI32, srcOp.output⟩ }

/-! ## What is emitted -/

/-- What the operations of the first pattern compute. -/
def Permuted.apply {α : Type} [AddCommMonoid α] (e : Permuted) (x : Tensor α) :
    Option (Tensor α) :=
  (e.adaptedCumSumOp.eval (e.adaptedInput.apply x)).map e.result.apply

/-- What the operations of the second pattern compute. -/
def Reshaped.apply {α : Type} [AddCommMonoid α] (e : Reshaped) (x : Tensor α) :
    Option (Tensor α) :=
  (e.adaptedCumSumOp.eval (x.reshape e.adaptedInput.output)).map fun y =>
    y.reshape e.cumsumOutput.output

/-- **The first pattern keeps the type and the values**, over any numbers. -/
def PermuteKeeps (srcOp : CumSumOp) : Prop :=
  ∃ r, permuteDim srcOp = .ok r ∧ ∀ e, r = some e →
    e.adaptedInput.verify = .ok () ∧ e.result.verify = .ok () ∧ e.result.output = srcOp.output ∧
      ∀ (α : Type) [AddCommMonoid α] (x : Tensor α), x.shape = srcOp.input →
        ∃ y z, srcOp.eval x = some y ∧ e.apply x = some z ∧ z.Agree y

/-- **The second pattern keeps the type and the values**, over any numbers. -/
def ReshapeKeeps (srcOp : CumSumOp) : Prop :=
  ∀ e, padRank srcOp = some e →
    e.adaptedInput.verify = .ok () ∧ e.cumsumOutput.verify = .ok () ∧
      e.cumsumOutput.output = srcOp.output ∧
      ∀ (α : Type) [AddCommMonoid α] (x : Tensor α), x.shape = srcOp.input →
        ∃ y z, srcOp.eval x = some y ∧ e.apply x = some z ∧ z.Agree y

/-- **The condition of the first pattern**: the dimension is not counted from the end, and the result
has the shape of the operand. -/
structure PermuteCondition (srcOp : CumSumOp) : Prop where
  dim : 0 ≤ srcOp.dim.toInt
  output : srcOp.output = srcOp.input

/-- **The condition of the second pattern**: the result has the shape of the operand, the reshapes
accept the extents, and where the dimension is counted from the end, it and the one that is summed
in its place have extent one. -/
structure ReshapeCondition (srcOp : CumSumOp) : Prop where
  output : srcOp.output = srcOp.input
  operand : AcceptsShape (adapt srcOp.input)
  result : AcceptsShape srcOp.output
  dim : srcOp.dim.toInt < 0 →
    srcOp.input.getD (srcOp.input.length + srcOp.dim.toInt).toNat 0 = 1 ∧
      (adapt srcOp.input).getD (4 + srcOp.dim.toInt).toNat 0 = 1

/-! ## Permuting the summed dimension to the front -/

section Permute

theorem gather_set {n : ℕ} {p : List ℕ} (hp : IsPermutation n p) {k : ℕ} (hk : k < p.length)
    {l : List ℕ} (hl : l.length = n) (a : ℕ) : gather p (l.set p[k] a) = (gather p l).set k a := by
  have hlt : ∀ {i : ℕ} (hi : i < p.length), p[i] < l.length := fun hi =>
    hl ▸ hp.lt (List.getElem_mem hi)
  refine List.ext_getElem (by simp) fun i hi hi' => ?_
  have hip : i < p.length := by simpa using hi
  rw [getElem_gather hip (by rw [List.length_set]; exact hlt hip), List.getElem_set,
    List.getElem_set, getElem_gather hip (hlt hip)]
  exact if_congr (hp.nodup.getElem_inj_iff) rfl rfl

/-- A cumulative sum along a permuted dimension. -/
theorem cumSum_permute {α : Type} [AddCommMonoid α] (x : Tensor α) {p : List ℕ} {k : ℕ}
    (hp : IsPermutation x.shape.length p) (hk : k < p.length) :
    ((cumSum k (x.permute p)).permute (inverse p)).Agree (cumSum p[k] x) := by
  have hlength : (gather p x.shape).length = x.shape.length := by
    rw [length_gather, hp.length_eq]
  refine ⟨hp.gather_inverse_gather rfl, fun idx hidx => ?_⟩
  have hidxlen : idx.length = x.shape.length := by
    rw [hidx.length_eq]
    exact (length_gather _ _).trans (by rw [length_inverse, hp.length_eq])
  have hkn : p[k] < x.shape.length := hp.lt (List.getElem_mem hk)
  show ((List.range ((gather (inverse (inverse p)) idx).getD k 0 + 1)).map fun j =>
      x.elem (gather (inverse p) ((gather (inverse (inverse p)) idx).set k j))).sum
    = ((List.range (idx.getD p[k] 0 + 1)).map fun j => x.elem (idx.set p[k] j)).sum
  have hentry : (gather p idx).getD k 0 = idx.getD p[k] 0 := by
    have hlt : k < (gather p idx).length := by rwa [length_gather]
    rw [List.getD_eq_getElem _ _ hlt, getElem_gather hk (hidxlen ▸ hkn),
      List.getD_eq_getElem _ _ (hidxlen ▸ hkn)]
  rw [hp.gather_inverse_inverse hidxlen, hentry]
  congr 1
  refine List.map_congr_left fun j _ => ?_
  rw [← gather_set hp hk hidxlen, hp.gather_inverse_gather (by rw [List.length_set, hidxlen])]

end Permute

/-! ## Ones behind the shape -/

section Adapt

variable {shape idx : List ℕ}

theorem rowMajor_onesBehind (m : ℕ) (h : idx.length = shape.length) :
    rowMajor (shape ++ List.replicate m 1) (idx ++ List.replicate m 0) = rowMajor shape idx := by
  rw [rowMajor_append _ _ h, List.prod_replicate, one_pow, mul_one, rowMajor_replicate_zero,
    Nat.add_zero]

theorem prod_onesBehind (m : ℕ) (shape : List ℕ) :
    (shape ++ List.replicate m 1).prod = shape.prod := by
  rw [List.prod_append, List.prod_replicate, one_pow, mul_one]

theorem length_adapt (hrank : shape.length < 4) : (adapt shape).length = 4 := by
  rw [adapt, List.length_append, List.length_replicate]
  omega

theorem unravel_adapt (hidx : InShape idx shape) : unravel (adapt shape) (rowMajor shape idx)
      = idx ++ List.replicate (4 - shape.length) 0 := by
  rw [← rowMajor_onesBehind (4 - shape.length) hidx.length_eq]
  refine unravel_rowMajor (List.rel_append hidx ?_)
  rw [List.forall₂_iff_get]
  refine ⟨by simp, fun i _ _ => ?_⟩
  simp

variable {α : Type}

theorem reshape_adapt (x : Tensor α) (hidx : InShape idx x.shape) :
    (x.reshape (adapt x.shape)).elem (idx ++ List.replicate (4 - x.shape.length) 0)
      = x.elem idx := by
  show x.elem (unravel x.shape (rowMajor (adapt x.shape) _)) = _
  rw [adapt, rowMajor_onesBehind _ hidx.length_eq, unravel_rowMajor hidx]

/-- An index stays one where an entry gets smaller. -/
theorem inShape_set {k j : ℕ} (hidx : InShape idx shape) (hj : j ≤ idx.getD k 0) :
    InShape (idx.set k j) shape := by
  rw [InShape, List.forall₂_iff_get]
  refine ⟨by rw [List.length_set, hidx.length_eq], fun i hi hi' => ?_⟩
  have hilt : i < idx.length := hidx.length_eq ▸ hi'
  have hlt : idx[i] < shape[i] := hidx.get hilt hi'
  show (idx.set k j)[i] < shape[i]
  rw [List.getElem_set]
  split_ifs with hki
  · subst hki
    rw [List.getD_eq_getElem _ _ hilt] at hj
    omega
  · exact hlt

/-- **A cumulative sum of the wide operand**, along one of the operand's own dimensions. -/
theorem cumSum_adapt [AddCommMonoid α] (x : Tensor α) {k : ℕ}
    (hk : k < x.shape.length) (hidx : InShape idx x.shape) :
    (cumSum k (x.reshape (adapt x.shape))).elem (idx ++ List.replicate (4 - x.shape.length) 0)
      = (cumSum k x).elem idx := by
  have hlt : k < idx.length := hidx.length_eq ▸ hk
  show ((List.range ((idx ++ _).getD k 0 + 1)).map fun j =>
      (x.reshape (adapt x.shape)).elem ((idx ++ _).set k j)).sum
    = ((List.range (idx.getD k 0 + 1)).map fun j => x.elem (idx.set k j)).sum
  rw [List.getD_append _ _ _ _ hlt]
  congr 1
  refine List.map_congr_left fun j hj => ?_
  rw [List.set_append_left _ _ hlt]
  exact reshape_adapt x (inShape_set hidx (Nat.lt_succ_iff.mp (List.mem_range.mp hj)))

theorem cumSum_unit [AddCommMonoid α] (x : Tensor α) {k : ℕ} (hk : k < x.shape.length)
    (hone : x.shape.getD k 0 = 1) (hidx : InShape idx x.shape) :
    (cumSum k x).elem idx = x.elem idx := by
  have hlt : k < idx.length := hidx.length_eq ▸ hk
  have hzero : idx.getD k 0 = 0 := by
    have hbound := getD_lt_of_inShape hidx hk
    omega
  have hself : idx.set k 0 = idx := by
    rw [← hzero, List.getD_eq_getElem _ _ hlt, List.set_getElem_self]
  show ((List.range (idx.getD k 0 + 1)).map fun j => x.elem (idx.set k j)).sum = _
  rw [hzero]
  simp [hself]

/-- **A cumulative sum between two reshapes**, along the same dimension, or along others of extent
one. -/
theorem cumSum_wide [AddCommMonoid α] (x : Tensor α) {k l : ℕ} (hk : k < x.shape.length)
    (hl : l = k ∨ l < (adapt x.shape).length ∧ x.shape.getD k 0 = 1 ∧
      (adapt x.shape).getD l 0 = 1) :
    ((cumSum l (x.reshape (adapt x.shape))).reshape x.shape).Agree (cumSum k x) := by
  refine ⟨rfl, fun idx hidx => ?_⟩
  replace hidx : InShape idx x.shape := hidx
  show (cumSum l (x.reshape (adapt x.shape))).elem
    (unravel (adapt x.shape) (rowMajor x.shape idx)) = _
  rcases hl with rfl | ⟨hlt, hone, hwideOne⟩
  · rw [unravel_adapt hidx, cumSum_adapt x hk hidx]
  · have hwideIdx : InShape (unravel (adapt x.shape) (rowMajor x.shape idx)) (adapt x.shape) := by
      refine inShape_unravel _ _ ?_
      rw [adapt, prod_onesBehind]
      exact rowMajor_lt hidx
    rw [cumSum_unit (x.reshape (adapt x.shape)) hlt hwideOne hwideIdx, unravel_adapt hidx,
      cumSum_unit x hk hone hidx, reshape_adapt x hidx]

end Adapt

/-! ## What the patterns preserve -/

theorem VerifiedCumSumOp.inRange (op : VerifiedCumSumOp) :
    -(op.input.length : ℤ) ≤ op.dim.toInt ∧ op.dim.toInt < op.input.length := by
  have h := op.verified
  rw [CumSumOp.verify] at h
  split_ifs at h with hrange
  rw [not_or] at hrange
  omega

theorem VerifiedCumSumOp.hasBit (op : VerifiedCumSumOp) : HasBit op.input.length op.dim.toInt := by
  have hrange := op.inRange
  rw [HasBit, normalizeDim]
  split_ifs <;> omega

theorem VerifiedCumSumOp.toNat_dim (op : VerifiedCumSumOp) :
    (0 ≤ op.dim.toInt → (op.dim.toNat : ℤ) = op.dim.toInt ∧ op.dim.toNat < op.input.length) ∧
      (op.dim.toInt < 0 → op.input.length ≤ op.dim.toNat) := by
  have hrange := op.inRange
  have hrank := op.rank_lt
  have hlt := op.dim.isLt
  rw [BitVec.toInt_eq_toNat_cond] at hrange ⊢
  split_ifs at hrange ⊢ <;> omega

section Keeps

variable {srcOp : VerifiedCumSumOp}

/-- The condition of the first pattern is enough. -/
theorem permuteKeeps_of_condition
    (hcondition : 1 < srcOp.dim.toNat → PermuteCondition srcOp.toCumSumOp) :
    PermuteKeeps srcOp.toCumSumOp := by
  by_cases hone : srcOp.dim.toNat ≤ 1
  · exact ⟨none, if_pos hone, fun e he => nomatch he⟩
  obtain ⟨hnonneg, houtput⟩ := hcondition (not_le.mp hone)
  obtain ⟨hdim, hlt⟩ := srcOp.toNat_dim.1 hnonneg
  refine ⟨_, (if_neg hone).trans (if_neg (not_le.mpr hlt)), fun e he => ?_⟩
  obtain rfl := Option.some.inj he
  have hpos : 0 < srcOp.input.length := Nat.zero_lt_of_lt hlt
  have hp := isPermutation_swapped hpos hlt
  have hplen : 0 < (swapped srcOp.input.length 0 srcOp.dim.toNat).length := by
    rwa [length_swapped]
  have hentry : (swapped srcOp.input.length 0 srcOp.dim.toNat)[0] = srcOp.dim.toNat := by
    simp [swapped]
  have hnorm : (normalizeDim srcOp.input.length srcOp.dim.toInt).toNat = srcOp.dim.toNat := by
    rw [normalizeDim, if_neg (not_lt.mpr hnonneg), ← hdim, Int.toNat_natCast]
  have hwideLength : (gather (swapped srcOp.input.length 0 srcOp.dim.toNat) srcOp.input).length
      = srcOp.input.length := by rw [length_gather, length_swapped]
  have hback : gather (inverse (swapped srcOp.input.length 0 srcOp.dim.toNat))
      (gather (swapped srcOp.input.length 0 srcOp.dim.toNat) srcOp.input) = srcOp.output := by
    rw [hp.gather_inverse_gather rfl, houtput]
  refine ⟨PermuteOp.verify_gather hp, ?_, rfl, fun α _ x hx => ?_⟩
  · have hinverse : IsPermutation
        (gather (swapped srcOp.input.length 0 srcOp.dim.toNat) srcOp.input).length
        (inverse (swapped srcOp.input.length 0 srcOp.dim.toNat)) := hwideLength.symm ▸ hp.inverse
    have hverify := PermuteOp.verify_gather hinverse
    rw [hback] at hverify
    exact hverify
  · have hbit : HasBit (gather (swapped srcOp.input.length 0 srcOp.dim.toNat) srcOp.input).length
        (BitVec.toInt (0 : BitVec 64)) := by
      rw [hwideLength, HasBit]
      exact ⟨le_rfl, Int.natCast_pos.mpr hpos⟩
    refine ⟨_, _, if_pos ⟨srcOp.hasBit, houtput⟩, congrArg (Option.map _) (if_pos ⟨hbit, rfl⟩), ?_⟩
    have hagree := cumSum_permute x (hx.symm ▸ hp) hplen
    rw [hentry] at hagree
    rw [hnorm]
    have hints : ∀ l : List ℕ, (l.map fun n : ℕ => (n : ℤ)).map Int.toNat = l := by
      intro l
      rw [List.map_map]
      exact List.map_id _
    show Tensor.Agree ((cumSum _ (x.permute (List.map Int.toNat _))).permute
      (List.map Int.toNat _)) _
    rw [hints, hints]
    exact hagree

/-- The condition of the first pattern is needed. -/
theorem condition_of_permuteKeeps (hkeeps : PermuteKeeps srcOp.toCumSumOp)
    (hone : 1 < srcOp.dim.toNat) : PermuteCondition srcOp.toCumSumOp := by
  obtain ⟨r, hr, hvalues⟩ := hkeeps
  have hnonneg : 0 ≤ srcOp.dim.toInt := by
    by_contra hneg
    have hle := srcOp.toNat_dim.2 (not_le.mp hneg)
    exact nomatch (((if_neg (not_le.mpr hone)).trans (if_pos hle)).symm.trans hr)
  obtain ⟨-, hlt⟩ := srcOp.toNat_dim.1 hnonneg
  have hsome := ((if_neg (not_le.mpr hone)).trans (if_neg (not_le.mpr hlt))).symm.trans hr
  obtain ⟨-, -, -, hall⟩ := hvalues _ (Except.ok.inj hsome).symm
  obtain ⟨y, -, hy, -⟩ := hall ℕ ⟨srcOp.input, fun _ => 0⟩ rfl
  rw [CumSumOp.eval] at hy
  split_ifs at hy with hdefined
  exact ⟨hnonneg, hdefined.2⟩

/-- **The cumulative sums that the first pattern preserves.** -/
theorem permute_keeps_iff : PermuteKeeps srcOp.toCumSumOp ↔
    (1 < srcOp.dim.toNat → PermuteCondition srcOp.toCumSumOp) :=
  ⟨condition_of_permuteKeeps, permuteKeeps_of_condition⟩

/-- The dimension of the wide operand that is summed. -/
theorem wide_dim (hrank : srcOp.input.length < 4) :
    HasBit (adapt srcOp.input).length srcOp.dim.toInt ∧
      (0 ≤ srcOp.dim.toInt → (normalizeDim (adapt srcOp.input).length srcOp.dim.toInt).toNat
        = (normalizeDim srcOp.input.length srcOp.dim.toInt).toNat) ∧
      (srcOp.dim.toInt < 0 → (normalizeDim (adapt srcOp.input).length srcOp.dim.toInt).toNat
        = (4 + srcOp.dim.toInt).toNat) := by
  have hrange := srcOp.inRange
  rw [length_adapt hrank, HasBit, normalizeDim, normalizeDim]
  refine ⟨?_, fun h => ?_, fun h => ?_⟩
  · split_ifs <;> omega
  · rw [if_neg (not_lt.mpr h), if_neg (not_lt.mpr h)]
  · rw [if_pos h]
    congr 1
    ring

/-- The condition of the second pattern is enough. -/
theorem reshapeKeeps_of_condition
    (hcondition : srcOp.input.length < 4 → ReshapeCondition srcOp.toCumSumOp) :
    ReshapeKeeps srcOp.toCumSumOp := by
  intro e he
  have hrank : srcOp.input.length < 4 := by
    by_contra hnot
    rw [padRank, if_pos (not_lt.mp hnot)] at he
    exact nomatch he
  obtain rfl := Option.some.inj ((if_neg (not_le.mpr hrank)).symm.trans he)
  obtain ⟨houtput, hoperand, hresult, hdim⟩ := hcondition hrank
  obtain ⟨hwideBit, hfront, hend⟩ := wide_dim hrank
  have hbit := srcOp.hasBit
  refine ⟨GatherOp.verify_createReshapeOp_iff.mpr ⟨(prod_onesBehind _ _).symm, hoperand⟩,
    GatherOp.verify_createReshapeOp_iff.mpr ⟨?_, hresult⟩, rfl, fun α _ x hx => ?_⟩
  · rw [houtput]
    exact prod_onesBehind _ _
  obtain ⟨shape, elem⟩ := x
  obtain rfl : shape = srcOp.input := hx
  have hklt : (normalizeDim srcOp.input.length srcOp.dim.toInt).toNat < srcOp.input.length := by
    have hlow := hbit.1
    have hbound := hbit.2
    omega
  have hwide : (normalizeDim (adapt srcOp.input).length srcOp.dim.toInt).toNat
        = (normalizeDim srcOp.input.length srcOp.dim.toInt).toNat ∨
      (normalizeDim (adapt srcOp.input).length srcOp.dim.toInt).toNat < (adapt srcOp.input).length ∧
        srcOp.input.getD (normalizeDim srcOp.input.length srcOp.dim.toInt).toNat 0 = 1 ∧
        (adapt srcOp.input).getD
          (normalizeDim (adapt srcOp.input).length srcOp.dim.toInt).toNat 0 = 1 := by
    by_cases hneg : srcOp.dim.toInt < 0
    · obtain ⟨hone, hwideOne⟩ := hdim hneg
      have hlow := hwideBit.1
      have hbound := hwideBit.2
      refine .inr ⟨by omega, ?_, by rw [hend hneg, hwideOne]⟩
      rw [normalizeDim, if_pos hneg, add_comm, hone]
    · exact .inl (hfront (not_lt.mp hneg))
  refine ⟨_, _, if_pos ⟨hbit, houtput⟩, congrArg (Option.map _) (if_pos ⟨hwideBit, rfl⟩), ?_⟩
  show Tensor.Agree ((cumSum _ (Tensor.reshape ⟨srcOp.input, elem⟩ (adapt srcOp.input))).reshape
    srcOp.output) _
  rw [houtput]
  exact cumSum_wide ⟨srcOp.input, elem⟩ hklt hwide

theorem cumSum_ones (shape : List ℕ) (k : ℕ) (idx : List ℕ) :
    (cumSum k (⟨shape, fun _ => 1⟩ : Tensor ℕ)).elem idx = idx.getD k 0 + 1 := by
  show ((List.range (idx.getD k 0 + 1)).map fun _ => 1).sum = _
  rw [List.map_const', List.length_range, List.sum_replicate, smul_eq_mul, mul_one]

/-- An entry of an index, with zeros behind it, is that of another one. -/
theorem extents_of_entries {shape : List ℕ} (hpos : ∀ n ∈ adapt shape, 0 < n) {k l : ℕ}
    (hk : k < shape.length) (hl : l < (adapt shape).length) (hne : k ≠ l)
    (h : ∀ idx, InShape idx shape →
      (idx ++ List.replicate (4 - shape.length) 0).getD l 0 = idx.getD k 0) :
    shape.getD k 0 = 1 ∧ (adapt shape).getD l 0 = 1 := by
  have hshapePos : ∀ n ∈ shape, 0 < n := fun n hn => hpos n (List.mem_append_left _ hn)
  have hunit : ∀ i < shape.length, ∀ j, (unit shape.length i ++
      List.replicate (4 - shape.length) 0).getD j 0 = if j = i then 1 else 0 := by
    intro i hi j
    have hlength : (unit shape.length i).length = shape.length := by simp [unit]
    by_cases hj : j < shape.length
    · rw [List.getD_append _ _ _ _ (hlength.symm ▸ hj), getD_unit hi]
    · rw [List.getD_append_right _ _ _ _ (by omega), if_neg (by omega),
        List.getD_eq_getElem?_getD, List.getElem?_replicate]
      split_ifs <;> rfl
  have hkPos : 0 < shape.getD k 0 := by
    rw [List.getD_eq_getElem _ _ hk]
    exact hshapePos _ (List.getElem_mem hk)
  have hlPos : 0 < (adapt shape).getD l 0 := by
    rw [List.getD_eq_getElem _ _ hl]
    exact hpos _ (List.getElem_mem hl)
  constructor
  · by_contra hother
    have hat := h _ (inShape_unit hshapePos (by omega : 2 ≤ shape.getD k 0))
    rw [hunit k hk, getD_unit hk, if_neg hne.symm, if_pos rfl] at hat
    exact Nat.zero_ne_one hat
  · by_contra hother
    have hlt : l < shape.length := by
      by_contra hge
      have hin : l - shape.length < (List.replicate (4 - shape.length) 1).length := by
        rw [adapt, List.length_append] at hl
        omega
      rw [adapt, List.getD_append_right _ _ _ _ (not_lt.mp hge), List.getD_eq_getElem _ _ hin,
        List.getElem_replicate] at hother
      exact hother rfl
    rw [adapt, List.getD_append _ _ _ _ hlt] at hother hlPos
    have hat := h _ (inShape_unit hshapePos (by omega : 2 ≤ shape.getD l 0))
    rw [hunit l hlt, getD_unit hlt, if_pos rfl, if_neg hne] at hat
    exact Nat.zero_ne_one hat.symm

/-- The condition of the second pattern is needed: a sum of ones counts along another dimension. -/
theorem condition_of_reshapeKeeps (hkeeps : ReshapeKeeps srcOp.toCumSumOp)
    (hrank : srcOp.input.length < 4) : ReshapeCondition srcOp.toCumSumOp := by
  obtain ⟨hpre, hpost, -, hvalues⟩ := hkeeps _ (if_neg (not_le.mpr hrank))
  have hoperand := (GatherOp.verify_createReshapeOp_iff.mp hpre).2
  have hresult := (GatherOp.verify_createReshapeOp_iff.mp hpost).2
  obtain ⟨y, z, hy, hz, hshape, helem⟩ := hvalues ℕ ⟨srcOp.input, fun _ => 1⟩ rfl
  rw [CumSumOp.eval] at hy
  split_ifs at hy with hdefined
  obtain ⟨-, houtput⟩ := hdefined
  refine ⟨houtput, hoperand, hresult, fun hneg => ?_⟩
  have hbit := srcOp.hasBit
  obtain ⟨hwideBit, -, hend⟩ := wide_dim hrank
  obtain ⟨w, hw, rfl⟩ := Option.map_eq_some_iff.mp hz
  rw [CumSumOp.eval, if_pos ⟨hwideBit, rfl⟩] at hw
  obtain rfl := Option.some.inj hw
  obtain rfl := Option.some.inj hy
  have hnorm : (normalizeDim srcOp.input.length srcOp.dim.toInt).toNat
      = (srcOp.input.length + srcOp.dim.toInt).toNat := by
    rw [normalizeDim, if_pos hneg, add_comm]
  have hwide := hend hneg
  have hrange := srcOp.inRange
  refine extents_of_entries hoperand.pos (by omega) (by rw [length_adapt hrank]; omega)
    (by omega) fun idx hidx => ?_
  have hat : (cumSum (normalizeDim (adapt srcOp.input).length srcOp.dim.toInt).toNat
      (⟨adapt srcOp.input, fun _ => 1⟩ : Tensor ℕ)).elem
        (unravel (adapt srcOp.input) (rowMajor srcOp.output idx))
      = (cumSum (normalizeDim srcOp.input.length srcOp.dim.toInt).toNat
          (⟨srcOp.input, fun _ => 1⟩ : Tensor ℕ)).elem idx := helem idx (houtput ▸ hidx)
  rw [cumSum_ones, cumSum_ones, houtput, unravel_adapt hidx, hwide, hnorm] at hat
  exact Nat.succ.inj hat

/-- **The cumulative sums that the second pattern preserves.** -/
theorem reshape_keeps_iff : ReshapeKeeps srcOp.toCumSumOp ↔
    (srcOp.input.length < 4 → ReshapeCondition srcOp.toCumSumOp) :=
  ⟨condition_of_reshapeKeeps, reshapeKeeps_of_condition⟩

end Keeps

end CumSum

/-! ## All the patterns -/

/-- An argmax that passes the check of the operation it is converted from. -/
structure VerifiedArgMaxOp : Type extends ArgMax.ArgMaxOp where
  verified : verifyReduceOp toArgMaxOp.toReduceOp = .ok ()

/-- An operation, and a pattern that is tried on it. -/
inductive Workaround : Type where
  | keepDim (keepDimUnsupported : Bool) (srcOp : VerifiedReduceOp)
  | padInput (kind : PadInput.Kind) (srcOp : VerifiedReduceOp)
  | cumSumDim (srcOp : CumSum.VerifiedCumSumOp)
  | cumSumRank (srcOp : CumSum.VerifiedCumSumOp)
  | argMax (srcOp : VerifiedArgMaxOp)

namespace Workaround

/-- **The replacement, if there is one, has the type and the values of the operation.** -/
def Keeps : Workaround → Prop
  | keepDim keepDimUnsupported srcOp => KeepDim.Keeps keepDimUnsupported srcOp.toReduceOp
  | padInput kind srcOp => PadInput.Keeps kind srcOp.toReduceOp
  | cumSumDim srcOp => CumSum.PermuteKeeps srcOp.toCumSumOp
  | cumSumRank srcOp => CumSum.ReshapeKeeps srcOp.toCumSumOp
  | argMax srcOp => ArgMax.Keeps srcOp.toArgMaxOp

/-- **The condition**, for the operations that a pattern replaces. -/
def Supported : Workaround → Prop
  | keepDim keepDimUnsupported srcOp =>
    KeepDim.isWorkaroundRequired keepDimUnsupported srcOp.toReduceOp = true →
      KeepDim.Condition srcOp.toReduceOp
  | padInput _ _ => True
  | cumSumDim srcOp => 1 < srcOp.dim.toNat → CumSum.PermuteCondition srcOp.toCumSumOp
  | cumSumRank srcOp => srcOp.input.length < 4 → CumSum.ReshapeCondition srcOp.toCumSumOp
  | argMax srcOp => srcOp.input.length < 4 → ArgMax.Condition srcOp.toArgMaxOp

/-- **What the patterns preserve**: exactly the operations that meet the condition. -/
theorem keeps_iff_supported (w : Workaround) : w.Keeps ↔ w.Supported := by
  cases w with
  | keepDim keepDimUnsupported srcOp => exact KeepDim.keeps_iff_condition srcOp.verified
  | padInput kind srcOp => exact iff_of_true (PadInput.keeps kind srcOp.verified) trivial
  | cumSumDim srcOp => exact CumSum.permute_keeps_iff
  | cumSumRank srcOp => exact CumSum.reshape_keeps_iff
  | argMax srcOp => exact ArgMax.keeps_iff_condition srcOp.verified

/-- The argmax over the last of three dimensions, counted from the end. -/
def lastOfThree : VerifiedArgMaxOp := ⟨⟨[2, 3, 5], some (-1), false, [2, 3]⟩, rfl⟩

/-- **A dimension counted from the end is shifted away from it**: the argmax runs along the new first
dimension. -/
theorem lastOfThree_not_keeps : ¬(argMax lastOfThree).Keeps := by
  intro h
  have hcondition := ArgMax.condition_of_keeps lastOfThree.verified h (by decide)
  exact absurd (hcondition.dim (-1) rfl (by decide)).1 (by decide)

end Workaround

end TTNN
