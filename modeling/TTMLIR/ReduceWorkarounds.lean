/-
# Reductions in the form that the kernels support

The patterns `ReduceOpsKeepDimRewritePattern`, `ReduceOpsPadInputRewritePattern` and
`ArgMaxOpRewritePattern` of the TTNN workarounds: a reduction keeps its dimensions and is reshaped;
the reduced dimensions of a maximum are padded to whole tiles; an argmax works on four dimensions.

* `KeepDim.matchAndRewrite`, `PadInput.matchAndRewrite`, `ArgMax.matchAndRewrite` : the translated
  patterns;
* `KeepDim.keeps_iff_condition`, `PadInput.keeps`, `ArgMax.keeps_iff_condition` : which results have
  the type and the values of the operation that is replaced.
-/
import TTMLIR.GatherToEmbedding
import TTMLIR.ReduceOps
import TTMLIR.UnitExtents

namespace TTNN

open MixedRadix TTIR AxisReduction

/-- A reduction that passes the check. -/
structure VerifiedReduceOp : Type extends ReduceOp where
  verified : verifyReduceOp toReduceOp = .ok ()

/-- `getReduceDims`. -/
def getReduceDims (dimArg : Option (List ℤ)) : List ℤ := dimArg.getD []

/-! ## Keeping the dimensions -/

namespace KeepDim

/-- `calculateNewReduceShape`. -/
def calculateNewReduceShape (inputShape : List ℕ) (dimArg : Option (List ℤ)) : List ℕ :=
  let reduceDims := getReduceDims dimArg
  if reduceDims = [] then inputShape.map fun _ => 1
  else reduceDims.foldl
    (fun shape dim => shape.set (normalizeDim inputShape.length dim).toNat 1) inputShape

/-- `isWorkaroundRequired`. -/
def isWorkaroundRequired (keepDimUnsupported : Bool) (srcOp : ReduceOp) : Bool :=
  if srcOp.keepDim then false
  else if keepDimUnsupported then true
  else srcOp.dimArg = none ∨ srcOp.dimArg = some [] ∨
    srcOp.dimArg.map List.length = some srcOp.input.length

/-- What is emitted: a reduction that keeps its dimensions, and a reshape where the rank differs. -/
structure Emitted : Type where
  newReduceOp : ReduceOp
  reshape : Option ReshapeOp

/-- `ReduceOpsKeepDimRewritePattern::matchAndRewrite`. -/
def matchAndRewrite (keepDimUnsupported : Bool) (srcOp : ReduceOp) : Option Emitted :=
  if isWorkaroundRequired keepDimUnsupported srcOp then
    let outputShapeVec := calculateNewReduceShape srcOp.input srcOp.dimArg
    some
      { newReduceOp := ⟨srcOp.input, srcOp.dimArg, true, outputShapeVec⟩
        reshape :=
          if srcOp.output.length < srcOp.input.length then
            some ⟨outputShapeVec, srcOp.output.map toI32, srcOp.output⟩
          else none }
  else none

namespace Emitted

/-- The emitted operations pass their checks. -/
structure Verified (e : Emitted) : Prop where
  newReduceOp : verifyReduceOp e.newReduceOp = .ok ()
  reshape : ∀ r ∈ e.reshape, r.verify = .ok ()

/-- The shape of the replacement. -/
def output (e : Emitted) : List ℕ :=
  match e.reshape with
  | some r => r.output
  | none => e.newReduceOp.output

/-- What the emitted operations compute. -/
def apply {α β : Type} (f : List α → β) (e : Emitted) (x : Tensor α) : Tensor β :=
  match e.reshape with
  | some r => (e.newReduceOp.eval f x).reshape r.output
  | none => e.newReduceOp.eval f x

end Emitted

/-- **What is emitted keeps the type and the values**, for any reduction. -/
def Keeps (keepDimUnsupported : Bool) (srcOp : ReduceOp) : Prop :=
  ∀ e, matchAndRewrite keepDimUnsupported srcOp = some e →
    e.Verified ∧ e.output = srcOp.output ∧
      ∀ (α β : Type) (f : List α → β) (x : Tensor α), x.shape = srcOp.input →
        (e.apply f x).Agree (srcOp.eval f x)

/-- **The condition**: the operand has a dimension, an empty list of dimensions comes with extents of
one only, and the extents of the result are accepted by the reshape. -/
structure Condition (srcOp : ReduceOp) : Prop where
  rank : srcOp.input ≠ []
  dims : srcOp.dimArg = some [] → ∀ n ∈ srcOp.input, n = 1
  reshape : srcOp.output.length < srcOp.input.length → AcceptsShape srcOp.output

/-! ### The new shape -/

theorem kept_true_eq (axes : List (Bool × ℕ)) :
    kept true axes = axes.map fun a => if a.1 then 1 else a.2 := by
  induction axes with
  | nil => rfl
  | cons a axes ih =>
    obtain ⟨marked, n⟩ := a
    cases marked with
    | true => rw [kept, if_pos rfl, ih]; rfl
    | false => rw [kept, ih]; rfl

/-- The loop over the dimensions sets the marked extents to one. -/
theorem foldl_set_eq (rank : ℕ) (dims : List ℤ) (hdims : ∀ dim ∈ dims, HasBit rank dim)
    (shape : List ℕ) :
    dims.foldl (fun shape dim => shape.set (normalizeDim rank dim).toNat 1) shape
      = shape.zipIdx.map fun p => if reduceDimsMask rank (some dims) p.2 then 1 else p.1 := by
  induction dims generalizing shape with
  | nil => exact (List.zipIdx_map_fst 0 shape).symm
  | cons dim dims ih =>
    have hbit := hdims dim List.mem_cons_self
    rw [List.foldl_cons, ih (fun d hd => hdims d (List.mem_cons_of_mem _ hd))]
    refine List.ext_getElem (by simp) fun i hi hi' => ?_
    have hmark : (normalizeDim rank dim).toNat = i ↔ normalizeDim rank dim = i := by
      have hnonneg := hbit.1
      omega
    simp only [List.getElem_map, List.getElem_zipIdx, List.getElem_set, Nat.zero_add, hmark,
      reduceDimsMask, List.any_cons, Bool.or_eq_true, decide_eq_true_eq]
    by_cases hany : (dims.any fun d => decide (normalizeDim rank d = i)) = true
    · rw [if_pos hany, if_pos (.inr hany)]
    · rw [if_neg hany]
      simp only [hany, or_false, Bool.false_eq_true]

/-- **The new shape is the expected one**, except for an empty list of dimensions. -/
theorem calculateNewReduceShape_eq_iff {srcOp : ReduceOp}
    (hbits : ∀ dim ∈ srcOp.dimArg.getD [], HasBit srcOp.input.length dim) :
    calculateNewReduceShape srcOp.input srcOp.dimArg = kept true srcOp.axes ↔
      (srcOp.dimArg = some [] → ∀ n ∈ srcOp.input, n = 1) := by
  obtain ⟨input, dimArg, keepDim, output⟩ := srcOp
  rw [kept_true_eq, ReduceOp.axes, List.map_map]
  cases dimArg with
  | none =>
    refine iff_of_true ?_ (fun h => absurd h.symm (Option.some_ne_none _))
    rw [calculateNewReduceShape, getReduceDims, Option.getD_none, if_pos rfl]
    conv_lhs => rw [← List.zipIdx_map_fst 0 input, List.map_map]
    rfl
  | some dims =>
    cases dims with
    | nil =>
      have hsame : ((fun a : Bool × ℕ => if a.1 then 1 else a.2) ∘ fun p : ℕ × ℕ =>
          (reduceDimsMask input.length (some []) p.2, p.1)) = Prod.fst := rfl
      rw [hsame, List.zipIdx_map_fst, calculateNewReduceShape, getReduceDims, Option.getD_some,
        if_pos rfl]
      constructor
      · intro h _ n hn
        rw [← h] at hn
        obtain ⟨_, -, hone⟩ := List.mem_map.mp hn
        exact hone.symm
      · intro h
        refine (List.map_congr_left fun n hn => ?_).trans (List.map_id _)
        exact (h rfl n hn).symm
    | cons dim dims =>
      refine iff_of_true ?_ (fun h => absurd (Option.some.inj h) (List.cons_ne_nil _ _))
      rw [calculateNewReduceShape, getReduceDims, Option.getD_some,
        if_neg (List.cons_ne_nil _ _)]
      exact foldl_set_eq _ _ hbits _

/-! ### What is emitted -/

section Keeps

variable {srcOp : ReduceOp}

theorem verify_newReduceOp_iff {shape : List ℕ}
    (hbits : ∀ dim ∈ srcOp.dimArg.getD [], HasBit srcOp.input.length dim) :
    verifyReduceOp ⟨srcOp.input, srcOp.dimArg, true, shape⟩ = .ok () ↔
      shape = kept true srcOp.axes := by
  have hexpected : (ReduceOp.mk srcOp.input srcOp.dimArg true shape).expectedOutputShape
      = kept true srcOp.axes := if_neg fun h => absurd h.2 (Ne.symm Bool.false_ne_true)
  rw [verifyReduceOp_eq_ok, hexpected]
  exact and_iff_right hbits

/-- A reduction that drops no dimension keeps the shape of the kept dimensions. -/
theorem kept_eq_of_length {axes : List (Bool × ℕ)} (h : axes.length ≤ (kept false axes).length) :
    kept true axes = kept false axes := by
  have hle : ∀ axes : List (Bool × ℕ), (kept false axes).length ≤ axes.length := by
    intro axes
    induction axes with
    | nil => exact le_rfl
    | cons a axes ih =>
      obtain ⟨marked, n⟩ := a
      cases marked with
      | true => exact ih.trans (Nat.le_succ _)
      | false => exact Nat.succ_le_succ ih
  induction axes with
  | nil => rfl
  | cons a axes ih =>
    obtain ⟨marked, n⟩ := a
    cases marked with
    | true => exact absurd (h.trans (hle axes)) (Nat.not_succ_le_self _)
    | false => rw [kept, kept, ih (Nat.le_of_succ_le_succ h)]

/-- Without a reshape, the kept dimensions are the shape of the result. -/
theorem output_eq_of_not_lt (hrank : srcOp.input ≠ []) (hkeep : srcOp.keepDim = false)
    (houtput : srcOp.output = srcOp.expectedOutputShape)
    (h : ¬srcOp.output.length < srcOp.input.length) : kept true srcOp.axes = srcOp.output := by
  have hlength : srcOp.axes.length = srcOp.input.length := by
    rw [← srcOp.extents_axes, List.length_map]
  rw [houtput, ReduceOp.expectedOutputShape, hkeep] at h ⊢
  split_ifs at h ⊢ with hedge
  · -- the only dimension is reduced
    have hone : srcOp.axes.length = 1 := by
      have hpos := List.length_pos_iff.mpr hrank
      rw [List.length_singleton] at h
      omega
    obtain ⟨⟨marked, n⟩, haxes⟩ := List.length_eq_one_iff.mp hone
    rw [haxes] at hedge ⊢
    cases marked with
    | true => rfl
    | false => exact absurd hedge.1 (List.cons_ne_nil _ _)
  · exact kept_eq_of_length (by omega)

variable {keepDimUnsupported : Bool}

/-- **The condition is enough.** -/
theorem keeps_of_condition (hverified : verifyReduceOp srcOp = .ok ())
    (hcondition : isWorkaroundRequired keepDimUnsupported srcOp = true → Condition srcOp) :
    Keeps keepDimUnsupported srcOp := by
  intro e he
  obtain ⟨hbits, houtput⟩ := verifyReduceOp_eq_ok.mp hverified
  have hrequired : isWorkaroundRequired keepDimUnsupported srcOp = true := by
    by_contra hnot
    rw [matchAndRewrite, if_neg hnot] at he
    exact nomatch he
  rw [matchAndRewrite, if_pos hrequired] at he
  obtain rfl := Option.some.inj he
  obtain ⟨hrank, hdims, hreshape⟩ := hcondition hrequired
  have hkeep : srcOp.keepDim = false := by
    rw [isWorkaroundRequired] at hrequired
    split_ifs at hrequired with hkeep
    all_goals exact Bool.eq_false_iff.mpr hkeep
  have hnew := (calculateNewReduceShape_eq_iff hbits).mpr hdims
  have hprod : srcOp.output.prod = (kept true srcOp.axes).prod := by
    rw [houtput, srcOp.prod_expectedOutputShape, prod_kept]
  have hverify : verifyReduceOp ⟨srcOp.input, srcOp.dimArg, true,
      calculateNewReduceShape srcOp.input srcOp.dimArg⟩ = .ok () :=
    (verify_newReduceOp_iff hbits).mpr hnew
  obtain ⟨-, hexpected⟩ := verifyReduceOp_eq_ok.mp hverify
  by_cases hlt : srcOp.output.length < srcOp.input.length
  · rw [if_pos hlt, hnew]
    rw [hnew] at hverify hexpected
    refine ⟨⟨hverify, fun r hr => ?_⟩, rfl, fun α β f x hx => ⟨rfl, fun idx hidx => ?_⟩⟩
    · obtain rfl := Option.some.inj hr
      exact GatherOp.verify_createReshapeOp_iff.mpr ⟨hprod.symm, hreshape hlt⟩
    · have hbound : rowMajor srcOp.output idx < (kept true srcOp.axes).prod :=
        hprod ▸ rowMajor_lt hidx
      have hinner := inShape_unravel (kept true srcOp.axes) _ hbound
      rw [srcOp.eval_elem houtput hidx]
      show ((ReduceOp.mk srcOp.input srcOp.dimArg true (kept true srcOp.axes)).eval f x).elem
        (unravel (kept true srcOp.axes) (rowMajor srcOp.output idx)) = _
      rw [ReduceOp.eval_elem hexpected hinner, rowMajor_unravel _ _ hbound]
      rfl
  · have hsame := output_eq_of_not_lt hrank hkeep houtput hlt
    rw [if_neg hlt, hnew]
    rw [hnew] at hverify hexpected
    refine ⟨⟨hverify, fun r hr => nomatch hr⟩, hsame, fun α β f x hx => ⟨hsame, fun idx hidx => ?_⟩⟩
    replace hidx : InShape idx (kept true srcOp.axes) := hidx
    rw [srcOp.eval_elem houtput (hsame ▸ hidx)]
    show ((ReduceOp.mk srcOp.input srcOp.dimArg true (kept true srcOp.axes)).eval f x).elem idx = _
    rw [ReduceOp.eval_elem hexpected hidx, hsame]
    rfl

/-- **The condition is needed.** -/
theorem condition_of_keeps (hverified : verifyReduceOp srcOp = .ok ())
    (hkeeps : Keeps keepDimUnsupported srcOp)
    (hrequired : isWorkaroundRequired keepDimUnsupported srcOp = true) : Condition srcOp := by
  obtain ⟨hbits, houtput⟩ := verifyReduceOp_eq_ok.mp hverified
  obtain ⟨hverify, hshape, -⟩ := hkeeps _ (if_pos hrequired)
  have hnew := (verify_newReduceOp_iff hbits).mp hverify.newReduceOp
  refine ⟨fun hnil => ?_, (calculateNewReduceShape_eq_iff hbits).mp hnew, fun hlt => ?_⟩
  · -- the replacement of a scalar has no dimension, but the scalar has one
    have hkeep : srcOp.keepDim = false := by
      rw [isWorkaroundRequired] at hrequired
      split_ifs at hrequired with hkeep
      all_goals exact Bool.eq_false_iff.mpr hkeep
    have haxes : srcOp.axes = [] := by rw [ReduceOp.axes, hnil]; rfl
    have hone : srcOp.output = [1] := by
      rw [houtput, ReduceOp.expectedOutputShape, haxes, hkeep]
      rfl
    rw [hnil, hone] at hshape
    simp only [Emitted.output, List.length_nil, Nat.not_lt_zero, if_false] at hshape
    rw [hnil, haxes] at hnew
    exact absurd (hnew.symm.trans hshape).symm (List.cons_ne_nil _ _)
  · have hreshape := hverify.reshape ⟨_, _, _⟩ (if_pos hlt)
    exact (GatherOp.verify_createReshapeOp_iff.mp hreshape).2

/-- **The reductions that are replaced faithfully.** -/
theorem keeps_iff_condition (hverified : verifyReduceOp srcOp = .ok ()) :
    Keeps keepDimUnsupported srcOp ↔
      (isWorkaroundRequired keepDimUnsupported srcOp = true → Condition srcOp) :=
  ⟨condition_of_keeps hverified, keeps_of_condition hverified⟩

end Keeps

end KeepDim

/-! ## Padding the operand -/

namespace PadInput

/-- The reductions whose operand is padded. -/
inductive Kind : Type where
  | max | min
  deriving DecidableEq

/-- Numbers separated by commas. -/
def joinInts (ns : List ℤ) : String := ",".intercalate (ns.map toString)

/-- `ttnn.pad` with an infinity: the shapes of its operand and result, the padding in front of and
behind every dimension, and the sign of the infinity. -/
structure PadOp : Type where
  input : List ℕ
  padding : List ℤ
  negative : Bool
  output : List ℕ

/-- The shape that the padding gives. -/
def PadOp.inferredShape (op : PadOp) : List ℤ :=
  (List.range op.input.length).map fun i =>
    op.input.getD i 0 + op.padding.getD (2 * i) 0 + op.padding.getD (2 * i + 1) 0

/-- `PadOp::verify`. -/
def PadOp.verify (op : PadOp) : Except String Unit :=
  if op.padding.length ≠ 2 * op.input.length then
    .error ("Padding must have the same number of elements as twice the rank of the input " ++
      "tensor")
  else if op.output.map (fun n : ℕ => (n : ℤ)) ≠ op.inferredShape then
    .error s!"Output tensor shape ({join op.output}) must match the inferred shape: ({joinInts op.inferredShape})"
  else .ok ()

/-- The operand, with the infinity around it. -/
def PadOp.apply {α : Type} [LinearOrder α] [BoundedOrder α] (op : PadOp) (x : Tensor α) :
    Tensor α :=
  ⟨op.output, fun idx =>
    if ∀ i < op.input.length, op.padding.getD (2 * i) 0 ≤ idx.getD i 0 ∧
        idx.getD i 0 - op.padding.getD (2 * i) 0 < op.input.getD i 0 then
      x.elem ((List.range op.input.length).map fun i =>
        ((idx.getD i 0 : ℤ) - op.padding.getD (2 * i) 0).toNat)
    else if op.negative then ⊥ else ⊤⟩

/-- The maximum, or the minimum, of a list. -/
def Kind.reduction {α : Type} [LinearOrder α] [BoundedOrder α] : Kind → List α → α
  | max, l => l.foldr (· ⊔ ·) ⊥
  | min, l => l.foldr (· ⊓ ·) ⊤

/-- An extent, padded to whole tiles. -/
def paddedSize (n : ℕ) : ℕ := (n + 31) / 32 * 32

/-- The loop over the reduced dimensions: the new shape and the padding. -/
def padDim (shape : List ℕ) (st : List ℕ × List ℤ) (dim : ℤ) : List ℕ × List ℤ :=
  let dim := (normalizeDim shape.length dim).toNat
  let size := shape.getD dim 0
  (st.1.set dim (paddedSize size), st.2.set (2 * dim + 1) ((paddedSize size : ℤ) - size))

/-- The new shape and the padding. -/
def padding (shape : List ℕ) (dims : List ℤ) : List ℕ × List ℤ :=
  dims.foldl (padDim shape) (shape, List.replicate (2 * shape.length) 0)

/-- `getPaddingValue`: the sign of the infinity. -/
def getPaddingValue : Kind → Bool
  | .max => true
  | .min => false

/-- What is emitted: a pad, and the reduction of its result. -/
structure Emitted : Type where
  padOp : PadOp
  srcOp : ReduceOp

/-- `ReduceOpsPadInputRewritePattern::matchAndRewrite`. -/
def matchAndRewrite (kind : Kind) (srcOp : ReduceOp) : Option Emitted :=
  let (newShape, paddingArray) := padding srcOp.input (getReduceDims srcOp.dimArg)
  if ∀ n ∈ paddingArray, n = 0 then none
  else some ⟨⟨srcOp.input, paddingArray, getPaddingValue kind, newShape⟩,
    { srcOp with input := newShape }⟩

/-- **What is emitted keeps the type and the values**, over any bounded order: the infinity is the
identity of the reduction. -/
def Keeps (kind : Kind) (srcOp : ReduceOp) : Prop :=
  ∀ e, matchAndRewrite kind srcOp = some e →
    e.padOp.verify = .ok () ∧ verifyReduceOp e.srcOp = .ok () ∧ e.srcOp.output = srcOp.output ∧
      ∀ (α : Type) [LinearOrder α] [BoundedOrder α] (x : Tensor α), x.shape = srcOp.input →
        (e.srcOp.eval kind.reduction (e.padOp.apply x)).Agree (srcOp.eval kind.reduction x)

/-! ### The padding -/

/-- What the loop has done for the dimensions so far. -/
structure Padded (shape : List ℕ) (dims : List ℤ) (st : List ℕ × List ℤ) : Prop where
  length_shape : st.1.length = shape.length
  length_padding : st.2.length = 2 * shape.length
  extents : ∀ i < shape.length, st.1.getD i 0 =
    if reduceDimsMask shape.length (some dims) i then paddedSize (shape.getD i 0)
    else shape.getD i 0
  front : ∀ i < shape.length, st.2.getD (2 * i) 0 = 0
  back : ∀ i < shape.length, st.2.getD (2 * i + 1) 0 = (st.1.getD i 0 : ℤ) - shape.getD i 0

variable {dims : List ℤ}

theorem padded_padding {shape : List ℕ}
    (hdims : ∀ dim ∈ dims, HasBit shape.length dim) : Padded shape dims (padding shape dims) := by
  induction dims using List.reverseRecOn with
  | nil =>
    have hzero : ∀ k, (List.replicate (2 * shape.length) (0 : ℤ)).getD k 0 = 0 := by
      intro k
      rw [List.getD_eq_getElem?_getD, List.getElem?_replicate]
      split_ifs <;> rfl
    exact ⟨rfl, List.length_replicate, fun _ _ => rfl, fun i _ => hzero _,
      fun i _ => by rw [padding, List.foldl_nil, hzero, sub_self]⟩
  | append_singleton dims dim ih =>
    have hprev := ih fun d hd => hdims d (List.mem_append_left _ hd)
    obtain ⟨hnonneg, hlt⟩ := hdims dim (List.mem_append_right _ (List.mem_singleton.mpr rfl))
    obtain ⟨k, hk⟩ := Int.eq_ofNat_of_zero_le hnonneg
    have hkl : k < shape.length := by omega
    have hstep : padding shape (dims ++ [dim]) = padDim shape (padding shape dims) dim := by
      rw [padding, List.foldl_append]
      rfl
    have hmask : ∀ i, reduceDimsMask shape.length (some (dims ++ [dim])) i
        = (reduceDimsMask shape.length (some dims) i || decide (k = i)) := by
      intro i
      rw [reduceDimsMask, List.any_append, List.any_cons, List.any_nil, Bool.or_false, hk,
        reduceDimsMask, decide_eq_decide.mpr (Int.ofNat_inj (m := k) (n := i))]
    have hset : ∀ {β : Type} (l : List β) (i j : ℕ) (a d : β), j < l.length →
        (l.set j a).getD i d = if j = i then a else l.getD i d := by
      intro β l i j a d hj
      rw [List.getD_eq_getElem?_getD, List.getElem?_set]
      split_ifs with hij
      · rfl
      · rfl
    rw [hstep, padDim, hk, Int.toNat_natCast]
    have hks : k < (padding shape dims).1.length := by rw [hprev.length_shape]; exact hkl
    have hkp : 2 * k + 1 < (padding shape dims).2.length := by rw [hprev.length_padding]; omega
    refine ⟨(List.length_set).trans hprev.length_shape,
      (List.length_set).trans hprev.length_padding, fun i hi => ?_, fun i hi => ?_,
      fun i hi => ?_⟩
    · simp only [hset _ _ _ _ _ hks, hmask]
      by_cases hki : k = i
      · rw [if_pos hki, hki]
        simp
      · rw [if_neg hki, hprev.extents i hi, decide_eq_false hki, Bool.or_false]
    · simp only [hset _ _ _ _ _ hkp]
      rw [if_neg (by omega), hprev.front i hi]
    · simp only [hset _ _ _ _ _ hkp, hset _ _ _ _ _ hks]
      by_cases hki : k = i
      · rw [if_pos (by omega), if_pos hki, hki]
      · rw [if_neg (by omega), if_neg hki, hprev.back i hi]

theorem le_paddedSize (n : ℕ) : n ≤ paddedSize n := by
  rw [paddedSize]
  omega

variable {srcOp : ReduceOp}

/-- The padded operand grows along reduced dimensions. -/
theorem grown_axes {newShape : List ℕ} {paddingArray : List ℤ} (hdims : srcOp.dimArg = some dims)
    (h : Padded srcOp.input dims (newShape, paddingArray)) :
    Grown srcOp.axes ({ srcOp with input := newShape } : ReduceOp).axes := by
  have hlength : newShape.length = srcOp.input.length := h.length_shape
  rw [Grown, List.forall₂_iff_get]
  refine ⟨by simp [ReduceOp.axes, hlength], fun i hi hi' => ?_⟩
  have hin : i < srcOp.input.length := by simpa [ReduceOp.axes] using hi
  have hnew : i < newShape.length := hlength ▸ hin
  have hextent := h.extents i hin
  rw [List.getD_eq_getElem _ _ hin, List.getD_eq_getElem _ _ hnew] at hextent
  simp only [ReduceOp.axes, List.get_eq_getElem, List.getElem_map, List.getElem_zipIdx,
    Nat.zero_add, hlength, hdims]
  rw [hextent]
  split_ifs with hmark
  · exact ⟨trivial, le_paddedSize _, fun hno => absurd hno (by simp [hmark])⟩
  · exact ⟨trivial, le_rfl, fun _ => rfl⟩

/-- The indices of a fibre are indices of the operand. -/
theorem inShape_of_mem_fibre (srcOp : ReduceOp) {idx v : List ℕ}
    (houtput : srcOp.output = srcOp.expectedOutputShape) (hidx : InShape idx srcOp.output)
    (hv : v ∈ fibre srcOp.keepDim srcOp.axes idx) :
    InShape v srcOp.input := by
  rw [← srcOp.extents_axes]
  rw [houtput, ReduceOp.expectedOutputShape] at hidx
  split_ifs at hidx with hedge
  · obtain ⟨hnil, hkeep⟩ := hedge
    rw [hkeep] at hnil hv
    rw [fibre_of_kept_nil hnil, ← fibre_of_kept_nil hnil []] at hv
    have hin : InShape [] (kept false srcOp.axes) := by
      rw [hnil]
      exact .nil
    exact AxisReduction.inShape_of_mem_fibre hin hv
  · exact AxisReduction.inShape_of_mem_fibre hidx hv

theorem foldr_sup_le_iff {α : Type} [LinearOrder α] [BoundedOrder α] {l : List α} {b : α} :
    l.foldr (· ⊔ ·) ⊥ ≤ b ↔ ∀ a ∈ l, a ≤ b := by
  induction l with
  | nil => exact iff_of_true bot_le (fun _ h => absurd h List.not_mem_nil)
  | cons a l ih => rw [List.foldr_cons, sup_le_iff, ih, List.forall_mem_cons]

section

variable {ι α : Type} [LinearOrder α] [BoundedOrder α] {l l' : List ι} {f g : ι → α}
  (hsub : ∀ i ∈ l, i ∈ l' ∧ g i = f i)

include hsub

/-- **Smallest elements change no supremum**: the elements over a larger list of indices, smallest
where the index is not in the smaller one. -/
theorem foldr_sup_eq (hrest : ∀ i ∈ l', g i = ⊥ ∨ i ∈ l ∧ g i = f i) :
    (l'.map g).foldr (· ⊔ ·) ⊥ = (l.map f).foldr (· ⊔ ·) ⊥ := by
  refine eq_of_forall_ge_iff fun b => ?_
  rw [foldr_sup_le_iff, foldr_sup_le_iff, List.forall_mem_map, List.forall_mem_map]
  constructor
  · intro h i hi
    obtain ⟨hmem, heq⟩ := hsub i hi
    exact heq ▸ h i hmem
  · intro h i hi
    rcases hrest i hi with hbot | ⟨hmem, heq⟩
    · exact hbot ▸ bot_le
    · exact heq ▸ h i hmem

theorem foldr_inf_eq (hrest : ∀ i ∈ l', g i = ⊤ ∨ i ∈ l ∧ g i = f i) :
    (l'.map g).foldr (· ⊓ ·) ⊤ = (l.map f).foldr (· ⊓ ·) ⊤ :=
  foldr_sup_eq (α := αᵒᵈ) hsub hrest

end

/-- The padded operand has its elements, and the infinity elsewhere. -/
theorem apply_elem {α : Type} [LinearOrder α] [BoundedOrder α] {newShape : List ℕ}
    {paddingArray : List ℤ} {shape : List ℕ} (negative : Bool)
    (h : Padded shape dims (newShape, paddingArray)) (x : Tensor α) {idx : List ℕ}
    (hlength : idx.length = shape.length) :
    ((PadOp.mk shape paddingArray negative newShape).apply x).elem idx
      = if InShape idx shape then x.elem idx else if negative then ⊥ else ⊤ := by
  have hfront : ∀ i < shape.length, paddingArray.getD (2 * i) 0 = 0 := h.front
  have hin : (∀ i < shape.length, paddingArray.getD (2 * i) 0 ≤ (idx.getD i 0 : ℤ) ∧
      (idx.getD i 0 : ℤ) - paddingArray.getD (2 * i) 0 < shape.getD i 0) ↔ InShape idx shape := by
    rw [InShape, List.forall₂_iff_get]
    constructor
    · intro hall
      refine ⟨hlength, fun i hi hi' => ?_⟩
      have hlt := (hall i hi').2
      rw [hfront i hi', sub_zero, List.getD_eq_getElem _ _ hi, List.getD_eq_getElem _ _ hi'] at hlt
      exact_mod_cast hlt
    · rintro ⟨-, hall⟩ i hi
      have hlt := hall i (hlength ▸ hi) hi
      rw [hfront i hi, sub_zero, List.getD_eq_getElem _ _ hi,
        List.getD_eq_getElem _ _ (hlength ▸ hi)]
      exact ⟨Int.natCast_nonneg _, by exact_mod_cast hlt⟩
  have hsame : ((List.range shape.length).map fun i =>
      ((idx.getD i 0 : ℤ) - paddingArray.getD (2 * i) 0).toNat) = idx := by
    refine List.ext_getElem (by simp [hlength]) fun i hi hi' => ?_
    rw [List.getElem_map, List.getElem_range, hfront i (hlength ▸ hi'), sub_zero,
      Int.toNat_natCast, List.getD_eq_getElem _ _ hi']
  show (if ∀ i < shape.length, _ then x.elem _ else _) = _
  rw [hsame]
  exact if_congr hin rfl rfl

/-- **Padding with the identity preserves the reductions.** -/
theorem keeps (kind : Kind) (hverified : verifyReduceOp srcOp = .ok ()) : Keeps kind srcOp := by
  intro e he
  obtain ⟨hbits, houtput⟩ := verifyReduceOp_eq_ok.mp hverified
  have hpadded := padded_padding hbits
  generalize hpad : padding srcOp.input (srcOp.dimArg.getD []) = padded at hpadded
  obtain ⟨newShape, paddingArray⟩ := padded
  rw [matchAndRewrite, getReduceDims, hpad] at he
  have hsome : ¬∀ n ∈ paddingArray, n = 0 := by
    intro hzero
    exact nomatch (if_pos hzero).symm.trans he
  obtain rfl := Option.some.inj ((if_neg hsome).symm.trans he)
  -- without a list of dimensions nothing is padded
  obtain ⟨dims, hdims⟩ : ∃ dims, srcOp.dimArg = some dims := by
    cases harg : srcOp.dimArg with
    | some dims => exact ⟨dims, rfl⟩
    | none =>
      rw [harg] at hpad
      have hnone : List.replicate (2 * srcOp.input.length) (0 : ℤ) = paddingArray :=
        congrArg Prod.snd hpad
      exact absurd (fun n hn => List.eq_of_mem_replicate (hnone ▸ hn)) hsome
  rw [hdims, Option.getD_some] at hpadded
  have hgrown := grown_axes hdims hpadded
  have hlength : newShape.length = srcOp.input.length := hpadded.length_shape
  have hexpected : ({ srcOp with input := newShape } : ReduceOp).expectedOutputShape
      = srcOp.expectedOutputShape := by
    rw [ReduceOp.expectedOutputShape, ReduceOp.expectedOutputShape, hgrown.kept_eq]
  refine ⟨?_, ?_, rfl, fun α _ _ x hx => ⟨rfl, fun idx hidx => ?_⟩⟩
  · have hshape : newShape.map (fun n : ℕ => (n : ℤ))
        = PadOp.inferredShape ⟨srcOp.input, paddingArray, getPaddingValue kind, newShape⟩ := by
      refine List.ext_getElem (by simp [PadOp.inferredShape, hlength]) fun i hi hi' => ?_
      have hin : i < srcOp.input.length := by simpa [hlength] using hi
      have hback : paddingArray.getD (2 * i + 1) 0
          = (newShape.getD i 0 : ℤ) - srcOp.input.getD i 0 := hpadded.back i hin
      have hfront : paddingArray.getD (2 * i) 0 = 0 := hpadded.front i hin
      have hnew : newShape.getD i 0 = newShape[i] := List.getD_eq_getElem _ _ (hlength ▸ hin)
      simp only [PadOp.inferredShape, List.getElem_map, List.getElem_range]
      rw [hback, hfront, hnew]
      ring
    rw [PadOp.verify, if_neg (not_not.mpr hpadded.length_padding), if_neg (not_not.mpr hshape)]
  · rw [verifyReduceOp_eq_ok]
    refine ⟨fun dim hdim => ?_, houtput.trans hexpected.symm⟩
    have hbit := hbits dim hdim
    rw [← hlength] at hbit
    exact hbit
  · replace hidx : InShape idx srcOp.output := hidx
    -- the fibre of the operand in the fibre of the padded one
    have hsub : ∀ v ∈ fibre srcOp.keepDim srcOp.axes idx,
        v ∈ fibre srcOp.keepDim ({ srcOp with input := newShape } : ReduceOp).axes idx ∧
          ((PadOp.mk srcOp.input paddingArray (getPaddingValue kind) newShape).apply x).elem v
            = x.elem v := by
      intro v hv
      have hin := inShape_of_mem_fibre srcOp houtput hidx hv
      exact ⟨mem_grown_of_fibre hgrown hv,
        (apply_elem _ hpadded x hin.length_eq).trans (if_pos hin)⟩
    have hrest : ∀ v ∈ fibre srcOp.keepDim ({ srcOp with input := newShape } : ReduceOp).axes idx,
        ((PadOp.mk srcOp.input paddingArray (getPaddingValue kind) newShape).apply x).elem v
            = (if getPaddingValue kind then ⊥ else ⊤) ∨
          v ∈ fibre srcOp.keepDim srcOp.axes idx ∧
            ((PadOp.mk srcOp.input paddingArray (getPaddingValue kind) newShape).apply x).elem v
              = x.elem v := by
      intro v hv
      have hvlength : v.length = srcOp.input.length := by
        have hin : InShape v newShape :=
          inShape_of_mem_fibre { srcOp with input := newShape } (houtput.trans hexpected.symm)
            hidx hv
        exact hin.length_eq.trans hlength
      have helem := apply_elem (getPaddingValue kind) hpadded x hvlength
      by_cases hin : InShape v srcOp.input
      · refine .inr ⟨mem_fibre_of_grown hgrown hv ?_, helem.trans (if_pos hin)⟩
        rw [srcOp.extents_axes]
        exact hin
      · exact .inl (helem.trans (if_neg hin))
    cases kind with
    | max => exact foldr_sup_eq hsub hrest
    | min => exact foldr_inf_eq hsub hrest

end PadInput

/-! ## An argmax of four dimensions -/

namespace ArgMax

/-- `ttnn.argmax`: the shape of its operand, its attributes, the shape of its result. -/
structure ArgMaxOp : Type where
  input : List ℕ
  dim : Option ℤ
  keepDim : Bool
  output : List ℕ

/-- Its dimensions, as those of a reduction. -/
def ArgMaxOp.toReduceOp (op : ArgMaxOp) : ReduceOp :=
  ⟨op.input, op.dim.map fun dim => [dim], op.keepDim, op.output⟩

/-- A function that finds the position of a largest element. -/
def FindsLargest {α : Type} [LinearOrder α] (f : List α → ℕ) : Prop :=
  ∀ l : List α, l ≠ [] → ∃ a, l[f l]? = some a ∧ ∀ b ∈ l, b ≤ a

/-- What an argmax computes.  The dialect does not check the shape of the result: its elements come in
row-major order, when there are as many as the reduction gives. -/
def ArgMaxOp.eval {α : Type} (f : List α → ℕ) (op : ArgMaxOp) (x : Tensor α) :
    Option (Tensor ℕ) :=
  if (∀ dim ∈ op.toReduceOp.dimArg.getD [], HasBit op.input.length dim) ∧
      op.toReduceOp.expectedOutputShape.prod = op.output.prod then
    some ⟨op.output, fun idx =>
      f ((fibreAt op.toReduceOp.axes (rowMajor op.output idx)).map x.elem)⟩
  else none

/-- What is emitted: an argmax between two reshapes. -/
structure Emitted : Type where
  preReshapeOp : ReshapeOp
  argMaxOp : ArgMaxOp
  postReshapeOp : ReshapeOp

/-- Four dimensions, the first ones of extent one. -/
def unsqueeze (rank : ℕ) (shape : List ℕ) : List ℕ := List.replicate (4 - rank) 1 ++ shape

/-- `ArgMaxOpRewritePattern::matchAndRewrite`. -/
def matchAndRewrite (srcOp : ArgMaxOp) : Option Emitted :=
  let rank := srcOp.input.length
  if 4 ≤ rank then none
  else
    let reshapeOutputShape := unsqueeze rank srcOp.input
    let argMaxOutputShape := unsqueeze rank srcOp.output
    some
      { preReshapeOp := ⟨srcOp.input, reshapeOutputShape.map toI32, reshapeOutputShape⟩
        argMaxOp :=
          { input := reshapeOutputShape
            -- a negative dimension moves away from the end
            dim := srcOp.dim.map fun dim => dim + (4 - rank : ℕ)
            keepDim := srcOp.keepDim
            output := argMaxOutputShape }
        postReshapeOp := ⟨argMaxOutputShape, srcOp.output.map toI32, srcOp.output⟩ }

/-- What the emitted operations compute. -/
def Emitted.apply {α : Type} (f : List α → ℕ) (e : Emitted) (x : Tensor α) : Option (Tensor ℕ) :=
  (e.argMaxOp.eval f (x.reshape e.preReshapeOp.output)).map fun y =>
    y.reshape e.postReshapeOp.output

/-- **What is emitted keeps the type and the values**, for any rule for ties. -/
def Keeps (srcOp : ArgMaxOp) : Prop :=
  ∀ e, matchAndRewrite srcOp = some e →
    e.preReshapeOp.verify = .ok () ∧ e.postReshapeOp.verify = .ok () ∧
      e.postReshapeOp.output = srcOp.output ∧
      ∀ (α : Type) [LinearOrder α] (f : List α → ℕ), FindsLargest f →
        ∀ x : Tensor α, x.shape = srcOp.input →
          ∃ y z, srcOp.eval f x = some y ∧ e.apply f x = some z ∧ z.Agree y

/-- **The condition**: the reshapes accept the extents, and where the dimension is counted from the
end, it and the one that is reduced in its place have extent one. -/
structure Condition (srcOp : ArgMaxOp) : Prop where
  operand : AcceptsShape (unsqueeze srcOp.input.length srcOp.input)
  result : AcceptsShape srcOp.output
  dim : ∀ dim : ℤ, srcOp.dim = some dim → dim < 0 →
    srcOp.input.getD (srcOp.input.length + dim).toNat 0 = 1 ∧
      (unsqueeze srcOp.input.length srcOp.input).getD
        (normalizeDim 4 (dim + (4 - srcOp.input.length : ℕ))).toNat 0 = 1

/-! ### Ones in front -/

theorem reshape_ones {α : Type} (x : Tensor α) (m : ℕ) {idx : List ℕ} (hidx : InShape idx x.shape) :
    (x.reshape (List.replicate m 1 ++ x.shape)).elem (List.replicate m 0 ++ idx) = x.elem idx := by
  show x.elem (unravel x.shape (rowMajor _ _)) = _
  rw [rowMajor_ones, unravel_rowMajor hidx]

theorem map_reshape_ones {α : Type} {axes : List (Bool × ℕ)} (x : Tensor α) (m : ℕ)
    (haxes : axes.map Prod.snd = x.shape) {p : ℕ} (hp : p < (kept false axes).prod) :
    ((fibreAt axes p).map (List.replicate m 0 ++ ·)).map
        (x.reshape (List.replicate m 1 ++ x.shape)).elem = (fibreAt axes p).map x.elem := by
  rw [List.map_map]
  refine List.map_congr_left fun v hv => reshape_ones x m ?_
  rw [← haxes]
  exact AxisReduction.inShape_of_mem_fibre (inShape_unravel _ _ hp) hv

/-! ### The replacement -/

section Keeps

variable {srcOp : ArgMaxOp}

/-- The argmax of four dimensions. -/
def wideOp (srcOp : ArgMaxOp) : ArgMaxOp :=
  { input := unsqueeze srcOp.input.length srcOp.input
    dim := srcOp.dim.map fun dim => dim + (4 - srcOp.input.length : ℕ)
    keepDim := srcOp.keepDim
    output := unsqueeze srcOp.input.length srcOp.output }

theorem length_unsqueeze (hrank : srcOp.input.length < 4) :
    (unsqueeze srcOp.input.length srcOp.input).length = 4 := by
  rw [unsqueeze, List.length_append, List.length_replicate]
  omega

theorem hasBit_of_dim (hbits : ∀ dim ∈ srcOp.toReduceOp.dimArg.getD [],
    HasBit srcOp.input.length dim) {dim : ℤ} (hdim : srcOp.dim = some dim) :
    HasBit srcOp.input.length dim := by
  refine hbits dim ?_
  rw [ArgMaxOp.toReduceOp, hdim]
  exact List.mem_singleton.mpr rfl

/-- The dimension of the wide operand is one of its four. -/
theorem wide_hasBit (hrank : srcOp.input.length < 4)
    (hbits : ∀ dim ∈ srcOp.toReduceOp.dimArg.getD [], HasBit srcOp.input.length dim) :
    ∀ dim ∈ (wideOp srcOp).toReduceOp.dimArg.getD [], HasBit (wideOp srcOp).input.length dim := by
  intro dim hdim
  cases harg : srcOp.dim with
  | none =>
    rw [ArgMaxOp.toReduceOp, wideOp, harg] at hdim
    exact absurd hdim List.not_mem_nil
  | some d =>
    have hbit := hasBit_of_dim hbits harg
    rw [ArgMaxOp.toReduceOp, wideOp, harg] at hdim
    have heq : dim = d + (4 - srcOp.input.length : ℕ) := List.mem_singleton.mp hdim
    have hlength : (wideOp srcOp).input.length = 4 := length_unsqueeze hrank
    rw [HasBit, normalizeDim] at hbit ⊢
    rw [hlength, heq]
    split_ifs at hbit ⊢ <;> omega

theorem axes_of_dim {op : ArgMaxOp} {dim : ℤ} (hdim : op.dim = some dim)
    (hbit : HasBit op.input.length dim) :
    op.toReduceOp.axes = only (normalizeDim op.input.length dim).toNat op.input := by
  rw [ArgMaxOp.toReduceOp, hdim]
  exact ReduceOp.axes_single (Int.toNat_of_nonneg hbit.1).symm

/-- **The fibres of the wide operand** are those of the operand, with zeros in front. -/
theorem fibreAt_wide (hrank : srcOp.input.length < 4)
    (hbits : ∀ dim ∈ srcOp.toReduceOp.dimArg.getD [], HasBit srcOp.input.length dim)
    (hcondition : Condition srcOp) :
    (kept false (wideOp srcOp).toReduceOp.axes).prod = (kept false srcOp.toReduceOp.axes).prod ∧
      ∀ p < (kept false srcOp.toReduceOp.axes).prod, fibreAt (wideOp srcOp).toReduceOp.axes p
          = (fibreAt srcOp.toReduceOp.axes p).map
              (List.replicate (4 - srcOp.input.length) 0 ++ ·) := by
  have hsimilar : ∀ axes : List (Bool × ℕ),
      Similar axes (List.replicate (4 - srcOp.input.length) (false, 1) ++ srcOp.toReduceOp.axes) →
      (kept false axes).prod = (kept false srcOp.toReduceOp.axes).prod ∧
        ∀ p < (kept false srcOp.toReduceOp.axes).prod, fibreAt axes p
          = (fibreAt srcOp.toReduceOp.axes p).map
              (List.replicate (4 - srcOp.input.length) 0 ++ ·) := by
    intro axes h
    have hprod := h.prod_kept.trans (prod_kept_ones _ _)
    exact ⟨hprod, fun p hp => (fibreAt_congr h (hprod ▸ hp)).trans (fibreAt_ones _ hp)⟩
  have hlength : (wideOp srcOp).input.length = 4 := length_unsqueeze hrank
  cases hdim : srcOp.dim with
  | none =>
    -- all dimensions are reduced, those in front too
    have haxes : ∀ op : ArgMaxOp, op.dim = none → op.toReduceOp.axes = op.input.map (true, ·) := by
      intro op hnone
      rw [ArgMaxOp.toReduceOp, hnone, ReduceOp.axes]
      conv_rhs => rw [← List.zipIdx_map_fst 0 op.input, List.map_map]
      rfl
    have hwide : (wideOp srcOp).dim = none := by rw [wideOp, hdim]; rfl
    apply hsimilar
    rw [haxes _ hwide, haxes _ hdim, wideOp, unsqueeze, List.map_append, List.map_replicate]
    refine List.rel_append ?_ (List.forall₂_same.mpr fun _ _ => ⟨rfl, .inl rfl⟩)
    rw [List.forall₂_iff_get]
    refine ⟨by simp, fun i _ _ => ?_⟩
    simp only [List.get_eq_getElem, List.getElem_replicate]
    exact ⟨trivial, .inr trivial⟩
  | some dim =>
    have hbit := hasBit_of_dim hbits hdim
    have hwideDim : (wideOp srcOp).dim = some (dim + (4 - srcOp.input.length : ℕ)) := by
      rw [wideOp, hdim]
      rfl
    have hwide := axes_of_dim hwideDim (wide_hasBit hrank hbits _ (by
      rw [ArgMaxOp.toReduceOp, hwideDim]
      exact List.mem_singleton.mpr rfl))
    rw [hlength] at hwide
    by_cases hneg : dim < 0
    · -- both dimensions have extent one, and no mark is needed
      obtain ⟨hone, hwideOne⟩ := hcondition.dim dim hdim hneg
      have haxes := axes_of_dim hdim hbit
      have hnorm : (normalizeDim srcOp.input.length dim).toNat
          = (srcOp.input.length + dim).toNat := by
        rw [normalizeDim, if_pos hneg, add_comm]
      rw [hnorm] at haxes
      have hplain := similar_only hone
      have hplainWide := similar_only hwideOne
      have hmap : (unsqueeze srcOp.input.length srcOp.input).map (fun n => (false, n))
          = List.replicate (4 - srcOp.input.length) (false, 1)
            ++ srcOp.input.map (fun n => (false, n)) := by
        rw [unsqueeze, List.map_append, List.map_replicate]
      rw [hmap] at hplainWide
      rw [hwide, haxes]
      have hprod := hplainWide.prod_kept.trans ((prod_kept_ones _ _).trans hplain.prod_kept.symm)
      refine ⟨hprod, fun p hp => ?_⟩
      rw [fibreAt_congr hplain hp, ← fibreAt_ones _ (hplain.prod_kept ▸ hp)]
      exact fibreAt_congr hplainWide (hprod ▸ hp)
    · have hnorm : (normalizeDim 4 (dim + (4 - srcOp.input.length : ℕ))).toNat
          = (normalizeDim srcOp.input.length dim).toNat + (4 - srcOp.input.length) := by
        rw [normalizeDim, normalizeDim, if_neg hneg, if_neg (by omega)]
        omega
      apply hsimilar
      rw [hwide, hnorm, axes_of_dim hdim hbit, wideOp]
      show Similar (only _ (List.replicate _ 1 ++ srcOp.input)) _
      rw [only_ones]
      exact List.forall₂_same.mpr fun _ _ => ⟨rfl, .inl rfl⟩

theorem prod_output (houtput : srcOp.output = srcOp.toReduceOp.expectedOutputShape) :
    srcOp.output.prod = (kept false srcOp.toReduceOp.axes).prod := by
  rw [houtput, ReduceOp.prod_expectedOutputShape]

/-- **The condition is enough.** -/
theorem keeps_of_condition (hverified : verifyReduceOp srcOp.toReduceOp = .ok ())
    (hcondition : srcOp.input.length < 4 → Condition srcOp) : Keeps srcOp := by
  intro e he
  obtain ⟨hbits, houtput⟩ := verifyReduceOp_eq_ok.mp hverified
  replace hbits : ∀ dim ∈ srcOp.toReduceOp.dimArg.getD [], HasBit srcOp.input.length dim := hbits
  replace houtput : srcOp.output = srcOp.toReduceOp.expectedOutputShape := houtput
  have hrank : srcOp.input.length < 4 := by
    by_contra hnot
    rw [matchAndRewrite, if_pos (not_lt.mp hnot)] at he
    exact nomatch he
  have hemitted : e = ⟨⟨srcOp.input, (unsqueeze srcOp.input.length srcOp.input).map toI32,
      unsqueeze srcOp.input.length srcOp.input⟩, wideOp srcOp,
      ⟨unsqueeze srcOp.input.length srcOp.output, srcOp.output.map toI32, srcOp.output⟩⟩ :=
    Option.some.inj (he.symm.trans (if_neg (not_le.mpr hrank)))
  subst hemitted
  have hcond := hcondition hrank
  obtain ⟨hprod, hfibre⟩ := fibreAt_wide hrank hbits hcond
  have hvolume := prod_output houtput
  refine ⟨GatherOp.verify_createReshapeOp_iff.mpr ⟨(prod_ones _ _).symm, hcond.operand⟩,
    GatherOp.verify_createReshapeOp_iff.mpr ⟨prod_ones _ _, hcond.result⟩, rfl,
    fun α _ f _ x hx => ?_⟩
  have hwideVolume : (wideOp srcOp).toReduceOp.expectedOutputShape.prod
      = (wideOp srcOp).output.prod := by
    rw [ReduceOp.prod_expectedOutputShape, hprod, ← hvolume]
    exact (prod_ones _ _).symm
  refine ⟨_, _, if_pos ⟨hbits, by rw [← houtput]⟩, congrArg (Option.map _)
    (if_pos ⟨wide_hasBit hrank hbits, hwideVolume⟩), rfl, fun idx hidx => ?_⟩
  replace hidx : InShape idx srcOp.output := hidx
  have hlt := rowMajor_lt hidx
  show f ((fibreAt (wideOp srcOp).toReduceOp.axes (rowMajor
      (unsqueeze srcOp.input.length srcOp.output)
      (unravel (unsqueeze srcOp.input.length srcOp.output) (rowMajor srcOp.output idx)))).map _)
    = f ((fibreAt srcOp.toReduceOp.axes (rowMajor srcOp.output idx)).map x.elem)
  have hwide : unsqueeze srcOp.input.length srcOp.input
      = List.replicate (4 - srcOp.input.length) 1 ++ x.shape := by rw [unsqueeze, hx]
  rw [rowMajor_unravel _ _ (by rw [unsqueeze, prod_ones]; exact hlt), hfibre _ (hvolume ▸ hlt),
    hwide, map_reshape_ones x _ (srcOp.toReduceOp.extents_axes.trans hx.symm) (hvolume ▸ hlt)]

/-! ### A dimension counted from the end -/

/-- A largest element that is alone is found. -/
theorem eq_of_findsLargest {α : Type} [LinearOrder α] {f : List α → ℕ} (hf : FindsLargest f)
    {n k : ℕ} (g : ℕ → α) (hk : k < n) (hlargest : ∀ j < n, j ≠ k → g j < g k) :
    f ((List.range n).map g) = k := by
  have hne : (List.range n).map g ≠ [] := by
    rw [Ne, List.map_eq_nil_iff, List.range_eq_nil]
    omega
  obtain ⟨a, hget, hmax⟩ := hf _ hne
  by_contra hother
  rw [List.getElem?_map, Option.map_eq_some_iff] at hget
  obtain ⟨j, hj, rfl⟩ := hget
  obtain ⟨hlt, heq⟩ := List.getElem?_eq_some_iff.mp hj
  rw [List.length_range] at hlt
  rw [List.getElem_range] at heq
  have hgk := hmax (g k) (List.mem_map.mpr ⟨k, List.mem_range.mpr hk, rfl⟩)
  exact absurd hgk (not_le.mpr (heq ▸ hlargest _ hlt hother))

theorem exists_findsLargest : ∃ f : List ℕ → ℕ, FindsLargest f := by
  have hall : ∀ l : List ℕ, ∃ i : ℕ, l ≠ [] → ∃ a, l[i]? = some a ∧ ∀ b ∈ l, b ≤ a := by
    intro l
    by_cases hl : l = []
    · exact ⟨0, fun h => absurd hl h⟩
    · obtain ⟨a, ha, hmax⟩ := l.toFinset.exists_max_image id
        (List.toFinset_nonempty_iff l |>.mpr hl)
      obtain ⟨i, hi⟩ := List.mem_iff_getElem?.mp (List.mem_toFinset.mp ha)
      exact ⟨i, fun _ => ⟨a, hi, fun b hb => hmax b (List.mem_toFinset.mpr hb)⟩⟩
  choose f hf using hall
  exact ⟨f, hf⟩

/-- An array that is largest at one along the first of two axes, and at zero along the second. -/
def crossed (shape : List ℕ) (k l : ℕ) : Tensor ℕ :=
  ⟨shape, fun idx =>
    (if idx.getD k 0 = 1 then 2 else 0) + (if idx.getD l 0 = 0 then 1 else 0)⟩

variable {f : List ℕ → ℕ}

/-- The position that is found, along the first axis and along the second. -/
theorem argMax_crossed (hf : FindsLargest f) {shape : List ℕ} {k l : ℕ}
    (hk : k < shape.length) (hl : l < shape.length) (hne : k ≠ l) (hkl : 2 ≤ shape.getD k 0)
    (hll : 0 < shape.getD l 0) :
    f ((fibreAt (only k shape) 0).map (crossed shape k l).elem) = 1 ∧
      f ((fibreAt (only l shape) 0).map (crossed shape k l).elem) = 0 := by
  have hset : ∀ {i j : ℕ} (v : ℕ), i < shape.length →
      ((List.replicate shape.length 0).set i v).getD j 0 = if i = j then v else 0 := by
    intro i j v hi
    rw [List.getD_eq_getElem?_getD, List.getElem?_set, List.length_replicate, if_pos hi]
    split_ifs with hij
    · rfl
    · rw [List.getElem?_replicate]
      split_ifs <;> rfl
  constructor
  · rw [fibreAt_only_zero hk, List.map_map]
    refine eq_of_findsLargest hf _ (by omega) fun j _ hj => ?_
    simp only [Function.comp_apply, crossed, hset _ hk, if_neg hne, if_true]
    rw [if_neg hj]
    omega
  · rw [fibreAt_only_zero hl, List.map_map]
    refine eq_of_findsLargest hf _ hll fun j _ hj => ?_
    simp only [Function.comp_apply, crossed, hset _ hl, if_neg hne.symm, if_true]
    rw [if_neg hj]
    omega

theorem eval_zero {op : ArgMaxOp} {x y : Tensor ℕ} (h : op.eval f x = some y)
    (k : ℕ) : y.elem (List.replicate k 0) = f ((fibreAt op.toReduceOp.axes 0).map x.elem) := by
  rw [ArgMaxOp.eval] at h
  split_ifs at h
  rw [← Option.some.inj h]
  show f ((fibreAt _ (rowMajor op.output (List.replicate k 0))).map x.elem) = _
  rw [rowMajor_replicate_zero]

theorem prod_of_eval {op : ArgMaxOp} {x y : Tensor ℕ} (h : op.eval f x = some y) :
    (kept false op.toReduceOp.axes).prod = op.output.prod := by
  rw [ArgMaxOp.eval] at h
  split_ifs at h with hdefined
  rw [← hdefined.2, ReduceOp.prod_expectedOutputShape]

/-- The dimension `k` that is meant, and the dimension `l` of the wide operand that is reduced. -/
structure Moved (srcOp : ArgMaxOp) (k l : ℕ) : Prop where
  lt : k < srcOp.input.length
  wide_lt : l < (unsqueeze srcOp.input.length srcOp.input).length
  ne : k + (4 - srcOp.input.length) ≠ l
  axes : srcOp.toReduceOp.axes = only k srcOp.input
  wideAxes : (wideOp srcOp).toReduceOp.axes = only l (unsqueeze srcOp.input.length srcOp.input)

/-- **A dimension counted from the end is moved.** -/
theorem moved_of_neg (hrank : srcOp.input.length < 4)
    (hbits : ∀ dim ∈ srcOp.toReduceOp.dimArg.getD [], HasBit srcOp.input.length dim) {dim : ℤ}
    (hdim : srcOp.dim = some dim) (hneg : dim < 0) :
    Moved srcOp (srcOp.input.length + dim).toNat
      (normalizeDim 4 (dim + (4 - srcOp.input.length : ℕ))).toNat := by
  have hbit := hasBit_of_dim hbits hdim
  have hlength : (wideOp srcOp).input.length = 4 := length_unsqueeze hrank
  have hwideDim : (wideOp srcOp).dim = some (dim + (4 - srcOp.input.length : ℕ)) := by
    rw [wideOp, hdim]
    rfl
  have hwideBit : HasBit (wideOp srcOp).input.length (dim + (4 - srcOp.input.length : ℕ)) := by
    refine wide_hasBit hrank hbits _ ?_
    rw [ArgMaxOp.toReduceOp, hwideDim]
    exact List.mem_singleton.mpr rfl
  have haxes := axes_of_dim hdim hbit
  have hwideAxes := axes_of_dim hwideDim hwideBit
  rw [hlength] at hwideAxes hwideBit
  have hnorm : normalizeDim srcOp.input.length dim = srcOp.input.length + dim := by
    rw [normalizeDim, if_pos hneg, add_comm]
  rw [HasBit, hnorm] at hbit
  rw [hnorm] at haxes
  refine ⟨by omega, ?_, ?_, haxes, hwideAxes⟩
  · have hwideLength : (unsqueeze srcOp.input.length srcOp.input).length = 4 := hlength
    have hbound := hwideBit.2
    omega
  · rw [normalizeDim]
    split_ifs <;> omega

namespace Moved

variable {k l : ℕ}

/-- Both reductions give as many elements, so they reduce the same extent. -/
theorem extent_eq (h : Moved srcOp k l)
    (hpos : ∀ n ∈ unsqueeze srcOp.input.length srcOp.input, 0 < n) {f : List ℕ → ℕ}
    {x x' y w : Tensor ℕ} (hy : srcOp.eval f x = some y) (hw : (wideOp srcOp).eval f x' = some w) :
    (unsqueeze srcOp.input.length srcOp.input).getD l 0 = srcOp.input.getD k 0 := by
  have hcount := prod_of_eval hy
  have hwideCount : (kept false (wideOp srcOp).toReduceOp.axes).prod = srcOp.output.prod :=
    (prod_of_eval hw).trans (prod_ones _ _)
  rw [h.axes] at hcount
  rw [h.wideAxes, ← hcount] at hwideCount
  have hvolume := getD_mul_prod_kept h.lt
  have hwideVolume := getD_mul_prod_kept h.wide_lt
  have hkeptPos : 0 < (kept false (only k srcOp.input)).prod := by
    refine Nat.pos_of_ne_zero fun hzero => ?_
    rw [hzero, mul_zero, ← prod_ones (4 - srcOp.input.length)] at hvolume
    exact (prod_pos_of_forall_pos hpos).ne hvolume
  refine Nat.eq_of_mul_eq_mul_right hkeptPos ?_
  calc (unsqueeze srcOp.input.length srcOp.input).getD l 0
        * (kept false (only k srcOp.input)).prod
      = (unsqueeze srcOp.input.length srcOp.input).prod := by
        rw [← hwideVolume, ← hwideCount]
    _ = srcOp.input.prod := prod_ones _ _
    _ = srcOp.input.getD k 0 * (kept false (only k srcOp.input)).prod := hvolume.symm

/-- Where that extent is not one, the reduced dimension is one of the operand's own. -/
theorem exists_own (h : Moved srcOp k l)
    (hne : (unsqueeze srcOp.input.length srcOp.input).getD l 0 ≠ 1) :
    ∃ m < srcOp.input.length, l = m + (4 - srcOp.input.length) ∧ k ≠ m ∧
      srcOp.input.getD m 0 = (unsqueeze srcOp.input.length srcOp.input).getD l 0 := by
  have hfront : 4 - srcOp.input.length ≤ l := by
    by_contra hlt
    have hin : l < (List.replicate (4 - srcOp.input.length) 1).length := by
      rw [List.length_replicate]
      omega
    rw [unsqueeze, List.getD_append _ _ _ _ hin, List.getD_eq_getElem _ _ hin,
      List.getElem_replicate] at hne
    exact hne rfl
  obtain ⟨m, rfl⟩ := Nat.exists_eq_add_of_le' hfront
  have hlt := h.wide_lt
  rw [unsqueeze, List.length_append, List.length_replicate] at hlt
  refine ⟨m, by omega, rfl, fun hkm => h.ne (by rw [hkm]), ?_⟩
  rw [unsqueeze, List.getD_append_right _ _ _ _ (by simp), List.length_replicate,
    Nat.add_sub_cancel]

/-- The first element of the wide result, along one of the operand's own dimensions. -/
theorem eval_wide_zero {m : ℕ} (h : Moved srcOp k (m + (4 - srcOp.input.length)))
    (hm : m < srcOp.input.length) (hpos : ∀ n ∈ unsqueeze srcOp.input.length srcOp.input, 0 < n)
    {f : List ℕ → ℕ} {x w : Tensor ℕ} (hx : x.shape = srcOp.input)
    (hw : (wideOp srcOp).eval f (x.reshape (unsqueeze srcOp.input.length srcOp.input)) = some w)
    (n : ℕ) : w.elem (List.replicate n 0) = f ((fibreAt (only m srcOp.input) 0).map x.elem) := by
  have hkeptPos : 0 < (kept false (only m srcOp.input)).prod := by
    refine Nat.pos_of_ne_zero fun hzero => ?_
    have hvolume := getD_mul_prod_kept hm
    rw [hzero, mul_zero, ← prod_ones (4 - srcOp.input.length)] at hvolume
    exact (prod_pos_of_forall_pos hpos).ne hvolume
  rw [eval_zero hw, h.wideAxes, unsqueeze, only_ones, fibreAt_ones _ hkeptPos, ← hx,
    map_reshape_ones x _ (extents_only m _) (hx ▸ hkeptPos)]

end Moved

/-- **The condition is needed**: along another dimension, another position is found. -/
theorem condition_of_keeps (hverified : verifyReduceOp srcOp.toReduceOp = .ok ())
    (hkeeps : Keeps srcOp) (hrank : srcOp.input.length < 4) : Condition srcOp := by
  obtain ⟨hbits, -⟩ := verifyReduceOp_eq_ok.mp hverified
  obtain ⟨hpre, hpost, -, hvalues⟩ := hkeeps _ (if_neg (not_le.mpr hrank))
  have hoperand := (GatherOp.verify_createReshapeOp_iff.mp hpre).2
  have hresult := (GatherOp.verify_createReshapeOp_iff.mp hpost).2
  refine ⟨hoperand, hresult, fun dim hdim hneg => ?_⟩
  have hpos : ∀ n ∈ unsqueeze srcOp.input.length srcOp.input, 0 < n := hoperand.pos
  have hmoved := moved_of_neg hrank hbits hdim hneg
  generalize (srcOp.input.length + dim).toNat = k at hmoved ⊢
  generalize (normalizeDim 4 (dim + (4 - srcOp.input.length : ℕ))).toNat = l at hmoved ⊢
  obtain ⟨f, hf⟩ := exists_findsLargest
  have hsame : (unsqueeze srcOp.input.length srcOp.input).getD l 0 = srcOp.input.getD k 0 := by
    obtain ⟨y, z, hy, hz, -⟩ := hvalues ℕ f hf ⟨srcOp.input, fun _ => 0⟩ rfl
    obtain ⟨w, hw, -⟩ := Option.map_eq_some_iff.mp hz
    exact hmoved.extent_eq hpos hy hw
  rw [hsame, and_self]
  by_contra hother
  obtain ⟨m, hm, rfl, hkm, hextent⟩ := hmoved.exists_own (hsame ▸ hother)
  have htwo : 2 ≤ srcOp.input.getD k 0 := by
    have hmem := hpos _ (List.getElem_mem hmoved.wide_lt)
    rw [← List.getD_eq_getElem _ 0 hmoved.wide_lt] at hmem
    omega
  -- an operand whose largest elements are at different positions along the two dimensions
  obtain ⟨hmeant, hreduced⟩ := argMax_crossed hf hmoved.lt hm hkm htwo (by omega)
  obtain ⟨y, z, hy, hz, -, helem⟩ := hvalues ℕ f hf (crossed srcOp.input k m) rfl
  obtain ⟨w, hw, rfl⟩ := Option.map_eq_some_iff.mp hz
  have hyone : y.elem (List.replicate srcOp.output.length 0) = 1 := by
    rw [eval_zero hy, hmoved.axes, hmeant]
  have hwzero : w.elem (List.replicate w.shape.length 0) = 0 :=
    (hmoved.eval_wide_zero hm hpos rfl hw _).trans hreduced
  have hagree : (w.reshape srcOp.output).elem (List.replicate srcOp.output.length 0)
      = y.elem (List.replicate srcOp.output.length 0) :=
    helem _ (inShape_replicate_zero hresult.pos)
  have hreshape : (w.reshape srcOp.output).elem (List.replicate srcOp.output.length 0)
      = w.elem (List.replicate w.shape.length 0) := by
    show w.elem (unravel w.shape (rowMajor srcOp.output _)) = _
    rw [rowMajor_replicate_zero, unravel_zero]
  rw [hyone] at hagree
  rw [hwzero] at hreshape
  exact absurd (hreshape.symm.trans hagree) Nat.zero_ne_one

/-- **The argmax operations that are replaced faithfully.** -/
theorem keeps_iff_condition (hverified : verifyReduceOp srcOp.toReduceOp = .ok ()) :
    Keeps srcOp ↔ (srcOp.input.length < 4 → Condition srcOp) :=
  ⟨condition_of_keeps hverified, keeps_of_condition hverified⟩

end Keeps

end ArgMax

end TTNN
