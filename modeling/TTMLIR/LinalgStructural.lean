/-
# Broadcast, reshape, slice and concat on the host

The patterns of `TTIRToLinalg.cpp` for operations that move elements.  The verifiers of the
operations (`TTIROps.cpp`) normalize negative dimensions and bounds; the patterns read the
attributes as they are.

* `lowerBroadcast`, `lowerReshape`, `lowerSlice`, `lowerConcat` : the translated patterns;
* `ExtractSliceOp`, `InsertSliceOp`, `TensorReshapeOp` : the operations they emit;
* `StructuralOp.Lowers` : what is emitted is well formed and computes the operation;
* `sizeOf_eq_iff` : when the size of a slice, computed from the raw bounds, is the right one;
* `lowers_iff_readsRaw` : the operations that are lowered correctly.
-/
import TTMLIR.BroadcastCommute
import TTMLIR.LinalgBroadcast
import TTMLIR.SelectToSlice

namespace TTIRToLinalg

open MixedRadix TTIR Fallible

variable {α : Type}

/-! ## The operations that are emitted -/

/-- `tensor.extract_slice`. -/
structure ExtractSliceOp : Type where
  source : List ℕ
  offsets : List ℤ
  sizes : List ℤ
  strides : List ℤ
  result : List ℤ

/-- The verifier of `tensor.extract_slice`: no offset and no size is negative, the sizes are those of
the result, and what is read is in the source. -/
structure ExtractSliceOp.Verified (op : ExtractSliceOp) : Prop where
  offsets : ∀ offset ∈ op.offsets, 0 ≤ offset
  sizes : ∀ size ∈ op.sizes, 0 ≤ size
  result : op.sizes = op.result
  inBounds : ∀ i < op.source.length, ∀ k : ℤ, 0 ≤ k → k < op.sizes.getD i 0 →
    0 ≤ op.offsets.getD i 0 + k * op.strides.getD i 0 ∧
      op.offsets.getD i 0 + k * op.strides.getD i 0 < op.source.getD i 0

/-- The result of a `tensor.extract_slice`. -/
def ExtractSliceOp.apply (op : ExtractSliceOp) (x : Tensor α) : Tensor α :=
  x.slice op.offsets op.strides (op.result.map Int.toNat)

/-- `tensor.insert_slice` with unit strides. -/
structure InsertSliceOp : Type where
  source : List ℕ
  dest : List ℕ
  offsets : List ℕ
  sizes : List ℕ
  deriving DecidableEq

/-- The verifier of `tensor.insert_slice`: the sizes are those of the source, and fit. -/
structure InsertSliceOp.Verified (op : InsertSliceOp) : Prop where
  sizes : op.sizes = op.source
  rank : op.source.length = op.dest.length
  inBounds : ∀ i < op.dest.length, op.offsets.getD i 0 + op.sizes.getD i 0 ≤ op.dest.getD i 0

/-- An index that is overwritten. -/
def InsertSliceOp.Covers (op : InsertSliceOp) (idx : List ℕ) : Prop :=
  ∀ i < op.dest.length,
    op.offsets.getD i 0 ≤ idx.getD i 0 ∧ idx.getD i 0 < op.offsets.getD i 0 + op.sizes.getD i 0

instance (op : InsertSliceOp) (idx : List ℕ) : Decidable (op.Covers idx) :=
  inferInstanceAs (Decidable (∀ i < op.dest.length, _))

/-- The result of a `tensor.insert_slice`. -/
def InsertSliceOp.apply (op : InsertSliceOp) (source dest : Tensor α) : Tensor α :=
  ⟨dest.shape, fun idx =>
    if op.Covers idx then source.elem (List.zipWith (· - ·) idx op.offsets) else dest.elem idx⟩

/-- `tensor.reshape`: the types of its source, of the operand that holds the shape, and of its
result. -/
structure TensorReshapeOp : Type where
  source : List ℕ
  shapeOperand : List ℕ
  isSignlessInteger : Bool
  result : List ℕ

/-- The verifier of `tensor.reshape`: the shape is a vector of integers, one for each dimension of the
result. -/
structure TensorReshapeOp.Verified (op : TensorReshapeOp) : Prop where
  integers : op.isSignlessInteger = true
  vector : op.shapeOperand = [op.result.length]
  elements : op.source.prod = op.result.prod

/-- The result of a `tensor.reshape`: the shape is what the operand holds. -/
def TensorReshapeOp.apply (x : Tensor α) (contents : List ℕ) : Tensor α := x.reshape contents

/-! ## The translated patterns -/

/-- `ttir.concat`: the shapes of its operands, its dimension, and the shape it is given. -/
structure ConcatOp : Type where
  inputs : List (List ℕ)
  dim : ℤ
  output : List ℕ
  deriving DecidableEq

/-- The dimension counted from the front. -/
def ConcatOp.normalizedDim (op : ConcatOp) : ℤ :=
  if op.dim < 0 then op.dim + (op.inputs.headD []).length else op.dim

/-- `ConcatOp::verify`. -/
def ConcatOp.verify (op : ConcatOp) : Except String Unit :=
  match op.inputs with
  | [] => .error "inputs.front()"
  | first :: rest =>
    let dim := op.normalizedDim
    if dim < 0 ∨ first.length ≤ dim then
      .error s!"Invalid dimension {op.dim} for concatenation."
    else rest.forM fun input =>
      if input.length ≠ first.length then .error "All input tensors must have the same rank."
      else if input.set dim.toNat 0 ≠ first.set dim.toNat 0 then
        .error s!"All input tensors must have the same dimensions, except for dimension {dim}."
      else .ok ()

/-- `BroadcastOpConversionPattern`: the dimensions of the `linalg.broadcast`. -/
def lowerBroadcast (op : BroadcastOp) : Except String (List ℕ) :=
  getBroadcastDims op.input op.output

/-- `ReshapeOpConversionPattern`: the destination of the reshape is passed as the shape.  The flag
says whether the elements are signless integers. -/
def lowerReshape (op : ReshapeOp) (isSignlessInteger : Bool) : TensorReshapeOp where
  source := op.input
  shapeOperand := op.output
  isSignlessInteger := isSignlessInteger
  result := op.output

/-- The size of one dimension in `SliceOpConversionPattern`, for steps as in `expectedDimSize`. -/
def sizeOf (beginVal endVal stepVal : ℤ) : ℤ :=
  let size := endVal - beginVal
  if stepVal ≠ 0 then (size + stepVal - 1).tdiv stepVal else size

/-- `SliceOpConversionPattern`. -/
def lowerSlice (op : SliceOp) : ExtractSliceOp where
  source := op.input
  offsets := op.begins
  sizes := (List.range op.begins.length).map fun i =>
    sizeOf (op.begins.getD i 0) (op.ends.getD i 0) (op.step.getD i 0)
  strides := op.step
  result := op.output

/-- One turn of the loop of `ConcatOpConversionPattern`, at the offset reached. -/
def insertSliceOf (op : ConcatOp) (input : List ℕ) (offset : ℕ) : InsertSliceOp where
  source := input
  dest := op.output
  offsets := (List.range input.length).map fun i : ℕ => if (i : ℤ) = op.dim then offset else 0
  sizes := input

/-- The offset after an operand: it grows by the extent at the dimension the loop has found. -/
def nextOffset (op : ConcatOp) (input : List ℕ) (offset : ℕ) : ℕ :=
  (List.range input.length).foldl
    (fun offset (i : ℕ) => if (i : ℤ) = op.dim then offset + input.getD i 0 else offset) offset

/-- `ConcatOpConversionPattern`: the operands are inserted one after the other. -/
def lowerConcat (op : ConcatOp) : List (List ℕ) → ℕ → List InsertSliceOp
  | [], _ => []
  | input :: inputs, offset =>
    insertSliceOf op input offset :: lowerConcat op inputs (nextOffset op input offset)

/-- The insertions, from the tensor `result` on. -/
def applyInserts (ops : List InsertSliceOp) (xs : List (Tensor α)) (result : Tensor α) : Tensor α :=
  (ops.zip xs).foldl (fun result entry => entry.1.apply entry.2 result) result

/-! ## What the lowering is meant to do -/

/-- The operations that move elements.  For a reshape the flag says whether the elements are signless
integers. -/
inductive StructuralOp : Type where
  | broadcast (op : BroadcastOp)
  | reshape (op : ReshapeOp) (isSignlessInteger : Bool)
  | slice (op : SliceOp)
  | concat (op : ConcatOp)

/-- The verifier of an operation. -/
def StructuralOp.verify : StructuralOp → Except String Unit
  | broadcast op => op.verify
  | reshape op _ => op.verify
  | slice op => op.verify
  | concat op => op.verify

/-- A broadcast is lowered correctly. -/
def BroadcastLowers (op : BroadcastOp) : Prop :=
  ∃ dims, lowerBroadcast op = .ok dims ∧ LinalgBroadcastOp.Verified op.input op.output dims ∧
    ∀ (α : Type) (x : Tensor α), x.shape = op.input →
      Tensor.Agree (LinalgBroadcastOp.apply x op.output dims) (x.broadcast op.broadcastDimensions)

/-- A reshape is lowered correctly, whatever the destination holds. -/
def ReshapeLowers (op : ReshapeOp) (isSignlessInteger : Bool) : Prop :=
  (lowerReshape op isSignlessInteger).Verified ∧
    ∀ (α : Type) (x : Tensor α) (contents : List ℕ), x.shape = op.input →
      Tensor.Agree (TensorReshapeOp.apply x contents) (x.reshape op.output)

/-- A slice is lowered correctly. -/
def SliceLowers (op : SliceOp) : Prop :=
  (lowerSlice op).Verified ∧
    ∀ (α : Type) (x : Tensor α), x.shape = op.input →
      Tensor.Agree ((lowerSlice op).apply x) (op.apply x)

/-- A concatenation is lowered correctly, whatever the empty tensor holds. -/
def ConcatLowers (op : ConcatOp) : Prop :=
  (∀ insert ∈ lowerConcat op op.inputs 0, insert.Verified) ∧
    ∀ (α : Type) (first : Tensor α) (rest : List (Tensor α)) (uninitialized : List ℕ → α),
      (first :: rest).map Tensor.shape = op.inputs →
        Tensor.Agree (applyInserts (lowerConcat op op.inputs 0) (first :: rest)
            ⟨op.output, uninitialized⟩)
          (Tensor.concat op.normalizedDim.toNat first rest)

/-- **The operation is lowered correctly**: what is emitted is well formed, has the type of the
operation, and computes it. -/
def StructuralOp.Lowers : StructuralOp → Prop
  | broadcast op => BroadcastLowers op
  | reshape op isSignlessInteger => ReshapeLowers op isSignlessInteger
  | slice op => SliceLowers op
  | concat op => ConcatLowers op

/-! ## The condition -/

/-- A dimension whose raw bounds give the size and the elements of the slice: the begin is not
negative, and the size is not changed by a negative end or by rounding for a negative step. -/
def RawBounds (dimSize : ℕ) (begin stop step : ℤ) : Prop :=
  let adjustedEnd := SliceOp.adjusted stop dimSize
  0 ≤ begin ∧
    if 0 < step then 0 ≤ stop ∨ (adjustedEnd = begin ∧ begin - stop + 1 < 2 * step)
    else (begin - adjustedEnd - 1) % (-step) + (adjustedEnd - stop) + 2 < -step

instance (dimSize : ℕ) (begin stop step : ℤ) : Decidable (RawBounds dimSize begin stop step) :=
  inferInstanceAs (Decidable (_ ∧ _))

/-- The shape of a concatenation. -/
def ConcatOp.concatShape (op : ConcatOp) : List ℕ :=
  (op.inputs.headD []).set op.normalizedDim.toNat
    (op.inputs.map fun input => input.getD op.normalizedDim.toNat 0).sum

/-- The condition under which the patterns may read the attributes as they are. -/
def StructuralOp.ReadsRaw : StructuralOp → Prop
  | broadcast op => op.input = op.output
  | reshape _ _ => False
  | slice op => ∀ i < op.input.length, RawBounds (op.input.getD i 0) (op.begins.getD i 0)
      (op.ends.getD i 0) (op.step.getD i 0)
  | concat op => op.output = op.concatShape ∧ (0 ≤ op.dim ∨ op.output.prod = 0 ∨
      (op.inputs.filter fun input => input.getD op.normalizedDim.toNat 0 ≠ 0).length ≤ 1)

/-! ## Broadcast -/

/-- The shapes of a verified broadcast are stretched. -/
theorem stretches_of_verify {op : BroadcastOp} (h : op.verify = .ok ()) :
    Stretches op.input op.output := by
  obtain ⟨hshape, hlen, hout⟩ := BroadcastOp.verify_iff.mp h
  refine ⟨hshape.length_eq.le, ?_⟩
  rw [hshape.length_eq, Nat.sub_self, List.drop_zero]
  refine List.forall₂_iff_get.mpr ⟨hshape.length_eq, fun i h₁ h₂ => ?_⟩
  have hm := hshape.get h₁ h₂
  have hmul : op.output[i] = op.input[i] * op.broadcastDimensions.get ⟨i, hlen ▸ h₁⟩ := by
    simp only [hout, List.getElem_zipWith, List.get_eq_getElem]
  rw [List.get_eq_getElem, List.get_eq_getElem] at hm ⊢
  rcases hm with hm | hm | hm
  · exact .inl hm
  · rw [hm] at hmul
    exact .inr (Nat.eq_one_of_mul_eq_one_right hmul.symm)
  · exact .inr hm

/-- A broadcast keeps the rank, so that nothing may be stretched. -/
theorem broadcastLowers_iff {op : BroadcastOp} (h : op.verify = .ok ()) :
    BroadcastLowers op ↔ op.input = op.output := by
  have hstretch := stretches_of_verify h
  obtain ⟨hshape, hlen, hout⟩ := BroadcastOp.verify_iff.mp h
  have hlower : lowerBroadcast op = .ok (broadcastDimsOf op.input op.output) :=
    getBroadcastDims_eq hstretch
  have hcount := length_broadcastDimsOf hstretch
  constructor
  · rintro ⟨dims, hdims, hverified, -⟩
    obtain rfl := Except.ok.inj (hlower.symm.trans hdims)
    have hrank := hverified.rank
    have hlength := hshape.length_eq
    exact eq_target hstretch (by omega)
  · intro heq
    have hall : equalDims op.input op.output = List.range op.input.length := by
      refine List.filter_eq_self.mpr fun d hd => decide_eq_true ?_
      have hd' := List.mem_range.mp hd
      rw [extent, targetExtent, ← heq, Nat.sub_self, Nat.zero_add, List.getD_eq_getElem _ _ hd',
        List.getD_eq_getElem _ _ hd']
    have hnil : broadcastDimsOf op.input op.output = [] := by
      rw [hall, List.length_range, heq] at hcount
      exact List.eq_nil_of_length_eq_zero (by rw [heq]; omega)
    have hkept : LinalgBroadcastOp.kept op.output [] = List.range op.output.length :=
      List.filter_eq_self.mpr (by simp)
    refine ⟨[], by rw [hlower, hnil], ⟨by simp [heq], by simp, fun i hi => ?_⟩,
      fun α x hx => ⟨?_, fun idx hidx => ?_⟩⟩
    · have hi' : i < (List.range op.output.length).length := by
        rw [List.length_range, ← heq]
        exact hi
      rw [hkept, List.getD_eq_getElem _ _ hi', List.getElem_range, heq]
    · show op.output = List.zipWith (· * ·) x.shape op.broadcastDimensions
      rw [hx, hout]
    · have hidx' : InShape idx op.output := hidx
      show x.elem _ = x.elem (List.zipWith (· % ·) idx x.shape)
      rw [hkept, ← hidx'.length_eq, map_range_getD, hx, heq,
        ← clamp_of_length hidx'.length_eq, clamp_of_inShape hidx']

/-! ## Reshape -/

theorem not_reshapeLowers (op : ReshapeOp) (isSignlessInteger : Bool) :
    ¬ ReshapeLowers op isSignlessInteger := by
  rintro ⟨hverified, hagree⟩
  have hshape := (hagree ℕ ⟨op.input, fun _ => 0⟩ (op.output.map (· + 1)) rfl).1
  have hvector : op.output = [op.output.length] := hverified.vector
  have heq : op.output.map (· + 1) = op.output := hshape
  rw [hvector] at heq
  simp at heq

/-! ## Slice -/

/-- A quotient that is rounded up grows when its numerator passes a multiple. -/
theorem tdiv_eq_iff {g w t : ℤ} (hg : 0 ≤ g) (hw : 0 ≤ w) (ht : 0 < t) :
    (g + w + t + 1).tdiv t = (g + t - 1).tdiv t ↔ (g - 1) % t + w + 2 < t := by
  have hdiv := Int.emod_add_mul_ediv (g - 1) t
  have hmod := Int.emod_nonneg (g - 1) ht.ne'
  have hlt := Int.emod_lt_of_pos (g - 1) ht
  generalize (g - 1) % t = r at *
  generalize (g - 1) / t = q at *
  have hexpected : (g + t - 1).tdiv t = q + 1 := by
    have hform : g + t - 1 = r + t * (q + 1) := by linear_combination -hdiv
    rw [Int.tdiv_eq_ediv_of_nonneg (by omega), hform, Int.add_mul_ediv_left _ _ ht.ne',
      Int.ediv_eq_zero_of_lt hmod hlt, zero_add]
  have hcomputed : (g + w + t + 1).tdiv t = (r + w + 2) / t + (q + 1) := by
    have hform : g + w + t + 1 = r + w + 2 + t * (q + 1) := by linear_combination -hdiv
    rw [Int.tdiv_eq_ediv_of_nonneg (by omega), hform, Int.add_mul_ediv_left _ _ ht.ne']
  rw [hexpected, hcomputed]
  constructor
  · intro h
    have hzero : (r + w + 2) / t = 0 := by omega
    by_contra hge
    have hone := Int.le_ediv_of_mul_le ht (by omega : 1 * t ≤ r + w + 2)
    omega
  · intro h
    rw [Int.ediv_eq_zero_of_lt (by omega) h, zero_add]

/-- A quotient of a negative length is not positive, and the quotient of a length is not negative:
they are equal when both are zero. -/
theorem tdiv_eq_iff_of_neg {d g s : ℤ} (hd : d < 0) (hg : 0 ≤ g) (hs : 0 < s) :
    (d + s - 1).tdiv s = (g + s - 1).tdiv s ↔ g = 0 ∧ -d + 1 < 2 * s := by
  have hraw : (d + s - 1).tdiv s ≤ 0 ∧ ((d + s - 1).tdiv s = 0 ↔ -d + 1 < 2 * s) := by
    by_cases hn : 0 ≤ d + s - 1
    · rw [Int.tdiv_eq_zero_of_lt hn (by omega)]
      exact ⟨le_refl 0, iff_of_true rfl (by omega)⟩
    · have hform : d + s - 1 = -(1 - d - s) := by ring
      rw [hform, Int.neg_tdiv, Int.tdiv_eq_ediv_of_nonneg (by omega)]
      have hquot : 0 ≤ (1 - d - s) / s := Int.ediv_nonneg (by omega) hs.le
      refine ⟨by omega, fun hzero => ?_, fun hlt => ?_⟩
      · by_contra hge
        have hone := Int.le_ediv_of_mul_le hs (by omega : 1 * s ≤ 1 - d - s)
        omega
      · rw [Int.ediv_eq_zero_of_lt (by omega) (by omega), neg_zero]
  rcases Int.lt_or_eq_of_le hg with hpos | hzero
  · have hone : 1 ≤ (g + s - 1).tdiv s := by
      rw [Int.tdiv_eq_ediv_of_nonneg (by omega)]
      exact Int.le_ediv_of_mul_le hs (by omega)
    have hle := hraw.1
    exact iff_of_false (by omega) fun h => hpos.ne' h.1
  · rw [← hzero, Int.tdiv_eq_zero_of_lt (a := 0 + s - 1) (by omega) (by omega), hraw.2]
    exact ⟨fun h => ⟨rfl, h⟩, fun h => h.2⟩

/-- **The size of a dimension**, computed from the raw bounds: it is the size of the slice exactly
when these are such that nothing is lost. -/
theorem sizeOf_eq_iff {b e e' s : ℤ} (hs : s ≠ 0) (he : e' = e ∨ e < 0) (he' : 0 ≤ e')
    (hpos : 0 < s → b ≤ e') (hneg : s < 0 → e' ≤ b) (hb : 0 ≤ b) :
    sizeOf b e s = (|e' - b| + |s| - 1).tdiv |s| ↔
      if 0 < s then 0 ≤ e ∨ (e' = b ∧ b - e + 1 < 2 * s)
      else (b - e' - 1) % (-s) + (e' - e) + 2 < -s := by
  rw [sizeOf, if_pos hs]
  rcases Int.lt_or_lt_of_ne hs with hs | hs
  · have hle := hneg hs
    have hw : 0 ≤ e' - e := by rcases he with he | he <;> omega
    have hraw : (e - b + s - 1).tdiv s = (b - e' + (e' - e) + -s + 1).tdiv (-s) := by
      rw [Int.tdiv_neg, ← Int.neg_tdiv]
      congr 1
      ring
    have hexpected : |e' - b| = b - e' := by rw [abs_of_nonpos (by omega), neg_sub]
    rw [if_neg (by omega), abs_of_neg hs, hexpected, hraw]
    exact tdiv_eq_iff (by omega) hw (by omega)
  · have hle := hpos hs
    rw [if_pos hs, abs_of_pos hs, abs_of_nonneg (by omega : 0 ≤ e' - b)]
    by_cases hend : 0 ≤ e
    · rw [he.resolve_right (by omega)]
      exact iff_of_true rfl (.inl hend)
    · rw [tdiv_eq_iff_of_neg (by omega) (by omega) hs]
      constructor
      · rintro ⟨hzero, hlt⟩
        exact .inr ⟨by omega, by omega⟩
      · rintro (h | ⟨heq, hlt⟩)
        · exact absurd h hend
        · exact ⟨by omega, by omega⟩

/-- What the verifier of a slice says about one dimension. -/
structure SliceDim (n : ℕ) (begin stop step size : ℤ) : Prop where
  begin_nonneg : 0 ≤ SliceOp.adjusted begin n
  begin_lt : SliceOp.adjusted begin n < n
  stop_nonneg : 0 ≤ SliceOp.adjusted stop n
  stop_le : SliceOp.adjusted stop n ≤ n
  step_ne : step ≠ 0
  forward : 0 < step → SliceOp.adjusted begin n ≤ SliceOp.adjusted stop n
  backward : step < 0 → SliceOp.adjusted stop n ≤ SliceOp.adjusted begin n
  size_eq : size =
    SliceOp.expectedDimSize (SliceOp.adjusted begin n) (SliceOp.adjusted stop n) step

theorem SliceOp.verify_spec {op : SliceOp} (h : op.verify = .ok ()) :
    op.begins.length = op.input.length ∧ op.output.length = op.input.length ∧
      ∀ i < op.input.length, SliceDim (op.input.getD i 0) (op.begins.getD i 0) (op.ends.getD i 0)
        (op.step.getD i 0) (op.output.getD i 0) := by
  rw [SliceOp.verify] at h
  split_ifs at h with hrank hattrs hout
  refine ⟨by omega, by omega, fun i hi => ?_⟩
  have hdim := forM_eq_ok.mp h i (List.mem_range.mpr hi)
  rw [SliceOp.verifyDim] at hdim
  split_ifs at hdim with h₁ h₂ h₃ h₄ h₅ h₆
  exact ⟨by omega, by omega, by omega, by omega, h₃, by omega, by omega, not_not.mp h₆⟩

/-- The size of a dimension is right when its raw bounds are. -/
theorem SliceDim.sizeOf_iff {n : ℕ} {begin stop step size : ℤ}
    (h : SliceDim n begin stop step size) (hb : 0 ≤ begin) :
    sizeOf begin stop step = size ↔ RawBounds n begin stop step := by
  have hbegin := SliceOp.adjusted_of_nonneg hb n
  have hforward := h.forward
  have hbackward := h.backward
  rw [hbegin] at hforward hbackward
  have hstop : SliceOp.adjusted stop n = stop ∨ stop < 0 := by
    by_cases hneg : stop < 0
    · exact .inr hneg
    · exact .inl (SliceOp.adjusted_of_nonneg (by omega) n)
  rw [h.size_eq, hbegin, SliceOp.expectedDimSize,
    sizeOf_eq_iff h.step_ne hstop h.stop_nonneg hforward hbackward hb]
  exact ⟨fun hr => ⟨hb, hr⟩, fun hr => hr.2⟩

/-- The size of a dimension is not negative, and its positions stay between the bounds. -/
theorem SliceDim.inBounds {n : ℕ} {begin stop step size : ℤ}
    (h : SliceDim n begin stop step size) (hb : 0 ≤ begin) :
    0 ≤ size ∧ ∀ k : ℤ, 0 ≤ k → k < size → 0 ≤ begin + k * step ∧ begin + k * step < n := by
  have hbegin := SliceOp.adjusted_of_nonneg hb n
  have hlt := h.begin_lt
  have hforward := h.forward
  have hbackward := h.backward
  have hsize := h.size_eq
  have hstop := h.stop_nonneg
  have hle := h.stop_le
  rw [hbegin] at hlt hforward hbackward hsize
  generalize SliceOp.adjusted stop n = e at *
  have ht : 0 < |step| := abs_pos.mpr h.step_ne
  have hd : 0 ≤ |e - begin| := abs_nonneg _
  rw [SliceOp.expectedDimSize, Int.tdiv_eq_ediv_of_nonneg (by omega)] at hsize
  refine ⟨hsize ▸ Int.ediv_nonneg (by omega) ht.le, fun k hk hkn => ?_⟩
  -- the last position is short of the end by one at least
  have hmul : (k + 1) * |step| ≤ |e - begin| + |step| - 1 := by
    have hsucc : k + 1 ≤ (|e - begin| + |step| - 1) / |step| := by omega
    exact Int.mul_le_of_le_ediv ht hsucc
  have hk' : 0 ≤ k * |step| := mul_nonneg hk ht.le
  rw [add_mul, one_mul] at hmul
  rcases Int.lt_or_lt_of_ne h.step_ne with hs | hs
  · rw [abs_of_neg hs, mul_neg] at hmul hk'
    rw [abs_of_nonpos (by have := hbackward hs; omega)] at hmul
    omega
  · rw [abs_of_pos hs] at hmul hk'
    rw [abs_of_nonneg (by have := hforward hs; omega)] at hmul
    omega

/-- A slice is lowered correctly when the raw bounds of all its dimensions are right. -/
theorem sliceLowers_iff {op : SliceOp} (h : op.verify = .ok ()) :
    SliceLowers op ↔ ∀ i < op.input.length, RawBounds (op.input.getD i 0) (op.begins.getD i 0)
      (op.ends.getD i 0) (op.step.getD i 0) := by
  obtain ⟨hbegins, hout, hdims⟩ := SliceOp.verify_spec h
  have hsizes : ∀ i < op.input.length, (lowerSlice op).sizes.getD i 0 =
      sizeOf (op.begins.getD i 0) (op.ends.getD i 0) (op.step.getD i 0) := by
    intro i hi
    have hi' : i < (lowerSlice op).sizes.length := by simpa [lowerSlice, hbegins] using hi
    rw [List.getD_eq_getElem _ _ hi']
    simp only [lowerSlice, List.getElem_map, List.getElem_range]
  constructor
  · rintro ⟨hverified, -⟩ i hi
    have hb : 0 ≤ op.begins.getD i 0 := by
      have hi' : i < op.begins.length := hbegins ▸ hi
      rw [List.getD_eq_getElem _ _ hi']
      exact hverified.offsets _ (List.getElem_mem hi')
    refine ((hdims i hi).sizeOf_iff hb).mp ?_
    rw [← hsizes i hi, hverified.result]
    rfl
  · intro hraw
    have hb : ∀ i < op.input.length, 0 ≤ op.begins.getD i 0 := fun i hi => (hraw i hi).1
    have hresult : (lowerSlice op).sizes = op.output := by
      have hlength : (lowerSlice op).sizes.length = op.output.length := by
        simp [lowerSlice, hbegins, hout]
      refine List.ext_getElem hlength fun i h₁ h₂ => ?_
      have hi : i < op.input.length := hout ▸ h₂
      have heq := ((hdims i hi).sizeOf_iff (hb i hi)).mpr (hraw i hi)
      rw [← hsizes i hi, List.getD_eq_getElem _ _ h₁, List.getD_eq_getElem _ _ h₂] at heq
      exact heq
    have hadjusted : List.zipWith SliceOp.adjusted op.begins op.input = op.begins := by
      refine List.ext_getElem (by simp [hbegins]) fun i h₁ h₂ => ?_
      have hi : i < op.input.length := hbegins ▸ h₂
      have hb' := hb i hi
      rw [List.getD_eq_getElem _ _ h₂] at hb'
      rw [List.getElem_zipWith]
      exact SliceOp.adjusted_of_nonneg hb' _
    refine ⟨⟨?_, ?_, hresult, ?_⟩, fun α x _ => ⟨rfl, fun idx _ => ?_⟩⟩
    · intro offset hoffset
      obtain ⟨i, hi, rfl⟩ := List.getElem_of_mem (show offset ∈ op.begins from hoffset)
      have hb' := hb i (hbegins ▸ hi)
      rwa [List.getD_eq_getElem _ _ hi] at hb'
    · rw [hresult]
      intro size hsize
      obtain ⟨i, hi, rfl⟩ := List.getElem_of_mem hsize
      have hnonneg := ((hdims i (hout ▸ hi)).inBounds (hb i (hout ▸ hi))).1
      rwa [List.getD_eq_getElem _ _ hi] at hnonneg
    · intro i hi k hk hkn
      rw [hresult] at hkn
      exact ((hdims i hi).inBounds (hb i hi)).2 k hk hkn
    · rw [SliceOp.apply, hadjusted]
      rfl

/-! ## Concat -/

section Concat

/-- What the verifier of a concatenation says: the operands agree outside a dimension `d`. -/
structure ConcatDims (op : ConcatOp) (d rank : ℕ) : Prop where
  normalizedDim_eq : op.normalizedDim = d
  nonempty : op.inputs ≠ []
  lt_rank : d < rank
  length_eq : ∀ input ∈ op.inputs, input.length = rank
  set_eq : ∀ input ∈ op.inputs, input.set d 0 = (op.inputs.headD []).set d 0

/-- The dimensions of a verified concatenation. -/
theorem ConcatOp.verify_spec {op : ConcatOp} (h : op.verify = .ok ()) :
    ConcatDims op op.normalizedDim.toNat (op.inputs.headD []).length := by
  rw [ConcatOp.verify] at h
  cases hinputs : op.inputs with
  | nil =>
    rw [hinputs] at h
    cases h
  | cons first rest =>
    rw [hinputs] at h
    simp only at h
    split_ifs at h with hdim
    have hrest := forM_eq_ok.mp h
    have hall : ∀ input ∈ rest, input.length = first.length ∧
        input.set op.normalizedDim.toNat 0 = first.set op.normalizedDim.toNat 0 := by
      intro input hinput
      have hcheck := hrest input hinput
      split_ifs at hcheck with h₁ h₂
      exact ⟨not_not.mp h₁, not_not.mp h₂⟩
    refine ⟨by omega, by simp [hinputs], ?_, ?_, ?_⟩
    · show _ < first.length
      omega
    · rw [hinputs]
      exact List.forall_mem_cons.mpr ⟨rfl, fun input hinput => (hall input hinput).1⟩
    · rw [hinputs]
      exact List.forall_mem_cons.mpr ⟨rfl, fun input hinput => (hall input hinput).2⟩

/-- The element at a place along the dimension, in the operand that the place is in. -/
def pick (d : ℕ) : List (Tensor α) → ℕ → List ℕ → Option α
  | [], _, _ => none
  | x :: xs, k, idx =>
    if k < x.shape.getD d 0 then some (x.elem (idx.set d k))
    else pick d xs (k - x.shape.getD d 0) idx

/-- The element of the last operand that an index is in. -/
def pickLast (d : ℕ) : List (Tensor α) → List ℕ → Option α
  | [], _ => none
  | x :: xs, idx =>
    match pickLast d xs idx with
    | some a => some a
    | none => if idx.getD d 0 < x.shape.getD d 0 then some (x.elem idx) else none

/-- The extent of operands one behind the other. -/
def extentSum (d : ℕ) (xs : List (Tensor α)) : ℕ := (xs.map fun x => x.shape.getD d 0).sum

/-- **A concatenation**: its shape, and the element at every index of it. -/
theorem concat_eq {d rank : ℕ} (hd : d < rank) (x : Tensor α) (xs : List (Tensor α))
    (hrank : ∀ y ∈ x :: xs, y.shape.length = rank) :
    (Tensor.concat d x xs).shape = x.shape.set d (extentSum d (x :: xs)) ∧
      ∀ idx : List ℕ, d < idx.length → idx.getD d 0 < extentSum d (x :: xs) →
        pick d (x :: xs) (idx.getD d 0) idx = some ((Tensor.concat d x xs).elem idx) := by
  induction xs generalizing x with
  | nil =>
    have hsum : extentSum d [x] = x.shape.getD d 0 := by simp [extentSum]
    refine ⟨by rw [hsum, set_getD_self]; rfl, fun idx _ hlt => ?_⟩
    rw [hsum] at hlt
    rw [pick, if_pos hlt, set_getD_self]
    rfl
  | cons y ys ih =>
    obtain ⟨hx, hys⟩ := List.forall_mem_cons.mp hrank
    obtain ⟨hshape, helem⟩ := ih y hys
    have hy : d < y.shape.length := by rw [hys y (by simp)]; exact hd
    have hsum : extentSum d (x :: y :: ys) = x.shape.getD d 0 + extentSum d (y :: ys) := by
      simp [extentSum]
    rw [Tensor.concat]
    refine ⟨?_, fun idx hidx hlt => ?_⟩
    · show x.shape.set d _ = _
      rw [hshape, getD_set_self hy, hsum]
    · rw [hsum] at hlt
      show pick d _ _ _ = some (if _ then _ else _)
      rw [pick]
      split_ifs with hfirst
      · rw [set_getD_self]
      · have hget := getD_set_self hidx (idx.getD d 0 - x.shape.getD d 0)
        have hrest := helem (idx.set d (idx.getD d 0 - x.shape.getD d 0))
          (by rwa [List.length_set]) (by rw [hget]; omega)
        rw [hget] at hrest
        rw [← hrest]
        -- the place along the dimension is given apart from the index
        have hset : ∀ (l : List (Tensor α)) (k v : ℕ),
            pick d l k (idx.set d v) = pick d l k idx := by
          intro l
          induction l with
          | nil => intro k v; rfl
          | cons z l ihl => intro k v; rw [pick, pick, ihl, List.set_set]
        rw [hset]

variable {op : ConcatOp} {d rank : ℕ}

variable {input : List ℕ}

section

variable (hop : ConcatDims op d rank) (hout : op.output = op.concatShape)

include hop hout

theorem getD_output (hinput : input ∈ op.inputs) {i : ℕ} (hi : i ≠ d) :
    op.output.getD i 0 = input.getD i 0 := by
  have hget : ∀ l : List ℕ, ∀ v, (l.set d v).getD i 0 = l.getD i 0 := by
    intro l v
    rw [List.getD_eq_getElem?_getD, List.getD_eq_getElem?_getD, List.getElem?_set_ne (Ne.symm hi)]
  have hset := congrArg (fun l : List ℕ => l.getD i 0) (hop.set_eq input hinput)
  simp only [hget] at hset
  rw [hout, ConcatOp.concatShape, hop.normalizedDim_eq, Int.toNat_natCast, hget, hset]

theorem getD_output_dim : op.output.getD d 0 = (op.inputs.map fun input => input.getD d 0).sum := by
  have hhead : (op.inputs.headD []).length = rank := by
    cases hinputs : op.inputs with
    | nil => exact absurd hinputs hop.nonempty
    | cons first rest => exact hop.length_eq first (by simp [hinputs])
  rw [hout, ConcatOp.concatShape, hop.normalizedDim_eq, Int.toNat_natCast,
    getD_set_self (by rw [hhead]; exact hop.lt_rank)]

theorem length_output : op.output.length = rank := by
  rw [hout, ConcatOp.concatShape, List.length_set]
  cases hinputs : op.inputs with
  | nil => exact absurd hinputs hop.nonempty
  | cons first rest => exact hop.length_eq first (by simp [hinputs])

end

theorem getD_offsets (input : List ℕ) (offset : ℕ) {i : ℕ} (hi : i < input.length) :
    (insertSliceOf op input offset).offsets.getD i 0 =
      if (i : ℤ) = op.dim then offset else 0 := by
  rw [List.getD_eq_getElem _ _ (by simpa [insertSliceOf] using hi)]
  simp [insertSliceOf]

/-- The offset after an operand, when the dimension is counted from the front. -/
theorem nextOffset_of_nonneg (hdim : op.dim = d) (hd : d < input.length)
    (offset : ℕ) : nextOffset op input offset = offset + input.getD d 0 := by
  have hfold : ∀ n, (List.range n).foldl
      (fun offset (i : ℕ) => if (i : ℤ) = op.dim then offset + input.getD i 0 else offset) offset =
        if d < n then offset + input.getD d 0 else offset := by
    intro n
    induction n with
    | zero => rfl
    | succ n ih =>
      rw [List.range_succ, List.foldl_append, ih, List.foldl_cons, List.foldl_nil, hdim]
      by_cases hnd : n = d
      · rw [if_pos (by omega), hnd, if_neg (by omega), if_pos (by omega)]
      · rw [if_neg (by omega)]
        by_cases hlt : d < n
        · rw [if_pos hlt, if_pos (by omega)]
        · rw [if_neg hlt, if_neg (by omega)]
  rw [nextOffset, hfold, if_pos hd]

theorem nextOffset_of_neg (hdim : op.dim < 0) (input : List ℕ) (offset : ℕ) :
    nextOffset op input offset = offset := by
  have hfold : ∀ n, (List.range n).foldl
      (fun offset (i : ℕ) => if (i : ℤ) = op.dim then offset + input.getD i 0 else offset) offset =
        offset := by
    intro n
    induction n with
    | zero => rfl
    | succ n ih =>
      rw [List.range_succ, List.foldl_append, ih, List.foldl_cons, List.foldl_nil,
        if_neg (by omega)]
  exact hfold _

/-- The offset along the dimension that an insertion uses. -/
def usedOffset (op : ConcatOp) (offset : ℕ) : ℕ := if op.dim < 0 then 0 else offset

theorem eq_of_eq_dim (hop : ConcatDims op d rank) {i : ℕ} (hi : (i : ℤ) = op.dim) : i = d := by
  have hnorm := hop.normalizedDim_eq
  rw [ConcatOp.normalizedDim, if_neg (by omega)] at hnorm
  omega

/-- The offsets of an insertion are those along the dimension. -/
theorem getD_offsets_eq (hop : ConcatDims op d rank) (hinput : input ∈ op.inputs)
    (offset : ℕ) {i : ℕ} (hi : i < rank) :
    (insertSliceOf op input offset).offsets.getD i 0 =
      if i = d then usedOffset op offset else 0 := by
  rw [getD_offsets input offset (by rw [hop.length_eq input hinput]; exact hi), usedOffset]
  have hnorm := hop.normalizedDim_eq
  rw [ConcatOp.normalizedDim] at hnorm
  by_cases hdim : (i : ℤ) = op.dim
  · rw [if_pos hdim, if_pos (eq_of_eq_dim hop hdim), if_neg (by omega)]
  · rw [if_neg hdim]
    by_cases hid : i = d
    · have hneg : op.dim < 0 := by
        by_contra hnot
        rw [if_neg hnot] at hnorm
        omega
      rw [if_pos hid, if_pos hneg]
    · rw [if_neg hid]

variable {idx : List ℕ}

section

variable (hop : ConcatDims op d rank) (hout : op.output = op.concatShape)
  (hinput : input ∈ op.inputs) (offset : ℕ) (hidx : InShape idx op.output)

include hop hout hinput hidx

/-- An insertion overwrites the extent of its operand along the dimension. -/
theorem covers_iff :
    (insertSliceOf op input offset).Covers idx ↔ usedOffset op offset ≤ idx.getD d 0 ∧
      idx.getD d 0 < usedOffset op offset + input.getD d 0 := by
  have hlength := length_output hop hout
  constructor
  · intro h
    have hd := h d (by rw [← hlength] at hop; exact hop.lt_rank)
    rw [getD_offsets_eq hop hinput offset hop.lt_rank, if_pos rfl] at hd
    exact hd
  · rintro ⟨hle, hlt⟩ i hi
    have hi' : i < op.output.length := hi
    rw [getD_offsets_eq hop hinput offset (hlength ▸ hi')]
    by_cases hid : i = d
    · rw [if_pos hid, hid]
      exact ⟨hle, hlt⟩
    · rw [if_neg hid]
      have hbound := getD_lt_of_inShape hidx hi'
      rw [getD_output hop hout hinput hid] at hbound
      exact ⟨Nat.zero_le _, by rw [Nat.zero_add]; exact hbound⟩

/-- What an insertion reads. -/
theorem zipWith_offsets : List.zipWith (· - ·) idx (insertSliceOf op input offset).offsets =
      idx.set d (idx.getD d 0 - usedOffset op offset) := by
  have hlength := length_output hop hout
  have hoffsets : (insertSliceOf op input offset).offsets.length = rank := by
    rw [← hop.length_eq input hinput]
    simp [insertSliceOf]
  have hidx' : idx.length = rank := hidx.length_eq.trans hlength
  refine List.ext_getElem (by simp [hoffsets, hidx']) fun i h₁ h₂ => ?_
  have hi : i < rank := by simpa [hidx'] using h₂
  have hget := getD_offsets_eq hop hinput offset hi
  rw [List.getD_eq_getElem _ _ (by omega)] at hget
  rw [List.getElem_zipWith, hget]
  by_cases hid : i = d
  · subst hid
    rw [if_pos rfl, List.getElem_set_self, List.getD_eq_getElem _ _ (by omega)]
  · rw [if_neg hid, List.getElem_set_ne (Ne.symm hid), Nat.sub_zero]

end

theorem shape_applyInserts (ops : List InsertSliceOp) (xs : List (Tensor α)) (result : Tensor α) :
    (applyInserts ops xs result).shape = result.shape := by
  induction ops generalizing xs result with
  | nil => rfl
  | cons insert ops ih =>
    cases xs with
    | nil => rfl
    | cons x xs => exact ih xs (insert.apply x result)

section

variable (hop : ConcatDims op d rank)

include hop

/-- **Insertions at growing offsets**: an index is read in the operand its place is in. -/
theorem elem_applyInserts (hout : op.output = op.concatShape)
    (hdim : 0 ≤ op.dim) (xs : List (Tensor α)) (offset : ℕ) (result : Tensor α)
    (hmem : ∀ x ∈ xs, x.shape ∈ op.inputs) (hidx : InShape idx op.output) :
    (applyInserts (lowerConcat op (xs.map Tensor.shape) offset) xs result).elem idx =
      (if offset ≤ idx.getD d 0 then pick d xs (idx.getD d 0 - offset) idx else none).getD
        (result.elem idx) := by
  have hnorm := hop.normalizedDim_eq
  rw [ConcatOp.normalizedDim, if_neg (by omega)] at hnorm
  have hused : ∀ o, usedOffset op o = o := fun o => if_neg (by omega)
  induction xs generalizing offset result with
  | nil =>
    show result.elem idx = _
    split_ifs <;> rfl
  | cons x xs ih =>
    obtain ⟨hx, hxs⟩ := List.forall_mem_cons.mp hmem
    have hd : d < x.shape.length := by rw [hop.length_eq _ hx]; exact hop.lt_rank
    have hstep := ih (offset + x.shape.getD d 0)
      ((insertSliceOf op x.shape offset).apply x result) hxs
    have hcovers := covers_iff hop hout hx offset hidx
    have hread := zipWith_offsets hop hout hx offset hidx
    rw [hused] at hcovers hread
    rw [List.map_cons, lowerConcat, nextOffset_of_nonneg hnorm hd]
    refine hstep.trans ?_
    have helem : ((insertSliceOf op x.shape offset).apply x result).elem idx =
        if offset ≤ idx.getD d 0 ∧ idx.getD d 0 < offset + x.shape.getD d 0 then
          x.elem (idx.set d (idx.getD d 0 - offset)) else result.elem idx := by
      rw [← hread]
      exact if_congr hcovers rfl rfl
    rw [helem, pick]
    by_cases hle : offset ≤ idx.getD d 0
    · by_cases hlt : idx.getD d 0 < offset + x.shape.getD d 0
      · rw [if_neg (by omega), if_pos ⟨hle, hlt⟩, if_pos hle, if_pos (by omega)]
        rfl
      · rw [if_pos (by omega), if_neg fun h => hlt h.2, if_pos hle, if_neg (by omega),
          Nat.sub_add_eq]
    · rw [if_neg (by omega), if_neg fun h => hle h.1, if_neg hle]

/-- **Insertions at offset zero**: the last operand that has the index. -/
theorem elem_applyInserts_of_neg (hout : op.output = op.concatShape)
    (hdim : op.dim < 0) (xs : List (Tensor α)) (offset : ℕ) (result : Tensor α)
    (hmem : ∀ x ∈ xs, x.shape ∈ op.inputs) (hidx : InShape idx op.output) :
    (applyInserts (lowerConcat op (xs.map Tensor.shape) offset) xs result).elem idx =
      (pickLast d xs idx).getD (result.elem idx) := by
  have hused : ∀ o, usedOffset op o = 0 := fun o => if_pos hdim
  induction xs generalizing result with
  | nil => rfl
  | cons x xs ih =>
    obtain ⟨hx, hxs⟩ := List.forall_mem_cons.mp hmem
    have hstep := ih ((insertSliceOf op x.shape offset).apply x result) hxs
    have hcovers := covers_iff hop hout hx offset hidx
    have hread := zipWith_offsets hop hout hx offset hidx
    rw [hused] at hcovers hread
    rw [List.map_cons, lowerConcat, nextOffset_of_neg hdim]
    refine hstep.trans ?_
    have helem : ((insertSliceOf op x.shape offset).apply x result).elem idx =
        if idx.getD d 0 < x.shape.getD d 0 then x.elem idx else result.elem idx := by
      rw [Nat.sub_zero, set_getD_self] at hread
      show (if _ then x.elem (List.zipWith (· - ·) idx _) else _) = _
      rw [hread]
      refine if_congr (hcovers.trans ?_) rfl rfl
      rw [Nat.zero_add]
      exact ⟨fun h => h.2, fun h => ⟨Nat.zero_le _, h⟩⟩
    rw [helem, pickLast]
    cases pickLast d xs idx with
    | some a => rfl
    | none =>
      simp only [Option.getD_none]
      split_ifs <;> rfl

theorem concatShape_eq {first : Tensor α} {rest : List (Tensor α)}
    (hinputs : (first :: rest).map Tensor.shape = op.inputs) :
    (Tensor.concat d first rest).shape = op.concatShape := by
  have hrank : ∀ y ∈ first :: rest, y.shape.length = rank := fun y hy =>
    hop.length_eq _ (hinputs ▸ List.mem_map_of_mem hy)
  rw [(concat_eq hop.lt_rank first rest hrank).1, ConcatOp.concatShape, hop.normalizedDim_eq,
    Int.toNat_natCast, ← hinputs, List.map_map]
  rfl

theorem usedOffset_nextOffset_le (hinput : input ∈ op.inputs) (offset : ℕ) :
    usedOffset op (nextOffset op input offset) ≤ usedOffset op offset + input.getD d 0 := by
  have hnorm := hop.normalizedDim_eq
  have hd : d < input.length := by rw [hop.length_eq _ hinput]; exact hop.lt_rank
  rw [ConcatOp.normalizedDim] at hnorm
  by_cases hdim : op.dim < 0
  · rw [nextOffset_of_neg hdim]
    exact Nat.le_add_right _ _
  · rw [if_neg hdim] at hnorm
    rw [nextOffset_of_nonneg hnorm hd, usedOffset, usedOffset, if_neg hdim, if_neg hdim]

/-- Every insertion is well formed when the result has the shape of the concatenation. -/
theorem verified_lowerConcat (hout : op.output = op.concatShape)
    (inputs : List (List ℕ)) (offset : ℕ) (hmem : ∀ input ∈ inputs, input ∈ op.inputs)
    (hfits : usedOffset op offset + (inputs.map fun input => input.getD d 0).sum ≤
      op.output.getD d 0) :
    ∀ insert ∈ lowerConcat op inputs offset, insert.Verified := by
  induction inputs generalizing offset with
  | nil => simp [lowerConcat]
  | cons input inputs ih =>
    obtain ⟨hinput, hinputs⟩ := List.forall_mem_cons.mp hmem
    rw [List.map_cons, List.sum_cons] at hfits
    have hnext := usedOffset_nextOffset_le hop hinput offset
    have hlength := length_output hop hout
    refine List.forall_mem_cons.mpr ⟨⟨rfl, ?_, fun i hi => ?_⟩, ih _ hinputs (by omega)⟩
    · exact (hop.length_eq _ hinput).trans hlength.symm
    · have hi' : i < op.output.length := hi
      show _ + input.getD i 0 ≤ op.output.getD i 0
      rw [getD_offsets_eq hop hinput offset (hlength ▸ hi')]
      by_cases hid : i = d
      · rw [if_pos hid, hid]
        omega
      · rw [if_neg hid, getD_output hop hout hinput hid, Nat.zero_add]

end

theorem pick_append_of_zero (pre xs : List (Tensor α)) (k : ℕ) (idx : List ℕ)
    (hzero : ∀ x ∈ pre, x.shape.getD d 0 = 0) : pick d (pre ++ xs) k idx = pick d xs k idx := by
  induction pre generalizing k with
  | nil => rfl
  | cons x pre ih =>
    obtain ⟨hx, hpre⟩ := List.forall_mem_cons.mp hzero
    rw [List.cons_append, pick, hx, if_neg (Nat.not_lt_zero k), Nat.sub_zero, ih k hpre]

theorem pickLast_of_zero (xs : List (Tensor α)) (idx : List ℕ)
    (hzero : ∀ x ∈ xs, x.shape.getD d 0 = 0) : pickLast d xs idx = none := by
  induction xs with
  | nil => rfl
  | cons x xs ih =>
    obtain ⟨hx, hxs⟩ := List.forall_mem_cons.mp hzero
    rw [pickLast, ih hxs, hx]
    exact if_neg (Nat.not_lt_zero _)

theorem pickLast_append (pre xs : List (Tensor α)) {a : α}
    (h : pickLast d xs idx = some a) : pickLast d (pre ++ xs) idx = some a := by
  induction pre with
  | nil => exact h
  | cons x pre ih => rw [List.cons_append, pickLast, ih]

/-- **With one operand that holds elements along the dimension**, the last operand is the right
one. -/
theorem pickLast_eq_pick (xs : List (Tensor α)) (idx : List ℕ)
    (hone : (xs.filter fun x => x.shape.getD d 0 ≠ 0).length ≤ 1) :
    pickLast d xs idx = pick d xs (idx.getD d 0) idx := by
  induction xs with
  | nil => rfl
  | cons x xs ih =>
    by_cases hx : x.shape.getD d 0 = 0
    · rw [List.filter_cons_of_neg (by simpa using hx)] at hone
      rw [pickLast, pick, ih hone, hx, if_neg (Nat.not_lt_zero _), if_neg (Nat.not_lt_zero _),
        Nat.sub_zero]
      cases pick d xs (idx.getD d 0) idx <;> rfl
    · rw [List.filter_cons_of_pos (by simpa using hx), List.length_cons] at hone
      have hxs : ∀ y ∈ xs, y.shape.getD d 0 = 0 := by
        have hnil := List.eq_nil_of_length_eq_zero (by omega :
          (xs.filter fun x => x.shape.getD d 0 ≠ 0).length = 0)
        intro y hy
        simpa using List.filter_eq_nil_iff.mp hnil y hy
      have hpick : pick d xs (idx.getD d 0 - x.shape.getD d 0) idx = none := by
        rw [← List.append_nil xs, pick_append_of_zero xs [] _ _ hxs]
        rfl
      rw [pickLast, pick, pickLast_of_zero xs idx hxs, hpick, set_getD_self]

/-- A tensor that holds one value. -/
def constant (a : α) (shape : List ℕ) : Tensor α := ⟨shape, fun _ => a⟩

/-- The last of constant operands, one of which has the index. -/
theorem pickLast_constant (a : α) (shapes : List (List ℕ)) {shape : List ℕ}
    (hshape : shape ∈ shapes) (hlt : idx.getD d 0 < shape.getD d 0) :
    pickLast d (shapes.map (constant a)) idx = some a := by
  induction shapes with
  | nil => cases hshape
  | cons s shapes ih =>
    rw [List.map_cons, pickLast]
    rcases List.mem_cons.mp hshape with rfl | hmem
    · cases hrest : pickLast d (shapes.map (constant a)) idx with
      | none => exact if_pos hlt
      | some b =>
        -- every operand holds the same value
        have hall : ∀ l : List (List ℕ), ∀ b, pickLast d (l.map (constant a)) idx = some b →
            b = a := by
          intro l
          induction l with
          | nil => intro b hb; cases hb
          | cons t l ihl =>
            intro b hb
            rw [List.map_cons, pickLast] at hb
            cases hl : pickLast d (l.map (constant a)) idx with
            | some c => rw [hl] at hb; cases hb; exact ihl _ hl
            | none =>
              rw [hl] at hb
              simp only at hb
              split_ifs at hb
              cases hb
              rfl
        exact congrArg some (hall _ _ hrest)
    · rw [ih hmem]

/-- **Two operands that hold elements along the dimension**: at the index of zeros the first is read
and the second is what is inserted last. -/
theorem exists_pick_ne {shapes : List (List ℕ)}
    (htwo : 1 < (shapes.filter fun s => s.getD d 0 ≠ 0).length)
    (hidx : idx.getD d 0 = 0) :
    ∃ xs : List (Tensor Bool), xs.map Tensor.shape = shapes ∧
      pick d xs 0 idx = some true ∧ pickLast d xs idx = some false := by
  cases hfilter : shapes.filter fun s => s.getD d 0 ≠ 0 with
  | nil => rw [hfilter] at htwo; simp at htwo
  | cons s others =>
    obtain ⟨pre, post, hshapes, hpre, hs, hpost⟩ := List.filter_eq_cons_iff.mp hfilter
    have hothers : others ≠ [] := by
      rintro rfl
      rw [hfilter] at htwo
      simp at htwo
    obtain ⟨t, ht⟩ := List.exists_mem_of_ne_nil _ hothers
    rw [← hpost, List.mem_filter] at ht
    have hspos : 0 < s.getD d 0 := Nat.pos_of_ne_zero (by simpa using hs)
    have htpos : 0 < t.getD d 0 := Nat.pos_of_ne_zero (by simpa using ht.2)
    have hshape : ∀ (b : Bool) (l : List (List ℕ)), (l.map (constant b)).map Tensor.shape = l := by
      intro b l
      rw [List.map_map]
      exact List.map_id l
    refine ⟨pre.map (constant false) ++ constant true s :: post.map (constant false), ?_, ?_, ?_⟩
    · rw [List.map_append, List.map_cons, hshape, hshape, hshapes]
      rfl
    · rw [pick_append_of_zero]
      · exact if_pos hspos
      · intro x hx
        obtain ⟨p, hp, rfl⟩ := List.mem_map.mp hx
        show p.getD d 0 = 0
        simpa using hpre p hp
    · refine pickLast_append _ _ ?_
      rw [pickLast, pickLast_constant false post ht.1 (by rw [hidx]; exact htpos)]

/-- A concatenation is lowered correctly when its result has the right shape and its dimension is
not negative, or it does not matter which operand is inserted last. -/
theorem concatLowers_iff (h : op.verify = .ok ()) :
    ConcatLowers op ↔ op.output = op.concatShape ∧ (0 ≤ op.dim ∨ op.output.prod = 0 ∨
      (op.inputs.filter fun input => input.getD op.normalizedDim.toNat 0 ≠ 0).length ≤ 1) := by
  have hop := ConcatOp.verify_spec h
  set d := op.normalizedDim.toNat with hd
  obtain ⟨s, ss, hinputs⟩ := List.exists_cons_of_ne_nil hop.nonempty
  constructor
  · rintro ⟨-, hagree⟩
    have hout : op.output = op.concatShape := by
      have hshapes : (constant false s :: ss.map (constant false)).map Tensor.shape =
          op.inputs := by
        rw [hinputs, List.map_cons, List.map_map]
        exact congrArg (s :: ·) (List.map_id ss)
      rw [← concatShape_eq hop hshapes, ← (hagree Bool _ _ (fun _ => false) hshapes).1,
        shape_applyInserts]
    refine ⟨hout, ?_⟩
    by_contra hnot
    obtain ⟨hdim, hprod, htwo⟩ : op.dim < 0 ∧ op.output.prod ≠ 0 ∧
        1 < (op.inputs.filter fun input => input.getD d 0 ≠ 0).length := by
      push Not at hnot
      exact hnot
    have hzero : InShape (List.replicate op.output.length 0) op.output :=
      inShape_replicate_zero fun n hn =>
        Nat.pos_of_ne_zero fun h0 => hprod (List.prod_eq_zero (h0 ▸ hn))
    have hdout : d < op.output.length := by rw [length_output hop hout]; exact hop.lt_rank
    have hidx : (List.replicate op.output.length 0).getD d 0 = 0 := by
      rw [List.getD_eq_getElem _ _ (by simpa using hdout), List.getElem_replicate]
    obtain ⟨xs, hshapes, hfirst, hlast⟩ := exists_pick_ne htwo hidx
    cases xs with
    | nil => rw [hinputs] at hshapes; cases hshapes
    | cons first rest =>
      have hrank : ∀ y ∈ first :: rest, y.shape.length = (op.inputs.headD []).length :=
        fun y hy => hop.length_eq _ (hshapes ▸ List.mem_map_of_mem hy)
      obtain ⟨hshape, helem⟩ := hagree Bool first rest (fun _ => false) hshapes
      have hread := helem (List.replicate op.output.length 0)
        (by rw [shape_applyInserts]; exact hzero)
      have hmem : ∀ x ∈ first :: rest, x.shape ∈ op.inputs := fun x hx =>
        hshapes ▸ List.mem_map_of_mem hx
      rw [← hshapes, elem_applyInserts_of_neg hop hout hdim _ _ _ hmem hzero, hlast] at hread
      have hsum := (concat_eq hop.lt_rank first rest hrank).2 (List.replicate op.output.length 0)
        (by simpa using hdout) (by
          have hlt := getD_lt_of_inShape hzero hdout
          rw [getD_output_dim hop hout, ← hshapes, List.map_map] at hlt
          exact hlt)
      rw [hidx, hfirst, Option.some.injEq, ← hread] at hsum
      cases hsum
  · rintro ⟨hout, hcases⟩
    refine ⟨verified_lowerConcat hop hout _ _ (fun _ hinput => hinput) ?_,
      fun α first rest uninitialized hshapes => ?_⟩
    · rw [getD_output_dim hop hout, usedOffset, ite_self, Nat.zero_add]
    · have hmem : ∀ x ∈ first :: rest, x.shape ∈ op.inputs := fun x hx =>
        hshapes ▸ List.mem_map_of_mem hx
      have hrank : ∀ y ∈ first :: rest, y.shape.length = (op.inputs.headD []).length :=
        fun y hy => hop.length_eq _ (hmem y hy)
      refine ⟨?_, fun idx hidx => ?_⟩
      · rw [shape_applyInserts, concatShape_eq hop hshapes, hout]
      · rw [shape_applyInserts] at hidx
        have hidx' : InShape idx op.output := hidx
        have hdout : d < op.output.length := by rw [length_output hop hout]; exact hop.lt_rank
        have hsum := (concat_eq hop.lt_rank first rest hrank).2 idx
          (by rw [hidx'.length_eq]; exact hdout) (by
            have hlt := getD_lt_of_inShape hidx' hdout
            rw [getD_output_dim hop hout, ← hshapes, List.map_map] at hlt
            exact hlt)
        rw [← hshapes]
        by_cases hdim : 0 ≤ op.dim
        · rw [elem_applyInserts hop hout hdim _ _ _ hmem hidx', if_pos (Nat.zero_le _),
            Nat.sub_zero, hsum]
          rfl
        · rcases hcases.resolve_left hdim with hprod | hone
          · exact absurd hprod (prod_pos_of_inShape hidx').ne'
          · have hone' : ((first :: rest).filter fun x => x.shape.getD d 0 ≠ 0).length ≤ 1 := by
              rw [← hshapes, List.filter_map, List.length_map] at hone
              exact hone
            rw [elem_applyInserts_of_neg hop hout (by omega) _ _ _ hmem hidx',
              pickLast_eq_pick _ _ hone', hsum]
            rfl

end Concat

/-! ## The condition is the right one -/

/-- **Lowering structural operations to the host.**  A verified operation is lowered correctly
exactly when its attributes may be read as they are. -/
theorem lowers_iff_readsRaw (op : StructuralOp) (h : op.verify = .ok ()) :
    op.Lowers ↔ op.ReadsRaw := by
  cases op with
  | broadcast op => exact broadcastLowers_iff h
  | reshape op isSignlessInteger => exact iff_of_false (not_reshapeLowers op isSignlessInteger) id
  | slice op => exact sliceLowers_iff h
  | concat op => exact concatLowers_iff h

/-- Elements 1 to 4 of seven, by twos. -/
def everySecond : SliceOp where
  input := [7]
  begins := [1]
  ends := [5]
  step := [2]
  output := [2]

/-- A slice with bounds counted from the front. -/
theorem everySecond_lowers :
    (StructuralOp.slice everySecond).verify = .ok () ∧
      ((StructuralOp.slice everySecond).Lowers ↔ (StructuralOp.slice everySecond).ReadsRaw) :=
  ⟨by decide, lowers_iff_readsRaw (.slice everySecond) (by decide)⟩

/-- Two rows of one element, one behind the other along the last dimension counted from the back. -/
def appendColumns : ConcatOp where
  inputs := [[1], [1]]
  dim := -1
  output := [2]

/-- **A dimension counted from the back**: both operands are inserted at offset zero. -/
theorem appendColumns_not_lowers :
    (StructuralOp.concat appendColumns).verify = .ok () ∧
      ¬ (StructuralOp.concat appendColumns).Lowers := by
  refine ⟨by decide, fun h => ?_⟩
  obtain ⟨-, hagree⟩ : ConcatLowers appendColumns := h
  have hread := (hagree ℕ ⟨[1], fun _ => 3⟩ [⟨[1], fun _ => 4⟩] (fun _ => 0) rfl).2 [0]
    (by decide)
  exact absurd hread (by decide)

end TTIRToLinalg
