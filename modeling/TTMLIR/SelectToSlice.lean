/-
# Lowering a select to slices

`SelectToSliceConversionPattern` of `TTIRToTTIRDecomposition.cpp` lowers `ttir.select`, which
takes `length` elements every `stride` elements along one dimension, to one slice for each of
them and a concatenation.

* `SelectOp.verify`, `SliceOp.verify`, `ConcatOp.verify` : the verifiers (`TTIROps.cpp`);
* `Tensor.slice`, `Tensor.concat` : what the emitted operations compute;
* `SelectToSlice.matchAndRewrite` : the emitted slices;
* `SelectOp.Lowers` : what the lowering is meant to do;
* `SelectOp.lowers_iff` : when it does.

The verifier reads a stride of zero as the size of the dimension; the pattern divides by it.  The
computations on `int32_t` wrap around.
-/
import TTMLIR.BroadcastReshape
import TTMLIR.Fallible
import TTMLIR.TypecastFold

namespace TTIR

open MixedRadix Fallible

/-! ## Select -/

/-- The value of an `int32_t`. -/
def int32 (x : ℤ) : ℤ := IntegerType.wrap ⟨32, .signed⟩ x

/-- `ttir.select`: the shapes of its operand and result, which have one element type, and its
attributes. -/
structure SelectOp where
  input : List ℕ
  output : List ℕ
  dim : ℤ
  begin : ℤ
  length : ℤ
  stride : ℤ
deriving DecidableEq, Repr

namespace SelectOp

/-- The dimension, counted from the front. -/
def normalizedDim (op : SelectOp) : ℤ := if op.dim < 0 then op.dim + op.input.length else op.dim

/-- The size of the selected dimension. -/
def dimSize (op : SelectOp) : ℤ := int32 (op.input.getD op.normalizedDim.toNat 0)

/-- The stride, where zero stands for the whole dimension. -/
def verifiedStride (op : SelectOp) : ℤ := if op.stride = 0 then op.dimSize else op.stride

/-- `(dimSize - begin + stride - 1) / stride`. -/
def numSlices (op : SelectOp) (stride : ℤ) : ℤ :=
  (int32 (int32 (int32 (op.dimSize - op.begin) + stride) - 1)).tdiv stride

/-- `begin + i * stride`. -/
def newBegin (op : SelectOp) (stride : ℤ) (i : ℕ) : ℤ := int32 (op.begin + int32 (i * stride))

/-- `std::min(newBegin + length, dimSize)`. -/
def newEnd (op : SelectOp) (stride : ℤ) (i : ℕ) : ℤ :=
  min (int32 (op.newBegin stride i + op.length)) op.dimSize

/-- `newEnd - newBegin`. -/
def newExtent (op : SelectOp) (stride : ℤ) (i : ℕ) : ℤ :=
  int32 (op.newEnd stride i - op.newBegin stride i)

/-- The sum of all slices. -/
def totalLength (op : SelectOp) (stride : ℤ) : ℤ :=
  (List.range (op.numSlices stride).toNat).foldl
    (fun total i => int32 (total + op.newExtent stride i)) 0

/-- `SelectOp::verify`. -/
def verify (op : SelectOp) : Except String Unit :=
  let dim := op.normalizedDim
  let stride := op.verifiedStride
  if op.input.length ≠ op.output.length then
    .error "Input and output tensors must have the same rank."
  else if dim < 0 ∨ op.input.length ≤ dim then
    .error s!"Invalid dimension {op.dim} for select op with input tensor rank {op.input.length}"
  else if stride < 0 then
    .error s!"Invalid stride {stride} for dimension {dim}, stride must be non-negative"
  else if op.dimSize < stride then
    .error s!"Invalid stride {stride} for dimension {dim} with size {op.dimSize}. stride must be less than or equal to the dimension size"
  else if op.begin < 0 ∨ op.dimSize ≤ op.begin then
    .error s!"Invalid begin index {op.begin} for dimension {dim} with size {op.dimSize}. begin must be in the range [0, dimSize)"
  else if op.length < 1 ∨ stride < op.length then
    .error s!"Invalid length {op.length} for begin index {op.begin} and stride {stride} for dimension {dim} with size {op.dimSize}. stride must be greater than or equal to length"
  else if op.dimSize < int32 (op.begin + op.length) then
    .error s!"Invalid length {op.length} for begin index {op.begin} and dimension {dim} with size {op.dimSize}. begin + length must be less than or equal to the dimension size"
  else if op.totalLength stride ≠ op.output.getD dim.toNat 0 then
    .error s!"Sum of all slices must be equal to the output dimension size for the given dimension. Expected output dimension size: {op.output.getD dim.toNat 0}, but got {op.totalLength stride}"
  else .ok ()

end SelectOp

/-! ## Slice and concatenation -/

/-- `ttir.slice`: the shape of its operand, its attributes, and the type it is given. -/
structure SliceOp where
  input : List ℕ
  begins : List ℤ
  ends : List ℤ
  step : List ℤ
  output : List ℤ
deriving DecidableEq, Repr

namespace SliceOp

/-- Negative indices count from the end. -/
def adjusted (index : ℤ) (dimSize : ℕ) : ℤ := if index < 0 then int32 (index + dimSize) else index

/-- How the verifier prints an index. -/
def formatValueMessage (value adjustedValue : ℤ) : String :=
  if value < 0 then s!"{adjustedValue} ({value})" else s!"{value}"

/-- The expected size of an output dimension; steps are short of 2^31 by the extent, so that the sum
does not wrap. -/
def expectedDimSize (adjustedBegin adjustedEnd step : ℤ) : ℤ :=
  (|adjustedEnd - adjustedBegin| + |step| - 1).tdiv |step|

/-- The body of the loop of the verifier. -/
def verifyDim (op : SliceOp) (i : ℕ) : Except String Unit :=
  let dimSize := op.input.getD i 0
  let begin := op.begins.getD i 0
  let stop := op.ends.getD i 0
  let step := op.step.getD i 0
  let adjustedBegin := adjusted begin dimSize
  let adjustedEnd := adjusted stop dimSize
  let dims := ", ".intercalate (op.input.map toString)
  let shape := s!"({dims})"
  if adjustedBegin < 0 ∨ dimSize ≤ adjustedBegin then
    .error s!"Invalid begin index for dimension {i}. Expected value in range [{-(dimSize : ℤ)}, {dimSize}), got {begin}. Input shape: {shape}"
  else if adjustedEnd < 0 ∨ dimSize < adjustedEnd then
    .error s!"Invalid end index for dimension {i}. Expected value in range [{-(dimSize : ℤ)}, {dimSize}], got {stop}. Input shape: {shape}"
  else if step = 0 then .error s!"Step value for dimension {i} cannot be zero"
  else if 0 < step ∧ adjustedEnd < adjustedBegin then
    .error s!"For positive step, begin index must be less than or equal to end index for dimension {i}. Got begin: {formatValueMessage begin adjustedBegin}, end: {formatValueMessage stop adjustedEnd}, step: {step}, input shape: {shape}"
  else if step < 0 ∧ adjustedBegin < adjustedEnd then
    .error s!"For negative step, begin index must be greater than or equal to end index for dimension {i}. Got begin: {formatValueMessage begin adjustedBegin}, end: {formatValueMessage stop adjustedEnd}, step: {step}, input shape: {shape}"
  else if op.output.getD i 0 ≠ expectedDimSize adjustedBegin adjustedEnd step then
    .error s!"Mismatch in dimension {i} of the output tensor: expected size {expectedDimSize adjustedBegin adjustedEnd step}, but got {op.output.getD i 0}"
  else .ok ()

/-- `SliceOp::verify`. -/
def verify (op : SliceOp) : Except String Unit :=
  if op.input.length < 1 then .error "Input must be at least a 1D tensor"
  else if op.input.length ≠ op.begins.length ∨ op.input.length ≠ op.ends.length ∨
      op.input.length ≠ op.step.length then
    .error "Begins, ends, and step attributes must have the same number of elements as the input tensor rank"
  else if op.input.length ≠ op.output.length then
    .error "Output tensor must have the same rank as the input tensor"
  else (List.range op.input.length).forM op.verifyDim

end SliceOp

/-- `ConcatOp::verify` for a dimension counted from the front, on the types of the operands. -/
def verifyConcat (dim : ℕ) : List (List ℤ) → Except String Unit
  | [] => .error "inputs.front()"
  | first :: rest =>
    if first.length ≤ dim then .error s!"Invalid dimension {dim} for concatenation."
    else rest.forM fun input =>
      if input.length ≠ first.length then .error "All input tensors must have the same rank."
      else if input.set dim 0 ≠ first.set dim 0 then
        .error s!"All input tensors must have the same dimensions, except for dimension {dim}."
      else .ok ()

namespace Tensor

variable {α : Type*}

/-- Every `step`-th element from `begins` on. -/
def slice (x : Tensor α) (begins step : List ℤ) (shape : List ℕ) : Tensor α :=
  ⟨shape, fun idx => x.elem (List.zipWith (fun (i : ℕ) (b : ℤ × ℤ) => (b.1 + i * b.2).toNat) idx
    (begins.zip step))⟩

/-- Tensors one behind the other along a dimension. -/
def concat (dim : ℕ) : Tensor α → List (Tensor α) → Tensor α
  | x, [] => x
  | x, y :: ys =>
    let n := x.shape.getD dim 0
    let rest := concat dim y ys
    ⟨x.shape.set dim (n + rest.shape.getD dim 0), fun idx =>
      if idx.getD dim 0 < n then x.elem idx
      else rest.elem (idx.set dim (idx.getD dim 0 - n))⟩

end Tensor

/-- What a slice computes. -/
def SliceOp.apply {α : Type*} (op : SliceOp) (x : Tensor α) : Tensor α :=
  x.slice (List.zipWith adjusted op.begins op.input) op.step (op.output.map Int.toNat)

/-! ## The pattern -/

namespace SelectToSlice

/-- The slice of one round of the loop. -/
def sliceOp (op : SelectOp) (i : ℕ) : SliceOp where
  input := op.input
  begins := (op.input.map fun _ => 0).set op.normalizedDim.toNat (op.newBegin op.stride i)
  ends := (op.input.map fun n : ℕ => int32 n).set op.normalizedDim.toNat (op.newEnd op.stride i)
  step := op.input.map fun _ => 1
  output := (op.input.map fun n : ℕ => (n : ℤ)).set op.normalizedDim.toNat
    (op.newExtent op.stride i)

/-- `matchAndRewrite`: the slices, of which several are concatenated. -/
def matchAndRewrite (op : SelectOp) : Except String (List SliceOp) :=
  if op.stride = 0 then .error "division by zero"
  else
    let slices := (List.range (op.numSlices op.stride).toNat).map (sliceOp op)
    if slices = [] then .error "!slices.empty()" else .ok slices

/-- What the emitted operations compute: one slice stands for itself. -/
def apply {α : Type*} (dim : ℕ) (slices : List SliceOp) (x : Tensor α) : Tensor α :=
  match slices with
  | [] => x
  | first :: rest => Tensor.concat dim (first.apply x) (rest.map (·.apply x))

end SelectToSlice

namespace SelectOp

/-- Where along the dimension the result reads its `i`-th element. -/
def position (op : SelectOp) (i : ℕ) : ℕ :=
  (op.begin + i / op.length.toNat * op.verifiedStride + (i % op.length.toNat : ℕ)).toNat

/-- What a select computes: the shape, and the element of the input at every index. -/
structure Selects {α : Type} (op : SelectOp) (x y : Tensor α) : Prop where
  shape : y.shape = op.output
  inside : ∀ idx, InShape idx op.output →
    InShape (idx.set op.normalizedDim.toNat (op.position (idx.getD op.normalizedDim.toNat 0)))
      op.input
  elem : ∀ idx, InShape idx op.output →
    y.elem idx
      = x.elem (idx.set op.normalizedDim.toNat (op.position (idx.getD op.normalizedDim.toNat 0)))

/-- **A select is lowered without changing values.**  Slices are emitted, the emitted operations
pass their verifiers, and they compute what the select computes. -/
def Lowers (op : SelectOp) : Prop :=
  ∃ slices, SelectToSlice.matchAndRewrite op = .ok slices ∧ (∀ s ∈ slices, s.verify = .ok ()) ∧
    (1 < slices.length →
      verifyConcat op.normalizedDim.toNat (slices.map SliceOp.output) = .ok ()) ∧
    ∀ (α : Type) (x : Tensor α), x.shape = op.input →
      op.Selects x (SelectToSlice.apply op.normalizedDim.toNat slices x)

/-- **When it is.**  The stride is not zero, the other dimensions are those of the result, not
empty and within 32 bits, and no end of a slice is past what 32 bits hold. -/
structure Sliceable (op : SelectOp) : Prop where
  stride_ne : op.stride ≠ 0
  others : ∀ i < op.input.length, i ≠ op.normalizedDim.toNat →
    op.output.getD i 0 = op.input.getD i 0 ∧ 0 < op.input.getD i 0 ∧ op.input.getD i 0 < 2 ^ 31
  rounds : op.dimSize - op.begin + op.stride - 1 < 2 ^ 31
  last : op.begin + (op.dimSize - op.begin - 1) / op.stride * op.stride + op.length < 2 ^ 31

end SelectOp

/-! ## Values of 32 bits -/

theorem int32_of_range {x : ℤ} (h : -2 ^ 31 ≤ x) (h' : x < 2 ^ 31) : int32 x = x := by
  apply IntegerType.wrap_of_holds
  show -2 ^ 32 ≤ 2 * x ∧ 2 * x < 2 ^ 32
  omega

theorem int32_range (x : ℤ) : -2 ^ 31 ≤ int32 x ∧ int32 x < 2 ^ 31 := by
  have h : -2 ^ 32 ≤ 2 * int32 x ∧ 2 * int32 x < 2 ^ 32 := IntegerType.holds_wrap ⟨32, .signed⟩ x
  omega

theorem int32_modEq (x : ℤ) : int32 x ≡ x [ZMOD 2 ^ 32] := IntegerType.wrap_modEq ⟨32, .signed⟩ x

theorem int32_congr {x y : ℤ} (h : x ≡ y [ZMOD 2 ^ 32]) : int32 x = int32 y :=
  IntegerType.wrap_congr (t := ⟨32, .signed⟩) h

theorem int32_int32_add (x y : ℤ) : int32 (int32 x + y) = int32 (x + y) :=
  int32_congr ((int32_modEq x).add_right y)

theorem int32_add_int32 (x y : ℤ) : int32 (x + int32 y) = int32 (x + y) :=
  int32_congr ((int32_modEq y).add_left x)

theorem int32_natCast {n : ℕ} (h : n < 2 ^ 31) : int32 n = n := by
  apply int32_of_range
  · omega
  · exact_mod_cast h

theorem int32_of_past {x : ℤ} (h : 2 ^ 31 ≤ x) (h' : x < 2 ^ 32 + 2 ^ 31) :
    int32 x = x - 2 ^ 32 := by
  have hmod := (int32_modEq x).symm.dvd
  have hrange := int32_range x
  omega

theorem int32_sub_pow (x : ℤ) : int32 (x - 2 ^ 32) = int32 x := by
  apply int32_congr
  exact (Int.modEq_iff_dvd.mpr ⟨1, by ring⟩)

theorem lt_of_int32_eq {x : ℤ} {n : ℕ} (h : int32 x = n) : n < 2 ^ 31 := by
  have := (int32_range x).2
  rw [h] at this
  exact_mod_cast this

theorem int32_le_of_pos {n : ℕ} (h : 0 < int32 n) : int32 n ≤ n := by
  have hmod := (int32_modEq n).symm.dvd
  have hrange := int32_range n
  omega

/-! ## Concatenation -/

theorem set_getD_self (l : List ℕ) (i : ℕ) : l.set i (l.getD i 0) = l := by
  by_cases hi : i < l.length
  · rw [List.getD_eq_getElem _ _ hi, List.set_getElem_self]
  · exact List.set_eq_of_length_le (not_lt.mp hi)

theorem getD_set_self {l : List ℕ} {i : ℕ} (hi : i < l.length) (a : ℕ) :
    (l.set i a).getD i 0 = a := by
  rw [List.getD_eq_getElem?_getD, List.getElem?_set_self hi]
  rfl

/-- **Pieces of one length, one behind the other.**  All but the last have the length, and the
last has no more; an index is found in the piece its quotient counts, at its remainder. -/
theorem Tensor.concat_spec {α : Type*} {dim len e : ℕ} {shape : List ℕ} (hdim : dim < shape.length)
    (hlen : 0 < len) (he : e ≤ len) (m : ℕ) (f : ℕ → Tensor α)
    (hshape : ∀ k < m, (f k).shape = shape.set dim len) (hlast : (f m).shape = shape.set dim e) :
    (Tensor.concat dim (f 0) ((List.range m).map fun k => f (k + 1))).shape
        = shape.set dim (m * len + e) ∧
      ∀ idx : List ℕ, idx.length = shape.length → idx.getD dim 0 < m * len + e →
        (Tensor.concat dim (f 0) ((List.range m).map fun k => f (k + 1))).elem idx
          = (f (idx.getD dim 0 / len)).elem (idx.set dim (idx.getD dim 0 % len)) := by
  induction m generalizing f with
  | zero =>
    rw [List.range_zero, List.map_nil, Nat.zero_mul, Nat.zero_add]
    refine ⟨hlast, fun idx _ hi => ?_⟩
    rw [Nat.div_eq_of_lt (hi.trans_le he), Nat.mod_eq_of_lt (hi.trans_le he), set_getD_self]
    rfl
  | succ m ih =>
    obtain ⟨hrest, helem⟩ := ih (fun k => f (k + 1)) (fun k hk => hshape (k + 1) (by omega)) hlast
    have hlist : (List.range (m + 1)).map (fun k => f (k + 1))
        = f 1 :: (List.range m).map fun k => f (k + 1 + 1) := by
      rw [List.range_succ_eq_map, List.map_cons, List.map_map]
      rfl
    have hfirst : (f 0).shape.getD dim 0 = len := by
      rw [hshape 0 (by omega), getD_set_self hdim]
    rw [hlist, Tensor.concat]
    refine ⟨?_, fun idx hidx hi => ?_⟩
    · show (f 0).shape.set dim _ = _
      rw [hfirst, hrest, getD_set_self hdim, hshape 0 (by omega), List.set_set]
      congr 1
      ring
    · show (if idx.getD dim 0 < (f 0).shape.getD dim 0 then (f 0).elem idx
        else _) = _
      rw [hfirst]
      split
      · rename_i hlt
        rw [Nat.div_eq_of_lt hlt, Nat.mod_eq_of_lt hlt, set_getD_self]
      · rename_i hge
        have hge' : len ≤ idx.getD dim 0 := not_lt.mp hge
        have hdim' : dim < idx.length := by omega
        have hget : (idx.set dim (idx.getD dim 0 - len)).getD dim 0 = idx.getD dim 0 - len :=
          getD_set_self hdim' _
        rw [helem _ (by rw [List.length_set, hidx]) (by rw [hget]; rw [Nat.succ_mul] at hi; omega),
          hget, List.set_set, ← Nat.mod_eq_sub_mod hge']
        congr 2
        rw [← Nat.sub_add_cancel hge', Nat.add_sub_cancel, Nat.add_div_right _ hlen]

/-! ## The numbers of a verified select -/

namespace SelectOp

/-- The attributes of a verified select with a stride, as natural numbers. -/
structure Numbers (op : SelectOp) (d b l s n : ℕ) : Prop where
  rank : op.input.length = op.output.length
  dim_eq : op.normalizedDim.toNat = d
  dim_lt : d < op.input.length
  size_eq : op.dimSize = n
  begin_eq : op.begin = b
  length_eq : op.length = l
  stride_eq : op.stride = s
  begin_lt : b < n
  length_pos : 0 < l
  length_le : l ≤ s
  stride_le : s ≤ n
  size_lt : n < 2 ^ 31
  size_le : n ≤ op.input.getD d 0
  total : op.totalLength s = op.output.getD d 0

/-- What the verifier checks. -/
theorem exists_numbers {op : SelectOp} (h : op.verify = .ok ()) (hstride : op.stride ≠ 0) :
    ∃ b l s n, op.Numbers op.normalizedDim.toNat b l s n := by
  have hs : op.verifiedStride = op.stride := if_neg hstride
  rw [verify] at h
  simp only [hs] at h
  split_ifs at h with h₁ h₂ h₃ h₄ h₅ h₆ h₇ h₈
  obtain ⟨b, hb⟩ := Int.eq_ofNat_of_zero_le (a := op.begin) (by omega)
  obtain ⟨l, hl⟩ := Int.eq_ofNat_of_zero_le (a := op.length) (by omega)
  obtain ⟨s, hstr⟩ := Int.eq_ofNat_of_zero_le (a := op.stride) (by omega)
  obtain ⟨n, hn⟩ := Int.eq_ofNat_of_zero_le (a := op.dimSize) (by omega)
  have hle : op.dimSize ≤ op.input.getD op.normalizedDim.toNat 0 :=
    int32_le_of_pos (show 0 < op.dimSize by omega)
  rw [hstr] at h₈
  refine ⟨b, l, s, n, ?_⟩
  exact {
    rank := not_not.mp h₁
    dim_eq := rfl
    dim_lt := by omega
    size_eq := hn
    begin_eq := hb
    length_eq := hl
    stride_eq := hstr
    begin_lt := by omega
    length_pos := by omega
    length_le := by omega
    stride_le := by omega
    size_lt := lt_of_int32_eq hn
    size_le := by omega
    total := not_not.mp h₈ }

namespace Numbers

variable {op : SelectOp} {d b l s n : ℕ} (h : op.Numbers d b l s n)

include h

theorem stride_pos : 0 < s := h.length_pos.trans_le h.length_le

theorem last_begin : b + (n - b - 1) / s * s < n := by
  have := Nat.div_mul_le_self (n - b - 1) s
  have := h.begin_lt
  omega

/-- The number of slices, where it can be computed. -/
theorem numSlices_eq (hrounds : n - b + s - 1 < 2 ^ 31) :
    op.numSlices op.stride = ((n - b - 1) / s + 1 : ℕ) := by
  have hlt := h.begin_lt
  have hs := h.stride_pos
  have hvalue : int32 (int32 (int32 (op.dimSize - op.begin) + op.stride) - 1)
      = ((n - b - 1 + s : ℕ) : ℤ) := by
    rw [sub_eq_add_neg (int32 _), int32_int32_add, add_assoc, int32_int32_add,
      int32_of_range, h.size_eq, h.begin_eq, h.stride_eq]
    · omega
    · rw [h.size_eq, h.begin_eq, h.stride_eq]
      omega
    · rw [h.size_eq, h.begin_eq, h.stride_eq]
      omega
  rw [numSlices, hvalue, h.stride_eq, Int.tdiv_eq_ediv_of_nonneg (by omega),
    ← Nat.add_div_right _ hs]
  exact (Int.natCast_div _ _).symm

/-- Past 32 bits there is none. -/
theorem numSlices_nonpos (hrounds : ¬ n - b + s - 1 < 2 ^ 31) : op.numSlices op.stride ≤ 0 := by
  have hlt := h.begin_lt
  have hs := h.stride_pos
  have hsize := h.size_lt
  have hstride := h.stride_le
  have hneg : int32 (int32 (int32 (op.dimSize - op.begin) + op.stride) - 1) < 0 := by
    rw [sub_eq_add_neg (int32 _), int32_int32_add, add_assoc, int32_int32_add, h.size_eq,
      h.begin_eq, h.stride_eq]
    have hmod := (int32_modEq ((n : ℤ) - b + (s + -1))).symm.dvd
    have hrange := int32_range ((n : ℤ) - b + (s + -1))
    omega
  have hneg' : 0 ≤ (-int32 (int32 (int32 (op.dimSize - op.begin) + op.stride) - 1)).tdiv
      op.stride := Int.tdiv_nonneg (by omega) (by rw [h.stride_eq]; omega)
  rw [Int.neg_tdiv] at hneg'
  rw [numSlices]
  omega

theorem newBegin_eq {k : ℕ} (hk : k ≤ (n - b - 1) / s) :
    op.newBegin op.stride k = (b + k * s : ℕ) := by
  have hle := Nat.mul_le_mul_right s hk
  have hlast := h.last_begin
  have hsize := h.size_lt
  rw [newBegin, int32_add_int32, h.begin_eq, h.stride_eq, ← Nat.cast_mul, ← Nat.cast_add]
  exact int32_natCast (by omega)

theorem newEnd_eq {k : ℕ} (hk : k ≤ (n - b - 1) / s)
    (hlast : b + (n - b - 1) / s * s + l < 2 ^ 31) :
    op.newEnd op.stride k = (min (b + k * s + l) n : ℕ) := by
  have hle := Nat.mul_le_mul_right s hk
  rw [newEnd, h.newBegin_eq hk, h.size_eq, h.length_eq, ← Nat.cast_add,
    int32_natCast (by omega), Nat.cast_min]

theorem newExtent_eq {k : ℕ} (hk : k ≤ (n - b - 1) / s)
    (hlast : b + (n - b - 1) / s * s + l < 2 ^ 31) :
    op.newExtent op.stride k = (min l (n - (b + k * s)) : ℕ) := by
  have hle := Nat.mul_le_mul_right s hk
  have hbegin := h.last_begin
  have hsize := h.size_lt
  rw [newExtent, h.newEnd_eq hk hlast, h.newBegin_eq hk, ← Nat.cast_sub (by omega)]
  have hvalue : min (b + k * s + l) n - (b + k * s) = min l (n - (b + k * s)) := by omega
  rw [hvalue]
  exact int32_natCast (by omega)

theorem newExtent_of_lt {k : ℕ} (hk : k < (n - b - 1) / s)
    (hlast : b + (n - b - 1) / s * s + l < 2 ^ 31) : op.newExtent op.stride k = l := by
  have hle := Nat.mul_le_mul_right s (Nat.succ_le_of_lt hk)
  rw [Nat.succ_mul] at hle
  have hbegin := h.last_begin
  have hlen := h.length_le
  rw [h.newExtent_eq hk.le hlast]
  congr 1
  omega

/-- The extents add up. -/
theorem totalLength_eq (hrounds : n - b + s - 1 < 2 ^ 31)
    (hlast : b + (n - b - 1) / s * s + l < 2 ^ 31) :
    op.totalLength op.stride
      = ((n - b - 1) / s * l + min l (n - (b + (n - b - 1) / s * s)) : ℕ) := by
  have hbegin := h.last_begin
  have hsize := h.size_lt
  have hpartial : ∀ k ≤ (n - b - 1) / s, (List.range k).foldl
      (fun total i => int32 (total + op.newExtent op.stride i)) 0 = ((k * l : ℕ) : ℤ) := by
    intro k
    induction k with
    | zero => intro _; rw [Nat.zero_mul]; rfl
    | succ k ih =>
      intro hk
      have hle := Nat.mul_le_mul hk h.length_le
      rw [List.range_succ, List.foldl_append, List.foldl_cons, List.foldl_nil,
        ih (by omega), h.newExtent_of_lt (by omega) hlast]
      rw [Nat.succ_mul] at hle ⊢
      have hlt : k * l + l < 2 ^ 31 := by
        have := Nat.mul_le_mul_right s hk
        rw [Nat.succ_mul] at this
        omega
      rw [← Nat.cast_add]
      exact int32_natCast hlt
  have hle := Nat.mul_le_mul_left ((n - b - 1) / s) h.length_le
  rw [totalLength, h.numSlices_eq hrounds, Int.toNat_natCast, List.range_succ, List.foldl_append,
    List.foldl_cons, List.foldl_nil, hpartial _ le_rfl, h.newExtent_eq le_rfl hlast]
  rw [← Nat.cast_add]
  exact int32_natCast (by omega)

theorem rounds_iff : op.dimSize - op.begin + op.stride - 1 < 2 ^ 31 ↔ n - b + s - 1 < 2 ^ 31 := by
  have hlt := h.begin_lt
  rw [h.size_eq, h.begin_eq, h.stride_eq]
  omega

theorem last_iff :
    op.begin + (op.dimSize - op.begin - 1) / op.stride * op.stride + op.length < 2 ^ 31
      ↔ b + (n - b - 1) / s * s + l < 2 ^ 31 := by
  have hlt := h.begin_lt
  have hsub : (n : ℤ) - b - 1 = (n - b - 1 : ℕ) := by omega
  rw [h.size_eq, h.begin_eq, h.stride_eq, h.length_eq, hsub]
  norm_cast

end Numbers

end SelectOp

/-! ## The slices -/

theorem getD_map_set {β : Type*} {l : List ℕ} {f : ℕ → β} {d i : ℕ} (hi : i < l.length) (v z : β) :
    ((l.map f).set d v).getD i z = if d = i then v else f (l.getD i 0) := by
  rw [List.getD_eq_getElem?_getD, List.getElem?_set, List.length_map, List.getElem?_map,
    List.getD_eq_getElem?_getD, List.getElem?_eq_getElem hi]
  split
  · subst i
    rw [if_pos hi]
    rfl
  · rfl

theorem SliceOp.adjusted_of_nonneg {index : ℤ} (h : 0 ≤ index) (dimSize : ℕ) :
    adjusted index dimSize = index := if_neg (not_lt.mpr h)

namespace SelectToSlice

open SliceOp

variable {op : SelectOp} {d b l s n : ℕ} (h : op.Numbers d b l s n)

include h

theorem verify_sliceOp_iff (k : ℕ) : (sliceOp op k).verify = .ok () ↔
      ∀ i < op.input.length, (sliceOp op k).verifyDim i = .ok () := by
  have hrank := h.dim_lt
  rw [SliceOp.verify, if_neg, if_neg, if_neg, forM_eq_ok]
  · exact ⟨fun hall i hi => hall i (List.mem_range.mpr hi),
      fun hall i hi => hall i (List.mem_range.mp hi)⟩
  · simp [sliceOp]
  · simp [sliceOp]
  · show ¬op.input.length < 1
    omega

/-- A slice takes the other dimensions whole; the verifier wants them not empty, and within 32
bits. -/
theorem verifyDim_other {i : ℕ} (k : ℕ) (hi : i < op.input.length) (hne : d ≠ i) :
    (sliceOp op k).verifyDim i = .ok () ↔ 0 < op.input.getD i 0 ∧ op.input.getD i 0 < 2 ^ 31 := by
  have hbegin : (sliceOp op k).begins.getD i 0 = 0 := by
    rw [sliceOp, getD_map_set hi, h.dim_eq, if_neg hne]
  have hend : (sliceOp op k).ends.getD i 0 = int32 (op.input.getD i 0) := by
    rw [sliceOp, getD_map_set hi, h.dim_eq, if_neg hne]
  have hstep : (sliceOp op k).step.getD i 0 = 1 := by
    rw [sliceOp, List.getD_eq_getElem _ _ (by rwa [List.length_map]), List.getElem_map]
  have hout : (sliceOp op k).output.getD i 0 = op.input.getD i 0 := by
    rw [sliceOp, getD_map_set hi, h.dim_eq, if_neg hne]
  have hin : (sliceOp op k).input = op.input := rfl
  rw [verifyDim, hbegin, hend, hstep, hout, hin, adjusted_of_nonneg le_rfl]
  generalize op.input.getD i 0 = w
  have hone : ∀ e : ℤ, 0 ≤ e → expectedDimSize 0 e 1 = e := by
    intro e he
    rw [expectedDimSize, abs_one, Int.tdiv_one, sub_zero, abs_of_nonneg he]
    omega
  constructor
  · intro hok
    split_ifs at hok with h₁ h₂ h₃ h₄ h₅ h₆
    rw [hone _ (by omega)] at h₆
    have hsmall : adjusted (int32 w) w < 2 ^ 31 := by
      rw [adjusted]
      split
      · exact (int32_range _).2
      · exact (int32_range _).2
    omega
  · rintro ⟨hpos, hlt⟩
    rw [int32_natCast hlt, adjusted_of_nonneg (by omega)]
    rw [if_neg (by omega), if_neg (by omega), if_neg (by omega), if_neg (by omega),
      if_neg (by omega), if_neg]
    rw [hone _ (by omega)]
    exact not_not.mpr rfl

theorem selected_getD (k : ℕ) : (sliceOp op k).begins.getD d 0 = op.newBegin op.stride k ∧
      (sliceOp op k).ends.getD d 0 = op.newEnd op.stride k ∧
      (sliceOp op k).step.getD d 0 = 1 ∧
      (sliceOp op k).output.getD d 0 = op.newExtent op.stride k := by
  have hd := h.dim_lt
  refine ⟨?_, ?_, ?_, ?_⟩
  · rw [sliceOp, getD_map_set hd, h.dim_eq, if_pos rfl]
  · rw [sliceOp, getD_map_set hd, h.dim_eq, if_pos rfl]
  · rw [sliceOp, List.getD_eq_getElem _ _ (by rwa [List.length_map]), List.getElem_map]
  · rw [sliceOp, getD_map_set hd, h.dim_eq, if_pos rfl]

/-- Within 32 bits the selected dimension passes. -/
theorem verifyDim_selected {k : ℕ} (hk : k ≤ (n - b - 1) / s)
    (hlast : b + (n - b - 1) / s * s + l < 2 ^ 31) : (sliceOp op k).verifyDim d = .ok () := by
  obtain ⟨hbegin, hend, hstep, hout⟩ := selected_getD h k
  have hin : (sliceOp op k).input = op.input := rfl
  have hle := Nat.mul_le_mul_right s hk
  have hlt := h.last_begin
  have hsize := h.size_le
  have hpos := h.length_pos
  rw [verifyDim, hbegin, hend, hstep, hout, hin, h.newBegin_eq hk, h.newEnd_eq hk hlast,
    h.newExtent_eq hk hlast]
  simp only [adjusted_of_nonneg (Int.natCast_nonneg _)]
  have hexpected : expectedDimSize (b + k * s : ℕ) (min (b + k * s + l) n : ℕ) 1
      = (min l (n - (b + k * s)) : ℕ) := by
    rw [expectedDimSize, abs_one, Int.tdiv_one, abs_of_nonneg (by omega)]
    omega
  rw [if_neg (by omega), if_neg (by omega), if_neg (by omega), if_neg (by omega),
    if_neg (by omega), if_neg]
  rw [hexpected]
  exact not_not.mpr rfl

/-- Past 32 bits the last slice does not. -/
theorem last_of_verifyDim (hok : (sliceOp op ((n - b - 1) / s)).verifyDim d = .ok ()) :
    b + (n - b - 1) / s * s + l < 2 ^ 31 := by
  obtain ⟨hbegin, hend, hstep, hout⟩ := selected_getD h ((n - b - 1) / s)
  have hfirst := h.newBegin_eq le_rfl
  have hlt := h.last_begin
  have hsize := h.size_lt
  have hlen : l < 2 ^ 31 := (h.length_le.trans h.stride_le).trans_lt hsize
  generalize b + (n - b - 1) / s * s = B at hfirst hlt ⊢
  by_contra hpast
  have hpast' : 2 ^ 31 ≤ (B : ℤ) + l := by exact_mod_cast not_lt.mp hpast
  have hstop : op.newEnd op.stride ((n - b - 1) / s) = (B : ℤ) + l - 2 ^ 32 := by
    rw [SelectOp.newEnd, hfirst, h.length_eq, h.size_eq, int32_of_past hpast' (by omega)]
    omega
  have hextent : op.newExtent op.stride ((n - b - 1) / s) = l := by
    rw [SelectOp.newExtent, hstop, hfirst, sub_right_comm, add_sub_cancel_left, int32_sub_pow,
      int32_natCast hlen]
  rw [verifyDim, hbegin, hend, hstep, hout, hfirst, hstop, hextent] at hok
  simp only [adjusted_of_nonneg (Int.natCast_nonneg _)] at hok
  have hsmall : adjusted ((B : ℤ) + l - 2 ^ 32)
      ((sliceOp op ((n - b - 1) / s)).input.getD d 0) < 2 ^ 31 := by
    rw [adjusted]
    split
    · exact (int32_range _).2
    · omega
  generalize adjusted ((B : ℤ) + l - 2 ^ 32) _ = stop at hok hsmall
  split_ifs at hok with h₁ h₂ h₃ h₄ h₅ h₆
  -- the size the slice is given is that of an end past 32 bits
  have hexpected : expectedDimSize B stop 1 = stop - B := by
    rw [expectedDimSize, abs_one, Int.tdiv_one, abs_of_nonneg (by omega)]
    omega
  rw [hexpected] at h₆
  omega

/-- **Which slices pass their verifiers.**  All do if and only if the other dimensions are not
empty and within 32 bits, and the end of the last slice is. -/
theorem verify_slices_iff : (∀ k ≤ (n - b - 1) / s, (sliceOp op k).verify = .ok ()) ↔
      (∀ i < op.input.length, i ≠ d → 0 < op.input.getD i 0 ∧ op.input.getD i 0 < 2 ^ 31) ∧
        b + (n - b - 1) / s * s + l < 2 ^ 31 := by
  constructor
  · intro hall
    have hmain := (verify_sliceOp_iff h _).mp (hall _ le_rfl)
    exact ⟨fun i hi hne => (verifyDim_other h _ hi (Ne.symm hne)).mp (hmain i hi),
      last_of_verifyDim h (hmain d h.dim_lt)⟩
  · rintro ⟨hothers, hlast⟩ k hk
    rw [verify_sliceOp_iff h]
    intro i hi
    by_cases hne : d = i
    · exact hne ▸ verifyDim_selected h hk hlast
    · exact (verifyDim_other h k hi hne).mpr (hothers i hi (Ne.symm hne))

theorem shape_apply {α : Type*} {k e : ℕ} (he : op.newExtent op.stride k = e) (x : Tensor α) :
    ((sliceOp op k).apply x).shape = op.input.set d e := by
  have hmap : (op.input.map fun n : ℕ => (n : ℤ)).map Int.toNat = op.input := by
    rw [List.map_map]
    exact List.map_id'' (fun n => Int.toNat_natCast n) _
  show ((op.input.map fun n : ℕ => (n : ℤ)).set op.normalizedDim.toNat
    (op.newExtent op.stride k)).map Int.toNat = _
  rw [List.map_set, hmap, he, h.dim_eq, Int.toNat_natCast]

/-- A slice moves the selected index, and no other. -/
theorem elem_apply {α : Type*} {k : ℕ} (hk : k ≤ (n - b - 1) / s) (x : Tensor α) {idx : List ℕ}
    (hidx : idx.length = op.input.length) :
    ((sliceOp op k).apply x).elem idx = x.elem (idx.set d (b + k * s + idx.getD d 0)) := by
  have hbegins : (sliceOp op k).begins = (op.input.map fun _ => 0).set d ((b + k * s : ℕ) : ℤ) := by
    rw [sliceOp, h.dim_eq, h.newBegin_eq hk]
  show x.elem (List.zipWith (fun (i : ℕ) (b : ℤ × ℤ) => (b.1 + i * b.2).toNat) idx
    ((List.zipWith adjusted (sliceOp op k).begins op.input).zip (op.input.map fun _ => 1))) = _
  rw [hbegins]
  congr 1
  apply List.ext_getElem
  · simp [hidx]
  · intro i hi hi'
    have hi₁ : i < idx.length := by simpa using hi'
    have hi₂ : i < op.input.length := hidx ▸ hi₁
    have hread : idx[i] = idx.getD i 0 := (List.getD_eq_getElem idx 0 hi₁).symm
    simp only [List.getElem_zipWith, List.getElem_zip, List.getElem_set, List.getElem_map, hread]
    by_cases hdi : d = i
    · subst hdi
      rw [if_pos rfl, if_pos rfl, adjusted_of_nonneg (Int.natCast_nonneg _), mul_one,
        ← Nat.cast_add, Int.toNat_natCast]
    · rw [if_neg hdi, if_neg hdi, adjusted_of_nonneg le_rfl, mul_one, zero_add, Int.toNat_natCast]

/-- The slices can be concatenated. -/
theorem verifyConcat_slices (ks : List ℕ) (hks : ks ≠ []) :
    verifyConcat d ((ks.map (sliceOp op)).map SliceOp.output) = .ok () := by
  have hd := h.dim_lt
  have hlen : ∀ k, (sliceOp op k).output.length = op.input.length := by
    intro k
    rw [sliceOp, List.length_set, List.length_map]
  have hset : ∀ k, (sliceOp op k).output.set d 0 = (op.input.map fun n : ℕ => (n : ℤ)).set d 0 := by
    intro k
    rw [sliceOp, h.dim_eq, List.set_set]
  cases ks with
  | nil => exact absurd rfl hks
  | cons k ks =>
    rw [List.map_cons, List.map_cons, verifyConcat, if_neg (by rw [hlen]; omega), forM_eq_ok]
    intro out hout
    rw [List.map_map] at hout
    obtain ⟨j, _, rfl⟩ := List.mem_map.mp hout
    rw [Function.comp_apply, hlen, hlen, hset, hset, if_neg (not_not.mpr rfl),
      if_neg (not_not.mpr rfl)]

/-- **What the slices compute together.** -/
theorem apply_spec {α : Type*} (hlast : b + (n - b - 1) / s * s + l < 2 ^ 31) (x : Tensor α) :
    (apply d ((List.range ((n - b - 1) / s + 1)).map (sliceOp op)) x).shape
        = op.input.set d ((n - b - 1) / s * l + min l (n - (b + (n - b - 1) / s * s))) ∧
      ∀ idx : List ℕ, idx.length = op.input.length →
        idx.getD d 0 < (n - b - 1) / s * l + min l (n - (b + (n - b - 1) / s * s)) →
        (apply d ((List.range ((n - b - 1) / s + 1)).map (sliceOp op)) x).elem idx
          = x.elem (idx.set d (b + idx.getD d 0 / l * s + idx.getD d 0 % l)) := by
  have hpos := h.length_pos
  have happly : apply d ((List.range ((n - b - 1) / s + 1)).map (sliceOp op)) x
      = Tensor.concat d ((sliceOp op 0).apply x)
          ((List.range ((n - b - 1) / s)).map fun k => (sliceOp op (k + 1)).apply x) := by
    rw [List.range_succ_eq_map, List.map_cons, apply, List.map_map, List.map_map]
    rfl
  obtain ⟨hshape, helem⟩ := Tensor.concat_spec h.dim_lt hpos (min_le_left l _) ((n - b - 1) / s)
    (fun k => (sliceOp op k).apply x)
    (fun k hk => shape_apply h (h.newExtent_of_lt hk hlast) x)
    (shape_apply h (h.newExtent_eq le_rfl hlast) x)
  rw [happly]
  refine ⟨hshape, fun idx hidx hi => ?_⟩
  rw [helem idx hidx hi]
  have hquot : idx.getD d 0 / l ≤ (n - b - 1) / s := by
    have hlt : idx.getD d 0 < ((n - b - 1) / s + 1) * l := by
      rw [Nat.succ_mul]
      omega
    exact Nat.lt_succ_iff.mp (Nat.div_lt_of_lt_mul (by rwa [Nat.mul_comm] at hlt))
  have hd : d < idx.length := hidx ▸ h.dim_lt
  rw [elem_apply h hquot x (by rw [List.length_set, hidx]), getD_set_self hd, List.set_set]

theorem matchAndRewrite_of_rounds (hrounds : n - b + s - 1 < 2 ^ 31) :
    matchAndRewrite op = .ok ((List.range ((n - b - 1) / s + 1)).map (sliceOp op)) := by
  have hstride : op.stride ≠ 0 := by
    have := h.stride_pos
    rw [h.stride_eq]
    omega
  rw [matchAndRewrite, if_neg hstride, h.numSlices_eq hrounds, Int.toNat_natCast]
  exact if_neg (by simp)

theorem matchAndRewrite_of_not_rounds (hrounds : ¬n - b + s - 1 < 2 ^ 31) (slices : List SliceOp) :
    matchAndRewrite op ≠ .ok slices := by
  have hnone : (op.numSlices op.stride).toNat = 0 := by
    have := h.numSlices_nonpos hrounds
    omega
  rw [matchAndRewrite]
  split
  · nofun
  · rw [hnone]
    nofun

end SelectToSlice

namespace SelectOp

variable {op : SelectOp} {d b l s n : ℕ} (h : op.Numbers d b l s n)

include h

theorem Numbers.position_eq (i : ℕ) : op.position i = b + i / l * s + i % l := by
  have hstride : op.verifiedStride = s := by
    rw [verifiedStride, if_neg, h.stride_eq]
    have := h.stride_pos
    rw [h.stride_eq]
    omega
  rw [position, h.begin_eq, h.length_eq, hstride, Int.toNat_natCast]
  norm_cast

/-- It reads inside the dimension. -/
theorem Numbers.position_lt {i : ℕ}
    (hi : i < (n - b - 1) / s * l + min l (n - (b + (n - b - 1) / s * s))) : op.position i < n := by
  have hpos := h.length_pos
  have hlen := h.length_le
  have hlast := h.last_begin
  have hdecomp := Nat.div_add_mod' i l
  have hrem := Nat.mod_lt i hpos
  rw [h.position_eq]
  rcases Nat.lt_or_ge (i / l) ((n - b - 1) / s) with hlt | hge
  · have hle := Nat.mul_le_mul_right s (Nat.succ_le_of_lt hlt)
    rw [Nat.succ_mul] at hle
    omega
  · have hquot : i / l = (n - b - 1) / s := by
      refine le_antisymm (Nat.le_of_lt_succ ?_) hge
      apply Nat.div_lt_of_lt_mul
      rw [Nat.mul_comm, Nat.succ_mul]
      omega
    rw [hquot] at hdecomp ⊢
    omega

theorem Numbers.output_dim (hrounds : n - b + s - 1 < 2 ^ 31)
    (hlast : b + (n - b - 1) / s * s + l < 2 ^ 31) :
    op.output.getD d 0 = (n - b - 1) / s * l + min l (n - (b + (n - b - 1) / s * s)) := by
  have htotal := h.total
  rw [← h.stride_eq, h.totalLength_eq hrounds hlast] at htotal
  exact (Nat.cast_injective htotal).symm

/-- The shape of the result. -/
theorem Numbers.output_eq (hothers : ∀ i < op.input.length, i ≠ d →
      op.output.getD i 0 = op.input.getD i 0) :
    op.output = op.input.set d (op.output.getD d 0) := by
  apply List.ext_getElem
  · rw [List.length_set, h.rank]
  · intro i hi hi'
    have hi'' : i < op.input.length := h.rank ▸ hi
    have hread := hothers i hi''
    rw [List.getD_eq_getElem _ _ hi, List.getD_eq_getElem _ _ hi''] at hread
    rw [List.getElem_set]
    by_cases hne : d = i
    · subst hne
      rw [if_pos rfl, List.getD_eq_getElem _ _ hi]
    · rw [if_neg hne]
      exact hread (Ne.symm hne)

open SelectToSlice in
/-- The emitted operations compute the select. -/
theorem Numbers.selects (hothers : ∀ i < op.input.length, i ≠ d →
      op.output.getD i 0 = op.input.getD i 0) (hrounds : n - b + s - 1 < 2 ^ 31)
    (hlast : b + (n - b - 1) / s * s + l < 2 ^ 31) {α : Type} (x : Tensor α) :
    op.Selects x (apply d ((List.range ((n - b - 1) / s + 1)).map (sliceOp op)) x) := by
  obtain ⟨hshape, helem⟩ := apply_spec h hlast x
  have hdim := h.output_dim hrounds hlast
  have hout := h.output_eq hothers
  have hd : d < op.output.length := h.rank ▸ h.dim_lt
  have hindex : ∀ idx, InShape idx op.output → idx.length = op.input.length ∧
      idx.getD d 0 < (n - b - 1) / s * l + min l (n - (b + (n - b - 1) / s * s)) := by
    intro idx hidx
    have hlen := hidx.length_eq
    refine ⟨hlen.trans h.rank.symm, ?_⟩
    rw [← hdim, List.getD_eq_getElem _ _ hd, List.getD_eq_getElem _ _ (hlen ▸ hd)]
    exact hidx.get (hlen ▸ hd) hd
  constructor
  · rw [hshape, hout, hdim]
  · intro idx hidx
    obtain ⟨hlen, hlt⟩ := hindex idx hidx
    have hposition := (h.position_lt hlt).trans_le h.size_le
    rw [h.dim_eq]
    apply List.forall₂_iff_get.mpr
    refine ⟨by rw [List.length_set, hlen], fun i hi hi' => ?_⟩
    rw [List.get_eq_getElem, List.get_eq_getElem, List.getElem_set]
    by_cases hne : d = i
    · subst hne
      rwa [if_pos rfl, ← List.getD_eq_getElem _ 0 hi']
    · rw [if_neg hne]
      have hi₁ : i < idx.length := hlen ▸ hi'
      have hi₂ : i < op.output.length := h.rank ▸ hi'
      have hread := hothers i hi' (Ne.symm hne)
      rw [List.getD_eq_getElem _ _ hi', List.getD_eq_getElem _ _ hi₂] at hread
      exact lt_of_lt_of_eq (hidx.get hi₁ hi₂) hread
  · intro idx hidx
    obtain ⟨hlen, hlt⟩ := hindex idx hidx
    rw [helem idx hlen hlt, h.dim_eq, h.position_eq]

end SelectOp

open SelectToSlice in
/-- **The condition for a select.**  A select that its verifier accepts is lowered without
changing values if and only if it has a stride, its other dimensions are those of its result, and
the numbers of the pattern stay within 32 bits. -/
theorem SelectOp.lowers_iff (op : SelectOp) (hverify : op.verify = .ok ()) :
    op.Lowers ↔ op.Sliceable := by
  constructor
  · rintro ⟨slices, hmatch, hslices, -, hselects⟩
    have hstride : op.stride ≠ 0 := by
      intro hzero
      rw [matchAndRewrite, if_pos hzero] at hmatch
      exact nomatch hmatch
    obtain ⟨b, l, s, n, h⟩ := exists_numbers hverify hstride
    have hrounds : n - b + s - 1 < 2 ^ 31 := by
      by_contra hpast
      exact matchAndRewrite_of_not_rounds h hpast _ hmatch
    obtain rfl := Except.ok.inj (hmatch.symm.trans (matchAndRewrite_of_rounds h hrounds))
    obtain ⟨hothers, hlast⟩ := (verify_slices_iff h).mp fun k hk =>
      hslices _ (List.mem_map_of_mem (List.mem_range.mpr (Nat.lt_succ_of_le hk)))
    have hshape := (hselects Unit ⟨op.input, fun _ => ()⟩ rfl).shape
    rw [(apply_spec h hlast _).1] at hshape
    refine ⟨hstride, fun i hi hne => ⟨?_, hothers i hi hne⟩, h.rounds_iff.mpr hrounds,
      h.last_iff.mpr hlast⟩
    rw [← hshape, List.getD_eq_getElem?_getD, List.getElem?_set_ne (Ne.symm hne),
      ← List.getD_eq_getElem?_getD]
  · intro hok
    obtain ⟨b, l, s, n, h⟩ := exists_numbers hverify hok.stride_ne
    have hrounds := h.rounds_iff.mp hok.rounds
    have hlast := h.last_iff.mp hok.last
    refine ⟨_, matchAndRewrite_of_rounds h hrounds, ?_, fun _ => ?_, ?_⟩
    · intro sl hsl
      obtain ⟨k, hk, rfl⟩ := List.mem_map.mp hsl
      exact (verify_slices_iff h).mpr ⟨fun i hi hne => (hok.others i hi hne).2, hlast⟩ k
        (Nat.lt_succ_iff.mp (List.mem_range.mp hk))
    · exact verifyConcat_slices h _ (by simp)
    · intro α x hx
      exact h.selects (fun i hi hne => (hok.others i hi hne).1) hrounds hlast x

/-- Every second pair of a dimension of six is lowered. -/
theorem SelectOp.pairs_lowers :
    (SelectOp.mk [2, 6, 3] [2, 4, 3] (-2) 0 2 4).verify = .ok () ∧
      (SelectOp.mk [2, 6, 3] [2, 4, 3] (-2) 0 2 4).Lowers := by
  have hverify : (SelectOp.mk [2, 6, 3] [2, 4, 3] (-2) 0 2 4).verify = .ok () := by decide +kernel
  refine ⟨hverify, (SelectOp.lowers_iff _ hverify).mpr ?_⟩
  exact {
    stride_ne := by decide
    others := by decide
    rounds := by decide +kernel
    last := by decide +kernel }

/-- **A stride of zero.**  The verifier reads it as the size of the dimension, and the pattern
divides by it. -/
theorem SelectOp.zeroStride_not_lowers :
    (SelectOp.mk [4] [2] 0 1 2 0).verify = .ok () ∧ ¬(SelectOp.mk [4] [2] 0 1 2 0).Lowers := by
  refine ⟨by decide +kernel, ?_⟩
  rintro ⟨slices, hmatch, -⟩
  exact nomatch hmatch

end TTIR
