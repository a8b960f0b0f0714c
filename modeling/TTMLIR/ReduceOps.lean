/-
# The TTNN reductions

The reductions of the TTNN dialect share one check, `verifyReduceOp` of `TTNNOps.cpp`: a list of
dimensions, of which negative ones count from the end, and without a list all of them; the reduced
dimensions are dropped, or kept as ones.

* `ReduceOp.axes`, `ReduceOp.expectedOutputShape`, `verifyReduceOp` : the check;
* `ReduceOp.eval` : the reduction, by any function of lists;
* `verifyReduceOp_eq_ok` : what passes the check;
* `ReduceOp.eval_elem` : the elements of the result, in row-major order.
-/
import TTMLIR.AxisReduction
import TTMLIR.BroadcastReshape

namespace TTNN

open MixedRadix TTIR AxisReduction

/-- A reduction: the shape of its operand, its attributes, the shape of its result. -/
structure ReduceOp : Type where
  input : List ℕ
  dimArg : Option (List ℤ)
  keepDim : Bool
  output : List ℕ
  deriving DecidableEq

/-- How the check stops: on a dimension past the end of the mask, or with an error. -/
inductive ReduceStop : Type where
  | pastEnd
  | opError (message : String)
  deriving DecidableEq

/-- A dimension, counted from the front. -/
def normalizeDim (rank : ℕ) (dim : ℤ) : ℤ := if dim < 0 then dim + rank else dim

/-- A bit of `reduceDimsMask`. -/
def reduceDimsMask (rank : ℕ) : Option (List ℤ) → ℕ → Bool
  | none, _ => true
  | some dims, i => dims.any fun dim => normalizeDim rank dim = i

/-- A dimension that has a bit in the mask. -/
def HasBit (rank : ℕ) (dim : ℤ) : Prop := 0 ≤ normalizeDim rank dim ∧ normalizeDim rank dim < rank

instance (rank : ℕ) (dim : ℤ) : Decidable (HasBit rank dim) := inferInstanceAs (Decidable (_ ∧ _))

namespace ReduceOp

/-- The dimensions of the operand, the reduced ones marked. -/
def axes (op : ReduceOp) : List (Bool × ℕ) :=
  op.input.zipIdx.map fun p => (reduceDimsMask op.input.length op.dimArg p.2, p.1)

/-- `expectedOutputShape`, with the edge case where all dimensions are reduced and dropped. -/
def expectedOutputShape (op : ReduceOp) : List ℕ :=
  if kept op.keepDim op.axes = [] ∧ op.keepDim = false then [1] else kept op.keepDim op.axes

/-- The reduction, by a function of lists. -/
def eval {α β : Type} (f : List α → β) (op : ReduceOp) (x : Tensor α) : Tensor β :=
  ⟨op.output, reduce f op.keepDim op.axes x.elem⟩

end ReduceOp

/-- `verifyReduceOp`. -/
def verifyReduceOp (op : ReduceOp) : Except ReduceStop Unit :=
  if ∃ dim ∈ op.dimArg.getD [], ¬HasBit op.input.length dim then .error .pastEnd
  else if op.output ≠ op.expectedOutputShape then
    .error (.opError
      s!"Expected output shape ({join op.expectedOutputShape}), got ({join op.output})")
  else .ok ()

/-- **The check**: the dimensions are in range, and the shape is the expected one. -/
theorem verifyReduceOp_eq_ok {op : ReduceOp} : verifyReduceOp op = .ok () ↔
      (∀ dim ∈ op.dimArg.getD [], HasBit op.input.length dim) ∧
        op.output = op.expectedOutputShape := by
  rw [verifyReduceOp]
  by_cases hbits : ∃ dim ∈ op.dimArg.getD [], ¬HasBit op.input.length dim
  · obtain ⟨dim, hmem, hbit⟩ := hbits
    rw [if_pos ⟨dim, hmem, hbit⟩]
    exact ⟨fun h => absurd h (by simp), fun h => absurd (h.1 dim hmem) hbit⟩
  · rw [if_neg hbits]
    have hall : ∀ dim ∈ op.dimArg.getD [], HasBit op.input.length dim := by
      intro dim hmem
      by_contra hbit
      exact hbits ⟨dim, hmem, hbit⟩
    by_cases hshape : op.output = op.expectedOutputShape
    · rw [if_neg (not_not.mpr hshape)]
      exact ⟨fun _ => ⟨hall, hshape⟩, fun _ => rfl⟩
    · rw [if_pos hshape]
      exact ⟨fun h => absurd h (by simp), fun h => absurd h.2 hshape⟩

namespace ReduceOp

/-! ## The axes -/

theorem extents_axes (op : ReduceOp) : op.axes.map Prod.snd = op.input := by
  rw [axes, List.map_map]
  exact List.zipIdx_map_fst 0 op.input

/-- The marks of the dimensions from `k` on, of a reduction over one. -/
theorem map_zipIdx_only {shape : List ℕ} {rank : ℕ} {dim : ℤ} (n k : ℕ)
    (h : normalizeDim rank dim = (n + k : ℕ)) :
    ((shape.zipIdx k).map fun p => (reduceDimsMask rank (some [dim]) p.2, p.1)) = only n shape := by
  have hmask : ∀ i, reduceDimsMask rank (some [dim]) i = decide (n + k = i) := by
    intro i
    rw [reduceDimsMask, List.any_cons, List.any_nil, Bool.or_false, h]
    exact decide_eq_decide.mpr Int.ofNat_inj
  simp only [hmask]
  clear h hmask
  induction shape generalizing n k with
  | nil => cases n <;> rfl
  | cons m shape ih =>
    rw [List.zipIdx_cons, List.map_cons]
    cases n with
    | zero =>
      have hrest : ∀ (ms : List ℕ) (j : ℕ), k < j →
          ((ms.zipIdx j).map fun p => (decide (0 + k = p.2), p.1)) = ms.map (false, ·) := by
        intro ms
        induction ms with
        | nil => exact fun _ _ => rfl
        | cons m ms ih =>
          intro j hj
          rw [List.zipIdx_cons, List.map_cons, List.map_cons, ih (j + 1) (by omega),
            decide_eq_false (by omega)]
      rw [hrest shape (k + 1) (Nat.lt_succ_self k), only, decide_eq_true (by omega)]
    | succ n =>
      have hnext : n + 1 + k = n + (k + 1) := by omega
      rw [only, decide_eq_false (by omega), hnext, ih n (k + 1)]

/-- **The axes of a reduction over one dimension.** -/
theorem axes_single {shape output : List ℕ} {dim : ℤ} {keepDim : Bool} {n : ℕ}
    (h : normalizeDim shape.length dim = n) :
    (ReduceOp.mk shape (some [dim]) keepDim output).axes = only n shape :=
  map_zipIdx_only n 0 h

/-! ## The elements of the result -/

theorem prod_expectedOutputShape (op : ReduceOp) :
    op.expectedOutputShape.prod = (kept false op.axes).prod := by
  rw [expectedOutputShape]
  split_ifs with hedge
  · rw [← hedge.2, hedge.1]
    rfl
  · cases op.keepDim with
    | true => exact prod_kept op.axes
    | false => rfl

/-- **The elements of the result**, in row-major order. -/
theorem eval_elem {α β : Type} {f : List α → β} {op : ReduceOp} {x : Tensor α} {idx : List ℕ}
    (houtput : op.output = op.expectedOutputShape) (hidx : InShape idx op.output) :
    (op.eval f x).elem idx = f ((fibreAt op.axes (rowMajor op.output idx)).map x.elem) := by
  show f ((fibre op.keepDim op.axes idx).map x.elem) = _
  rw [houtput, expectedOutputShape] at hidx ⊢
  split_ifs at hidx ⊢ with hedge
  · -- all dimensions are reduced, and the result has one element
    have hzero : rowMajor [1] idx = 0 := Nat.lt_one_iff.mp (rowMajor_lt hidx)
    rw [hzero, hedge.2, fibre_of_kept_nil (hedge.2 ▸ hedge.1)]
  · rw [fibre_eq_fibreAt hidx]

end ReduceOp

end TTNN
