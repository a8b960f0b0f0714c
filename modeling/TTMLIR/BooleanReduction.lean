/-
# Reductions of booleans

A reduction of StableHLO whose body is `and` or `or` becomes `reduce_and` or `reduce_or` of TTIR;
`ElementTypeNormalization` stores booleans as bfloat16 numbers, zero and one; and
`ReductionAndPattern` and `ReductionOrPattern` of `TTIRToTTIRDecomposition.cpp` turn the reductions
into the product and the sum of what is stored.

* `LogicalReduce` : the reduction, and `LogicalReduce.eval` its meaning;
* `LogicalReduce.compiled` : what the three passes make of it;
* `LogicalReduce.KeepsMeaning` : every element of the result is stored as the boolean it stands for;
* `keepsMeaning_iff` : the operands and init values for which that is so.

The init value is dropped on the way, and a sum counts the elements that are true.
-/
import TTMLIR.NearestEven
import TTMLIR.StableHLOReduce

namespace BooleanReduction

open MixedRadix AxisReduction TTIR StableHLO.Reduce

/-! ## The reduction -/

/-- The bodies that are logical on booleans. -/
inductive Logical : Type where
  | and | or
  deriving DecidableEq

/-- What a body computes. -/
def Logical.apply : Logical → Bool → Bool → Bool
  | .and => Bool.and
  | .or => Bool.or

/-- The operation of a body. -/
def Logical.combiner : Logical → Combiner
  | .and => .and
  | .or => .or

/-- A boolean constant; constants of other types are no operands of the reduction. -/
def ofConstant : Constant → Bool
  | .i1 value => value
  | _ => false

/-- `stablehlo.reduce` of booleans, with a body of one logical operation on its two arguments. -/
structure LogicalReduce : Type where
  logical : Logical
  shape : List ℕ
  dimensions : List ℕ
  initValue : InitDef Bool
  dimensions_nodup : dimensions.Nodup
  dimensions_inRange : ∀ d ∈ dimensions, d < shape.length
  rank_lt : shape.length < 2 ^ 31

namespace LogicalReduce

variable (op : LogicalReduce)

theorem dimensions_lt : ∀ d ∈ op.dimensions, d < 2 ^ 31 :=
  fun d hd => (op.dimensions_inRange d hd).trans op.rank_lt

/-- The reduction as the conversion sees it. -/
def srcOp : ReduceOp Bool where
  inputs := [.other]
  initValues := [op.initValue]
  elementTypeBitWidths := [1, 1]
  dimensions := op.dimensions
  body := ⟨[.combine op.logical.combiner 0 1], [2]⟩
  used := [true]
  length_initValues := rfl
  length_returned := rfl
  dimensions_nodup := op.dimensions_nodup
  dimensions_lt := op.dimensions_lt

/-- The init value. -/
def init : Bool := op.initValue.eval ofConstant

/-- The dimensions of the operand, the reduced ones marked. -/
def axes : List (Bool × ℕ) :=
  op.shape.zipIdx.map fun p => (decide (p.2 ∈ op.dimensions), p.1)

/-- The elements under an index of the result. -/
def reduced (x : List ℕ → Bool) (idx : List ℕ) : List Bool := (fibre false op.axes idx).map x

/-- **What the reduction computes**, from its init value. -/
def eval (x : List ℕ → Bool) : Tensor Bool :=
  ⟨kept false op.axes, fun idx => (op.reduced x idx).foldl op.logical.apply op.init⟩

end LogicalReduce

/-! ## The passes -/

/-- `convertType` of `StablehloTypeConverter`: a scalar becomes a tensor of one element. -/
def convertType {α : Type} (x : Tensor α) : Tensor α :=
  if x.shape = [] then ⟨[1], fun _ => x.elem []⟩ else x

/-- `rebuildIntAttr` for one bit: the value of the bit, as a bfloat16 number. -/
def stored (v : Bool) : ℕ := if v then 1 else 0

/-- A number rounded to bfloat16, which has eight binary digits. -/
def bfloat16 (n : ℕ) : ℕ := Rounding.nearestEvenNat 8 n

/-- The reductions that the decomposition produces. -/
inductive Decomposed : Type where
  | prod | sum
  deriving DecidableEq

/-- `ReductionAndPattern` and `ReductionOrPattern`. -/
def decompose : TTIROp → Option Decomposed
  | .reduceAnd => some .prod
  | .reduceOr => some .sum
  | _ => none

/-- The product and the sum of bfloat16 numbers. -/
def Decomposed.eval : Decomposed → List ℕ → ℕ
  | .prod, values => bfloat16 values.prod
  | .sum, values => bfloat16 values.sum

namespace LogicalReduce

variable (op : LogicalReduce)

/-- What the conversion to TTIR, the normalization of the element types and the decomposition
compute. -/
def compiled (x : List ℕ → Bool) : Option (Tensor ℕ) := do
  let emitted ← (op.srcOp.matchAndRewrite.toOption).join
  let decomposed ← decompose emitted.op
  let input : Tensor ℕ :=
    ⟨(convertType ⟨op.shape, x⟩).shape, fun idx => stored ((convertType ⟨op.shape, x⟩).elem idx)⟩
  let result : TTNN.ReduceOp :=
    ⟨input.shape, some emitted.dimArg, false, (convertType (op.eval x)).shape⟩
  return result.eval decomposed.eval input

/-- **Booleans keep their meaning**: what later operations read are stored booleans, those that
the reduction computes. -/
def KeepsMeaning (x : List ℕ → Bool) : Prop :=
  ∃ y, op.compiled x = some y ∧ y.shape = (convertType (op.eval x)).shape ∧
    ∀ idx, InShape idx y.shape → y.elem idx = stored ((convertType (op.eval x)).elem idx)

end LogicalReduce

/-! ## What is compiled -/

/-- The mask has the dimensions of the operation. -/
theorem reduceDimsMask_map {rank : ℕ} {dims : List ℕ} (h : ∀ d ∈ dims, d < 2 ^ 31) (i : ℕ) :
    TTNN.reduceDimsMask rank (some (dims.map toI32)) i = decide (i ∈ dims) := by
  rw [TTNN.reduceDimsMask, Bool.eq_iff_iff, List.any_map, List.any_eq_true, decide_eq_true_iff]
  have hdim : ∀ d ∈ dims, TTNN.normalizeDim rank (toI32 d) = d := by
    intro d hd
    rw [toI32_eq, int32_natCast (h d hd), TTNN.normalizeDim,
      if_neg (Int.not_lt.mpr (Int.natCast_nonneg d))]
  constructor
  · rintro ⟨d, hd, heq⟩
    rw [Function.comp_apply, hdim d hd, decide_eq_true_iff, Int.natCast_inj] at heq
    exact heq ▸ hd
  · intro hi
    exact ⟨i, hi, by rw [Function.comp_apply, hdim i hi, decide_eq_true_iff]⟩

/-- The reduction that is left in the place of a logical one. -/
def Logical.decomposed : Logical → Decomposed
  | .and => .prod
  | .or => .sum

namespace LogicalReduce

variable (op : LogicalReduce)

theorem matchAndRewrite_srcOp : op.srcOp.matchAndRewrite
    = .ok (some ⟨destOp op.logical.combiner, op.dimensions.map toI32, 0⟩) := by
  cases hlogical : op.logical <;>
    simp [ReduceOp.matchAndRewrite, ReduceOp.checkConversionLegality, ReduceOp.firstCombiner,
      ReduceOp.matchAndRewriteInternal, srcOp, hlogical, Logical.combiner]

/-- The elements of the result, of stored booleans. -/
theorem compiled_eq (x : List ℕ → Bool) :
    op.compiled x = some ⟨(convertType (op.eval x)).shape, fun idx =>
      op.logical.decomposed.eval ((op.reduced x idx).map stored)⟩ := by
  have hdecompose : decompose (destOp op.logical.combiner) = some op.logical.decomposed := by
    cases op.logical <;> rfl
  have hmask := @reduceDimsMask_map op.shape.length _ op.dimensions_lt
  simp only [compiled, matchAndRewrite_srcOp, Except.toOption, Option.join_some, Option.bind_eq_bind,
    Option.bind_some, hdecompose, TTNN.ReduceOp.eval, Option.pure_def]
  congr 2
  funext idx
  rw [reduce, reduced]
  by_cases hshape : op.shape = []
  · -- a scalar: there are no dimensions to reduce
    have hdims : op.dimensions = [] := List.eq_nil_iff_forall_not_mem.mpr fun d hd =>
        absurd (op.dimensions_inRange d hd) (by simp [hshape])
    simp [TTNN.ReduceOp.axes, axes, convertType, hshape, hdims, TTNN.reduceDimsMask, fibre]
  · simp only [TTNN.ReduceOp.axes, axes, convertType, if_neg hshape, hmask, List.map_map]
    rfl

theorem convertType_eval_elem (x : List ℕ → Bool) (idx : List ℕ) :
    (convertType (op.eval x)).elem idx = (op.reduced x idx).foldl op.logical.apply op.init := by
  rw [convertType]
  split_ifs with hkept
  · have hfibre : op.reduced x [] = op.reduced x idx := by
      rw [reduced, reduced, fibre_of_kept_nil hkept, fibre_of_kept_nil hkept]
    show (op.reduced x []).foldl _ _ = _
    rw [hfibre]
  · rfl

end LogicalReduce

/-! ## Products and sums of flags -/

/-- A conjunction is false where an element is. -/
theorem foldl_and (init : Bool) (l : List Bool) :
    l.foldl Bool.and init = (init && !decide (false ∈ l)) := by
  induction l generalizing init with
  | nil => simp
  | cons v l ih =>
    rw [List.foldl_cons, ih]
    cases v <;> simp

/-- A disjunction is true where an element is. -/
theorem foldl_or (init : Bool) (l : List Bool) :
    l.foldl Bool.or init = (init || decide (true ∈ l)) := by
  induction l generalizing init with
  | nil => simp
  | cons v l ih =>
    rw [List.foldl_cons, ih]
    cases v <;> simp

theorem prod_map_stored (l : List Bool) : (l.map stored).prod = stored (!decide (false ∈ l)) := by
  induction l with
  | nil => rfl
  | cons v l ih =>
    rw [List.map_cons, List.prod_cons, ih]
    cases v <;> simp [stored]

/-- A sum of stored truth values counts the true ones. -/
theorem sum_map_stored (l : List Bool) : (l.map stored).sum = l.count true := by
  induction l with
  | nil => rfl
  | cons v l ih =>
    rw [List.map_cons, List.sum_cons, ih]
    cases v <;> simp [stored, Nat.add_comm]

theorem bfloat16_stored (v : Bool) : bfloat16 (stored v) = stored v :=
  Rounding.nearestEvenNat_of_le (by decide) (by cases v <;> decide)

/-- More than one true element is no flag, with the rounding. -/
theorem bfloat16_count_eq_stored {l : List Bool} {v : Bool} :
    bfloat16 (l.count true) = stored v ↔ l.count true ≤ 1 ∧ (v = true ↔ true ∈ l) := by
  rw [← List.count_pos_iff]
  rcases Nat.lt_or_ge 1 (l.count true) with hmany | hfew
  · have hround := Rounding.one_lt_nearestEvenNat (by decide : 0 < 8) hmany
    have hflag : stored v ≤ 1 := by cases v <;> decide
    constructor
    · intro heq
      rw [bfloat16] at heq
      omega
    · rintro ⟨hle, -⟩
      omega
  · rw [bfloat16, Rounding.nearestEvenNat_of_le (by decide) (by omega)]
    have hflag : l.count true = 0 ∨ l.count true = 1 := by omega
    rcases hflag with hcount | hcount <;> rw [hcount] <;> cases v <;> simp [stored]

/-! ## The operands whose reductions keep their meaning -/

/-- The elements and the init value for which the product or the sum of the flags is the flag of
the reduction. -/
def Logical.Represents (logical : Logical) (init : Bool) (l : List Bool) : Prop :=
  match logical with
  | .and => init = true ∨ false ∈ l
  | .or => (init = false ∨ true ∈ l) ∧ l.count true ≤ 1

instance (logical : Logical) (init : Bool) (l : List Bool) :
    Decidable (logical.Represents init l) :=
  match logical with
  | .and => inferInstanceAs (Decidable (init = true ∨ false ∈ l))
  | .or => inferInstanceAs (Decidable ((init = false ∨ true ∈ l) ∧ l.count true ≤ 1))

/-- **One element**: the product or the sum is the stored result of the reduction. -/
theorem Logical.eval_decomposed_eq_iff (logical : Logical) (init : Bool) (l : List Bool) :
    logical.decomposed.eval (l.map stored) = stored (l.foldl logical.apply init) ↔
      logical.Represents init l := by
  cases logical with
  | and =>
    show bfloat16 (l.map stored).prod = stored (l.foldl Bool.and init) ↔ init = true ∨ false ∈ l
    rw [prod_map_stored, bfloat16_stored, foldl_and]
    cases init <;> by_cases hmem : false ∈ l <;> simp [hmem, stored]
  | or =>
    show bfloat16 (l.map stored).sum = stored (l.foldl Bool.or init) ↔
      (init = false ∨ true ∈ l) ∧ l.count true ≤ 1
    rw [sum_map_stored, bfloat16_count_eq_stored, foldl_or]
    cases init <;> by_cases hmem : true ∈ l <;> simp [hmem]

namespace LogicalReduce

/-- **Boolean reductions keep their meaning** exactly where, under every index of the result, a
conjunction starts from true or meets a false element, and a disjunction starts from false or meets
a true one, and meets no second. -/
theorem keepsMeaning_iff (op : LogicalReduce) (x : List ℕ → Bool) :
    op.KeepsMeaning x ↔
      ∀ idx, InShape idx (kept false op.axes) →
        op.logical.Represents op.init (op.reduced x idx) := by
  have helem : op.KeepsMeaning x ↔ ∀ idx, InShape idx (convertType (op.eval x)).shape →
      op.logical.Represents op.init (op.reduced x idx) := by
    rw [KeepsMeaning, compiled_eq]
    constructor
    · rintro ⟨y, hy, -, hkept⟩ idx hidx
      obtain rfl := Option.some.inj hy
      have helem := hkept idx hidx
      rw [convertType_eval_elem] at helem
      exact (op.logical.eval_decomposed_eq_iff op.init _).mp helem
    · intro h
      refine ⟨_, rfl, rfl, fun idx hidx => ?_⟩
      rw [convertType_eval_elem]
      exact (op.logical.eval_decomposed_eq_iff op.init _).mpr (h idx hidx)
  rw [helem, convertType]
  split_ifs with hkept
  · -- all dimensions are reduced: the index does not matter
    replace hkept : kept false op.axes = [] := hkept
    have hreduced : ∀ idx, op.reduced x idx = op.reduced x [] := by
      intro idx
      rw [reduced, reduced, fibre_of_kept_nil hkept, fibre_of_kept_nil hkept]
    rw [hkept]
    constructor
    · intro h idx _
      rw [hreduced, ← hreduced [0]]
      exact h [0] (.cons Nat.zero_lt_one .nil)
    · intro h idx _
      rw [hreduced]
      exact h [] .nil
  · rfl

/-- The disjunction of two true elements. -/
def twoTrue : LogicalReduce where
  logical := .or
  shape := [2]
  dimensions := [0]
  initValue := .constant (.i1 false)
  dimensions_nodup := by decide
  dimensions_inRange := by decide
  rank_lt := by decide

/-- **It is stored as two.** -/
theorem twoTrue_not_keepsMeaning : ¬ twoTrue.KeepsMeaning fun _ => true := by
  rw [keepsMeaning_iff]
  intro h
  exact absurd (h [] .nil) (by decide)

end LogicalReduce

end BooleanReduction
