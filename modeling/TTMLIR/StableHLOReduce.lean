/-
# Reductions of StableHLO

The pattern `StableHLOToTTIRReduceOpConversionPattern` of `StableHLOToTTIRPatterns.cpp`.  A
reduction folds its body, a region, over the elements under an index, from its init values; the
reductions of TTIR compute one fixed function each.

* `ReduceOp` : a reduction with its body;
* `ReduceOp.matchAndRewrite` : the translated pattern, which looks at the first operation of the
  body, or at the kinds of all of them.

The init values of a sum, a product, a maximum or a minimum are never looked at, nor are the
operands of the operations of a body.
-/
import TTMLIR.DotGeneral
import TTMLIR.ReduceOps

namespace StableHLO.Reduce

open MixedRadix AxisReduction TTIR

/-! ## The dialect -/

/-- The operations of StableHLO that a reduction is recognized by. -/
inductive Combiner : Type where
  | add | max | min | mul | and | or
  deriving DecidableEq

/-- `ComparisonDirection`. -/
inductive Direction : Type where
  | eq | ne | ge | gt | le | lt
  deriving DecidableEq

/-- A constant tensor of one element, by the type and the bits of its element, or another
constant. -/
inductive Constant : Type where
  | bf16 (bits : BitVec 16)
  | f32 (bits : BitVec 32)
  | f64 (bits : BitVec 64)
  | i32 (value : BitVec 32)
  | i64 (value : BitVec 64)
  | i1 (value : Bool)
  | other
  deriving DecidableEq

/-! ## The operation -/

/-- An operation of a body: its operands are earlier values, by their positions. -/
inductive BodyOp (V : Type) : Type where
  | combine (combiner : Combiner) (lhs rhs : ℕ)
  | compare (direction : Direction) (lhs rhs : ℕ)
  | select (pred onTrue onFalse : ℕ)
  | other (operands : List ℕ) (results : List V → List V)

/-- A body: the operations of its block in front of the terminator, and what that returns. -/
structure Body (V : Type) : Type where
  ops : List (BodyOp V)
  returned : List ℕ

/-- What defines an init value. -/
inductive InitDef (V : Type) : Type where
  | blockArgument (value : V)
  | constant (c : Constant)
  | unary (f : V → V) (operand : InitDef V)
  | other (value : V)

/-- The init value, from what the constants stand for. -/
def InitDef.eval {V : Type} (ofConstant : Constant → V) : InitDef V → V
  | .blockArgument value => value
  | .constant c => ofConstant c
  | .unary f operand => f (operand.eval ofConstant)
  | .other value => value

/-- What defines an input. -/
inductive InputDef : Type where
  | blockArgument
  | iota (dimension : ℕ)
  | other
  deriving DecidableEq

/-- `stablehlo.reduce`, without the shape of its inputs: as many inputs as init values and returned
values, distinct dimensions that are 32-bit numbers, and for each result whether it has users. -/
structure ReduceOp (V : Type) : Type where
  inputs : List InputDef
  initValues : List (InitDef V)
  elementTypeBitWidths : List ℕ
  dimensions : List ℕ
  body : Body V
  used : List Bool
  length_initValues : initValues.length = inputs.length
  length_returned : body.returned.length = inputs.length
  dimensions_nodup : dimensions.Nodup
  dimensions_lt : ∀ d ∈ dimensions, d < 2 ^ 31

/-! ## The pattern -/

/-- How the pattern stops: a null operation is looked at, or an operation is replaced by another
number of results. -/
inductive Stop : Type where
  | nullOperation
  | resultCount
  deriving DecidableEq

/-- The reductions of TTIR. -/
inductive TTIROp : Type where
  | sum | max | min | prod | reduceAnd | reduceOr | argMax
  deriving DecidableEq

/-- What is emitted: a reduction of the first input that drops the dimensions, in the place of one of
the results. -/
structure Emitted : Type where
  op : TTIROp
  dimArg : List ℤ
  result : ℕ
  deriving DecidableEq

/-- `TypicalInitReductionValue`. -/
inductive TypicalInitReductionValue : Type where
  | negInf | zero
  deriving DecidableEq

/-- `checkInitValue`. -/
def checkInitValue (initValue : Constant) (desired : TypicalInitReductionValue) : Bool :=
  match initValue, desired with
  -- one byte of the raw data is read, and extended with its sign
  | .bf16 bits, .negInf => (bits.setWidth 8).signExtend 16 = 0xff80#16
  | .bf16 bits, .zero => (bits.setWidth 8).signExtend 16 = 0x0000#16
  | .f32 bits, .negInf => bits = 0xff800000#32
  | .f32 bits, .zero => bits = 0x00000000#32 ∨ bits = 0x80000000#32
  | .f64 bits, .negInf => bits = 0xfff0000000000000#64
  | .f64 bits, .zero => bits = 0x0000000000000000#64 ∨ bits = 0x8000000000000000#64
  | .i32 value, .negInf => value = 0x80000000#32
  | .i32 value, .zero => value = 0#32
  | .i64 value, .negInf => value = 0x8000000000000000#64
  | .i64 value, .zero => value = 0#64
  | .i1 value, _ => value = false
  | .other, _ => false

/-- `verifyInitValue`: operations of one operand are passed over. -/
def verifyInitValue {V : Type} (desired : TypicalInitReductionValue) :
    InitDef V → Except Stop Bool
  | .blockArgument _ => .error .nullOperation
  | .constant c => .ok (checkInitValue c desired)
  | .unary _ operand => verifyInitValue desired operand
  | .other _ => .ok false

/-- The reduction of TTIR for an operation that is recognized. -/
def destOp : Combiner → TTIROp
  | .add => .sum
  | .max => .max
  | .min => .min
  | .mul => .prod
  | .and => .reduceAnd
  | .or => .reduceOr

namespace ReduceOp

variable {V : Type} (op : ReduceOp V)

/-- The operation that a reduction is recognized by: the first one of the body. -/
def firstCombiner : Option Combiner :=
  match op.body.ops.head? with
  | some (.combine combiner _ _) => some combiner
  | _ => none

/-- `checkConversionLegality`, of a body in one block. -/
def checkConversionLegality : Bool :=
  match op.firstCombiner with
  | some .and | some .or => op.elementTypeBitWidths.all fun width => width = 1
  | _ => true

/-- `matchAndRewriteInternal`. -/
def matchAndRewriteInternal (destOp : TTIROp) : Except Stop (Option Emitted) :=
  if op.inputs.length ≠ 1 then .error .resultCount
  else .ok (some ⟨destOp, op.dimensions.map toI32, 0⟩)

/-- `hasValidArgMaxInputs`. -/
def hasValidArgMaxInputs : Except Stop Bool :=
  match op.inputs with
  | [_, .blockArgument] => .error .nullOperation
  | [_, .iota _] => .ok true
  | _ => .ok false

/-- `hasValidArgMaxOutputs`. -/
def hasValidArgMaxOutputs : Bool :=
  match op.used with
  | [front, back] => !front && back
  | _ => false

/-- `hasValidArgMaxInitValues`. -/
def hasValidArgMaxInitValues : Except Stop Bool :=
  match op.initValues with
  | [front, back] => do
      if ← verifyInitValue .negInf front then verifyInitValue .zero back else pure false
  | _ => .ok false

/-- `verifyTorchOpArgMaxPattern`, in front of the return. -/
def verifyTorchOpArgMaxPattern : List (BodyOp V) → Bool
  | [.compare .ge _ _, .select _ _ _, .compare _ _ _, .combine .min _ _, .select _ _ _,
      .select _ _ _] => true
  | _ => false

/-- `verifyJaxOpArgMaxPattern`, in front of the return. -/
def verifyJaxOpArgMaxPattern : List (BodyOp V) → Bool
  | [.compare .gt _ _, .compare _ _ _, .combine .or _ _, .compare _ _ _, .compare _ _ _,
      .combine .and _ _, .combine .or _ _, .select _ _ _, .select _ _ _] => true
  | _ => false

/-- `hasValidArgMaxReducerBody`: seven operations, or ten, with the return. -/
def hasValidArgMaxReducerBody : Bool :=
  if op.body.ops.length + 1 = 7 then verifyTorchOpArgMaxPattern op.body.ops
  else if op.body.ops.length + 1 = 10 then verifyJaxOpArgMaxPattern op.body.ops
  else false

/-- `isArgMax`. -/
def isArgMax : Except Stop Bool := do
  if !(← op.hasValidArgMaxInputs) then return false
  if !op.hasValidArgMaxOutputs then return false
  if !(← op.hasValidArgMaxInitValues) then return false
  return op.hasValidArgMaxReducerBody

/-- `matchAndRewriteInternalArgMax`. -/
def matchAndRewriteInternalArgMax : Emitted := ⟨.argMax, op.dimensions.map toI32, 1⟩

/-- `StableHLOToTTIRReduceOpConversionPattern::matchAndRewrite`. -/
def matchAndRewrite : Except Stop (Option Emitted) :=
  if op.checkConversionLegality then
    match op.firstCombiner with
    | some combiner => op.matchAndRewriteInternal (destOp combiner)
    | none => op.isArgMax.map fun found =>
      if found then some op.matchAndRewriteInternalArgMax else none
  else .ok none

end ReduceOp

end StableHLO.Reduce
